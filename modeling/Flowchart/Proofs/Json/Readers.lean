import Flowchart.Json.Reader
import Flowchart.Proofs.Text

/-!
# The steps of the JSON reader

One step of the reader looks at the first character and then puts smaller readers together: one
behind another (`andThen`), behind blanks (`skipping`), or behind a character that decides between two
(`onHead`). So what is shown of these holds of the whole reader (`readValue_succ`, `readItems_succ`,
`readFields_succ`).

The fuel of the reader is no part of what it reads: a value needs no more of it than it has characters
(`enough_of_fuel`), and what is read with more is read with less.

## Readers that take something

A reader `Takes` if what is left over of a text that it reads is shorter than the text. Only such
readers may be followed by the reader of values with the same fuel, and `Enough` counts this: with
`spare` characters less than there is fuel, more fuel changes nothing.

## Main results

* `readValue_succ`, `readItems_succ`, `readFields_succ`: one step of the reader.
* `enough_of_fuel`: the length of a text is fuel enough.
-/

namespace Flowchart.Json

/-! ### Readers -/

/-- A reader of a value at the start of a text, with the text behind it. -/
abbrev Reader (α : Type) := List Char → Option (α × List Char)

/-- The reader that goes on with `read` behind a character, and with `other` where this is not the first
one. -/
def onHead {α : Type} (d : Char) (read other : Reader α) : Reader α
  | c :: cs => if c = d then read cs else other (c :: cs)
  | [] => other []

/-- Where the first character is another one, the other reader reads. -/
theorem onHead_eq_other {α : Type} {d : Char} {read other : Reader α} {cs : List Char}
    (h : ∀ rest, cs = d :: rest → False) : onHead d read other cs = other cs := by
  cases cs with
  | nil => rfl
  | cons c cs => exact if_neg fun hc => h cs (by rw [hc])

/-- One reader after another. -/
def andThen {α β : Type} (read : Reader α) (next : α → Reader β) : Reader β := fun cs =>
  (read cs).bind fun r => next r.1 r.2

/-- A reader behind blanks. -/
def skipping {α : Type} (read : Reader α) : Reader α := fun cs => read (skipSpace cs)

/-- The reader that has all it needs. -/
def done {α : Type} (a : α) : Reader α := fun cs => some (a, cs)

/-- The reader that has come upon something else than what it needs. -/
def fail {α : Type} : Reader α := fun _ => none

/-! ### Numbers and words -/

/-- The digits before the point of a number. -/
def readWhole (cs : List Char) : List Char × List Char :=
  match cs with
  | '0' :: rest => (['0'], rest)
  | cs => (cs.takeWhile Char.isDigit, cs.dropWhile Char.isDigit)

/-- The number that is made of its parts. -/
def numberOf? (negative : Bool) (whole : List Char) : List Char → Option Int → Option Json
  | [], none =>
    if whole.length ≤ Decimal.maxDigits then
      some (.int (if negative then -(digitsValue whole : Int) else digitsValue whole))
    else none
  | fraction, exponent =>
    some (.float (Decimal.signed negative (Decimal.toFloat (digitsValue (whole ++ fraction))
      (exponent.getD 0 - fraction.length))))

/-- A number is read as its parts one after another. -/
theorem readNumber_eq (negative : Bool) (cs : List Char) :
    readNumber negative cs =
      if (readWhole cs).1.isEmpty then none
      else
        (numberOf? negative (readWhole cs).1 (readFraction (readWhole cs).2).1
          (readExponent (readFraction (readWhole cs).2).2).1).map fun j =>
            (j, (readExponent (readFraction (readWhole cs).2).2).2) := by
  unfold readNumber
  split
  next whole rest hwhole =>
    replace hwhole : readWhole cs = (whole, rest) := hwhole
    rcases hfraction : readFraction rest with ⟨fraction, rest'⟩
    rcases hexponent : readExponent rest' with ⟨exponent, rest''⟩
    simp only [hwhole, hfraction, hexponent]
    congr 1
    cases fraction with
    | cons d ds => rfl
    | nil =>
        cases exponent with
        | some e => rfl
        | none =>
            rw [numberOf?]
            split_ifs <;> rfl

/-- A word that is a value. -/
def readConstant (cs : List Char) : Option (Json × List Char) :=
  constants.findSome? fun (word, value) => (word.isPrefixOf? cs).map fun rest => (value, rest)

/-- A number with or without a sign. -/
def readSigned (cs : List Char) : Option (Json × List Char) :=
  match cs with
  | '-' :: rest => readNumber true rest
  | _ => readNumber false cs

/-- A value that holds no values is a constant or a number with a sign. -/
theorem readScalar_eq (cs : List Char) : readScalar cs = (readConstant cs).or (readSigned cs) := by
  unfold readScalar readConstant
  split
  next found hfound => rw [hfound, Option.some_or]
  next hnone =>
    rw [hnone, Option.none_or]
    rfl

/-! ### Values -/

/-- What is read behind the bracket that opens a list. -/
def listBody (fuel : Nat) : Reader Json :=
  onHead ']' (done (.arr [])) (andThen (readItems fuel) fun items => done (.arr items))

/-- What is read behind the brace that opens an object. -/
def objectBody (fuel : Nat) : Reader Json :=
  onHead '\x7d' (done (.obj [])) (andThen (readFields fuel) fun fields => done (.obj (putAll fields)))

/-- What is read behind an item of a list. -/
def afterItem (fuel : Nat) (item : Json) : Reader (List Json) :=
  onHead ']' (done [item])
    (onHead ',' (skipping (andThen (readItems fuel) fun items => done (item :: items))) fail)

/-- What is read behind a field of an object. -/
def afterField (fuel : Nat) (field : String × Json) : Reader (List (String × Json)) :=
  onHead '\x7d' (done [field])
    (onHead ',' (skipping (andThen (readFields fuel) fun fields => done (field :: fields))) fail)

/-- What is read behind the name of a field. -/
def afterName (fuel : Nat) (name : String) : Reader (List (String × Json)) :=
  onHead ':' (skipping (andThen (readValue fuel) fun value => skipping (afterField fuel (name, value))))
    fail

/-- One step of the reader of items: a value, and then what follows an item. -/
theorem readItems_succ (fuel : Nat) :
    readItems (fuel + 1) = andThen (readValue fuel) fun item => skipping (afterItem fuel item) := by
  funext cs
  rw [readItems, andThen]
  refine Option.bind_congr fun (item, rest) _ => ?_
  dsimp only [skipping]
  split
  next rest hskip => rw [hskip]; rfl
  next rest hskip => rw [hskip]; rfl
  next hclose hcomma => rw [afterItem, onHead_eq_other hclose, onHead_eq_other hcomma]; rfl

/-- One step of the reader of fields: a name, and then what follows a name. -/
theorem readFields_succ (fuel : Nat) :
    readFields (fuel + 1) =
      onHead '"' (andThen readString fun name => skipping (afterName fuel name)) fail := by
  funext cs
  unfold readFields
  split
  next rest =>
    refine Option.bind_congr fun (name, rest) _ => ?_
    dsimp only [skipping]
    split
    next rest hskip =>
      rw [hskip]
      refine Option.bind_congr fun (value, rest) _ => ?_
      dsimp only [skipping]
      split
      next rest hskip => rw [hskip]; rfl
      next rest hskip => rw [hskip]; rfl
      next hclose hcomma => rw [afterField, onHead_eq_other hclose, onHead_eq_other hcomma]; rfl
    next hcolon => rw [afterName, onHead_eq_other hcolon]; rfl
  next hquote => rw [onHead_eq_other hquote]; rfl

/-- One step of the reader of values: the first character decides. -/
theorem readValue_succ (fuel : Nat) :
    readValue (fuel + 1) = onHead '"' (andThen readString fun s => done (.str s))
      (onHead '[' (skipping (listBody fuel))
        (onHead '\x7b' (skipping (objectBody fuel)) readScalar)) := by
  funext cs
  unfold readValue
  split
  next rest => rfl
  next rest =>
    dsimp only [onHead, skipping]
    split
    next rest hskip => rw [hskip]; rfl
    next hclose => rw [listBody, onHead_eq_other hclose]; rfl
  next rest =>
    dsimp only [onHead, skipping]
    split
    next rest hskip => rw [hskip]; rfl
    next hclose => rw [objectBody, onHead_eq_other hclose]; rfl
  next hquote hlist hobject =>
    rw [onHead_eq_other hquote, onHead_eq_other hlist, onHead_eq_other hobject]

/-- Nothing is read of nothing. -/
theorem read_nil (fuel : Nat) :
    readValue fuel [] = none ∧ readItems fuel [] = none ∧ readFields fuel [] = none := by
  have hvalue : ∀ fuel, readValue fuel [] = none := by
    intro fuel
    cases fuel <;> rfl
  cases fuel with
  | zero => exact ⟨rfl, rfl, rfl⟩
  | succ fuel => exact ⟨hvalue _, by rw [readItems_succ, andThen, hvalue]; rfl, rfl⟩

/-- What a value starts with. -/
def starts : List Char := ['"', '[', '\x7b', 'n', 't', 'f', 'N', 'I', '-']

/-- A text that starts with another character is not read. -/
theorem readValue_cons_eq_none {c : Char} (h : c ∉ starts) (hdigit : c.isDigit = false) (fuel : Nat)
    (cs : List Char) : readValue fuel (c :: cs) = none := by
  cases fuel with
  | zero => rfl
  | succ fuel =>
      have hne : ∀ d ∈ starts, c ≠ d := by
        rintro d hd rfl
        exact h hd
      have hbeq : ∀ d ∈ starts, (d == c) = false := fun d hd =>
        beq_eq_false_iff_ne.mpr (hne d hd).symm
      have hzero : c ≠ '0' := by
        rintro rfl
        exact absurd hdigit (by decide)
      simp only [starts, List.forall_mem_cons] at hne hbeq
      simp [readValue, readScalar, constants, List.isPrefixOf?, hne, hbeq, readNumber, hzero, hdigit]

/-! ### Fuel -/

/-- A reader with fuel that takes at least one character and needs no more fuel than it takes
characters, or `spare` fewer. -/
def Enough {α : Type} (spare fuel : Nat) (read : Nat → Reader α) : Prop :=
  ∀ cs r, read fuel cs = some r → r.2.length < cs.length ∧
    ∀ fuel', cs.length ≤ fuel' + r.2.length + spare → read fuel' cs = some r

namespace Enough

variable {α β : Type} {spare fuel : Nat} {read other : Nat → Reader α}

/-- For failing any fuel is enough. -/
theorem fail : Enough spare fuel fun _ => fail (α := α) := nofun

/-- What needs a character to spare needs none less. -/
theorem weaken (h : Enough 1 fuel read) : Enough 0 fuel read := fun cs r hread =>
  ⟨(h cs r hread).1, fun fuel' hfuel => (h cs r hread).2 fuel' (by omega)⟩

/-- A reader behind blanks has no fewer characters to take. -/
theorem skipping (h : Enough spare fuel read) : Enough spare fuel fun f => skipping (read f) := by
  intro cs r hread
  obtain ⟨hlength, henough⟩ := h _ r hread
  have hskip : (skipSpace cs).length ≤ cs.length := List.length_dropWhile_le isSpace cs
  exact ⟨by omega, fun fuel' hfuel => henough fuel' (by omega)⟩

/-- Of two readers each takes a character that the other needs no fuel for. -/
theorem andThen {next : α → Nat → Reader β} (h : Enough 0 fuel read)
    (hnext : ∀ a, Enough 0 fuel (next a)) :
    Enough 1 fuel fun f => andThen (read f) fun a => next a f := by
  intro cs r hread
  obtain ⟨⟨a, rest⟩, hfirst, hsecond⟩ := Option.bind_eq_some_iff.mp hread
  obtain ⟨hlength, henough⟩ := h _ _ hfirst
  obtain ⟨hlength', henough'⟩ := hnext a _ _ hsecond
  dsimp only at hlength henough hlength' henough'
  refine ⟨by omega, fun fuel' hfuel => Option.bind_eq_some_iff.mpr ⟨(a, rest), ?_, ?_⟩⟩
  · exact henough fuel' (by omega)
  · exact henough' fuel' (by omega)

/-- What is made of a value needs no fuel. -/
theorem map (h : Enough spare fuel read) (f : α → β) :
    Enough spare fuel fun n => Json.andThen (read n) fun a => done (f a) := by
  intro cs r hread
  obtain ⟨⟨a, rest⟩, hfirst, heq⟩ := Option.bind_eq_some_iff.mp hread
  obtain rfl := Option.some.inj heq
  obtain ⟨hlength, henough⟩ := h _ _ hfirst
  exact ⟨hlength, fun fuel' hfuel =>
    Option.bind_eq_some_iff.mpr ⟨(a, rest), henough fuel' hfuel, rfl⟩⟩

/-- The character that decides how to go on is taken itself. -/
theorem head {d : Char} {first : Nat → Reader α}
    (hfirst : ∀ cs r, first fuel cs = some r → r.2.length ≤ cs.length ∧
      ∀ fuel', cs.length + 1 ≤ fuel' + r.2.length + spare → first fuel' cs = some r)
    (hother : Enough spare fuel other) :
    Enough spare fuel fun f => Json.onHead d (first f) (other f) := by
  intro cs r hread
  dsimp only at hread ⊢
  cases cs with
  | nil => exact hother _ _ hread
  | cons c cs =>
      simp only [Json.onHead] at hread ⊢
      split_ifs at hread ⊢
      · obtain ⟨hlength, henough⟩ := hfirst _ _ hread
        exact ⟨Nat.lt_succ_of_le hlength, henough⟩
      · exact hother _ _ hread

/-- A choice by the first character takes a character, so the chosen reader has one to spare. -/
theorem onHead {d : Char} (h : Enough 0 fuel read) (hother : Enough 1 fuel other) :
    Enough 1 fuel fun f => Json.onHead d (read f) (other f) :=
  head (fun cs r hread => ⟨Nat.le_of_lt (h cs r hread).1, fun fuel' hfuel =>
    (h cs r hread).2 fuel' (by omega)⟩) hother

/-- A value that is known by its first character needs no fuel. -/
theorem onHead_done {d : Char} {a : α} (hother : Enough spare fuel other) :
    Enough spare fuel fun f => Json.onHead d (done a) (other f) := by
  refine head (fun cs r hread => ?_) hother
  obtain rfl := Option.some.inj hread
  exact ⟨Nat.le_refl _, fun _ _ => rfl⟩

/-- A step of a reader takes one unit of fuel. -/
theorem succ {body : Nat → Reader α} (h : Enough 1 fuel body) (hread : ∀ f, read (f + 1) = body f) :
    Enough 0 (fuel + 1) read := by
  intro cs r hsome
  rw [hread] at hsome
  obtain ⟨hlength, henough⟩ := h _ _ hsome
  refine ⟨hlength, fun fuel' hfuel => ?_⟩
  obtain ⟨f, rfl⟩ := Nat.exists_eq_add_one_of_ne_zero (show fuel' ≠ 0 by omega)
  rw [hread]
  exact henough f (by omega)

end Enough

/-- A reader without fuel that takes at least one character. -/
def Takes {α : Type} (read : Reader α) : Prop := ∀ cs r, read cs = some r → r.2.length < cs.length

/-- A reader without fuel has enough of it. -/
theorem Takes.enough {α : Type} {read : Reader α} (h : Takes read) (spare fuel : Nat) :
    Enough spare fuel fun _ => read := fun cs r hread => ⟨h cs r hread, fun _ _ => hread⟩

/-- The units of a string are taken from the text. -/
theorem takes_readUnits (state : StringState) : Takes (readUnits state) := by
  intro cs r hread
  induction cs generalizing state r with
  | nil => cases state <;> exact absurd hread nofun
  | cons c cs ih =>
      have hbehind : ∀ {u : Nat} {r : List Nat × List Char},
          (readUnits .plain cs).bind (fun s => some (u :: s.1, s.2)) = some r →
            r.2.length < (c :: cs).length := by
        intro u r hr
        obtain ⟨s, hs, hr⟩ := Option.bind_eq_some_iff.mp hr
        obtain rfl := Option.some.inj hr
        exact Nat.lt_succ_of_lt (ih .plain s hs)
      cases state with
      | plain =>
          simp only [readUnits] at hread
          split_ifs at hread
          · obtain rfl := Option.some.inj hread
            exact Nat.lt_succ_self _
          · exact Nat.lt_succ_of_lt (ih _ _ hread)
          · exact hbehind hread
      | escape =>
          simp only [readUnits] at hread
          split_ifs at hread
          · exact Nat.lt_succ_of_lt (ih _ _ hread)
          · obtain ⟨e, -, hread⟩ := Option.bind_eq_some_iff.mp hread
            exact hbehind hread
      | hex owed value =>
          simp only [readUnits] at hread
          obtain ⟨d, -, hread⟩ := Option.bind_eq_some_iff.mp hread
          split_ifs at hread
          · exact hbehind hread
          · exact Nat.lt_succ_of_lt (ih _ _ hread)

/-- A string is taken from the text. -/
theorem takes_readString : Takes readString := by
  intro cs r hread
  obtain ⟨s, hs, hread⟩ := Option.bind_eq_some_iff.mp hread
  obtain rfl := Option.some.inj hread
  exact takes_readUnits .plain _ _ hs

/-- What a fraction leaves over is an end of the text. -/
theorem suffix_readFraction (cs : List Char) : (readFraction cs).2 <:+ cs := by
  unfold readFraction
  split
  · dsimp only
    split_ifs
    · exact List.suffix_rfl
    · exact (List.dropWhile_suffix _).trans (List.suffix_cons _ _)
  · exact List.suffix_rfl

/-- What a sign leaves over is an end of the text. -/
theorem suffix_takeSign (cs : List Char) : (Decimal.takeSign cs).2 <:+ cs := by
  unfold Decimal.takeSign
  split
  · exact List.suffix_cons _ _
  · exact List.suffix_cons _ _
  · exact List.suffix_rfl

/-- What an exponent leaves over is an end of the text. -/
theorem suffix_readExponent (cs : List Char) : (readExponent cs).2 <:+ cs := by
  cases cs with
  | nil => exact List.suffix_rfl
  | cons c cs =>
      have hdigits : (Decimal.takeSign cs).2.dropWhile Char.isDigit <:+ c :: cs :=
        ((List.dropWhile_suffix _).trans (suffix_takeSign cs)).trans (List.suffix_cons c cs)
      simp only [readExponent]
      split_ifs
      · exact List.suffix_rfl
      · exact hdigits
      · exact hdigits
      · exact List.suffix_rfl

/-- A whole number and what it leaves over are the text. -/
theorem readWhole_fst_append (cs : List Char) : (readWhole cs).1 ++ (readWhole cs).2 = cs := by
  unfold readWhole
  split
  · rfl
  · exact List.takeWhile_append_dropWhile

/-- A number is taken from the text. -/
theorem takes_readNumber (negative : Bool) : Takes (readNumber negative) := by
  intro cs r hread
  rw [readNumber_eq] at hread
  split_ifs at hread with hwhole
  obtain ⟨j, -, rfl⟩ := Option.map_eq_some_iff.mp hread
  have hsuffix : (readExponent (readFraction (readWhole cs).2).2).2 <:+ (readWhole cs).2 :=
    (suffix_readExponent _).trans (suffix_readFraction _)
  have hpos : 0 < (readWhole cs).1.length :=
    List.length_pos_iff.mpr fun hnil => hwhole (by rw [hnil]; rfl)
  have hlength := congrArg List.length (readWhole_fst_append cs)
  rw [List.length_append] at hlength
  exact Nat.lt_of_le_of_lt hsuffix.length_le (by omega)

/-- A constant is taken from the text. -/
theorem takes_readConstant : Takes readConstant := by
  intro cs r hread
  obtain ⟨word, hword, hread⟩ := List.exists_of_findSome?_eq_some hread
  obtain ⟨rest, hrest, rfl⟩ := Option.map_eq_some_iff.mp hread
  have hpos : 0 < word.1.length := by
    have hall : ∀ w ∈ constants.map Prod.fst, 0 < w.length := by decide
    exact hall _ (List.mem_map_of_mem hword)
  have hlength := congrArg List.length (List.isPrefixOf?_eq_some_iff_append_eq.mp hrest)
  rw [List.length_append] at hlength
  dsimp only
  omega

/-- So is every value that holds no values. -/
theorem takes_readScalar : Takes readScalar := by
  intro cs r hread
  rw [readScalar_eq, Option.or_eq_some_iff] at hread
  rcases hread with hread | ⟨-, hread⟩
  · exact takes_readConstant _ _ hread
  · unfold readSigned at hread
    split at hread
    · exact Nat.lt_succ_of_lt (takes_readNumber _ _ _ hread)
    · exact takes_readNumber _ _ _ hread

/-- Values, items and fields need no more fuel than they have characters. -/
theorem enough_of_fuel (fuel : Nat) :
    Enough 0 fuel readValue ∧ Enough 0 fuel readItems ∧ Enough 0 fuel readFields := by
  induction fuel with
  | zero => exact ⟨nofun, nofun, nofun⟩
  | succ fuel ih =>
      obtain ⟨hvalue, hitems, hfields⟩ := ih
      have hlist : Enough 0 fuel listBody := .onHead_done (hitems.map _)
      have hobject : Enough 0 fuel objectBody := .onHead_done (hfields.map _)
      have hmore : ∀ item, Enough 1 fuel fun f => afterItem f item := fun item =>
        .onHead_done (.onHead (.skipping (hitems.map _)) .fail)
      have hmoreFields : ∀ field, Enough 1 fuel fun f => afterField f field := fun field =>
        .onHead_done (.onHead (.skipping (hfields.map _)) .fail)
      have hname : ∀ name, Enough 1 fuel fun f => afterName f name := fun name =>
        .onHead (.skipping (.weaken (hvalue.andThen fun value =>
          (hmoreFields _).weaken.skipping))) .fail
      refine ⟨.succ ?_ readValue_succ, .succ ?_ readItems_succ, .succ ?_ readFields_succ⟩
      · exact .onHead ((takes_readString.enough 0 fuel).map _)
          (.onHead hlist.skipping (.onHead hobject.skipping (takes_readScalar.enough 1 fuel)))
      · exact hvalue.andThen fun item => (hmore item).weaken.skipping
      · exact .onHead (((takes_readString.enough 0 fuel).andThen
          fun name => (hname name).weaken.skipping).weaken) .fail

end Flowchart.Json
