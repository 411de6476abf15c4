import Flowchart.Proofs.Json.Readers
import Flowchart.Proofs.Label.Escaping

/-!
# Where a JSON value ends

A text that is read as a value is read as the same value without the blanks around it, and then neither
starts nor ends with a blank or a backtick (`read?_trim`). Behind a value nothing but its own end is
needed: no reader goes on into characters that are idle (`isIdle`), that is, into blanks and backticks
behind the text, so these are left as they are found (`Steady`). An idle character at the end would
therefore not be part of the value.

## Steady readers

A reader is steady if idle characters behind a text change nothing but what is left over: it finds
the same value, or fails, and leaves what it left before, with these characters behind it. Each
reader of the grammar is steady, and so is every way of putting readers together, given that what
stands behind a value is told from an idle character by its head.

## Main results

* `steady_of_fuel`: the readers of values, items and fields are steady, whatever their fuel.
* `exists_trim_append`: behind the space before a value, the trimmed text and blanks are left.
* `read?_trim`: it is read as the same value without them.
-/

namespace Flowchart.Json

/-! ### Idle characters -/

/-- The blanks of any script and the backtick: they start no value, and outside of strings no word or
number has one. -/
def isIdle (c : Char) : Bool := Text.isBlank c || c == '\x60'

/-- A text of idle characters. -/
def Idle (t : List Char) : Prop := ∀ c ∈ t, isIdle c = true

/-- Every blank is idle. -/
theorem isIdle_of_isBlank {c : Char} (h : Text.isBlank c = true) : isIdle c = true := by
  rw [isIdle, h, Bool.true_or]

/-- What may stand between the parts of a value is a blank. -/
theorem isBlank_of_isSpace {c : Char} (h : isSpace c = true) : Text.isBlank c = true := by
  simp only [isSpace, Bool.or_eq_true, beq_iff_eq] at h
  rcases h with ((rfl | rfl) | rfl) | rfl <;> decide

/-- An idle character is none that is not. -/
theorem ne_of_isIdle {c d : Char} (hc : isIdle c = true) (hd : isIdle d = false) : c ≠ d := by
  rintro rfl
  exact Bool.noConfusion (hc.symm.trans hd)

/-- An idle character is no digit. -/
theorem isDigit_of_isIdle {c : Char} (h : isIdle c = true) : c.isDigit = false := by
  rw [Bool.eq_false_iff]
  intro hdigit
  have hrange : 0x30 ≤ c.toNat ∧ c.toNat ≤ 0x39 := Char.isDigit_iff_toNat.mp hdigit
  simp only [isIdle, Text.isBlank, Bool.or_eq_true, Bool.and_eq_true, decide_eq_true_eq,
    beq_iff_eq] at h
  rcases h with h | rfl
  · omega
  · exact absurd hrange (by decide)

variable {t : List Char}

/-- A character that is not idle does not occur in an idle text. -/
theorem Idle.notMem (ht : Idle t) {d : Char} (hd : isIdle d = false) : d ∉ t :=
  fun h => ne_of_isIdle (ht d h) hd rfl

/-- Behind a text that does not start with a character, idle characters do not start with it. -/
theorem Idle.starts_or (ht : Idle t) {d : Char} (hd : isIdle d = false) (cs : List Char) :
    (∃ rest, cs = d :: rest) ∨ (∀ rest, cs ≠ d :: rest) ∧ ∀ rest, cs ++ t ≠ d :: rest := by
  cases cs with
  | nil =>
      refine Or.inr ⟨nofun, ?_⟩
      rintro rest rfl
      exact ht.notMem hd List.mem_cons_self
  | cons c cs =>
      by_cases hc : c = d
      · exact Or.inl ⟨cs, by rw [hc]⟩
      · exact Or.inr ⟨fun rest h => hc (List.cons.inj h).1, fun rest h => hc (List.cons.inj h).1⟩

/-- What is left of an idle text behind its space is idle. -/
theorem Idle.skipSpace (ht : Idle t) : Idle (skipSpace t) :=
  fun c hc => ht c ((List.dropWhile_suffix isSpace).mem hc)

/-! ### Readers that leave idle characters -/

/-- A reader that leaves idle characters behind a text: it reads what it reads of the text alone, and
nothing if it reads nothing of that. -/
def Steady {α : Type} (read : Reader α) : Prop :=
  ∀ cs {t}, Idle t → read (cs ++ t) = (read cs).map fun r => (r.1, r.2 ++ t)

namespace Steady

variable {α β : Type} {read other : Reader α}

/-- A reader that reads nothing is steady. -/
theorem done (a : α) : Steady (done a) := fun _ _ _ => rfl

/-- A reader that always fails is steady. -/
theorem fail : Steady (fail (α := α)) := fun _ _ _ => rfl

/-- A steady reader that fails at the end of a text fails on idle characters. -/
theorem nil (h : Steady read) (hnil : read [] = none) (ht : Idle t) : read t = none := by
  have hread := h [] ht
  rwa [List.nil_append, hnil] at hread

/-- Steady readers in a row are steady. -/
theorem andThen {next : α → Reader β} (h : Steady read) (hnext : ∀ a, Steady (next a)) :
    Steady (andThen read next) := by
  intro cs t ht
  rw [Json.andThen, h cs ht, Json.andThen]
  cases read cs with
  | none => rfl
  | some r => exact hnext r.1 r.2 ht

/-- A steady reader that fails at the end of a text stays steady if space is skipped before it. -/
theorem skipping (h : Steady read) (hnil : read [] = none) : Steady (skipping read) := by
  intro cs t ht
  rw [Json.skipping, Json.skipping, Json.skipSpace, List.dropWhile_append, Json.skipSpace]
  split_ifs with hempty
  · rw [List.isEmpty_iff.mp hempty, hnil]
    exact h.nil hnil ht.skipSpace
  · exact h _ ht

/-- A choice by the first character is steady if the readers are and that character is not idle. -/
theorem onHead {d : Char} (hd : isIdle d = false) (h : Steady read) (hother : Steady other) :
    Steady (onHead d read other) := by
  intro cs t ht
  cases cs with
  | nil =>
      have hread : Json.onHead d read other t = other t := by
        cases t with
        | nil => rfl
        | cons c t => exact if_neg (ne_of_isIdle (ht c List.mem_cons_self) hd)
      rw [List.nil_append, hread]
      exact hother [] ht
  | cons c cs =>
      rw [List.cons_append, Json.onHead, Json.onHead]
      split_ifs
      · exact h cs ht
      · exact hother (c :: cs) ht

end Steady

/-! ### Strings -/

/-- No string ends in a text without quotes. -/
theorem readUnits_eq_none (state : StringState) {cs : List Char} (h : '"' ∉ cs) :
    readUnits state cs = none := by
  induction cs generalizing state with
  | nil => cases state <;> rfl
  | cons c cs ih =>
      obtain ⟨hc, hcs⟩ := not_or.mp (fun h' => h (List.mem_cons.mpr h'))
      cases state with
      | plain => simp [readUnits, Ne.symm hc, ih _ hcs]
      | escape => simp [readUnits, ih _ hcs]
      | hex owed value => simp [readUnits, ih _ hcs]

/-- A string is read up to its quote, which is not idle. -/
theorem steady_readUnits (state : StringState) : Steady (readUnits state) := by
  intro cs t ht
  induction cs generalizing state with
  | nil =>
      rw [List.nil_append, readUnits_eq_none state (ht.notMem (by decide)),
        readUnits_eq_none state List.not_mem_nil]
      rfl
  | cons c cs ih =>
      rw [List.cons_append]
      cases state with
      | plain =>
          simp only [readUnits, ih]
          split_ifs
          · rfl
          · rfl
          · rfl
          · cases readUnits .plain cs <;> rfl
      | escape =>
          simp only [readUnits, ih]
          split_ifs
          · rfl
          · cases escaped? c <;> cases readUnits .plain cs <;> rfl
      | hex owed value =>
          simp only [readUnits, ih]
          cases hexDigit? c with
          | none => rfl
          | some d =>
              dsimp only [Option.bind_eq_bind, Option.bind_some]
              split_ifs
              · cases readUnits .plain cs <;> rfl
              · rfl

/-- So the reader of strings is steady. -/
theorem steady_readString : Steady readString := by
  intro cs t ht
  rw [readString, steady_readUnits .plain cs ht, readString]
  cases readUnits .plain cs <;> rfl

/-! ### Numbers and words -/

/-- Characters that are not taken at the end are left over. -/
theorem span_append_of_not {p : Char → Bool} (h : ∀ c ∈ t, p c = false) (cs : List Char) :
    (cs ++ t).takeWhile p = cs.takeWhile p ∧ (cs ++ t).dropWhile p = cs.dropWhile p ++ t := by
  have hnone : t.takeWhile p = [] ∧ t.dropWhile p = t := by
    cases t with
    | nil => exact ⟨rfl, rfl⟩
    | cons c t => simp [h c List.mem_cons_self]
  induction cs with
  | nil => exact hnone
  | cons c cs ih =>
      by_cases hc : p c = true
      · simp [hc, ih]
      · simp [hc]

/-- Idle characters behind digits are left over. -/
theorem Idle.digits (ht : Idle t) (cs : List Char) :
    (cs ++ t).takeWhile Char.isDigit = cs.takeWhile Char.isDigit ∧
      (cs ++ t).dropWhile Char.isDigit = cs.dropWhile Char.isDigit ++ t :=
  span_append_of_not (fun _ hc => isDigit_of_isIdle (ht _ hc)) cs

/-- Idle characters behind a fraction are left over. -/
theorem readFraction_append (cs : List Char) (ht : Idle t) :
    readFraction (cs ++ t) = ((readFraction cs).1, (readFraction cs).2 ++ t) := by
  have hnil : readFraction t = ([], t) := by
    rw [readFraction]
    rintro rest rfl
    exact ht.notMem (d := '.') (by decide) List.mem_cons_self
  cases cs with
  | nil => exact hnil
  | cons c cs =>
      by_cases hc : c = '.'
      · subst hc
        simp only [List.cons_append, readFraction, ht.digits]
        split_ifs <;> rfl
      · simp [readFraction, hc]

/-- Idle characters behind a sign are left over. -/
theorem takeSign_append (cs : List Char) (ht : Idle t) :
    Decimal.takeSign (cs ++ t) = ((Decimal.takeSign cs).1, (Decimal.takeSign cs).2 ++ t) := by
  have hnil : Decimal.takeSign t = (false, t) := by
    rw [Decimal.takeSign]
    · rintro rest rfl
      exact ht.notMem (d := '-') (by decide) List.mem_cons_self
    · rintro rest rfl
      exact ht.notMem (d := '+') (by decide) List.mem_cons_self
  cases cs with
  | nil => exact hnil
  | cons c cs =>
      by_cases hminus : c = '-'
      · subst hminus
        rfl
      · by_cases hplus : c = '+'
        · subst hplus
          rfl
        · simp [Decimal.takeSign, hminus, hplus]

/-- Idle characters behind an exponent are left over. -/
theorem readExponent_append (cs : List Char) (ht : Idle t) :
    readExponent (cs ++ t) = ((readExponent cs).1, (readExponent cs).2 ++ t) := by
  cases cs with
  | nil =>
      cases t with
      | nil => rfl
      | cons c t =>
          have hc : ¬(c = 'e' ∨ c = 'E') := by
            rintro (rfl | rfl)
            · exact ht.notMem (d := 'e') (by decide) List.mem_cons_self
            · exact ht.notMem (d := 'E') (by decide) List.mem_cons_self
          simp [readExponent, hc]
  | cons c cs =>
      simp only [List.cons_append, readExponent, takeSign_append cs ht, ht.digits]
      split_ifs <;> rfl

/-- Idle characters behind a whole number are left over. -/
theorem readWhole_append (cs : List Char) (ht : Idle t) :
    readWhole (cs ++ t) = ((readWhole cs).1, (readWhole cs).2 ++ t) := by
  rcases ht.starts_or (d := '0') (by decide) cs with ⟨rest, rfl⟩ | ⟨hcs, happend⟩
  · rfl
  · rw [readWhole.eq_2 _ hcs, readWhole.eq_2 _ happend, (ht.digits cs).1, (ht.digits cs).2]

/-- So the reader of numbers is steady. -/
theorem steady_readNumber (negative : Bool) : Steady (readNumber negative) := by
  intro cs t ht
  rw [readNumber_eq, readNumber_eq, readWhole_append cs ht, readFraction_append _ ht,
    readExponent_append _ ht]
  split_ifs
  · rfl
  · rw [Option.map_map]
    rfl

/-- A word that starts a text is the start of it without idle characters behind. -/
theorem isPrefixOf?_append {word : List Char} (hword : ∀ c ∈ word, isIdle c = false)
    (cs : List Char) (ht : Idle t) :
    word.isPrefixOf? (cs ++ t) = (word.isPrefixOf? cs).map (· ++ t) := by
  induction word generalizing cs with
  | nil => rfl
  | cons w word ih =>
      cases cs with
      | nil =>
          cases t with
          | nil => rfl
          | cons c t =>
              have hne : c ≠ w := ne_of_isIdle (ht c List.mem_cons_self) (hword w List.mem_cons_self)
              simp [List.isPrefixOf?, hne.symm]
      | cons c cs =>
          have htail := ih (fun d hd => hword d (List.mem_cons_of_mem w hd)) cs
          simp only [List.cons_append, List.isPrefixOf?, htail]
          split_ifs <;> rfl

/-- No constant has an idle character in it. -/
theorem isIdle_of_mem_constants :
    ∀ word ∈ constants.map Prod.fst, ∀ c ∈ word, isIdle c = false := by
  have hany : ∀ word ∈ constants.map Prod.fst, word.any isIdle = false := by decide
  intro word hword
  simpa using hany word hword

/-- So the reader of constants is steady. -/
theorem steady_readConstant : Steady readConstant := by
  intro cs t ht
  have hwords : ∀ words : List (List Char × Json),
      (∀ word ∈ words.map Prod.fst, ∀ c ∈ word, isIdle c = false) →
      (words.findSome? fun word =>
        (word.1.isPrefixOf? (cs ++ t)).map fun rest => (word.2, rest)) =
      (words.findSome? fun word =>
        (word.1.isPrefixOf? cs).map fun rest => (word.2, rest)).map fun r => (r.1, r.2 ++ t) := by
    intro words hwords
    induction words with
    | nil => rfl
    | cons word words ih =>
        obtain ⟨hword, hwords⟩ := List.forall_mem_cons.mp hwords
        rw [List.findSome?_cons, List.findSome?_cons, ih hwords, isPrefixOf?_append hword cs ht]
        cases word.1.isPrefixOf? cs <;> rfl
  exact hwords constants isIdle_of_mem_constants

/-- The reader of numbers with a sign is steady. -/
theorem steady_readSigned : Steady readSigned := by
  intro cs t ht
  rcases ht.starts_or (d := '-') (by decide) cs with ⟨rest, rfl⟩ | ⟨hcs, happend⟩
  · exact steady_readNumber true rest ht
  · rw [readSigned.eq_2 _ hcs, readSigned.eq_2 _ happend]
    exact steady_readNumber false cs ht

/-- The reader of values that hold no values is steady. -/
theorem steady_readScalar : Steady readScalar := by
  intro cs t ht
  rw [readScalar_eq, readScalar_eq, steady_readConstant cs ht, steady_readSigned cs ht,
    Option.map_or]

/-! ### Values -/

/-- Values, items and fields are read without the idle characters behind. -/
theorem steady_of_fuel (fuel : Nat) :
    Steady (readValue fuel) ∧ Steady (readItems fuel) ∧ Steady (readFields fuel) := by
  induction fuel with
  | zero => exact ⟨.fail, .fail, .fail⟩
  | succ fuel ih =>
      obtain ⟨hvalue, hitems, hfields⟩ := ih
      obtain ⟨hnovalue, hnoitems, hnofields⟩ := read_nil fuel
      have hlist : Steady (listBody fuel) :=
        .onHead (by decide) (.done _) (hitems.andThen fun _ => .done _)
      have hobject : Steady (objectBody fuel) :=
        .onHead (by decide) (.done _) (hfields.andThen fun _ => .done _)
      have hmore : ∀ item, Steady (afterItem fuel item) := fun item =>
        .onHead (by decide) (.done _) (.onHead (by decide)
          (.skipping (hitems.andThen fun _ => .done _) (by rw [andThen, hnoitems]; rfl)) .fail)
      have hmoreFields : ∀ field, Steady (afterField fuel field) := fun field =>
        .onHead (by decide) (.done _) (.onHead (by decide)
          (.skipping (hfields.andThen fun _ => .done _) (by rw [andThen, hnofields]; rfl)) .fail)
      have hname : ∀ name, Steady (afterName fuel name) := fun name =>
        .onHead (by decide) (.skipping (hvalue.andThen fun value =>
          .skipping (hmoreFields _) rfl) (by rw [andThen, hnovalue]; rfl)) .fail
      rw [readValue_succ, readItems_succ, readFields_succ]
      refine ⟨?_, ?_, ?_⟩
      · exact .onHead (by decide) (steady_readString.andThen fun _ => .done _)
          (.onHead (by decide) (hlist.skipping (by rw [listBody, onHead, andThen, hnoitems]; rfl))
            (.onHead (by decide)
              (hobject.skipping (by rw [objectBody, onHead, andThen, hnofields]; rfl))
              steady_readScalar))
      · exact hvalue.andThen fun item => (hmore item).skipping rfl
      · exact .onHead (by decide) (steady_readString.andThen fun name => (hname name).skipping rfl)
          .fail

/-! ### Trimmed texts -/

/-- No value starts with an idle character or the letter `j`. -/
theorem readValue_eq_none_of_isIdle {c : Char} (h : isIdle c = true ∨ c = 'j') (fuel : Nat)
    (cs : List Char) : readValue fuel (c :: cs) = none := by
  have hstarts : ∀ d ∈ 'j' :: starts, isIdle d = false := by
    have hany : ('j' :: starts).any isIdle = false := by decide
    simpa using hany
  rcases h with h | rfl
  · exact readValue_cons_eq_none (fun hc => Bool.noConfusion
      (h.symm.trans (hstarts c (List.mem_cons_of_mem _ hc)))) (isDigit_of_isIdle h) fuel cs
  · exact readValue_cons_eq_none (by decide) (by decide) fuel cs

/-- What is read starts with a character that is not idle, and not with a `j`. -/
theorem exists_cons_of_readValue {fuel : Nat} {cs : List Char} {r : Json × List Char}
    (h : readValue fuel cs = some r) : ∃ c rest, cs = c :: rest ∧ isIdle c = false ∧ c ≠ 'j' := by
  cases cs with
  | nil => exact absurd ((read_nil fuel).1.symm.trans h) nofun
  | cons c cs =>
      have hc : ¬(isIdle c = true ∨ c = 'j') := by
        intro hc
        rw [readValue_eq_none_of_isIdle hc] at h
        exact absurd h nofun
      exact ⟨c, cs, rfl, Bool.eq_false_iff.mpr (not_or.mp hc).1, (not_or.mp hc).2⟩

/-- Behind the blanks of JSON no other blank stands before what is read. -/
theorem exists_trim_append {fuel : Nat} {cs : List Char} {r : Json × List Char}
    (h : readValue fuel (skipSpace cs) = some r) :
    ∃ blanks, skipSpace cs = Text.trim cs ++ blanks ∧ Idle blanks := by
  obtain ⟨c, rest, hskip, hc, -⟩ := exists_cons_of_readValue h
  have hstart : Text.trimStart (skipSpace cs) = skipSpace cs := by
    rw [hskip, Text.trimStart, List.dropWhile_cons_of_neg]
    exact fun hblank => Bool.noConfusion (hc.symm.trans (isIdle_of_isBlank hblank))
  have hspaces : Text.allBlank (cs.takeWhile isSpace) = true :=
    List.all_eq_true.mpr fun d hd => isBlank_of_isSpace (List.mem_takeWhile_imp hd)
  have htrim : Text.trim cs = Text.trimEnd (skipSpace cs) := by
    calc Text.trim cs = Text.trim (cs.takeWhile isSpace ++ skipSpace cs) := by
          rw [skipSpace, List.takeWhile_append_dropWhile]
      _ = Text.trimEnd (skipSpace cs) := by
          rw [Text.trim_allBlank_append hspaces, Text.trim, hstart]
  obtain ⟨blanks, hbody, hblanks⟩ := Text.exists_eq_dropEndWhile_append Text.isBlank (skipSpace cs)
  exact ⟨blanks, by rw [htrim]; exact hbody, fun d hd => isIdle_of_isBlank (hblanks d hd)⟩

/-- A text that is read as a value is read as the same value when the blanks around it are trimmed. What
is left starts and ends with a character that is not idle, and does not start with a `j`. -/
theorem read?_trim {maxHeight : Nat} {text : String} {j : Json} (h : read? maxHeight text = some j) :
    read? maxHeight (String.ofList (Text.trim text.toList)) = some j ∧
      (∃ c cs, Text.trim text.toList = c :: cs ∧ isIdle c = false ∧ c ≠ 'j') ∧
      ∃ cs c, Text.trim text.toList = cs ++ [c] ∧ isIdle c = false := by
  simp only [read?] at h
  split at h
  case h_2 => exact absurd h nofun
  case h_1 value rest hread =>
    split_ifs at h with hend
    obtain rfl := Option.some.inj h
    obtain ⟨hrest, hheight⟩ := Bool.and_eq_true_iff.mp hend
    obtain ⟨blanks, hbody, hblanks⟩ := exists_trim_append hread
    -- the value is read without the blanks, which are left behind it
    rw [hbody, (steady_of_fuel _).1 _ hblanks] at hread
    obtain ⟨⟨_, rest'⟩, hused, heq⟩ := Option.map_eq_some_iff.mp hread
    obtain ⟨rfl, rfl⟩ := Prod.mk.inj heq
    have hspaces : ∀ c ∈ rest', isSpace c = true := by
      intro c hc
      exact List.dropWhile_eq_nil_iff.mp (List.isEmpty_iff.mp hrest) c (List.mem_append_left _ hc)
    obtain ⟨c, cs, htrim, hc, hj⟩ := exists_cons_of_readValue hused
    have hspace : isSpace c = false :=
      Bool.eq_false_iff.mpr fun hc' => Bool.noConfusion
        (hc.symm.trans (isIdle_of_isBlank (isBlank_of_isSpace hc')))
    have hskip : skipSpace (Text.trim text.toList) = Text.trim text.toList := by
      rw [htrim, skipSpace, List.dropWhile_cons_of_neg (by simp [hspace])]
    refine ⟨?_, ⟨c, cs, htrim, hc, hj⟩, ?_⟩
    · have hread := ((enough_of_fuel _).1 _ _ hused).2 ((Text.trim text.toList).length + 1) (by omega)
      have hempty : skipSpace rest' = [] := List.dropWhile_eq_nil_iff.mpr hspaces
      simp [read?, hskip, hread, hempty, hheight]
    · obtain ⟨front, d, hlast⟩ := (List.eq_nil_or_concat (Text.trim text.toList)).resolve_left
        (htrim ▸ List.cons_ne_nil c cs)
      rw [List.concat_eq_append] at hlast
      refine ⟨front, d, hlast, Bool.eq_false_iff.mpr fun hd => ?_⟩
      -- an idle character at the end would be left behind the value, and so it would be a blank
      have hidle : Idle [d] := List.forall_mem_singleton.mpr hd
      rw [hlast, (steady_of_fuel _).1 _ hidle] at hused
      obtain ⟨r, -, heq⟩ := Option.map_eq_some_iff.mp hused
      have hmem : d ∈ rest' := by
        rw [← (Prod.mk.inj heq).2]
        exact List.mem_append_right _ List.mem_cons_self
      have hblank := (Text.isTrimmed_trim text.toList).2 d (by simp [hlast])
      exact Bool.noConfusion (hblank.symm.trans (isBlank_of_isSpace (hspaces d hmem)))

end Flowchart.Json
