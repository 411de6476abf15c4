import Flowchart.Json.Writer
import Flowchart.Proofs.Json.Legible

/-!
# What is written is read

A value without doubles is read back from the lines that it is written on, if it can be read from any
text (`read?_writeIndented`). The reader has no need to look ahead: a string ends at the quote that is
not escaped, a number at the comma or the line end that comes after it (`IsBreak`), and a list or an
object at its bracket. So a written value is read whatever comes after it (`ReadsAs`), with fuel for
the length of its text, and the texts of values are put together as the values are.

## What is not read back

Doubles are left out: their text is read as the nearest double, and whether that is the one that was
written is a question of rounding. So are objects in which a name occurs twice, since the later
value of a name takes the place of the earlier one (`putAll`), and whole numbers with more digits
than a reader takes. A value without any of these is `Plain`.

## Main results

* `readString_writeString`, `readValue_toString`: strings and whole numbers are read as written.
* `readItems_lines`, `readFields_lines`: so are items and fields on lines of their own.
* `readsAs_writeIndented`: every plain value is, at whatever depth and whatever comes after it.
* `read?_writeIndented`: so a whole text is, if the value is no higher than a reader goes.
-/

namespace Flowchart.Json

/-! ### Strings -/

/-- The 16-bit units of a character: itself, or a pair of surrogates. -/
def unitsOf (c : Char) : List Nat :=
  if c.toNat < 0x10000 then [c.toNat]
  else [0xD800 + (c.toNat - 0x10000) / 0x400, 0xDC00 + (c.toNat - 0x10000) % 0x400]

/-- No character is a surrogate, and none lies beyond the last plane. -/
theorem toNat_bounds (c : Char) : c.toNat < 0xD800 ∨ 0xDFFF < c.toNat ∧ c.toNat < 0x110000 :=
  c.valid

/-- The units of a character are joined to the character. -/
theorem joinUnits_unitsOf (c : Char) (us : List Nat) :
    joinUnits (unitsOf c ++ us) = c :: joinUnits us := by
  have hc := toNat_bounds c
  rw [unitsOf]
  split
  · have hsingle : ¬(0xD800 ≤ c.toNat ∧ c.toNat ≤ 0xDFFF) := by omega
    cases us with
    | nil =>
        simp only [List.cons_append, List.nil_append, joinUnits, if_neg hsingle, Char.ofNat_toNat]
    | cons v us =>
        have hpair : ¬(0xD800 ≤ c.toNat ∧ c.toNat ≤ 0xDBFF ∧ 0xDC00 ≤ v ∧ v ≤ 0xDFFF) := by omega
        simp only [List.cons_append, List.nil_append, joinUnits, if_neg hpair, if_neg hsingle,
          Char.ofNat_toNat]
  · obtain ⟨k, hk⟩ : ∃ k, c.toNat = 0x10000 + k := ⟨c.toNat - 0x10000, by omega⟩
    have hpair : 0xD800 ≤ 0xD800 + k / 0x400 ∧ 0xD800 + k / 0x400 ≤ 0xDBFF ∧
        0xDC00 ≤ 0xDC00 + k % 0x400 ∧ 0xDC00 + k % 0x400 ≤ 0xDFFF := by omega
    have hsum : 0x10000 + (0xD800 + k / 0x400 - 0xD800) * 0x400 + (0xDC00 + k % 0x400 - 0xDC00) =
        c.toNat := by omega
    rw [hk, Nat.add_sub_cancel_left]
    simp only [List.cons_append, List.nil_append, joinUnits, if_pos hpair, hsum, Char.ofNat_toNat]

/-- Characters that are taken apart into units are put together again. -/
theorem joinUnits_flatMap_unitsOf (cs : List Char) : joinUnits (cs.flatMap unitsOf) = cs := by
  induction cs with
  | nil => rfl
  | cons c cs ih => rw [List.flatMap_cons, joinUnits_unitsOf, ih]

/-- Puts units before those that are read from a text. -/
def withUnits (us : List Nat) (read : Option (List Nat × List Char)) :
    Option (List Nat × List Char) :=
  read.map fun (units, rest) => (us ++ units, rest)

/-- Units that are put before a read text in two steps are put there together. -/
theorem withUnits_withUnits (us vs : List Nat) (read : Option (List Nat × List Char)) :
    withUnits us (withUnits vs read) = withUnits (us ++ vs) read := by
  cases read with
  | none => rfl
  | some found => simp [withUnits]

/-- A hexadecimal digit is read as its value. -/
theorem hexDigit?_digitChar : ∀ d < 16, hexDigit? (Nat.digitChar d) = some d := by decide

/-- A digit of a numbered escape counts for its value, and the last one completes the unit. -/
theorem readUnits_hex {d : Nat} (h : d < 16) (owed value : Nat) (cs : List Char) :
    readUnits (.hex owed value) (Nat.digitChar d :: cs) =
      if owed ≤ 1 then withUnits [value * 16 + d] (readUnits .plain cs)
      else readUnits (.hex (owed - 1) (value * 16 + d)) cs := by
  rw [readUnits, hexDigit?_digitChar d h]
  cases readUnits .plain cs <;> rfl

/-- A numbered escape is read as its unit. -/
theorem readUnits_escapeUnit {u : Nat} (h : u < 0x10000) (cs : List Char) :
    readUnits .plain (escapeUnit u ++ cs) = withUnits [u] (readUnits .plain cs) := by
  have hdigit (n : Nat) : n % 16 < 16 := Nat.mod_lt n (by decide)
  have hvalue : (((0 * 16 + u / 16 / 16 / 16 % 16) * 16 + u / 16 / 16 % 16) * 16 + u / 16 % 16) *
      16 + u % 16 = u := by omega
  calc readUnits .plain (escapeUnit u ++ cs)
      = readUnits (.hex 4 0) (Text.Quoted.hex 4 u ++ cs) := rfl
    _ = withUnits [u] (readUnits .plain cs) := by
      simp only [Text.Quoted.hex, List.nil_append, List.cons_append,
        readUnits_hex (hdigit _), hvalue, Nat.reduceLeDiff, Nat.reduceSub, if_true, if_false]

/-- What a character is written as is read as its units. -/
theorem readUnits_escapeChar (c : Char) (cs : List Char) :
    readUnits .plain (escapeChar c ++ cs) = withUnits (unitsOf c) (readUnits .plain cs) := by
  have hletter {e : Char} (hne : e ≠ 'u') (he : escaped? e = some c) (hsmall : c.toNat < 0x10000) :
      readUnits .plain (['\\', e] ++ cs) = withUnits (unitsOf c) (readUnits .plain cs) := by
    rw [unitsOf, if_pos hsmall]
    simp only [List.cons_append, List.nil_append, readUnits, if_neg hne, he]
    cases readUnits .plain cs <;> rfl
  simp only [escapeChar]
  split_ifs with hquote hn hr ht hb hf hprintable hsmall
  · rcases hquote with rfl | rfl <;> exact hletter (by decide) rfl (by decide)
  · exact hletter (by decide) (hn ▸ rfl) (hn ▸ by decide)
  · exact hletter (by decide) (hr ▸ rfl) (hr ▸ by decide)
  · exact hletter (by decide) (ht ▸ rfl) (ht ▸ by decide)
  · exact hletter (by decide) (hb ▸ rfl) (hb ▸ by decide)
  · exact hletter (by decide) (hf ▸ rfl) (hf ▸ by decide)
  · obtain ⟨hopen, hback⟩ := not_or.mp hquote
    have hlow : ¬c.toNat < 0x20 := by omega
    rw [unitsOf, if_pos (by omega)]
    simp only [List.cons_append, List.nil_append, readUnits, if_neg hopen, if_neg hback,
      if_neg hlow]
    cases readUnits .plain cs <;> rfl
  · rw [unitsOf, if_pos hsmall, readUnits_escapeUnit hsmall]
  · have hc := toNat_bounds c
    rw [unitsOf, if_neg hsmall, List.append_assoc, readUnits_escapeUnit (by omega),
      readUnits_escapeUnit (by omega), withUnits_withUnits]
    rfl

/-- A string is read back. -/
theorem readString_writeString (s : String) (cs : List Char) :
    readString (s.toList.flatMap escapeChar ++ '"' :: cs) = some (s, cs) := by
  have hunits : ∀ ds : List Char, readUnits .plain (ds.flatMap escapeChar ++ '"' :: cs) =
      some (ds.flatMap unitsOf, cs) := by
    intro ds
    induction ds with
    | nil => rfl
    | cons d ds ih =>
        rw [List.flatMap_cons, List.append_assoc, readUnits_escapeChar, ih]
        rfl
  rw [readString, hunits]
  simp [joinUnits_flatMap_unitsOf]

/-! ### Numbers -/

/-- What comes after a value where items stand on lines of their own: a comma, a line end, or
nothing. -/
def IsBreak (cs : List Char) : Prop := ∀ c ∈ cs.head?, c = ',' ∨ c = '\n'

/-- At the end of a text a number ends. -/
theorem isBreak_nil : IsBreak [] := nofun

/-- A number ends at a comma and at the end of a line. -/
theorem isBreak_cons {c : Char} (h : c = ',' ∨ c = '\n') (cs : List Char) : IsBreak (c :: cs) :=
  fun _ hc => Option.some.inj hc ▸ h

/-- No number goes on at a break. -/
theorem IsBreak.ends {cs : List Char} (h : IsBreak cs) :
    cs.takeWhile Char.isDigit = [] ∧ cs.dropWhile Char.isDigit = cs ∧
      readFraction cs = ([], cs) ∧ readExponent cs = (none, cs) := by
  cases cs with
  | nil => exact ⟨rfl, rfl, rfl, rfl⟩
  | cons c cs => rcases h c rfl with rfl | rfl <;> exact ⟨rfl, rfl, rfl, rfl⟩

/-- The digits of a number have its value. -/
theorem digitsValue_toDigits (n : Nat) : digitsValue (Nat.toDigits 10 n) = n := by
  calc digitsValue (Nat.toDigits 10 n) = Nat.ofDigitChars 10 (Nat.toDigits 10 n) 0 := by
        rw [digitsValue, Decimal.ofDigits, List.foldl_map, Nat.ofDigitChars_eq_foldl]
        rfl
    _ = n := Nat.ofDigitChars_ten_toDigits

/-- Only zero is written with a zero in front. -/
theorem head?_toDigits {n : Nat} (h : 0 < n) : (Nat.toDigits 10 n).head? ≠ some '0' := by
  induction n using Nat.strongRecOn with
  | ind n ih =>
      rw [Nat.toDigits_eq_if (by decide)]
      split
      · have hdigit : ∀ d < 10, 0 < d → some (Nat.digitChar d) ≠ some '0' := by decide
        exact hdigit n ‹_› h
      · rw [List.head?_append_of_ne_nil _ Nat.toDigits_ne_nil]
        exact ih (n / 10) (by omega) (by omega)

/-- Digits up to a break are read as a whole number, unless they are too many or more than a zero
comes after a zero. -/
theorem readNumber_of_digits {ds rest : List Char} (hne : ds ≠ [])
    (hdigits : ∀ d ∈ ds, d.isDigit = true) (hzero : ds.head? = some '0' → ds = ['0'])
    (hlength : ds.length ≤ Decimal.maxDigits) (hrest : IsBreak rest) (negative : Bool) :
    readNumber negative (ds ++ rest) =
      some (.int (if negative then -(digitsValue ds : Int) else digitsValue ds), rest) := by
  obtain ⟨htake, hdrop, hfraction, hexponent⟩ := hrest.ends
  obtain ⟨d, ds, rfl⟩ := List.exists_cons_of_ne_nil hne
  by_cases hd : d = '0'
  · subst hd
    obtain rfl : ds = [] := (List.cons.inj (hzero rfl)).2
    simp [readNumber, hfraction, hexponent, Decimal.maxDigits]
  · have hwhole : (d :: ds ++ rest).takeWhile Char.isDigit = d :: ds := by
      rw [List.takeWhile_append_of_pos hdigits, htake, List.append_nil]
    have hafter : (d :: ds ++ rest).dropWhile Char.isDigit = rest := by
      rw [List.dropWhile_append_of_pos hdigits, hdrop]
    have hhead : ∀ cs, d :: ds ++ rest = '0' :: cs → False := fun cs h => hd (List.cons.inj h).1
    rw [readNumber, hwhole, hafter, hfraction]
    · simp only [hexponent, List.isEmpty_cons, Bool.false_eq_true, if_false, if_pos hlength]
    · exact hhead

/-- A whole number is read back from its digits. -/
theorem readNumber_toDigits {n : Nat} {rest : List Char} (hn : Decimal.IsShort n)
    (hrest : IsBreak rest) (negative : Bool) :
    readNumber negative (Nat.toDigits 10 n ++ rest) =
      some (.int (if negative then -(n : Int) else n), rest) := by
  have hdigits : ∀ d ∈ Nat.toDigits 10 n, d.isDigit = true := fun d hd =>
    Nat.isDigit_of_mem_toDigits (by decide) (by decide) hd
  have hzero : (Nat.toDigits 10 n).head? = some '0' → Nat.toDigits 10 n = ['0'] := by
    intro h
    obtain rfl : n = 0 := by
      by_contra hn
      exact head?_toDigits (Nat.pos_of_ne_zero hn) h
    rfl
  rw [readNumber_of_digits Nat.toDigits_ne_nil hdigits hzero hn hrest, digitsValue_toDigits]

/-- A digit is the start of a number, and so is a minus sign before a digit. -/
theorem readValue_of_isDigit {d : Char} (h : d.isDigit = true) (fuel : Nat) (cs : List Char) :
    readValue (fuel + 1) (d :: cs) = readNumber false (d :: cs) ∧
      readValue (fuel + 1) ('-' :: d :: cs) = readNumber true (d :: cs) := by
  have hne : ∀ c : Char, c.isDigit = false → d ≠ c := by
    rintro c hc rfl
    exact absurd h (by simp [hc])
  have hbeq : ∀ c : Char, c.isDigit = false → (c == d) = false := fun c hc =>
    beq_eq_false_iff_ne.mpr (hne c hc).symm
  constructor <;> simp [readValue, readScalar, constants, List.isPrefixOf?, hne, hbeq]

/-- A whole number is read back. -/
theorem readValue_toString {n : Int} {rest : List Char} (hn : Decimal.IsShort n) (fuel : Nat)
    (hrest : IsBreak rest) :
    readValue (fuel + 1) ((toString n).toList ++ rest) = some (.int n, rest) := by
  obtain ⟨d, ds, hds⟩ := List.exists_cons_of_ne_nil (Nat.toDigits_ne_nil (n := n.natAbs) (b := 10))
  have hd : d.isDigit = true :=
    Nat.isDigit_of_mem_toDigits (by decide) (by decide) (hds ▸ List.mem_cons_self)
  have hread := readNumber_toDigits (show Decimal.IsShort n.natAbs from hn) hrest
  rw [hds, List.cons_append] at hread
  cases n with
  | ofNat n =>
      have htext : (toString (Int.ofNat n)).toList = d :: ds := Nat.toList_repr.trans hds
      rw [htext, List.cons_append, (readValue_of_isDigit hd fuel _).1, hread]
      rfl
  | negSucc n =>
      have htext : (toString (Int.negSucc n)).toList = '-' :: d :: ds := by
        rw [← hds]
        exact String.toList_append.trans (congrArg _ Nat.toList_repr)
      rw [htext, List.cons_append, List.cons_append, (readValue_of_isDigit hd fuel _).2, hread]
      rfl

/-! ### Values -/

/-- The values that are read as they are written: those of a text without doubles. -/
abbrev Plain : Json → Prop := Legible fun _ => False

/-- A text that is read as a value wherever a break follows, given fuel for its length. -/
def ReadsAs (text : List Char) (j : Json) : Prop :=
  ∀ fuel rest, text.length ≤ fuel → IsBreak rest →
    readValue (fuel + 1) (text ++ rest) = some (j, rest)

/-- No value starts with a blank or a closing bracket. -/
theorem readValue_eq_none {c : Char} (h : isSpace c = true ∨ c = ']') (fuel : Nat) (cs : List Char) :
    readValue fuel (c :: cs) = none := by
  cases fuel with
  | zero => rfl
  | succ fuel =>
      have hc : c ∈ [' ', '\t', '\n', '\r', ']'] := by
        simpa [isSpace, or_assoc] using h
      simp only [List.mem_cons, List.not_mem_nil, or_false] at hc
      rcases hc with rfl | rfl | rfl | rfl | rfl <;> rfl

/-- What is read as a value starts with no space and with no bracket that closes a list. -/
theorem ReadsAs.head {text : List Char} {j : Json} (h : ReadsAs text j) :
    ∃ c cs, text = c :: cs ∧ isSpace c = false ∧ c ≠ ']' := by
  have hread := h _ [] (Nat.le_refl _) isBreak_nil
  cases text with
  | nil => exact absurd hread nofun
  | cons c cs =>
      have hc : ¬(isSpace c = true ∨ c = ']') := by
        intro hc
        rw [List.append_nil, readValue_eq_none hc] at hread
        exact absurd hread nofun
      exact ⟨c, cs, rfl, Bool.eq_false_iff.mpr (not_or.mp hc).1, (not_or.mp hc).2⟩

/-- Before what is read as a value there is no space to skip. -/
theorem ReadsAs.skipSpace_append {text : List Char} {j : Json} (h : ReadsAs text j)
    (rest : List Char) : skipSpace (text ++ rest) = text ++ rest := by
  obtain ⟨c, cs, rfl, hspace, -⟩ := h.head
  simp [skipSpace, hspace]

/-- A new line is a line feed and two spaces for each level. -/
theorem toList_newline (depth : Nat) :
    (newline depth).toList = '\n' :: List.replicate (2 * depth) ' ' := by
  rw [newline, String.toList_append]
  exact congrArg _ String.toList_ofList

/-- A new line before a value is skipped. -/
theorem skipSpace_newline (depth : Nat) (cs : List Char) :
    skipSpace ((newline depth).toList ++ cs) = skipSpace cs := by
  have hblank : ∀ c ∈ (newline depth).toList, isSpace c = true := by
    intro c hc
    rw [toList_newline, List.mem_cons] at hc
    rcases hc with rfl | hc
    · rfl
    · rw [List.eq_of_mem_replicate hc]
      rfl
  exact List.dropWhile_append_of_pos hblank

/-- A number ends at a new line. -/
theorem isBreak_newline (depth : Nat) (cs : List Char) : IsBreak ((newline depth).toList ++ cs) := by
  rw [toList_newline]
  exact isBreak_cons (Or.inr rfl) _

/-! ### Items and fields -/

/-- An item before a closing bracket is the last one. -/
theorem readItems_last {fuel : Nat} {cs after rest : List Char} {j : Json}
    (hvalue : readValue fuel cs = some (j, after)) (hclose : skipSpace after = ']' :: rest) :
    readItems (fuel + 1) cs = some ([j], rest) := by
  simp [readItems, hvalue, hclose]

/-- An item before a comma is followed by others. -/
theorem readItems_cons {fuel : Nat} {cs after below rest : List Char} {j : Json} {js : List Json}
    (hvalue : readValue fuel cs = some (j, after)) (hcomma : skipSpace after = ',' :: below)
    (hbelow : readItems fuel (skipSpace below) = some (js, rest)) :
    readItems (fuel + 1) cs = some (j :: js, rest) := by
  simp [readItems, hvalue, hcomma, hbelow]

/-- Lines of items are read as the items. Each item takes one unit of fuel before it is read, and a
value one more; the comma and the line end before the next item make up for them. -/
theorem readItems_lines {depth : Nat} {j : Json} {js : List Json}
    (h : ∀ i ∈ j :: js, ReadsAs (writeIndented depth i).toList i) (outer fuel : Nat)
    (rest : List Char) (hfuel : (writeIndented depth j).toList.length +
      (writeItemLines depth js).toList.length ≤ fuel) :
    readItems (fuel + 2) ((writeIndented depth j).toList ++ ((writeItemLines depth js).toList ++
      ((newline outer).toList ++ ']' :: rest))) = some (j :: js, rest) := by
  induction js generalizing j fuel with
  | nil =>
      exact readItems_last (h j List.mem_cons_self fuel _ (by omega) (isBreak_newline _ _))
        (skipSpace_newline outer _)
  | cons i js ih =>
      have hcomma : ",".toList = [','] := rfl
      simp only [writeItemLines, String.toList_append, List.length_append, hcomma,
        List.length_singleton] at hfuel ⊢
      obtain ⟨fuel, rfl⟩ := Nat.exists_eq_add_one_of_ne_zero (show fuel ≠ 0 by omega)
      have hi := h i (List.mem_cons_of_mem j List.mem_cons_self)
      have hbelow := ih (fun k hk => h k (List.mem_cons_of_mem j hk)) fuel (by omega)
      simp only [List.append_assoc, List.cons_append, List.nil_append]
      refine readItems_cons (h j List.mem_cons_self (fuel + 1) _ (by omega)
        (isBreak_cons (Or.inl rfl) _)) rfl ?_
      rw [skipSpace_newline, hi.skipSpace_append, hbelow]

/-- A field before a closing bracket is the last one. -/
theorem readFields_last {fuel : Nat} {cs named value after rest : List Char} {name : String}
    {j : Json} (hname : readString cs = some (name, named)) (hcolon : skipSpace named = ':' :: value)
    (hvalue : readValue fuel (skipSpace value) = some (j, after))
    (hclose : skipSpace after = '\x7d' :: rest) :
    readFields (fuel + 1) ('"' :: cs) = some ([(name, j)], rest) := by
  simp [readFields, hname, hcolon, hvalue, hclose]

/-- A field before a comma is followed by others. -/
theorem readFields_cons {fuel : Nat} {cs named value after below rest : List Char} {name : String}
    {j : Json} {fields : List (String × Json)} (hname : readString cs = some (name, named))
    (hcolon : skipSpace named = ':' :: value)
    (hvalue : readValue fuel (skipSpace value) = some (j, after))
    (hcomma : skipSpace after = ',' :: below)
    (hbelow : readFields fuel (skipSpace below) = some (fields, rest)) :
    readFields (fuel + 1) ('"' :: cs) = some ((name, j) :: fields, rest) := by
  simp [readFields, hname, hcolon, hvalue, hcomma, hbelow]

/-- A written string stands between quotes. -/
theorem toList_writeString_append (name : String) (cs : List Char) :
    (writeString name).toList ++ cs = '"' :: (name.toList.flatMap escapeChar ++ '"' :: cs) := by
  simp [writeString]

/-- A value is read after the blank that comes after a colon. -/
theorem ReadsAs.readValue_blank {text rest : List Char} {j : Json} (h : ReadsAs text j) (fuel : Nat)
    (hfuel : text.length ≤ fuel) (hrest : IsBreak rest) :
    readValue (fuel + 1) (skipSpace (' ' :: (text ++ rest))) = some (j, rest) :=
  (congrArg (readValue (fuel + 1)) (h.skipSpace_append rest)).trans (h fuel rest hfuel hrest)

/-- Lines of fields are read as the fields. -/
theorem readFields_lines {depth : Nat} {f : String × Json} {fields : List (String × Json)}
    (h : ∀ g ∈ f :: fields, ReadsAs (writeIndented depth g.2).toList g.2) (outer fuel : Nat)
    (rest : List Char) (hfuel : (writeIndented depth f.2).toList.length +
      (writeFieldLines depth fields).toList.length ≤ fuel) :
    readFields (fuel + 2) ((writeString f.1).toList ++ (':' :: ' ' ::
      ((writeIndented depth f.2).toList ++ ((writeFieldLines depth fields).toList ++
        ((newline outer).toList ++ '\x7d' :: rest))))) = some (f :: fields, rest) := by
  induction fields generalizing f fuel with
  | nil =>
      have hvalue := (h f List.mem_cons_self).readValue_blank fuel (by omega)
        (isBreak_newline outer ('\x7d' :: rest))
      rw [toList_writeString_append]
      exact readFields_last (readString_writeString _ _) rfl hvalue (skipSpace_newline outer _)
  | cons g fields ih =>
      have hcomma : ",".toList = [','] := rfl
      have hcolon : ": ".toList = [':', ' '] := rfl
      simp only [writeFieldLines, String.toList_append, List.length_append, hcomma, hcolon,
        List.length_singleton] at hfuel ⊢
      obtain ⟨fuel, rfl⟩ := Nat.exists_eq_add_one_of_ne_zero (show fuel ≠ 0 by omega)
      have hbelow := ih (fun k hk => h k (List.mem_cons_of_mem f hk)) fuel (by omega)
      rw [toList_writeString_append] at hbelow ⊢
      simp only [List.append_assoc, List.cons_append, List.nil_append, toList_writeString_append]
      refine readFields_cons (readString_writeString _ _) rfl
        ((h f List.mem_cons_self).readValue_blank (fuel + 1) (by omega) (isBreak_cons (Or.inl rfl) _))
        rfl ?_
      rw [skipSpace_newline]
      exact hbelow

/-! ### Lists and objects -/

/-- What starts with a bracket that is not closed at once is a list of items. -/
theorem readValue_arr {fuel : Nat} {cs body rest : List Char} {c : Char} {items : List Json}
    (hbody : skipSpace cs = c :: body) (hc : c ≠ ']')
    (hitems : readItems fuel (c :: body) = some (items, rest)) :
    readValue (fuel + 1) ('[' :: cs) = some (.arr items, rest) := by
  simp [readValue, hbody, hc, hitems]

/-- What starts with a brace that is not closed at once is an object of fields. -/
theorem readValue_obj {fuel : Nat} {cs body rest : List Char} {c : Char}
    {fields : List (String × Json)} (hbody : skipSpace cs = c :: body) (hc : c ≠ '\x7d')
    (hfields : readFields fuel (c :: body) = some (fields, rest)) :
    readValue (fuel + 1) ('\x7b' :: cs) = some (.obj (putAll fields), rest) := by
  simp [readValue, hbody, hc, hfields]

/-- A list is read from its lines if its items are. -/
theorem readsAs_arr {items : List Json} (depth : Nat)
    (h : ∀ j ∈ items, ReadsAs (writeIndented (depth + 1) j).toList j) :
    ReadsAs (writeIndented depth (.arr items)).toList (.arr items) := by
  intro fuel rest hfuel hrest
  cases items with
  | nil =>
      rw [writeIndented]
      rfl
  | cons j js =>
      have hopen : "[".toList = ['['] := rfl
      have hclose : "]".toList = [']'] := rfl
      have hfirst := h j List.mem_cons_self
      obtain ⟨c, cs, htext, -, hc⟩ := hfirst.head
      simp only [writeIndented, String.toList_append, List.append_assoc, List.cons_append,
        List.nil_append, List.length_append, List.length_cons, hopen, hclose] at hfuel ⊢
      obtain ⟨fuel, rfl⟩ := Nat.exists_eq_add_of_le' (show 2 ≤ fuel by omega)
      have hitems := readItems_lines h depth fuel rest (by omega)
      rw [htext] at hitems
      refine readValue_arr ?_ hc hitems
      rw [skipSpace_newline, hfirst.skipSpace_append, htext]
      rfl

/-- An object is read from its lines if its values are and no name occurs twice. -/
theorem readsAs_obj {fields : List (String × Json)} (depth : Nat)
    (hnames : (fields.map Prod.fst).Nodup)
    (h : ∀ f ∈ fields, ReadsAs (writeIndented (depth + 1) f.2).toList f.2) :
    ReadsAs (writeIndented depth (.obj fields)).toList (.obj fields) := by
  intro fuel rest hfuel hrest
  cases fields with
  | nil =>
      rw [writeIndented]
      rfl
  | cons f fields =>
      have hopen : "\x7b".toList = ['\x7b'] := rfl
      have hclose : "\x7d".toList = ['\x7d'] := rfl
      have hcolon : ": ".toList = [':', ' '] := rfl
      simp only [writeIndented, String.toList_append, List.append_assoc, List.cons_append,
        List.nil_append, List.length_append, List.length_cons, hopen, hclose, hcolon] at hfuel ⊢
      obtain ⟨fuel, rfl⟩ := Nat.exists_eq_add_of_le' (show 2 ≤ fuel by omega)
      have hfields := readFields_lines h depth fuel rest (by omega)
      rw [toList_writeString_append] at hfields
      rw [← putAll_of_nodup hnames]
      refine readValue_obj ?_ (by decide) hfields
      rw [skipSpace_newline, toList_writeString_append]
      rfl

/-- A plain value is read as it is written, however deep it stands. -/
theorem readsAs_writeIndented {j : Json} (h : Plain j) (depth : Nat) :
    ReadsAs (writeIndented depth j).toList j := by
  induction h generalizing depth with
  | float hdouble => exact hdouble.elim
  | null =>
      intro fuel rest _ _
      rw [writeIndented]
      rfl
  | bool value =>
      intro fuel rest _ _
      rw [writeIndented]
      cases value <;> rfl
  | int hdigits =>
      intro fuel rest _ hrest
      rw [writeIndented]
      exact readValue_toString hdigits fuel hrest
  | str value =>
      intro fuel rest _ _
      rw [writeIndented, toList_writeString_append]
      simp [readValue, readString_writeString]
  | arr h ih => exact readsAs_arr depth fun j hj => ih j hj (depth + 1)
  | obj hnames h ih => exact readsAs_obj depth hnames fun f hf => ih f hf (depth + 1)

/-! ### Whole texts -/

/-- Items are as high as the highest of them. -/
theorem heightOfItems_le {items : List Json} {n : Nat} (h : ∀ j ∈ items, j.height ≤ n) :
    heightOfItems items ≤ n := by
  induction items with
  | nil => exact Nat.zero_le n
  | cons j js ih =>
      exact Nat.max_le.mpr ⟨h j List.mem_cons_self, ih fun i hi => h i (List.mem_cons_of_mem j hi)⟩

/-- Fields are as high as the highest of their values. -/
theorem heightOfFields_le {fields : List (String × Json)} {n : Nat}
    (h : ∀ f ∈ fields, f.2.height ≤ n) : heightOfFields fields ≤ n := by
  induction fields with
  | nil => exact Nat.zero_le n
  | cons f fs ih =>
      exact Nat.max_le.mpr ⟨h f List.mem_cons_self, ih fun g hg => h g (List.mem_cons_of_mem f hg)⟩

/-- A plain value is read back from the lines it is written on by every reader that has room for its
levels. -/
theorem read?_writeIndented {maxHeight : Nat} {j : Json} (h : Plain j) (hheight : j.height ≤ maxHeight) :
    read? maxHeight (j.writeIndented 0) = some j := by
  have htext := readsAs_writeIndented h 0
  have hread := htext _ [] (Nat.le_refl _) isBreak_nil
  have hskip := htext.skipSpace_append []
  have hnil : skipSpace [] = [] := rfl
  rw [List.append_nil] at hread hskip
  simp [read?, hskip, hread, hheight, hnil]

end Flowchart.Json
