import Flowchart.Graph.Builder

/-!
# Identifiers

A builder numbers its nodes: whatever an id starts with, it ends in the number that was next when
it was given out. `idNumber` reads that number back (`idNumber_idOf`), so ids with different
numbers differ, even where a source line stands in front of the number (`L12_3`). Everything that
is proved about the order of nodes is proved about these numbers.

The second part says which characters an id is made of: a capital first, a digit last, and in
between nothing but capitals, digits, underscores and minus signs (`IsId`).

## Main results

* `idNumber_idOf`: the number of an id is the one it was given.
* `isId_idOf`: every id that is given out is an identifier.
-/

namespace Flowchart

/-- The number at the end of an id. -/
def idNumber (id : String) : Nat :=
  Nat.ofDigitChars 10 (id.toList.reverse.takeWhile Char.isDigit).reverse 0

/-- The families whose ids are given out: by source line, and those of merge points, subgraphs and
queries. -/
def IdFamily.Proper : IdFamily → Prop
  | .line => True
  | .named head => head = "M" ∨ head = "S" ∨ head = "Q"

/-- Ids by lines are given out. -/
theorem IdFamily.proper_line : IdFamily.line.Proper := True.intro

/-- Ids of merge points are given out. -/
theorem IdFamily.proper_merge : (IdFamily.named "M").Proper := Or.inl rfl

/-- Ids of subgraphs are given out. -/
theorem IdFamily.proper_subgraph : (IdFamily.named "S").Proper := Or.inr (Or.inl rfl)

/-- Ids of queries are given out. -/
theorem IdFamily.proper_query : (IdFamily.named "Q").Proper := Or.inr (Or.inr rfl)

/-- What stands before the number of an id. -/
def IdFamily.head : IdFamily → Option Int → List Char
  | .line, some l => 'L' :: ((toString l).toList ++ ['_'])
  | .line, none => ['N']
  | .named head, _ => head.toList

/-- An id is its head and the decimal digits of its number. -/
theorem toList_idOf (family : IdFamily) (line : Option Int) (n : Nat) :
    (Builder.idOf family line n).toList = family.head line ++ Nat.toDigits 10 n := by
  cases family <;> cases line <;>
    simp [Builder.idOf, IdFamily.head, Nat.toString_eq_repr, Nat.toList_repr]

/-- The digits at the end of a text are those that follow its last other character. -/
theorem takeWhile_isDigit_reverse {head digits : List Char} {c : Char}
    (hc : c.isDigit = false) (hd : ∀ d ∈ digits, d.isDigit = true) :
    (((head ++ [c]) ++ digits).reverse.takeWhile Char.isDigit).reverse = digits := by
  rw [List.reverse_append, List.takeWhile_append_of_pos (by simpa using hd)]
  simp [hc]

/-- The head of a proper family ends in a character that is no digit. -/
theorem IdFamily.Proper.head_eq {family : IdFamily} (hf : family.Proper) (line : Option Int) :
    ∃ (start : List Char) (c : Char), family.head line = start ++ [c] ∧ c.isDigit = false := by
  cases family with
  | line =>
      cases line with
      | none => exact ⟨[], 'N', rfl, rfl⟩
      | some l => exact ⟨'L' :: (toString l).toList, '_', rfl, rfl⟩
  | named head =>
      rcases hf with rfl | rfl | rfl
      · exact ⟨[], 'M', rfl, rfl⟩
      · exact ⟨[], 'S', rfl, rfl⟩
      · exact ⟨[], 'Q', rfl, rfl⟩

/-- The number of an id is the one it was made from. -/
theorem idNumber_idOf {family : IdFamily} (hf : family.Proper) (line : Option Int) (n : Nat) :
    idNumber (Builder.idOf family line n) = n := by
  obtain ⟨start, c, hhead, hc⟩ := hf.head_eq line
  have hdigits : ∀ d ∈ Nat.toDigits 10 n, d.isDigit = true := fun d hd =>
    Nat.isDigit_of_mem_toDigits (by omega) (by omega) hd
  rw [idNumber, toList_idOf, hhead, takeWhile_isDigit_reverse hc hdigits,
    Nat.ofDigitChars_ten_toDigits]

/-- The empty text has number zero, which no id has. -/
theorem ne_empty_of_idNumber_pos {id : String} (h : 0 < idNumber id) : id.isEmpty = false := by
  rw [Bool.eq_false_iff]
  intro hid
  rw [String.isEmpty_iff] at hid
  subst hid
  exact absurd h (by decide)

/-! ### Characters -/

/-- The characters of ids. -/
def isIdChar (c : Char) : Bool := c.isUpper || c.isDigit || c == '_' || c == '-'

/-- A text of the form of an id. -/
def IsId (id : String) : Prop :=
  ∃ (first last : Char) (middle : List Char), id.toList = first :: (middle ++ [last]) ∧
    first.isUpper = true ∧ last.isDigit = true ∧ ∀ c ∈ middle, isIdChar c = true

/-- A digit may stand in an id. -/
theorem isIdChar_of_isDigit {c : Char} (h : c.isDigit = true) : isIdChar c = true := by
  simp [isIdChar, h]

/-- A capital may stand in an id. -/
theorem isIdChar_of_isUpper {c : Char} (h : c.isUpper = true) : isIdChar c = true := by
  simp [isIdChar, h]

/-- An id has characters of ids only. -/
theorem IsId.isIdChar {id : String} (h : IsId id) : ∀ c ∈ id.toList, isIdChar c = true := by
  obtain ⟨first, last, middle, hid, hfirst, hlast, hmiddle⟩ := h
  intro c hc
  rw [hid, List.mem_cons, List.mem_append, List.mem_singleton] at hc
  rcases hc with rfl | hc | rfl
  · exact isIdChar_of_isUpper hfirst
  · exact hmiddle c hc
  · exact isIdChar_of_isDigit hlast

/-- The characters of ids lie between the minus sign and the underscore. -/
theorem bounds_of_isIdChar {c : Char} (h : isIdChar c = true) :
    0x2D ≤ c.toNat ∧ c.toNat ≤ 0x5F := by
  simp only [isIdChar, Bool.or_eq_true, beq_iff_eq] at h
  rcases h with ((h | h) | rfl) | rfl
  · obtain ⟨hlow, hhigh⟩ : 'A'.val ≤ c.val ∧ c.val ≤ 'Z'.val := of_decide_eq_true h
    have hlow : 0x41 ≤ c.toNat := UInt32.le_iff_toNat_le.mp hlow
    have hhigh : c.toNat ≤ 0x5A := UInt32.le_iff_toNat_le.mp hhigh
    omega
  · obtain ⟨hlow, hhigh⟩ : 0x30 ≤ c.toNat ∧ c.toNat ≤ 0x39 := Char.isDigit_iff_toNat.mp h
    omega
  · decide
  · decide

/-- Whole numbers are written with digits and a minus sign. -/
theorem isIdChar_of_mem_toString {c : Char} {l : Int} (h : c ∈ (toString l).toList) :
    isIdChar c = true := by
  have hdigits : ∀ n : Nat, c ∈ n.repr.toList → isIdChar c = true := fun n hc => by
    rw [Nat.toList_repr] at hc
    exact isIdChar_of_isDigit (Nat.isDigit_of_mem_toDigits (by omega) (by omega) hc)
  cases l with
  | ofNat n => exact hdigits n h
  | negSucc n =>
      have hc : c ∈ ("-" ++ (n + 1).repr).toList := h
      rw [String.toList_append, List.mem_append] at hc
      rcases hc with hc | hc
      · rw [List.mem_singleton.mp hc]
        rfl
      · exact hdigits (n + 1) hc

/-- The head of a proper family is a capital and characters of ids. -/
theorem IdFamily.Proper.head_cons {family : IdFamily} (hf : family.Proper) (line : Option Int) :
    ∃ (first : Char) (rest : List Char), family.head line = first :: rest ∧
      first.isUpper = true ∧ ∀ c ∈ rest, isIdChar c = true := by
  cases family with
  | line =>
      cases line with
      | none => exact ⟨'N', [], rfl, rfl, by simp⟩
      | some l =>
          refine ⟨'L', (toString l).toList ++ ['_'], rfl, rfl, fun c hc => ?_⟩
          rcases List.mem_append.mp hc with hc | hc
          · exact isIdChar_of_mem_toString hc
          · rw [List.mem_singleton.mp hc]
            rfl
  | named head =>
      rcases hf with rfl | rfl | rfl
      · exact ⟨'M', [], rfl, rfl, by simp⟩
      · exact ⟨'S', [], rfl, rfl, by simp⟩
      · exact ⟨'Q', [], rfl, rfl, by simp⟩

/-- The ids of proper families are of the form of ids. -/
theorem isId_idOf {family : IdFamily} (hf : family.Proper) (line : Option Int) (n : Nat) :
    IsId (Builder.idOf family line n) := by
  obtain ⟨first, rest, hhead, hfirst, hrest⟩ := hf.head_cons line
  have hdigit : ∀ d ∈ Nat.toDigits 10 n, d.isDigit = true := fun d hd =>
    Nat.isDigit_of_mem_toDigits (by omega) (by omega) hd
  have hne : Nat.toDigits 10 n ≠ [] := Nat.toDigits_ne_nil
  have hsplit := List.dropLast_concat_getLast hne
  refine ⟨first, (Nat.toDigits 10 n).getLast hne, rest ++ (Nat.toDigits 10 n).dropLast, ?_, hfirst,
    hdigit _ (List.getLast_mem hne), fun c hc => ?_⟩
  · rw [toList_idOf, hhead, List.append_assoc, hsplit, List.cons_append]
  · rcases List.mem_append.mp hc with hc | hc
    · exact hrest c hc
    · exact isIdChar_of_isDigit (hdigit c ((List.dropLast_subset _) hc))

end Flowchart
