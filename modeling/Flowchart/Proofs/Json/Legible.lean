import Flowchart.Json.Reader
import Flowchart.Proofs.Json.Fields
import Mathlib.Algebra.Group.Nat.Defs
import Mathlib.Data.List.Induction
import Mathlib.Data.List.TakeWhile

/-!
# What texts can spell

The values that are read from texts are the legible ones (`isRead_of_read?`): whole numbers have few
enough digits, and each field of an object has a name of its own. A whole number that a text spells is
short wherever it is read, in JSON or by itself (`Decimal.isShort_of_readInt?`).

The reader goes down with its fuel; `readValue_inv`, `readItems_inv` and `readFields_inv` say what one
step of it has read, and `isRead_of_fuel` puts the steps together.

## What a reader promises

`Legible` says of a value what can be said of every value that was read from a text: the digits of its
whole numbers, the names of its fields, and a condition on its doubles, which is a parameter. Values
that are read satisfy it with any doubles (`IsRead`), and values that are written and read back need it
with none (`Plain`, where reading back is proved). Both uses share the facts about whole numbers and
fields.

## Main results

* `isShort_of_readInt?`: a whole number that a text spells has few enough digits.
* `readValue_inv`, `readItems_inv`, `readFields_inv`: what one step of the reader has read.
* `isRead_of_read?`: a value that is read from a text is legible.
-/

namespace Flowchart

/-! ### Short numbers -/

namespace Decimal

/-- A whole number with few enough digits to be read from a text. -/
def IsShort (n : Int) : Prop := digitCount n.natAbs ≤ maxDigits

instance (n : Int) : Decidable (IsShort n) := inferInstanceAs (Decidable (_ ≤ _))

/-- A whole number is short if it is below the power of ten with as many zeros as it may have
digits. -/
theorem isShort_iff {n : Int} : IsShort n ↔ n.natAbs < 10 ^ maxDigits :=
  Nat.length_toDigits_le_iff (by decide) (by decide)

/-- A whole number that is no larger than a short one, signs aside, is short. -/
theorem IsShort.of_natAbs_le {m n : Int} (h : IsShort n) (hle : m.natAbs ≤ n.natAbs) : IsShort m :=
  isShort_iff.mpr (Nat.lt_of_le_of_lt hle (isShort_iff.mp h))

/-- A short number is short with either sign. -/
theorem IsShort.signed {n : Int} (h : IsShort n) (negative : Bool) :
    IsShort (if negative then -n else n) := by
  cases negative
  · exact h
  · exact h.of_natAbs_le (Nat.le_of_eq (Int.natAbs_neg n))

/-- Digits spell a number below the power of ten with as many zeros. -/
theorem ofDigits_lt {ds : List Nat} (h : ∀ d ∈ ds, d < 10) : ofDigits ds < 10 ^ ds.length := by
  induction ds using List.reverseRecOn with
  | nil => decide
  | append_singleton ds d ih =>
      have hd := h d (List.mem_append_right ds List.mem_cons_self)
      have hds := ih fun e he => h e (List.mem_append_left _ he)
      have hstep : ofDigits (ds ++ [d]) = 10 * ofDigits ds + d := by
        rw [ofDigits, List.foldl_append]
        rfl
      rw [hstep, List.length_append, List.length_singleton, Nat.pow_succ]
      omega

/-- Few enough digits spell a short number. -/
theorem isShort_ofDigits {ds : List Nat} (h : ∀ d ∈ ds, d < 10) (hlength : ds.length ≤ maxDigits) :
    IsShort (ofDigits ds) :=
  isShort_iff.mpr (Nat.lt_of_lt_of_le (ofDigits_lt h)
    (Nat.pow_le_pow_right (by decide) hlength))

/-- A digit is below ten. -/
theorem digit?_lt {c : Char} {d : Nat} (h : Text.digit? c = some d) : d < 10 := by
  simp only [Text.digit?] at h
  split_ifs at h with hascii hdigit
  · have hrange : 0x30 ≤ c.toNat ∧ c.toNat ≤ 0x39 := Char.isDigit_iff_toNat.mp hdigit
    rw [Option.some.injEq] at h
    omega
  · obtain ⟨z, hz, rfl⟩ := Option.map_eq_some_iff.mp h
    have hrange := Array.find?_some hz
    simp only [Bool.and_eq_true, decide_eq_true_eq] at hrange
    omega

/-- So are all digits of a text of digits. -/
theorem digitsOnly?_lt {afterDigit : Bool} {cs : List Char} {ds : List Nat}
    (h : digitsOnly? afterDigit cs = some ds) : ∀ d ∈ ds, d < 10 := by
  fun_induction digitsOnly? generalizing ds with
  | case1 =>
      obtain rfl := Option.some.inj h
      exact nofun
  | case2 => exact absurd h nofun
  | case3 cs ih => exact ih h
  | case4 => exact absurd h nofun
  | case5 afterDigit c cs _ ih =>
      obtain ⟨d, hd, h⟩ := Option.bind_eq_some_iff.mp h
      obtain ⟨ds, hds, h⟩ := Option.bind_eq_some_iff.mp h
      obtain rfl := Option.some.inj h
      exact List.forall_mem_cons.mpr ⟨digit?_lt hd, ih hds⟩

/-- A whole number that a text spells is short. -/
theorem isShort_of_readInt? {cs : List Char} {n : Int} (h : readInt? cs = some n) : IsShort n := by
  obtain ⟨ds, hds, h⟩ := Option.bind_eq_some_iff.mp h
  split at h
  · have hshort := isShort_ofDigits (digitsOnly?_lt hds) ‹_›
    exact Option.some.inj h ▸ hshort.signed _
  · exact absurd h nofun

end Decimal

namespace Json

/-! ### Legible values -/

/-- The values that a text can spell, with doubles among `doubles`: whole numbers are short, and every
field has a name of its own. -/
inductive Legible (doubles : Float → Prop) : Json → Prop where
  | null : Legible doubles .null
  | bool (value : Bool) : Legible doubles (.bool value)
  | int {value : Int} (h : Decimal.IsShort value) : Legible doubles (.int value)
  | float {value : Float} (h : doubles value) : Legible doubles (.float value)
  | str (value : String) : Legible doubles (.str value)
  | arr {items : List Json} (h : ∀ j ∈ items, Legible doubles j) : Legible doubles (.arr items)
  | obj {fields : List (String × Json)} (hnames : (fields.map Prod.fst).Nodup)
      (h : ∀ f ∈ fields, Legible doubles f.2) : Legible doubles (.obj fields)

/-- A value with any doubles that reading can give. -/
abbrev IsRead : Json → Prop := Legible fun _ => True

/-- A field of a legible value is legible. -/
theorem Legible.field? {doubles : Float → Prop} {j value : Json} {name : String}
    (hj : Legible doubles j) (h : j.field? name = some value) : Legible doubles value := by
  cases hj with
  | obj _ hfields => exact hfields _ (mem_of_get? h)
  | _ => exact absurd h nofun

/-! ### Scalars -/

/-- Few enough digits have a short value. -/
theorem isShort_digitsValue {ds : List Char} (h : ∀ d ∈ ds, d.isDigit = true)
    (hlength : ds.length ≤ Decimal.maxDigits) : Decimal.IsShort (digitsValue ds) := by
  refine Decimal.isShort_ofDigits ?_ (by rwa [List.length_map])
  rintro _ hvalue
  obtain ⟨d, hd, rfl⟩ := List.mem_map.mp hvalue
  obtain ⟨hlow, hhigh⟩ : 0x30 ≤ d.toNat ∧ d.toNat ≤ 0x39 := Char.isDigit_iff_toNat.mp (h d hd)
  omega

/-- What is neither a string, a list nor an object, with short whole numbers. -/
def IsScalar : Json → Prop
  | .null | .bool _ | .float _ => True
  | .int n => Decimal.IsShort n
  | .str _ | .arr _ | .obj _ => False

/-- A value that holds no values is legible. -/
theorem IsScalar.isRead {j : Json} (h : IsScalar j) : IsRead j := by
  cases j with
  | null => exact .null
  | bool b => exact .bool b
  | int n => exact .int h
  | float x => exact .float trivial
  | str s | arr items | obj fields => exact h.elim

/-- A number holds no values. -/
theorem isScalar_of_readNumber {negative : Bool} {cs rest : List Char} {j : Json}
    (h : readNumber negative cs = some (j, rest)) : IsScalar j := by
  unfold readNumber at h
  split at h
  next whole after hsplit =>
    -- a zero in front is a whole number of its own; the digits after it are not read
    have hdigits : ∀ d ∈ whole, d.isDigit = true := by
      split at hsplit
      · obtain ⟨rfl, -⟩ := Prod.mk.inj hsplit
        exact List.forall_mem_singleton.mpr rfl
      · obtain ⟨rfl, -⟩ := Prod.mk.inj hsplit
        exact fun d hd => List.mem_takeWhile_imp hd
    split at h
    · exact absurd h nofun
    · split at h
      split at h
      split at h
      · split at h
        · obtain ⟨rfl, -⟩ := Prod.mk.inj (Option.some.inj h)
          exact (isShort_digitsValue hdigits ‹_›).signed negative
        · exact absurd h nofun
      · obtain ⟨rfl, -⟩ := Prod.mk.inj (Option.some.inj h)
        trivial

/-- A constant holds no values. -/
theorem isScalar_of_mem_constants {word : List Char × Json} (h : word ∈ constants) :
    IsScalar word.2 := by
  simp only [constants, List.mem_cons, List.not_mem_nil, or_false] at h
  rcases h with rfl | rfl | rfl | rfl | rfl | rfl <;> trivial

/-- What is read without reading values holds none. -/
theorem isScalar_of_readScalar {cs rest : List Char} {j : Json}
    (h : readScalar cs = some (j, rest)) : IsScalar j := by
  unfold readScalar at h
  split at h
  next found hfound =>
    obtain ⟨word, hword, hrest⟩ := List.exists_of_findSome?_eq_some hfound
    obtain ⟨after, -, rfl⟩ := Option.map_eq_some_iff.mp hrest
    obtain ⟨rfl, -⟩ := Prod.mk.inj (Option.some.inj h)
    exact isScalar_of_mem_constants hword
  next => split at h <;> exact isScalar_of_readNumber h

/-! ### Steps of the reader -/

/-- A list of items has a first one, and perhaps more behind a comma. -/
theorem readItems_inv {fuel : Nat} {cs rest : List Char} {items : List Json}
    (h : readItems (fuel + 1) cs = some (items, rest)) :
    ∃ j js after, items = j :: js ∧ readValue fuel cs = some (j, after) ∧
      (js = [] ∨ ∃ below, readItems fuel below = some (js, rest)) := by
  obtain ⟨⟨j, after⟩, hvalue, h⟩ := Option.bind_eq_some_iff.mp h
  dsimp only at h
  split at h
  · obtain ⟨rfl, -⟩ := Prod.mk.inj (Option.some.inj h)
    exact ⟨j, [], after, rfl, hvalue, Or.inl rfl⟩
  · obtain ⟨⟨js, after'⟩, hbelow, h⟩ := Option.bind_eq_some_iff.mp h
    obtain ⟨rfl, rfl⟩ := Prod.mk.inj (Option.some.inj h)
    exact ⟨j, js, after, rfl, hvalue, Or.inr ⟨_, hbelow⟩⟩
  · exact absurd h nofun

/-- One step of the reader of fields has read a name, its value and perhaps further fields. -/
theorem readFields_inv {fuel : Nat} {cs rest : List Char} {fields : List (String × Json)}
    (h : readFields (fuel + 1) cs = some (fields, rest)) :
    ∃ name j fs value after, fields = (name, j) :: fs ∧ readValue fuel value = some (j, after) ∧
      (fs = [] ∨ ∃ below, readFields fuel below = some (fs, rest)) := by
  unfold readFields at h
  split at h
  · obtain ⟨⟨name, named⟩, -, h⟩ := Option.bind_eq_some_iff.mp h
    dsimp only at h
    split at h
    · obtain ⟨⟨j, after⟩, hvalue, h⟩ := Option.bind_eq_some_iff.mp h
      dsimp only at h
      split at h
      · obtain ⟨rfl, -⟩ := Prod.mk.inj (Option.some.inj h)
        exact ⟨name, j, [], _, after, rfl, hvalue, Or.inl rfl⟩
      · obtain ⟨⟨fs, after'⟩, hbelow, h⟩ := Option.bind_eq_some_iff.mp h
        obtain ⟨rfl, rfl⟩ := Prod.mk.inj (Option.some.inj h)
        exact ⟨name, j, fs, _, after, rfl, hvalue, Or.inr ⟨_, hbelow⟩⟩
      · exact absurd h nofun
    · exact absurd h nofun
  · exact absurd h nofun

/-- A list or an object is read with its items or fields. -/
theorem readValue_inv {fuel : Nat} {cs rest : List Char} {j : Json}
    (h : readValue (fuel + 1) cs = some (j, rest)) :
    (∃ s, j = .str s) ∨ IsScalar j ∨
      (∃ items, j = .arr items ∧
        (items = [] ∨ ∃ body, readItems fuel body = some (items, rest))) ∨
      ∃ fields, j = .obj (putAll fields) ∧
        (fields = [] ∨ ∃ body, readFields fuel body = some (fields, rest)) := by
  unfold readValue at h
  split at h
  · obtain ⟨⟨s, after⟩, -, h⟩ := Option.bind_eq_some_iff.mp h
    obtain ⟨rfl, -⟩ := Prod.mk.inj (Option.some.inj h)
    exact Or.inl ⟨s, rfl⟩
  · split at h
    · obtain ⟨rfl, -⟩ := Prod.mk.inj (Option.some.inj h)
      exact Or.inr (Or.inr (Or.inl ⟨[], rfl, Or.inl rfl⟩))
    · obtain ⟨⟨items, after⟩, hitems, h⟩ := Option.bind_eq_some_iff.mp h
      obtain ⟨rfl, rfl⟩ := Prod.mk.inj (Option.some.inj h)
      exact Or.inr (Or.inr (Or.inl ⟨items, rfl, Or.inr ⟨_, hitems⟩⟩))
  · split at h
    · obtain ⟨rfl, -⟩ := Prod.mk.inj (Option.some.inj h)
      exact Or.inr (Or.inr (Or.inr ⟨[], rfl, Or.inl rfl⟩))
    · obtain ⟨⟨fields, after⟩, hfields, h⟩ := Option.bind_eq_some_iff.mp h
      obtain ⟨rfl, rfl⟩ := Prod.mk.inj (Option.some.inj h)
      exact Or.inr (Or.inr (Or.inr ⟨fields, rfl, Or.inr ⟨_, hfields⟩⟩))
  · exact Or.inr (Or.inl (isScalar_of_readScalar h))

/-- What reading gives is legible, at every depth. -/
theorem isRead_of_fuel (fuel : Nat) :
    (∀ {cs rest j}, readValue fuel cs = some (j, rest) → IsRead j) ∧
      (∀ {cs rest js}, readItems fuel cs = some (js, rest) → ∀ j ∈ js, IsRead j) ∧
      (∀ {cs rest fields}, readFields fuel cs = some (fields, rest) → ∀ f ∈ fields, IsRead f.2) := by
  induction fuel with
  | zero => exact ⟨nofun, nofun, nofun⟩
  | succ fuel ih =>
      obtain ⟨hvalue, hitems, hfields⟩ := ih
      refine ⟨fun h => ?_, fun h => ?_, fun h => ?_⟩
      · rcases readValue_inv h with
          ⟨s, rfl⟩ | hscalar | ⟨items, rfl, rfl | ⟨body, hread⟩⟩ | ⟨fields, rfl, hread⟩
        · exact .str s
        · exact hscalar.isRead
        · exact .arr nofun
        · exact .arr (hitems hread)
        · refine .obj (nodup_putAll fields) fun f hf => ?_
          rcases hread with rfl | ⟨body, hread⟩
          · exact absurd hf List.not_mem_nil
          · exact hfields hread f (mem_of_mem_putAll hf)
      · obtain ⟨j, js, after, rfl, hread, hbelow⟩ := readItems_inv h
        refine List.forall_mem_cons.mpr ⟨hvalue hread, ?_⟩
        rcases hbelow with rfl | ⟨below, hbelow⟩
        · exact nofun
        · exact hitems hbelow
      · obtain ⟨name, j, fs, value, after, rfl, hread, hbelow⟩ := readFields_inv h
        refine List.forall_mem_cons.mpr ⟨hvalue hread, ?_⟩
        rcases hbelow with rfl | ⟨below, hbelow⟩
        · exact nofun
        · exact hfields hbelow

/-- What is read from a text is legible, however much room there is for its levels. -/
theorem isRead_of_read? {maxHeight : Nat} {text : String} {j : Json}
    (h : read? maxHeight text = some j) : IsRead j := by
  simp only [read?] at h
  split at h
  next value rest hvalue =>
    split_ifs at h
    obtain rfl := Option.some.inj h
    exact (isRead_of_fuel _).1 hvalue
  next => exact absurd h nofun

end Json

end Flowchart
