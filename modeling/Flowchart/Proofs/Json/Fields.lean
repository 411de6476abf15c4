import Flowchart.Json.Basic
import Mathlib.Data.List.Nodup
import Mathlib.Tactic.SplitIfs

/-!
# Named values

Values that are set under a name and found under it again. A value that is set anew has the new value
only, one that is set to the value it has stays as it is, and one whose name is dropped leaves nothing
behind; values of different names do not touch each other.

Setting many values one after the other (`putEach`) gives each name one place, and leaves the list
alone exactly if all of them were known (`putEach_eq_self_iff`). So a list in which each name has one
place is what comes out of setting its values (`putAll_of_nodup`).

## Main results

* `get?_put_self`, `get?_put_of_ne`: what is found after setting a value.
* `putEach_eq_self_iff`: setting values changes nothing exactly if they were set before.
* `putAll_of_nodup`: names that occur once are set as they stand.
-/

namespace Flowchart

section Fields

variable {α β : Type} {fields known new : List (String × α)} {name other : String} {value : α}

/-! ### One value -/

/-- A value that is set is found. -/
theorem get?_put_self (fields : List (String × α)) (name : String) (value : α) :
    get? (put fields name value) name = some value := by
  induction fields with
  | nil => simp [put, get?]
  | cons f rest ih => by_cases h : f.1 = name <;> simp [put, get?, h, ih]

/-- Other names have the values they had. -/
theorem get?_put_of_ne (h : name ≠ other) (fields : List (String × α)) (value : α) :
    get? (put fields name value) other = get? fields other := by
  induction fields with
  | nil => simp [put, get?, h]
  | cons f rest ih =>
      by_cases hf : f.1 = name
      · simp [put, get?, hf, h]
      · by_cases hf' : f.1 = other <;> simp [put, get?, hf, hf', h.symm, ih]

/-- The later value of a name replaces the earlier one, in its place. -/
theorem put_put (fields : List (String × α)) (name : String) (value value' : α) :
    put (put fields name value) name value' = put fields name value' := by
  induction fields with
  | nil => simp [put]
  | cons f rest ih => by_cases h : f.1 = name <;> simp [put, h, ih]

/-- A value that is set already is not set again. -/
theorem put_of_get? (h : get? fields name = some value) : put fields name value = fields := by
  induction fields with
  | nil => exact absurd h (by simp [get?])
  | cons f rest ih =>
      obtain ⟨n, v⟩ := f
      by_cases hf : n = name
      · simp_all [put, get?]
      · rw [get?, if_neg hf] at h
        rw [put, if_neg hf, ih h]

/-- Dropping a name drops the value that was set for it. -/
theorem filter_put_self (fields : List (String × α)) (name : String) (value : α) :
    (put fields name value).filter (fun f => f.1 != name) = fields.filter fun f => f.1 != name := by
  induction fields with
  | nil => simp [put]
  | cons f rest ih => by_cases h : f.1 = name <;> simp [put, h, ih]

/-- Dropping one name and setting another can be done in either order. -/
theorem filter_put_of_ne (h : name ≠ other) (fields : List (String × α)) (value : α) :
    (put fields name value).filter (fun f => f.1 != other) =
      put (fields.filter fun f => f.1 != other) name value := by
  induction fields with
  | nil => simp [put, h]
  | cons f rest ih =>
      obtain ⟨n, v⟩ := f
      by_cases hf : n = name
      · simp [put, hf, h]
      · by_cases hf' : n = other
        · simp [put, hf', h.symm, ih]
        · simp [put, hf, hf', ih]

/-- Dropping a name that is not there drops nothing. -/
theorem filter_of_get?_eq_none (h : get? fields name = none) :
    fields.filter (fun f => f.1 != name) = fields := by
  induction fields with
  | nil => rfl
  | cons f rest ih =>
      by_cases hf : f.1 = name
      · exact absurd h (by simp [get?, hf])
      · rw [get?, if_neg hf] at h
        simp [hf, ih h]

/-- A name that was dropped is not found. -/
theorem get?_filter_self (fields : List (String × α)) (name : String) :
    get? (fields.filter fun f => f.1 != name) name = none := by
  induction fields with
  | nil => rfl
  | cons f rest ih => by_cases h : f.1 = name <;> simp [get?, h, ih]

/-- Dropping a name leaves the others alone. -/
theorem get?_filter_of_ne (h : name ≠ other) (fields : List (String × α)) :
    get? (fields.filter fun f => f.1 != name) other = get? fields other := by
  induction fields with
  | nil => rfl
  | cons f rest ih =>
      by_cases hf : f.1 = name
      · simp [get?, hf, h, ih]
      · by_cases hf' : f.1 = other <;> simp [get?, hf', hf, h.symm, ih]

/-- What is found stands in the list. -/
theorem mem_of_get? (h : get? fields name = some value) : (name, value) ∈ fields := by
  induction fields with
  | nil => exact absurd h (by simp [get?])
  | cons f rest ih =>
      rw [get?] at h
      split_ifs at h with hf
      · rw [← hf, ← Option.some.inj h]
        exact List.mem_cons_self
      · exact List.mem_cons_of_mem f (ih h)

/-- A value whose name is new comes last. -/
theorem put_of_not_mem (h : name ∉ fields.map Prod.fst) (value : α) :
    put fields name value = fields ++ [(name, value)] := by
  induction fields with
  | nil => rfl
  | cons f rest ih =>
      obtain ⟨hne, hrest⟩ := List.ne_and_not_mem_of_not_mem_cons h
      rw [put, if_neg hne.symm, ih hrest]
      rfl

/-- Setting a value keeps the names and adds its own. -/
theorem map_fst_put (fields : List (String × α)) (name : String) (value : α) :
    (put fields name value).map Prod.fst =
      if name ∈ fields.map Prod.fst then fields.map Prod.fst else fields.map Prod.fst ++ [name] := by
  split_ifs with hmem
  · induction fields with
    | nil => exact absurd hmem List.not_mem_nil
    | cons f rest ih =>
        by_cases hf : f.1 = name
        · simp [put, hf]
        · have hrest := (List.mem_cons.mp hmem).resolve_left (Ne.symm hf)
          simp [put, hf, ih hrest]
  · rw [put_of_not_mem hmem, List.map_append]
    rfl

/-- Setting a value gives no name a second place. -/
theorem nodup_put (h : (fields.map Prod.fst).Nodup) (name : String) (value : α) :
    ((put fields name value).map Prod.fst).Nodup := by
  rw [map_fst_put]
  split_ifs with hmem
  · exact h
  · exact List.nodup_append.mpr ⟨h, List.nodup_singleton name, fun n hn m hm heq =>
      hmem (List.mem_singleton.mp hm ▸ heq ▸ hn)⟩

/-- Values are changed before or after one of them is set. -/
theorem map_put (f : α → β) (fields : List (String × α)) (name : String) (value : α) :
    (put fields name value).map (Prod.map id f) =
      put (fields.map (Prod.map id f)) name (f value) := by
  induction fields with
  | nil => rfl
  | cons g rest ih =>
      obtain ⟨n, v⟩ := g
      by_cases hn : n = name <;> simp [put, hn, ih]

/-- A value that was changed everywhere is found changed. -/
theorem get?_map (f : α → β) (fields : List (String × α)) (name : String) :
    get? (fields.map (Prod.map id f)) name = (get? fields name).map f := by
  induction fields with
  | nil => rfl
  | cons g rest ih => by_cases hg : g.1 = name <;> simp [get?, hg, ih]

/-! ### Many values -/

/-- Sets values one after the other. -/
def putEach (known new : List (String × α)) : List (String × α) :=
  new.foldl (fun acc f => put acc f.1 f.2) known

/-- The first value is set before the others. -/
@[simp] theorem putEach_cons (known new : List (String × α)) (f : String × α) :
    putEach known (f :: new) = putEach (put known f.1 f.2) new := rfl

/-- Values may be changed before they are set or afterwards. -/
theorem map_putEach (f : α → β) (known new : List (String × α)) :
    (putEach known new).map (Prod.map id f) =
      putEach (known.map (Prod.map id f)) (new.map (Prod.map id f)) := by
  induction new generalizing known with
  | nil => rfl
  | cons g new ih => rw [putEach_cons, ih, map_put, List.map_cons, putEach_cons]; rfl

/-- Setting many values gives no name a second place. -/
theorem nodup_putEach (h : (known.map Prod.fst).Nodup) (new : List (String × α)) :
    ((putEach known new).map Prod.fst).Nodup := by
  induction new generalizing known with
  | nil => exact h
  | cons f new ih => exact ih (nodup_put h f.1 f.2)

/-- What is there after setting a value was there before, or is that value. -/
theorem mem_put {f : String × α} (h : f ∈ put fields name value) :
    f ∈ fields ∨ f = (name, value) := by
  induction fields with
  | nil => exact Or.inr (List.mem_singleton.mp h)
  | cons g rest ih =>
      rw [put] at h
      split_ifs at h with hg
      · rcases List.mem_cons.mp h with rfl | h
        · exact Or.inr (hg ▸ rfl)
        · exact Or.inl (List.mem_cons_of_mem g h)
      · rcases List.mem_cons.mp h with rfl | h
        · exact Or.inl List.mem_cons_self
        · exact (ih h).imp_left (List.mem_cons_of_mem g)

/-- All values come from somewhere, with their names. -/
theorem mem_putEach {f : String × α} (h : f ∈ putEach known new) : f ∈ known ∨ f ∈ new := by
  induction new generalizing known with
  | nil => exact Or.inl h
  | cons g new ih =>
      rcases ih h with hmem | hmem
      · exact (mem_put hmem).imp_right fun (heq : f = g) => heq ▸ List.mem_cons_self
      · exact Or.inr (List.mem_cons_of_mem g hmem)

/-- Values of new names, each of which has one place, come last in their order. -/
theorem putEach_of_nodup (h : ((known ++ new).map Prod.fst).Nodup) :
    putEach known new = known ++ new := by
  induction new generalizing known with
  | nil => exact (List.append_nil known).symm
  | cons f new ih =>
      have hnot : f.1 ∉ known.map Prod.fst := by
        rw [List.map_append, List.map_cons] at h
        exact fun hmem => (List.nodup_append.mp h).2.2 _ hmem _ List.mem_cons_self rfl
      rw [putEach_cons, put_of_not_mem hnot, ih (by simpa using h), List.append_assoc]
      rfl

/-- Every name has one place. -/
theorem nodup_putAll (fields : List (String × α)) : ((putAll fields).map Prod.fst).Nodup :=
  nodup_putEach (show ([].map Prod.fst).Nodup from List.nodup_nil) fields

/-- Nothing is there that was not set. -/
theorem mem_of_mem_putAll {f : String × α} (h : f ∈ putAll fields) : f ∈ fields :=
  (mem_putEach h).resolve_left List.not_mem_nil

/-- Names that occur once keep their places. -/
theorem putAll_of_nodup (h : (fields.map Prod.fst).Nodup) : putAll fields = fields :=
  putEach_of_nodup h

/-- Setting other values leaves a value alone. -/
theorem get?_putEach_of_not_mem (h : name ∉ new.map Prod.fst) (known : List (String × α)) :
    get? (putEach known new) name = get? known name := by
  induction new generalizing known with
  | nil => rfl
  | cons f new ih =>
      obtain ⟨hne, hnew⟩ := List.ne_and_not_mem_of_not_mem_cons h
      rw [putEach_cons, ih hnew, get?_put_of_ne hne.symm]

/-- A value that is set once is found. -/
theorem get?_putEach_of_mem (h : (new.map Prod.fst).Nodup) (hmem : (name, value) ∈ new)
    (known : List (String × α)) : get? (putEach known new) name = some value := by
  induction new generalizing known with
  | nil => exact absurd hmem List.not_mem_nil
  | cons f new ih =>
      obtain ⟨hnot, hnew⟩ := List.nodup_cons.mp h
      rcases List.mem_cons.mp hmem with rfl | hmem
      · rw [putEach_cons, get?_putEach_of_not_mem hnot, get?_put_self]
      · exact ih hnew hmem _

/-- Setting values that are known changes nothing. -/
theorem putEach_of_known (h : ∀ f ∈ new, get? known f.1 = some f.2) : putEach known new = known := by
  induction new with
  | nil => rfl
  | cons f new ih =>
      rw [putEach_cons, put_of_get? (h f List.mem_cons_self)]
      exact ih fun g hg => h g (List.mem_cons_of_mem f hg)

/-- Setting values of different names changes nothing exactly if all of them are known. -/
theorem putEach_eq_self_iff (h : (new.map Prod.fst).Nodup) :
    putEach known new = known ↔ ∀ f ∈ new, get? known f.1 = some f.2 :=
  ⟨fun heq _ hf => by rw [← get?_putEach_of_mem h hf known, heq], putEach_of_known⟩

end Fields

end Flowchart
