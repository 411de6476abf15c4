import Flowchart.Highlight
import Flowchart.Proofs.Svg.Tree
import Mathlib.Data.List.Nodup

/-!
# Nodes in a drawing

Which elements of a drawing stand for nodes of a graph: every node at the first element in document
order that draws it (`find?_targetsIn`), and no node twice (`nodup_targetsIn`).

The search goes through the elements once, in document order, and keeps the nodes it has found
(`collect`). A node that several elements could draw is therefore found at the first of them. All
that the search looks at is the id and the classes of an element, so a change that keeps labels in
place and leaves these alone finds the same nodes at the same places (`targetsIn_mapAll`).
-/

namespace Flowchart

open Element

/-- The target of a node at an element, before anything was done to it. -/
def Target.first (node : String) (place : Path × Element) : Target :=
  ⟨node, (place.2.attr? "id").getD "", some place.1, place.2.label?.map (place.1 ++ ·), none⟩

section Collect

variable (g : Graph)

/-- One more element of a drawing, after the targets found before. -/
def collect (found : List Target) (place : Path × Element) : List Target :=
  match nodeOf? g place.2 with
  | none => found
  | some n => if found.any fun t => t.node == n.id then found else found ++ [.first n.id place]

/-- The nodes are collected from the elements in document order. -/
theorem targetsIn_eq (d : Element) : targetsIn g d = d.descendants.foldl (collect g) [] := rfl

variable {g}

/-- No node is collected twice. -/
theorem nodup_foldl_collect (places : List (Path × Element)) {found : List Target}
    (h : (found.map (·.node)).Nodup) : ((places.foldl (collect g) found).map (·.node)).Nodup := by
  induction places generalizing found with
  | nil => exact h
  | cons place places ih =>
      refine ih ?_
      rw [collect]
      split
      · exact h
      · split_ifs with hfound
        · exact h
        · rw [List.map_append, List.nodup_append]
          refine ⟨h, by simp, fun a ha b hb => ?_⟩
          obtain ⟨t, ht, rfl⟩ := List.mem_map.mp ha
          obtain rfl := by simpa using hb
          rintro heq
          exact hfound (List.any_eq_true.mpr ⟨t, ht, beq_iff_eq.mpr heq⟩)

/-- What was collected was there before or comes from one of the elements. -/
theorem mem_foldl_collect (places : List (Path × Element)) {found : List Target} {t : Target}
    (h : t ∈ places.foldl (collect g) found) :
    t ∈ found ∨ ∃ place ∈ places, ∃ n, nodeOf? g place.2 = some n ∧ t = .first n.id place := by
  induction places generalizing found with
  | nil => exact Or.inl h
  | cons place places ih =>
      rcases ih h with hfound | ⟨p, hp, hn⟩
      · rw [collect] at hfound
        split at hfound
        · exact Or.inl hfound
        next n hn =>
          split_ifs at hfound
          · exact Or.inl hfound
          · rcases List.mem_append.mp hfound with hfound | ht
            · exact Or.inl hfound
            · exact Or.inr ⟨place, List.mem_cons_self, n, hn, List.mem_singleton.mp ht⟩
      · exact Or.inr ⟨p, List.mem_cons_of_mem place hp, hn⟩

/-- Whether an element stands for the node of an id. -/
def standsFor (g : Graph) (node : String) (e : Element) : Bool := (nodeOf? g e).any (·.id == node)

/-- A node is found where it was before, or at the first element that draws it. -/
theorem find?_foldl_collect (places : List (Path × Element)) (found : List Target) (node : String) :
    (places.foldl (collect g) found).find? (·.node == node) =
      (found.find? (·.node == node)).or
        ((places.find? fun place => standsFor g node place.2).map (.first node)) := by
  induction places generalizing found with
  | nil => simp
  | cons place places ih =>
      rw [List.foldl_cons, ih, List.find?_cons, collect]
      cases hn : nodeOf? g place.2 with
      | none => simp [standsFor, hn]
      | some n =>
          have hstands : standsFor g node place.2 = (n.id == node) := by simp [standsFor, hn]
          rw [hstands]
          by_cases hnode : n.id = node
          · subst hnode
            by_cases hfound : found.any fun t => t.node == n.id
            · obtain ⟨t, ht⟩ : ∃ t, found.find? (·.node == n.id) = some t := by
                rw [← Option.isSome_iff_exists, List.find?_isSome]
                exact List.any_eq_true.mp hfound
              simp [hfound, ht]
            · have hnone : found.find? (·.node == n.id) = none := by
                rw [List.find?_eq_none]
                exact fun t ht heq => hfound (List.any_eq_true.mpr ⟨t, ht, heq⟩)
              simp [hfound, List.find?_append, hnone, Target.first]
          · have hother : (n.id == node) = false := beq_eq_false_iff_ne.mpr hnode
            rw [hother]
            by_cases hfound : found.any fun t => t.node == n.id
            · simp [hfound]
            · simp [hfound, List.find?_append, hnode, Target.first]

end Collect

section Targets

variable {g : Graph} {d : Element}

/-- No node is listed twice. -/
theorem nodup_targetsIn (g : Graph) (d : Element) : ((targetsIn g d).map (·.node)).Nodup :=
  nodup_foldl_collect _ (by simp)

/-- A node is listed at an element that stands for it. -/
theorem exists_of_mem_targetsIn {t : Target} (h : t ∈ targetsIn g d) :
    ∃ p e n, d.at? p = some e ∧ nodeOf? g e = some n ∧ t = .first n.id (p, e) := by
  rcases mem_foldl_collect _ h with hnil | ⟨⟨p, e⟩, hplace, n, hn, rfl⟩
  · exact absurd hnil List.not_mem_nil
  · exact ⟨p, e, n, mem_descendants.mp hplace, hn, rfl⟩

/-- A node is listed at the first element that stands for it. -/
theorem find?_targetsIn (g : Graph) (d : Element) (node : String) :
    (targetsIn g d).find? (·.node == node) =
      (d.descendants.find? fun place => standsFor g node place.2).map (.first node) := by
  rw [targetsIn_eq, find?_foldl_collect]
  rfl

/-- A node has one target. -/
theorem eq_of_node_eq {t u : Target} (ht : t ∈ targetsIn g d) (hu : u ∈ targetsIn g d)
    (h : t.node = u.node) : t = u :=
  List.inj_on_of_nodup_map (nodup_targetsIn g d) ht hu h

/-- A node stands in the drawing or is not listed. -/
theorem exists_target_or_forall_ne (g : Graph) (d : Element) (node : String) :
    (∃ t ∈ targetsIn g d, t.node = node) ∨ ∀ t ∈ targetsIn g d, t.node ≠ node := by
  by_cases h : ∃ t ∈ targetsIn g d, t.node = node
  · exact Or.inl h
  · exact Or.inr fun t ht heq => h ⟨t, ht, heq⟩

/-- No two nodes are listed at one element. -/
theorem eq_of_place_eq {t u : Target} (ht : t ∈ targetsIn g d) (hu : u ∈ targetsIn g d)
    (h : t.place = u.place) : t = u := by
  obtain ⟨p, e, n, he, hn, rfl⟩ := exists_of_mem_targetsIn ht
  obtain ⟨q, e', n', he', hn', rfl⟩ := exists_of_mem_targetsIn hu
  obtain rfl : p = q := Option.some.inj h
  obtain rfl := Option.some.inj (he.symm.trans he')
  obtain rfl := Option.some.inj (hn.symm.trans hn')
  rfl

/-- A drawing in which nothing is kept from highlighting, no node stands in another, and no label holds
a shape. -/
structure Clean (g : Graph) (d : Element) : Prop where
  unkept : ∀ x ∈ d.descendants, x.2.attr? styleKept = none ∧ x.2.attr? textKept = none
  apart : ∀ t ∈ targetsIn g d, ∀ u ∈ targetsIn g d, ∀ p ∈ t.place, ∀ q ∈ u.place, p <+: q → p = q
  label_plain : ∀ t ∈ targetsIn g d, ∀ l ∈ t.label, ∀ x ∈ d.descendants, l <+: x.1 →
    isShape x.2 = false

/-- Nodes that stand one in the other are one node. -/
theorem Clean.eq_of_prefix (h : Clean g d) {t u : Target} (ht : t ∈ targetsIn g d)
    (hu : u ∈ targetsIn g d) {p q : Path} (hp : t.place = some p) (hq : u.place = some q)
    (hpq : p <+: q) : t = u := by
  obtain rfl := h.apart t ht u hu p hp q hq hpq
  exact eq_of_place_eq ht hu (hp.trans hq.symm)

end Targets

/-! ### Drawings that differ in other attributes -/

section Change

variable {f : Element → Element} (hf : KeepsLabels f) (hid : ∀ e, (f e).attr? "id" = e.attr? "id")

include hf hid

/-- An element stands for the same node. -/
theorem nodeOf?_mapAll (g : Graph) (e : Element) : nodeOf? g (mapAll f e) = nodeOf? g e := by
  have hdraws : ∀ n made, draws n made (mapAll f e) = draws n made e := fun n made => by
    rw [draws, hf.hasClass_mapAll, hf.hasClass_mapAll, draws]
  simp only [nodeOf?, attr?_mapAll hid, hdraws]

/-- The nodes are listed as before. -/
theorem targetsIn_mapAll (g : Graph) (d : Element) : targetsIn g (mapAll f d) = targetsIn g d := by
  have hcollect : ∀ found place, collect g found (place.1, mapAll f place.2) =
      collect g found place := fun found place => by
    simp only [collect, nodeOf?_mapAll hf hid, Target.first, attr?_mapAll hid, hf.label?_mapAll]
  rw [targetsIn_eq, targetsIn_eq, descendants_mapAll hf.shallow, List.foldl_map]
  simp only [hcollect]

end Change

end Flowchart
