import Flowchart.Proofs.Drawing.Drawn

/-!
# Edges into a node

The edges into a node are drawn when the node is drawn: whatever goes on from there adds edges into
later nodes only (`Builder.Onward`). The one exception are the edges back to the head of a loop; they
do not reach into a piece of the drawing that is left alone (`Framed`). So the edges into a node
of a finished graph are those with which it was placed.

## Main results

* `mem_incoming_linkAll`, `mem_incoming_spur`: the edges into a node with which it was placed.
* `Framed.mem_incoming`: those are the ones in the finished graph.
-/

namespace Flowchart

open Builder

namespace Graph

/-- The edges into a node are those that end in it. -/
theorem mem_incoming {g : Graph} {id : String} {d : Edge} :
    d ∈ g.incoming id ↔ d ∈ g.edges ∧ d.target = id := by
  rw [incoming, List.mem_filter, beq_iff_eq]

/-- An edge into a node is all of the edges into it if it is the only one. -/
theorem incoming_eq_singleton {g : Graph} (h : g.edges.Nodup) {id : String} {e : Edge}
    (he : ∀ d, d ∈ g.incoming id ↔ d = e) : g.incoming id = [e] := by
  have hnodup : (g.incoming id).Nodup := h.filter _
  have hperm : (g.incoming id).Perm [e] :=
    (List.perm_ext_iff_of_nodup hnodup (List.nodup_singleton e)).mpr (by simpa using he)
  exact List.perm_singleton.mp hperm

end Graph

namespace Builder

/-- What is drawn from `b` to `b'` adds edges into new nodes only. -/
structure Onward (b b' : Builder) : Prop where
  keeps : Extends b b'
  target : ∀ d ∈ b'.edges, d ∈ b.edges ∨ b.next ≤ idNumber d.target

variable {b b₁ b' : Builder} {es : List Exit} {n : Node} {t : String} {d : Edge}

namespace Onward

/-- Where nothing is drawn, no edge is added. -/
theorem refl (b : Builder) : Onward b b := ⟨Extends.refl b, fun _ hd => Or.inl hd⟩

/-- Two stretches that lead onward do so together. -/
theorem trans (h₁ : Onward b b₁) (h₂ : Onward b₁ b') : Onward b b' where
  keeps := h₁.keeps.trans h₂.keeps
  target d hd := by
    rcases h₂.target d hd with hd | hle
    · exact h₁.target d hd
    · exact Or.inr (Nat.le_trans h₁.keeps.next_le hle)

/-- The edges into a node that was there before are those from before. -/
theorem mem_incoming (h : Onward b b') (ht : idNumber t < b.next) :
    d ∈ b'.build.incoming t ↔ d ∈ b.build.incoming t := by
  rw [Graph.mem_incoming, Graph.mem_incoming]
  refine and_congr_left fun htarget => ⟨fun hd => ?_, fun hd => h.keeps.edges_prefix.subset hd⟩
  refine (h.target d hd).resolve_right fun hle => ?_
  rw [htarget] at hle
  exact absurd ht (Nat.not_lt.mpr hle)

end Onward

/-- No edge leads to the next node. -/
theorem Sound.target_ne (hs : b.Sound) (hd : d ∈ b.edges) (ht : idNumber t = b.next) :
    d.target ≠ t := fun htarget => by
  have hlt := hs.idNumber_lt (hs.target_mem d hd)
  rw [htarget, ht] at hlt
  exact Nat.lt_irrefl _ hlt

/-! ### A new node that exits are linked to -/

/-- The edges into a new node come from the exits that are linked to it. -/
theorem mem_incoming_linkAll (h : b.Adds n b₁) (hs : b.Sound) (hes : ∀ x ∈ es, x.Pending b) :
    d ∈ (b₁.linkAll es n.id).build.incoming n.id ↔ ∃ x ∈ es, d = x.edgeTo b n.id := by
  rw [Graph.mem_incoming]
  constructor
  · rintro ⟨hd, htarget⟩
    refine ((h.mem_linkAll_edges hs hes).mp hd).resolve_left fun hold => ?_
    exact hs.target_ne hold h.number_eq htarget
  · rintro ⟨x, hx, rfl⟩
    exact ⟨(h.mem_linkAll_edges hs hes).mpr (Or.inr ⟨x, hx, rfl⟩), rfl⟩

/-! ### A new node that one edge leads to -/

section Spur

variable {shape : Shape} {label : Option String} {source : String}

/-- A new node and an edge into it lead onward. -/
theorem Onward.spur (hs : b.Sound) (hsource : source ∈ b.ids) (hshape : shape ≠ .subgraph)
    (text : String) (line : Option Int) (style : EdgeStyle) (hlabel : label ∈ forwardLabels) :
    Onward b ((b.addNode shape text line).2.addEdge source (b.freshId line) label style) where
  keeps := (Grows.spur hs hsource hlabel hshape text line style).extends
  target d hd := by
    refine ((mem_spur_edges hs hsource hshape text line style).mp hd).imp id ?_
    rintro rfl
    exact Nat.le_of_eq (idNumber_idOf IdFamily.proper_line line b.next).symm

/-- The one edge into a new node. -/
theorem mem_incoming_spur (hs : b.Sound) (hsource : source ∈ b.ids) (hshape : shape ≠ .subgraph)
    (text : String) (line : Option Int) (style : EdgeStyle) :
    d ∈ ((b.addNode shape text line).2.addEdge source (b.freshId line) label style).build.incoming
      (b.freshId line) ↔ d = ⟨source, b.freshId line, b.edgeLabel label, style⟩ := by
  have hnumber : idNumber (b.freshId line) = b.next := idNumber_idOf IdFamily.proper_line line b.next
  rw [Graph.mem_incoming]
  constructor
  · rintro ⟨hd, htarget⟩
    refine ((mem_spur_edges hs hsource hshape text line style).mp hd).resolve_left fun hold => ?_
    exact hs.target_ne hold hnumber htarget
  · rintro rfl
    exact ⟨(mem_spur_edges hs hsource hshape text line style).mpr (Or.inr rfl), rfl⟩

end Spur

end Builder

/-- A fragment leads onward. -/
theorem Fragment.onward {es e : List Exit} {b b' : Builder} (h : Fragment es b e b') :
    Onward b b' := ⟨h.grows.extends, h.target⟩

/-- The edges into a node of a piece that is left alone are those from before. -/
theorem Framed.mem_incoming {lo : Nat} {out e : List Exit} {b b' : Builder}
    (h : Framed lo out b e b') {t : String} (hlo : lo ≤ idNumber t) (hlt : idNumber t < b.next)
    {d : Edge} : d ∈ b'.build.incoming t ↔ d ∈ b.build.incoming t := by
  rw [Graph.mem_incoming, Graph.mem_incoming]
  refine and_congr_left fun htarget => ⟨fun hd => ?_, fun hd => h.keeps.edges_prefix.subset hd⟩
  exact h.mem_edges hd (htarget ▸ hlo) (htarget ▸ hlt)

end Flowchart
