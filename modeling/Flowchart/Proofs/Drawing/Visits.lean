import Flowchart.Proofs.Drawing.Drawn

/-!
# What is drawn on the way

Drawing a program comes to draw every statement in it, at whatever depth. `Visits.within` says
where such a visit lies in the whole: it starts from pending exits, and what it draws is left
alone by everything drawn after it. `Block.cover` says that nothing else is drawn: every node that
is a decision or the head of a loop is owned by a visit.

## Main results

* `Visits.within`: a visit lies within the whole.
* `Block.cover`: the visits cover what is drawn.
* `grows_program`, `exists_visit_owns`: both for programs.
-/

namespace Flowchart

open Builder

/-- The program as a block about to be drawn. -/
def Block.program (mode : LabelMode) (limit : Option Int) (stmts : List Stmt) : Block :=
  ⟨stmts, [], Builder.empty mode limit⟩

/-- The visit `v` lies within the block `r`: it starts well, and what it draws is left alone by
the rest of the block. -/
structure Visit.Within (v : Visit) (r : Block) : Prop where
  sound : v.before.Sound
  pending : ∀ x ∈ v.exits, x.Pending v.before
  entered : Extends r.before v.before
  framed : Framed v.before.next v.ends v.after r.ends r.after

/-- Every visit lies within the block. -/
theorem Visits.within {r : Block} {v : Visit} (h : Visits r v) (hs : r.before.Sound)
    (hes : ∀ x ∈ r.exits, x.Pending r.before) : v.Within r := by
  induction h with
  | @here s rest es b =>
      have hv := Visit.drawn ⟨s, es, b⟩ hs hes
      have hrest := Block.segment ⟨rest, (⟨s, es, b⟩ : Visit).ends, (⟨s, es, b⟩ : Visit).after⟩
        (hv.segment.grows.sound hs) hv.segment.pending
      exact ⟨hs, hes, Extends.refl _, hrest.framed b.next⟩
  | @later s rest es b v _ ih =>
      have hv := Visit.drawn ⟨s, es, b⟩ hs hes
      obtain ⟨hsound, hpending, hentered, hframed⟩ :=
        ih (hv.segment.grows.sound hs) hv.segment.pending
      exact ⟨hsound, hpending, hv.segment.grows.extends.trans hentered, hframed⟩
  | @inside s rest es b r' v hr' _ ih =>
      have hv := Visit.drawn ⟨s, es, b⟩ hs hes
      have hrest := Block.segment ⟨rest, (⟨s, es, b⟩ : Visit).ends, (⟨s, es, b⟩ : Visit).after⟩
        (hv.segment.grows.sound hs) hv.segment.pending
      have hp := hv.placed r' hr'
      obtain ⟨hsound, hpending, hentered, hframed⟩ := ih hp.sound hp.pending
      refine ⟨hsound, hpending, hp.entered.trans hentered, ?_⟩
      exact (hframed.trans hentered.next_le hp.framed).trans
        (hp.entered.trans hentered).next_le (hrest.framed b.next)

/-- Every new node is owned by a visit. -/
theorem Block.cover (r : Block) (hs : r.before.Sound) (hes : ∀ x ∈ r.exits, x.Pending r.before) :
    ∀ n ∈ r.after.nodes, n ∈ r.before.nodes ∨ ∃ v, Visits r v ∧ v.Owns n := by
  induction r using Block.induction with
  | nil es b => exact fun _ hn => Or.inl hn
  | cons s rest es b hblocks hrest =>
      intro n hn
      have hv := Visit.drawn ⟨s, es, b⟩ hs hes
      rcases hrest (hv.segment.grows.sound hs) hv.segment.pending n hn with hn | ⟨v, hvisit, hown⟩
      · rcases hv.cover n hn with hn | hown | ⟨r, hr, hn, hnew⟩
        · exact Or.inl hn
        · exact Or.inr ⟨_, Visits.here, hown⟩
        · have hp := hv.placed r hr
          obtain ⟨v, hvisit, hown⟩ :=
            (hblocks r hr hp.sound hp.pending n hn).resolve_left hnew
          exact Or.inr ⟨v, Visits.inside hr hvisit, hown⟩
      · exact Or.inr ⟨v, Visits.later hvisit, hown⟩

section Program

variable (mode : LabelMode) (limit : Option Int) (stmts : List Stmt)

/-- Drawing a program is growth of an empty builder. -/
theorem grows_program :
    Grows (Builder.empty mode limit) (lowerProgram stmts (Builder.empty mode limit)).2 :=
  ((Block.program mode limit stmts).segment (sound_empty mode limit) fun _ hx =>
    absurd hx List.not_mem_nil).grows

variable {mode limit stmts}

/-- A visit lies within the drawing of its program. -/
theorem Visits.within_program {v : Visit} (h : Visits (Block.program mode limit stmts) v) :
    v.Within (Block.program mode limit stmts) :=
  h.within (sound_empty mode limit) fun _ hx => absurd hx List.not_mem_nil

/-- Every node of a program is owned by a visit. -/
theorem exists_visit_owns {n : Node}
    (hn : n ∈ (lowerProgram stmts (Builder.empty mode limit)).2.nodes) :
    ∃ v, Visits (Block.program mode limit stmts) v ∧ v.Owns n :=
  ((Block.program mode limit stmts).cover (sound_empty mode limit)
    (fun _ hx => absurd hx List.not_mem_nil) n hn).resolve_left List.not_mem_nil

end Program

end Flowchart
