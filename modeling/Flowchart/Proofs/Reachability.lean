import Flowchart.Proofs.Drawing.Steps
import Flowchart.Proofs.Drawing.Stops
import Flowchart.Proofs.Drawing.Visits

/-!
# Every node is reached

Drawing starts anew, from no exit, in two places only: at the start of the program, and at each member
of a container. Where nothing follows a statement that stops, no other statement is drawn from no
exit (`Visits.starts`). So every node that is not linked to an earlier one is the first node on the
flow of the program or of a member, or it fills a container that would be empty; and all other nodes
are reached from those.
-/

namespace Flowchart

open Builder

/-- Control may start at `s`: it is the first node on the flow of the block, or of a member of a
container in it, or it fills a container whose members draw nothing. -/
def Block.Starts (r : Block) (s : Node) : Prop :=
  s ∈ r.first? ∨ ∃ v, Visits r v ∧ (s ∈ v.placeholder? ∨ ∃ m ∈ v.members, s ∈ m.first?)

namespace Visit

/-- A block of a statement is drawn from some exit, or it is a member of a container, or it is all
that is drawn for the statement, or it follows a guarded body. -/
theorem exits_of_mem_blocks (v : Visit) : ∀ r ∈ v.blocks, r.exits ≠ [] ∨ r ∈ v.members ∨
    (r.exits = v.exits ∧ r.first? = v.first?) ∨ ∃ g, v.guard? = some g ∧ r = g.orelse := by
  have hchain : ∀ c, v.chain? = some c → ∀ r ∈ v.blocks,
      r.exits ≠ [] ∨ r.exits = v.exits ∧ r.first? = v.first? := by
    intro c hc r hr
    obtain ⟨-, hlaid, hblocks⟩ := close_chain hc
    refine (hlaid.exits_ne_nil r (hblocks ▸ hr)).imp id fun ⟨hlinks, hlast⟩ => ?_
    obtain ⟨-, hexits, hbefore, -, hafter⟩ := chain_of_links_nil hc hlinks
    rw [hlast, Block.first?, first?, hbefore, hafter]
    exact ⟨hexits, rfl⟩
  have hguard : ∀ g, v.guard? = some g → ∀ r ∈ v.blocks,
      r.exits ≠ [] ∨ ∃ g, v.guard? = some g ∧ r = g.orelse := by
    intro g hg r hr
    obtain ⟨hbody, -, hhandlers, hfinally⟩ := exits_guard hg
    rw [blocks_guard hg, List.mem_cons, List.mem_cons, List.mem_append, List.mem_map,
      Option.mem_toList, Option.map_eq_some_iff] at hr
    rcases hr with rfl | rfl | ⟨l, hl, rfl⟩ | ⟨f, hf, rfl⟩
    · exact Or.inl (by simp [hbody])
    · exact Or.inr ⟨g, hg, rfl⟩
    · exact Or.inl (by simp [hhandlers l hl])
    · exact Or.inl (by simp [hfinally f hf])
  obtain ⟨s, es, b⟩ := v
  intro r hr
  cases s with
  | branch => exact (hchain _ rfl r hr).imp id fun h => Or.inr (Or.inl h)
  | switch => exact (hchain _ rfl r hr).imp id fun h => Or.inr (Or.inl h)
  | guarded => exact (hguard _ rfl r hr).imp id fun h => Or.inr (Or.inr h)
  | container => exact Or.inr (Or.inl hr)
  | block =>
      obtain rfl := List.mem_singleton.mp hr
      exact Or.inr (Or.inr (Or.inl ⟨rfl, rfl⟩))
  | loop =>
      rcases List.mem_pair.mp hr with rfl | rfl <;> exact Or.inl (List.cons_ne_nil _ _)
  | countedLoop | resource | function =>
      obtain rfl := List.mem_singleton.mp hr
      exact Or.inl (List.cons_ne_nil _ _)
  | simple | terminal | skip => exact absurd hr List.not_mem_nil

/-- The node that fills a container is drawn for it. -/
theorem mem_after_of_placeholder? {v : Visit} {n : Node} (h : v.placeholder? = some n) :
    n ∈ v.after.nodes := by
  obtain ⟨s, es, b⟩ := v
  cases s with
  | container line text members =>
      set b₁ := (lowerMembers members (b.openSubgraph text line).2).2 with hb₁
      have hlower := lowerStmt_container line text members es b
      by_cases hempty : b₁.nodes.length = b.nodes.length + 1
      · have hplaceholder : (⟨.container line text members, es, b⟩ : Visit).placeholder? =
            some (b₁.freshNode .process text line) := if_pos hempty
        obtain rfl := Option.some.inj (hplaceholder.symm.trans h)
        rw [after, hlower]
        dsimp only
        rw [if_pos hempty]
        exact (Adds.node b₁ .process text line (by simp)).mem_nodes
      · exact absurd h (by simp [placeholder?, ← hb₁, hempty])
  | _ => exact absurd h (by simp [placeholder?])

end Visit

/-- An empty block comes to draw nothing. -/
theorem Visits.stmts_ne_nil {r : Block} {v : Visit} (h : Visits r v) : r.stmts ≠ [] := by
  cases h <;> exact List.cons_ne_nil _ _

/-- Where there is no dead code, a statement that is drawn from no exit opens the flow of the block,
or that of a member of a container. -/
theorem Visits.starts {r : Block} {v : Visit} (hv : Visits r v) (hs : r.before.Sound)
    (hes : ∀ x ∈ r.exits, x.Pending r.before) (hd : noDead r.stmts = true) (h : v.exits = [])
    {n : Node} (hn : n ∈ v.first?) : (r.exits = [] ∧ n ∈ r.first?) ∨
      ∃ u, Visits r u ∧ ∃ m ∈ u.members, n ∈ m.first? := by
  induction hv with
  | @here s rest es b =>
      refine Or.inl ⟨h, ?_⟩
      rw [Block.first?_cons hs hes, Option.mem_def.mp hn]
      rfl
  | @later s rest es b v hv ih =>
      obtain ⟨-, hlast, hdrest⟩ := noDead_cons hd
      have hf := Visit.drawn ⟨s, es, b⟩ hs hes
      rcases ih (hf.segment.grows.sound hs) hf.segment.pending hdrest h hn with
        ⟨hnil, hfirst⟩ | ⟨u, hu, hm⟩
      · -- something follows the statement, so it does not stop and has drawn nothing
        have hne : rest ≠ [] := hv.stmts_ne_nil
        have hstmt := Visit.stops_of_ends_nil ⟨s, es, b⟩ hs (fun r hr =>
          r.stops_of_ends_nil (hf.placed r hr).sound (hf.placed r hr).pending) hnil
        obtain ⟨hexits, hnone⟩ := hstmt.resolve_left (by simp [hlast.resolve_left hne])
        refine Or.inl ⟨hexits, ?_⟩
        rw [Block.first?_cons hs hes, hnone, Option.none_or]
        exact hfirst
      · exact Or.inr ⟨u, Visits.later hu, hm⟩
  | @inside s rest es b r v hr hv ih =>
      obtain ⟨hds, -, -⟩ := noDead_cons hd
      have hf := Visit.drawn ⟨s, es, b⟩ hs hes
      have hp := hf.placed r hr
      rcases ih hp.sound hp.pending (Visit.noDead_blocks ⟨s, es, b⟩ hds r hr) h hn with
        ⟨hnil, hfirst⟩ | ⟨u, hu, hm⟩
      · rcases Visit.exits_of_mem_blocks ⟨s, es, b⟩ r hr with hne | hmember | ⟨hexits, hsame⟩ |
          ⟨g, hg, rfl⟩
        · exact absurd hnil hne
        · exact Or.inr ⟨_, Visits.here, r, hmember, hfirst⟩
        · refine Or.inl ⟨hexits.symm.trans hnil, ?_⟩
          rw [Block.first?_cons hs hes, ← hsame, Option.mem_def.mp hfirst]
          rfl
        · -- what follows a guarded body is drawn from no exit only if the body stops
          obtain ⟨hbody, horelse, -⟩ := Visit.exits_guard hg
          have hmem := Visit.body_mem_blocks hg
          have hstops := g.body.stops_of_ends_nil (hf.placed _ hmem).sound
            (hf.placed _ hmem).pending (horelse ▸ hnil)
          have hstops' := hstops.resolve_right (by simp [hbody])
          have hempty := (Visit.noDead_guard hg hds).resolve_right (by simp [hstops'])
          exact absurd hempty hv.stmts_ne_nil
      · exact Or.inr ⟨u, Visits.inside hr hu, hm⟩

/-- Drawing may start anew at the nodes at which control may start. -/
def Licence.starts (r : Block) : Licence :=
  ⟨fun k => ∃ s ∈ r.after.nodes, r.Starts s ∧ idNumber s.id = k, fun _ => True⟩

section Program

variable {mode : LabelMode} {limit : Option Int} {stmts : List Stmt}

/-- The statements of a program without dead code start anew only where control may start. -/
theorem Visits.licensed_starts {v : Visit} (hv : Visits (Block.program mode limit stmts) v)
    (hd : noDead stmts = true) : v.Licensed (Licence.starts (Block.program mode limit stmts)) where
  head hexits hhead := by
    have hin := hv.within_program
    obtain ⟨n, hfirst, hnumber, -⟩ := v.linked_head hin.sound hin.pending hhead
    have hmem := hin.framed.keeps.nodes_prefix.subset
      (mem_nodes_of_mem_added (mem_added_of_first? hfirst))
    refine ⟨n, hmem, ?_, hnumber⟩
    have hstarts := hv.starts (sound_empty mode limit) (fun _ hx => absurd hx List.not_mem_nil) hd
      hexits hfirst
    rcases hstarts with ⟨-, hn⟩ | ⟨u, hu, hm⟩
    · exact Or.inl hn
    · exact Or.inr ⟨u, hu, Or.inr hm⟩
  placeholder n hn := ⟨n, hv.within_program.framed.keeps.nodes_prefix.subset
    (Visit.mem_after_of_placeholder? hn), Or.inr ⟨v, hv, Or.inl hn⟩, rfl⟩
  handler _ _ _ _ := trivial
  cleanup _ _ _ _ _ := trivial

end Program

/-- In the graph of a program without dead code every node is reached from one at which control may
start: the first node on the flow of the program, or of a member of a container, or a node that fills
a container. -/
theorem reached_program (mode : LabelMode) (limit : Option Int) (stmts : List Stmt)
    (h : noDead stmts = true) :
    let r := Block.program mode limit stmts
    let g := (lowerProgram stmts (Builder.empty mode limit)).2.build
    ∀ n ∈ g.nodes, n.shape ≠ .subgraph → ∃ s ∈ g.nodes, r.Starts s ∧ g.Reaches s.id n.id := by
  intro r g n hn hshape
  have hkept := r.kept (sound_empty mode limit) (fun _ hx => absurd hx List.not_mem_nil)
    fun v hv => hv.licensed_starts h
  obtain ⟨s, hs, -, hold | ⟨s', hs', hstarts, hnumber⟩, hreach⟩ := hkept.rooted n hn hshape
  · exact absurd hold List.not_mem_nil
  · rw [hkept.sound.node_eq hs' hs hnumber] at hstarts
    exact ⟨s, hs, hstarts, hreach⟩

/-- A program with a container, a function that is left on both ways of a branch, and a guarded
statement after it. -/
theorem reached_program_container :
    let stmts : List Stmt := [
      .container (some 1) "A" [.function (some 2) "f" [
        .branch (some 3) "" "x" [.terminal (some 4) "return 1"] [.terminal (some 5) "return 2"]]],
      .guarded (some 6) "" [.simple (some 7) "g()"] [] [⟨"E", some 8, [.terminal none "raise"]⟩]
        (some ⟨some 9, [.simple (some 10) "h()"]⟩)]
    let r := Block.program .lenient (some 40) stmts
    let g := (lowerProgram stmts (Builder.empty .lenient (some 40))).2.build
    noDead stmts = true ∧ ∀ n ∈ g.nodes, n.shape ≠ .subgraph →
      ∃ s ∈ g.nodes, r.Starts s ∧ g.Reaches s.id n.id :=
  ⟨by decide, reached_program .lenient (some 40) _ (by decide)⟩

end Flowchart
