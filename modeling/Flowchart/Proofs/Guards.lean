import Flowchart.Proofs.Drawing.Emitted
import Flowchart.Proofs.Drawing.Incoming
import Flowchart.Proofs.Drawing.Steps
import Flowchart.Proofs.Drawing.Visits

/-!
# Guarded statements

A guarded statement is left to its handlers by dashed edges, and these are the only edges into the
handlers. If its body, with what follows it, and all of its handlers leave no exit, there is no merge
point, and the cleanup hangs off the entry by a dashed edge; otherwise one merge point collects the
exits, and whatever is drawn before the cleanup can be left through the cleanup only
(`Visit.target_of_gate`). No other edge of a graph is dashed.

## The gate

The number of the cleanup's node is a gate. What is drawn of the statement before the cleanup has
smaller numbers, and an edge that starts there ends there too or at the gate: the exits that were left
have been collected, and nothing that is drawn later starts from a node that is no exit. So a walk that
comes out of that part passes the gate (`Graph.mem_of_walk`), which is what it means that the cleanup is
run whichever way the rest is left.

## Main results

* `mem_incoming_handler`, `mem_incoming_finally`, `mem_incoming_merge`: the edges into each part.
* `target_of_gate`: what is drawn before the cleanup is left through it.
* `guarded_program`: all of it for the finished graph.
-/

namespace Flowchart

open Builder

/-! ### Handlers -/

/-- Handlers are drawn onward, and the one edge into each comes from the entry. -/
theorem handlerLinks_incoming (entry : String) (handlers : List (Handler Stmt)) {b : Builder}
    (hs : b.Sound) (hentry : entry ∈ b.ids) :
    Grows b (handlerLinks entry handlers b).2 ∧ Onward b (handlerLinks entry handlers b).2 ∧
      ∀ l ∈ (handlerLinks entry handlers b).1, b.next ≤ idNumber l.node ∧
        idNumber l.node < (handlerLinks entry handlers b).2.next ∧
        ∀ d, d ∈ (handlerLinks entry handlers b).2.build.incoming l.node ↔
          d = ⟨entry, l.node, b.edgeLabel (some "Exception"), .dashed⟩ := by
  induction handlers generalizing b with
  | nil => exact ⟨Grows.refl b, Onward.refl b, fun l hl => absurd hl List.not_mem_nil⟩
  | cons hd rest ih =>
      obtain ⟨label, line, body⟩ := hd
      set r : Block := ⟨body, [Exit.plain (b.freshId line)],
        (b.addNode .flag label line).2.addEdge entry (b.freshId line) (some "Exception")
          .dashed⟩ with hdef
      have hlinks : handlerLinks entry (⟨label, line, body⟩ :: rest) b =
          (⟨b.freshId line, r⟩ :: (handlerLinks entry rest r.after).1,
            (handlerLinks entry rest r.after).2) := rfl
      have hspur : Grows b r.before :=
        Grows.spur hs hentry (by simp [forwardLabels]) (by simp) label line .dashed
      have honward : Onward b r.before :=
        Onward.spur hs hentry (by simp) label line .dashed (by simp [forwardLabels])
      have hs₁ : r.before.Sound := hspur.sound hs
      have hpending : ∀ x ∈ r.exits, x.Pending r.before :=
        pending_spur b entry (some "Exception") (by simp) label line .dashed
      have hbody := (r.segment hs₁ hpending).toFragment
      have hgrows : Grows b r.after := hspur.trans hbody.grows
      obtain ⟨hgrows', honward', hrest⟩ := ih (hgrows.sound hs) (hgrows.mem_ids hentry)
      have hstart : Onward r.before (handlerLinks entry rest r.after).2 :=
        hbody.onward.trans honward'
      rw [hlinks]
      refine ⟨hgrows.trans hgrows', honward.trans hstart, fun l hl => ?_⟩
      rcases List.mem_cons.mp hl with rfl | hl
      · have hlt := hs₁.idNumber_lt (hpending (Exit.plain (b.freshId line))
          (List.mem_singleton_self _)).mem_ids
        refine ⟨Nat.le_of_eq (idNumber_idOf IdFamily.proper_line line b.next).symm,
          Nat.lt_of_lt_of_le hlt hstart.keeps.next_le, fun d => ?_⟩
        rw [hstart.mem_incoming hlt]
        exact mem_incoming_spur hs hentry (by simp) label line .dashed
      · obtain ⟨hle, hlt, hedge⟩ := hrest l hl
        refine ⟨Nat.le_trans hgrows.next_le hle, hlt, fun d => ?_⟩
        rw [hedge, hgrows.edgeLabel_eq]

/-! ### The cleanup -/

/-- The cleanup starts at a new node, which the exits are linked to, or a dashed edge from the entry
if there is none. -/
theorem cleanupLink_spec (entry : String) (c : Cleanup Stmt) {a : List Exit} {b : Builder}
    (hs : b.Sound) (hentry : entry ∈ b.ids) (ha : ∀ x ∈ a, x.Pending b) :
    idNumber (cleanupLink entry a c b).node = b.next ∧
      Onward b (cleanupLink entry a c b).block.before ∧
      (∀ d ∈ (cleanupLink entry a c b).block.before.edges,
        d ∈ b.edges ∨ d.target = (cleanupLink entry a c b).node) ∧
      (a = [] → ∀ d, d ∈ (cleanupLink entry a c b).block.before.build.incoming
        (cleanupLink entry a c b).node ↔
          d = ⟨entry, (cleanupLink entry a c b).node, none, .dashed⟩) := by
  refine ⟨idNumber_idOf IdFamily.proper_line c.line b.next, ?_⟩
  cases a with
  | nil =>
      refine ⟨Onward.spur hs hentry (by simp) "Finally" c.line .dashed (by simp [forwardLabels]),
        fun d hd => ?_, fun _ d => mem_incoming_spur hs hentry (by simp) "Finally" c.line .dashed⟩
      refine ((mem_spur_edges hs hentry (by simp) "Finally" c.line .dashed).mp hd).imp id ?_
      rintro rfl
      rfl
  | cons x a =>
      have hadds := Adds.node b .subroutine "Finally" c.line (by simp)
      refine ⟨(Fragment.place hs ha (by simp) "Finally" c.line).onward, fun d hd => ?_,
        fun h => absurd h (List.cons_ne_nil _ _)⟩
      refine ((hadds.mem_linkAll_edges hs ha).mp hd).imp id ?_
      rintro ⟨y, -, rfl⟩
      rfl

/-! ### Walks -/

/-- A walk that leaves `A` passes the gate, if every step from `A` leads to the gate or stays in
`A`. -/
theorem Graph.mem_of_walk {g : Graph} {gate : String} {A : String → Prop}
    (h : ∀ x y, g.Steps x y → A x → y = gate ∨ A y) {path : List String}
    (hpath : path.IsChain g.Steps) {x y : String} (hhead : path.head? = some x)
    (hlast : path.getLast? = some y) (hx : A x) (hy : ¬ A y) : gate ∈ path := by
  induction path generalizing x with
  | nil => exact absurd hhead (by simp)
  | cons z rest ih =>
      obtain rfl : z = x := Option.some.inj hhead
      cases rest with
      | nil =>
          obtain rfl : z = y := Option.some.inj hlast
          exact absurd hx hy
      | cons w rest =>
          obtain ⟨hstep, hrest⟩ := List.isChain_cons_cons.mp hpath
          rcases h z w hstep hx with rfl | hw
          · exact List.mem_cons_of_mem _ List.mem_cons_self
          · exact List.mem_cons_of_mem _ (ih hrest rfl (by simpa using hlast) hw)

namespace Visit

variable {v : Visit} {g : Guard} {f : Link}

section Parts

variable (hg : v.guard? = some g) (hs : v.before.Sound) (hes : ∀ x ∈ v.exits, x.Pending v.before)

include hg hs hes

/-- The drawing of a guarded statement up to its handlers. -/
theorem handled_sketch : Sketch (fun _ => True) v.exits v.before g.entry g.exits
    (g.body :: g.orelse :: g.handlers.map (·.block)) g.handled :=
  guard_sketch hg hs hes (fun r _ => r.good) fun _ _ => trivial

/-- The exits of a guarded statement are collected in a merge point, if there are any. -/
theorem joined_fragment : Fragment g.exits g.handled g.joined.1 g.joined.2 :=
  Fragment.join (handled_sketch hg hs hes).sound_after (handled_sketch hg hs hes).pending

/-- What the cleanup of a guarded statement starts with. -/
theorem finally_spec (hf : v.finally? = some f) : idNumber f.node = g.joined.2.next ∧
    Onward g.joined.2 f.block.before ∧
    (∀ d ∈ f.block.before.edges, d ∈ g.joined.2.edges ∨ d.target = f.node) ∧
    (g.exits = [] → ∀ d, d ∈ f.block.before.build.incoming f.node ↔
      d = ⟨g.entry, f.node, none, .dashed⟩) := by
  have hjoined := joined_fragment hg hs hes
  have hsketch := handled_sketch hg hs hes
  obtain ⟨c, rfl⟩ := exists_cleanup hg hf
  rw [← g.joined_eq_nil_iff]
  exact cleanupLink_spec g.entry c (hjoined.grows.sound hsketch.sound_after)
    (hjoined.grows.mem_ids hsketch.mem) hjoined.pending

/-- The block of a cleanup is a block of the statement. -/
theorem finally_placed (hf : v.finally? = some f) : f.block.Placed v.before v.ends v.after :=
  (v.drawn hs hes).placed f.block (finally_mem_blocks hg hf)

/-- After its exits have been collected, a guarded statement is drawn onward. -/
theorem onward_joined : Onward g.joined.2 v.after := by
  cases hf : v.finally? with
  | none =>
      rw [(close_guard_none hg hf).2]
      exact Onward.refl _
  | some f =>
      have hp := finally_placed hg hs hes hf
      rw [(close_guard_some hg hf).2]
      exact (finally_spec hg hs hes hf).2.1.trans
        (f.block.segment hp.sound hp.pending).toFragment.onward

/-- The edge into a handler comes from the entry of its statement. -/
theorem mem_incoming_handler {l : Link} (hl : l ∈ g.handlers) :
    v.before.next ≤ idNumber l.node ∧ idNumber l.node < v.after.next ∧
      ∀ d, d ∈ v.after.build.incoming l.node ↔
        d = ⟨g.entry, l.node, v.before.edgeLabel (some "Exception"), .dashed⟩ := by
  have hv := v.drawn hs hes
  obtain ⟨hexits, -⟩ := exits_guard hg
  obtain ⟨hnext, handlers, hlinks⟩ := exists_handlers hg
  obtain ⟨hhandlers, hlast⟩ := Prod.mk.inj hlinks
  have hbody := hv.placed g.body (body_mem_blocks hg)
  have horelse := hv.placed g.orelse (orelse_mem_blocks hg)
  have hbefore : Extends v.before g.orelse.after :=
    horelse.entered.trans (g.orelse.segment horelse.sound horelse.pending).grows.extends
  have hs₁ : g.orelse.after.Sound :=
    (g.orelse.segment horelse.sound horelse.pending).grows.sound horelse.sound
  have hentry : g.entry ∈ g.orelse.after.ids := by
    refine (g.orelse.segment horelse.sound horelse.pending).grows.mem_ids ?_
    rw [hnext]
    refine (g.body.segment hbody.sound hbody.pending).grows.mem_ids ?_
    exact (hbody.pending (Exit.plain g.entry) (by simp [hexits])).mem_ids
  obtain ⟨-, -, hedges⟩ := handlerLinks_incoming g.entry handlers hs₁ hentry
  rw [← hhandlers, ← hlast] at hedges
  obtain ⟨hle, hlt, hedge⟩ := hedges l hl
  have honward : Onward g.handled v.after :=
    (joined_fragment hg hs hes).onward.trans (onward_joined hg hs hes)
  refine ⟨Nat.le_trans hbefore.next_le hle, Nat.lt_of_lt_of_le hlt honward.keeps.next_le,
    fun d => ?_⟩
  rw [honward.mem_incoming hlt, hedge, hbefore.edgeLabel_eq]

/-- If there is no exit, the edge into the cleanup comes from the entry of its statement. -/
theorem mem_incoming_finally (hexits : g.exits = []) (hf : v.finally? = some f) :
    v.before.next ≤ idNumber f.node ∧ idNumber f.node < v.after.next ∧
      ∀ d, d ∈ v.after.build.incoming f.node ↔ d = ⟨g.entry, f.node, none, .dashed⟩ := by
  obtain ⟨hnumber, honward, -, hedge⟩ := finally_spec hg hs hes hf
  obtain ⟨-, -, -, hfrom⟩ := exits_guard hg
  have hp := finally_placed hg hs hes hf
  have hlt : idNumber f.node < f.block.before.next :=
    hp.sound.idNumber_lt (hp.pending (Exit.plain f.node) (by simp [hfrom f hf])).mem_ids
  have hrest : Onward f.block.before v.after := by
    rw [(close_guard_some hg hf).2]
    exact (f.block.segment hp.sound hp.pending).toFragment.onward
  refine ⟨?_, Nat.lt_of_lt_of_le hlt hrest.keeps.next_le, fun d => ?_⟩
  · rw [hnumber]
    exact Nat.le_trans (handled_sketch hg hs hes).grows.next_le
      (joined_fragment hg hs hes).grows.next_le
  · rw [hrest.mem_incoming hlt, hedge hexits]

/-- The merge point of a guarded statement is there if there are exits to collect, and there is no
other one. -/
theorem emits_merge_iff {n : Node} :
    v.Emits n ∧ n.shape = .merge ↔ g.exits ≠ [] ∧ n = g.handled.mergeNode := by
  have hv := v.drawn hs hes
  have hgrows := hv.segment.grows
  have hsketch := handled_sketch hg hs hes
  have hemitted : ∀ r ∈ v.blocks, ∀ m : Node,
      m ∈ r.emitted ↔ m ∈ r.after.nodes ∧ m ∉ r.before.nodes := by
    intro r hr m
    have hp := hv.placed r hr
    have hbody := (r.segment hp.sound hp.pending).grows
    exact mem_added_iff_not_mem hp.sound (hbody.sound hp.sound) hbody.nodes_prefix
  constructor
  · rintro ⟨⟨hn, hown⟩, hshape⟩
    obtain ⟨hmem, hnew⟩ := (mem_added_iff_not_mem hs (hgrows.sound hs) hgrows.nodes_prefix).mp hn
    have hall : Sketch (fun m => m.shape = .merge → g.exits ≠ [] ∧ m = g.handled.mergeNode)
        v.exits v.before g.entry v.ends v.blocks v.after :=
      guarded_sketch hg hs hes (fun r _ => r.good) (fun m hm h => absurd (hm.symm.trans h) (by simp))
        (fun hne _ => ⟨hne, rfl⟩) fun m hm h => absurd (hm.symm.trans h) (by simp)
    rcases hall.cover n hmem with hold | hn | ⟨r, hr, hin⟩
    · exact absurd hold hnew
    · exact hn hshape
    · exact absurd ((hemitted r hr n).mpr hin) (hown r hr)
  · rintro ⟨hne, rfl⟩
    have hnumber : idNumber g.handled.mergeNode.id = g.handled.next := (Adds.merge _).number_eq
    have hjoined : g.handled.mergeNode ∈ g.joined.2.nodes := by
      rw [Guard.joined, join_nodes_of_ne_nil _ hne]
      exact List.mem_append_right _ (List.mem_singleton_self _)
    have hmem := (onward_joined hg hs hes).keeps.nodes_prefix.subset hjoined
    refine ⟨⟨(mem_added hs (hgrows.sound hs) hgrows.nodes_prefix).mpr ⟨hmem, ?_⟩, ?_⟩, rfl⟩
    · exact hnumber ▸ hsketch.grows.next_le
    intro r hr hin
    obtain ⟨hafter, hbefore⟩ := (hemitted r hr _).mp hin
    have hp := hv.placed r hr
    have hlt : idNumber g.handled.mergeNode.id < r.after.next :=
      ((r.segment hp.sound hp.pending).grows.sound hp.sound).idNumber_lt
        (mem_ids.mpr ⟨_, hafter, rfl⟩)
    rw [blocks_guard hg, ← List.cons_append, ← List.cons_append, List.mem_append,
      Option.mem_toList, Option.map_eq_some_iff] at hr
    rcases hr with hr | ⟨f, hf, rfl⟩
    · -- the other blocks have been drawn when the exits are collected
      have hle := (hsketch.placed r hr).2.framed.keeps.next_le
      rw [hnumber] at hlt
      exact absurd hlt (Nat.not_lt.mpr hle)
    · exact hbefore ((finally_spec hg hs hes hf).2.1.keeps.nodes_prefix.subset hjoined)

/-- The exits of a guarded statement are unlabelled. -/
theorem exits_plain : ∀ x ∈ g.exits, ∃ id, x = Exit.plain id := by
  have hv := v.drawn hs hes
  obtain ⟨hbody, horelse, hhandlers, -⟩ := exits_guard hg
  -- a block that is drawn from unlabelled exits ends in unlabelled exits
  have hplain : ∀ r ∈ v.blocks, (∀ x ∈ r.exits, ∃ id, x = Exit.plain id) →
      ∀ x ∈ r.ends, ∃ id, x = Exit.plain id := by
    intro r hr hfrom x hx
    have hp := hv.placed r hr
    rcases (r.segment hp.sound hp.pending).single with heq | heq | ⟨id, heq⟩ <;> rw [heq] at hx
    · exact hfrom x hx
    · exact absurd hx List.not_mem_nil
    · exact ⟨id, List.mem_singleton.mp hx⟩
  have hsingle : ∀ {node : String}, ∀ x ∈ [Exit.plain node], ∃ id, x = Exit.plain id :=
    fun x hx => ⟨_, List.mem_singleton.mp hx⟩
  intro x hx
  rcases List.mem_append.mp hx with hx | hx
  · refine hplain g.orelse (orelse_mem_blocks hg) ?_ x hx
    rw [horelse]
    exact hplain g.body (body_mem_blocks hg) (hbody ▸ hsingle)
  · obtain ⟨l, hl, hx⟩ := List.mem_flatMap.mp hx
    exact hplain l.block (handler_mem_blocks hg hl) (hhandlers l hl ▸ hsingle) x hx

/-- The edges into the merge point come from the exits that it collects. -/
theorem mem_incoming_merge (hne : g.exits ≠ []) :
    v.before.next ≤ idNumber g.handled.mergeId ∧ idNumber g.handled.mergeId < v.after.next ∧
      ∀ d, d ∈ v.after.build.incoming g.handled.mergeId ↔
        ∃ x ∈ g.exits, d = ⟨x.node, g.handled.mergeId, none, .solid⟩ := by
  have hsketch := handled_sketch hg hs hes
  have hadds := Adds.merge g.handled
  have honward := onward_joined hg hs hes
  have hjoined : g.joined.2 = g.handled.addMerge.2.linkAll g.exits g.handled.mergeId := by
    rw [Guard.joined, join_of_ne_nil _ hne]
  have hnumber : idNumber g.handled.mergeId = g.handled.next := hadds.number_eq
  have hlt : idNumber g.handled.mergeId < g.joined.2.next := by
    refine ((joined_fragment hg hs hes).grows.sound hsketch.sound_after).idNumber_lt ?_
    rw [hjoined, linkAll_ids]
    exact hadds.mem_ids
  refine ⟨hnumber ▸ hsketch.grows.next_le, Nat.lt_of_lt_of_le hlt honward.keeps.next_le,
    fun d => ?_⟩
  rw [honward.mem_incoming hlt, hjoined]
  refine (mem_incoming_linkAll hadds hsketch.sound_after hsketch.pending).trans
    (exists_congr fun x => and_congr_right fun hx => ?_)
  obtain ⟨id, rfl⟩ := exits_plain hg hs hes x hx
  rfl

/-- What is drawn before the cleanup is left to the cleanup only. -/
theorem target_of_gate (hf : v.finally? = some f) {d : Edge} (hd : d ∈ v.after.edges)
    (hle : v.before.next ≤ idNumber d.source) (hlt : idNumber d.source < idNumber f.node) :
    d.target = f.node ∨
      (v.before.next ≤ idNumber d.target ∧ idNumber d.target < idNumber f.node) := by
  obtain ⟨hnumber, honward, hedges, -⟩ := finally_spec hg hs hes hf
  obtain ⟨-, -, -, hfrom⟩ := exits_guard hg
  have hp := finally_placed hg hs hes hf
  have hbody := (f.block.segment hp.sound hp.pending).toFragment
  have hs₁ := (joined_fragment hg hs hes).grows.sound (handled_sketch hg hs hes).sound_after
  have hold : d ∈ f.block.before.edges := by
    have hd' : d ∈ f.block.after.edges := (close_guard_some hg hf).2 ▸ hd
    rcases hbody.source hd' with hd' | hge | ⟨x, hx, hsource⟩
    · exact hd'
    · have := honward.keeps.next_le
      omega
    · rw [hfrom f hf, List.mem_singleton] at hx
      rw [← hsource, hx] at hlt
      exact absurd hlt (Nat.lt_irrefl _)
  refine (hedges d hold).symm.imp id fun hd' => ⟨?_, ?_⟩
  · refine ((v.drawn hs hes).segment.target d hd).resolve_left fun hd' => ?_
    exact absurd (hs.idNumber_lt (hs.source_mem d hd')) (Nat.not_lt.mpr hle)
  · rw [hnumber]
    exact hs₁.idNumber_lt (hs₁.target_mem d hd')

/-- The exits of a guarded statement with a cleanup are exits of the cleanup. -/
theorem gate_le_ends (hf : v.finally? = some f) : ∀ x ∈ v.ends, idNumber f.node ≤ idNumber x.node := by
  intro x hx
  obtain ⟨hnumber, honward, -, -⟩ := finally_spec hg hs hes hf
  obtain ⟨-, -, -, hfrom⟩ := exits_guard hg
  have hp := finally_placed hg hs hes hf
  rw [(close_guard_some hg hf).1] at hx
  split_ifs at hx
  · exact absurd hx List.not_mem_nil
  · rcases (f.block.segment hp.sound hp.pending).toFragment.ends hx with hx | hle
    · rw [hfrom f hf, List.mem_singleton] at hx
      exact Nat.le_of_eq (by rw [hx])
    · rw [hnumber]
      exact Nat.le_trans honward.keeps.next_le hle

end Parts

end Visit

/-! ### Programs -/

/-- Where dashed edges of a block lead: to handlers, and to cleanups that no exit leads to. -/
def Licence.guards (r : Block) : Licence :=
  ⟨fun _ => True, fun t => ∃ v u, Visits r v ∧ v.guard? = some u ∧
    ((∃ h ∈ u.handlers, t = h.node) ∨ (u.exits = [] ∧ ∃ f ∈ v.finally?, t = f.node))⟩

section Program

variable {mode : LabelMode} {limit : Option Int} {stmts : List Stmt} {v : Visit} {u : Guard}

/-- In a program a statement may draw dashed edges into its own handlers and cleanup. -/
theorem Visits.licensed_guards (hv : Visits (Block.program mode limit stmts) v) :
    v.Licensed (Licence.guards (Block.program mode limit stmts)) where
  head _ _ := trivial
  placeholder _ _ := trivial
  handler u hu h hh := ⟨v, u, hv, hu, Or.inl ⟨h, hh, rfl⟩⟩
  cleanup u hu hexits f hf := ⟨v, u, hv, hu, Or.inr ⟨hexits, f, hf, rfl⟩⟩

/-- The edges that a program has into a node of a statement are those drawn for the statement. -/
theorem Visits.mem_incoming (hv : Visits (Block.program mode limit stmts) v) {t : String}
    (hle : v.before.next ≤ idNumber t) (hlt : idNumber t < v.after.next) {d : Edge} :
    d ∈ (lowerProgram stmts (Builder.empty mode limit)).2.build.incoming t ↔
      d ∈ v.after.build.incoming t :=
  hv.within_program.framed.mem_incoming hle hlt

/-- In a finished graph the one edge into a handler is its dashed one. -/
theorem Visits.mem_incoming_handler (hv : Visits (Block.program mode limit stmts) v)
    (hu : v.guard? = some u) {h : Link} (hh : h ∈ u.handlers) {d : Edge} :
    d ∈ (lowerProgram stmts (Builder.empty mode limit)).2.build.incoming h.node ↔
      d = ⟨u.entry, h.node, some (Label.within mode limit "Exception"), .dashed⟩ := by
  have hin := hv.within_program
  obtain ⟨hle, hlt, hedge⟩ := Visit.mem_incoming_handler hu hin.sound hin.pending hh
  rw [hv.mem_incoming hle hlt, hedge, hin.entered.edgeLabel_eq]
  rfl

/-- In a finished graph the one edge into a cleanup that hangs off the entry is its dashed one. -/
theorem Visits.mem_incoming_finally (hv : Visits (Block.program mode limit stmts) v)
    (hu : v.guard? = some u) (hexits : u.exits = []) {f : Link} (hf : f ∈ v.finally?) {d : Edge} :
    d ∈ (lowerProgram stmts (Builder.empty mode limit)).2.build.incoming f.node ↔
      d = ⟨u.entry, f.node, none, .dashed⟩ := by
  have hin := hv.within_program
  obtain ⟨hle, hlt, hedge⟩ := Visit.mem_incoming_finally hu hin.sound hin.pending hexits hf
  rw [hv.mem_incoming hle hlt, hedge]

/-- The edge is the one from a guarded statement to one of its handlers, or to a cleanup of it that
no exit leads to. -/
def Block.Escapes (r : Block) (exception : Option String) (d : Edge) : Prop :=
  ∃ v u, Visits r v ∧ v.guard? = some u ∧
    ((∃ h ∈ u.handlers, d = ⟨u.entry, h.node, exception, .dashed⟩) ∨
      (u.exits = [] ∧ ∃ f ∈ v.finally?, d = ⟨u.entry, f.node, none, .dashed⟩))

/-- The dashed edges of a program. -/
theorem dashed_program {d : Edge} :
    (d ∈ (lowerProgram stmts (Builder.empty mode limit)).2.edges ∧ d.style = .dashed) ↔
      (Block.program mode limit stmts).Escapes (some (Label.within mode limit "Exception")) d := by
  constructor
  · rintro ⟨hd, hdashed⟩
    have hkept := (Block.program mode limit stmts).kept (sound_empty mode limit)
      (fun _ hx => absurd hx List.not_mem_nil) fun v hv => hv.licensed_guards
    obtain ⟨-, -, -, -, -, -, -, -, -, hlicence⟩ := (hkept.edge d hd).resolve_left List.not_mem_nil
    obtain ⟨v, u, hv, hu, ⟨h, hh, htarget⟩ | ⟨hexits, f, hf, htarget⟩⟩ := hlicence hdashed
    · refine ⟨v, u, hv, hu, Or.inl ⟨h, hh, ?_⟩⟩
      exact (hv.mem_incoming_handler hu hh).mp (Graph.mem_incoming.mpr ⟨hd, htarget⟩)
    · refine ⟨v, u, hv, hu, Or.inr ⟨hexits, f, hf, ?_⟩⟩
      exact (hv.mem_incoming_finally hu hexits hf).mp (Graph.mem_incoming.mpr ⟨hd, htarget⟩)
  · rintro ⟨v, u, hv, hu, ⟨h, hh, rfl⟩ | ⟨hexits, f, hf, rfl⟩⟩
    · exact ⟨(Graph.mem_incoming.mp ((hv.mem_incoming_handler hu hh).mpr rfl)).1, rfl⟩
    · exact ⟨(Graph.mem_incoming.mp ((hv.mem_incoming_finally hu hexits hf).mpr rfl)).1, rfl⟩

/-- Every walk from the entry of a guarded statement to a node drawn after the statement passes the
cleanup. -/
theorem Visits.mem_of_walk (hv : Visits (Block.program mode limit stmts) v)
    (hu : v.guard? = some u) {f : Link} (hf : f ∈ v.finally?) {n : Node}
    (hn : n ∈ (lowerProgram stmts (Builder.empty mode limit)).2.nodes) (hafter : n ∉ v.after.nodes)
    {path : List String}
    (hpath : path.IsChain (lowerProgram stmts (Builder.empty mode limit)).2.build.Steps)
    (hhead : path.head? = some u.entry) (hlast : path.getLast? = some n.id) : f.node ∈ path := by
  have hin := hv.within_program
  have hs := (grows_program mode limit stmts).sound (sound_empty mode limit)
  have hgrows := (v.drawn hin.sound hin.pending).segment.grows
  have hsketch := Visit.handled_sketch hu hin.sound hin.pending
  obtain ⟨hnumber, -⟩ := Visit.finally_spec hu hin.sound hin.pending hf
  have hjoined := Visit.joined_fragment hu hin.sound hin.pending
  have hnext := (Visit.onward_joined hu hin.sound hin.pending).keeps.next_le
  refine Graph.mem_of_walk
    (A := fun id => v.before.next ≤ idNumber id ∧ idNumber id < idNumber f.node)
    (fun x y hstep hx => ?_) hpath hhead hlast ⟨Nat.le_of_eq hsketch.number_eq.symm, ?_⟩
    fun hy => hafter ?_
  · -- the statement is left at its exits, and those lie behind the start of the cleanup
    obtain ⟨d, hd, rfl, rfl⟩ := hstep
    refine Visit.target_of_gate hu hin.sound hin.pending hf ?_ hx.1 hx.2
    refine (hin.framed.edge d hd).resolve_right fun hout => ?_
    rcases hout.2 with (hout | hout) | ⟨z, hz, hsource⟩
    · omega
    · omega
    · have hle := Visit.gate_le_ends hu hin.sound hin.pending hf z hz
      rw [hsource] at hle
      exact absurd hx.2 (Nat.not_lt.mpr hle)
  · rw [hnumber]
    exact Nat.lt_of_lt_of_le (hsketch.sound_after.idNumber_lt hsketch.mem) hjoined.grows.next_le
  · -- a node with a number of the statement is one of its nodes
    have hpre := hin.framed.keeps.nodes_prefix
    by_contra hnew
    have hlater : n ∈ v.after.added (lowerProgram stmts (Builder.empty mode limit)).2 :=
      (mem_added_iff_not_mem (hgrows.sound hin.sound) hs hpre).mpr ⟨hn, hnew⟩
    have hle := ((mem_added (hgrows.sound hin.sound) hs hpre).mp hlater).2
    omega

end Program

/-- The one edge into each handler of a guarded statement is a dashed one from the statement's entry.
If the body, with what follows it, and the handlers leave no exit, then there is no merge point, a
cleanup is entered by a dashed edge from the entry only, and the statement has no exits; otherwise one
merge point collects all exits, and every walk from the entry to a node drawn after the statement
passes the cleanup, if there is one. No other edges are dashed. -/
theorem guarded_program (mode : LabelMode) (limit : Option Int) (stmts : List Stmt) :
    let r := Block.program mode limit stmts
    let g := (lowerProgram stmts (Builder.empty mode limit)).2.build
    let exception := some (Label.within mode limit "Exception")
    (∀ v u, Visits r v → v.guard? = some u →
      (∀ h ∈ u.handlers, g.incoming h.node = [⟨u.entry, h.node, exception, .dashed⟩]) ∧
        (u.exits = [] → (∀ n, v.Emits n → n.shape ≠ .merge) ∧
          (∀ f ∈ v.finally?, g.incoming f.node = [⟨u.entry, f.node, none, .dashed⟩]) ∧
          v.ends = []) ∧
        (u.exits ≠ [] →
          (∃ m, (∀ n, v.Emits n ∧ n.shape = .merge ↔ n = m) ∧
            ∀ d, d ∈ g.incoming m.id ↔ ∃ x ∈ u.exits, d = ⟨x.node, m.id, none, .solid⟩) ∧
          ∀ f ∈ v.finally?, ∀ n ∈ g.nodes, n ∉ v.after.nodes → ∀ path : List String,
            path.IsChain g.Steps → path.head? = some u.entry → path.getLast? = some n.id →
              f.node ∈ path)) ∧
      ∀ d, (d ∈ g.edges ∧ d.style = .dashed) ↔ r.Escapes exception d := by
  intro r g exception
  have hs := (grows_program mode limit stmts).sound (sound_empty mode limit)
  refine ⟨fun v u hv hu => ?_, fun d => dashed_program⟩
  have hin := hv.within_program
  have hmerge := fun n => Visit.emits_merge_iff hu hin.sound hin.pending (n := n)
  refine ⟨fun h hh => ?_, fun hexits => ⟨fun n hn hshape => ?_, fun f hf => ?_, ?_⟩,
    fun hne => ⟨⟨u.handled.mergeNode, fun n => ?_, fun d => ?_⟩, fun f hf n hn hafter path hpath
      hhead hlast => hv.mem_of_walk hu hf hn hafter hpath hhead hlast⟩⟩
  · exact Graph.incoming_eq_singleton hs.nodup_edges fun d => hv.mem_incoming_handler hu hh
  · exact ((hmerge n).mp ⟨hn, hshape⟩).1 hexits
  · exact Graph.incoming_eq_singleton hs.nodup_edges fun d => hv.mem_incoming_finally hu hexits hf
  · cases hf : v.finally? with
    | none => rw [(Visit.close_guard_none hu hf).1, u.joined_eq_nil_iff.mpr hexits]
    | some f => simp [(Visit.close_guard_some hu hf).1, u.joined_eq_nil_iff.mpr hexits]
  · rw [hmerge n]
    exact and_iff_right hne
  · obtain ⟨hle, hlt, hedge⟩ := Visit.mem_incoming_merge hu hin.sound hin.pending hne
    exact (hv.mem_incoming hle hlt).trans (hedge d)

end Flowchart
