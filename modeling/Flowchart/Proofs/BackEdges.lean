import Flowchart.Proofs.Drawing.Visits
import Flowchart.Proofs.Label

/-!
# Edges forward and edges back

The edges of a program lead from a node to a later one, apart from those labelled `Repeat`, which
lead from a later node back to the head of a loop. Each head has at most one edge back, and it has
one exactly if the body of its loop, with the update if there is one, leaves an exit of another
node pending.

Which edges there are follows from how a builder grows (`Grows.edge_kind`). How many edges lead
back to a head is counted where the loop is drawn (`Loop.mem_closed_edges`); no edge to the head
comes from anywhere else, since what is drawn later leaves the loop alone.

The limit of labels is a number here. Under a limit that is of no use all labels are empty, and
edges back cannot be told from others by their label.

## Numbers again

An edge forward has a target with a larger number than its source. So a walk along such edges never
comes back, and every circle has an edge back in it. Edges back are counted at the exits that wait when
the loop is closed (`Loop.Counted`), of which there is one at most. The count is carried to the finished
graph by the fact that what is drawn later adds no edge to the head.

## Main results

* `edge_kind_program`: every edge of a program leads forward or back.
* `Visits.counted_loop`: how many edges lead back to the head of a loop.
* `edges_back_program`: both for the finished graph, which has no circle but through edges back.
-/

namespace Flowchart

open Builder

namespace Graph

/-- The node `x` stands before the node `y` in the list of nodes. -/
def Before (g : Graph) (x y : String) : Prop :=
  ∃ (i j : Nat) (n m : Node), i < j ∧ g.nodes[i]? = some n ∧ n.id = x ∧
    g.nodes[j]? = some m ∧ m.id = y

/-- The edges into a node that have the label `label`. -/
def incomingLabelled (g : Graph) (id : String) (label : Option String) : List Edge :=
  (g.incoming id).filter (·.label == label)

/-- The edges into a node with a label are those of the graph that end in it and have this label. -/
theorem mem_incomingLabelled {g : Graph} {id : String} {label : Option String} {e : Edge} :
    e ∈ g.incomingLabelled id label ↔ e ∈ g.edges ∧ e.target = id ∧ e.label = label := by
  simp only [incomingLabelled, incoming, List.mem_filter, beq_iff_eq, and_assoc]

/-- Some edge with another label than `label` leads from `x` to `y`. -/
def StepsWithout (g : Graph) (label : Option String) (x y : String) : Prop :=
  ∃ e ∈ g.edges, e.label ≠ label ∧ e.source = x ∧ e.target = y

end Graph

namespace Builder

/-- A node with a smaller number stands before. -/
theorem Sound.before {b : Builder} (hs : b.Sound) {x y : String} (hx : x ∈ b.ids) (hy : y ∈ b.ids)
    (hlt : idNumber x < idNumber y) : b.build.Before x y := by
  obtain ⟨n, hn, rfl⟩ := Builder.mem_ids.mp hx
  obtain ⟨m, hm, rfl⟩ := Builder.mem_ids.mp hy
  obtain ⟨i, hi⟩ := List.mem_iff_getElem?.mp hn
  obtain ⟨j, hj⟩ := List.mem_iff_getElem?.mp hm
  rw [hs.idNumber_eq i n hi, hs.idNumber_eq j m hj] at hlt
  exact ⟨i, j, n, m, by omega, hi, rfl, hj, rfl⟩

/-- The edge leads forward and has one of the labels for that. -/
def LeadsForward (b : Builder) (e : Edge) : Prop :=
  (∃ label ∈ forwardLabels, e.label = b.edgeLabel label) ∧ idNumber e.source < idNumber e.target

/-- The edge leads back to the head of a loop and says so. -/
def LeadsBack (b : Builder) (e : Edge) : Prop :=
  e.label = b.edgeLabel (some "Repeat") ∧ idNumber e.target < idNumber e.source ∧
    ∃ n ∈ b.nodes, n.id = e.target ∧ n.shape = .loop

/-- An edge that leads forward goes on to do so. -/
theorem LeadsForward.mono {b b' : Builder} (h : Extends b b') {e : Edge} (he : b.LeadsForward e) :
    b'.LeadsForward e := by
  obtain ⟨⟨label, hmem, hlabel⟩, hlt⟩ := he
  exact ⟨⟨label, hmem, hlabel.trans (h.edgeLabel_eq label).symm⟩, hlt⟩

/-- An edge that leads back goes on to do so. -/
theorem LeadsBack.mono {b b' : Builder} (h : Extends b b') {e : Edge} (he : b.LeadsBack e) :
    b'.LeadsBack e := by
  obtain ⟨hlabel, hlt, n, hn, hloop⟩ := he
  exact ⟨hlabel.trans (h.edgeLabel_eq _).symm, hlt, n, h.nodes_prefix.subset hn, hloop⟩

/-- An edge that growth adds leads forward or back. -/
theorem Grows.edge_kind {b b' : Builder} (h : Grows b b') :
    ∀ e ∈ b'.edges, e ∈ b.edges ∨ b'.LeadsForward e ∨ b'.LeadsBack e := by
  induction h with
  | refl b => exact fun e he => Or.inl he
  | @trans b b₁ b₂ _ h₂ ih₁ ih₂ =>
      intro e he
      rcases ih₂ e he with he | he
      · refine (ih₁ e he).imp id ?_
        exact Or.imp (LeadsForward.mono h₂.extends) (LeadsBack.mono h₂.extends)
      · exact Or.inr he
  | node b text line _ _ => exact fun e he => Or.inl he
  | merge b => exact fun e he => Or.inl he
  | @forward b source target label style _ _ hlt hlabel =>
      intro e he
      rcases addEdge_edges_eq b source target label style with heq | ⟨-, heq⟩
      · exact Or.inl (heq ▸ he)
      · rw [heq, List.mem_append, List.mem_singleton] at he
        refine he.imp id ?_
        rintro rfl
        refine Or.inl ⟨⟨label, hlabel, ?_⟩, hlt⟩
        exact (edgeLabel_congr (addEdge_mode ..) (addEdge_limit ..) label).symm
  | @back b source target style _ htarget hlt =>
      intro e he
      rcases addEdge_edges_eq b source target (some "Repeat") style with heq | ⟨-, heq⟩
      · exact Or.inl (heq ▸ he)
      · rw [heq, List.mem_append, List.mem_singleton] at he
        refine he.imp id ?_
        rintro rfl
        refine Or.inr ⟨?_, hlt, ?_⟩
        · exact (edgeLabel_congr (addEdge_mode ..) (addEdge_limit ..) (some "Repeat")).symm
        · simpa using htarget
  | style => exact fun e he => Or.inl he
  | @scope b b₁ text line _ _ ih =>
      intro e he
      have hclose := Extends.closeSubgraph b₁
      exact (ih e he).imp id (Or.imp (LeadsForward.mono hclose) (LeadsBack.mono hclose))

/-- The label of edges back is none of the labels of edges forward. -/
theorem edgeLabel_repeat_ne {b : Builder} {limit : Int} (hlimit : b.limit = some limit)
    {label : Option String} (h : label ∈ forwardLabels) :
    b.edgeLabel label ≠ b.edgeLabel (some "Repeat") := by
  have hwords : ∀ label ∈ forwardLabels,
      (∀ w ∈ label, w ∈ Label.edgeWords) ∧ label ≠ some "Repeat" := by
    decide
  obtain ⟨hmem, hne⟩ := hwords label h
  exact fun heq => hne (edgeLabel_injective hlimit hmem (by decide) heq)

end Builder

/-! ### Counting edges back -/

/-- The edge that leads an exit of a loop back to its head. -/
def Loop.backEdge (l : Loop) (b : Builder) (x : Exit) : Edge :=
  ⟨x.node, l.head, b.edgeLabel (some "Repeat"), x.style⟩

/-- The edges labelled `Repeat` that lead to the head of the loop are those from its exits. -/
def Loop.Counted (l : Loop) (b : Builder) : Prop :=
  ∀ d : Edge, (d ∈ b.edges ∧ d.target = l.head ∧ d.label = b.edgeLabel (some "Repeat")) ↔
    ∃ x ∈ l.ends, x.node ≠ l.head ∧ d = l.backEdge b x

namespace Loop.Counted

variable {l : Loop} {b b' : Builder}

/-- Drawing that adds no edge to the head leaves the count. -/
theorem mono (h : l.Counted b) (hkeep : Extends b b')
    (hnew : ∀ d ∈ b'.edges, d.target = l.head → d ∈ b.edges) : l.Counted b' := by
  intro d
  have hlabel : b'.edgeLabel (some "Repeat") = b.edgeLabel (some "Repeat") := hkeep.edgeLabel_eq _
  have hedge : ∀ x, l.backEdge b' x = l.backEdge b x := fun x => by
    rw [backEdge, backEdge, hlabel]
  simp only [hlabel, hedge]
  rw [← h d]
  constructor
  · rintro ⟨hd, htarget, hl⟩
    exact ⟨hnew d hd htarget, htarget, hl⟩
  · rintro ⟨hd, htarget, hl⟩
    exact ⟨hkeep.edges_prefix.subset hd, htarget, hl⟩

/-- A loop with at most one exit has one edge back or none. -/
theorem length_eq (h : l.Counted b) (hnodup : b.edges.Nodup)
    (hsingle : l.ends = [] ∨ ∃ id, l.ends = [Exit.plain id]) :
    (b.build.incomingLabelled l.head (b.edgeLabel (some "Repeat"))).length =
      if ∃ x ∈ l.ends, x.node ≠ l.head then 1 else 0 := by
  set back := b.build.incomingLabelled l.head (b.edgeLabel (some "Repeat")) with hback
  have hmem : ∀ d, d ∈ back ↔ ∃ x ∈ l.ends, x.node ≠ l.head ∧ d = l.backEdge b x := fun d =>
    Graph.mem_incomingLabelled.trans (h d)
  have hback_nodup : back.Nodup := (hnodup.filter _).filter _
  split_ifs with hexit
  · obtain ⟨x, hx, hne⟩ := hexit
    obtain ⟨id, hends⟩ : ∃ id, l.ends = [Exit.plain id] :=
      hsingle.resolve_left (List.ne_nil_of_mem hx)
    rw [hends, List.mem_singleton] at hx
    have hperm : back.Perm [l.backEdge b x] := by
      refine (List.perm_ext_iff_of_nodup hback_nodup (List.nodup_singleton _)).mpr fun d => ?_
      rw [hmem, hends, List.mem_singleton]
      constructor
      · rintro ⟨y, hy, -, rfl⟩
        rw [List.mem_singleton.mp hy, hx]
      · rintro rfl
        exact ⟨x, by rw [hx]; exact List.mem_singleton_self _, hne, rfl⟩
    exact hperm.length_eq
  · refine List.length_eq_zero_iff.mpr (List.eq_nil_iff_forall_not_mem.mpr fun d hd => hexit ?_)
    obtain ⟨x, hx, hne, -⟩ := (hmem d).mp hd
    exact ⟨x, hx, hne⟩

end Loop.Counted

section LoopFrom

variable {es : List Exit} {b : Builder}

/-- The body and the update of a loop, as one fragment. -/
theorem loopFrom_fragment (line : Option Int) (text : String) (body : List Stmt) (update : String)
    (hs : b.Sound) (hes : ∀ x ∈ es, x.Pending b) :
    let l := loopFrom es b line text body update
    Fragment es b l.body.exits l.body.before ∧
      Segment l.body.exits l.body.before l.ends l.after := by
  intro l
  have hplace : Fragment es b l.body.exits l.body.before :=
    Fragment.place hs hes (by simp) text line
  have hbody := l.body.segment (hplace.grows.sound hs) hplace.pending
  refine ⟨hplace, hbody.seq ?_⟩
  rw [Loop.ends, Loop.after]
  split_ifs
  · exact ⟨Fragment.place (hbody.grows.sound (hplace.grows.sound hs)) hbody.pending (by simp)
      l.update l.line, Or.inr (Or.inr ⟨_, rfl⟩)⟩
  · exact Segment.refl hbody.pending

/-- When a loop is closed, its exits lead back. -/
theorem loopFrom_counted {limit : Int} (hlimit : b.limit = some limit) (line : Option Int)
    (text : String) (body : List Stmt) (update : String) (hs : b.Sound)
    (hes : ∀ x ∈ es, x.Pending b) :
    (loopFrom es b line text body update).Counted (loopFrom es b line text body update).closed := by
  set l := loopFrom es b line text body update with hl
  obtain ⟨hplace, hout⟩ := loopFrom_fragment line text body update hs hes
  rw [← hl] at hplace hout
  have hsketch : Sketch (fun _ => True) es b l.head ([Exit.plain l.head] ++ l.ends) [l.body]
      l.closed :=
    loopFrom_sketch line text body update hs hes l.body.good (fun _ _ _ => trivial)
      fun _ _ => trivial
  have hafter : Grows b l.after := hplace.grows.trans hout.grows
  have hhead : idNumber l.head = b.next := hsketch.number_eq
  have hmem : l.head ∈ l.body.before.ids :=
    (hplace.pending (Exit.plain l.head) (List.mem_singleton_self _)).mem_ids
  have hbefore : b.next < l.body.before.next := by
    rw [← hhead]
    exact (hplace.grows.sound hs).idNumber_lt hmem
  -- before the edges back are drawn, what leads to the head are the exits before the loop
  have hnone : ∀ d ∈ l.after.edges, d.target = l.head → d.label ≠ b.edgeLabel (some "Repeat") := by
    intro d hd htarget
    have hnew : d ∈ l.body.before.edges := (hout.target d hd).resolve_right (by
      rw [htarget]
      omega)
    have hadds := Adds.node b .loop text line (by simp)
    have hempty : ∀ x ∈ es, x.node.isEmpty = false := fun x hx =>
      hs.isEmpty_eq_false (hes x hx).mem_ids
    rcases (mem_linkAll_edges hempty
      ((hadds.grows.sound hs).isEmpty_eq_false hadds.mem_ids)).mp hnew with hold | ⟨x, hx, rfl⟩
    · have := hs.idNumber_lt (hs.target_mem d hold)
      rw [htarget] at this
      omega
    · exact edgeLabel_repeat_ne hlimit (hes x hx).label_mem_forward
  intro d
  simp only [Loop.backEdge, hsketch.grows.edgeLabel_eq]
  have hsound := hafter.sound hs
  rw [Loop.closed,
    mem_backAll_edges (fun x hx => hsound.isEmpty_eq_false (hout.pending x hx).mem_ids)
    (hsound.isEmpty_eq_false (hout.grows.mem_ids hmem)), hafter.edgeLabel_eq]
  constructor
  · rintro ⟨hd | hd, htarget, hlabel⟩
    · exact absurd hlabel (hnone d hd htarget)
    · exact hd
  · rintro ⟨x, hx, hne, rfl⟩
    exact ⟨Or.inr ⟨x, hx, hne, rfl⟩, rfl, rfl⟩

/-- A closed loop has its head and at most one exit. -/
theorem loopFrom_closed (line : Option Int) (text : String) (body : List Stmt) (update : String)
    (hs : b.Sound) (hes : ∀ x ∈ es, x.Pending b) :
    let l := loopFrom es b line text body update
    (l.ends = [] ∨ ∃ id, l.ends = [Exit.plain id]) ∧
      (∃ n ∈ l.closed.nodes, n.id = l.head ∧ n.shape = .loop) ∧ idNumber l.head = b.next := by
  intro l
  obtain ⟨hplace, hout⟩ := loopFrom_fragment line text body update hs hes
  have hbody := l.body.segment (hplace.grows.sound hs) hplace.pending
  refine ⟨hout.single.elim (fun h => Or.inr ⟨l.head, h⟩) id, ?_,
    idNumber_idOf IdFamily.proper_line line b.next⟩
  rw [Loop.closed, backAll_nodes]
  exact loopFrom_head_mem line text body update hbody.grows

end LoopFrom

/-- What is known of a loop after its statement: its exits lead back, at most one of them, and its
head is a node of the statement. -/
structure Loop.Closed (l : Loop) (v : Visit) : Prop where
  counted : l.Counted v.after
  single : l.ends = [] ∨ ∃ id, l.ends = [Exit.plain id]
  head_mem : ∃ n ∈ v.after.nodes, n.id = l.head ∧ n.shape = .loop
  head_le : v.before.next ≤ idNumber l.head

/-- The loop of a statement is closed when the statement is drawn. -/
theorem Visit.closed_loop {v : Visit} {l : Loop} (h : v.loop? = some l) (hs : v.before.Sound)
    (hes : ∀ x ∈ v.exits, x.Pending v.before) {limit : Int}
    (hlimit : v.before.limit = some limit) : l.Closed v := by
  have hv := v.drawn hs hes
  obtain ⟨s, es, b⟩ := v
  cases s with
  | loop line text body orelse =>
      obtain rfl := Option.some.inj h
      set l := loopFrom es b line text body "" with hl
      obtain ⟨hsingle, ⟨n, hn, hid, hshape⟩, hhead⟩ := loopFrom_closed line text body "" hs hes
      have hp := hv.placed ⟨orelse, [Exit.plain l.head], l.closed⟩ (by simp [Visit.blocks, hl])
      have hr := Block.segment ⟨orelse, [Exit.plain l.head], l.closed⟩ hp.sound hp.pending
      have hmem := (hp.pending (Exit.plain l.head) (List.mem_singleton_self _)).mem_ids
      refine ⟨(loopFrom_counted hlimit line text body "" hs hes).mono hr.grows.extends ?_, hsingle,
        ⟨n, hr.grows.mem_nodes hn, hid, hshape⟩, Nat.le_of_eq hhead.symm⟩
      intro d hd htarget
      refine (hr.target d hd).resolve_right fun hle => ?_
      have := hp.sound.idNumber_lt hmem
      rw [htarget] at hle
      exact absurd this (Nat.not_lt.mpr hle)
  | countedLoop line text init cond update body =>
      obtain rfl := Option.some.inj h
      obtain ⟨hentry, -⟩ := countedEntry_fragment line init hs hes
      have hs' := hentry.grows.sound hs
      set entry := countedEntry line init es b with he
      obtain ⟨hsingle, hhead, hnumber⟩ :=
        loopFrom_closed line (orText cond text) body update hs' hentry.pending
      have hafter : (⟨.countedLoop line text init cond update body, es, b⟩ : Visit).after =
          (loopFrom entry.1 entry.2 line (orText cond text) body update).closed :=
        congrArg Prod.snd (lowerStmt_countedLoop line text init cond update body es b)
      refine ⟨?_, hsingle, ?_, Nat.le_trans hentry.grows.next_le (Nat.le_of_eq hnumber.symm)⟩
      · rw [hafter]
        exact loopFrom_counted (hentry.grows.context_eq.2.1.trans hlimit) line
          (orText cond text) body update hs' hentry.pending
      · rw [hafter]
        exact hhead
  | _ => exact absurd h (by simp [Visit.loop?])


/-! ### Programs -/

/-- Every edge of a program leads forward or back. -/
theorem edge_kind_program {mode : LabelMode} {limit : Option Int} {stmts : List Stmt} {e : Edge}
    (he : e ∈ (lowerProgram stmts (Builder.empty mode limit)).2.edges) :
    (lowerProgram stmts (Builder.empty mode limit)).2.LeadsForward e ∨
      (lowerProgram stmts (Builder.empty mode limit)).2.LeadsBack e :=
  ((grows_program mode limit stmts).edge_kind e he).resolve_left List.not_mem_nil

/-- The edges of a loop of a program that lead back to its head. -/
theorem Visits.counted_loop {mode : LabelMode} {limit : Int} {stmts : List Stmt} {v : Visit}
    {l : Loop} (hv : Visits (Block.program mode (some limit) stmts) v) (hl : v.loop? = some l) :
    l.Counted (lowerProgram stmts (Builder.empty mode (some limit))).2 ∧
      (l.ends = [] ∨ ∃ id, l.ends = [Exit.plain id]) ∧
      ∃ n ∈ (lowerProgram stmts (Builder.empty mode (some limit))).2.nodes,
        n.id = l.head ∧ n.shape = .loop := by
  have hin := hv.within_program
  obtain ⟨hcounted, hsingle, ⟨n, hn, hid, hshape⟩, hle⟩ :=
    Visit.closed_loop hl hin.sound hin.pending hin.entered.limit_eq
  have hafter := (v.drawn hin.sound hin.pending).segment.grows.sound hin.sound
  have hlt := hafter.idNumber_lt (Builder.mem_ids.mpr ⟨n, hn, rfl⟩)
  rw [hid] at hlt
  refine ⟨hcounted.mono hin.framed.keeps fun d hd htarget => ?_, hsingle, n,
    hin.framed.keeps.nodes_prefix.subset hn, hid, hshape⟩
  rcases hin.framed.edge d hd with hd | ⟨houtside, -⟩
  · exact hd
  · rw [htarget] at houtside
    rcases houtside with houtside | houtside
    · exact absurd houtside (Nat.not_lt.mpr hle)
    · exact absurd hlt (Nat.not_lt.mpr houtside)

/-- Edges that are not labelled `Repeat` lead to later nodes, so without the others the graph is
acyclic; edges labelled `Repeat` lead from later nodes back to heads of loops. A head has at most
one of them: one if the body of its loop, with the update, leaves an exit of another node pending,
and none otherwise. -/
theorem edges_back_program (mode : LabelMode) (limit : Int) (stmts : List Stmt) :
    let r := Block.program mode (some limit) stmts
    let g := (lowerProgram stmts (Builder.empty mode (some limit))).2.build
    let back := some (Label.sanitize mode limit "Repeat")
    (∀ e ∈ g.edges, e.label ≠ back → g.Before e.source e.target) ∧
      (∀ id, ¬ Relation.TransGen (g.StepsWithout back) id id) ∧
      (∀ e ∈ g.edges, e.label = back →
        g.Before e.target e.source ∧ ∃ n ∈ g.nodes, n.id = e.target ∧ n.shape = .loop) ∧
      (∀ n ∈ g.nodes, n.shape = .loop → (g.incomingLabelled n.id back).length ≤ 1 ∧
        ∃ v l, Visits r v ∧ v.loop? = some l ∧ l.head = n.id) ∧
      ∀ v l, Visits r v → v.loop? = some l →
        (∃ n ∈ g.nodes, n.id = l.head ∧ n.shape = .loop) ∧
          (g.incomingLabelled l.head back).length =
            if ∃ x ∈ l.ends, x.node ≠ l.head then 1 else 0 := by
  intro r g back
  set b := (lowerProgram stmts (Builder.empty mode (some limit))).2 with hb
  have hgrows : Grows (Builder.empty mode (some limit)) b := grows_program mode (some limit) stmts
  have hs : b.Sound := hgrows.sound (sound_empty mode (some limit))
  have hlimit : b.limit = some limit := hgrows.context_eq.2.1
  have hback : b.edgeLabel (some "Repeat") = back := by
    rw [edgeLabel_word hlimit (by decide), hgrows.context_eq.1]
    rfl
  have hforward : ∀ e ∈ g.edges, e.label ≠ back → idNumber e.source < idNumber e.target := by
    intro e he hne
    rcases edge_kind_program he with h | h
    · exact h.2
    · exact absurd (h.1.trans hback) hne
  have hcount : ∀ v l, Visits r v → v.loop? = some l →
      (∃ n ∈ g.nodes, n.id = l.head ∧ n.shape = .loop) ∧
        (g.incomingLabelled l.head back).length =
          if ∃ x ∈ l.ends, x.node ≠ l.head then 1 else 0 := by
    intro v l hv hl
    obtain ⟨hcounted, hsingle, hhead⟩ := hv.counted_loop hl
    exact ⟨hhead, hback ▸ hcounted.length_eq hs.nodup_edges hsingle⟩
  refine ⟨fun e he hne => ?_, fun id hcycle => ?_, fun e he hlabel => ?_, fun n hn hshape => ?_,
    hcount⟩
  · exact hs.before (hs.source_mem e he) (hs.target_mem e he) (hforward e he hne)
  · have hlt : ∀ x y, Relation.TransGen (g.StepsWithout back) x y → idNumber x < idNumber y := by
      intro x y hxy
      induction hxy with
      | single hstep =>
          obtain ⟨e, he, hne, rfl, rfl⟩ := hstep
          exact hforward e he hne
      | tail _ hstep ih =>
          obtain ⟨e, he, hne, rfl, rfl⟩ := hstep
          exact Nat.lt_trans ih (hforward e he hne)
    exact Nat.lt_irrefl _ (hlt id id hcycle)
  · rcases edge_kind_program he with ⟨⟨label, hmem, heq⟩, -⟩ | ⟨-, hlt, hloop⟩
    · exact absurd (heq.symm.trans (hlabel.trans hback.symm)) (edgeLabel_repeat_ne hlimit hmem)
    · exact ⟨hs.before (hs.target_mem e he) (hs.source_mem e he) hlt, hloop⟩
  · obtain ⟨v, hv, hown⟩ := exists_visit_owns hn
    obtain ⟨l, hl, hid⟩ := hown.2 hshape
    refine ⟨?_, v, l, hv, hl, hid.symm⟩
    rw [hid, (hcount v l hv hl).2]
    split_ifs <;> omega

end Flowchart
