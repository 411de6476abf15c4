import Flowchart.Proofs.Drawing.Opening
import Flowchart.Proofs.Drawing.Steps
import Flowchart.Proofs.Drawing.Visits
import Flowchart.Proofs.WellFormed

/-!
# Scopes

A container and a function keep what they hold to themselves. The nodes of a container stand in
its subgraph (`Builder.Grows.contains`), and no edge joins two of its members
(`memberBlocks_apart`); a function is left from its own node, and its body is entered from there
only (`Block.crossing_iff`). Since drawing goes by steps from the exits of one subgraph, no edge
leads from one subgraph to another.

## Which edges cross

An edge crosses the bounds of a list of ids if just one of its ends is in the list. The ids of a block
are those with numbers between the builder before it and the one behind it, so an edge crosses if it
starts before and ends within, or the other way round. A member of a container is drawn from no exit, so
nothing leads into it. The body of a function is drawn from one exit, its own node, and its exits are
led nowhere.

## Main results

* `Builder.Grows.contains`: the nodes of a container stand in its subgraph.
* `memberBlocks_apart`, `Block.crossing_iff`: which edges cross the bounds of a member or a body.
* `scoped_program`: both for the finished graph.
-/

namespace Flowchart

open Builder

namespace Graph

/-- The edges with one end among the nodes `ids`. -/
def crossing (g : Graph) (ids : List String) : List Edge :=
  g.edges.filter fun e => ids.contains e.source != ids.contains e.target

/-- No edge joins a node emitted for `p` and a node emitted for `q`. -/
def Apart (g : Graph) (p q : Block) : Prop :=
  ∀ e ∈ g.edges, ¬ (e.source ∈ p.ids ∧ e.target ∈ q.ids) ∧ ¬ (e.source ∈ q.ids ∧ e.target ∈ p.ids)

/-- An edge crosses if just one of its ends is among the nodes. -/
theorem mem_crossing {g : Graph} {ids : List String} {e : Edge} :
    e ∈ g.crossing ids ↔ e ∈ g.edges ∧ ¬ (e.source ∈ ids ↔ e.target ∈ ids) := by
  rw [crossing, List.mem_filter, bne_iff_ne, ne_eq, Bool.eq_iff_iff, List.contains_iff_mem,
    List.contains_iff_mem]

end Graph

/-- What is drawn while no exit is at hand may be any node, and dashed edges may lead anywhere. -/
def Licence.free : Licence := ⟨fun _ => True, fun _ => True⟩

/-- A licence that forbids nothing is one for every statement. -/
theorem Visit.licensed_free (v : Visit) : v.Licensed Licence.free :=
  ⟨fun _ _ => trivial, fun _ _ => trivial, fun _ _ _ _ => trivial, fun _ _ _ _ _ => trivial⟩

/-! ### The nodes of a block -/

namespace Block

variable {r : Block}

/-- The nodes of a block are those with the later numbers. -/
theorem mem_ids (hs : r.before.Sound) (hes : ∀ x ∈ r.exits, x.Pending r.before) {id : String} :
    id ∈ r.ids ↔ id ∈ r.after.ids ∧ r.before.next ≤ idNumber id := by
  have hgrows := (r.segment hs hes).grows
  rw [ids, List.mem_map, Builder.mem_ids]
  constructor
  · rintro ⟨n, hn, rfl⟩
    obtain ⟨hmem, hle⟩ := (mem_added hs (hgrows.sound hs) hgrows.nodes_prefix).mp hn
    exact ⟨⟨n, hmem, rfl⟩, hle⟩
  · rintro ⟨⟨n, hn, rfl⟩, hle⟩
    exact ⟨n, (mem_added hs (hgrows.sound hs) hgrows.nodes_prefix).mpr ⟨hn, hle⟩, rfl⟩

/-- The numbers of the nodes of a block. -/
theorem idNumber_bounds (hs : r.before.Sound) (hes : ∀ x ∈ r.exits, x.Pending r.before)
    {id : String} (hid : id ∈ r.ids) :
    r.before.next ≤ idNumber id ∧ idNumber id < r.after.next := by
  obtain ⟨hmem, hle⟩ := (mem_ids hs hes).mp hid
  exact ⟨hle, ((r.segment hs hes).grows.sound hs).idNumber_lt hmem⟩

/-- A block is entered from its exits, at the first node on its flow, and by no other edge. -/
theorem crossing_iff (hs : r.before.Sound) (hes : ∀ x ∈ r.exits, x.Pending r.before) {d : Edge} :
    d ∈ r.after.edges ∧ ¬ (d.source ∈ r.ids ↔ d.target ∈ r.ids) ↔
      ∃ n ∈ r.first?, ∃ x ∈ r.exits, d = x.edgeTo r.before n.id := by
  have hf := (r.segment hs hes).toFragment
  have hs' := hf.grows.sound hs
  have hout : ∀ {id : String}, idNumber id < r.before.next → id ∉ r.ids := fun hlt hid =>
    absurd hlt (Nat.not_lt.mpr (idNumber_bounds hs hes hid).1)
  constructor
  · rintro ⟨hd, hcross⟩
    have hold : d ∉ r.before.edges := fun hold => hcross (iff_of_false
      (hout (hs.idNumber_lt (hs.source_mem d hold))) (hout (hs.idNumber_lt (hs.target_mem d hold))))
    have htarget : d.target ∈ r.ids :=
      (mem_ids hs hes).mpr ⟨hs'.target_mem d hd, (hf.target d hd).resolve_left hold⟩
    have hsource : ¬ r.before.next ≤ idNumber d.source := fun hle => hcross (iff_of_true
      ((mem_ids hs hes).mpr ⟨hs'.source_mem d hd, hle⟩) htarget)
    rcases r.opens hs hes with ⟨hp, -⟩ | ⟨n, hfirst, hl⟩
    · exact ((hp.source d hd).elim hold hsource).elim
    · rcases hl.source d hd with hmem | hle | hx
      · exact absurd hmem hold
      · exact absurd hle hsource
      · exact ⟨n, hfirst, hx⟩
  · rintro ⟨n, hn, x, hx, rfl⟩
    rcases r.opens hs hes with ⟨-, hnone⟩ | ⟨m, hfirst, hl⟩
    · exact absurd (hn.symm.trans hnone) (by simp)
    obtain rfl : n = m := Option.some.inj (hn.symm.trans hfirst)
    refine ⟨hl.linked x hx, fun h => ?_⟩
    have hmem : n.id ∈ r.ids := List.mem_map_of_mem (mem_added_of_first? hfirst)
    exact hout (hs.idNumber_lt (hes x hx).mem_ids) (h.mpr hmem)

/-- The nodes of a block that a statement holds are nodes of the statement. -/
theorem Placed.idNumber_bounds {b b' : Builder} {e : List Exit} (h : r.Placed b e b') {id : String}
    (hid : id ∈ r.ids) : b.next ≤ idNumber id ∧ idNumber id < b'.next := by
  obtain ⟨hle, hlt⟩ := Block.idNumber_bounds h.sound h.pending hid
  exact ⟨Nat.le_trans h.entered.next_le hle, Nat.lt_of_lt_of_le hlt h.framed.keeps.next_le⟩

end Block

/-! ### Containers -/

/-- All that is drawn inside of a subgraph stands in it. -/
theorem Builder.Grows.contains {b b' : Builder} (h : Grows b b') (hs : b.Sound) {p : String}
    (hp : b.scopes.head? = some p) (n : Node) (hn : n ∈ b'.nodes) (hle : b.next ≤ idNumber n.id) :
    b'.build.Contains p n := by
  have hs' := h.sound hs
  induction hk : idNumber n.id using Nat.strongRecOn generalizing n with
  | ind k ih =>
      rcases h.parent n hn with hold | hopen | ⟨q, hq, hnew⟩
      · exact absurd (hs.idNumber_lt (Builder.mem_ids.mpr ⟨n, hold, rfl⟩)) (Nat.not_lt.mpr hle)
      · exact Graph.Contains.child hn (hopen.trans hp)
      · obtain ⟨i, hi⟩ := List.mem_iff_getElem?.mp hn
        obtain ⟨j, m, -, hj, rfl, -⟩ := hs'.parent_mem i n q hi hq
        have hm := List.mem_of_getElem? hj
        have hlt := hs'.idNumber_parent_lt hn hq
        exact (ih _ (hk ▸ hlt) m hm hnew rfl).append hn hq

/-- No edge joins two members of a container. -/
theorem memberBlocks_apart (members : List Stmt) {b : Builder} (hs : b.Sound) :
    (memberBlocks members b).Pairwise (lowerMembers members b).2.build.Apart := by
  induction members generalizing b with
  | nil => exact List.Pairwise.nil
  | cons s rest ih =>
      set r : Block := ⟨[s], [], b⟩ with hdef
      have hblocks : memberBlocks (s :: rest) b = r :: memberBlocks rest r.after := rfl
      have hlower : (lowerMembers (s :: rest) b).2 = (lowerMembers rest r.after).2 := rfl
      have hes : ∀ x ∈ r.exits, x.Pending r.before := by simp [hdef]
      have hs₁ : r.after.Sound := (r.segment hs hes).grows.sound hs
      obtain ⟨hrest, hplaced, -⟩ := Visit.memberBlocks_drawn rest hs₁ fun r _ => r.good
      rw [hblocks, hlower]
      refine List.pairwise_cons.mpr ⟨fun q hq d hd => ?_, ih hs₁⟩
      obtain ⟨hle, hp⟩ := hplaced q hq
      have hfirst : ∀ {id : String}, id ∈ r.ids → idNumber id < r.after.next := fun hid =>
        (Block.idNumber_bounds hs hes hid).2
      have hlater : ∀ {id : String}, id ∈ q.ids → r.after.next ≤ idNumber id := fun hid =>
        Nat.le_trans hle (Block.idNumber_bounds hp.sound hp.pending hid).1
      -- an edge was drawn before the later members, or by them
      have hside : (idNumber d.source < r.after.next ∧ idNumber d.target < r.after.next) ∨
          (r.after.next ≤ idNumber d.source ∧ r.after.next ≤ idNumber d.target) := by
        by_cases hold : d ∈ r.after.edges
        · exact Or.inl ⟨hs₁.idNumber_lt (hs₁.source_mem d hold),
            hs₁.idNumber_lt (hs₁.target_mem d hold)⟩
        · have hsource := (hrest.source hd).resolve_left hold
          exact Or.inr ⟨hsource.resolve_right (by simp), (hrest.target d hd).resolve_left hold⟩
      refine ⟨fun ⟨hsource, htarget⟩ => ?_, fun ⟨hsource, htarget⟩ => ?_⟩
      · have := hfirst hsource
        have := hlater htarget
        omega
      · have := hlater hsource
        have := hfirst htarget
        omega

namespace Visit

variable {v : Visit}

/-- A container hands its exits on, and what it draws stands in its subgraph. -/
theorem contains_scope {s : Node} (h : v.scope? = some s) (hs : v.before.Sound) :
    s ∈ v.after.nodes ∧ v.ends = v.exits ∧ ∀ d ∈ v.after.edges, d ∈ v.before.edges ∨
      ∀ n ∈ v.after.nodes, n.id = d.source ∨ n.id = d.target → v.after.build.Contains s.id n := by
  obtain ⟨stmt, es, b⟩ := v
  cases stmt with
  | container line text members =>
      obtain rfl := Option.some.inj h
      set b₀ := (b.openSubgraph text line).2 with hb₀
      have hs₀ : b₀.Sound := hs.openSubgraph text line
      obtain ⟨hfrag, -⟩ := memberBlocks_drawn members hs₀ fun r _ => r.good
      obtain ⟨b₂, hlower, hgrows, -, hedges, -⟩ :=
        exists_lowerStmt_container line text members es b hfrag.grows
      have hends : (⟨.container line text members, es, b⟩ : Visit).ends = es :=
        congrArg Prod.fst hlower
      have hafter : (⟨.container line text members, es, b⟩ : Visit).after = b₂.closeSubgraph :=
        congrArg Prod.snd hlower
      have hgrows₀ : Grows b₀ b₂ := hfrag.grows.trans hgrows
      rw [hends, hafter]
      refine ⟨hgrows₀.mem_nodes ?_, rfl, fun d hd => ?_⟩
      · exact List.mem_append_right _ (List.mem_singleton_self _)
      rw [closeSubgraph_edges, hedges] at hd
      by_cases hold : d ∈ b.edges
      · exact Or.inl hold
      have hsource := ((hfrag.source hd).resolve_left hold).resolve_right (by simp)
      have htarget := (hfrag.target d hd).resolve_left hold
      refine Or.inr fun n hn hid => hgrows₀.contains hs₀ rfl n hn ?_
      rcases hid with hid | hid
      · rwa [hid]
      · rwa [hid]
  | _ => exact absurd h (by simp [scope?])

/-- No edge of a container's drawing joins two of its members. -/
theorem members_apart (hs : v.before.Sound) : v.members.Pairwise v.after.build.Apart := by
  obtain ⟨stmt, es, b⟩ := v
  cases stmt with
  | container line text members =>
      have hs₀ := hs.openSubgraph text line
      obtain ⟨hfrag, -⟩ := memberBlocks_drawn members hs₀ fun r _ => r.good
      obtain ⟨b₂, hlower, -, -, hedges, -⟩ :=
        exists_lowerStmt_container line text members es b hfrag.grows
      have hafter : (⟨.container line text members, es, b⟩ : Visit).after = b₂.closeSubgraph :=
        congrArg Prod.snd hlower
      have hsub : (⟨.container line text members, es, b⟩ : Visit).after.edges ⊆
          (lowerMembers members (b.openSubgraph text line).2).2.edges := by
        rw [hafter, closeSubgraph_edges, hedges]
        exact List.Subset.refl _
      exact (memberBlocks_apart members hs₀).imp fun hpq d hd => hpq d (hsub hd)
  | _ => exact List.Pairwise.nil

/-- The members of a container are blocks of it. -/
theorem mem_blocks_of_mem_members {r : Block} (h : r ∈ v.members) : r ∈ v.blocks := by
  obtain ⟨stmt, es, b⟩ := v
  cases stmt with
  | container => exact h
  | _ => exact absurd h List.not_mem_nil

/-- A function is a node of its own and a body drawn from it, and goes on at that node. -/
theorem function_spec {f : Link} (h : v.function? = some f) :
    idNumber f.node = v.before.next ∧ f.block ∈ v.blocks ∧ f.block.exits = [Exit.plain f.node] ∧
      v.ends = [Exit.plain f.node] ∧ v.after = f.block.after ∧
      ∃ n ∈ f.block.before.nodes, n.id = f.node ∧ n.shape = .stadium := by
  obtain ⟨stmt, es, b⟩ := v
  cases stmt with
  | function line text body =>
      obtain rfl := Option.some.inj h
      refine ⟨idNumber_idOf IdFamily.proper_line line b.next, List.mem_singleton_self _, rfl, rfl,
        rfl, b.freshNode .stadium text line, ?_, rfl, rfl⟩
      rw [place, linkAll_nodes]
      exact (Adds.node b .stadium text line (by simp)).mem_nodes
  | _ => exact absurd h (by simp [function?])

end Visit

/-! ### Programs -/

section Program

variable {mode : LabelMode} {limit : Option Int} {stmts : List Stmt} {v : Visit}

/-- Every edge of a program joins two nodes of one subgraph. -/
theorem joins_program {d : Edge}
    (hd : d ∈ (lowerProgram stmts (Builder.empty mode limit)).2.edges) :
    (lowerProgram stmts (Builder.empty mode limit)).2.Joins Licence.free d :=
  (((Block.program mode limit stmts).kept (sound_empty mode limit)
    (fun _ hx => absurd hx List.not_mem_nil) fun v _ => v.licensed_free).edge d hd).resolve_left
      List.not_mem_nil

/-- Every edge that a program has into the nodes of a statement was drawn for the statement. -/
theorem Visits.mem_after_edges (hv : Visits (Block.program mode limit stmts) v) {d : Edge}
    (hd : d ∈ (lowerProgram stmts (Builder.empty mode limit)).2.edges)
    (hle : v.before.next ≤ idNumber d.target) (hlt : idNumber d.target < v.after.next) :
    d ∈ v.after.edges :=
  hv.within_program.framed.mem_edges hd hle hlt

/-- No edge of a program joins two members of a container. -/
theorem Visits.members_apart (hv : Visits (Block.program mode limit stmts) v) :
    v.members.Pairwise (lowerProgram stmts (Builder.empty mode limit)).2.build.Apart := by
  have hin := hv.within_program
  have hdrawn := v.drawn hin.sound hin.pending
  have hids : ∀ r ∈ v.members, ∀ id ∈ r.ids, v.before.next ≤ idNumber id ∧
      idNumber id < v.after.next := fun r hr id hid =>
    (hdrawn.placed r (Visit.mem_blocks_of_mem_members hr)).idNumber_bounds hid
  refine (Visit.members_apart hin.sound).imp_of_mem fun {p q} hp hq hpq d hd => ?_
  refine ⟨fun ⟨hsource, htarget⟩ => ?_, fun ⟨hsource, htarget⟩ => ?_⟩
  · obtain ⟨hle, hlt⟩ := hids q hq _ htarget
    exact (hpq d (hv.mem_after_edges hd hle hlt)).1 ⟨hsource, htarget⟩
  · obtain ⟨hle, hlt⟩ := hids p hp _ htarget
    exact (hpq d (hv.mem_after_edges hd hle hlt)).2 ⟨hsource, htarget⟩

/-- The body of a function is entered from the function's node, and by no other edge. -/
theorem Visits.crossing_function {f : Link} (hv : Visits (Block.program mode limit stmts) v)
    (hf : v.function? = some f) {d : Edge} :
    d ∈ (lowerProgram stmts (Builder.empty mode limit)).2.build.crossing f.block.ids ↔
      d ∈ (f.block.first?.map fun n => (⟨f.node, n.id, none, .solid⟩ : Edge)).toList := by
  have hin := hv.within_program
  obtain ⟨hnumber, hblock, hexits, hends, hafter, -⟩ := Visit.function_spec hf
  have hp := (v.drawn hin.sound hin.pending).placed f.block hblock
  have hcross := Block.crossing_iff (d := d) hp.sound hp.pending
  have hbody : (∃ n ∈ f.block.first?, ∃ x ∈ f.block.exits, d = x.edgeTo f.block.before n.id) ↔
      d ∈ (f.block.first?.map fun n => (⟨f.node, n.id, none, .solid⟩ : Edge)).toList := by
    simp only [hexits, List.mem_singleton, exists_eq_left, Option.mem_toList, Option.mem_def,
      Option.map_eq_some_iff, eq_comm (a := d)]
    rfl
  rw [Graph.mem_crossing, ← hbody, ← hcross]
  refine and_congr_left fun hne => ⟨fun hd => ?_, fun hd => ?_⟩
  · -- an edge that is drawn later touches no node of the body
    have hout : ∀ {id : String}, Outside v.before.next v.after.next id → id ∉ f.block.ids := by
      intro id hid hmem
      obtain ⟨hle, hlt⟩ := hp.idNumber_bounds hmem
      rcases hid with hid | hid <;> omega
    rcases hin.framed.edge d hd with hold | ⟨htarget, hsource | ⟨x, hx, hsource⟩⟩
    · exact hafter ▸ hold
    · exact absurd (iff_of_false (hout hsource) (hout htarget)) hne
    · rw [hends, List.mem_singleton] at hx
      refine absurd (iff_of_false (fun hmem => ?_) (hout htarget)) hne
      rw [← hsource, hx] at hmem
      have hle := (Block.idNumber_bounds hp.sound hp.pending hmem).1
      have hlt := hp.sound.idNumber_lt (hp.pending (Exit.plain f.node) (by simp [hexits])).mem_ids
      exact absurd hlt (Nat.not_lt.mpr hle)
  · rw [← hafter] at hd
    exact hin.framed.keeps.edges_prefix.subset hd

end Program

/-- A list without double entries that has the members of an option is that option. -/
theorem eq_toList_of_nodup {α : Type} {l : List α} {o : Option α} (hl : l.Nodup)
    (h : ∀ a, a ∈ l ↔ a ∈ o.toList) : l = o.toList := by
  have hperm : l.Perm o.toList := (List.perm_ext_iff_of_nodup hl (by cases o <;> simp)).mpr h
  cases o with
  | none => exact List.Perm.eq_nil hperm
  | some a => exact List.perm_singleton.mp hperm

/-- Control flow stays in its scope. The ends of every edge stand in one subgraph, and the end of a
function is not left. A container hands its exits on; the edges drawn for it join nodes that stand
in its subgraph, and none joins two of its members. The body of a function is entered by at most one
edge, from the function's node to the first node on the body's flow, and no other edge crosses its
border. -/
theorem scoped_program (mode : LabelMode) (limit : Option Int) (stmts : List Stmt) :
    let r := Block.program mode limit stmts
    let g := (lowerProgram stmts (Builder.empty mode limit)).2.build
    (∀ e ∈ g.edges, ∃ m ∈ g.nodes, ∃ n ∈ g.nodes,
        m.id = e.source ∧ n.id = e.target ∧ m.parent = n.parent) ∧
      (∀ n ∈ g.nodes, n.shape = .terminal → g.outgoing n.id = []) ∧
      (∀ v, Visits r v → v.members.Pairwise g.Apart) ∧
      (∀ v s, Visits r v → v.scope? = some s → s ∈ g.nodes ∧ v.ends = v.exits ∧
        ∀ e ∈ v.after.edges, e ∈ v.before.edges ∨
          ∀ n ∈ g.nodes, n.id = e.source ∨ n.id = e.target → g.Contains s.id n) ∧
      ∀ v f, Visits r v → v.function? = some f →
        (∃ n ∈ g.nodes, n.id = f.node ∧ n.shape = .stadium) ∧
          g.crossing f.block.ids =
            (f.block.first?.map fun n => (⟨f.node, n.id, none, .solid⟩ : Edge)).toList := by
  intro r g
  have hs : (lowerProgram stmts (Builder.empty mode limit)).2.Sound :=
    (grows_program mode limit stmts).sound (sound_empty mode limit)
  refine ⟨fun e he => ?_, fun n hn hterminal => ?_, fun v hv => hv.members_apart,
    fun v s hv hscope => ?_, fun v f hv hf => ?_⟩
  · obtain ⟨m, hm, n, hn, hsource, htarget, hparent, -⟩ := joins_program he
    exact ⟨m, hm, n, hn, hsource, htarget, hparent⟩
  · refine List.filter_eq_nil_iff.mpr fun e he hsource => ?_
    obtain ⟨m, hm, -, -, hid, -, -, hshape, -⟩ := joins_program he
    have hmn : m = n := hs.node_eq hm hn (by rw [hid, beq_iff_eq.mp hsource])
    exact hshape (by simp [hmn, hterminal])
  · have hin := hv.within_program
    have hsub := hin.framed.keeps.nodes_prefix.subset
    obtain ⟨hmem, hends, hedge⟩ := Visit.contains_scope hscope hin.sound
    have hs' := (v.drawn hin.sound hin.pending).segment.grows.sound hin.sound
    refine ⟨hsub hmem, hends, fun e he => (hedge e he).imp id fun hcontains n hn hid => ?_⟩
    -- the ends of the edge are nodes of the container
    have hin' : n ∈ v.after.nodes := by
      have hids : n.id ∈ v.after.ids := by
        rcases hid with hid | hid
        · exact hid ▸ hs'.source_mem e he
        · exact hid ▸ hs'.target_mem e he
      obtain ⟨n', hn', hid'⟩ := Builder.mem_ids.mp hids
      rwa [← hs.node_eq (hsub hn') hn (by rw [hid'])]
    exact (hcontains n hin' hid).mono hsub
  · have hin := hv.within_program
    obtain ⟨-, hblock, -, -, -, n, hn, hid, hshape⟩ := Visit.function_spec hf
    have hp := (v.drawn hin.sound hin.pending).placed f.block hblock
    refine ⟨⟨n, ?_, hid, hshape⟩, eq_toList_of_nodup ?_ fun d => hv.crossing_function hf⟩
    · exact hin.framed.keeps.nodes_prefix.subset (hp.extends.nodes_prefix.subset hn)
    · exact hs.nodup_edges.filter _

end Flowchart
