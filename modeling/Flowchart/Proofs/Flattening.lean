import Flowchart.Proofs.Drawing.Drawn
import Flowchart.Proofs.Operations
import Mathlib.Data.List.Induction

/-!
# Chains of decisions drawn in one piece

A branch that stands alone where a decision says no goes on with the chain of decisions, and the whole
chain has one merge point. A branch that stands there in a block of its own is drawn by itself, with a
merge point of its own that leads to the outer one. This makes no difference but for that merge point:
where it is contracted into the outer one, the second drawing is the first one with another name for the
merge point (`lowerStmt_block_branch`).

The edges into a merge point are drawn last and come from nodes that were there (`linkAll_edges_eq`), so
all that has to be followed is what collecting the exits does once and twice (`contract_join`).

## What differs

Both drawings agree up to the point where the exits of the inner chain are collected. From there the one
goes on to the outer merge point. The other draws a merge point for the inner chain first, with the
number that the outer one would have had, and the outer one after it. Contracting takes the inner merge
point out, and the edges into it lead to the outer one, in the place of the edge between the two
(`contractEdge`). Edges are kept in order and without repetition, so the two graphs are compared as
lists and not only by what is in them.

## Main results

* `linkAll_edges_eq`: the edges that lead some exits to a new node, in order and without repetition.
* `Collects.contract_eq`: contracting the inner merge point of a drawing that merges twice.
* `lowerStmt_block_branch`: a branch in a block of its own, and the same branch in the chain.
-/

namespace Flowchart

/-! ### Contracting a node -/

/-- The id that `inner` has once it is one with `outer`. -/
def led (inner outer id : String) : String := if id = inner then outer else id

namespace Graph

/-- The graph with other ids of its nodes. -/
def rename (f : String → String) (g : Graph) : Graph :=
  { g with
    nodes := g.nodes.map fun n => { n with id := f n.id, parent := n.parent.map f }
    edges := g.edges.map fun e => { e with source := f e.source, target := f e.target }
    styles := g.styles.map fun s => { s with node := f s.node } }

/-- What becomes of an edge where `inner` is contracted into `outer`: the edges into `inner` lead to
`outer`, in the place of the edge between the two, and the other edges out of `inner` come out of
`outer`. -/
def contractEdge (g : Graph) (inner outer : String) (e : Edge) : List Edge :=
  if e.target = inner then []
  else if e.source = inner ∧ e.target = outer then
    (g.incoming inner).map fun e => { e with target := outer }
  else [{ e with source := led inner outer e.source }]

/-- The graph with the node `inner` contracted into `outer`. -/
def contract (g : Graph) (inner outer : String) : Graph :=
  { g with
    nodes := g.nodes.filter fun n => n.id != inner
    edges := g.edges.flatMap (g.contractEdge inner outer)
    styles := g.styles.map fun s => { s with node := led inner outer s.node } }

/-- An edge that does not touch the inner node stays. -/
theorem contractEdge_apart (g : Graph) {inner : String} {e : Edge} (hsource : e.source ≠ inner)
    (htarget : e.target ≠ inner) (outer : String) : g.contractEdge inner outer e = [e] := by
  rw [contractEdge, if_neg htarget, if_neg fun h => hsource h.1, led, if_neg hsource]

/-- The edge from the inner node to the outer one becomes the edges into the inner one, led on. -/
theorem contractEdge_between (g : Graph) {inner outer : String} (hne : outer ≠ inner) {e : Edge}
    (hsource : e.source = inner) (htarget : e.target = outer) : g.contractEdge inner outer e =
      (g.incoming inner).map fun e => { e with target := outer } := by
  rw [contractEdge, if_neg (htarget ▸ hne), if_pos ⟨hsource, htarget⟩]

end Graph

/-- An exit of a node by another id. -/
def Exit.rename (f : String → String) (x : Exit) : Exit := { x with node := f x.node }

/-! ### Edges to a new node -/

section Lists

variable {α : Type} [BEq α] [LawfulBEq α]

/-- In lists without common items repetitions are erased in each. -/
theorem eraseDups_append_of_disjoint {l l' : List α} (h : ∀ x ∈ l', x ∉ l) :
    (l ++ l').eraseDups = l.eraseDups ++ l'.eraseDups := by
  rw [List.eraseDups_append, List.removeAll]
  congr 2
  exact List.filter_eq_self.mpr fun x hx => by simpa using h x hx

/-- A last item counts if it is not there before. -/
theorem eraseDups_concat (l : List α) (x : α) :
    (l ++ [x]).eraseDups = if x ∈ l then l.eraseDups else l.eraseDups ++ [x] := by
  split_ifs with h
  · rw [List.eraseDups_append]
    simp [List.removeAll, h]
  · rw [eraseDups_append_of_disjoint (by simpa using h)]
    rfl

end Lists

namespace Builder

variable {b : Builder} {es : List Exit} {t : String}

/-- The last exit is led to the node after the others. -/
theorem linkAll_concat (b : Builder) (es : List Exit) (x : Exit) (t : String) :
    b.linkAll (es ++ [x]) t = (b.linkAll es t).addEdge x.node t x.label x.style := by
  rw [linkAll, Drawing.link, List.foldl_append]
  rfl

/-- Linking changes edges and the number of labels only. -/
theorem linkAll_eq (b : Builder) (es : List Exit) (t : String) : b.linkAll es t = { b with
    edges := (b.linkAll es t).edges
    labelled := (b.linkAll es t).labelled } := by
  induction es using List.reverseRecOn with
  | nil => rfl
  | append_singleton es x ih =>
      rw [linkAll_concat, addEdge_eq]
      generalize (addEdge _ _ _ _ _).edges = edges
      generalize (addEdge _ _ _ _ _).labelled = labelled
      rw [ih]

/-- Edges between nodes that are there keep a builder sound. -/
theorem Sound.linkAll (h : b.Sound) (hes : ∀ x ∈ es, x.node ∈ b.ids) (ht : t ∈ b.ids) :
    (b.linkAll es t).Sound := by
  induction es using List.reverseRecOn with
  | nil => exact h
  | append_singleton es x ih =>
      rw [linkAll_concat]
      refine (ih fun y hy => hes y (List.mem_append_left _ hy)).addEdge ?_ ?_ x.label x.style
      · rw [linkAll_ids]
        exact hes x (List.mem_append_right _ (List.mem_singleton_self x))
      · rw [linkAll_ids]
        exact ht

/-- An edge between two ids is added if it is not there. -/
theorem addEdge_edges_ite {source target : String} (hs : source.isEmpty = false)
    (ht : target.isEmpty = false) (text : Option String) (style : EdgeStyle) :
    (b.addEdge source target text style).edges =
      if ⟨source, target, b.edgeLabel text, style⟩ ∈ b.edges then b.edges
      else b.edges ++ [⟨source, target, b.edgeLabel text, style⟩] := by
  have hmem : (⟨source, target, b.edgeLabel text, style⟩ : Edge) ∈
      (b.addEdge source target text style).edges := (mem_addEdge_edges hs ht).mpr (Or.inr rfl)
  rcases addEdge_edges_eq b source target text style with heq | ⟨hnew, heq⟩
  · rw [heq] at hmem ⊢
    rw [if_pos hmem]
  · rw [heq, if_neg hnew]

/-- The edges to a node that none led to before: one for each exit, those that are equal once. -/
theorem linkAll_edges_eq (hes : ∀ x ∈ es, x.node.isEmpty = false) (ht : t.isEmpty = false)
    (hnew : ∀ e ∈ b.edges, e.target ≠ t) :
    (b.linkAll es t).edges = b.edges ++ (es.map (·.edgeTo b t)).eraseDups := by
  induction es using List.reverseRecOn with
  | nil => exact (List.append_nil _).symm
  | append_singleton es x ih =>
      have hedges := ih fun y hy => hes y (List.mem_append_left _ hy)
      have hx := hes x (List.mem_append_right _ (List.mem_singleton_self x))
      have hedge : (⟨x.node, t, (b.linkAll es t).edgeLabel x.label, x.style⟩ : Edge) =
          x.edgeTo b t := by
        rw [linkAll_eq]
        rfl
      have hmem : x.edgeTo b t ∈ (b.linkAll es t).edges ↔ x.edgeTo b t ∈ es.map (·.edgeTo b t) := by
        rw [hedges, List.mem_append, List.mem_eraseDups]
        exact or_iff_right fun hold => hnew _ hold rfl
      rw [linkAll_concat, List.map_append, List.map_singleton, eraseDups_concat,
        addEdge_edges_ite hx ht, hedge]
      by_cases hold : x.edgeTo b t ∈ es.map (·.edgeTo b t)
      · rw [if_pos (hmem.mpr hold), if_pos hold, hedges]
      · rw [if_neg (mt hmem.mp hold), if_neg hold, hedges, List.append_assoc]

/-- The edges to another node are the same but for their end. -/
theorem map_eraseDups_edgeTo (b : Builder) (es : List Exit) (t t' : String) :
    (es.map (·.edgeTo b t)).eraseDups.map (fun e => { e with target := t' }) =
      (es.map (·.edgeTo b t')).eraseDups := by
  induction es using List.reverseRecOn with
  | nil => rfl
  | append_singleton es x ih =>
      have hmem : x.edgeTo b t ∈ es.map (·.edgeTo b t) ↔
          x.edgeTo b t' ∈ es.map (·.edgeTo b t') := by
        simp [Exit.edgeTo]
      rw [List.map_append, List.map_append, List.map_singleton, List.map_singleton,
        eraseDups_concat, eraseDups_concat]
      by_cases hold : x.edgeTo b t ∈ es.map (·.edgeTo b t)
      · rw [if_pos hold, if_pos (hmem.mp hold), ih]
      · rw [if_neg hold, if_neg (mt hmem.mpr hold), List.map_append, ih]
        rfl

/-! ### Collecting exits once and twice -/

/-- The next merge point has the next number. -/
theorem idNumber_mergeId (b : Builder) : idNumber b.mergeId = b.next := (Adds.merge b).number_eq

/-- `b'` is `b` with the exits `es` collected in a merge point. -/
structure Collects (b : Builder) (es : List Exit) (b' : Builder) : Prop where
  sound : b'.Sound
  nodes_eq : b'.nodes = b.nodes ++ [b.mergeNode]
  edges_eq : b'.edges = b.edges ++ (es.map (·.edgeTo b b.mergeId)).eraseDups
  styles_eq : b'.styles = b.styles
  next_eq : b'.next = b.next + 1
  scopes_eq : b'.scopes = b.scopes
  edgeLabel_eq : ∀ text, b'.edgeLabel text = b.edgeLabel text

/-- Collecting exits adds a merge point and the edges to it. -/
theorem collects_join (hb : b.Sound) (hes : ∀ x ∈ es, x.node ∈ b.ids) (hne : es ≠ []) :
    (b.join es).1 = [Exit.plain b.mergeId] ∧ b.Collects es (b.join es).2 := by
  have hadds := Adds.merge b
  have hsound := hadds.grows.sound hb
  have hmem : ∀ x ∈ es, x.node ∈ b.addMerge.2.ids := fun x hx => hadds.grows.mem_ids (hes x hx)
  have hedges : (b.addMerge.2.linkAll es b.mergeId).edges =
      b.edges ++ (es.map (·.edgeTo b b.mergeId)).eraseDups :=
    linkAll_edges_eq (fun x hx => hsound.isEmpty_eq_false (hmem x hx))
      (hsound.isEmpty_eq_false hadds.mem_ids) fun e he heq => by
        have hlt := hb.idNumber_lt (hb.target_mem e he)
        rw [heq, idNumber_mergeId] at hlt
        exact Nat.lt_irrefl _ hlt
  rw [join_of_ne_nil b hne]
  refine ⟨rfl, hsound.linkAll hmem hadds.mem_ids, ?_, hedges, ?_, ?_, ?_, fun text => ?_⟩
  all_goals
    rw [linkAll_eq]
    rfl

section Twice

variable {c : Builder} {outer : String}

/-- The id of a node that is there is not that of the next merge point. -/
theorem ne_mergeId (hc : c.Sound) {id : String} (hid : id ∈ c.ids) : id ≠ c.mergeId := by
  rintro rfl
  have hlt := hc.idNumber_lt hid
  rw [idNumber_mergeId] at hlt
  exact Nat.lt_irrefl _ hlt

/-- Ids that are there stay. -/
theorem led_of_mem (hc : c.Sound) {id : String} (hid : id ∈ c.ids) :
    led c.mergeId outer id = id := if_neg (ne_mergeId hc hid)

/-- Parents stay as they are, since no merge point is one. -/
theorem map_led_parent (hc : c.Sound) {parent : Option String}
    (hparent : ∀ p ∈ parent, ∃ (j : Nat) (m : Node), c.nodes[j]? = some m ∧ m.id = p) :
    parent.map (led c.mergeId outer) = parent := by
  cases parent with
  | none => rfl
  | some p =>
      obtain ⟨j, m, hm, rfl⟩ := hparent p rfl
      exact congrArg some (led_of_mem hc (mem_ids.mpr ⟨m, List.mem_of_getElem? hm, rfl⟩))

/-- The nodes that are there stay, and so does the subgraph that a merge point stands in. -/
theorem map_led_nodes (hc : c.Sound) (outer : String) :
    c.nodes.map (fun n => { n with
      id := led c.mergeId outer n.id
      parent := n.parent.map (led c.mergeId outer) }) = c.nodes ∧
    c.scopes.head?.map (led c.mergeId outer) = c.scopes.head? := by
  constructor
  · refine (List.map_congr_left fun n hn => ?_).trans (List.map_id _)
    obtain ⟨i, hi⟩ := List.mem_iff_getElem?.mp hn
    have hparent : n.parent.map (led c.mergeId outer) = n.parent :=
      map_led_parent hc fun p hp => by
        obtain ⟨j, m, -, hm, hid, -⟩ := hc.parent_mem i n p hi hp
        exact ⟨j, m, hm, hid⟩
    rw [led_of_mem hc (mem_ids.mpr ⟨n, hn, rfl⟩), hparent]
    rfl
  · exact map_led_parent hc fun p hp => by
      obtain ⟨j, m, hm, hid, -⟩ := hc.scope_mem p (List.mem_of_head? hp)
      exact ⟨j, m, hm, hid⟩

/-- The edges that are there stay. -/
theorem map_led_edges (hc : c.Sound) :
    c.edges.map (fun e => { e with
      source := led c.mergeId outer e.source
      target := led c.mergeId outer e.target }) = c.edges := by
  refine (List.map_congr_left fun e he => ?_).trans (List.map_id _)
  rw [led_of_mem hc (hc.source_mem e he), led_of_mem hc (hc.target_mem e he)]
  rfl

/-- The edges to the merge point lead to the other one. -/
theorem map_led_edgeTo (hc : c.Sound) {es : List Exit} (hes : ∀ x ∈ es, x.node ∈ c.ids) :
    (es.map (·.edgeTo c c.mergeId)).eraseDups.map (fun e => { e with
      source := led c.mergeId outer e.source
      target := led c.mergeId outer e.target }) = (es.map (·.edgeTo c outer)).eraseDups := by
  rw [← map_eraseDups_edgeTo c es c.mergeId outer]
  refine List.map_congr_left fun e he => ?_
  obtain ⟨x, hx, rfl⟩ := List.mem_map.mp (List.mem_eraseDups.mp he)
  rw [show (x.edgeTo c c.mergeId).source = x.node from rfl, led_of_mem hc (hes x hx)]
  exact congrArg (fun t => { x.edgeTo c c.mergeId with target := t }) (if_pos rfl)

/-- The edges into the merge point are put where the edge from it to the other one was. -/
theorem contract_edges (hc : c.Sound) {Y I : List Exit} (hY : ∀ x ∈ Y, x.node ∈ c.ids)
    (houter : outer ≠ c.mergeId) {g : Graph}
    (hedges : g.edges = c.edges ++ (I.map (·.edgeTo c c.mergeId)).eraseDups ++
      ((Y.map (·.edgeTo c outer)).eraseDups ++ [(Exit.plain c.mergeId).edgeTo c outer])) :
    (g.contract c.mergeId outer).edges = c.edges ++ (Y.map (·.edgeTo c outer)).eraseDups ++
      (I.map (·.edgeTo c outer)).eraseDups := by
  have hinto : ∀ e ∈ (I.map (·.edgeTo c c.mergeId)).eraseDups, e.target = c.mergeId := by
    intro e he
    obtain ⟨x, -, rfl⟩ := List.mem_map.mp (List.mem_eraseDups.mp he)
    rfl
  have hfrom : ∀ e ∈ (Y.map (·.edgeTo c outer)).eraseDups,
      e.source ≠ c.mergeId ∧ e.target = outer := by
    intro e he
    obtain ⟨x, hx, rfl⟩ := List.mem_map.mp (List.mem_eraseDups.mp he)
    exact ⟨ne_mergeId hc (hY x hx), rfl⟩
  have hkept : ∀ e ∈ c.edges, e.source ≠ c.mergeId ∧ e.target ≠ c.mergeId := fun e he =>
    ⟨ne_mergeId hc (hc.source_mem e he), ne_mergeId hc (hc.target_mem e he)⟩
  have hincoming : g.incoming c.mergeId = (I.map (·.edgeTo c c.mergeId)).eraseDups := by
    rw [Graph.incoming, hedges, List.filter_append, List.filter_append, List.filter_append,
      List.filter_eq_nil_iff.mpr fun e he => by simpa using (hkept e he).2,
      List.filter_eq_self.mpr fun e he => by simpa using hinto e he,
      List.filter_eq_nil_iff.mpr fun e he => by simpa [(hfrom e he).2] using houter,
      List.filter_eq_nil_iff.mpr fun e he => by
        rw [List.mem_singleton.mp he]
        simpa [Exit.edgeTo] using houter]
    simp
  -- what becomes of an edge, by where it was drawn
  have hapart : ∀ {l : List Edge}, (∀ e ∈ l, e.source ≠ c.mergeId ∧ e.target ≠ c.mergeId) →
      l.flatMap (g.contractEdge c.mergeId outer) = l := fun h =>
    (List.flatMap_congr fun e he => g.contractEdge_apart (h e he).1 (h e he).2 outer).trans
      (List.flatMap_singleton' _)
  have hbypassed : (I.map (·.edgeTo c c.mergeId)).eraseDups.flatMap
      (g.contractEdge c.mergeId outer) = [] :=
    List.flatMap_eq_nil_iff.mpr fun e he => if_pos (hinto e he)
  have hbetween : g.contractEdge c.mergeId outer ((Exit.plain c.mergeId).edgeTo c outer) =
      (I.map (·.edgeTo c outer)).eraseDups := by
    rw [g.contractEdge_between houter rfl rfl, hincoming, map_eraseDups_edgeTo]
  rw [Graph.contract, hedges, List.flatMap_append, List.flatMap_append, List.flatMap_append,
    List.flatMap_singleton, hapart hkept, hbypassed, hbetween, List.append_nil, hapart fun e he =>
      ⟨(hfrom e he).1, (hfrom e he).2 ▸ houter⟩, List.append_assoc]

/-- Collecting some exits first and the others with them is collecting them all, but for the merge point
in between. -/
theorem Collects.contract_eq {d once twice : Builder} {Y I : List Exit} (hc : c.Sound)
    (hY : ∀ x ∈ Y, x.node ∈ c.ids) (hI : ∀ x ∈ I, x.node ∈ c.ids)
    (hapart : ∀ x ∈ Y, ∀ y ∈ I, x.node ≠ y.node) (hd : c.Collects I d)
    (honce : c.Collects (Y ++ I) once)
    (htwice : d.Collects (Y ++ [Exit.plain c.mergeId]) twice) :
    d.mergeId ≠ c.mergeId ∧ d.mergeId ∉ once.ids ∧ twice.build.contract c.mergeId d.mergeId =
      once.build.rename (led c.mergeId d.mergeId) := by
  have hnumber : idNumber d.mergeId = c.next + 1 := (idNumber_mergeId d).trans hd.next_eq
  have houter : d.mergeId ≠ c.mergeId := fun heq => by
    rw [heq, idNumber_mergeId] at hnumber
    omega
  obtain ⟨hold, hscope⟩ := map_led_nodes hc d.mergeId
  have hlabel : ∀ x : Exit, x.edgeTo d d.mergeId = x.edgeTo c d.mergeId := fun x => by
    rw [Exit.edgeTo, Exit.edgeTo, hd.edgeLabel_eq]
  have hnodes : (twice.build.contract c.mergeId d.mergeId).nodes =
      (once.build.rename (led c.mergeId d.mergeId)).nodes := by
    have hfilter : c.nodes.filter (fun n => n.id != c.mergeId) = c.nodes :=
      List.filter_eq_self.mpr fun n hn => by
        simpa using ne_mergeId hc (mem_ids.mpr ⟨n, hn, rfl⟩)
    rw [Graph.contract, Graph.rename, build, build]
    dsimp only
    rw [htwice.nodes_eq, hd.nodes_eq, honce.nodes_eq, List.filter_append, List.filter_append,
      List.map_append, hfilter, hold, List.map_singleton]
    simp [mergeNode, houter, hscope, hd.scopes_eq, led]
  have hedges : (twice.build.contract c.mergeId d.mergeId).edges =
      (once.build.rename (led c.mergeId d.mergeId)).edges := by
    have hlast : ∀ e ∈ [(Exit.plain c.mergeId).edgeTo c d.mergeId],
        e ∉ Y.map (·.edgeTo c d.mergeId) := by
      intro e he hmem
      obtain ⟨x, hx, heq⟩ := List.mem_map.mp hmem
      rw [List.mem_singleton.mp he] at heq
      exact ne_mergeId hc (hY x hx) (congrArg Edge.source heq)
    have htwice' : twice.build.edges = c.edges ++ (I.map (·.edgeTo c c.mergeId)).eraseDups ++
        ((Y.map (·.edgeTo c d.mergeId)).eraseDups ++
          [(Exit.plain c.mergeId).edgeTo c d.mergeId]) := by
      rw [build, htwice.edges_eq, hd.edges_eq]
      simp only [hlabel, List.map_append, List.map_singleton]
      rw [eraseDups_append_of_disjoint hlast]
      rfl
    have hothers : ∀ e ∈ I.map (·.edgeTo c c.mergeId), e ∉ Y.map (·.edgeTo c c.mergeId) := by
      intro e he hmem
      obtain ⟨y, hy, rfl⟩ := List.mem_map.mp he
      obtain ⟨x, hx, heq⟩ := List.mem_map.mp hmem
      exact hapart x hx y hy (congrArg Edge.source heq)
    have honce' : once.build.edges = c.edges ++ (Y.map (·.edgeTo c c.mergeId)).eraseDups ++
        (I.map (·.edgeTo c c.mergeId)).eraseDups := by
      rw [build, honce.edges_eq, List.map_append, eraseDups_append_of_disjoint hothers,
        List.append_assoc]
    rw [contract_edges hc hY houter htwice', Graph.rename]
    dsimp only
    rw [honce', List.map_append, List.map_append, map_led_edges hc, map_led_edgeTo hc hY,
      map_led_edgeTo hc hI]
  have hstyles : (twice.build.contract c.mergeId d.mergeId).styles =
      (once.build.rename (led c.mergeId d.mergeId)).styles := by
    rw [Graph.contract, Graph.rename, build, build, htwice.styles_eq, hd.styles_eq, honce.styles_eq]
  refine ⟨houter, fun hmem => ?_, ?_⟩
  · have hlt := honce.sound.idNumber_lt hmem
    rw [hnumber, honce.next_eq] at hlt
    exact Nat.lt_irrefl _ hlt
  · exact (Graph.mk.injEq ..).mpr ⟨hnodes, hedges, rfl, hstyles⟩

end Twice

end Builder

/-! ### An else part in one piece and in two -/

open Builder

/-- The two drawings, each with its exits, are one up to renaming: either the statement `v` has no exits
and with that no merge point, and they are equal, or its merge point is contracted into the one that
collects the exits of both. -/
def SameButMerge (v : Visit) (flat nested : List Exit × Builder) : Prop :=
  (v.ends = [] ∧ nested = flat) ∨
    ∃ inner outer, v.ends = [Exit.plain inner] ∧ nested.1 = [Exit.plain outer] ∧
      (∃ n ∈ v.after.nodes, n.id = inner ∧ n.shape = .merge) ∧
      (∃ n ∈ nested.2.nodes, n.id = outer ∧ n.shape = .merge) ∧
      inner ≠ outer ∧ outer ∉ flat.2.ids ∧
      nested.2.build.contract inner outer = flat.2.build.rename (led inner outer) ∧
      nested.1 = flat.1.map (Exit.rename (led inner outer))

/-- Exits that are collected in two goes. -/
theorem sameButMerge_of_join {v : Visit} {c : Builder} {Y I : List Exit} (hc : c.Sound)
    (hY : ∀ x ∈ Y, x.node ∈ c.ids) (hI : ∀ x ∈ I, x.node ∈ c.ids)
    (hapart : ∀ x ∈ Y, ∀ y ∈ I, x.node ≠ y.node) (hv : (v.ends, v.after) = c.join I) :
    SameButMerge v (c.join (Y ++ I)) (v.after.join (Y ++ v.ends)) := by
  have hends : v.ends = (c.join I).1 := congrArg Prod.fst hv
  have hafter : v.after = (c.join I).2 := congrArg Prod.snd hv
  by_cases hne : I = []
  · rw [hne, join_nil] at hends hafter
    refine Or.inl ⟨hends, ?_⟩
    rw [hne, hends, hafter]
  · have hYI : ∀ x ∈ Y ++ I, x.node ∈ c.ids := fun x hx =>
      (List.mem_append.mp hx).elim (hY x) (hI x)
    obtain ⟨hinner, hd⟩ := collects_join hc hI hne
    obtain ⟨hflat, honce⟩ := collects_join hc hYI (List.append_ne_nil_of_right_ne_nil Y hne)
    rw [← hafter] at hd
    rw [hinner] at hends
    have hids : v.after.ids = c.ids ++ [c.mergeId] := by
      rw [ids, hd.nodes_eq, List.map_append]
      rfl
    have hY' : ∀ x ∈ Y ++ [Exit.plain c.mergeId], x.node ∈ v.after.ids := fun x hx => by
      rw [hids, List.mem_append]
      refine (List.mem_append.mp hx).imp (hY x) fun hx => ?_
      rw [List.mem_singleton.mp hx]
      exact List.mem_singleton_self _
    obtain ⟨houter, htwice⟩ := collects_join hd.sound hY'
      (List.append_ne_nil_of_right_ne_nil Y (List.cons_ne_nil _ _))
    obtain ⟨hother, hnew, heq⟩ := hd.contract_eq hc hY hI hapart honce htwice
    rw [← hends] at houter htwice
    refine Or.inr ⟨c.mergeId, v.after.mergeId, hends, houter, ?_, ?_, hother.symm, hnew, ?_, ?_⟩
    · exact ⟨c.mergeNode, by rw [hd.nodes_eq]; simp, rfl, rfl⟩
    · exact ⟨v.after.mergeNode, by rw [htwice.nodes_eq]; simp, rfl, rfl⟩
    · rw [hends]
      exact heq
    · rw [houter, hflat, List.map_singleton, Exit.rename, led, if_pos rfl]

/-- A branch is drawn as its chain, and then the exits are collected. -/
theorem lowerStmt_branch_eq (line : Option Int) (text cond : String) (body orelse : List Stmt)
    (es : List Exit) (b : Builder) :
    lowerStmt (.branch line text cond body orelse) es b =
      (branchChain (.branch line text cond body orelse) es b).last.after.join
        (branchChain (.branch line text cond body orelse) es b).ends :=
  (Visit.close_chain (v := ⟨.branch line text cond body orelse, es, b⟩) rfl).1

/-- Placing a node keeps a builder sound. -/
theorem Builder.Sound.place {b : Builder} (hb : b.Sound) {es : List Exit}
    (hes : ∀ x ∈ es, x.node ∈ b.ids) {shape : Shape} (hshape : shape ≠ .subgraph) (text : String)
    (line : Option Int) : (b.place es shape text line).Sound := by
  have hadds := Adds.node b shape text line hshape
  exact (hadds.grows.sound hb).linkAll (fun x hx => hadds.grows.mem_ids (hes x hx)) hadds.mem_ids

/-- Flattening is a shortcut: a branch whose else part is a branch is drawn, up to the names of nodes, as
with the inner branch in a block of its own and the merge point of that contracted into the outer one. -/
theorem lowerStmt_block_branch {b : Builder} (hb : Made (fun _ => True) b) {es : List Exit}
    (hes : ∀ x ∈ es, x.node ∈ b.ids) (line : Option Int) (text cond : String) (body : List Stmt)
    (line' : Option Int) (text' cond' : String) (body' orelse' : List Stmt)
    (blockLine : Option Int) :
    let s := Stmt.branch line' text' cond' body' orelse'
    let flat := Stmt.branch line text cond body [s]
    let nested := Stmt.branch line text cond body [.block blockLine [s]]
    let v : Visit := ⟨s, [Exit.no (b.freshId line)],
      (yesBlock es b (orText cond text) line body).after⟩
    Visits ⟨[nested], es, b⟩ v ∧ SameButMerge v (lowerStmt flat es b) (lowerStmt nested es b) := by
  intro s flat nested v
  set yes := yesBlock es b (orText cond text) line body with hyes
  have hblock : (⟨[.block blockLine [s]], v.exits, v.before⟩ : Block) ∈
      (⟨nested, es, b⟩ : Visit).blocks :=
    List.mem_append_right _ (List.mem_singleton_self _)
  refine ⟨Visits.inside hblock (Visits.inside (List.mem_singleton_self _) Visits.here), ?_⟩
  have hstart : yes.before.Sound := hb.sound.place hes (by simp) (orText cond text) line
  have hdecision : b.freshNode .decision (orText cond text) line ∈ yes.before.nodes := by
    rw [hyes, yesBlock, place, linkAll_nodes]
    exact (Adds.node b .decision (orText cond text) line (by simp)).mem_nodes
  have hanswers := Exit.leaves_answers (b.freshNode .decision (orText cond text) line) rfl
  have hsegment := yes.segment hstart fun x hx =>
    ⟨_, hdecision, hanswers x (List.mem_cons_of_mem _ hx)⟩
  have hsound : yes.after.Sound := hsegment.grows.sound hstart
  have hno : ∀ x ∈ v.exits, x.Pending yes.after := fun x hx =>
    ⟨_, hsegment.grows.mem_nodes hdecision,
      hanswers x (List.mem_cons.mpr (Or.inl (List.mem_singleton.mp hx)))⟩
  -- the chain that the inner branch starts
  let inner := yesBlock v.exits yes.after (orText cond' text') line' body'
  let rest := elseChain orelse' [Exit.no (yes.after.freshId line')] inner.after
  have hsketch : Sketch (fun _ => True) v.exits yes.after (yes.after.freshId line')
      (inner.ends ++ rest.ends) (inner :: rest.blocks) rest.last.after :=
    (elseChain_laid orelse' _ _).sketch_cons hsound hno (fun _ _ _ => trivial) fun r _ => r.good
  have hv : (v.ends, v.after) = rest.last.after.join (inner.ends ++ rest.ends) := by
    rw [← Chain.cons_ends (yes.after.freshId line')]
    exact lowerStmt_branch_eq line' text' cond' body' orelse' v.exits v.before
  have hflat : lowerStmt flat es b =
      rest.last.after.join (yes.ends ++ (inner.ends ++ rest.ends)) := by
    rw [← Chain.cons_ends (yes.after.freshId line'), ← Chain.cons_ends (b.freshId line)]
    exact lowerStmt_branch_eq line text cond body [s] es b
  have hnested : lowerStmt nested es b = v.after.join (yes.ends ++ v.ends) := by
    let last : Chain := ⟨[], ⟨[.block blockLine [s]], v.exits, v.before⟩⟩
    have hlast : last.ends = v.ends := rfl
    rw [← hlast, ← Chain.cons_ends (b.freshId line)]
    exact lowerStmt_branch_eq line text cond body [.block blockLine [s]] es b
  have hyesEnds : ∀ x ∈ yes.ends, x.node ∈ yes.after.ids := fun x hx => (hsegment.pending x hx).mem_ids
  rw [hflat, hnested]
  refine sameButMerge_of_join hsketch.sound_after
    (fun x hx => hsketch.grows.mem_ids (hyesEnds x hx))
    (fun x hx => (hsketch.pending x hx).mem_ids) (fun x hx y hy heq => ?_) hv
  have hlt := hsound.idNumber_lt (hyesEnds x hx)
  have hle := hsketch.linked.fresh y hy
  rw [heq] at hlt
  exact absurd hlt (Nat.not_lt.mpr hle)

/-- Two choices after a step, the second of which returns where it says yes. -/
theorem lowerStmt_block_branch_twoChoices :
    let b := ((empty .lenient (some 50)).addNode .process "a" (some 1)).2
    let es : List Exit := [Exit.plain "L1_1"]
    let s : Stmt := .branch (some 4) "" "y" [.terminal (some 5) "return"] [.simple (some 6) "b"]
    let flat : Stmt := .branch (some 2) "" "x" [.simple (some 3) "c"] [s]
    let nested : Stmt := .branch (some 2) "" "x" [.simple (some 3) "c"] [.block none [s]]
    let v : Visit := ⟨s, [Exit.no (b.freshId (some 2))],
      (yesBlock es b "x" (some 2) [.simple (some 3) "c"]).after⟩
    (Made (fun _ => True) b ∧ (∀ x ∈ es, x.node ∈ b.ids) ∧ v.ends = [Exit.plain "M7"]) ∧
      Visits ⟨[nested], es, b⟩ v ∧ SameButMerge v (lowerStmt flat es b) (lowerStmt nested es b) := by
  intro b es s flat nested v
  have hb : Made (fun _ => True) b := .node "a" _ (.empty _ _) trivial IdFamily.proper_line
  have hes : ∀ x ∈ es, x.node ∈ b.ids := by decide +kernel
  have hmerge : v.ends = [Exit.plain "M7"] := by decide +kernel
  exact ⟨⟨hb, hes, hmerge⟩, lowerStmt_block_branch hb hes (some 2) "" "x" [.simple (some 3) "c"]
    (some 4) "" "y" [.terminal (some 5) "return"] [.simple (some 6) "b"] none⟩

end Flowchart
