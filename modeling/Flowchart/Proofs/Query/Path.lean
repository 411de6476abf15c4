import Flowchart.Proofs.Lowering

/-!
# A query is drawn as one path

The clauses of a statement are drawn in the order in which the dialect evaluates them: `ordered`
permutes them so that none stands before one of a lower rank, and those of one rank keep the order
of the text (`perm_ordered`, `pairwise_ordered`). Every clause becomes one node (`Shows`), and each
node is linked to the next one, across statements, and to no other.

`draws_drawAll` says this for a drawing under way, where the new path goes on from the node drawn
last. `evaluated_extract` is the result for a whole query text.

## Main results

* `perm_ordered`, `pairwise_ordered`: what the order of evaluation is.
* `draws_drawAll`: what is drawn of the statements of a query.
* `evaluated_extract`: what the graph of a query text is.
-/

namespace Flowchart.Query

open Builder

/-! ### Evaluation order -/

/-- `a` may stand before `b`: it is evaluated earlier, or neither is and it does not come later in
the text. -/
def Before (dialect : Dialect) (a b : Clause) : Prop :=
  a.kind.rank dialect < b.kind.rank dialect ∨
    a.kind.rank dialect = b.kind.rank dialect ∧ a.pos ≤ b.pos

/-- The sorting goes by rank, and by place where ranks are equal. -/
theorem precedes_iff {dialect : Dialect} {a b : Clause} :
    precedes dialect a b = true ↔ Before dialect a b := by
  simp [precedes, Before]

/-- Putting clauses in order neither drops nor repeats one. -/
theorem perm_ordered (dialect : Dialect) (clauses : List Clause) :
    (ordered dialect clauses).Perm clauses :=
  List.mergeSort_perm clauses (precedes dialect)

/-- Clauses in order are ranked, and those of one rank stand as in the text. -/
theorem pairwise_ordered (dialect : Dialect) (clauses : List Clause) :
    (ordered dialect clauses).Pairwise (Before dialect) := by
  have htrans : ∀ a b c, precedes dialect a b = true → precedes dialect b c = true →
      precedes dialect a c = true := by
    intro a b c
    simp only [precedes_iff, Before]
    omega
  have htotal : ∀ a b, (precedes dialect a b || precedes dialect b a) = true := by
    intro a b
    simp only [Bool.or_eq_true, precedes_iff, Before]
    omega
  exact (List.pairwise_mergeSort htrans htotal clauses).imp precedes_iff.mp

/-! ### Paths -/

/-- The edges of the path through some ids: each leads to the next one, without a label. -/
def path (ids : List String) : List Edge :=
  List.zipWith (fun source target => ⟨source, target, none, .solid⟩) ids ids.tail

/-- A path goes from each node to the next one. -/
theorem path_cons_cons (a b : String) (ids : List String) :
    path (a :: b :: ids) = ⟨a, b, none, .solid⟩ :: path (b :: ids) := rfl

/-- A path that goes on after its last id. -/
theorem path_append_cons (ids : List String) (a : String) (rest : List String) :
    path (ids ++ a :: rest) = path (ids ++ [a]) ++ path (a :: rest) := by
  induction ids with
  | nil => rfl
  | cons b ids ih =>
      cases ids with
      | nil => rfl
      | cons c ids =>
          simp only [List.cons_append, path_cons_cons] at ih ⊢
          rw [ih]

/-- A path has one edge less than ids. -/
theorem length_path (ids : List String) : (path ids).length = ids.length - 1 := by
  simp [path]

/-! ### Drawing clauses -/

/-- The node is drawn for the clause. -/
structure Shows (n : Node) (c : Clause) : Prop where
  shape_eq : n.shape = c.kind.shape
  raw_eq : n.raw = c.text
  line_eq : n.line = some c.line

/-- The style entries of nodes that are drawn for clauses. -/
def entries (dialect : Dialect) (ns : List Node) (clauses : List Clause) : List NodeStyle :=
  (ns.zip clauses).filterMap fun p => (style? dialect p.2).map (⟨p.1.id, ·⟩)

/-- The styles of a path are those of its first node and of the rest. -/
theorem entries_cons (dialect : Dialect) (n : Node) (ns : List Node) (c : Clause)
    (clauses : List Clause) :
    entries dialect (n :: ns) (c :: clauses) =
      entries dialect [n] [c] ++ entries dialect ns clauses := by
  have hzip : (n :: ns).zip (c :: clauses) = [(n, c)] ++ ns.zip clauses := rfl
  rw [entries, hzip, List.filterMap_append]
  rfl

/-- What the nodes `ns`, drawn for the clauses after the node `prev`, add to a builder. -/
structure Draws (dialect : Dialect) (prev : Option String) (clauses : List Clause)
    (ns : List Node) (b b' : Builder) : Prop where
  shows : List.Forall₂ Shows ns clauses
  nodes_eq : b'.nodes = b.nodes ++ ns
  edges_eq : b'.edges = b.edges ++ path (prev.toList ++ ns.map (·.id))
  styles_eq : b'.styles = b.styles ++ entries dialect ns clauses

/-- The edge from the last node is new, since the node it leads to is. -/
theorem withClause_edges {prev : Option String} (c : Clause) {b : Builder} (hs : b.Sound)
    (hprev : ∀ p ∈ prev, p ∈ b.ids) : (withClause prev c b).edges =
      b.edges ++ path (prev.toList ++ [(clauseNode b c).id]) := by
  cases prev with
  | none => exact (List.append_nil _).symm
  | some p =>
      let b₁ := (b.addNode c.kind.shape c.text (some c.line) (.named "Q")).2
      have hnumber := idNumber_clauseNode b c
      have hnew : (⟨p, (clauseNode b c).id, none, .solid⟩ : Edge) ∉ b.edges := by
        intro hmem
        have hlt : idNumber (clauseNode b c).id < b.next := hs.idNumber_lt (hs.target_mem _ hmem)
        omega
      have htarget : (clauseNode b c).id.isEmpty = false :=
        ne_empty_of_idNumber_pos (by have := hs.next_eq; omega)
      rcases addEdge_edges_eq b₁ p (clauseNode b c).id none .solid with heq | ⟨-, heq⟩
      · have hmem : (⟨p, (clauseNode b c).id, none, .solid⟩ : Edge) ∈
            (b₁.addEdge p (clauseNode b c).id none .solid).edges :=
          (mem_addEdge_edges (hs.isEmpty_eq_false (hprev p rfl)) htarget).mpr (Or.inr rfl)
        exact absurd (heq ▸ hmem) hnew
      · exact heq

/-- A clause is drawn as one node after the last one. -/
theorem draws_drawClause (dialect : Dialect) {prev : Option String} (c : Clause) {b : Builder}
    (hs : b.Sound) (hprev : ∀ p ∈ prev, p ∈ b.ids) :
    Draws dialect prev [c] [clauseNode b c] b (drawClause dialect prev c b).2 := by
  have hshows : List.Forall₂ Shows [clauseNode b c] [c] := .cons ⟨rfl, rfl, rfl⟩ .nil
  have hnodes := withClause_nodes prev c b
  have hedges := withClause_edges c hs hprev
  rw [drawClause_eq]
  cases hstyle : style? dialect c with
  | none => exact ⟨hshows, hnodes, hedges, by simp [entries, hstyle]⟩
  | some css => exact ⟨hshows, hnodes, hedges, by simp [entries, hstyle, addStyle]⟩

/-- Clauses are drawn as one path that goes on from the last node. -/
theorem draws_drawAll (dialect : Dialect) (prev : Option String) (clauses : List Clause)
    {b : Builder} (hs : b.Sound) (hprev : ∀ p ∈ prev, p ∈ b.ids) :
    ∃ ns, Draws dialect prev clauses ns b (drawAll dialect prev clauses b) := by
  induction clauses generalizing prev b with
  | nil =>
      refine ⟨[], .nil, (List.append_nil _).symm, ?_, (List.append_nil _).symm⟩
      cases prev <;> exact (List.append_nil _).symm
  | cons c rest ih =>
      obtain ⟨hgrows, hmem⟩ := grows_drawClause dialect c hs hprev
      have hfirst := draws_drawClause dialect c hs hprev
      obtain ⟨ns, hrest⟩ := ih (some (drawClause dialect prev c b).1) (hgrows.sound hs)
        fun p hp => Option.mem_some.mp hp ▸ hmem
      refine ⟨clauseNode b c :: ns, .cons ⟨rfl, rfl, rfl⟩ hrest.shows, ?_, ?_, ?_⟩
      · rw [drawAll, hrest.nodes_eq, hfirst.nodes_eq, List.append_assoc, List.singleton_append]
      · have hid : (drawClause dialect prev c b).1 = (clauseNode b c).id := by rw [drawClause_eq]
        have hpath := path_append_cons prev.toList (clauseNode b c).id (ns.map (·.id))
        rw [drawAll, hrest.edges_eq, hfirst.edges_eq, hid, List.append_assoc]
        exact congrArg (b.edges ++ ·) hpath.symm
      · rw [drawAll, hrest.styles_eq, hfirst.styles_eq, List.append_assoc, ← entries_cons]

/-- A query text is drawn in evaluation order as one path. The statements keep their order; the
nodes of each are a permutation of its clauses, ranked as the dialect ranks them and within a rank
as in the text; every node leads to the next one and nowhere else; and the nodes with a style are
those whose clause has one in Spark. -/
theorem evaluated_extract (mode : LabelMode) (limit : Option Int) (p : Parsers) (dialect : Dialect)
    (text : List Char) (loaded : Grammars) :
    let statements := ((extract p dialect text).run loaded).value.1
    let g := (lower dialect statements (Builder.empty mode limit)).build
    ∃ inOrder : List (List Clause),
      List.Forall₂ (fun clauses sorted => sorted.Perm clauses ∧ sorted.Pairwise (Before dialect))
        statements inOrder ∧
      List.Forall₂ Shows g.nodes inOrder.flatten ∧
      (g.nodes.map (·.id)).Nodup ∧
      g.edges = path (g.nodes.map (·.id)) ∧ g.edges.length = g.nodes.length - 1 ∧
      g.styles = entries dialect g.nodes inOrder.flatten := by
  intro statements g
  have hempty := sound_empty mode limit
  obtain ⟨ns, h⟩ := draws_drawAll dialect none (statements.flatMap (ordered dialect))
    hempty fun _ hp => absurd hp (Option.not_mem_none _)
  have hnodes : g.nodes = ns := h.nodes_eq
  have hedges : g.edges = path (g.nodes.map (·.id)) := hnodes ▸ h.edges_eq
  refine ⟨statements.map (ordered dialect), ?_, ?_, ?_, hedges, ?_, ?_⟩
  · rw [List.forall₂_map_right_iff]
    exact List.forall₂_same.mpr fun clauses _ =>
      ⟨perm_ordered dialect clauses, pairwise_ordered dialect clauses⟩
  · rw [← List.flatMap_def, hnodes]
    exact h.shows
  · exact ((grows_query mode limit dialect statements).sound hempty).nodup_ids
  · rw [hedges, length_path, List.length_map]
  · rw [← List.flatMap_def, hnodes]
    exact h.styles_eq

end Flowchart.Query
