import Flowchart.Compile
import Flowchart.Proofs.Drawing.Visits
import Flowchart.Proofs.WellFormed

/-!
# Lowering gives well-formed graphs

Programs and queries are drawn by growth of an empty builder, so the graphs that come out are
well-formed. For programs this is the segment of the program as a block; a query is drawn by adding
one node after another.

A query may refer to styles as well: a clause of a kind that has one gets an entry of its own, which
names the node drawn for the clause. So all parts of the result hold for queries too.
-/

namespace Flowchart

open Builder

namespace Query

/-- The styles of clauses are styles of clauses. -/
theorem isClauseStyle_of_sparkStyle? {k : ClauseKind} {css : String}
    (h : k.sparkStyle? = some css) : IsClauseStyle css := by
  cases k <;> simp_all [ClauseKind.sparkStyle?, IsClauseStyle]

/-- No clause is drawn as a subgraph. -/
theorem shape_ne_subgraph (k : ClauseKind) : k.shape ≠ .subgraph := by
  cases k <;> exact Shape.noConfusion

/-- The style of a clause: only Spark has any. -/
def style? (dialect : Dialect) (c : Clause) : Option String :=
  if dialect = .spark then c.kind.sparkStyle? else none

/-- The node of a clause. -/
def clauseNode (b : Builder) (c : Clause) : Node :=
  ⟨idOf (.named "Q") (some c.line) b.next, c.kind.shape, b.label c.text, some c.line,
    b.scopes.head?, c.text⟩

/-- The builder with the node of a clause, to which the node before leads. -/
def withClause (prev : Option String) (c : Clause) (b : Builder) : Builder :=
  let b₁ := (b.addNode c.kind.shape c.text (some c.line) (.named "Q")).2
  prev.elim b₁ fun p => b₁.addEdge p (clauseNode b c).id

/-- A clause is drawn as its node, and then styled. -/
theorem drawClause_eq (dialect : Dialect) (prev : Option String) (c : Clause) (b : Builder) :
    drawClause dialect prev c b = ((clauseNode b c).id, (style? dialect c).elim
      (withClause prev c b) ((withClause prev c b).addStyle (clauseNode b c).id)) := by
  rw [drawClause]
  cases prev <;> cases hstyle : (if dialect = .spark then c.kind.sparkStyle? else none) <;>
    simp only [hstyle, style?] <;> rfl

/-- A clause adds its node. -/
@[simp] theorem withClause_nodes (prev : Option String) (c : Clause) (b : Builder) :
    (withClause prev c b).nodes = b.nodes ++ [clauseNode b c] := by
  cases prev with
  | none => rfl
  | some p => exact addEdge_nodes ..

/-- A clause adds no style by itself. -/
@[simp] theorem withClause_styles (prev : Option String) (c : Clause) (b : Builder) :
    (withClause prev c b).styles = b.styles := by
  cases prev with
  | none => rfl
  | some p => exact addEdge_styles ..

/-- The node of a clause has the next number. -/
theorem idNumber_clauseNode (b : Builder) (c : Clause) : idNumber (clauseNode b c).id = b.next :=
  idNumber_idOf IdFamily.proper_query (some c.line) b.next

/-- Drawing a clause after an earlier node is growth, and the new node is there. -/
theorem grows_drawClause (dialect : Dialect) {prev : Option String} (c : Clause) {b : Builder}
    (hs : b.Sound) (hprev : ∀ p ∈ prev, p ∈ b.ids) :
    Grows b (drawClause dialect prev c b).2 ∧
      (drawClause dialect prev c b).1 ∈ (drawClause dialect prev c b).2.ids := by
  have hid : ∀ {b' : Builder}, b'.nodes = b.nodes ++ [clauseNode b c] →
      (clauseNode b c).id ∈ b'.ids := fun h =>
    Builder.mem_ids.mpr ⟨_, h ▸ List.mem_append_right _ (List.mem_singleton_self _), rfl⟩
  have hadd : Grows b (b.addNode c.kind.shape c.text (some c.line) (.named "Q")).2 :=
    Grows.node b c.text (some c.line) (shape_ne_subgraph c.kind) IdFamily.proper_query
  have hgrows : Grows b (withClause prev c b) := by
    cases prev with
    | none => exact hadd
    | some p =>
        have hp := hprev p rfl
        refine hadd.trans (Grows.forward .solid (hadd.mem_ids hp) (hid rfl) ?_
          (by simp [forwardLabels]))
        rw [idNumber_clauseNode]
        exact hs.idNumber_lt hp
  have hmem := hid (withClause_nodes prev c b)
  rw [drawClause_eq]
  cases hstyle : style? dialect c with
  | none => exact ⟨hgrows, hmem⟩
  | some css =>
      have hcss : IsClauseStyle css := by
        rw [style?] at hstyle
        split_ifs at hstyle
        exact isClauseStyle_of_sparkStyle? hstyle
      exact ⟨hgrows.trans (Grows.style hmem hcss), hmem⟩

/-- Drawing clauses one after another is growth. -/
theorem grows_drawAll (dialect : Dialect) {prev : Option String} (clauses : List Clause)
    {b : Builder} (hs : b.Sound) (hprev : ∀ p ∈ prev, p ∈ b.ids) :
    Grows b (drawAll dialect prev clauses b) := by
  induction clauses generalizing prev b with
  | nil => exact Grows.refl b
  | cons c rest ih =>
      obtain ⟨hgrows, hmem⟩ := grows_drawClause dialect c hs hprev
      refine hgrows.trans (ih (hgrows.sound hs) ?_)
      rintro p hp
      obtain rfl := Option.mem_some.mp hp
      exact hmem

end Query

/-- Drawing a query is growth of an empty builder. -/
theorem grows_query (mode : LabelMode) (limit : Option Int) (dialect : Dialect)
    (statements : List (List Clause)) :
    Grows (Builder.empty mode limit) (Query.lower dialect statements (Builder.empty mode limit)) :=
  Query.grows_drawAll dialect _ (sound_empty mode limit) (by simp)

/-- Programs and queries are drawn as well-formed graphs, and no subgraph is left open. -/
theorem wellFormed_lowering (mode : LabelMode) (limit : Option Int) :
    (∀ stmts : List Stmt,
      let b := (lowerProgram stmts (Builder.empty mode limit)).2
      b.build.WellFormed ∧ b.scopes = []) ∧
    ∀ (p : Parsers) (dialect : Dialect) (text : List Char) (loaded : Grammars),
      let statements := ((Query.extract p dialect text).run loaded).value.1
      let b := Query.lower dialect statements (Builder.empty mode limit)
      b.build.WellFormed ∧ b.scopes = [] :=
  ⟨fun stmts => (grows_program mode limit stmts).wellFormed,
    fun _ dialect _ _ => (grows_query mode limit dialect _).wellFormed⟩

end Flowchart
