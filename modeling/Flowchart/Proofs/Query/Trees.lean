import Flowchart.Proofs.Query.Ink
import Flowchart.Proofs.Text.Utf8
import Flowchart.Query.Structure
import Mathlib.Data.List.Forall2

/-!
# Clauses of syntax trees

The clauses of a query text come from its syntax tree only if they lose no kind that the keyword scan
finds: the tree has no error and gives clauses for as many statements, at least one for each, and those
of a statement have all kinds of the scan's (`Covers`). In every other case (`FallsBack`) they are the
scan itself, for all statements. `covers_extract` says so, for whatever the parsers answer.

The clause nodes of a statement may overlap: a container is cut into clauses and may be one. They are
sorted by where they start, and each clause ends at the latest where the next node starts, so the
clauses of a statement come from bytes that follow each other (`exists_ranges`). Places are counted in
characters and cuts are made between bytes, but more bytes never spell fewer characters
(`Text.Utf8.length_decodeReplacing_take_le`).

## Bytes and characters

A tree gives places in bytes, a clause gives its own in characters, and the source is decoded in pieces.
A piece may be cut in the middle of a character, which then is decoded as a replacement on both sides of
the cut. So clauses are compared by the ranges of bytes that they come from: these follow one another,
whatever characters are made of them.

## Main results

* `exists_ranges`: clauses of a tree come from bytes that follow each other.
* `value_structural_eq_some_iff`: when the clauses of a tree are taken.
* `covers_extract`: what the clauses are, whatever the parsers answer.
-/

namespace Flowchart

/-! ### Answers of the parsers -/

namespace Parsers

/-- A grammar can be used, and its parser makes the tree `root` of the text. -/
structure Gives (p : Parsers) (loaded : Grammars) (grammar source : String)
    (root : ConcreteTree) : Prop where
  supported : grammar ∉ loaded.unsupported
  available : grammar ∈ loaded.loaded ∨ p.missing grammar = none
  tree_eq : p.concrete grammar source = .tree root

/-- A grammar can be used if it is loaded, or can be loaded and is not known to be missing. -/
theorem value_load (p : Parsers) {grammar : String} (hgrammar : grammar.isEmpty = false)
    (loaded : Grammars) :
    ((p.load grammar).run loaded).value.1 = true ↔
      grammar ∉ loaded.unsupported ∧ (grammar ∈ loaded.loaded ∨ p.missing grammar = none) := by
  by_cases hunsupported : grammar ∈ loaded.unsupported
  · simp [load, hunsupported]
  · by_cases hloaded : grammar ∈ loaded.loaded
    · simp [load, hunsupported, hloaded, hgrammar]
    · cases hmissing : p.missing grammar <;>
        simp [load, hunsupported, hloaded, hmissing, hgrammar]

/-- There is a tree if the grammar gives one. -/
theorem value_concreteTree?_eq_some_iff {p : Parsers} {grammar source : String}
    (hgrammar : grammar.isEmpty = false) {loaded : Grammars} {root : ConcreteTree} :
    ((p.concreteTree? grammar source).run loaded).value.1 = some root ↔
      p.Gives loaded grammar source root := by
  have hgives : p.Gives loaded grammar source root ↔
      ((p.load grammar).run loaded).value.1 = true ∧ p.concrete grammar source = .tree root := by
    rw [p.value_load hgrammar loaded]
    exact ⟨fun h => ⟨⟨h.supported, h.available⟩, h.tree_eq⟩, fun h => ⟨h.1.1, h.1.2, h.2⟩⟩
  rw [hgives, concreteTree?, StateT.run_bind, Logged.value_bind]
  cases ((p.load grammar).run loaded).value.1 with
  | false => simp
  | true => cases p.concrete grammar source <;> simp

/-- A parser gives at most one tree of a text. -/
theorem Gives.unique {p : Parsers} {loaded : Grammars} {grammar source : String}
    {root root' : ConcreteTree} (h : p.Gives loaded grammar source root)
    (h' : p.Gives loaded grammar source root') : root = root' :=
  Parsed.tree.inj (h.tree_eq.symm.trans h'.tree_eq)

end Parsers

namespace Query

/-! ### Clauses of a statement node -/

/-- The clause is cut out of the source from the byte `range.1` to before the byte `range.2`: from the
first byte of one of the clause nodes `nodes`, and not beyond its last. -/
structure CutFrom (source : List UInt8) (nodes : List (ConcreteTree × ClauseKind)) (c : Clause)
    (range : Nat × Nat) : Prop where
  lt : range.1 < range.2
  le : range.2 ≤ source.length
  text_eq : c.text =
    String.ofList (clauseText (ConcreteTree.slice source range.1 range.2))
  pos_eq : c.pos = (ConcreteTree.slice source 0 range.1).length
  node : ∃ t, (t, c.kind) ∈ nodes ∧ t.start = range.1 ∧ range.2 ≤ t.stop ∧ t.line = c.line

/-- Clauses come one after another: their places do not decrease, and no two share a byte. -/
structure InOrder (source : List UInt8) (nodes : List (ConcreteTree × ClauseKind))
    (clauses : List Clause) : Prop where
  pos_le : clauses.Pairwise (·.pos ≤ ·.pos)
  ranges : ∃ ranges : List (Nat × Nat), List.Forall₂ (CutFrom source nodes) clauses ranges ∧
    ranges.Pairwise fun r r' => r.2 ≤ r'.1

/-- A clause that was cut from some nodes was cut from more. -/
theorem CutFrom.mono {source : List UInt8} {nodes nodes' : List (ConcreteTree × ClauseKind)}
    (hnodes : nodes ⊆ nodes') {c : Clause} {range : Nat × Nat} (h : CutFrom source nodes c range) :
    CutFrom source nodes' c range := by
  obtain ⟨t, ht, hrest⟩ := h.node
  exact ⟨h.lt, h.le, h.text_eq, h.pos_eq, t, hnodes ht, hrest⟩

/-- A part of the bytes from a place on that spells something has bytes, up to the end of the source
at most. -/
theorem exists_slice_eq {source : List UInt8} {start stop : Nat}
    (h : ConcreteTree.slice source start stop ≠ []) : ∃ stop', start < stop' ∧ stop' ≤ stop ∧
      stop' ≤ source.length ∧
      ConcreteTree.slice source start stop = ConcreteTree.slice source start stop' := by
  refine ⟨min stop source.length, ?_, min_le_left _ _, min_le_right _ _, ?_⟩
  · by_contra hle
    refine h ?_
    have hnil : (source.take stop).drop start = [] := by
      rw [List.drop_eq_nil_iff, List.length_take]
      omega
    rw [ConcreteTree.slice, hnil]
    rfl
  · rw [ConcreteTree.slice, ConcreteTree.slice, ← List.take_eq_take_min]

/-- Where the clause of a node ends: with the node, or where the next node starts. -/
def stopBefore (t : ConcreteTree) : List (ConcreteTree × ClauseKind) → Nat
  | [] => t.stop
  | (next, _) :: _ => min t.stop next.start

/-- The first node gives a clause unless its text is blank. -/
theorem clausesOfNodes_cons (source : List UInt8) (t : ConcreteTree) (kind : ClauseKind)
    (rest : List (ConcreteTree × ClauseKind)) :
    clausesOfNodes source ((t, kind) :: rest) =
      if clauseText (ConcreteTree.slice source t.start (stopBefore t rest)) = [] then
        clausesOfNodes source rest
      else
        ⟨kind, String.ofList (clauseText (ConcreteTree.slice source t.start (stopBefore t rest))),
          t.line, (ConcreteTree.slice source 0 t.start).length⟩ :: clausesOfNodes source rest := by
  cases rest with
  | nil => simp only [clausesOfNodes, stopBefore, List.isEmpty_iff]; rfl
  | cons next rest => simp only [clausesOfNodes, stopBefore, List.isEmpty_iff]

/-- A clause ends at the latest where its node does. -/
theorem stopBefore_le (t : ConcreteTree) (rest : List (ConcreteTree × ClauseKind)) :
    stopBefore t rest ≤ t.stop := by
  cases rest with
  | nil => exact le_rfl
  | cons next rest => exact min_le_left _ _

/-- The clauses of sorted nodes come from bytes that follow each other. -/
theorem exists_ranges (source : List UInt8) {nodes : List (ConcreteTree × ClauseKind)}
    (h : nodes.Pairwise (·.1.start ≤ ·.1.start)) :
    ∃ ranges : List (Nat × Nat),
      List.Forall₂ (CutFrom source nodes) (clausesOfNodes source nodes) ranges ∧
      ranges.Pairwise (fun r r' => r.2 ≤ r'.1) ∧
      ∀ r ∈ ranges, r.1 < r.2 ∧ ∃ node ∈ nodes, node.1.start = r.1 := by
  induction nodes with
  | nil => exact ⟨[], .nil, .nil, nofun⟩
  | cons node rest ih =>
      obtain ⟨t, kind⟩ := node
      obtain ⟨hfirst, hrest⟩ := List.pairwise_cons.mp h
      obtain ⟨ranges, hcut, hordered, hstarts⟩ := ih hrest
      have hlater : List.Forall₂ (CutFrom source ((t, kind) :: rest)) (clausesOfNodes source rest)
          ranges := hcut.imp fun _ _ hc => hc.mono (List.subset_cons_self _ _)
      have hstarts' : ∀ r ∈ ranges, r.1 < r.2 ∧ ∃ node ∈ (t, kind) :: rest, node.1.start = r.1 := by
        intro r hr
        obtain ⟨hlt, node, hnode, hstart⟩ := hstarts r hr
        exact ⟨hlt, node, List.mem_cons_of_mem _ hnode, hstart⟩
      rw [clausesOfNodes_cons]
      split_ifs with htext
      · exact ⟨ranges, hlater, hordered, hstarts'⟩
      · obtain ⟨stop, hlt, hstop, hle, hslice⟩ :=
          exists_slice_eq fun hnil => htext (by rw [hnil]; rfl)
        refine ⟨(t.start, stop) :: ranges, .cons ?_ hlater, .cons ?_ hordered, ?_⟩
        · exact ⟨hlt, hle, by rw [hslice], rfl, t, List.mem_cons_self, rfl,
            hstop.trans (stopBefore_le t rest), rfl⟩
        · -- this clause ends where the next node starts, and no later node starts before that
          intro r hr
          obtain ⟨-, node, hnode, hstart⟩ := hstarts r hr
          rw [← hstart]
          cases rest with
          | nil => exact absurd hnode List.not_mem_nil
          | cons next rest =>
              refine (hstop.trans (min_le_right _ _)).trans ?_
              rcases List.mem_cons.mp hnode with rfl | hnode
              · exact le_rfl
              · exact (List.pairwise_cons.mp hrest).1 node hnode
        · rintro r hr
          rcases List.mem_cons.mp hr with rfl | hr
          · exact ⟨hlt, (t, kind), List.mem_cons_self, rfl⟩
          · exact hstarts' r hr

/-- A join inside of a source ends the clause of the source. -/
example :
    let source : ConcreteTree := ⟨"from", 9, 22, 0, true, false, false, none, []⟩
    let join : ConcreteTree := ⟨"join", 16, 22, 0, true, false, false, none, []⟩
    clausesOfNodes (Text.Utf8.encode "SELECT a FROM t JOIN u".toList)
        [(source, .source), (join, .join)] =
      [⟨.source, "FROM t", 1, 9⟩, ⟨.join, "JOIN u", 1, 16⟩] := by
  decide +kernel

/-- The clauses of a statement node come one after another. -/
theorem inOrder_clausesOfStatement (source : List UInt8) (t : ConcreteTree) :
    InOrder source (collect t) (clausesOfStatement source t) := by
  have hsorted : ((collect t).mergeSort fun a b => a.1.start ≤ b.1.start).Pairwise
      (·.1.start ≤ ·.1.start) := by
    refine (List.pairwise_mergeSort ?_ ?_ (collect t)).imp fun h => of_decide_eq_true h
    · intro a b c hab hbc
      exact decide_eq_true ((of_decide_eq_true hab).trans (of_decide_eq_true hbc))
    · intro a b
      simpa using Nat.le_total a.1.start b.1.start
  obtain ⟨ranges, hcut, hordered, hstarts⟩ := exists_ranges source hsorted
  have hcut' : List.Forall₂ (CutFrom source (collect t)) (clausesOfStatement source t) ranges :=
    hcut.imp fun _ _ hc => hc.mono (List.mergeSort_perm _ _).subset
  refine ⟨?_, ranges, hcut', hordered⟩
  -- the place of a clause is the number of characters before its bytes
  have hpos : (clausesOfStatement source t).map (·.pos) =
      ranges.map fun r => (ConcreteTree.slice source 0 r.1).length := by
    rw [← List.forall₂_eq_eq_eq, List.forall₂_map_left_iff, List.forall₂_map_right_iff]
    exact hcut'.imp fun _ _ hc => hc.pos_eq
  have hle : (ranges.map fun r => (ConcreteTree.slice source 0 r.1).length).Pairwise (· ≤ ·) := by
    refine List.pairwise_map.mpr (List.Pairwise.imp_of_mem (fun {r r'} hr _ hle => ?_) hordered)
    exact Text.Utf8.length_decodeReplacing_take_le source ((hstarts r hr).1.le.trans hle)
  exact List.pairwise_map.mp (hpos ▸ hle)

/-! ### Trees that are trusted -/

/-- The statement nodes of a tree; the whole tree if it has none. -/
def statementNodes (root : ConcreteTree) : List ConcreteTree :=
  match root.namedChildren.filter fun c => c.kind == "statement" with
  | [] => [root]
  | stmts => stmts

/-- The clauses of every statement of a tree. -/
def treeClauses (sql : List Char) (root : ConcreteTree) : List (List Clause) :=
  (statementNodes root).map (clausesOfStatement (Text.Utf8.encode sql))

/-- A tree gives clauses if it has no error and none of its statements is without one. -/
theorem ofTree?_eq_some_iff {sql : List Char} {root : ConcreteTree} {found : List (List Clause)} :
    ofTree? sql root = some found ↔
      root.hasError = false ∧ [] ∉ treeClauses sql root ∧ found = treeClauses sql root := by
  have heq : ofTree? sql root = if root.hasError then none
      else if (treeClauses sql root).any (·.isEmpty) then none else some (treeClauses sql root) :=
    rfl
  have hany : (treeClauses sql root).any (·.isEmpty) = true ↔ [] ∈ treeClauses sql root := by
    simp [List.any_eq_true]
  rw [heq]
  split_ifs with herror hempty
  · simp [herror]
  · simp [hany.mp hempty]
  · rw [hany] at hempty
    simp [herror, hempty, eq_comm]

/-- The clauses `found` of a statement are some, and have every kind that the clauses `scanned`
have. -/
structure Covers (found scanned : List Clause) : Prop where
  ne_nil : found ≠ []
  kinds : ∀ s ∈ scanned, ∃ c ∈ found, c.kind = s.kind

/-- The clauses of a query text are those of the scan: in Spark, where the grammar gives no tree or
one with an error, where a statement of the tree has no clause, where the numbers of statements
differ, and where a statement of the tree has no clause of a kind that the scan finds in it. -/
inductive FallsBack (p : Parsers) (dialect : Dialect) (text : List Char) (loaded : Grammars) : Prop
  | spark : dialect = .spark → FallsBack p dialect text loaded
  | noTree :
      (∀ root, ¬p.Gives loaded "sql" (String.ofList (blankComments text)) root) →
      FallsBack p dialect text loaded
  | error {root : ConcreteTree} :
      p.Gives loaded "sql" (String.ofList (blankComments text)) root → root.hasError = true →
      FallsBack p dialect text loaded
  | noClause {root : ConcreteTree} :
      p.Gives loaded "sql" (String.ofList (blankComments text)) root →
      [] ∈ treeClauses (blankComments text) root → FallsBack p dialect text loaded
  | count {root : ConcreteTree} :
      p.Gives loaded "sql" (String.ofList (blankComments text)) root →
      (treeClauses (blankComments text) root).length ≠ (scan dialect text).length →
      FallsBack p dialect text loaded
  | lostKind {root : ConcreteTree} {found scanned : List Clause} {s : Clause} :
      p.Gives loaded "sql" (String.ofList (blankComments text)) root →
      (found, scanned) ∈ (treeClauses (blankComments text) root).zip (scan dialect text) →
      s ∈ scanned → (∀ c ∈ found, c.kind ≠ s.kind) → FallsBack p dialect text loaded

/-- A scan gives clauses for every statement. -/
theorem ne_nil_of_mem_scan {dialect : Dialect} {text : List Char} {clauses : List Clause}
    (h : clauses ∈ scan dialect text) : clauses ≠ [] := by
  obtain ⟨⟨offset, stmt⟩, hstmt, rfl⟩ := List.mem_map.mp h
  obtain ⟨c, hc, hblank⟩ : ∃ c ∈ stmt, Text.isBlank c = false := by
    simpa [Text.allBlank] using (List.mem_filter.mp hstmt).2
  refine (tells_scanStatement dialect (blankComments text) offset stmt).ne_nil ?_
  exact List.ne_nil_of_mem (List.mem_filter.mpr ⟨hc, by rw [hblank]; rfl⟩)

/-- Clauses cover others if each kind of these is among them. -/
theorem covers_iff {found scanned : List Clause} :
    covers found scanned = true ↔ ∀ s ∈ scanned, ∃ c ∈ found, c.kind = s.kind := by
  simp [covers]

/-- The clauses of a query text are those of the tree that the parsers give, or those of the scan. -/
theorem value_extract (p : Parsers) (dialect : Dialect) (text : List Char) (loaded : Grammars) :
    ((extract p dialect text).run loaded).value.1 =
      if dialect = .spark then scan dialect text
      else
        match ((structural p (blankComments text)).run loaded).value.1 with
        | none => scan dialect text
        | some parsed =>
          if parsed.length = (scan dialect text).length ∧
            (parsed.zip (scan dialect text)).all (fun (a, b) => covers a b) then parsed
          else scan dialect text := by
  rw [extract]
  split_ifs
  · rfl
  · simp only [StateT.run_bind, Logged.value_bind]
    cases ((structural p (blankComments text)).run loaded).value.1 with
    | none => simp
    | some parsed =>
        by_cases hcount : parsed.length = (scan dialect text).length
        · by_cases hcovers : (parsed.zip (scan dialect text)).all fun (a, b) => covers a b
          · simp [hcount, hcovers]
          · simp [hcount, hcovers]
        · simp [hcount]

/-- The clauses of a tree come about if the grammar gives the tree, without an error, and every
statement of it has one. -/
theorem value_structural_eq_some_iff {p : Parsers} {sql : List Char} {loaded : Grammars}
    {found : List (List Clause)} :
    ((structural p sql).run loaded).value.1 = some found ↔
      ∃ root, p.Gives loaded "sql" (String.ofList sql) root ∧ root.hasError = false ∧
        [] ∉ treeClauses sql root ∧ found = treeClauses sql root := by
  have heq : ((structural p sql).run loaded).value.1 =
      ((p.concreteTree? "sql" (String.ofList sql)).run loaded).value.1.bind (ofTree? sql) := by
    simp [structural]
  rw [heq, Option.bind_eq_some_iff]
  simp only [Parsers.value_concreteTree?_eq_some_iff (show "sql".isEmpty = false from rfl),
    ofTree?_eq_some_iff]

section Extraction

variable {p : Parsers} {dialect : Dialect} {text : List Char} {loaded : Grammars}

/-- In every other case the clauses are those of the scan. -/
theorem FallsBack.value_extract_eq (h : FallsBack p dialect text loaded) :
    ((extract p dialect text).run loaded).value.1 = scan dialect text := by
  rw [value_extract]
  split_ifs with hspark
  · rfl
  · cases hfound : ((structural p (blankComments text)).run loaded).value.1 with
    | none => rfl
    | some parsed =>
        obtain ⟨root, hgives, herror, hclauses, rfl⟩ := value_structural_eq_some_iff.mp hfound
        refine if_neg fun hkept => ?_
        cases h with
        | spark heq => exact hspark heq
        | noTree hno => exact hno root hgives
        | error hgives' herror' =>
            rw [hgives.unique hgives', herror'] at herror
            exact Bool.noConfusion herror
        | noClause hgives' hnone => exact hclauses (hgives.unique hgives' ▸ hnone)
        | count hgives' hne => exact hne (hgives.unique hgives' ▸ hkept.1)
        | lostKind hgives' hmem hs hlost =>
            have hcovers := List.all_eq_true.mp hkept.2 _ (hgives.unique hgives' ▸ hmem)
            obtain ⟨c, hc, hkind⟩ := covers_iff.mp hcovers _ hs
            exact hlost c hc hkind

/-- A tree that is not refused covers the scan, and its clauses are taken. -/
theorem exists_tree_of_not_fallsBack (h : ¬FallsBack p dialect text loaded) :
    ∃ root, p.Gives loaded "sql" (String.ofList (blankComments text)) root ∧
      ((extract p dialect text).run loaded).value.1 = treeClauses (blankComments text) root ∧
      List.Forall₂ Covers (treeClauses (blankComments text) root) (scan dialect text) := by
  have hspark : dialect ≠ .spark := fun heq => h (.spark heq)
  obtain ⟨root, hgives⟩ :
      ∃ root, p.Gives loaded "sql" (String.ofList (blankComments text)) root := by
    by_contra hno
    exact h (.noTree (not_exists.mp hno))
  have herror : root.hasError = false := Bool.eq_false_iff.mpr fun herror => h (.error hgives herror)
  have hclauses : [] ∉ treeClauses (blankComments text) root := fun hnone => h (.noClause hgives hnone)
  have hcount : (treeClauses (blankComments text) root).length = (scan dialect text).length := by
    by_contra hne
    exact h (.count hgives hne)
  have hkinds : ∀ {found scanned : List Clause},
      (found, scanned) ∈ (treeClauses (blankComments text) root).zip (scan dialect text) →
      ∀ s ∈ scanned, ∃ c ∈ found, c.kind = s.kind := by
    intro found scanned hmem s hs
    by_contra hlost
    exact h (.lostKind hgives hmem hs fun c hc hkind => hlost ⟨c, hc, hkind⟩)
  refine ⟨root, hgives, ?_, List.forall₂_iff_zip.mpr ⟨hcount, fun hmem => ⟨?_, hkinds hmem⟩⟩⟩
  · have hfound : ((structural p (blankComments text)).run loaded).value.1 =
        some (treeClauses (blankComments text) root) :=
      value_structural_eq_some_iff.mpr ⟨root, hgives, herror, hclauses, rfl⟩
    rw [value_extract, if_neg hspark, hfound]
    exact if_pos ⟨hcount, List.all_eq_true.mpr fun _ hmem => covers_iff.mpr (hkinds hmem)⟩
  · rintro rfl
    exact hclauses (List.of_mem_zip hmem).1

end Extraction

/-- The clauses of a query text: for as many statements as the scan finds, at least one for each, and
with every kind that the scan finds in the statement. They are the scan wherever the tree is not to be
trusted. Elsewhere they are those of the tree, and the clauses of each statement have places that do not
decrease and come from parts of the source that share no byte. -/
theorem covers_extract (p : Parsers) (dialect : Dialect) (text : List Char) (loaded : Grammars) :
    let sql := blankComments text
    let found := ((extract p dialect text).run loaded).value.1
    List.Forall₂ Covers found (scan dialect text) ∧
      (FallsBack p dialect text loaded → found = scan dialect text) ∧
      (¬FallsBack p dialect text loaded →
        ∃ root, p.Gives loaded "sql" (String.ofList sql) root ∧ found = treeClauses sql root ∧
          List.Forall₂ (fun t => InOrder (Text.Utf8.encode sql) (collect t))
            (statementNodes root) found) := by
  intro sql found
  refine ⟨?_, FallsBack.value_extract_eq, fun h => ?_⟩
  · by_cases h : FallsBack p dialect text loaded
    · rw [show found = scan dialect text from h.value_extract_eq]
      exact List.forall₂_same.mpr fun clauses hclauses =>
        ⟨ne_nil_of_mem_scan hclauses, fun s hs => ⟨s, hs, rfl⟩⟩
    · obtain ⟨root, -, hfound, hcovers⟩ := exists_tree_of_not_fallsBack h
      rw [show found = treeClauses sql root from hfound]
      exact hcovers
  · obtain ⟨root, hgives, hfound, -⟩ := exists_tree_of_not_fallsBack h
    refine ⟨root, hgives, hfound, ?_⟩
    rw [show found = treeClauses sql root from hfound, treeClauses, List.forall₂_map_right_iff]
    exact List.forall₂_same.mpr fun t _ => inOrder_clausesOfStatement _ t

end Query

end Flowchart
