import Flowchart.Proofs.Decisions
import Flowchart.Proofs.Drawing.Opening
import Flowchart.Proofs.Source.Cases

/-!
# Stacked labels

A case of a switch is drawn as a decision and a block, and the Yes exit of the decision leads to the
first node on the flow of the block, or behind the switch if the block has none (`Visit.Enters`,
`Visits.exists_decision`).

Labels without statements of their own share those of the label after them. A grammar that keeps
such labels in one group gives them one case, for all of their values, and so one decision
(`Reading.stacked_program`). In a grammar that makes a group of each label the groups before the
last one have no statements, and nothing looks at the next group: their Yes exits lead behind the
switch (`Reading.stacked_javascript`).

## How labels are laid out

Grammars write the labels of a group in two ways. Either the group has the marks between labels and
statements among its own parts, and the labels are its text up to the last of them
(`Reading.Labelled`), or each label is a node of its own that ends with its mark
(`Reading.NodeLabelled`). The values are the same in both (`Reading.HasLabels.caseValues_eq`).

## The default among the labels

The word for the default case is no value, and among stacked labels it is not told apart well. In front
of the others it makes the whole group a default case, whose values have no decision
(`Reading.isDefault_of_defaultFirst`). That is no loss for what the group does, but the values are not
drawn. Behind another label it is taken for a part of the value before it: in `case 1: default:` the
value reads `1: default`, and the group is no default case. A label with such a value is a label like
any other for the results here, so that the second form is among those of `Reading.stacked_program`.

## Main results

* `Visits.exists_decision`: each case that is no default has its decision, in every program.
* `Reading.caseOf_decision`: the same for the group that the case was read from, however it is laid out.
* `Reading.stacked_program`: the decision of a group with labels is for all of their values.
* `Reading.stacked_javascript`: labels in groups of their own do not share their statements.
-/

namespace Flowchart

open Builder

/-! ### The decision of a case -/

/-- The decision of a case, and the block that is drawn when it says yes. -/
def Link.OfCase (l : Link) (c : Case Stmt) : Prop :=
  ∃ es b, l = ⟨b.freshId c.line, yesBlock es b c.label c.line c.body⟩

/-- Every case that is no default has its decision. -/
theorem exists_link_of_case {cases : List (Case Stmt)} {c : Case Stmt} (hc : c ∈ cases)
    (hdefault : c.isDefault = false) (default : List Stmt) (es : List Exit) (b : Builder) :
    ∃ l ∈ (caseChain default cases es b).links, l.OfCase c := by
  induction cases generalizing es b with
  | nil => exact absurd hc List.not_mem_nil
  | cons c' rest ih =>
      obtain ⟨label, line, isDefault, body⟩ := c'
      cases isDefault with
      | true =>
          refine ih ((List.mem_cons.mp hc).resolve_left ?_) es b
          rintro rfl
          exact Bool.noConfusion hdefault
      | false =>
          rcases List.mem_cons.mp hc with rfl | hc
          · exact ⟨_, List.mem_cons_self, es, b, rfl⟩
          · obtain ⟨l, hl, hof⟩ :=
              ih hc [Exit.no (b.freshId line)] (yesBlock es b label line body).after
            exact ⟨l, List.mem_cons_of_mem _ hl, hof⟩

/-- A block without statements has no node. -/
theorem Block.first?_of_stmts_nil (body : Block) (h : body.stmts = []) : body.first? = none := by
  obtain ⟨stmts, es, b⟩ := body
  obtain rfl : stmts = [] := h
  exact congrArg (List.find? b.onFlow) (added_self b)

namespace Visit

/-- The node `y` is where `body` is reached: its first node on the flow, or, if it has none, the
merge point after the statement. -/
def Enters (v : Visit) (body : Block) (y : Node) : Prop :=
  body.first? = some y ∨ body.first? = none ∧ y.shape = .merge ∧ v.ends = [Exit.plain y.id]

variable {v : Visit} {ch : Chain} {l : Link} {c : Case Stmt}

/-- The blocks behind the decisions of a chain are blocks of its statement. -/
theorem block_mem_blocks (hch : v.chain? = some ch) (hl : l ∈ ch.links) : l.block ∈ v.blocks := by
  rw [(Visit.close_chain hch).2.2]
  exact List.mem_append_left _ (List.mem_map_of_mem hl)

/-- The exits of a chain with a decision lead to the merge point after it. -/
theorem exists_merge (hch : v.chain? = some ch) (hs : v.before.Sound)
    (hes : ∀ x ∈ v.exits, x.Pending v.before) (hlinks : ch.links ≠ []) {x : Exit}
    (hx : x ∈ ch.ends) : ∃ m ∈ v.after.nodes, m.shape = .merge ∧ v.ends = [Exit.plain m.id] ∧
      x.edgeTo v.after m.id ∈ v.after.edges := by
  obtain ⟨hclose, hlaid, -⟩ := Visit.close_chain hch
  have hne : ch.ends ≠ [] := List.ne_nil_of_mem hx
  have hfrag := hlaid.fragment hs hes
  have hs' := hfrag.grows.sound hs
  rw [(Chain.close_eq hlinks).1, join_of_ne_nil _ hne] at hclose
  obtain ⟨hends, hafter⟩ := Prod.mk.inj hclose
  have hmerge := Adds.merge ch.last.after
  have hkeep : Extends ch.last.after v.after := by
    have hjoin := (Fragment.join hs' hfrag.pending).grows.extends
    rw [join_of_ne_nil _ hne] at hjoin
    exact hafter ▸ hjoin
  refine ⟨ch.last.after.mergeNode, ?_, rfl, hends, ?_⟩
  · rw [hafter, linkAll_nodes]
    exact hmerge.mem_nodes
  · rw [Exit.edgeTo, hkeep.edgeLabel_eq, hafter]
    exact (hmerge.mem_linkAll_edges hs' hfrag.pending).mpr (Or.inr ⟨x, hx, rfl⟩)

/-- The Yes exit of a case leads to where its block is reached. -/
theorem exists_enters (hch : v.chain? = some ch) (hl : l ∈ ch.links) (hof : l.OfCase c)
    (hs : v.before.Sound) (hes : ∀ x ∈ v.exits, x.Pending v.before) :
    ∃ y ∈ v.after.nodes, v.Enters l.block y ∧
      (Exit.yes l.node).edgeTo v.after y.id ∈ v.after.edges := by
  have hp := (v.drawn hs hes).placed _ (block_mem_blocks hch hl)
  have hexits : l.block.exits = [Exit.yes l.node] := by
    obtain ⟨es, b, rfl⟩ := hof
    rfl
  rcases l.block.opens hp.sound hp.pending with ⟨hpassed, hnone⟩ | ⟨n, hfirst, hlinked⟩
  · -- the block hands its exit on, and the switch collects it
    have hyes : Exit.yes l.node ∈ ch.ends := by
      refine List.mem_append_left _ (List.mem_flatMap.mpr ⟨l, hl, ?_⟩)
      rw [hpassed.ends_eq, hexits]
      exact List.mem_singleton_self _
    obtain ⟨m, hm, hshape, hends, hedge⟩ :=
      exists_merge hch hs hes (List.ne_nil_of_mem hl) hyes
    exact ⟨m, hm, Or.inr ⟨hnone, hshape, hends⟩, hedge⟩
  · refine ⟨n, hp.framed.keeps.nodes_prefix.subset (mem_nodes_of_mem_added
      (mem_added_of_first? hfirst)), Or.inl hfirst, ?_⟩
    rw [Exit.edgeTo, hp.extends.edgeLabel_eq]
    exact hp.framed.keeps.edges_prefix.subset
      (hlinked.linked (Exit.yes l.node) (hexits ▸ List.mem_singleton_self _))

end Visit

/-- In a program, every case of a switch that is no default has a decision with its label, and the
Yes exit of the decision leads to where the statements of the case are reached. -/
theorem Visits.exists_decision {mode : LabelMode} {limit : Int} {stmts : List Stmt} {v : Visit}
    (hv : Visits (Block.program mode (some limit) stmts) v) {line : Option Int}
    {text subject : String} {cases : List (Case Stmt)}
    (hstmt : v.stmt = .switch line text subject cases) {c : Case Stmt} (hc : c ∈ cases)
    (hdefault : c.isDefault = false) :
    let g := (lowerProgram stmts (Builder.empty mode (some limit))).2.build
    ∃ d ∈ g.nodes, d.shape = .decision ∧ d.raw = c.label ∧ d.line = c.line ∧
      ∃ body ∈ v.blocks, body.stmts = c.body ∧ body.exits = [Exit.yes d.id] ∧
        ∃ y ∈ g.nodes, v.Enters body y ∧
          ∀ t, ⟨d.id, t, some (Label.sanitize mode limit "Yes"), .solid⟩ ∈ g.edges ↔ t = y.id := by
  intro g
  set b := (lowerProgram stmts (Builder.empty mode (some limit))).2
  have hin := hv.within_program
  have hkeep : Extends v.after b := hin.framed.keeps
  have hch : v.chain? = some (caseChain (defaultBody cases) cases v.exits v.before) := by
    rw [Visit.chain?, hstmt]
  obtain ⟨l, hl, hof⟩ := exists_link_of_case hc hdefault (defaultBody cases) v.exits v.before
  obtain ⟨y, hy, henters, hedge⟩ := Visit.exists_enters hch hl hof hin.sound hin.pending
  have hblock := Visit.block_mem_blocks hch hl
  have hplaced := (v.drawn hin.sound hin.pending).placed _ hblock
  have hdecided := Visit.decided hch hin.sound hin.pending hin.entered.limit_eq l.node
    (List.mem_map_of_mem hl)
  have hyes : ∀ t, (⟨l.node, t, some (Label.sanitize mode limit "Yes"), .solid⟩ : Edge) =
      (Exit.yes l.node).edgeTo v.after t := by
    intro t
    have hgrows : Grows (Builder.empty mode (some limit)) b := grows_program mode (some limit) stmts
    have hlabel : v.after.edgeLabel (some "Yes") = some (Label.sanitize mode limit "Yes") := by
      rw [← hkeep.edgeLabel_eq, edgeLabel_word hgrows.context_eq.2.1 (by decide),
        hgrows.context_eq.1]
      rfl
    rw [Exit.edgeTo, ← hlabel]
  obtain ⟨z, -, honly⟩ : ∃ z, LeadsOn v.after z v.ends ∧
      ∀ u, (Exit.yes l.node).edgeTo v.after u ∈ v.after.edges ↔ u = z := by
    refine hdecided.answers.yes.taken fun hmem => ?_
    rw [hdecided.ends_eq, Option.mem_toList, Option.map_eq_some_iff] at hmem
    obtain ⟨m, -, heq⟩ := hmem
    exact absurd heq (by simp)
  obtain ⟨es, b₀, rfl⟩ := hof
  refine ⟨b₀.freshNode .decision c.label c.line, ?_, rfl, rfl, rfl, _, hblock, rfl, rfl, y,
    hkeep.nodes_prefix.subset hy, henters, fun t => ?_⟩
  · refine hkeep.nodes_prefix.subset (hplaced.extends.nodes_prefix.subset ?_)
    rw [yesBlock, place, linkAll_nodes]
    exact (Adds.node b₀ .decision c.label c.line (by simp)).mem_nodes
  · rw [(honly y.id).mp hedge, ← honly, ← hyes]
    exact ⟨fun h => hdecided.mem_edges hin h rfl, fun h => hkeep.edges_prefix.subset h⟩

/-! ### Groups -/

namespace Reading

variable {r : Reading} {g : ConcreteTree} {labels : List CaseLabel}

/-- A group with labels in nodes of their own: each of them ends with a colon, and no mark stands in the
group beside them. -/
structure NodeLabelled (r : Reading) (g : ConcreteTree) (labels : List CaseLabel) : Prop where
  not_isCaseMark : ∀ c ∈ g.children, isCaseMark c = false
  spaced : ∀ l ∈ labels, l.IsSpaced
  texts : ((g.children.filter (·.isNamed)).filter isLabel).map r.text =
    labels.map fun l => l.text ++ [':']

/-- A group with labels, in either layout. -/
inductive HasLabels (r : Reading) (g : ConcreteTree) (labels : List CaseLabel) : Prop
  | inText {head stmts : List ConcreteTree} {mark : ConcreteTree}
      (h : r.Labelled g head mark stmts labels)
  | inNodes (h : r.NodeLabelled g labels)

/-- Labels with colons after them and blanks between them are labels with colons between them, the
blanks before each label, and a colon at the end. -/
theorem intercalate_closed (l : CaseLabel) (labels : List CaseLabel) :
    [' '].intercalate ((l :: labels).map fun l => l.text ++ [':']) =
      labelsText (l :: labels.map fun l => { l with before := ' ' :: l.before }) ++ [':'] := by
  induction labels generalizing l with
  | nil => simp [labelsText]
  | cons l' labels ih =>
      have hfirst (more : List CaseLabel) (front : List Char) :
          labelsText ({ l' with before := front ++ l'.before } :: more) =
            front ++ labelsText (l' :: more) := by
        cases more <;> simp [labelsText, CaseLabel.text]
      have hcons (more : List CaseLabel) (next : CaseLabel) :
          labelsText (l :: next :: more) = l.text ++ ':' :: labelsText (next :: more) := by
        simp [labelsText]
      rw [List.map_cons, List.intercalate_cons_of_ne_nil (by simp), ih, List.map_cons, hcons]
      have hspaced := hfirst (labels.map fun l => { l with before := ' ' :: l.before }) [' ']
      simp only [List.singleton_append] at hspaced
      rw [hspaced]
      simp

/-- The values of a group with labels are those that are read in the value of each of them. -/
theorem NodeLabelled.caseValues_eq (h : r.NodeLabelled g labels) :
    caseValues (r.caseParts g).1 = labels.flatMap (caseValues ·.value) := by
  have hparts : (r.caseParts g).1 = [' '].intercalate (labels.map fun l => l.text ++ [':']) := by
    rw [caseParts, afterMark?_eq_none h.not_isCaseMark, ← h.texts]
    dsimp only
    cases g.childrenIn "body" <;> rfl
  rw [hparts]
  cases hlabels : labels with
  | nil => decide
  | cons l rest =>
      rw [intercalate_closed, caseValues_labelsText _ [':'] (.inr rfl), List.flatMap_cons,
        List.flatMap_cons, List.flatMap_map]
      have hspaced := hlabels ▸ h.spaced
      refine List.forall_mem_cons.mpr ⟨hspaced l List.mem_cons_self, fun l' hl' => ?_⟩
      obtain ⟨l'', hl'', rfl⟩ := List.mem_map.mp hl'
      obtain ⟨hbefore, hlead, htrail, hapart, hvalue⟩ := hspaced l'' (List.mem_cons_of_mem l hl'')
      have hblank : Text.allBlank (' ' :: l''.before) = true := by
        rw [Text.allBlank, List.all_cons, ← Text.allBlank, hbefore]
        decide
      exact ⟨hblank, hlead, htrail, hapart, hvalue⟩

/-- The values of a group are those that are read in the values of its labels. -/
theorem HasLabels.caseValues_eq (h : r.HasLabels g labels) :
    caseValues (r.caseParts g).1 = labels.flatMap (caseValues ·.value) := by
  cases h with
  | inText h => exact h.caseValues_eq
  | inNodes h => exact h.caseValues_eq

/-- Labels have blanks only where they may have some. -/
theorem HasLabels.spaced (h : r.HasLabels g labels) : ∀ l ∈ labels, l.IsSpaced := by
  cases h with
  | inText h => exact h.spaced
  | inNodes h => exact h.spaced

/-- Labels that are read as they are written. -/
def ReadPlainly (labels : List CaseLabel) : Prop :=
  ∀ l ∈ labels, Text.hasWord "case".toList l.value = false ∧ isDefaultValue l.value = false

/-- A group of labels is one case for all of their values. -/
theorem HasLabels.switchCase_value (h : r.HasLabels g labels)
    (hkind : g.kind ≠ "switch_default") (hplain : ReadPlainly labels) (subject : List Char) :
    (r.switchCase subject g).value = ⟨caseText subject (labels.map (·.value)), g.line, false,
      (r.blocks (r.caseNodes g)).value⟩ := by
  have hvalues : caseValues (r.caseParts g).1 = labels.map (·.value) := by
    rw [h.caseValues_eq, ← List.flatMap_singleton' (labels.map (·.value)), List.flatMap_map]
    refine List.flatMap_congr fun l hl => ?_
    exact caseValues_of_not_hasWord (h.spaced l hl).value (hplain l hl).1
  have hnone : ∀ v ∈ labels.map (·.value), isDefaultValue v = false := by
    intro v hv
    obtain ⟨l, hl, rfl⟩ := List.mem_map.mp hv
    exact (hplain l hl).2
  have hany : (labels.map (·.value)).any isDefaultValue = false :=
    List.any_eq_false.mpr fun v hv => Bool.eq_false_iff.mp (hnone v hv)
  rw [Reading.switchCase_value, hvalues, hany, beq_eq_false_iff_ne.mpr hkind,
    List.filter_eq_self.mpr fun v hv => by rw [hnone v hv]; rfl]
  rfl

/-- The label of a case that has values. -/
theorem caseText_of_ne_nil (subject : List Char) {values : List (List Char)} (h : values ≠ []) :
    caseText subject values =
      String.ofList (subject ++ " is ".toList ++ " or ".toList.intercalate values) :=
  if_neg fun hempty => h (List.isEmpty_iff.mp hempty)

/-- In a program, a group that is no default case has one decision, with the label of its case, and its
Yes exit leads to where the statements of the group are reached. The block with these statements is the
one that is drawn from this exit, and only from it. A group without statements does not go on with those
of the next one: the exit leads behind the switch. -/
theorem caseOf_decision {mode : LabelMode} {limit : Int} {program : List Stmt} {v : Visit}
    (hv : Visits (Block.program mode (some limit) program) v) {t : ConcreteTree}
    (ht : v.stmt = (r.switch t).value) (hg : g ∈ r.groups t)
    (hdefault : (r.switchCase (r.subject t) g).value.isDefault = false) :
    let graph := (lowerProgram program (Builder.empty mode (some limit))).2.build
    ∃ d ∈ graph.nodes, d.shape = .decision ∧ d.line = some g.line ∧
      d.raw = (r.switchCase (r.subject t) g).value.label ∧
      ∃ body ∈ v.blocks, body.stmts = (r.blocks (r.caseNodes g)).value ∧
        body.exits = [Exit.yes d.id] ∧
        ∃ y ∈ graph.nodes, v.Enters body y ∧
          (∀ u, ⟨d.id, u, some (Label.sanitize mode limit "Yes"), .solid⟩ ∈ graph.edges ↔
            u = y.id) ∧
          (r.caseNodes g = [] → y.shape = .merge ∧ v.ends = [Exit.plain y.id]) := by
  intro graph
  rw [switch_value] at ht
  have hc := List.mem_map_of_mem (f := fun g => (r.switchCase (r.subject t) g).value) hg
  obtain ⟨d, hd, hshape, hraw, hline, body, hbody, hstmts, hexits, y, hy, henters, hedge⟩ :=
    hv.exists_decision ht hc hdefault
  refine ⟨d, hd, hshape, hline, hraw, body, hbody, hstmts, hexits, y, hy, henters, hedge,
    fun hnil => ?_⟩
  rw [Reading.switchCase_value, hnil] at hstmts
  rcases henters with hfirst | ⟨-, hmerge⟩
  · rw [body.first?_of_stmts_nil hstmts] at hfirst
    exact absurd hfirst nofun
  · exact hmerge

/-- In a program, the labels of a group have one decision, for their values with the word `or`
between them, and its Yes exit leads to where the statements of the group are reached: to the first node
of the block that is drawn from this exit. A group without statements does not go on with those of the
next one: the exit leads behind the switch.

The labels are laid out in either way, and each is read as it is written. Among them may be one with the
default case behind it, as a part of its value; a group with the default case in front of its labels is
a default case and has no decision (`isDefault_of_defaultFirst`). -/
theorem stacked_program {mode : LabelMode} {limit : Int} {program : List Stmt} {v : Visit}
    (hv : Visits (Block.program mode (some limit) program) v) {t : ConcreteTree}
    (ht : v.stmt = (r.switch t).value) (hg : g ∈ r.groups t) (hkind : g.kind ≠ "switch_default")
    (hlabels : r.HasLabels g labels) (hne : labels ≠ []) (hplain : ReadPlainly labels) :
    let graph := (lowerProgram program (Builder.empty mode (some limit))).2.build
    ∃ d ∈ graph.nodes, d.shape = .decision ∧ d.line = some g.line ∧
      d.raw = String.ofList (r.subject t ++ " is ".toList ++
        " or ".toList.intercalate (labels.map (·.value))) ∧
      ∃ body ∈ v.blocks, body.stmts = (r.blocks (r.caseNodes g)).value ∧
        body.exits = [Exit.yes d.id] ∧
        ∃ y ∈ graph.nodes, v.Enters body y ∧
          (∀ u, ⟨d.id, u, some (Label.sanitize mode limit "Yes"), .solid⟩ ∈ graph.edges ↔
            u = y.id) ∧
          (r.caseNodes g = [] → y.shape = .merge ∧ v.ends = [Exit.plain y.id]) := by
  intro graph
  have hcase := hlabels.switchCase_value hkind hplain (r.subject t)
  obtain ⟨d, hd, hshape, hline, hraw, hbody⟩ := caseOf_decision hv ht hg (by rw [hcase])
  refine ⟨d, hd, hshape, hline, ?_, hbody⟩
  rw [hraw, hcase, caseText_of_ne_nil _ (by simpa using hne)]

/-- The word for the default case in front of labels is read as a value of its own. -/
theorem caseValues_defaultFirst {blanks : List Char} (hblanks : Text.allBlank blanks = true)
    (hspaced : ∀ l ∈ labels, l.IsSpaced) (hne : labels ≠ []) :
    caseValues ("default".toList ++ (blanks ++ ([':'] ++ labelsText labels))) =
      "default".toList :: labels.flatMap (caseValues ·.value) := by
  obtain ⟨l, rest, rfl⟩ := List.exists_cons_of_ne_nil hne
  have hword : Text.isWord ':' = false := by decide
  have happart : Text.Apart "default".toList (blanks ++ ([':'] ++ labelsText (l :: rest))) :=
    Or.inr (Text.wordAt_head?_append hblanks (Or.inr hword))
  have hlabels := cleanValues_splitOnWordFrom (some ':')
    ([':'].reverse ++ (blanks.reverse ++ ("default".toList.reverse ++ []))) hword hspaced
      (show ([] : List Char) = [] ∨ [] = [':'] from .inl rfl)
  have hdefault : cleanValues [([':'].reverse ++ (blanks.reverse ++
      ("default".toList.reverse ++ []))).reverse ++ l.before] = ["default".toList] := by
    have hends : EndsWell "default".toList := by decide
    rw [cleanValues_singleton (q := "default".toList)]
    · decide
    · rw [← cleanValue_append_colon hends hblanks (hspaced l List.mem_cons_self).before]
      simp
  rw [List.append_nil (labelsText _), hdefault] at hlabels
  rw [Reading.caseValues_eq, Text.splitOnWord,
    Text.splitOnWordFrom_append_of_not_hasWordFrom isPlainWord_case happart (by decide),
    Text.splitOnWordFrom_blanks isPlainWord_case hblanks,
    Text.splitOnWordFrom_append_of_not_hasWordFrom isPlainWord_case
      (Or.inl (show Text.wordAt [':'].getLast? = false from hword)) rfl]
  exact hlabels

/-- A group whose labels come after the one of the default case is a default case, whatever its other
labels are. -/
theorem isDefault_of_defaultFirst {blanks : List Char} (hblanks : Text.allBlank blanks = true)
    (hspaced : ∀ l ∈ labels, l.IsSpaced) (hne : labels ≠ [])
    (htext : (r.caseParts g).1 = "default".toList ++ (blanks ++ ([':'] ++ labelsText labels)))
    (subject : List Char) : (r.switchCase subject g).value.isDefault = true := by
  have hmem : "default".toList ∈ caseValues (r.caseParts g).1 := by
    rw [htext, caseValues_defaultFirst hblanks hspaced hne]
    exact List.mem_cons_self
  rw [Reading.switchCase_value]
  exact Bool.or_eq_true_iff.mpr (.inr (List.any_eq_true.mpr ⟨_, hmem, by decide⟩))

/-- The reading of a switch with two labels before its statement. -/
def twoLabels (v : Vocabulary) : Reading := ofText v "switch (x) \x7b case 1: case 2: a(); \x7d"

/-- The statement of that switch. -/
def stackedStatement : ConcreteTree :=
  { kind := "expression_statement", start := 29, stop := 33, row := 0 }

/-- The colon that ends at a byte. -/
def colonTo (stop : Nat) : ConcreteTree :=
  { kind := ":", start := stop - 1, stop := stop, row := 0, isNamed := false }

/-- Both labels in one group. -/
def stackedGroup : ConcreteTree :=
  { kind := "switch_block_statement_group", start := 13, stop := 33, row := 0
    children := [{ kind := "switch_label", start := 13, stop := 19, row := 0 }, colonTo 20,
      { kind := "switch_label", start := 21, stop := 27, row := 0 }, colonTo 28,
      stackedStatement] }

/-- Each label in a group of its own. -/
def splitGroups : List ConcreteTree :=
  [{ kind := "switch_case", start := 13, stop := 20, row := 0
     children := [{ kind := "case", start := 13, stop := 17, row := 0, isNamed := false },
      { kind := "number", start := 18, stop := 19, row := 0, field := some "value" },
      colonTo 20] },
   { kind := "switch_case", start := 21, stop := 33, row := 0
     children := [{ kind := "case", start := 21, stop := 25, row := 0, isNamed := false },
      { kind := "number", start := 26, stop := 27, row := 0, field := some "value" },
      colonTo 28, { stackedStatement with field := some "body" }] }]

/-- Two labels in one group have one decision, and its Yes exit leads to their statement. -/
theorem stacked_program_group :
    let r := twoLabels .java
    let t := switchTree "condition" [stackedGroup] 35
    let graph := (lowerProgram [(r.switch t).value] (Builder.empty .strict (some 50))).2.build
    r.caseNodes stackedGroup = [stackedStatement] ∧
      ∃ v : Visit, v.stmt = (r.switch t).value ∧
        ∃ d ∈ graph.nodes, d.shape = .decision ∧ d.line = some 1 ∧ d.raw = "x is 1 or 2" ∧
          ∃ body ∈ v.blocks, body.stmts = [.simple (some 1) "a();"] ∧ body.exits = [Exit.yes d.id] ∧
            ∃ y ∈ graph.nodes, v.Enters body y ∧
              ∀ u, ⟨d.id, u, some (Label.sanitize .strict 50 "Yes"), .solid⟩ ∈ graph.edges ↔
                u = y.id := by
  intro r t graph
  let labels : List CaseLabel := [⟨[], [' '], ['1'], []⟩, ⟨[' '], [' '], ['2'], []⟩]
  have hlabelled : r.Labelled stackedGroup (stackedGroup.children.take 3) (colonTo 28)
      [stackedStatement] labels := by
    refine ⟨rfl, rfl, fun s hs => ?_, by decide, by decide +kernel⟩
    rw [List.mem_singleton.mp hs]
    rfl
  have hplain : ReadPlainly labels := by
    unfold ReadPlainly
    decide
  have hgroup : r.groups t = [stackedGroup] := by rfl
  have hvisit : Visits (Block.program .strict (some 50) [(r.switch t).value])
      ⟨(r.switch t).value, [], Builder.empty .strict (some 50)⟩ := Visits.here
  obtain ⟨d, hd, hshape, hline, hraw, body, hbody, hstmts, hexits, y, hy, henters, hedge, -⟩ :=
    stacked_program hvisit rfl (hgroup ▸ List.mem_singleton_self _) (by decide) (.inText hlabelled)
      (by simp [labels]) hplain
  refine ⟨rfl, _, rfl, d, hd, hshape, hline, hraw.trans (by decide +kernel), body, hbody,
    hstmts.trans (by rfl), hexits, y, hy, henters, hedge⟩

/-- Both labels in one group, each in a node of its own. -/
def sectionGroup : ConcreteTree :=
  { kind := "switch_section", start := 13, stop := 33, row := 0
    children := [{ kind := "case_switch_label", start := 13, stop := 20, row := 0 },
      { kind := "case_switch_label", start := 21, stop := 28, row := 0 }, stackedStatement] }

example : (twoLabels .csharp).HasLabels sectionGroup [⟨[], [' '], ['1'], []⟩, ⟨[], [' '], ['2'], []⟩] :=
  .inNodes ⟨by decide, by decide, by decide +kernel⟩

/-- Of two labels in groups of their own the first one has a Yes exit that passes their statement
by. -/
theorem stacked_javascript :
    let r := twoLabels .javascript
    let t := switchTree "value" splitGroups 35
    let graph := (lowerProgram [(r.switch t).value] (Builder.empty .strict (some 50))).2.build
    graph.nodes.map (fun n => (n.id, n.raw)) =
        [("L1_1", "x is 1"), ("L1_2", "x is 2"), ("L1_3", "a();"), ("M4", "")] ∧
      (⟨"L1_1", "M4", some "Yes", .solid⟩ : Edge) ∈ graph.edges ∧
      (⟨"L1_1", "L1_3", some "Yes", .solid⟩ : Edge) ∉ graph.edges ∧
      (⟨"L1_2", "L1_3", some "Yes", .solid⟩ : Edge) ∈ graph.edges := by
  decide +kernel

end Reading

end Flowchart
