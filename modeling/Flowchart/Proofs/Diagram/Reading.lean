import Flowchart.Proofs.Diagram.Assembly
import Flowchart.Proofs.Diagram.Outline

/-!
# Reading the lines of a diagram

What stands in a line of a diagram can be told from the line. `Line.read` reads one: the first
characters tell which of the six kinds of lines it is, an id ends where a character follows that ids
do not have, the bracket before the first quote tells the shape, and a label holds no quote. There
is one lemma for each kind of line, which says that what is read is what was written. An edge with
an empty label is written as one without a label, so no label is read.

## Main results

* `read_node`, `read_edge`, `read_style`, `read_scopeLine`, `read_direction`, `read_close`: each
  kind of line is read as what was written.
-/

namespace Flowchart

namespace Diagram

/-! ### Reading a line -/

/-- What a line of a diagram says. -/
inductive Line where
  | node (id : String) (shape : Shape) (label : String)
  | scope (id label : String)
  | direction
  | close
  | edge (source target : String) (label : Option String) (style : EdgeStyle)
  | style (node css : String)
  deriving DecidableEq, Repr

namespace Line

/-- What stands between the first two quotes, and what follows them. -/
def quoted (cs : List Char) : List Char × List Char :=
  let inner := (cs.dropWhile (· != '"')).tail
  (inner.takeWhile (· != '"'), (inner.dropWhile (· != '"')).tail)

/-- The shape of a node that has `bracket` before its label; a merge point has none. -/
def shapeOf (bracket : List Char) : Shape :=
  let shapes : List Shape :=
    [.process, .decision, .loop, .terminal, .stadium, .subroutine, .flag, .database]
  (shapes.find? fun s => s.brackets.1.toList == bracket).getD .merge

/-- The line of the node `id`, read after the id. -/
def readNode (id rest : List Char) : Line :=
  .node (String.ofList id) (shapeOf (rest.takeWhile (· != '"'))) (String.ofList (quoted rest).1)

/-- The line of an edge from `source`, read after the id and a space. -/
def readEdge (source rest : List Char) : Line :=
  let style := if "-->".toList.isPrefixOf rest then EdgeStyle.solid else .dashed
  let after := (rest.dropWhile (· != '>')).tail
  if after.head? = some '|' then
    .edge (String.ofList source) (String.ofList ((quoted after.tail).2.drop 2))
      (some (String.ofList (quoted after.tail).1)) style
  else .edge (String.ofList source) (String.ofList (after.drop 1)) none style

/-- A line that starts with a keyword. The keyword of a subgraph and the space after it are nine
characters, those of a style are six. -/
def readKeyword (cs : List Char) : Line :=
  match cs with
  | 's' :: 'u' :: _ =>
    let rest := cs.drop 9
    .scope (String.ofList (rest.takeWhile isIdChar)) (String.ofList (quoted rest).1)
  | 's' :: 't' :: _ =>
    let rest := cs.drop 6
    .style (String.ofList (rest.takeWhile isIdChar))
      (String.ofList ((rest.dropWhile isIdChar).drop 1))
  | 'd' :: _ => .direction
  | _ => .close

/-- What a line says, whatever its indentation. -/
def read (line : String) : Line :=
  let cs := line.toList.dropWhile (· == ' ')
  let id := cs.takeWhile isIdChar
  let rest := cs.dropWhile isIdChar
  if id.isEmpty then readKeyword cs
  else if rest.head? = some ' ' then readEdge id rest.tail
  else readNode id rest

/-! ### What is read of a line that was written -/

section Stop
variable {p : Char → Bool} {cs rest : List Char} {c : Char}

/-- Characters are taken up to the first that is not to be taken. -/
theorem takeWhile_append_stop (hcs : ∀ d ∈ cs, p d = true) (hc : p c = false) :
    (cs ++ c :: rest).takeWhile p = cs := by
  rw [List.takeWhile_append_of_pos hcs, List.takeWhile_cons_of_neg (by simp [hc]), List.append_nil]

/-- Characters are dropped up to the first that is not to be dropped. -/
theorem dropWhile_append_stop (hcs : ∀ d ∈ cs, p d = true) (hc : p c = false) :
    (cs ++ c :: rest).dropWhile p = c :: rest := by
  rw [List.dropWhile_append_of_pos hcs, List.dropWhile_cons_of_neg (by simp [hc])]

end Stop

/-- A label is read from between its quotes. -/
theorem quoted_append {before label rest : List Char} (hbefore : ∀ c ∈ before, (c != '"') = true)
    (hlabel : ∀ c ∈ label, Text.isQuiet c = true) :
    quoted (before ++ '"' :: (label ++ '"' :: rest)) = (label, rest) := by
  have hlabel : ∀ c ∈ label, (c != '"') = true := by
    intro c hc
    have hquiet := hlabel c hc
    simp only [Text.isQuiet, Bool.and_eq_true] at hquiet
    exact hquiet.1.2
  have hstop : ('"' != '"') = false := by decide
  rw [quoted, dropWhile_append_stop hbefore hstop]
  simp only [List.tail_cons, takeWhile_append_stop hlabel hstop,
    dropWhile_append_stop hlabel hstop]

/-- An id has no quotes. -/
theorem ne_quote_of_isId {id : String} (h : IsId id) : ∀ c ∈ id.toList, (c != '"') = true := by
  intro c hc
  have hquiet := isQuiet_of_isIdChar (h.isIdChar c hc)
  simp only [Text.isQuiet, Bool.and_eq_true] at hquiet
  exact hquiet.1.2

/-- The indentation is passed over. -/
theorem dropWhile_indent {line : String} {depth : Nat} {c : Char}
    (hline : line.toList.head? = some c) (hc : c ≠ ' ') :
    (indent depth ++ line).toList.dropWhile (· == ' ') = line.toList := by
  obtain ⟨rest, hline⟩ := List.head?_eq_some_iff.mp hline
  have hspaces : ∀ d ∈ List.replicate (2 * depth) ' ', (d == ' ') = true := by
    intro d hd
    exact beq_iff_eq.mpr (List.eq_of_mem_replicate hd)
  rw [String.toList_append, indent, String.toList_ofList, hline,
    dropWhile_append_stop hspaces (by simpa using hc)]

/-- A line that starts with an id. -/
theorem read_id {line id : String} (hid : IsId id) {c : Char} (hc : isIdChar c = false)
    {rest : List Char} (hline : line.toList = id.toList ++ c :: rest) (depth : Nat) :
    read (indent depth ++ line) =
      if c = ' ' then readEdge id.toList rest else readNode id.toList (c :: rest) := by
  have hchars := hid.isIdChar
  obtain ⟨first, last, middle, htext, hfirst, -⟩ := hid
  have hspace : first ≠ ' ' := by
    rintro rfl
    exact absurd hfirst (by decide)
  have hhead : line.toList.head? = some first := by
    rw [hline, htext]
    rfl
  have hne : id.toList.isEmpty = false := by rw [htext]; rfl
  rw [read, dropWhile_indent hhead hspace, hline]
  simp only [takeWhile_append_stop hchars hc, dropWhile_append_stop hchars hc, hne,
    Bool.false_eq_true, if_false, List.head?_cons, Option.some.injEq, List.tail_cons]

/-- A line that starts with a keyword. -/
theorem read_keyword {line : String} {c : Char} (hline : line.toList.head? = some c)
    (hspace : c ≠ ' ') (hc : isIdChar c = false) (depth : Nat) :
    read (indent depth ++ line) = readKeyword line.toList := by
  have hnone : line.toList.takeWhile isIdChar = [] := by
    obtain ⟨rest, htext⟩ := List.head?_eq_some_iff.mp hline
    rw [htext, List.takeWhile_cons_of_neg (by simp [hc])]
  rw [read, dropWhile_indent hline hspace]
  simp only [hnone, List.isEmpty_nil, if_true]

/-- The direction of a subgraph is read as one. -/
theorem read_direction (depth : Nat) : read (indent depth ++ "direction TB") = .direction := by
  rw [read_keyword (c := 'd') (by decide) (by decide) (by decide)]
  decide

/-- The end of a subgraph is read as one. -/
theorem read_close (depth : Nat) : read (indent depth ++ "end") = .close := by
  rw [read_keyword (c := 'e') (by decide) (by decide) (by decide)]
  decide

/-- The line that opens a subgraph. -/
theorem read_scopeLine {n : Node} (hid : IsId n.id)
    (hlabel : ∀ c ∈ n.label.toList, Text.isQuiet c = true) (depth : Nat) :
    read (indent depth ++ scopeLine n) = .scope n.id n.label := by
  let rest := n.id.toList ++ ' ' :: '[' :: '"' :: (n.label.toList ++ ['"', ']'])
  have hline : (scopeLine n).toList = "subgraph ".toList ++ rest := by
    simp [scopeLine, rest]
  have hread : readKeyword ("subgraph ".toList ++ rest) =
      .scope (String.ofList (rest.takeWhile isIdChar)) (String.ofList (quoted rest).1) := by
    simp [readKeyword]
  have hquoted : (quoted rest).1 = n.label.toList := by
    have hbefore : ∀ c ∈ n.id.toList ++ [' ', '['], (c != '"') = true := by
      rw [List.forall_mem_append]
      exact ⟨ne_quote_of_isId hid, by simp⟩
    have hsplit : rest = (n.id.toList ++ [' ', '[']) ++
        '"' :: (n.label.toList ++ '"' :: [']']) := by
      simp [rest]
    rw [hsplit, quoted_append hbefore hlabel]
  rw [read_keyword (c := 's') (by rw [hline]; simp) (by decide) (by decide), hline, hread, hquoted,
    takeWhile_append_stop hid.isIdChar (by decide), String.ofList_toList, String.ofList_toList]

/-- The bracket of a shape ends the id before it and says which shape it is. -/
theorem shapeOf_brackets {s : Shape} (h : s.IsPlain) :
    ∃ c rest, s.brackets.1.toList = c :: rest ∧ isIdChar c = false ∧ c ≠ ' ' ∧
      s.brackets.1.toList.all (· != '"') = true ∧ shapeOf s.brackets.1.toList = s := by
  cases s with
  | merge => exact absurd rfl h.1
  | subgraph => exact absurd rfl h.2
  | _ => exact ⟨_, _, rfl, by decide, by decide, by decide, by decide⟩

/-- The line of a node. -/
theorem read_node {n : Node} (hid : IsId n.id)
    (hlabel : ∀ c ∈ n.label.toList, Text.isQuiet c = true) (hshape : n.shape ≠ .subgraph)
    (hmerge : n.shape = .merge → n.label = "") (depth : Nat) :
    read (indent depth ++ Diagram.node n) = .node n.id n.shape n.label := by
  rw [Diagram.node]
  split_ifs with hm
  · have hline : (n.id ++ "(( ))").toList = n.id.toList ++ '(' :: "( ))".toList := by simp
    have hread : readNode n.id.toList ('(' :: "( ))".toList) =
        .node (String.ofList n.id.toList) .merge "" := by
      rw [readNode]
      congr 1
    rw [read_id hid (by decide) hline, if_neg (by decide), hread, String.ofList_toList, hm,
      hmerge hm]
  · obtain ⟨c, rest, hbracket, hc, hspace, hquote, hread⟩ := shapeOf_brackets ⟨hm, hshape⟩
    rw [List.all_eq_true] at hquote
    have hline : (n.id ++ n.shape.brackets.1 ++ "\"" ++ n.label ++ "\"" ++
        n.shape.brackets.2).toList = n.id.toList ++ c :: (rest ++ '"' ::
          (n.label.toList ++ '"' :: n.shape.brackets.2.toList)) := by
      simp [hbracket]
    rw [read_id hid hc hline, if_neg hspace, ← List.cons_append, ← hbracket, readNode,
      takeWhile_append_stop hquote (by decide), hread, quoted_append hquote hlabel,
      String.ofList_toList, String.ofList_toList]

/-- The line of an edge: an empty label is none. -/
theorem read_edge {e : Edge} (hs : IsId e.source)
    (hlabel : ∀ l ∈ e.label, ∀ c ∈ l.toList, Text.isQuiet c = true) (depth : Nat) :
    read (indent depth ++ Diagram.edge e) = .edge e.source e.target
      (e.label.filter fun l => !l.isEmpty) e.style := by
  have hplain : read (indent depth ++ (e.source ++ " " ++ arrow e.style ++ " " ++ e.target)) =
      .edge e.source e.target none e.style := by
    have hline : (e.source ++ " " ++ arrow e.style ++ " " ++ e.target).toList =
        e.source.toList ++ ' ' :: ((arrow e.style).toList ++ ' ' :: e.target.toList) := by simp
    rw [read_id hs (by decide) hline, if_pos rfl]
    cases e.style <;> simp [readEdge, arrow, List.isPrefixOf]
  rw [Diagram.edge]
  cases hl : e.label with
  | none => exact hplain
  | some l =>
      by_cases hempty : l.isEmpty
      · rw [Option.filter_some, if_neg (by simp [hempty])]
        simpa only [hempty, if_true] using hplain
      · let rest := '"' :: (l.toList ++ '"' :: '|' :: ' ' :: e.target.toList)
        have hline : (e.source ++ " " ++ arrow e.style ++ "|\"" ++ l ++ "\"| " ++
            e.target).toList =
            e.source.toList ++ ' ' :: ((arrow e.style).toList ++ '|' :: rest) := by
          simp [rest]
        have hnone : ∀ c ∈ ([] : List Char), (c != '"') = true := by simp
        have hquoted : quoted rest = (l.toList, '|' :: ' ' :: e.target.toList) :=
          quoted_append hnone (hlabel l hl)
        have hread : readEdge e.source.toList ((arrow e.style).toList ++ '|' :: rest) =
            .edge e.source e.target (some l) e.style := by
          cases e.style <;> simp [readEdge, arrow, List.isPrefixOf, hquoted]
        rw [Option.filter_some, if_pos (by simp [hempty])]
        simp only [hempty, Bool.false_eq_true, if_false]
        rw [read_id hs (by decide) hline, if_pos rfl, hread]

/-- The line of a style entry. -/
theorem read_style {s : NodeStyle} (hnode : IsId s.node) (depth : Nat) :
    read (indent depth ++ ("style " ++ s.node ++ " " ++ s.css)) = .style s.node s.css := by
  let rest := s.node.toList ++ ' ' :: s.css.toList
  have hline : ("style " ++ s.node ++ " " ++ s.css).toList = "style ".toList ++ rest := by
    simp [rest]
  have hread : readKeyword ("style ".toList ++ rest) = .style
      (String.ofList (rest.takeWhile isIdChar))
      (String.ofList ((rest.dropWhile isIdChar).drop 1)) := by
    simp [readKeyword]
  rw [read_keyword (c := 's') (by rw [hline]; simp) (by decide) (by decide), hline, hread,
    takeWhile_append_stop hnode.isIdChar (by decide),
    dropWhile_append_stop hnode.isIdChar (by decide), String.ofList_toList, List.drop_one,
    List.tail_cons, String.ofList_toList]

/-- The edge that a line tells of. -/
def edge? : Line → Option Edge
  | .edge source target label look => some ⟨source, target, label, look⟩
  | _ => none

/-- The style entry that a line tells of. -/
def style? : Line → Option NodeStyle
  | .style id css => some ⟨id, css⟩
  | _ => none

end Line

end Diagram

end Flowchart
