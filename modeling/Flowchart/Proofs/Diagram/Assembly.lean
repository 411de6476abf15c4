import Flowchart.Proofs.Diagram.Header
import Flowchart.Proofs.Diagram.Lines
import Flowchart.Proofs.Diagram.Writable

/-!
# Diagrams pass their check

The lines of a writable graph are nested lines (`nested_bodyLines`): every node, edge and style
entry is an inert line, and a subgraph puts its lines between an opening and a closing one. With the
comment and the directive before them they make a diagram that passes the check (`check_assemble`).

## Pieces of a line

Whether a line passes the check depends on counts: of arrows, of double quotes. Each part of a line has
such counts, and they add up. Ids and labels have none of these characters, arrows and brackets are
constants, so the counts of a line are those of its constants. What a line starts with decides whether
it opens or closes a subgraph, and that is a matter of its first character alone.

## Main results

* `inert_node`, `inert_edge`, `inert_style`: what is written on one line is inert.
* `nested_bodyLines`: all lines of a graph are nested.
* `check_assemble`: an assembled diagram passes the check.
-/

namespace Flowchart.Diagram

/-! ### Ids in lines -/

/-- No character of an id is blank. -/
theorem isBlank_of_isIdChar {c : Char} (h : isIdChar c = true) : Text.isBlank c = false := by
  obtain ⟨hlow, hhigh⟩ := bounds_of_isIdChar h
  rw [Bool.eq_false_iff]
  simp only [Text.isBlank, ne_eq, Bool.or_eq_true, Bool.and_eq_true, decide_eq_true_eq, beq_iff_eq]
  omega

/-- Every character of an id is quiet. -/
theorem isQuiet_of_isIdChar {c : Char} (h : isIdChar c = true) : Text.isQuiet c = true := by
  have hquote : c ≠ '"' := by
    rintro rfl
    exact absurd h (by decide)
  have hgt : c ≠ '>' := by
    rintro rfl
    exact absurd h (by decide)
  simp [Text.isQuiet, Text.isLineEnd_eq_false (isBlank_of_isIdChar h), hquote, hgt]

/-! ### The lines of nodes, edges and styles -/

namespace Piece

variable {q : Nat} {cs : List Char}

/-- A piece that starts with a capital is an inert line. -/
theorem inert (h : Piece 1 (2 * q) cs) {first last : Char} (hfirst : first ∈ cs.head?)
    (hlast : last ∈ cs.getLast?) (hupper : first.isUpper = true)
    (hblank' : Text.isBlank last = false) : Inert cs := by
  have hne : ∀ c : Char, c.isUpper = false → first ≠ c := by
    rintro c hc rfl
    rw [hc] at hupper
    exact Bool.noConfusion hupper
  have hkeyword : first ∉ ['f', 'g', 'd'] := by
    simp only [List.mem_cons, List.not_mem_nil, or_false, not_or]
    exact ⟨hne 'f' rfl, hne 'g' rfl, hne 'd' rfl⟩
  have hblank := isBlank_of_isIdChar (isIdChar_of_isUpper hupper)
  refine ⟨h.tidy (settled_of_head? hfirst hblank hkeyword) hfirst hlast hblank hblank', ?_, ?_⟩
  · obtain ⟨cs, rfl⟩ := List.head?_eq_some_iff.mp hfirst
    simp [List.isPrefixOf, (hne 's' rfl).symm]
  · rintro rfl
    exact hne 'e' rfl (Option.mem_unique hfirst rfl)

/-- Ids are quiet. -/
theorem id {id : String} (h : IsId id) : Piece 0 0 id.toList :=
  quiet fun c hc => isQuiet_of_isIdChar (h.isIdChar c hc)

end Piece

/-- The brackets of a node have at most one head of an arrow, that of a flag. -/
theorem piece_brackets (shape : Shape) :
    Piece 1 0 shape.brackets.1.toList ∧ Piece 0 0 shape.brackets.2.toList ∧
      ∃ last ∈ shape.brackets.2.toList.getLast?, Text.isBlank last = false := by
  have hlast : shape.brackets.2.toList.getLast?.any (fun c => !Text.isBlank c) = true := by
    cases shape <;> decide
  obtain ⟨last, hlast, hblank⟩ := (Option.any_eq_true _ _).mp hlast
  refine ⟨?_, ?_, last, hlast, by simpa using hblank⟩
  · cases shape <;> decide
  · cases shape <;> decide

/-- A line that starts with an id is inert if what follows is as the check wants it. -/
theorem inert_of_isId {id : String} (hid : IsId id) {tail : List Char} {q : Nat} {last : Char}
    (h : Piece 1 (2 * q) tail) (hlast : last ∈ tail.getLast?)
    (hblank : Text.isBlank last = false) : Inert (id.toList ++ tail) := by
  have hp : Piece 1 (2 * q) (id.toList ++ tail) := by
    have := (Piece.id hid).append h
    rwa [Nat.zero_add, Nat.zero_add] at this
  obtain ⟨first, end', middle, htext, hupper, -⟩ := hid
  refine hp.inert ?_ (List.mem_getLast?_append_of_mem_getLast? hlast) hupper hblank
  rw [htext, List.cons_append]
  exact rfl

/-- The line of a node is inert. -/
theorem inert_node {n : Node} (hid : IsId n.id)
    (hlabel : ∀ c ∈ n.label.toList, Text.isQuiet c = true) : Inert (node n).toList := by
  rw [node]
  split_ifs with hmerge
  · rw [String.toList_append]
    have hrings : Piece 1 (2 * 0) "(( ))".toList := by decide
    have hlast : ')' ∈ "(( ))".toList.getLast? := by decide
    exact inert_of_isId hid hrings hlast (by decide)
  · obtain ⟨hopening, hclosing, last, hlast, hblank⟩ := piece_brackets n.shape
    have hquote : Piece 0 1 "\"".toList := by decide
    have htail : Piece 1 (2 * 1) _ :=
      hopening.append (hquote.append ((Piece.quiet hlabel).append (hquote.append hclosing)))
    simp only [String.toList_append, List.append_assoc]
    refine inert_of_isId hid htail ?_ hblank
    simp only [← List.append_assoc]
    exact List.mem_getLast?_append_of_mem_getLast? hlast

/-- An arrow has one head. -/
theorem piece_arrow (style : EdgeStyle) : Piece 1 0 (arrow style).toList := by
  cases style <;> decide

/-- An id does not end in a blank. -/
theorem exists_getLast?_of_isId {id : String} (h : IsId id) :
    ∃ last ∈ id.toList.getLast?, Text.isBlank last = false := by
  obtain ⟨first, last, middle, htext, -, hdigit, -⟩ := h
  refine ⟨last, ?_, isBlank_of_isIdChar (isIdChar_of_isDigit hdigit)⟩
  rw [htext, ← List.cons_append, List.getLast?_concat]
  rfl

/-- The line of an edge is inert. -/
theorem inert_edge {e : Edge} (hs : IsId e.source) (ht : IsId e.target)
    (hlabel : ∀ l ∈ e.label, ∀ c ∈ l.toList, Text.isQuiet c = true) : Inert (edge e).toList := by
  obtain ⟨last, hlast, hblank⟩ := exists_getLast?_of_isId ht
  have hspace : Piece 0 0 " ".toList := by decide
  have hplain : Inert (e.source ++ " " ++ arrow e.style ++ " " ++ e.target).toList := by
    have htail : Piece 1 (2 * 0) _ :=
      hspace.append ((piece_arrow e.style).append (hspace.append (Piece.id ht)))
    simp only [String.toList_append, List.append_assoc]
    refine inert_of_isId hs htail ?_ hblank
    simp only [← List.append_assoc]
    exact List.mem_getLast?_append_of_mem_getLast? hlast
  rw [edge]
  cases hl : e.label with
  | none => exact hplain
  | some l =>
      change Inert (if l.isEmpty then _ else _ : String).toList
      split_ifs
      · exact hplain
      · have hbefore : Piece 0 1 "|\"".toList := by decide
        have hafter : Piece 0 1 "\"| ".toList := by decide
        have htail : Piece 1 (2 * 1) _ :=
          hspace.append ((piece_arrow e.style).append (hbefore.append
            ((Piece.quiet (hlabel l hl)).append (hafter.append (Piece.id ht)))))
        simp only [String.toList_append, List.append_assoc]
        refine inert_of_isId hs htail ?_ hblank
        simp only [← List.append_assoc]
        exact List.mem_getLast?_append_of_mem_getLast? hlast

/-- The styles of clauses are quiet and do not end in a blank. -/
theorem piece_style {css : String} (h : Builder.IsClauseStyle css) :
    Piece 0 0 css.toList ∧ ∃ last ∈ css.toList.getLast?, Text.isBlank last = false := by
  have hall : ∀ css, Builder.IsClauseStyle css → Piece 0 0 css.toList ∧
      css.toList.getLast?.any (fun c => !Text.isBlank c) = true := by
    unfold Builder.IsClauseStyle
    decide
  obtain ⟨hp, hlast⟩ := hall css h
  obtain ⟨last, hlast, hblank⟩ := (Option.any_eq_true _ _).mp hlast
  exact ⟨hp, last, hlast, by simpa using hblank⟩

/-- The line of a style entry is inert. -/
theorem inert_style {s : NodeStyle} (hnode : IsId s.node) (hcss : Builder.IsClauseStyle s.css) :
    Inert ("style " ++ s.node ++ " " ++ s.css).toList := by
  obtain ⟨hp, last, hlast, hblank⟩ := piece_style hcss
  have hkeyword : Piece 0 0 "style ".toList := by decide
  have hspace : Piece 0 0 " ".toList := by decide
  have hline : Piece 0 (2 * 0) _ :=
    ((hkeyword.append (Piece.id hnode)).append hspace).append hp
  have hfirst : 's' ∈ ("style ".toList ++ s.node.toList ++ " ".toList ++ s.css.toList).head? := by
    simp
  simp only [String.toList_append]
  refine ⟨?_, ?_, ?_⟩
  · exact (hline.mono (Nat.zero_le 1)).tidy (settled_of_head? hfirst (by decide) (by decide)) hfirst
      (List.mem_getLast?_append_of_mem_getLast? hlast) (by decide) hblank
  · simp [List.isPrefixOf]
  · simp

/-! ### Subgraphs -/

/-- The line that opens a subgraph, after the keyword. -/
def opening (n : Node) : List Char := (n.id ++ " [\"" ++ n.label ++ "\"]").toList

/-- The line that opens a subgraph is tidy. -/
theorem tidy_opening {n : Node} (hid : IsId n.id)
    (hlabel : ∀ c ∈ n.label.toList, Text.isQuiet c = true) :
    Tidy ("subgraph ".toList ++ opening n) := by
  have hkeyword : Piece 0 0 "subgraph ".toList := by decide
  have hbefore : Piece 0 1 " [\"".toList := by decide
  have hafter : Piece 0 1 "\"]".toList := by decide
  have hlast : ']' ∈ "\"]".toList.getLast? := by decide
  have hline : Piece 0 (2 * 1) _ := hkeyword.append
    ((((Piece.id hid).append hbefore).append (Piece.quiet hlabel)).append hafter)
  have hfirst : 's' ∈ ("subgraph ".toList ++ opening n).head? := by simp
  rw [opening, String.toList_append, String.toList_append, String.toList_append] at hfirst ⊢
  exact (hline.mono (Nat.zero_le 1)).tidy (settled_of_head? hfirst (by decide) (by decide)) hfirst
    (List.mem_getLast?_append_of_mem_getLast? (List.mem_getLast?_append_of_mem_getLast? hlast))
    (by decide) (by decide)

/-- The line with the direction of a subgraph is inert. -/
theorem inert_direction : Inert "direction TB".toList := by
  have hp : Piece 1 (2 * 0) "direction TB".toList := by decide
  have hfirst : 'd' ∈ "direction TB".toList.head? := by decide
  have hlast : 'B' ∈ "direction TB".toList.getLast? := by decide
  exact ⟨hp.tidy settled_direction hfirst hlast (by decide) (by decide), by decide, by decide⟩

/-- So is the line with the direction of the diagram. -/
theorem inert_flowchart : Inert "flowchart TD".toList := by
  have hp : Piece 1 (2 * 0) "flowchart TD".toList := by decide
  have hfirst : 'f' ∈ "flowchart TD".toList.head? := by decide
  have hlast : 'D' ∈ "flowchart TD".toList.getLast? := by decide
  exact ⟨hp.tidy settled_flowchart hfirst hlast (by decide) (by decide), by decide, by decide⟩

/-- An indented line is the line behind two spaces for each level. -/
theorem toList_indent (depth : Nat) (s : String) :
    (indent depth ++ s).toList = indented (2 * depth) s.toList := by
  rw [String.toList_append, indent, String.toList_ofList, indented]

variable {g : Graph}

/-- The lines in a subgraph are nested lines, at whatever depth the rest is left out. -/
theorem nested_scope (h : g.Writable) (fuel : Nat) (parent : Option String) (depth : Nat) :
    Nested ((scope g fuel parent depth).map String.toList) := by
  induction fuel generalizing parent depth with
  | zero => exact Nested.nil
  | succ fuel ih =>
      rw [scope, List.map_flatMap]
      refine Nested.flatMap fun n hn => ?_
      have hn : n ∈ g.nodes := List.mem_of_mem_filter hn
      split_ifs with hshape
      · have hlines := (Nested.line (2 * (depth + 1)) inert_direction).append
          (ih (some n.id) (depth + 1))
        have hnested := Nested.subgraph (2 * depth)
          (tidy_opening (h.node_id n hn) (h.node_label n hn)) hlines
        have hopen : (indent depth ++ "subgraph " ++ n.id ++ " [\"" ++ n.label ++ "\"]").toList =
            indented (2 * depth) ("subgraph ".toList ++ opening n) := by
          simp only [opening, indented, indent, String.toList_append, String.toList_ofList,
            List.append_assoc]
        simp only [List.map_cons, List.map_append, List.map_nil, toList_indent, hopen]
        exact hnested
      · rw [List.map_singleton, toList_indent]
        exact Nested.line _ (inert_node (h.node_id n hn) (h.node_label n hn))

/-! ### Whole diagrams -/

/-- The lines of a graph after the first are nested lines. -/
theorem nested_bodyLines (h : g.Writable) : Nested ((bodyLines g).map String.toList) := by
  have hedge : ∀ e ∈ g.edges, Nested [(indent 1 ++ edge e).toList] := by
    intro e he
    rw [toList_indent]
    exact Nested.line _ (inert_edge (h.source e he) (h.target e he) (h.edge_label e he))
  have hstyle : ∀ s ∈ g.styles,
      Nested [(indent 1 ++ "style " ++ s.node ++ " " ++ s.css).toList] := by
    intro s hs
    rw [String.append_assoc, String.append_assoc, String.append_assoc, toList_indent,
      ← String.append_assoc, ← String.append_assoc]
    exact Nested.line _ (inert_style (h.style_node s hs) (h.style_css s hs))
  rw [bodyLines, List.map_append, List.map_append, List.map_map, List.map_map,
    List.map_eq_flatMap (l := g.edges), List.map_eq_flatMap (l := g.styles)]
  exact ((nested_scope h _ _ _).append (Nested.flatMap hedge)).append (Nested.flatMap hstyle)

/-- Lines are joined by line feeds. -/
theorem toList_joinLines (line : String) (lines : List String) :
    (joinLines (line :: lines)).toList =
      ((line :: lines).map String.toList).flatMap (· ++ ['\n']) := by
  have hfeed : "\n".toList = ['\n'] := by decide
  rw [joinLines, String.toList_append, String.toList_intercalate, hfeed]
  induction lines generalizing line with
  | nil => simp
  | cons next lines ih =>
      rw [List.map_cons, List.intercalate_cons_of_ne_nil (by simp), List.append_assoc, ih next,
        List.flatMap_cons]

/-- The lines of a diagram after the header. -/
def diagramLines (g : Graph) : List (List Char) :=
  "flowchart TD".toList :: (bodyLines g).map String.toList

/-- All lines of a diagram are nested. -/
theorem nested_diagramLines (h : g.Writable) : Nested (diagramLines g) :=
  (Nested.line 0 inert_flowchart).append (nested_bodyLines h)

/-- The text of a diagram is its lines, each with a line feed behind it. -/
theorem toList_render (h : g.Writable) :
    (render g).toList = (diagramLines g).flatMap (· ++ ['\n']) := by
  have hfirst : "flowchart " ++ g.direction = "flowchart TD" := by
    rw [h.direction_eq]
    rfl
  rw [render, hfirst, toList_joinLines, diagramLines, List.map_cons]

/-- Diagrams are drawn top down to begin with. -/
theorem forceTopDown_render (h : g.Writable) : forceTopDown (render g) = render g := by
  have hrender : render g = String.ofList ((diagramLines g).flatMap (· ++ ['\n'])) := by
    rw [← toList_render h, String.ofList_toList]
  rw [hrender]
  exact forceTopDown_eq (nested_diagramLines h).tidy

/-- The text of a diagram is its header and its lines. -/
theorem toList_assemble {s : Settings} (h : g.Writable) (hshown : isDegenerate s g = false) :
    (assemble s g).toList =
      (headerLine s).toList ++ '\n' :: (diagramLines g).flatMap (· ++ ['\n']) := by
  have hfeed : "\n".toList = ['\n'] := by decide
  rw [assemble, hshown, if_neg Bool.noConfusion, forceTopDown_render h, String.toList_append,
    header_eq, String.toList_append, hfeed, toList_render h, List.append_assoc,
    List.singleton_append]

/-- The diagram of a writable graph passes the check. -/
theorem check_assemble {s : Settings} (h : g.Writable) (hshown : isDegenerate s g = false) :
    check (assemble s g) = .ok () := by
  have htext := toList_assemble h hshown
  have hblank : Text.allBlank (assemble s g).toList = false := by
    rw [Text.allBlank, List.all_eq_false]
    refine ⟨'%', ?_, by decide⟩
    rw [htext]
    exact List.mem_append_left _ (List.mem_of_getLast? (getLast?_headerLine s))
  have hdirective : hasDirective true (assemble s g).toList = true := by
    rw [htext, diagramLines, List.flatMap_cons, List.append_assoc, List.singleton_append]
    exact hasDirective_append (hasDirective_flowchart _) _ true
  have hone : ∀ l ∈ (headerLine s).toList :: diagramLines g, ∀ c ∈ l, Text.isLineEnd c = false := by
    intro l hl
    rcases List.mem_cons.mp hl with hl | hl
    · rw [hl]
      exact headerLine_one_line s
    · obtain ⟨k, core, rfl, hcore⟩ := (nested_diagramLines h).tidy l hl
      exact hcore.indented_one_line k
  have hlines : Text.lines (assemble s g).toList = (headerLine s).toList :: diagramLines g := by
    rw [← Text.lines_flatMap hone, htext, List.flatMap_cons, List.append_assoc,
      List.singleton_append]
  have hlast : ∀ c ∈ (headerLine s).toList.getLast?, Text.isBlank c = false := by
    intro c hc
    rw [getLast?_headerLine] at hc
    obtain rfl : '%' = c := Option.some.inj hc
    decide
  have hcheck : checkLines 0 (Text.lines (assemble s g).toList) = .ok 0 := by
    rw [hlines, checkLines_cons (checkLine_comment 0 (headerLine_comment s) hlast),
      (nested_diagramLines h).checkLines_eq 0]
  simp only [check, hblank, hdirective, hcheck]
  rfl

end Flowchart.Diagram
