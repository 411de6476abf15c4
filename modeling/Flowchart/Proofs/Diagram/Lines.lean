import Flowchart.Diagram
import Flowchart.Diagram.Validity
import Flowchart.Proofs.Text

/-!
# Lines that pass the check

The check of diagram text takes the lines one by one. This module says which lines pass and what a
sequence of lines does to the number of open subgraphs.

* A line is put together from pieces. `Piece arrows quotes` bounds the heads of arrows in a piece
  and counts its double quotes; both add up when pieces are joined.
* A line is `Tidy` if it has at most one arrow, double quotes in pairs, no blank at its ends, and
  no direction that has to be forced; it is `Inert` if it also neither opens nor closes a
  subgraph.
* `Nested` lines are built from inert lines by putting them one after another and into subgraphs.
  They pass the check and leave the number of open subgraphs as it is (`Nested.checkLines_eq`).
* Lines without a direction to be replaced stay as they are when directions are forced
  (`forceTopDown_eq`).

Arrows are counted by their heads: the two arrows end in `>` but differ before it, so a line with
one `>` cannot have both (`count_arrows_le_one`).
-/

namespace Flowchart.Diagram

/-! ### Directives -/

/-- However a line is indented, no direction in it is replaced. -/
def Settled (core : List Char) : Prop :=
  ∀ d ∈ [flowchartDirective, subgraphDirective], ∀ (k : Nat) (rest : List Char),
    directiveHere? d (List.replicate k ' ' ++ (core ++ '\n' :: rest)) = none

/-- Nothing is replaced where no keyword stands before a direction to be replaced. -/
theorem directiveHere?_eq_none {d : Directive} {cs : List Char}
    (h : ∀ after ∈ afterWord? d.keywords (cs.dropWhile Text.isBlank),
      afterWord? d.directions (after.dropWhile Text.isBlank) = none) :
    directiveHere? d cs = none := by
  rw [directiveHere?]
  cases hword : afterWord? d.keywords (cs.dropWhile Text.isBlank) with
  | none => rfl
  | some after =>
      simp [h after hword]

/-- The blanks before a line go. -/
theorem dropWhile_indent (k : Nat) {c : Char} (hc : Text.isBlank c = false) (cs : List Char) :
    (List.replicate k ' ' ++ c :: cs).dropWhile Text.isBlank = c :: cs := by
  have hspaces : ∀ c ∈ List.replicate k ' ', Text.isBlank c = true := by
    intro c hc
    rw [List.eq_of_mem_replicate hc]
    decide
  rw [List.dropWhile_append_of_pos hspaces, List.dropWhile_cons_of_neg (by simp [hc])]

/-- A line is settled by its first character, unless a keyword starts with it. -/
theorem settled_of_head? {c : Char} {cs : List Char} (hc : c ∈ cs.head?)
    (hblank : Text.isBlank c = false) (hkeyword : c ∉ ['f', 'g', 'd']) : Settled cs := by
  obtain ⟨cs, rfl⟩ := List.head?_eq_some_iff.mp hc
  intro d hd k rest
  have hkeywords : ∀ w ∈ d.keywords, ∃ a ∈ ['f', 'g', 'd'], ∃ as, w.toList = a :: as := by
    simp only [List.mem_cons, List.not_mem_nil, or_false] at hd
    rcases hd with rfl | rfl <;> simp [flowchartDirective, subgraphDirective]
  refine directiveHere?_eq_none fun after hafter => ?_
  rw [List.cons_append, dropWhile_indent k hblank] at hafter
  obtain ⟨w, hw, hprefix⟩ := List.exists_of_findSome?_eq_some hafter
  obtain ⟨a, ha, as, has⟩ := hkeywords w hw
  have hne : a ≠ c := fun heq => hkeyword (heq ▸ ha)
  simp [has, List.isPrefixOf?, hne] at hprefix

/-- The direction of a diagram is the one that is forced. -/
theorem settled_flowchart : Settled "flowchart TD".toList := by
  intro d hd k rest
  refine directiveHere?_eq_none fun after hafter => ?_
  have hcons : "flowchart TD".toList ++ '\n' :: rest =
      'f' :: ("lowchart TD".toList ++ '\n' :: rest) := rfl
  rw [hcons, dropWhile_indent k (by decide)] at hafter
  simp only [List.mem_cons, List.not_mem_nil, or_false] at hd
  rcases hd with rfl | rfl
  · obtain rfl : " TD".toList ++ '\n' :: rest = after := Option.some.inj hafter
    rfl
  · exact absurd hafter (Option.not_mem_none after)

/-- The direction of a subgraph is the one that is forced. -/
theorem settled_direction : Settled "direction TB".toList := by
  intro d hd k rest
  refine directiveHere?_eq_none fun after hafter => ?_
  have hcons : "direction TB".toList ++ '\n' :: rest =
      'd' :: ("irection TB".toList ++ '\n' :: rest) := rfl
  rw [hcons, dropWhile_indent k (by decide)] at hafter
  simp only [List.mem_cons, List.not_mem_nil, or_false] at hd
  rcases hd with rfl | rfl
  · exact absurd hafter (Option.not_mem_none after)
  · obtain rfl : " TB".toList ++ '\n' :: rest = after := Option.some.inj hafter
    rfl

/-- Within a line nothing is replaced. -/
theorem forceFrom_within (d : Directive) {l : List Char} (hl : '\n' ∉ l) (rest : List Char) :
    forceFrom d false 0 (l ++ '\n' :: rest) = l ++ '\n' :: forceFrom d true 0 rest := by
  induction l with
  | nil => rfl
  | cons c l ih =>
      have hc : (c == '\n') = false := beq_false_of_ne fun heq => hl (heq ▸ List.mem_cons_self)
      have hrest := ih fun hmem => hl (List.mem_cons_of_mem c hmem)
      simp only [List.cons_append, forceFrom, Bool.false_eq_true, if_false, hc, hrest]

/-- Lines in which no direction is to be replaced stay as they are. -/
theorem forceFrom_lines {d : Directive} {ls : List (List Char)} (hls : ∀ l ∈ ls, '\n' ∉ l)
    (hnone : ∀ l ∈ ls, ∀ rest, directiveHere? d (l ++ '\n' :: rest) = none) :
    forceFrom d true 0 (ls.flatMap (· ++ ['\n'])) = ls.flatMap (· ++ ['\n']) := by
  induction ls with
  | nil => rfl
  | cons l ls ih =>
      have hrest := ih (fun l' hl' => hls l' (List.mem_cons_of_mem l hl'))
        fun l' hl' => hnone l' (List.mem_cons_of_mem l hl')
      have hhere := hnone l List.mem_cons_self (ls.flatMap (· ++ ['\n']))
      have hl := hls l List.mem_cons_self
      rw [List.flatMap_cons, List.append_assoc, List.singleton_append]
      cases l with
      | nil =>
          rw [List.nil_append] at hhere ⊢
          simp only [forceFrom, if_true, hhere, beq_self_eq_true, hrest]
      | cons c l =>
          have hc : (c == '\n') = false := beq_false_of_ne fun heq => hl (heq ▸ List.mem_cons_self)
          rw [List.cons_append] at hhere ⊢
          simp only [forceFrom, if_true, hhere, hc,
            forceFrom_within d fun hmem => hl (List.mem_cons_of_mem c hmem), hrest]

/-! ### Arrows -/

/-- The two arrows end in the same character and differ before it: where it occurs once, there are
not both. -/
theorem count_arrows_le_one {cs : List Char} (h : cs.count '>' ≤ 1) :
    Text.count "-->".toList cs + Text.count "-.->".toList cs ≤ 1 := by
  have hsolid : Text.count "-->".toList cs ≤ cs.count '>' := Text.count_le ['-', '-'] '>' cs
  have hdashed : Text.count "-.->".toList cs ≤ cs.count '>' := Text.count_le ['-', '.', '-'] '>' cs
  by_contra hboth
  obtain ⟨pre, post, hpre⟩ :=
    Text.infix_of_countFrom_ne_zero (show Text.count "-->".toList cs ≠ 0 by omega)
  obtain ⟨pre', post', hpre'⟩ :=
    Text.infix_of_countFrom_ne_zero (show Text.count "-.->".toList cs ≠ 0 by omega)
  have hsplit : (pre ++ ['-', '-']) ++ '>' :: post = cs := by
    rw [← hpre]
    simp
  have hsplit' : (pre' ++ ['-', '.', '-']) ++ '>' :: post' = cs := by
    rw [← hpre']
    simp
  have hends := congrArg List.reverse ((Text.eq_takeWhile_of_count_le_one hsplit h).trans
    (Text.eq_takeWhile_of_count_le_one hsplit' h).symm)
  simp at hends

/-! ### Pieces of lines -/

/-- A piece of a line with at most so many heads of arrows and exactly so many double quotes. -/
structure Piece (arrows quotes : Nat) (cs : List Char) : Prop where
  one_line : ∀ c ∈ cs, Text.isLineEnd c = false
  arrows_le : cs.count '>' ≤ arrows
  quotes_eq : cs.count '"' = quotes

namespace Piece

variable {a a' q q' : Nat} {cs cs' : List Char}

/-- Pieces are joined. -/
theorem append (h : Piece a q cs) (h' : Piece a' q' cs') : Piece (a + a') (q + q') (cs ++ cs') where
  one_line := fun c hc => (List.mem_append.mp hc).elim (h.one_line c) (h'.one_line c)
  arrows_le := by
    rw [List.count_append]
    exact Nat.add_le_add h.arrows_le h'.arrows_le
  quotes_eq := by rw [List.count_append, h.quotes_eq, h'.quotes_eq]

/-- Quiet characters count for nothing. -/
theorem quiet (h : ∀ c ∈ cs, Text.isQuiet c = true) : Piece 0 0 cs where
  one_line := fun c hc => Text.isLineEnd_of_isQuiet (h c hc)
  arrows_le := Nat.le_of_eq (Text.count_arrow_of_isQuiet h)
  quotes_eq := Text.count_quote_of_isQuiet h

instance (a q : Nat) (cs : List Char) : Decidable (Piece a q cs) :=
  decidable_of_iff
    (cs.all (fun c => !Text.isLineEnd c) = true ∧ cs.count '>' ≤ a ∧ cs.count '"' = q)
    ⟨fun ⟨hone, harrows, hquotes⟩ => ⟨by simpa using hone, harrows, hquotes⟩,
      fun h => ⟨by simpa using h.one_line, h.arrows_le, h.quotes_eq⟩⟩

/-- A piece with few arrows has few enough. -/
theorem mono (h : Piece a q cs) (ha : a ≤ a') : Piece a' q cs :=
  { h with arrows_le := Nat.le_trans h.arrows_le ha }

end Piece

/-! ### One line -/

/-- A line without its indentation that is as the check wants it. -/
structure Tidy (core : List Char) : Prop where
  first : ∀ c ∈ core.head?, Text.isBlank c = false
  last : ∀ c ∈ core.getLast?, Text.isBlank c = false
  one_line : ∀ c ∈ core, Text.isLineEnd c = false
  arrows : core.count '>' ≤ 1
  quotes : core.count '"' % 2 = 0
  settled : Settled core

/-- A settled piece between two characters that are no blanks is a tidy line, if its quotes come in
pairs. -/
theorem Piece.tidy {q : Nat} {cs : List Char} (h : Piece 1 (2 * q) cs) (hsettled : Settled cs)
    {first last : Char} (hfirst : first ∈ cs.head?) (hlast : last ∈ cs.getLast?)
    (hblank : Text.isBlank first = false) (hblank' : Text.isBlank last = false) : Tidy cs where
  first := fun c hc => by
    obtain rfl := Option.mem_unique hfirst hc
    exact hblank
  last := fun c hc => by
    obtain rfl := Option.mem_unique hlast hc
    exact hblank'
  one_line := h.one_line
  arrows := h.arrows_le
  quotes := by rw [h.quotes_eq, Nat.mul_mod_right]
  settled := hsettled

/-- A tidy line that neither opens nor closes a subgraph. -/
structure Inert (core : List Char) : Prop extends Tidy core where
  not_opening : "subgraph ".toList.isPrefixOf core = false
  not_closing : core ≠ "end".toList

/-- A line at an indentation. -/
def indented (k : Nat) (core : List Char) : List Char := List.replicate k ' ' ++ core

section CheckLine

variable {core : List Char} (k depth : Nat)

/-- Comments are not looked at. -/
theorem checkLine_comment (hfirst : "%%".toList.isPrefixOf core = true)
    (hlast : ∀ c ∈ core.getLast?, Text.isBlank c = false) : checkLine depth core = .ok depth := by
  have hhead : ∀ c ∈ core.head?, Text.isBlank c = false := by
    obtain ⟨rest, rfl⟩ := List.isPrefixOf_iff_prefix.mp hfirst
    rintro c hc
    obtain rfl : '%' = c := Option.some.inj hc
    decide
  have htrim : Text.trim core = core := Text.trim_indented 0 hhead hlast
  simp only [checkLine, htrim, hfirst, if_true]

/-- The check of a tidy line comes down to whether it opens or closes a subgraph. -/
theorem checkLine_indented (h : Tidy core) :
    checkLine depth (indented k core) =
      if "%%".toList.isPrefixOf core then .ok depth
      else if "subgraph ".toList.isPrefixOf core then .ok (depth + 1)
      else if core = "end".toList then
        if depth = 0 then .error .unbalancedSubgraphs else .ok (depth - 1)
      else .ok depth := by
  have htrim : Text.trim (indented k core) = core := Text.trim_indented k h.first h.last
  have harrows : ¬1 < Text.count "-->".toList core + Text.count "-.->".toList core :=
    Nat.not_lt.mpr (count_arrows_le_one h.arrows)
  have hquotes : ¬core.count '"' % 2 = 1 := by
    rw [h.quotes]
    exact Nat.zero_ne_one
  simp only [checkLine, htrim]
  split_ifs <;> rfl

/-- An inert line changes nothing. -/
theorem checkLine_inert (h : Inert core) : checkLine depth (indented k core) = .ok depth := by
  rw [checkLine_indented k depth h.toTidy]
  simp only [h.not_opening, h.not_closing, Bool.false_eq_true, if_false, ite_self]

/-- A tidy line that opens a subgraph. -/
theorem checkLine_opening {name : List Char} (h : Tidy ("subgraph ".toList ++ name)) :
    checkLine depth (indented k ("subgraph ".toList ++ name)) = .ok (depth + 1) := by
  rw [checkLine_indented k depth h]
  have hopening : "subgraph ".toList.isPrefixOf ("subgraph ".toList ++ name) = true :=
    List.isPrefixOf_iff_prefix.mpr (List.prefix_append _ _)
  rw [if_neg (by simp), if_pos hopening]

/-- The line that closes a subgraph is tidy. -/
theorem tidy_closing : Tidy "end".toList := by
  have hp : Piece 1 (2 * 0) "end".toList := by decide
  have hfirst : 'e' ∈ "end".toList.head? := by decide
  have hlast : 'd' ∈ "end".toList.getLast? := by decide
  exact hp.tidy (settled_of_head? hfirst (by decide) (by decide)) hfirst hlast (by decide)
    (by decide)

/-- The line that closes a subgraph, where one is open. -/
theorem checkLine_closing : checkLine (depth + 1) (indented k "end".toList) = .ok depth := by
  rw [checkLine_indented k (depth + 1) tidy_closing]
  rfl

end CheckLine

/-! ### Many lines -/

/-- After a line that passes come the others. -/
theorem checkLines_cons {depth depth' : Nat} {l : List Char} (h : checkLine depth l = .ok depth')
    (ls : List (List Char)) : checkLines depth (l :: ls) = checkLines depth' ls := by
  rw [checkLines, h]

/-- Lines are checked one after another. -/
theorem checkLines_append {depth depth' : Nat} {ls ls' : List (List Char)}
    (h : checkLines depth ls = .ok depth') :
    checkLines depth (ls ++ ls') = checkLines depth' ls' := by
  induction ls generalizing depth with
  | nil =>
      obtain rfl : depth = depth' := Except.ok.inj h
      rfl
  | cons l ls ih =>
      cases hl : checkLine depth l with
      | error flaw =>
          rw [checkLines, hl] at h
          exact absurd h (by simp)
      | ok next =>
          rw [checkLines_cons hl] at h
          rw [List.cons_append, checkLines_cons hl, ih h]

/-- Lines in which every subgraph that is opened is closed, and no other. -/
inductive Nested : List (List Char) → Prop
  | nil : Nested []
  | line (k : Nat) {core : List Char} : Inert core → Nested [indented k core]
  | append {ls ls' : List (List Char)} : Nested ls → Nested ls' → Nested (ls ++ ls')
  | subgraph (k : Nat) {name : List Char} {ls : List (List Char)} :
      Tidy ("subgraph ".toList ++ name) → Nested ls →
      Nested (indented k ("subgraph ".toList ++ name) :: (ls ++ [indented k "end".toList]))

namespace Nested

variable {ls : List (List Char)}

/-- Nested lines pass the check and leave open what was open before. -/
theorem checkLines_eq (h : Nested ls) (depth : Nat) : checkLines depth ls = .ok depth := by
  induction h generalizing depth with
  | nil => rfl
  | line k hcore => exact checkLines_cons (checkLine_inert k depth hcore) []
  | append _ _ ih ih' => rw [checkLines_append (ih depth), ih' depth]
  | subgraph k hopening _ ih =>
      rw [checkLines_cons (checkLine_opening k depth hopening), checkLines_append (ih (depth + 1))]
      exact checkLines_cons (checkLine_closing k depth) []

/-- Nested lines are indented tidy lines. -/
theorem tidy (h : Nested ls) : ∀ l ∈ ls, ∃ k core, l = indented k core ∧ Tidy core := by
  induction h with
  | nil => exact fun l hl => absurd hl List.not_mem_nil
  | line k hcore =>
      intro l hl
      exact ⟨k, _, List.mem_singleton.mp hl, hcore.toTidy⟩
  | append _ _ ih ih' => exact fun l hl => (List.mem_append.mp hl).elim (ih l) (ih' l)
  | subgraph k hopening _ ih =>
      intro l hl
      rcases List.mem_cons.mp hl with rfl | hl
      · exact ⟨k, _, rfl, hopening⟩
      · rcases List.mem_append.mp hl with hl | hl
        · exact ih l hl
        · exact ⟨k, _, List.mem_singleton.mp hl, tidy_closing⟩

/-- One after another, whatever they come from. -/
theorem flatMap {α : Type} {xs : List α} {f : α → List (List Char)}
    (h : ∀ x ∈ xs, Nested (f x)) : Nested (xs.flatMap f) := by
  induction xs with
  | nil => exact Nested.nil
  | cons x xs ih =>
      rw [List.flatMap_cons]
      exact (h x List.mem_cons_self).append (ih fun y hy => h y (List.mem_cons_of_mem x hy))

end Nested

/-- An indented tidy line ends no line. -/
theorem Tidy.indented_one_line {core : List Char} (h : Tidy core) (k : Nat) :
    ∀ c ∈ indented k core, Text.isLineEnd c = false := by
  intro c hc
  rcases List.mem_append.mp hc with hc | hc
  · rw [List.eq_of_mem_replicate hc]
    decide
  · exact h.one_line c hc

/-- Forcing a direction leaves tidy lines as they are. -/
theorem forceFrom_tidy {d : Directive} (hd : d ∈ [flowchartDirective, subgraphDirective])
    {ls : List (List Char)} (h : ∀ l ∈ ls, ∃ k core, l = indented k core ∧ Tidy core) :
    forceFrom d true 0 (ls.flatMap (· ++ ['\n'])) = ls.flatMap (· ++ ['\n']) := by
  refine forceFrom_lines (fun l hl hmem => ?_) fun l hl rest => ?_
  · obtain ⟨k, core, rfl, hcore⟩ := h l hl
    exact absurd (hcore.indented_one_line k _ hmem) (by decide)
  · obtain ⟨k, core, rfl, hcore⟩ := h l hl
    rw [indented, List.append_assoc]
    exact hcore.settled d hd k rest

/-- Forcing directions leaves tidy lines as they are. -/
theorem forceTopDown_eq {ls : List (List Char)}
    (h : ∀ l ∈ ls, ∃ k core, l = indented k core ∧ Tidy core) :
    forceTopDown (String.ofList (ls.flatMap (· ++ ['\n']))) =
      String.ofList (ls.flatMap (· ++ ['\n'])) := by
  rw [forceTopDown, String.toList_ofList, forceFrom_tidy (by simp) h, forceFrom_tidy (by simp) h]

/-! ### The directive of the diagram -/

/-- A directive at the start of a later line is found. -/
theorem hasDirective_append {cs : List Char} (h : hasDirective true cs = true) (l : List Char)
    (atStart : Bool) : hasDirective atStart (l ++ '\n' :: cs) = true := by
  induction l generalizing atStart with
  | nil => simp [hasDirective, h]
  | cons c l ih => simp [hasDirective, ih]

/-- The first line of a graph is a directive. -/
theorem hasDirective_flowchart (rest : List Char) :
    hasDirective true ("flowchart TD".toList ++ '\n' :: rest) = true :=
  rfl

end Flowchart.Diagram
