import Flowchart.Proofs.Source.Cases
import Flowchart.Proofs.Text.Nesting

/-!
# Counted loops

The head of a counted loop holds three parts between its parentheses. A loop is read through two scans
of its header, in which every run of blanks is one space: the first finds the parenthesis that closes
the head, the second the semicolons between the parts.

The first scan returns what stands between the parentheses, whatever closed parts these are. The second
one knows no backslashes: a literal that holds its own quote ends too early for it, and the loop may
lose its parts (`Reading.forLoop_escapedQuote`). With other literals the loop is a counted one with its
three parts (`Reading.forLoop_counted`).

## Main results

* `IsClosed.groupAfter`: the parenthesis that closes the head is found.
* `forLoop_counted`: a loop with three parts is a counted one with these parts.
* `forLoop_escapedQuote`: a loop that loses its parts because of a quote.
-/

namespace Flowchart

/-- The head of a loop as it is written, with what stands between the keyword and the parenthesis, and
between the head and the body. -/
structure LoopHead where
  gap : List Char := []
  init : List Char
  cond : List Char
  update : List Char
  trail : List Char := []

namespace LoopHead

variable {literal : Char → List Char → Prop} (l : LoopHead)

/-- What stands between the parentheses. -/
def inside : List Char := l.init ++ ';' :: (l.cond ++ ';' :: l.update)

/-- The text of a head. -/
def text : List Char := "for".toList ++ (l.gap ++ '(' :: (l.inside ++ ')' :: l.trail))

/-- A part of a head: brackets and quotes are closed, and there is no semicolon outside of them. -/
abbrev IsPart (literal : Char → List Char → Prop) (cs : List Char) : Prop :=
  Text.Nested Text.allBrackets literal (· ≠ ';') cs

/-- Three parts with blanks where they may stand. -/
structure IsClosed (literal : Char → List Char → Prop) (l : LoopHead) : Prop where
  gap : Text.allBlank l.gap = true
  init : IsPart literal l.init
  cond : IsPart literal l.cond
  update : IsPart literal l.update
  trail : Text.allBlank l.trail = true

/-- What holds of the literals may be weakened. -/
theorem IsClosed.mono {literal' : Char → List Char → Prop} {l : LoopHead} (h : l.IsClosed literal)
    (hliteral : ∀ q inside, literal q inside → literal' q inside) : l.IsClosed literal' :=
  ⟨h.gap, h.init.mono hliteral fun _ => id, h.cond.mono hliteral fun _ => id,
    h.update.mono hliteral fun _ => id, h.trail⟩

/-- The head with every run of blanks as one space, and without blanks after it. -/
def squeezed : LoopHead :=
  { gap := Text.squeeze l.gap, init := Text.squeeze l.init, cond := Text.squeeze l.cond
    update := Text.squeeze l.update }

variable {l}

/-- A semicolon between two closed parts is inside of the head only. -/
theorem IsClosed.inside (h : l.IsClosed literal) :
    Text.Nested Text.allBrackets literal (fun _ => True) l.inside := by
  have hpart : ∀ {cs}, IsPart literal cs →
      Text.Nested Text.allBrackets literal (fun _ => True) cs := fun hcs =>
    hcs.mono (fun _ _ => id) fun _ _ => trivial
  have hsemicolon : Text.isQuote ';' = false ∧ ∀ b ∈ Text.allBrackets, ';' ≠ b.1 ∧ ';' ≠ b.2 := by
    decide
  exact (hpart h.init).append (.plain hsemicolon.1 hsemicolon.2 trivial
    ((hpart h.cond).append (.plain hsemicolon.1 hsemicolon.2 trivial (hpart h.update))))

/-- Squeezing the blanks leaves the parts closed. -/
theorem IsClosed.squeezed (h : l.IsClosed literal)
    (hliteral : ∀ q inside, Text.isQuote q = true → literal q inside →
      literal q (Text.squeeze inside)) : l.squeezed.IsClosed literal where
  gap := Text.allBlank_squeezeFrom h.gap false
  init := h.init.squeezeFrom hliteral (by decide) false
  cond := h.cond.squeezeFrom hliteral (by decide) false
  update := h.update.squeezeFrom hliteral (by decide) false
  trail := rfl

/-- The keyword has word characters only. -/
theorem isPlainWord_for : Text.IsPlainWord "for".toList :=
  ⟨by decide, List.all_eq_true.mp (by decide)⟩

/-- The blanks in a head are squeezed part by part. -/
theorem squeeze_text (l : LoopHead) :
    Text.squeeze l.text = "for".toList ++ (l.squeezed.gap ++ '(' ::
      (l.squeezed.inside ++ ')' :: Text.squeeze l.trail)) := by
  have hfor : ∀ c ∈ "for".toList, Text.isBlank c = false := by simp [Text.isBlank]
  have hmark : Text.isBlank '(' = false ∧ Text.isBlank ';' = false ∧ Text.isBlank ')' = false := by
    decide
  have hcons : ∀ {c : Char}, Text.isBlank c = false → ∀ xs ys,
      Text.squeeze (xs ++ c :: ys) = Text.squeeze xs ++ c :: Text.squeeze ys := fun hc =>
    Text.squeezeFrom_append_cons hc false
  have hinside : Text.squeeze l.inside = l.squeezed.inside := by
    rw [LoopHead.inside, hcons hmark.2.1, hcons hmark.2.1]
    rfl
  rw [text, Text.squeeze, Text.squeezeFrom_append_of_not_isBlank hfor, ← Text.squeeze,
    hcons hmark.1, hcons hmark.2.2, hinside]
  rfl

/-- A squeezed head ends in its parenthesis. -/
theorem exists_squeezed_text (l : LoopHead) : ∃ front, l.squeezed.text = front ++ [')'] :=
  ⟨"for".toList ++ (l.squeezed.gap ++ '(' :: l.squeezed.inside), by
    simp [text, LoopHead.squeezed]⟩

/-- A head with its blanks squeezed starts and ends with none. -/
theorem trim_squeezed_text (l : LoopHead) : Text.trim l.squeezed.text = l.squeezed.text := by
  have hfirst : ∀ c ∈ l.squeezed.text.head?, Text.isBlank c = false := by
    intro c hc
    obtain rfl := Option.some.inj (show some 'f' = some c from hc)
    decide
  have hlast : ∀ c ∈ l.squeezed.text.getLast?, Text.isBlank c = false := by
    intro c hc
    obtain ⟨front, hfront⟩ := l.exists_squeezed_text
    rw [hfront, List.getLast?_concat] at hc
    obtain rfl := Option.some.inj hc
    decide
  exact Text.trim_indented 0 hfirst hlast

/-- The words of a head, with single spaces between them. -/
theorem normalize_text (h : Text.allBlank l.trail = true) :
    Text.normalize l.text = l.squeezed.text := by
  have hsplit : Text.squeeze l.text = l.squeezed.text ++ Text.squeeze l.trail := by
    rw [squeeze_text, text]
    simp [LoopHead.squeezed]
  have htrail : Text.allBlank (Text.squeeze l.trail) = true := Text.allBlank_squeezeFrom h false
  rw [Text.normalize, hsplit, Text.trim_append_of_allBlank _ htrail, trim_squeezed_text]

/-- What stands between the parentheses of a head is found again. -/
theorem IsClosed.groupAfter (h : l.IsClosed literal) :
    Text.groupAfter "for".toList l.text = l.inside := by
  have hgroup : Text.groupFrom .code 0 (l.inside ++ ')' :: l.trail) = some l.inside :=
    Text.groupFrom_eq_some_iff.mpr ⟨h.inside.balanced, l.trail, rfl⟩
  rw [text, Text.groupAfter_append isPlainWord_for h.gap, hgroup]
  rfl

/-- The parts are found again, if no literal holds its own quote. -/
theorem IsClosed.splitTop (h : l.IsClosed fun q inside => q ∉ inside) :
    Text.splitTop (· == ';') l.inside =
      [Text.trim l.init, Text.trim l.cond, Text.trim l.update] := by
  have hskip : ∀ {cs}, IsPart (fun q inside => q ∉ inside) cs → ∀ rest,
      Text.splitTopFrom (· == ';') none 0 [] (cs ++ rest) =
        Text.splitTopFrom (· == ';') none 0 cs.reverse rest := by
    intro cs hcs rest
    rw [Text.splitTopFrom_append hcs 0 (fun _ c hc => beq_eq_false_iff_ne.mpr hc), List.append_nil]
  have hcut : ∀ cs rest, Text.splitTopFrom (· == ';') none 0 cs.reverse (';' :: rest) =
      Text.trim cs :: Text.splitTopFrom (· == ';') none 0 [] rest := by
    intro cs rest
    rw [Text.splitTopFrom, List.reverse_reverse]
    rfl
  have hend : ∀ cs, Text.splitTopFrom (· == ';') none 0 cs.reverse [] = [Text.trim cs] := by
    intro cs
    rw [Text.splitTopFrom, List.reverse_reverse]
  have hupdate := hskip h.update []
  rw [List.append_nil, hend] at hupdate
  rw [Text.splitTop, LoopHead.inside, hskip h.init, hcut, hskip h.cond, hcut, hupdate]

end LoopHead

namespace Reading

variable (r : Reading) {t b : ConcreteTree} {l : LoopHead}

/-- The header of a loop is its head with every run of blanks as one space. -/
theorem header_loop (hsource : ConcreteTree.slice r.source t.start b.start = l.text)
    (htrail : Text.allBlank l.trail = true) : r.header t (some b) = l.squeezed.text := by
  obtain ⟨front, hfront⟩ := l.exists_squeezed_text
  have hdrop : ∀ d, (')' == d) = false →
      Text.dropEndWhile (· == d) l.squeezed.text = l.squeezed.text := by
    intro d hd
    rw [hfront]
    exact dropEndWhile_concat_of_neg (p := (· == d)) hd front
  have hheader : r.header t (some b) = Text.trim (Text.dropEndWhile (· == ':')
      (Text.dropEndWhile (· == '\x7b')
        (Text.normalize (ConcreteTree.slice r.source t.start b.start)))) := rfl
  rw [hheader, hsource, LoopHead.normalize_text htrail, hdrop _ (by decide), hdrop _ (by decide),
    LoopHead.trim_squeezed_text]

/-- A loop with a head of three closed parts. What stands between the parentheses of its header is found
as a whole. If no literal holds its own quote, the loop is a counted one, and its parts are those of its
head with every run of blanks as one space, without blanks at the ends. -/
theorem forLoop_counted (r : Reading) (t b : ConcreteTree) (l : LoopHead)
    (hbody : t.child? "body" = some b)
    (hsource : ConcreteTree.slice r.source t.start b.start = l.text)
    (hclosed : l.IsClosed fun _ _ => True) :
    (∃ gap inside, Text.allBlank gap = true ∧ Text.Balanced inside ∧
        r.header t (some b) = "for".toList ++ (gap ++ '(' :: (inside ++ [')'])) ∧
        Text.groupAfter "for".toList (r.header t (some b)) = inside) ∧
      ((l.IsClosed fun q inside => q ∉ inside) →
        r.forLoop t = do
          let body ← r.block (some b)
          return .countedLoop t.line (String.ofList (r.header t (some b)))
            (String.ofList (Text.normalize l.init))
            (if Text.normalize l.cond = [] then "forever" else String.ofList (Text.normalize l.cond))
            (String.ofList (Text.normalize l.update)) body) := by
  have hheader := r.header_loop hsource hclosed.trail
  have hsqueezed : l.squeezed.IsClosed fun _ _ => True := hclosed.squeezed fun _ _ _ _ => trivial
  have hgroup : Text.groupAfter "for".toList (r.header t (some b)) = l.squeezed.inside := by
    rw [hheader, hsqueezed.groupAfter]
  refine ⟨⟨l.squeezed.gap, l.squeezed.inside, hsqueezed.gap, hsqueezed.inside.balanced, hheader,
    hgroup⟩, fun hplain => ?_⟩
  have hparts := (hplain.squeezed fun q inside hq h => Text.not_mem_squeezeFrom hq h false).splitTop
  have hbodyOf : r.bodyOf t = some b := by rw [bodyOf, hbody]
  rw [forLoop, hbodyOf]
  simp only [hgroup, hparts, List.isEmpty_iff]
  rfl

/-- The tree of a loop whose body is a call of four bytes that starts at the byte `n`. -/
def loopTree (n : Nat) : ConcreteTree :=
  { kind := "for_statement", start := 0, stop := n + 4, row := 0
    children := [
      { kind := "for", start := 0, stop := 3, row := 0, isNamed := false },
      { kind := "expression_statement", start := n, stop := n + 4, row := 0, field := some "body" }] }

/-- A head with a semicolon in a literal, a line end, and a part that is empty. -/
def calledHead : LoopHead where
  gap := [' ']
  init := "i = f".toList ++ '(' :: (('"' :: (";".toList ++ ['"'])) ++ [')'])
  cond := "\n  i < n".toList ++ '[' :: ("0".toList ++ [']'])
  update := " ".toList
  trail := [' ']

/-- The parts of this head are closed. -/
theorem isClosed_calledHead : calledHead.IsClosed fun q inside => q ∉ inside := by
  have hround : ('(', ')') ∈ Text.allBrackets := by decide
  have hsquare : ('[', ']') ∈ Text.allBrackets := by decide
  have hcall : Text.Nested Text.allBrackets (fun q inside => q ∉ inside) (fun _ => True)
      ('"' :: (";".toList ++ ['"'])) :=
    .literal (by decide) (Text.isQuoted_of_not_mem (by decide) (by decide)) (by decide) .nil
  have hindex : Text.Nested Text.allBrackets (fun q inside => q ∉ inside) (fun _ => True)
      ("0".toList ++ []) := .plain_append (by decide) .nil
  exact ⟨by decide, .plain_append (by decide) (.group hround hcall .nil),
    .plain_append (by decide) (.group hsquare hindex .nil),
    show LoopHead.IsPart _ (" ".toList ++ []) from .plain_append (by decide) .nil, by decide⟩

/-- A loop with a call in its condition is a counted one. -/
theorem forLoop_counted_called :
    let r := ofText .java "for (i = f(\";\");\n  i < n[0]; ) g();"
    let t := loopTree 31
    ∃ b, t.child? "body" = some b ∧ ConcreteTree.slice r.source t.start b.start = calledHead.text ∧
      (calledHead.IsClosed fun _ _ => True) ∧ (calledHead.IsClosed fun q inside => q ∉ inside) ∧
      Text.groupAfter "for".toList (r.header t (some b)) = "i = f(\";\"); i < n[0]; ".toList ∧
      r.forLoop t = do
        let body ← r.block (some b)
        return .countedLoop t.line (String.ofList (r.header t (some b))) "i = f(\";\")" "i < n[0]" ""
          body := by
  intro r t
  have hsource : ConcreteTree.slice r.source 0 31 = calledHead.text := by decide +kernel
  have hplain := isClosed_calledHead
  have hclosed : calledHead.IsClosed fun _ _ => True :=
    hplain.mono fun _ _ _ => trivial
  obtain ⟨-, hcounted⟩ := forLoop_counted r t _ calledHead rfl hsource hclosed
  refine ⟨_, rfl, hsource, hclosed, hplain, by decide +kernel, (hcounted hplain).trans ?_⟩
  have hinit : Text.normalize calledHead.init = "i = f(\";\")".toList := by decide +kernel
  have hcond : Text.normalize calledHead.cond = "i < n[0]".toList := by decide +kernel
  have hupdate : Text.normalize calledHead.update = [] := by decide +kernel
  rw [hinit, hcond, hupdate]
  rfl

/-- A head with a literal that holds its own quote. -/
def escapedHead : LoopHead where
  gap := [' ']
  init := "c = ".toList ++ '\'' :: (['\\', '\''] ++ ['\''])
  cond := " c != x".toList
  update := " c++".toList
  trail := [' ']

/-- The second scan takes the quote in the literal for its end. It is in a literal from the real end on
and finds no semicolon, so the loop is no counted one. -/
theorem forLoop_escapedQuote :
    let r := ofText .javascript "for (c = '\\''; c != x; c++) f();"
    let t := loopTree 28
    ∃ b, t.child? "body" = some b ∧ ConcreteTree.slice r.source t.start b.start = escapedHead.text ∧
      (escapedHead.IsClosed fun _ _ => True) ∧
      (r.forLoop t).value =
        .loop (some 1) "for (c = '\\''; c != x; c++)" [.simple (some 1) "f();"] [] := by
  intro r t
  have hinit : LoopHead.IsPart (fun _ _ => True) escapedHead.init :=
    .plain_append (by decide) (.literal (by decide) (.escape .nil) trivial .nil)
  have hsource : ConcreteTree.slice r.source 0 28 = escapedHead.text := by decide +kernel
  have hclosed : escapedHead.IsClosed fun _ _ => True :=
    ⟨by decide, hinit,
      show LoopHead.IsPart _ (" c != x".toList ++ []) from .plain_append (by decide) .nil,
      show LoopHead.IsPart _ (" c++".toList ++ []) from .plain_append (by decide) .nil, by decide⟩
  refine ⟨_, rfl, hsource, hclosed, ?_⟩
  have hheader : r.header t (r.bodyOf t) = "for (c = '\\''; c != x; c++)".toList := by decide +kernel
  have hparts : Text.splitTop (· == ';') (Text.groupAfter "for".toList
      "for (c = '\\''; c != x; c++)".toList) = ["c = '\\''; c != x; c++".toList] := by decide +kernel
  have hbody : (r.block (r.bodyOf t)).value = [.simple (some 1) "f();"] := by rfl
  rw [forLoop]
  simp only [hheader, hparts, Logged.value_bind, hbody]
  rfl

end Reading

end Flowchart
