import Flowchart.Proofs.Text.SourceLines
import Flowchart.Proofs.Text.Utf8
import Flowchart.Source.Indented

/-!
# Heads of statements

The head of a loop, a resource or a choice between patterns is the line that it starts on, without
blanks around it and colons at its end. If the body starts on the same line, the head ends where the
body starts; the place of the body is given in bytes, so the head is what ends before this byte
(`Text.Utf8.charsBefore`).

The line is looked up by its number in the text cut at every line end, but source positions count only
line feeds and carriage returns. `head_toStmt` says what comes of it: the head is right as long as no
counted line up to its own has a soft end. Else it is the head of another line, or a part of its own
(`head_formFeed`).

## Main results

* `header_eq`: the head that is found, in terms of the lines of the text.
* `head_toStmt`: it is the right one exactly as long as no soft end comes before.
* `head_oneLine`, `head_formFeed`: a head that is found, and one that is lost to a form feed.
-/

namespace Flowchart

/-- The head of a loop, a resource or a choice. -/
def Stmt.head? : Stmt → Option String
  | .loop _ text _ _ | .resource _ text _ _ | .switch _ text _ _ => some text
  | .simple .. | .branch .. | .countedLoop .. | .guarded .. | .terminal .. | .function ..
  | .container .. | .block .. | .skip => none

/-- A loop, a resource or a choice at `span`, with its body, if it has one, from `start?` on. -/
inductive AbstractTree.HasHead : AbstractTree → (span : Span) → (start? : Option Span) → Prop
  | block {kind name : String} {span start : Span} {head guard : Option AbstractTree}
      {first : AbstractTree} {rest orelse handlers finalbody : List AbstractTree} :
      kind ∈ ["For", "AsyncFor", "While", "With", "AsyncWith"] → first.span = some start →
      0 ≤ start.column →
      HasHead (.compound kind (some span) name head guard (first :: rest) orelse handlers finalbody)
        span (some start)
  | choice {kind : String} {span : Span} {subject : AbstractTree} {cases : List AbstractTree} :
      HasHead (.matching kind (some span) subject cases) span none

namespace Source

/-- The line with a number as source positions count lines, without its end; empty if there is
none. -/
def positionLine (s : Source) (number : Int) : List Char :=
  if 1 ≤ number then ((s.counted[(number - 1).toNat]?).map Text.withoutEnd).getD [] else []

/-- The head of a statement at `span` on the line `line`, with its body from `start?` on. -/
def headText (line : List Char) (span : Span) : (start? : Option Span) → String
  | none => withoutColon line
  | some start =>
    withoutColon
      (if start.line = span.line then Text.Utf8.charsBefore start.column.toNat line else line)

section Lines

variable {code : String} {number : Int}

/-- A line of a text is the counted line up to its first line end, if no counted line before has a soft
end. -/
theorem lineAt_eq_takeWhile
    (h : ∀ line ∈ (ofString code).counted.take (number - 1).toNat, Text.IsFirm line) :
    (ofString code).lineAt number =
      ((ofString code).positionLine number).takeWhile (!Text.isLineEnd ·) := by
  rw [lineAt, positionLine]
  split_ifs with hnumber
  · have hlines : (ofString code).lines[(number - 1).toNat]? = _ := Text.lines_getElem? h
    rw [hlines]
    cases hline : (ofString code).counted[(number - 1).toNat]? with
    | none =>
        have hnone : (Text.sourceLines code.toList)[(number - 1).toNat]? = none := hline
        rw [hnone]
        rfl
    | some line =>
        have hsome : (Text.sourceLines code.toList)[(number - 1).toNat]? = some line := hline
        rw [hsome]
        exact (Text.takeWhile_withoutEnd line).symm
  · rfl

/-- The lines of a text agree with those that source positions count, as far as these have no soft
ends. -/
theorem lineAt_eq_positionLine
    (h : ∀ line ∈ (ofString code).counted.take number.toNat, Text.IsFirm line) :
    (ofString code).lineAt number = (ofString code).positionLine number := by
  rw [lineAt_eq_takeWhile fun line hline => h line (List.take_subset_take_left _ (by omega) hline),
    positionLine]
  split_ifs with hnumber
  · cases hline : (ofString code).counted[(number - 1).toNat]? with
    | none => rfl
    | some line =>
        obtain ⟨hindex, hget⟩ := List.getElem?_eq_some_iff.mp hline
        have hmem : line ∈ (ofString code).counted.take number.toNat :=
          List.mem_take_iff_getElem.mpr ⟨(number - 1).toNat, by omega, hget⟩
        exact (Text.takeWhile_withoutEnd line).trans (Text.takeWhile_of_isFirm (h line hmem))
  · rfl

end Lines

/-- A slice from the start is a start of the list. -/
theorem slice_zero {α : Type} (items : List α) {stop : Int} (h : 0 ≤ stop) :
    slice items 0 stop = items.take stop.toNat := by
  rw [slice]
  simp [Int.not_lt.mpr h]

/-- The head of a statement is what its line gives. -/
theorem header_eq {t : AbstractTree} {span : Span} {start? : Option Span}
    (h : t.HasHead span start?) (s : Source) :
    s.header t t.body = .ok (headText (s.lineAt span.line) span start?) := by
  cases h with
  | choice => rfl
  | @block _ _ _ start _ _ first _ _ _ _ _ hstart hcolumn =>
      have hspan : spanOf first = .ok start := by rw [spanOf, hstart]
      have hcut := Text.Utf8.decodeSkipping_take_encode start.column.toNat (s.lineAt span.line)
      rw [← slice_zero _ hcolumn] at hcut
      simp only [headText, ← hcut, header, AbstractTree.body, hspan]
      by_cases hline : start.line = span.line
      · rw [if_pos hline]
        exact if_pos hline
      · rw [if_neg hline]
        exact if_neg hline

/-- What two computations come to, both have come to. -/
theorem exists_of_bind_eq_ok {α β : Type} {x : Except SourceFault α} {f : α → Except SourceFault β}
    {b : β} (h : x >>= f = .ok b) : ∃ a, x = .ok a ∧ f a = .ok b := by
  cases x with
  | error fault => exact absurd h nofun
  | ok a => exact ⟨a, rfl, h⟩

section Blocks

variable (s : Source) {kind : String} (span : Option Span) (name : String)
  (head guard : Option AbstractTree) (body orelse handlers finalbody : List AbstractTree)

/-- A loop is made of its head, its body and what follows it. -/
theorem toStmt_loop (h : kind ∈ ["For", "AsyncFor", "While"]) :
    (AbstractTree.compound kind span name head guard body orelse handlers finalbody).toStmt s = do
      let text ← s.header
        (.compound kind span name head guard body orelse handlers finalbody) body
      return .loop (span.map (·.line)) text (← AbstractTree.toStmts s body)
        (← AbstractTree.toStmts s orelse) := by
  simp only [List.mem_cons, List.not_mem_nil, or_false] at h
  rcases h with rfl | rfl | rfl <;> rw [AbstractTree.toStmt] <;> rfl

/-- A resource is made of its head and its body. -/
theorem toStmt_resource (h : kind ∈ ["With", "AsyncWith"]) :
    (AbstractTree.compound kind span name head guard body orelse handlers finalbody).toStmt s = do
      let text ← s.header
        (.compound kind span name head guard body orelse handlers finalbody) body
      return .resource (span.map (·.line)) text (← AbstractTree.toStmts s body) "Exit With" := by
  simp only [List.mem_cons, List.not_mem_nil, or_false] at h
  rcases h with rfl | rfl <;> rw [AbstractTree.toStmt] <;> rfl

end Blocks

/-- A statement has the head of its line. -/
theorem head?_of_toStmt {t : AbstractTree} {span : Span} {start? : Option Span}
    (h : t.HasHead span start?) {s : Source} {stmt : Stmt} (hstmt : t.toStmt s = .ok stmt) :
    stmt.head? = some (headText (s.lineAt span.line) span start?) := by
  have hheader := header_eq h s
  cases h with
  | @choice kind _ subject cases =>
      change s.header (.matching kind (some span) subject cases) [] = _ at hheader
      rw [AbstractTree.toStmt] at hstmt
      obtain ⟨text, -, hstmt⟩ := exists_of_bind_eq_ok hstmt
      obtain ⟨cs, -, hstmt⟩ := exists_of_bind_eq_ok hstmt
      obtain ⟨span', -, hstmt⟩ := exists_of_bind_eq_ok hstmt
      rw [hheader] at hstmt
      obtain rfl := Except.ok.inj hstmt
      rfl
  | @block kind name _ _ head guard first rest orelse handlers finalbody hkind =>
      change s.header (.compound kind (some span) name head guard (first :: rest) orelse handlers
        finalbody) (first :: rest) = _ at hheader
      have hkinds : kind ∈ ["For", "AsyncFor", "While"] ∨ kind ∈ ["With", "AsyncWith"] :=
        List.mem_append.mp hkind
      rcases hkinds with hloop | hresource
      · rw [toStmt_loop s _ _ _ _ _ _ _ _ hloop, hheader] at hstmt
        obtain ⟨text, htext, hstmt⟩ := exists_of_bind_eq_ok hstmt
        obtain rfl := Except.ok.inj htext
        obtain ⟨stmts, -, hstmt⟩ := exists_of_bind_eq_ok hstmt
        obtain ⟨others, -, hstmt⟩ := exists_of_bind_eq_ok hstmt
        obtain rfl := Except.ok.inj hstmt
        rfl
      · rw [toStmt_resource s _ _ _ _ _ _ _ _ hresource, hheader] at hstmt
        obtain ⟨text, htext, hstmt⟩ := exists_of_bind_eq_ok hstmt
        obtain rfl := Except.ok.inj htext
        obtain ⟨stmts, -, hstmt⟩ := exists_of_bind_eq_ok hstmt
        obtain rfl := Except.ok.inj hstmt
        rfl

/-- A loop, a resource and a choice have the head of their line in the text cut at every line end,
and these lines are those that are counted, cut further. If no counted line before has a soft end, the
head is that of the counted line, up to its first soft end; so if this line has none either, it is the
head of the counted line. -/
theorem head_toStmt (code : String) {t : AbstractTree} {span : Span} {start? : Option Span}
    (h : t.HasHead span start?) :
    let s := ofString code
    s.header t t.body = .ok (headText (s.lineAt span.line) span start?) ∧
    (∀ stmt, t.toStmt s = .ok stmt →
      stmt.head? = some (headText (s.lineAt span.line) span start?)) ∧
    s.lines = s.counted.flatMap Text.lines ∧
    ((∀ line ∈ s.counted.take (span.line - 1).toNat, Text.IsFirm line) →
      s.lineAt span.line = (s.positionLine span.line).takeWhile (!Text.isLineEnd ·)) ∧
    ((∀ line ∈ s.counted.take span.line.toNat, Text.IsFirm line) →
      s.header t t.body = .ok (headText (s.positionLine span.line) span start?) ∧
      ∀ stmt, t.toStmt s = .ok stmt →
        stmt.head? = some (headText (s.positionLine span.line) span start?)) := by
  intro s
  have hheader := header_eq h s
  have hhead : ∀ stmt, t.toStmt s = .ok stmt →
      stmt.head? = some (headText (s.lineAt span.line) span start?) :=
    fun _ hstmt => head?_of_toStmt h hstmt
  refine ⟨hheader, hhead, Text.lines_eq_flatMap _, fun hfirm => ?_, fun hfirm => ?_⟩
  · exact lineAt_eq_takeWhile hfirm
  · rw [← lineAt_eq_positionLine hfirm]
    exact ⟨hheader, hhead⟩

/-- A loop over `ys` at `span` with one call as its body at `start`. -/
def loopTree (span start : Span) : AbstractTree :=
  .compound "For" (some span) "" none none
    [.leaf "Expr" (some start) (some (.leaf "Call" (some start) none none false)) none false] [] [] []

/-- A loop on one line: its head ends before the body, which is a byte further than its characters
are. -/
theorem head_oneLine :
    let s := ofString "for é in ys: f(é)\n"
    let span : Span := ⟨1, 0, some 1, some 19⟩
    let start : Span := ⟨1, 14, some 1, some 19⟩
    (loopTree span start).HasHead span (some start) ∧
      (∀ line ∈ s.counted.take span.line.toNat, Text.IsFirm line) ∧
      s.header (loopTree span start) (loopTree span start).body = .ok "for é in ys" ∧
      ∃ stmt, (loopTree span start).toStmt s = .ok stmt ∧ stmt.head? = some "for é in ys" := by
  intro s span start
  have hhead : (loopTree span start).HasHead span (some start) :=
    .block (by decide) rfl (by decide)
  have hfirm : ∀ line ∈ s.counted.take span.line.toNat, Text.IsFirm line := by decide +kernel
  have htext : headText (s.positionLine span.line) span (some start) = "for é in ys" := by
    decide +kernel
  obtain ⟨-, -, -, -, hlast⟩ := head_toStmt "for é in ys: f(é)\n" hhead
  obtain ⟨hheader, hstmt⟩ := hlast hfirm
  rw [htext] at hheader hstmt
  exact ⟨hhead, hfirm, hheader, _, rfl, hstmt _ rfl⟩

/-- A form feed on a line before: the head is that of the line before, which is empty. -/
theorem head_formFeed :
    let s := ofString "x = 1\n\x0c\nfor i in ys:\n    print(i)\n"
    let span : Span := ⟨3, 0, some 4, some 12⟩
    let start : Span := ⟨4, 4, some 4, some 12⟩
    (loopTree span start).HasHead span (some start) ∧ start.line ≠ span.line ∧
      s.positionLine span.line = "for i in ys:".toList ∧
      headText (s.positionLine span.line) span (some start) = "for i in ys" ∧
      s.header (loopTree span start) (loopTree span start).body = .ok "" ∧
      ∃ stmt, (loopTree span start).toStmt s = .ok stmt ∧ stmt.head? = some "" :=
  ⟨.block (by decide) rfl (by decide), by decide, by decide +kernel, by decide +kernel, by rfl,
    _, rfl, by decide +kernel⟩

end Source

end Flowchart
