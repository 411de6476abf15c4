import Flowchart.Proofs.Source.Heads
import Mathlib.Data.Int.LeastGreatest
import Mathlib.Order.Bounds.Basic

/-!
# Lines of cleanups

The tree of a guarded statement does not say where the keyword of its cleanup stands. The line of the
keyword is looked for in the source: it is taken to be the last line that begins with the text of the
keyword, among those after the other parts of the statement and up to the line on which the first
statement of the cleanup starts.

`HasCleanup` says what the parser promises: the keyword begins a line after all of the other parts, and
the first statement of the cleanup does not stand before it. Under that, `cleanupLine_toStmt` says which
line is found. It is the line of the keyword exactly if no line from there to the first statement
begins with the same text. The lines between hold blanks, comments and decorators, so for the most part
it comes down to the first statement: a name that goes on from the text of the keyword is enough to move
the line (`cleanupLine_longName`).

## What the parser promises

The lines of statements come from the parser, and the source is read by lines. That both speak of the
same lines has to be supposed, and so has the place of the keyword: behind the other parts of the
statement and not behind the first statement of the cleanup. `HasCleanup` says this and no more. What
stands on the lines in between is a matter of the source, so the theorem is an equivalence in terms of
those lines.

## Main results

* `HasCleanup.cleanupLine_eq`: the line that is found, for a statement with a cleanup.
* `cleanupLine_toStmt`: it is the line of the keyword exactly if no later line begins as it does.
* `cleanupLine_comment`, `cleanupLine_longName`: two cleanups, one of which is put on a wrong line.
-/

namespace Flowchart

namespace AbstractTree

/-- The parts of a guarded statement before its cleanup. -/
def partsBeforeCleanup : AbstractTree → List (List AbstractTree)
  | .compound _ _ _ _ _ body orelse handlers _ => body :: orelse :: handlers.map AbstractTree.body
  | _ => []

/-- The statements of the cleanup of a guarded statement. -/
def cleanup : AbstractTree → List AbstractTree
  | .compound _ _ _ _ _ _ _ _ finalbody => finalbody
  | _ => []

/-- The node stands on lines before a line. -/
def EndsBefore (t : AbstractTree) (line : Int) : Prop :=
  ∃ span, t.span = some span ∧ span.line < line ∧ ∀ last ∈ span.endLine, last < line

end AbstractTree

/-- The line of a statement's cleanup, if it has one with a line. -/
def Stmt.cleanupLine? : Stmt → Option Int
  | .guarded _ _ _ _ _ cleanup => cleanup.bind (·.line)
  | .simple .. | .branch .. | .loop .. | .countedLoop .. | .switch .. | .resource .. | .terminal ..
  | .function .. | .container .. | .block .. | .skip => none

namespace Source

/-- The line begins with the text of the keyword of a cleanup, whether that goes on or not. -/
def startsCleanup (line : List Char) : Bool := "finally".toList.isPrefixOf (Text.trim line)

/-- The line begins with the keyword of a cleanup itself. -/
def HasKeyword (line : List Char) : Prop :=
  ∃ rest, Text.trim line = "finally".toList ++ rest ∧ ∀ c ∈ rest.head?, Text.isWord c = false

/-- The keyword and its colon are a line of their own. -/
theorem hasKeyword_of_colon {line : List Char} (h : Text.trim line = "finally".toList ++ [':']) :
    HasKeyword line := by
  refine ⟨[':'], h, fun c hc => ?_⟩
  obtain rfl := Option.some.inj hc
  decide

/-- A guarded statement with a cleanup, the keyword of which stands on the line `keyword`, and the first
statement of which stands at `first`. -/
structure HasCleanup (s : Source) (t : AbstractTree) (keyword : Int) (first : Span) : Prop where
  kind_mem : t.kind ∈ ["Try", "TryStar"]
  start_lt : ∃ span, t.span = some span ∧ span.line < keyword
  parts_lt : ∀ part ∈ t.partsBeforeCleanup, ∀ last ∈ part.getLast?, last.EndsBefore keyword
  first_eq : t.cleanup.head?.bind (·.span) = some first
  keyword_le : keyword ≤ first.line
  hasKeyword : HasKeyword (s.positionLine keyword)

/-! ### Looking for a line -/

/-- A line with the keyword begins with its text. -/
theorem startsCleanup_of_hasKeyword {line : List Char} (h : HasKeyword line) :
    startsCleanup line = true := by
  obtain ⟨rest, hrest, -⟩ := h
  rw [startsCleanup, hrest, List.isPrefixOf_iff_prefix]
  exact List.prefix_append _ _

/-- What is found is the last of the lines that begin with the keyword's text. -/
theorem keywordLine_eq_some (s : Source) {keyword : List Char} {start line : Int} {count : Nat}
    (h : IsGreatest {n | (start < n ∧ n ≤ start + count) ∧
      keyword.isPrefixOf (Text.trim (s.lineAt n)) = true} line) :
    s.keywordLine keyword start count = some line := by
  induction count with
  | zero =>
      obtain ⟨⟨⟨hlt, hle⟩, -⟩, -⟩ := h
      omega
  | succ count ih =>
      obtain ⟨⟨⟨hlt, hle⟩, hprefix⟩, hgreatest⟩ := h
      rw [keywordLine]
      split_ifs with hlast
      · have hmem : start + (count + 1 : Nat) ≤ line := hgreatest ⟨⟨by omega, le_rfl⟩, hlast⟩
        exact congrArg some (le_antisymm hmem hle)
      · have hne : line ≠ start + (count + 1 : Nat) := fun heq => hlast (heq ▸ hprefix)
        refine ih ⟨⟨⟨hlt, by omega⟩, hprefix⟩, fun n hn => hgreatest ⟨⟨hn.1.1, ?_⟩, hn.2⟩⟩
        have := hn.1.2
        omega

/-- A line beyond the text is empty. -/
theorem le_length_of_lineAt_ne_nil {s : Source} {n : Int} (h : s.lineAt n ≠ []) :
    1 ≤ n ∧ n ≤ s.lines.length := by
  rw [lineAt] at h
  split_ifs at h with hn
  · refine ⟨hn, ?_⟩
    by_contra hlt
    rw [List.getElem?_eq_none (by omega)] at h
    exact h rfl
  · exact absurd rfl h

/-! ### The parts before -/

variable {part : List AbstractTree} {parts : List (List AbstractTree)} {least line : Int}

/-- The last line of a part before the cleanup is before it. -/
theorem exists_lastLine (hpart : ∀ last ∈ part.getLast?, last.EndsBefore line) (hleast : least < line) :
    ∃ l, lastLine least part = .ok l ∧ l < line := by
  cases hlast : part.getLast? with
  | none => exact ⟨least, by rw [lastLine, hlast], hleast⟩
  | some t =>
      obtain ⟨span, hspan, hlt, hend⟩ := hpart t hlast
      have hspanOf : spanOf t = .ok span := by rw [spanOf, hspan]
      simp only [lastLine, hlast, hspan, Option.bind_some, hspanOf]
      split
      next last hendLine =>
        split_ifs
        · exact ⟨_, rfl, max_lt hleast hlt⟩
        · exact ⟨_, rfl, max_lt hleast (hend last hendLine)⟩
      next => exact ⟨_, rfl, max_lt hleast hlt⟩

/-- What ends before a line leaves the search before it. -/
theorem exists_foldlM_lastLine
    (hparts : ∀ part ∈ parts, ∀ last ∈ part.getLast?, last.EndsBefore line) (hleast : least < line) :
    ∃ l, parts.foldlM lastLine least = .ok l ∧ l < line := by
  induction parts generalizing least with
  | nil => exact ⟨least, rfl, hleast⟩
  | cons part parts ih =>
      obtain ⟨l, hl, hlt⟩ := exists_lastLine (hparts part List.mem_cons_self) hleast
      obtain ⟨l', hl', hlt'⟩ := ih (fun p hp => hparts p (List.mem_cons_of_mem part hp)) hlt
      exact ⟨l', by rw [List.foldlM_cons, hl]; exact hl', hlt'⟩

/-! ### The line that is found -/

section Found

variable {code : String} {t : AbstractTree} {keyword : Int} {first : Span}

/-- The last line that begins with the keyword's text, from the keyword's line on, is found. -/
theorem HasCleanup.cleanupLine_eq (h : (ofString code).HasCleanup t keyword first)
    (hfirm : ∀ l ∈ (ofString code).counted.take first.line.toNat, Text.IsFirm l)
    (hline : IsGreatest {n | (keyword ≤ n ∧ n ≤ first.line) ∧
      startsCleanup ((ofString code).positionLine n) = true} line) :
    (ofString code).cleanupLine t t.partsBeforeCleanup t.cleanup = .ok (some line) := by
  obtain ⟨span, hspan, hstart⟩ := h.start_lt
  obtain ⟨f, hf, hfspan⟩ := Option.bind_eq_some_iff.mp h.first_eq
  obtain ⟨rest, hcleanup⟩ := List.head?_eq_some_iff.mp hf
  obtain ⟨start, hfold, hlt⟩ := exists_foldlM_lastLine h.parts_lt hstart
  have hsame : ∀ n ≤ first.line,
      (ofString code).lineAt n = (ofString code).positionLine n := fun n hn =>
    lineAt_eq_positionLine fun l hl => hfirm l (List.take_subset_take_left _ (by omega) hl)
  obtain ⟨⟨⟨hge, hle⟩, hstarts⟩, hgreatest⟩ := hline
  -- the text ends at the earliest behind the line
  have hlength : line ≤ (ofString code).lines.length := by
    refine (le_length_of_lineAt_ne_nil fun hnil => ?_).2
    rw [← hsame line hle, hnil] at hstarts
    exact absurd hstarts (by decide)
  have hfound : (ofString code).keywordLine "finally".toList start
      (min first.line ((ofString code).lines.length : Int) - start).toNat = some line := by
    refine keywordLine_eq_some _ ⟨⟨⟨by omega, by omega⟩, ?_⟩, fun n ⟨⟨_, hn⟩, hprefix⟩ => ?_⟩
    · rw [hsame line hle]
      exact hstarts
    · by_cases hbefore : n < keyword
      · omega
      · have hn' : n ≤ first.line := by omega
        rw [hsame n hn'] at hprefix
        exact hgreatest ⟨⟨by omega, hn'⟩, hprefix⟩
  have hspanOf : spanOf t = .ok span := by rw [spanOf, hspan]
  have hfirst : spanOf f = .ok first := by rw [spanOf, hfspan]
  have hstarted : t.partsBeforeCleanup.foldlM lastLine span.line = .ok start := hfold
  simp only [cleanupLine, hcleanup, hspanOf, hfirst, bind, Except.bind, hstarted, hfound]
  rfl

/-- A guarded statement keeps the line that is found for its cleanup. -/
theorem toStmt_guarded (s : Source) {kind : String} (span : Option Span) (name : String)
    (head guard : Option AbstractTree) (body orelse handlers finalbody : List AbstractTree)
    (h : kind ∈ ["Try", "TryStar"]) :
    (AbstractTree.compound kind span name head guard body orelse handlers finalbody).toStmt s = do
      let handled ← AbstractTree.toHandlers s handlers
      let final ← AbstractTree.toStmts s finalbody
      let line ← s.cleanupLine
        (.compound kind span name head guard body orelse handlers finalbody)
        (body :: orelse :: handlers.map AbstractTree.body) finalbody
      let cleanup := if finalbody.isEmpty then none else some (⟨line, final⟩ : Cleanup Stmt)
      let span ← spanOf (.compound kind span name head guard body orelse handlers finalbody)
      return .guarded (some span.line) "Try" (← AbstractTree.toStmts s body)
        (← AbstractTree.toStmts s orelse) handled cleanup := by
  simp only [List.mem_cons, List.not_mem_nil, or_false] at h
  rcases h with rfl | rfl <;> rw [AbstractTree.toStmt] <;> rfl

/-- The line that is found is the one of the statement that is made. -/
theorem HasCleanup.cleanupLine?_eq {s : Source} (h : s.HasCleanup t keyword first)
    (hline : s.cleanupLine t t.partsBeforeCleanup t.cleanup = .ok (some line)) {stmt : Stmt}
    (hstmt : t.toStmt s = .ok stmt) : stmt.cleanupLine? = some line := by
  obtain ⟨f, hf, -⟩ := Option.bind_eq_some_iff.mp h.first_eq
  cases t with
  | leaf | matching => exact absurd hf (by simp [AbstractTree.cleanup])
  | compound kind span name head guard body orelse handlers finalbody =>
      have hkind : kind ∈ ["Try", "TryStar"] := h.kind_mem
      have hcleanup : finalbody.isEmpty = false := by
        obtain ⟨rest, hrest⟩ := List.head?_eq_some_iff.mp hf
        rw [show finalbody = f :: rest from hrest]
        rfl
      rw [toStmt_guarded s _ _ _ _ _ _ _ _ hkind] at hstmt
      obtain ⟨handled, -, hstmt⟩ := exists_of_bind_eq_ok hstmt
      obtain ⟨final, -, hstmt⟩ := exists_of_bind_eq_ok hstmt
      obtain ⟨found, hfound, hstmt⟩ := exists_of_bind_eq_ok hstmt
      obtain ⟨start, -, hstmt⟩ := exists_of_bind_eq_ok hstmt
      obtain ⟨normal, -, hstmt⟩ := exists_of_bind_eq_ok hstmt
      obtain ⟨others, -, hstmt⟩ := exists_of_bind_eq_ok hstmt
      obtain rfl : found = some line := Except.ok.inj (hfound.symm.trans hline)
      obtain rfl := Except.ok.inj hstmt
      simp only [Stmt.cleanupLine?, hcleanup, Bool.false_eq_true, if_false, Option.bind_some]

end Found

/-! ### What lies between -/

/-- A line between a keyword and a statement: it holds blanks or a comment, starts a decorator, or goes
on from the line before. -/
def IsFiller (line : List Char) : Prop :=
  ∀ c ∈ (Text.trimStart line).head?, c ∈ ['#', '@', ':', '\\']

/-- A line with a comment says nothing. -/
theorem isFiller_of_comment {line : List Char} (h : (Text.trimStart line).head? = some '#') :
    IsFiller line := by
  intro c hc
  rw [h] at hc
  obtain rfl := Option.some.inj hc
  exact List.mem_cons_self

/-- The text of a statement on the line it starts on. -/
def statementText (s : Source) (span : Span) : List Char :=
  let line := s.positionLine span.line
  line.drop (Text.Utf8.charsBefore span.column.toNat line).length

/-- Nothing but blanks stands before a statement on its line. -/
def IsFirstOnLine (s : Source) (span : Span) : Prop :=
  Text.Utf8.charsBefore span.column.toNat (s.positionLine span.line) =
    (s.positionLine span.line).takeWhile Text.isBlank

/-- Whether a line begins with the text of the keyword, blanks aside. -/
theorem startsCleanup_iff {line : List Char} :
    startsCleanup line = true ↔ "finally".toList <+: Text.trimStart line := by
  rw [startsCleanup, List.isPrefixOf_iff_prefix, Text.trim]
  constructor
  · exact fun h => h.trans (List.rdropWhile_prefix Text.isBlank _)
  · rintro ⟨rest, hrest⟩
    rw [← hrest, Text.trimEnd, Text.dropEndWhile, List.reverse_append, List.dropWhile_append]
    -- the keyword ends in no blank
    have hself : "finally".toList.reverse.dropWhile Text.isBlank = "finally".toList.reverse := by
      decide +kernel
    split_ifs
    · exact ⟨[], by rw [hself, List.reverse_reverse, List.append_nil]⟩
    · rw [List.reverse_append, List.reverse_reverse]
      exact List.prefix_append _ _

/-- A line that says nothing does not begin with it. -/
theorem IsFiller.startsCleanup_eq_false {line : List Char} (h : IsFiller line) :
    startsCleanup line = false := by
  rw [Bool.eq_false_iff, ne_eq, startsCleanup_iff]
  rintro ⟨rest, hrest⟩
  have hhead : (Text.trimStart line).head? = some 'f' := by
    rw [← hrest]
    rfl
  exact absurd (h 'f' hhead) (by decide)

/-- The line of a statement that stands first on it begins as the statement does. -/
theorem IsFirstOnLine.startsCleanup_iff {s : Source} {first : Span} (h : s.IsFirstOnLine first) :
    startsCleanup (s.positionLine first.line) = true ↔
      "finally".toList <+: s.statementText first := by
  have htext : s.statementText first = Text.trimStart (s.positionLine first.line) := by
    have hsplit : (s.positionLine first.line).takeWhile Text.isBlank ++
        Text.trimStart (s.positionLine first.line) = s.positionLine first.line :=
      List.takeWhile_append_dropWhile
    rw [statementText, h]
    exact (congrArg (List.drop _) hsplit.symm).trans List.drop_left
  rw [Source.startsCleanup_iff, htext]

/-- The line of a cleanup is the last one, from the line of its keyword up to that of its first
statement, that begins with the text of the keyword. So it is the keyword's exactly if none of the
others begins so; and where these hold blanks, comments and decorators before the first statement,
exactly if that statement does not begin so. -/
theorem cleanupLine_toStmt (code : String) {t : AbstractTree} {keyword : Int} {first : Span}
    (h : (ofString code).HasCleanup t keyword first)
    (hfirm : ∀ l ∈ (ofString code).counted.take first.line.toNat, Text.IsFirm l) :
    let s := ofString code
    ∃ line, s.cleanupLine t t.partsBeforeCleanup t.cleanup = .ok (some line) ∧
      (∀ stmt, t.toStmt s = .ok stmt → stmt.cleanupLine? = some line) ∧
      IsGreatest {n | (keyword ≤ n ∧ n ≤ first.line) ∧
        startsCleanup (s.positionLine n) = true} line ∧
      (line = keyword ↔
        ∀ n, keyword < n → n ≤ first.line → startsCleanup (s.positionLine n) = false) ∧
      (keyword < first.line →
        (∀ n, keyword < n → n < first.line → IsFiller (s.positionLine n)) →
        s.IsFirstOnLine first →
        (line = keyword ↔ ¬ "finally".toList <+: s.statementText first)) := by
  intro s
  have hstarts := startsCleanup_of_hasKeyword h.hasKeyword
  obtain ⟨line, hmem, hgreatest⟩ := Int.exists_greatest_of_bdd
    (P := fun n => (keyword ≤ n ∧ n ≤ first.line) ∧ startsCleanup (s.positionLine n) = true)
    ⟨first.line, fun n hn => hn.1.2⟩ ⟨keyword, ⟨le_rfl, h.keyword_le⟩, hstarts⟩
  have hline : IsGreatest {n | (keyword ≤ n ∧ n ≤ first.line) ∧
      startsCleanup (s.positionLine n) = true} line := ⟨hmem, fun n hn => hgreatest n hn⟩
  have hfound := h.cleanupLine_eq hfirm hline
  have hiff : line = keyword ↔
      ∀ n, keyword < n → n ≤ first.line → startsCleanup (s.positionLine n) = false := by
    constructor
    · rintro rfl n hlt hle
      rw [Bool.eq_false_iff]
      exact fun hn => absurd (hgreatest n ⟨⟨hlt.le, hle⟩, hn⟩) (not_le.mpr hlt)
    · intro hnone
      by_contra hne
      have hlt : keyword < line := lt_of_le_of_ne hmem.1.1 (Ne.symm hne)
      exact absurd hmem.2 (by rw [hnone line hlt hmem.1.2]; exact Bool.noConfusion)
  refine ⟨line, hfound, fun stmt hstmt => h.cleanupLine?_eq hfound hstmt, hline, hiff, ?_⟩
  intro hlt hfiller hfirst
  rw [hiff, ← hfirst.startsCleanup_iff, Bool.not_eq_true]
  constructor
  · exact fun hnone => hnone first.line hlt le_rfl
  · intro hnone n hkeyword hn
    rcases lt_or_eq_of_le hn with hn | rfl
    · exact (hfiller n hkeyword hn).startsCleanup_eq_false
    · exact hnone

/-- A call that stands at `span`. -/
def callTree (span : Span) : AbstractTree :=
  .leaf "Expr" (some span) (some (.leaf "Call" (some span) none none false)) none false

/-- A guarded call with handlers and one call as its cleanup. -/
def guardedTree (span call first : Span) (handlers : List AbstractTree) : AbstractTree :=
  .compound "Try" (some span) "" none none [callTree call] [] handlers [callTree first]

/-- A call ends before each line that its last line is before. -/
theorem endsBefore_callTree {span : Span} {line : Int} (h : span.line < line)
    (hend : ∀ last ∈ span.endLine, last < line) : (callTree span).EndsBefore line :=
  ⟨span, rfl, h, hend⟩

/-- Only the call and what the handlers hold stand before the cleanup. -/
theorem hasCleanup_guardedTree {s : Source} {span call first : Span} {handlers : List AbstractTree}
    {keyword : Int} (hspan : span.line < keyword) (hcall : (callTree call).EndsBefore keyword)
    (hhandlers : ∀ handler ∈ handlers, ∀ last ∈ handler.body.getLast?, last.EndsBefore keyword)
    (hfirst : keyword ≤ first.line) (hkeyword : HasKeyword (s.positionLine keyword)) :
    s.HasCleanup (guardedTree span call first handlers) keyword first where
  kind_mem := List.mem_cons_self
  start_lt := ⟨span, rfl, hspan⟩
  parts_lt := fun part hpart last hlast => by
    rcases List.mem_cons.mp hpart with rfl | hpart
    · obtain rfl := Option.some.inj hlast
      exact hcall
    · rcases List.mem_cons.mp hpart with rfl | hpart
      · exact absurd hlast (by simp)
      · obtain ⟨handler, hhandler, rfl⟩ := List.mem_map.mp hpart
        exact hhandlers handler hhandler last hlast
  first_eq := rfl
  keyword_le := hfirst
  hasKeyword := hkeyword

/-- A handler that calls a function named after the keyword, and a comment after the keyword: neither
moves the line. -/
theorem cleanupLine_comment :
    let s := ofString
      "try:\n    f()\nexcept E:\n    finally_seen()\nfinally:\n    # finally\n    g()\n"
    let first : Span := ⟨7, 4, some 7, some 7⟩
    let handler : AbstractTree := .compound "ExceptHandler" (some ⟨3, 0, some 4, some 18⟩) ""
      (some (.leaf "Name" (some ⟨3, 7, some 3, some 8⟩) none none false)) none
      [callTree ⟨4, 4, some 4, some 18⟩] [] [] []
    let t := guardedTree ⟨1, 0, some 7, some 7⟩ ⟨2, 4, some 2, some 7⟩ first [handler]
    s.HasCleanup t 5 first ∧ (∀ l ∈ s.counted.take first.line.toNat, Text.IsFirm l) ∧
      (∀ n, 5 < n → n < first.line → IsFiller (s.positionLine n)) ∧ s.IsFirstOnLine first ∧
      s.cleanupLine t t.partsBeforeCleanup t.cleanup = .ok (some 5) ∧
      ∃ stmt, t.toStmt s = .ok stmt ∧ stmt.cleanupLine? = some 5 := by
  intro s first handler t
  have hcleanup : s.HasCleanup t 5 first := by
    refine hasCleanup_guardedTree (by decide) (endsBefore_callTree (by decide) (by simp))
      (fun _ hhandler last hlast => ?_) (by decide) (hasKeyword_of_colon (by decide +kernel))
    obtain rfl := List.mem_singleton.mp hhandler
    obtain rfl := Option.some.inj hlast
    exact endsBefore_callTree (by decide) (by simp)
  have hfirm : ∀ l ∈ s.counted.take first.line.toNat, Text.IsFirm l := by decide +kernel
  have hfiller : ∀ n, 5 < n → n < first.line → IsFiller (s.positionLine n) := by
    intro n hlt hn
    obtain rfl : n = 6 := by
      have : n < 7 := hn
      omega
    exact isFiller_of_comment (by decide +kernel)
  have hfirst : s.IsFirstOnLine first := by
    unfold IsFirstOnLine
    decide +kernel
  obtain ⟨line, hfound, hstmt, -, -, hiff⟩ := cleanupLine_toStmt _ hcleanup hfirm
  obtain rfl : line = 5 := (hiff (by decide) hfiller hfirst).mpr (by decide +kernel)
  exact ⟨hcleanup, hfirm, hfiller, hfirst, hfound, _, rfl, hstmt _ rfl⟩

/-- The cleanup starts with a name that goes on from the text of the keyword: its line is taken for the
keyword's. -/
theorem cleanupLine_longName :
    let s := ofString "try:\n    a()\nfinally:\n    finally_done()\n"
    let first : Span := ⟨4, 4, some 4, some 18⟩
    let t := guardedTree ⟨1, 0, some 4, some 18⟩ ⟨2, 4, some 2, some 7⟩ first []
    s.HasCleanup t 3 first ∧ (∀ l ∈ s.counted, Text.IsFirm l) ∧
      s.cleanupLine t t.partsBeforeCleanup t.cleanup = .ok (some 4) ∧
      ∃ stmt, t.toStmt s = .ok stmt ∧ stmt.cleanupLine? = some 4 := by
  intro s first t
  refine ⟨?_, by decide +kernel, by rfl, _, rfl, by decide +kernel⟩
  exact hasCleanup_guardedTree (by decide) (endsBefore_callTree (by decide) (by simp))
    (fun _ hhandler => absurd hhandler List.not_mem_nil) (by decide)
    (hasKeyword_of_colon (by decide +kernel))

end Source

end Flowchart
