import Flowchart.Proofs.Query.Positions
import Flowchart.Proofs.Text.LineNumbers
import Flowchart.Trace.Model

/-!
# Lines in a question

A model is shown a program with its lines numbered, and names steps by these numbers; nodes have the line
numbers of the parsers and of `Query.lineAt`, which count line feeds. `lines_shown` says how the two go
together: the question is ahead by the stray line ends before the place. They agree on a text whose line
ends are all written as line feeds or as a carriage return and a line feed, and on no place after another
line end (`formFeed_shown`).

## Main results

* `shownOn_prompt_iff`: on which line of a question a place is shown.
* `lines_shown`: that number and the one of the place in the source.
* `formFeed_shown`: a text with a form feed, where the two differ.
-/

namespace Flowchart

namespace Trace

/-- The question `q` shows the place `p` of a program in the line that it numbers `n`: a line of the
program, below those of the text before it. -/
def ShownOn (q code : String) (p n : Nat) : Prop :=
  ∃ before line below lead, Text.LineAfter code.toList before line below ∧
    before.length ≤ p ∧ p < before.length + line.length ∧ n = (Text.lines before).length + 1 ∧
    q = lead ++ "Program:\n" ++
      "\n".intercalate (numberedFrom 1 (Text.lines before) ++
        (toString n ++ ": " ++ String.ofList line) :: numberedFrom (n + 1) below) ++ "\n\nJSON:"

/-- Lines in a row are numbered on. -/
theorem numberedFrom_append (n : Nat) (ls ls' : List (List Char)) :
    numberedFrom n (ls ++ ls') = numberedFrom n ls ++ numberedFrom (n + ls.length) ls' := by
  induction ls generalizing n with
  | nil => rfl
  | cons l ls ih =>
      rw [List.cons_append, numberedFrom, ih, numberedFrom, List.length_cons, List.cons_append,
        Nat.add_right_comm, Nat.add_assoc]

/-- The question numbers the lines of the program. -/
theorem shownOn_iff_inLine {code language : String} {inputs : List (String × Json)} {p n : Nat} :
    ShownOn (prompt code language inputs) code p n ↔ Text.InLine code.toList p n := by
  constructor
  · rintro ⟨before, line, below, lead, hline, hle, hlt, hn, -⟩
    exact ⟨before, line, below, hline, hle, hlt, hn⟩
  · rintro ⟨before, line, below, hline, hle, hlt, rfl⟩
    obtain ⟨lead, hprompt⟩ : ∃ lead, prompt code language inputs =
        lead ++ "Program:\n" ++ numbered code ++ "\n\nJSON:" := ⟨_, rfl⟩
    refine ⟨before, line, below, lead, hline, hle, hlt, rfl, ?_⟩
    rw [hprompt, numbered, hline.lines_eq, numberedFrom_append, Nat.add_comm 1, numberedFrom]

/-- The line that shows a place of the program. -/
theorem shownOn_prompt_iff {code language : String} {inputs : List (String × Json)} {p n : Nat} :
    ShownOn (prompt code language inputs) code p n ↔
      (∃ c, code.toList[p]? = some c ∧ Text.isLineEnd c = false) ∧
        (n : Int) = Query.lineAt code.toList p + Text.strayEnds (code.toList.take p) := by
  rw [shownOn_iff_inLine, Text.inLine_iff, Query.lineAt]
  exact and_congr_right fun _ => by omega

/-- Where the question about a program shows its characters. A character is shown in one line, unless
it ends a line: the one that line feeds number, plus one for every stray line end before it. So a clause
of a query is shown in the line it has, plus one for every stray line end before the clause. -/
theorem lines_shown (code language : String) (inputs : List (String × Json)) :
    (∀ p n : Nat, ShownOn (prompt code language inputs) code p n ↔
      (∃ c, code.toList[p]? = some c ∧ Text.isLineEnd c = false) ∧
        (n : Int) = Query.lineAt code.toList p + Text.strayEnds (code.toList.take p)) ∧
    ∀ dialect, ∀ clauses ∈ Query.scan dialect code.toList, ∀ c ∈ clauses, ∀ n : Nat,
      ShownOn (prompt code language inputs) code c.pos n ↔
        (n : Int) = c.line + Text.strayEnds (code.toList.take c.pos) := by
  refine ⟨fun p n => shownOn_prompt_iff, fun dialect clauses hclauses c hc n => ?_⟩
  obtain ⟨hline, a, ha, hblank⟩ := Query.stands_scan dialect code.toList clauses hclauses c hc
  rw [shownOn_prompt_iff, hline]
  exact and_iff_right ⟨a, ha, Text.isLineEnd_eq_false hblank⟩

/-- A clause after a form feed is not shown in the line it has. -/
theorem formFeed_shown :
    let code := "SELECT a\x0cFROM t"
    ∃ clauses ∈ Query.scan .generic code.toList, ∃ c ∈ clauses, ∃ n : Nat, (n : Int) = c.line ∧
      ¬ ShownOn (prompt code "SQL" []) code c.pos n := by
  intro code
  have hscan : Query.scan .generic code.toList =
      [[⟨.select, "SELECT a", 1, 0⟩, ⟨.source, "FROM t", 1, 9⟩]] := by decide +kernel
  refine ⟨_, hscan ▸ List.mem_singleton_self _, ⟨.source, "FROM t", 1, 9⟩, by simp, 1, rfl, ?_⟩
  rw [shownOn_prompt_iff]
  have hahead : (1 : Int) ≠ Query.lineAt code.toList 9 + Text.strayEnds (code.toList.take 9) := by
    decide +kernel
  exact fun h => hahead h.2

end Trace

end Flowchart
