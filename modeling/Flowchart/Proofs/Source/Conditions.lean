import Flowchart.Proofs.Source.Cases
import Flowchart.Proofs.Text.Parentheses

/-!
# Conditions

The condition of a choice or of a loop and what a switch looks at are shown without the parentheses
around them. Where every literal in such a text has its own parentheses in pairs, the first parenthesis
goes exactly if the last one closes it, and the condition that is shown is balanced
(`Reading.unwraps_conditions`). A literal with a single parenthesis takes part in the count: two
parentheses that do not belong together may go, and two that do may stay (`Reading.unwraps_openLiteral`).

## Main results

* `branch_shows`, `doLoop_shows`, `subject_shows`: what is shown of each kind of statement.
* `unwraps_conditions`: which parentheses go, for every text.
* `unwraps_openLiteral`: two that go although they do not belong together.
-/

namespace Flowchart.Reading

variable (r : Reading) (t : ConcreteTree)

/-- A choice shows its condition. -/
theorem branch_shows (h : Text.BalancedThroughout (r.textOf (t.child? "condition"))) :
    ∃ shown text body orelse, Text.Shows (r.textOf (t.child? "condition")) shown ∧
      (r.branch t).value = .branch t.line text (String.ofList shown) body orelse :=
  ⟨_, _, _, _, Text.shows_stripParens h, rfl⟩

/-- A loop that tests its condition at the end shows it after two words. -/
theorem doLoop_shows {c : ConcreteTree} (hc : t.child? "condition" = some c)
    (h : Text.BalancedThroughout (r.text c)) :
    ∃ shown body, Text.Shows (r.text c) shown ∧
      (r.doLoop t).value = .loop t.line ("do while " ++ String.ofList shown) body [] := by
  refine ⟨_, (r.block (r.bodyOf t)).value, Text.shows_stripParens h, ?_⟩
  rw [doLoop, hc]
  rfl

/-- A switch shows its condition or its value. -/
theorem subject_shows {c : ConcreteTree}
    (hc : (t.child? "condition").or (t.child? "value") = some c)
    (h : Text.BalancedThroughout (r.text c)) : Text.Shows (r.text c) (r.subject t) := by
  rw [subject, hc]
  exact Text.shows_stripParens h

/-- Without both it shows what stands in parentheses after its keyword. -/
theorem balanced_subject (hc : (t.child? "condition").or (t.child? "value") = none) :
    Text.Balanced (r.subject t) := by
  rw [subject, hc]
  exact Text.balanced_groupAfter _ _

/-- The parentheses around a text go if no start of what is between them closes more of them than it
opens, those in literals counted; the blanks at both ends go in any case. So for a text whose literals
have their parentheses in pairs these are the parentheses that belong together, and what is shown of the
conditions of choices, loops and switches is balanced. -/
theorem unwraps_conditions (text : List Char) :
    Text.Unwraps (Text.Covered 0) text (Text.stripParens text) ∧
      (Text.BalancedThroughout text → Text.Shows text (Text.stripParens text)) ∧
      (Text.BalancedThroughout (r.textOf (t.child? "condition")) →
        ∃ shown text body orelse, Text.Shows (r.textOf (t.child? "condition")) shown ∧
          (r.branch t).value = .branch t.line text (String.ofList shown) body orelse) ∧
      (∀ c, t.child? "condition" = some c → Text.BalancedThroughout (r.text c) →
        ∃ shown body, Text.Shows (r.text c) shown ∧
          (r.doLoop t).value = .loop t.line ("do while " ++ String.ofList shown) body []) ∧
      (∀ c, (t.child? "condition").or (t.child? "value") = some c →
        Text.BalancedThroughout (r.text c) → Text.Shows (r.text c) (r.subject t)) ∧
      ((t.child? "condition").or (t.child? "value") = none → Text.Balanced (r.subject t)) :=
  ⟨Text.unwraps_stripParens text, Text.shows_stripParens, r.branch_shows t, fun _ => r.doLoop_shows t,
    fun _ => r.subject_shows t, r.balanced_subject t⟩

/-- A condition with a literal between two pairs of parentheses. -/
def pairedText : List Char :=
  '(' :: ('(' :: (("s == ".toList ++ '"' :: ("()".toList ++ ['"'])) ++ ')' ::
    (" && ".toList ++ '(' :: ("n > 0".toList ++ [')']))) ++ [')'])

/-- The tree of a node with a condition of `n` bytes, and nothing else. -/
def conditionTree (n : Nat) : ConcreteTree :=
  { kind := "if_statement", start := 0, stop := n, row := 0
    children := [
      { kind := "parenthesized_expression", start := 0, stop := n, row := 0
        field := some "condition" }] }

/-- The parentheses of this condition are balanced, those in its literal too. -/
theorem balancedThroughout_pairedText : Text.BalancedThroughout pairedText := by
  have hpair : ('(', ')') ∈ Text.parentheses := List.mem_cons_self
  have hpaired : Text.Paired "()".toList := Text.Paired.nil.group
  have hliteral : Text.BalancedThroughout ("s == ".toList ++ '"' :: ("()".toList ++ ['"'])) :=
    .plain_append (by decide)
      (.literal (by decide) (Text.isQuoted_of_not_mem (by decide) (by decide)) hpaired .nil)
  have hnumber : Text.BalancedThroughout ("n > 0".toList ++ []) := .plain_append (by decide) .nil
  exact .group hpair (.group hpair hliteral (.plain_append (by decide) (.group hpair hnumber .nil))) .nil

/-- A choice on that condition shows it without the parentheses around it. -/
theorem unwraps_conditions_paired :
    let r := ofText .java (String.ofList pairedText)
    let t := conditionTree 25
    Text.BalancedThroughout pairedText ∧
      Text.stripParens pairedText = "(s == \"()\") && (n > 0)".toList ∧
      Text.Shows pairedText (Text.stripParens pairedText) ∧
      (∃ shown text body orelse, Text.Shows pairedText shown ∧
        (r.branch t).value = .branch t.line text (String.ofList shown) body orelse) ∧
      (∃ shown body, Text.Shows pairedText shown ∧
        (r.doLoop t).value = .loop t.line ("do while " ++ String.ofList shown) body []) ∧
      Text.Shows pairedText (r.subject t) := by
  intro r t
  have htext : r.textOf (t.child? "condition") = pairedText := by decide +kernel
  obtain ⟨-, hshows, hbranch, hloop, hsubject, -⟩ := unwraps_conditions r t pairedText
  rw [htext] at hbranch
  have hthroughout := balancedThroughout_pairedText
  have hchild : Text.BalancedThroughout (r.textOf (t.child? "condition")) := htext.symm ▸ hthroughout
  refine ⟨hthroughout, by decide +kernel, hshows hthroughout, hbranch hthroughout, ?_, ?_⟩
  · rw [← htext]
    exact hloop _ rfl hchild
  · rw [← htext]
    exact hsubject _ rfl hchild

/-- A literal with a single parenthesis. In the first condition the opening one in the literal keeps the
count up, so two parentheses go that do not belong together and what is shown is not balanced. In the
second one the closing one in the literal ends the count, so two that belong together stay. -/
theorem unwraps_openLiteral :
    (let r := ofText .java "(a == \"(\") || (b)"
      let t := conditionTree 17
      Text.Balanced (r.textOf (t.child? "condition")) ∧
        r.subject t = "a == \"(\") || (b".toList ∧
        ¬ Text.Unwraps Text.Balanced (r.textOf (t.child? "condition")) (r.subject t) ∧
        ¬ Text.Balanced (r.subject t)) ∧
      let r := ofText .java "(x == ')')"
      let t := conditionTree 10
      Text.Balanced (r.textOf (t.child? "condition")) ∧ r.subject t = "(x == ')')".toList ∧
        ¬ Text.Unwraps Text.Balanced (r.textOf (t.child? "condition")) (r.subject t) := by
  refine ⟨⟨by decide +kernel, by decide +kernel, ?_, by decide +kernel⟩,
    by decide +kernel, by decide +kernel, ?_⟩
  · have hinside : Text.trim ((ofText .java "(a == \"(\") || (b)").textOf
        ((conditionTree 17).child? "condition")) = '(' :: ("a == \"(\") || (b".toList ++ [')']) := by
      decide +kernel
    rw [Text.unwraps_iff hinside]
    decide +kernel
  · have hinside : Text.trim ((ofText .java "(x == ')')").textOf
        ((conditionTree 10).child? "condition")) = '(' :: ("x == ')'".toList ++ [')']) := by
      decide +kernel
    rw [Text.unwraps_iff hinside]
    decide +kernel

end Flowchart.Reading
