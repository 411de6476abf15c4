import Flowchart.Proofs.Json.Fields
import Flowchart.Trace

/-!
# The end of a trace

A last step that only says that the program has ended is left out of a trace. What a reader of the
trace gets to see at its end is the output of the last step and the values of all variables that the
steps report, the later ones over the earlier ones (`Step.values`). Both stay as they are when the step
is left out, and the trace that is left is not empty (`Step.dropTermination_unseen`).

If a step names each of its variables once, as all steps do that are read from reports, this is also
the reason for leaving it out: a last step goes exactly if it reads like an end and is not seen.

## Main results

* `exists_changesNothing_iff`: when a last step is not seen.
* `dropTermination_unseen`: what a reader gets to see stays, and which last steps go.
-/

namespace Flowchart.Step

/-- Variables by their values alone. -/
def values (scope : List (String × Variable)) : List (String × String) :=
  scope.map (Prod.map id Variable.value)

/-- The step after others that it adds nothing to: it has the output of the last of them, and no
variable has another value after it than before it. -/
structure Unseen (steps : List Step) (last : Step) : Prop where
  output : steps.getLast?.map Step.output = some last.output
  values : values (accumulate (steps ++ [last])) = values (accumulate steps)

variable {steps : List Step} {last : Step} {scope known : List (String × Variable)}

/-- The last step sets its variables over all earlier ones. -/
theorem accumulate_concat (steps : List Step) (last : Step) :
    accumulate (steps ++ [last]) = putEach (accumulate steps) last.scope := by
  rw [accumulate, List.foldl_append]
  rfl

/-- So do their values. -/
theorem values_accumulate_concat (steps : List Step) (last : Step) :
    values (accumulate (steps ++ [last])) = putEach (values (accumulate steps)) (values last.scope) := by
  rw [accumulate_concat, values, map_putEach]
  rfl

/-- Whether nothing changes is asked of the values alone. -/
theorem changesNothing_iff {before : Step} :
    changesNothing known before last = true ↔
      (∀ f ∈ values last.scope, get? (values known) f.1 = some f.2) ∧ last.output = before.output := by
  have hknown : ∀ f : String × Variable, (get? known f.1).any (·.value == f.2.value) = true ↔
      get? (values known) f.1 = some f.2.value := by
    intro f
    rw [values, get?_map]
    cases get? known f.1 <;> simp
  rw [values, List.forall_mem_map]
  simp only [changesNothing, Bool.and_eq_true, List.all_eq_true, hknown, beq_iff_eq]
  rfl

/-- What is compared when a step is left out is what a reader gets to see. -/
theorem unseen_of_changesNothing {before : Step} (hbefore : steps.getLast? = some before)
    (h : changesNothing (accumulate steps) before last = true) : Unseen steps last := by
  obtain ⟨hvalues, houtput⟩ := changesNothing_iff.mp h
  exact ⟨by rw [hbefore, houtput]; rfl,
    by rw [values_accumulate_concat, putEach_of_known hvalues]⟩

/-- For a step that names each of its variables once it is all of that. -/
theorem exists_changesNothing_iff (hnames : (last.scope.map Prod.fst).Nodup) :
    (∃ before ∈ steps.getLast?, changesNothing (accumulate steps) before last = true) ↔
      Unseen steps last := by
  refine ⟨fun ⟨before, hbefore, h⟩ => unseen_of_changesNothing hbefore h, fun h => ?_⟩
  obtain ⟨before, hbefore, houtput⟩ := Option.map_eq_some_iff.mp h.output
  have hdistinct : ((values last.scope).map Prod.fst).Nodup := by
    rw [values, List.map_map]
    exact hnames
  refine ⟨before, hbefore, changesNothing_iff.mpr
    ⟨(putEach_eq_self_iff hdistinct).mp ?_, houtput.symm⟩⟩
  rw [← values_accumulate_concat, h.values]

/-- The last of several steps is left out if it reads like an end and changes nothing; a single step
stays. -/
theorem dropTermination_concat (steps : List Step) (last : Step) :
    dropTermination (steps ++ [last]) =
      if readsLikeEnd last.explanation ∧
          ∃ before ∈ steps.getLast?, changesNothing (accumulate steps) before last then steps
      else steps ++ [last] := by
  rw [dropTermination, List.getLast?_concat, List.dropLast_concat]
  cases steps.getLast? <;> simp

/-- A last step goes if it reads like an end and changes nothing of what was seen. -/
theorem dropTermination_concat_ne_iff (steps : List Step) (last : Step) :
    dropTermination (steps ++ [last]) ≠ steps ++ [last] ↔
      readsLikeEnd last.explanation = true ∧
        ∃ before ∈ steps.getLast?, changesNothing (accumulate steps) before last = true := by
  have hne : steps ≠ steps ++ [last] := fun heq => by simpa using congrArg List.length heq
  rw [dropTermination_concat]
  split_ifs with hend
  · exact iff_of_true hne hend
  · exact iff_of_false (fun h => h rfl) hend

/-- A trace without its end. It is the trace or the trace without its last step, and some of it is
left. What is left out is not seen: the last step that is left has the same output, and all variables
have the same values at the end of both traces. A last step that names each of its variables once is
left out exactly if it comes after others, reads like an end and is not seen. -/
theorem dropTermination_unseen (steps : List Step) :
    (dropTermination steps = steps ∨ dropTermination steps = steps.dropLast) ∧
      (dropTermination steps = [] → steps = []) ∧
      (dropTermination steps ≠ steps →
        (dropTermination steps).getLast?.map Step.output = steps.getLast?.map Step.output ∧
          values (accumulate (dropTermination steps)) = values (accumulate steps)) ∧
      ∀ front last, steps = front ++ [last] → (last.scope.map Prod.fst).Nodup →
        (dropTermination steps ≠ steps ↔
          readsLikeEnd last.explanation = true ∧ Unseen front last) := by
  rcases List.eq_nil_or_concat steps with rfl | ⟨front, last, rfl⟩
  · exact ⟨Or.inl rfl, fun _ => rfl, fun hne => absurd rfl hne, fun front last heq =>
      absurd heq.symm (by simp)⟩
  rw [List.concat_eq_append]
  refine ⟨?_, fun hnil => ?_, fun hne => ?_, fun front' last' heq hnames => ?_⟩
  · rw [dropTermination_concat, List.dropLast_concat]
    split_ifs
    · exact Or.inr rfl
    · exact Or.inl rfl
  · rw [dropTermination_concat] at hnil
    split_ifs at hnil with hend
    · obtain ⟨-, before, hbefore, -⟩ := hend
      rw [hnil] at hbefore
      exact absurd hbefore nofun
    · exact hnil
  · have hend := (dropTermination_concat_ne_iff front last).mp hne
    obtain ⟨-, before, hbefore, hnothing⟩ := id hend
    have hunseen := unseen_of_changesNothing hbefore hnothing
    rw [dropTermination_concat, if_pos hend, hunseen.output, List.getLast?_concat]
    exact ⟨rfl, hunseen.values.symm⟩
  · rw [heq, dropTermination_concat_ne_iff, exists_changesNothing_iff hnames]

/-- A loop that is run through once. -/
def onceThrough : List Step :=
  [{ number := 1, line := 1, scope := [("i", ⟨"1", "int", []⟩), ("n", ⟨"2", "int", []⟩)] },
    { number := 2, line := 2, scope := [("i", ⟨"2", "int", ["1"]⟩)], output := "1" }]

/-- What a tracer adds to it. The values are known, their types and histories are not compared. -/
def loopOver : Step :=
  { number := 3, line := 1, scope := [("n", ⟨"2", "", []⟩), ("i", ⟨"2", "int", []⟩)]
    explanation := "Condition false: the loop Ends", output := "1" }

/-- The end of a loop that has been gone through once is left out. -/
theorem dropTermination_unseen_loopOver :
    dropTermination (onceThrough ++ [loopOver]) ≠ onceThrough ++ [loopOver] ∧
      (dropTermination (onceThrough ++ [loopOver])).getLast?.map Step.output = some "1" ∧
      values (accumulate (dropTermination (onceThrough ++ [loopOver]))) =
        values (accumulate (onceThrough ++ [loopOver])) ∧
      (loopOver.scope.map Prod.fst).Nodup ∧
      readsLikeEnd loopOver.explanation = true ∧ Unseen onceThrough loopOver := by
  obtain ⟨-, -, hseen, hends⟩ := dropTermination_unseen (onceThrough ++ [loopOver])
  have hdropped : dropTermination (onceThrough ++ [loopOver]) ≠ onceThrough ++ [loopOver] := by
    decide +kernel
  have hnames : (loopOver.scope.map Prod.fst).Nodup := by decide
  exact ⟨hdropped, (hseen hdropped).1, (hseen hdropped).2, hnames,
    (hends onceThrough loopOver rfl hnames).mp hdropped⟩

end Flowchart.Step
