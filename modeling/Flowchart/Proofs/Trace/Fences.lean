import Flowchart.Proofs.Json.Extent
import Flowchart.Proofs.Trace.Reports

/-!
# Fences around answers

A model may put its answer inside a fence. The fence is taken off before the answer is read as JSON, by
looking at the ends of the reply alone, so it has to be shown that a fence is taken off whole and that
nothing else is.

Both rest on what the ends of a JSON text are (`Json.read?_trim`). It neither starts nor ends with a
backtick, so of a bare answer nothing is taken, whatever backticks its strings have inside. Nor does it
start with a blank or with the name of the format, so just the opening of a fence is taken, and up to the
blanks around it the answer is what is left (`unfenced_around`).

## Main results

* `unfenced_bare`: of a bare answer nothing is taken.
* `unfenced_around`: of an answer in a fence just the fence is.
* `trace_fenced`: so both give the same trace.
-/

namespace Flowchart

namespace Text

/-- A trimmed text stays as it is when it is trimmed. -/
theorem IsTrimmed.trim_eq {cs : List Char} (h : IsTrimmed cs) : trim cs = cs :=
  trim_indented 0 h.1 h.2

/-- The blanks behind a trimmed text are cut off, and no more. -/
theorem IsTrimmed.trimEnd_append {cs blanks : List Char} (h : IsTrimmed cs)
    (hblanks : allBlank blanks = true) : trimEnd (cs ++ blanks) = cs := by
  have hreverse : ∀ c ∈ blanks.reverse, isBlank c = true := fun c hc =>
    List.all_eq_true.mp hblanks c (List.mem_reverse.mp hc)
  rw [trimEnd, dropEndWhile, List.reverse_append, List.dropWhile_append_of_pos hreverse]
  refine List.rdropWhile_eq_self_iff.mpr fun hne => ?_
  rw [h.2 _ (List.getLast?_eq_some_getLast hne)]
  exact Bool.noConfusion

/-- A text lies between the blanks that are trimmed. -/
theorem exists_eq_trim (cs : List Char) :
    ∃ lead trail, cs = lead ++ (trim cs ++ trail) ∧ allBlank lead = true ∧ allBlank trail = true := by
  obtain ⟨trail, heq, htrail⟩ := exists_eq_dropEndWhile_append isBlank (trimStart cs)
  refine ⟨cs.takeWhile isBlank, trail, ?_, List.all_takeWhile, List.all_eq_true.mpr htrail⟩
  rw [trim, trimEnd, ← heq]
  exact List.takeWhile_append_dropWhile.symm

end Text

namespace Trace

/-! ### Fences -/

/-- A text of blanks. -/
abbrev Blanks := { cs : List Char // Text.allBlank cs = true }

/-- A fence: whether its opening mark has the name of the format, and the blanks that stand before and
behind its two marks. -/
structure Fence where
  named : Bool
  beforeOpening : Blanks
  behindOpening : Blanks
  beforeClosing : Blanks
  behindClosing : Blanks

/-- The opening mark of a fence, with the name of the format or without. -/
def Fence.mark (f : Fence) : List Char := if f.named then fence ++ "json".toList else fence

/-- A reply that is an answer inside a fence. -/
def Fence.around (f : Fence) (answer : String) : String :=
  String.ofList (f.beforeOpening ++ (f.mark ++ (f.behindOpening ++ (answer.toList ++
    (f.beforeClosing ++ fence)))) ++ f.behindClosing)

/-! ### Taking a fence off -/

/-- The opening of a fence goes with the name of the format and the blanks after it. -/
theorem openFence_append (cs : List Char) :
    openFence (fence ++ cs) =
      (("json".toList.isPrefixOf? cs).getD cs).dropWhile Text.isBlank := by
  have hfence : fence.isPrefixOf? (fence ++ cs) = some cs :=
    List.isPrefixOf?_eq_some_iff_append_eq.mpr rfl
  rw [openFence, hfence]

/-- The opening mark is taken off with the blanks behind it, up to an answer that starts with neither a
blank nor a `j`. -/
theorem openFence_mark (f : Fence) {blanks : List Char} (hblanks : Text.allBlank blanks = true)
    {c : Char} (hc : Text.isBlank c = false) (hj : c ≠ 'j') (cs : List Char) :
    openFence (f.mark ++ (blanks ++ c :: cs)) = c :: cs := by
  have hdrop : (blanks ++ c :: cs).dropWhile Text.isBlank = c :: cs :=
    Text.dropWhile_blanks_append hblanks (by simpa using hc)
  cases hnamed : f.named with
  | true =>
      have hname : "json".toList.isPrefixOf? ("json".toList ++ (blanks ++ c :: cs)) =
          some (blanks ++ c :: cs) := List.isPrefixOf?_eq_some_iff_append_eq.mpr rfl
      rw [Fence.mark, hnamed, if_pos rfl, List.append_assoc, openFence_append, hname]
      exact hdrop
  | false =>
      have hname : "json".toList.isPrefixOf? (blanks ++ c :: cs) = none := by
        cases blanks with
        | nil => simp [List.isPrefixOf?, hj.symm]
        | cons b blanks =>
            have hb : b ≠ 'j' := by
              rintro rfl
              exact absurd (List.all_eq_true.mp hblanks _ List.mem_cons_self) (by decide)
            simp [List.isPrefixOf?, hb.symm]
      rw [Fence.mark, hnamed, if_neg Bool.false_ne_true, openFence_append, hname]
      exact hdrop

/-- The closing mark is taken off with the blanks before it. -/
theorem closeFence_append (cs : List Char) : closeFence (cs ++ fence) = Text.trimEnd cs := by
  have hsuffix : fence.isSuffixOf (cs ++ fence) = true :=
    List.isSuffixOf_iff_suffix.mpr (List.suffix_append cs fence)
  rw [closeFence, if_pos hsuffix, List.length_append, Nat.add_sub_cancel, List.take_left]

variable {maxHeight : Nat} {s : String} {j : Json}

/-- Of a bare answer nothing is taken but the blanks around it. -/
theorem unfenced_bare (h : Json.read? maxHeight s = some j) : unfenced s.toList = Text.trim s.toList := by
  obtain ⟨-, ⟨c, cs, hfirst, hc, -⟩, front, d, hlast, hd⟩ := Json.read?_trim h
  have hopen : openFence (Text.trim s.toList) = Text.trim s.toList := by
    have hne : c ≠ '\x60' := by
      rintro rfl
      exact absurd hc (by decide)
    simp [hfirst, openFence, fence, List.isPrefixOf?, hne.symm]
  have hclose : fence.isSuffixOf (Text.trim s.toList) = false := by
    rw [Bool.eq_false_iff, ne_eq, List.isSuffixOf_iff_suffix, hlast]
    rintro ⟨rest, heq⟩
    have hend : rest ++ ['\x60', '\x60'] ++ ['\x60'] = front ++ [d] := by simpa [fence] using heq
    obtain ⟨-, hmark⟩ := List.append_inj' hend rfl
    rw [← (List.cons.inj hmark).1] at hd
    exact absurd hd (by decide)
  rw [unfenced, hopen, closeFence, hclose, if_neg Bool.false_ne_true]

/-- A text between two fences has no blanks around it. -/
theorem isTrimmed_fenced (f : Fence) (cs : List Char) : Text.IsTrimmed (f.mark ++ (cs ++ fence)) := by
  constructor
  · intro c hc
    obtain ⟨rest, hrest⟩ : ∃ rest, f.mark ++ (cs ++ fence) = '\x60' :: rest := by
      cases hnamed : f.named <;> exact ⟨_, by rw [Fence.mark, hnamed]; rfl⟩
    rw [hrest] at hc
    rw [← Option.some.inj hc]
    decide
  · intro c hc
    have hlast : f.mark ++ (cs ++ fence) = f.mark ++ (cs ++ ['\x60', '\x60']) ++ ['\x60'] := by
      simp [fence]
    rw [hlast, List.getLast?_concat] at hc
    rw [← Option.some.inj hc]
    decide

/-- Of an answer inside a fence the fence is taken, with the blanks around both. -/
theorem unfenced_around (h : Json.read? maxHeight s = some j) (f : Fence) :
    unfenced (f.around s).toList = Text.trim s.toList := by
  obtain ⟨-, ⟨c, cs, hfirst, hc, hj⟩, -⟩ := Json.read?_trim h
  obtain ⟨lead, trail, hs, hlead, htrail⟩ := Text.exists_eq_trim s.toList
  have hblank : Text.isBlank c = false := Bool.eq_false_iff.mpr fun hblank =>
    Bool.noConfusion (hc.symm.trans (Json.isIdle_of_isBlank hblank))
  have hbefore : Text.allBlank (f.behindOpening.1 ++ lead) = true := by
    rw [Text.allBlank, List.all_append, Bool.and_eq_true]
    exact ⟨f.behindOpening.2, hlead⟩
  have hbehind : Text.allBlank (trail ++ f.beforeClosing.1) = true := by
    rw [Text.allBlank, List.all_append, Bool.and_eq_true]
    exact ⟨htrail, f.beforeClosing.2⟩
  have hinner : f.behindOpening.1 ++ (s.toList ++ (f.beforeClosing.1 ++ fence)) =
      f.behindOpening.1 ++ lead ++ c :: (cs ++ ((trail ++ f.beforeClosing.1) ++ fence)) := by
    conv_lhs => rw [hs, hfirst]
    simp
  have htrim : Text.trim (f.around s).toList =
      f.mark ++ (f.behindOpening.1 ++ (s.toList ++ (f.beforeClosing.1 ++ fence))) := by
    rw [Fence.around, String.toList_ofList, Text.trim_append_of_allBlank _ f.behindClosing.2,
      Text.trim_allBlank_append f.beforeOpening.2]
    have h := (isTrimmed_fenced f (f.behindOpening.1 ++ (s.toList ++ f.beforeClosing.1))).trim_eq
    simpa only [List.append_assoc] using h
  calc unfenced (f.around s).toList
      = closeFence (openFence (f.mark ++ (f.behindOpening.1 ++ lead ++
          c :: (cs ++ ((trail ++ f.beforeClosing.1) ++ fence))))) := by
        rw [unfenced, htrim, hinner]
    _ = closeFence (Text.trim s.toList ++ (trail ++ f.beforeClosing.1) ++ fence) := by
        rw [openFence_mark f hbefore hblank hj, hfirst]
        simp only [List.cons_append, List.append_assoc]
    _ = Text.trim s.toList := by
        rw [closeFence_append, (Text.isTrimmed_trim _).trimEnd_append hbehind]

/-! ### Traces of fenced answers -/

/-- The answer in a reply. -/
theorem answer?_content (maxHeight : Nat) (code language : String) (inputs : List (String × Json))
    (text : String) :
    answer? maxHeight (some fun _ => .content (some text)) code language inputs =
      if isBlankText code then none
      else Json.read? maxHeight (String.ofList (unfenced text.toList)) := by
  cases hblank : isBlankText code <;> simp [answer?, question?, hblank]

/-- An answer that is JSON has the same outcome inside a fence as without one, whatever its marks and
the blanks around them are. The bare answer is read as the value that it is read as when nothing is
taken from it, and for a program that is not blank the trace is that of this value. -/
theorem trace_fenced {maxHeight : Nat} {s : String} {j : Json}
    (h : Json.read? maxHeight s = some j) (f : Fence) (code language : String)
    (inputs : List (String × Json)) :
    trace maxHeight (some fun _ => .content (some (f.around s))) code language inputs =
        trace maxHeight (some fun _ => .content (some s)) code language inputs ∧
      Json.read? maxHeight (String.ofList (unfenced s.toList)) = some j ∧
      (trace maxHeight (some fun _ => .content (some s)) code language inputs).value =
        if isBlankText code then .ok [] else ofAnswer j := by
  have hbare : Json.read? maxHeight (String.ofList (unfenced s.toList)) = some j := by
    rw [unfenced_bare h]
    exact (Json.read?_trim h).1
  refine ⟨?_, hbare, ?_⟩
  · have hreply : ofReply maxHeight (.content (some (f.around s))) =
        ofReply maxHeight (.content (some s)) := by
      simp only [ofReply, Option.getD_some, unfenced_around h f, unfenced_bare h]
    cases hquestion : question? code language inputs <;> simp [trace, hquestion, hreply]
  · rw [value_trace, answer?_content, hbare]
    split_ifs <;> rfl

/-- A step whose explanation has fences in it. -/
def fencedExplanation : String :=
  " [\x7b\"line\": 1, \"explanation\": \"```json x ```\"\x7d]\n"

/-- A fence with the name of the format and blanks wherever they may be. -/
def wideFence : Fence where
  named := true
  beforeOpening := ⟨['\n'], rfl⟩
  behindOpening := ⟨[' ', '\n'], rfl⟩
  beforeClosing := ⟨['\u2003'], rfl⟩
  behindClosing := ⟨['\t', '\n'], rfl⟩

/-- An answer with backticks in one of its strings, bare and in a fence. -/
theorem trace_fenced_explanation :
    ∃ j, Json.read? Json.usualHeight fencedExplanation = some j ∧
      trace Json.usualHeight (some fun _ => .content (some (wideFence.around fencedExplanation)))
          "x = 1" "Python" [] =
        trace Json.usualHeight (some fun _ => .content (some fencedExplanation)) "x = 1" "Python" [] ∧
      Json.read? Json.usualHeight (String.ofList (unfenced fencedExplanation.toList)) = some j ∧
      (trace Json.usualHeight (some fun _ => .content (some fencedExplanation)) "x = 1" "Python" []).value =
        .ok [{ number := 1, line := 1, explanation := "```json x ```" }] := by
  have hsteps : ((Json.read? Json.usualHeight fencedExplanation).map fun j => (ofAnswer j).toOption) =
      some (some [{ number := 1, line := 1, explanation := "```json x ```" }]) := by
    decide +kernel
  obtain ⟨j, hread, hsteps⟩ := Option.map_eq_some_iff.mp hsteps
  obtain ⟨hfenced, hbare, hvalue⟩ := trace_fenced hread wideFence "x = 1" "Python" []
  refine ⟨j, hread, hfenced, hbare, hvalue.trans ?_⟩
  have hcode : isBlankText "x = 1" = false := by decide
  rw [hcode, if_neg Bool.false_ne_true]
  cases hanswer : ofAnswer j with
  | error e =>
      rw [hanswer] at hsteps
      exact absurd hsteps nofun
  | ok steps =>
      rw [hanswer] at hsteps
      exact congrArg Except.ok (Option.some.inj hsteps)

end Trace

end Flowchart
