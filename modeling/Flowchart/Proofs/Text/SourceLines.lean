import Flowchart.Proofs.Text.LineNumbers

/-!
# Lines that source positions count

Source positions count the lines that end with a line feed or a carriage return. The other line ends
of Unicode are *soft*: they stand inside of such a line. Cutting a text at every line end is cutting
each of these lines further, at its soft ends (`lines_eq_flatMap`). So the two ways of counting agree
as long as no line before has a soft end, and then the line with a number is, of the line that is
counted, what stands before its first soft end (`lines_getElem?`).

## Main results

* `lines_eq_flatMap`: cutting at every end is cutting the counted lines at their soft ends.
* `lines_of_isFirm`: lines without soft ends are counted alike.
* `lines_getElem?`: the line with a number.
-/

namespace Flowchart.Text

/-- A line end that source positions do not count. -/
def isSoftEnd (c : Char) : Bool := isLineEnd c && c != '\n' && c != '\r'

/-- There is no soft end in the text. -/
def IsFirm (cs : List Char) : Prop := ∀ c ∈ cs, isSoftEnd c = false

instance (cs : List Char) : Decidable (IsFirm cs) :=
  List.decidableBAll (isSoftEnd · = false) cs

/-- A line without its end. -/
def withoutEnd (line : List Char) : List Char := line.takeWhile fun c => c != '\n' && c != '\r'

/-! ### Counted lines -/

/-- Each line that is counted is cut further. -/
theorem lines_eq_flatMap_sourceLinesFrom (line cs : List Char) :
    lines (line.reverse ++ cs) = (sourceLinesFrom line cs).flatMap lines := by
  fun_induction sourceLinesFrom line cs with
  | case1 => rfl
  | case2 c line => simp
  | case3 line cs ih =>
      have hclosed : Closed ('\n' :: '\r' :: line).reverse := by simp [Closed, isLineEnd]
      have hlast : ('\n' :: '\r' :: line).reverse.getLast? ≠ some '\r' := by simp
      have hcs : line.reverse ++ '\r' :: '\n' :: cs = ('\n' :: '\r' :: line).reverse ++ cs := by
        simp
      rw [hcs, lines_append hclosed (absurd · hlast), List.flatMap_cons, ← ih, List.reverse_nil,
        List.nil_append]
  | case4 line c cs hno hend ih =>
      have hclosed : Closed (c :: line).reverse := by
        rcases hend with rfl | rfl <;> simp [Closed, isLineEnd]
      have hrest : (c :: line).reverse.getLast? = some '\r' → cs.head? ≠ some '\n' := by
        intro hlast hhead
        obtain rfl : c = '\r' := by simpa using hlast
        obtain ⟨tail, rfl⟩ := List.head?_eq_some_iff.mp hhead
        exact hno tail rfl rfl
      have hcs : line.reverse ++ c :: cs = (c :: line).reverse ++ cs := by simp
      rw [hcs, lines_append hclosed hrest, List.flatMap_cons, ← ih, List.reverse_nil,
        List.nil_append]
  | case5 line c cs _ _ ih =>
      rw [← ih]
      simp

/-- The lines of a text are those of its counted lines. -/
theorem lines_eq_flatMap (cs : List Char) : lines cs = (sourceLines cs).flatMap lines :=
  lines_eq_flatMap_sourceLinesFrom [] cs

/-- The line under way ends at the first line end. -/
theorem head?_linesFrom {line cs : List Char} (h : line ≠ [] ∨ cs ≠ []) :
    (linesFrom line cs).head? = some (line.reverse ++ cs.takeWhile (!isLineEnd ·)) := by
  fun_induction linesFrom line cs with
  | case1 => simp at h
  | case2 c line => simp
  | case3 line cs => simp [isLineEnd]
  | case4 line c cs _ hend => simp [hend]
  | case5 line c cs _ hend ih =>
      rw [ih (Or.inl (List.cons_ne_nil _ _)), List.takeWhile_cons_of_pos (by simpa using hend)]
      simp

/-- How a counted line ends: not at all at the end of the text. -/
def countedEnds : List (List Char) := [[], ['\n'], ['\r'], ['\r', '\n']]

/-- A counted line is some characters and its end. -/
theorem exists_of_mem_sourceLinesFrom {line cs l : List Char}
    (hline : ∀ c ∈ line, (c != '\n' && c != '\r') = true) (h : l ∈ sourceLinesFrom line cs) :
    l ≠ [] ∧ ∃ body, ∃ tail ∈ countedEnds,
      l = body ++ tail ∧ ∀ c ∈ body, (c != '\n' && c != '\r') = true := by
  have hreverse : ∀ {line : List Char}, (∀ c ∈ line, (c != '\n' && c != '\r') = true) →
      ∀ c ∈ line.reverse, (c != '\n' && c != '\r') = true :=
    fun h c hc => h c (List.mem_reverse.mp hc)
  fun_induction sourceLinesFrom line cs with
  | case1 => exact absurd h List.not_mem_nil
  | case2 c line =>
      obtain rfl := List.mem_singleton.mp h
      exact ⟨by simp, _, [], by simp [countedEnds], by simp, hreverse hline⟩
  | case3 line cs ih =>
      rcases List.mem_cons.mp h with rfl | h
      · exact ⟨by simp, _, ['\r', '\n'], by simp [countedEnds], by simp, hreverse hline⟩
      · exact ih (fun _ hc => absurd hc List.not_mem_nil) h
  | case4 line c cs _ hend ih =>
      rcases List.mem_cons.mp h with rfl | h
      · refine ⟨by simp, _, [c], ?_, List.reverse_cons, hreverse hline⟩
        rcases hend with rfl | rfl <;> simp [countedEnds]
      · exact ih (fun _ hc => absurd hc List.not_mem_nil) h
  | case5 line c cs _ hend ih =>
      exact ih (List.forall_mem_cons.mpr ⟨by simpa [not_or] using hend, hline⟩) h

/-- A counted line without its end. -/
theorem withoutEnd_append {body tail : List Char}
    (hbody : ∀ c ∈ body, (c != '\n' && c != '\r') = true) (htail : tail ∈ countedEnds) :
    withoutEnd (body ++ tail) = body := by
  have hnone : tail.takeWhile (fun c => c != '\n' && c != '\r') = [] := by
    revert tail
    decide
  rw [withoutEnd, List.takeWhile_append_of_pos hbody, hnone, List.append_nil]

/-- Within a counted line the soft ends are all line ends. -/
theorem isLineEnd_eq_isSoftEnd {c : Char} (h : (c != '\n' && c != '\r') = true) :
    isLineEnd c = isSoftEnd c := by
  rw [isSoftEnd, Bool.and_assoc, h, Bool.and_true]

/-- A character that is no soft end ends a line if source positions count that. -/
theorem not_isLineEnd_eq {c : Char} (h : isSoftEnd c = false) :
    (!isLineEnd c) = (c != '\n' && c != '\r') := by
  cases hc : c != '\n' && c != '\r' with
  | true => rw [isLineEnd_eq_isSoftEnd hc, h, Bool.not_false]
  | false =>
      have hend : c = '\n' ∨ c = '\r' := by simpa [or_iff_not_imp_left] using hc
      rcases hend with rfl | rfl <;> rfl

section Firm

variable {cs line : List Char} {n : Nat}

/-- A counted line without soft ends is one line. -/
theorem lines_of_isFirm (h : line ∈ sourceLines cs) (hfirm : IsFirm line) :
    lines line = [withoutEnd line] := by
  obtain ⟨hne, body, tail, htail, rfl, hbody⟩ :=
    exists_of_mem_sourceLinesFrom (fun _ hc => absurd hc List.not_mem_nil) h
  have hunbroken : ∀ c ∈ body, isLineEnd c = false := fun c hc => by
    rw [isLineEnd_eq_isSoftEnd (hbody c hc)]
    exact hfirm c (List.mem_append_left _ hc)
  rw [withoutEnd_append hbody htail, lines, linesFrom_append_of_unbroken hunbroken, List.append_nil]
  simp only [countedEnds, List.mem_cons, List.not_mem_nil, or_false] at htail
  rcases htail with rfl | rfl | rfl | rfl
  · obtain ⟨c, rest, hreverse⟩ : ∃ c rest, body.reverse = c :: rest :=
      List.exists_cons_of_ne_nil (by simpa using hne)
    rw [hreverse, linesFrom, ← hreverse, List.reverse_reverse]
  all_goals simp [linesFrom, isLineEnd]

/-- A line's end is a line end. -/
theorem takeWhile_withoutEnd (line : List Char) :
    (withoutEnd line).takeWhile (!isLineEnd ·) = line.takeWhile (!isLineEnd ·) := by
  rw [withoutEnd, List.takeWhile_takeWhile]
  congr 1
  funext c
  by_cases hc : c = '\n' ∨ c = '\r'
  · rcases hc with rfl | rfl <;> rfl
  · simp [not_or.mp hc]

/-- In a line without soft ends nothing stands between its first line end and its end. -/
theorem takeWhile_of_isFirm (h : IsFirm line) :
    line.takeWhile (!isLineEnd ·) = withoutEnd line := by
  induction line with
  | nil => rfl
  | cons c line ih =>
      have hc := not_isLineEnd_eq (h c List.mem_cons_self)
      rw [withoutEnd, List.takeWhile_cons, List.takeWhile_cons, hc,
        ih fun d hd => h d (List.mem_cons_of_mem c hd), withoutEnd]

/-- Where no line before has a soft end, the line with a number begins the line that is counted with
this number, and ends at the first line end in it. -/
theorem lines_getElem? (h : ∀ line ∈ (sourceLines cs).take n, IsFirm line) :
    (lines cs)[n]? = ((sourceLines cs)[n]?).map (·.takeWhile (!isLineEnd ·)) := by
  have hsplit : lines cs = ((sourceLines cs).take n).map withoutEnd ++
      ((sourceLines cs).drop n).flatMap lines := by
    rw [lines_eq_flatMap]
    conv_lhs => rw [← List.take_append_drop n (sourceLines cs), List.flatMap_append]
    congr 1
    rw [List.map_eq_flatMap]
    exact List.flatMap_congr fun line hline =>
      lines_of_isFirm (List.mem_of_mem_take hline) (h line hline)
  rw [hsplit]
  by_cases hn : n < (sourceLines cs).length
  · have hlength : (((sourceLines cs).take n).map withoutEnd).length = n := by
      rw [List.length_map, List.length_take, Nat.min_eq_left hn.le]
    have hne : (sourceLines cs)[n] ≠ [] :=
      (exists_of_mem_sourceLinesFrom (fun _ hc => absurd hc List.not_mem_nil)
        (List.getElem_mem hn)).1
    rw [List.getElem?_append_right hlength.le, hlength, Nat.sub_self,
      List.drop_eq_getElem_cons hn, List.flatMap_cons, ← List.head?_eq_getElem?,
      List.head?_append, lines, head?_linesFrom (Or.inr hne), List.getElem?_eq_getElem hn]
    rfl
  · rw [List.drop_eq_nil_of_le (Nat.not_lt.mp hn), List.getElem?_eq_none (Nat.not_lt.mp hn)]
    refine List.getElem?_eq_none ?_
    rw [List.flatMap_nil, List.append_nil, List.length_map]
    exact List.length_take_le n _

end Firm

end Flowchart.Text
