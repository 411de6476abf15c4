import Flowchart.Proofs.Text

/-!
# Numbers of lines

The lines of a text are cut at every line end of Unicode, but places in it are often numbered by the
line feeds before them alone. `inLine_iff` says which line a place is in: the two numbers differ by the
*stray* ends before the place, line ends that neither are line feeds nor belong to one (`strayEnds`). A
line end itself is in no line.

A text that is empty or ends with a line end is *closed*. Its lines are followed by those of what comes
after it (`lines_append`), and there are as many as it has line ends (`length_linesFrom`).

## Main results

* `lines_append`: what comes after a closed text starts a line.
* `length_linesFrom`, `length_lines`: how many lines there are.
* `inLine_iff`: which line a place is in.
-/

namespace Flowchart.Text

/-- How many line ends are neither line feeds nor carriage returns in front of one. -/
def strayEnds : List Char → Nat
  | [] => 0
  | c :: cs =>
    strayEnds cs +
      if isLineEnd c = true ∧ c ≠ '\n' ∧ ¬(c = '\r' ∧ cs.head? = some '\n') then 1 else 0

/-- The text is empty or ends with a line end. -/
def Closed (cs : List Char) : Prop := ∀ c ∈ cs.getLast?, isLineEnd c = true

/-- The characters are all in one line. -/
def Unbroken (cs : List Char) : Prop := ∀ c ∈ cs, isLineEnd c = false

section Cutting

variable {before run rest : List Char}

/-- A closed text is closed without its first character. -/
theorem Closed.tail {c : Char} {cs : List Char} (h : Closed (c :: cs)) : Closed cs := by
  intro d hd
  refine h d ?_
  cases cs with
  | nil => exact absurd hd nofun
  | cons e cs => rwa [List.getLast?_cons_cons]

/-- A run without line ends starts with no line feed. -/
theorem Unbroken.head?_ne (h : Unbroken run) : run.head? ≠ some '\n' := by
  intro hhead
  exact absurd (h '\n' (List.mem_of_head? hhead)) (by decide)

/-- A closed text goes on after its first character. -/
theorem Closed.ne_nil {c : Char} {cs : List Char} (h : Closed (c :: cs))
    (hc : isLineEnd c = false) : cs ≠ [] := by
  rintro rfl
  exact absurd ((h c rfl).symm.trans hc) Bool.noConfusion

/-- The last character of what comes after the first one. -/
theorem getLast?_cons_of_getLast? {c d : Char} {cs : List Char} (h : cs.getLast? = some d) :
    (c :: cs).getLast? = some d := by
  rw [List.getLast?_cons, h, Option.getD_some]

/-- The line under way ends with the closed text, unless that ends within a line end. -/
theorem linesFrom_append_of_closed (line : List Char) (hclosed : Closed before)
    (hline : before ≠ [] ∨ line = [])
    (hrest : before.getLast? = some '\r' → rest.head? ≠ some '\n') :
    linesFrom line (before ++ rest) = linesFrom line before ++ linesFrom [] rest := by
  fun_induction linesFrom line before with
  | case1 => rfl
  | case2 => simp at hline
  | case3 line cs ih =>
      rw [List.cons_append, List.cons_append, linesFrom, ih hclosed.tail.tail (Or.inr rfl)
        fun h => hrest (getLast?_cons_of_getLast? (getLast?_cons_of_getLast? h)), List.cons_append]
  | case4 line c cs hno hend ih =>
      rw [List.cons_append, linesFrom, if_pos hend, ih hclosed.tail (Or.inr rfl)
        fun h => hrest (getLast?_cons_of_getLast? h), List.cons_append]
      rintro tail rfl htail
      cases cs with
      | nil => exact hrest rfl (congrArg List.head? htail)
      | cons d cs =>
          obtain ⟨rfl, -⟩ := List.cons.inj htail
          exact hno cs rfl rfl
  | case5 line c cs hno hend ih =>
      have hc : isLineEnd c = false := Bool.eq_false_iff.mpr hend
      rw [List.cons_append, linesFrom, if_neg hend, ih hclosed.tail (Or.inl (hclosed.ne_nil hc))
        fun h => hrest (getLast?_cons_of_getLast? h)]
      rintro tail rfl -
      exact absurd hc (by decide)

/-- The lines of a closed text are followed by those of what comes after it. -/
theorem lines_append (hclosed : Closed before)
    (hrest : before.getLast? = some '\r' → rest.head? ≠ some '\n') :
    lines (before ++ rest) = lines before ++ lines rest :=
  linesFrom_append_of_closed [] hclosed (Or.inr rfl) hrest

/-- A closed text has as many lines as line ends. -/
theorem length_linesFrom (line : List Char) (hclosed : Closed before)
    (hline : before ≠ [] ∨ line = []) :
    (linesFrom line before).length = before.count '\n' + strayEnds before := by
  fun_induction linesFrom line before with
  | case1 => rfl
  | case2 => simp at hline
  | case3 line cs ih =>
      rw [List.length_cons, ih hclosed.tail.tail (Or.inr rfl)]
      simp [strayEnds]
      omega
  | case4 line c cs hno hend ih =>
      have hno' : ¬(c = '\r' ∧ cs.head? = some '\n') := by
        rintro ⟨rfl, hhead⟩
        obtain ⟨tail, rfl⟩ := List.head?_eq_some_iff.mp hhead
        exact hno tail rfl rfl
      rw [List.length_cons, ih hclosed.tail (Or.inr rfl), strayEnds, List.count_cons]
      by_cases hc : c = '\n' <;> simp [hc, hend, hno'] <;> omega
  | case5 line c cs hno hend ih =>
      have hc : isLineEnd c = false := Bool.eq_false_iff.mpr hend
      have hne : c ≠ '\n' := by
        rintro rfl
        exact absurd hc (by decide)
      rw [ih hclosed.tail (Or.inl (hclosed.ne_nil hc)), strayEnds, List.count_cons_of_ne hne]
      simp [hc]

/-- The line under way ends at a line end or at the end of the text. -/
theorem exists_linesFrom_eq {line : List Char} (hne : line ≠ [])
    (hrest : ∀ c ∈ rest.head?, isLineEnd c = true) :
    ∃ below, linesFrom line rest = line.reverse :: below := by
  fun_cases linesFrom line rest with
  | case1 => exact absurd rfl hne
  | case2 c line => exact ⟨_, rfl⟩
  | case3 line cs => exact ⟨_, rfl⟩
  | case4 line c cs _ hend => exact ⟨_, rfl⟩
  | case5 line c cs _ hend => exact absurd (hrest c rfl) hend

/-- Unbroken characters after a closed text begin the next line, which goes on to a line end. -/
theorem exists_lines_append (hclosed : Closed before) (hrun : Unbroken run) (hne : run ≠ [])
    (rest : List Char) : ∃ below, lines (before ++ (run ++ rest)) =
      lines before ++ (run ++ rest.takeWhile (!isLineEnd ·)) :: below := by
  have hmore : Unbroken (rest.takeWhile (!isLineEnd ·)) := fun c hc => by
    simpa using List.mem_takeWhile_imp hc
  have hends : ∀ c ∈ (rest.dropWhile (!isLineEnd ·)).head?, isLineEnd c = true := fun c hc => by
    have hnot := List.head?_dropWhile_not (!isLineEnd ·) rest
    rw [Option.mem_def.mp hc] at hnot
    simpa using hnot
  have hhead : (run ++ rest).head? ≠ some '\n' := by
    rw [List.head?_append_of_ne_nil _ hne]
    exact hrun.head?_ne
  have hstart : lines (run ++ rest) = linesFrom
      ((rest.takeWhile (!isLineEnd ·)).reverse ++ run.reverse) (rest.dropWhile (!isLineEnd ·)) := by
    rw [lines, linesFrom_append_of_unbroken hrun, List.append_nil,
      ← linesFrom_append_of_unbroken hmore, List.takeWhile_append_dropWhile]
  have hline : (rest.takeWhile (!isLineEnd ·)).reverse ++ run.reverse ≠ [] := by simp [hne]
  obtain ⟨below, hbelow⟩ := exists_linesFrom_eq hline hends
  exact ⟨below, by rw [lines_append hclosed fun _ => hhead, hstart, hbelow]; simp⟩

/-- There is no line end in a line, if there was none in the line under way. -/
theorem unbroken_of_mem_linesFrom {line cs l : List Char} (hline : Unbroken line)
    (hl : l ∈ linesFrom line cs) : Unbroken l := by
  have hreverse : ∀ {line : List Char}, Unbroken line → Unbroken line.reverse :=
    fun h c hc => h c (List.mem_reverse.mp hc)
  fun_induction linesFrom line cs with
  | case1 => exact absurd hl List.not_mem_nil
  | case2 c line => exact List.mem_singleton.mp hl ▸ hreverse hline
  | case3 line cs ih | case4 line c cs _ _ ih =>
      rcases List.mem_cons.mp hl with rfl | hl
      · exact hreverse hline
      · exact ih (fun _ hc => absurd hc List.not_mem_nil) hl
  | case5 line c cs _ hend ih =>
      exact ih (List.forall_mem_cons.mpr ⟨Bool.eq_false_iff.mpr hend, hline⟩) hl

/-- A line has no line end in it. -/
theorem unbroken_of_mem_lines {cs line : List Char} (hline : line ∈ lines cs) : Unbroken line :=
  unbroken_of_mem_linesFrom (fun _ hc => absurd hc List.not_mem_nil) hline

/-- Every text is a closed one with unbroken characters after it. -/
theorem exists_closed_append_unbroken (cs : List Char) :
    ∃ before run, cs = before ++ run ∧ Closed before ∧ Unbroken run := by
  induction cs using List.reverseRecOn with
  | nil => exact ⟨[], [], rfl, nofun, nofun⟩
  | append_singleton cs c ih =>
      cases hc : isLineEnd c with
      | true =>
          refine ⟨cs ++ [c], [], (List.append_nil _).symm, fun d hd => ?_, nofun⟩
          rw [List.getLast?_concat] at hd
          exact Option.some.inj hd ▸ hc
      | false =>
          obtain ⟨before, run, rfl, hclosed, hrun⟩ := ih
          refine ⟨before, run ++ [c], List.append_assoc .., hclosed, ?_⟩
          exact List.forall_mem_append.mpr ⟨hrun, by simpa using hc⟩

/-- A run without line ends has no stray ones. -/
theorem strayEnds_of_unbroken (hrun : Unbroken run) : strayEnds run = 0 := by
  induction run with
  | nil => rfl
  | cons c run ih =>
      have hc := hrun c List.mem_cons_self
      rw [strayEnds, ih fun d hd => hrun d (List.mem_cons_of_mem c hd), if_neg (by simp [hc])]

/-- Unbroken characters make no stray ends. -/
theorem strayEnds_append_of_unbroken (hrun : Unbroken run) (cs : List Char) :
    strayEnds (cs ++ run) = strayEnds cs := by
  induction cs with
  | nil => exact strayEnds_of_unbroken hrun
  | cons c cs ih =>
      have hhead : (cs ++ run).head? = some '\n' ↔ cs.head? = some '\n' := by
        cases cs with
        | nil => exact iff_of_false hrun.head?_ne nofun
        | cons d cs => rfl
      rw [List.cons_append, strayEnds, ih, strayEnds]
      simp only [hhead]

/-- A run without line ends has no line feeds to count. -/
theorem count_append_of_unbroken (hrun : Unbroken run) (cs : List Char) :
    (cs ++ run).count '\n' = cs.count '\n' := by
  have hzero : run.count '\n' = 0 :=
    List.count_eq_zero.mpr fun hmem => absurd (hrun '\n' hmem) (by decide)
  rw [List.count_append, hzero, Nat.add_zero]

/-- The lines of a closed text are as many as the line ends before a place of the next line. -/
theorem length_lines (hclosed : Closed before) (hrun : Unbroken run) :
    (lines before).length = (before ++ run).count '\n' + strayEnds (before ++ run) := by
  rw [count_append_of_unbroken hrun, strayEnds_append_of_unbroken hrun]
  exact length_linesFrom [] hclosed (Or.inr rfl)

end Cutting

/-! ### Lines of places -/

/-- The line `line` of a text stands after `before`, with the lines `below` after it. -/
structure LineAfter (cs before line : List Char) (below : List (List Char)) : Prop where
  append_prefix : before ++ line <+: cs
  lines_eq : lines cs = lines before ++ line :: below

/-- The place `p` of a text is in its line `n`, counted from one. -/
def InLine (cs : List Char) (p n : Nat) : Prop :=
  ∃ before line below, LineAfter cs before line below ∧
    before.length ≤ p ∧ p < before.length + line.length ∧ n = (lines before).length + 1

section Places

variable {cs before line : List Char} {below : List (List Char)} {p n : Nat}

/-- The line after a text has no line end in it. -/
theorem LineAfter.unbroken (h : LineAfter cs before line below) : Unbroken line := by
  have hmem : line ∈ lines cs := by
    rw [h.lines_eq]
    simp
  exact unbroken_of_mem_lines hmem

/-- What stands before a line that is not empty is closed. -/
theorem LineAfter.closed (h : LineAfter cs before line below) (hne : line ≠ []) : Closed before := by
  obtain ⟨closed, run, rfl, hclosed, hrun⟩ := exists_closed_append_unbroken before
  rcases eq_or_ne run [] with rfl | hrun'
  · rwa [List.append_nil]
  · obtain ⟨after, hcs⟩ := h.append_prefix
    have hlines := h.lines_eq
    obtain ⟨below₀, hbefore⟩ := exists_lines_append hclosed hrun hrun' []
    obtain ⟨below₁, hall⟩ := exists_lines_append hclosed hrun hrun' (line ++ after)
    rw [List.append_nil, List.takeWhile_nil, List.append_nil] at hbefore
    rw [← hcs, List.append_assoc, List.append_assoc, hall, hbefore, List.append_assoc,
      List.cons_append] at hlines
    -- the line before would go on with this one
    have hsame := (List.cons.inj (List.append_cancel_left hlines)).1
    rw [List.takeWhile_append_of_pos (fun c hc => by simp [h.unbroken c hc])] at hsame
    have hlength := congrArg List.length hsame
    simp at hlength
    exact absurd hlength.1 hne

/-- A character in a line is no line end, and the number of the line counts the ends before it. -/
theorem InLine.spec (h : InLine cs p n) : (∃ c, cs[p]? = some c ∧ isLineEnd c = false) ∧
    n = (cs.take p).count '\n' + strayEnds (cs.take p) + 1 := by
  obtain ⟨before, line, below, hline, hle, hlt, rfl⟩ := h
  have hunbroken := hline.unbroken
  have hclosed := hline.closed (List.ne_nil_of_length_pos (by omega))
  obtain ⟨after, rfl⟩ := hline.append_prefix
  obtain ⟨i, rfl⟩ := Nat.exists_eq_add_of_le hle
  have hi : i < line.length := by omega
  refine ⟨⟨_, ?_, hunbroken _ (List.getElem_mem hi)⟩, ?_⟩
  · rw [List.append_assoc, List.getElem?_append_right (by omega), Nat.add_sub_cancel_left,
      List.getElem?_append_left hi, List.getElem?_eq_getElem hi]
  · have htaken : Unbroken (line.take i) := fun c hc => hunbroken c (List.mem_of_mem_take hc)
    rw [List.append_assoc, List.take_append, List.take_of_length_le (by omega),
      Nat.add_sub_cancel_left, List.take_append_of_le_length (by omega), length_lines hclosed htaken]

/-- A character that is no line end is in a line. -/
theorem inLine_append (before after : List Char) {c : Char} (hc : isLineEnd c = false) :
    InLine (before ++ c :: after) before.length (before.count '\n' + strayEnds before + 1) := by
  obtain ⟨closed, run, rfl, hclosed, hrun⟩ := exists_closed_append_unbroken before
  have hrun' : Unbroken (run ++ [c]) := List.forall_mem_append.mpr ⟨hrun, by simpa using hc⟩
  obtain ⟨below, hlines⟩ := exists_lines_append hclosed hrun' (by simp) after
  have hcs : closed ++ run ++ c :: after = closed ++ (run ++ [c] ++ after) := by simp
  refine ⟨closed, _, below, ⟨?_, (congrArg lines hcs).trans hlines⟩, by simp, by simp, ?_⟩
  · rw [hcs, List.prefix_append_right_inj, List.prefix_append_right_inj]
    exact List.takeWhile_prefix _
  · rw [length_lines hclosed hrun]

/-- The line of a place: there is one if the character there is no line end, and its number counts the
line feeds and the stray ends before it. -/
theorem inLine_iff : InLine cs p n ↔ (∃ c, cs[p]? = some c ∧ isLineEnd c = false) ∧
    n = (cs.take p).count '\n' + strayEnds (cs.take p) + 1 := by
  refine ⟨InLine.spec, ?_⟩
  rintro ⟨⟨c, hc, hend⟩, rfl⟩
  obtain ⟨hp, rfl⟩ := List.getElem?_eq_some_iff.mp hc
  have hline := inLine_append (cs.take p) (cs.drop (p + 1)) hend
  rwa [← List.drop_eq_getElem_cons hp, List.take_append_drop, List.length_take,
    Nat.min_eq_left (Nat.le_of_lt hp)] at hline

end Places

end Flowchart.Text
