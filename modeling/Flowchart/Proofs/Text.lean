import Flowchart.Text.Blank
import Flowchart.Text.Lines
import Flowchart.Text.Search
import Mathlib.Data.List.DropRight
import Mathlib.Tactic.SplitIfs

/-!
# Blanks, lines and occurrences

Facts about texts that checks of diagram text rest on: trimming takes the indentation off a line
and nothing else, normal texts hold no blank but the space, lines that are joined are found again,
and a word occurs at most as often as its last character does.

## Main results

* `trim_indented`: trimming takes the indentation off.
* `lines_flatMap`: lines that are joined are found again.
* `countFrom_le`, `count_le`: a word occurs at most as often as its last character.
-/

namespace Flowchart.Text

/-! ### Blanks -/

/-- The ends of lines are blanks. -/
theorem isBlank_of_isLineEnd {c : Char} (h : isLineEnd c = true) : isBlank c = true := by
  simp only [isLineEnd, isBlank, Bool.or_eq_true, Bool.and_eq_true, decide_eq_true_eq,
    beq_iff_eq] at h ⊢
  omega

/-- A character that is no blank ends no line. -/
theorem isLineEnd_eq_false {c : Char} (h : isBlank c = false) : isLineEnd c = false := by
  rw [Bool.eq_false_iff]
  intro hend
  rw [isBlank_of_isLineEnd hend] at h
  exact Bool.noConfusion h

/-- Trimming a line takes off the indentation. -/
theorem trim_indented (k : Nat) {core : List Char} (hfirst : ∀ c ∈ core.head?, isBlank c = false)
    (hlast : ∀ c ∈ core.getLast?, isBlank c = false) :
    trim (List.replicate k ' ' ++ core) = core := by
  have hstart : trimStart (List.replicate k ' ' ++ core) = core := by
    have hspaces : ∀ c ∈ List.replicate k ' ', isBlank c = true := by
      intro c hc
      rw [List.eq_of_mem_replicate hc]
      decide
    rw [trimStart, List.dropWhile_append_of_pos hspaces]
    cases core with
    | nil => rfl
    | cons c cs => rw [List.dropWhile_cons_of_neg (by simp [hfirst c rfl])]
  have hend : trimEnd core = core := by
    refine List.rdropWhile_eq_self_iff.mpr fun hne => ?_
    rw [hlast _ (List.getLast?_eq_some_getLast hne)]
    exact Bool.noConfusion
  rw [trim, hstart, hend]

/-- Blanks at the end of a text are trimmed. -/
theorem trim_append_of_allBlank (cs : List Char) {blanks : List Char}
    (h : allBlank blanks = true) : trim (cs ++ blanks) = trim cs := by
  have hblank : ∀ c ∈ blanks, isBlank c = true := List.all_eq_true.mp h
  have hend : ∀ xs, trimEnd (xs ++ blanks) = trimEnd xs := by
    intro xs
    rw [trimEnd, dropEndWhile, List.reverse_append, List.dropWhile_append_of_pos fun c hc =>
      hblank c (List.mem_reverse.mp hc)]
    rfl
  rw [trim, trim, trimStart, trimStart, List.dropWhile_append]
  split_ifs with hempty
  · rw [List.isEmpty_iff.mp hempty, List.dropWhile_eq_nil_iff.mpr hblank]
  · exact hend _

/-- Blanks at the start of a text are trimmed. -/
theorem trim_allBlank_append {blanks : List Char} (h : allBlank blanks = true) (cs : List Char) :
    trim (blanks ++ cs) = trim cs := by
  rw [trim, trim, trimStart, List.dropWhile_append_of_pos (List.all_eq_true.mp h)]
  rfl

/-- The blanks before a text that starts with none are dropped, and no more. -/
theorem dropWhile_blanks_append {blanks cs : List Char} (hblanks : allBlank blanks = true)
    (hfirst : ∀ c ∈ cs.head?, isBlank c = false) : (blanks ++ cs).dropWhile isBlank = cs := by
  rw [List.dropWhile_append_of_pos (List.all_eq_true.mp hblanks)]
  cases cs with
  | nil => rfl
  | cons c cs => rw [List.dropWhile_cons_of_neg (by simp [hfirst c rfl])]

/-- Trimming a text twice is trimming it once. -/
theorem trim_trimStart (cs : List Char) : trim (trimStart cs) = trim cs := by
  rw [trim, trim, trimStart, trimStart, List.dropWhile_idempotent]

/-- What is dropped at the end is at the end. -/
theorem dropEndWhile_sublist (p : Char → Bool) (cs : List Char) :
    (dropEndWhile p cs).Sublist cs :=
  (List.rdropWhile_prefix p cs).sublist

/-- What is dropped from the end of a text is of the class that is dropped. -/
theorem exists_eq_dropEndWhile_append (p : Char → Bool) (cs : List Char) :
    ∃ dropped, cs = dropEndWhile p cs ++ dropped ∧ ∀ c ∈ dropped, p c = true := by
  refine ⟨(cs.reverse.takeWhile p).reverse, ?_, fun c hc => ?_⟩
  · rw [dropEndWhile, ← List.reverse_append, List.takeWhile_append_dropWhile, List.reverse_reverse]
  · exact List.mem_takeWhile_imp (List.mem_reverse.mp hc)

/-- Trimming leaves characters out and changes none. -/
theorem trim_sublist (cs : List Char) : (trim cs).Sublist cs :=
  (dropEndWhile_sublist isBlank _).trans (List.dropWhile_sublist isBlank)

/-- Trimming adds nothing. -/
theorem mem_of_mem_trim {c : Char} {cs : List Char} (h : c ∈ trim cs) : c ∈ cs :=
  (trim_sublist cs).subset h

/-- Squeezing leaves the characters that are no blanks, and spaces. -/
theorem mem_squeezeFrom {c : Char} {inRun : Bool} {cs : List Char} (h : c ∈ squeezeFrom inRun cs) :
    c = ' ' ∨ c ∈ cs ∧ isBlank c = false := by
  induction cs generalizing inRun with
  | nil => exact absurd h List.not_mem_nil
  | cons d cs ih =>
      have hrest : ∀ {r : Bool}, c ∈ squeezeFrom r cs → c = ' ' ∨ c ∈ d :: cs ∧ isBlank c = false :=
        fun h => (ih h).imp id fun h => ⟨List.mem_cons_of_mem d h.1, h.2⟩
      rw [squeezeFrom] at h
      split_ifs at h with hblank hrun
      · exact hrest h
      · exact (List.mem_cons.mp h).elim Or.inl hrest
      · rcases List.mem_cons.mp h with rfl | h
        · exact Or.inr ⟨List.mem_cons_self, Bool.eq_false_iff.mpr hblank⟩
        · exact hrest h

/-- A character that is no blank is left where it is. -/
theorem squeezeFrom_append_cons {c : Char} (hc : isBlank c = false) (inRun : Bool)
    (xs ys : List Char) :
    squeezeFrom inRun (xs ++ c :: ys) = squeezeFrom inRun xs ++ c :: squeezeFrom false ys := by
  fun_induction squeezeFrom inRun xs <;> simp_all [squeezeFrom]

/-- Characters that are no blanks are left where they are. -/
theorem squeezeFrom_append_of_not_isBlank {xs : List Char} (hxs : ∀ c ∈ xs, isBlank c = false)
    (ys : List Char) :
    squeezeFrom false (xs ++ ys) = xs ++ squeezeFrom false ys := by
  induction xs with
  | nil => rfl
  | cons c xs ih =>
      rw [List.cons_append, squeezeFrom, hxs c List.mem_cons_self, if_neg Bool.false_ne_true,
        ih fun d hd => hxs d (List.mem_cons_of_mem c hd)]
      rfl

/-- A normal text holds no blank but the space. -/
theorem mem_normalize {c : Char} {cs : List Char} (h : c ∈ normalize cs) :
    c = ' ' ∨ c ∈ cs ∧ isBlank c = false :=
  mem_squeezeFrom (mem_of_mem_trim h)

/-! ### Lines -/

/-- Characters that end no line go into the line under way. -/
theorem linesFrom_append_of_unbroken {l : List Char} (hl : ∀ c ∈ l, isLineEnd c = false)
    (line rest : List Char) : linesFrom line (l ++ rest) = linesFrom (l.reverse ++ line) rest := by
  induction l generalizing line with
  | nil => rfl
  | cons c l ih =>
      have hc := hl c List.mem_cons_self
      have hne : c ≠ '\r' := by
        rintro rfl
        exact absurd hc (by decide)
      rw [List.cons_append, linesFrom]
      · rw [hc, if_neg Bool.noConfusion, ih fun d hd => hl d (List.mem_cons_of_mem c hd)]
        simp
      · exact fun _ h => absurd h hne

/-- A line feed ends the line under way. -/
theorem linesFrom_append {l : List Char} (hl : ∀ c ∈ l, isLineEnd c = false)
    (line rest : List Char) :
    linesFrom line (l ++ '\n' :: rest) = (line.reverse ++ l) :: linesFrom [] rest := by
  rw [linesFrom_append_of_unbroken hl, linesFrom, if_pos (by decide)]
  · simp
  · simp

/-- Lines that are joined are found again. -/
theorem lines_flatMap {ls : List (List Char)} (h : ∀ l ∈ ls, ∀ c ∈ l, isLineEnd c = false) :
    lines (ls.flatMap (· ++ ['\n'])) = ls := by
  induction ls with
  | nil => rfl
  | cons l ls ih =>
      rw [List.flatMap_cons, List.append_assoc, List.singleton_append, lines,
        linesFrom_append (h l List.mem_cons_self), List.reverse_nil, List.nil_append]
      exact congrArg _ (ih fun l' hl' => h l' (List.mem_cons_of_mem l hl'))

/-! ### Quiet characters -/

/-- Characters that neither end a line nor mean anything to a check of a line: no double quote and
no head of an arrow. -/
def isQuiet (c : Char) : Bool := !isLineEnd c && c != '"' && c != '>'

/-- A quiet character ends no line. -/
theorem isLineEnd_of_isQuiet {c : Char} (h : isQuiet c = true) : isLineEnd c = false := by
  simp only [isQuiet, Bool.and_eq_true, Bool.not_eq_true'] at h
  exact h.1.1

/-- Among quiet characters there is no quote. -/
theorem count_quote_of_isQuiet {cs : List Char} (h : ∀ c ∈ cs, isQuiet c = true) :
    cs.count '"' = 0 :=
  List.count_eq_zero.mpr fun hc => absurd (h _ hc) (by decide)

/-- Among quiet characters there is no head of an arrow. -/
theorem count_arrow_of_isQuiet {cs : List Char} (h : ∀ c ∈ cs, isQuiet c = true) :
    cs.count '>' = 0 :=
  List.count_eq_zero.mpr fun hc => absurd (h _ hc) (by decide)

/-! ### Occurrences -/

/-- A word occurs at most as often as its last character. -/
theorem countFrom_le (q : List Char) (m : Char) (skip : Nat) (cs : List Char) :
    countFrom (q ++ [m]) skip cs ≤ (cs.drop skip).count m := by
  induction cs generalizing skip with
  | nil => cases skip <;> simp [countFrom]
  | cons c cs ih =>
      cases skip with
      | succ skip => exact ih skip
      | zero =>
          rw [countFrom]
          split_ifs with hprefix
          · obtain ⟨rest, hrest⟩ := List.isPrefixOf_iff_prefix.mp hprefix
            have hdrop : cs.drop ((q ++ [m]).length - 1) = rest := by
              have hcs : (c :: cs).drop ((q ++ [m]).length - 1 + 1) = rest := by
                rw [← hrest, Nat.sub_add_cancel (by simp), List.drop_left]
              exact hcs
            have hle := ih ((q ++ [m]).length - 1)
            rw [hdrop] at hle
            rw [List.drop_zero, ← hrest, List.count_append, List.count_append,
              List.count_singleton_self]
            omega
          · exact Nat.le_trans (ih 0) (List.Sublist.count_le m (List.sublist_cons_self c cs))

/-- A word occurs at most as often as its last character does. -/
theorem count_le (q : List Char) (m : Char) (cs : List Char) :
    count (q ++ [m]) cs ≤ cs.count m :=
  countFrom_le q m 0 cs

/-- What is counted occurs. -/
theorem infix_of_countFrom_ne_zero {part : List Char} {skip : Nat} {cs : List Char}
    (h : countFrom part skip cs ≠ 0) : part <:+: cs := by
  induction cs generalizing skip with
  | nil => cases skip <;> exact absurd rfl h
  | cons c cs ih =>
      cases skip with
      | succ skip => exact (ih h).trans (List.suffix_cons c cs).isInfix
      | zero =>
          rw [countFrom] at h
          split_ifs at h with hprefix
          · exact (List.isPrefixOf_iff_prefix.mp hprefix).isInfix
          · exact (ih h).trans (List.suffix_cons c cs).isInfix

/-- What stands before a character that occurs once is what stands before it first. -/
theorem eq_takeWhile_of_count_le_one {pre post cs : List Char} {m : Char}
    (hcs : pre ++ m :: post = cs) (h : cs.count m ≤ 1) : pre = cs.takeWhile (· != m) := by
  rw [← hcs, List.count_append, List.count_cons_self] at h
  have hpre : m ∉ pre := List.count_eq_zero.mp (by omega)
  have hall : ∀ c ∈ pre, (c != m) = true := fun c hc => bne_iff_ne.mpr fun heq => hpre (heq ▸ hc)
  rw [← hcs, List.takeWhile_append_of_pos hall, List.takeWhile_cons_of_neg (by simp),
    List.append_nil]

end Flowchart.Text
