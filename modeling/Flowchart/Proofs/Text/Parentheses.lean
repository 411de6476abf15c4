import Flowchart.Proofs.Text.Nesting

/-!
# Parentheses around a text

Which texts lose the parentheses around them. The parentheses are counted wherever they stand, in
literals as well: those around a text go if no start of what is between them closes more of them than
it opens (`unwraps_stripParens`).

For a text in which every literal has its parentheses in pairs, this is so exactly if the first
parenthesis is closed by the last one, literals not counted, and what is left is balanced again
(`shows_stripParens`).

## Two ways to count

`Covered` and `Paired` count every parenthesis of a text, as the scan does. `Balanced` reads the
text and counts those outside of literals. They differ on a text such as `(a == "(") || (b)`, whose
outer parentheses are counted as a pair although neither belongs to the other; where each literal
has its own parentheses in pairs (`BalancedThroughout`), they agree.

## Main results

* `unwraps_stripParens`: which parentheses go, for every text.
* `BalancedThroughout.covered_iff`: the two ways to count agree.
* `shows_stripParens`: one pair goes if it encloses the whole text, and nothing else does.
-/

namespace Flowchart.Text

/-! ### Counting -/

/-- In no start of the text are there more than `depth` parentheses closed that are not opened there,
those in literals included. -/
def Covered (depth : Nat) (cs : List Char) : Prop :=
  ∀ n, (cs.take n).count ')' ≤ (cs.take n).count '(' + depth

/-- A text with its parentheses in pairs, those in literals included. -/
structure Paired (cs : List Char) : Prop where
  count_eq : cs.count '(' = cs.count ')'
  covered : Covered 0 cs

/-- A balanced text in which every literal has its parentheses in pairs. -/
abbrev BalancedThroughout (cs : List Char) : Prop :=
  Nested parentheses (fun _ inside => Paired inside) (fun _ => True) cs

variable {depth : Nat} {c : Char} {xs ys cs inside : List Char}

/-- An empty text closes nothing. -/
theorem covered_nil (depth : Nat) : Covered depth [] := fun n => by simp

/-- What a text closes, with its first character counted apart. -/
theorem covered_cons :
    Covered depth (c :: cs) ↔
      ∀ n, (cs.take n).count ')' + [c].count ')' ≤ (cs.take n).count '(' + [c].count '(' + depth := by
  have hcons : ∀ d, ∀ n, ((c :: cs).take (n + 1)).count d = (cs.take n).count d + [c].count d := by
    intro d n
    rw [List.take_succ_cons, List.count_cons, List.count_singleton]
  refine ⟨fun h n => ?_, fun h n => ?_⟩
  · rw [← hcons, ← hcons]
    exact h (n + 1)
  · cases n with
    | zero => simp
    | succ n =>
        rw [hcons, hcons]
        exact h n

/-- An opening parenthesis is one more that may be closed. -/
theorem covered_opening : Covered depth ('(' :: cs) ↔ Covered (depth + 1) cs := by
  have hcount : ['('].count ')' = 0 ∧ ['('].count '(' = 1 := by decide
  refine covered_cons.trans (forall_congr' fun n => ?_)
  omega

/-- A closing parenthesis is one less that may be closed. -/
theorem covered_closing : Covered (depth + 1) (')' :: cs) ↔ Covered depth cs := by
  have hcount : [')'].count ')' = 1 ∧ [')'].count '(' = 0 := by decide
  refine covered_cons.trans (forall_congr' fun n => ?_)
  omega

/-- Where nothing is open nothing may be closed. -/
theorem not_covered_closing : ¬ Covered 0 (')' :: cs) := fun h => by
  have hfirst := h 1
  rw [List.take_succ_cons, List.take_zero] at hfirst
  exact absurd hfirst (by decide)

/-- Other characters do not count. -/
theorem covered_plain (hopen : c ≠ '(') (hclose : c ≠ ')') :
    Covered depth (c :: cs) ↔ Covered depth cs := by
  have hcount : [c].count ')' = 0 ∧ [c].count '(' = 0 :=
    ⟨List.count_eq_zero.mpr (by simpa using hclose.symm),
      List.count_eq_zero.mpr (by simpa using hopen.symm)⟩
  refine covered_cons.trans (forall_congr' fun n => ?_)
  omega

/-- Where more is open, more may be closed. -/
theorem Covered.mono (h : Covered depth cs) (k : Nat) : Covered (depth + k) cs :=
  fun n => Nat.le_trans (h n) (by omega)

/-- Behind a text with as many parentheses of either kind, as much may be closed as before. -/
theorem Covered.append (hxs : Covered depth xs) (heq : xs.count '(' = xs.count ')')
    (hys : Covered depth ys) : Covered depth (xs ++ ys) := by
  intro n
  rw [List.take_append, List.count_append, List.count_append]
  by_cases hn : n ≤ xs.length
  · rw [Nat.sub_eq_zero_of_le hn]
    simpa using hxs n
  · have hfirst : xs.take n = xs := List.take_of_length_le (by omega)
    have hrest := hys (n - xs.length)
    rw [hfirst]
    omega

namespace Paired

/-- An empty text has its parentheses in pairs. -/
theorem nil : Paired [] := ⟨rfl, covered_nil 0⟩

/-- Texts in a row have their parentheses in pairs if each has. -/
theorem append (hxs : Paired xs) (hys : Paired ys) : Paired (xs ++ ys) :=
  ⟨by rw [List.count_append, List.count_append, hxs.count_eq, hys.count_eq],
    hxs.covered.append hxs.count_eq hys.covered⟩

/-- A character that is no parenthesis has none. -/
theorem singleton (hopen : c ≠ '(') (hclose : c ≠ ')') : Paired [c] :=
  ⟨by rw [List.count_eq_zero.mpr (by simpa using hopen.symm),
      List.count_eq_zero.mpr (by simpa using hclose.symm)],
    (covered_plain hopen hclose).mpr (covered_nil 0)⟩

/-- Parentheses around pairs are a pair. -/
theorem group (h : Paired inside) : Paired ('(' :: (inside ++ [')'])) := by
  refine ⟨?_, covered_opening.mpr ((h.covered.mono 1).append h.count_eq ?_)⟩
  · have hcount := h.count_eq
    simp
    omega
  · exact covered_closing.mpr (covered_nil 0)

end Paired

/-- A balanced text with paired literals is paired throughout. -/
theorem BalancedThroughout.paired {outside : Char → Prop}
    (h : Nested parentheses (fun _ inside => Paired inside) outside cs) : Paired cs := by
  induction h with
  | nil => exact .nil
  | plain _ hparen _ _ ih =>
      obtain ⟨hopen, hclose⟩ := hparen ('(', ')') List.mem_cons_self
      exact (Paired.singleton hopen hclose).append ih
  | @literal _ q inside cs hq _ hpaired _ ih =>
      obtain ⟨-, hopen, hclose, -⟩ := ne_of_isQuote hq
      have hquote := Paired.singleton hopen hclose
      have hall := (hquote.append (hpaired.append hquote)).append ih
      rwa [List.append_assoc, List.append_assoc] at hall
  | @group _ b inside cs hb _ _ ihInside ih =>
      obtain rfl := mem_parentheses.mp hb
      have hall := ihInside.group.append ih
      rwa [List.cons_append, List.append_assoc] at hall

/-- A text that is balanced in its literals as well is balanced. -/
theorem BalancedThroughout.balanced (h : BalancedThroughout cs) : Balanced cs :=
  h.mono (fun _ _ _ => trivial) fun _ h => h

/-- It stays so without the blanks around it. -/
theorem BalancedThroughout.trim (h : BalancedThroughout cs) : BalancedThroughout (trim cs) :=
  Nested.trim h (by decide)

/-! ### The parentheses around a text -/

/-- The scan does not stop before the last character exactly if what stands before it is covered. -/
theorem closesEarly_eq_false_iff :
    closesEarly (depth + 1) (inside ++ [')']) = false ↔ Covered depth inside := by
  induction inside generalizing depth with
  | nil => exact iff_of_true (by simp [closesEarly]) (covered_nil depth)
  | cons c inside ih =>
      have hne : (inside ++ [')']).isEmpty = false := by simp
      rw [List.cons_append, closesEarly]
      split_ifs with hopen hclose
      · rw [hopen, covered_opening, ih]
      · rw [hclose]
        cases depth with
        | zero => exact iff_of_false (by simp [hne]) not_covered_closing
        | succ depth =>
            rw [covered_closing, ← ih, Nat.add_sub_cancel, hne]
            simp
      · rw [covered_plain hopen hclose, ih]

/-- The text without the parentheses around it, if they are there and what is between them is
`wrapped`, and else the text; without the blanks at its ends. -/
def Unwraps (wrapped : List Char → Prop) (text result : List Char) : Prop :=
  (∃ inside, trim text = '(' :: (inside ++ [')']) ∧ wrapped inside ∧ result = trim inside) ∨
    (¬ ∃ inside, trim text = '(' :: (inside ++ [')']) ∧ wrapped inside) ∧ result = trim text

/-- A text that starts with one parenthesis and ends with the other stands between the two. -/
theorem exists_eq_wrapped (hfirst : cs.head? = some '(') (hlast : cs.getLast? = some ')') :
    ∃ inside, cs = '(' :: (inside ++ [')']) := by
  obtain ⟨tail, rfl⟩ := List.head?_eq_some_iff.mp hfirst
  rcases List.eq_nil_or_concat tail with rfl | ⟨inside, c, rfl⟩
  · exact absurd hlast (by decide)
  · rw [List.concat_eq_append] at hlast ⊢
    rw [← List.cons_append, List.getLast?_concat, Option.some.injEq] at hlast
    exact ⟨inside, by rw [hlast]⟩

/-- What is between two characters is known from the text. -/
theorem unwraps_iff {wrapped : List Char → Prop} {text result : List Char}
    (h : trim text = '(' :: (inside ++ [')'])) :
    Unwraps wrapped text result ↔
      wrapped inside ∧ result = trim inside ∨ ¬ wrapped inside ∧ result = trim text := by
  have hexists : (∃ other, trim text = '(' :: (other ++ [')']) ∧ wrapped other) ↔ wrapped inside := by
    refine ⟨fun ⟨other, hother, hwrapped⟩ => ?_, fun hwrapped => ⟨inside, h, hwrapped⟩⟩
    have heq := List.append_cancel_right (List.tail_eq_of_cons_eq (h.symm.trans hother))
    exact heq ▸ hwrapped
  rw [Unwraps, hexists]
  refine or_congr_left ⟨fun ⟨other, hother, hwrapped, hresult⟩ => ?_, fun ⟨hwrapped, hresult⟩ =>
    ⟨inside, h, hwrapped, hresult⟩⟩
  have heq := List.append_cancel_right (List.tail_eq_of_cons_eq (h.symm.trans hother))
  exact ⟨heq ▸ hwrapped, heq ▸ hresult⟩

/-- Any text: its parentheses go if no start of what is between them closes more than it opens. -/
theorem unwraps_stripParens (text : List Char) : Unwraps (Covered 0) text (stripParens text) := by
  by_cases hends : (trim text).head? = some '(' ∧ (trim text).getLast? = some ')'
  · obtain ⟨inside, hinside⟩ := exists_eq_wrapped hends.1 hends.2
    have hscan : closesEarly 0 (trim text) = closesEarly 1 (inside ++ [')']) := by
      rw [hinside]
      rfl
    rw [unwraps_iff hinside, stripParens, if_pos hends, hscan]
    by_cases hcovered : Covered 0 inside
    · refine Or.inl ⟨hcovered, ?_⟩
      rw [closesEarly_eq_false_iff.mpr hcovered, hinside]
      simp
    · refine Or.inr ⟨hcovered, if_pos ?_⟩
      exact eq_true_of_ne_false (closesEarly_eq_false_iff.not.mpr hcovered)
  · refine Or.inr ⟨fun ⟨inside, hinside, _⟩ => hends ?_, ?_⟩
    · rw [hinside]
      exact ⟨rfl, by rw [← List.cons_append, List.getLast?_concat]⟩
    · rw [stripParens, if_neg hends]

/-- In such a text between parentheses, being covered and being balanced are the same. -/
theorem BalancedThroughout.covered_iff (h : BalancedThroughout ('(' :: (inside ++ [')']))) :
    Covered 0 inside ↔ Balanced inside := by
  generalize hall : '(' :: (inside ++ [')']) = all at h
  cases h with
  | nil => exact absurd hall nofun
  | plain _ hparen =>
      obtain ⟨rfl, -⟩ := List.cons_eq_cons.mp hall
      exact absurd rfl (hparen ('(', ')') List.mem_cons_self).1
  | literal hq =>
      obtain ⟨rfl, -⟩ := List.cons_eq_cons.mp hall
      exact absurd hq (by decide)
  | @group _ b first rest hb hfirst hrest =>
      obtain rfl := mem_parentheses.mp hb
      have hpaired := BalancedThroughout.paired hfirst
      have htail := List.tail_eq_of_cons_eq hall
      rcases List.eq_nil_or_concat rest with rfl | ⟨rest, c, rfl⟩
      · -- the first parenthesis is closed by the last character
        obtain rfl := List.append_cancel_right htail
        exact iff_of_true hpaired.covered (hfirst.mono (fun _ _ _ => trivial) fun _ h => h)
      · -- it is closed before, so what is between the two is not covered
        rw [List.concat_eq_append, ← List.cons_append, ← List.append_assoc] at htail
        obtain ⟨rfl, -⟩ := List.append_inj' htail rfl
        have hnot : ¬ Covered 0 (first ++ ')' :: rest) := fun hc => by
          have htake : (first ++ ')' :: rest).take (first.length + 1) = first ++ [')'] := by
            rw [List.take_length_add_append]
            rfl
          have hcount := hc (first.length + 1)
          have hend : [')'].count ')' = 1 ∧ [')'].count '(' = 0 := by decide
          have hpair := hpaired.count_eq
          rw [htake, List.count_append, List.count_append] at hcount
          omega
        refine iff_of_false hnot fun hbalanced => ?_
        have hall := groupFrom_eq_some_iff.mpr ⟨hbalanced, [], rfl⟩
        rw [List.append_assoc] at hall
        have hshort := groupFrom_eq_some_iff.mpr ⟨BalancedThroughout.balanced hfirst, rest ++ [')'], rfl⟩
        exact absurd (Option.some.inj (hshort.symm.trans hall)) (by simp)

/-- What is shown of a text: the text without the parentheses around it if the first one is closed by
the last one, literals not counted, and in any case a balanced text. -/
structure Shows (text shown : List Char) : Prop where
  unwraps : Unwraps Balanced text shown
  balanced : Balanced shown

/-- What is shown of a text with balanced literals, in terms of the pair around it. -/
theorem shows_stripParens {text : List Char} (h : BalancedThroughout text) :
    Shows text (stripParens text) := by
  have hiff : ∀ inside, trim text = '(' :: (inside ++ [')']) →
      (Covered 0 inside ↔ Balanced inside) := fun inside heq =>
    BalancedThroughout.covered_iff (heq ▸ h.trim)
  rcases unwraps_stripParens text with ⟨inside, heq, hcovered, hresult⟩ | ⟨hnone, hresult⟩
  · have hinside := (hiff inside heq).mp hcovered
    rw [hresult]
    exact ⟨Or.inl ⟨inside, heq, hinside, rfl⟩, hinside.trim⟩
  · rw [hresult]
    refine ⟨Or.inr ⟨fun ⟨inside, heq, hinside⟩ => hnone ⟨inside, heq, ?_⟩, rfl⟩, h.trim.balanced⟩
    exact (hiff inside heq).mpr hinside

end Flowchart.Text
