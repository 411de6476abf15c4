import Flowchart.Graph.Builder
import Flowchart.Proofs.Text

/-!
# Labels

What a label is made of, and which labels differ.

* In either mode a label has only quiet characters: collapsing leaves no line end, and escaping
  leaves no double quote and no head of an arrow (`Label.isQuiet_of_mem_within`).
* Four words label edges: `Yes`, `No`, `Exception` and `Repeat`. Whatever the mode and the limit,
  the labels made from them differ: cutting and escaping leave the first letter, and the four
  words start with four letters. A limit of zero or less is no limit, so there is always a first
  letter.
-/

namespace Flowchart

namespace Text

/-- Blanks are cut off the end only, so a text that starts with something else still does. -/
theorem exists_trimEnd_cons {c : Char} (h : isBlank c = false) (cs : List Char) :
    ∃ r, trimEnd (c :: cs) = c :: r := by
  have hprefix : trimEnd (c :: cs) <+: c :: cs := List.rdropWhile_prefix isBlank _
  have hne : trimEnd (c :: cs) ≠ [] := by
    intro hnil
    have hblank := List.rdropWhile_eq_nil_iff.mp hnil c List.mem_cons_self
    rw [h] at hblank
    exact Bool.noConfusion hblank
  obtain ⟨d, r, hr⟩ := List.exists_cons_of_ne_nil hne
  obtain ⟨s, hs⟩ := hprefix
  rw [hr] at hs
  obtain ⟨rfl, -⟩ := List.cons.inj hs
  exact ⟨r, hr⟩

end Text

namespace Label

/-! ### Characters of labels -/

/-- No line end is left after collapsing. -/
theorem isLineEnd_of_mem_collapse {c : Char} {cs : List Char} (h : c ∈ collapse cs) :
    Text.isLineEnd c = false := by
  rcases Text.mem_normalize h with rfl | ⟨-, hblank⟩
  · decide
  · exact Text.isLineEnd_eq_false hblank

/-- Cutting adds the dots and nothing else. -/
theorem mem_truncate {c : Char} {limit : Int} {dots cs : List Char}
    (h : c ∈ truncate limit dots cs) : c ∈ cs ∨ c ∈ dots := by
  rw [truncate] at h
  split_ifs at h with hfits
  · exact Or.inl h
  · refine (List.mem_append.mp h).imp (fun h => ?_) id
    exact List.mem_of_mem_take ((List.rdropWhile_prefix Text.isBlank _).subset h)

/-- Nothing that is put for a character means anything, line ends apart. -/
theorem isQuiet_of_mem_escapeChar {mode : LabelMode} {c d : Char} (hc : Text.isLineEnd c = false)
    (h : d ∈ escapeChar mode c) : Text.isQuiet d = true := by
  cases mode with
  | lenient =>
      have hamp : "&amp;".toList.all Text.isQuiet = true := by decide
      have hlt : "&lt;".toList.all Text.isQuiet = true := by decide
      have hgt : "&gt;".toList.all Text.isQuiet = true := by decide
      have hquote : ['\''].all Text.isQuiet = true := by decide
      have hslash : ['\\', '\\'].all Text.isQuiet = true := by decide
      rw [escapeChar] at h
      split_ifs at h with h₁ h₂ h₃ h₄ h₅
      · exact List.all_eq_true.mp hamp d h
      · exact List.all_eq_true.mp hlt d h
      · exact List.all_eq_true.mp hgt d h
      · exact List.all_eq_true.mp hquote d h
      · exact List.all_eq_true.mp hslash d h
      · rw [List.mem_singleton.mp h]
        simp [Text.isQuiet, hc, h₃, h₄]
  | strict =>
      have hlookalikes : lookalikes.all (fun p => Text.isQuiet p.2) = true := by decide
      rw [escapeChar, List.mem_singleton] at h
      rw [h, lookalike?]
      cases hfind : lookalikes.find? fun p => p.1 == c with
      | some p => exact List.all_eq_true.mp hlookalikes p (List.mem_of_find?_eq_some hfind)
      | none =>
          -- the quote and the arrow have lookalikes
          have hne : ∀ p ∈ lookalikes, p.1 ≠ c := by simpa using hfind
          have hquote : '"' ≠ c := hne ('"', '＂') (by decide)
          have hgt : '>' ≠ c := hne ('>', '＞') (by decide)
          simp [Text.isQuiet, hc, hgt.symm, hquote.symm]

/-- A label has only quiet characters. -/
theorem isQuiet_of_mem_within {mode : LabelMode} {limit : Option Int} {text : String} {c : Char}
    (h : c ∈ (within mode limit text).toList) : Text.isQuiet c = true := by
  cases limit with
  | none => exact absurd h (by simp [within])
  | some n =>
      simp only [within, sanitize, String.toList_ofList, escape, List.mem_flatMap] at h
      obtain ⟨d, hd, hc⟩ := h
      refine isQuiet_of_mem_escapeChar ?_ hc
      rcases mem_truncate hd with hd | hd
      · exact isLineEnd_of_mem_collapse hd
      · have hdots : ellipsis.all (fun c => c == '.') = true := by decide
        rw [beq_iff_eq.mp (List.all_eq_true.mp hdots d hd)]
        decide

/-! ### Labels of edges -/

/-- Cutting leaves the first character. -/
theorem exists_truncate_cons {c : Char} (h : Text.isBlank c = false) (limit : Int)
    (dots cs : List Char) : ∃ r, truncate limit dots (c :: cs) = c :: r := by
  by_cases hfits : limit ≤ 0 ∨ ((c :: cs).length : Int) ≤ limit
  · exact ⟨cs, if_pos hfits⟩
  · obtain ⟨n, hn⟩ : ∃ n, limit.toNat = n + 1 := ⟨limit.toNat - 1, by omega⟩
    obtain ⟨r, hr⟩ := Text.exists_trimEnd_cons h (cs.take n)
    refine ⟨r ++ dots, (if_neg hfits).trans ?_⟩
    rw [hn, List.take_succ_cons, hr, List.cons_append]

/-- The words that label edges. -/
def edgeWords : List String := ["Yes", "No", "Exception", "Repeat"]

/-- A label made from one of the words starts as the word does. -/
theorem sanitize_head? (mode : LabelMode) (limit : Int) {word : String} (h : word ∈ edgeWords) :
    (sanitize mode limit word).toList.head? = word.toList.head? := by
  have hword : ∀ w ∈ edgeWords, collapse w.toList = w.toList ∧
      (w.toList.head?.any fun c => !Text.isBlank c && escapeChar mode c == [c]) = true := by
    cases mode <;> decide
  obtain ⟨hcollapse, hfirst⟩ := hword word h
  obtain ⟨c, hc, hfirst⟩ := (Option.any_eq_true _ _).mp hfirst
  obtain ⟨cs, hcs⟩ := List.head?_eq_some_iff.mp hc
  rw [Bool.and_eq_true, Bool.not_eq_true', beq_iff_eq] at hfirst
  obtain ⟨hblank, hescape⟩ := hfirst
  obtain ⟨r, hr⟩ := exists_truncate_cons hblank limit ellipsis cs
  rw [sanitize, shown, hcollapse, hcs, hr, escape, List.flatMap_cons, hescape]
  simp

/-- The words stay apart. -/
theorem sanitize_injective (mode : LabelMode) (limit : Int) {w w' : String} (hw : w ∈ edgeWords)
    (hw' : w' ∈ edgeWords) (h : sanitize mode limit w = sanitize mode limit w') : w = w' := by
  have hheads : ∀ w ∈ edgeWords, ∀ w' ∈ edgeWords, w.toList.head? = w'.toList.head? → w = w' := by
    decide
  refine hheads w hw w' hw' ?_
  rw [← sanitize_head? mode limit hw, h, sanitize_head? mode limit hw']

end Label

namespace Builder

/-- Under a limit that is a number, the label of a word is made from the word. -/
theorem edgeLabel_word {b : Builder} {limit : Int} (hlimit : b.limit = some limit) {word : String}
    (h : word ∈ Label.edgeWords) :
    b.edgeLabel (some word) = some (Label.sanitize b.mode limit word) := by
  have hne : ∀ w ∈ Label.edgeWords, w.isEmpty = false := by decide
  simp [edgeLabel, hne word h, Builder.label, Label.within, hlimit]

/-- The words stay apart as labels of edges, and apart from no label. -/
theorem edgeLabel_injective {b : Builder} {limit : Int} (hlimit : b.limit = some limit)
    {l l' : Option String} (hl : ∀ w ∈ l, w ∈ Label.edgeWords) (hl' : ∀ w ∈ l', w ∈ Label.edgeWords)
    (h : b.edgeLabel l = b.edgeLabel l') : l = l' := by
  have hnone : b.edgeLabel none = none := rfl
  cases l with
  | none =>
      cases l' with
      | none => rfl
      | some w' =>
          rw [hnone, edgeLabel_word hlimit (hl' w' rfl)] at h
          exact absurd h.symm (Option.some_ne_none _)
  | some w =>
      rw [edgeLabel_word hlimit (hl w rfl)] at h
      cases l' with
      | none => exact absurd h (Option.some_ne_none _)
      | some w' =>
          rw [edgeLabel_word hlimit (hl' w' rfl)] at h
          rw [Label.sanitize_injective b.mode limit (hl w rfl) (hl' w' rfl) (Option.some.inj h)]

end Builder

end Flowchart
