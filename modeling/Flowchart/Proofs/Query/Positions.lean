import Flowchart.Proofs.Text
import Flowchart.Query.Scan
import Mathlib.Data.List.Forall2

/-!
# Places of clauses

Every clause of a scan stands at a character of the query text that is no blank, and has the line of this
character (`stands_scan`). Comments are written as spaces before the scan, which moves no character and
keeps the line feeds (`Blanked`). Statements are pieces of the text (`IsPiece`), and the marks of a
statement stand at the first letters of keywords (`IsLettered`).

## From the inside out

A place is carried through three texts. In a statement it is where a keyword starts, which is a letter
and so no blank. In the text without comments it is that place moved by the offset of the statement, and
the character there is the same. In the query text it is the same place again, since comments are
replaced by as many characters, and a character that is no blank was not replaced.

## Main results

* `blanked_blankComments`: comments become spaces, and nothing else changes.
* `isPiece_of_mem_statements`: a statement stands in the text at its offset.
* `lettered_of_mem_marks`: a mark stands at a letter.
* `stands_scan`: every clause stands where it says, on the line it says.
-/

namespace Flowchart.Query

/-! ### Comments -/

/-- A character as it was, or a space for one that is no line feed. -/
def IsBlanked (written original : Char) : Prop :=
  written = original ∨ written = ' ' ∧ original ≠ '\n'

/-- A text with characters written as spaces. -/
abbrev Blanked : List Char → List Char → Prop := List.Forall₂ IsBlanked

/-- A character that was blanked may be blanked again. -/
theorem IsBlanked.trans {a b c : Char} (hab : IsBlanked a b) (hbc : IsBlanked b c) :
    IsBlanked a c := by
  rcases hab with rfl | ⟨rfl, hb⟩
  · exact hbc
  · rcases hbc with rfl | ⟨rfl, hc⟩
    · exact Or.inr ⟨rfl, hb⟩
    · exact Or.inr ⟨rfl, hc⟩

/-- A character in a comment. -/
theorem isBlanked_kept (c : Char) : IsBlanked (if c = '\n' then '\n' else ' ') c := by
  split_ifs with hc
  · exact Or.inl hc.symm
  · exact Or.inr ⟨rfl, hc⟩

/-- Blanking block comments blanks. -/
theorem blanked_blankBlocksFrom (skip : Nat) (cs : List Char) :
    Blanked (blankBlocksFrom skip cs) cs := by
  fun_induction blankBlocksFrom skip cs with
  | case1 => exact .nil
  | case2 skip c cs ih => exact .cons (isBlanked_kept c) ih
  | case3 c cs n hn ih =>
      refine .cons (Or.inr ⟨rfl, ?_⟩) ih
      rintro rfl
      exact absurd hn nofun
  | case4 c cs hn ih => exact .cons (Or.inl rfl) ih

/-- Blanking line comments blanks. -/
theorem blanked_blankLinesFrom (inComment : Bool) (cs : List Char) :
    Blanked (blankLinesFrom inComment cs) cs := by
  fun_induction blankLinesFrom inComment cs with
  | case1 => exact .nil
  | case2 cs ih => exact .cons (Or.inl rfl) ih
  | case3 c cs hc ih => exact .cons (Or.inr ⟨rfl, hc⟩) ih
  | case4 c cs hc ih =>
      refine .cons (Or.inr ⟨rfl, ?_⟩) ih
      rw [hc.1]
      decide
  | case5 c cs hc ih => exact .cons (Or.inl rfl) ih

/-- A text that was blanked may be blanked again. -/
theorem Blanked.trans {as bs cs : List Char} (hab : Blanked as bs) (hbc : Blanked bs cs) :
    Blanked as cs := by
  induction hab generalizing cs with
  | nil => exact hbc
  | cons hab _ ih =>
      cases hbc with
      | cons hbc hrest => exact .cons (hab.trans hbc) (ih hrest)

/-- Blanking comments blanks. -/
theorem blanked_blankComments (cs : List Char) : Blanked (blankComments cs) cs :=
  (blanked_blankLinesFrom false _).trans (blanked_blankBlocksFrom 0 cs)

/-- What is no blank in the text that was written was there before. -/
theorem Blanked.getElem?_eq {ds cs : List Char} (h : Blanked ds cs) {p : Nat} {a : Char}
    (ha : ds[p]? = some a) (hblank : Text.isBlank a = false) : cs[p]? = some a := by
  induction h generalizing p with
  | nil => simp at ha
  | cons hd _ ih =>
      cases p with
      | succ p => exact ih ha
      | zero =>
          obtain rfl := Option.some.inj ha
          rcases hd with rfl | ⟨rfl, -⟩
          · rfl
          · exact absurd hblank (by decide)

/-- Line feeds stay where they are. -/
theorem Blanked.count_eq {ds cs : List Char} (h : Blanked ds cs) : ds.count '\n' = cs.count '\n' := by
  induction h with
  | nil => rfl
  | cons hd _ ih =>
      rcases hd with rfl | ⟨rfl, hc⟩
      · rw [List.count_cons, List.count_cons, ih]
      · rw [List.count_cons_of_ne (by decide), List.count_cons_of_ne hc, ih]

/-- Every place is on the line it was on. -/
theorem Blanked.lineAt_eq {ds cs : List Char} (h : Blanked ds cs) (p : Nat) :
    lineAt ds p = lineAt cs p := by
  rw [lineAt, lineAt, Blanked.count_eq (List.forall₂_take p h)]

/-! ### Statements -/

/-- The characters of a piece stand in a text from a place on. -/
def IsPiece (cs : List Char) (offset : Nat) (piece : List Char) : Prop :=
  ∀ i a, piece[i]? = some a → cs[offset + i]? = some a

/-- What stands between two texts is a piece of the whole. -/
theorem isPiece_append (before piece after : List Char) :
    IsPiece (before ++ piece ++ after) before.length piece := by
  intro i a ha
  obtain ⟨hi, -⟩ := List.getElem?_eq_some_iff.mp ha
  rw [List.append_assoc, List.getElem?_append_right (Nat.le_add_right _ _), Nat.add_sub_cancel_left,
    List.getElem?_append_left hi, ha]

/-- The start of a piece is a piece at the same place. -/
theorem IsPiece.take {cs piece : List Char} {offset : Nat} (h : IsPiece cs offset piece) (n : Nat) :
    IsPiece cs offset (piece.take n) := by
  intro i a ha
  rw [List.getElem?_take] at ha
  split_ifs at ha
  exact h i a ha

/-- There is one depth for each character. -/
theorem length_depthsFrom (quote : Option Char) (depth : Nat) (cs : List Char) :
    (depthsFrom quote depth cs).length = cs.length := by
  fun_induction depthsFrom quote depth cs <;> simp_all

/-- The pieces that are still to come stand in the text, and so does the one under way. -/
theorem isPiece_of_mem_piecesFrom {rest : List (Char × Option Nat)} {piece before stmt : List Char}
    {offset : Nat} (h : (offset, stmt) ∈ piecesFrom before.length piece rest) :
    IsPiece (before ++ piece.reverse ++ rest.map Prod.fst) offset stmt := by
  induction rest generalizing piece before with
  | nil =>
      obtain ⟨rfl, rfl⟩ := Prod.mk.inj (List.mem_singleton.mp h)
      exact isPiece_append before piece.reverse []
  | cons entry rest ih =>
      obtain ⟨c, depth⟩ := entry
      rw [piecesFrom] at h
      split_ifs at h
      · rcases List.mem_cons.mp h with heq | h
        · obtain ⟨rfl, rfl⟩ := Prod.mk.inj heq
          exact isPiece_append before piece.reverse _
        · have hlength : before.length + piece.length + 1 =
              (before ++ piece.reverse ++ [c]).length := by simp [Nat.add_assoc]
          rw [hlength] at h
          simpa using ih h
      · simpa using ih h

/-- Statements are pieces of the text. -/
theorem isPiece_of_mem_statements {cs stmt : List Char} {offset : Nat}
    (h : (offset, stmt) ∈ statements cs) : IsPiece cs offset stmt := by
  have hfrom : (offset, stmt) ∈ piecesFrom ([] : List Char).length [] (cs.zip (depths cs)) :=
    (List.mem_filter.mp h).1
  have hpiece := isPiece_of_mem_piecesFrom hfrom
  rwa [List.map_fst_zip (by rw [depths, length_depthsFrom])] at hpiece

/-! ### Keywords -/

/-- A blank is matched by no letter. -/
theorem fold_of_isBlank {c : Char} (h : Text.isBlank c = true) : Text.fold c = c := by
  have hother : ∀ d : Char, Text.isBlank d = false → c ≠ d := by
    rintro d hd rfl
    exact absurd (h.symm.trans hd) Bool.noConfusion
  have hlower : c.toLower = c := by
    refine dif_neg ?_
    rintro ⟨hA, hZ⟩
    simp only [Text.isBlank, Bool.or_eq_true, Bool.and_eq_true, decide_eq_true_eq, beq_iff_eq] at h
    simp only [ge_iff_le, UInt32.le_iff_toNat_le] at hA hZ
    have hA : 65 ≤ c.toNat := hA
    have hZ : c.toNat ≤ 90 := hZ
    omega
  rw [Text.fold, hlower, if_neg (not_or.mpr ⟨hother _ (by decide), hother _ (by decide)⟩),
    if_neg (hother _ (by decide)), if_neg (hother _ (by decide)), ite_self]

/-- A letter is no blank. -/
theorem isBlank_of_isLower_fold {c : Char} (h : (Text.fold c).isLower = true) :
    Text.isBlank c = false := by
  rw [Bool.eq_false_iff]
  intro hblank
  rw [fold_of_isBlank hblank] at h
  have hbounds : (decide ('a'.val ≤ c.val) && decide (c.val ≤ 'z'.val)) = true := h
  rw [Bool.and_eq_true, decide_eq_true_eq, decide_eq_true_eq] at hbounds
  have hlow : 97 ≤ c.toNat := UInt32.le_iff_toNat_le.mp hbounds.1
  have hhigh : c.toNat ≤ 122 := UInt32.le_iff_toNat_le.mp hbounds.2
  simp only [Text.isBlank, Bool.or_eq_true, Bool.and_eq_true, decide_eq_true_eq, beq_iff_eq]
    at hblank
  omega

/-- A text that starts with a word starts with a letter. -/
theorem isLower_fold_of_foldedPrefix? {w c : Char} {word cs rest : List Char}
    (hw : w.isLower = true) (h : Text.foldedPrefix? (w :: word) (c :: cs) = some rest) :
    (Text.fold c).isLower = true := by
  rw [Text.foldedPrefix?] at h
  split_ifs at h with hfold
  rw [hfold, hw]

/-- A phrase with a word at its start, and a letter at the start of this word. -/
def startsLettered : List String → Bool
  | [] => false
  | word :: _ => word.toList.head?.any Char.isLower

/-- Every phrase starts with a letter. -/
theorem startsLettered_phrases :
    ∀ entry ∈ phrases, ∀ phrase ∈ entry.2, startsLettered phrase = true := by
  decide +kernel

/-- A text that starts with a phrase starts with a letter. -/
theorem isLower_fold_of_afterPhrase? {phrase : List String} {c : Char} {cs rest : List Char}
    (hphrase : startsLettered phrase = true) (h : afterPhrase? phrase (c :: cs) = some rest) :
    (Text.fold c).isLower = true := by
  obtain ⟨word, words, rfl⟩ : ∃ word words, phrase = word :: words := by
    cases phrase with
    | nil => exact absurd hphrase Bool.noConfusion
    | cons word words => exact ⟨word, words, rfl⟩
  obtain ⟨w, ws, hword, hw⟩ : ∃ w ws, word.toList = w :: ws ∧ w.isLower = true := by
    rw [startsLettered] at hphrase
    cases hword : word.toList with
    | nil => simp [hword] at hphrase
    | cons w ws => exact ⟨w, ws, rfl, by simpa [hword] using hphrase⟩
  have hprefix : ∃ after, Text.foldedPrefix? word.toList (c :: cs) = some after := by
    cases words with
    | nil => exact ⟨rest, h⟩
    | cons next words =>
        simp only [afterPhrase?] at h
        split at h
        · exact absurd h nofun
        next after hafter => exact ⟨after, hafter⟩
  obtain ⟨after, hafter⟩ := hprefix
  rw [hword] at hafter
  exact isLower_fold_of_foldedPrefix? hw hafter

/-- A keyword is a phrase between word boundaries. -/
theorem exists_of_keywordHere? {before : Option Char} {cs : List Char} {kind : ClauseKind}
    {length : Nat} (h : keywordHere? before cs = some (kind, length)) :
    Text.boundary before cs.head? = true ∧ ∃ entry ∈ phrases, entry.1 = kind ∧
      ∃ phrase ∈ entry.2, ∃ rest, afterPhrase? phrase cs = some rest ∧
        cs.length - rest.length = length ∧ Text.boundary cs[length - 1]? rest.head? = true := by
  rw [keywordHere?] at h
  split_ifs at h with hstart
  obtain ⟨entry, hentry, h⟩ := List.exists_of_findSome?_eq_some h
  obtain ⟨phrase, hphrase, h⟩ := List.exists_of_findSome?_eq_some h
  cases hrest : afterPhrase? phrase cs with
  | none =>
      rw [hrest] at h
      cases h
  | some rest =>
      rw [hrest] at h
      dsimp only at h
      split_ifs at h with hend
      obtain ⟨rfl, rfl⟩ := Prod.mk.inj (Option.some.inj h)
      exact ⟨hstart, entry, hentry, rfl, phrase, hphrase, rest, hrest, rfl, hend⟩

/-- A keyword starts with a letter. -/
theorem isLower_fold_of_keywordHere? {before : Option Char} {c : Char} {cs : List Char}
    {found : ClauseKind × Nat} (h : keywordHere? before (c :: cs) = some found) :
    (Text.fold c).isLower = true := by
  obtain ⟨-, entry, hentry, -, phrase, hphrase, rest, hrest, -⟩ := exists_of_keywordHere? h
  exact isLower_fold_of_afterPhrase? (startsLettered_phrases _ hentry phrase hphrase) hrest

/-- A place of a text where there is a letter. -/
def IsLettered (cs : List Char) (p : Nat) : Prop :=
  ∃ a, cs[p]? = some a ∧ (Text.fold a).isLower = true

/-- So do the keywords behind the place that has been read. -/
theorem lettered_of_mem_marksFrom {pos : Nat} {before : Option Char} {skip : Nat} {cs : List Char}
    {ds : List (Option Nat)} {mark : Nat × ClauseKind} (h : mark ∈ marksFrom pos before skip cs ds) :
    ∃ i, mark.1 = pos + i ∧ IsLettered cs i := by
  have hlater : ∀ {pos : Nat} {c : Char} {cs : List Char},
      (∃ i, mark.1 = pos + 1 + i ∧ IsLettered cs i) →
        ∃ i, mark.1 = pos + i ∧ IsLettered (c :: cs) i := by
    rintro pos c cs ⟨i, hi, hlettered⟩
    exact ⟨i + 1, by omega, hlettered⟩
  fun_induction marksFrom pos before skip cs ds with
  | case1 pos before skip c cs d ds ih => exact hlater (ih h)
  | case2 pos before c cs d ds hnone ih => exact hlater (ih h)
  | case3 pos before c cs ds kind length hfound rest ih =>
      rcases List.mem_cons.mp h with rfl | h
      · exact ⟨0, rfl, c, rfl, isLower_fold_of_keywordHere? hfound⟩
      · exact hlater (ih h)
  | case4 pos before c cs d ds kind length hfound rest hd ih => exact hlater (ih h)
  | case5 => exact absurd h List.not_mem_nil

/-- The mark of named subqueries stands at a word after the blanks at the start. -/
theorem eq_of_cteMark? {stmt : List Char} {pos : Nat} (h : cteMark? stmt = some pos) :
    pos = (stmt.takeWhile Text.isBlank).length ∧
      ∃ rest, Text.foldedPrefix? "with".toList (stmt.drop pos) = some rest := by
  rw [cteMark?] at h
  cases hwith : Text.foldedPrefix? "with".toList
      (stmt.drop (stmt.takeWhile Text.isBlank).length) with
  | none =>
      rw [hwith] at h
      exact absurd h nofun
  | some rest =>
      rw [hwith] at h
      dsimp only at h
      split_ifs at h
      obtain rfl := Option.some.inj h
      exact ⟨rfl, rest, hwith⟩

/-- The mark of named subqueries stands at a letter. -/
theorem lettered_of_cteMark? {stmt : List Char} {pos : Nat} (h : cteMark? stmt = some pos) :
    IsLettered stmt pos := by
  obtain ⟨rfl, rest, hrest⟩ := eq_of_cteMark? h
  cases hdrop : stmt.drop (stmt.takeWhile Text.isBlank).length with
  | nil => simp [hdrop, Text.foldedPrefix?] at hrest
  | cons c cs =>
      rw [hdrop] at hrest
      refine ⟨c, ?_, isLower_fold_of_foldedPrefix? (by decide) hrest⟩
      rw [← Nat.add_zero (stmt.takeWhile Text.isBlank).length, ← List.getElem?_drop, hdrop]
      rfl

/-- The marks of a statement stand at letters. -/
theorem lettered_of_mem_marks {stmt : List Char} {mark : Nat × ClauseKind} (h : mark ∈ marks stmt) :
    IsLettered stmt mark.1 := by
  rw [marks, List.mem_append] at h
  rcases h with h | h
  · cases hcte : cteMark? stmt with
    | none => simp [hcte] at h
    | some pos =>
        rw [hcte] at h
        rw [List.mem_singleton.mp h]
        exact lettered_of_cteMark? hcte
  · obtain ⟨i, hi, hlettered⟩ := lettered_of_mem_marksFrom h
    rw [hi, Nat.zero_add]
    exact hlettered

/-- A place of a text where there is no blank. -/
def IsInked (cs : List Char) (p : Nat) : Prop := ∃ a, cs[p]? = some a ∧ Text.isBlank a = false

/-- A letter is no blank. -/
theorem IsLettered.inked {cs : List Char} {p : Nat} (h : IsLettered cs p) : IsInked cs p := by
  obtain ⟨a, ha, hletter⟩ := h
  exact ⟨a, ha, isBlank_of_isLower_fold hletter⟩

/-! ### Clauses -/

/-- A clause stands at a character that is no blank, and has the line of this character. -/
structure Stands (cs : List Char) (c : Clause) : Prop where
  line_eq : c.line = lineAt cs c.pos
  inked : IsInked cs c.pos

/-- What is no blank in a piece is none in the text. -/
theorem IsPiece.inked {cs piece : List Char} {offset p : Nat} (h : IsPiece cs offset piece)
    (hp : IsInked piece p) : IsInked cs (offset + p) := by
  obtain ⟨a, ha, hblank⟩ := hp
  exact ⟨a, h p a ha, hblank⟩

/-- What is no blank after blanking was none before. -/
theorem Blanked.inked {ds cs : List Char} {p : Nat} (h : Blanked ds cs) (hp : IsInked ds p) :
    IsInked cs p := by
  obtain ⟨a, ha, hblank⟩ := hp
  exact ⟨a, h.getElem?_eq ha hblank, hblank⟩

/-- The first character that is no blank stands after the blanks. -/
theorem inked_takeWhile {cs : List Char} (h : ¬Text.allBlank cs = true) :
    IsInked cs (cs.takeWhile Text.isBlank).length := by
  induction cs with
  | nil => exact absurd rfl h
  | cons c cs ih =>
      cases hc : Text.isBlank c with
      | false =>
          rw [List.takeWhile_cons_of_neg (by simp [hc])]
          exact ⟨c, rfl, hc⟩
      | true =>
          rw [Text.allBlank, List.all_cons, hc, Bool.true_and] at h
          rw [List.takeWhile_cons_of_pos hc]
          exact ih h

/-- A clause that is a piece of its own stands at the first character that is no blank. -/
theorem stands_ownClause {cs piece : List Char} {offset : Nat} (hpiece : IsPiece cs offset piece)
    {c : Clause} (hc : c ∈ ownClause cs offset piece) : Stands cs c := by
  rw [ownClause] at hc
  split_ifs at hc with hblank
  · exact absurd hc List.not_mem_nil
  · obtain rfl := List.mem_singleton.mp hc
    exact ⟨rfl, hpiece.inked (inked_takeWhile hblank)⟩

/-- Clauses of a keyword stand where the keyword does. -/
theorem line_pos_of_mem_clausesOf {dialect : Dialect} {kind : ClauseKind} {text : List Char}
    {line : Int} {pos : Nat} {c : Clause} (hc : c ∈ clausesOf dialect kind text line pos) :
    c.line = line ∧ c.pos = pos := by
  simp only [clausesOf] at hc
  split_ifs at hc
  · split at hc
    · rw [List.mem_singleton.mp hc]
      exact ⟨rfl, rfl⟩
    · rcases List.mem_pair.mp hc with rfl | rfl <;> exact ⟨rfl, rfl⟩
  · rw [List.mem_singleton.mp hc]
    exact ⟨rfl, rfl⟩

/-- A statement is cut at its marks. -/
theorem mem_of_mem_cut {stmt piece : List Char} {marks : List (Nat × ClauseKind)} {pos : Nat}
    {kind : ClauseKind} (h : (pos, kind, piece) ∈ cut stmt marks) : (pos, kind) ∈ marks := by
  fun_induction cut stmt marks with
  | case1 => exact absurd h List.not_mem_nil
  | case2 pos' kind' =>
      obtain ⟨rfl, rfl, -⟩ : pos = pos' ∧ kind = kind' ∧ _ := by simpa using h
      exact List.mem_singleton_self _
  | case3 pos' kind' next kind'' marks ih =>
      rcases List.mem_cons.mp h with heq | h
      · obtain ⟨rfl, rfl, -⟩ : pos = pos' ∧ kind = kind' ∧ _ := by simpa using heq
        exact List.mem_cons_self
      · exact List.mem_cons_of_mem _ (ih h)

/-- Every clause of a statement stands where it says. -/
theorem stands_scanStatement {dialect : Dialect} {cs stmt : List Char} {offset : Nat}
    (hstmt : IsPiece cs offset stmt) {c : Clause} (hc : c ∈ scanStatement dialect cs offset stmt) :
    Stands cs c := by
  simp only [scanStatement] at hc
  split_ifs at hc
  · exact stands_ownClause hstmt hc
  · rcases List.mem_append.mp hc with hc | hc
    · split at hc
      · exact absurd hc List.not_mem_nil
      · exact stands_ownClause (hstmt.take _) hc
    · obtain ⟨⟨pos, kind, piece⟩, hcut, hc⟩ := List.mem_flatMap.mp hc
      dsimp only at hc
      split_ifs at hc
      · exact absurd hc List.not_mem_nil
      · obtain ⟨hline, hpos⟩ := line_pos_of_mem_clausesOf hc
        have hletter := lettered_of_mem_marks (mem_of_mem_cut hcut)
        exact ⟨by rw [hline, hpos], hpos ▸ hstmt.inked hletter.inked⟩

/-- Every clause of a scan stands at a character of the text that is no blank, and has its line. -/
theorem stands_scan (dialect : Dialect) (text : List Char) :
    ∀ clauses ∈ scan dialect text, ∀ c ∈ clauses, Stands text c := by
  intro clauses hclauses c hc
  have hblanked := blanked_blankComments text
  obtain ⟨⟨offset, stmt⟩, hstmt, rfl⟩ := List.mem_map.mp hclauses
  obtain ⟨hline, hinked⟩ := stands_scanStatement (isPiece_of_mem_statements hstmt) hc
  exact ⟨hline.trans (hblanked.lineAt_eq c.pos), hblanked.inked hinked⟩

end Flowchart.Query
