import Flowchart.Text.Blank
import Flowchart.Text.Search
import Mathlib.Data.List.Basic
import Mathlib.Tactic.SplitIfs

/-!
# Words that stand in a text

The words of a text stand between its blanks: the first one goes up to the first blank
(`words_append_of_not_isBlank`, `exists_of_words_eq_cons`).

A text is cut at the places where a word stands between boundaries. For a word of word characters
only (`IsPlainWord`), standing means that no word character comes right before it or right after it
(`wordHere?_eq_some`). So a text falls into two parts that are cut one after the other wherever word
characters do not go on from the first part into the second one (`Apart`), with a piece that may
reach over the cut (`exists_splitOnWordFrom_append`).

Nothing gets lost: the pieces with the word between them are the text (`intercalate_splitOnWord`).

## Boundaries

Whether a word stands at some place depends on one character before it and one behind it. So the readers
carry the last character that was read, and a lemma about a part of a text speaks about `before`, the
character in front of it. For most uses the character matters only in so far as it is one of a word.
Blanks are not (`isWord_eq_false_of_isBlank`), which has to be looked up for those far from the first
ones in the table of characters (`farBlanks`).

## Main results

* `wordHere?_eq_some`: what it means that a word of word characters stands at a place.
* `exists_splitOnWordFrom_append`: how the pieces of two texts in a row come from those of each.
* `intercalate_splitOnWord`: the pieces with the word between them are the text.
* `exists_of_words_eq_cons`: where the first word of a text stands.
-/

namespace Flowchart.Text

/-- A word of word characters only. -/
structure IsPlainWord (word : List Char) : Prop where
  ne_nil : word ≠ []
  isWord : ∀ c ∈ word, isWord c = true

/-- Word characters do not go on from the end of one text into the start of another. -/
def Apart (xs ys : List Char) : Prop := wordAt xs.getLast? = false ∨ wordAt ys.head? = false

/-- The blanks that are not ASCII. -/
def farBlanks : List Nat :=
  [0x85, 0xA0, 0x1680, 0x2028, 0x2029, 0x202F, 0x205F, 0x3000] ++ (List.range 11).map (0x2000 + ·)

/-- No blank beyond ASCII is a word character. -/
theorem inRanges_farBlanks : ∀ n ∈ farBlanks, Property.inRanges Property.wordRanges n = false := by
  decide +kernel

/-- A blank is no word character. -/
theorem isWord_eq_false_of_isBlank {c : Char} (h : isBlank c = true) : isWord c = false := by
  simp only [isBlank, Bool.or_eq_true, Bool.and_eq_true, decide_eq_true_eq, beq_iff_eq] at h
  rw [isWord]
  split_ifs with hascii
  · have hlow : ∀ n < 0x21, (Char.ofNat n).isAlphanum = false ∧ Char.ofNat n ≠ '_' := by decide
    obtain ⟨halnum, hne⟩ := hlow c.toNat (by omega)
    rw [Char.ofNat_toNat] at halnum hne
    rw [halnum, beq_eq_false_iff_ne.mpr hne]
    rfl
  · refine inRanges_farBlanks _ ?_
    simp only [farBlanks, List.mem_append, List.mem_map, List.mem_range, List.mem_cons]
    by_cases hspace : 0x2000 ≤ c.toNat ∧ c.toNat ≤ 0x200A
    · exact Or.inr ⟨c.toNat - 0x2000, by omega, by omega⟩
    · left
      omega

variable {word : List Char} {before : Option Char} {piece cs xs ys rest : List Char}

namespace IsPlainWord

/-- A plain word starts with a word character. -/
theorem wordAt_head? (hw : IsPlainWord word) (rest : List Char) :
    wordAt (word ++ rest).head? = true := by
  obtain ⟨c, tail, rfl⟩ := List.exists_cons_of_ne_nil hw.ne_nil
  exact hw.isWord c List.mem_cons_self

/-- A plain word ends with a word character, whatever stands before it. -/
theorem wordAt_getLast? (hw : IsPlainWord word) : wordAt (word.getLast?.or before) = true := by
  rw [List.getLast?_eq_some_getLast hw.ne_nil]
  exact hw.isWord _ (List.getLast_mem hw.ne_nil)

end IsPlainWord

/-- After blanks there is no word character. -/
theorem wordAt_getLast?_or (h : allBlank xs = true) (hbefore : xs ≠ [] ∨ wordAt before = false) :
    wordAt (xs.getLast?.or before) = false := by
  cases hlast : xs.getLast? with
  | none => exact hbefore.resolve_left fun hne => hne (List.getLast?_eq_none_iff.mp hlast)
  | some c =>
      exact isWord_eq_false_of_isBlank (List.all_eq_true.mp h c (List.mem_of_getLast? hlast))

/-- Before blanks there is no word character. -/
theorem wordAt_head?_append (h : allBlank xs = true) (hrest : xs ≠ [] ∨ wordAt rest.head? = false) :
    wordAt (xs ++ rest).head? = false := by
  cases xs with
  | nil => exact hrest.resolve_left fun hne => hne rfl
  | cons c xs => exact isWord_eq_false_of_isBlank (List.all_eq_true.mp h c List.mem_cons_self)

/-- The word stands where it comes next, without a word character on either side. -/
theorem wordHere?_eq_some (hw : IsPlainWord word) : wordHere? word before cs = some rest ↔
    cs = word ++ rest ∧ wordAt before = false ∧ wordAt rest.head? = false := by
  rw [wordHere?]
  cases hprefix : word.isPrefixOf? cs with
  | none =>
      refine iff_of_false nofun ?_
      rintro ⟨rfl, -⟩
      rw [List.isPrefixOf?_eq_some_iff_append_eq.mpr rfl] at hprefix
      exact absurd hprefix nofun
  | some rest' =>
      obtain rfl : word ++ rest' = cs := List.isPrefixOf?_eq_some_iff_append_eq.mp hprefix
      dsimp only
      rw [boundary, boundary, hw.wordAt_head?, hw.wordAt_getLast?]
      cases hbefore : wordAt before with
      | true => simp
      | false =>
          cases hafter : wordAt rest'.head? with
          | true =>
              refine iff_of_false (by simp) ?_
              rintro ⟨heq, -, hrest⟩
              rw [List.append_cancel_left heq, hrest] at hafter
              exact Bool.noConfusion hafter
          | false =>
              refine ⟨fun h => ?_, fun h => ?_⟩
              · obtain rfl : rest' = rest := Option.some.inj h
                exact ⟨rfl, rfl, hafter⟩
              · rw [List.append_cancel_left h.1]
                rfl

/-- What comes after a text does not matter for a word that starts in it, if they are apart. -/
theorem wordHere?_append (hw : IsPlainWord word) (hne : cs ≠ []) (h : Apart cs ys) :
    wordHere? word before (cs ++ ys) = (wordHere? word before cs).map (· ++ ys) := by
  cases hhere : wordHere? word before cs with
  | some rest =>
      obtain ⟨rfl, hbefore, hrest⟩ := (wordHere?_eq_some hw).mp hhere
      refine (wordHere?_eq_some hw).mpr ⟨List.append_assoc .., hbefore, ?_⟩
      cases rest with
      | cons r rest => exact hrest
      | nil =>
          rw [List.append_nil, Apart, ← Option.or_none (o := word.getLast?),
            hw.wordAt_getLast?] at h
          exact h.resolve_left Bool.noConfusion
  | none =>
      rw [Option.map_none, Option.eq_none_iff_forall_ne_some]
      intro rest hsome
      obtain ⟨heq, hbefore, hrest⟩ := (wordHere?_eq_some hw).mp hsome
      rcases List.append_eq_append_iff.mp heq with ⟨as, rfl, rfl⟩ | ⟨bs, rfl, rfl⟩
      · -- the word would go on into the second text
        rcases h with h | h
        · rw [List.getLast?_eq_some_getLast hne, wordAt, Option.any_some,
            hw.isWord _ (List.mem_append_left as (List.getLast_mem hne))] at h
          exact Bool.noConfusion h
        · cases as with
          | nil =>
              have hsome : wordHere? (cs ++ []) before cs = some [] :=
                (wordHere?_eq_some hw).mpr ⟨by simp, hbefore, rfl⟩
              rw [hsome] at hhere
              exact absurd hhere nofun
          | cons a as =>
              have ha := hw.isWord a (List.mem_append_right cs List.mem_cons_self)
              rw [List.cons_append, List.head?_cons, wordAt, Option.any_some, ha] at h
              exact Bool.noConfusion h
      · have hsome : wordHere? word before (word ++ bs) = some bs := by
          refine (wordHere?_eq_some hw).mpr ⟨rfl, hbefore, ?_⟩
          cases bs with
          | nil => rfl
          | cons b bs => exact hrest
        rw [hsome] at hhere
        exact absurd hhere nofun

/-- Two texts stay apart if the first one loses its first character. -/
theorem Apart.tail {c : Char} (h : Apart (c :: cs) ys) : Apart cs ys := by
  cases cs with
  | nil => exact Or.inl rfl
  | cons d cs => exact h

/-! ### Pieces -/

/-- The last character before a place, one character on. -/
theorem getLast?_cons_or (before : Option Char) (c : Char) (cs : List Char) :
    (c :: cs).getLast?.or before = cs.getLast?.or (some c) := by
  cases cs with
  | nil => rfl
  | cons d cs => rw [List.getLast?_cons_cons, List.getLast?_eq_some_getLast (by simp)]; rfl

/-- The rest of a word is stepped over. -/
theorem splitOnWordFrom_skip (xs : List Char) : splitOnWordFrom word before xs.length piece
    (xs ++ rest) = splitOnWordFrom word (xs.getLast?.or before) 0 piece rest := by
  induction xs generalizing before with
  | nil => rfl
  | cons c xs ih => rw [getLast?_cons_or, List.length_cons, List.cons_append, splitOnWordFrom, ih]

/-- A text is cut where the word stands. -/
theorem splitOnWordFrom_word (hw : IsPlainWord word) (hbefore : wordAt before = false)
    (hrest : wordAt rest.head? = false) : splitOnWordFrom word before 0 piece (word ++ rest) =
      piece.reverse :: splitOnWordFrom word word.getLast? 0 [] rest := by
  have hhere : wordHere? word before (word ++ rest) = some rest :=
    (wordHere?_eq_some hw).mpr ⟨rfl, hbefore, hrest⟩
  obtain ⟨c, tail, rfl⟩ := List.exists_cons_of_ne_nil hw.ne_nil
  rw [List.cons_append, splitOnWordFrom, ← List.cons_append, hhere]
  dsimp only
  rw [List.length_cons, Nat.add_sub_cancel, splitOnWordFrom_skip,
    ← getLast?_cons_or none, Option.or_none]

/-- The piece under way comes before the first piece. -/
theorem splitOnWordFrom_piece (skip : Nat) (piece cs : List Char) :
    splitOnWordFrom word before skip piece cs =
      (splitOnWordFrom word before skip [] cs).modifyHead (piece.reverse ++ ·) := by
  induction cs generalizing before skip piece with
  | nil => simp [splitOnWordFrom]
  | cons c cs ih =>
      cases skip with
      | succ skip => exact ih skip piece
      | zero =>
          rw [splitOnWordFrom, splitOnWordFrom]
          cases wordHere? word before (c :: cs) with
          | some rest => simp
          | none =>
              dsimp only
              rw [ih 0 (c :: piece), ih 0 [c], List.modifyHead_modifyHead]
              congr 1
              funext p
              simp

/-- Only a word character before a word character keeps the word from standing. -/
theorem splitOnWordFrom_before (hw : IsPlainWord word)
    (h : wordAt before = false ∨ wordAt cs.head? = false) :
    splitOnWordFrom word before 0 piece cs = splitOnWordFrom word none 0 piece cs := by
  cases cs with
  | nil => rfl
  | cons c cs =>
      have hhere : wordHere? word before (c :: cs) = wordHere? word none (c :: cs) := by
        refine Option.ext fun rest => ?_
        rw [wordHere?_eq_some hw, wordHere?_eq_some hw]
        refine and_congr_right fun heq => and_congr_left fun _ => ?_
        rw [heq, hw.wordAt_head?] at h
        exact iff_of_true (h.resolve_right Bool.noConfusion) rfl
      rw [splitOnWordFrom, splitOnWordFrom, hhere]

/-- Two texts that are apart are cut one after the other; the last piece of the first one goes on in
the second one. -/
theorem exists_splitOnWordFrom_append (hw : IsPlainWord word) (h : Apart xs ys)
    (before : Option Char) (piece : List Char) {skip : Nat} (hskip : skip ≤ xs.length) :
    ∃ init last,
      splitOnWordFrom word before skip piece xs = init ++ [last] ∧
        splitOnWordFrom word before skip piece (xs ++ ys) =
          init ++ splitOnWordFrom word (xs.getLast?.or before) 0 last.reverse ys := by
  induction xs generalizing before skip piece with
  | nil =>
      obtain rfl : skip = 0 := Nat.le_zero.mp hskip
      exact ⟨[], piece.reverse, rfl, by rw [List.reverse_reverse]; rfl⟩
  | cons c xs ih =>
      rw [getLast?_cons_or]
      cases skip with
      | succ skip => exact ih h.tail (some c) piece (Nat.le_of_succ_le_succ hskip)
      | zero =>
          rw [List.cons_append, splitOnWordFrom, splitOnWordFrom, ← List.cons_append,
            wordHere?_append hw (List.cons_ne_nil c xs) h]
          cases hhere : wordHere? word before (c :: xs) with
          | none => exact ih h.tail (some c) (c :: piece) (Nat.zero_le _)
          | some rest =>
              have hlength : word.length - 1 ≤ xs.length := by
                have heq := congrArg List.length ((wordHere?_eq_some hw).mp hhere).1
                rw [List.length_cons, List.length_append] at heq
                omega
              obtain ⟨init, last, hxs, happend⟩ := ih h.tail (some c) [] hlength
              exact ⟨piece.reverse :: init, last, congrArg _ hxs, congrArg _ happend⟩

/-- A text in which the word does not stand is one piece. -/
theorem splitOnWordFrom_of_not_hasWordFrom (h : hasWordFrom word before cs = false) :
    splitOnWordFrom word before 0 piece cs = [piece.reverse ++ cs] := by
  induction cs generalizing before piece with
  | nil => simp [splitOnWordFrom]
  | cons c cs ih =>
      rw [hasWordFrom, Bool.or_eq_false_iff] at h
      have hhere : wordHere? word before (c :: cs) = none :=
        Option.not_isSome_iff_eq_none.mp (Bool.eq_false_iff.mp h.1)
      rw [splitOnWordFrom, hhere]
      dsimp only
      rw [ih h.2]
      simp

/-- A text in which the word does not stand goes into the piece under way. -/
theorem splitOnWordFrom_append_of_not_hasWordFrom (hw : IsPlainWord word) (happart : Apart xs ys)
    (h : hasWordFrom word before xs = false) (piece : List Char) :
    splitOnWordFrom word before 0 piece (xs ++ ys) =
      splitOnWordFrom word (xs.getLast?.or before) 0 (xs.reverse ++ piece) ys := by
  obtain ⟨init, last, hxs, happend⟩ :=
    exists_splitOnWordFrom_append hw happart before piece (Nat.zero_le xs.length)
  rw [splitOnWordFrom_of_not_hasWordFrom h] at hxs
  obtain ⟨rfl, rfl⟩ : init = [] ∧ last = piece.reverse ++ xs := by
    cases init with
    | nil => exact ⟨rfl, (List.cons.inj hxs).1.symm⟩
    | cons p init => exact absurd (congrArg List.length hxs) (by simp)
  rw [happend]
  simp

/-- No word stands in blanks. -/
theorem hasWordFrom_of_allBlank (hw : IsPlainWord word) (h : allBlank cs = true) :
    hasWordFrom word before cs = false := by
  induction cs generalizing before with
  | nil => rfl
  | cons c cs ih =>
      rw [allBlank, List.all_cons, Bool.and_eq_true] at h
      rw [hasWordFrom, ih h.2, Bool.or_false, Option.isSome_eq_false_iff, Option.isNone_iff_eq_none,
        Option.eq_none_iff_forall_ne_some]
      intro rest hrest
      have heq := ((wordHere?_eq_some hw).mp hrest).1
      have hc := hw.wordAt_head? rest
      rw [← heq, List.head?_cons, wordAt, Option.any_some, isWord_eq_false_of_isBlank h.1] at hc
      exact Bool.noConfusion hc

/-- Blanks go into the piece under way. -/
theorem splitOnWordFrom_blanks (hw : IsPlainWord word) (h : allBlank xs = true) (ys : List Char) :
    splitOnWordFrom word before 0 piece (xs ++ ys) =
      splitOnWordFrom word (xs.getLast?.or before) 0 (xs.reverse ++ piece) ys := by
  have hlast : wordAt (xs.getLast?.or none) = false := wordAt_getLast?_or h (Or.inr rfl)
  rw [Option.or_none] at hlast
  exact splitOnWordFrom_append_of_not_hasWordFrom hw (Or.inl hlast) (hasWordFrom_of_allBlank hw h)
    piece

/-- There is always a piece. -/
theorem splitOnWordFrom_ne_nil (skip : Nat) : splitOnWordFrom word before skip piece cs ≠ [] := by
  induction cs generalizing before skip piece with
  | nil => simp [splitOnWordFrom]
  | cons c cs ih =>
      cases skip with
      | succ skip => exact ih skip
      | zero =>
          rw [splitOnWordFrom]
          cases wordHere? word before (c :: cs) with
          | some rest => exact List.cons_ne_nil _ _
          | none => exact ih 0

/-- A text in which the word stands has two pieces or more. -/
theorem one_lt_length_splitOnWordFrom (h : hasWordFrom word before cs = true) :
    1 < (splitOnWordFrom word before 0 piece cs).length := by
  induction cs generalizing before piece with
  | nil => exact absurd h Bool.noConfusion
  | cons c cs ih =>
      rw [hasWordFrom] at h
      rw [splitOnWordFrom]
      cases hhere : wordHere? word before (c :: cs) with
      | some rest =>
          exact Nat.succ_lt_succ (List.length_pos_iff.mpr (splitOnWordFrom_ne_nil _))
      | none =>
          rw [hhere] at h
          exact ih h

/-- The pieces with the word between them are the text, from the piece under way on. -/
theorem intercalate_splitOnWordFrom (hw : IsPlainWord word) (skip : Nat) :
    word.intercalate (splitOnWordFrom word before skip piece cs) =
      piece.reverse ++ cs.drop skip := by
  induction cs generalizing before skip piece with
  | nil => cases skip <;> simp [splitOnWordFrom]
  | cons c cs ih =>
      cases skip with
      | succ skip => exact ih skip
      | zero =>
          rw [splitOnWordFrom]
          cases hhere : wordHere? word before (c :: cs) with
          | none =>
              refine (ih 0).trans ?_
              simp
          | some rest =>
              have heq := ((wordHere?_eq_some hw).mp hhere).1
              have hrest : word ++ cs.drop (word.length - 1) = c :: cs := by
                obtain ⟨w, tail, rfl⟩ := List.exists_cons_of_ne_nil hw.ne_nil
                obtain ⟨rfl, rfl⟩ := List.cons.inj heq
                simp
              dsimp only
              rw [List.intercalate_cons_of_ne_nil (splitOnWordFrom_ne_nil _), ih]
              simp [hrest]

/-- The pieces with the word between them are the text. -/
theorem intercalate_splitOnWord (hw : IsPlainWord word) (cs : List Char) :
    word.intercalate (splitOnWord word cs) = cs :=
  intercalate_splitOnWordFrom hw 0

/-- What comes last is at the end. -/
theorem suffix_intercalate (sep : List Char) (init : List (List Char)) (last : List Char) :
    last <:+ sep.intercalate (init ++ [last]) := by
  induction init with
  | nil => exact ⟨[], by rw [List.nil_append, List.nil_append, List.intercalate_singleton]⟩
  | cons p init ih =>
      rw [List.cons_append, List.intercalate_cons_of_ne_nil (by simp)]
      exact ih.trans (List.suffix_append _ _)

/-! ### The words of a text -/

/-- The characters of a text up to the first blank. -/
def upToBlank (cs : List Char) : List Char := cs.takeWhile fun c => !isBlank c

/-- The characters of a text from the first blank on. -/
def fromBlank (cs : List Char) : List Char := cs.dropWhile fun c => !isBlank c

section Words

variable {c : Char} {here word : List Char}

/-- Before a blank there is no word. -/
theorem upToBlank_cons_of_isBlank (h : isBlank c = true) (cs : List Char) :
    upToBlank (c :: cs) = [] :=
  List.takeWhile_cons_of_neg (by simp [h])

/-- The first word goes on with every character that is no blank. -/
theorem upToBlank_cons (h : isBlank c = false) (cs : List Char) :
    upToBlank (c :: cs) = c :: upToBlank cs :=
  List.takeWhile_cons_of_pos (by simp [h])

/-- What comes after the first word starts with a blank. -/
theorem fromBlank_cons_of_isBlank (h : isBlank c = true) (cs : List Char) :
    fromBlank (c :: cs) = c :: cs :=
  List.dropWhile_cons_of_neg (by simp [h])

/-- A character that is no blank belongs to the first word. -/
theorem fromBlank_cons (h : isBlank c = false) (cs : List Char) :
    fromBlank (c :: cs) = fromBlank cs :=
  List.dropWhile_cons_of_pos (by simp [h])

/-- A blank ends the word under way, if there is one, and other characters go on with it. -/
theorem wordsFrom_cons (word : List Char) (c : Char) (cs : List Char) :
    wordsFrom word (c :: cs) =
      if isBlank c then if word.isEmpty then wordsFrom [] cs else word.reverse :: wordsFrom [] cs
      else wordsFrom (c :: word) cs := by
  cases word <;> rfl

/-- Characters that are no blanks go on with the word under way. -/
theorem wordsFrom_append (hhere : ∀ c ∈ here, isBlank c = false) (word rest : List Char) :
    wordsFrom word (here ++ rest) = wordsFrom (here.reverse ++ word) rest := by
  induction here generalizing word with
  | nil => rfl
  | cons c here ih =>
      obtain ⟨hc, hhere⟩ := List.forall_mem_cons.mp hhere
      rw [List.cons_append, wordsFrom_cons, if_neg (by simp [hc]), ih hhere]
      simp

/-- A word goes on up to the next blank. -/
theorem wordsFrom_of_ne_nil (hne : word ≠ []) (cs : List Char) :
    wordsFrom word cs = (word.reverse ++ upToBlank cs) :: words (fromBlank cs) := by
  induction cs generalizing word with
  | nil =>
      obtain ⟨w, ws, rfl⟩ := List.exists_cons_of_ne_nil hne
      exact congrArg ([·]) (List.append_nil (w :: ws).reverse).symm
  | cons c cs ih =>
      rw [wordsFrom_cons]
      cases hc : isBlank c with
      | true =>
          rw [upToBlank_cons_of_isBlank hc, fromBlank_cons_of_isBlank hc, words, wordsFrom_cons, hc]
          simp [hne]
      | false =>
          rw [upToBlank_cons hc, fromBlank_cons hc, if_neg Bool.false_ne_true,
            ih (List.cons_ne_nil c word)]
          simp

/-- The first word of a text goes up to the first blank. -/
theorem words_append_of_not_isBlank (hne : here ≠ []) (hhere : ∀ c ∈ here, isBlank c = false)
    (rest : List Char) : words (here ++ rest) = (here ++ upToBlank rest) :: words (fromBlank rest) := by
  rw [words, wordsFrom_append hhere, List.append_nil,
    wordsFrom_of_ne_nil (List.reverse_ne_nil_iff.mpr hne), List.reverse_reverse]

/-- The words of a text are the first one and those after it. -/
theorem words_cons (h : isBlank c = false) (cs : List Char) :
    words (c :: cs) = (c :: upToBlank cs) :: words (fromBlank cs) :=
  words_append_of_not_isBlank (List.cons_ne_nil c []) (List.forall_mem_singleton.mpr h) cs

/-- Blanks before the first word do not count. -/
theorem words_cons_of_isBlank (h : isBlank c = true) (cs : List Char) :
    words (c :: cs) = words cs := by
  rw [words, wordsFrom_cons, if_pos h]
  rfl

/-- Blanks before a text are not part of its words. -/
theorem words_append_of_allBlank (h : allBlank xs = true) (cs : List Char) :
    words (xs ++ cs) = words cs := by
  induction xs with
  | nil => rfl
  | cons x xs ih =>
      obtain ⟨hx, hxs⟩ := List.forall_mem_cons.mp (List.all_eq_true.mp h)
      rw [List.cons_append, words_cons_of_isBlank hx, ih (List.all_eq_true.mpr hxs)]

/-- Blanks do not count where no word is under way. -/
theorem wordsFrom_dropWhile (cs : List Char) :
    wordsFrom [] (cs.dropWhile isBlank) = wordsFrom [] cs := by
  induction cs with
  | nil => rfl
  | cons c cs ih =>
      cases hc : isBlank c with
      | true => simpa [wordsFrom_cons, hc] using ih
      | false => rw [List.dropWhile_cons_of_neg (by simp [hc])]

/-- A blank ends the words before it. -/
theorem wordsFrom_append_cons (hc : isBlank c = true) (word xs cs : List Char) :
    wordsFrom word (xs ++ c :: cs) = wordsFrom word xs ++ words cs := by
  induction xs generalizing word with
  | nil =>
      rw [List.nil_append, wordsFrom_cons, if_pos hc]
      cases word <;> rfl
  | cons x xs ih =>
      rw [List.cons_append, wordsFrom_cons, wordsFrom_cons]
      split_ifs
      · exact ih []
      · rw [ih [], List.cons_append]
      · exact ih (x :: word)

/-- A word that comes first in a text, and what comes after it: nothing, or a blank. -/
theorem exists_of_words_eq_cons {cs w : List Char} {ws : List (List Char)} (h : words cs = w :: ws) :
    ∃ lead rest, cs = lead ++ (w ++ rest) ∧ allBlank lead = true ∧ words rest = ws ∧
      (∀ c ∈ w, isBlank c = false) ∧ ∀ c ∈ rest.head?, isBlank c = true := by
  have hcs : cs = cs.takeWhile isBlank ++ cs.dropWhile isBlank := List.takeWhile_append_dropWhile.symm
  have hlead : allBlank (cs.takeWhile isBlank) = true := List.all_takeWhile
  rw [hcs, words_append_of_allBlank hlead] at h
  cases hrest : cs.dropWhile isBlank with
  | nil =>
      rw [hrest] at h
      exact absurd h.symm (List.cons_ne_nil _ _)
  | cons c tail =>
      have hc : isBlank c = false := by
        have hhead := List.head?_dropWhile_not isBlank cs
        rw [hrest] at hhead
        simpa using hhead
      rw [hrest, words_cons hc] at h
      obtain ⟨rfl, rfl⟩ := List.cons.inj h
      refine ⟨cs.takeWhile isBlank, fromBlank tail, ?_, hlead, rfl, ?_, ?_⟩
      · rw [List.cons_append, upToBlank, fromBlank, List.takeWhile_append_dropWhile, ← hrest,
          List.takeWhile_append_dropWhile]
      · refine List.forall_mem_cons.mpr ⟨hc, fun x hx => ?_⟩
        simpa using List.all_eq_true.mp List.all_takeWhile x hx
      · intro x hx
        have hhead := List.head?_dropWhile_not (fun c => !isBlank c) tail
        rw [← fromBlank, Option.mem_def.mp hx] at hhead
        simpa using hhead

end Words

end Flowchart.Text
