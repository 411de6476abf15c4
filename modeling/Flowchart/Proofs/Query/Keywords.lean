import Flowchart.Proofs.Query.Ink
import Flowchart.Proofs.Text.Words

/-!
# Words that marks stand at

A mark of a statement stands at the start of a word that no word character goes before
(`WordStarts`). The word is a run of letters: the first word of some phrase (`leads`), or the word that
starts named subqueries, in any letter case (`wordStarts_of_mem_marks`). So marks follow one another
strictly (`strict_marks`), and the next mark comes after the end of this word
(`WordStarts.length_lt`).

## First words

A keyword may be a phrase of several words, but only the first of them matters here. It is a run of
letters out of a short list (`leads`), and no word character goes on from it. So it is also the first
word of the text from the mark on, and what is done to that text later leaves it alone: cutting the text
behind it, squeezing blanks and trimming (`firstWord_clauseText`).

## Main results

* `wordStarts_of_mem_marks`: a mark stands at the start of a word.
* `WordStarts.unique`, `WordStarts.length_lt`: which word that is, and where it ends.
* `strict_marks`: marks follow one another strictly.
-/

namespace Flowchart.Text

/-- A letter is a word character. -/
theorem isWord_of_isLower_fold {c : Char} (h : (fold c).isLower = true) : isWord c = true := by
  by_cases hascii : c.toNat < 0x80
  · have hlow : ∀ n < 0x80, (Char.ofNat n).toLower.isLower = true →
        (Char.ofNat n).isAlphanum = true := by decide
    have halnum := hlow c.toNat hascii
    rw [Char.ofNat_toNat] at halnum
    rw [fold, if_pos hascii] at h
    rw [isWord, if_pos hascii, halnum h, Bool.true_or]
  · rw [fold, if_neg hascii] at h
    split_ifs at h with hi hs hk
    · rcases hi with rfl | rfl <;> decide +kernel
    · subst hs
      decide +kernel
    · subst hk
      decide +kernel
    · have hbounds : (decide ('a'.val ≤ c.val) && decide (c.val ≤ 'z'.val)) = true := h
      rw [Bool.and_eq_true, decide_eq_true_eq, decide_eq_true_eq] at hbounds
      have hhigh : c.toNat ≤ 122 := UInt32.le_iff_toNat_le.mp hbounds.2
      omega

/-! ### First words -/

/-- The word characters at the start of a text. -/
def firstWord (cs : List Char) : List Char := cs.takeWhile isWord

section FirstWord

variable {cs rest word : List Char}

/-- The first word of a text has word characters only. -/
theorem isWord_of_mem_firstWord {c : Char} (h : c ∈ firstWord cs) : isWord c = true :=
  List.mem_takeWhile_imp h

/-- A word that ends is the first one. -/
theorem firstWord_append (hword : ∀ c ∈ word, isWord c = true) (hrest : wordAt rest.head? = false) :
    firstWord (word ++ rest) = word := by
  have hnone : rest.takeWhile isWord = [] := by
    cases rest with
    | nil => rfl
    | cons c rest =>
        have hc : isWord c = false := hrest
        exact List.takeWhile_cons_of_neg (by simp [hc])
  rw [firstWord, List.takeWhile_append_of_pos hword, hnone, List.append_nil]

/-- The first word ends before the rest of the text. -/
theorem exists_eq_firstWord_append (cs : List Char) :
    ∃ rest, cs = firstWord cs ++ rest ∧ wordAt rest.head? = false := by
  refine ⟨cs.dropWhile isWord, List.takeWhile_append_dropWhile.symm, ?_⟩
  cases hrest : cs.dropWhile isWord with
  | nil => rfl
  | cons c rest =>
      have hc := List.head?_dropWhile_not isWord cs
      rw [hrest] at hc
      exact hc

/-- The first word stays where the text is cut behind it. -/
theorem firstWord_take {n : Nat} (h : (firstWord cs).length ≤ n) :
    firstWord (cs.take n) = firstWord cs := by
  obtain ⟨rest, hcs, hrest⟩ := exists_eq_firstWord_append cs
  have htake : cs.take n = firstWord cs ++ rest.take (n - (firstWord cs).length) := by
    conv_lhs => rw [hcs, List.take_append, List.take_of_length_le h]
  rw [htake]
  refine firstWord_append (fun _ => isWord_of_mem_firstWord) ?_
  rw [List.head?_take]
  split_ifs
  · rfl
  · exact hrest

/-- The first word stays where the text goes on differently after the end of it. -/
theorem firstWord_take_append {n : Nat} (h : (firstWord cs).length < n) (hn : n ≤ cs.length)
    (ys : List Char) : firstWord (cs.take n ++ ys) = firstWord cs := by
  obtain ⟨rest, hcs, hrest⟩ := exists_eq_firstWord_append cs
  have htake : cs.take n = firstWord cs ++ rest.take (n - (firstWord cs).length) := by
    conv_lhs => rw [hcs, List.take_append, List.take_of_length_le h.le]
  rw [htake, List.append_assoc]
  refine firstWord_append (fun _ => isWord_of_mem_firstWord) ?_
  have hlength : (firstWord cs).length + rest.length = cs.length := by
    rw [← List.length_append, ← hcs]
  cases rest with
  | nil => exact absurd hlength (by simp only [List.length_nil]; omega)
  | cons c rest =>
      obtain ⟨k, hk⟩ : ∃ k, n - (firstWord cs).length = k + 1 :=
        ⟨n - (firstWord cs).length - 1, by omega⟩
      rw [hk]
      exact hrest

/-- Squeezing blanks keeps the first word. -/
theorem firstWord_squeeze (cs : List Char) : firstWord (squeeze cs) = firstWord cs := by
  rw [squeeze]
  induction cs with
  | nil => rfl
  | cons c cs ih =>
      cases hblank : isBlank c with
      | false =>
          rw [squeezeFrom, if_neg (by simp [hblank]), firstWord, firstWord, List.takeWhile_cons,
            List.takeWhile_cons]
          exact congrArg (fun w => if isWord c = true then c :: w else []) ih
      | true =>
          have hword := isWord_eq_false_of_isBlank hblank
          rw [squeezeFrom, if_pos hblank, if_neg Bool.false_ne_true, firstWord, firstWord,
            List.takeWhile_cons_of_neg (by decide), List.takeWhile_cons_of_neg (by simp [hword])]

/-- What is dropped from the end is no part of the first word, if it is no word character. -/
theorem firstWord_dropEndWhile {p : Char → Bool} (hp : ∀ c, p c = true → isWord c = false)
    (cs : List Char) : firstWord (dropEndWhile p cs) = firstWord cs := by
  obtain ⟨dropped, hcs, hdropped⟩ := exists_eq_dropEndWhile_append p cs
  have hnone : dropped.takeWhile isWord = [] := by
    cases dropped with
    | nil => rfl
    | cons c dropped =>
        have hc := hp c (hdropped c List.mem_cons_self)
        exact List.takeWhile_cons_of_neg (by simp [hc])
  conv_rhs => rw [hcs, firstWord, List.takeWhile_append, hnone, List.append_nil]
  split_ifs with hall
  · exact (List.takeWhile_prefix isWord).eq_of_length hall
  · rfl

/-- A text that starts with a word starts with no blank. -/
theorem trimStart_of_firstWord (h : firstWord cs ≠ []) : trimStart cs = cs := by
  cases cs with
  | nil => rfl
  | cons c cs =>
      refine List.dropWhile_cons_of_neg fun hblank => h ?_
      have hword := isWord_eq_false_of_isBlank hblank
      exact List.takeWhile_cons_of_neg (by simp [hword])

/-- Trimming keeps the first word. -/
theorem firstWord_trim (h : firstWord cs ≠ []) : firstWord (trim cs) = firstWord cs := by
  rw [trim, trimStart_of_firstWord h, trimEnd]
  exact firstWord_dropEndWhile (fun _ => isWord_eq_false_of_isBlank) cs

end FirstWord

end Flowchart.Text

namespace Flowchart.Query

open Text (fold isBlank isWord wordAt firstWord)

/-- Writing a clause on one line keeps its first word. -/
theorem firstWord_clauseText {cs : List Char} (h : firstWord cs ≠ []) :
    firstWord (clauseText cs) = firstWord cs := by
  have hcomma : ∀ c : Char, (c == ',') = true → isWord c = false := by
    intro c hc
    rw [beq_iff_eq.mp hc]
    decide
  rw [clauseText, Text.firstWord_dropEndWhile hcomma, Text.normalize,
    Text.firstWord_trim (by rwa [Text.firstWord_squeeze]), Text.firstWord_squeeze]

/-- Writing pairs of spaces as one keeps the first word. -/
theorem firstWord_halveSpaces (cs : List Char) : firstWord (halveSpaces cs) = firstWord cs := by
  fun_induction halveSpaces cs with
  | case1 cs => rfl
  | case2 c cs _ ih =>
      rw [firstWord, firstWord, List.takeWhile_cons, List.takeWhile_cons]
      exact congrArg (fun w => if isWord c = true then c :: w else []) ih
  | case3 => rfl

/-! ### Keywords -/

/-- The words that phrases start with. -/
def leads : List String := phrases.flatMap fun entry => entry.2.filterMap List.head?

/-- The words that marks stand at are some small letters each. -/
theorem isLower_leads :
    ∀ w ∈ "with" :: leads, w.toList ≠ [] ∧ w.toList.all Char.isLower = true := by
  decide +kernel

/-- No phrase starts with the word that starts named subqueries. -/
theorem with_not_mem_leads : "with" ∉ leads := by decide +kernel

/-- Letters that spell a word in small letters are word characters. -/
theorem isWord_of_map_fold {here : List Char} {word : String} (h : here.map fold = word.toList)
    (hword : word.toList.all Char.isLower = true) : ∀ c ∈ here, isWord c = true := fun c hc =>
  Text.isWord_of_isLower_fold
    (List.all_eq_true.mp hword (fold c) (h ▸ List.mem_map_of_mem hc))

/-- Where blanks are dropped there is no word character. -/
theorem wordAt_head?_of_length_lt {cs : List Char}
    (h : (cs.dropWhile isBlank).length < cs.length) : wordAt cs.head? = false := by
  cases cs with
  | nil => rfl
  | cons c cs =>
      refine Text.isWord_eq_false_of_isBlank ?_
      by_contra hblank
      rw [List.dropWhile_cons_of_neg hblank] at h
      exact Nat.lt_irrefl _ h

/-- A text that starts with a phrase starts with its first word, and this word ends before a blank or
before what follows the phrase. -/
theorem exists_of_afterPhrase? {word : String} {words : List String} {cs rest : List Char}
    (h : afterPhrase? (word :: words) cs = some rest) :
    ∃ here after, cs = here ++ after ∧ here.map fold = word.toList ∧
      (wordAt after.head? = false ∨ after = rest) := by
  cases words with
  | nil =>
      obtain ⟨here, hcs, hfold⟩ := Text.foldedPrefix?_eq_some_iff.mp h
      exact ⟨here, rest, hcs, hfold, Or.inr rfl⟩
  | cons next words =>
      simp only [afterPhrase?] at h
      cases hafter : Text.foldedPrefix? word.toList cs with
      | none =>
          rw [hafter] at h
          cases h
      | some after =>
          obtain ⟨here, hcs, hfold⟩ := Text.foldedPrefix?_eq_some_iff.mp hafter
          rw [hafter] at h
          dsimp only at h
          split_ifs at h with hlength
          exact ⟨here, after, hcs, hfold, Or.inl (wordAt_head?_of_length_lt hlength)⟩

/-- A keyword stands between characters that are no word characters, and its first word is that of a
phrase. -/
theorem exists_lead_of_keywordHere? {before : Option Char} {cs : List Char} {kind : ClauseKind}
    {length : Nat} (h : keywordHere? before cs = some (kind, length)) :
    wordAt before = false ∧ kind ≠ .statement ∧
      ∃ w ∈ leads, (firstWord cs).map fold = w.toList := by
  have hkinds : ∀ entry ∈ phrases, entry.1 ≠ .statement := by decide +kernel
  obtain ⟨hstart, entry, hentry, rfl, phrase, hphrase, rest, hrest, rfl, hend⟩ :=
    exists_of_keywordHere? h
  obtain ⟨word, words, rfl⟩ : ∃ word words, phrase = word :: words := by
    refine List.exists_cons_of_ne_nil ?_
    rintro rfl
    exact absurd (startsLettered_phrases _ hentry _ hphrase) Bool.noConfusion
  have hlead : word ∈ leads :=
    List.mem_flatMap.mpr ⟨_, hentry, List.mem_filterMap.mpr ⟨_, hphrase, rfl⟩⟩
  obtain ⟨hne, hlower⟩ := isLower_leads word (List.mem_cons_of_mem _ hlead)
  obtain ⟨here, after, rfl, hfold, hafter⟩ := exists_of_afterPhrase? hrest
  have hword := isWord_of_map_fold hfold hlower
  have hplain : Text.IsPlainWord here := ⟨by rintro rfl; exact hne hfold.symm, hword⟩
  have hends : wordAt after.head? = false := by
    rcases hafter with hafter | rfl
    · exact hafter
    · have hlast : (here ++ after)[(here ++ after).length - after.length - 1]? =
          here.getLast? := by
        have hpos := List.length_pos_iff.mpr hplain.ne_nil
        rw [List.length_append, Nat.add_sub_cancel, List.getElem?_append_left (by omega),
          List.getLast?_eq_getElem?]
      have hlastWord : wordAt here.getLast? = true := by
        rw [← Option.or_none (o := here.getLast?)]
        exact hplain.wordAt_getLast?
      rw [hlast, Text.boundary, hlastWord] at hend
      simpa using hend
  refine ⟨?_, hkinds _ hentry, word, hlead, ?_⟩
  · rw [Text.boundary, hplain.wordAt_head?] at hstart
    simpa using hstart
  · rw [Text.firstWord_append hword hends, hfold]

/-! ### Marks -/

/-- At the place `p` of a text a word starts, with no word character before it. -/
def WordStarts (cs : List Char) (p : Nat) (word : List Char) : Prop :=
  ∃ front back, cs = front ++ back ∧ front.length = p ∧ wordAt front.getLast? = false ∧
    firstWord back = word

namespace WordStarts

variable {cs : List Char} {p q : Nat} {word word' : List Char}

/-- The word that a mark stands at is the first one from there on. -/
theorem firstWord_drop (h : WordStarts cs p word) : firstWord (cs.drop p) = word := by
  obtain ⟨front, back, rfl, rfl, -, hword⟩ := h
  rw [List.drop_left, hword]

/-- At one place starts one word. -/
theorem unique (h : WordStarts cs p word) (h' : WordStarts cs p word') : word = word' :=
  h.firstWord_drop.symm.trans h'.firstWord_drop

/-- A word that starts later starts after the end of this word. -/
theorem length_lt (h : WordStarts cs p word) (h' : WordStarts cs q word') (hlt : p < q) :
    p + word.length < q := by
  obtain ⟨front', back', hcs', rfl, hlast, -⟩ := h'
  obtain ⟨front, back, rfl, rfl, -, rfl⟩ := h
  by_contra hle
  obtain ⟨rest, hback, -⟩ := Text.exists_eq_firstWord_append back
  have hbefore : front'.getLast? = (firstWord back)[front'.length - 1 - front.length]? := by
    have hget : front'.getLast? = (front' ++ back')[front'.length - 1]? := by
      rw [List.getElem?_append_left (by omega), List.getLast?_eq_getElem?]
    rw [hget, ← hcs', List.getElem?_append_right (by omega)]
    conv_lhs => rw [hback]
    exact List.getElem?_append_left (by omega)
  rw [hbefore, List.getElem?_eq_getElem (by omega)] at hlast
  have hword : isWord (firstWord back)[front'.length - 1 - front.length] = true :=
    Text.isWord_of_mem_firstWord (List.getElem_mem _)
  exact Bool.noConfusion (hlast.symm.trans hword)

end WordStarts

/-- The marks behind the place that has been read stand at words. -/
theorem exists_of_mem_marksFrom (front : List Char) {cs : List Char} {skip : Nat} {ds : List (Option Nat)}
    {mark : Nat × ClauseKind}
    (h : mark ∈ marksFrom front.length front.getLast? skip cs ds) :
    mark.2 ≠ .statement ∧
      ∃ w ∈ leads, ∃ word, word.map fold = w.toList ∧ WordStarts (front ++ cs) mark.1 word := by
  induction cs generalizing front skip ds with
  | nil => cases skip <;> exact absurd h List.not_mem_nil
  | cons c cs ih =>
      cases ds with
      | nil => cases skip <;> exact absurd h List.not_mem_nil
      | cons d ds =>
          have hlater : ∀ {skip}, mark ∈ marksFrom (front.length + 1) (some c) skip cs ds →
              mark.2 ≠ .statement ∧ ∃ w ∈ leads, ∃ word, word.map fold = w.toList ∧
                WordStarts (front ++ c :: cs) mark.1 word := by
            intro skip h
            have hlength : front.length + 1 = (front ++ [c]).length := by simp
            have hlast : some c = (front ++ [c]).getLast? := by simp
            rw [hlength, hlast] at h
            rw [List.append_cons]
            exact ih _ h
          cases skip with
          | succ skip => exact hlater h
          | zero =>
              rw [marksFrom] at h
              cases hfound : keywordHere? front.getLast? (c :: cs) with
              | none =>
                  rw [hfound] at h
                  exact hlater h
              | some found =>
                  obtain ⟨kind, length⟩ := found
                  rw [hfound] at h
                  dsimp only at h
                  split_ifs at h
                  · rcases List.mem_cons.mp h with rfl | h
                    · obtain ⟨hbefore, hkind, w, hw, hfold⟩ := exists_lead_of_keywordHere? hfound
                      exact ⟨hkind, w, hw, _, hfold, front, c :: cs, rfl, rfl, hbefore, rfl⟩
                    · exact hlater h
                  · exact hlater h

/-- The word that starts named subqueries stands after blanks. -/
theorem wordStarts_of_cteMark? {stmt : List Char} {pos : Nat} (h : cteMark? stmt = some pos) :
    ∃ word, word.map fold = "with".toList ∧ WordStarts stmt pos word := by
  obtain ⟨rfl, rest, hwith⟩ := eq_of_cteMark? h
  obtain ⟨here, hdrop, hfold⟩ := Text.foldedPrefix?_eq_some_iff.mp hwith
  have hends : wordAt rest.head? = false := by
    rw [cteMark?] at h
    simp only [hwith] at h
    split_ifs at h with hword
    exact Bool.eq_false_iff.mpr hword
  have hfirst : firstWord (here ++ rest) = here :=
    Text.firstWord_append (isWord_of_map_fold hfold (by decide)) hends
  have hblanks : Text.allBlank (stmt.takeWhile isBlank) = true :=
    List.all_eq_true.mpr fun _ => List.mem_takeWhile_imp
  refine ⟨here, hfold, stmt.takeWhile isBlank, here ++ rest, ?_, rfl, ?_, hfirst⟩
  · have htake : stmt.takeWhile isBlank = stmt.take (stmt.takeWhile isBlank).length :=
      List.prefix_iff_eq_take.mp (List.takeWhile_prefix isBlank)
    rw [← hdrop]
    conv_lhs => rw [← List.take_append_drop (stmt.takeWhile isBlank).length stmt, ← htake]
  · rw [← Option.or_none (o := (stmt.takeWhile isBlank).getLast?)]
    exact Text.wordAt_getLast?_or hblanks (Or.inr rfl)

/-- A mark stands at a word of letters, and not at another one's place. -/
theorem wordStarts_of_mem_marks {stmt : List Char} {mark : Nat × ClauseKind}
    (h : mark ∈ marks stmt) : mark.2 ≠ .statement ∧ ∃ w ∈ "with" :: leads, ∃ word,
      word.map fold = w.toList ∧ WordStarts stmt mark.1 word := by
  rw [marks, List.mem_append] at h
  rcases h with h | h
  · cases hcte : cteMark? stmt with
    | none => simp [hcte] at h
    | some pos =>
        rw [hcte] at h
        obtain rfl := List.mem_singleton.mp h
        obtain ⟨word, hfold, hstarts⟩ := wordStarts_of_cteMark? hcte
        exact ⟨show ClauseKind.cte ≠ .statement by decide, _, List.mem_cons_self, word, hfold, hstarts⟩
  · obtain ⟨hkind, w, hw, word, hfold, hstarts⟩ := exists_of_mem_marksFrom [] h
    exact ⟨hkind, w, List.mem_cons_of_mem _ hw, word, hfold, hstarts⟩

/-- The marks of a statement follow one another. -/
theorem strict_marks (stmt : List Char) : (marks stmt).Pairwise (·.1 < ·.1) := by
  have hrest := pairwise_marksFrom 0 none 0 stmt (depths stmt)
  cases hcte : cteMark? stmt with
  | none => simpa [marks, hcte] using hrest
  | some pos =>
      have hordered := pairwise_marks stmt
      rw [marks, hcte] at hordered ⊢
      refine .cons (fun mark hmark => ?_) hrest
      refine Nat.lt_of_le_of_ne ((List.pairwise_cons.mp hordered).1 mark hmark) ?_
      rintro (rfl : pos = mark.1)
      obtain ⟨word, hfold, hstarts⟩ := wordStarts_of_cteMark? hcte
      obtain ⟨-, w, hw, word', hfold', hstarts'⟩ := exists_of_mem_marksFrom [] hmark
      obtain rfl := hstarts.unique hstarts'
      have hwith : "with" = w := String.toList_inj.mp (hfold.symm.trans hfold')
      exact with_not_mem_leads (hwith ▸ hw)

end Flowchart.Query
