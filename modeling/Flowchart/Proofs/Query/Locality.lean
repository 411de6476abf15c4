import Flowchart.Proofs.Query.Placement

/-!
# Reading up to a guard

Quotes, brackets and parentheses are *guards*: no letters, blanks or digits, so no keyword reaches
over one. Whatever reads a text for keywords reads the part before a guard as if the text ended there
(`keywordHere?_guard`, `cteMark?_guard`), and the marks of a text are those before the guard and those
after it (`marksFrom_guard`).

Only the argument of a limit may stand in parentheses. Whether a select has a limit is decided before
a guard too, unless the guard opens such an argument (`IsTopHead`, `isSome_topOf?_guard`).

## Text that is shielded

A literal or a group is a part of a text whose inside may be anything, as far as the rest is concerned.
Both ends of it are guards: characters that stand in no keyword. So what is read before a guard does not
depend on what comes behind it, and what is read behind the closing one does not depend on the inside.

## Main results

* `keywordHere?_guard`, `cteMark?_guard`: keywords end before a guard or start behind it.
* `marksFrom_guard`: the marks of a text with a guard in it.
* `isSome_topOf?_guard`: a limit is there or not whatever comes after a guard, unless the guard
  opens its argument.
-/

namespace Flowchart.Text

/-- A character that is no part of a keyword or a number and ends no clause. -/
structure IsGuard (g : Char) : Prop where
  ne_comma : g ≠ ','
  ne_semicolon : g ≠ ';'
  isLower_fold : (fold g).isLower = false
  isBlank : isBlank g = false
  isWord : isWord g = false
  isDigit : isDigit g = false

/-- Quotes, brackets and parentheses. -/
def guards : List Char := ['\'', '"', '\x60', '[', ']', '(', ')']

/-- Quotes, brackets and parentheses are guards. -/
theorem isGuard_of_mem_guards {g : Char} (h : g ∈ guards) : IsGuard g := by
  simp only [guards, List.mem_cons, List.not_mem_nil, or_false] at h
  rcases h with rfl | rfl | rfl | rfl | rfl | rfl | rfl <;>
    exact ⟨by decide, by decide, by decide, by decide, by decide, by decide⟩

section Guard

variable {g : Char} {word xs ys : List Char}

/-- A word is read before a guard. -/
theorem foldedPrefix?_guard (hg : IsGuard g) (hword : word.all Char.isLower = true)
    (xs ys : List Char) :
    foldedPrefix? word (xs ++ g :: ys) = (foldedPrefix? word xs).map (· ++ g :: ys) := by
  fun_induction foldedPrefix? word xs with
  | case1 => rfl
  | case2 w word =>
      refine if_neg ?_
      rintro rfl
      exact absurd (hg.isLower_fold.symm.trans (List.all_eq_true.mp hword _ List.mem_cons_self))
        Bool.noConfusion
  | case3 word c cs ih =>
      rw [List.cons_append, foldedPrefix?, if_pos rfl]
      exact ih (List.all_eq_true.mpr fun w hw =>
        List.all_eq_true.mp hword w (List.mem_cons_of_mem _ hw))
  | case4 w word c cs hne => exact if_neg hne

/-- Blanks are dropped up to a guard at most. -/
theorem dropWhile_isBlank_guard (hg : IsGuard g) (xs ys : List Char) :
    (xs ++ g :: ys).dropWhile isBlank = xs.dropWhile isBlank ++ g :: ys := by
  rw [List.dropWhile_append, List.dropWhile_cons_of_neg (by simp [hg.isBlank])]
  split_ifs with hempty
  · rw [List.isEmpty_iff.mp hempty, List.nil_append]
  · rfl

/-- Characters are taken up to a guard at most. -/
theorem takeWhile_guard {p : Char → Bool} (hg : p g = false) (xs ys : List Char) :
    (xs ++ g :: ys).takeWhile p = xs.takeWhile p := by
  rw [List.takeWhile_append, List.takeWhile_cons_of_neg (by simp [hg]), List.append_nil]
  split_ifs with hall
  · exact ((List.takeWhile_prefix p).eq_of_length hall).symm
  · rfl

/-- A guard ends a word as the end of the text does. -/
theorem wordAt_head?_guard (hg : IsGuard g) (xs ys : List Char) :
    wordAt (xs ++ g :: ys).head? = wordAt xs.head? := by
  cases xs with
  | nil => exact hg.isWord
  | cons c xs => rfl

/-- Nothing before a character that is not dropped is dropped from the end. -/
theorem exists_dropEndWhile_guard {p : Char → Bool} (hg : p g = false) (xs ys : List Char) :
    ∃ zs, dropEndWhile p (xs ++ g :: ys) = xs ++ g :: zs := by
  rw [dropEndWhile, List.reverse_append, List.reverse_cons, List.append_assoc, List.dropWhile_append]
  split_ifs
  · exact ⟨[], by simp [hg]⟩
  · exact ⟨(ys.reverse.dropWhile p).reverse, by simp⟩

end Guard

/-! ### Words -/

section Words

variable {here rest word : List Char}

/-- The first blank of a run becomes a space, and the others are dropped. -/
theorem squeezeFrom_cons (inRun : Bool) (c : Char) (cs : List Char) :
    squeezeFrom inRun (c :: cs) =
      if isBlank c then if inRun then squeezeFrom true cs else ' ' :: squeezeFrom true cs
      else c :: squeezeFrom false cs := rfl

/-- Squeezing blanks keeps the words. -/
theorem wordsFrom_squeezeFrom {inRun : Bool} (h : inRun = true → word = []) (cs : List Char) :
    wordsFrom word (squeezeFrom inRun cs) = wordsFrom word cs := by
  have hspace : isBlank ' ' = true := by decide
  induction cs generalizing inRun word with
  | nil => rfl
  | cons c cs ih =>
      have hnil : wordsFrom [] (squeezeFrom true cs) = wordsFrom [] cs := ih fun _ => rfl
      rw [squeezeFrom_cons, wordsFrom_cons]
      cases hc : isBlank c with
      | true =>
          cases inRun with
          | true =>
              obtain rfl := h rfl
              exact hnil
          | false =>
              rw [if_pos rfl, if_neg Bool.false_ne_true, wordsFrom_cons, hspace, hnil]
              rfl
      | false =>
          rw [if_neg Bool.false_ne_true, if_neg Bool.false_ne_true, wordsFrom_cons, hc]
          exact ih fun h => absurd h Bool.noConfusion

/-- The first word of a text, and those after the blanks behind it. -/
theorem words_append (hne : here ≠ []) (hhere : ∀ c ∈ here, isBlank c = false)
    (hrest : (rest.dropWhile isBlank).length < rest.length ∨ rest = []) :
    words (here ++ rest) = here :: words (rest.dropWhile isBlank) := by
  rw [words_append_of_not_isBlank hne hhere]
  cases rest with
  | nil => simp [upToBlank, fromBlank]
  | cons c rest =>
      have hblank : isBlank c = true := by
        by_contra hblank
        rw [List.dropWhile_cons_of_neg hblank] at hrest
        exact hrest.elim (Nat.lt_irrefl _) (List.cons_ne_nil c rest)
      rw [upToBlank_cons_of_isBlank hblank, fromBlank_cons_of_isBlank hblank, List.append_nil, words,
        words, wordsFrom_dropWhile]

end Words

end Flowchart.Text

namespace Flowchart.Query

open Text (fold isBlank isDigit wordAt firstWord IsGuard)

section Guard

variable {g : Char}

/-! ### Keywords before a guard -/

/-- A phrase is found before a guard as if the text ended there. -/
theorem afterPhrase?_guard (hg : IsGuard g) {phrase : List String}
    (hphrase : ∀ word ∈ phrase, word.toList.all Char.isLower = true) (xs ys : List Char) :
    afterPhrase? phrase (xs ++ g :: ys) = (afterPhrase? phrase xs).map (· ++ g :: ys) := by
  induction phrase generalizing xs with
  | nil => rfl
  | cons word words ih =>
      obtain ⟨hword, hwords⟩ := List.forall_mem_cons.mp hphrase
      have hread := Text.foldedPrefix?_guard hg hword xs ys
      cases words with
      | nil => exact hread
      | cons next words =>
          simp only [afterPhrase?, hread]
          cases Text.foldedPrefix? word.toList xs with
          | none => rfl
          | some rest =>
              simp only [Option.map_some, Text.dropWhile_isBlank_guard hg, List.length_append,
                Nat.add_lt_add_iff_right]
              split_ifs
              · exact ih hwords _
              · rfl

/-- All words of all phrases are written in small letters. -/
theorem isLower_phrases : ∀ entry ∈ phrases, ∀ phrase ∈ entry.2, ∀ word ∈ phrase,
    word.toList.all Char.isLower = true := by
  decide +kernel

/-- A keyword is no longer than the text it stands in. -/
theorem length_le_of_keywordHere? {before : Option Char} {cs : List Char} {kind : ClauseKind}
    {length : Nat} (h : keywordHere? before cs = some (kind, length)) : length ≤ cs.length := by
  obtain ⟨-, -, -, -, -, -, -, -, rfl, -⟩ := exists_of_keywordHere? h
  exact Nat.sub_le _ _

/-- At the end of a text no keyword stands. -/
@[simp] theorem keywordHere?_nil (before : Option Char) : keywordHere? before [] = none := by
  rw [Option.eq_none_iff_forall_ne_some]
  rintro ⟨kind, length⟩ h
  obtain ⟨-, -, w, hw, hfold⟩ := exists_lead_of_keywordHere? h
  exact (isLower_leads w (List.mem_cons_of_mem _ hw)).1 hfold.symm

/-- What is found first depends on what is found in each item alone. -/
theorem findSome?_congr {α β : Type} {f f' : α → Option β} {items : List α}
    (h : ∀ a ∈ items, f a = f' a) : items.findSome? f = items.findSome? f' := by
  induction items with
  | nil => rfl
  | cons a items ih =>
      rw [List.findSome?_cons, List.findSome?_cons, h a List.mem_cons_self,
        ih fun b hb => h b (List.mem_cons_of_mem _ hb)]

/-- The last character of a keyword before a guard. -/
theorem wordAt_getElem?_guard (hg : IsGuard g) (xs ys : List Char) (n : Nat) :
    wordAt (xs ++ g :: ys)[xs.length - n - 1]? = wordAt xs[xs.length - n - 1]? := by
  cases xs with
  | nil =>
      rw [List.length_nil, Nat.zero_sub, Nat.zero_sub]
      exact hg.isWord
  | cons c xs =>
      rw [List.getElem?_append_left (by simp only [List.length_cons]; omega)]

/-- A keyword is read before a guard. -/
theorem keywordHere?_guard (hg : IsGuard g) (before : Option Char) (xs ys : List Char) :
    keywordHere? before (xs ++ g :: ys) = keywordHere? before xs := by
  rw [keywordHere?, keywordHere?, Text.boundary, Text.wordAt_head?_guard hg, ← Text.boundary]
  split_ifs with hstart
  · refine findSome?_congr fun entry hentry => ?_
    refine findSome?_congr fun phrase hphrase => ?_
    rw [afterPhrase?_guard hg (isLower_phrases _ hentry phrase hphrase)]
    cases afterPhrase? phrase xs with
    | none => rfl
    | some rest =>
        have hlength : (xs ++ g :: ys).length - (rest ++ g :: ys).length =
            xs.length - rest.length := by
          rw [List.length_append, List.length_append, Nat.add_sub_add_right]
        have hend : Text.boundary (xs ++ g :: ys)[xs.length - rest.length - 1]?
            (rest ++ g :: ys).head? =
              Text.boundary xs[xs.length - rest.length - 1]? rest.head? := by
          rw [Text.boundary, Text.boundary, wordAt_getElem?_guard hg, Text.wordAt_head?_guard hg]
        dsimp only [Option.map_some]
        rw [hlength, hend]
  · rfl

/-- The word that starts named subqueries is read before a guard. -/
theorem cteMark?_guard (hg : IsGuard g) (xs ys : List Char) :
    cteMark? (xs ++ g :: ys) = cteMark? xs := by
  have hle := (List.takeWhile_sublist isBlank : (xs.takeWhile isBlank).Sublist xs).length_le
  rw [cteMark?, cteMark?, Text.takeWhile_guard hg.isBlank, List.drop_append_of_le_length hle,
    Text.foldedPrefix?_guard hg (by decide)]
  cases Text.foldedPrefix? "with".toList (xs.drop (xs.takeWhile isBlank).length) with
  | none => rfl
  | some rest => simp only [Option.map_some, Text.wordAt_head?_guard hg]

/-! ### Marks on both sides of a guard -/

/-- Marks in a text that stands later. -/
theorem marksFrom_add (pos k : Nat) (before : Option Char) (skip : Nat) (cs : List Char)
    (ds : List (Option Nat)) : marksFrom (pos + k) before skip cs ds =
      (marksFrom pos before skip cs ds).map fun m => (m.1 + k, m.2) := by
  have hnext : ∀ pos, pos + k + 1 = pos + 1 + k := fun pos => Nat.add_right_comm pos k 1
  fun_induction marksFrom pos before skip cs ds with
  | case1 pos before skip c cs d ds ih => rw [marksFrom, hnext, ih]
  | case2 pos before c cs d ds hnone ih => rw [marksFrom, hnone, hnext]; exact ih
  | case3 pos before c cs ds kind length hfound rest ih =>
      rw [marksFrom, hfound]
      dsimp only
      rw [if_pos rfl, hnext, ih]
      rfl
  | case4 pos before c cs d ds kind length hfound rest hd ih =>
      rw [marksFrom, hfound]
      dsimp only
      rw [if_neg hd, hnext, ih]
  | case5 => simp_all [marksFrom]

/-- Where nothing has depth zero there are no marks. -/
theorem marksFrom_of_not_mem {pos : Nat} {before : Option Char} {skip : Nat} {cs : List Char}
    {ds : List (Option Nat)} (h : some 0 ∉ ds) : marksFrom pos before skip cs ds = [] := by
  fun_induction marksFrom pos before skip cs ds with
  | case1 pos before skip c cs d ds ih => exact ih (List.not_mem_of_not_mem_cons h)
  | case2 pos before c cs d ds hnone ih => exact ih (List.not_mem_of_not_mem_cons h)
  | case3 => exact absurd List.mem_cons_self h
  | case4 pos before c cs d ds kind length hfound rest hd ih =>
      exact ih (List.not_mem_of_not_mem_cons h)
  | case5 => rfl

/-- The marks before a guard, and those after it. -/
theorem marksFrom_guard (hg : IsGuard g) {pos : Nat} {before : Option Char} {skip : Nat}
    {xs ys : List Char} {dxs dys : List (Option Nat)} {d : Option Nat}
    (hlength : dxs.length = xs.length) (hskip : skip ≤ xs.length) :
    marksFrom pos before skip (xs ++ g :: ys) (dxs ++ d :: dys) =
      marksFrom pos before skip xs dxs ++
        marksFrom (pos + xs.length + 1) (some g) 0 ys dys := by
  induction xs generalizing pos before skip dxs with
  | nil =>
      obtain rfl := List.eq_nil_of_length_eq_zero hlength
      obtain rfl := Nat.le_zero.mp hskip
      have hnone := keywordHere?_guard hg before [] ys
      rw [keywordHere?_nil, List.nil_append] at hnone
      rw [List.nil_append, List.nil_append, marksFrom, hnone]
      rfl
  | cons x xs ih =>
      obtain ⟨e, dxs, rfl⟩ := List.exists_cons_of_length_eq_add_one hlength
      have hlength : dxs.length = xs.length := Nat.succ.inj hlength
      have hpos : pos + (x :: xs).length + 1 = pos + 1 + xs.length + 1 := by
        simp only [List.length_cons]
        omega
      rw [hpos]
      cases skip with
      | succ skip => exact ih hlength (Nat.le_of_succ_le_succ hskip)
      | zero =>
          have hfound := keywordHere?_guard hg before (x :: xs) ys
          rw [List.cons_append] at hfound
          rw [List.cons_append, List.cons_append, marksFrom, marksFrom, hfound]
          cases hkeyword : keywordHere? before (x :: xs) with
          | none => exact ih hlength (Nat.zero_le _)
          | some found =>
              obtain ⟨kind, length⟩ := found
              have hle := length_le_of_keywordHere? hkeyword
              have hskip : length - 1 ≤ xs.length := by
                rw [List.length_cons] at hle
                omega
              dsimp only
              rw [ih hlength hskip]
              split_ifs <;> rfl

/-! ### Limits before a guard -/

/-- A parenthesis that may be there is looked for before a guard, if the guard is none. -/
theorem dropParen_guard {paren : Char} {xs : List Char} (h : xs ≠ [] ∨ g ≠ paren)
    (ys : List Char) : dropParen paren (xs ++ g :: ys) = dropParen paren xs ++ g :: ys := by
  cases xs with
  | nil => exact if_neg fun hg => h.resolve_left (absurd rfl) (Option.some.inj hg)
  | cons c xs =>
      rw [dropParen, dropParen, List.cons_append]
      split_ifs <;> simp_all

/-- Whether a limit stands at the start of a select list: its word, and then a number that may stand
in parentheses. -/
theorem isSome_afterTop? (cs : List Char) :
    (afterTop? cs).isSome = (Text.foldedPrefix? "top".toList cs).any fun rest =>
      ((dropParen '(' (rest.dropWhile isBlank)).dropWhile isBlank).head?.any isDigit := by
  rw [afterTop?]
  cases Text.foldedPrefix? "top".toList cs with
  | none => rfl
  | some rest =>
      simp only [bind, Option.bind_some, Option.any_some]
      split_ifs with hdigit
      · rw [hdigit]
        rfl
      · rw [hdigit]
        rfl
      · exact (Bool.eq_false_iff.mpr hdigit).symm

/-- The word of a limit is all that stands before a guard. -/
def EndsInTop (cs : List Char) : Prop :=
  ∃ rest, Text.foldedPrefix? "top".toList cs = some rest ∧ rest.dropWhile isBlank = []

/-- Whether a limit follows is decided before a guard that does not open its argument. -/
theorem isSome_afterTop?_guard (hg : IsGuard g) {xs : List Char} (h : g = '(' → ¬EndsInTop xs)
    (ys : List Char) : (afterTop? (xs ++ g :: ys)).isSome = (afterTop? xs).isSome := by
  rw [isSome_afterTop?, isSome_afterTop?, Text.foldedPrefix?_guard hg (by decide)]
  cases htop : Text.foldedPrefix? "top".toList xs with
  | none => rfl
  | some rest =>
      have hparen : rest.dropWhile isBlank ≠ [] ∨ g ≠ '(' := by
        by_contra hnot
        obtain ⟨hrest, hg⟩ := not_or.mp hnot
        exact h (not_not.mp hg) ⟨rest, htop, not_not.mp hrest⟩
      simp only [Option.map_some, Option.any_some, Text.dropWhile_isBlank_guard hg,
        dropParen_guard hparen]
      cases (dropParen '(' (rest.dropWhile isBlank)).dropWhile isBlank with
      | nil => exact hg.isDigit
      | cons c cs => rfl

/-- Whether a limit stands in the select list of a clause text, behind the word for distinct rows or
not. -/
theorem isSome_topOf? (cs : List Char) :
    (topOf? cs).isSome = (Text.foldedPrefix? "select".toList cs).any fun rest =>
      decide ((rest.dropWhile isBlank).length < rest.length) &&
        ((afterTop? (rest.dropWhile isBlank)).isSome ||
          (Text.foldedPrefix? "distinct".toList (rest.dropWhile isBlank)).any fun rest =>
            decide ((rest.dropWhile isBlank).length < rest.length) &&
              (afterTop? (rest.dropWhile isBlank)).isSome) := by
  rw [topOf?]
  cases Text.foldedPrefix? "select".toList cs with
  | none => rfl
  | some rest =>
      simp only [bind, Option.bind_some, Option.any_some]
      split_ifs with hblank
      · rw [decide_eq_true hblank, Bool.true_and]
        cases Text.foldedPrefix? "distinct".toList (rest.dropWhile isBlank) with
        | none => simp
        | some rest' =>
            dsimp only [Option.any_some]
            split_ifs with hblank'
            · rw [decide_eq_true hblank', Bool.true_and]
              cases afterTop? (rest'.dropWhile isBlank) <;> simp
            · simp [hblank']
      · rw [decide_eq_false hblank, Bool.false_and]
        rfl

/-- The last words before a guard are those of a select up to the argument of its limit. -/
def IsTopHead (cs : List Char) : Prop :=
  (Text.words cs).map (·.map fold) ∈
    [["select".toList, "top".toList], ["select".toList, "distinct".toList, "top".toList]]

instance (cs : List Char) : Decidable (IsTopHead cs) :=
  inferInstanceAs (Decidable (_ ∈ _))

/-- Blanks that are squeezed change no head of a limit. -/
theorem isTopHead_squeeze (cs : List Char) : IsTopHead (Text.squeeze cs) ↔ IsTopHead cs := by
  rw [IsTopHead, Text.words, Text.squeeze,
    Text.wordsFrom_squeezeFrom fun h => absurd h Bool.false_ne_true]
  rfl

/-- A text that starts with a word in some letter case, and the words after it. -/
theorem map_words_of_foldedPrefix? {word : String} (hne : word.toList ≠ [])
    (hlower : word.toList.all Char.isLower = true) {cs rest : List Char}
    (h : Text.foldedPrefix? word.toList cs = some rest)
    (hrest : (rest.dropWhile isBlank).length < rest.length ∨ rest = []) :
    (Text.words cs).map (·.map fold) =
      word.toList :: (Text.words (rest.dropWhile isBlank)).map (·.map fold) := by
  obtain ⟨here, rfl, hfold⟩ := Text.foldedPrefix?_eq_some_iff.mp h
  have hblank : ∀ c ∈ here, isBlank c = false := fun c hc =>
    isBlank_of_isLower_fold (List.all_eq_true.mp hlower _ (hfold ▸ List.mem_map_of_mem hc))
  have hhere : here ≠ [] := by
    rintro rfl
    exact hne hfold.symm
  rw [Text.words_append hhere hblank hrest, List.map_cons, hfold]

/-- A text that ends before the argument of a limit is its keyword. -/
theorem EndsInTop.map_words {cs : List Char} (h : EndsInTop cs) :
    (Text.words cs).map (·.map fold) = ["top".toList] := by
  obtain ⟨rest, htop, hrest⟩ := h
  have hshort : (rest.dropWhile isBlank).length < rest.length ∨ rest = [] := by
    rw [hrest]
    exact (Nat.eq_zero_or_pos rest.length).symm.imp id List.eq_nil_of_length_eq_zero
  rw [map_words_of_foldedPrefix? (by decide) (by decide) htop hshort, hrest]
  rfl

/-- Whether a select has a limit is read before a guard that does not open the limit's argument. -/
theorem isSome_topOf?_guard (hg : IsGuard g) {xs : List Char} (h : g = '(' → ¬IsTopHead xs)
    (ys : List Char) : (topOf? (xs ++ g :: ys)).isSome = (topOf? xs).isSome := by
  rw [isSome_topOf?, isSome_topOf?, Text.foldedPrefix?_guard hg (by decide)]
  cases hselect : Text.foldedPrefix? "select".toList xs with
  | none => rfl
  | some rest =>
      simp only [Option.map_some, Option.any_some, Text.dropWhile_isBlank_guard hg,
        List.length_append, Nat.add_lt_add_iff_right]
      by_cases hblank : (rest.dropWhile isBlank).length < rest.length
      · have hwords := map_words_of_foldedPrefix? (by decide) (by decide) hselect (Or.inl hblank)
        have hplain : g = '(' → ¬EndsInTop (rest.dropWhile isBlank) := fun hparen htop =>
          h hparen (by rw [IsTopHead, hwords, htop.map_words]; exact List.mem_cons_self)
        rw [isSome_afterTop?_guard hg hplain, Text.foldedPrefix?_guard hg (by decide)]
        congr 2
        cases hdistinct : Text.foldedPrefix? "distinct".toList (rest.dropWhile isBlank) with
        | none => rfl
        | some rest' =>
            simp only [Option.map_some, Option.any_some, Text.dropWhile_isBlank_guard hg,
              List.length_append, Nat.add_lt_add_iff_right]
            by_cases hblank' : (rest'.dropWhile isBlank).length < rest'.length
            · have hwords' :=
                map_words_of_foldedPrefix? (by decide) (by decide) hdistinct (Or.inl hblank')
              have hinner : g = '(' → ¬EndsInTop (rest'.dropWhile isBlank) := fun hparen htop =>
                h hparen (by
                  rw [IsTopHead, hwords, hwords', htop.map_words]
                  exact List.mem_cons_of_mem _ List.mem_cons_self)
              rw [isSome_afterTop?_guard hg hinner]
            · rw [decide_eq_false hblank', Bool.false_and, Bool.false_and]
      · rw [decide_eq_false hblank, Bool.false_and, Bool.false_and]

/-- The clause text of a piece with a guard in it. -/
theorem exists_clauseText_guard (hg : IsGuard g) {xs : List Char} (hxs : firstWord xs ≠ [])
    (ys : List Char) : ∃ zs, clauseText (xs ++ g :: ys) = Text.squeeze xs ++ g :: zs := by
  have hfirst : firstWord (Text.squeeze (xs ++ g :: ys)) ≠ [] := by
    rw [Text.firstWord_squeeze, firstWord, Text.takeWhile_guard hg.isWord]
    exact hxs
  rw [clauseText, Text.normalize, Text.trim, Text.trimStart_of_firstWord hfirst, Text.squeeze,
    Text.squeezeFrom_append_cons hg.isBlank, ← Text.squeeze, Text.trimEnd]
  obtain ⟨zs, hzs⟩ := Text.exists_dropEndWhile_guard hg.isBlank (Text.squeeze xs)
    (Text.squeezeFrom false ys)
  have hcomma : (g == ',') = false := beq_false_of_ne hg.ne_comma
  rw [hzs]
  exact Text.exists_dropEndWhile_guard (p := (· == ',')) hcomma _ _

/-- Whether a piece has a limit does not depend on what stands behind a guard in it. -/
theorem isSome_topOf?_clauseText (hg : IsGuard g) {xs : List Char} (hxs : firstWord xs ≠ [])
    (h : g = '(' → ¬IsTopHead xs) (ys : List Char) :
    (topOf? (clauseText (xs ++ g :: ys))).isSome = (topOf? (Text.squeeze xs)).isSome := by
  obtain ⟨zs, hzs⟩ := exists_clauseText_guard hg hxs ys
  rw [hzs]
  exact isSome_topOf?_guard hg (fun hparen => (isTopHead_squeeze xs).not.mpr (h hparen)) zs

end Guard

end Flowchart.Query
