import Flowchart.Proofs.Query.Locality

/-!
# Select lists without a limit

A limit may stand at the start of a select list, behind the word for distinct rows or not. Whether it
does is read off the first word of the list (`listWord`), which is the same in the piece of the
statement and in the clause text (`listWord_clauseText`): this word is that of a limit, or it goes on
from it with a digit (`isTopNumber`).

In a statement with no such list each piece is one clause with the whole text of the piece, and a limit
is the clause of a keyword of its own, outside of parentheses, literals and quoted names
(`whole_scan`).

## Pieces and clause texts

Whether a select list starts with a limit is asked twice: of a piece of the statement, as it stands
there, and of the text of its clause, where blanks are squeezed and the ends trimmed. The scan asks the
second question and the condition of `whole_scan` is the first one. Both look at one word only, and
squeezing blanks leaves the words of a text alone. What comes behind the word is not compared at all.

## Main results

* `listWord_clauseText`: the first word of a list is the same in the piece and in its text.
* `limitAt_of_mem_marks`: where a limit with a keyword of its own stands.
* `whole_scan`: without limits in select lists, each piece is one clause.
-/

namespace Flowchart.Query

open Text (fold isBlank isWord isDigit wordAt firstWord)

variable {cs rest xs dropped piece text list : List Char}

/-! ### The first word of a select list -/

/-- A word character is no blank. -/
theorem isBlank_of_isWord {c : Char} (h : isWord c = true) : isBlank c = false := by
  rw [Bool.eq_false_iff]
  intro hblank
  rw [Text.isWord_eq_false_of_isBlank hblank] at h
  exact Bool.noConfusion h

/-- What follows the first word and the blanks behind it. -/
def afterWord (cs : List Char) : List Char := (cs.drop (firstWord cs).length).dropWhile isBlank

/-- The list of a select, without the word for distinct rows at its start. -/
def selectList (piece : List Char) : List Char :=
  let list := afterWord piece
  if (firstWord list).map fold = "distinct".toList then afterWord list else list

/-- The first word of the list of a select. -/
def listWord (piece : List Char) : List Char := firstWord (selectList piece)

/-- The word of a limit with a digit directly behind it, as the start of a longer word. -/
def isTopNumber (word : List Char) : Bool :=
  (Text.foldedPrefix? "top".toList word).any fun after => after.head?.any isDigit

/-- Characters that are no word characters are no part of a first word before them. -/
theorem firstWord_append_of_forall (h : ∀ c ∈ dropped, isWord c = false) (xs : List Char) :
    firstWord (xs ++ dropped) = firstWord xs := by
  have hnone : dropped.takeWhile isWord = [] := by
    cases dropped with
    | nil => rfl
    | cons c dropped => exact List.takeWhile_cons_of_neg (by simp [h c List.mem_cons_self])
  rw [firstWord, List.takeWhile_append, hnone, List.append_nil]
  split_ifs with hall
  · exact ((List.takeWhile_prefix isWord).eq_of_length hall).symm
  · rfl

/-- What follows the first word may end with what is no word character. -/
theorem exists_afterWord_append (h : ∀ c ∈ dropped, isWord c = false) (xs : List Char) :
    ∃ dropped', (∀ c ∈ dropped', isWord c = false) ∧
      afterWord (xs ++ dropped) = afterWord xs ++ dropped' := by
  have hle : (firstWord xs).length ≤ xs.length := (List.takeWhile_prefix isWord).length_le
  rw [afterWord, firstWord_append_of_forall h, afterWord, List.drop_append_of_le_length hle,
    List.dropWhile_append]
  split_ifs with hempty
  · refine ⟨dropped.dropWhile isBlank, fun c hc => h c ((List.dropWhile_sublist isBlank).subset hc), ?_⟩
    rw [List.isEmpty_iff.mp hempty, List.nil_append]
  · exact ⟨dropped, h, rfl⟩

/-- The first word of a list does not depend on characters at the end that are no word characters. -/
theorem listWord_append (h : ∀ c ∈ dropped, isWord c = false) (xs : List Char) :
    listWord (xs ++ dropped) = listWord xs := by
  obtain ⟨dropped', h', heq⟩ := exists_afterWord_append h xs
  obtain ⟨dropped'', h'', heq'⟩ := exists_afterWord_append h' (afterWord xs)
  rw [listWord, selectList, heq, firstWord_append_of_forall h', listWord, selectList]
  split_ifs
  · rw [heq', firstWord_append_of_forall h'']
  · exact firstWord_append_of_forall h' _

/-- The blanks at the start go, whether they are squeezed or not. -/
theorem dropWhile_squeezeFrom (inRun : Bool) (cs : List Char) :
    (Text.squeezeFrom inRun cs).dropWhile isBlank = Text.squeeze (cs.dropWhile isBlank) := by
  induction cs generalizing inRun with
  | nil => rfl
  | cons c cs ih =>
      cases hc : isBlank c with
      | true =>
          rw [Text.squeezeFrom, if_pos hc, List.dropWhile_cons_of_pos hc]
          cases inRun with
          | true => exact ih true
          | false => exact ih true
      | false =>
          have hneg : ¬isBlank c = true := by simp [hc]
          rw [Text.squeezeFrom, if_neg hneg, List.dropWhile_cons_of_neg hneg,
            List.dropWhile_cons_of_neg hneg, Text.squeeze, Text.squeezeFrom, if_neg hneg]

/-- What follows the first word, with its blanks squeezed. -/
theorem afterWord_squeeze (cs : List Char) :
    afterWord (Text.squeeze cs) = Text.squeeze (afterWord cs) := by
  obtain ⟨rest, hcs, -⟩ := Text.exists_eq_firstWord_append cs
  have hword : ∀ c ∈ firstWord cs, isBlank c = false := fun c hc =>
    isBlank_of_isWord (Text.isWord_of_mem_firstWord hc)
  have hsqueeze : Text.squeeze cs = firstWord cs ++ Text.squeeze rest := by
    conv_lhs => rw [hcs]
    exact Text.squeezeFrom_append_of_not_isBlank hword rest
  have hdrop : cs.drop (firstWord cs).length = rest :=
    (congrArg (List.drop (firstWord cs).length) hcs).trans List.drop_left
  rw [afterWord, Text.firstWord_squeeze, hsqueeze, List.drop_left, Text.squeeze,
    dropWhile_squeezeFrom, afterWord, hdrop]

/-- Squeezing blanks keeps the first word of a list. -/
theorem listWord_squeeze (cs : List Char) : listWord (Text.squeeze cs) = listWord cs := by
  rw [listWord, selectList, afterWord_squeeze, Text.firstWord_squeeze, listWord, selectList]
  split_ifs
  · rw [afterWord_squeeze, Text.firstWord_squeeze]
  · exact Text.firstWord_squeeze _

/-- The first word of a list is that of the clause text. -/
theorem listWord_clauseText (h : firstWord piece ≠ []) :
    listWord (clauseText piece) = listWord piece := by
  have hsqueeze : firstWord (Text.squeeze piece) ≠ [] := by rwa [Text.firstWord_squeeze]
  obtain ⟨blanks, hblanks, hblank⟩ :=
    Text.exists_eq_dropEndWhile_append isBlank (Text.squeeze piece)
  obtain ⟨commas, hcommas, hcomma⟩ :=
    Text.exists_eq_dropEndWhile_append (· == ',') (Text.trimEnd (Text.squeeze piece))
  rw [clauseText, Text.normalize, Text.trim, Text.trimStart_of_firstWord hsqueeze,
    ← listWord_squeeze piece]
  conv_rhs => rw [hblanks, ← Text.trimEnd, hcommas, List.append_assoc]
  refine (listWord_append (fun c hc => ?_) _).symm
  rcases List.mem_append.mp hc with hc | hc
  · rw [beq_iff_eq.mp (hcomma c hc)]
    decide
  · exact Text.isWord_eq_false_of_isBlank (hblank c hc)

/-! ### Where a limit is read -/

/-- A limit at the start of a list is the first word, or this word goes on with a digit. -/
theorem firstWord_of_isSome_afterTop? (h : (afterTop? list).isSome = true) :
    (firstWord list).map fold = "top".toList ∨ isTopNumber (firstWord list) = true := by
  rw [isSome_afterTop?, Option.any_eq_true] at h
  obtain ⟨after, htop, hdigit⟩ := h
  obtain ⟨here, rfl, hfold⟩ := Text.foldedPrefix?_eq_some_iff.mp htop
  have hword : ∀ c ∈ here, isWord c = true := isWord_of_map_fold hfold (by decide)
  have hfirst : firstWord (here ++ after) = here ++ firstWord after :=
    List.takeWhile_append_of_pos hword
  rw [hfirst]
  cases after with
  | nil => exact Or.inl (by rw [firstWord, List.takeWhile_nil, List.append_nil, hfold])
  | cons c after =>
      cases hc : isWord c with
      | false =>
          rw [firstWord, List.takeWhile_cons_of_neg (by simp [hc]), List.append_nil]
          exact Or.inl hfold
      | true =>
          have hblank := isBlank_of_isWord hc
          have hparen : c ≠ '(' := by
            rintro rfl
            exact absurd hc (by decide)
          rw [List.dropWhile_cons_of_neg (by simp [hblank]), dropParen,
            if_neg (by simpa using hparen), List.dropWhile_cons_of_neg (by simp [hblank])] at hdigit
          refine Or.inr ?_
          rw [isTopNumber, firstWord, List.takeWhile_cons_of_pos hc,
            Text.foldedPrefix?_eq_some_iff.mpr ⟨here, rfl, hfold⟩]
          exact hdigit

/-- A text that starts with a word and a blank starts with this word and no longer one. -/
theorem firstWord_of_foldedPrefix? {word : String} (hlower : word.toList.all Char.isLower = true)
    (h : Text.foldedPrefix? word.toList cs = some rest)
    (hblank : (rest.dropWhile isBlank).length < rest.length) :
    (firstWord cs).map fold = word.toList ∧ afterWord cs = rest.dropWhile isBlank := by
  obtain ⟨here, rfl, hfold⟩ := Text.foldedPrefix?_eq_some_iff.mp h
  have hfirst : firstWord (here ++ rest) = here :=
    Text.firstWord_append (isWord_of_map_fold hfold hlower) (wordAt_head?_of_length_lt hblank)
  rw [afterWord, hfirst, List.drop_left]
  exact ⟨hfold, rfl⟩

/-- The word for distinct rows is not that of a limit, and does not start with it. -/
theorem map_fold_ne_distinct {word : List Char}
    (h : word.map fold = "top".toList ∨ isTopNumber word = true) :
    word.map fold ≠ "distinct".toList := by
  rcases h with htop | hnumber
  · rw [htop]
    decide
  · rw [isTopNumber, Option.any_eq_true] at hnumber
    obtain ⟨after, htop, -⟩ := hnumber
    obtain ⟨here, rfl, hfold⟩ := Text.foldedPrefix?_eq_some_iff.mp htop
    rw [List.map_append, hfold]
    exact fun h => absurd (List.cons.inj h).1 (by decide)

/-- A limit is read only where the list starts with its word, or with its word and a digit. -/
theorem listWord_of_isSome_topOf? (h : (topOf? text).isSome = true) :
    (listWord text).map fold = "top".toList ∨ isTopNumber (listWord text) = true := by
  rw [isSome_topOf?, Option.any_eq_true] at h
  obtain ⟨rest, hselect, h⟩ := h
  rw [Bool.and_eq_true, Bool.or_eq_true, decide_eq_true_eq, Option.any_eq_true] at h
  obtain ⟨hblank, htop⟩ := h
  obtain ⟨-, hlist⟩ := firstWord_of_foldedPrefix? (by decide) hselect hblank
  rw [listWord, selectList, hlist]
  rcases htop with htop | ⟨rest', hdistinct, htop⟩
  · have hfirst := firstWord_of_isSome_afterTop? htop
    rw [if_neg (map_fold_ne_distinct hfirst)]
    exact hfirst
  · rw [Bool.and_eq_true, decide_eq_true_eq] at htop
    obtain ⟨hfold, hlist'⟩ := firstWord_of_foldedPrefix? (by decide) hdistinct htop.1
    rw [if_pos hfold, hlist']
    exact firstWord_of_isSome_afterTop? htop.2

/-! ### Whole clauses -/

/-- The clause with the whole text of a piece, on one line and without commas at its end. -/
def wholeClause (sql : List Char) (offset : Nat) (p : Nat × ClauseKind × List Char) : Clause :=
  ⟨p.2.1, String.ofList (clauseText p.2.2), lineAt sql (offset + p.1), offset + p.1⟩

/-- No select of a statement has a list that starts with the word of a limit, or with this word and a
digit directly behind it. -/
def PlainLists (stmt : List Char) : Prop :=
  ∀ p ∈ cut stmt (marks stmt), p.2.1 = .select →
    (listWord p.2.2).map fold ≠ "top".toList ∧ isTopNumber (listWord p.2.2) = false

instance (stmt : List Char) : Decidable (PlainLists stmt) :=
  inferInstanceAs (Decidable (∀ p ∈ cut stmt (marks stmt), _))

/-- The phrases that start a limit. -/
def limitPhrases : List (List String) := [["limit"], ["offset"], ["fetch", "first"], ["fetch", "next"]]

/-- A limit's keyword stands at a place of depth zero, between characters that are no word
characters. -/
def LimitAt (stmt : List Char) (p : Nat) : Prop :=
  (depths stmt)[p]? = some (some 0) ∧ ∃ before after rest, stmt = before ++ after ∧
    before.length = p ∧ wordAt before.getLast? = false ∧
    (∃ phrase ∈ limitPhrases, afterPhrase? phrase after = some rest) ∧ wordAt rest.head? = false

/-- The piece of a statement before its first mark. -/
def headPiece (stmt : List Char) : List Char :=
  match marks stmt with
  | [] => stmt
  | mark :: _ => stmt.take mark.1

/-- The clauses of a statement are its pieces, each whole, and the limits among them are those of
keywords. -/
structure Whole (sql : List Char) (offset : Nat) (stmt : List Char) (clauses : List Clause) :
    Prop where
  clauses_eq : clauses = ownClause sql offset (headPiece stmt) ++
    (cut stmt (marks stmt)).map (wholeClause sql offset)
  limit : ∀ c ∈ clauses, c.kind = .limit → ∃ p, c.pos = offset + p ∧ LimitAt stmt p

/-- A mark stands at a keyword of its kind and at depth zero. -/
theorem keyword_of_mem_marksFrom (front : List Char) {cs : List Char} {skip : Nat}
    {ds : List (Option Nat)} {mark : Nat × ClauseKind}
    (h : mark ∈ marksFrom front.length front.getLast? skip cs ds) :
    ∃ i before after length, mark.1 = front.length + i ∧ ds[i]? = some (some 0) ∧
      front ++ cs = before ++ after ∧ before.length = mark.1 ∧
      keywordHere? before.getLast? after = some (mark.2, length) := by
  induction cs generalizing front skip ds with
  | nil => cases skip <;> exact absurd h List.not_mem_nil
  | cons c cs ih =>
      cases ds with
      | nil => cases skip <;> exact absurd h List.not_mem_nil
      | cons d ds =>
          have hlater : ∀ {skip}, mark ∈ marksFrom (front.length + 1) (some c) skip cs ds →
              ∃ i before after length, mark.1 = front.length + i ∧ (d :: ds)[i]? = some (some 0) ∧
                front ++ c :: cs = before ++ after ∧ before.length = mark.1 ∧
                keywordHere? before.getLast? after = some (mark.2, length) := by
            intro skip h
            have hlength : front.length + 1 = (front ++ [c]).length := by simp
            have hlast : some c = (front ++ [c]).getLast? := by simp
            rw [hlength, hlast] at h
            obtain ⟨i, before, after, length, hi, hd, heq, hbefore, hhere⟩ := ih _ h
            rw [← hlength] at hi
            exact ⟨i + 1, before, after, length, by omega, hd, by rw [List.append_cons, heq],
              hbefore, hhere⟩
          cases skip with
          | succ skip => exact hlater h
          | zero =>
              rw [marksFrom] at h
              cases hfound : keywordHere? front.getLast? (c :: cs) with
              | none =>
                  rw [hfound] at h
                  exact hlater h
              | some found =>
                  obtain ⟨kind, length⟩ := found
                  rw [hfound] at h
                  dsimp only at h
                  split_ifs at h with hd
                  · rcases List.mem_cons.mp h with rfl | h
                    · exact ⟨0, front, c :: cs, length, rfl, by rw [hd]; rfl, rfl, rfl, hfound⟩
                    · exact hlater h
                  · exact hlater h

/-- No phrase is empty, and none of its words is. -/
theorem ne_nil_phrases : ∀ entry ∈ phrases, ∀ phrase ∈ entry.2,
    phrase ≠ [] ∧ ∀ word ∈ phrase, word.toList ≠ [] := by
  decide +kernel

/-- A phrase ends in a letter. -/
theorem exists_of_afterPhrase?_last {phrase : List String} (hne : phrase ≠ [])
    (hphrase : ∀ word ∈ phrase, word.toList ≠ [] ∧ word.toList.all Char.isLower = true)
    {cs rest : List Char} (h : afterPhrase? phrase cs = some rest) :
    ∃ here, cs = here ++ rest ∧ here ≠ [] ∧ wordAt here.getLast? = true := by
  have hword : ∀ {word : String} {cs after : List Char}, word ∈ phrase →
      Text.foldedPrefix? word.toList cs = some after →
        ∃ here, cs = here ++ after ∧ Text.IsPlainWord here := by
    intro word cs after hmem h
    obtain ⟨hne, hlower⟩ := hphrase word hmem
    obtain ⟨here, rfl, hfold⟩ := Text.foldedPrefix?_eq_some_iff.mp h
    exact ⟨here, rfl, by rintro rfl; exact hne hfold.symm, isWord_of_map_fold hfold hlower⟩
  induction phrase generalizing cs with
  | nil => exact absurd rfl hne
  | cons word words ih =>
      cases words with
      | nil =>
          obtain ⟨here, rfl, hhere⟩ := hword List.mem_cons_self h
          refine ⟨here, rfl, hhere.ne_nil, ?_⟩
          rw [← Option.or_none (o := here.getLast?)]
          exact hhere.wordAt_getLast?
      | cons next words =>
          simp only [afterPhrase?] at h
          split at h
          · exact absurd h.symm (Option.some_ne_none rest)
          next after hafter =>
            split_ifs at h with hlength
            obtain ⟨front, rfl, -⟩ := hword List.mem_cons_self hafter
            obtain ⟨here, hhere, hne, hlast⟩ := ih (List.cons_ne_nil _ _)
              (fun w hw => hphrase w (List.mem_cons_of_mem _ hw)) h
              (fun hw => hword (List.mem_cons_of_mem _ hw))
            refine ⟨front ++ after.takeWhile isBlank ++ here, ?_, by simp [hne], ?_⟩
            · rw [List.append_assoc, ← hhere, List.append_assoc, List.takeWhile_append_dropWhile]
            · rw [List.getLast?_append_of_ne_nil _ hne]
              exact hlast

/-- A keyword is a phrase of its kind between characters that are no word characters. -/
theorem phrase_of_keywordHere? {before : Option Char} {cs : List Char} {kind : ClauseKind}
    {length : Nat} (h : keywordHere? before cs = some (kind, length)) :
    wordAt before = false ∧ ∃ entry ∈ phrases, entry.1 = kind ∧ ∃ phrase ∈ entry.2,
      ∃ rest, afterPhrase? phrase cs = some rest ∧ wordAt rest.head? = false := by
  obtain ⟨-, entry, hentry, hkind, phrase, hphrase, rest, hrest, rfl, hend⟩ :=
    exists_of_keywordHere? h
  refine ⟨(exists_lead_of_keywordHere? h).1, entry, hentry, hkind, phrase, hphrase, rest, hrest, ?_⟩
  obtain ⟨hne, hwords⟩ := ne_nil_phrases entry hentry phrase hphrase
  obtain ⟨here, rfl, hhere, hlast⟩ := exists_of_afterPhrase?_last hne (fun word hword =>
    ⟨hwords word hword, isLower_phrases entry hentry phrase hphrase word hword⟩) hrest
  have hpos := List.length_pos_iff.mpr hhere
  have hget : (here ++ rest)[(here ++ rest).length - rest.length - 1]? = here.getLast? := by
    rw [List.length_append, Nat.add_sub_cancel, List.getElem?_append_left (by omega),
      List.getLast?_eq_getElem?]
  rw [hget, Text.boundary, hlast] at hend
  simpa using hend

/-- The mark of a limit stands at one of its phrases. -/
theorem limitAt_of_mem_marks {stmt : List Char} {p : Nat} (h : (p, ClauseKind.limit) ∈ marks stmt) :
    LimitAt stmt p := by
  have hphrases : ∀ entry ∈ phrases, entry.1 = .limit → entry.2 = limitPhrases := by
    decide +kernel
  rw [marks, List.mem_append] at h
  rcases h with h | h
  · cases hcte : cteMark? stmt with
    | none => simp [hcte] at h
    | some pos => simp [hcte] at h
  · obtain ⟨i, before, after, length, hi, hdepth, heq, hlength, hhere⟩ :=
      keyword_of_mem_marksFrom [] h
    obtain rfl : p = i := by simpa using hi
    obtain ⟨hbefore, entry, hentry, hkind, phrase, hphrase, rest, hrest, hend⟩ :=
      phrase_of_keywordHere? hhere
    exact ⟨hdepth, before, after, rest, heq, hlength, hbefore,
      ⟨phrase, hphrases entry hentry hkind ▸ hphrase, hrest⟩, hend⟩

/-! ### A scan -/

/-- A piece with a plain list is one clause. -/
theorem pieceClauses_eq_whole (dialect : Dialect) (sql : List Char) (offset : Nat) {stmt : List Char}
    (hplain : PlainLists stmt) {p : Nat × ClauseKind × List Char} (hp : p ∈ cut stmt (marks stmt)) :
    pieceClauses dialect sql offset p = [wholeClause sql offset p] := by
  obtain ⟨-, hne, -⟩ := exists_lead_of_mem_cut hp
  have htext : clauseText p.2.2 ≠ [] := fun hnil => hne (by
    rw [← firstWord_clauseText hne, hnil]
    rfl)
  have hwhole : clausesOf dialect p.2.1 (clauseText p.2.2) (lineAt sql (offset + p.1)) (offset + p.1) =
      [wholeClause sql offset p] := by
    rw [clausesOf]
    split_ifs with hselect
    · have htop : topOf? (clauseText p.2.2) = none := by
        rw [← Option.not_isSome_iff_eq_none]
        intro htop
        obtain ⟨hword, hnumber⟩ := hplain p hp hselect.1
        rcases listWord_of_isSome_topOf? htop with h | h <;> rw [listWord_clauseText hne] at h
        · exact hword h
        · exact Bool.noConfusion (hnumber.symm.trans h)
      rw [htop]
      rfl
    · rfl
  rw [pieceClauses]
  exact (if_neg (by simpa using htext)).trans hwhole

/-- The clauses of a statement with plain lists. -/
theorem whole_scanStatement (dialect : Dialect) (sql : List Char) (offset : Nat) {stmt : List Char}
    (hplain : PlainLists stmt) : Whole sql offset stmt (scanStatement dialect sql offset stmt) := by
  have heq : scanStatement dialect sql offset stmt = ownClause sql offset (headPiece stmt) ++
      (cut stmt (marks stmt)).map (wholeClause sql offset) := by
    have hpieces : (cut stmt (marks stmt)).flatMap (pieceClauses dialect sql offset) =
        (cut stmt (marks stmt)).map (wholeClause sql offset) := by
      rw [List.map_eq_flatMap]
      exact List.flatMap_congr fun p hp => pieceClauses_eq_whole dialect sql offset hplain hp
    cases hmarks : marks stmt with
    | nil =>
        have hhead : headPiece stmt = stmt := by rw [headPiece, hmarks]
        rw [hhead, scanStatement, hmarks]
        simp [ownClause, cut, Text.allBlank]
    | cons mark rest =>
        have hhead : headPiece stmt = stmt.take mark.1 := by rw [headPiece, hmarks]
        rw [scanStatement_eq dialect sql offset hmarks, hpieces, ← hhead, hmarks]
        refine if_neg fun hempty => ?_
        have hcut : (cut stmt (mark :: rest)).map (fun p => (p.1, p.2.1)) = [] := by
          rw [List.map_eq_nil_iff.mp (List.append_eq_nil_iff.mp (List.isEmpty_iff.mp hempty)).2]
          rfl
        exact List.cons_ne_nil mark rest (map_cut stmt (mark :: rest) ▸ hcut)
  refine ⟨heq, fun c hc hkind => ?_⟩
  rw [heq, List.mem_append, List.mem_map] at hc
  rcases hc with hc | ⟨p, hp, rfl⟩
  · rw [ownClause] at hc
    split_ifs at hc
    · exact absurd hc List.not_mem_nil
    · rw [List.mem_singleton.mp hc] at hkind
      have hlimit : ClauseKind.statement = .limit := hkind
      exact absurd hlimit (by decide)
  · obtain ⟨pos, kind, piece⟩ := p
    obtain rfl : kind = .limit := hkind
    exact ⟨pos, rfl, limitAt_of_mem_marks (mem_of_mem_cut hp)⟩

/-- Where no select list starts with the word of a limit, or with this word and a digit, the clauses of
a statement are its pieces, each whole, and each limit is that of a keyword of its own at depth zero. -/
theorem whole_scan (dialect : Dialect) (text : List Char) :
    List.Forall₂ (fun p clauses => PlainLists p.2 → Whole (blankComments text) p.1 p.2 clauses)
      (statements (blankComments text)) (scan dialect text) := by
  rw [scan, List.forall₂_map_right_iff]
  exact List.forall₂_same.mpr fun p _ => whole_scanStatement dialect (blankComments text) p.1

/-- A query whose first columns merely start like a limit, with a limit of its own. -/
def topicsQuery : List Char := "SELECT DISTINCT topics, top5 FROM t LIMIT 3".toList

/-- The clauses of this query. -/
def topicsClauses : List Clause :=
  [⟨.select, "SELECT DISTINCT topics, top5", 1, 0⟩, ⟨.source, "FROM t", 1, 29⟩,
    ⟨.limit, "LIMIT 3", 1, 36⟩]

/-- A query with a select list that starts with a longer word. -/
theorem whole_scan_topicsQuery : PlainLists topicsQuery ∧
    scan .mysql topicsQuery = [topicsClauses] ∧ Whole topicsQuery 0 topicsQuery topicsClauses := by
  have hplain : PlainLists topicsQuery := by decide +kernel
  have hscan : scan .mysql topicsQuery = [topicsClauses] := by decide +kernel
  have hsql : blankComments topicsQuery = topicsQuery := by decide +kernel
  have hstatements : statements topicsQuery = [(0, topicsQuery)] := by decide +kernel
  have hwhole := whole_scan .mysql topicsQuery
  rw [hscan, hsql, hstatements] at hwhole
  obtain ⟨hwhole, -⟩ := List.forall₂_cons.mp hwhole
  exact ⟨hplain, hscan, hwhole hplain⟩

/-- A column whose name goes on from the word of a limit with a digit is cut out of its select. -/
theorem scan_topTen :
    (listWord "SELECT top10 ".toList).map fold ≠ "top".toList ∧
      scan .mysql "SELECT top10 FROM t".toList =
        [[⟨.select, "SELECT", 1, 0⟩, ⟨.limit, "top10", 1, 0⟩, ⟨.source, "FROM t", 1, 13⟩]] := by
  decide +kernel

end Flowchart.Query
