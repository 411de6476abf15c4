import Flowchart.Proofs.Query.Keywords

/-!
# Clauses in their places

A clause that starts with a keyword stands at this keyword: the first word of its text is a run of
letters, and it stands in the query text where the clause does. A limit that was cut out of a select
stands where the select does (`IsTopOf`). A clause that is no keyword's stands at the first character
of its statement that is no blank. All of them are in order, one after another in a statement and from
statement to statement (`inPlace_scan`).

Places are counted in the text without its comments, within a statement. Since comments are written
as spaces, no letter of a clause moves (`Blanked.isPrefix_drop`), and since statements follow one another
(`pairwise_statements`), the order within each of them is all that is left to show: that of the
marks (`strict_marks`).

## One piece after another

A statement is cut at its marks, and each piece gives one clause or two. The clauses of a piece stand at
its keyword, or at the limit that was cut out of its text (`AtKeyword`), and the pieces are in order. So
the order of all clauses is shown piece by piece (`InPlace.append`). The first clause is the only one
that may stand before a keyword: a statement that starts with no keyword has a clause for what comes
first.

## Main results

* `strict_marks` (of the module on keywords) gives the order of the marks.
* `pairwise_statements`: statements follow one another.
* `inPlace_scanStatement`: the clauses of a statement are in place.
* `inPlace_scan`: so are those of all statements of a query text.
-/

namespace Flowchart.Text

/-! ### The first character -/

/-- What stands after the blanks at the start is the first character that is no blank. -/
theorem getElem?_length_takeWhile (cs : List Char) :
    cs[(cs.takeWhile isBlank).length]? = cs.find? (!isBlank ·) := by
  induction cs with
  | nil => rfl
  | cons c cs ih =>
      cases hc : isBlank c with
      | true => simpa [List.takeWhile_cons, hc] using ih
      | false => simp [hc]

/-- A first character that is not to be dropped stays. -/
theorem head?_dropEndWhile {p : Char → Bool} {c : Char} (h : p c = false) (cs : List Char) :
    (dropEndWhile p (c :: cs)).head? = some c := by
  obtain ⟨dropped, hcs, hdropped⟩ := exists_eq_dropEndWhile_append p (c :: cs)
  cases hkept : dropEndWhile p (c :: cs) with
  | nil =>
      rw [hkept, List.nil_append] at hcs
      exact absurd (h.symm.trans (hdropped c (hcs ▸ List.mem_cons_self))) Bool.noConfusion
  | cons d kept =>
      rw [hkept, List.cons_append] at hcs
      rw [(List.cons.inj hcs).1]
      rfl

/-- A normal text starts with the first character that is no blank. -/
theorem head?_normalize (cs : List Char) : (normalize cs).head? = cs.find? (!isBlank ·) := by
  have hspace : isBlank ' ' = true := by decide
  have hstart : ∀ inRun, (trim (squeezeFrom inRun cs)).head? = cs.find? (!isBlank ·) := by
    induction cs with
    | nil => exact fun _ => rfl
    | cons c cs ih =>
        intro inRun
        cases hc : isBlank c with
        | true =>
            rw [List.find?_cons_of_neg (by simp [hc]), ← ih true, squeezeFrom, if_pos hc]
            cases inRun with
            | true => rfl
            | false =>
                have hblank : allBlank [' '] = true := rfl
                exact congrArg List.head? (trim_allBlank_append hblank _)
        | false =>
            have hsqueeze : squeezeFrom inRun (c :: cs) = c :: squeezeFrom false cs := by
              rw [squeezeFrom, if_neg (by simp [hc])]
            have htrim : trimStart (c :: squeezeFrom false cs) = c :: squeezeFrom false cs :=
              List.dropWhile_cons_of_neg (by simp [hc])
            rw [List.find?_cons_of_pos (by simp [hc]), hsqueeze, trim, htrim]
            exact head?_dropEndWhile hc _
  exact hstart false

end Flowchart.Text

namespace Flowchart.Query

open Text (ink fold isBlank isWord firstWord)

/-! ### Comments -/

/-- A word that is no blank stands where it stood. -/
theorem Blanked.isPrefix_drop {ds cs word : List Char} (h : Blanked ds cs)
    (hword : ∀ a ∈ word, isBlank a = false) {p : Nat} (hstarts : word <+: ds.drop p) :
    word <+: cs.drop p := by
  rw [List.prefix_iff_getElem?] at hstarts ⊢
  intro i hi
  rw [List.getElem?_drop]
  exact h.getElem?_eq (List.getElem?_drop ▸ hstarts i hi) (hword _ (List.getElem_mem hi))

/-- What stands at a place of a piece stands in the text. -/
theorem IsPiece.isPrefix_drop {cs piece word : List Char} {offset p : Nat}
    (h : IsPiece cs offset piece) (hstarts : word <+: piece.drop p) :
    word <+: cs.drop (offset + p) := by
  rw [List.prefix_iff_getElem?] at hstarts ⊢
  intro i hi
  rw [List.getElem?_drop, Nat.add_assoc]
  exact h _ _ (List.getElem?_drop ▸ hstarts i hi)

/-! ### Statements -/

/-- Pieces follow one another, with a character between them at least. -/
theorem pairwise_piecesFrom (start : Nat) (piece : List Char) (rest : List (Char × Option Nat)) :
    (∀ p ∈ piecesFrom start piece rest, start ≤ p.1) ∧
      (piecesFrom start piece rest).Pairwise fun p q => p.1 + p.2.length < q.1 := by
  fun_induction piecesFrom start piece rest with
  | case1 start piece => simp
  | case2 start piece c depth rest hcut ih =>
      obtain ⟨hstart, hpairwise⟩ := ih
      refine ⟨List.forall_mem_cons.mpr ⟨Nat.le_refl _, fun p hp => ?_⟩,
        .cons (fun p hp => ?_) hpairwise⟩
      · exact Nat.le_trans (by omega) (hstart p hp)
      · rw [List.length_reverse]
        exact hstart p hp
  | case3 start piece c depth rest hcut ih => exact ih

/-- A statement ends before the next one starts. -/
theorem pairwise_statements (cs : List Char) :
    (statements cs).Pairwise fun p q => p.1 + p.2.length < q.1 :=
  (pairwise_piecesFrom _ _ _).2.filter _

/-! ### Pieces of a statement -/

/-- A statement is cut at its marks. -/
theorem map_cut (stmt : List Char) (marks : List (Nat × ClauseKind)) :
    (cut stmt marks).map (fun p => (p.1, p.2.1)) = marks := by
  fun_induction cut stmt marks <;> simp_all

/-- A piece starts with the word that its mark stands at. -/
theorem firstWord_of_mem_cut {stmt piece word : List Char} {marks : List (Nat × ClauseKind)}
    {pos : Nat} {kind : ClauseKind} (hmarks : marks.Pairwise (·.1 < ·.1))
    (hstarts : ∀ m ∈ marks, ∃ word, WordStarts stmt m.1 word)
    (hword : WordStarts stmt pos word) (h : (pos, kind, piece) ∈ cut stmt marks) :
    firstWord piece = word := by
  fun_induction cut stmt marks with
  | case1 => exact absurd h List.not_mem_nil
  | case2 pos' kind' =>
      obtain ⟨rfl, -, rfl⟩ : pos = pos' ∧ kind = kind' ∧ piece = stmt.drop pos' := by simpa using h
      exact hword.firstWord_drop
  | case3 pos' kind' next kind'' marks ih =>
      rcases List.mem_cons.mp h with heq | h
      · obtain ⟨rfl, -, rfl⟩ : pos = pos' ∧ kind = kind' ∧ piece = (stmt.take next).drop pos' := by
          simpa using heq
        obtain ⟨word', hnext⟩ := hstarts (next, kind'') (by simp)
        have hlt : pos < next := List.rel_of_pairwise_cons hmarks List.mem_cons_self
        have hend := hword.length_lt hnext hlt
        rw [List.drop_take, Text.firstWord_take, hword.firstWord_drop]
        rw [hword.firstWord_drop]
        omega
      · exact ih hmarks.tail (fun m hm => hstarts m (List.mem_cons_of_mem _ hm)) h

/-! ### Clauses of a piece -/

/-- A limit that was cut out of a select: it stands where the select does. -/
structure IsTopOf (dialect : Dialect) (limit select : Clause) : Prop where
  dialect_ne : dialect ≠ .spark
  select_kind : select.kind = .select
  limit_kind : limit.kind = .limit
  limit_text : Composed limitParts (ink limit.text.toList)
  line_eq : limit.line = select.line
  pos_eq : limit.pos = select.pos

/-- The limit of a select is cut out behind the select's first word. -/
theorem length_firstWord_lt_of_topOf? {text : List Char} {start length : Nat}
    (h : topOf? text = some (start, length)) : (firstWord text).length < start := by
  obtain ⟨rest, list, after, hselect, hblank, hlist, -, rfl, -⟩ := exists_of_topOf? h
  obtain ⟨here, rfl, hfold⟩ := Text.foldedPrefix?_eq_some_iff.mp hselect
  have hfirst : firstWord (here ++ rest) = here :=
    Text.firstWord_append (isWord_of_map_fold hfold (by decide)) (wordAt_head?_of_length_lt hblank)
  have hle : list.length ≤ (rest.dropWhile isBlank).length := by
    rcases hlist with rfl | ⟨rest', hdistinct, rfl⟩
    · exact Nat.le_refl _
    · obtain ⟨distinct, hdrop, -⟩ := Text.foldedPrefix?_eq_some_iff.mp hdistinct
      have hinner : (rest'.dropWhile isBlank).length ≤ rest'.length :=
        (List.dropWhile_sublist isBlank).length_le
      rw [hdrop, List.length_append]
      exact Nat.le_trans hinner (Nat.le_add_left _ _)
  rw [hfirst, List.length_append]
  omega

section Pieces

variable (dialect : Dialect) (sql : List Char) (offset : Nat)

/-- The clauses of a piece of a statement. -/
def pieceClauses (p : Nat × ClauseKind × List Char) : List Clause :=
  let text := clauseText p.2.2
  if text.isEmpty then []
  else clausesOf dialect p.2.1 text (lineAt sql (offset + p.1)) (offset + p.1)

/-- The clauses of a statement that is cut at marks. -/
theorem scanStatement_eq {stmt : List Char} {mark : Nat × ClauseKind}
    {rest : List (Nat × ClauseKind)} (h : marks stmt = mark :: rest) :
    let clauses := ownClause sql offset (stmt.take mark.1) ++
      (cut stmt (marks stmt)).flatMap (pieceClauses dialect sql offset)
    scanStatement dialect sql offset stmt =
      if clauses.isEmpty then ownClause sql offset stmt else clauses := by
  simp only [scanStatement, h]
  rfl

/-- A piece that starts with a word gives one clause with this word at its start, and perhaps a limit
that was cut out of it. -/
theorem exists_pieceClauses {p : Nat × ClauseKind × List Char} (h : firstWord p.2.2 ≠ []) :
    ∃ c tops, pieceClauses dialect sql offset p = c :: tops ∧ c.kind = p.2.1 ∧
      c.pos = offset + p.1 ∧ firstWord c.text.toList = firstWord p.2.2 ∧
      (tops = [] ∨ ∃ limit, tops = [limit] ∧ IsTopOf dialect limit c) := by
  obtain ⟨pos, kind, piece⟩ := p
  set text := clauseText piece with htext
  have hword : firstWord text = firstWord piece := firstWord_clauseText h
  have hne : text ≠ [] := fun hnil => h (by rw [← hword, hnil]; rfl)
  have hclauses : pieceClauses dialect sql offset (pos, kind, piece) =
      clausesOf dialect kind text (lineAt sql (offset + pos)) (offset + pos) :=
    if_neg (by simpa using hne)
  rw [hclauses]
  have hwhole : ∃ c tops, [(⟨kind, String.ofList text, lineAt sql (offset + pos), offset + pos⟩ :
      Clause)] = c :: tops ∧ c.kind = kind ∧ c.pos = offset + pos ∧
      firstWord c.text.toList = firstWord piece ∧
      (tops = [] ∨ ∃ limit, tops = [limit] ∧ IsTopOf dialect limit c) :=
    ⟨_, [], rfl, rfl, rfl, by rw [String.toList_ofList, hword], Or.inl rfl⟩
  simp only [clausesOf]
  split_ifs with hselect
  · obtain ⟨rfl, hdialect⟩ := hselect
    split
    · exact hwhole
    next start length htop =>
      have hstart := length_firstWord_lt_of_topOf? htop
      obtain ⟨before, limit, after, ⟨heq, -, hlimit⟩, rfl, rfl⟩ := exists_cut_of_topOf? htop
      have hle : before.length ≤ text.length := by simp [heq]
      have hrest : firstWord (halveSpaces (text.take before.length ++
          text.drop (before.length + limit.length))) = firstWord piece := by
        rw [firstWord_halveSpaces, Text.firstWord_take_append hstart hle, hword]
      have hcut : (text.drop before.length).take limit.length = limit := by simp [heq]
      refine ⟨_, _, rfl, rfl, rfl, ?_, Or.inr ⟨_, rfl, hdialect, rfl, rfl, ?_, rfl, rfl⟩⟩
      · rw [String.toList_ofList, Text.firstWord_trim (by rwa [hrest]), hrest]
      · rw [String.toList_ofList, Text.ink_trim, hcut]
        exact hlimit
  · exact hwhole

end Pieces

/-! ### A statement -/

/-- The first word of a clause's text is a run of letters that stands where the clause does. -/
def HasWord (text : List Char) (c : Clause) : Prop :=
  firstWord c.text.toList ≠ [] ∧ (∀ a ∈ firstWord c.text.toList, (fold a).isLower = true) ∧
    firstWord c.text.toList <+: text.drop c.pos

/-- A clause stands at the first character of the statement `stmt` at `offset` that is no blank, and its
text starts with it. -/
def StandsFirst (text : List Char) (offset : Nat) (stmt : List Char) (c : Clause) : Prop :=
  c.pos = offset + (stmt.takeWhile isBlank).length ∧
    ∃ a, isBlank a = false ∧ text[c.pos]? = some a ∧ c.text.toList.head? = some a

/-- The clauses of the statement `stmt` at `offset` in `text` stand at their words, in order. -/
structure InPlace (dialect : Dialect) (text : List Char) (offset : Nat) (stmt : List Char)
    (clauses : List Clause) : Prop where
  within : ∀ c ∈ clauses, offset ≤ c.pos ∧ c.pos < offset + stmt.length
  first : ∀ c ∈ clauses, c.kind = .statement → StandsFirst text offset stmt c
  word : ∀ c ∈ clauses, c.kind ≠ .statement →
    HasWord text c ∨ ∃ select ∈ clauses, IsTopOf dialect c select ∧ HasWord text select
  inOrder : clauses.Pairwise fun c d => c.pos < d.pos ∨ IsTopOf dialect d c

section Statement

variable {dialect : Dialect} {sql stmt : List Char} {offset : Nat}

/-- Clauses in place are so together if all of the first ones come before the others. -/
theorem InPlace.append {clauses later : List Clause} (h : InPlace dialect sql offset stmt clauses)
    (h' : InPlace dialect sql offset stmt later) (hlt : ∀ c ∈ clauses, ∀ d ∈ later, c.pos < d.pos) :
    InPlace dialect sql offset stmt (clauses ++ later) where
  within := List.forall_mem_append.mpr ⟨h.within, h'.within⟩
  first := List.forall_mem_append.mpr ⟨h.first, h'.first⟩
  word := by
    refine List.forall_mem_append.mpr ⟨fun c hc hkind => ?_, fun c hc hkind => ?_⟩
    · refine (h.word c hc hkind).imp id ?_
      rintro ⟨select, hselect, htop⟩
      exact ⟨select, List.mem_append_left _ hselect, htop⟩
    · refine (h'.word c hc hkind).imp id ?_
      rintro ⟨select, hselect, htop⟩
      exact ⟨select, List.mem_append_right _ hselect, htop⟩
  inOrder := List.pairwise_append.mpr
    ⟨h.inOrder, h'.inOrder, fun c hc d hd => Or.inl (hlt c hc d hd)⟩

/-- A clause that is a piece at the start of the statement stands at its first character. -/
theorem standsFirst_of_mem_ownClause (hstmt : IsPiece sql offset stmt) {piece : List Char}
    (hpiece : piece <+: stmt) {c : Clause} (hc : c ∈ ownClause sql offset piece) :
    c.kind = .statement ∧ c.pos < offset + piece.length ∧ StandsFirst sql offset stmt c := by
  rw [ownClause] at hc
  split_ifs at hc with hblank
  · exact absurd hc List.not_mem_nil
  · obtain rfl := List.mem_singleton.mp hc
    obtain ⟨a, ha, hink⟩ := inked_takeWhile hblank
    obtain ⟨hlt, -⟩ := List.getElem?_eq_some_iff.mp ha
    obtain ⟨rest, rfl⟩ := hpiece
    have hblanks : ((piece ++ rest).takeWhile isBlank).length = (piece.takeWhile isBlank).length := by
      rw [List.takeWhile_append, if_neg hlt.ne]
    refine ⟨rfl, Nat.add_lt_add_left hlt offset, by rw [hblanks], a, hink, ?_, ?_⟩
    · exact hstmt _ a (by rw [List.getElem?_append_left hlt, ha])
    · rw [String.toList_ofList, Text.head?_normalize, ← Text.getElem?_length_takeWhile, ha]

/-- A clause that is no keyword's is in place. -/
theorem inPlace_ownClause (dialect : Dialect) (hstmt : IsPiece sql offset stmt)
    {piece : List Char} (hpiece : piece <+: stmt) :
    InPlace dialect sql offset stmt (ownClause sql offset piece) where
  within c hc := by
    obtain ⟨-, hlt, hpos, -⟩ := standsFirst_of_mem_ownClause hstmt hpiece hc
    exact ⟨hpos ▸ Nat.le_add_right _ _,
      Nat.lt_of_lt_of_le hlt (Nat.add_le_add_left hpiece.length_le _)⟩
  first c hc _ := (standsFirst_of_mem_ownClause hstmt hpiece hc).2.2
  word c hc hkind := absurd (standsFirst_of_mem_ownClause hstmt hpiece hc).1 hkind
  inOrder := by
    rw [ownClause]
    split_ifs
    · exact .nil
    · exact List.pairwise_singleton _ _

/-- The clauses of a keyword at `pos`: one, and perhaps a limit that was cut out of it. -/
inductive AtKeyword (dialect : Dialect) (text : List Char) (pos : Nat) : List Clause → Prop
  | plain {c : Clause} : c.pos = pos → c.kind ≠ .statement → HasWord text c →
      AtKeyword dialect text pos [c]
  | limited {c limit : Clause} : c.pos = pos → c.kind ≠ .statement → HasWord text c →
      IsTopOf dialect limit c → AtKeyword dialect text pos [c, limit]

namespace AtKeyword

variable {text : List Char} {pos : Nat} {clauses : List Clause}

/-- All clauses of a keyword stand at it. -/
theorem pos_eq (h : AtKeyword dialect text pos clauses) {c : Clause} (hc : c ∈ clauses) :
    c.pos = pos ∧ c.kind ≠ .statement := by
  cases h with
  | plain hpos hkind =>
      rw [List.mem_singleton.mp hc]
      exact ⟨hpos, hkind⟩
  | limited hpos hkind _ htop =>
      rcases List.mem_pair.mp hc with rfl | rfl
      · exact ⟨hpos, hkind⟩
      · exact ⟨htop.pos_eq.trans hpos, htop.limit_kind ▸ nofun⟩

/-- A clause of a keyword starts with its word, or is a limit that was cut out of one that does. -/
theorem word (h : AtKeyword dialect text pos clauses) {c : Clause} (hc : c ∈ clauses) :
    HasWord text c ∨ ∃ select ∈ clauses, IsTopOf dialect c select ∧ HasWord text select := by
  cases h with
  | plain _ _ hword =>
      rw [List.mem_singleton.mp hc]
      exact Or.inl hword
  | limited _ _ hword htop =>
      rcases List.mem_pair.mp hc with rfl | rfl
      · exact Or.inl hword
      · exact Or.inr ⟨_, List.mem_cons_self, htop, hword⟩

/-- The clauses of a keyword are in order, a limit after the select it was cut out of. -/
theorem inOrder (h : AtKeyword dialect text pos clauses) :
    clauses.Pairwise fun c d => c.pos < d.pos ∨ IsTopOf dialect d c := by
  cases h with
  | plain => exact List.pairwise_singleton _ _
  | limited _ _ _ htop => exact List.pairwise_pair.mpr (Or.inr htop)

end AtKeyword

/-- A piece of a statement starts with the word that its mark stands at. -/
theorem exists_lead_of_mem_cut {p : Nat × ClauseKind × List Char} (hp : p ∈ cut stmt (marks stmt)) :
    (∃ w ∈ "with" :: leads, (firstWord p.2.2).map fold = w.toList) ∧ firstWord p.2.2 ≠ [] ∧
      WordStarts stmt p.1 (firstWord p.2.2) := by
  obtain ⟨pos, kind, piece⟩ := p
  have hstarts : ∀ m ∈ marks stmt, ∃ word, WordStarts stmt m.1 word := fun m hm => by
    obtain ⟨-, _, -, word, -, hword⟩ := wordStarts_of_mem_marks hm
    exact ⟨word, hword⟩
  obtain ⟨-, w, hw, word, hfold, hword⟩ := wordStarts_of_mem_marks (mem_of_mem_cut hp)
  rw [firstWord_of_mem_cut (strict_marks stmt) hstarts hword hp]
  refine ⟨⟨w, hw, hfold⟩, ?_, hword⟩
  rintro rfl
  exact (isLower_leads w hw).1 hfold.symm

/-- A piece of a statement gives the clauses of the keyword at its mark. -/
theorem atKeyword_pieceClauses (dialect : Dialect) (hstmt : IsPiece sql offset stmt)
    {p : Nat × ClauseKind × List Char} (hp : p ∈ cut stmt (marks stmt)) :
    AtKeyword dialect sql (offset + p.1) (pieceClauses dialect sql offset p) ∧
      p.1 < stmt.length := by
  obtain ⟨⟨w, hw, hfold⟩, hne, hword⟩ := exists_lead_of_mem_cut hp
  have hmark : (p.1, p.2.1) ∈ marks stmt := mem_of_mem_cut hp
  have hletters : ∀ a ∈ firstWord p.2.2, (fold a).isLower = true := fun a ha =>
    List.all_eq_true.mp (isLower_leads w hw).2 _ (hfold ▸ List.mem_map_of_mem ha)
  obtain ⟨c, tops, hclauses, hckind, hcpos, hcword, htops⟩ :=
    exists_pieceClauses dialect sql offset hne
  have hhas : HasWord sql c := by
    rw [HasWord, hcword, hcpos]
    refine ⟨hne, hletters, hstmt.isPrefix_drop ?_⟩
    rw [← hword.firstWord_drop]
    exact List.takeWhile_prefix _
  have hckind : c.kind ≠ .statement := hckind ▸ (wordStarts_of_mem_marks hmark).1
  obtain ⟨a, ha, -⟩ := lettered_of_mem_marks hmark
  refine ⟨?_, (List.getElem?_eq_some_iff.mp ha).1⟩
  rw [hclauses]
  rcases htops with rfl | ⟨limit, rfl, htop⟩
  · exact .plain hcpos hckind hhas
  · exact .limited hcpos hckind hhas htop

/-- The pieces of a statement give clauses in their places. -/
theorem inPlace_pieces (dialect : Dialect) (hstmt : IsPiece sql offset stmt) :
    InPlace dialect sql offset stmt
      ((cut stmt (marks stmt)).flatMap (pieceClauses dialect sql offset)) := by
  have hpieces : ∀ {p}, p ∈ cut stmt (marks stmt) → _ := atKeyword_pieceClauses dialect hstmt
  have hcut : (cut stmt (marks stmt)).Pairwise (·.1 < ·.1) := by
    have hstrict := strict_marks stmt
    rw [← map_cut stmt (marks stmt), List.pairwise_map] at hstrict
    exact hstrict
  refine ⟨fun c hc => ?_, fun c hc hkind => ?_, fun c hc _ => ?_, ?_⟩
  · obtain ⟨p, hp, hc⟩ := List.mem_flatMap.mp hc
    obtain ⟨hat, hlt⟩ := hpieces hp
    rw [(hat.pos_eq hc).1]
    exact ⟨Nat.le_add_right _ _, Nat.add_lt_add_left hlt offset⟩
  · obtain ⟨p, hp, hc⟩ := List.mem_flatMap.mp hc
    exact absurd hkind ((hpieces hp).1.pos_eq hc).2
  · obtain ⟨p, hp, hc⟩ := List.mem_flatMap.mp hc
    refine ((hpieces hp).1.word hc).imp id ?_
    rintro ⟨select, hselect, h⟩
    exact ⟨select, List.mem_flatMap.mpr ⟨p, hp, hselect⟩, h⟩
  · refine List.pairwise_flatMap.mpr ⟨fun p hp => (hpieces hp).1.inOrder, ?_⟩
    refine hcut.imp_of_mem fun hp hq hlt c hc d hd => Or.inl ?_
    rw [((hpieces hp).1.pos_eq hc).1, ((hpieces hq).1.pos_eq hd).1]
    exact Nat.add_lt_add_left hlt offset

/-- The clauses of a statement stand in their places. -/
theorem inPlace_scanStatement (dialect : Dialect) (hstmt : IsPiece sql offset stmt) :
    InPlace dialect sql offset stmt (scanStatement dialect sql offset stmt) := by
  have hown := inPlace_ownClause dialect hstmt (List.prefix_refl stmt)
  cases hmarks : marks stmt with
  | nil =>
      simp only [scanStatement, hmarks]
      exact hown
  | cons mark rest =>
      have htake := List.take_prefix mark.1 stmt
      have hhead := inPlace_ownClause dialect hstmt htake
      rw [scanStatement_eq dialect sql offset hmarks]
      split_ifs
      · exact hown
      · refine hhead.append (inPlace_pieces dialect hstmt) fun c hc d hd => ?_
        have hc : c.pos < offset + (stmt.take mark.1).length :=
          (standsFirst_of_mem_ownClause hstmt htake hc).2.1
        have htaken := List.length_take_le mark.1 stmt
        obtain ⟨⟨pos, kind, piece⟩, hp, hd⟩ := List.mem_flatMap.mp hd
        have hd : d.pos = offset + pos := ((atKeyword_pieceClauses dialect hstmt hp).1.pos_eq hd).1
        have hle : mark.1 ≤ pos := by
          rcases List.mem_cons.mp (hmarks ▸ mem_of_mem_cut hp) with rfl | hmem
          · exact Nat.le_refl _
          · exact (List.rel_of_pairwise_cons (hmarks ▸ strict_marks stmt) hmem).le
        omega

end Statement

/-! ### A scan -/

/-- A word of letters holds no blank. -/
theorem HasWord.of_blanked {ds cs : List Char} (h : Blanked ds cs) {c : Clause}
    (hword : HasWord ds c) : HasWord cs c :=
  ⟨hword.1, hword.2.1, h.isPrefix_drop (fun a ha => isBlank_of_isLower_fold (hword.2.1 a ha))
    hword.2.2⟩

/-- What is in place in a text with characters written as spaces was in place before. -/
theorem InPlace.of_blanked {dialect : Dialect} {ds cs : List Char} (h : Blanked ds cs)
    {offset : Nat} {stmt : List Char} {clauses : List Clause}
    (hplace : InPlace dialect ds offset stmt clauses) :
    InPlace dialect cs offset stmt clauses where
  within := hplace.within
  first c hc hkind := by
    obtain ⟨hpos, a, ha, hget, hhead⟩ := hplace.first c hc hkind
    exact ⟨hpos, a, ha, h.getElem?_eq hget ha, hhead⟩
  word c hc hkind := by
    refine (hplace.word c hc hkind).imp (·.of_blanked h) ?_
    rintro ⟨select, hselect, htop, hword⟩
    exact ⟨select, hselect, htop, hword.of_blanked h⟩
  inOrder := hplace.inOrder

/-- The clauses of a scan stand in their places in the query text: each at an offset into the text, on
the line of this offset, at its first word, or at the first character of its statement if it is not
that of a keyword. Their places increase along each statement, except that a limit that was cut out of
a select has the place of the select, and from statement to statement. -/
theorem inPlace_scan (dialect : Dialect) (text : List Char) :
    List.Forall₂ (fun p clauses => InPlace dialect text p.1 p.2 clauses)
      (statements (blankComments text)) (scan dialect text) ∧
    (∀ clauses ∈ scan dialect text, ∀ c ∈ clauses,
      c.pos < text.length ∧ c.line = lineAt text c.pos) ∧
    (scan dialect text).Pairwise fun earlier later =>
      ∀ c ∈ earlier, ∀ d ∈ later, c.pos < d.pos := by
  have hplace : ∀ p ∈ statements (blankComments text), InPlace dialect (blankComments text) p.1 p.2
      (scanStatement dialect (blankComments text) p.1 p.2) := fun p hp =>
    inPlace_scanStatement dialect (isPiece_of_mem_statements hp)
  refine ⟨?_, fun clauses hclauses c hc => ?_, ?_⟩
  · rw [scan, List.forall₂_map_right_iff]
    exact List.forall₂_same.mpr fun p hp => (hplace p hp).of_blanked (blanked_blankComments text)
  · obtain ⟨hline, a, ha, -⟩ := stands_scan dialect text clauses hclauses c hc
    exact ⟨(List.getElem?_eq_some_iff.mp ha).1, hline⟩
  · rw [scan, List.pairwise_map]
    refine (pairwise_statements _).imp_of_mem fun {p q} hp hq hlt c hc d hd => ?_
    have hcpos := ((hplace p hp).within c hc).2
    have hdpos := ((hplace q hq).within d hd).1
    omega

end Flowchart.Query
