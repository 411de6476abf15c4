import Flowchart.Proofs.Label

/-!
# What a label shows

A label is the escaped form of what it shows: the text with its blanks collapsed, cut to the limit.
Cutting comes first, so the limit counts characters that are shown and not those they are escaped
to.

* Neither mode leaves a character that it protects, a control character or the end of a line, and
  neither puts a blank at an end of a label.
* A lenient label is read back by `Label.unescape`, which knows the three entities and the doubled
  backslash. Only the double quote is lost: it is shown as an apostrophe.
* A strict label has one character for each that is shown, and `Label.original` takes the
  lookalikes back to what they stand for.

`Label.sanitize_reads_back` collects these facts for all texts, modes and limits.
-/

namespace Flowchart

namespace Text

/-- No blank stands at either end. -/
def IsTrimmed (cs : List Char) : Prop :=
  (∀ c ∈ cs.head?, isBlank c = false) ∧ ∀ c ∈ cs.getLast?, isBlank c = false

/-- A trimmed text is trimmed. -/
theorem isTrimmed_trim (cs : List Char) : IsTrimmed (trim cs) := by
  constructor
  · intro c hc
    cases hstart : trimStart cs with
    | nil =>
        rw [trim, hstart] at hc
        exact absurd hc (by simp [trimEnd, dropEndWhile])
    | cons d r =>
        have hd : isBlank d = false := by
          have hhead := List.head?_dropWhile_not isBlank cs
          rw [show cs.dropWhile isBlank = d :: r from hstart] at hhead
          simpa using hhead
        obtain ⟨r', hr'⟩ := exists_trimEnd_cons hd r
        rw [trim, hstart, hr'] at hc
        obtain rfl : d = c := by simpa using hc
        exact hd
  · intro c hc
    have hne : trim cs ≠ [] := by
      rintro hnil
      rw [hnil] at hc
      exact absurd hc (by simp)
    have hlast : ¬ isBlank ((trim cs).getLast hne) = true := List.rdropWhile_last_not isBlank _ hne
    rw [List.getLast?_eq_some_getLast hne] at hc
    rw [← Option.some.inj hc]
    exact Bool.eq_false_iff.mpr hlast

end Text

namespace Label

/-! ### What is shown -/

/-- The control characters of ASCII. -/
def isAsciiControl (c : Char) : Bool := c.toNat < 0x20 || c.toNat == 0x7F

/-- No control character is left after collapsing. -/
theorem isAsciiControl_of_mem_collapse {c : Char} {cs : List Char} (h : c ∈ collapse cs) :
    isAsciiControl c = false := by
  rcases Text.mem_normalize h with rfl | ⟨hmem, hblank⟩
  · decide
  · have hcontrol : isControl c = false := by
      simpa using (List.mem_filter.mp hmem).2
    rw [Bool.eq_false_iff] at hblank hcontrol ⊢
    simp only [isAsciiControl, isControl, Text.isBlank, Bool.or_eq_true, Bool.and_eq_true,
      decide_eq_true_eq, beq_iff_eq, ne_eq, not_or] at *
    omega

/-- What is shown has neither control characters nor ends of lines. -/
theorem plain_of_mem_shown {c : Char} {limit : Int} {cs : List Char}
    (h : c ∈ truncate limit ellipsis (collapse cs)) :
    isAsciiControl c = false ∧ Text.isLineEnd c = false := by
  rcases mem_truncate h with h | h
  · exact ⟨isAsciiControl_of_mem_collapse h, isLineEnd_of_mem_collapse h⟩
  · have hdots : ellipsis.all (fun c => c == '.') = true := by decide
    rw [beq_iff_eq.mp (List.all_eq_true.mp hdots c h)]
    decide

/-- Cutting leaves no blank at an end: those before the cut go, and the dots are none. -/
theorem isTrimmed_truncate (limit : Int) {cs : List Char} (h : Text.IsTrimmed cs) :
    Text.IsTrimmed (truncate limit ellipsis cs) := by
  by_cases hfits : limit ≤ 0 ∨ (cs.length : Int) ≤ limit
  · rw [truncate, if_pos hfits]
    exact h
  · cases cs with
    | nil => exact absurd (Or.inr (by simp; omega)) hfits
    | cons c cs =>
        have hc : Text.isBlank c = false := h.1 c rfl
        constructor
        · obtain ⟨r, hr⟩ := exists_truncate_cons hc limit ellipsis cs
          rw [hr]
          rintro d hd
          obtain rfl : c = d := by simpa using hd
          exact hc
        · rw [truncate, if_neg hfits, ellipsis]
          intro d hd
          obtain rfl : '.' = d := by simpa using hd
          decide

/-- What is shown exceeds the limit by the dots at most. -/
theorem length_truncate_le {limit : Int} (h : 0 < limit) (cs : List Char) :
    ((truncate limit ellipsis cs).length : Int) ≤ limit + 3 := by
  rw [truncate]
  split_ifs with hfits
  · omega
  · have hcut : (Text.trimEnd (cs.take limit.toNat)).length ≤ limit.toNat :=
      Nat.le_trans (List.rdropWhile_prefix Text.isBlank _).length_le (List.length_take_le _ _)
    rw [List.length_append, show ellipsis.length = 3 from rfl]
    omega

/-! ### Characters escaped -/

/-- A character is escaped to characters that need no escaping and control nothing, and to no
blank unless it is one. -/
theorem escapeChar_spec (mode : LabelMode) (c : Char) :
    escapeChar mode c ≠ [] ∧ ∀ d ∈ escapeChar mode c, isProtected mode d = false ∧
      (isAsciiControl c = false → isAsciiControl d = false) ∧
      (Text.isBlank c = false → Text.isBlank d = false) := by
  have hsafe : ∀ t ∈ ["&amp;".toList, "&lt;".toList, "&gt;".toList, ['\''], ['\\', '\\']],
      ∀ d ∈ t, isProtected .lenient d = false ∧ isAsciiControl d = false ∧
        Text.isBlank d = false := by
    simp only [← List.forall_iff_forall_mem]
    decide
  have htable : ∀ p ∈ lookalikes, isProtected .strict p.2 = false ∧
      isAsciiControl p.2 = false ∧ Text.isBlank p.2 = false := by
    decide
  have hweaken : ∀ {m : LabelMode} {d : Char}, (isProtected m d = false ∧
      isAsciiControl d = false ∧ Text.isBlank d = false) → isProtected m d = false ∧
      (isAsciiControl c = false → isAsciiControl d = false) ∧
      (Text.isBlank c = false → Text.isBlank d = false) :=
    fun h => ⟨h.1, fun _ => h.2.1, fun _ => h.2.2⟩
  cases mode with
  | lenient =>
      rw [escapeChar]
      split_ifs with h₁ h₂ h₃ h₄ h₅
      · exact ⟨by decide, fun d hd => hweaken (hsafe _ (by simp) d hd)⟩
      · exact ⟨by decide, fun d hd => hweaken (hsafe _ (by simp) d hd)⟩
      · exact ⟨by decide, fun d hd => hweaken (hsafe _ (by simp) d hd)⟩
      · exact ⟨by decide, fun d hd => hweaken (hsafe _ (by simp) d hd)⟩
      · exact ⟨by decide, fun d hd => hweaken (hsafe _ (by simp) d hd)⟩
      · refine ⟨List.cons_ne_nil _ _, fun d hd => ?_⟩
        rw [List.mem_singleton.mp hd]
        exact ⟨by simp [isProtected, h₂, h₃, h₄], id, id⟩
  | strict =>
      refine ⟨List.cons_ne_nil _ _, fun d hd => ?_⟩
      rw [escapeChar, List.mem_singleton] at hd
      rw [hd]
      cases hlook : lookalike? c with
      | none => exact ⟨by simp [isProtected, hlook], id, id⟩
      | some e =>
          obtain ⟨p, hp, rfl⟩ := Option.map_eq_some_iff.mp hlook
          exact hweaken (htable p (List.mem_of_find?_eq_some hp))

/-- Escaping puts no blank at an end. -/
theorem isTrimmed_escape (mode : LabelMode) {cs : List Char} (h : Text.IsTrimmed cs) :
    Text.IsTrimmed (escape mode cs) := by
  constructor
  · cases cs with
    | nil => simp [escape]
    | cons c cs =>
        obtain ⟨hne, hmem⟩ := escapeChar_spec mode c
        obtain ⟨d, r, hd⟩ := List.exists_cons_of_ne_nil hne
        intro e he
        rw [escape, List.flatMap_cons, hd] at he
        obtain rfl : d = e := by simpa using he
        exact (hmem d (by simp [hd])).2.2 (h.1 c rfl)
  · cases cs using List.reverseRecOn with
    | nil => simp [escape]
    | append_singleton cs c =>
        obtain ⟨hne, hmem⟩ := escapeChar_spec mode c
        intro e he
        rw [escape, List.flatMap_append, List.flatMap_singleton,
          List.getLast?_append_of_ne_nil _ hne, List.getLast?_eq_some_getLast hne] at he
        rw [← Option.some.inj he]
        exact (hmem _ (List.getLast_mem hne)).2.2 (h.2 c (by simp))

/-! ### Lenient labels -/

/-- The entities of a lenient label. -/
def entities : List (List Char) := ["&amp;".toList, "&lt;".toList, "&gt;".toList]

/-- What a lenient label stands for. -/
def unescape : List Char → List Char
  | '&' :: 'a' :: 'm' :: 'p' :: ';' :: cs => '&' :: unescape cs
  | '&' :: 'l' :: 't' :: ';' :: cs => '<' :: unescape cs
  | '&' :: 'g' :: 't' :: ';' :: cs => '>' :: unescape cs
  | '\\' :: '\\' :: cs => '\\' :: unescape cs
  | c :: cs => c :: unescape cs
  | [] => []

/-- A double quote becomes an apostrophe. -/
def unquote (c : Char) : Char := if c = '"' then '\'' else c

/-- How a character is written in a lenient label: as an entity, as two backslashes, or as a
character that is neither an ampersand nor a backslash. -/
theorem escapeChar_lenient_cases (c : Char) :
    escapeChar .lenient c ∈ entities ∨ escapeChar .lenient c = ['\\', '\\'] ∨
      ∃ d, escapeChar .lenient c = [d] ∧ d ≠ '&' ∧ d ≠ '\\' := by
  rw [escapeChar]
  split_ifs with h₁ h₂ h₃ h₄ h₅
  · exact Or.inl (by decide)
  · exact Or.inl (by decide)
  · exact Or.inl (by decide)
  · exact Or.inr (Or.inr ⟨'\'', rfl, by decide, by decide⟩)
  · exact Or.inr (Or.inl rfl)
  · exact Or.inr (Or.inr ⟨c, rfl, h₁, h₅⟩)

/-- A lenient label is read back. -/
theorem unescape_escape (cs : List Char) : unescape (escape .lenient cs) = cs.map unquote := by
  induction cs with
  | nil => rfl
  | cons c cs ih =>
      have hplain : ∀ d : Char, d ≠ '&' → d ≠ '\\' →
          unescape (d :: escape .lenient cs) = d :: unescape (escape .lenient cs) := by
        intro d h₁ h₂
        rw [unescape] <;> simp_all
      rw [List.map_cons, ← ih, escape, List.flatMap_cons, escapeChar]
      split_ifs with h₁ h₂ h₃ h₄ h₅
      · rw [h₁]
        rfl
      · rw [h₂]
        rfl
      · rw [h₃]
        rfl
      · rw [h₄]
        exact hplain '\'' (by decide) (by decide)
      · rw [h₅]
        rfl
      · rw [unquote, if_neg h₄]
        exact hplain c h₁ h₅

/-- Every ampersand of a lenient label starts an entity. -/
theorem entity_of_ampersand {cs pre post : List Char} (h : escape .lenient cs = pre ++ '&' :: post) :
    ∃ e ∈ entities, e <+: '&' :: post := by
  induction cs generalizing pre with
  | nil => exact absurd h (by simp [escape])
  | cons c cs ih =>
      rw [escape, List.flatMap_cons] at h
      rcases List.append_eq_append_iff.mp h with ⟨q, rfl, hrest⟩ | ⟨q, hchar, hrest⟩
      · exact ih hrest
      cases q with
      | nil => exact @ih [] hrest.symm
      | cons d q =>
          obtain ⟨rfl, hpost⟩ := List.cons.inj hrest
          rcases escapeChar_lenient_cases c with hentity | hslash | ⟨d, hd, hne, -⟩
          · -- an entity has its ampersand in front and no other
            have hstart : ∀ e ∈ entities, '&' ∉ e.tail := by decide
            cases pre with
            | nil =>
                rw [List.nil_append] at hchar
                exact ⟨'&' :: q, hchar ▸ hentity, _, congrArg (List.cons '&') hpost.symm⟩
            | cons p pre =>
                refine absurd ?_ (hstart _ hentity)
                rw [hchar]
                simp
          · exact absurd (hslash ▸ hchar ▸ List.mem_append_right pre List.mem_cons_self :
              '&' ∈ ['\\', '\\']) (by decide)
          · have hmem : '&' ∈ [d] := hd ▸ hchar ▸ List.mem_append_right pre List.mem_cons_self
            exact absurd (List.mem_singleton.mp hmem).symm hne

/-- The backslashes of a lenient label stand in runs of even length. -/
theorem even_backslashes {cs pre post : List Char} {k : Nat}
    (h : escape .lenient cs = pre ++ (List.replicate k '\\' ++ post))
    (hpre : pre.getLast? ≠ some '\\') (hpost : post.head? ≠ some '\\') : 2 ∣ k := by
  induction cs generalizing pre k with
  | nil =>
      have hk : List.replicate k '\\' = [] := by simp_all [escape]
      rw [List.replicate_eq_nil_iff] at hk
      exact hk ▸ Nat.dvd_zero 2
  | cons c cs ih =>
      rw [escape, List.flatMap_cons] at h
      rcases List.append_eq_append_iff.mp h with ⟨q, rfl, hrest⟩ | ⟨q, hchar, hrest⟩
      · refine ih hrest fun hq => hpre ?_
        rw [List.getLast?_append, hq]
        rfl
      cases q with
      | nil => exact @ih [] _ hrest.symm (by simp)
      | cons d q =>
          cases k with
          | zero => exact Nat.dvd_zero 2
          | succ k =>
              -- the run starts within the character, so the character is a backslash
              rw [List.replicate_succ, List.cons_append] at hrest
              obtain ⟨rfl, hrun⟩ := List.cons.inj hrest
              have hmem : '\\' ∈ escapeChar .lenient c :=
                hchar ▸ List.mem_append_right pre List.mem_cons_self
              rcases escapeChar_lenient_cases c with hentity | hslash | ⟨d, hd, -, hne⟩
              · have hnone : ∀ e ∈ entities, '\\' ∉ e := by decide
                exact absurd hmem (hnone _ hentity)
              · rw [hslash] at hchar
                cases pre with
                | nil =>
                    obtain ⟨-, rfl⟩ := List.cons.inj hchar
                    cases k with
                    | zero => exact absurd (congrArg List.head? hrun) hpost
                    | succ k =>
                        rw [List.replicate_succ, List.cons_append] at hrun
                        obtain ⟨-, hrun⟩ := List.cons.inj hrun
                        have hk : 2 ∣ k := @ih [] k hrun.symm (by simp)
                        omega
                | cons p pre =>
                    obtain ⟨rfl, hchar⟩ := List.cons.inj hchar
                    cases pre with
                    | nil => exact absurd rfl hpre
                    | cons p pre => exact absurd hchar (by simp)
              · rw [hd, List.mem_singleton] at hmem
                exact absurd hmem.symm hne

/-! ### Strict labels -/

/-- The character that a full-width lookalike stands for. -/
def original (c : Char) : Char := ((lookalikes.find? fun p => p.2 == c).map (·.1)).getD c

/-- A strict label has one character for each that is shown. -/
theorem escape_strict (cs : List Char) :
    escape .strict cs = cs.map fun c => (lookalike? c).getD c :=
  (List.map_eq_flatMap ..).symm

/-- A strict label of a text without lookalikes is read back. -/
theorem map_original_escape {cs : List Char} (h : ∀ c ∈ cs, c ∉ lookalikes.map (·.2)) :
    (escape .strict cs).map original = cs := by
  have htable : ∀ p ∈ lookalikes, original p.2 = p.1 := by decide
  have hchar : ∀ c ∈ cs, original ((lookalike? c).getD c) = c := by
    intro c hc
    cases hlook : lookalike? c with
    | none =>
        have hnone : lookalikes.find? (fun p => p.2 == c) = none := by
          refine List.find?_eq_none.mpr fun p hp heq => h c hc ?_
          rw [← beq_iff_eq.mp heq]
          exact List.mem_map_of_mem hp
        rw [Option.getD_none, original, hnone]
        rfl
    | some d =>
        obtain ⟨p, hp, rfl⟩ := Option.map_eq_some_iff.mp hlook
        have hkey : p.1 = c := by simpa using List.find?_some hp
        rw [Option.getD_some, htable p (List.mem_of_find?_eq_some hp), hkey]
  rw [escape_strict, List.map_map]
  exact (List.map_congr_left hchar).trans (List.map_id cs)

/-! ### The whole -/

/-- What a label promises, whatever text it is made from. With `shown` for the collapsed text cut to
the limit: the label has none of the characters that its mode protects, no control character and no
end of a line, and no blank at an end; `shown` exceeds a limit by the dots at most; a lenient label
is read back to `shown` with apostrophes for double quotes, so its ampersands start entities and its
backslashes come in pairs; a strict label is as long as `shown` and is read back to it unless it
holds lookalikes. Where there is no text the label is empty. -/
theorem sanitize_reads_back (mode : LabelMode) (limit? : Option Int) (text : String) :
    let limit := limit?.getD mode.defaultLimit
    let shown := truncate limit ellipsis (collapse text.toList)
    let label := (ofText? mode limit (.ok text)).value.toList
    (∀ c ∈ label,
        isProtected mode c = false ∧ isAsciiControl c = false ∧ Text.isLineEnd c = false) ∧
      Text.IsTrimmed label ∧
      (0 < limit → (shown.length : Int) ≤ limit + 3) ∧
      (mode = .lenient → unescape label = shown.map unquote ∧
        (∀ pre post, label = pre ++ '&' :: post → ∃ e ∈ entities, e <+: '&' :: post) ∧
        ∀ pre k post, label = pre ++ (List.replicate k '\\' ++ post) →
          pre.getLast? ≠ some '\\' → post.head? ≠ some '\\' → 2 ∣ k) ∧
      (mode = .strict → label.length = shown.length ∧
        ((∀ c ∈ shown, c ∉ lookalikes.map (·.2)) → label.map original = shown)) ∧
      ∀ reason, (ofText? mode limit (.error reason)).value = "" := by
  intro limit shown label
  have hlabel : label = escape mode shown := String.toList_ofList
  have htrimmed : Text.IsTrimmed shown := isTrimmed_truncate limit (Text.isTrimmed_trim _)
  refine ⟨fun c hc => ?_, ?_, fun h => length_truncate_le h _, ?_, ?_, fun _ => rfl⟩
  · rw [hlabel, escape, List.mem_flatMap] at hc
    obtain ⟨d, hd, hc⟩ := hc
    obtain ⟨hcontrol, hend⟩ := plain_of_mem_shown hd
    obtain ⟨hprotected, hcontrol', -⟩ := (escapeChar_spec mode d).2 c hc
    exact ⟨hprotected, hcontrol' hcontrol,
      Text.isLineEnd_of_isQuiet (isQuiet_of_mem_escapeChar hend hc)⟩
  · rw [hlabel]
    exact isTrimmed_escape mode htrimmed
  · rintro rfl
    rw [hlabel]
    exact ⟨unescape_escape shown, fun _ _ => entity_of_ampersand, fun _ _ _ => even_backslashes⟩
  · rintro rfl
    rw [hlabel]
    refine ⟨?_, map_original_escape⟩
    rw [escape_strict, List.length_map]

end Label

end Flowchart
