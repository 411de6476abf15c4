import Flowchart.Proofs.Label.Escaping
import Flowchart.Proofs.Text.Nesting
import Mathlib.Data.List.Forall2

/-!
# Chains of calls

A text is split at the points of its chained calls: a point, one of three names and a parenthesis,
where no literal and no bracket is open. What is open behind a text is said without a scanner
(`LeavesOpen`): the text is made of closed parts, of brackets that are opened, and of closing brackets
that nothing opens. Brackets of different kinds close each other, and a closing bracket that nothing
opens changes nothing.

A scan that has read a text is outside of everything exactly if the text leaves nothing open
(`placeAfter_eq_iff`). So it cuts exactly where nothing is open and a call follows
(`splits_chainFrom`). Behind a cut the scan stands as at the start, so a piece is read alone as it is
read in the text, and it is not split again. `splitChain_spec` says this of the trimmed pieces, the
parts.

## How the scan is followed

The scan keeps two things, whether it is in a literal and how many brackets are open, and neither
appears in the result. `HasRead` says what they tell about the text that was read, and one character
changes a text and the state of the scan alike (`HasRead.advance`). After that the scan is not needed:
`Splits` says where a text is cut in terms of `NothingOpen` and `CallFollows`, and the facts about the
pieces are proved by induction on it.

## Main results

* `placeAfter_eq_iff`: where a scan stands behind a text, without the scanner.
* `splits_chainFrom`: where the scan cuts.
* `splitChain_spec`: the parts are calls in the order of the text, cut where nothing is open and a
  call follows, and none of them is split again.
-/

namespace Flowchart.Text

variable {piece part cs xs ys inside : List Char} {c q : Char} {depth : Nat}

/-! ### What is open behind a text -/

/-- Each opening bracket with each closing one. -/
def anyBrackets : List (Char × Char) :=
  ['(', '[', '\x7b'].flatMap fun opening => [')', ']', '\x7d'].map (opening, ·)

/-- A text with closed quotes and brackets, where any closing bracket closes any opening one. -/
abbrev Matched (cs : List Char) : Prop := Nested anyBrackets (fun _ _ => True) (fun _ => True) cs

/-- A text that leaves `depth` brackets open, and no literal. A closing bracket counts for nothing where
no bracket is open. -/
inductive LeavesOpen : (depth : Nat) → List Char → Prop
  | matched {cs : List Char} : Matched cs → LeavesOpen 0 cs
  | surplus {xs cs : List Char} {c : Char} : LeavesOpen 0 xs → isClosing c = true → Matched cs →
      LeavesOpen 0 (xs ++ c :: cs)
  | opened {depth : Nat} {xs cs : List Char} {c : Char} : LeavesOpen depth xs → isOpening c = true →
      Matched cs → LeavesOpen (depth + 1) (xs ++ c :: cs)

/-- The end of the text is in no bracket and in no literal. -/
abbrev NothingOpen (cs : List Char) : Prop := LeavesOpen 0 cs

/-- Any opening bracket goes with any closing one. -/
theorem mem_anyBrackets {b : Char × Char} :
    b ∈ anyBrackets ↔ isOpening b.1 = true ∧ isClosing b.2 = true := by
  obtain ⟨opening, closing⟩ := b
  simp only [anyBrackets, isOpening, isClosing, List.mem_flatMap, List.mem_map, List.mem_cons,
    List.not_mem_nil, or_false, Prod.mk.injEq, Bool.or_eq_true, beq_iff_eq]
  aesop

/-- What differs from all brackets is none. -/
theorem isBracket_eq_false (h : ∀ b ∈ anyBrackets, c ≠ b.1 ∧ c ≠ b.2) :
    isOpening c = false ∧ isClosing c = false := by
  refine ⟨Bool.eq_false_iff.mpr fun hopen => ?_, Bool.eq_false_iff.mpr fun hclose => ?_⟩
  · exact (h (c, ')') (mem_anyBrackets.mpr ⟨hopen, rfl⟩)).1 rfl
  · exact (h ('(', c) (mem_anyBrackets.mpr ⟨rfl, hclose⟩)).2 rfl

/-- What is no bracket differs from all of them. -/
theorem forall_ne_anyBrackets (hopen : isOpening c = false) (hclose : isClosing c = false) :
    ∀ b ∈ anyBrackets, c ≠ b.1 ∧ c ≠ b.2 := by
  intro b hb
  obtain ⟨hb, hb'⟩ := mem_anyBrackets.mp hb
  constructor
  · rintro rfl
    exact Bool.noConfusion (hopen.symm.trans hb)
  · rintro rfl
    exact Bool.noConfusion (hclose.symm.trans hb')

/-- A bracket is no quote. -/
theorem isQuote_eq_false (h : isOpening c = true ∨ isClosing c = true) : isQuote c = false := by
  simp only [isOpening, isClosing, Bool.or_eq_true, beq_iff_eq] at h
  rcases h with ((rfl | rfl) | rfl) | ((rfl | rfl) | rfl) <;> rfl

/-- A closing bracket does not open. -/
theorem isOpening_eq_false (h : isClosing c = true) : isOpening c = false := by
  simp only [isClosing, Bool.or_eq_true, beq_iff_eq] at h
  rcases h with (rfl | rfl) | rfl <;> rfl

/-- What may stand in a literal may stand there in parts. -/
theorem IsQuoted.append (hxs : IsQuoted q xs) (hys : IsQuoted q ys) : IsQuoted q (xs ++ ys) := by
  induction hxs with
  | nil => exact hys
  | plain hslash hclose _ ih => exact .plain hslash hclose ih
  | escape _ ih => exact .escape ih

/-- A plain character is matched. -/
theorem matched_singleton (hquote : isQuote c = false) (hopen : isOpening c = false)
    (hclose : isClosing c = false) : Matched [c] :=
  .plain hquote (forall_ne_anyBrackets hopen hclose) trivial .nil

/-- Blanks are matched. -/
theorem matched_of_allBlank (h : allBlank cs = true) : Matched cs := by
  induction cs with
  | nil => exact .nil
  | cons c cs ih =>
      rw [allBlank, List.all_cons, Bool.and_eq_true] at h
      have hne : ∀ d : Char, isBlank d = false → c ≠ d := by
        rintro d hd rfl
        exact Bool.noConfusion (hd.symm.trans h.1)
      have hplain : isQuote c = false ∧ isOpening c = false ∧ isClosing c = false := by
        simp only [isQuote, isOpening, isClosing, Bool.or_eq_false_iff, beq_eq_false_iff_ne]
        refine ⟨⟨⟨?_, ?_⟩, ?_⟩, ⟨⟨?_, ?_⟩, ?_⟩, ⟨?_, ?_⟩, ?_⟩ <;> exact hne _ (by decide)
      exact .plain hplain.1 (forall_ne_anyBrackets hplain.2.1 hplain.2.2) trivial (ih h.2)

namespace LeavesOpen

/-- A matched text opens and closes nothing. -/
theorem append (h : LeavesOpen depth xs) (hys : Matched ys) : LeavesOpen depth (xs ++ ys) := by
  cases h with
  | matched hxs => exact .matched (hxs.append hys)
  | surplus hxs hc hcs =>
      rw [List.append_assoc, List.cons_append]
      exact .surplus hxs hc (hcs.append hys)
  | opened hxs hc hcs =>
      rw [List.append_assoc, List.cons_append]
      exact .opened hxs hc (hcs.append hys)

/-- A closing bracket closes the last bracket that is open. -/
theorem close (h : LeavesOpen depth xs) (hc : isClosing c = true) :
    LeavesOpen (depth - 1) (xs ++ [c]) := by
  cases h with
  | matched hxs => exact .surplus (.matched hxs) hc .nil
  | surplus hxs hd hcs => exact .surplus (.surplus hxs hd hcs) hc .nil
  | @opened depth xs cs b hxs hb hcs =>
      rw [List.append_assoc, List.cons_append]
      exact hxs.append (.group (b := (b, c)) (mem_anyBrackets.mpr ⟨hb, hc⟩) hcs .nil)

end LeavesOpen

/-! ### Where a scan stands -/

/-- Where a scan for chained calls stands after one more character: in code, a literal or an escape,
and how many brackets are open. -/
def advance : GroupState × Nat → Char → GroupState × Nat
  | (.escape q, depth), _ => (.quote q, depth)
  | (.quote q, depth), c => (if c = '\\' then .escape q else if c = q then .code else .quote q, depth)
  | (.code, depth), c =>
    if isQuote c then (.quote c, depth)
    else if isOpening c then (.code, depth + 1)
    else if isClosing c then (.code, depth - 1)
    else (.code, depth)

/-- Where a scan stands that has read a text. -/
def placeAfter (cs : List Char) : GroupState × Nat := cs.foldl advance (.code, 0)

/-- What a scan has read that stands at a place: the literal that it is in was opened behind a text
that leaves as many brackets open. -/
def HasRead : GroupState × Nat → List Char → Prop
  | (.code, depth), cs => LeavesOpen depth cs
  | (.quote q, depth), cs =>
    ∃ xs inside, cs = xs ++ q :: inside ∧ isQuote q = true ∧ IsQuoted q inside ∧ LeavesOpen depth xs
  | (.escape q, depth), cs =>
    ∃ xs inside, cs = xs ++ q :: (inside ++ ['\\']) ∧ isQuote q = true ∧ IsQuoted q inside ∧
      LeavesOpen depth xs

/-- A scan that has read a text has read it with the next character. -/
theorem HasRead.advance {place : GroupState × Nat} (h : HasRead place cs) (c : Char) :
    HasRead (advance place c) (cs ++ [c]) := by
  obtain ⟨state, depth⟩ := place
  cases state with
  | escape q =>
      obtain ⟨xs, inside, rfl, hq, hinside, hxs⟩ := h
      exact ⟨xs, inside ++ ['\\', c], by simp, hq, hinside.append (.escape .nil), hxs⟩
  | quote q =>
      obtain ⟨xs, inside, rfl, hq, hinside, hxs⟩ := h
      rw [Text.advance]
      split_ifs with hslash hclose
      · exact ⟨xs, inside, by simp [hslash], hq, hinside, hxs⟩
      · rw [List.append_assoc, List.cons_append, hclose]
        exact hxs.append (.literal hq hinside trivial .nil)
      · exact ⟨xs, inside ++ [c], by simp, hq, hinside.append (.plain hslash hclose .nil), hxs⟩
  | code =>
      have hcs : LeavesOpen depth cs := h
      rw [Text.advance]
      split_ifs with hquote hopen hclose
      · exact ⟨cs, [], rfl, hquote, .nil, hcs⟩
      · exact .opened hcs hopen .nil
      · exact hcs.close hclose
      · rw [Bool.not_eq_true] at hquote hopen hclose
        exact hcs.append (matched_singleton hquote hopen hclose)

/-- Where a scan stands behind a text it has read the text. -/
theorem hasRead_placeAfter (cs : List Char) : HasRead (placeAfter cs) cs := by
  induction cs using List.reverseRecOn with
  | nil => exact .matched .nil
  | append_singleton cs c ih =>
      rw [placeAfter, List.foldl_append]
      exact ih.advance c

/-- A literal is read up to its quote, and the depth is what it was. -/
theorem foldl_advance_quoted (h : IsQuoted q inside) (depth : Nat) (rest : List Char)
    (hslash : q ≠ '\\') : (inside ++ q :: rest).foldl advance (.quote q, depth) =
      rest.foldl advance (.code, depth) := by
  induction h with
  | nil => rw [List.nil_append, List.foldl_cons, advance, if_neg hslash, if_pos rfl]
  | plain hne hclose _ ih =>
      rw [List.cons_append, List.foldl_cons, advance, if_neg hne, if_neg hclose, ih]
  | escape _ ih =>
      rw [List.cons_append, List.foldl_cons, advance, if_pos rfl, List.cons_append, List.foldl_cons,
        advance, ih]

/-- A character that is no quote and no bracket changes nothing in code. -/
theorem advance_plain (hquote : isQuote c = false) (hopen : isOpening c = false)
    (hclose : isClosing c = false) (depth : Nat) : advance (.code, depth) c = (.code, depth) := by
  rw [advance, hquote, hopen, hclose]
  rfl

/-- An opening bracket in code is one more that is open. -/
theorem advance_opening (hopen : isOpening c = true) (depth : Nat) :
    advance (.code, depth) c = (.code, depth + 1) := by
  rw [advance, isQuote_eq_false (Or.inl hopen), hopen]
  rfl

/-- A closing bracket in code closes the last one, or nothing. -/
theorem advance_closing (hclose : isClosing c = true) (depth : Nat) :
    advance (.code, depth) c = (.code, depth - 1) := by
  rw [advance, isQuote_eq_false (Or.inr hclose), isOpening_eq_false hclose, hclose]
  rfl

/-- Behind a matched text a scan stands where it stood before. -/
theorem foldl_advance_matched {literal : Char → List Char → Prop} {outside : Char → Prop}
    (h : Nested anyBrackets literal outside cs) (depth : Nat) :
    cs.foldl advance (.code, depth) = (.code, depth) := by
  induction h generalizing depth with
  | nil => rfl
  | plain hquote hbracket _ _ ih =>
      obtain ⟨hopen, hclose⟩ := isBracket_eq_false hbracket
      rw [List.foldl_cons, advance_plain hquote hopen hclose, ih]
  | literal hq hinside _ _ ih =>
      rw [List.foldl_cons, advance, if_pos hq, foldl_advance_quoted hinside _ _ (ne_of_isQuote hq).1,
        ih]
  | group hb _ _ ihInside ih =>
      obtain ⟨hopen, hclose⟩ := mem_anyBrackets.mp hb
      rw [List.foldl_cons, advance_opening hopen, List.foldl_append, ihInside, List.foldl_cons,
        advance_closing hclose, Nat.add_sub_cancel, ih]

/-- Behind a text that leaves brackets open, the scan stands in code at their number. -/
theorem LeavesOpen.placeAfter_eq (h : LeavesOpen depth cs) : placeAfter cs = (.code, depth) := by
  induction h with
  | matched hcs => exact foldl_advance_matched hcs 0
  | surplus _ hc hcs ih =>
      rw [placeAfter, List.foldl_append, ← placeAfter, ih, List.foldl_cons, advance_closing hc,
        foldl_advance_matched hcs]
  | opened _ hc hcs ih =>
      rw [placeAfter, List.foldl_append, ← placeAfter, ih, List.foldl_cons, advance_opening hc,
        foldl_advance_matched hcs]

/-- A scan is outside of literals exactly behind a text that leaves none open, and it counts the
brackets that are open. -/
theorem placeAfter_eq_iff : placeAfter cs = (.code, depth) ↔ LeavesOpen depth cs := by
  refine ⟨fun h => ?_, LeavesOpen.placeAfter_eq⟩
  have hread := hasRead_placeAfter cs
  rwa [h] at hread

/-- Behind a text that leaves nothing open a scan goes on as from the start. -/
theorem nothingOpen_append_iff (h : NothingOpen xs) : NothingOpen (xs ++ ys) ↔ NothingOpen ys := by
  rw [NothingOpen, NothingOpen, ← placeAfter_eq_iff, ← placeAfter_eq_iff, placeAfter,
    List.foldl_append, ← placeAfter, h.placeAfter_eq]
  rfl

/-! ### Chained calls -/

/-- One of three names stands at the start, and a parenthesis behind it, blanks aside. -/
def IsCall (cs : List Char) : Prop :=
  ∃ name ∈ ["then", "catch", "finally"], ∃ gap rest, cs = name.toList ++ gap ++ '(' :: rest ∧
    allBlank gap = true

/-- A call follows, blanks aside. -/
def CallFollows (cs : List Char) : Prop :=
  ∃ gap call, cs = gap ++ call ∧ allBlank gap = true ∧ IsCall call

/-- The names are neither empty nor blank at their start, and without points. -/
theorem callName_plain {name : String} (h : name ∈ ["then", "catch", "finally"]) :
    name.toList ≠ [] ∧ (∀ c ∈ name.toList.head?, isBlank c = false) ∧ '.' ∉ name.toList := by
  simp only [List.mem_cons, List.not_mem_nil, or_false] at h
  have hfirst : ∀ c ∈ name.toList.head?, isBlank c = false := by
    rcases h with rfl | rfl | rfl <;> rintro _ ⟨⟩ <;> decide
  refine ⟨?_, hfirst, ?_⟩ <;> rcases h with rfl | rfl | rfl <;> decide

/-- There is no blank before a call. -/
theorem IsCall.isBlank_head? (h : IsCall cs) : ∀ c ∈ cs.head?, isBlank c = false := by
  obtain ⟨name, hname, gap, rest, rfl, -⟩ := h
  rw [List.append_assoc, List.head?_append_of_ne_nil _ (callName_plain hname).1]
  exact (callName_plain hname).2.1

/-- The call goes on to follow, whatever else does. -/
theorem CallFollows.append (h : CallFollows xs) (ys : List Char) : CallFollows (xs ++ ys) := by
  obtain ⟨gap, call, rfl, hgap, name, hname, gap', rest, rfl, hgap'⟩ := h
  exact ⟨gap, _, List.append_assoc .., hgap, name, hname, gap', rest ++ ys, by simp, hgap'⟩

/-- There is no point in a call before the parenthesis. -/
theorem CallFollows.of_append (h : CallFollows (xs ++ '.' :: ys)) : CallFollows xs := by
  obtain ⟨gap, call, heq, hgap, name, hname, gap', rest, rfl, hgap'⟩ := h
  have hpoint : '.' ∉ gap ++ (name.toList ++ (gap' ++ ['('])) := by
    have hblank : ∀ {cs : List Char}, allBlank cs = true → '.' ∉ cs := fun hcs hmem =>
      absurd (List.all_eq_true.mp hcs '.' hmem) (by decide)
    simp [hblank hgap, hblank hgap', (callName_plain hname).2.2]
  have hcut : xs ++ '.' :: ys = gap ++ (name.toList ++ (gap' ++ ['('])) ++ rest := by
    rw [heq]
    simp
  rcases List.append_eq_append_iff.mp hcut with ⟨more, hmore, hrest⟩ | ⟨more, rfl, -⟩
  · cases more with
    | nil =>
        rw [List.append_nil] at hmore
        exact ⟨gap, _, hmore.symm, hgap, name, hname, gap', [], (List.append_assoc ..).symm, hgap'⟩
    | cons d more =>
        obtain ⟨rfl, -⟩ := List.cons.inj hrest
        exact absurd (hmore ▸ List.mem_append_right xs List.mem_cons_self) hpoint
  · exact ⟨gap, _, List.append_assoc .., hgap, name, hname, gap', more, by simp, hgap'⟩

/-- The scan cuts at a point that a call follows. -/
theorem chainCallHere_iff : chainCallHere (c :: cs) = true ↔ c = '.' ∧ CallFollows cs := by
  by_cases hc : c = '.'
  · subst hc
    rw [chainCallHere, List.any_eq_true]
    constructor
    · rintro ⟨name, hname, hhere⟩
      split at hhere
      · exact Bool.noConfusion hhere
      · next rest hrest =>
          rw [List.isPrefixOf?_eq_some_iff_append_eq] at hrest
          obtain ⟨more, hmore⟩ := List.head?_eq_some_iff.mp (beq_iff_eq.mp hhere)
          refine ⟨rfl, cs.takeWhile isBlank, _, List.takeWhile_append_dropWhile.symm,
            List.all_takeWhile, name, hname, rest.takeWhile isBlank, more, ?_, List.all_takeWhile⟩
          rw [← hrest, List.append_assoc, ← hmore, List.takeWhile_append_dropWhile]
    · rintro ⟨-, gap, call, rfl, hgap, hcall⟩
      rw [dropWhile_blanks_append hgap hcall.isBlank_head?]
      obtain ⟨name, hname, gap', rest, rfl, hgap'⟩ := hcall
      have hparen : ∀ c ∈ ('(' :: rest).head?, isBlank c = false := by
        rintro _ ⟨⟩
        decide
      refine ⟨name, hname, ?_⟩
      rw [List.append_assoc, List.isPrefixOf?_eq_some_iff_append_eq.mpr rfl]
      simp only [dropWhile_blanks_append hgap' hparen, List.head?_cons, beq_self_eq_true]
  · have hno : chainCallHere (c :: cs) = false := by
      rw [chainCallHere]
      rintro _ ⟨⟩
      exact hc rfl
    simp [hno, hc]

/-! ### Where a text is cut -/

/-- At no point of the text nothing is open and a call follows, if `after` stands behind the text. -/
def Uncut (cs after : List Char) : Prop :=
  ∀ xs ys, cs = xs ++ '.' :: ys → NothingOpen xs → ¬CallFollows (ys ++ after)

/-- The text is cut into pieces at every point at which nothing is open and a call follows. -/
inductive Splits : List Char → (pieces : List (List Char)) → Prop
  | last {cs : List Char} : Uncut cs [] → Splits cs [cs]
  | cut {xs ys : List Char} {pieces : List (List Char)} : Uncut xs ('.' :: ys) → NothingOpen xs →
      CallFollows ys → Splits ys pieces → Splits (xs ++ '.' :: ys) (xs :: pieces)

/-- A scan cuts at a call outside of everything. -/
theorem chainFrom_cut (h : CallFollows cs) (piece : List Char) :
    chainFrom .code 0 piece ('.' :: cs) = piece.reverse :: chainFrom .code 0 [] cs := by
  have hpoint : isQuote '.' = false ∧ isOpening '.' = false ∧ isClosing '.' = false := by decide
  rw [chainFrom, hpoint.1, hpoint.2.1, hpoint.2.2, chainCallHere_iff.mpr ⟨rfl, h⟩]
  rfl

/-- A scan moves on elsewhere. -/
theorem chainFrom_advance {place : GroupState × Nat}
    (h : ¬(place = (.code, 0) ∧ c = '.' ∧ CallFollows cs)) (piece : List Char) :
    chainFrom place.1 place.2 piece (c :: cs) =
      chainFrom (advance place c).1 (advance place c).2 (c :: piece) cs := by
  obtain ⟨state, depth⟩ := place
  cases state with
  | escape q => rfl
  | quote q => rfl
  | code =>
      have hno : ¬(depth == 0 && chainCallHere (c :: cs)) = true := by
        rw [Bool.and_eq_true, beq_iff_eq, chainCallHere_iff]
        exact fun hhere => h ⟨by rw [hhere.1], hhere.2⟩
      rw [chainFrom, if_neg hno, advance]
      split_ifs <;> rfl

/-- A text that is not cut is not cut with one more character either, if nothing is cut there. -/
theorem Uncut.concat (h : Uncut xs (c :: cs)) (hno : ¬(NothingOpen xs ∧ c = '.' ∧ CallFollows cs)) :
    Uncut (xs ++ [c]) cs := by
  intro front back heq hopen hcall
  rcases List.eq_nil_or_concat back with rfl | ⟨back, d, rfl⟩
  · obtain ⟨rfl, hc⟩ := List.append_inj' heq rfl
    exact hno ⟨hopen, List.singleton_inj.mp hc, hcall⟩
  · rw [List.concat_eq_append, ← List.cons_append, ← List.append_assoc] at heq
    obtain ⟨rfl, hc⟩ := List.append_inj' heq rfl
    rw [List.concat_eq_append, ← hc, List.append_assoc] at hcall
    exact h front back rfl hopen hcall

/-- A scan cuts the text that it has read together with the text that follows. -/
theorem splits_chainFrom (h : Uncut piece.reverse cs) :
    Splits (piece.reverse ++ cs)
      (chainFrom (placeAfter piece.reverse).1 (placeAfter piece.reverse).2 piece cs) := by
  induction cs generalizing piece with
  | nil =>
      rw [chainFrom, List.append_nil]
      exact .last h
  | cons c cs ih =>
      by_cases hhere : placeAfter piece.reverse = (.code, 0) ∧ c = '.' ∧ CallFollows cs
      · obtain ⟨hplace, rfl, hcall⟩ := hhere
        rw [hplace, chainFrom_cut hcall]
        have hfresh : Uncut ([] : List Char).reverse cs := by simp [Uncut]
        exact .cut h (placeAfter_eq_iff.mp hplace) hcall (ih hfresh)
      · have hplace : advance (placeAfter piece.reverse) c = placeAfter (c :: piece).reverse := by
          rw [List.reverse_cons, placeAfter, placeAfter, List.foldl_append]
          rfl
        have hnext : Uncut (c :: piece).reverse cs := by
          rw [List.reverse_cons]
          rw [placeAfter_eq_iff] at hhere
          exact h.concat hhere
        rw [chainFrom_advance hhere, hplace]
        simpa using ih hnext

/-- From the start of a text, the pieces of the scan split it. -/
theorem splits_chainFrom_start (text : List Char) : Splits text (chainFrom .code 0 [] text) := by
  have hfresh : Uncut ([] : List Char).reverse text := by simp [Uncut]
  exact splits_chainFrom hfresh

/-- What is uncut before a point is uncut on its own. -/
theorem Uncut.alone (h : Uncut xs ('.' :: ys)) : Uncut xs [] := by
  intro front back heq hopen hcall
  rw [List.append_nil] at hcall
  exact h front back heq hopen (hcall.append _)

/-- What remains of an uncut text without blanks before it and without something behind it is uncut. -/
theorem Uncut.inner {lead trail : List Char} (h : Uncut (lead ++ part ++ trail) [])
    (hlead : allBlank lead = true) : Uncut part [] := by
  rintro front back rfl hopen hcall
  refine h (lead ++ front) (back ++ trail) (by simp) ?_ ?_
  · exact (nothingOpen_append_iff (.matched (matched_of_allBlank hlead))).mpr hopen
  · rw [List.append_nil] at hcall ⊢
    exact hcall.append trail

namespace Splits

variable {pieces : List (List Char)}

/-- An uncut text is a single piece. -/
theorem eq_singleton (h : Splits cs pieces) (huncut : Uncut cs []) : pieces = [cs] := by
  cases h with
  | last _ => rfl
  | cut _ hopen hcall _ =>
      exact absurd (by rwa [List.append_nil]) (huncut _ _ rfl hopen)

/-- There is always a piece. -/
theorem ne_nil (h : Splits cs pieces) : pieces ≠ [] := by
  cases h <;> exact List.cons_ne_nil _ _

/-- The pieces, joined with points, are the text. -/
theorem intercalate_eq (h : Splits cs pieces) : ['.'].intercalate pieces = cs := by
  induction h with
  | last _ => exact List.intercalate_singleton
  | cut _ _ _ hpieces ih => simp [List.intercalate_cons_of_ne_nil hpieces.ne_nil, ih]

/-- No piece is cut on its own. -/
theorem uncut (h : Splits cs pieces) : ∀ piece ∈ pieces, Uncut piece [] := by
  induction h with
  | last huncut => simpa using huncut
  | cut huncut _ _ _ ih => exact List.forall_mem_cons.mpr ⟨huncut.alone, ih⟩

/-- The pieces of a text with a call at its start have one at theirs. -/
theorem callFollows (h : Splits cs pieces) (hcall : CallFollows cs) :
    ∀ piece ∈ pieces, CallFollows piece := by
  induction h with
  | last _ => simpa using hcall
  | cut _ _ hnext _ ih => exact List.forall_mem_cons.mpr ⟨hcall.of_append, ih hnext⟩

/-- Behind a cut a call follows. -/
theorem callFollows_tail (h : Splits cs pieces) : ∀ piece ∈ pieces.tail, CallFollows piece := by
  cases h with
  | last _ => exact fun piece hpiece => absurd hpiece List.not_mem_nil
  | cut _ _ hcall hpieces => exact hpieces.callFollows hcall

end Splits

/-- The pieces up to some point make up the text before it. -/
def CutsAfter (pieces : List (List Char)) (xs : List Char) : Prop :=
  ∃ front back, pieces = front ++ back ∧ front ≠ [] ∧ back ≠ [] ∧ ['.'].intercalate front = xs

namespace CutsAfter

variable {pieces : List (List Char)}

/-- A cut stands after the first piece if there is another one. -/
theorem first (h : pieces ≠ []) : CutsAfter (xs :: pieces) xs :=
  ⟨[xs], pieces, rfl, List.cons_ne_nil _ _, h, List.intercalate_singleton⟩

/-- A cut in later pieces stands after all that is before it, its point included. -/
theorem cons (h : CutsAfter pieces xs) (piece : List Char) :
    CutsAfter (piece :: pieces) (piece ++ '.' :: xs) := by
  obtain ⟨front, back, rfl, hfront, hback, rfl⟩ := h
  exact ⟨piece :: front, back, rfl, List.cons_ne_nil _ _, hback,
    by simp [List.intercalate_cons_of_ne_nil hfront]⟩

/-- A cut is behind the first piece, or it is one of the others behind it and its point. -/
theorem of_cons (h : CutsAfter (piece :: pieces) xs) :
    xs = piece ∨ ∃ ys, xs = piece ++ '.' :: ys ∧ CutsAfter pieces ys := by
  obtain ⟨front, back, heq, hfront, hback, rfl⟩ := h
  obtain ⟨first, front, rfl⟩ := List.exists_cons_of_ne_nil hfront
  obtain ⟨rfl, rfl⟩ := List.cons.inj heq
  by_cases hmore : front = []
  · exact Or.inl (by rw [hmore, List.intercalate_singleton])
  · refine Or.inr ⟨['.'].intercalate front, ?_, front, back, rfl, hmore, hback, rfl⟩
    simp [List.intercalate_cons_of_ne_nil hmore]

end CutsAfter

/-- The cuts are at the points at which nothing is open and a call follows. -/
theorem Splits.cutsAfter_iff {pieces : List (List Char)} (h : Splits (xs ++ '.' :: ys) pieces) :
    CutsAfter pieces xs ↔ NothingOpen xs ∧ CallFollows ys := by
  have hpoint : Matched ['.'] := matched_singleton (by decide) (by decide) (by decide)
  generalize htext : xs ++ '.' :: ys = text at h
  constructor
  · intro hcut
    induction h generalizing xs with
    | last _ =>
        obtain ⟨front, back, heq, hfront, hback, -⟩ := hcut
        rcases List.append_eq_singleton_iff.mp heq.symm with ⟨rfl, -⟩ | ⟨-, rfl⟩
        · exact absurd rfl hfront
        · exact absurd rfl hback
    | cut _ hopen hcall _ ih =>
        rcases hcut.of_cons with rfl | ⟨zs, rfl, hcut'⟩
        · obtain ⟨-, rfl⟩ := List.cons.inj (List.append_cancel_left htext)
          exact ⟨hopen, hcall⟩
        · rw [List.append_assoc, List.cons_append] at htext
          obtain ⟨-, htext⟩ := List.cons.inj (List.append_cancel_left htext)
          obtain ⟨hzs, hys⟩ := ih htext hcut'
          exact ⟨(nothingOpen_append_iff hopen).mpr
            ((nothingOpen_append_iff (.matched hpoint)).mpr hzs), hys⟩
  · rintro ⟨hopen, hcall⟩
    induction h generalizing xs with
    | last huncut => exact absurd (by rwa [List.append_nil]) (huncut xs ys htext.symm hopen)
    | @cut front back pieces huncut hfront _ hpieces ih =>
        rcases List.append_eq_append_iff.mp htext with ⟨more, rfl, hback⟩ | ⟨more, rfl, hback⟩
        · cases more with
          | nil => rw [List.append_nil]; exact .first hpieces.ne_nil
          | cons d more =>
              obtain ⟨rfl, rfl⟩ := List.cons.inj hback
              exact absurd hcall (huncut xs more rfl hopen)
        · cases more with
          | nil => rw [List.append_nil]; exact .first hpieces.ne_nil
          | cons d more =>
              obtain ⟨rfl, rfl⟩ := List.cons.inj hback
              have hmore : NothingOpen more := by
                rw [nothingOpen_append_iff hfront] at hopen
                exact (nothingOpen_append_iff (.matched hpoint)).mp hopen
              exact (ih rfl hmore).cons front

/-! ### The parts of a text -/

/-- A part is what is left of a piece without the blanks at its start and the blanks and semicolons at
its end. -/
def Trims (piece part : List Char) : Prop :=
  ∃ lead trail, piece = lead ++ part ++ trail ∧ allBlank lead = true ∧
    ∀ c ∈ trail, isBlank c = true ∨ c = ';'

/-- Nothing is trimmed. -/
theorem Trims.refl (piece : List Char) : Trims piece piece :=
  ⟨[], [], by simp, rfl, by simp⟩

/-- What is trimmed of what was trimmed is trimmed of the piece. -/
theorem Trims.trans {middle : List Char} (h : Trims piece middle) (h' : Trims middle part) :
    Trims piece part := by
  obtain ⟨lead, trail, rfl, hlead, htrail⟩ := h
  obtain ⟨lead', trail', rfl, hlead', htrail'⟩ := h'
  refine ⟨lead ++ lead', trail' ++ trail, by simp, ?_, fun c hc => ?_⟩
  · rw [allBlank, List.all_append, Bool.and_eq_true]
    exact ⟨hlead, hlead'⟩
  · exact (List.mem_append.mp hc).elim (htrail' c) (htrail c)

/-- Blanks are trimmed at both ends. -/
theorem trims_trim (piece : List Char) : Trims piece (trim piece) := by
  obtain ⟨trail, heq, htrail⟩ := exists_eq_dropEndWhile_append isBlank (trimStart piece)
  refine ⟨piece.takeWhile isBlank, trail, ?_, List.all_takeWhile, fun c hc => Or.inl (htrail c hc)⟩
  rw [trim, List.append_assoc, trimEnd, ← heq]
  exact List.takeWhile_append_dropWhile.symm

/-- Semicolons are trimmed at the end. -/
theorem trims_dropEndWhile (piece : List Char) : Trims piece (dropEndWhile (· == ';') piece) := by
  obtain ⟨trail, heq, htrail⟩ := exists_eq_dropEndWhile_append (· == ';') piece
  exact ⟨[], trail, heq, rfl, fun c hc => Or.inr (beq_iff_eq.mp (htrail c hc))⟩

/-- Every part comes from some piece. -/
theorem exists_trims {pieces parts : List (List Char)} (h : List.Forall₂ Trims pieces parts) :
    ∀ part ∈ parts, ∃ piece ∈ pieces, Trims piece part := by
  induction h with
  | nil => exact fun part hpart => absurd hpart List.not_mem_nil
  | cons htrims _ ih =>
      refine List.forall_mem_cons.mpr ⟨⟨_, List.mem_cons_self, htrims⟩, fun part hpart => ?_⟩
      obtain ⟨piece, hpiece, htrims⟩ := ih part hpart
      exact ⟨piece, List.mem_cons_of_mem _ hpiece, htrims⟩

/-- What is left of a piece with a call at its start is a call, if no blank is left before it. -/
theorem isCall_of_trims (h : CallFollows piece) (htrims : Trims piece part)
    (hfirst : ∀ c ∈ part.head?, isBlank c = false) : IsCall part := by
  obtain ⟨gap, call, rfl, hgap, hcall⟩ := h
  obtain ⟨name, hname, gap', rest, rfl, hgap'⟩ := hcall
  obtain ⟨lead, trail, heq, hlead, htrail⟩ := htrims
  have hparen : '(' ∉ trail := fun hmem => absurd (htrail _ hmem) (by decide)
  have hcut : lead ++ part ++ trail = (gap ++ (name.toList ++ gap' ++ ['('])) ++ rest := by
    rw [← heq]
    simp
  -- the trail has no parenthesis, so the one behind the name is in the part
  obtain ⟨more, hmore⟩ : ∃ more, lead ++ part = gap ++ (name.toList ++ gap' ++ '(' :: more) := by
    rcases List.append_eq_append_iff.mp hcut with ⟨more, hmore, htrail⟩ | ⟨more, hmore, -⟩
    · rcases List.eq_nil_or_concat more with rfl | ⟨more, c, rfl⟩
      · exact ⟨[], by rw [List.append_nil] at hmore; exact hmore.symm⟩
      · have hlast := congrArg List.getLast? hmore
        simp at hlast
        rw [htrail, ← hlast] at hparen
        simp at hparen
    · exact ⟨more, by simp [hmore]⟩
  have hcall : IsCall (name.toList ++ gap' ++ '(' :: more) := ⟨name, hname, gap', more, rfl, hgap'⟩
  have hdropped := congrArg (List.dropWhile isBlank) hmore
  rw [dropWhile_blanks_append hlead hfirst, dropWhile_blanks_append hgap hcall.isBlank_head?]
    at hdropped
  exact hdropped ▸ hcall

/-- A text without a cut is one part, as it stands. -/
theorem splitChain_of_uncut (h : Uncut cs []) : splitChain cs = [cs] := by
  rw [splitChain, (splits_chainFrom_start cs).eq_singleton h]

/-- Where a call follows there is more than blanks. -/
theorem CallFollows.allBlank_eq_false (h : CallFollows cs) : allBlank cs = false := by
  obtain ⟨gap, call, rfl, -, name, -, gap', rest, rfl, -⟩ := h
  rw [allBlank, List.all_eq_false]
  exact ⟨'(', by simp, by decide⟩

/-- No piece is blank, if the text starts with no point. -/
theorem Splits.allBlank_eq_false {pieces : List (List Char)}
    (h : Splits (xs ++ '.' :: ys) (xs :: pieces))
    (hfirst : (xs ++ '.' :: ys).find? (!isBlank ·) ≠ some '.') :
    ∀ piece ∈ xs :: pieces, allBlank piece = false := by
  refine List.forall_mem_cons.mpr ⟨Bool.eq_false_iff.mpr fun hblank => hfirst ?_, fun piece hpiece =>
    (h.callFollows_tail piece hpiece).allBlank_eq_false⟩
  have hnone : xs.find? (!isBlank ·) = none := by
    rw [List.find?_eq_none]
    intro c hc
    rw [List.all_eq_true.mp hblank c hc]
    exact Bool.noConfusion
  rw [List.find?_append, hnone, List.find?_cons_of_pos (by decide)]
  rfl

/-- The parts are the trimmed pieces. -/
theorem splits_splitChain {text : List Char} (hfirst : text.find? (!isBlank ·) ≠ some '.') :
    ∃ pieces, Splits text pieces ∧ List.Forall₂ Trims pieces (splitChain text) ∧
      ∀ part ∈ (splitChain text).tail, IsCall part := by
  have hsplits := splits_chainFrom_start text
  generalize hpieces : chainFrom .code 0 [] text = pieces at hsplits
  refine ⟨pieces, hsplits, ?_⟩
  rw [splitChain, hpieces]
  cases hsplits with
  | last _ => exact ⟨.cons (.refl text) .nil, by simp⟩
  | @cut xs ys pieces huncut hopen hcall hrest =>
      have hsplits := Splits.cut huncut hopen hcall hrest
      have htrims : ∀ piece, Trims piece (trim (dropEndWhile (· == ';') (trim piece))) := fun piece =>
        ((trims_trim piece).trans (trims_dropEndWhile _)).trans (trims_trim _)
      have hfilter : (xs :: pieces).filter (fun p => !allBlank p) = xs :: pieces :=
        List.filter_eq_self.mpr fun piece hpiece => by
          rw [hsplits.allBlank_eq_false hfirst piece hpiece]
          rfl
      obtain ⟨second, more, rfl⟩ := List.exists_cons_of_ne_nil hrest.ne_nil
      simp only [hfilter]
      refine ⟨List.forall₂_map_right_iff.mpr (List.forall₂_same.mpr fun piece _ => htrims piece), ?_⟩
      rw [List.map_cons, List.tail_cons, List.forall_mem_map]
      exact fun piece hpiece => isCall_of_trims (hsplits.callFollows_tail piece hpiece)
        (htrims piece) (isTrimmed_trim _).1

/-- A chain of calls is cut exactly where nothing is open and a call follows, if it starts with no
point. The pieces, joined with points, are the text, and a part is its piece without the blanks at both
ends and the semicolons at the second. Each part but the first is a call, and a part on its own is not
split again. -/
theorem splitChain_spec {text : List Char} (hfirst : text.find? (!isBlank ·) ≠ some '.') :
    ∃ pieces, ['.'].intercalate pieces = text ∧ List.Forall₂ Trims pieces (splitChain text) ∧
      (∀ xs ys, text = xs ++ '.' :: ys →
        (CutsAfter pieces xs ↔ NothingOpen xs ∧ CallFollows ys)) ∧
      (∀ part ∈ (splitChain text).tail, IsCall part) ∧
      ∀ part ∈ splitChain text, splitChain part = [part] := by
  obtain ⟨pieces, hsplits, htrims, hcalls⟩ := splits_splitChain hfirst
  refine ⟨pieces, hsplits.intercalate_eq, htrims, ?_, hcalls, fun part hpart => ?_⟩
  · rintro xs ys rfl
    exact hsplits.cutsAfter_iff
  · obtain ⟨piece, hpiece, lead, trail, rfl, hlead, -⟩ := exists_trims htrims part hpart
    exact splitChain_of_uncut ((hsplits.uncut _ hpiece).inner hlead)

/-- The points in the literal, behind its escape, and in the parentheses are no cuts. -/
theorem splitChain_spec_escaped :
    "a('\\'.then(') ; .then(f.then(g));".toList.find? (!isBlank ·) ≠ some '.' ∧
    ∃ pieces, ['.'].intercalate pieces = "a('\\'.then(') ; .then(f.then(g));".toList ∧
      List.Forall₂ Trims pieces ["a('\\'.then(')".toList, "then(f.then(g))".toList] := by
  have hfirst : "a('\\'.then(') ; .then(f.then(g));".toList.find? (!isBlank ·) ≠ some '.' := by decide
  have hparts : splitChain "a('\\'.then(') ; .then(f.then(g));".toList =
      ["a('\\'.then(')".toList, "then(f.then(g))".toList] := by decide +kernel
  obtain ⟨pieces, hjoin, htrims, -⟩ := splitChain_spec hfirst
  exact ⟨hfirst, pieces, hjoin, hparts ▸ htrims⟩

end Flowchart.Text
