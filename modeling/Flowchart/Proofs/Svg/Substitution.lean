import Flowchart.Svg.Substitution
import Mathlib.Data.List.Basic
import Mathlib.Data.List.TakeWhile
import Mathlib.Tactic.SplitIfs

/-!
# Names in texts

What it means that a name stands at a place of a text (`Stands`) and that it is assigned there
(`IsAssigned`), said without a scanner: a text is cut in two or three, and the characters at the cuts are
looked at.

`split_spec` is what the scanner does. The names it finds and the chunks between them make up the text,
each name is the longest that stands at its place, and within a chunk no name starts to stand
(`Replaces`). So a text is cut in one way only, from left to right.

## Places

A place of a text is given by what is before it and what is behind it, so that a statement about a place
needs no positions. A name stands between `before` and `after` if there is a boundary on both sides of
it, a change between word characters and others, and if it is not assigned there. `Quiet` says of a
chunk that no name starts within it. That is a condition on what is behind the chunk too, as a name may
reach over its end.

## Main results

* `replaces_splitFrom`: the scanner finds what `Replaces` asks for.
* `split_spec`: so it does from the start of a text.
* `isAssigned_iff`: whether a name is assigned in a text.
-/

namespace Flowchart.Substitution

/-! ### Places of names -/

/-- An equals sign follows, blanks aside, and no second one. -/
def Assigns (after : List Char) : Prop :=
  ∃ blanks rest, after = blanks ++ '=' :: rest ∧ (∀ c ∈ blanks, Text.isBlank c = true) ∧
    rest.head? ≠ some '='

/-- One of the names stands between `before` and `after`, and is not assigned there. -/
structure Stands (names : List (List Char)) (before name after : List Char) : Prop where
  mem : name ∈ names
  ne_nil : name ≠ []
  starts : Text.boundary before.getLast? name.head? = true
  ends : Text.boundary name.getLast? after.head? = true
  free : ¬ Assigns after

/-- The name stands between `before` and `after`, and no longer one stands there. -/
structure StandsLongest (names : List (List Char)) (before name after : List Char) : Prop
    extends Stands names before name after where
  longest : ∀ other after', name ++ after = other ++ after' → Stands names before other after' →
    other.length ≤ name.length

/-- No name starts to stand in the chunk between `before` and `after`. -/
def Quiet (names : List (List Char)) (before chunk after : List Char) : Prop :=
  ∀ past rest name after', chunk = past ++ rest → rest ≠ [] → rest ++ after = name ++ after' →
    ¬ Stands names (before ++ past) name after'

/-- The text of names, each with the chunk after it. -/
def flat (found : List (List Char × List Char)) : List Char := found.flatMap fun p => p.1 ++ p.2

/-- What follows `before` is a chunk, and then names with a chunk after each: the names are those that
stand there, each the longest at its place, and there are no others. -/
def Replaces (names : List (List Char)) : (before chunk : List Char) →
    List (List Char × List Char) → Prop
  | before, chunk, [] => Quiet names before chunk []
  | before, chunk, (name, next) :: found =>
    Quiet names before chunk (flat ((name, next) :: found)) ∧
      StandsLongest names (before ++ chunk) name (next ++ flat found) ∧
      Replaces names (before ++ chunk ++ name) next found

/-- The text has a place where the name is assigned. -/
def IsAssigned (name text : List Char) : Prop :=
  name ≠ [] ∧ ∃ before after, text = before ++ name ++ after ∧
    Text.boundary before.getLast? name.head? = true ∧ Assigns after

/-- The scanner sees an assignment where one follows. -/
theorem assignmentFollows_iff {after : List Char} :
    assignmentFollows after = true ↔ Assigns after := by
  constructor
  · intro h
    rw [assignmentFollows] at h
    split at h
    next rest hrest =>
      refine ⟨after.takeWhile Text.isBlank, rest, ?_, fun c hc => List.mem_takeWhile_imp hc, ?_⟩
      · rw [← hrest, List.takeWhile_append_dropWhile]
      · simpa using h
    · exact absurd h Bool.noConfusion
  · rintro ⟨blanks, rest, rfl, hblanks, hrest⟩
    have hdrop : (blanks ++ '=' :: rest).dropWhile Text.isBlank = '=' :: rest := by
      rw [List.dropWhile_append_of_pos hblanks, List.dropWhile_cons_of_neg (by decide)]
    rw [assignmentFollows, hdrop]
    simpa using hrest

/-- Only names that are not empty count. -/
theorem Stands.congr {names names' : List (List Char)} {before name after : List Char}
    (h : Stands names before name after) (hnames : ∀ n, n ≠ [] → n ∈ names → n ∈ names') :
    Stands names' before name after :=
  { h with mem := hnames name h.ne_nil h.mem }

section Replaces

variable {names names' : List (List Char)} {before chunk : List Char}
  {found : List (List Char × List Char)}

/-- Which names are replaced depends on the names that are not empty alone. -/
theorem Replaces.congr (h : Replaces names before chunk found)
    (hnames : ∀ n, n ≠ [] → (n ∈ names ↔ n ∈ names')) : Replaces names' before chunk found := by
  have hquiet : ∀ {before chunk after}, Quiet names before chunk after →
      Quiet names' before chunk after := fun hq past rest name after' hcut hrest heq hstands =>
    hq past rest name after' hcut hrest heq (hstands.congr fun n hn => (hnames n hn).mpr)
  induction found generalizing before chunk with
  | nil => exact hquiet h
  | cons p found ih =>
      obtain ⟨name, next⟩ := p
      obtain ⟨hq, hlongest, hrest⟩ := h
      refine ⟨hquiet hq, ⟨hlongest.toStands.congr fun n hn => (hnames n hn).mp, ?_⟩, ih hrest⟩
      exact fun other after' heq hother =>
        hlongest.longest other after' heq (hother.congr fun n hn => (hnames n hn).mpr)

/-- What is replaced are names that are not empty. -/
theorem Replaces.mem (h : Replaces names before chunk found) :
    ∀ p ∈ found, p.1 ∈ names ∧ p.1 ≠ [] := by
  induction found generalizing before chunk with
  | nil => exact fun _ hp => absurd hp List.not_mem_nil
  | cons p found ih =>
      obtain ⟨name, next⟩ := p
      obtain ⟨-, hlongest, hrest⟩ := h
      rw [List.forall_mem_cons]
      exact ⟨⟨hlongest.mem, hlongest.ne_nil⟩, ih hrest⟩

end Replaces

/-! ### The scanner -/

section Scanner

variable {names : List (List Char)} {before cs : List Char}

/-- Ordering the names by length loses none. -/
theorem mem_longestFirst {name : List Char} : name ∈ longestFirst names ↔ name ∈ names :=
  List.mem_mergeSort

/-- Longer names come first. -/
theorem pairwise_longestFirst (names : List (List Char)) :
    (longestFirst names).Pairwise fun a b => b.length ≤ a.length := by
  let longer (a b : List Char) : Bool := decide (b.length ≤ a.length)
  have htrans : ∀ a b c, longer a b → longer b c → longer a c := fun a b c hab hbc =>
    decide_eq_true (Nat.le_trans (of_decide_eq_true hbc) (of_decide_eq_true hab))
  have htotal : ∀ a b, longer a b || longer b a := fun a b => by
    simp only [longer, Bool.or_eq_true, decide_eq_true_eq]
    exact Nat.le_total b.length a.length
  exact (List.pairwise_mergeSort htrans htotal names).imp fun h => of_decide_eq_true h

/-- What the scanner asks of a name at a place. -/
theorem fits_iff {name : List Char} :
    (match name.isPrefixOf? cs with
      | some rest => Text.boundary name.getLast? rest.head? && !assignmentFollows rest
      | none => false) = true ↔
    ∃ after, cs = name ++ after ∧ Text.boundary name.getLast? after.head? = true ∧
      ¬ Assigns after := by
  constructor
  · intro h
    split at h
    next after hafter =>
      rw [Bool.and_eq_true, Bool.not_eq_true', ← Bool.not_eq_true, assignmentFollows_iff] at h
      exact ⟨after, (List.isPrefixOf?_eq_some_iff_append_eq.mp hafter).symm, h⟩
    · exact absurd h Bool.noConfusion
  · rintro ⟨after, rfl, hends, hfree⟩
    rw [List.isPrefixOf?_eq_some_iff_append_eq.mpr rfl]
    rw [← assignmentFollows_iff, Bool.not_eq_true] at hfree
    simp only [hends, hfree, Bool.not_false, Bool.and_self]

/-- A name that is found stands there, and no longer one does. -/
theorem standsLongest_of_nameHere? {name : List Char} (hnil : [] ∉ names)
    (h : nameHere? (longestFirst names) before.getLast? cs = some name) :
    ∃ after, cs = name ++ after ∧ StandsLongest names before name after := by
  rw [nameHere?] at h
  split_ifs at h with hstart
  obtain ⟨hfits, longer, shorter, hnames, hbefore⟩ := List.find?_eq_some_iff_append.mp h
  obtain ⟨after, rfl, hends, hfree⟩ := fits_iff.mp hfits
  have hmem : name ∈ names := by
    rw [← mem_longestFirst, hnames]
    exact List.mem_append_right _ List.mem_cons_self
  have hne : name ≠ [] := fun heq => hnil (heq ▸ hmem)
  rw [List.head?_append_of_ne_nil _ hne] at hstart
  refine ⟨after, rfl, ⟨⟨hmem, hne, hstart, hends, hfree⟩, fun other after' heq hother => ?_⟩⟩
  -- names before the one that is found do not fit, and those after it are no longer
  have hother' := mem_longestFirst.mpr hother.mem
  rw [hnames, List.mem_append, List.mem_cons] at hother'
  rcases hother' with hlonger | rfl | hshorter
  · have hunfit := hbefore other hlonger
    rw [Bool.not_eq_true', ← Bool.not_eq_true] at hunfit
    exact absurd (fits_iff.mpr ⟨after', heq, hother.ends, hother.free⟩) hunfit
  · exact Nat.le_refl _
  · have hsorted := pairwise_longestFirst names
    rw [hnames, List.pairwise_append] at hsorted
    exact (List.pairwise_cons.mp hsorted.2.1).1 other hshorter

/-- Where the scanner finds no name, none stands. -/
theorem not_stands_of_nameHere? (h : nameHere? (longestFirst names) before.getLast? cs = none)
    {name after : List Char} (heq : cs = name ++ after) : ¬ Stands names before name after := by
  intro hstands
  subst heq
  rw [nameHere?, List.head?_append_of_ne_nil _ hstands.ne_nil, if_pos hstands.starts,
    List.find?_eq_none] at h
  exact h name (mem_longestFirst.mpr hstands.mem)
    (fits_iff.mpr ⟨after, rfl, hstands.ends, hstands.free⟩)

/-- The text of names is that of the first one, the chunk after it, and the others. -/
theorem flat_cons (name next : List Char) (found : List (List Char × List Char)) :
    flat ((name, next) :: found) = name ++ (next ++ flat found) := by
  rw [flat, List.flatMap_cons, List.append_assoc]
  rfl

/-- One more character at the start of a chunk, where no name stands. -/
theorem Replaces.cons {c : Char} {text : List Char} {found : List (List Char × List Char)}
    (h : Replaces names (before ++ [c]) text found)
    (hquiet : ∀ name after, c :: (text ++ flat found) = name ++ after →
      ¬ Stands names before name after) : Replaces names before (c :: text) found := by
  have hchunk : ∀ after, (∀ name after', c :: (text ++ after) = name ++ after' →
      ¬ Stands names before name after') → Quiet names (before ++ [c]) text after →
      Quiet names before (c :: text) after := by
    intro after hhere hlater past rest name after' hcut hrest heq
    cases past with
    | nil =>
        obtain rfl : c :: text = rest := hcut
        rw [List.append_nil]
        exact hhere name after' heq
    | cons d past =>
        obtain ⟨rfl, rfl⟩ := List.cons.inj hcut
        rw [List.append_cons]
        exact hlater past rest name after' rfl hrest heq
  cases found with
  | nil => exact hchunk [] hquiet h
  | cons p found =>
      obtain ⟨name, next⟩ := p
      obtain ⟨hlater, hlongest, hrest⟩ := h
      rw [← List.append_cons before c text] at hlongest hrest
      exact ⟨hchunk _ hquiet hlater, hlongest, hrest⟩

/-- Characters that belong to a name are passed over. -/
theorem splitFrom_append (names : List (List Char)) (before name after : List Char) :
    splitFrom names before.getLast? name.length (name ++ after) =
      splitFrom names (before ++ name).getLast? 0 after := by
  induction name generalizing before with
  | nil => rw [List.append_nil]; rfl
  | cons c name ih =>
      rw [List.length_cons, List.cons_append, splitFrom, List.append_cons before c name, ← ih,
        List.getLast?_concat]

/-- In an empty chunk no name starts. -/
theorem quiet_nil (names : List (List Char)) (before after : List Char) :
    Quiet names before [] after := fun _ _ _ _ hcut hrest =>
  absurd (List.append_eq_nil_iff.mp hcut.symm).2 hrest

/-- The names that are found in a text are replaced, and the chunks are what is left. -/
theorem replaces_splitFrom (hnil : [] ∉ names) (cs before : List Char) :
    let r := splitFrom (longestFirst names) before.getLast? 0 cs
    cs = r.1 ++ flat r.2 ∧ Replaces names before r.1 r.2 := by
  induction hlength : cs.length using Nat.strong_induction_on generalizing cs before with
  | _ n ih =>
      cases cs with
      | nil => exact ⟨rfl, quiet_nil names before []⟩
      | cons c cs =>
          have hlast : (before ++ [c]).getLast? = some c := List.getLast?_concat
          rw [splitFrom]
          split
          next name hname =>
            obtain ⟨after, hcut, hlongest⟩ := standsLongest_of_nameHere? hnil hname
            obtain ⟨d, tail, rfl⟩ := List.exists_cons_of_ne_nil hlongest.ne_nil
            rw [List.cons_append] at hcut
            obtain ⟨rfl, rfl⟩ := List.cons.inj hcut
            have hpassed : splitFrom (longestFirst names) (some c) tail.length (tail ++ after) =
                splitFrom (longestFirst names) (before ++ c :: tail).getLast? 0 after := by
              rw [← hlast, splitFrom_append, ← List.append_cons]
            obtain ⟨htext, hrest⟩ := ih after.length
              (by rw [← hlength, List.length_cons, List.length_append]; omega) after
              (before ++ c :: tail) rfl
            rw [List.length_cons, Nat.add_sub_cancel, hpassed]
            generalize splitFrom (longestFirst names) (before ++ c :: tail).getLast? 0 after = r at *
            refine ⟨?_, quiet_nil _ _ _, ?_, ?_⟩
            · rw [List.nil_append, flat_cons, ← htext]
              rfl
            · rw [List.append_nil, ← htext]
              exact hlongest
            · rw [List.append_nil]
              exact hrest
          next hnone =>
            have hshorter : cs.length < n := by rw [← hlength]; exact Nat.lt_succ_self _
            obtain ⟨htext, hrest⟩ := ih cs.length hshorter cs (before ++ [c]) rfl
            rw [hlast] at htext hrest
            generalize splitFrom (longestFirst names) (some c) 0 cs = r at *
            refine ⟨congrArg (c :: ·) htext, hrest.cons fun name after heq => ?_⟩
            rw [← htext] at heq
            exact not_stands_of_nameHere? hnone heq

/-- A text is what its names and its chunks make up, and no name is left in a chunk. -/
theorem split_spec (hnil : [] ∉ names) (text : List Char) :
    text = (split names text).1 ++ flat (split names text).2 ∧
      Replaces names [] (split names text).1 (split names text).2 :=
  replaces_splitFrom hnil text []

/-- The scanner for assignments finds them. -/
theorem assignedFrom_iff {name : List Char} (hne : name ≠ []) (cs before : List Char) :
    assignedFrom name before.getLast? cs = true ↔ ∃ past after, cs = past ++ name ++ after ∧
      Text.boundary (before ++ past).getLast? name.head? = true ∧ Assigns after := by
  induction cs generalizing before with
  | nil =>
      refine iff_of_false Bool.noConfusion ?_
      rintro ⟨past, after, hcut, -⟩
      simp [hne] at hcut
  | cons c cs ih =>
      have hrest := ih (before ++ [c])
      rw [List.getLast?_concat] at hrest
      have hhere : (Text.boundary before.getLast? (some c) &&
          match name.isPrefixOf? (c :: cs) with
          | some rest => assignmentFollows rest
          | none => false) = true ↔ ∃ after, c :: cs = name ++ after ∧
            Text.boundary before.getLast? name.head? = true ∧ Assigns after := by
        rw [Bool.and_eq_true]
        constructor
        · rintro ⟨hstart, hfollows⟩
          split at hfollows
          next after hafter =>
            have hcut := List.isPrefixOf?_eq_some_iff_append_eq.mp hafter
            refine ⟨after, hcut.symm, ?_, assignmentFollows_iff.mp hfollows⟩
            rw [← List.head?_append_of_ne_nil name hne, hcut]
            exact hstart
          · exact absurd hfollows Bool.noConfusion
        · rintro ⟨after, hcut, hstart, hassigns⟩
          rw [List.isPrefixOf?_eq_some_iff_append_eq.mpr hcut.symm]
          rw [← List.head?_append_of_ne_nil name hne, ← hcut] at hstart
          exact ⟨hstart, assignmentFollows_iff.mpr hassigns⟩
      rw [assignedFrom, Bool.or_eq_true, hrest]
      refine (or_congr hhere Iff.rfl).trans ⟨?_, ?_⟩
      · rintro (⟨after, hcut, hstart, hassigns⟩ | ⟨past, after, rfl, hstart, hassigns⟩)
        · exact ⟨[], after, hcut, by rw [List.append_nil]; exact hstart, hassigns⟩
        · exact ⟨c :: past, after, rfl, by rw [List.append_cons]; exact hstart, hassigns⟩
      · rintro ⟨past, after, hcut, hstart, hassigns⟩
        cases past with
        | nil => exact Or.inl ⟨after, hcut, by rw [← List.append_nil before]; exact hstart, hassigns⟩
        | cons d past =>
            rw [List.cons_append, List.cons_append] at hcut
            obtain ⟨rfl, rfl⟩ := List.cons.inj hcut
            exact Or.inr ⟨past, after, rfl, by rw [← List.append_cons]; exact hstart, hassigns⟩

/-- The scanner for assignments finds one where there is one. -/
theorem isAssigned_iff {name : List Char} (hne : name ≠ []) (text : List Char) :
    isAssigned name text = true ↔ IsAssigned name text :=
  (assignedFrom_iff hne text []).trans (and_iff_right hne).symm

end Scanner

instance (name text : List Char) : Decidable (IsAssigned name text) :=
  decidable_of_iff (name ≠ [] ∧ isAssigned name text = true)
    ⟨fun h => (isAssigned_iff h.1 text).mp h.2, fun h => ⟨h.1, (isAssigned_iff h.1 text).mpr h⟩⟩

end Flowchart.Substitution
