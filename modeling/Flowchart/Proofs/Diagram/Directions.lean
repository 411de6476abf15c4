import Flowchart.Proofs.Compile
import Flowchart.Proofs.Text.Words

/-!
# Which directions are left

Directives are looked for at the starts of lines, and blanks in them may be ends of lines. So whether a
directive begins at the start of a line is a matter of the words from there on: a keyword comes first, and
then a word with a direction to be replaced (`Directive.Begins`, `directiveHere?_eq_none_iff`). What is
written instead has the same words but for that direction (`Forced.turned`), and it has no other starts of
lines. Therefore a text that has been forced is clear of the directive (`Forced.clear`), and a text that
is clear stays as it is (`Clear.forceFrom_eq`).

The two directives have no keyword in common, and no keyword is a direction. So forcing the one keeps a
text clear of the other, and a text that is forced twice is forced once.

## Line convention

A line ends at a line feed and nowhere else, both for the directives looked for here and for the one that
`hasDirective` asks of a diagram. The lines of which `check` counts the subgraphs, edges and quotes are
those of `Text.lines`, which end at other line breaks too. So after a form feed or a carriage return
nothing is forced, although `check` starts a line there.

## How the replacing is followed

A directive that begins at some place covers a keyword, blanks and a direction, and a `Site` holds these
together with the text behind. `Forced` relates a text to what replacing makes of it, step by step: a
character is kept where no directive begins, and a site is turned. The texts on both sides then have the
same words up to directions (`Turned`), which is enough to see that no directive is left and that none
has come about.

## Main results

* `directions_forced`: forcing twice is forcing once, no directive with a direction to be replaced is
  left at the start of a line, and of the diagram of a graph only its first line is changed.
-/

namespace Flowchart.Diagram

/-! ### Directives as words -/

namespace Directive

/-- A word with a direction to be replaced comes first. -/
def Directs (d : Directive) (ws : List (List Char)) : Prop :=
  ∃ w ∈ d.directions, ∃ tail rest, ws = (w.toList ++ tail) :: rest ∧ Text.wordAt tail.head? = false

/-- A directive with a direction to be replaced comes first. -/
def Begins (d : Directive) (ws : List (List Char)) : Prop :=
  ∃ w ∈ d.keywords, ∃ rest, ws = w.toList :: rest ∧ d.Directs rest

/-- Words without blanks that are told apart by their first characters. -/
structure ToldApart (ws : List String) : Prop where
  ne_nil : ∀ w ∈ ws, w.toList ≠ []
  ink : ∀ w ∈ ws, w.toList.any Text.isBlank = false
  head : ∀ w ∈ ws, ∀ w' ∈ ws, w.toList.head? = w'.toList.head? → w = w'

/-- A directive whose words can be read in one way only, and whose forced direction is none of those that
are replaced. -/
structure Proper (d : Directive) : Prop where
  keywords : ToldApart d.keywords
  directions : ToldApart d.directions
  forced_ne_nil : d.forced.toList ≠ []
  forced_ink : d.forced.toList.any Text.isBlank = false
  forced_length : ∀ w ∈ d.directions, w.toList.length = d.forced.toList.length
  forced_not_mem : d.forced ∉ d.directions

/-- What is written for `d` makes no directive `d'`. -/
structure Spares (d d' : Directive) : Prop where
  keyword : d' = d ∨ ∀ w ∈ d.keywords, w ∉ d'.keywords
  direction : ∀ w ∈ d.keywords, ∀ w' ∈ d'.directions, w.toList.head? ≠ w'.toList.head?

/-- Words that are told apart have no blanks in them. -/
theorem ToldApart.isBlank_eq {ws : List String} {w : String} (h : ToldApart ws) (hw : w ∈ ws) :
    ∀ c ∈ w.toList, Text.isBlank c = false := by
  simpa using h.ink w hw

/-- The forced direction has no blanks in it. -/
theorem Proper.isBlank_forced {d : Directive} (h : d.Proper) :
    ∀ c ∈ d.forced.toList, Text.isBlank c = false := by
  simpa using h.forced_ink

/-- A directive that comes first does so whatever comes later. -/
theorem Begins.append {d : Directive} {ws : List (List Char)} (h : d.Begins ws)
    (ws' : List (List Char)) : d.Begins (ws ++ ws') := by
  obtain ⟨keyword, hkeyword, _, rfl, direction, hdirection, tail, rest, rfl, htail⟩ := h
  exact ⟨keyword, hkeyword, _, rfl, direction, hdirection, tail, rest ++ ws', rfl, htail⟩

end Directive

open Directive

/-- The directive of a diagram is proper. -/
theorem proper_flowchart : flowchartDirective.Proper where
  keywords := ⟨by decide, by decide, by decide⟩
  directions := ⟨by decide, by decide, by decide⟩
  forced_ne_nil := by decide
  forced_ink := by decide
  forced_length := by decide
  forced_not_mem := by decide

/-- The directive of a subgraph is proper. -/
theorem proper_subgraph : subgraphDirective.Proper where
  keywords := ⟨by decide, by decide, by decide⟩
  directions := ⟨by decide, by decide, by decide⟩
  forced_ne_nil := by decide
  forced_ink := by decide
  forced_length := by decide
  forced_not_mem := by decide

/-- What is written for a directive of a diagram makes no new one. -/
theorem Directive.Spares.refl_flowchart : flowchartDirective.Spares flowchartDirective :=
  ⟨Or.inl rfl, by decide⟩

/-- What is written for a directive of a subgraph makes no new one. -/
theorem Directive.Spares.refl_subgraph : subgraphDirective.Spares subgraphDirective :=
  ⟨Or.inl rfl, by decide⟩

/-- What is written for a directive of a subgraph makes none of a diagram. -/
theorem spares_subgraph_flowchart : subgraphDirective.Spares flowchartDirective :=
  ⟨Or.inr (by decide), by decide⟩

/-- A directive with a direction to be replaced, at the start of a text. -/
structure Directive.Site (d : Directive) where
  lead : List Char
  keyword : String
  gap : List Char
  direction : String
  rest : List Char
  lead_blank : Text.allBlank lead = true
  keyword_mem : keyword ∈ d.keywords
  gap_blank : Text.allBlank gap = true
  gap_ne_nil : gap ≠ []
  direction_mem : direction ∈ d.directions
  wordAt_rest : Text.wordAt rest.head? = false

namespace Directive.Site

variable {d : Directive} (s : d.Site)

/-- The text up to the end of the direction. -/
def covered : List Char := s.lead ++ s.keyword.toList ++ s.gap ++ s.direction.toList

/-- What is written for it. -/
def turned : List Char := s.lead ++ s.keyword.toList ++ ' ' :: d.forced.toList

end Directive.Site

/-! ### Reading a directive -/

section Reading

variable {d : Directive} {ws : List String} {w : String} {cs rest : List Char}

/-- What comes after a word comes after one of the words looked for. -/
theorem exists_of_afterWord? (h : afterWord? ws cs = some rest) :
    ∃ w ∈ ws, cs = w.toList ++ rest := by
  obtain ⟨w, hw, hprefix⟩ := List.exists_of_findSome?_eq_some h
  exact ⟨w, hw, (List.isPrefixOf?_eq_some_iff_append_eq.mp hprefix).symm⟩

/-- A word that comes first is found. -/
theorem afterWord?_append (hws : ToldApart ws) (hw : w ∈ ws) (rest : List Char) :
    afterWord? ws (w.toList ++ rest) = some rest := by
  cases hafter : afterWord? ws (w.toList ++ rest) with
  | none =>
      have hnone := List.findSome?_eq_none_iff.mp hafter w hw
      rw [List.isPrefixOf?_eq_some_iff_append_eq.mpr rfl] at hnone
      exact absurd hnone nofun
  | some rest' =>
      obtain ⟨w', hw', heq⟩ := exists_of_afterWord? hafter
      have hhead : w.toList.head? = w'.toList.head? := by
        have := congrArg List.head? heq
        rwa [List.head?_append_of_ne_nil _ (hws.ne_nil w hw),
          List.head?_append_of_ne_nil _ (hws.ne_nil w' hw')] at this
      obtain rfl := hws.head w hw w' hw' hhead
      rw [List.append_cancel_left heq]

/-- A word starts with no blank. -/
theorem isBlank_of_mem_head? (hws : ToldApart ws) (hw : w ∈ ws) (rest : List Char) :
    ∀ c ∈ (w.toList ++ rest).head?, Text.isBlank c = false := by
  intro c hc
  rw [List.head?_append_of_ne_nil _ (hws.ne_nil w hw)] at hc
  exact hws.isBlank_eq hw c (List.mem_of_head? hc)

namespace Directive.Site

variable (s : d.Site)

/-- The directive with all that is between its words. -/
theorem covered_append (rest : List Char) : s.covered ++ rest =
    s.lead ++ (s.keyword.toList ++ (s.gap ++ (s.direction.toList ++ rest))) := by
  simp only [covered, List.append_assoc]

/-- A directive is read as it stands there. -/
theorem directiveHere?_eq (hd : d.Proper) : directiveHere? d (s.covered ++ s.rest) =
    some ((s.lead ++ s.keyword.toList).length, s.covered.length) := by
  have hkeyword := isBlank_of_mem_head? hd.keywords s.keyword_mem
    (s.gap ++ (s.direction.toList ++ s.rest))
  have hdirection := isBlank_of_mem_head? hd.directions s.direction_mem s.rest
  have hgap : 0 < s.gap.length := List.length_pos_iff.mpr s.gap_ne_nil
  rw [s.covered_append, directiveHere?, Text.dropWhile_blanks_append s.lead_blank hkeyword,
    afterWord?_append hd.keywords s.keyword_mem]
  simp only [Option.bind_eq_bind, Option.bind_some,
    Text.dropWhile_blanks_append s.gap_blank hdirection,
    afterWord?_append hd.directions s.direction_mem, s.wordAt_rest, Bool.false_eq_true, if_false]
  rw [if_pos (by simp; omega)]
  simp [covered]
  omega

/-- Its words are the keyword and a word with the direction. -/
theorem words_eq (hd : d.Proper) : Text.words (s.covered ++ s.rest) = s.keyword.toList ::
    (s.direction.toList ++ Text.upToBlank s.rest) :: Text.words (Text.fromBlank s.rest) := by
  obtain ⟨g, gap, hgap⟩ := List.exists_cons_of_ne_nil s.gap_ne_nil
  have hblank : Text.isBlank g = true := by
    have hall := s.gap_blank
    rw [hgap] at hall
    exact List.all_eq_true.mp hall g List.mem_cons_self
  rw [s.covered_append, Text.words_append_of_allBlank s.lead_blank,
    Text.words_append_of_not_isBlank (hd.keywords.ne_nil _ s.keyword_mem)
      (hd.keywords.isBlank_eq s.keyword_mem)]
  rw [hgap, List.cons_append, Text.upToBlank_cons_of_isBlank hblank,
    Text.fromBlank_cons_of_isBlank hblank, ← List.cons_append, ← hgap, List.append_nil,
    Text.words_append_of_allBlank s.gap_blank,
    Text.words_append_of_not_isBlank (hd.directions.ne_nil _ s.direction_mem)
      (hd.directions.isBlank_eq s.direction_mem)]

/-- The words of what is written are the keyword and a word with the forced direction. -/
theorem words_turned (hd : d.Proper) (out : List Char) : Text.words (s.turned ++ out) =
    s.keyword.toList :: (d.forced.toList ++ Text.upToBlank out) :: Text.words (Text.fromBlank out) := by
  have hspace : Text.isBlank ' ' = true := by decide
  rw [turned, List.append_assoc, List.append_assoc, List.cons_append,
    Text.words_append_of_allBlank s.lead_blank,
    Text.words_append_of_not_isBlank (hd.keywords.ne_nil _ s.keyword_mem)
      (hd.keywords.isBlank_eq s.keyword_mem),
    Text.upToBlank_cons_of_isBlank hspace, Text.fromBlank_cons_of_isBlank hspace, List.append_nil,
    Text.words_cons_of_isBlank hspace,
    Text.words_append_of_not_isBlank hd.forced_ne_nil hd.isBlank_forced]

/-- Behind a direction no word character follows. -/
theorem wordAt_upToBlank : Text.wordAt (Text.upToBlank s.rest).head? = false := by
  have hword := s.wordAt_rest
  cases hrest : s.rest with
  | nil => rfl
  | cons c rest =>
      cases hc : Text.isBlank c with
      | true =>
          rw [Text.upToBlank_cons_of_isBlank hc]
          rfl
      | false =>
          rw [Text.upToBlank_cons hc]
          rwa [hrest] at hword

/-- Where a directive was found, it comes first among the words. -/
theorem begins (hd : d.Proper) : d.Begins (Text.words (s.covered ++ s.rest)) :=
  ⟨s.keyword, s.keyword_mem, _, s.words_eq hd, s.direction, s.direction_mem, _, _, rfl,
    s.wordAt_upToBlank⟩

end Directive.Site

/-- What is read as a directive is one. -/
theorem exists_site_of_directiveHere? {p : Nat × Nat} (h : directiveHere? d cs = some p) :
    ∃ s : d.Site, cs = s.covered ++ s.rest := by
  obtain ⟨after, hafter, h⟩ := Option.bind_eq_some_iff.mp h
  obtain ⟨keyword, hkeyword, hcs⟩ := exists_of_afterWord? hafter
  dsimp only at h
  split_ifs at h with hlt
  obtain ⟨rest, hrest, h⟩ := Option.bind_eq_some_iff.mp h
  obtain ⟨direction, hdirection, hdir⟩ := exists_of_afterWord? hrest
  split_ifs at h with hword
  have hsplit := List.takeWhile_append_dropWhile (p := Text.isBlank) (l := after)
  have hgap : after.takeWhile Text.isBlank ≠ [] := by
    intro hnil
    rw [hnil, List.nil_append] at hsplit
    rw [hsplit] at hlt
    exact Nat.lt_irrefl _ hlt
  refine ⟨⟨cs.takeWhile Text.isBlank, keyword, after.takeWhile Text.isBlank, direction, rest,
    List.all_takeWhile, hkeyword, List.all_takeWhile, hgap, hdirection, by simpa using hword⟩, ?_⟩
  rw [Site.covered_append, ← hdir, hsplit, ← hcs, List.takeWhile_append_dropWhile]

/-- A directive that comes first by its words stands at the start of the text. -/
theorem exists_site_of_begins (hd : d.Proper) (h : d.Begins (Text.words cs)) :
    ∃ s : d.Site, cs = s.covered ++ s.rest := by
  obtain ⟨keyword, hkeyword, ws, hcs, direction, hdirection, tail, ws', rfl, htail⟩ := h
  obtain ⟨lead, after, rfl, hlead, hafter, -, hblank⟩ := Text.exists_of_words_eq_cons hcs
  obtain ⟨gap, rest, rfl, hgap, -, -, hblank'⟩ := Text.exists_of_words_eq_cons hafter
  have hne : gap ≠ [] := by
    rintro rfl
    rw [List.nil_append, List.append_assoc] at hblank
    obtain ⟨c, cs, hc⟩ := List.exists_cons_of_ne_nil (hd.directions.ne_nil _ hdirection)
    have hink := hd.directions.isBlank_eq hdirection c (hc ▸ List.mem_cons_self)
    rw [hblank c (by rw [hc]; rfl)] at hink
    exact Bool.noConfusion hink
  have hword : Text.wordAt (tail ++ rest).head? = false := by
    cases tail with
    | cons c tail => exact htail
    | nil =>
        cases rest with
        | nil => rfl
        | cons c rest => exact Text.isWord_eq_false_of_isBlank (hblank' c rfl)
  refine ⟨⟨lead, keyword, gap, direction, tail ++ rest, hlead, hkeyword, hgap, hne, hdirection,
    hword⟩, ?_⟩
  simp only [Site.covered_append, List.append_assoc]

/-- No directive is found exactly where none comes first among the words. -/
theorem directiveHere?_eq_none_iff (hd : d.Proper) :
    directiveHere? d cs = none ↔ ¬d.Begins (Text.words cs) := by
  constructor
  · intro hnone hbegins
    obtain ⟨s, rfl⟩ := exists_site_of_begins hd hbegins
    rw [s.directiveHere?_eq hd] at hnone
    exact Option.some_ne_none _ hnone
  · intro hnot
    refine Option.eq_none_iff_forall_ne_some.mpr fun p hp => hnot ?_
    obtain ⟨s, rfl⟩ := exists_site_of_directiveHere? hp
    exact s.begins hd

end Reading

/-! ### One directive after another -/

/-- Forcing a directive, at the start of a line or within one: characters are kept, but for the
directives that begin at the starts of lines. -/
inductive Forced (d : Directive) : Bool → List Char → List Char → Prop
  | nil {atStart : Bool} : Forced d atStart [] []
  | keep {atStart : Bool} {c : Char} {cs out : List Char} :
      (atStart = true → ¬d.Begins (Text.words (c :: cs))) → Forced d (c == '\n') cs out →
      Forced d atStart (c :: cs) (c :: out)
  | turn (s : d.Site) {out : List Char} : Forced d false s.rest out →
      Forced d true (s.covered ++ s.rest) (s.turned ++ out)

/-- Words with some directions replaced, each after a keyword. -/
inductive Turned (d : Directive) : List (List Char) → List (List Char) → Prop
  | nil : Turned d [] []
  | keep (w : List Char) {ws ws' : List (List Char)} : Turned d ws ws' → Turned d (w :: ws) (w :: ws')
  | turn {keyword direction : String} {tail : List Char} {ws ws' : List (List Char)} :
      keyword ∈ d.keywords → direction ∈ d.directions → Text.wordAt tail.head? = false →
      Turned d ws ws' → Turned d (keyword.toList :: (direction.toList ++ tail) :: ws)
        (keyword.toList :: (d.forced.toList ++ tail) :: ws')

/-- At the start of no line a directive begins. -/
def Clear (d : Directive) : (atStart : Bool) → List Char → Prop
  | _, [] => True
  | atStart, c :: cs => (atStart = true → ¬d.Begins (Text.words (c :: cs))) ∧ Clear d (c == '\n') cs

section Forcing

variable {d d' : Directive} {atStart : Bool} {cs out : List Char} {ws ws' : List (List Char)}

/-- Characters that have been covered are skipped, up to one that ends no line. -/
theorem forceFrom_skip {xs : List Char} (hne : xs ≠ []) (hlast : '\n' ∉ xs.getLast?)
    (atStart : Bool) (rest : List Char) :
    forceFrom d atStart xs.length (xs ++ rest) = forceFrom d false 0 rest := by
  induction xs generalizing atStart with
  | nil => exact absurd rfl hne
  | cons x xs ih =>
      cases xs with
      | nil =>
          have hx : (x == '\n') = false := by
            refine beq_false_of_ne ?_
            rintro rfl
            exact hlast rfl
          change forceFrom d (x == '\n') 0 rest = _
          rw [hx]
      | cons y ys => exact ih (List.cons_ne_nil y ys) hlast (x == '\n')

/-- Nothing is replaced where no directive begins. -/
theorem forceFrom_keep (hd : d.Proper) {c : Char}
    (h : atStart = true → ¬d.Begins (Text.words (c :: cs))) :
    forceFrom d atStart 0 (c :: cs) = c :: forceFrom d (c == '\n') 0 cs := by
  have hnone : (if atStart = true then directiveHere? d (c :: cs) else none) = none := by
    split_ifs with hstart
    · exact (directiveHere?_eq_none_iff hd).mpr (h hstart)
    · rfl
  simp only [forceFrom, hnone]

/-- A directive that begins at the start of a line is replaced. -/
theorem forceFrom_turn (hd : d.Proper) (s : d.Site) : forceFrom d true 0 (s.covered ++ s.rest) =
    s.turned ++ forceFrom d false 0 s.rest := by
  have hhere := s.directiveHere?_eq hd
  have htake : (s.covered ++ s.rest).take (s.lead ++ s.keyword.toList).length =
      s.lead ++ s.keyword.toList := by
    rw [Site.covered, List.append_assoc, List.append_assoc, List.take_left]
  obtain ⟨c, xs, hxs⟩ : ∃ c xs, s.lead ++ s.keyword.toList ++ s.gap = c :: xs :=
    List.exists_cons_of_ne_nil (List.append_ne_nil_of_right_ne_nil _ s.gap_ne_nil)
  have hcovered : s.covered = c :: (xs ++ s.direction.toList) := by
    rw [Site.covered, hxs, List.cons_append]
  have hne : xs ++ s.direction.toList ≠ [] :=
    List.append_ne_nil_of_right_ne_nil _ (hd.directions.ne_nil _ s.direction_mem)
  have hlast : '\n' ∉ (xs ++ s.direction.toList).getLast? := by
    rw [List.getLast?_append_of_ne_nil _ (hd.directions.ne_nil _ s.direction_mem)]
    intro hmem
    have hink := hd.directions.isBlank_eq s.direction_mem _ (List.mem_of_getLast? hmem)
    exact absurd hink (by decide)
  rw [hcovered, List.length_cons, List.cons_append] at hhere
  rw [hcovered, List.cons_append] at htake
  rw [hcovered, List.cons_append]
  simp only [forceFrom, if_true, hhere, htake, Nat.add_sub_cancel, forceFrom_skip hne hlast,
    Site.turned]

/-- This is what forcing does. -/
theorem forced_forceFrom (hd : d.Proper) (atStart : Bool) (cs : List Char) :
    Forced d atStart cs (forceFrom d atStart 0 cs) := by
  induction hn : cs.length using Nat.strong_induction_on generalizing atStart cs with
  | h n ih =>
      subst hn
      cases cs with
      | nil => exact .nil
      | cons c cs =>
          by_cases h : atStart = true → ¬d.Begins (Text.words (c :: cs))
          · rw [forceFrom_keep hd h]
            exact .keep h (ih _ (Nat.lt_succ_self _) _ _ rfl)
          · obtain ⟨rfl, hbegins⟩ := Classical.not_imp.mp h
            obtain ⟨s, hs⟩ := exists_site_of_begins hd (Classical.not_not.mp hbegins)
            rw [hs, forceFrom_turn hd]
            refine .turn s (ih _ ?_ _ _ rfl)
            have hgap := List.length_pos_iff.mpr s.gap_ne_nil
            rw [hs, Site.covered]
            simp only [List.length_append]
            omega

/-- A text that is clear stays as it is. -/
theorem Clear.forceFrom_eq (hd : d.Proper) (h : Clear d atStart cs) :
    forceFrom d atStart 0 cs = cs := by
  induction cs generalizing atStart with
  | nil => rfl
  | cons c cs ih => rw [forceFrom_keep hd h.1, ih h.2]

/-! ### What is left -/

/-- The words stay the same but for the directions that are replaced. Within a line the first word stays
the same too. -/
theorem Forced.turned (hd : d.Proper) (h : Forced d atStart cs out) :
    Turned d (Text.words cs) (Text.words out) ∧
      (atStart = false → Text.upToBlank out = Text.upToBlank cs ∧
        Turned d (Text.words (Text.fromBlank cs)) (Text.words (Text.fromBlank out))) := by
  induction h with
  | nil => exact ⟨.nil, fun _ => ⟨rfl, .nil⟩⟩
  | @keep atStart c cs out _ _ ih =>
      obtain ⟨hwords, hwithin⟩ := ih
      cases hc : Text.isBlank c with
      | true =>
          have hall : Turned d (Text.words (c :: cs)) (Text.words (c :: out)) := by
            rwa [Text.words_cons_of_isBlank hc, Text.words_cons_of_isBlank hc]
          rw [Text.upToBlank_cons_of_isBlank hc, Text.upToBlank_cons_of_isBlank hc,
            Text.fromBlank_cons_of_isBlank hc, Text.fromBlank_cons_of_isBlank hc]
          exact ⟨hall, fun _ => ⟨rfl, hall⟩⟩
      | false =>
          have hfeed : (c == '\n') = false := by
            refine beq_false_of_ne ?_
            rintro rfl
            exact absurd hc (by decide)
          obtain ⟨hup, hfrom⟩ := hwithin hfeed
          rw [Text.words_cons hc, Text.words_cons hc, Text.upToBlank_cons hc, Text.upToBlank_cons hc,
            Text.fromBlank_cons hc, Text.fromBlank_cons hc, hup]
          exact ⟨.keep _ hfrom, fun _ => ⟨rfl, hfrom⟩⟩
  | turn s _ ih =>
      obtain ⟨hup, hfrom⟩ := ih.2 rfl
      rw [s.words_eq hd, s.words_turned hd, hup]
      exact ⟨.turn s.keyword_mem s.direction_mem s.wordAt_upToBlank hfrom, nofun⟩

/-- A direction to be replaced that comes first after turning came first before. -/
theorem Turned.directs (hd' : d'.Proper) (hspares : d.Spares d') (h : Turned d ws ws')
    (hdirects : d'.Directs ws') : d'.Directs ws := by
  obtain ⟨direction, hdirection, tail, rest, hws, htail⟩ := hdirects
  cases h with
  | nil => exact absurd hws.symm (List.cons_ne_nil _ _)
  | keep w h =>
      obtain ⟨rfl, rfl⟩ := List.cons.inj hws
      exact ⟨direction, hdirection, tail, _, rfl, htail⟩
  | @turn keyword _ _ _ _ hkeyword _ _ h =>
      -- a keyword would start with the direction
      have hhead : keyword.toList.head? = direction.toList.head? := by
        rw [(List.cons.inj hws).1, List.head?_append_of_ne_nil _ (hd'.directions.ne_nil _ hdirection)]
      exact absurd hhead (hspares.direction _ hkeyword _ hdirection)

/-- What is written makes no directive of the words. -/
theorem Turned.begins (hd' : d'.Proper) (hspares : d.Spares d') (h : Turned d ws ws')
    (hbegins : d'.Begins ws') : d'.Begins ws := by
  obtain ⟨keyword, hkeyword, rest, hws, hdirects⟩ := hbegins
  cases h with
  | nil => exact absurd hws.symm (List.cons_ne_nil _ _)
  | keep w h =>
      obtain ⟨rfl, rfl⟩ := List.cons.inj hws
      exact ⟨keyword, hkeyword, _, rfl, h.directs hd' hspares hdirects⟩
  | @turn keyword' direction tail _ _ hkeyword' hdirection htail h =>
      obtain rfl : keyword' = keyword := String.toList_inj.mp (List.cons.inj hws).1
      rcases hspares.keyword with rfl | hapart
      · exact ⟨keyword', hkeyword, _, rfl, direction, hdirection, tail, _, rfl, htail⟩
      · exact absurd hkeyword (hapart _ hkeyword')

/-- A line in which no directive begins. -/
theorem clear_append {xs : List Char} (hne : xs ≠ []) (hxs : '\n' ∉ xs)
    (hstart : atStart = true → ¬d.Begins (Text.words (xs ++ cs))) (h : Clear d false cs) :
    Clear d atStart (xs ++ cs) := by
  induction xs generalizing atStart with
  | nil => exact absurd rfl hne
  | cons x xs ih =>
      have hx : (x == '\n') = false := beq_false_of_ne fun heq => hxs (heq ▸ List.mem_cons_self)
      refine ⟨hstart, ?_⟩
      rw [hx]
      cases xs with
      | nil => exact h
      | cons y ys =>
          exact ih (List.cons_ne_nil y ys) (fun hmem => hxs (List.mem_cons_of_mem x hmem)) nofun

/-- The lines that blanks make begin with the words that follow. -/
theorem clear_blanks_append {blanks : List Char} (hblanks : Text.allBlank blanks = true)
    (hstart : ¬d.Begins (Text.words cs)) (h : ∀ atStart, Clear d atStart cs) :
    Clear d atStart (blanks ++ cs) := by
  induction blanks generalizing atStart with
  | nil => exact h atStart
  | cons x xs ih =>
      obtain ⟨-, hxs⟩ := List.forall_mem_cons.mp (List.all_eq_true.mp hblanks)
      refine ⟨fun _ hbegins => hstart ?_, ih (List.all_eq_true.mpr hxs)⟩
      rwa [← Text.words_append_of_allBlank hblanks]

/-- The rest of a clear text is clear. -/
theorem Clear.of_append {xs : List Char} (h : Clear d atStart (xs ++ cs)) : Clear d false cs := by
  induction xs generalizing atStart with
  | nil =>
      cases cs with
      | nil => trivial
      | cons c cs => exact ⟨nofun, h.2⟩
  | cons x xs ih => exact ih h.2

/-- A keyword with the forced direction is no directive. -/
theorem not_begins_turned (hd : d.Proper) (hspares : d.Spares d') (s : d.Site) (out : List Char) :
    ¬d'.Begins (Text.words (s.turned ++ out)) := by
  rw [s.words_turned hd]
  rintro ⟨keyword, hkeyword, rest, hws, direction, hdirection, tail, rest', rfl, -⟩
  obtain ⟨hhead, hws⟩ := List.cons.inj hws
  have heq : s.keyword = keyword := String.toList_inj.mp hhead
  rcases hspares.keyword with rfl | hapart
  · have hforced := List.append_inj_left (List.cons.inj hws).1 (hd.forced_length _ hdirection).symm
    exact hd.forced_not_mem (String.toList_inj.mp hforced ▸ hdirection)
  · exact hapart _ s.keyword_mem (heq ▸ hkeyword)

/-- What is written for a directive is clear, if the text behind it is. -/
theorem clear_turned (hd : d.Proper) (hspares : d.Spares d') (s : d.Site) (h : Clear d' false out) :
    Clear d' true (s.turned ++ out) := by
  have hnot := not_begins_turned hd hspares s out
  have hink : ∀ c ∈ s.keyword.toList ++ ' ' :: d.forced.toList, c ≠ '\n' := by
    rintro c hc rfl
    rcases List.mem_append.mp hc with hc | hc
    · exact absurd (hd.keywords.isBlank_eq s.keyword_mem _ hc) (by decide)
    · rcases List.mem_cons.mp hc with hc | hc
      · exact absurd hc (by decide)
      · exact absurd (hd.isBlank_forced _ hc) (by decide)
  rw [Site.turned, List.append_assoc, List.append_assoc, ← List.append_assoc s.keyword.toList] at hnot ⊢
  rw [Text.words_append_of_allBlank s.lead_blank] at hnot
  refine clear_blanks_append s.lead_blank hnot fun atStart => ?_
  refine clear_append ?_ (fun hmem => hink _ hmem rfl) (fun _ => hnot) h
  exact List.append_ne_nil_of_right_ne_nil _ (List.cons_ne_nil _ _)

/-- What has been forced is clear of the directive, and of another one if it was before. -/
theorem Forced.clear (hd : d.Proper) (hd' : d'.Proper) (hspares : d.Spares d')
    (h : Forced d atStart cs out) (hcs : d' = d ∨ Clear d' atStart cs) : Clear d' atStart out := by
  induction h with
  | nil => trivial
  | @keep atStart c cs out hnot h ih =>
      refine ⟨fun hstart hbegins => ?_, ih (hcs.imp_right And.right)⟩
      have hturned := (Forced.keep hnot h).turned hd
      have hbefore := hturned.1.begins hd' hspares hbegins
      rcases hcs with rfl | hcs
      · exact hnot hstart hbefore
      · exact hcs.1 hstart hbefore
  | turn s h ih => exact clear_turned hd hspares s (ih (hcs.imp_right Clear.of_append))

/-- At the start of no line of a clear text a directive begins. -/
theorem Clear.not_begins {before line after : List Char}
    (h : Clear d atStart (before ++ (line ++ after)))
    (hbefore : before = [] ∧ atStart = true ∨ before.getLast? = some '\n')
    (hafter : after = [] ∨ after.head? = some '\n') : ¬d.Begins (Text.words line) := by
  induction before generalizing atStart with
  | nil =>
      obtain ⟨-, rfl⟩ := hbefore.resolve_right nofun
      intro hbegins
      obtain ⟨ws, hwords⟩ : ∃ ws, Text.words (line ++ after) = Text.words line ++ ws := by
        cases after with
        | nil => exact ⟨[], by simp⟩
        | cons c after =>
            obtain rfl : c = '\n' := Option.some.inj (hafter.resolve_left (List.cons_ne_nil _ _))
            exact ⟨_, Text.wordsFrom_append_cons (by decide) [] line after⟩
      have hlonger : d.Begins (Text.words (line ++ after)) := hwords ▸ hbegins.append ws
      rw [List.nil_append] at h
      cases hall : line ++ after with
      | nil =>
          rw [hall] at hlonger
          obtain ⟨_, _, _, hnil, _⟩ := hlonger
          exact absurd hnil.symm (List.cons_ne_nil _ _)
      | cons c cs =>
          rw [hall] at h hlonger
          exact h.1 rfl hlonger
  | cons x before ih =>
      refine ih h.2 ?_
      cases before with
      | nil =>
          obtain rfl : x = '\n' := Option.some.inj (hbefore.resolve_left nofun)
          exact Or.inl ⟨rfl, rfl⟩
      | cons y before => exact Or.inr (hbefore.resolve_left nofun)

end Forcing

/-! ### Both directives -/

/-- A text that has been forced is clear of both directives. -/
theorem clear_forceTopDown (text : String) :
    Clear flowchartDirective true (forceTopDown text).toList ∧
      Clear subgraphDirective true (forceTopDown text).toList := by
  have hfirst := (forced_forceFrom proper_flowchart true text.toList).clear proper_flowchart
    proper_flowchart Spares.refl_flowchart (Or.inl rfl)
  have hforced := forced_forceFrom proper_subgraph true
    (forceFrom flowchartDirective true 0 text.toList)
  rw [forceTopDown, String.toList_ofList]
  exact ⟨hforced.clear proper_subgraph proper_flowchart spares_subgraph_flowchart (Or.inr hfirst),
    hforced.clear proper_subgraph proper_subgraph Spares.refl_subgraph (Or.inl rfl)⟩

/-- A text that has been forced stays as it is. -/
theorem forceTopDown_forced (text : String) :
    forceTopDown (forceTopDown text) = forceTopDown text := by
  obtain ⟨hflowchart, hsubgraph⟩ := clear_forceTopDown text
  rw [forceTopDown, hflowchart.forceFrom_eq proper_flowchart,
    hsubgraph.forceFrom_eq proper_subgraph, String.ofList_toList]

/-! ### Graphs in another direction -/

section Graphs

/-- The scopes of a graph do not depend on its direction. -/
theorem scope_direction (g : Graph) (direction : String) (fuel : Nat) (parent : Option String)
    (depth : Nat) : scope { g with direction } fuel parent depth = scope g fuel parent depth := by
  induction fuel generalizing parent depth with
  | zero => rfl
  | succ fuel ih =>
      rw [scope, scope]
      simp only [ih]
      rfl

/-- The lines of nodes, edges and styles do not depend on the direction. -/
theorem bodyLines_direction (g : Graph) (direction : String) :
    bodyLines { g with direction } = bodyLines g := by
  rw [bodyLines, bodyLines, scope_direction]

/-- The text of a diagram is its directive and then the lines of its body. -/
theorem toList_render_direction (g : Graph) (direction : String) :
    (render { g with direction }).toList = "flowchart ".toList ++ direction.toList ++
      '\n' :: ((bodyLines g).map String.toList).flatMap (· ++ ['\n']) := by
  rw [render, bodyLines_direction, toList_joinLines, List.map_cons, List.flatMap_cons,
    String.toList_append, List.append_assoc _ ['\n'], List.singleton_append]

/-- The text after the first line does not depend on the direction. -/
theorem body_render_direction (g : Graph) {direction : String} (h : '\n' ∉ direction.toList) :
    body (render { g with direction }) =
      ((bodyLines g).map String.toList).flatMap (· ++ ['\n']) := by
  have hfirst : ∀ c ∈ "flowchart ".toList ++ direction.toList, (c != '\n') = true := by
    intro c hc
    refine bne_iff_ne.mpr ?_
    rintro rfl
    exact (List.mem_append.mp hc).elim (by decide) h
  rw [body, toList_render_direction, List.dropWhile_append_of_pos hfirst,
    List.dropWhile_cons_of_neg (by decide), List.tail_cons]

/-- The first line of a diagram in a direction that is to be replaced. -/
theorem forceFrom_flowchart {direction : String} (h : direction ∈ flowchartDirective.directions)
    (rest : List Char) : forceFrom flowchartDirective true 0
      ("flowchart ".toList ++ direction.toList ++ '\n' :: rest) =
        "flowchart TD".toList ++ forceFrom flowchartDirective false 0 ('\n' :: rest) := by
  let s : flowchartDirective.Site := ⟨[], "flowchart", [' '], direction, '\n' :: rest, rfl,
    List.mem_cons_self, rfl, List.cons_ne_nil _ _, h, rfl⟩
  have hspace : "flowchart".toList ++ [' '] = "flowchart ".toList := by decide
  have hcovered : s.covered = "flowchart ".toList ++ direction.toList := by
    rw [← hspace, Site.covered, List.nil_append]
  have hforced : "flowchart".toList ++ ' ' :: "TD".toList = "flowchart TD".toList := by decide
  have hturned : s.turned = "flowchart TD".toList := by
    rw [← hforced, Site.turned, List.nil_append]
    rfl
  have hturn := forceFrom_turn proper_flowchart s
  rwa [hcovered, hturned] at hturn

/-- The directive of a diagram is forced, whatever its direction, and the lines after it stay. -/
theorem forceTopDown_direction {g : Graph} (h : g.Writable) {direction : String}
    (hdirection : direction ∈ ["TD", "TB", "LR", "RL", "BT"]) :
    forceTopDown (render { g with direction }) = joinLines ("flowchart TD" :: bodyLines g) := by
  set rest := ((bodyLines g).map String.toList).flatMap (· ++ ['\n']) with hrest
  have hlines : (joinLines ("flowchart TD" :: bodyLines g)).toList =
      (diagramLines g).flatMap (· ++ ['\n']) := toList_joinLines ..
  have htext : (diagramLines g).flatMap (· ++ ['\n']) = "flowchart TD".toList ++ '\n' :: rest := by
    rw [diagramLines, List.flatMap_cons, List.append_assoc, List.singleton_append]
  have htidy := (nested_diagramLines h).tidy
  have hflowchart : forceFrom flowchartDirective true 0 (render { g with direction }).toList =
      (diagramLines g).flatMap (· ++ ['\n']) := by
    rw [toList_render_direction, ← hrest]
    rcases List.mem_cons.mp hdirection with rfl | hdirection
    · have hsame : "flowchart ".toList ++ "TD".toList ++ '\n' :: rest =
          (diagramLines g).flatMap (· ++ ['\n']) := htext.symm
      rw [hsame, forceFrom_tidy (by simp) htidy]
    · have hmem : direction ∈ flowchartDirective.directions := by
        have hsub : ["TB", "LR", "RL", "BT"] ⊆ flowchartDirective.directions := by decide
        exact hsub hdirection
      have hkept : forceFrom flowchartDirective false 0 ('\n' :: rest) = '\n' :: rest :=
        congrArg ('\n' :: ·) (forceFrom_tidy (by simp) (nested_bodyLines h).tidy)
      rw [forceFrom_flowchart hmem, hkept, htext]
  rw [← String.toList_inj, forceTopDown, hflowchart, forceFrom_tidy (by simp) htidy,
    String.toList_ofList, hlines]

/-- A diagram is drawn top down, whatever the direction of its graph. -/
theorem assemble_direction (s : Settings) {g : Graph} (h : g.Writable) {direction : String}
    (hdirection : direction ∈ ["TD", "TB", "LR", "RL", "BT"]) :
    assemble s { g with direction } = assemble s g := by
  have hg : { g with direction := "TD" } = g := by rw [← h.direction_eq]
  have hfeed : ∀ w ∈ ["TD", "TB", "LR", "RL", "BT"], '\n' ∉ w.toList := by decide
  have hbody : body (render { g with direction }) = body (render { g with direction := "TD" }) := by
    rw [body_render_direction g (hfeed _ hdirection), body_render_direction g (by decide)]
  have htext : forceTopDown (render { g with direction }) =
      forceTopDown (render { g with direction := "TD" }) := by
    rw [forceTopDown_direction h hdirection, forceTopDown_direction h List.mem_cons_self]
  have hdegenerate : isDegenerate s { g with direction } = isDegenerate s g := by
    rw [isDegenerate, hbody, hg]
    rfl
  rw [assemble, assemble, hdegenerate, htext, hg]

end Graphs

/-- Forcing directions, for every text: forcing them twice is forcing them once, and no line of what is
written, nor several of them together, begin as a directive with a direction that is to be replaced. A
line ends at a line feed only, unlike those that `check` goes through, which are `Text.lines`. For every
graph that is drawn, in whatever direction it is put: what is written is the diagram of the graph drawn
top down, and of its text only the directive is changed. -/
theorem directions_forced (text : String) (p : Parsers) (s s' : Settings) (code label : Option String)
    (loaded : Grammars) :
    forceTopDown (forceTopDown text) = forceTopDown text ∧
    (∀ d ∈ [flowchartDirective, subgraphDirective], ∀ before line after : List Char,
      (forceTopDown text).toList = before ++ (line ++ after) →
      (before = [] ∨ before.getLast? = some '\n') → (after = [] ∨ after.head? = some '\n') →
      ¬d.Begins (Text.words line)) ∧
    let g := ((lower p s code label).run loaded).value.1
    ∀ direction ∈ ["TD", "TB", "LR", "RL", "BT"],
      assemble s' { g with direction } = assemble s' g ∧
      render { g with direction } = joinLines (("flowchart " ++ direction) :: bodyLines g) ∧
      forceTopDown (render { g with direction }) = joinLines ("flowchart TD" :: bodyLines g) := by
  have hwritable := returns_lower p s code label loaded
  refine ⟨forceTopDown_forced text, fun d hd before line after htext hbefore hafter => ?_,
    fun direction hdirection => ⟨assemble_direction s' hwritable hdirection, ?_,
      forceTopDown_direction hwritable hdirection⟩⟩
  · have hclear : Clear d true (before ++ (line ++ after)) := by
      rw [← htext]
      have hboth := clear_forceTopDown text
      rcases List.mem_pair.mp hd with rfl | rfl
      · exact hboth.1
      · exact hboth.2
    exact hclear.not_begins (hbefore.imp_left fun h => ⟨h, rfl⟩) hafter
  · rw [render, bodyLines_direction]

end Flowchart.Diagram
