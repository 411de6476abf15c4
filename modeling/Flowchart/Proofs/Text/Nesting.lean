import Flowchart.Proofs.Text.Words
import Flowchart.Proofs.Text
import Flowchart.Text.Nesting

/-!
# Nested texts

A text is nested if its brackets and its quotes are closed (`Nested`): it is made of plain characters,
of literals, in which a backslash takes the character after it along, and of brackets around nested
texts. Which brackets count, what a literal may hold and which characters may stand outside of
everything is open. `Balanced` texts are those whose parentheses are closed, whatever else they hold.

A scan for the end of a group finds it exactly behind a balanced text (`groupFrom_eq_some_iff`), so
what it returns is balanced in any case (`balanced_groupAfter`). A scan for separators knows no
backslashes. It passes over a nested text without separators outside of everything if no literal holds
its own quote (`splitTopFrom_append`).

Squeezing and trimming blanks keep a text nested (`Nested.squeezeFrom`, `Nested.trim`).

## Two scanners

The scan for the end of a group skips the character after a backslash in a literal; the scan for
separators does not. `Nested` is about the former reading. A literal in which a quote stands behind
a backslash is therefore one literal here, and the second scan is followed only where `literal`
excludes it.

## Parameters

A nested text has three parameters: the brackets that count, what a literal may hold, and which
characters may stand where nothing is open. Each use chooses its own. Balanced texts count parentheses
and allow everything else; a text that is to be split is nested in all kinds of brackets and has no
separator outside of them. A nested text stays nested when less is asked of it (`Nested.mono`).

## Main results

* `groupFrom_eq_some_iff`: a group ends behind the first balanced text that a parenthesis follows.
* `splitTopFrom_append`: nested text without separators outside of everything stays in one piece.
* `Nested.squeezeFrom`, `Nested.trim`: nested text stays so when blanks are squeezed and trimmed.
-/

namespace Flowchart.Text

/-! ### Literals, brackets -/

/-- What may stand between quotes `q`. A backslash takes the character after it along. -/
inductive IsQuoted (q : Char) : List Char → Prop
  | nil : IsQuoted q []
  | plain {c : Char} {cs : List Char} : c ≠ '\\' → c ≠ q → IsQuoted q cs → IsQuoted q (c :: cs)
  | escape {c : Char} {cs : List Char} : IsQuoted q cs → IsQuoted q ('\\' :: c :: cs)

/-- A text with closed quotes and brackets. The characters outside of them are `outside`, and what is
between two quotes satisfies `literal`. -/
inductive Nested (brackets : List (Char × Char)) (literal : Char → List Char → Prop) :
    (outside : Char → Prop) → List Char → Prop
  | nil {outside : Char → Prop} : Nested brackets literal outside []
  | plain {outside : Char → Prop} {c : Char} {cs : List Char} :
      isQuote c = false → (∀ b ∈ brackets, c ≠ b.1 ∧ c ≠ b.2) → outside c →
      Nested brackets literal outside cs → Nested brackets literal outside (c :: cs)
  | literal {outside : Char → Prop} {q : Char} {inside cs : List Char} :
      isQuote q = true → IsQuoted q inside → literal q inside →
      Nested brackets literal outside cs → Nested brackets literal outside (q :: (inside ++ q :: cs))
  | group {outside : Char → Prop} {b : Char × Char} {inside cs : List Char} :
      b ∈ brackets → Nested brackets literal (fun _ => True) inside →
      Nested brackets literal outside cs →
      Nested brackets literal outside (b.1 :: (inside ++ b.2 :: cs))

/-- The parentheses. -/
def parentheses : List (Char × Char) := [('(', ')')]

/-- The three kinds of brackets. -/
def allBrackets : List (Char × Char) := [('(', ')'), ('[', ']'), ('\x7b', '\x7d')]

/-- A text in which all quotes and, outside of literals, all parentheses are closed. -/
abbrev Balanced (cs : List Char) : Prop := Nested parentheses (fun _ _ => True) (fun _ => True) cs

/-- Characters that are no backslash and not the quote itself may stand between quotes. -/
theorem isQuoted_of_not_mem {q : Char} {cs : List Char} (hslash : '\\' ∉ cs) (hclose : q ∉ cs) :
    IsQuoted q cs := by
  induction cs with
  | nil => exact .nil
  | cons c cs ih =>
      rw [List.mem_cons, not_or] at hslash hclose
      exact .plain (Ne.symm hslash.1) (Ne.symm hclose.1) (ih hslash.2 hclose.2)

variable {brackets : List (Char × Char)} {literal literal' : Char → List Char → Prop}
  {outside outside' : Char → Prop} {c q : Char} {xs ys cs inside : List Char}

/-- A quote is no backslash, no parenthesis and no blank. -/
theorem ne_of_isQuote (h : isQuote q = true) :
    q ≠ '\\' ∧ q ≠ '(' ∧ q ≠ ')' ∧ q ≠ ' ' ∧ isBlank q = false := by
  simp only [isQuote, Bool.or_eq_true, beq_iff_eq] at h
  rcases h with (rfl | rfl) | rfl <;> decide

/-- There is one pair of parentheses. -/
theorem mem_parentheses {b : Char × Char} : b ∈ parentheses ↔ b = ('(', ')') := List.mem_singleton

/-- What is no parenthesis differs from both. -/
theorem not_mem_parentheses (hopen : c ≠ '(') (hclose : c ≠ ')') :
    ∀ b ∈ parentheses, c ≠ b.1 ∧ c ≠ b.2 := by
  simpa [parentheses] using ⟨hopen, hclose⟩

/-- Opening and closing brackets are neither quotes nor blanks, and are told apart. -/
theorem mem_allBrackets {b : Char × Char} (h : b ∈ allBrackets) :
    isQuote b.1 = false ∧ isOpening b.1 = true ∧ isQuote b.2 = false ∧ isOpening b.2 = false ∧
      isClosing b.2 = true ∧ isBlank b.1 = false ∧ isBlank b.2 = false := by
  simp only [allBrackets, List.mem_cons, List.not_mem_nil, or_false] at h
  rcases h with rfl | rfl | rfl <;> decide

/-- What differs from all brackets is none. -/
theorem not_isBracket (h : ∀ b ∈ allBrackets, c ≠ b.1 ∧ c ≠ b.2) :
    isOpening c = false ∧ isClosing c = false := by
  simp [allBrackets] at h
  simp [isOpening, isClosing, h]

/-! ### Nested texts -/

namespace Nested

/-- What holds of the literals and of the characters outside may be weakened. -/
theorem mono (h : Nested brackets literal outside cs)
    (hliteral : ∀ q inside, literal q inside → literal' q inside)
    (houtside : ∀ c, outside c → outside' c) : Nested brackets literal' outside' cs := by
  induction h generalizing outside' with
  | nil => exact .nil
  | plain hquote hbracket hc _ ih => exact .plain hquote hbracket (houtside _ hc) (ih houtside)
  | literal hq hinside hlit _ ih => exact .literal hq hinside (hliteral _ _ hlit) (ih houtside)
  | group hb _ _ ihInside ih => exact .group hb (ihInside fun _ _ => trivial) (ih houtside)

/-- Nested texts in a row are nested. -/
theorem append (hxs : Nested brackets literal outside xs) (hys : Nested brackets literal outside ys) :
    Nested brackets literal outside (xs ++ ys) := by
  induction hxs with
  | nil => exact hys
  | plain hquote hbracket hc _ ih => exact .plain hquote hbracket hc (ih hys)
  | literal hq hinside hlit _ ih =>
      rw [List.cons_append, List.append_assoc]
      exact .literal hq hinside hlit (ih hys)
  | group hb hinside _ _ ih =>
      rw [List.cons_append, List.append_assoc]
      exact .group hb hinside (ih hys)

/-- Plain characters may come first. -/
theorem plain_append [DecidablePred outside]
    (hxs : (xs.all fun c =>
      !isQuote c && (brackets.all fun b => c != b.1 && c != b.2) && decide (outside c)) = true)
    (h : Nested brackets literal outside cs) : Nested brackets literal outside (xs ++ cs) := by
  induction xs with
  | nil => exact h
  | cons c xs ih =>
      simp only [List.all_cons, Bool.and_eq_true, Bool.not_eq_true', List.all_eq_true, bne_iff_ne,
        decide_eq_true_eq] at hxs
      obtain ⟨⟨⟨hquote, hbracket⟩, hc⟩, hxs⟩ := hxs
      refine .plain hquote hbracket hc (ih ?_)
      simpa only [List.all_eq_true, Bool.and_eq_true, Bool.not_eq_true', bne_iff_ne,
        decide_eq_true_eq] using hxs

/-- If all brackets are closed, so are the parentheses. -/
theorem balanced (h : Nested allBrackets literal outside cs) : Balanced cs := by
  induction h with
  | nil => exact .nil
  | plain hquote hbracket _ _ ih =>
      have hparen := hbracket ('(', ')') List.mem_cons_self
      exact .plain hquote (not_mem_parentheses hparen.1 hparen.2) trivial ih
  | literal hq hinside _ _ ih => exact .literal hq hinside trivial ih
  | @group _ b inside cs hb _ _ ihInside ih =>
      by_cases hparen : b = ('(', ')')
      · rw [hparen]
        exact .group List.mem_cons_self ihInside ih
      · -- brackets of another kind are plain characters here
        have hother : (isQuote b.1 = false ∧ b.1 ≠ '(' ∧ b.1 ≠ ')') ∧
            isQuote b.2 = false ∧ b.2 ≠ '(' ∧ b.2 ≠ ')' := by
          simp only [allBrackets, List.mem_cons, List.not_mem_nil, or_false] at hb
          rcases hb with rfl | rfl | rfl
          · exact absurd rfl hparen
          · decide
          · decide
        obtain ⟨⟨hquote, hopen, hclose⟩, hquote', hopen', hclose'⟩ := hother
        exact .plain hquote (not_mem_parentheses hopen hclose) trivial
          (ihInside.append (.plain hquote' (not_mem_parentheses hopen' hclose') trivial ih))

end Nested

/-! ### Groups -/

/-- A text that closes `depth` more parentheses than it opens. -/
inductive Closes : (depth : Nat) → List Char → Prop
  | zero {cs : List Char} : Balanced cs → Closes 0 cs
  | succ {depth : Nat} {xs cs : List Char} : Balanced xs → Closes depth cs →
      Closes (depth + 1) (xs ++ ')' :: cs)

namespace Closes

variable {depth : Nat}

/-- A balanced text may come first. -/
theorem append (hxs : Balanced xs) (h : Closes depth cs) : Closes depth (xs ++ cs) := by
  cases h with
  | zero hcs => exact .zero (hxs.append hcs)
  | succ hys hcs =>
      rw [← List.append_assoc]
      exact .succ (hxs.append hys) hcs

/-- A plain character closes nothing. -/
theorem plain (hquote : isQuote c = false) (hopen : c ≠ '(') (hclose : c ≠ ')')
    (h : Closes depth cs) : Closes depth (c :: cs) :=
  append (.plain hquote (not_mem_parentheses hopen hclose) trivial .nil) h

/-- A literal closes nothing. -/
theorem quoted (hq : isQuote q = true) (hinside : IsQuoted q inside) (h : Closes depth cs) :
    Closes depth (q :: (inside ++ q :: cs)) := by
  rw [List.append_cons, ← List.cons_append]
  exact append (.literal hq hinside trivial .nil) h

/-- An opening parenthesis is one more to be closed. -/
theorem opened (h : Closes (depth + 1) cs) : Closes depth ('(' :: cs) := by
  cases h with
  | succ hxs hcs =>
      rw [List.append_cons, ← List.cons_append]
      exact append (.group (b := ('(', ')')) List.mem_cons_self hxs .nil) hcs

/-- A closing parenthesis is one less to be closed. -/
theorem closed (h : Closes depth cs) : Closes (depth + 1) (')' :: cs) :=
  show Closes (depth + 1) ([] ++ ')' :: cs) from .succ .nil h

end Closes

/-- What a scan for the end of a group has still to see: the rest of the literal that it is in, and a
text that closes what is open. -/
def Completes : GroupState → (depth : Nat) → List Char → Prop
  | .code, depth, cs => Closes depth cs
  | .quote q, depth, cs =>
    ∃ inside rest, cs = inside ++ q :: rest ∧ IsQuoted q inside ∧ Closes depth rest
  | .escape q, depth, cs =>
    ∃ c inside rest, cs = c :: (inside ++ q :: rest) ∧ IsQuoted q inside ∧ Closes depth rest

/-- One step of the scan for the end of a group, outside of literals. -/
theorem groupFrom_code (depth : Nat) (c : Char) (cs : List Char) :
    groupFrom .code depth (c :: cs) =
      if isQuote c then (groupFrom (.quote c) depth cs).map (c :: ·)
      else if c = '(' then (groupFrom .code (depth + 1) cs).map (c :: ·)
      else if c = ')' then
        match depth with
        | 0 => some []
        | depth + 1 => (groupFrom .code depth cs).map (c :: ·)
      else (groupFrom .code depth cs).map (c :: ·) := by
  cases depth <;> rfl

/-- What a scan returns completes the group, and the parenthesis after it ends the group. -/
theorem completes_of_groupFrom {state : GroupState} {depth : Nat} {cs group : List Char}
    (h : groupFrom state depth cs = some group) :
    Completes state depth group ∧ ∃ rest, cs = group ++ ')' :: rest := by
  have hmore : ∀ {next : GroupState} {d : Nat} {c : Char} {cs group : List Char},
      (groupFrom next d cs).map (c :: ·) = some group →
        ∃ tail, groupFrom next d cs = some tail ∧ group = c :: tail := by
    intro next d c cs group h
    obtain ⟨tail, htail, rfl⟩ := Option.map_eq_some_iff.mp h
    exact ⟨tail, htail, rfl⟩
  induction cs generalizing state depth group with
  | nil => cases state <;> exact absurd h nofun
  | cons c cs ih =>
      cases state with
      | escape q =>
          obtain ⟨tail, htail, rfl⟩ := hmore h
          obtain ⟨⟨inside, more, rfl, hinside, hmore⟩, rest, rfl⟩ := ih htail
          exact ⟨⟨c, inside, more, rfl, hinside, hmore⟩, rest, rfl⟩
      | quote q =>
          obtain ⟨tail, htail, rfl⟩ := hmore h
          obtain ⟨hcomplete, rest, rfl⟩ := ih htail
          refine ⟨?_, rest, rfl⟩
          split_ifs at hcomplete with hslash hclose
          · obtain ⟨d, inside, more, rfl, hinside, hmore⟩ := hcomplete
            exact ⟨c :: d :: inside, more, rfl, hslash ▸ .escape hinside, hmore⟩
          · exact ⟨[], tail, by rw [hclose]; rfl, .nil, hcomplete⟩
          · obtain ⟨inside, more, rfl, hinside, hmore⟩ := hcomplete
            exact ⟨c :: inside, more, rfl, .plain hslash hclose hinside, hmore⟩
      | code =>
          rw [groupFrom_code] at h
          split_ifs at h with hquote hopen hclose
          · obtain ⟨tail, htail, rfl⟩ := hmore h
            obtain ⟨⟨inside, more, rfl, hinside, hmore⟩, rest, rfl⟩ := ih htail
            exact ⟨Closes.quoted hquote hinside hmore, rest, rfl⟩
          · obtain ⟨tail, htail, rfl⟩ := hmore h
            obtain ⟨hcomplete, rest, rfl⟩ := ih htail
            exact ⟨hopen ▸ Closes.opened hcomplete, rest, rfl⟩
          · cases depth with
            | zero =>
                obtain rfl := Option.some.inj h
                exact ⟨.zero .nil, cs, by rw [hclose]; rfl⟩
            | succ depth =>
                obtain ⟨tail, htail, rfl⟩ := hmore h
                obtain ⟨hcomplete, rest, rfl⟩ := ih htail
                exact ⟨hclose ▸ Closes.closed hcomplete, rest, rfl⟩
          · obtain ⟨tail, htail, rfl⟩ := hmore h
            obtain ⟨hcomplete, rest, rfl⟩ := ih htail
            exact ⟨Closes.plain (Bool.eq_false_iff.mpr hquote) hopen hclose hcomplete, rest, rfl⟩

/-- The scan for the end of a group passes over the rest of a literal. -/
theorem groupFrom_quoted (hq : isQuote q = true) (h : IsQuoted q inside) (depth : Nat)
    (rest : List Char) : groupFrom (.quote q) depth (inside ++ q :: rest) =
      (groupFrom .code depth rest).map fun group => inside ++ q :: group := by
  induction h with
  | nil => rw [List.nil_append, groupFrom, if_neg (ne_of_isQuote hq).1, if_pos rfl]; rfl
  | plain hslash hclose _ ih =>
      rw [List.cons_append, groupFrom, if_neg hslash, if_neg hclose, ih, Option.map_map]
      rfl
  | escape _ ih =>
      rw [List.cons_append, List.cons_append, groupFrom, if_pos rfl, groupFrom, ih, Option.map_map,
        Option.map_map]
      rfl

/-- A scan for the end of a group passes over a balanced text. -/
theorem groupFrom_append (h : Nested parentheses literal outside cs) (depth : Nat)
    (rest : List Char) :
    groupFrom .code depth (cs ++ rest) = (groupFrom .code depth rest).map (cs ++ ·) := by
  induction h generalizing depth rest with
  | nil => exact Option.map_id'.symm
  | plain hquote hparen _ _ ih =>
      obtain ⟨hopen, hclose⟩ := hparen ('(', ')') List.mem_cons_self
      rw [List.cons_append, groupFrom_code, if_neg (by simp [hquote]), if_neg hopen, if_neg hclose, ih,
        Option.map_map]
      rfl
  | literal hq hinside _ _ ih =>
      rw [List.cons_append, List.append_assoc, List.cons_append, groupFrom_code, if_pos hq,
        groupFrom_quoted hq hinside, ih, Option.map_map, Option.map_map]
      simp [Function.comp_def]
  | group hb _ _ ihInside ih =>
      obtain rfl := mem_parentheses.mp hb
      rw [List.cons_append, List.append_assoc, List.cons_append, groupFrom_code, if_neg (by decide),
        if_pos rfl, ihInside, groupFrom_code, if_neg (by decide), if_neg (by decide), if_pos rfl]
      simp only [ih, Option.map_map]
      simp [Function.comp_def]

/-- The end of a group is the parenthesis after a balanced text. -/
theorem groupFrom_eq_some_iff {cs group : List Char} :
    groupFrom .code 0 cs = some group ↔ Balanced group ∧ ∃ rest, cs = group ++ ')' :: rest := by
  refine ⟨fun h => ?_, ?_⟩
  · obtain ⟨hcloses, hrest⟩ := completes_of_groupFrom h
    cases hcloses with
    | zero hbalanced => exact ⟨hbalanced, hrest⟩
  · rintro ⟨hbalanced, rest, rfl⟩
    have hend : groupFrom .code 0 (')' :: rest) = some [] := rfl
    rw [groupFrom_append hbalanced, hend, Option.map_some, List.append_nil]

instance (cs : List Char) : Decidable (Balanced cs) :=
  decidable_of_iff (groupFrom .code 0 (cs ++ [')']) = some cs)
    (groupFrom_eq_some_iff.trans ⟨And.left, fun h => ⟨h, [], rfl⟩⟩)

/-- What is found after a keyword is balanced. -/
theorem balanced_groupAfter (keyword text : List Char) : Balanced (groupAfter keyword text) := by
  rw [groupAfter]
  cases hfound : (groupStart? keyword none text).bind (groupFrom .code 0) with
  | none => exact .nil
  | some group =>
      obtain ⟨start, -, hgroup⟩ := Option.bind_eq_some_iff.mp hfound
      exact (groupFrom_eq_some_iff.mp hgroup).1

/-- After a keyword and blanks at the start of a text, a group is what stands between the parenthesis
and the one that closes it. -/
theorem groupAfter_append {keyword gap : List Char} (hkeyword : IsPlainWord keyword)
    (hgap : allBlank gap = true) (rest : List Char) :
    groupAfter keyword (keyword ++ (gap ++ '(' :: rest)) = (groupFrom .code 0 rest).getD [] := by
  have hhere : groupHere? keyword none (keyword ++ (gap ++ '(' :: rest)) = some rest := by
    have hprefix : keyword.isPrefixOf? (keyword ++ (gap ++ '(' :: rest)) =
        some (gap ++ '(' :: rest) := List.isPrefixOf?_eq_some_iff_append_eq.mpr rfl
    rw [groupHere?, boundary, hkeyword.wordAt_head?, hprefix]
    dsimp only
    rw [List.dropWhile_append_of_pos (List.all_eq_true.mp hgap)]
    rfl
  obtain ⟨c, cs, hcons⟩ := List.exists_cons_of_ne_nil hkeyword.ne_nil
  rw [groupAfter]
  rw [hcons, List.cons_append] at hhere ⊢
  rw [groupStart?, hhere]
  rfl

/-! ### Pieces between separators -/

/-- The scan for separators passes over a literal that does not hold its quote. -/
theorem splitTopFrom_quoted (isSeparator : Char → Bool) (h : q ∉ inside) (depth : Nat)
    (piece rest : List Char) :
    splitTopFrom isSeparator (some q) depth piece (inside ++ q :: rest) =
      splitTopFrom isSeparator none depth (q :: (inside.reverse ++ piece)) rest := by
  induction inside generalizing piece with
  | nil => rw [List.nil_append, splitTopFrom, if_pos rfl]; rfl
  | cons c inside ih =>
      obtain ⟨hne, hinside⟩ := List.ne_and_not_mem_of_not_mem_cons h
      rw [List.cons_append, splitTopFrom, if_neg hne.symm, ih hinside]
      simp

/-- A scan for separators passes over a nested text without separators outside of everything, if no
literal in it holds its own quote. -/
theorem splitTopFrom_append {isSeparator : Char → Bool}
    (h : Nested allBrackets (fun q inside => q ∉ inside) outside cs) (depth : Nat)
    (hseparator : depth = 0 → ∀ c, outside c → isSeparator c = false) (piece rest : List Char) :
    splitTopFrom isSeparator none depth piece (cs ++ rest) =
      splitTopFrom isSeparator none depth (cs.reverse ++ piece) rest := by
  induction h generalizing depth piece rest with
  | nil => rfl
  | @plain _ c cs hquote hbracket hc _ ih =>
      obtain ⟨hopen, hclose⟩ := not_isBracket hbracket
      have hnone : (isSeparator c && depth == 0) = false := by
        by_cases hdepth : depth = 0
        · rw [hseparator hdepth c hc, Bool.false_and]
        · simp [hdepth]
      rw [List.cons_append, splitTopFrom, hquote, hopen, hclose, hnone]
      simpa using ih depth hseparator (c :: piece) rest
  | literal hq _ hnot _ ih =>
      rw [List.cons_append, List.append_assoc, List.cons_append, splitTopFrom, if_pos hq,
        splitTopFrom_quoted _ hnot, ih depth hseparator]
      simp
  | @group _ b inside cs hb _ _ ihInside ih =>
      obtain ⟨hquote, hopen, hquote', hopen', hclose', -⟩ := mem_allBrackets hb
      rw [List.cons_append, List.append_assoc, List.cons_append, splitTopFrom, hquote, hopen,
        if_neg Bool.false_ne_true, if_pos rfl, ihInside (depth + 1) (fun h => absurd h (by omega)),
        splitTopFrom, hquote', hopen', hclose', if_neg Bool.false_ne_true,
        if_neg Bool.false_ne_true, if_pos rfl, Nat.add_sub_cancel, ih depth hseparator]
      simp

/-! ### Blanks -/

/-- Blanks that are squeezed are blanks. -/
theorem allBlank_squeezeFrom (h : allBlank cs = true) (inRun : Bool) :
    allBlank (squeezeFrom inRun cs) = true := by
  refine List.all_eq_true.mpr fun c hc => ?_
  rcases mem_squeezeFrom hc with rfl | ⟨hmem, hblank⟩
  · decide
  · rw [List.all_eq_true.mp h c hmem] at hblank
    exact absurd hblank Bool.noConfusion

/-- What may stand in a literal may stand there squeezed. -/
theorem IsQuoted.squeezeFrom (hq : isQuote q = true) (h : IsQuoted q cs) (inRun : Bool) :
    IsQuoted q (squeezeFrom inRun cs) := by
  have hslash : isBlank '\\' = false := by decide
  have hspace : ' ' ≠ '\\' ∧ ' ' ≠ q := ⟨by decide, (ne_of_isQuote hq).2.2.2.1.symm⟩
  induction h generalizing inRun with
  | nil => exact .nil
  | @plain c cs hne hclose _ ih =>
      rw [Text.squeezeFrom]
      split_ifs
      · exact ih true
      · exact .plain hspace.1 hspace.2 (ih true)
      · exact .plain hne hclose (ih false)
  | @escape c cs _ ih =>
      rw [Text.squeezeFrom, hslash, if_neg Bool.false_ne_true, Text.squeezeFrom]
      cases isBlank c with
      | true => exact .escape (ih true)
      | false => exact .escape (ih false)

/-- Squeezing keeps a text nested, if literals may be squeezed and spaces stand wherever blanks may. -/
theorem Nested.squeezeFrom (h : Nested allBrackets literal outside cs)
    (hliteral : ∀ q inside, isQuote q = true → literal q inside →
      literal q (squeezeFrom false inside))
    (hspace : outside ' ') (inRun : Bool) :
    Nested allBrackets literal outside (squeezeFrom inRun cs) := by
  have hplain : isQuote ' ' = false ∧ ∀ b ∈ allBrackets, ' ' ≠ b.1 ∧ ' ' ≠ b.2 := by decide
  induction h generalizing inRun with
  | nil => exact .nil
  | plain hquote hbracket hc _ ih =>
      rw [Text.squeezeFrom]
      split_ifs
      · exact ih hspace true
      · exact .plain hplain.1 hplain.2 hspace (ih hspace true)
      · exact .plain hquote hbracket hc (ih hspace false)
  | literal hq hinside hlit _ ih =>
      have hblank := (ne_of_isQuote hq).2.2.2.2
      rw [Text.squeezeFrom, hblank, if_neg Bool.false_ne_true, squeezeFrom_append_cons hblank]
      exact .literal hq (hinside.squeezeFrom hq false) (hliteral _ _ hq hlit) (ih hspace false)
  | group hb _ _ ihInside ih =>
      obtain ⟨-, -, -, -, -, hopen, hclose⟩ := mem_allBrackets hb
      rw [Text.squeezeFrom, hopen, if_neg Bool.false_ne_true, squeezeFrom_append_cons hclose]
      exact .group hb (ihInside trivial false) (ih hspace false)

/-- Squeezing puts no quote into a literal. -/
theorem not_mem_squeezeFrom (hq : isQuote q = true) (h : q ∉ cs) (inRun : Bool) :
    q ∉ squeezeFrom inRun cs := fun hmem =>
  (mem_squeezeFrom hmem).elim (ne_of_isQuote hq).2.2.2.1 fun hold => h hold.1

namespace Nested

/-- A nested text stays so without the blanks before it. -/
theorem trimStart (h : Nested brackets literal outside cs)
    (hbrackets : ∀ b ∈ brackets, isBlank b.1 = false) :
    Nested brackets literal outside (trimStart cs) := by
  induction h with
  | nil => exact .nil
  | @plain _ c cs hquote hbracket hc hcs ih =>
      by_cases hblank : isBlank c = true
      · rw [Text.trimStart, List.dropWhile_cons_of_pos hblank]
        exact ih
      · rw [Text.trimStart, List.dropWhile_cons_of_neg hblank]
        exact .plain hquote hbracket hc hcs
  | literal hq hinside hlit hcs =>
      rw [Text.trimStart, List.dropWhile_cons_of_neg (by simp [(ne_of_isQuote hq).2.2.2.2])]
      exact .literal hq hinside hlit hcs
  | group hb hinside hcs =>
      rw [Text.trimStart, List.dropWhile_cons_of_neg (by simp [hbrackets _ hb])]
      exact .group hb hinside hcs

/-- A blank at the end is outside of everything. -/
theorem of_concat (h : Nested brackets literal outside (cs ++ [c])) (hc : isBlank c = true)
    (hbrackets : ∀ b ∈ brackets, isBlank b.2 = false) : Nested brackets literal outside cs := by
  generalize hall : cs ++ [c] = all at h
  -- what ends in the blank is never empty behind a quote or a closing bracket
  have hback : ∀ (front : List Char) {d : Char} {back more : List Char}, isBlank d = false →
      more ++ [c] = front ++ d :: back → ∃ back', back' ++ [c] = back ∧ more = front ++ d :: back' := by
    intro front d back more hd heq
    rcases List.eq_nil_or_concat back with rfl | ⟨back', e, rfl⟩
    · obtain ⟨-, hlast⟩ := List.append_inj' heq rfl
      obtain rfl := List.singleton_inj.mp hlast
      rw [hc] at hd
      exact absurd hd Bool.noConfusion
    · rw [List.concat_eq_append, ← List.cons_append, ← List.append_assoc] at heq
      obtain ⟨hmore, hlast⟩ := List.append_inj' heq rfl
      exact ⟨back', by rw [hlast, List.concat_eq_append], hmore⟩
  induction h generalizing cs with
  | nil => exact absurd hall (by simp)
  | plain hquote hbracket hd hds ih =>
      cases cs with
      | nil => exact .nil
      | cons e cs =>
          obtain ⟨rfl, hcs⟩ := List.cons_eq_cons.mp hall
          exact .plain hquote hbracket hd (ih hcs)
  | @literal _ q inside ds hq hinside hlit hds ih =>
      have hblank := (ne_of_isQuote hq).2.2.2.2
      obtain ⟨back, rfl, rfl⟩ := hback (q :: inside) hblank hall
      exact .literal hq hinside hlit (ih rfl)
  | @group _ b inside ds hb hinside hds _ ih =>
      obtain ⟨back, rfl, rfl⟩ := hback (b.1 :: inside) (hbrackets b hb) hall
      exact .group hb hinside (ih rfl)

/-- Trimming keeps a text nested. -/
theorem trim (h : Nested brackets literal outside cs)
    (hbrackets : ∀ b ∈ brackets, isBlank b.1 = false ∧ isBlank b.2 = false) :
    Nested brackets literal outside (trim cs) := by
  have hend : ∀ xs, Nested brackets literal outside xs →
      Nested brackets literal outside (trimEnd xs) := by
    intro xs
    induction xs using List.reverseRecOn with
    | nil => exact id
    | append_singleton xs c ih =>
        intro hxs
        by_cases hblank : isBlank c = true
        · have hdrop : trimEnd (xs ++ [c]) = trimEnd xs := List.rdropWhile_concat_pos isBlank xs c hblank
          rw [hdrop]
          exact ih (hxs.of_concat hblank fun b hb => (hbrackets b hb).2)
        · have hkeep : trimEnd (xs ++ [c]) = xs ++ [c] := List.rdropWhile_concat_neg isBlank xs c hblank
          rw [hkeep]
          exact hxs
  exact hend _ (h.trimStart fun b hb => (hbrackets b hb).1)

end Nested

/-- A balanced text stays so without the blanks around it. -/
theorem Balanced.trim (h : Balanced cs) : Balanced (trim cs) := Nested.trim h (by decide)

end Flowchart.Text
