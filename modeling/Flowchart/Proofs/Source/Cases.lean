import Flowchart.Proofs.Text
import Flowchart.Proofs.Text.Words
import Flowchart.Source.Braced
import Mathlib.Data.List.Forall2

/-!
# Cases of a switch

What a group of a switch is a case for is read from the text of its labels. The text is cut where
the word `case` stands, each piece is trimmed and loses the colons at its end, and a piece that
starts as the word `default` does is the mark of the default case and not a value.

`Reading.Labelled` says how the labels of a group are laid out in its text. Blanks and colons
between them are no part of their values: the values of the group are those that are read in the
value of each label (`Reading.caseValues_labelsText`). A value is read as it is exactly if the word
`case` does not stand in it, whatever else it holds: otherwise what is read has fewer characters
than it, blanks apart (`Reading.intercalate_caseValues_ne`).

`Reading.switch_cases` says what follows for the cases of a switch. The kind of a node marks one
default case of a switch, and any case whose value starts as the word `default` does is another one
(`Reading.switch_defaultColor`).

## How the values are read

The text of a group is cut at a word, and a value may hold that word, a colon or blanks itself. So
nothing is said of the values as such but of the pieces between the cuts. Cutting a text in two leaves
the pieces of the parts, but for one that may reach over the cut, and blanks and colons at its ends go
when it is cleaned (`cleanValues_splitOnWordFrom`). The values of a group then come label by label.
Characters that are not blank are counted to see that a value with the word in it is not read as it is
(`cleanValues_le`).

## Main results

* `caseValues_labelsText`: what is read in the text of some labels.
* `intercalate_caseValues_ne`: a value with the word `case` in it is not read as it is.
* `switch_cases`: the cases of a switch in terms of its groups.
* `switch_defaultColor`: a value that starts as `default` does makes a second default.
-/

namespace Flowchart

open Text (allBlank splitOnWord splitOnWordFrom hasWord wordAt)

/-! ### Labels -/

/-- A label of a switch group as it is written: the keyword and the value, with blanks before,
between and after them. -/
structure CaseLabel where
  before : List Char := []
  lead : List Char
  value : List Char
  trail : List Char := []

/-- Neither a blank nor a colon stands at the end. -/
def EndsWell (cs : List Char) : Prop := ∀ c ∈ cs.getLast?, Text.isBlank c = false ∧ c ≠ ':'

/-- The value of a label, without blanks around it or a colon after it. -/
structure IsCaseValue (v : List Char) : Prop where
  ne_nil : v ≠ []
  first : ∀ c ∈ v.head?, Text.isBlank c = false
  last : EndsWell v

instance (cs : List Char) : Decidable (EndsWell cs) :=
  decidable_of_iff (cs.getLast?.all fun c => !Text.isBlank c && c != ':') (by
    rw [EndsWell, Option.all_eq_true]
    simp)

instance (v : List Char) : Decidable (IsCaseValue v) :=
  decidable_of_iff (v ≠ [] ∧ (v.head?.all fun c => !Text.isBlank c) ∧ EndsWell v)
    ⟨fun ⟨hne, hfirst, hlast⟩ =>
        ⟨hne, fun c hc => by simpa using (Option.all_eq_true _ _).mp hfirst c hc, hlast⟩,
      fun h => ⟨h.ne_nil, (Option.all_eq_true _ _).mpr fun c hc => by simp [h.first c hc], h.last⟩⟩

namespace CaseLabel

/-- The text of a label. -/
def text (l : CaseLabel) : List Char :=
  l.before ++ ("case".toList ++ (l.lead ++ (l.value ++ l.trail)))

/-- Blanks stand where they may stand, and the keyword does not run into the value. -/
structure IsSpaced (l : CaseLabel) : Prop where
  before : allBlank l.before = true
  lead : allBlank l.lead = true
  trail : allBlank l.trail = true
  apart : l.lead ≠ [] ∨ wordAt l.value.head? = false
  value : IsCaseValue l.value

instance (l : CaseLabel) : Decidable l.IsSpaced :=
  decidable_of_iff (allBlank l.before = true ∧ allBlank l.lead = true ∧ allBlank l.trail = true ∧
      (l.lead ≠ [] ∨ wordAt l.value.head? = false) ∧ IsCaseValue l.value)
    ⟨fun ⟨hbefore, hlead, htrail, hapart, hvalue⟩ => ⟨hbefore, hlead, htrail, hapart, hvalue⟩,
      fun h => ⟨h.before, h.lead, h.trail, h.apart, h.value⟩⟩

end CaseLabel

/-- The text of labels with colons between them. -/
def labelsText (labels : List CaseLabel) : List Char := [':'].intercalate (labels.map (·.text))

namespace Reading

/-- The piece of a label's text as a value. -/
def cleanValue (piece : List Char) : List Char :=
  Text.trim (Text.dropEndWhile (· == ':') (Text.trim piece))

/-- The values among pieces of a label's text. -/
def cleanValues (pieces : List (List Char)) : List (List Char) :=
  (pieces.map cleanValue).filter (!·.isEmpty)

/-- The values of a text are those of its pieces. -/
theorem caseValues_eq (label : List Char) :
    caseValues label = cleanValues (splitOnWord "case".toList label) := rfl

/-- The values of pieces in a row are those of each. -/
theorem cleanValues_append (ps qs : List (List Char)) :
    cleanValues (ps ++ qs) = cleanValues ps ++ cleanValues qs := by
  rw [cleanValues, List.map_append, List.filter_append]
  rfl

/-- One piece gives its value, if it has one. -/
theorem cleanValues_singleton {p q : List Char} (h : cleanValue p = cleanValue q) :
    cleanValues [p] = cleanValues [q] := by
  rw [cleanValues, List.map_singleton, h]
  rfl

/-- Blanks behind a piece are no part of its value. -/
theorem cleanValue_append_of_allBlank (piece : List Char) {blanks : List Char}
    (h : allBlank blanks = true) : cleanValue (piece ++ blanks) = cleanValue piece := by
  rw [cleanValue, Text.trim_append_of_allBlank _ h]
  rfl

/-- Blanks before a piece are no part of its value. -/
theorem cleanValue_allBlank_append {blanks : List Char} (h : allBlank blanks = true)
    (piece : List Char) : cleanValue (blanks ++ piece) = cleanValue piece := by
  rw [cleanValue, Text.trim_allBlank_append h]
  rfl

/-- A text that ends well is not trimmed at its end, whatever comes after it. -/
theorem exists_trimStart_append {cs : List Char} (hne : cs ≠ []) (h : EndsWell cs) :
    ∃ init last, (Text.isBlank last = false ∧ last ≠ ':') ∧
      ∀ more, Text.trimStart (cs ++ more) = init ++ last :: more := by
  obtain ⟨front, last, rfl⟩ := (List.eq_nil_or_concat cs).resolve_left hne
  rw [List.concat_eq_append] at h ⊢
  have hlast := h last (by simp)
  refine ⟨front.dropWhile Text.isBlank, last, hlast, fun more => ?_⟩
  rw [Text.trimStart, List.append_assoc, List.dropWhile_append]
  split_ifs with hempty
  · rw [List.isEmpty_iff.mp hempty]
    exact List.dropWhile_cons_of_neg (by simp [hlast.1])
  · rfl

/-- A last character that is not to be dropped stays. -/
theorem dropEndWhile_concat_of_neg {p : Char → Bool} {c : Char} (h : p c = false)
    (cs : List Char) : Text.dropEndWhile p (cs ++ [c]) = cs ++ [c] :=
  List.rdropWhile_concat_neg p cs c (Bool.eq_false_iff.mp h)

/-- A last character that is to be dropped goes, and the one before it is next. -/
theorem dropEndWhile_concat_of_pos {p : Char → Bool} {c : Char} (h : p c = true)
    (cs : List Char) : Text.dropEndWhile p (cs ++ [c]) = Text.dropEndWhile p cs :=
  List.rdropWhile_concat_pos p cs c h

/-- A text that ends with another character loses no colons. -/
theorem dropColons_concat {c : Char} (h : c ≠ ':') (cs : List Char) :
    Text.dropEndWhile (· == ':') (cs ++ [c]) = cs ++ [c] :=
  dropEndWhile_concat_of_neg (p := (· == ':')) (beq_eq_false_iff_ne.mpr h) cs

/-- A value that ends well is only trimmed. -/
theorem cleanValue_of_endsWell {piece : List Char} (h : EndsWell piece) :
    cleanValue piece = Text.trim piece := by
  by_cases hne : piece = []
  · rw [hne]
    rfl
  obtain ⟨init, last, ⟨hblank, hcolon⟩, hstart⟩ := exists_trimStart_append hne h
  have htrimmed : Text.trimStart piece = init ++ [last] := by simpa using hstart []
  have htrim : Text.trim piece = init ++ [last] := by
    rw [Text.trim, htrimmed]
    exact dropEndWhile_concat_of_neg hblank init
  rw [cleanValue, htrim, dropColons_concat hcolon, ← htrimmed, Text.trim_trimStart, htrimmed,
    htrim]

/-- Blanks and a colon after a value that ends well are dropped. -/
theorem cleanValue_append_colon {piece b c : List Char} (h : EndsWell piece)
    (hb : allBlank b = true) (hc : allBlank c = true) :
    cleanValue (piece ++ (b ++ ':' :: c)) = cleanValue piece := by
  have hcolon : cleanValue (piece ++ (b ++ ':' :: c)) = cleanValue (piece ++ b ++ [':']) := by
    rw [← cleanValue_append_of_allBlank (piece ++ b ++ [':']) hc]
    simp
  rw [hcolon]
  by_cases hne : piece = []
  · rw [hne, List.nil_append, cleanValue_allBlank_append hb]
    rfl
  obtain ⟨init, last, ⟨hblank, hlast⟩, hstart⟩ := exists_trimStart_append hne h
  have hpiece : Text.trimStart (piece ++ b) = init ++ last :: b := hstart b
  have htrim : Text.trim (piece ++ b ++ [':']) = Text.trimStart (piece ++ b) ++ [':'] := by
    have hend := dropEndWhile_concat_of_neg (show Text.isBlank ':' = false by decide)
      (Text.trimStart (piece ++ b))
    rw [← hend, Text.trim, Text.trimEnd, List.append_assoc, hstart, hpiece]
    simp
  have hdrop : Text.dropEndWhile (· == ':') (Text.trimStart (piece ++ b)) =
      Text.trimStart (piece ++ b) := by
    rw [hpiece]
    rcases List.eq_nil_or_concat b with rfl | ⟨b', e, rfl⟩
    · exact dropColons_concat hlast init
    · have he : Text.isBlank e = true := List.all_eq_true.mp hb e (by simp)
      have hne : e ≠ ':' := by
        rintro rfl
        exact absurd he (by decide)
      simpa using dropColons_concat hne (init ++ last :: b')
  rw [cleanValue, htrim, dropEndWhile_concat_of_pos (by decide), hdrop, Text.trim_trimStart,
    Text.trim_append_of_allBlank _ hb, cleanValue_of_endsWell h]

/-- The word `case` has word characters only. -/
theorem isPlainWord_case : Text.IsPlainWord "case".toList :=
  ⟨by decide, List.all_eq_true.mp (by decide)⟩

/-- The end of a value that ends well ends well. -/
theorem EndsWell.of_suffix {last cs : List Char} (h : EndsWell cs) (hsuffix : last <:+ cs) :
    EndsWell last := by
  obtain ⟨front, rfl⟩ := hsuffix
  intro c hc
  refine h c ?_
  rw [List.getLast?_append, Option.mem_def.mp hc]
  rfl

/-- Blanks before the first piece do not matter. -/
theorem cleanValues_modifyHead {blanks : List Char} (h : allBlank blanks = true)
    (pieces : List (List Char)) :
    cleanValues (pieces.modifyHead (blanks ++ ·)) = cleanValues pieces := by
  cases pieces with
  | nil => rfl
  | cons p ps =>
      rw [List.modifyHead_cons, cleanValues, List.map_cons, cleanValue_allBlank_append h]
      rfl

/-- A label is cut at its keyword, and its value into those that are read in it. The last of them
goes on after the label. -/
theorem exists_splitOnWordFrom_label {before : Option Char} {l : CaseLabel} (h : l.IsSpaced)
    (hbefore : wordAt before = false) (piece more : List Char)
    (hmore : wordAt more.head? = false) : ∃ pieces last, EndsWell last ∧
      cleanValues (pieces ++ [last]) = caseValues l.value ∧
      splitOnWordFrom "case".toList before 0 piece (l.text ++ more) =
        (piece.reverse ++ l.before) :: (pieces ++ splitOnWordFrom "case".toList
          (l.trail.getLast?.or l.value.getLast?) 0 (last ++ l.trail).reverse more) := by
  have hcase := isPlainWord_case
  have hapart : l.lead ≠ [] ∨ wordAt (l.value ++ (l.trail ++ more)).head? = false := by
    rw [List.head?_append_of_ne_nil _ h.value.ne_nil]
    exact h.apart
  have hend : Text.Apart l.value (l.trail ++ more) :=
    Or.inr (Text.wordAt_head?_append h.trail (Or.inr hmore))
  obtain ⟨pieces, last, hvalue, hsplit⟩ :=
    Text.exists_splitOnWordFrom_append hcase hend none l.lead.reverse (Nat.zero_le _)
  refine ⟨pieces, last, ?_, ?_, ?_⟩
  · have hsuffix := Text.suffix_intercalate "case".toList pieces last
    rw [← hvalue, Text.intercalate_splitOnWordFrom hcase, List.reverse_reverse,
      List.drop_zero] at hsuffix
    refine EndsWell.of_suffix (fun c hc => h.value.last c ?_) hsuffix
    rwa [List.getLast?_append_of_ne_nil _ h.value.ne_nil] at hc
  · rw [← hvalue, Text.splitOnWordFrom_piece, List.reverse_reverse, cleanValues_modifyHead h.lead]
    rfl
  · rw [CaseLabel.text]
    simp only [List.append_assoc]
    rw [Text.splitOnWordFrom_blanks hcase h.before, Text.splitOnWordFrom_word hcase
      (Text.wordAt_getLast?_or h.before (Or.inr hbefore)) (Text.wordAt_head?_append h.lead hapart),
      Text.splitOnWordFrom_blanks hcase h.lead, List.append_nil, Text.splitOnWordFrom_before hcase
      (hapart.imp (fun hne => Text.wordAt_getLast?_or h.lead (Or.inl hne)) id), hsplit,
      Text.splitOnWordFrom_blanks hcase h.trail]
    simp

/-- The values of labels after a piece under way; a colon may close the last of them. -/
theorem cleanValues_splitOnWordFrom (before : Option Char) (piece : List Char) {l : CaseLabel}
    {labels : List CaseLabel} (hbefore : wordAt before = false)
    (h : ∀ l' ∈ l :: labels, l'.IsSpaced) {close : List Char} (hclose : close = [] ∨ close = [':']) :
    cleanValues (splitOnWordFrom "case".toList before 0 piece (labelsText (l :: labels) ++ close)) =
      cleanValues [piece.reverse ++ l.before] ++ (l :: labels).flatMap (caseValues ·.value) := by
  have hl := h l List.mem_cons_self
  have hword : Text.isWord ':' = false := by decide
  -- a colon goes into the piece under way
  have hcolon (before : Option Char) (piece more : List Char) :
      splitOnWordFrom "case".toList before 0 piece ([':'] ++ more) =
        splitOnWordFrom "case".toList (some ':') 0 ([':'].reverse ++ piece) more :=
    Text.splitOnWordFrom_append_of_not_hasWordFrom isPlainWord_case
      (Or.inl (show wordAt [':'].getLast? = false from hword)) rfl _
  induction labels generalizing before piece l with
  | nil =>
      have hend : wordAt close.head? = false := by
        rcases hclose with rfl | rfl
        · rfl
        · exact hword
      obtain ⟨pieces, last, hends, hvalues, hsplit⟩ :=
        exists_splitOnWordFrom_label hl hbefore piece close hend
      have htext : labelsText [l] = l.text := by simp [labelsText]
      have hlast : cleanValues (splitOnWordFrom "case".toList (l.trail.getLast?.or l.value.getLast?) 0
          (last ++ l.trail).reverse close) = cleanValues [last] := by
        rcases hclose with rfl | rfl
        · rw [splitOnWordFrom, List.reverse_reverse]
          exact cleanValues_singleton (cleanValue_append_of_allBlank last hl.trail)
        · rw [← List.append_nil [':'], hcolon, splitOnWordFrom]
          refine cleanValues_singleton ?_
          rw [← cleanValue_append_colon hends hl.trail (c := []) rfl]
          simp
      rw [htext, hsplit, ← List.singleton_append, cleanValues_append, cleanValues_append pieces, hlast,
        ← cleanValues_append, hvalues]
      simp
  | cons l' labels ih =>
      have hl' := h l' (List.mem_cons_of_mem l List.mem_cons_self)
      obtain ⟨pieces, last, hends, hvalues, hsplit⟩ := exists_splitOnWordFrom_label hl hbefore piece
        ([':'] ++ (labelsText (l' :: labels) ++ close)) hword
      have htext : labelsText (l :: l' :: labels) ++ close =
          l.text ++ ([':'] ++ (labelsText (l' :: labels) ++ close)) := by simp [labelsText]
      have hrest := ih (some ':') ([':'].reverse ++ (last ++ l.trail).reverse) hword
        (fun l'' hl'' => h l'' (List.mem_cons_of_mem l hl'')) hl'
      have hlast : cleanValues [([':'].reverse ++ (last ++ l.trail).reverse).reverse ++ l'.before] =
          cleanValues [last] := by
        refine cleanValues_singleton ?_
        rw [← cleanValue_append_colon hends hl.trail hl'.before]
        simp
      rw [htext, hsplit, hcolon, ← List.singleton_append, cleanValues_append,
        cleanValues_append pieces, hrest, hlast, ← List.append_assoc (cleanValues pieces),
        ← cleanValues_append pieces, hvalues]
      simp

/-- The values of labels are those that are read in the values of each of them, whether a colon closes
the last one or not. -/
theorem caseValues_labelsText {labels : List CaseLabel} (h : ∀ l ∈ labels, l.IsSpaced)
    (close : List Char) (hclose : close = [] ∨ close = [':']) :
    caseValues (labelsText labels ++ close) = labels.flatMap (caseValues ·.value) := by
  cases labels with
  | nil => rcases hclose with rfl | rfl <;> decide
  | cons l labels =>
      have hclean : cleanValue l.before = [] :=
        cleanValue_append_of_allBlank [] (h l List.mem_cons_self).before
      have hblank : cleanValues [l.before] = [] := by
        rw [cleanValues, List.map_singleton, hclean]
        rfl
      rw [caseValues_eq, splitOnWord, cleanValues_splitOnWordFrom none [] rfl h hclose,
        List.reverse_nil, List.nil_append, hblank, List.nil_append]

/-! ### Values -/

/-- A value in which the keyword does not stand is read as it is. -/
theorem caseValues_of_not_hasWord {v : List Char} (hv : IsCaseValue v)
    (h : hasWord "case".toList v = false) : caseValues v = [v] := by
  have hsplit : splitOnWord "case".toList v = [v] := Text.splitOnWordFrom_of_not_hasWordFrom h
  have htrim : Text.trim v = v :=
    Text.trim_indented 0 hv.first fun c hc => (hv.last c hc).1
  rw [caseValues_eq, hsplit, cleanValues, List.map_singleton, cleanValue_of_endsWell hv.last, htrim]
  obtain ⟨c, cs, rfl⟩ := List.exists_cons_of_ne_nil hv.ne_nil
  rfl

/-- What is counted in joined texts is counted in each of them and in what joins them. -/
theorem countP_intercalate (p : Char → Bool) (sep : List Char) {texts : List (List Char)}
    (hne : texts ≠ []) : (sep.intercalate texts).countP p + sep.countP p =
      texts.flatten.countP p + texts.length * sep.countP p := by
  induction texts with
  | nil => exact absurd rfl hne
  | cons t texts ih =>
      by_cases htexts : texts = []
      · rw [htexts]
        simp
      · have h := ih htexts
        rw [List.intercalate_cons_of_ne_nil htexts, List.countP_append, List.countP_append,
          List.flatten_cons, List.countP_append, List.length_cons, Nat.succ_mul]
        omega

/-- Values have no more in them than the pieces, and there are at most as many of them. -/
theorem cleanValues_le (pieces : List (List Char)) :
    (cleanValues pieces).flatten.Sublist pieces.flatten ∧
      (cleanValues pieces).length ≤ pieces.length := by
  induction pieces with
  | nil => exact ⟨List.Sublist.refl _, Nat.le_refl _⟩
  | cons q pieces ih =>
      have hq : (cleanValue q).Sublist q :=
        (Text.trim_sublist _).trans ((Text.dropEndWhile_sublist _ _).trans (Text.trim_sublist q))
      have hcons : cleanValues (q :: pieces) =
          if (cleanValue q).isEmpty then cleanValues pieces
          else cleanValue q :: cleanValues pieces := by
        rw [cleanValues, List.map_cons, List.filter_cons]
        cases (cleanValue q).isEmpty <;> rfl
      rw [hcons, List.flatten_cons]
      split_ifs
      · exact ⟨ih.1.trans (List.sublist_append_right _ _), Nat.le_succ_of_le ih.2⟩
      · exact ⟨hq.append ih.1, Nat.succ_le_succ ih.2⟩

/-- A value in which the keyword stands is not read as it is: it has more characters than the values
that are read in it with the word `or` between them, blanks apart. -/
theorem intercalate_caseValues_ne {v : List Char} (h : hasWord "case".toList v = true) :
    " or ".toList.intercalate (caseValues v) ≠ v := by
  intro heq
  let ink : Char → Bool := fun c => !Text.isBlank c
  have hpieces : 1 < (splitOnWord "case".toList v).length := Text.one_lt_length_splitOnWordFrom h
  have hne : splitOnWord "case".toList v ≠ [] := by
    intro hnil
    rw [hnil] at hpieces
    exact absurd hpieces (by decide)
  have hcase := countP_intercalate ink "case".toList hne
  rw [Text.intercalate_splitOnWord isPlainWord_case,
    show "case".toList.countP ink = 4 by decide] at hcase
  obtain ⟨hsublist, hlength⟩ := cleanValues_le (splitOnWord "case".toList v)
  rw [← caseValues_eq] at hsublist hlength
  have hcount := hsublist.countP_le (p := ink)
  by_cases hnil : caseValues v = []
  · rw [hnil, List.intercalate_nil] at heq
    rw [← heq] at h
    exact absurd h (by decide)
  · have hor := countP_intercalate ink " or ".toList hnil
    rw [heq, show " or ".toList.countP ink = 2 by decide] at hor
    omega

/-! ### Groups -/

variable (r : Reading)

/-- The groups of a switch. -/
def groups (t : ConcreteTree) : List ConcreteTree :=
  (((r.bodyOf t).map r.parts).getD []).filter fun g => r.vocabulary.groups.contains g.kind

/-- The statement nodes of a group, without a jump out of the switch at the end. -/
def caseNodes (g : ConcreteTree) : List ConcreteTree :=
  let nodes := (r.caseParts g).2
  match nodes.getLast? with
  | some last => if last.kind == "break_statement" then nodes.dropLast else nodes
  | none => nodes

/-- The label of a case for values of the subject. -/
def caseText (subject : List Char) (values : List (List Char)) : String :=
  if values.isEmpty then "default"
  else String.ofList (subject ++ " is ".toList ++ " or ".toList.intercalate values)

/-- The case that a group is made into. -/
theorem switchCase_value (subject : List Char) (g : ConcreteTree) :
    (r.switchCase subject g).value =
      ⟨caseText subject ((caseValues (r.caseParts g).1).filter (!isDefaultValue ·)), g.line,
        g.kind == "switch_default" || (caseValues (r.caseParts g).1).any isDefaultValue,
        (r.blocks (r.caseNodes g)).value⟩ := rfl

/-- A switch has a case for each of its groups. -/
theorem switch_value (t : ConcreteTree) : (r.switch t).value =
    .switch t.line (String.ofList (r.header t (r.bodyOf t))) (String.ofList (r.subject t))
      ((r.groups t).map fun g => (r.switchCase (r.subject t) g).value) := by
  rw [← Logged.value_mapM]
  rfl

/-- A group with labels: its text up to the last mark is that of the labels. -/
structure Labelled (g : ConcreteTree) (head : List ConcreteTree) (mark : ConcreteTree)
    (stmts : List ConcreteTree) (labels : List CaseLabel) : Prop where
  children : g.children = head ++ mark :: stmts
  isCaseMark : isCaseMark mark = true
  not_isCaseMark : ∀ s ∈ stmts, Reading.isCaseMark s = false
  spaced : ∀ l ∈ labels, l.IsSpaced
  text : ConcreteTree.slice r.source g.start mark.start = labelsText labels

/-- Without a mark there is nothing after one. -/
theorem afterMark?_eq_none {ts : List ConcreteTree} (h : ∀ t ∈ ts, isCaseMark t = false) :
    afterMark? ts = none := by
  induction ts with
  | nil => rfl
  | cons t ts ih =>
      rw [afterMark?, ih fun t' ht' => h t' (List.mem_cons_of_mem t ht')]
      exact if_neg (Bool.eq_false_iff.mp (h t List.mem_cons_self))

/-- Only the last mark counts. -/
theorem afterMark?_append (head : List ConcreteTree) {mark : ConcreteTree}
    {stmts : List ConcreteTree} (hmark : isCaseMark mark = true)
    (hstmts : ∀ s ∈ stmts, isCaseMark s = false) :
    afterMark? (head ++ mark :: stmts) = some (mark, stmts) := by
  induction head with
  | nil =>
      rw [List.nil_append, afterMark?, afterMark?_eq_none hstmts]
      exact if_pos hmark
  | cons t head ih => rw [List.cons_append, afterMark?, ih]

variable {r} {g mark value : ConcreteTree} {head stmts : List ConcreteTree}
  {labels : List CaseLabel}

/-- The label text of a group with labels, and its statement nodes. -/
theorem Labelled.caseParts (h : r.Labelled g head mark stmts labels) :
    r.caseParts g = (labelsText labels, match g.childrenIn "body" with
      | [] => stmts.filter fun c => c.isNamed && !r.isComment c
      | bodies => bodies.filter fun c => !r.isComment c) := by
  rw [Reading.caseParts, h.children, afterMark?_append head h.isCaseMark h.not_isCaseMark, ← h.text]
  dsimp only
  cases g.childrenIn "body" <;> rfl

/-- The values of a group with labels. -/
theorem Labelled.caseValues_eq (h : r.Labelled g head mark stmts labels) :
    caseValues (r.caseParts g).1 = labels.flatMap (caseValues ·.value) := by
  have hvalues := caseValues_labelsText h.spaced [] (.inl rfl)
  rw [List.append_nil] at hvalues
  rw [h.caseParts, hvalues]

variable (r)

/-- A group of a single case: the keyword, a value, a mark and statements. -/
def IsCase (g value : ConcreteTree) : Prop :=
  ∃ keyword mark stmts label, keyword.kind = "case" ∧ label.value = r.text value ∧
    r.Labelled g [keyword, value] mark stmts [label]

/-- How a case for the value `v` is read: as a default case if some part of the value between the
words `case` in it starts as the word `default` does, and as a case for `v` if that word does not
start the value and the word `case` does not stand in it. -/
structure ReadsValue (subject v : List Char) (c : Case Stmt) : Prop where
  isDefault_iff : c.isDefault = true ↔ ∃ w ∈ caseValues v, isDefaultValue w = true
  label_iff : c.isDefault = false ∧ c.label = String.ofList (subject ++ " is ".toList ++ v) ↔
    hasWord "case".toList v = false ∧ isDefaultValue v = false

variable {r}

/-- A case without values shows no value. -/
theorem caseText_ne (subject v : List Char) :
    caseText subject [] ≠ String.ofList (subject ++ " is ".toList ++ v) := by
  intro h
  have hspace : ' ' ∈ (caseText subject []).toList := by
    rw [h, String.toList_ofList]
    simp
  rw [show caseText subject [] = "default" from rfl] at hspace
  exact absurd hspace (by decide)

/-- A case with one value shows it after the subject. -/
theorem caseText_singleton (subject v : List Char) :
    caseText subject [v] = String.ofList (subject ++ " is ".toList ++ v) := by
  rw [caseText, List.intercalate_singleton]
  rfl

/-- A case for some values has the label for the value `v` only if they say `v`. -/
theorem intercalate_of_caseText {subject v : List Char} {values : List (List Char)}
    (h : caseText subject values = String.ofList (subject ++ " is ".toList ++ v)) :
    " or ".toList.intercalate values = v := by
  cases values with
  | nil => exact absurd h (caseText_ne subject v)
  | cons w values => exact List.append_cancel_left (String.ofList_injective h)

/-- A group of a single case is read as its value says. -/
theorem IsCase.readsValue (h : r.IsCase g value) (hkind : g.kind ≠ "switch_default")
    (subject : List Char) : ReadsValue subject (r.text value) (r.switchCase subject g).value := by
  obtain ⟨keyword, mark, stmts, label, -, hvalue, hlabelled⟩ := h
  have hv : IsCaseValue (r.text value) :=
    hvalue ▸ (hlabelled.spaced label (List.mem_singleton_self label)).value
  have hvalues : caseValues (r.caseParts g).1 = caseValues (r.text value) := by
    rw [hlabelled.caseValues_eq, List.flatMap_singleton, hvalue]
  rw [switchCase_value, hvalues, beq_eq_false_iff_ne.mpr hkind, Bool.false_or]
  refine ⟨List.any_eq_true, fun ⟨hdefault, hlabel⟩ => ?_, fun ⟨hcase, hdefault⟩ => ?_⟩
  · have hnone : ∀ w ∈ caseValues (r.text value), isDefaultValue w = false :=
      fun w hw => Bool.eq_false_iff.mpr (List.any_eq_false.mp hdefault w hw)
    rw [List.filter_eq_self.mpr fun w hw => by rw [hnone w hw]; rfl] at hlabel
    have hcase : hasWord "case".toList (r.text value) = false :=
      Bool.eq_false_iff.mpr fun hstands =>
        intercalate_caseValues_ne hstands (intercalate_of_caseText hlabel)
    refine ⟨hcase, hnone _ ?_⟩
    rw [caseValues_of_not_hasWord hv hcase]
    exact List.mem_singleton_self _
  · rw [caseValues_of_not_hasWord hv hcase, List.any_cons, List.filter_cons, hdefault]
    exact ⟨rfl, caseText_singleton subject _⟩

/-- A switch has a case for each of its groups. The case of a default node is a default case, and a
case for a value is read as `ReadsValue` says. -/
theorem switch_cases (r : Reading) (hjs : r.vocabulary = .javascript) (t : ConcreteTree) :
    ∃ cases, (r.switch t).value = .switch t.line (String.ofList (r.header t (r.bodyOf t)))
        (String.ofList (r.subject t)) cases ∧
      List.Forall₂ (fun g c => g.kind = "switch_default" ∧ c.isDefault = true ∨
        g.kind = "switch_case" ∧
          ∀ value, r.IsCase g value → ReadsValue (r.subject t) (r.text value) c)
        (r.groups t) cases := by
  refine ⟨_, r.switch_value t,
    List.forall₂_map_right_iff.mpr (List.forall₂_same.mpr fun g hg => ?_)⟩
  have hkind : g.kind = "switch_case" ∨ g.kind = "switch_default" := by
    rw [groups, List.mem_filter, hjs] at hg
    simpa [Vocabulary.javascript] using hg.2
  rcases hkind with hkind | hkind
  · exact Or.inr ⟨hkind, fun value h => h.readsValue (by rw [hkind]; decide) _⟩
  · refine Or.inl ⟨hkind, ?_⟩
    rw [switchCase_value, hkind]
    rfl

/-- The reading of a text. -/
def ofText (v : Vocabulary) (text : String) : Reading :=
  let source := Text.Utf8.encode text.toList
  ⟨v, source, readTree v source 8⟩

/-- The tree of a switch on `x` with some groups, up to the byte `stop`; the grammars differ in the
field of what the switch looks at. -/
def switchTree (field : String) (groups : List ConcreteTree) (stop : Nat) : ConcreteTree :=
  { kind := "switch_statement", start := 0, stop := stop, row := 0
    children := [
      { kind := "switch", start := 0, stop := 6, row := 0, isNamed := false },
      { kind := "parenthesized_expression", start := 7, stop := 10, row := 0
        field := some field },
      { kind := "switch_body", start := 11, stop := stop, row := 0, field := some "body"
        children := groups }] }

/-- The reading of a switch with a single case for `v`. -/
def oneCase (v : String) : Reading :=
  ofText .javascript ("switch (x) \x7b case " ++ v ++ ": a(); \x7d")

/-- The value of that case, if it has `n` bytes. -/
def oneCaseValue (kind : String) (n : Nat) : ConcreteTree :=
  { kind := kind, start := 18, stop := 18 + n, row := 0, field := some "value" }

/-- The group of that case. -/
def oneCaseGroup (kind : String) (n : Nat) : ConcreteTree :=
  { kind := "switch_case", start := 13, stop := 24 + n, row := 0
    children := [
      { kind := "case", start := 13, stop := 17, row := 0, isNamed := false },
      oneCaseValue kind n,
      { kind := ":", start := 18 + n, stop := 19 + n, row := 0, isNamed := false },
      { kind := "expression_statement", start := 20 + n, stop := 24 + n, row := 0
        field := some "body" }] }

/-- The tree of that switch. -/
def oneCaseTree (kind : String) (n : Nat) : ConcreteTree :=
  switchTree "value" [oneCaseGroup kind n] (26 + n)

/-- Whether the bytes of the case are where its tree says. -/
def oneCaseAt (kind v : String) (n : Nat) : Bool :=
  (oneCase v).text (oneCaseValue kind n) == v.toList &&
    ConcreteTree.slice (oneCase v).source 13 (18 + n) == "case ".toList ++ v.toList

/-- A group of one label is a case for its value. -/
theorem isCase_oneCase {kind v : String} {n : Nat} (hv : IsCaseValue v.toList)
    (h : oneCaseAt kind v n = true) :
    (oneCase v).IsCase (oneCaseGroup kind n) (oneCaseValue kind n) := by
  rw [oneCaseAt, Bool.and_eq_true, beq_iff_eq, beq_iff_eq] at h
  have hspaced : (⟨[], [' '], v.toList, []⟩ : CaseLabel).IsSpaced :=
    ⟨rfl, show allBlank [' '] = true by decide, rfl, Or.inl (List.cons_ne_nil _ _), hv⟩
  refine ⟨_, _, _, ⟨[], [' '], v.toList, []⟩, ?_, h.1.symm, rfl, rfl, ?_, ?_, ?_⟩
  · rfl
  · intro s hs
    rw [List.mem_singleton.mp hs]
    rfl
  · intro l hl
    rw [List.mem_singleton.mp hl]
    exact hspaced
  · refine h.2.trans ?_
    simp [labelsText, CaseLabel.text]

/-- A number is read as it is. -/
theorem switch_cases_number :
    let r := oneCase "1"
    let t := oneCaseTree "number" 1
    r.vocabulary = .javascript ∧ r.IsCase (oneCaseGroup "number" 1) (oneCaseValue "number" 1) ∧
      (∃ cases, (r.switch t).value = .switch t.line (String.ofList (r.header t (r.bodyOf t)))
          (String.ofList (r.subject t)) cases ∧
        List.Forall₂ (fun g c => g.kind = "switch_default" ∧ c.isDefault = true ∨
          g.kind = "switch_case" ∧
            ∀ value, r.IsCase g value → ReadsValue (r.subject t) (r.text value) c)
          (r.groups t) cases) :=
  ⟨rfl, isCase_oneCase (by decide) (by decide +kernel), switch_cases _ rfl _⟩

/-- A case for an identifier that starts as the word `default` does is a default case. -/
theorem switch_defaultColor :
    let r := oneCase "defaultColor"
    r.vocabulary = .javascript ∧
      r.IsCase (oneCaseGroup "identifier" 12) (oneCaseValue "identifier" 12) ∧
      r.text (oneCaseValue "identifier" 12) = "defaultColor".toList ∧
      (r.switch (oneCaseTree "identifier" 12)).value = .switch (some 1) "switch (x)" "x"
        [⟨"default", some 1, true, [.simple (some 1) "a();"]⟩] :=
  ⟨rfl, isCase_oneCase (by decide) (by decide +kernel), by decide +kernel, by rfl⟩

end Reading

end Flowchart
