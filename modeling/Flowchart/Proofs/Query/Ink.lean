import Flowchart.Proofs.Query.Positions

/-!
# A scan keeps the text of a statement

The *ink* of a text is what remains of it without its blanks. The clauses of a statement, read one
after another, give the ink of the statement, with two exceptions that `Tells` names: commas at the
end of a clause may be left out, and a limit that was cut out of a select list comes directly after
the rest of this select. `told_scan` says so for every statement of a query text.

A statement is cut at its marks, so the pieces make up the statement if the marks are in order
(`flatMap_cut`). They are, since the scan for keywords goes from left to right (`pairwise_marks`), and
no keyword stands before the word that starts named subqueries.

## Limits

A limit in a select list is cut out of the text of its clause and becomes a clause of its own. The
reader of limits goes over an optional word, blanks, an optional parenthesis and digits. Each of these
takes some ink and leaves a rest (`Spends`), and in a row they give what is cut out and what stands on
both sides of it (`Cut`). The text that is left has two blanks in a row where the limit stood, but no
ink is lost.

## Main results

* `flatMap_cut`: the pieces between marks in order make up the statement.
* `exists_cut_of_topOf?`: where a limit was cut out of a select list, and what it is.
* `tells_scanStatement`: the clauses of a statement tell its ink.
* `told_scan`: so do those of all statements of a text, each with a clause at least.
-/

namespace Flowchart.Text

/-! ### Ink -/

/-- The characters of a text that are no blanks. -/
def ink (cs : List Char) : List Char := cs.filter (!isBlank ·)

/-- The ink of two texts is the ink of both. -/
@[simp] theorem ink_append (as bs : List Char) : ink (as ++ bs) = ink as ++ ink bs :=
  List.filter_append ..

/-- A text without blanks is its ink. -/
theorem ink_eq_self {cs : List Char} (h : ∀ c ∈ cs, isBlank c = false) : ink cs = cs :=
  List.filter_eq_self.mpr fun c hc => by rw [h c hc]; rfl

/-- Blanks have no ink. -/
theorem ink_eq_nil {cs : List Char} (h : ∀ c ∈ cs, isBlank c = true) : ink cs = [] :=
  List.filter_eq_nil_iff.mpr fun c hc => by rw [h c hc]; exact Bool.noConfusion

/-- A blank text has no ink. -/
theorem ink_of_allBlank {cs : List Char} (h : allBlank cs = true) : ink cs = [] :=
  ink_eq_nil (List.all_eq_true.mp h)

/-- The blanks at the start of a text do not count. -/
theorem ink_dropWhile_isBlank (cs : List Char) : ink (cs.dropWhile isBlank) = ink cs := by
  conv_rhs => rw [← List.takeWhile_append_dropWhile (p := isBlank) (l := cs), ink_append]
  rw [ink_eq_nil fun c hc => List.mem_takeWhile_imp hc, List.nil_append]

/-- Trimming keeps the ink. -/
@[simp] theorem ink_trim (cs : List Char) : ink (trim cs) = ink cs := by
  obtain ⟨dropped, heq, hblank⟩ := exists_eq_dropEndWhile_append isBlank (trimStart cs)
  have hstart : ink (trimStart cs) = ink cs := ink_dropWhile_isBlank cs
  rw [← hstart, heq, ink_append, ink_eq_nil hblank, List.append_nil]
  rfl

/-- Squeezing blanks keeps the ink. -/
theorem ink_squeezeFrom (inRun : Bool) (cs : List Char) : ink (squeezeFrom inRun cs) = ink cs := by
  induction cs generalizing inRun with
  | nil => rfl
  | cons c cs ih =>
      have hspace : isBlank ' ' = true := by decide
      cases hc : isBlank c <;> cases inRun <;>
        simp_all [squeezeFrom, ink]

/-- Writing a text on one line keeps its ink. -/
@[simp] theorem ink_normalize (cs : List Char) : ink (normalize cs) = ink cs := by
  rw [normalize, ink_trim, squeeze, ink_squeezeFrom]

/-- A decimal digit is no blank. -/
theorem isBlank_of_isDigit {c : Char} (h : isDigit c = true) : isBlank c = false := by
  have hzeros : ∀ z ∈ Property.decimalZeros, 0x660 ≤ z ∧
      (z + 10 ≤ 0x1680 ∨ 0x1680 < z ∧ z + 10 ≤ 0x2000 ∨ 0x3000 < z) := by decide
  rw [Bool.eq_false_iff]
  intro hblank
  simp only [isBlank, Bool.or_eq_true, Bool.and_eq_true, decide_eq_true_eq, beq_iff_eq] at hblank
  simp only [isDigit, digit?] at h
  split_ifs at h with hascii hdigit
  · simp only [Char.isDigit, Bool.and_eq_true, decide_eq_true_eq, ge_iff_le,
      UInt32.le_iff_toNat_le] at hdigit
    have hlow : 48 ≤ c.toNat := hdigit.1
    have hhigh : c.toNat ≤ 57 := hdigit.2
    omega
  · exact absurd h Bool.noConfusion
  · rw [Option.isSome_map, Array.find?_isSome] at h
    obtain ⟨z, hz, hin⟩ := h
    simp only [Bool.and_eq_true, decide_eq_true_eq] at hin
    have := hzeros z hz
    omega

/-! ### Words in any letter case -/

/-- What follows a word that a text starts with, case ignored. -/
theorem foldedPrefix?_eq_some_iff {word cs rest : List Char} :
    foldedPrefix? word cs = some rest ↔ ∃ here, cs = here ++ rest ∧ here.map fold = word := by
  fun_induction foldedPrefix? word cs with
  | case1 cs =>
      constructor
      · intro h
        exact ⟨[], Option.some.inj h, rfl⟩
      · rintro ⟨here, rfl, hnil⟩
        rw [List.map_eq_nil_iff.mp hnil, List.nil_append]
  | case2 w word =>
      refine iff_of_false nofun ?_
      rintro ⟨here, hcs, hword⟩
      obtain ⟨rfl, -⟩ := List.append_eq_nil_iff.mp hcs.symm
      exact absurd hword nofun
  | case3 word c cs ih =>
      rw [ih]
      constructor
      · rintro ⟨here, rfl, hword⟩
        exact ⟨c :: here, rfl, by rw [List.map_cons, hword]⟩
      · rintro ⟨here, hcs, hword⟩
        cases here with
        | nil => exact absurd hword nofun
        | cons d here =>
            obtain ⟨rfl, rfl⟩ := List.cons.inj hcs
            exact ⟨here, rfl, (List.cons.inj hword).2⟩
  | case4 w word c cs hne =>
      refine iff_of_false nofun ?_
      rintro ⟨here, hcs, hword⟩
      cases here with
      | nil => exact absurd hword nofun
      | cons d here =>
          obtain ⟨rfl, -⟩ := List.cons.inj hcs
          exact hne (List.cons.inj hword).1

end Flowchart.Text

namespace Flowchart.Query

open Text (ink fold isBlank isDigit)

/-- A word in any letter case is its ink. -/
theorem ink_of_map_fold {here word : List Char} (h : here.map fold = word)
    (hword : ∀ w ∈ word, w.isLower = true) : ink here = here :=
  Text.ink_eq_self fun c hc =>
    isBlank_of_isLower_fold (hword (fold c) (h ▸ List.mem_map_of_mem hc))

/-! ### Limits in select lists -/

/-- A text is put together of parts, one for each of some properties in this order. -/
inductive Composed : List (List Char → Prop) → List Char → Prop
  | nil : Composed [] []
  | cons {P : List Char → Prop} {Ps : List (List Char → Prop)} {part rest : List Char} :
      P part → Composed Ps rest → Composed (P :: Ps) (part ++ rest)

/-- Texts of several parts in a row are a text of all these parts. -/
theorem Composed.append {Ps Qs : List (List Char → Prop)} {as bs : List Char}
    (h : Composed Ps as) (h' : Composed Qs bs) : Composed (Ps ++ Qs) (as ++ bs) := by
  induction h with
  | nil => exact h'
  | cons hP _ ih =>
      rw [List.append_assoc]
      exact .cons hP ih

/-- A word in some letter case. -/
def Spells (word : String) (cs : List Char) : Prop := cs.map fold = word.toList

/-- Decimal digits. -/
def IsNumeral (cs : List Char) : Prop := cs ≠ [] ∧ ∀ d ∈ cs, isDigit d = true

/-- A part that may be missing. -/
def Maybe (P : List Char → Prop) (cs : List Char) : Prop := cs = [] ∨ P cs

/-- The parts of a limit: its word, a number that may stand in parentheses, and perhaps the word for a
share. -/
def limitParts : List (List Char → Prop) :=
  [Spells "top", Maybe (· = ['(']), IsNumeral, Maybe (· = [')']), Maybe (Spells "percent")]

/-- The parts of what stands before a limit in a select. -/
def headParts : List (List Char → Prop) := [Spells "select", Maybe (Spells "distinct")]

/-- The text `cs` up to its end `rest` has its ink composed of parts. -/
def Spends (parts : List (List Char → Prop)) (cs rest : List Char) : Prop :=
  ∃ here, cs = here ++ rest ∧ Composed parts (ink here)

namespace Spends

variable {Ps Qs : List (List Char → Prop)} {P : List Char → Prop} {cs mid rest : List Char}

/-- What is spent on some parts and then on others is spent on all of them. -/
theorem append (h : Spends Ps cs mid) (h' : Spends Qs mid rest) : Spends (Ps ++ Qs) cs rest := by
  obtain ⟨here, rfl, hPs⟩ := h
  obtain ⟨there, rfl, hQs⟩ := h'
  refine ⟨here ++ there, (List.append_assoc here there rest).symm, ?_⟩
  rw [Text.ink_append]
  exact hPs.append hQs

/-- A part without blanks. -/
theorem part (here : List Char) (hink : ink here = here) (hP : P here) :
    Spends [P] (here ++ rest) rest := by
  refine ⟨here, rfl, ?_⟩
  rw [hink, ← List.append_nil here]
  exact .cons hP .nil

/-- A part that is missing. -/
theorem missing (P : List Char → Prop) (cs : List Char) : Spends [Maybe P] cs cs :=
  part [] rfl (Or.inl rfl)

/-- A part may be there that is there. -/
theorem maybe (h : Spends [P] cs rest) : Spends [Maybe P] cs rest := by
  obtain ⟨here, heq, hcomposed⟩ := h
  refine ⟨here, heq, ?_⟩
  generalize ink here = inked at hcomposed ⊢
  cases hcomposed with
  | cons hP hnil => exact .cons (Or.inr hP) hnil

/-- Blanks are no part. -/
theorem blanks (cs : List Char) : Spends [] cs (cs.dropWhile isBlank) := by
  refine ⟨cs.takeWhile isBlank, List.takeWhile_append_dropWhile.symm, ?_⟩
  rw [Text.ink_eq_nil fun _ hc => List.mem_takeWhile_imp hc]
  exact .nil

/-- A word that is found, in whatever case, is spent on its spelling. -/
theorem word {word : String} (hword : word.toList.all Char.isLower = true)
    (h : Text.foldedPrefix? word.toList cs = some rest) : Spends [Spells word] cs rest := by
  obtain ⟨here, rfl, hfold⟩ := Text.foldedPrefix?_eq_some_iff.mp h
  exact part here (ink_of_map_fold hfold (List.all_eq_true.mp hword)) hfold

/-- A parenthesis is spent if it is there. -/
theorem paren {paren : Char} (hparen : isBlank paren = false) (cs : List Char) :
    Spends [Maybe (· = [paren])] cs (dropParen paren cs) := by
  rw [dropParen]
  split_ifs with hhead
  · cases cs with
    | nil => exact absurd hhead nofun
    | cons c rest =>
        obtain rfl : c = paren := Option.some.inj hhead
        exact part [c] (Text.ink_eq_self (by simpa using hparen)) (Or.inr rfl)
  · exact missing _ cs

/-- A numeral is spent up to its last digit. -/
theorem digits (h : cs.head?.any isDigit = true) :
    Spends [IsNumeral] cs (cs.dropWhile isDigit) := by
  have hall : ∀ d ∈ cs.takeWhile isDigit, isDigit d = true := fun _ hd => List.mem_takeWhile_imp hd
  have hne : cs.takeWhile isDigit ≠ [] := by
    cases cs with
    | nil => exact absurd h Bool.noConfusion
    | cons d rest =>
        rw [List.takeWhile_cons_of_pos (by simpa using h)]
        exact List.cons_ne_nil _ _
  have hink := Text.ink_eq_self fun d hd => Text.isBlank_of_isDigit (hall d hd)
  have hpart : Spends [IsNumeral] (cs.takeWhile isDigit ++ cs.dropWhile isDigit) _ :=
    part _ hink ⟨hne, hall⟩
  rwa [List.takeWhile_append_dropWhile] at hpart

end Spends

/-- What stands before the place after a limit is a limit. -/
theorem spends_of_afterTop? {cs after : List Char} (h : afterTop? cs = some after) :
    Spends limitParts cs after := by
  simp only [afterTop?, bind, Option.bind_eq_some_iff] at h
  obtain ⟨afterWord, hword, h⟩ := h
  set inner := dropParen '(' (afterWord.dropWhile isBlank) with hinner
  set number := inner.dropWhile isBlank with hnumber
  set tail := (number.dropWhile isDigit).dropWhile isBlank with htail
  have hopening : Spends [Maybe (· = ['('])] afterWord number :=
    ((Spends.blanks afterWord).append (Spends.paren (by decide) _)).append (.blanks inner)
  -- all but the word for a share
  have hfront : number.head?.any isDigit = true →
      Spends [Spells "top", Maybe (· = ['(']), IsNumeral, Maybe (· = [')'])] cs
        (dropParen ')' tail) := fun hdigit =>
    (((Spends.word (by decide) hword).append hopening).append (Spends.digits hdigit)).append
      ((Spends.blanks _).append (Spends.paren (by decide) tail))
  split_ifs at h with hdigit hblank
  · cases hshare : Text.foldedPrefix? "percent".toList ((dropParen ')' tail).dropWhile isBlank) with
    | none =>
        rw [hshare] at h
        obtain rfl : dropParen ')' tail = after := Option.some.inj h
        exact (hfront hdigit).append (Spends.missing _ _)
    | some rest =>
        rw [hshare] at h
        obtain rfl : rest = after := Option.some.inj h
        have hlast : Spends [Spells "percent"] (dropParen ')' tail) rest :=
          (Spends.blanks _).append (Spends.word (by decide) hshare)
        exact (hfront hdigit).append hlast.maybe
  · obtain rfl : dropParen ')' tail = after := Option.some.inj h
    exact (hfront hdigit).append (Spends.missing _ _)

/-- The text of a select before, in and after its limit. -/
structure Cut (text before limit after : List Char) : Prop where
  text_eq : text = before ++ limit ++ after
  head : Composed headParts (ink before)
  limit : Composed limitParts (ink limit)

/-- What is spent after the head and before the rest is cut out of the text. -/
theorem Spends.cut {text list after : List Char} (h : Spends headParts text list)
    (h' : Spends limitParts list after) : ∃ before limit, Cut text before limit after ∧
      before.length = text.length - list.length ∧ limit.length = list.length - after.length := by
  obtain ⟨before, rfl, hhead⟩ := h
  obtain ⟨limit, rfl, hlimit⟩ := h'
  exact ⟨before, limit, ⟨(List.append_assoc ..).symm, hhead, hlimit⟩, by simp, by simp⟩

/-- Where a limit is read: in the list behind the word of the select and blanks, or behind the word for
distinct rows and blanks in this list. -/
theorem exists_of_topOf? {text : List Char} {start length : Nat}
    (h : topOf? text = some (start, length)) : ∃ rest list after,
      Text.foldedPrefix? "select".toList text = some rest ∧
      (rest.dropWhile isBlank).length < rest.length ∧
      (list = rest.dropWhile isBlank ∨
        ∃ rest', Text.foldedPrefix? "distinct".toList (rest.dropWhile isBlank) = some rest' ∧
          list = rest'.dropWhile isBlank) ∧
      afterTop? list = some after ∧ text.length - list.length = start ∧
      list.length - after.length = length := by
  simp only [topOf?, bind, Option.bind_eq_some_iff] at h
  obtain ⟨rest, hselect, h⟩ := h
  set list := rest.dropWhile isBlank with hlist
  split_ifs at h with hblank
  have hplain : ((afterTop? list).map fun after =>
      (text.length - list.length, list.length - after.length)) = some (start, length) →
      ∃ after, afterTop? list = some after ∧ text.length - list.length = start ∧
        list.length - after.length = length := fun h => by
    obtain ⟨after, htop, heq⟩ := Option.map_eq_some_iff.mp h
    exact ⟨after, htop, Prod.mk.inj heq⟩
  cases hdistinct : Text.foldedPrefix? "distinct".toList list with
  | none =>
      rw [hdistinct] at h
      obtain ⟨after, hafter⟩ := hplain h
      exact ⟨rest, list, after, hselect, hblank, Or.inl rfl, hafter⟩
  | some rest' =>
      rw [hdistinct] at h
      dsimp only at h
      split_ifs at h with hblank'
      · cases htop : afterTop? (rest'.dropWhile isBlank) with
        | none =>
            rw [htop] at h
            obtain ⟨after, hafter⟩ := hplain h
            exact ⟨rest, list, after, hselect, hblank, Or.inl rfl, hafter⟩
        | some after =>
            rw [htop] at h
            exact ⟨rest, _, after, hselect, hblank, Or.inr ⟨rest', hdistinct, rfl⟩, htop,
              Prod.mk.inj (Option.some.inj h)⟩
      · obtain ⟨after, hafter⟩ := hplain h
        exact ⟨rest, list, after, hselect, hblank, Or.inl rfl, hafter⟩

/-- A limit is cut out of a select after the word of the select. -/
theorem exists_cut_of_topOf? {text : List Char} {start length : Nat}
    (h : topOf? text = some (start, length)) : ∃ before limit after, Cut text before limit after ∧
      before.length = start ∧ limit.length = length := by
  obtain ⟨rest, list, after, hselect, -, hlist, htop, rfl, rfl⟩ := exists_of_topOf? h
  have hword : Spends [Spells "select"] text (rest.dropWhile isBlank) :=
    (Spends.word (by decide) hselect).append (Spends.blanks _)
  have hhead : Spends headParts text list := by
    rcases hlist with rfl | ⟨rest', hdistinct, rfl⟩
    · exact hword.append (Spends.missing _ _)
    · have hinner : Spends [Spells "distinct"] (rest.dropWhile isBlank) (rest'.dropWhile isBlank) :=
        (Spends.word (by decide) hdistinct).append (Spends.blanks _)
      exact hword.append hinner.maybe
  obtain ⟨before, limit, hcut, hlengths⟩ := hhead.cut (spends_of_afterTop? htop)
  exact ⟨before, limit, after, hcut, hlengths⟩

/-! ### What clauses tell -/

/-- The clauses, read one after another, tell the ink of a text. Commas at the end of a clause may be
left out. A limit that was cut out of a select, but not in Spark, comes directly after the rest of
this select. -/
inductive Tells (dialect : Dialect) : List Clause → List Char → Prop
  | nil : Tells dialect [] []
  | clause {c : Clause} {commas : Nat} {clauses : List Clause} {rest : List Char} :
      Tells dialect clauses rest →
      Tells dialect (c :: clauses) (ink c.text.toList ++ List.replicate commas ',' ++ rest)
  | limited {c limit : Clause} {before after : List Char} {commas : Nat} {clauses : List Clause}
      {rest : List Char} : dialect ≠ .spark → c.kind = .select → limit.kind = .limit →
      ink c.text.toList = before ++ after → Composed headParts before →
      Composed limitParts (ink limit.text.toList) → Tells dialect clauses rest →
      Tells dialect (c :: limit :: clauses)
        (before ++ ink limit.text.toList ++ after ++ List.replicate commas ',' ++ rest)

/-- Clauses that tell two texts tell both in a row. -/
theorem Tells.append {dialect : Dialect} {cs ds : List Clause} {as bs : List Char}
    (h : Tells dialect cs as) (h' : Tells dialect ds bs) : Tells dialect (cs ++ ds) (as ++ bs) := by
  induction h with
  | nil => exact h'
  | clause _ ih =>
      rw [List.append_assoc]
      exact .clause ih
  | limited hspark hselect hlimit htext hhead hlimitParts _ ih =>
      rw [List.append_assoc]
      exact .limited hspark hselect hlimit htext hhead hlimitParts ih

/-- One clause tells its text. -/
theorem Tells.single (dialect : Dialect) (c : Clause) (commas : Nat) :
    Tells dialect [c] (ink c.text.toList ++ List.replicate commas ',') := by
  rw [← List.append_nil (_ ++ List.replicate commas ',')]
  exact .clause .nil

/-- Writing pairs of spaces as one keeps the ink. -/
@[simp] theorem ink_halveSpaces (cs : List Char) : ink (halveSpaces cs) = ink cs := by
  have hspace : isBlank ' ' = true := by decide
  fun_induction halveSpaces cs <;> simp_all [ink, List.filter_cons]

/-- The clauses of a keyword tell their text. -/
theorem tells_clausesOf (dialect : Dialect) (kind : ClauseKind) (text : List Char) (line : Int)
    (pos commas : Nat) : Tells dialect (clausesOf dialect kind text line pos)
      (ink text ++ List.replicate commas ',') := by
  have hwhole := Tells.single dialect ⟨kind, String.ofList text, line, pos⟩ commas
  rw [String.toList_ofList] at hwhole
  simp only [clausesOf]
  split_ifs with hselect
  · split
    · exact hwhole
    next start length htop =>
      obtain ⟨before, limit, after, ⟨rfl, hhead, hlimit⟩, rfl, rfl⟩ := exists_cut_of_topOf? htop
      rw [List.append_assoc, List.take_left, List.drop_left, List.take_left, ← List.append_assoc,
        ← List.length_append, List.drop_left]
      have htold : Tells dialect
          [⟨.select, String.ofList (Text.trim (halveSpaces (before ++ after))), line, pos⟩,
            ⟨.limit, String.ofList (Text.trim limit), line, pos⟩]
          (ink before ++ ink (String.ofList (Text.trim limit)).toList ++ ink after ++
            List.replicate commas ',' ++ []) :=
        .limited hselect.2 rfl rfl (by simp) hhead (by simpa using hlimit) .nil
      simpa using htold
  · exact hwhole

/-! ### Marks in order -/

/-- Keywords are found from left to right. -/
theorem pairwise_marksFrom (pos : Nat) (before : Option Char) (skip : Nat) (cs : List Char)
    (ds : List (Option Nat)) : (marksFrom pos before skip cs ds).Pairwise (·.1 < ·.1) := by
  fun_induction marksFrom pos before skip cs ds with
  | case1 pos before skip c cs d ds ih => exact ih
  | case2 pos before c cs d ds hnone ih => exact ih
  | case3 pos before c cs ds kind length hfound rest ih =>
      refine .cons (fun mark hmark => ?_) ih
      obtain ⟨i, hi, -⟩ := lettered_of_mem_marksFrom hmark
      exact hi ▸ Nat.lt_of_lt_of_le (Nat.lt_succ_self pos) (Nat.le_add_right _ i)
  | case4 pos before c cs d ds kind length hfound rest hd ih => exact ih
  | case5 => exact .nil

/-- A letter stands after the blanks at the start. -/
theorem IsLettered.le {cs : List Char} {p : Nat} (h : IsLettered cs p) :
    (cs.takeWhile isBlank).length ≤ p := by
  obtain ⟨a, ha, hblank⟩ := h.inked
  obtain ⟨hp, rfl⟩ := List.getElem?_eq_some_iff.mp ha
  by_contra hlt
  rw [Nat.not_le] at hlt
  have hmem : cs[p] ∈ cs.takeWhile isBlank :=
    (List.takeWhile_prefix isBlank).getElem hlt ▸ List.getElem_mem hlt
  rw [List.mem_takeWhile_imp hmem] at hblank
  exact Bool.noConfusion hblank

/-- The marks of a statement are in order. -/
theorem pairwise_marks (stmt : List Char) : (marks stmt).Pairwise (·.1 ≤ ·.1) := by
  have hrest := (pairwise_marksFrom 0 none 0 stmt (depths stmt)).imp Nat.le_of_lt
  cases hcte : cteMark? stmt with
  | none => simpa [marks, hcte] using hrest
  | some pos =>
      rw [marks, hcte]
      refine .cons (fun mark hmark => ?_) hrest
      obtain ⟨i, hi, hlettered⟩ := lettered_of_mem_marksFrom hmark
      rw [hi, Nat.zero_add, (eq_of_cteMark? hcte).1]
      exact hlettered.le

/-- The pieces between marks in order make up the statement from the first mark on. -/
theorem flatMap_cut {stmt : List Char} {mark : Nat × ClauseKind} {rest : List (Nat × ClauseKind)}
    (h : (mark :: rest).Pairwise (·.1 ≤ ·.1)) :
    (cut stmt (mark :: rest)).flatMap (·.2.2) = stmt.drop mark.1 := by
  induction rest generalizing mark with
  | nil => exact List.append_nil _
  | cons next rest ih =>
      have hle : mark.1 ≤ next.1 := (List.pairwise_cons.mp h).1 next List.mem_cons_self
      have hdrop : stmt.drop next.1 = (stmt.drop mark.1).drop (next.1 - mark.1) := by
        rw [List.drop_drop, Nat.add_sub_cancel' hle]
      rw [cut, List.flatMap_cons, ih (List.pairwise_cons.mp h).2, List.drop_take, hdrop,
        List.take_append_drop]

/-- A piece starts where its mark stands. -/
theorem prefix_of_mem_cut {stmt piece : List Char} {marks : List (Nat × ClauseKind)} {pos : Nat}
    {kind : ClauseKind} (h : (pos, kind, piece) ∈ cut stmt marks) : piece <+: stmt.drop pos := by
  fun_induction cut stmt marks with
  | case1 => exact absurd h List.not_mem_nil
  | case2 pos' kind' =>
      obtain ⟨rfl, -, rfl⟩ : pos = pos' ∧ kind = kind' ∧ piece = stmt.drop pos' := by simpa using h
      exact List.prefix_rfl
  | case3 pos' kind' next kind'' marks ih =>
      rcases List.mem_cons.mp h with heq | h
      · obtain ⟨rfl, -, rfl⟩ : pos = pos' ∧ kind = kind' ∧ piece = (stmt.take next).drop pos' := by
          simpa using heq
        rw [List.drop_take]
        exact List.take_prefix _ _
      · exact ih h

/-! ### A scan -/

/-- A piece of a statement that is a clause of its own is told as it is. -/
theorem tells_ownClause (dialect : Dialect) (sql : List Char) (offset : Nat) (piece : List Char) :
    Tells dialect (ownClause sql offset piece) (ink piece) := by
  rw [ownClause]
  split_ifs with hblank
  · rw [Text.ink_of_allBlank hblank]
    exact .nil
  · simpa using Tells.single dialect
      ⟨.statement, String.ofList (Text.normalize piece), _, _⟩ 0

/-- The text of a clause is that of its piece without commas at the end. -/
theorem ink_clauseText (piece : List Char) :
    ∃ commas, ink piece = ink (clauseText piece) ++ List.replicate commas ',' := by
  obtain ⟨dropped, heq, hcomma⟩ :=
    Text.exists_eq_dropEndWhile_append (· == ',') (Text.normalize piece)
  have hdropped : dropped = List.replicate dropped.length ',' :=
    List.eq_replicate_iff.mpr ⟨rfl, fun c hc => beq_iff_eq.mp (hcomma c hc)⟩
  refine ⟨dropped.length, ?_⟩
  have hkept : ink dropped = dropped := Text.ink_eq_self fun c hc => by
    rw [beq_iff_eq.mp (hcomma c hc)]
    decide
  rw [← Text.ink_normalize, heq, Text.ink_append, ← hdropped, clauseText, hkept]

/-- The text of a clause that starts with a letter is not empty. -/
theorem clauseText_ne_nil {a : Char} {piece : List Char} (h : (fold a).isLower = true) :
    clauseText (a :: piece) ≠ [] := by
  intro hnil
  obtain ⟨commas, hink⟩ := ink_clauseText (a :: piece)
  have ha : a ∈ ink (a :: piece) :=
    List.mem_filter.mpr ⟨List.mem_cons_self, by rw [isBlank_of_isLower_fold h]; rfl⟩
  rw [hink, hnil] at ha
  rw [List.eq_of_mem_replicate ha] at h
  exact absurd h (by decide)

/-- The pieces of a statement are told one after another. -/
theorem tells_pieces (dialect : Dialect) (sql : List Char) (offset : Nat)
    {pieces : List (Nat × ClauseKind × List Char)}
    (h : ∀ p ∈ pieces, ∀ a ∈ p.2.2.head?, (fold a).isLower = true) :
    Tells dialect (pieces.flatMap fun (pos, kind, piece) =>
      let text := clauseText piece
      if text.isEmpty then []
      else clausesOf dialect kind text (lineAt sql (offset + pos)) (offset + pos))
      (ink (pieces.flatMap (·.2.2))) := by
  induction pieces with
  | nil => exact .nil
  | cons p pieces ih =>
      obtain ⟨pos, kind, piece⟩ := p
      rw [List.flatMap_cons, List.flatMap_cons, Text.ink_append]
      refine .append ?_ (ih fun p hp => h p (List.mem_cons_of_mem _ hp))
      cases piece with
      | nil => exact .nil
      | cons a piece =>
          have hne : clauseText (a :: piece) ≠ [] :=
            clauseText_ne_nil (h _ List.mem_cons_self a rfl)
          obtain ⟨commas, hink⟩ := ink_clauseText (a :: piece)
          dsimp only
          rw [if_neg (by simpa using hne), hink]
          exact tells_clausesOf ..

/-- The clauses of a statement tell its text. -/
theorem tells_scanStatement (dialect : Dialect) (sql : List Char) (offset : Nat)
    (stmt : List Char) : Tells dialect (scanStatement dialect sql offset stmt) (ink stmt) := by
  have hletter : ∀ p ∈ cut stmt (marks stmt), ∀ a ∈ p.2.2.head?, (fold a).isLower = true := by
    rintro ⟨pos, kind, piece⟩ hp a ha
    obtain ⟨b, hb, hlower⟩ := lettered_of_mem_marks (mem_of_mem_cut hp)
    obtain ⟨rest, hrest⟩ := prefix_of_mem_cut hp
    have hhead : (piece ++ rest).head? = some b := by rw [hrest, List.head?_drop, hb]
    rw [List.head?_append, Option.mem_def.mp ha] at hhead
    obtain rfl := Option.some.inj hhead
    exact hlower
  have hpieces := tells_pieces dialect sql offset hletter
  have hown := tells_ownClause dialect sql offset stmt
  cases hmarks : marks stmt with
  | nil =>
      simp only [scanStatement, hmarks]
      exact hown
  | cons mark rest =>
      have hclauses := (tells_ownClause dialect sql offset (stmt.take mark.1)).append hpieces
      rw [hmarks, flatMap_cut (hmarks ▸ pairwise_marks stmt), ← Text.ink_append,
        List.take_append_drop] at hclauses
      simp only [scanStatement, hmarks]
      split_ifs
      · exact hown
      · exact hclauses

/-- Clauses that tell something are some. -/
theorem Tells.ne_nil {dialect : Dialect} {clauses : List Clause} {cs : List Char}
    (h : Tells dialect clauses cs) (hcs : cs ≠ []) : clauses ≠ [] := by
  rintro rfl
  cases h
  exact hcs rfl

/-- A scan gives clauses for every statement of a query text without its comments, at least one for
each, and they tell the text of the statement. -/
theorem told_scan (dialect : Dialect) (text : List Char) :
    List.Forall₂ (fun clauses stmt => clauses ≠ [] ∧ Tells dialect clauses (ink stmt))
      (scan dialect text) ((statements (blankComments text)).map (·.2)) := by
  rw [scan, List.forall₂_map_left_iff, List.forall₂_map_right_iff]
  refine List.forall₂_same.mpr fun ⟨offset, stmt⟩ hmem => ?_
  have htells := tells_scanStatement dialect (blankComments text) offset stmt
  refine ⟨htells.ne_nil ?_, htells⟩
  have hinked : ∃ c ∈ stmt, isBlank c = false := by
    simpa [Text.allBlank] using (List.mem_filter.mp hmem).2
  obtain ⟨c, hc, hblank⟩ := hinked
  exact List.ne_nil_of_mem (List.mem_filter.mpr ⟨hc, by rw [hblank]; rfl⟩)

end Flowchart.Query
