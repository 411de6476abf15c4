import Flowchart.Query.Text
import Mathlib.Data.List.Basic
import Mathlib.Tactic.SplitIfs

/-!
# Literals and parentheses

What is open at a place of a query text, a literal or some parentheses, is known from the text before it
(`Nest.after`), and it is all that the depths of the text behind depend on (`Nest.depths_append`). The
inside of a literal and a balanced text in parentheses leave open what was open before, and nothing in
them has depth zero (`shielded_literal`, `Balanced.shielded`).

So the pieces of a text between semicolons of depth zero depend on such an inside only in the piece
that it stands in (`Nest.exists_pieces_append`).

## Open ends

A literal or a parenthesis that is never closed is no error here. What is open behind the last character
is simply left open, and a semicolon in it has no depth zero. A closing parenthesis without an opening
one leaves the depth at zero. So every text has its depths, and there is no condition on texts in what
follows from them.

## Main results

* `Nest.depths_append`: the depths behind a text depend on what it leaves open alone.
* `Nest.exists_pieces_append`: a shielded text belongs to one piece, whatever it is.
* `Balanced.shielded`, `shielded_literal`: what stands in parentheses or in a literal is shielded.
-/

namespace Flowchart.Query

/-- What is open at a place of a query text: a literal that ends with `quote`, if there is one, and
`depth` parentheses. -/
structure Nest where
  quote : Option Char
  depth : Nat
  deriving DecidableEq

namespace Nest

/-- Nothing is open. -/
def outside : Nest := ⟨none, 0⟩

/-- What is open behind a character. -/
def next (s : Nest) (c : Char) : Nest :=
  match s.quote, closingQuote? c with
  | some q, _ => ⟨if c = q then none else some q, s.depth⟩
  | none, some q => ⟨some q, s.depth⟩
  | none, none =>
    ⟨none, if c = '(' then s.depth + 1 else if c = ')' then s.depth - 1 else s.depth⟩

/-- What is open behind a text. -/
def after (s : Nest) (cs : List Char) : Nest := cs.foldl next s

/-- The depth of a character. -/
def level (s : Nest) (c : Char) : Option Nat :=
  match s.quote, closingQuote? c with
  | none, none => some (s.next c).depth
  | _, _ => none

/-- The depth at every character of a text. -/
def depths (s : Nest) (cs : List Char) : List (Option Nat) := depthsFrom s.quote s.depth cs

/-- Nothing is opened by no text. -/
@[simp] theorem after_nil (s : Nest) : s.after [] = s := rfl

/-- What is open behind a text, one character after the other. -/
@[simp] theorem after_cons (s : Nest) (c : Char) (cs : List Char) :
    s.after (c :: cs) = (s.next c).after cs := rfl

/-- What is open behind two texts is open behind the second, given the first. -/
@[simp] theorem after_append (s : Nest) (as bs : List Char) :
    s.after (as ++ bs) = (s.after as).after bs :=
  List.foldl_append

/-- There are no depths without characters. -/
@[simp] theorem depths_nil (s : Nest) : s.depths [] = [] := rfl

/-- The depth of the first character, and then those of the others. -/
@[simp] theorem depths_cons (s : Nest) (c : Char) (cs : List Char) :
    s.depths (c :: cs) = s.level c :: (s.next c).depths cs := by
  obtain ⟨quote, depth⟩ := s
  rw [depths, level]
  cases quote with
  | some q => rfl
  | none => cases hc : closingQuote? c <;> simp [depthsFrom, next, depths, hc]

/-- The depths of a text depend on what is open before it. -/
theorem depths_append (s : Nest) (as bs : List Char) :
    s.depths (as ++ bs) = s.depths as ++ (s.after as).depths bs := by
  induction as generalizing s with
  | nil => rfl
  | cons a as ih => rw [List.cons_append, depths_cons, depths_cons, ih, after_cons, List.cons_append]

/-- There is one depth for each character. -/
@[simp] theorem length_depths (s : Nest) (cs : List Char) : (s.depths cs).length = cs.length := by
  induction cs generalizing s with
  | nil => rfl
  | cons c cs ih => rw [depths_cons, List.length_cons, List.length_cons, ih]

/-! ### Shielded texts -/

/-- Nothing in the text has depth zero, and behind it the same is open as before it. -/
structure Shielded (s : Nest) (cs : List Char) : Prop where
  after_eq : s.after cs = s
  not_mem_depths : some 0 ∉ s.depths cs

/-- In a literal nothing has a depth. -/
theorem literal_of_not_mem {q : Char} {cs : List Char} (h : q ∉ cs) (depth : Nat) :
    (⟨some q, depth⟩ : Nest).after cs = ⟨some q, depth⟩ ∧
      ∀ level, some level ∉ (⟨some q, depth⟩ : Nest).depths cs := by
  induction cs with
  | nil => exact ⟨rfl, fun _ => List.not_mem_nil⟩
  | cons c cs ih =>
      obtain ⟨hne, hcs⟩ := List.ne_and_not_mem_of_not_mem_cons h
      have hnext : (⟨some q, depth⟩ : Nest).next c = ⟨some q, depth⟩ := by
        simp [next, Ne.symm hne]
      obtain ⟨hafter, hdepths⟩ := ih hcs
      exact ⟨by rw [after_cons, hnext, hafter], by simpa [hnext, level] using hdepths⟩

/-- A text without the quote stays in the literal. -/
theorem shielded_literal {q : Char} {cs : List Char} (h : q ∉ cs) (depth : Nat) :
    Shielded ⟨some q, depth⟩ cs :=
  ⟨(literal_of_not_mem h depth).1, (literal_of_not_mem h depth).2 0⟩

/-! ### Pieces -/

/-- The pieces of a text between semicolons of depth zero. -/
def pieces (s : Nest) (cs : List Char) : List (List Char) :=
  (piecesFrom 0 [] (cs.zip (s.depths cs))).map (·.2)

/-- Putting nothing before the first item changes nothing. -/
theorem modifyHead_nil_append (items : List (List Char)) : items.modifyHead ([] ++ ·) = items := by
  cases items <;> rfl

/-- The piece under way is the start of the first one, and places do not matter for the text. -/
theorem map_piecesFrom (start : Nat) (piece : List Char) (rest : List (Char × Option Nat)) :
    (piecesFrom start piece rest).map (·.2) =
      ((piecesFrom 0 [] rest).map (·.2)).modifyHead (piece.reverse ++ ·) := by
  induction rest generalizing start piece with
  | nil => simp [piecesFrom]
  | cons entry rest ih =>
      obtain ⟨c, depth⟩ := entry
      have hplace : ∀ start, (piecesFrom start [] rest).map (·.2) =
          (piecesFrom 0 [] rest).map (·.2) := fun start =>
        (ih start []).trans (modifyHead_nil_append _)
      rw [piecesFrom, piecesFrom]
      split_ifs
      · rw [List.map_cons, List.map_cons, hplace, hplace (0 + ([] : List Char).length + 1),
          List.modifyHead_cons, List.reverse_nil, List.append_nil]
      · rw [ih, ih 0 [c], List.modifyHead_modifyHead]
        simp [Function.comp_def]

/-- There is always a piece, also of no text. -/
theorem pieces_nil (s : Nest) : s.pieces [] = [[]] := rfl

/-- A semicolon of depth zero ends a piece, and every other character belongs to the first one. -/
theorem pieces_cons (s : Nest) (c : Char) (cs : List Char) :
    s.pieces (c :: cs) =
      if c = ';' ∧ s.level c = some 0 then [] :: (s.next c).pieces cs
      else ((s.next c).pieces cs).modifyHead (c :: ·) := by
  rw [pieces, depths_cons, List.zip_cons_cons, piecesFrom]
  split_ifs
  · rw [List.map_cons, map_piecesFrom]
    exact congrArg ([] :: ·) (modifyHead_nil_append _)
  · exact map_piecesFrom 0 [c] _

/-- There is always a piece. -/
theorem pieces_ne_nil (s : Nest) (cs : List Char) : s.pieces cs ≠ [] := by
  induction cs generalizing s with
  | nil => exact List.cons_ne_nil _ _
  | cons c cs ih =>
      rw [pieces_cons]
      split_ifs
      · exact List.cons_ne_nil _ _
      · simpa using ih (s.next c)

/-- There is no semicolon of depth zero in the text. -/
def Uncut (s : Nest) (cs : List Char) : Prop := (';', some 0) ∉ cs.zip (s.depths cs)

/-- A text is not cut if neither its first character nor the rest of it cuts. -/
theorem uncut_cons {s : Nest} {c : Char} {cs : List Char} :
    s.Uncut (c :: cs) ↔ ¬(c = ';' ∧ s.level c = some 0) ∧ (s.next c).Uncut cs := by
  rw [Uncut, depths_cons, List.zip_cons_cons, List.mem_cons, not_or, Uncut, Prod.mk.injEq, eq_comm,
    eq_comm (a := some 0)]

/-- Texts that are not cut are not cut together. -/
theorem uncut_append {s : Nest} {as bs : List Char} (h : s.Uncut as) (h' : (s.after as).Uncut bs) :
    s.Uncut (as ++ bs) := by
  induction as generalizing s with
  | nil => exact h'
  | cons a as ih =>
      obtain ⟨ha, has⟩ := uncut_cons.mp h
      exact uncut_cons.mpr ⟨ha, ih has h'⟩

/-- What is shielded is not cut. -/
theorem Shielded.uncut {s : Nest} {cs : List Char} (h : s.Shielded cs) : s.Uncut cs :=
  fun hmem => h.not_mem_depths (List.of_mem_zip hmem).2

/-- Nothing but a semicolon cuts. -/
theorem uncut_singleton {s : Nest} {c : Char} (h : c ≠ ';') : s.Uncut [c] :=
  uncut_cons.mpr ⟨fun hc => h hc.1, List.not_mem_nil⟩

/-- A text without such a semicolon goes into the first piece. -/
theorem pieces_append_of_uncut {s : Nest} {as : List Char} (h : s.Uncut as) (bs : List Char) :
    s.pieces (as ++ bs) = ((s.after as).pieces bs).modifyHead (as ++ ·) := by
  induction as generalizing s with
  | nil => exact (modifyHead_nil_append _).symm
  | cons a as ih =>
      obtain ⟨ha, has⟩ := uncut_cons.mp h
      rw [List.cons_append, pieces_cons, if_neg ha, ih has, List.modifyHead_modifyHead]
      rfl

/-- Behind a semicolon of depth zero nothing is open. -/
theorem next_of_level_eq {s : Nest} (h : s.level ';' = some 0) : s.next ';' = outside := by
  obtain ⟨quote, depth⟩ := s
  cases quote with
  | some q => exact absurd h nofun
  | none =>
      obtain rfl : depth = 0 := Option.some.inj h
      rfl

/-- The pieces of a text in three parts. If the middle one has no semicolon of depth zero, it stands in
one piece, together with the end of the first part: all of it, or what comes behind a semicolon where
nothing is open. The other pieces depend on the middle part only by what is open behind it. -/
theorem exists_pieces_append_of_uncut (s : Nest) (before : List Char) :
    ∃ done last, (done = [] ∧ before = last ∨ done ≠ [] ∧
        ∃ front, before = front ++ ';' :: last ∧ s.after before = outside.after last) ∧
      ∀ middle rest, (s.after before).Uncut middle →
        s.pieces (before ++ (middle ++ rest)) =
          done ++ (((s.after before).after middle).pieces rest).modifyHead
            (last ++ middle ++ ·) := by
  induction before generalizing s with
  | nil => exact ⟨[], [], Or.inl ⟨rfl, rfl⟩, fun middle rest h => pieces_append_of_uncut h rest⟩
  | cons c before ih =>
      obtain ⟨done, last, hlast, hpieces⟩ := ih (s.next c)
      by_cases hc : c = ';' ∧ s.level c = some 0
      · refine ⟨[] :: done, last, Or.inr ⟨List.cons_ne_nil _ _, ?_⟩, fun middle rest h => ?_⟩
        · obtain ⟨rfl, hlevel⟩ := hc
          rcases hlast with ⟨-, rfl⟩ | ⟨-, front, rfl, hafter⟩
          · exact ⟨[], rfl, by rw [after_cons, next_of_level_eq hlevel]⟩
          · exact ⟨';' :: front, rfl, hafter⟩
        · rw [List.cons_append, pieces_cons, if_pos hc, hpieces middle rest h]
          rfl
      · rcases hlast with ⟨rfl, rfl⟩ | ⟨hdone, front, rfl, hafter⟩
        · refine ⟨[], c :: before, Or.inl ⟨rfl, rfl⟩, fun middle rest h => ?_⟩
          rw [List.cons_append, pieces_cons, if_neg hc, hpieces middle rest h, List.nil_append,
            List.modifyHead_modifyHead]
          rfl
        · obtain ⟨piece, done, rfl⟩ := List.exists_cons_of_ne_nil hdone
          refine ⟨(c :: piece) :: done, last, Or.inr ⟨List.cons_ne_nil _ _, c :: front, rfl, hafter⟩,
            fun middle rest h => ?_⟩
          rw [List.cons_append, pieces_cons, if_neg hc, hpieces middle rest h]
          rfl

/-- A text falls into what stands before its last piece and this piece, where the same is open at the
end as in the whole text. What comes behind it, up to the next semicolon of depth zero, belongs to this
piece. -/
theorem exists_pieces_append (before : List Char) :
    ∃ done front last, before = front ++ last ∧ (front = [] ∨ front.getLast? = some ';') ∧
      outside.after last = outside.after before ∧
      ∀ middle rest, (outside.after before).Uncut middle →
        outside.pieces (before ++ (middle ++ rest)) =
          done ++ (((outside.after before).after middle).pieces rest).modifyHead
            (last ++ middle ++ ·) := by
  obtain ⟨done, last, hlast, hpieces⟩ := exists_pieces_append_of_uncut outside before
  rcases hlast with ⟨-, rfl⟩ | ⟨-, front, rfl, hafter⟩
  · exact ⟨done, [], before, rfl, Or.inl rfl, rfl, hpieces⟩
  · exact ⟨done, front ++ [';'], last, (List.append_cons ..), Or.inr (by simp), hafter.symm, hpieces⟩

end Nest

/-! ### Balanced texts -/

/-- A text with balanced parentheses and closed literals. -/
inductive Balanced : List Char → Prop
  | nil : Balanced []
  | plain {c : Char} {cs : List Char} : closingQuote? c = none → c ≠ '(' → c ≠ ')' →
      Balanced cs → Balanced (c :: cs)
  | literal {c q : Char} {inside cs : List Char} : closingQuote? c = some q → q ∉ inside →
      Balanced cs → Balanced (c :: (inside ++ q :: cs))
  | group {inside cs : List Char} : Balanced inside → Balanced cs →
      Balanced ('(' :: (inside ++ ')' :: cs))

/-- A character that neither opens nor closes anything outside of literals. -/
def isPlain (c : Char) : Bool := closingQuote? c == none && c != '(' && c != ')'

/-- A text of plain characters is balanced. -/
theorem balanced_of_plain {cs : List Char} (h : cs.all isPlain = true) : Balanced cs := by
  induction cs with
  | nil => exact .nil
  | cons c cs ih =>
      rw [List.all_cons, Bool.and_eq_true] at h
      obtain ⟨⟨hquote, hopen⟩, hclose⟩ :
          (closingQuote? c = none ∧ c ≠ '(') ∧ c ≠ ')' := by simpa [isPlain] using h.1
      exact .plain hquote hopen hclose (ih h.2)

open Nest

/-- Behind a balanced text the same is open as before it. -/
theorem Balanced.after_eq {cs : List Char} (h : Balanced cs) (depth : Nat) :
    (⟨none, depth⟩ : Nest).after cs = ⟨none, depth⟩ := by
  induction h generalizing depth with
  | nil => rfl
  | @plain c cs hc hopen hclose _ ih =>
      have hnext : (⟨none, depth⟩ : Nest).next c = ⟨none, depth⟩ := by
        simp [next, hc, hopen, hclose]
      rw [after_cons, hnext, ih]
  | @literal c q inside cs hc hq _ ih =>
      have hnext : (⟨none, depth⟩ : Nest).next c = ⟨some q, depth⟩ := by simp [next, hc]
      have hclosed : (⟨some q, depth⟩ : Nest).next q = ⟨none, depth⟩ := by simp [next]
      rw [after_cons, hnext, after_append, (literal_of_not_mem hq depth).1, after_cons, hclosed, ih]
  | group _ _ ihInside ih =>
      rw [after_cons, after_append]
      have hopen : (⟨none, depth⟩ : Nest).next '(' = ⟨none, depth + 1⟩ := rfl
      have hclose : (⟨none, depth + 1⟩ : Nest).next ')' = ⟨none, depth⟩ := rfl
      rw [hopen, ihInside, after_cons, hclose, ih]

/-- Nothing in a balanced text has a smaller depth. -/
theorem Balanced.le_of_mem_depths {cs : List Char} (h : Balanced cs) (depth : Nat) :
    ∀ level, some level ∈ (⟨none, depth⟩ : Nest).depths cs → depth ≤ level := by
  induction h generalizing depth with
  | nil => exact fun _ hmem => absurd hmem List.not_mem_nil
  | @plain c cs hc hopen hclose _ ih =>
      have hnext : (⟨none, depth⟩ : Nest).next c = ⟨none, depth⟩ := by
        simp [next, hc, hopen, hclose]
      have hlevel : (⟨none, depth⟩ : Nest).level c = some depth := by simp [level, hc, hnext]
      intro level hmem
      rw [depths_cons, hnext, hlevel] at hmem
      rcases List.mem_cons.mp hmem with heq | hmem
      · exact Nat.le_of_eq (Option.some.inj heq).symm
      · exact ih depth level hmem
  | @literal c q inside cs hc hq _ ih =>
      have hnext : (⟨none, depth⟩ : Nest).next c = ⟨some q, depth⟩ := by simp [next, hc]
      have hlevel : (⟨none, depth⟩ : Nest).level c = none := by simp [level, hc]
      have hclosed : (⟨some q, depth⟩ : Nest).next q = ⟨none, depth⟩ := by simp [next]
      have hend : (⟨some q, depth⟩ : Nest).level q = none := rfl
      intro level hmem
      rw [depths_cons, hnext, hlevel, depths_append, (literal_of_not_mem hq depth).1, depths_cons,
        hclosed, hend] at hmem
      have hmem : some level ∈ (⟨none, depth⟩ : Nest).depths cs := by
        simpa [(literal_of_not_mem hq depth).2 level] using hmem
      exact ih depth level hmem
  | @group inside cs hinside _ ihInside ih =>
      have hopen : (⟨none, depth⟩ : Nest).next '(' = ⟨none, depth + 1⟩ := rfl
      have hclose : (⟨none, depth + 1⟩ : Nest).next ')' = ⟨none, depth⟩ := rfl
      have hlevel : (⟨none, depth⟩ : Nest).level '(' = some (depth + 1) := rfl
      have hend : (⟨none, depth + 1⟩ : Nest).level ')' = some depth := rfl
      intro level hmem
      rw [depths_cons, hopen, hlevel, depths_append, hinside.after_eq, depths_cons, hclose, hend,
        List.mem_cons, List.mem_append, List.mem_cons] at hmem
      rcases hmem with heq | hmem | heq | hmem
      · exact Nat.le_of_succ_le (Nat.le_of_eq (Option.some.inj heq).symm)
      · exact Nat.le_of_succ_le (ihInside (depth + 1) level hmem)
      · exact Nat.le_of_eq (Option.some.inj heq).symm
      · exact ih depth level hmem

/-- A balanced text in parentheses is shielded. -/
theorem Balanced.shielded {cs : List Char} (h : Balanced cs) (depth : Nat) :
    (⟨none, depth + 1⟩ : Nest).Shielded cs :=
  ⟨h.after_eq _, fun hmem => Nat.not_succ_le_zero depth (h.le_of_mem_depths _ 0 hmem)⟩

end Flowchart.Query
