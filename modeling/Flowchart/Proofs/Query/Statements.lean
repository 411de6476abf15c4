import Flowchart.Proofs.Query.Nesting
import Flowchart.Proofs.Query.Placement

/-!
# Statements of a query text

The statements of a query text are slices of it, one behind another, and what stands between them are
semicolons of depth zero and blank pieces (`slices_statements`). Each piece stands between two such
semicolons, or one of them and an end of the text, and has none inside (`Piece`). Behind a semicolon of
depth zero nothing is open, so a scan of a statement on its own is at every place inside the same
literal and as deep in parentheses as a scan of the whole text (`Piece.after_take`,
`Piece.depths_eq`). That holds of unclosed literals and unbalanced parentheses too: they end the
pieces, as no semicolon of depth zero comes behind them.

## Pieces and statements

Cutting a text at semicolons gives pieces, and a piece that is not blank is a statement once the blanks
at its ends are off. Both have a place in the text. A piece is bounded by semicolons or by the ends of
the text, and a statement by blanks and then by these; `BlankAround` says so from the side of a single
character, which is in a statement, in blanks around one, or a semicolon.

## Main results

* `spans_or_separator_piecesFrom`: every character belongs to a piece or separates two.
* `Piece.depths_eq`, `Piece.after_take`: a statement is read alone as it is read in the text.
* `slices_statements`: the statements are slices in order, and what is between them.
-/

namespace Flowchart.Query

open Nest

/-- A semicolon of depth zero stands at a place of a text. -/
def IsSeparator (cs : List Char) (i : Nat) : Prop :=
  cs[i]? = some ';' ∧ (depths cs)[i]? = some (some 0)

/-- The places of a slice that starts at `start`. -/
def Spans (p : Nat × List Char) (i : Nat) : Prop := p.1 ≤ i ∧ i < p.1 + p.2.length

/-! ### Pieces -/

/-- A text that is empty or ends with a semicolon of depth zero. -/
def Opens (before : List Char) : Prop :=
  before = [] ∨ ∃ front, before = front ++ [';'] ∧ (outside.after front).level ';' = some 0

/-- A text that is empty or starts with a semicolon that has depth zero behind `s`. -/
def Closes (s : Nest) (after : List Char) : Prop :=
  after = [] ∨ ∃ rest, after = ';' :: rest ∧ s.level ';' = some 0

/-- Behind a semicolon of depth zero nothing is open. -/
theorem Opens.after_eq {before : List Char} (h : Opens before) : outside.after before = outside := by
  rcases h with rfl | ⟨front, rfl, hlevel⟩
  · rfl
  · rw [after_append]
    exact next_of_level_eq hlevel

/-- A piece of a text, with what stands before and behind it. -/
structure Piece (cs before piece after : List Char) : Prop where
  eq : cs = before ++ piece ++ after
  opens : Opens before
  uncut : outside.Uncut piece
  closes : Closes (outside.after piece) after

/-- The pieces of a text behind `before`, of which `piece` is the start of the first one. -/
theorem exists_piece_of_mem_piecesFrom {before piece cs stmt : List Char} {offset : Nat}
    (hopens : Opens before) (huncut : outside.Uncut piece.reverse)
    (h : (offset, stmt) ∈
      piecesFrom before.length piece (cs.zip ((outside.after piece.reverse).depths cs))) :
    ∃ front after, front.length = offset ∧ Piece (before ++ piece.reverse ++ cs) front stmt after := by
  induction cs generalizing before piece with
  | nil =>
      obtain ⟨rfl, rfl⟩ := Prod.mk.inj (List.mem_singleton.mp h)
      exact ⟨before, [], rfl, rfl, hopens, huncut, Or.inl rfl⟩
  | cons c cs ih =>
      rw [depths_cons, List.zip_cons_cons, piecesFrom] at h
      split_ifs at h with hcut
      · obtain ⟨rfl, hlevel⟩ := hcut
        rcases List.mem_cons.mp h with heq | h
        · obtain ⟨rfl, rfl⟩ := Prod.mk.inj heq
          exact ⟨before, ';' :: cs, rfl, rfl, hopens, huncut, Or.inr ⟨cs, rfl, hlevel⟩⟩
        · have hlength : before.length + piece.length + 1 =
              (before ++ piece.reverse ++ [';']).length := by simp [Nat.add_assoc]
          have hopens' : Opens (before ++ piece.reverse ++ [';']) := by
            refine Or.inr ⟨before ++ piece.reverse, rfl, ?_⟩
            rwa [after_append, hopens.after_eq]
          rw [next_of_level_eq hlevel, hlength] at h
          have hstart : outside.Uncut ([] : List Char).reverse := List.not_mem_nil
          simpa using ih hopens' hstart h
      · have huncut' : outside.Uncut (c :: piece).reverse := by
          rw [List.reverse_cons]
          exact uncut_append huncut (uncut_cons.mpr ⟨hcut, List.not_mem_nil⟩)
        have hafter : outside.after (c :: piece).reverse =
            (outside.after piece.reverse).next c := by
          rw [List.reverse_cons, after_append, after_cons, after_nil]
        rw [← hafter] at h
        simpa using ih hopens huncut' h

/-- Every place behind the start of a piece stands in a piece or is that of a separator. -/
theorem spans_or_separator_piecesFrom (start : Nat) (piece : List Char)
    (rest : List (Char × Option Nat)) (i : Nat) (hi : i < piece.length + rest.length) :
    (∃ p ∈ piecesFrom start piece rest, Spans p (start + i)) ∨
      ∃ j, i = piece.length + j ∧ rest[j]? = some (';', some 0) := by
  fun_induction piecesFrom start piece rest generalizing i with
  | case1 start piece =>
      refine Or.inl ⟨_, List.mem_singleton_self _, Nat.le_add_right _ _, ?_⟩
      rw [List.length_reverse]
      exact Nat.add_lt_add_left hi start
  | case2 start piece c depth rest hcut ih =>
      rcases Nat.lt_trichotomy i piece.length with hlt | rfl | hgt
      · refine Or.inl ⟨_, List.mem_cons_self, Nat.le_add_right _ _, ?_⟩
        rw [List.length_reverse]
        exact Nat.add_lt_add_left hlt start
      · exact Or.inr ⟨0, rfl, by rw [List.getElem?_cons_zero, hcut.1, hcut.2]⟩
      · obtain ⟨k, rfl⟩ := Nat.exists_eq_add_of_lt hgt
        rw [List.length_cons] at hi
        rcases ih k (by rw [List.length_nil]; omega) with ⟨p, hp, hspans⟩ | ⟨j, hj, hrest⟩
        · refine Or.inl ⟨p, List.mem_cons_of_mem _ hp, ?_⟩
          rwa [show start + (piece.length + k + 1) = start + piece.length + 1 + k by omega]
        · rw [List.length_nil] at hj
          exact Or.inr ⟨j + 1, by omega, hrest⟩
  | case3 start piece c depth rest hcut ih =>
      rw [List.length_cons] at hi
      rcases ih i (by rw [List.length_cons]; omega) with hspans | ⟨j, hj, hrest⟩
      · exact Or.inl hspans
      · rw [List.length_cons] at hj
        exact Or.inr ⟨j + 1, by omega, hrest⟩

/-- The pieces of a whole text with their places. -/
def placedPieces (cs : List Char) : List (Nat × List Char) := piecesFrom 0 [] (cs.zip (depths cs))

/-- A piece that was cut out stands in the text. -/
theorem exists_piece {cs stmt : List Char} {offset : Nat} (h : (offset, stmt) ∈ placedPieces cs) :
    ∃ before after, before.length = offset ∧ Piece cs before stmt after := by
  have hopens : Opens [] := Or.inl rfl
  have hstart : outside.Uncut ([] : List Char).reverse := List.not_mem_nil
  exact exists_piece_of_mem_piecesFrom hopens hstart h

/-- A separator is a semicolon of depth zero. -/
theorem isSeparator_iff_zip {cs : List Char} {i : Nat} :
    IsSeparator cs i ↔ (cs.zip (depths cs))[i]? = some (';', some 0) := by
  rw [List.getElem?_zip_eq_some, IsSeparator]

/-- A text without a semicolon of depth zero has no separator. -/
theorem uncut_iff {cs : List Char} : outside.Uncut cs ↔ ∀ i, ¬IsSeparator cs i := by
  have hmem : (';', some 0) ∈ cs.zip (depths cs) ↔ ∃ i, IsSeparator cs i := by
    rw [List.mem_iff_getElem?]
    exact exists_congr fun _ => isSeparator_iff_zip.symm
  rw [← not_exists, ← hmem]
  rfl

/-- A separator stands where the text before it leaves a semicolon at depth zero. -/
theorem isSeparator_append {front rest : List Char} (h : (outside.after front).level ';' = some 0) :
    IsSeparator (front ++ ';' :: rest) front.length := by
  have hdepths : depths (front ++ ';' :: rest) = outside.depths front ++
      (outside.after front).depths (';' :: rest) := depths_append outside front _
  refine ⟨by rw [List.getElem?_append_right (Nat.le_refl _), Nat.sub_self]; rfl, ?_⟩
  rw [hdepths, List.getElem?_append_right (Nat.le_of_eq (length_depths _ _)), length_depths,
    Nat.sub_self, depths_cons, h]
  rfl

namespace Piece

variable {cs before piece after : List Char}

/-- A piece starts at the start of the text or behind a separator. -/
theorem starts (h : Piece cs before piece after) :
    before.length = 0 ∨ IsSeparator cs (before.length - 1) := by
  rcases h.opens with rfl | ⟨front, rfl, hlevel⟩
  · exact Or.inl rfl
  · right
    rw [h.eq, List.length_append, List.length_singleton, Nat.add_sub_cancel, List.append_assoc,
      List.append_assoc]
    exact isSeparator_append hlevel

/-- A piece ends at the end of the text or before a separator. -/
theorem ends (h : Piece cs before piece after) :
    before.length + piece.length = cs.length ∨ IsSeparator cs (before.length + piece.length) := by
  rcases h.closes with rfl | ⟨rest, rfl, hlevel⟩
  · left
    rw [h.eq, List.append_nil, List.length_append]
  · right
    rw [h.eq, ← List.length_append]
    refine isSeparator_append ?_
    rwa [after_append, h.opens.after_eq]

/-- From its place on, the text is the piece and what comes after it. -/
theorem drop_eq (h : Piece cs before piece after) : cs.drop before.length = piece ++ after := by
  rw [h.eq, List.append_assoc, List.drop_left]

/-- A piece is the slice of the text at its place. -/
theorem slice_eq (h : Piece cs before piece after) :
    (cs.drop before.length).take piece.length = piece := by
  rw [h.drop_eq, List.take_left]

/-- The depths of a piece on its own are those it has in the text. -/
theorem depths_eq (h : Piece cs before piece after) :
    depths piece = ((depths cs).drop before.length).take piece.length := by
  have hdepths : depths cs = outside.depths before ++ (outside.depths piece ++
      (outside.after piece).depths after) := by
    rw [depths, h.eq, List.append_assoc]
    exact (depths_append outside before _).trans
      (by rw [depths_append, h.opens.after_eq])
  rw [hdepths, List.drop_left' (length_depths _ _), List.take_left' (length_depths _ _)]
  rfl

/-- At every place of a piece the same is open as at this place of the text. -/
theorem after_take (h : Piece cs before piece after) {k : Nat} (hk : k ≤ piece.length) :
    outside.after (cs.take (before.length + k)) = outside.after (piece.take k) := by
  rw [h.eq, List.append_assoc, List.take_length_add_append, List.take_append_of_le_length hk,
    after_append, h.opens.after_eq]

end Piece

/-! ### Statements -/

/-- A slice of a query text that is a statement: it is not blank and has no separator inside. A scan
that starts at it knows at every place what a scan of the whole text knows there, so that the statement
is cut at the keywords that have depth zero in the whole text. -/
structure IsStatement (cs : List Char) (offset : Nat) (stmt : List Char) : Prop where
  slice_eq : (cs.drop offset).take stmt.length = stmt
  within : offset + stmt.length ≤ cs.length
  not_blank : Text.allBlank stmt = false
  uncut : ∀ i, ¬IsSeparator stmt i
  uncut_there : ∀ i, Spans (offset, stmt) i → ¬IsSeparator cs i
  depths_eq : depths stmt = ((depths cs).drop offset).take stmt.length
  after_take : ∀ k ≤ stmt.length,
    outside.after (cs.take (offset + k)) = outside.after (stmt.take k)
  marks_eq : marks stmt = (cteMark? stmt).toList.map (·, .cte) ++
    marksFrom 0 none 0 stmt (((depths cs).drop offset).take stmt.length)

/-- A blank piece of a text around a place: it lies between two separators, or a separator and an end
of the text. -/
structure BlankAround (cs : List Char) (i start stop : Nat) : Prop where
  le : start ≤ i
  lt : i < stop
  within : stop ≤ cs.length
  blank : Text.allBlank ((cs.drop start).take (stop - start)) = true
  starts : start = 0 ∨ IsSeparator cs (start - 1)
  ends : stop = cs.length ∨ IsSeparator cs stop

/-- A piece that is not blank is a statement. -/
theorem Piece.isStatement {cs before stmt after : List Char} (h : Piece cs before stmt after)
    (hblank : Text.allBlank stmt = false) : IsStatement cs before.length stmt where
  slice_eq := h.slice_eq
  within := by
    rw [h.eq, List.length_append, List.length_append]
    exact Nat.le_add_right _ _
  not_blank := hblank
  uncut := uncut_iff.mp h.uncut
  uncut_there i := by
    rintro ⟨hle, hlt⟩ ⟨hchar, hdepth⟩
    obtain ⟨k, rfl⟩ := Nat.exists_eq_add_of_le hle
    have hk : k < stmt.length := Nat.lt_of_add_lt_add_left hlt
    refine uncut_iff.mp h.uncut k ⟨?_, ?_⟩
    · rwa [← h.slice_eq, List.getElem?_take_of_lt hk, List.getElem?_drop]
    · rwa [h.depths_eq, List.getElem?_take_of_lt hk, List.getElem?_drop]
  depths_eq := h.depths_eq
  after_take _ hk := h.after_take hk
  marks_eq := by
    rw [← h.depths_eq, marks]
    cases cteMark? stmt <;> rfl

/-- The statements of a query text are slices of it in increasing order that do not overlap, each
between separators and without one inside, so that what a scan of a statement knows of literals and
parentheses is what a scan of the whole text knows there. All that stands outside of the statements
are separators and blank pieces between separators. -/
theorem slices_statements (cs : List Char) :
    (∀ p ∈ statements cs, IsStatement cs p.1 p.2) ∧
    (statements cs).Pairwise (fun p q => p.1 + p.2.length < q.1) ∧
    ∀ i < cs.length, (∀ p ∈ statements cs, ¬Spans p i) →
      IsSeparator cs i ∨ ∃ start stop, BlankAround cs i start stop := by
  refine ⟨fun p hp => ?_, pairwise_statements cs, fun i hi huncovered => ?_⟩
  · obtain ⟨hp, hblank⟩ := List.mem_filter.mp hp
    obtain ⟨before, after, hbefore, hpiece⟩ := exists_piece hp
    rw [← hbefore]
    exact hpiece.isStatement (by simpa using hblank)
  · have hlength : i < ([] : List Char).length + (cs.zip (depths cs)).length := by
      simpa [depths, length_depthsFrom] using hi
    rcases spans_or_separator_piecesFrom 0 [] (cs.zip (depths cs)) i hlength with
      ⟨⟨offset, piece⟩, hp, hspans⟩ | ⟨j, hj, hsep⟩
    · rw [Nat.zero_add] at hspans
      obtain ⟨before, after, rfl, hpiece⟩ := exists_piece hp
      -- a piece that is left out of the statements is blank
      have hblank : Text.allBlank piece = true := by
        by_contra hink
        exact huncovered _ (List.mem_filter.mpr ⟨hp, by simpa using hink⟩) hspans
      refine Or.inr ⟨before.length, before.length + piece.length, hspans.1, hspans.2, ?_, ?_,
        hpiece.starts, hpiece.ends⟩
      · rw [hpiece.eq, List.length_append, List.length_append]
        exact Nat.le_add_right _ _
      · rwa [Nat.add_sub_cancel_left, hpiece.slice_eq]
    · obtain rfl : i = j := by simpa using hj
      exact Or.inl (isSeparator_iff_zip.mpr hsep)

end Flowchart.Query
