import Flowchart.Proofs.Query.Comments
import Flowchart.Proofs.Query.Locality
import Flowchart.Proofs.Query.Nesting

/-!
# A scan does not see into literals and groups

Two query texts without comments that differ only inside of one literal, or inside of one group of
depth zero that is not the argument of a limit, have as many statements and in each of them the same
kinds of clauses (`kinds_scan`).

The inside is shielded: what is open behind it is what is open before it, and nothing in it has depth
zero (`Nest.Shielded`). Between its quotes or parentheses, which are guards, it holds no mark
(`marks_shielded`) and no end of a statement, so only the text of one piece of one statement depends
on it (`forall₂_alike_cut`). The kinds of this piece's clauses are read before the guard.

## How the inside is kept out

The two texts are the same up to the opening guard and from the closing one on. Comments are no matter,
as there are none. The statements are cut at the same places, and all of them but one are the same
texts. In that one the marks have the same places up to the guard, and behind it they are moved by the
difference in length. So its pieces are the same but for the one that holds the guard, and the kinds of
clauses of that piece are told by its keyword and by what comes before the guard.

## Main results

* `map_kind_scan`: the kinds of clauses depend on the statements alone.
* `forall₂_alike_cut`: the pieces of two such texts are alike.
* `kinds_scan`: the kinds of clauses are the same in both.
-/

namespace Flowchart.Query

open Text (fold isBlank wordAt firstWord IsGuard)
open Nest (outside)

/-! ### Kinds -/

/-- The kind of a clause that is a piece of its own, unless the piece is blank. -/
def ownKinds (piece : List Char) : List ClauseKind :=
  if Text.allBlank piece then [] else [.statement]

/-- A clause that is no keyword's is one statement. -/
theorem map_kind_ownClause (sql : List Char) (offset : Nat) (piece : List Char) :
    (ownClause sql offset piece).map (·.kind) = ownKinds piece := by
  rw [ownClause, ownKinds]
  split_ifs <;> rfl

/-- The kinds of the clauses of a piece. -/
def pieceKinds (dialect : Dialect) (p : Nat × ClauseKind × List Char) : List ClauseKind :=
  if (clauseText p.2.2).isEmpty then []
  else if p.2.1 = .select ∧ dialect ≠ .spark ∧ (topOf? (clauseText p.2.2)).isSome then
    [.select, .limit]
  else [p.2.1]

/-- The kinds of a piece's clauses are read off the piece. -/
theorem map_kind_pieceClauses (dialect : Dialect) (sql : List Char) (offset : Nat)
    (p : Nat × ClauseKind × List Char) :
    (pieceClauses dialect sql offset p).map (·.kind) = pieceKinds dialect p := by
  rw [pieceClauses, pieceKinds]
  split_ifs with hempty hkinds
  · rfl
  · obtain ⟨hselect, hdialect, htop⟩ := hkinds
    obtain ⟨⟨start, length⟩, htop⟩ := Option.isSome_iff_exists.mp htop
    rw [clausesOf, if_pos ⟨hselect, hdialect⟩, htop]
    rfl
  · rw [clausesOf]
    split_ifs with hselect
    · cases htop : topOf? (clauseText p.2.2) with
      | none => rfl
      | some found => exact absurd ⟨hselect.1, hselect.2, by rw [htop]; rfl⟩ hkinds
    · rfl

/-- The kinds of the clauses of a statement. -/
def statementKinds (dialect : Dialect) (stmt : List Char) : List ClauseKind :=
  match marks stmt with
  | [] => ownKinds stmt
  | mark :: _ =>
    let kinds := ownKinds (stmt.take mark.1) ++
      (cut stmt (marks stmt)).flatMap (pieceKinds dialect)
    if kinds.isEmpty then ownKinds stmt else kinds

/-- The kinds of a statement's clauses are read off the statement. -/
theorem map_kind_scanStatement (dialect : Dialect) (sql : List Char) (offset : Nat)
    (stmt : List Char) :
    (scanStatement dialect sql offset stmt).map (·.kind) = statementKinds dialect stmt := by
  rw [statementKinds]
  split
  next hmarks =>
    simp only [scanStatement, hmarks]
    exact map_kind_ownClause sql offset stmt
  next mark rest hmarks =>
    have hpieces : ∀ pieces : List (Nat × ClauseKind × List Char),
        (pieces.flatMap (pieceClauses dialect sql offset)).map (·.kind) =
          pieces.flatMap (pieceKinds dialect) := fun pieces => by
      rw [List.map_flatMap]
      exact List.flatMap_congr fun p _ => map_kind_pieceClauses dialect sql offset p
    have hkinds : (ownClause sql offset (stmt.take mark.1) ++
        (cut stmt (marks stmt)).flatMap (pieceClauses dialect sql offset)).map (·.kind) =
          ownKinds (stmt.take mark.1) ++ (cut stmt (marks stmt)).flatMap (pieceKinds dialect) := by
      rw [List.map_append, map_kind_ownClause, hpieces]
    rw [scanStatement_eq dialect sql offset hmarks, ← hkinds]
    dsimp only
    rw [List.isEmpty_map]
    split_ifs
    · exact map_kind_ownClause sql offset stmt
    · rfl

/-- A scan gives the kinds of the clauses of its statements. -/
theorem map_kind_scan (dialect : Dialect) (text : List Char) :
    (scan dialect text).map (·.map (·.kind)) =
      ((outside.pieces (blankComments text)).filter fun stmt => !Text.allBlank stmt).map
        (statementKinds dialect) := by
  rw [scan, List.map_map, Nest.pieces, List.filter_map, List.map_map]
  exact List.map_congr_left fun p _ => map_kind_scanStatement dialect _ p.1 p.2

/-! ### Pieces that are alike -/

/-- Pieces of one kind with the same text, or with the same text up to a guard. -/
inductive Alike : Nat × ClauseKind × List Char → Nat × ClauseKind × List Char → Prop
  | same {pos pos' : Nat} {kind : ClauseKind} {piece : List Char} :
      Alike (pos, kind, piece) (pos', kind, piece)
  | guarded {pos pos' : Nat} {kind : ClauseKind} {g : Char} {xs ys zs : List Char} : IsGuard g →
      firstWord xs ≠ [] → (g = '(' → ¬IsTopHead xs) →
      Alike (pos, kind, xs ++ g :: ys) (pos', kind, xs ++ g :: zs)

/-- Pieces that are alike have clauses of the same kinds. -/
theorem Alike.pieceKinds_eq (dialect : Dialect) {p q : Nat × ClauseKind × List Char}
    (h : Alike p q) : pieceKinds dialect p = pieceKinds dialect q := by
  cases h with
  | same => rfl
  | @guarded pos pos' kind g xs ys zs hg hxs hparen =>
      have hempty : ∀ ys, (clauseText (xs ++ g :: ys)).isEmpty = false := fun ys => by
        obtain ⟨zs, hzs⟩ := exists_clauseText_guard hg hxs ys
        rw [hzs, List.isEmpty_eq_false_iff]
        exact List.append_ne_nil_of_right_ne_nil _ (List.cons_ne_nil _ _)
      simp only [pieceKinds, hempty, isSome_topOf?_clauseText hg hxs hparen]

/-- So have pieces that are alike in their order. -/
theorem flatMap_pieceKinds_eq (dialect : Dialect) {ps qs : List (Nat × ClauseKind × List Char)}
    (h : List.Forall₂ Alike ps qs) :
    ps.flatMap (pieceKinds dialect) = qs.flatMap (pieceKinds dialect) := by
  induction h with
  | nil => rfl
  | cons hpq _ ih => rw [List.flatMap_cons, List.flatMap_cons, hpq.pieceKinds_eq, ih]

/-- Pieces of the end of a text. -/
theorem cut_append (front stmt : List Char) (marks : List (Nat × ClauseKind)) :
    cut (front ++ stmt) (marks.map fun m => (m.1 + front.length, m.2)) =
      (cut stmt marks).map fun p => (p.1 + front.length, p.2) := by
  fun_induction cut stmt marks with
  | case1 => rfl
  | case2 pos kind => simp [cut, Nat.add_comm pos]
  | case3 pos kind next kind' marks ih =>
      have hpiece : ((front ++ stmt).take (next + front.length)).drop (pos + front.length) =
          (stmt.take next).drop pos := by
        rw [Nat.add_comm next, List.take_length_add_append, Nat.add_comm pos,
          List.drop_length_add_append]
      rw [List.map_cons, List.map_cons, cut, List.map_cons, ← ih, hpiece]
      rfl

/-- What is put in behind a guard changes the text of the piece there, and no other one. -/
theorem forall₂_alike_cut {g : Char} (hg : IsGuard g) {xs : List Char}
    {before : List (Nat × ClauseKind)}
    (hbefore : ∀ m ∈ before, m.1 ≤ xs.length ∧ firstWord (xs.drop m.1) ≠ [] ∧
      (g = '(' → ¬IsTopHead (xs.drop m.1)))
    (vs ws ys : List Char) (after : List (Nat × ClauseKind)) :
    List.Forall₂ Alike
      (cut ((xs ++ g :: vs) ++ ys)
        (before ++ after.map fun m => (m.1 + (xs ++ g :: vs).length, m.2)))
      (cut ((xs ++ g :: ws) ++ ys)
        (before ++ after.map fun m => (m.1 + (xs ++ g :: ws).length, m.2))) := by
  induction before with
  | nil =>
      rw [List.nil_append, List.nil_append, cut_append, cut_append, List.forall₂_map_left_iff,
        List.forall₂_map_right_iff]
      exact List.forall₂_same.mpr fun _ _ => .same
  | cons m before ih =>
      obtain ⟨⟨hm, hword, htop⟩, hrest⟩ := List.forall_mem_cons.mp hbefore
      have ih := ih hrest
      cases before with
      | cons m' before =>
          have hm' : m'.1 ≤ xs.length := (hrest m' List.mem_cons_self).1
          have htake : ∀ us, ((xs ++ g :: us) ++ ys).take m'.1 = xs.take m'.1 := fun us => by
            rw [List.append_assoc, List.take_append_of_le_length hm']
          refine .cons ?_ ih
          rw [htake, htake]
          exact .same
      | nil =>
          have hdrop : ∀ us zs, ((xs ++ g :: us) ++ zs).drop m.1 = xs.drop m.1 ++ g :: (us ++ zs) :=
            fun us zs => by
              rw [List.append_assoc, List.drop_append_of_le_length hm, List.cons_append]
          cases after with
          | nil =>
              refine .cons ?_ .nil
              rw [hdrop, hdrop]
              exact .guarded hg hword htop
          | cons n after =>
              refine .cons ?_ ih
              rw [Nat.add_comm n.1, List.take_length_add_append, hdrop, Nat.add_comm n.1,
                List.take_length_add_append, hdrop]
              exact .guarded hg hword htop

/-! ### A statement -/

/-- A text between two characters. -/
def enclose (opening closing : Char) (inside : List Char) : List Char :=
  opening :: (inside ++ [closing])

/-- A text that ends with a select up to the argument of its limit. -/
def AwaitsLimit (cs : List Char) : Prop :=
  ∃ front back, cs = front ++ back ∧ wordAt front.getLast? = false ∧ IsTopHead back

/-- Whether a limit is awaited can be decided by going through the places of a text. -/
theorem awaitsLimit_iff (cs : List Char) : AwaitsLimit cs ↔
    ∃ n ≤ cs.length, wordAt (cs.take n).getLast? = false ∧ IsTopHead (cs.drop n) := by
  constructor
  · rintro ⟨front, back, rfl, hword, hhead⟩
    exact ⟨front.length, by simp, by simpa using hword, by simpa using hhead⟩
  · rintro ⟨n, -, hword, hhead⟩
    exact ⟨cs.take n, cs.drop n, (List.take_append_drop n cs).symm, hword, hhead⟩

instance (cs : List Char) : Decidable (AwaitsLimit cs) :=
  decidable_of_iff' _ (awaitsLimit_iff cs)

section Statement

variable {g g' : Char} {xs vs ws : List Char}

/-- The marks of a text with a shielded part are those before it and those behind it. -/
theorem marks_shielded (hg : IsGuard g) (hg' : IsGuard g')
    (hvs : ((outside.after xs).next g).Shielded vs) (ys : List Char) :
    marks (xs ++ enclose g g' vs ++ ys) = marks xs ++
      (marksFrom 0 (some g') 0 ys ((((outside.after xs).next g).next g').depths ys)).map
        fun m => (m.1 + (xs ++ enclose g g' vs).length, m.2) := by
  have hdepths : ∀ cs, depths cs = outside.depths cs := fun _ => rfl
  have htext : xs ++ enclose g g' vs ++ ys = xs ++ g :: (vs ++ g' :: ys) := by simp [enclose]
  have hlength : (xs ++ enclose g g' vs).length = xs.length + 1 + vs.length + 1 := by
    simp only [enclose, List.length_append, List.length_cons, List.length_nil]
    omega
  rw [htext, hlength, marks, marks, cteMark?_guard hg, hdepths, hdepths, Nest.depths_append,
    Nest.depths_cons, Nest.depths_append, Nest.depths_cons, hvs.after_eq,
    marksFrom_guard hg (Nest.length_depths _ _) (Nat.zero_le _),
    marksFrom_guard hg' (Nest.length_depths _ _) (Nat.zero_le _),
    marksFrom_of_not_mem hvs.not_mem_depths, List.nil_append, ← marksFrom_add, List.append_assoc]
  simp only [Nat.zero_add]

/-- A text with more than blanks in it is a statement. -/
theorem ownKinds_of_mem {c : Char} {cs : List Char} (hc : c ∈ cs) (hblank : isBlank c = false) :
    ownKinds cs = [.statement] := by
  refine if_neg fun hall => ?_
  exact Bool.noConfusion (hblank.symm.trans (List.all_eq_true.mp hall c hc))

/-- The kinds of a statement's clauses do not depend on a shielded part. -/
theorem statementKinds_shielded (dialect : Dialect) (hg : IsGuard g) (hg' : IsGuard g')
    (hvs : ((outside.after xs).next g).Shielded vs)
    (hws : ((outside.after xs).next g).Shielded ws) (htop : g = '(' → ¬AwaitsLimit xs)
    (ys : List Char) : statementKinds dialect (xs ++ enclose g g' vs ++ ys) =
      statementKinds dialect (xs ++ enclose g g' ws ++ ys) := by
  have hbefore : ∀ m ∈ marks xs, m.1 ≤ xs.length ∧ firstWord (xs.drop m.1) ≠ [] ∧
      (g = '(' → ¬IsTopHead (xs.drop m.1)) := by
    intro m hm
    obtain ⟨-, w, hw, word, hfold, front, back, hxs, hfront, hlast, hword⟩ :=
      wordStarts_of_mem_marks hm
    have hle : front.length ≤ xs.length := by simp [hxs]
    rw [← hfront, show xs.drop front.length = back by rw [hxs, List.drop_left], hword]
    refine ⟨hle, ?_, fun hparen hhead => htop hparen ⟨front, back, hxs, hlast, hhead⟩⟩
    rintro rfl
    exact (isLower_leads w hw).1 hfold.symm
  have hown : ∀ us ys, ownKinds (xs ++ enclose g g' us ++ ys) = [.statement] := fun us ys =>
    ownKinds_of_mem (by simp [enclose]) hg.isBlank
  have hvmarks := marks_shielded hg hg' hvs ys
  have hwmarks := marks_shielded hg hg' hws ys
  generalize marksFrom 0 (some g') 0 ys _ = later at hvmarks hwmarks
  have hcut : List.Forall₂ Alike
      (cut (xs ++ enclose g g' vs ++ ys)
        (marks xs ++ later.map fun m => (m.1 + (xs ++ enclose g g' vs).length, m.2)))
      (cut (xs ++ enclose g g' ws ++ ys)
        (marks xs ++ later.map fun m => (m.1 + (xs ++ enclose g g' ws).length, m.2))) :=
    forall₂_alike_cut hg hbefore (vs ++ [g']) (ws ++ [g']) ys later
  rw [statementKinds, statementKinds, hown, hown, hvmarks, hwmarks,
    flatMap_pieceKinds_eq dialect hcut]
  cases hmarks : marks xs with
  | nil =>
      cases later with
      | nil => rfl
      | cons n later =>
          have htake : ∀ us, (xs ++ enclose g g' us ++ ys).take
              (n.1 + (xs ++ enclose g g' us).length) = xs ++ enclose g g' us ++ ys.take n.1 :=
            fun us => by rw [Nat.add_comm, List.take_length_add_append]
          simp only [List.nil_append, List.map_cons, htake, hown]
  | cons m rest =>
      have htake : ∀ us, (xs ++ enclose g g' us ++ ys).take m.1 = xs.take m.1 := fun us => by
        rw [List.append_assoc,
          List.take_append_of_le_length (hbefore m (hmarks ▸ List.mem_cons_self)).1]
      simp only [List.cons_append, htake]

end Statement

/-! ### A scan -/

/-- A text awaits the argument of a limit if its last piece does. -/
theorem AwaitsLimit.append {front last : List Char} (hfront : front = [] ∨ front.getLast? = some ';')
    (h : AwaitsLimit last) : AwaitsLimit (front ++ last) := by
  obtain ⟨front', back, rfl, hword, hhead⟩ := h
  refine ⟨front ++ front', back, (List.append_assoc ..).symm, ?_, hhead⟩
  rw [List.getLast?_append]
  cases hlast : front'.getLast? with
  | some c =>
      rw [hlast] at hword
      exact hword
  | none =>
      rcases hfront with rfl | hfront
      · rfl
      · rw [hfront]
        decide

/-- The kinds of the clauses of all statements do not depend on a shielded part. -/
theorem map_statementKinds_shielded (dialect : Dialect) {g g' : Char} {before vs ws : List Char}
    (hg : IsGuard g) (hg' : IsGuard g') (hvs : ((outside.after before).next g).Shielded vs)
    (hws : ((outside.after before).next g).Shielded ws) (htop : g = '(' → ¬AwaitsLimit before)
    (rest : List Char) :
    ((outside.pieces (before ++ (enclose g g' vs ++ rest))).filter fun stmt =>
        !Text.allBlank stmt).map (statementKinds dialect) =
      ((outside.pieces (before ++ (enclose g g' ws ++ rest))).filter fun stmt =>
        !Text.allBlank stmt).map (statementKinds dialect) := by
  obtain ⟨done, front, last, hbefore, hfront, hlast, hpieces⟩ := Nest.exists_pieces_append before
  have hwhole : ∀ {us}, ((outside.after before).next g).Shielded us →
      (outside.after before).Uncut (enclose g g' us) ∧
        (outside.after before).after (enclose g g' us) = ((outside.after before).next g).next g' :=
    fun {us} hus => by
      refine ⟨Nest.uncut_cons.mpr ⟨fun hc => hg.ne_semicolon hc.1, ?_⟩, ?_⟩
      · exact Nest.uncut_append hus.uncut (Nest.uncut_singleton hg'.ne_semicolon)
      · rw [enclose, Nest.after_cons, Nest.after_append, hus.after_eq]
        rfl
  obtain ⟨first, later, hrest⟩ := List.exists_cons_of_ne_nil
    (Nest.pieces_ne_nil (((outside.after before).next g).next g') rest)
  have hinked : ∀ us, (!Text.allBlank (last ++ enclose g g' us ++ first)) = true := fun us => by
    have hmem : g ∈ last ++ enclose g g' us ++ first := by simp [enclose]
    rw [Bool.not_eq_true', Text.allBlank, List.all_eq_false]
    exact ⟨g, hmem, by rw [hg.isBlank]; exact Bool.false_ne_true⟩
  have hpiece := statementKinds_shielded dialect hg hg' (hlast ▸ hvs) (hlast ▸ hws)
    (fun hparen h => htop hparen (hbefore ▸ h.append hfront)) first
  rw [hpieces _ _ (hwhole hvs).1, hpieces _ _ (hwhole hws).1, (hwhole hvs).2, (hwhole hws).2, hrest,
    List.modifyHead_cons, List.modifyHead_cons, List.filter_append, List.filter_append,
    List.filter_cons, if_pos (hinked vs), List.filter_cons, if_pos (hinked ws), List.map_append,
    List.map_append, List.map_cons, List.map_cons, hpiece]

/-- There is no mark of a comment in the text. -/
def IsUncommented (cs : List Char) : Prop := ¬['-', '-'] <:+: cs ∧ ¬['/', '*'] <:+: cs

instance (cs : List Char) : Decidable (IsUncommented cs) :=
  inferInstanceAs (Decidable (_ ∧ _))

/-- A text without marks of comments is left as it is. -/
theorem blankComments_of_isUncommented {cs : List Char} (h : IsUncommented cs) :
    blankComments cs = cs := by
  induction cs with
  | nil => rfl
  | cons c cs ih =>
      have hstarts : ∀ {a b : Char}, ¬[a, b] <:+: c :: cs → (c == a && cs.head? == some b) = false := by
        intro a b hab
        rw [Bool.eq_false_iff]
        intro hstart
        rw [Bool.and_eq_true, beq_iff_eq, beq_iff_eq] at hstart
        obtain ⟨rfl, hhead⟩ := hstart
        obtain ⟨rest, rfl⟩ := List.head?_eq_some_iff.mp hhead
        exact hab ⟨[], rest, rfl⟩
      have hrest : IsUncommented cs :=
        ⟨fun hin => h.1 (List.infix_cons hin), fun hin => h.2 (List.infix_cons hin)⟩
      rw [blankComments, blank_of_not_starts (hstarts h.1) (blockComment?_eq_none (hstarts h.2))]
      exact congrArg (c :: ·) (ih hrest)

/-- Two texts that differ inside of one literal or quoted name, or inside of one group of depth zero
that is not the argument of a limit. -/
inductive DiffersInside : List Char → List Char → Prop
  | literal {before inside inside' rest : List Char} {opening closing : Char} :
      (outside.after before).quote = none → closingQuote? opening = some closing →
      closing ∉ inside → closing ∉ inside' →
      DiffersInside (before ++ (enclose opening closing inside ++ rest))
        (before ++ (enclose opening closing inside' ++ rest))
  | group {before inside inside' rest : List Char} :
      outside.after before = outside → ¬AwaitsLimit before → Balanced inside → Balanced inside' →
      DiffersInside (before ++ (enclose '(' ')' inside ++ rest))
        (before ++ (enclose '(' ')' inside' ++ rest))

/-- What opens and closes a literal is a guard. -/
theorem isGuard_of_closingQuote? {opening closing : Char}
    (h : closingQuote? opening = some closing) :
    IsGuard opening ∧ IsGuard closing ∧ opening ≠ '(' := by
  have hmem : opening ∈ Text.guards ∧ closing ∈ Text.guards ∧ opening ≠ '(' := by
    rw [closingQuote?] at h
    split_ifs at h with hquote hbracket
    · obtain rfl := Option.some.inj h
      rcases hquote with rfl | rfl | rfl <;> decide
    · obtain rfl := Option.some.inj h
      subst hbracket
      decide
  exact ⟨Text.isGuard_of_mem_guards hmem.1, Text.isGuard_of_mem_guards hmem.2.1, hmem.2.2⟩

/-- A scan is blind to the inside of literals and groups: texts without comments that differ only there
have as many statements, and in each the same kinds of clauses. -/
theorem kinds_scan (dialect : Dialect) {text text' : List Char} (h : DiffersInside text text')
    (huncommented : IsUncommented text) (huncommented' : IsUncommented text') :
    (scan dialect text).map (·.map (·.kind)) = (scan dialect text').map (·.map (·.kind)) := by
  rw [map_kind_scan, map_kind_scan, blankComments_of_isUncommented huncommented,
    blankComments_of_isUncommented huncommented']
  cases h with
  | @literal before inside inside' rest opening closing hquote hclosing hinside hinside' =>
      obtain ⟨hopening, hclosed, hparen⟩ := isGuard_of_closingQuote? hclosing
      have hnext : (outside.after before).next opening =
          ⟨some closing, (outside.after before).depth⟩ := by
        simp [Nest.next, hquote, hclosing]
      exact map_statementKinds_shielded dialect hopening hclosed
        (hnext ▸ Nest.shielded_literal hinside _) (hnext ▸ Nest.shielded_literal hinside' _)
        (fun h => absurd h hparen) rest
  | @group before inside inside' rest hbefore htop hinside hinside' =>
      have hnext : (outside.after before).next '(' = ⟨none, 1⟩ := by rw [hbefore]; rfl
      exact map_statementKinds_shielded dialect (Text.isGuard_of_mem_guards (by decide))
        (Text.isGuard_of_mem_guards (by decide)) (hnext ▸ hinside.shielded 0)
        (hnext ▸ hinside'.shielded 0) (fun _ => htop) rest

/-- A query with a part in parentheses. -/
def nestedQuery (inside : String) : List Char :=
  "SELECT a FROM ".toList ++ (enclose '(' ')' inside.toList ++ " x ORDER BY 1".toList)

/-- The keywords and the semicolon of a subquery do not count. -/
theorem kinds_nestedQuery :
    DiffersInside (nestedQuery "SELECT b FROM t; LIMIT 1") (nestedQuery "u") ∧
      (scan .tsql (nestedQuery "SELECT b FROM t; LIMIT 1")).map (·.map (·.kind)) =
        [[.select, .source, .orderBy]] := by
  have hdiffers : DiffersInside (nestedQuery "SELECT b FROM t; LIMIT 1") (nestedQuery "u") :=
    .group (by decide +kernel) (by decide +kernel) (balanced_of_plain (by decide +kernel))
      (balanced_of_plain (by decide +kernel))
  exact ⟨hdiffers, (kinds_scan .tsql hdiffers (by decide +kernel) (by decide +kernel)).trans
    (by decide +kernel)⟩

end Flowchart.Query
