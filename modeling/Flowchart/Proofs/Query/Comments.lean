import Flowchart.Proofs.Query.Positions

/-!
# Comments of query texts

Where comments stand in a query text is read from left to right: a comment starts outside of
literals, quoted names and other comments, a line comment lasts to the end of its line, and a block
comment to the next end mark. `Place` is where such a reading stands, `inComment` says which
characters belong to comments, and `withoutComments` is the text with these written as spaces.
Literals and quoted names are those of `depths`.

## The two passes

Blanking goes over the text twice instead: `blankBlocksFrom` looks for block comments,
`blankLinesFrom` for line comments in what it leaves, and neither knows of literals. `Skips` ties the
number of characters that the first pass still has to skip to the place of the reading, and
`Place.agrees` says that both passes do at a character what the reading asks for. The first place at
which they do not is the *clash* of a text (`clash?`):

* in code, a block comment starts that is never closed;
* in a literal, two dashes stand, or the start of a block comment that is closed somewhere after it;
* in a line comment, the line ends although the first pass is inside of a block comment.

Marks of comments in other places do no harm: the start of a block comment that is never closed in a
literal or a line comment, or a whole block comment in a line comment.

## Main results

* `blankComments_spec`: no character moves, no line feed comes or goes, and every other character
  stays or is written as a space. Without a clash the characters of the comments are blanked and no
  others, and only a clash in a line comment can be without consequence.
* `blankComments_dashes`: a literal with two dashes in it is cut short.
-/

namespace Flowchart.Query

/-! ### Reading comments -/

/-- Where a reading of a query text stands. -/
inductive Place where
  | code
  /-- In a literal or a quoted name that `quote` ends. -/
  | literal (quote : Char)
  | line
  /-- At the second character of the mark that starts a block comment. -/
  | opening
  | block
  /-- At the second character of the mark that ends a block comment. -/
  | closing
  deriving DecidableEq, Repr

/-- Whether a line comment starts with `c`, if `after` comes next. -/
def startsLine (c : Char) (after : Option Char) : Bool := c == '-' && after == some '-'

/-- Whether a block comment starts with `c`, if `after` comes next. -/
def startsBlock (c : Char) (after : Option Char) : Bool := c == '/' && after == some '*'

namespace Place

/-- Where a reading stands after the character `c`, if `after` comes next. -/
def next (p : Place) (c : Char) (after : Option Char) : Place :=
  match p with
  | .code =>
    if startsLine c after then .line
    else if startsBlock c after then .opening
    else match closingQuote? c with
      | some q => .literal q
      | none => .code
  | .literal q => if c = q then .code else .literal q
  | .line => if c = '\n' then .code else .line
  | .opening => .block
  | .block => if c = '*' ∧ after = some '/' then .closing else .block
  | .closing => .code

/-- Whether the character `c` belongs to a comment, if `after` comes next. -/
def covers (p : Place) (c : Char) (after : Option Char) : Bool :=
  match p with
  | .code => startsLine c after || startsBlock c after
  | .literal _ => false
  | .line => c != '\n'
  | .opening | .block | .closing => true

/-- Whether the character `c` belongs to a literal or a quoted name. -/
def quotes (p : Place) (c : Char) : Bool :=
  match p with
  | .code => (closingQuote? c).isSome
  | .literal _ => true
  | .line | .opening | .block | .closing => false

/-- Whether the two passes write the character `c` before `cs` as the reading asks for and leave
the place `p` with it, if the first one is to skip `skip` characters. -/
def agrees (p : Place) (skip : Nat) (c : Char) (cs : List Char) : Bool :=
  match p with
  | .code => !startsBlock c cs.head? || (blockComment? (c :: cs)).isSome
  | .literal _ => !startsLine c cs.head? && (blockComment? (c :: cs)).isNone
  | .line => skip == 0 || c != '\n'
  | .opening | .block | .closing => true

end Place

/-- Which characters of a text belong to comments, if it is read from the place `p`. -/
def inComment : (p : Place) → List Char → List Bool
  | _, [] => []
  | p, c :: cs => p.covers c cs.head? :: inComment (p.next c cs.head?) cs

/-- Which characters of a text belong to literals or quoted names, if it is read from the place
`p`. -/
def inLiteral : (p : Place) → List Char → List Bool
  | _, [] => []
  | p, c :: cs => p.quotes c :: inLiteral (p.next c cs.head?) cs

/-- How many characters the first pass has to skip after the character `c` before `cs`, if it is to
skip `skip` characters at that character. -/
def skipAfter : (skip : Nat) → Char → List Char → Nat
  | skip + 1, _, _ => skip
  | 0, c, cs => (blockComment? (c :: cs)).getD 1 - 1

/-- Where the reading stands when the two passes part from it, if they do, in a text that is read
from the place `p`; the first pass is to skip `skip` characters. -/
def clashFrom? : (p : Place) → (skip : Nat) → List Char → Option Place
  | _, _, [] => none
  | p, skip, c :: cs =>
    if p.agrees skip c cs then clashFrom? (p.next c cs.head?) (skipAfter skip c cs) cs else some p

/-- Where the reading stands when the two passes part from it, if they do. -/
def clash? (cs : List Char) : Option Place := clashFrom? .code 0 cs

/-- How a character of a comment is written: as a space, unless it is a line feed. -/
def blankOf (c : Char) : Char := if c = '\n' then '\n' else ' '

/-- The text with its comments blanked, if it is read from the place `p`. -/
def withoutCommentsFrom (p : Place) (cs : List Char) : List Char :=
  List.zipWith (fun c commented => if commented then blankOf c else c) cs (inComment p cs)

/-- The text with its comments blanked. -/
def withoutComments (cs : List Char) : List Char := withoutCommentsFrom .code cs

/-- One character of the text with its comments blanked. -/
theorem withoutCommentsFrom_cons (p : Place) (c : Char) (cs : List Char) :
    withoutCommentsFrom p (c :: cs) =
      (if p.covers c cs.head? then blankOf c else c) ::
        withoutCommentsFrom (p.next c cs.head?) cs := rfl

/-- The quote that ends the literal of a place. -/
def Place.quote? : Place → Option Char
  | .literal q => some q
  | .code | .line | .opening | .block | .closing => none

/-- A blanked character opens no literal. -/
theorem closingQuote?_blankOf (c : Char) : closingQuote? (blankOf c) = none := by
  rw [blankOf]
  split_ifs <;> decide

/-- A blanked character stands outside of literals and changes no depth. -/
theorem isNone_depthsFrom_blankOf (depth : Nat) (c : Char) (cs : List Char) :
    (depthsFrom none depth (blankOf c :: cs)).map Option.isNone =
      false :: (depthsFrom none depth cs).map Option.isNone := by
  rw [depthsFrom, closingQuote?_blankOf]
  have hopen : blankOf c ≠ '(' := by rw [blankOf]; split_ifs <;> decide
  have hclose : blankOf c ≠ ')' := by rw [blankOf]; split_ifs <;> decide
  rw [if_neg hopen, if_neg hclose]
  rfl

/-- A character of a comment is in no literal, and neither is the next one. -/
theorem quote?_of_covers {p : Place} {c : Char} {after : Option Char}
    (h : p.covers c after = true) :
    p.quote? = none ∧ (p.next c after).quote? = none ∧ p.quotes c = false := by
  cases p with
  | code =>
      rcases (Bool.or_eq_true _ _).mp h with hline | hblock
      · obtain ⟨rfl, -⟩ : c = '-' ∧ after = some '-' := by simpa [startsLine] using hline
        exact ⟨rfl, by rw [Place.next, if_pos hline]; rfl, by decide⟩
      · obtain ⟨rfl, rfl⟩ : c = '/' ∧ after = some '*' := by simpa [startsBlock] using hblock
        exact ⟨rfl, by decide, by decide⟩
  | literal q => exact absurd h Bool.noConfusion
  | line => exact ⟨rfl, by rw [Place.next, if_neg (bne_iff_ne.mp h)]; rfl, rfl⟩
  | opening => exact ⟨rfl, rfl, rfl⟩
  | block => exact ⟨rfl, by rw [Place.next]; split_ifs <;> rfl, rfl⟩
  | closing => exact ⟨rfl, rfl, rfl⟩

/-- With its comments blanked, a text has the literals that the reading gives it. -/
theorem isNone_depthsFrom_withoutCommentsFrom (p : Place) (depth : Nat) (cs : List Char) :
    (depthsFrom p.quote? depth (withoutCommentsFrom p cs)).map Option.isNone = inLiteral p cs := by
  induction cs generalizing p depth with
  | nil => cases p <;> rfl
  | cons c cs ih =>
      rw [withoutCommentsFrom_cons, inLiteral]
      cases hcovers : p.covers c cs.head? with
      | true =>
          obtain ⟨hquote, hnext, hquotes⟩ := quote?_of_covers hcovers
          rw [hquote, hquotes, if_pos rfl, isNone_depthsFrom_blankOf, ← ih _ depth, hnext]
      | false =>
          rw [if_neg Bool.false_ne_true]
          cases p with
          | code =>
              obtain ⟨hline, hblock⟩ := (Bool.or_eq_false_iff).mp hcovers
              rw [Place.next, hline, hblock, Place.quotes, Place.quote?, depthsFrom]
              cases hquote : closingQuote? c with
              | none => exact congrArg (false :: ·) (ih .code _)
              | some q => exact congrArg (true :: ·) (ih (.literal q) depth)
          | literal q =>
              rw [Place.quote?, depthsFrom, Place.next]
              by_cases hc : c = q
              · rw [if_pos hc, if_pos hc]
                exact congrArg (true :: ·) (ih .code depth)
              · rw [if_neg hc, if_neg hc]
                exact congrArg (true :: ·) (ih (.literal q) depth)
          | line =>
              obtain rfl : c = '\n' := by simpa [Place.covers] using hcovers
              exact congrArg (false :: ·) (ih .code depth)
          | opening => exact absurd hcovers Bool.noConfusion
          | block => exact absurd hcovers Bool.noConfusion
          | closing => exact absurd hcovers Bool.noConfusion

/-! ### One character in the two passes -/

/-- Where no block comment starts, none is found. -/
theorem blockComment?_eq_none {c : Char} {cs : List Char} (h : startsBlock c cs.head? = false) :
    blockComment? (c :: cs) = none := by
  cases cs with
  | nil => simp [blockComment?]
  | cons d cs =>
      rw [blockComment?]
      rintro rest heq
      obtain ⟨rfl, rfl, rfl⟩ : c = '/' ∧ d = '*' ∧ cs = rest := by simpa using heq
      exact absurd h (by simp [startsBlock])

/-- A block comment that is found starts here. -/
theorem startsBlock_of_isSome {c : Char} {cs : List Char}
    (h : (blockComment? (c :: cs)).isSome = true) : startsBlock c cs.head? = true := by
  cases hblock : startsBlock c cs.head? with
  | true => rfl
  | false =>
      rw [blockComment?_eq_none hblock] at h
      exact h

/-- A block comment that starts here is found if it is closed. -/
theorem blockComment?_eq_of_starts {c : Char} {cs : List Char}
    (h : startsBlock c cs.head? = true) :
    blockComment? (c :: cs) = (blockComment?.closing cs.tail).map (· + 4) := by
  obtain ⟨rfl, hstar⟩ : c = '/' ∧ cs.head? = some '*' := by simpa [startsBlock] using h
  obtain ⟨rest, rfl⟩ := List.head?_eq_some_iff.mp hstar
  rfl

/-- A mark of a line comment starts no block comment. -/
theorem startsBlock_of_startsLine {c : Char} {after : Option Char}
    (h : startsLine c after = true) : startsBlock c after = false := by
  obtain ⟨rfl, rfl⟩ : c = '-' ∧ after = some '-' := by simpa [startsLine] using h
  decide

/-- A character that the first pass skips, or at which it finds a block comment. -/
def Blanks (skip : Nat) (c : Char) (cs : List Char) : Prop :=
  skip ≠ 0 ∨ (blockComment? (c :: cs)).isSome = true

/-- The first pass writes the characters of the block comments it finds as spaces. -/
theorem blankBlocksFrom_of_blanks {skip : Nat} {c : Char} {cs : List Char}
    (h : Blanks skip c cs) :
    blankBlocksFrom skip (c :: cs) = blankOf c :: blankBlocksFrom (skipAfter skip c cs) cs := by
  cases skip with
  | succ skip => rfl
  | zero =>
      have hfound := h.resolve_left (absurd rfl)
      obtain ⟨rfl, -⟩ : c = '/' ∧ cs.head? = some '*' := by
        simpa [startsBlock] using startsBlock_of_isSome hfound
      obtain ⟨n, hn⟩ := Option.isSome_iff_exists.mp hfound
      rw [blankBlocksFrom, skipAfter, hn]
      rfl

/-- The first pass keeps the other characters. -/
theorem blankBlocksFrom_of_none {c : Char} {cs : List Char} (h : blockComment? (c :: cs) = none) :
    blankBlocksFrom 0 (c :: cs) = c :: blankBlocksFrom 0 cs := by
  rw [blankBlocksFrom, h]

/-- Where no block comment is found, there is nothing to skip. -/
theorem skipAfter_of_none {c : Char} {cs : List Char} (h : blockComment? (c :: cs) = none) :
    skipAfter 0 c cs = 0 := by
  rw [skipAfter, h]
  rfl

/-- The first pass writes no dash where there was none. -/
theorem head?_blankBlocksFrom (cs : List Char) :
    (blankBlocksFrom 0 cs).head? = some '-' ↔ cs.head? = some '-' := by
  constructor
  · intro h
    rw [List.head?_eq_getElem?] at h ⊢
    exact (blanked_blankBlocksFrom 0 cs).getElem?_eq h (by decide)
  · intro h
    obtain ⟨rest, rfl⟩ := List.head?_eq_some_iff.mp h
    rw [blankBlocksFrom_of_none (blockComment?_eq_none (by simp [startsBlock]))]
    rfl

/-- A character at which no comment starts stays in both passes. -/
theorem blank_of_not_starts {c : Char} {cs : List Char} (hline : startsLine c cs.head? = false)
    (hblock : blockComment? (c :: cs) = none) :
    blankLinesFrom false (blankBlocksFrom 0 (c :: cs)) =
      c :: blankLinesFrom false (blankBlocksFrom 0 cs) := by
  rw [blankBlocksFrom_of_none hblock, blankLinesFrom, if_neg]
  rw [head?_blankBlocksFrom]
  simpa [startsLine] using hline

/-- Where a line comment starts, it is under way in the second pass. -/
theorem blank_startsLine {c : Char} {cs : List Char} (h : startsLine c cs.head? = true) :
    blankLinesFrom false (blankBlocksFrom 0 (c :: cs)) =
      blankOf c :: blankLinesFrom true (blankBlocksFrom 0 cs) := by
  rw [blankBlocksFrom_of_none (blockComment?_eq_none (startsBlock_of_startsLine h))]
  obtain ⟨rfl, hdash⟩ : c = '-' ∧ cs.head? = some '-' := by simpa [startsLine] using h
  rw [blankLinesFrom, if_pos ⟨rfl, (head?_blankBlocksFrom cs).mpr hdash⟩]
  rfl

/-- The second pass writes a character of a line comment as a space, whether the first one did
already or not. -/
theorem blankLinesFrom_true_cons {c d : Char} (hd : d = c ∨ d = blankOf c) (cs : List Char) :
    blankLinesFrom true (d :: cs) = blankOf c :: blankLinesFrom (c != '\n') cs := by
  by_cases hc : c = '\n'
  · obtain rfl : d = '\n' := by rcases hd with rfl | rfl <;> simp [hc, blankOf]
    rw [hc]
    rfl
  · have hne : d ≠ '\n' := by rcases hd with rfl | rfl <;> simp [hc, blankOf]
    rw [blankLinesFrom, if_neg hne, blankOf, if_neg hc, bne_iff_ne.mpr hc]

/-- In a line comment the second pass goes on to the end of the line, whatever the first one does. -/
theorem blank_line (skip : Nat) (c : Char) (cs : List Char) :
    blankLinesFrom true (blankBlocksFrom skip (c :: cs)) =
      blankOf c :: blankLinesFrom (c != '\n') (blankBlocksFrom (skipAfter skip c cs) cs) := by
  by_cases hblanks : Blanks skip c cs
  · rw [blankBlocksFrom_of_blanks hblanks]
    exact blankLinesFrom_true_cons (Or.inr rfl) _
  · obtain ⟨hskip, hnone⟩ := not_or.mp hblanks
    obtain rfl : skip = 0 := not_not.mp hskip
    rw [Bool.not_eq_true, Option.isSome_eq_false_iff, Option.isNone_iff_eq_none] at hnone
    rw [blankBlocksFrom_of_none hnone, skipAfter_of_none hnone]
    exact blankLinesFrom_true_cons (Or.inl rfl) _

/-- A character that the first pass blanks stays so in the second. -/
theorem blank_of_blanks {skip : Nat} {c : Char} {cs : List Char} (h : Blanks skip c cs) :
    blankLinesFrom false (blankBlocksFrom skip (c :: cs)) =
      blankOf c :: blankLinesFrom false (blankBlocksFrom (skipAfter skip c cs) cs) := by
  rw [blankBlocksFrom_of_blanks h, blankLinesFrom, if_neg]
  rw [blankOf]
  split_ifs <;> simp

/-! ### The passes and the reading -/

/-- Whether a line comment is under way. -/
def Place.isLine : Place → Bool
  | .line => true
  | .code | .literal _ | .opening | .block | .closing => false

/-- How many characters of a block comment are left at the place `p` of a text. A line comment may
hold a block comment of the first pass, of which the reading knows nothing. -/
def Skips (p : Place) (cs : List Char) (skip : Nat) : Prop :=
  match p with
  | .code | .literal _ => skip = 0
  | .line => True
  | .opening => ∃ n, blockComment?.closing cs.tail = some n ∧ skip = n + 3
  | .block => ∃ n, blockComment?.closing cs = some n ∧ skip = n + 2
  | .closing => skip = 1

/-- The end mark of a block comment closes it. -/
theorem closing_of_ends {c : Char} {cs : List Char} (h : c = '*' ∧ cs.head? = some '/') :
    blockComment?.closing (c :: cs) = some 0 := by
  obtain ⟨rfl, hslash⟩ := h
  obtain ⟨rest, rfl⟩ := List.head?_eq_some_iff.mp hslash
  rfl

/-- Every other character puts the end of a block comment off by one. -/
theorem closing_of_not_ends {c : Char} {cs : List Char} (h : ¬ (c = '*' ∧ cs.head? = some '/')) :
    blockComment?.closing (c :: cs) = (blockComment?.closing cs).map (· + 1) := by
  rw [blockComment?.closing]
  rintro rest rfl rfl
  exact h ⟨rfl, rfl⟩

/-- After a character of the code that starts no block comment nothing is to skip. -/
theorem skips_next_code {c : Char} {cs : List Char} (h : startsBlock c cs.head? = false) :
    Skips (Place.next .code c cs.head?) cs 0 := by
  rw [Place.next, h]
  cases hline : startsLine c cs.head? with
  | true => trivial
  | false => cases closingQuote? c <;> exact rfl

/-- A block comment that is found in code is to be skipped to its end. -/
theorem skips_next_opening {c : Char} {cs : List Char}
    (h : (blockComment? (c :: cs)).isSome = true) :
    Skips (Place.next .code c cs.head?) cs (skipAfter 0 c cs) := by
  have hblock := startsBlock_of_isSome h
  obtain ⟨n, hn⟩ := Option.isSome_iff_exists.mp h
  rw [skipAfter, hn]
  rw [blockComment?_eq_of_starts hblock] at hn
  obtain ⟨m, hm, rfl⟩ := Option.map_eq_some_iff.mp hn
  obtain ⟨rfl, hstar⟩ : c = '/' ∧ cs.head? = some '*' := by simpa [startsBlock] using hblock
  rw [hstar]
  exact ⟨m, hm, rfl⟩

/-- What is left to skip stays tied to the place, one character of a block comment on. -/
theorem skips_next_block {c : Char} {cs : List Char} {n : Nat}
    (h : blockComment?.closing (c :: cs) = some n) :
    Skips (Place.next .block c cs.head?) cs (n + 1) := by
  rw [Place.next]
  split_ifs with hend
  · rw [closing_of_ends hend] at h
    obtain rfl : 0 = n := Option.some.inj h
    exact rfl
  · rw [closing_of_not_ends hend] at h
    obtain ⟨m, hm, rfl⟩ := Option.map_eq_some_iff.mp h
    exact ⟨m, hm, rfl⟩

/-- Where both passes do what the reading asks for, what is left to skip stays tied to the place. -/
theorem Skips.next {p : Place} {skip : Nat} {c : Char} {cs : List Char}
    (hskips : Skips p (c :: cs) skip) (h : p.agrees skip c cs = true) :
    Skips (p.next c cs.head?) cs (skipAfter skip c cs) := by
  cases p with
  | code =>
      obtain rfl : skip = 0 := hskips
      cases hblock : startsBlock c cs.head? with
      | false =>
          rw [skipAfter_of_none (blockComment?_eq_none hblock)]
          exact skips_next_code hblock
      | true =>
          rw [Place.agrees, hblock] at h
          exact skips_next_opening h
  | literal q =>
      obtain rfl : skip = 0 := hskips
      rw [Place.agrees, Bool.and_eq_true, Option.isNone_iff_eq_none] at h
      rw [skipAfter_of_none h.2, Place.next]
      split_ifs <;> exact rfl
  | line =>
      rw [Place.next]
      split_ifs with hc
      · obtain rfl : skip = 0 := by simpa [Place.agrees, hc] using h
        exact skipAfter_of_none (blockComment?_eq_none (by simp [hc, startsBlock]))
      · trivial
  | opening =>
      obtain ⟨n, hn, rfl⟩ := hskips
      exact ⟨n, hn, rfl⟩
  | block =>
      obtain ⟨n, hn, rfl⟩ := hskips
      exact skips_next_block hn
  | closing =>
      obtain rfl : skip = 1 := hskips
      exact rfl

/-- In code the passes write what the reading asks for. -/
theorem blank_code {c : Char} {cs : List Char} (h : Place.agrees .code 0 c cs = true) :
    blankLinesFrom false (blankBlocksFrom 0 (c :: cs)) =
      (if Place.covers .code c cs.head? then blankOf c else c) ::
        blankLinesFrom (Place.next .code c cs.head?).isLine
          (blankBlocksFrom (skipAfter 0 c cs) cs) := by
  rw [Place.covers, Place.next]
  cases hline : startsLine c cs.head? with
  | true =>
      rw [skipAfter_of_none (blockComment?_eq_none (startsBlock_of_startsLine hline))]
      exact blank_startsLine hline
  | false =>
      cases hblock : startsBlock c cs.head? with
      | true =>
          rw [Place.agrees, hblock] at h
          exact blank_of_blanks (Or.inr h)
      | false =>
          have hnone := blockComment?_eq_none hblock
          rw [skipAfter_of_none hnone, blank_of_not_starts hline hnone]
          cases closingQuote? c <;> rfl

/-- In a literal the passes write what the reading asks for. -/
theorem blank_literal {q c : Char} {cs : List Char}
    (h : Place.agrees (.literal q) 0 c cs = true) :
    blankLinesFrom false (blankBlocksFrom 0 (c :: cs)) =
      c :: blankLinesFrom (Place.next (.literal q) c cs.head?).isLine
        (blankBlocksFrom (skipAfter 0 c cs) cs) := by
  rw [Place.agrees, Bool.and_eq_true, Bool.not_eq_true', Option.isNone_iff_eq_none] at h
  obtain ⟨hline, hnone⟩ := h
  rw [skipAfter_of_none hnone, blank_of_not_starts hline hnone, Place.next]
  split_ifs <;> rfl

/-- The passes write a character as the reading asks for, unless they part from it there. -/
theorem blank_cons {p : Place} {skip : Nat} {c : Char} {cs : List Char}
    (hskips : Skips p (c :: cs) skip) (h : p.agrees skip c cs = true) :
    blankLinesFrom p.isLine (blankBlocksFrom skip (c :: cs)) =
      (if p.covers c cs.head? then blankOf c else c) ::
        blankLinesFrom (p.next c cs.head?).isLine
          (blankBlocksFrom (skipAfter skip c cs) cs) := by
  cases p with
  | code =>
      obtain rfl : skip = 0 := hskips
      exact blank_code h
  | literal q =>
      obtain rfl : skip = 0 := hskips
      exact blank_literal h
  | line =>
      refine (blank_line skip c cs).trans ?_
      rw [Place.covers, Place.next]
      by_cases hc : c = '\n'
      · rw [hc]
        rfl
      · rw [if_neg hc, bne_iff_ne.mpr hc]
        rfl
  | opening =>
      obtain ⟨n, -, rfl⟩ := hskips
      exact blank_of_blanks (Or.inl (Nat.succ_ne_zero _))
  | block =>
      obtain ⟨n, -, rfl⟩ := hskips
      have hline : (Place.next .block c cs.head?).isLine = false := by
        rw [Place.next]
        split_ifs <;> rfl
      rw [hline]
      exact blank_of_blanks (Or.inl (Nat.succ_ne_zero _))
  | closing =>
      obtain rfl : skip = 1 := hskips
      exact blank_of_blanks (Or.inl Nat.one_ne_zero)

/-- Where the passes part from the reading, outside of line comments, they write another
character. -/
theorem head?_blank_ne {p : Place} {skip : Nat} {c : Char} {cs : List Char}
    (hskips : Skips p (c :: cs) skip) (h : p.agrees skip c cs = false) (hp : p ≠ .line) :
    (blankLinesFrom p.isLine (blankBlocksFrom skip (c :: cs))).head? ≠
      some (if p.covers c cs.head? then blankOf c else c) := by
  cases p with
  | code =>
      obtain rfl : skip = 0 := hskips
      rw [Place.agrees, Bool.or_eq_false_iff, Bool.not_eq_false', Option.isSome_eq_false_iff,
        Option.isNone_iff_eq_none] at h
      obtain ⟨rfl, hstar⟩ : c = '/' ∧ cs.head? = some '*' := by simpa [startsBlock] using h.1
      have hkept := blank_of_not_starts (by simp [startsLine]) h.2
      rw [Place.covers, h.1, Bool.or_true, Place.isLine, hkept, List.head?_cons]
      decide
  | literal q =>
      obtain rfl : skip = 0 := hskips
      rw [Place.covers, Place.isLine]
      rw [Place.agrees, Bool.and_eq_false_iff, Bool.not_eq_false', Option.isNone_eq_false_iff] at h
      rcases h with hline | hfound
      · rw [blank_startsLine hline, List.head?_cons]
        obtain ⟨rfl, -⟩ : c = '-' ∧ cs.head? = some '-' := by simpa [startsLine] using hline
        decide
      · rw [blank_of_blanks (Or.inr hfound), List.head?_cons]
        obtain ⟨rfl, -⟩ : c = '/' ∧ cs.head? = some '*' := by
          simpa [startsBlock] using startsBlock_of_isSome hfound
        decide
  | line => exact absurd rfl hp
  | opening => exact absurd h Bool.noConfusion
  | block => exact absurd h Bool.noConfusion
  | closing => exact absurd h Bool.noConfusion

/-! ### Whole texts -/

/-- A text without a clash has its comments blanked, and nothing else. -/
theorem blank_of_clashFrom? {p : Place} {skip : Nat} {cs : List Char}
    (hskips : Skips p cs skip) (h : clashFrom? p skip cs = none) :
    blankLinesFrom p.isLine (blankBlocksFrom skip cs) = withoutCommentsFrom p cs := by
  induction cs generalizing p skip with
  | nil => cases p <;> rfl
  | cons c cs ih =>
      rw [clashFrom?] at h
      split_ifs at h with hagrees
      rw [blank_cons hskips hagrees, withoutCommentsFrom_cons, ih (hskips.next hagrees) h]

/-- If just the comments of a text are blanked, there is no clash but in a line comment. -/
theorem clashFrom?_of_blank {p : Place} {skip : Nat} {cs : List Char} (hskips : Skips p cs skip)
    (h : blankLinesFrom p.isLine (blankBlocksFrom skip cs) = withoutCommentsFrom p cs) :
    clashFrom? p skip cs = none ∨ clashFrom? p skip cs = some .line := by
  induction cs generalizing p skip with
  | nil => exact Or.inl rfl
  | cons c cs ih =>
      rw [withoutCommentsFrom_cons] at h
      rw [clashFrom?]
      cases hagrees : p.agrees skip c cs with
      | true =>
          rw [blank_cons hskips hagrees] at h
          exact ih (hskips.next hagrees) (List.cons.inj h).2
      | false =>
          by_cases hp : p = .line
          · rw [hp]
            exact Or.inr rfl
          · exact absurd (congrArg List.head? h) (head?_blank_ne hskips hagrees hp)

/-- What stands at a place of the text that is written: what stood there, or a space for another
character than a line feed. -/
theorem Blanked.getElem?_of {written original : List Char} (h : Blanked written original) {i : Nat}
    {c : Char} (hc : original[i]? = some c) : ∃ b, written[i]? = some b ∧ IsBlanked b c := by
  obtain ⟨hi, rfl⟩ := List.getElem?_eq_some_iff.mp hc
  have hwritten : i < written.length := h.length_eq ▸ hi
  exact ⟨written[i], List.getElem?_eq_getElem hwritten, h.get hwritten hi⟩

/-- Blanking comments moves no character and keeps every line feed, and it keeps every other
character or writes it as a space. In a text without a clash the characters that it writes as spaces
are those of the comments, read with the literals that `depths` recognises once the comments are
blanked. Only a clash at the end of a line comment can leave the text as it ought to be. -/
theorem blankComments_spec (text : List Char) :
    (blankComments text).length = text.length ∧
      (∀ i : Nat, (blankComments text)[i]? = some '\n' ↔ text[i]? = some '\n') ∧
      (∀ (i : Nat) (c : Char), text[i]? = some c →
        (blankComments text)[i]? = some c ∨ (blankComments text)[i]? = some ' ') ∧
      (depths (withoutComments text)).map Option.isNone = inLiteral .code text ∧
      (clash? text = none → blankComments text = withoutComments text) ∧
      (blankComments text = withoutComments text →
        clash? text = none ∨ clash? text = some .line) := by
  have hblanked := blanked_blankComments text
  have hskips : Skips .code text 0 := rfl
  refine ⟨hblanked.length_eq, fun i => ⟨fun h => ?_, fun h => ?_⟩, fun i c hc => ?_,
    isNone_depthsFrom_withoutCommentsFrom .code 0 text, blank_of_clashFrom? hskips,
    clashFrom?_of_blank hskips⟩
  · obtain ⟨c, hc⟩ : ∃ c, text[i]? = some c :=
      ⟨_, List.getElem?_eq_getElem (hblanked.length_eq ▸ (List.getElem?_eq_some_iff.mp h).1)⟩
    obtain ⟨b, hb, rfl | ⟨rfl, -⟩⟩ := hblanked.getElem?_of hc
    · rw [hc, ← hb, h]
    · exact absurd (hb.symm.trans h) (by decide)
  · obtain ⟨b, hb, rfl | ⟨-, hne⟩⟩ := hblanked.getElem?_of h
    · exact hb
    · exact absurd rfl hne
  · obtain ⟨b, hb, rfl | ⟨rfl, -⟩⟩ := hblanked.getElem?_of hc
    · exact Or.inl hb
    · exact Or.inr hb

/-- A query with comments of both kinds, marks of both in a line comment and the start of a block
comment in a literal. -/
def commentedQuery : List Char :=
  "SELECT a -- all /* of */ '\n/* WHERE\n b */ FROM t -- '/*'\nWHERE b = '/*'".toList

/-- The comments of `commentedQuery` are blanked, its literal is not. -/
theorem blankComments_commentedQuery :
    clash? commentedQuery = none ∧
      blankComments commentedQuery = withoutComments commentedQuery ∧
      withoutComments commentedQuery =
        "SELECT a                  \n        \n      FROM t        \nWHERE b = '/*'".toList :=
  have hclash : clash? commentedQuery = none := by decide
  ⟨hclash, (blankComments_spec commentedQuery).2.2.2.2.1 hclash, by decide⟩

/-- Two dashes in a literal are blanked as a comment, and with them the rest of the statement. -/
theorem blankComments_dashes :
    blankComments "SELECT '--' AS dash FROM t".toList = "SELECT '                  ".toList ∧
      withoutComments "SELECT '--' AS dash FROM t".toList =
        "SELECT '--' AS dash FROM t".toList ∧
      clash? "SELECT '--' AS dash FROM t".toList = some (.literal '\'') := by
  decide

end Flowchart.Query
