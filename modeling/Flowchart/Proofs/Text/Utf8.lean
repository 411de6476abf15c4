import Flowchart.Text.Utf8
import Mathlib.Tactic.SplitIfs

/-!
# Parts of encoded texts

A text that is cut between its bytes may be cut through a character. Reading the bytes up to a place
gives the characters that end before it (`decodeSkipping_take_encode`): what is left of a character
that the cut goes through is one ill-formed part. For bytes of any kind, more of them spell no fewer
characters (`length_decodeReplacing_take_le`).

## Main results

* `decodeSkipping_take_encode`: the bytes up to a place spell the characters that end before it.
* `length_decodeReplacing_take_le`: more bytes spell no fewer characters.
-/

namespace Flowchart.Text.Utf8

/-! ### Numbers of characters -/

/-- Bytes with a character under way make at least one piece. -/
theorem length_piecesFrom_some_pos (p : Pending) (bytes : List UInt8) :
    0 < (piecesFrom (some p) bytes).length := by
  induction bytes generalizing p with
  | nil => exact Nat.one_pos
  | cons b bytes ih =>
      rw [piecesFrom]
      split_ifs
      · exact Nat.succ_pos _
      · exact ih _
      · exact Nat.succ_pos _

/-- More bytes make no fewer pieces. -/
theorem length_piecesFrom_append_le (state : Option Pending) (bytes more : List UInt8) :
    (piecesFrom state bytes).length ≤ (piecesFrom state (bytes ++ more)).length := by
  induction bytes generalizing state with
  | nil =>
      cases state with
      | none => exact Nat.zero_le _
      | some p => exact length_piecesFrom_some_pos p more
  | cons b bytes ih =>
      have hstart : (piecesFrom none (b :: bytes)).length ≤
          (piecesFrom none (b :: (bytes ++ more))).length := by
        rw [piecesFrom, piecesFrom]
        cases start b with
        | inl piece => exact Nat.succ_le_succ (ih none)
        | inr q => exact ih (some q)
      rw [List.cons_append]
      cases state with
      | none => exact hstart
      | some p =>
          rw [piecesFrom, piecesFrom] at hstart
          rw [piecesFrom, piecesFrom]
          split_ifs
          · exact Nat.succ_le_succ (ih none)
          · exact ih _
          · exact Nat.succ_le_succ hstart

/-- More bytes spell no fewer characters. -/
theorem length_decodeReplacing_take_le (bytes : List UInt8) {m n : Nat} (h : m ≤ n) :
    (decodeReplacing (bytes.take m)).length ≤ (decodeReplacing (bytes.take n)).length := by
  obtain ⟨more, hmore⟩ := List.take_prefix_take_left h (l := bytes)
  rw [decodeReplacing, decodeReplacing, List.length_map, List.length_map, ← hmore]
  exact length_piecesFrom_append_le none _ more

/-! ### Encoded characters -/

/-- The bytes `bytes` complete the character `c`, which is under way. -/
inductive Completes (c : Char) : Pending → List UInt8 → Prop
  | last {p : Pending} {n : Nat} : n < 256 → p.low ≤ n → n ≤ p.high → p.owed = 1 →
      p.value * 64 + (n - 0x80) = c.toNat → Completes c p [UInt8.ofNat n]
  | more {p : Pending} {n : Nat} {bytes : List UInt8} : n < 256 → p.low ≤ n → n ≤ p.high →
      1 < p.owed →
      Completes c ⟨UInt8.ofNat n :: p.seen, p.owed - 1, 0x80, 0xBF, p.value * 64 + (n - 0x80)⟩
        bytes →
      Completes c p (UInt8.ofNat n :: bytes)

/-- A number below 256 is a byte. -/
theorem toNat_ofNat {n : Nat} (h : n < 256) : (UInt8.ofNat n).toNat = n :=
  UInt8.toNat_ofNat_of_lt' h

/-- A byte that a character under way may go on with. -/
theorem piecesFrom_some_cons {p : Pending} {n : Nat} (hn : n < 256) (hlow : p.low ≤ n)
    (hhigh : n ≤ p.high) (bytes : List UInt8) :
    piecesFrom (some p) (UInt8.ofNat n :: bytes) =
      if p.owed ≤ 1 then .char (Char.ofNat (p.value * 64 + (n - 0x80))) :: piecesFrom none bytes
      else
        piecesFrom (some ⟨UInt8.ofNat n :: p.seen, p.owed - 1, 0x80, 0xBF,
          p.value * 64 + (n - 0x80)⟩) bytes := by
  rw [piecesFrom, toNat_ofNat hn, if_pos ⟨hlow, hhigh⟩]

section Completing

variable {c : Char} {p : Pending} {bytes : List UInt8}

/-- The bytes that complete a character spell it, whatever follows. -/
theorem Completes.piecesFrom_append (h : Completes c p bytes) (rest : List UInt8) :
    piecesFrom (some p) (bytes ++ rest) = .char c :: piecesFrom none rest := by
  induction h with
  | last hn hlow hhigh howed hvalue =>
      rw [List.singleton_append, piecesFrom_some_cons hn hlow hhigh, if_pos (Nat.le_of_eq howed), hvalue,
        Char.ofNat_toNat]
  | more hn hlow hhigh howed _ ih =>
      rw [List.cons_append, piecesFrom_some_cons hn hlow hhigh, if_neg (by omega), ih]

/-- Without the last of its bytes a character is one ill-formed part. -/
theorem Completes.piecesFrom_take (h : Completes c p bytes) {n : Nat} (hn : n < bytes.length) :
    ∃ seen defect, piecesFrom (some p) (bytes.take n) = [.illFormed seen defect] := by
  induction h generalizing n with
  | last =>
      obtain rfl : n = 0 := by simpa using hn
      exact ⟨_, _, rfl⟩
  | more hbyte hlow hhigh howed _ ih =>
      cases n with
      | zero => exact ⟨_, _, rfl⟩
      | succ n =>
          rw [List.take_succ_cons, piecesFrom_some_cons hbyte hlow hhigh, if_neg (by omega)]
          exact ih (Nat.lt_of_succ_lt_succ hn)

end Completing

section Starting

variable {n : Nat}

/-- A byte below 128 is a character. -/
theorem start_ofNat_one (h : n < 0x80) : start (UInt8.ofNat n) = .inl (.char (Char.ofNat n)) := by
  rw [start, toNat_ofNat (by omega), if_pos h]

/-- The first byte of two. -/
theorem start_ofNat_two (h : 0xC2 ≤ n) (h' : n < 0xE0) :
    start (UInt8.ofNat n) = .inr ⟨[UInt8.ofNat n], 1, 0x80, 0xBF, n - 0xC0⟩ := by
  rw [start, toNat_ofNat (by omega), if_neg (by omega), if_neg (by omega), if_pos h']

/-- The first byte of three, with the bounds of the second one. -/
theorem start_ofNat_three (h : 0xE0 ≤ n) (h' : n < 0xF0) :
    start (UInt8.ofNat n) = .inr ⟨[UInt8.ofNat n], 2, if n = 0xE0 then 0xA0 else 0x80,
      if n = 0xED then 0x9F else 0xBF, n - 0xE0⟩ := by
  rw [start, toNat_ofNat (by omega), if_neg (by omega), if_neg (by omega),
    if_neg (by omega), if_pos h']

/-- The first byte of four, with the bounds of the second one. -/
theorem start_ofNat_four (h : 0xF0 ≤ n) (h' : n < 0xF5) :
    start (UInt8.ofNat n) = .inr ⟨[UInt8.ofNat n], 3, if n = 0xF0 then 0x90 else 0x80,
      if n = 0xF4 then 0x8F else 0xBF, n - 0xF0⟩ := by
  rw [start, toNat_ofNat (by omega), if_neg (by omega), if_neg (by omega),
    if_neg (by omega), if_neg (by omega), if_pos h']

end Starting

/-- The first byte of an encoded character spells it, or starts it and the others complete it. -/
theorem exists_completes (c : Char) :
    (∃ b, String.utf8EncodeChar c = [b] ∧ start b = .inl (.char c)) ∨
      ∃ b p bytes, String.utf8EncodeChar c = b :: bytes ∧ start b = .inr p ∧
        Completes c p bytes := by
  have hvalid : c.toNat < 0xD800 ∨ 0xDFFF < c.toNat ∧ c.toNat < 0x110000 := c.valid
  have hval : c.val.toNat = c.toNat := rfl
  rw [String.utf8EncodeChar, hval]
  split_ifs with h1 h2 h3
  · refine Or.inl ⟨_, rfl, ?_⟩
    rw [start_ofNat_one (by omega), Char.ofNat_toNat]
  · refine Or.inr ⟨_, _, _, rfl, start_ofNat_two (by omega) (by omega), ?_⟩
    refine .last (by omega) ?_ ?_ rfl ?_ <;> dsimp only <;> omega
  · refine Or.inr ⟨_, _, _, rfl, start_ofNat_three (by omega) (by omega), ?_⟩
    -- the bounds of the second byte rule out overlong spellings and surrogates
    refine .more (by omega) (by dsimp only; split_ifs <;> omega)
      (by dsimp only; split_ifs <;> omega) (Nat.lt_succ_self 1) ?_
    refine .last (by omega) ?_ ?_ rfl ?_ <;> dsimp only <;> omega
  · refine Or.inr ⟨_, _, _, rfl, start_ofNat_four (by omega) (by omega), ?_⟩
    refine .more (by omega) (by dsimp only; split_ifs <;> omega)
      (by dsimp only; split_ifs <;> omega) (Nat.succ_lt_succ Nat.two_pos) ?_
    refine .more (by omega) ?_ ?_ (Nat.lt_succ_self 1) (.last (by omega) ?_ ?_ rfl ?_) <;>
      dsimp only <;> omega

/-- An encoded character is read as it is, whatever follows. -/
theorem piecesFrom_utf8EncodeChar (c : Char) (rest : List UInt8) :
    piecesFrom none (String.utf8EncodeChar c ++ rest) = .char c :: piecesFrom none rest := by
  rcases exists_completes c with ⟨b, hb, hstart⟩ | ⟨b, p, bytes, hb, hstart, hcompletes⟩
  · rw [hb, List.singleton_append, piecesFrom, hstart]
  · rw [hb, List.cons_append, piecesFrom, hstart]
    exact hcompletes.piecesFrom_append rest

/-- A character that is cut is dropped. -/
theorem decodeSkipping_take_utf8EncodeChar (c : Char) {n : Nat}
    (h : n < (String.utf8EncodeChar c).length) :
    decodeSkipping ((String.utf8EncodeChar c).take n) = [] := by
  cases n with
  | zero => rfl
  | succ n =>
      rcases exists_completes c with ⟨b, hb, -⟩ | ⟨b, p, bytes, hb, hstart, hcompletes⟩
      · rw [hb] at h
        exact absurd h (by simp)
      · rw [hb] at h ⊢
        obtain ⟨seen, defect, hpieces⟩ := hcompletes.piecesFrom_take (Nat.lt_of_succ_lt_succ h)
        rw [List.take_succ_cons, decodeSkipping, pieces, piecesFrom, hstart]
        dsimp only
        rw [hpieces]
        rfl

/-- The characters of a text that end before the byte `n`. -/
def charsBefore : (n : Nat) → List Char → List Char
  | _, [] => []
  | n, c :: cs => if c.utf8Size ≤ n then c :: charsBefore (n - c.utf8Size) cs else []

/-- Reading the bytes before a place gives the characters that end before it. -/
theorem decodeSkipping_take_encode (n : Nat) (cs : List Char) :
    decodeSkipping ((encode cs).take n) = charsBefore n cs := by
  induction cs generalizing n with
  | nil => cases n <;> rfl
  | cons c cs ih =>
      have hlength := String.length_utf8EncodeChar c
      rw [encode, List.flatMap_cons, ← encode, charsBefore]
      split_ifs with hle
      · rw [List.take_append, List.take_of_length_le (hlength ▸ hle), hlength,
          decodeSkipping, pieces, piecesFrom_utf8EncodeChar]
        exact congrArg (c :: ·) (ih _)
      · have hlt : n < (String.utf8EncodeChar c).length := by omega
        rw [List.take_append_of_le_length (Nat.le_of_lt hlt)]
        exact decodeSkipping_take_utf8EncodeChar c hlt

end Flowchart.Text.Utf8
