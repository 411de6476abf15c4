/-!
# UTF-8

Bytes of a text and back. `pieces` cuts any byte sequence into the characters it spells and the
*maximal ill-formed parts* between them: bytes that start a character which the next byte, or the
end, breaks off. The three ways of reading bytes differ only in what they do with an ill-formed
part: `decodeReplacing` writes one replacement character for it, `decodeSkipping` drops it, and
`decode` stops at the first one and says where and why.
-/

namespace Flowchart.Text.Utf8

/-- The bytes of a text. -/
def encode (cs : List Char) : List UInt8 := cs.flatMap String.utf8EncodeChar

/-- Why bytes spell no character. -/
inductive Defect where
  | badStart
  | badContinuation
  | unexpectedEnd
  deriving DecidableEq, Repr

/-- One part of a byte sequence. -/
inductive Piece where
  | char (c : Char)
  | illFormed (bytes : List UInt8) (defect : Defect)

/-- A character under way: its bytes so far, last first, how many continuation bytes are owed, the
interval the next one has to lie in, and the value of the bits read. -/
structure Pending where
  seen : List UInt8
  owed : Nat
  low : Nat
  high : Nat
  value : Nat

/-- What the first byte of a character leads to. -/
def start (b : UInt8) : Piece ⊕ Pending :=
  let n := b.toNat
  if n < 0x80 then .inl (.char (Char.ofNat n))
  else if n < 0xC2 then .inl (.illFormed [b] .badStart)
  else if n < 0xE0 then .inr ⟨[b], 1, 0x80, 0xBF, n - 0xC0⟩
  else if n < 0xF0 then
    .inr ⟨[b], 2, if n = 0xE0 then 0xA0 else 0x80, if n = 0xED then 0x9F else 0xBF, n - 0xE0⟩
  else if n < 0xF5 then
    .inr ⟨[b], 3, if n = 0xF0 then 0x90 else 0x80, if n = 0xF4 then 0x8F else 0xBF, n - 0xF0⟩
  else .inl (.illFormed [b] .badStart)

/-- The parts of a byte sequence, with a character under way or none. -/
def piecesFrom : Option Pending → List UInt8 → List Piece
  | none, [] => []
  | some p, [] => [.illFormed p.seen.reverse .unexpectedEnd]
  | none, b :: bs =>
    match start b with
    | .inl piece => piece :: piecesFrom none bs
    | .inr p => piecesFrom (some p) bs
  | some p, b :: bs =>
    if p.low ≤ b.toNat ∧ b.toNat ≤ p.high then
      let value := p.value * 64 + (b.toNat - 0x80)
      if p.owed ≤ 1 then .char (Char.ofNat value) :: piecesFrom none bs
      else piecesFrom (some ⟨b :: p.seen, p.owed - 1, 0x80, 0xBF, value⟩) bs
    else
      .illFormed p.seen.reverse .badContinuation ::
        match start b with
        | .inl piece => piece :: piecesFrom none bs
        | .inr q => piecesFrom (some q) bs

/-- The parts of a byte sequence. -/
def pieces (bytes : List UInt8) : List Piece := piecesFrom none bytes

/-- The text of the bytes, with `U+FFFD` for every ill-formed part. -/
def decodeReplacing (bytes : List UInt8) : List Char :=
  (pieces bytes).map fun
    | .char c => c
    | .illFormed _ _ => '\uFFFD'

/-- The text of the bytes without their ill-formed parts. -/
def decodeSkipping (bytes : List UInt8) : List Char :=
  (pieces bytes).filterMap fun
    | .char c => some c
    | .illFormed _ _ => none

/-- An ill-formed part: its first offset, its bytes and the defect. -/
structure Fault where
  offset : Nat
  bytes : List UInt8
  defect : Defect

/-- Reads parts that start at byte `offset`, up to the first ill-formed one. -/
def decodeFrom : (offset : Nat) → List Piece → Except Fault (List Char)
  | _, [] => .ok []
  | offset, .char c :: rest => (decodeFrom (offset + c.utf8Size) rest).map (c :: ·)
  | offset, .illFormed bytes defect :: _ => .error ⟨offset, bytes, defect⟩

/-- The text of the bytes, or the first ill-formed part. -/
def decode (bytes : List UInt8) : Except Fault (List Char) := decodeFrom 0 (pieces bytes)

/-- A byte as two hexadecimal digits. -/
def hexByte (b : UInt8) : String :=
  String.ofList [Nat.digitChar (b.toNat / 16), Nat.digitChar (b.toNat % 16)]

/-- What a defect is called in messages. -/
def Defect.message : Defect → String
  | .badStart => "invalid start byte"
  | .badContinuation => "invalid continuation byte"
  | .unexpectedEnd => "unexpected end of data"

/-- The message for an ill-formed part: one byte is shown, more are given by their offsets. -/
def Fault.message (f : Fault) : String :=
  let place := match f.bytes with
    | [b] => "byte 0x" ++ hexByte b ++ " in position " ++ toString f.offset
    | bytes => "bytes in position " ++ toString f.offset ++ "-" ++
        toString (f.offset + bytes.length - 1)
  "'utf-8' codec can't decode " ++ place ++ ": " ++ f.defect.message

end Flowchart.Text.Utf8
