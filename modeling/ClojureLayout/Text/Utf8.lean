import ClojureLayout.Decimal.Integer

/-!
# Reading UTF-8

Bytes are read as the characters they encode, up to the first fault. Two kinds of fault are kept
apart: bytes that no continuation can mend (`Ending.invalid`) and a sequence that the end of the
data cuts short (`Ending.truncated`), which is a fault only once it is known that nothing follows.
-/

namespace ClojureLayout.Text.Utf8

/-- Why a sequence of bytes encodes no character. -/
inductive Reason where
  | startByte
  | continuationByte
  | endOfData
deriving DecidableEq

/-- The wording of a reason. -/
def Reason.text : Reason → String
  | .startByte => "invalid start byte"
  | .continuationByte => "invalid continuation byte"
  | .endOfData => "unexpected end of data"

/-- A faulty sequence: its first byte, where it starts, how many bytes it has and what is wrong. -/
structure Fault where
  byte : UInt8
  position : Nat
  length : Nat
  reason : Reason
deriving DecidableEq

/-- A byte as two hexadecimal digits. -/
def hexByte (b : UInt8) : String :=
  String.ofList [(b.toNat / 16).digitChar, (b.toNat % 16).digitChar]

/-- The wording of a fault; one byte is named by its value, several only by their places. -/
def Fault.message (f : Fault) : String :=
  let place :=
    if f.length ≤ 1 then
      "byte 0x" ++ hexByte f.byte ++ " in position " ++ Decimal.ofNat f.position
    else
      "bytes in position " ++ Decimal.ofNat f.position ++ "-" ++
        Decimal.ofNat (f.position + f.length - 1)
  "'utf-8' codec can't decode " ++ place ++ ": " ++ f.reason.text

/-- How the reading of some bytes ended. -/
inductive Ending where
  | complete
  | truncated (position : Nat) (first : UInt8) (length : Nat)
  | invalid (fault : Fault)
deriving DecidableEq

/-- The characters read and how the reading ended. -/
structure Decoded where
  chars : List Char
  ending : Ending

/-- One more character in front. -/
def Decoded.cons (c : Char) (d : Decoded) : Decoded := { d with chars := c :: d.chars }

/-- A byte that can follow the first byte of a sequence. -/
def isContinuation (b : UInt8) : Bool := decide (0x80 ≤ b.toNat) && decide (b.toNat < 0xC0)

/-- A byte that can follow `first` directly: a continuation byte by which the sequence is neither
    longer than it need be, nor a surrogate, nor beyond the last code point. -/
def isSecond (first second : UInt8) : Bool :=
  isContinuation second &&
    (first.toNat != 0xE0 || decide (0xA0 ≤ second.toNat)) &&
    (first.toNat != 0xED || decide (second.toNat < 0xA0)) &&
    (first.toNat != 0xF0 || decide (0x90 ≤ second.toNat)) &&
    (first.toNat != 0xF4 || decide (second.toNat < 0x90))

/-- The six bits that a continuation byte carries. -/
def payload (b : UInt8) : Nat := b.toNat % 64

/-- The ending at a sequence whose first `length` bytes are fine and whose next byte is not. -/
def badContinuation (position : Nat) (first : UInt8) (length : Nat) : Decoded :=
  ⟨[], .invalid ⟨first, position, length, .continuationByte⟩⟩

/-- The ending at a sequence of which the data holds only the first `length` bytes. -/
def cutShort (position : Nat) (first : UInt8) (length : Nat) : Decoded :=
  ⟨[], .truncated position first length⟩

/-- The characters that the bytes encode, the first byte standing at `position`. -/
def decodeFrom (position : Nat) : List UInt8 → Decoded
  | [] => ⟨[], .complete⟩
  | a :: rest =>
    if a.toNat < 0x80 then (decodeFrom (position + 1) rest).cons (Char.ofNat a.toNat)
    else if a.toNat < 0xC2 ∨ 0xF4 < a.toNat then ⟨[], .invalid ⟨a, position, 1, .startByte⟩⟩
    else
      match rest with
      | [] => cutShort position a 1
      | b :: rest =>
        if !isSecond a b then badContinuation position a 1
        else if a.toNat < 0xE0 then
          (decodeFrom (position + 2) rest).cons (Char.ofNat (a.toNat % 32 * 64 + payload b))
        else
          match rest with
          | [] => cutShort position a 2
          | c :: rest =>
            if !isContinuation c then badContinuation position a 2
            else if a.toNat < 0xF0 then
              (decodeFrom (position + 3) rest).cons
                (Char.ofNat ((a.toNat % 16 * 64 + payload b) * 64 + payload c))
            else
              match rest with
              | [] => cutShort position a 3
              | d :: rest =>
                if !isContinuation d then badContinuation position a 3
                else
                  (decodeFrom (position + 4) rest).cons
                    (Char.ofNat
                      (((a.toNat % 8 * 64 + payload b) * 64 + payload c) * 64 + payload d))

/-- The text that a complete piece of data encodes, or its first fault. -/
def decode (bytes : List UInt8) : Except Fault (List Char) :=
  match decodeFrom 0 bytes with
  | ⟨cs, .complete⟩ => .ok cs
  | ⟨_, .truncated position first length⟩ => .error ⟨first, position, length, .endOfData⟩
  | ⟨_, .invalid fault⟩ => .error fault

end ClojureLayout.Text.Utf8
