import ScriptGraph.Bytes.Utf8

/-!
# UTF-16

A character is one unit of two bytes, or two of them: a high and a low surrogate.  A surrogate
without its partner is read as a replacement character, and so is a unit or a pair that breaks off
at the end.
-/

namespace ScriptGraph.Utf16

inductive ByteOrder where
  | littleEndian
  | bigEndian
deriving DecidableEq

namespace ByteOrder

def unit (order : ByteOrder) (a b : UInt8) : Nat :=
  match order with
  | littleEndian => b.toNat * 256 + a.toNat
  | bigEndian => a.toNat * 256 + b.toNat

def bytes (order : ByteOrder) (unit : Nat) : List UInt8 :=
  let high := UInt8.ofNat (unit / 256)
  let low := UInt8.ofNat (unit % 256)
  match order with
  | littleEndian => [low, high]
  | bigEndian => [high, low]

end ByteOrder

def isHigh (unit : Nat) : Bool := 0xd800 ≤ unit && unit < 0xdc00

def isLow (unit : Nat) : Bool := 0xdc00 ≤ unit && unit < 0xe000

def ofPair (high low : Nat) : Char :=
  Char.ofNat (0x10000 + (high - 0xd800) * 0x400 + (low - 0xdc00))

def units (c : Char) : List Nat :=
  let n := c.toNat
  if n < 0x10000 then [n]
  else [0xd800 + (n - 0x10000) / 0x400, 0xdc00 + (n - 0x10000) % 0x400]

def encode (order : ByteOrder) (text : List Char) : List UInt8 :=
  text.flatMap fun c => (units c).flatMap order.bytes

/-- The text of bytes, with replacement characters for what is no character. -/
def decodeLossy (order : ByteOrder) : List UInt8 → List Char
  | [] => []
  | [_] => [Utf8.replacement]
  | a :: b :: rest =>
      let unit := order.unit a b
      if isHigh unit then
        match rest with
        | c :: d :: later =>
            let second := order.unit c d
            if isLow second then ofPair unit second :: decodeLossy order later
            else Utf8.replacement :: decodeLossy order (c :: d :: later)
        | _ => [Utf8.replacement]
      else if isLow unit then Utf8.replacement :: decodeLossy order rest
      else Char.ofNat unit :: decodeLossy order rest

end ScriptGraph.Utf16
