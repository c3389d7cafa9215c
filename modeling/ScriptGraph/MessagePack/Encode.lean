import ScriptGraph.Bytes.Sha256
import ScriptGraph.Bytes.Utf8
import ScriptGraph.Value.Basic

/-!
# Writing MessagePack

Every value has a mark, for most shapes a length, and its bytes.  Integers, texts, lists and maps
are written in the shortest form.  How many values may lie inside one another depends on the packer,
and it may be fewer than can be read.
-/

namespace ScriptGraph.MessagePack

open Sha256 (bigEndian)

/-- Why a value cannot be written. -/
inductive PackError where
  /-- An integer needs more than 64 bits. -/
  | outOfRange
  /-- Too many values lie inside one another. -/
  | tooDeep
deriving DecidableEq

namespace PackError

def message : PackError → String
  | outOfRange => "Integer value out of range"
  | tooDeep => "recursion limit exceeded"

end PackError

def marked (mark : UInt8) (width n : Nat) : List UInt8 := mark :: bigEndian width n

def packInt (n : Int) : Except PackError (List UInt8) :=
  if 0 ≤ n then
    let m := n.toNat
    if m < 0x80 then .ok [UInt8.ofNat m]
    else if m < 0x100 then .ok (marked 0xcc 1 m)
    else if m < 0x10000 then .ok (marked 0xcd 2 m)
    else if m < 0x100000000 then .ok (marked 0xce 4 m)
    else if m < 0x10000000000000000 then .ok (marked 0xcf 8 m)
    else .error .outOfRange
  else if -0x20 ≤ n then .ok [UInt8.ofNat (n + 0x100).toNat]
  else if -0x80 ≤ n then .ok (marked 0xd0 1 (n + 0x100).toNat)
  else if -0x8000 ≤ n then .ok (marked 0xd1 2 (n + 0x10000).toNat)
  else if -0x80000000 ≤ n then .ok (marked 0xd2 4 (n + 0x100000000).toNat)
  else if -0x8000000000000000 ≤ n then .ok (marked 0xd3 8 (n + 0x10000000000000000).toNat)
  else .error .outOfRange

def textHead (size : Nat) : List UInt8 :=
  if size < 0x20 then [UInt8.ofNat (0xa0 + size)]
  else if size < 0x100 then marked 0xd9 1 size
  else if size < 0x10000 then marked 0xda 2 size
  else marked 0xdb 4 size

def packText (s : String) : List UInt8 :=
  let data := Utf8.encode s.toList
  textHead data.length ++ data

def packBytes (data : List UInt8) : List UInt8 :=
  let size := data.length
  (if size < 0x100 then marked 0xc4 1 size
    else if size < 0x10000 then marked 0xc5 2 size
    else marked 0xc6 4 size) ++ data

def listHead (size : Nat) : List UInt8 :=
  if size < 0x10 then [UInt8.ofNat (0x90 + size)]
  else if size < 0x10000 then marked 0xdc 2 size
  else marked 0xdd 4 size

def mapHead (size : Nat) : List UInt8 :=
  if size < 0x10 then [UInt8.ofNat (0x80 + size)]
  else if size < 0x10000 then marked 0xde 2 size
  else marked 0xdf 4 size

/-- A signed number in the given width. -/
def twosComplement (width : Nat) (n : Int) : List UInt8 :=
  bigEndian width (n % Nat.pow 256 width).toNat

def packExt (code : Int) (data : List UInt8) : List UInt8 :=
  let size := data.length
  (if size == 1 then [0xd4]
    else if size == 2 then [0xd5]
    else if size == 4 then [0xd6]
    else if size == 8 then [0xd7]
    else if size == 16 then [0xd8]
    else if size < 0x100 then marked 0xc7 1 size
    else if size < 0x10000 then marked 0xc8 2 size
    else marked 0xc9 4 size) ++ twosComplement 1 code ++ data

/-- The bytes of a point in time, in the shortest of three forms. -/
def timestampBytes (seconds : Int) (nanoseconds : Nat) : List UInt8 :=
  if 0 ≤ seconds ∧ seconds < 0x400000000 then
    let both := nanoseconds * 0x400000000 + seconds.toNat
    if both < 0x100000000 then bigEndian 4 both else bigEndian 8 both
  else bigEndian 4 nanoseconds ++ twosComplement 8 seconds

def packKey : Key → List UInt8
  | .text s => packText s
  | .bytes data => packBytes data

mutual

/-- Packs a value in which at most so many values lie inside one another. -/
def packWithin : Nat → Value → Except PackError (List UInt8)
  | 0, _ => .error .tooDeep
  | _ + 1, .null => .ok [0xc0]
  | _ + 1, .bool b => .ok [if b then 0xc3 else 0xc2]
  | _ + 1, .int n => packInt n
  | _ + 1, .float x => .ok (marked 0xcb 8 x.word.toNat)
  | _ + 1, .text s => .ok (packText s)
  | _ + 1, .bytes data => .ok (packBytes data)
  | _ + 1, .ext code data => .ok (packExt code data)
  | _ + 1, .timestamp seconds nanoseconds =>
      .ok (packExt (-1) (timestampBytes seconds nanoseconds))
  | room + 1, .list items => do
      let packed ← packItems room items
      .ok (listHead items.length ++ packed)
  | room + 1, .map entries => do
      let packed ← packEntries room entries
      .ok (mapHead entries.length ++ packed)

def packItems (room : Nat) : List Value → Except PackError (List UInt8)
  | [] => .ok []
  | item :: later => do
      let first ← packWithin room item
      let rest ← packItems room later
      .ok (first ++ rest)

def packEntries (room : Nat) : List (Key × Value) → Except PackError (List UInt8)
  | [] => .ok []
  | (key, value) :: later => do
      let first ← packWithin room value
      let rest ← packEntries room later
      .ok (packKey key ++ first ++ rest)

end

/-- A packer takes so many values inside one another, the outermost included; no packer takes fewer
than 512. -/
structure Packer where
  room : Nat
  room_ge : 512 ≤ room

/-- The packer that takes the fewest values inside one another. -/
def Packer.standard : Packer := ⟨512, Nat.le_refl 512⟩

def pack (packer : Packer) (v : Value) : Except PackError (List UInt8) := packWithin packer.room v

end ScriptGraph.MessagePack
