import ScriptGraph.Bytes.Utf8
import ScriptGraph.Entries
import ScriptGraph.Value.Basic

/-!
# Reading MessagePack

Bytes are read as one value, and nothing may follow it.  The keys of a map must be texts or bytes;
of equal keys the last one counts, in the place of the first.
-/

namespace ScriptGraph.MessagePack

/-- The number of lists and maps that may lie inside one another. -/
def nestingLimit : Nat := 1024

/-- A reader: a result and the bytes after it, or nothing if there is no result. -/
abbrev Reader (α : Type) := List UInt8 → Option (α × List UInt8)

/-- The number of the given bytes, the highest first. -/
def number (bytes : List UInt8) : Nat := bytes.foldl (fun n b => n * 256 + b.toNat) 0

def take (count : Nat) : Reader (List UInt8) := fun bytes =>
  let data := bytes.take count
  if data.length = count then some (data, bytes.drop count) else none

def unsigned (width : Nat) : Reader Nat := fun bytes =>
  (take width bytes).map fun (data, rest) => (number data, rest)

/-- A number of the given width as a signed one. -/
def toSigned (width n : Nat) : Int :=
  if n < Nat.pow 2 (8 * width - 1) then n else (n : Int) - Nat.pow 2 (8 * width)

def text (size : Nat) : Reader String := fun bytes => do
  let (data, rest) ← take size bytes
  let chars ← Utf8.decode? data
  some (String.ofList chars, rest)

/-- The double with the value of a float of 32 bits. -/
def widen (word : Nat) : Double :=
  let sign := word / 0x80000000
  let exponent := word / 0x800000 % 0x100
  let fraction := word % 0x800000
  let negative := sign == 1
  if exponent == 255 then
    -- an infinity, or a NaN, which becomes a quiet one
    let quiet := if fraction == 0 then 0 else 0x8000000000000
    let low := fraction * 0x20000000 % 0x8000000000000
    ⟨UInt64.ofNat (sign * 0x8000000000000000 + 2047 * 0x10000000000000 + quiet + low)⟩
  else if exponent == 0 then Double.ofFraction negative fraction (Nat.pow 2 149)
  else Double.ofFraction negative ((0x800000 + fraction) * Nat.pow 2 exponent) (Nat.pow 2 150)

/-- An extension; the code -1 stands for a point in time, and the other codes below zero for
nothing. -/
def extension (code : Int) (data : List UInt8) : Option Value :=
  if 0 ≤ code then some (.ext code data)
  else if code ≠ -1 then none
  else
    match data.length with
    | 4 => some (.timestamp (number data) 0)
    | 8 =>
        let both := number data
        time (both % 0x400000000) (both / 0x400000000)
    | 12 => time (toSigned 8 (number (data.drop 4))) (number (data.take 4))
    | _ => none
where
  /-- A point in time, if the nanoseconds are less than a second. -/
  time (seconds : Int) (nanoseconds : Nat) : Option Value :=
    if nanoseconds < 1000000000 then some (.timestamp seconds nanoseconds) else none

def readExtension (size : Nat) : Reader Value := fun bytes => do
  let (code, rest) ← unsigned 1 bytes
  let (data, rest) ← take size rest
  let value ← extension (toSigned 1 code) data
  some (value, rest)

def readMany {α : Type} (read : Reader α) : Nat → Reader (List α)
  | 0, bytes => some ([], bytes)
  | count + 1, bytes => do
      let (item, rest) ← read bytes
      let (later, rest) ← readMany read count rest
      some (item :: later, rest)

def keyOf? : Value → Option Key
  | .text s => some (.text s)
  | .bytes data => some (.bytes data)
  | _ => none

def readEntry (read : Reader Value) : Reader (Key × Value) := fun bytes => do
  let (key, rest) ← read bytes
  let key ← keyOf? key
  let (value, rest) ← read rest
  some ((key, value), rest)

/-- Reads the items of a list, unless it lies too deep. -/
def readList (inner : Option (Reader Value)) (count : Nat) : Reader Value := fun bytes =>
  match inner with
  | none => none
  | some read => (readMany read count bytes).map fun (items, rest) => (.list items, rest)

/-- Reads the entries of a map, unless it lies too deep. -/
def readMap (inner : Option (Reader Value)) (count : Nat) : Reader Value := fun bytes =>
  match inner with
  | none => none
  | some read =>
      (readMany (readEntry read) count bytes).map fun (entries, rest) =>
        (.map (Entries.ofList entries), rest)

/-- Reads a value after its mark; `inner` reads what lies inside a list or a map, where there may be
one. -/
def readMarked (inner : Option (Reader Value)) (mark : Nat) : Reader Value := fun bytes =>
  let withSize (width : Nat) (read : Nat → Reader Value) : Option (Value × List UInt8) := do
    let (size, rest) ← unsigned width bytes
    read size rest
  let asText (size : Nat) : Reader Value := fun rest =>
    (text size rest).map fun (s, rest) => (.text s, rest)
  let asBytes (size : Nat) : Reader Value := fun rest =>
    (take size rest).map fun (data, rest) => (.bytes data, rest)
  let asUnsigned (width : Nat) := (unsigned width bytes).map fun (n, rest) => (Value.int n, rest)
  let asSigned (width : Nat) :=
    (unsigned width bytes).map fun (n, rest) => (Value.int (toSigned width n), rest)
  if mark < 0x80 then some (.int mark, bytes)
  else if mark < 0x90 then readMap inner (mark - 0x80) bytes
  else if mark < 0xa0 then readList inner (mark - 0x90) bytes
  else if mark < 0xc0 then asText (mark - 0xa0) bytes
  else if 0xe0 ≤ mark then some (.int ((mark : Int) - 0x100), bytes)
  else
    match mark with
    | 0xc0 => some (.null, bytes)
    | 0xc2 => some (.bool false, bytes)
    | 0xc3 => some (.bool true, bytes)
    | 0xc4 => withSize 1 asBytes
    | 0xc5 => withSize 2 asBytes
    | 0xc6 => withSize 4 asBytes
    | 0xc7 => withSize 1 readExtension
    | 0xc8 => withSize 2 readExtension
    | 0xc9 => withSize 4 readExtension
    | 0xca => (unsigned 4 bytes).map fun (n, rest) => (.float (widen n), rest)
    | 0xcb => (unsigned 8 bytes).map fun (n, rest) => (.float ⟨UInt64.ofNat n⟩, rest)
    | 0xcc => asUnsigned 1
    | 0xcd => asUnsigned 2
    | 0xce => asUnsigned 4
    | 0xcf => asUnsigned 8
    | 0xd0 => asSigned 1
    | 0xd1 => asSigned 2
    | 0xd2 => asSigned 4
    | 0xd3 => asSigned 8
    | 0xd4 => readExtension 1 bytes
    | 0xd5 => readExtension 2 bytes
    | 0xd6 => readExtension 4 bytes
    | 0xd7 => readExtension 8 bytes
    | 0xd8 => readExtension 16 bytes
    | 0xd9 => withSize 1 asText
    | 0xda => withSize 2 asText
    | 0xdb => withSize 4 asText
    | 0xdc => withSize 2 (readList inner)
    | 0xdd => withSize 4 (readList inner)
    | 0xde => withSize 2 (readMap inner)
    | 0xdf => withSize 4 (readMap inner)
    | _ => none

/-- Reads a value at a place where so many lists and maps may still be opened. -/
def readValue : Nat → Reader Value
  | _, [] => none
  | 0, mark :: rest => readMarked none mark.toNat rest
  | nesting + 1, mark :: rest => readMarked (some (readValue nesting)) mark.toNat rest

def unpack? (bytes : List UInt8) : Option Value :=
  match readValue nestingLimit bytes with
  | some (value, []) => some value
  | _ => none

end ScriptGraph.MessagePack
