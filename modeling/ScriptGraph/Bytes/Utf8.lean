/-!
# UTF-8

A character is one to four bytes.  Bytes that are no character are refused, or read as replacement
characters: one for every longest piece that begins a character and breaks off.
-/

namespace ScriptGraph.Utf8

/-- The character that stands for what cannot be read. -/
def replacement : Char := '�'

/-- A byte after the first one of a character, with the given six bits. -/
def trailing (bits : Nat) : UInt8 := UInt8.ofNat (0x80 + bits % 64)

def encodeChar (c : Char) : List UInt8 :=
  let n := c.toNat
  if n < 0x80 then [UInt8.ofNat n]
  else if n < 0x800 then [UInt8.ofNat (0xc0 + n / 64), trailing n]
  else if n < 0x10000 then [UInt8.ofNat (0xe0 + n / 4096), trailing (n / 64), trailing n]
  else [UInt8.ofNat (0xf0 + n / 262144), trailing (n / 4096), trailing (n / 64), trailing n]

def encode (text : List Char) : List UInt8 := text.flatMap encodeChar

/-- What a first byte of several asks for. -/
structure Lead where
  /-- The bits of the code point in the first byte. -/
  bits : Nat
  /-- The least second byte. -/
  least : Nat
  /-- The greatest second byte. -/
  greatest : Nat
  /-- The number of bytes after the second. -/
  further : Nat

/-- What a byte asks for as the first of several.  The bounds of the second byte leave out longer
forms than needed, surrogates and what lies beyond the last character. -/
def lead? (first : Nat) : Option Lead :=
  if first < 0xc2 then none
  else if first < 0xe0 then some ⟨first % 32, 0x80, 0xbf, 0⟩
  else if first == 0xe0 then some ⟨first % 16, 0xa0, 0xbf, 1⟩
  else if first == 0xed then some ⟨first % 16, 0x80, 0x9f, 1⟩
  else if first < 0xf0 then some ⟨first % 16, 0x80, 0xbf, 1⟩
  else if first == 0xf0 then some ⟨first % 8, 0x90, 0xbf, 2⟩
  else if first < 0xf4 then some ⟨first % 8, 0x80, 0xbf, 2⟩
  else if first == 0xf4 then some ⟨first % 8, 0x80, 0x8f, 2⟩
  else none

/-- Reads the remaining bytes of a character: the code point, if all are there, and the rest. -/
def further : Nat → Nat → List UInt8 → Option Nat × List UInt8
  | 0, code, bytes => (some code, bytes)
  | _ + 1, _, [] => (none, [])
  | n + 1, code, b :: rest =>
      if 0x80 ≤ b.toNat && b.toNat ≤ 0xbf then further n (code * 64 + b.toNat % 64) rest
      else (none, b :: rest)

/-- Reads a character after its first byte: the character, if there is one, and the rest. -/
def next (first : UInt8) (rest : List UInt8) : Option Char × List UInt8 :=
  if first.toNat < 0x80 then (some (Char.ofNat first.toNat), rest)
  else
    match lead? first.toNat, rest with
    | some lead, b :: later =>
        if lead.least ≤ b.toNat && b.toNat ≤ lead.greatest then
          let (code, left) := further lead.further (lead.bits * 64 + b.toNat % 64) later
          (code.map Char.ofNat, left)
        else (none, b :: later)
    | _, _ => (none, rest)

theorem length_further_le (n code : Nat) (bytes : List UInt8) :
    (further n code bytes).2.length ≤ bytes.length := by
  fun_induction further n code bytes with
  | case1 => simp
  | case2 => simp
  | case3 n code b rest _ ih => simp; omega
  | case4 => simp

theorem length_next_le (first : UInt8) (rest : List UInt8) :
    (next first rest).2.length ≤ rest.length := by
  unfold next
  split
  · simp
  · split
    · rename_i lead b later _
      split
      · have := length_further_le lead.further (lead.bits * 64 + b.toNat % 64) later
        simp
        omega
      · simp
    · simp

/-- The text of bytes, with replacement characters for what is no character. -/
def decodeLossy (bytes : List UInt8) : List Char :=
  match bytes with
  | [] => []
  | first :: rest =>
      let step := next first rest
      step.1.getD replacement :: decodeLossy step.2
termination_by bytes.length
decreasing_by have := length_next_le first rest; simp; omega

/-- The text of bytes that are all characters. -/
def decode? (bytes : List UInt8) : Option (List Char) :=
  match bytes with
  | [] => some []
  | first :: rest =>
      let step := next first rest
      match step.1 with
      | none => none
      | some c => (decode? step.2).map (c :: ·)
termination_by bytes.length
decreasing_by have := length_next_le first rest; simp; omega

end ScriptGraph.Utf8
