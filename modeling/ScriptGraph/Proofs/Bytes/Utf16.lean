import ScriptGraph.Bytes.Utf16
import ScriptGraph.Proofs.Bytes.Utf8

/-!
# Decoding units of two bytes

A character is written as one unit that is no surrogate, or as a high surrogate and a low one.  In
either order of the bytes its units are read as this character, whatever follows them, so the bytes
of a text are read as the text.
-/

namespace ScriptGraph.Utf16

theorem exists_bytes_eq (order : ByteOrder) {unit : Nat} (h : unit < 0x10000) :
    ∃ a b, order.bytes unit = [a, b] ∧ order.unit a b = unit := by
  have hhigh : (UInt8.ofNat (unit / 256)).toNat = unit / 256 := Utf8.toNat_byte (by omega)
  have hlow : (UInt8.ofNat (unit % 256)).toNat = unit % 256 := Utf8.toNat_byte (by omega)
  cases order with
  | littleEndian =>
      refine ⟨_, _, rfl, ?_⟩
      rw [ByteOrder.unit, hhigh, hlow]
      omega
  | bigEndian =>
      refine ⟨_, _, rfl, ?_⟩
      rw [ByteOrder.unit, hhigh, hlow]
      omega

theorem decodeLossy_unit (order : ByteOrder) {unit : Nat} (h : unit < 0x10000)
    (hhigh : isHigh unit = false) (hlow : isLow unit = false) (rest : List UInt8) :
    decodeLossy order (order.bytes unit ++ rest) = Char.ofNat unit :: decodeLossy order rest := by
  obtain ⟨a, b, hbytes, hunit⟩ := exists_bytes_eq order h
  rw [hbytes, List.cons_append, List.cons_append, List.nil_append, decodeLossy.eq_def]
  simp only [hunit, hhigh, hlow, Bool.false_eq_true, if_false]

theorem decodeLossy_pair (order : ByteOrder) {high low : Nat} (hhigh : isHigh high = true)
    (hlow : isLow low = true) (rest : List UInt8) :
    decodeLossy order (order.bytes high ++ (order.bytes low ++ rest)) =
      ofPair high low :: decodeLossy order rest := by
  have hbounds : high < 0x10000 ∧ low < 0x10000 := by
    simp only [isHigh, isLow, Bool.and_eq_true, decide_eq_true_eq] at hhigh hlow
    omega
  obtain ⟨a, b, hbytes, hunit⟩ := exists_bytes_eq order hbounds.1
  obtain ⟨c, d, hbytes', hunit'⟩ := exists_bytes_eq order hbounds.2
  rw [hbytes, hbytes']
  simp only [List.cons_append, List.nil_append, decodeLossy, hunit, hunit', hhigh, hlow, if_true]

/-- The units of a character are read as the character, whatever follows them. -/
theorem decodeLossy_units (order : ByteOrder) (c : Char) (rest : List UInt8) :
    decodeLossy order ((units c).flatMap order.bytes ++ rest) = c :: decodeLossy order rest := by
  have hvalid := Utf8.toNat_valid c
  have hchar : Char.ofNat c.toNat = c := Char.ofNat_toNat c
  unfold units
  dsimp only
  generalize c.toNat = n at hvalid hchar
  split
  · rename_i hlt
    rw [List.flatMap_cons, List.flatMap_nil, List.append_nil, decodeLossy_unit order hlt, hchar]
    · simp only [isHigh, Bool.and_eq_false_iff, decide_eq_false_iff_not]
      omega
    · simp only [isLow, Bool.and_eq_false_iff, decide_eq_false_iff_not]
      omega
  · have hcode : 0x10000 + (0xd800 + (n - 0x10000) / 0x400 - 0xd800) * 0x400 +
        (0xdc00 + (n - 0x10000) % 0x400 - 0xdc00) = n := by omega
    rw [List.flatMap_cons, List.flatMap_cons, List.flatMap_nil, List.append_nil, List.append_assoc,
      decodeLossy_pair, ofPair, hcode, hchar]
    · simp only [isHigh, Bool.and_eq_true, decide_eq_true_eq]
      omega
    · simp only [isLow, Bool.and_eq_true, decide_eq_true_eq]
      omega

theorem decodeLossy_encode (order : ByteOrder) (text : List Char) :
    decodeLossy order (encode order text) = text := by
  induction text with
  | nil => rfl
  | cons c text ih =>
      have hencode : encode order (c :: text) =
          (units c).flatMap order.bytes ++ encode order text := List.flatMap_cons
      rw [hencode, decodeLossy_units, ih]

end ScriptGraph.Utf16
