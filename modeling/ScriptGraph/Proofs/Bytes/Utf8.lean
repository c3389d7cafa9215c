import ScriptGraph.Bytes.Utf8

/-!
# Decoding what was encoded

The bytes of a character are read as this character, whatever follows them, so the bytes of a text
are read as the text.
-/

namespace ScriptGraph.Utf8

theorem toNat_valid (c : Char) : c.toNat < 0xd800 ∨ 0xdfff < c.toNat ∧ c.toNat < 0x110000 := c.valid

theorem toNat_byte {n : Nat} (h : n < 256) : (UInt8.ofNat n).toNat = n := by
  rw [UInt8.toNat_ofNat', Nat.mod_eq_of_lt h]

theorem toNat_trailing (bits : Nat) : (trailing bits).toNat = 0x80 + bits % 64 :=
  toNat_byte (by omega)

theorem further_trailing (n code bits : Nat) (rest : List UInt8) :
    further (n + 1) code (trailing bits :: rest) = further n (code * 64 + bits % 64) rest := by
  have hbits : (0x80 + bits % 64) % 64 = bits % 64 := by omega
  have hbounds : 0x80 ≤ 0x80 + bits % 64 ∧ 0x80 + bits % 64 ≤ 0xbf := by omega
  simp [further, toNat_trailing, hbits, hbounds.2]

theorem next_trailing {first : UInt8} {lead : Lead} {bits : Nat} (hfirst : 0x80 ≤ first.toNat)
    (hlead : lead? first.toNat = some lead) (hleast : lead.least ≤ 0x80 + bits % 64)
    (hgreatest : 0x80 + bits % 64 ≤ lead.greatest) (rest : List UInt8) :
    next first (trailing bits :: rest) =
      ((further lead.further (lead.bits * 64 + bits % 64) rest).1.map Char.ofNat,
        (further lead.further (lead.bits * 64 + bits % 64) rest).2) := by
  have hbits : (0x80 + bits % 64) % 64 = bits % 64 := by omega
  simp [next, Nat.not_lt.mpr hfirst, hlead, toNat_trailing, hleast, hgreatest, hbits]

/-- The first byte of several asks for a second one between its bounds and for further ones. -/
structure Leads (first bits second further : Nat) : Prop where
  first_lt : first < 256
  le_first : 0x80 ≤ first
  asks : ∃ lead, lead? first = some lead ∧ lead.bits = bits ∧ lead.further = further ∧
    lead.least ≤ 0x80 + second % 64 ∧ 0x80 + second % 64 ≤ lead.greatest

theorem leads_two {n : Nat} (hlow : 0x80 ≤ n) (hhigh : n < 0x800) :
    Leads (0xc0 + n / 64) (n / 64) n 0 := by
  refine ⟨by omega, by omega, ?_⟩
  have hfirst : ¬ 0xc0 + n / 64 < 0xc2 ∧ 0xc0 + n / 64 < 0xe0 := by omega
  rw [lead?, if_neg hfirst.1, if_pos hfirst.2]
  refine ⟨_, rfl, ?_, rfl, ?_, ?_⟩ <;> dsimp only <;> omega

theorem leads_three {n : Nat} (hlow : 0x800 ≤ n) (hhigh : n < 0x10000)
    (hvalid : n < 0xd800 ∨ 0xdfff < n) : Leads (0xe0 + n / 4096) (n / 4096) (n / 64) 1 := by
  refine ⟨by omega, by omega, ?_⟩
  have hfirst : ¬ 0xe0 + n / 4096 < 0xc2 ∧ ¬ 0xe0 + n / 4096 < 0xe0 ∧ 0xe0 + n / 4096 < 0xf0 := by
    omega
  rw [lead?, if_neg hfirst.1, if_neg hfirst.2.1, if_pos hfirst.2.2]
  -- the first and the fourteenth of these bytes bound the second one more closely
  split
  · rename_i heq
    refine ⟨_, rfl, ?_, rfl, ?_, ?_⟩ <;> simp at heq ⊢ <;> omega
  · split
    · rename_i heq
      refine ⟨_, rfl, ?_, rfl, ?_, ?_⟩ <;> simp at heq ⊢ <;> omega
    · refine ⟨_, rfl, ?_, rfl, ?_, ?_⟩ <;> dsimp only <;> omega

theorem leads_four {n : Nat} (hlow : 0x10000 ≤ n) (hhigh : n < 0x110000) :
    Leads (0xf0 + n / 262144) (n / 262144) (n / 4096) 2 := by
  refine ⟨by omega, by omega, ?_⟩
  have hfirst : ¬ 0xf0 + n / 262144 < 0xc2 ∧ ¬ 0xf0 + n / 262144 < 0xe0 ∧
      ¬ 0xf0 + n / 262144 < 0xf0 := by omega
  have hother : (0xf0 + n / 262144 == 0xe0) = false ∧ (0xf0 + n / 262144 == 0xed) = false := by
    simp
    omega
  rw [lead?, if_neg hfirst.1, if_neg hfirst.2.1, hother.1, hother.2, if_neg hfirst.2.2]
  simp only [Bool.false_eq_true, if_false]
  split
  · rename_i heq
    refine ⟨_, rfl, ?_, rfl, ?_, ?_⟩ <;> simp at heq ⊢ <;> omega
  · split
    · refine ⟨_, rfl, ?_, rfl, ?_, ?_⟩ <;> dsimp only <;> omega
    · rename_i heq hlt
      have hlast : 0xf0 + n / 262144 = 0xf4 := by omega
      rw [hlast]
      refine ⟨_, rfl, ?_, rfl, ?_, ?_⟩ <;> dsimp only <;> omega

theorem Leads.next {first bits second more : Nat} (h : Leads first bits second more)
    (rest : List UInt8) :
    next (UInt8.ofNat first) (trailing second :: rest) =
      ((further more (bits * 64 + second % 64) rest).1.map Char.ofNat,
        (further more (bits * 64 + second % 64) rest).2) := by
  obtain ⟨lead, hlead, rfl, rfl, hleast, hgreatest⟩ := h.asks
  rw [← toNat_byte h.first_lt] at hlead
  exact next_trailing (by rw [toNat_byte h.first_lt]; exact h.le_first) hlead hleast hgreatest rest

/-- The bytes of a character are read as the character, whatever follows them. -/
theorem next_encodeChar (c : Char) (rest : List UInt8) :
    ∃ first later, encodeChar c = first :: later ∧ next first (later ++ rest) = (some c, rest) := by
  have hvalid := toNat_valid c
  have hchar : Char.ofNat c.toNat = c := Char.ofNat_toNat c
  unfold encodeChar
  dsimp only
  generalize c.toNat = n at hvalid hchar
  split
  · refine ⟨_, _, rfl, ?_⟩
    have hbyte : (UInt8.ofNat n).toNat = n := toNat_byte (by omega)
    unfold next
    rw [hbyte, if_pos (by omega), hchar, List.nil_append]
  · split
    · refine ⟨_, _, rfl, ?_⟩
      have hcode : n / 64 * 64 + n % 64 = n := by omega
      rw [List.cons_append, (leads_two (by omega) (by omega)).next, further, hcode, Option.map_some,
        hchar, List.nil_append]
    · split
      · refine ⟨_, _, rfl, ?_⟩
        have hcode : (n / 4096 * 64 + n / 64 % 64) * 64 + n % 64 = n := by omega
        rw [List.cons_append, (leads_three (by omega) (by omega) (by omega)).next, List.cons_append,
          further_trailing, further, hcode, Option.map_some, hchar, List.nil_append]
      · refine ⟨_, _, rfl, ?_⟩
        have hcode : ((n / 262144 * 64 + n / 4096 % 64) * 64 + n / 64 % 64) * 64 + n % 64 = n := by
          omega
        rw [List.cons_append, (leads_four (by omega) (by omega)).next, List.cons_append,
          further_trailing, List.cons_append, further_trailing, further, hcode, Option.map_some,
          hchar, List.nil_append]

theorem exists_encode_cons (c : Char) (text : List Char) :
    ∃ first rest, encode (c :: text) = first :: rest ∧ next first rest = (some c, encode text) := by
  obtain ⟨first, later, hbytes, hnext⟩ := next_encodeChar c (encode text)
  refine ⟨first, later ++ encode text, ?_, hnext⟩
  rw [encode, List.flatMap_cons, hbytes, List.cons_append]
  rfl

/-- The bytes of a text are read as the text. -/
theorem decode?_encode (text : List Char) : decode? (encode text) = some text := by
  induction text with
  | nil => rw [encode, List.flatMap_nil, decode?]
  | cons c text ih =>
      obtain ⟨first, rest, hencode, hnext⟩ := exists_encode_cons c text
      rw [hencode, decode?, hnext]
      simp only [ih, Option.map_some]

theorem decodeLossy_encode (text : List Char) : decodeLossy (encode text) = text := by
  induction text with
  | nil => rw [encode, List.flatMap_nil, decodeLossy]
  | cons c text ih =>
      obtain ⟨first, rest, hencode, hnext⟩ := exists_encode_cons c text
      rw [hencode, decodeLossy, hnext, ih, Option.getD_some]

end ScriptGraph.Utf8
