import Mathlib
import ScriptGraph.MessagePack.Decode
import ScriptGraph.MessagePack.Encode
import ScriptGraph.Proofs.Bytes.Utf8
import ScriptGraph.Proofs.Entries
import ScriptGraph.Proofs.MessagePack.Packing

/-!
# Unpacking what was packed

A packed value is read as this value, whatever follows it.  Every form in which an integer, a text, a
list or a map is written has a mark of its own; the reader finds the form by the mark, and the size
that stands after the mark tells where the value ends.
-/

namespace ScriptGraph

open MessagePack

open Sha256 (bigEndian)

/-! ### Values that can be told from their bytes -/

def TextFits (s : String) : Prop := (Utf8.encode s.toList).length < 2 ^ 32

instance (s : String) : Decidable (TextFits s) := inferInstanceAs (Decidable (_ < _))

def Key.Fits : Key → Prop
  | text s => TextFits s
  | bytes data => data.length < 2 ^ 32

instance (key : Key) : Decidable key.Fits :=
  match key with
  | .text s => inferInstanceAs (Decidable (TextFits s))
  | .bytes data => inferInstanceAs (Decidable (data.length < 2 ^ 32))

/-- A value without extensions has a written form that tells it from other values: its integers take
64 bits at most, its sizes 32, no key of a map occurs twice, and at most so many lists and maps lie
inside one another. -/
inductive Value.Fits : Nat → Value → Prop
  | null (nesting : Nat) : Fits nesting .null
  | bool (nesting : Nat) (b : Bool) : Fits nesting (.bool b)
  | int (nesting : Nat) {n : Int} (hlow : -2 ^ 63 ≤ n) (hhigh : n < 2 ^ 64) : Fits nesting (.int n)
  | float (nesting : Nat) (x : Double) : Fits nesting (.float x)
  | text (nesting : Nat) {s : String} (hsize : TextFits s) : Fits nesting (.text s)
  | bytes (nesting : Nat) {data : List UInt8} (hsize : data.length < 2 ^ 32) :
      Fits nesting (.bytes data)
  | list {nesting : Nat} {items : List Value} (hsize : items.length < 2 ^ 32)
      (hitems : ∀ item ∈ items, Fits nesting item) : Fits (nesting + 1) (.list items)
  | map {nesting : Nat} {entries : List (Key × Value)} (hsize : entries.length < 2 ^ 32)
      (hnodup : (entries.map Prod.fst).Nodup) (hkeys : ∀ key ∈ entries.map Prod.fst, key.Fits)
      (hvalues : ∀ entry ∈ entries, Fits nesting entry.2) : Fits (nesting + 1) (.map entries)

namespace MessagePack

/-! ### Readers -/

variable {α β : Type}

/-- The reader reads the bytes as the item, whatever follows them. -/
def Reads (read : Reader α) (bytes : List UInt8) (item : α) : Prop :=
  ∀ rest, read (bytes ++ rest) = some (item, rest)

theorem Reads.map {read : Reader α} {bytes : List UInt8} {item : α} (h : Reads read bytes item)
    (f : α → β) :
    Reads (fun bytes => (read bytes).map fun (item, rest) => (f item, rest)) bytes (f item) := by
  intro rest
  simp only [h rest, Option.map_some]

theorem Reads.bind {first : Reader α} {second : α → Reader β} {bytes more : List UInt8} {item : α}
    {last : β} (hfirst : Reads first bytes item) (hsecond : Reads (second item) more last) :
    Reads (fun bytes => do let (item, rest) ← first bytes; second item rest) (bytes ++ more) last := by
  intro rest
  simp [hfirst (more ++ rest), hsecond rest]

theorem reads_take (data : List UInt8) : Reads (take data.length) data data := by
  intro rest
  simp [take]

theorem length_bigEndian (width n : Nat) : (bigEndian width n).length = width := by
  induction width generalizing n with
  | zero => rfl
  | succ width ih => rw [bigEndian, List.length_append, ih, List.length_singleton]

theorem number_concat (data : List UInt8) (b : UInt8) :
    number (data ++ [b]) = number data * 256 + b.toNat := by
  simp [number]

theorem number_bigEndian {width n : Nat} (h : n < 256 ^ width) : number (bigEndian width n) = n := by
  induction width generalizing n with
  | zero =>
      obtain rfl : n = 0 := by simpa using h
      rfl
  | succ width ih =>
      have hhigh : n / 256 < 256 ^ width := by
        rw [Nat.pow_succ'] at h
        exact Nat.div_lt_of_lt_mul h
      rw [bigEndian, number_concat, ih hhigh, Utf8.toNat_byte (Nat.mod_lt _ (by decide))]
      omega

theorem reads_unsigned {width n : Nat} (h : n < 256 ^ width) :
    Reads (unsigned width) (bigEndian width n) n := by
  intro rest
  have htake := reads_take (bigEndian width n) rest
  rw [length_bigEndian] at htake
  simp only [unsigned, htake, Option.map_some, number_bigEndian h]

theorem reads_text (s : String) :
    Reads (text (Utf8.encode s.toList).length) (Utf8.encode s.toList) s := by
  intro rest
  simp [text, reads_take _ rest, Utf8.decode?_encode]

/-! ### Marks -/

/-- What reads inside a list or a map where so many may still be opened. -/
def opened : Nat → Option (Reader Value)
  | 0 => none
  | nesting + 1 => some (readValue nesting)

section Forms

variable {nesting : Nat} {mark : UInt8} {bytes : List UInt8} {v : Value}

theorem Reads.marked (h : Reads (readMarked (opened nesting) mark.toNat) bytes v) :
    Reads (readValue nesting) (mark :: bytes) v := by
  intro rest
  rw [← h rest]
  cases nesting <;> rfl

/-- A form with the size after the mark. -/
theorem Reads.sized {read : Nat → Reader Value} {width size : Nat} (h : Reads (read size) bytes v)
    (hsize : size < 256 ^ width)
    (hmark : ∀ bytes, readMarked (opened nesting) mark.toNat bytes =
      do let (size, rest) ← unsigned width bytes; read size rest) :
    Reads (readValue nesting) (MessagePack.marked mark width size ++ bytes) v := by
  refine Reads.marked fun rest => ?_
  rw [hmark]
  exact (reads_unsigned hsize).bind h rest

theorem reads_numbered {width n : Nat} (f : Nat → Value) (hn : n < 256 ^ width)
    (hmark : ∀ bytes, readMarked (opened nesting) mark.toNat bytes =
      (unsigned width bytes).map fun (n, rest) => (f n, rest)) :
    Reads (readValue nesting) (MessagePack.marked mark width n) (f n) := by
  refine Reads.marked fun rest => ?_
  rw [hmark]
  exact (reads_unsigned hn).map f rest

/-! ### Texts and bytes -/

def textValue (size : Nat) : Reader Value := fun bytes =>
  (text size bytes).map fun (s, rest) => (.text s, rest)

def bytesValue (size : Nat) : Reader Value := fun bytes =>
  (take size bytes).map fun (data, rest) => (.bytes data, rest)

theorem readMarked_shortText (inner : Option (Reader Value)) {size : Nat} (h : size < 0x20) :
    readMarked inner (0xa0 + size) = textValue size := by
  funext bytes
  unfold readMarked
  dsimp only
  rw [if_neg (by omega), if_neg (by omega), if_neg (by omega), if_pos (by omega),
    Nat.add_sub_cancel_left, textValue]

theorem reads_packText {s : String} (h : TextFits s) :
    Reads (readValue nesting) (packText s) (.text s) := by
  unfold packText textHead
  dsimp only
  have htext : Reads (textValue _) (Utf8.encode s.toList) (.text s) := (reads_text s).map Value.text
  unfold TextFits at h
  generalize Utf8.encode s.toList = data at h htext
  split
  · rename_i hshort
    refine Reads.marked ?_
    rwa [Utf8.toNat_byte (by omega), readMarked_shortText _ hshort]
  · split
    · exact htext.sized (by omega) fun _ => rfl
    · split
      · exact htext.sized (by omega) fun _ => rfl
      · exact htext.sized (by omega) fun _ => rfl

theorem reads_packBytes {data : List UInt8} (h : data.length < 2 ^ 32) :
    Reads (readValue nesting) (packBytes data) (.bytes data) := by
  unfold packBytes
  dsimp only
  have hdata : Reads (bytesValue _) data (.bytes data) := (reads_take data).map Value.bytes
  split
  · exact hdata.sized (by omega) fun _ => rfl
  · split
    · exact hdata.sized (by omega) fun _ => rfl
    · exact hdata.sized (by omega) fun _ => rfl

/-! ### Integers -/

theorem readMarked_small (inner : Option (Reader Value)) {n : Nat} (h : n < 0x80)
    (bytes : List UInt8) : readMarked inner n bytes = some (.int n, bytes) := by
  unfold readMarked
  dsimp only
  rw [if_pos h]

theorem readMarked_negative (inner : Option (Reader Value)) {mark : Nat} (h : 0xe0 ≤ mark)
    (bytes : List UInt8) :
    readMarked inner mark bytes = some (.int ((mark : Int) - 0x100), bytes) := by
  unfold readMarked
  dsimp only
  rw [if_neg (by omega), if_neg (by omega), if_neg (by omega), if_neg (by omega), if_pos h]

theorem reads_packNat {m : Nat} (h : m < 2 ^ 64) :
    ∃ bytes, packInt m = .ok bytes ∧ Reads (readValue nesting) bytes (.int m) := by
  unfold packInt
  dsimp only
  rw [if_pos (Int.natCast_nonneg m), Int.toNat_natCast]
  let value (n : Nat) : Value := .int n
  split
  · rename_i hsmall
    refine ⟨_, rfl, Reads.marked fun rest => ?_⟩
    rw [Utf8.toNat_byte (by omega), readMarked_small _ hsmall, List.nil_append]
  · split
    · exact ⟨_, rfl, reads_numbered value (by omega) fun _ => rfl⟩
    · split
      · exact ⟨_, rfl, reads_numbered value (by omega) fun _ => rfl⟩
      · split
        · exact ⟨_, rfl, reads_numbered value (by omega) fun _ => rfl⟩
        · rw [if_pos (by omega)]
          exact ⟨_, rfl, reads_numbered value (by omega) fun _ => rfl⟩

theorem reads_signed (width : Nat) {n : Int} (hhalf : 256 ^ width = 2 * 2 ^ (8 * width - 1))
    (hlow : -2 ^ (8 * width - 1) ≤ n) (hneg : n < 0)
    (hmark : ∀ bytes, readMarked (opened nesting) mark.toNat bytes =
      (unsigned width bytes).map fun (n, rest) => (.int (toSigned width n), rest)) :
    Reads (readValue nesting) (MessagePack.marked mark width (n + 256 ^ width).toNat) (.int n) := by
  have hpower : 2 ^ (8 * width) = 256 ^ width := by rw [Nat.pow_mul]
  have hcast : ((256 ^ width : Nat) : Int) = 256 ^ width := Int.natCast_pow 256 width
  have hhalfCast : ((2 ^ (8 * width - 1) : Nat) : Int) = 2 ^ (8 * width - 1) :=
    Int.natCast_pow 2 _
  have hback : toSigned width (n + 256 ^ width).toNat = n := by
    unfold toSigned
    simp only [Nat.pow_eq, hpower]
    rw [if_neg (by omega)]
    omega
  have hread := reads_numbered (n := (n + 256 ^ width).toNat) (fun n => .int (toSigned width n))
    (by omega) hmark
  simpa only [hback] using hread

theorem reads_packInt {n : Int} (hlow : -2 ^ 63 ≤ n) (hhigh : n < 2 ^ 64) :
    ∃ bytes, packInt n = .ok bytes ∧ Reads (readValue nesting) bytes (.int n) := by
  by_cases hneg : 0 ≤ n
  · obtain ⟨m, rfl⟩ := Int.eq_ofNat_of_zero_le hneg
    exact reads_packNat (by omega)
  · unfold packInt
    dsimp only
    rw [if_neg hneg]
    split
    · rename_i hshort
      refine ⟨_, rfl, Reads.marked fun rest => ?_⟩
      rw [Utf8.toNat_byte (by omega), readMarked_negative _ (by omega), List.nil_append,
        Int.toNat_of_nonneg (by omega), Int.add_sub_cancel]
    · split
      · exact ⟨_, rfl, reads_signed 1 (by decide) (by omega) (by omega) fun _ => rfl⟩
      · split
        · exact ⟨_, rfl, reads_signed 2 (by decide) (by omega) (by omega) fun _ => rfl⟩
        · split
          · exact ⟨_, rfl, reads_signed 4 (by decide) (by omega) (by omega) fun _ => rfl⟩
          · rw [if_pos (by omega)]
            exact ⟨_, rfl, reads_signed 8 (by decide) (by omega) (by omega) fun _ => rfl⟩

theorem reads_float (x : Double) :
    Reads (readValue nesting) (MessagePack.marked 0xcb 8 x.word.toNat) (.float x) := by
  have hword := x.word.toNat_lt
  have hread : Reads (readValue nesting) (MessagePack.marked 0xcb 8 x.word.toNat)
      (.float ⟨UInt64.ofNat x.word.toNat⟩) :=
    reads_numbered (fun n => .float ⟨UInt64.ofNat n⟩) (by omega) fun _ => rfl
  rwa [UInt64.ofNat_toNat] at hread

/-! ### Lists and maps -/

theorem readMarked_shortList (inner : Option (Reader Value)) {size : Nat} (h : size < 0x10) :
    readMarked inner (0x90 + size) = readList inner size := by
  funext bytes
  unfold readMarked
  dsimp only
  rw [if_neg (by omega), if_neg (by omega), if_pos (by omega), Nat.add_sub_cancel_left]

theorem readMarked_shortMap (inner : Option (Reader Value)) {size : Nat} (h : size < 0x10) :
    readMarked inner (0x80 + size) = readMap inner size := by
  funext bytes
  unfold readMarked
  dsimp only
  rw [if_neg (by omega), if_pos (by omega), Nat.add_sub_cancel_left]

/-- A form in which a few sizes are part of the mark, and the others stand after it. -/
theorem Reads.counted {read : Nat → Reader Value} {base size : Nat} {wide wider : UInt8}
    (h : Reads (read size) bytes v) (hsize : size < 2 ^ 32) (hbase : base + 0x10 ≤ 256)
    (hshort : size < 0x10 → readMarked (opened nesting) (base + size) = read size)
    (hwide : ∀ bytes, readMarked (opened nesting) wide.toNat bytes =
      do let (size, rest) ← unsigned 2 bytes; read size rest)
    (hwider : ∀ bytes, readMarked (opened nesting) wider.toNat bytes =
      do let (size, rest) ← unsigned 4 bytes; read size rest) :
    Reads (readValue nesting)
      ((if size < 0x10 then [UInt8.ofNat (base + size)]
        else if size < 0x10000 then MessagePack.marked wide 2 size
        else MessagePack.marked wider 4 size) ++ bytes) v := by
  split
  · rename_i hfew
    refine Reads.marked ?_
    rwa [Utf8.toNat_byte (by omega), hshort hfew]
  · split
    · exact h.sized (by omega) hwide
    · exact h.sized (by omega) hwider

theorem Reads.list {size : Nat} (h : Reads (readList (opened nesting) size) bytes v)
    (hsize : size < 2 ^ 32) : Reads (readValue nesting) (listHead size ++ bytes) v :=
  h.counted hsize (by decide) (readMarked_shortList _) (fun _ => rfl) fun _ => rfl

theorem Reads.mapped {size : Nat} (h : Reads (readMap (opened nesting) size) bytes v)
    (hsize : size < 2 ^ 32) : Reads (readValue nesting) (mapHead size ++ bytes) v :=
  h.counted hsize (by decide) (readMarked_shortMap _) (fun _ => rfl) fun _ => rfl

theorem reads_packEntry {key : Key} (hkey : key.Fits) (h : Reads (readValue nesting) bytes v) :
    Reads (readEntry (readValue nesting)) (packKey key ++ bytes) (key, v) := by
  have hread : ∃ k, Reads (readValue nesting) (packKey key) k ∧ keyOf? k = some key := by
    cases key with
    | text s => exact ⟨_, reads_packText hkey, rfl⟩
    | bytes data => exact ⟨_, reads_packBytes hkey, rfl⟩
  obtain ⟨k, hk, hkeyOf⟩ := hread
  intro rest
  simp [readEntry, hk (bytes ++ rest), hkeyOf, h rest]

end Forms

theorem Reads.many_cons {read : Reader α} {first later : List UInt8} {item : α} {items : List α}
    (hfirst : Reads read first item) (hlater : Reads (readMany read items.length) later items) :
    Reads (readMany read (item :: items).length) (first ++ later) (item :: items) := by
  intro rest
  simp [readMany, hfirst (later ++ rest), hlater rest]

/-- The value is packed, and read again where so many lists and maps may be opened. -/
def Survives (nesting : Nat) (v : Value) : Prop :=
  ∃ bytes, packWithin (nesting + 1) v = .ok bytes ∧ Reads (readValue nesting) bytes v

theorem reads_packItems {nesting : Nat} {items : List Value}
    (h : ∀ item ∈ items, Survives nesting item) :
    ∃ bytes, packItems (nesting + 1) items = .ok bytes ∧
      Reads (readMany (readValue nesting) items.length) bytes items := by
  induction items with
  | nil => exact ⟨[], rfl, fun rest => rfl⟩
  | cons item later ih =>
      obtain ⟨⟨first, hfirst, hreadFirst⟩, hlater⟩ := List.forall_mem_cons.mp h
      obtain ⟨rest, hrest, hreadRest⟩ := ih hlater
      refine ⟨first ++ rest, ?_, hreadFirst.many_cons hreadRest⟩
      rw [packItems, hfirst, hrest]
      rfl

theorem reads_packEntries {nesting : Nat} {entries : List (Key × Value)}
    (hkeys : ∀ key ∈ entries.map Prod.fst, key.Fits)
    (h : ∀ entry ∈ entries, Survives nesting entry.2) :
    ∃ bytes, packEntries (nesting + 1) entries = .ok bytes ∧
      Reads (readMany (readEntry (readValue nesting)) entries.length) bytes entries := by
  induction entries with
  | nil => exact ⟨[], rfl, fun rest => rfl⟩
  | cons entry later ih =>
      obtain ⟨key, value⟩ := entry
      obtain ⟨hkey, hkeys⟩ := List.forall_mem_cons.mp hkeys
      obtain ⟨⟨first, hfirst, hreadFirst⟩, hlater⟩ := List.forall_mem_cons.mp h
      obtain ⟨rest, hrest, hreadRest⟩ := ih hkeys hlater
      refine ⟨packKey key ++ first ++ rest, ?_, (reads_packEntry hkey hreadFirst).many_cons hreadRest⟩
      rw [packEntries, hfirst, hrest]
      rfl

/-! ### Whole values -/

/-- A value that fits is packed, and read again whatever follows it. -/
theorem survives_of_fits {nesting : Nat} {v : Value} (h : v.Fits nesting) : Survives nesting v := by
  induction h with
  | null => exact ⟨_, rfl, Reads.marked fun rest => rfl⟩
  | bool nesting b =>
      cases b with
      | false => exact ⟨_, rfl, Reads.marked fun rest => rfl⟩
      | true => exact ⟨_, rfl, Reads.marked fun rest => rfl⟩
  | int nesting hlow hhigh => exact reads_packInt hlow hhigh
  | float nesting x => exact ⟨_, rfl, reads_float x⟩
  | text nesting hsize => exact ⟨_, rfl, reads_packText hsize⟩
  | bytes nesting hsize => exact ⟨_, rfl, reads_packBytes hsize⟩
  | @list nesting items hsize hitems ih =>
      obtain ⟨bytes, hpack, hread⟩ := reads_packItems ih
      refine ⟨listHead items.length ++ bytes, ?_, Reads.list (hread.map Value.list) hsize⟩
      rw [packWithin, hpack]
      rfl
  | @map nesting entries hsize hnodup hkeys hvalues ih =>
      obtain ⟨bytes, hpack, hread⟩ := reads_packEntries hkeys ih
      have hreadMap := hread.map fun entries => Value.map (Entries.ofList entries)
      rw [Entries.ofList_eq_self hnodup] at hreadMap
      refine ⟨mapHead entries.length ++ bytes, ?_, Reads.mapped hreadMap hsize⟩
      rw [packWithin, hpack]
      rfl

/-- What was packed is unpacked as it was, in whatever room it was packed. -/
theorem unpack?_of_packWithin {v : Value} (h : v.Fits nestingLimit) {room : Nat}
    {bytes : List UInt8} (hpack : packWithin room v = .ok bytes) : unpack? bytes = some v := by
  obtain ⟨packed, hpacked, hread⟩ := survives_of_fits h
  have hdepth : v.depth ≤ room := Value.PacksWithin.depth_le ⟨bytes, hpack⟩
  have hsame := Value.packWithin_of_depth_le hpacked hdepth
  obtain rfl : packed = bytes := Except.ok.inj (hsame.symm.trans hpack)
  have hwhole := hread []
  rw [List.append_nil] at hwhole
  rw [unpack?, hwhole]

end MessagePack

end ScriptGraph
