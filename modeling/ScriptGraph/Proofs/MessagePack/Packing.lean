import Mathlib
import ScriptGraph.MessagePack.Decode
import ScriptGraph.MessagePack.Encode
import ScriptGraph.Proofs.Entries
import ScriptGraph.Proofs.Except
import ScriptGraph.Proofs.Value

/-!
# Values that can be packed

A value can be packed unless an integer inside it needs more than 64 bits, where there is room enough
for its depth.  Whatever is read from bytes can be packed again, by a packer that has the room.
-/

namespace ScriptGraph

open MessagePack

namespace Value

def PacksWithin (room : Nat) (v : Value) : Prop := ∃ bytes, packWithin room v = .ok bytes

/-- The value can be packed where there is room enough. -/
def Packable (v : Value) : Prop := ∃ room, v.PacksWithin room

@[simp] theorem packable_null : null.Packable := ⟨1, _, rfl⟩

@[simp] theorem packable_bool (b : Bool) : (bool b).Packable := ⟨1, _, rfl⟩

@[simp] theorem packable_float (x : Double) : (float x).Packable := ⟨1, _, rfl⟩

@[simp] theorem packable_text (s : String) : (text s).Packable := ⟨1, _, rfl⟩

@[simp] theorem packable_bytes (data : List UInt8) : (bytes data).Packable := ⟨1, _, rfl⟩

@[simp] theorem packable_ext (code : Int) (data : List UInt8) : (ext code data).Packable :=
  ⟨1, _, rfl⟩

@[simp] theorem packable_timestamp (seconds : Int) (nanoseconds : Nat) :
    (timestamp seconds nanoseconds).Packable := ⟨1, _, rfl⟩

theorem packable_int {n : Int} (hlow : -2 ^ 63 ≤ n) (hhigh : n < 2 ^ 64) : (int n).Packable := by
  refine ⟨1, ?_⟩
  unfold PacksWithin packWithin packInt
  dsimp only
  repeat' split
  all_goals first | exact ⟨_, rfl⟩ | omega

/-- The first item that cannot be packed tells why. -/
theorem errorOf?_packItems (room : Nat) (items : List Value) :
    errorOf? (packItems room items) =
      items.findSome? fun item => errorOf? (packWithin room item) := by
  induction items with
  | nil => simp [packItems]
  | cons item later ih =>
      rw [packItems, List.findSome?_cons, ← ih]
      cases packWithin room item <;> cases packItems room later <;> rfl

theorem errorOf?_packEntries (room : Nat) (entries : List (Key × Value)) :
    errorOf? (packEntries room entries) =
      entries.findSome? fun entry => errorOf? (packWithin room entry.2) := by
  induction entries with
  | nil => simp [packEntries]
  | cons entry later ih =>
      rw [packEntries, List.findSome?_cons, ← ih]
      cases packWithin room entry.2 <;> cases packEntries room later <;> rfl

theorem errorOf?_packWithin_list (room : Nat) (items : List Value) :
    errorOf? (packWithin (room + 1) (list items)) =
      items.findSome? fun item => errorOf? (packWithin room item) := by
  rw [← errorOf?_packItems, packWithin]
  cases packItems room items <;> rfl

theorem errorOf?_packWithin_map (room : Nat) (entries : List (Key × Value)) :
    errorOf? (packWithin (room + 1) (map entries)) =
      entries.findSome? fun entry => errorOf? (packWithin room entry.2) := by
  rw [← errorOf?_packEntries, packWithin]
  cases packEntries room entries <;> rfl

theorem packsWithin_list_iff {room : Nat} {items : List Value} :
    (list items).PacksWithin (room + 1) ↔ ∀ item ∈ items, item.PacksWithin room := by
  simp only [PacksWithin, ← errorOf?_eq_none_iff, errorOf?_packWithin_list, List.findSome?_eq_none_iff]

theorem packsWithin_map_iff {room : Nat} {entries : List (Key × Value)} :
    (map entries).PacksWithin (room + 1) ↔ ∀ entry ∈ entries, entry.2.PacksWithin room := by
  simp only [PacksWithin, ← errorOf?_eq_none_iff, errorOf?_packWithin_map, List.findSome?_eq_none_iff]

theorem not_packsWithin_zero (v : Value) : ¬ v.PacksWithin 0 := by
  simp [PacksWithin, packWithin]

/-! ### Room and depth -/

theorem PacksWithin.depth_le {room : Nat} {v : Value} (h : v.PacksWithin room) : v.depth ≤ room := by
  induction room generalizing v with
  | zero => exact absurd h v.not_packsWithin_zero
  | succ room ih =>
      cases v with
      | list items =>
          exact height_list_le_iff.mpr fun item hitem => ih (packsWithin_list_iff.mp h item hitem)
      | map entries =>
          exact height_map_le_iff.mpr fun entry hentry => ih (packsWithin_map_iff.mp h entry hentry)
      | _ => simp [depth, height]

theorem packItems_congr {room room' : Nat} {items : List Value}
    (h : ∀ item ∈ items, packWithin room item = packWithin room' item) :
    packItems room items = packItems room' items := by
  induction items with
  | nil => rfl
  | cons item later ih =>
      obtain ⟨hfirst, hlater⟩ := List.forall_mem_cons.mp h
      rw [packItems, packItems, hfirst, ih hlater]

theorem packEntries_congr {room room' : Nat} {entries : List (Key × Value)}
    (h : ∀ entry ∈ entries, packWithin room entry.2 = packWithin room' entry.2) :
    packEntries room entries = packEntries room' entries := by
  induction entries with
  | nil => rfl
  | cons entry later ih =>
      obtain ⟨hfirst, hlater⟩ := List.forall_mem_cons.mp h
      rw [packEntries, packEntries, hfirst, ih hlater]

/-- How much room there is does not matter, as long as it is enough. -/
theorem packWithin_of_depth_le {room room' : Nat} {v : Value} {data : List UInt8}
    (h : packWithin room' v = .ok data) (hdepth : v.depth ≤ room) :
    packWithin room v = .ok data := by
  induction room' generalizing room v data with
  | zero => simp [packWithin] at h
  | succ room' ih =>
      obtain ⟨left, rfl⟩ : ∃ left, room = left + 1 :=
        Nat.exists_eq_add_of_le' (v.one_le_depth.trans hdepth)
      cases v with
      | list items =>
          have hitems := height_list_le_iff.mp hdepth
          have hsame : packItems left items = packItems room' items := by
            refine packItems_congr fun item hitem => ?_
            obtain ⟨packed, hpacked⟩ := packsWithin_list_iff.mp ⟨data, h⟩ item hitem
            rw [hpacked, ih hpacked (hitems item hitem)]
          rw [packWithin] at h ⊢
          rwa [hsame]
      | map entries =>
          have hentries := height_map_le_iff.mp hdepth
          have hsame : packEntries left entries = packEntries room' entries := by
            refine packEntries_congr fun entry hentry => ?_
            obtain ⟨packed, hpacked⟩ := packsWithin_map_iff.mp ⟨data, h⟩ entry hentry
            rw [hpacked, ih hpacked (hentries entry hentry)]
          rw [packWithin] at h ⊢
          rwa [hsame]
      | _ => exact h

theorem packsWithin_iff {room : Nat} {v : Value} :
    v.PacksWithin room ↔ v.Packable ∧ v.depth ≤ room :=
  ⟨fun h => ⟨⟨room, h⟩, h.depth_le⟩,
    fun ⟨⟨_, data, h⟩, hdepth⟩ => ⟨data, packWithin_of_depth_le h hdepth⟩⟩

@[simp] theorem packable_list_iff {items : List Value} :
    (list items).Packable ↔ ∀ item ∈ items, item.Packable := by
  constructor
  · rintro ⟨room, h⟩ item hitem
    cases room with
    | zero => exact absurd h (not_packsWithin_zero _)
    | succ room => exact ⟨room, packsWithin_list_iff.mp h item hitem⟩
  · intro h
    -- the deepest item tells how much room there must be
    have hdepth := heightOfItems_le_iff.mp (Nat.le_refl (heightOfItems (fun _ => 1) items))
    exact ⟨_, packsWithin_list_iff.mpr fun item hitem =>
      packsWithin_iff.mpr ⟨h item hitem, hdepth item hitem⟩⟩

@[simp] theorem packable_map_iff {entries : List (Key × Value)} :
    (map entries).Packable ↔ ∀ entry ∈ entries, entry.2.Packable := by
  constructor
  · rintro ⟨room, h⟩ entry hentry
    cases room with
    | zero => exact absurd h (not_packsWithin_zero _)
    | succ room => exact ⟨room, packsWithin_map_iff.mp h entry hentry⟩
  · intro h
    have hdepth := heightOfEntries_le_iff.mp (Nat.le_refl (heightOfEntries (fun _ => 1) entries))
    exact ⟨_, packsWithin_map_iff.mpr fun entry hentry =>
      packsWithin_iff.mpr ⟨h entry hentry, hdepth entry hentry⟩⟩

/-! ### Why packing fails -/

theorem packInt_eq_error {n : Int} {error : PackError} (h : packInt n = .error error) :
    error = .outOfRange ∧ ¬ (int n).Packable := by
  refine ⟨?_, ?_⟩
  · unfold packInt at h
    dsimp only at h
    repeat' split at h
    all_goals first | exact (Except.error.inj h).symm | simp at h
  · rintro ⟨room, data, hdata⟩
    cases room with
    | zero => simp [packWithin] at hdata
    | succ room =>
        rw [packWithin, h] at hdata
        simp at hdata

/-- Packing fails for want of room, or because of an integer for which no room is enough. -/
theorem error_cases_of_packWithin {room : Nat} {v : Value} {error : PackError}
    (h : packWithin room v = .error error) :
    error = .tooDeep ∧ room < v.depth ∨ error = .outOfRange ∧ ¬ v.Packable := by
  induction room generalizing v with
  | zero =>
      rw [packWithin] at h
      exact .inl ⟨(Except.error.inj h).symm, v.one_le_depth⟩
  | succ room ih =>
      cases v with
      | list items =>
          rw [← errorOf?_eq_some_iff, errorOf?_packWithin_list] at h
          obtain ⟨item, hitem, herror⟩ := List.exists_of_findSome?_eq_some h
          refine (ih (errorOf?_eq_some_iff.mp herror)).imp (And.imp_right fun hdeep => ?_)
            (And.imp_right fun hrange => ?_)
          · refine Nat.lt_of_not_le fun hle => ?_
            exact Nat.not_lt.mpr (height_list_le_iff.mp hle item hitem) hdeep
          · exact fun hlist => hrange (packable_list_iff.mp hlist item hitem)
      | map entries =>
          rw [← errorOf?_eq_some_iff, errorOf?_packWithin_map] at h
          obtain ⟨entry, hentry, herror⟩ := List.exists_of_findSome?_eq_some h
          refine (ih (errorOf?_eq_some_iff.mp herror)).imp (And.imp_right fun hdeep => ?_)
            (And.imp_right fun hrange => ?_)
          · refine Nat.lt_of_not_le fun hle => ?_
            exact Nat.not_lt.mpr (height_map_le_iff.mp hle entry hentry) hdeep
          · exact fun hmap => hrange (packable_map_iff.mp hmap entry hentry)
      | int n => exact .inr (packInt_eq_error h)
      | _ => simp [packWithin] at h

end Value

namespace MessagePack

/-! ### What is read -/

/-- Whatever the reader gives has a property. -/
def Yields {α : Type} (read : Reader α) (P : α → Prop) : Prop :=
  ∀ bytes item rest, read bytes = some (item, rest) → P item

variable {α β : Type} {P : α → Prop}

theorem Yields.map {read : Reader α} (h : Yields read P) (f : α → β) {Q : β → Prop}
    (hf : ∀ item, P item → Q (f item)) :
    Yields (fun bytes => (read bytes).map fun (item, rest) => (f item, rest)) Q := by
  intro bytes item rest hread
  obtain ⟨⟨first, left⟩, hfirst, heq⟩ := Option.map_eq_some_iff.mp hread
  obtain ⟨rfl, -⟩ := Prod.mk.inj heq
  exact hf first (h bytes first left hfirst)

theorem number_lt (data : List UInt8) : number data < 256 ^ data.length := by
  have hfold : ∀ (rest : List UInt8) (n bound : Nat), n < bound →
      rest.foldl (fun n b => n * 256 + b.toNat) n < bound * 256 ^ rest.length := by
    intro rest
    induction rest with
    | nil => intro n bound hn; simpa using hn
    | cons b rest ih =>
        intro n bound hn
        have hb : b.toNat < 256 := b.toNat_lt
        have hstep := ih (n * 256 + b.toNat) (bound * 256) (by omega)
        rwa [Nat.mul_assoc, ← Nat.pow_succ'] at hstep
  simpa [number] using hfold data 0 1 (by decide)

theorem yields_unsigned (width : Nat) : Yields (unsigned width) (· < 256 ^ width) := by
  intro bytes n rest hread
  obtain ⟨⟨data, left⟩, htake, heq⟩ := Option.map_eq_some_iff.mp hread
  obtain ⟨rfl, -⟩ := Prod.mk.inj heq
  unfold take at htake
  dsimp only at htake
  split at htake
  · rename_i hlength
    obtain ⟨rfl, -⟩ := Prod.mk.inj (Option.some.inj htake)
    have hlt := number_lt (bytes.take width)
    rwa [hlength] at hlt
  · simp at htake

theorem yields_readMany {read : Reader α} (h : Yields read P) (count : Nat) :
    Yields (readMany read count) (∀ item ∈ ·, P item) := by
  induction count with
  | zero =>
      intro bytes items rest hread
      obtain ⟨rfl, -⟩ := Prod.mk.inj (Option.some.inj hread)
      simp
  | succ count ih =>
      intro bytes items rest hread
      simp only [readMany, Option.bind_eq_bind, Option.bind_eq_some_iff] at hread
      obtain ⟨⟨first, left⟩, hfirst, ⟨later, last⟩, hlater, heq⟩ := hread
      obtain ⟨rfl, -⟩ := Prod.mk.inj (Option.some.inj heq)
      exact List.forall_mem_cons.mpr ⟨h _ _ _ hfirst, ih _ _ _ hlater⟩

theorem yields_readEntry {read : Reader Value} (h : Yields read Value.Packable) :
    Yields (readEntry read) (fun entry => entry.2.Packable) := by
  intro bytes entry rest hread
  simp only [readEntry, Option.bind_eq_bind, Option.bind_eq_some_iff] at hread
  obtain ⟨first, -, key, -, ⟨value, last⟩, hvalue, heq⟩ := hread
  obtain ⟨rfl, -⟩ := Prod.mk.inj (Option.some.inj heq)
  exact h _ _ _ hvalue

theorem packable_of_time {seconds : Int} {nanoseconds : Nat} {v : Value}
    (h : extension.time seconds nanoseconds = some v) : v.Packable := by
  unfold extension.time at h
  split at h
  · obtain rfl := Option.some.inj h
    simp
  · simp at h

theorem packable_of_extension {code : Int} {data : List UInt8} {v : Value}
    (h : extension code data = some v) : v.Packable := by
  unfold extension at h
  split at h
  · obtain rfl := Option.some.inj h
    simp
  · split at h
    · simp at h
    · split at h
      · obtain rfl := Option.some.inj h
        simp
      · exact packable_of_time h
      · exact packable_of_time h
      · simp at h

theorem yields_readExtension (size : Nat) : Yields (readExtension size) Value.Packable := by
  intro bytes v rest hread
  simp only [readExtension, Option.bind_eq_bind, Option.bind_eq_some_iff] at hread
  obtain ⟨code, -, data, -, value, hvalue, heq⟩ := hread
  obtain ⟨rfl, -⟩ := Prod.mk.inj (Option.some.inj heq)
  exact packable_of_extension hvalue

theorem yields_text (size : Nat) :
    Yields (fun bytes => (text size bytes).map fun (s, rest) => (Value.text s, rest))
      Value.Packable := by
  have hany : Yields (text size) fun _ => True := fun _ _ _ _ => trivial
  exact hany.map _ fun s _ => Value.packable_text s

theorem yields_bytes (size : Nat) :
    Yields (fun bytes => (take size bytes).map fun (data, rest) => (Value.bytes data, rest))
      Value.Packable := by
  have hany : Yields (take size) fun _ => True := fun _ _ _ _ => trivial
  exact hany.map _ fun data _ => Value.packable_bytes data

theorem yields_float (width : Nat) (double : Nat → Double) :
    Yields (fun bytes => (unsigned width bytes).map fun (n, rest) => (Value.float (double n), rest))
      Value.Packable :=
  (yields_unsigned width).map _ fun n _ => Value.packable_float (double n)

theorem yields_nat {width : Nat} (hwidth : 256 ^ width ≤ 2 ^ 64) :
    Yields (fun bytes => (unsigned width bytes).map fun (n, rest) => (Value.int n, rest))
      Value.Packable := by
  refine (yields_unsigned width).map (fun n => Value.int n) fun n hn => ?_
  have hlt : n < 2 ^ 64 := Nat.lt_of_lt_of_le hn hwidth
  exact Value.packable_int (by omega) (by omega)

theorem yields_signed {width : Nat} (hwidth : 2 ^ (8 * width - 1) ≤ 2 ^ 63)
    (hdouble : 256 ^ width = 2 * 2 ^ (8 * width - 1)) :
    Yields (fun bytes =>
        (unsigned width bytes).map fun (n, rest) => (Value.int (toSigned width n), rest))
      Value.Packable := by
  refine (yields_unsigned width).map (fun n => Value.int (toSigned width n)) fun n hn => ?_
  have hpower : 2 ^ (8 * width) = 256 ^ width := by rw [Nat.pow_mul]
  unfold toSigned
  simp only [Nat.pow_eq, hpower, hdouble]
  split
  · exact Value.packable_int (by omega) (by omega)
  · exact Value.packable_int (by omega) (by omega)

theorem yields_withSize {read : Nat → Reader Value} (h : ∀ size, Yields (read size) Value.Packable)
    (width : Nat) :
    Yields (fun bytes => do let (size, rest) ← unsigned width bytes; read size rest)
      Value.Packable := by
  intro bytes v rest hread
  obtain ⟨⟨size, left⟩, -, hvalue⟩ := Option.bind_eq_some_iff.mp hread
  exact h size left v rest hvalue

theorem packable_of_some {v w : Value} {bytes rest : List UInt8} (h : some (w, bytes) = some (v, rest))
    (hpackable : w.Packable) : v.Packable :=
  (Prod.mk.inj (Option.some.inj h)).1 ▸ hpackable

section Marks

variable {inner : Option (Reader Value)} (hinner : ∀ read ∈ inner, Yields read Value.Packable)

include hinner

theorem yields_readList (count : Nat) : Yields (readList inner count) Value.Packable := by
  cases inner with
  | none => simp [Yields, readList]
  | some read =>
      exact (yields_readMany (hinner read rfl) count).map _ fun _ => Value.packable_list_iff.mpr

theorem yields_readMap (count : Nat) : Yields (readMap inner count) Value.Packable := by
  cases inner with
  | none => simp [Yields, readMap]
  | some read =>
      have hentries := yields_readMany (yields_readEntry (hinner read rfl)) count
      refine hentries.map (fun entries => Value.map (Entries.ofList entries)) fun entries h => ?_
      exact Value.packable_map_iff.mpr fun entry hentry => h entry (Entries.mem_of_mem_ofList hentry)

theorem yields_readMarked {mark : Nat} (hmark : mark < 256) :
    Yields (readMarked inner mark) Value.Packable := by
  intro bytes v rest hread
  unfold readMarked at hread
  dsimp only at hread
  split at hread
  · exact packable_of_some hread (Value.packable_int (by omega) (by omega))
  · split at hread
    · exact yields_readMap hinner _ _ _ _ hread
    · split at hread
      · exact yields_readList hinner _ _ _ _ hread
      · split at hread
        · exact yields_text _ _ _ _ hread
        · split at hread
          · exact packable_of_some hread (Value.packable_int (by omega) (by omega))
          · -- the marks from `0xc0` to `0xdf`, and the one that is not in use
            split at hread
            · exact packable_of_some hread (by simp)
            · exact packable_of_some hread (by simp)
            · exact packable_of_some hread (by simp)
            · exact yields_withSize yields_bytes _ _ _ _ hread
            · exact yields_withSize yields_bytes _ _ _ _ hread
            · exact yields_withSize yields_bytes _ _ _ _ hread
            · exact yields_withSize yields_readExtension _ _ _ _ hread
            · exact yields_withSize yields_readExtension _ _ _ _ hread
            · exact yields_withSize yields_readExtension _ _ _ _ hread
            · exact yields_float _ widen _ _ _ hread
            · exact yields_float _ (fun n => ⟨UInt64.ofNat n⟩) _ _ _ hread
            · exact yields_nat (by decide) _ _ _ hread
            · exact yields_nat (by decide) _ _ _ hread
            · exact yields_nat (by decide) _ _ _ hread
            · exact yields_nat (by decide) _ _ _ hread
            · exact yields_signed (by decide) (by decide) _ _ _ hread
            · exact yields_signed (by decide) (by decide) _ _ _ hread
            · exact yields_signed (by decide) (by decide) _ _ _ hread
            · exact yields_signed (by decide) (by decide) _ _ _ hread
            · exact yields_readExtension _ _ _ _ hread
            · exact yields_readExtension _ _ _ _ hread
            · exact yields_readExtension _ _ _ _ hread
            · exact yields_readExtension _ _ _ _ hread
            · exact yields_readExtension _ _ _ _ hread
            · exact yields_withSize yields_text _ _ _ _ hread
            · exact yields_withSize yields_text _ _ _ _ hread
            · exact yields_withSize yields_text _ _ _ _ hread
            · exact yields_withSize (yields_readList hinner) _ _ _ _ hread
            · exact yields_withSize (yields_readList hinner) _ _ _ _ hread
            · exact yields_withSize (yields_readMap hinner) _ _ _ _ hread
            · exact yields_withSize (yields_readMap hinner) _ _ _ _ hread
            · simp at hread

end Marks

theorem yields_readValue (nesting : Nat) : Yields (readValue nesting) Value.Packable := by
  induction nesting with
  | zero =>
      intro bytes v rest hread
      cases bytes with
      | nil => simp [readValue] at hread
      | cons mark bytes => exact yields_readMarked (by simp) mark.toNat_lt _ _ _ hread
  | succ nesting ih =>
      intro bytes v rest hread
      cases bytes with
      | nil => simp [readValue] at hread
      | cons mark bytes =>
          refine yields_readMarked (fun read hmem => ?_) mark.toNat_lt _ _ _ hread
          exact Option.mem_some.mp hmem ▸ ih

theorem packable_of_unpack? {bytes : List UInt8} {v : Value} (h : unpack? bytes = some v) :
    v.Packable := by
  unfold unpack? at h
  split at h
  · rename_i value hread
    obtain rfl := Option.some.inj h
    exact yields_readValue _ _ _ _ hread
  · simp at h

end MessagePack

end ScriptGraph
