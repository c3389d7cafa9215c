import ScriptGraph.Value.Access

/-!
# Equality and fields of values

Values lie inside one another in lists and in maps, so the comparison follows all three at once.
-/

namespace ScriptGraph.Value

mutual

def same : Value → Value → Bool
  | .null, .null => true
  | .bool b, .bool b' => b == b'
  | .int n, .int n' => n == n'
  | .float x, .float x' => x == x'
  | .text s, .text s' => s == s'
  | .bytes data, .bytes data' => data == data'
  | .list items, .list items' => sameItems items items'
  | .map entries, .map entries' => sameEntries entries entries'
  | .ext code data, .ext code' data' => code == code' && data == data'
  | .timestamp seconds nanoseconds, .timestamp seconds' nanoseconds' =>
      seconds == seconds' && nanoseconds == nanoseconds'
  | _, _ => false

def sameItems : List Value → List Value → Bool
  | [], [] => true
  | item :: later, item' :: later' => same item item' && sameItems later later'
  | _, _ => false

def sameEntries : List (Key × Value) → List (Key × Value) → Bool
  | [], [] => true
  | (key, value) :: later, (key', value') :: later' =>
      key == key' && same value value' && sameEntries later later'
  | _, _ => false

end

mutual

theorem same_iff (v w : Value) : v.same w = true ↔ v = w := by
  match v with
  | .list items => cases w <;> simp [same, sameItems_iff items]
  | .map entries => cases w <;> simp [same, sameEntries_iff entries]
  | .null | .bool _ | .int _ | .float _ | .text _ | .bytes _ | .ext _ _ | .timestamp _ _ =>
      cases w <;> simp [same]

theorem sameItems_iff (items items' : List Value) :
    sameItems items items' = true ↔ items = items' := by
  match items with
  | [] => cases items' <;> simp [sameItems]
  | item :: later => cases items' <;> simp [sameItems, same_iff item, sameItems_iff later]

theorem sameEntries_iff (entries entries' : List (Key × Value)) :
    sameEntries entries entries' = true ↔ entries = entries' := by
  match entries with
  | [] => cases entries' <;> simp [sameEntries]
  | (key, value) :: later =>
      cases entries' <;>
        simp [sameEntries, same_iff value, sameEntries_iff later, Prod.ext_iff]

end

instance : DecidableEq Value := fun v w => decidable_of_iff _ (same_iff v w)

@[simp] theorem lookup_text_cons (key other : String) (value : Value)
    (entries : List (Key × Value)) :
    lookup (.text key) ((.text other, value) :: entries) =
      if key = other then some value else lookup (.text key) entries := by
  by_cases h : key = other
  · simp [lookup, h]
  · have hne : (Key.text key == Key.text other) = false := beq_false_of_ne (by simpa using h)
    simp [lookup, List.lookup_cons, hne, h]

/-! ### Heights -/

section

variable {leaf : Value → Nat} {n : Nat}

theorem heightOfItems_le_iff {items : List Value} :
    heightOfItems leaf items ≤ n ↔ ∀ item ∈ items, item.height leaf ≤ n := by
  induction items with
  | nil => simp [heightOfItems]
  | cons item later ih => rw [heightOfItems, Nat.max_le, ih, List.forall_mem_cons]

theorem heightOfEntries_le_iff {entries : List (Key × Value)} :
    heightOfEntries leaf entries ≤ n ↔ ∀ entry ∈ entries, entry.2.height leaf ≤ n := by
  induction entries with
  | nil => simp [heightOfEntries]
  | cons entry later ih => rw [heightOfEntries, Nat.max_le, ih, List.forall_mem_cons]

theorem height_list_le_iff {items : List Value} :
    (list items).height leaf ≤ n + 1 ↔ ∀ item ∈ items, item.height leaf ≤ n := by
  rw [height, Nat.add_le_add_iff_right, heightOfItems_le_iff]

theorem height_map_le_iff {entries : List (Key × Value)} :
    (map entries).height leaf ≤ n + 1 ↔ ∀ entry ∈ entries, entry.2.height leaf ≤ n := by
  rw [height, Nat.add_le_add_iff_right, heightOfEntries_le_iff]

end

theorem one_le_depth (v : Value) : 1 ≤ v.depth := by
  cases v <;> simp [depth, height]

end ScriptGraph.Value
