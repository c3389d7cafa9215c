/-!
# Ordered entries

Association lists in the order in which their keys were entered first.
-/

namespace ScriptGraph.Entries

variable {κ ν : Type}

/-- Sets the value of a key: a key that is there keeps its place, a new one comes last. -/
def put [BEq κ] (key : κ) (value : ν) : List (κ × ν) → List (κ × ν)
  | [] => [(key, value)]
  | (k, v) :: later => if k == key then (k, value) :: later else (k, v) :: put key value later

/-- The entries of a list in which a later entry replaces the value of an earlier one. -/
def ofList [BEq κ] (entries : List (κ × ν)) : List (κ × ν) :=
  entries.foldl (fun acc e => put e.1 e.2 acc) []

/-- How often each item occurs, in the order of the first occurrences. -/
def tally [BEq κ] (items : List κ) : List (κ × Nat) :=
  items.foldl (fun acc x => put x ((acc.lookup x).getD 0 + 1) acc) []

@[simp] theorem lookup_put_self [BEq κ] [LawfulBEq κ] (key : κ) (value : ν)
    (entries : List (κ × ν)) : (put key value entries).lookup key = some value := by
  induction entries with
  | nil => simp [put]
  | cons e later ih =>
    obtain ⟨k, v⟩ := e
    by_cases h : k = key
    · simp [put, h]
    · have hne : (key == k) = false := beq_false_of_ne (Ne.symm h)
      simp [put, h, List.lookup_cons, hne, ih]

theorem lookup_put_of_ne [BEq κ] [LawfulBEq κ] {key other : κ} (h : other ≠ key) (value : ν)
    (entries : List (κ × ν)) : (put key value entries).lookup other = entries.lookup other := by
  have hkey : (other == key) = false := beq_false_of_ne h
  induction entries with
  | nil => simp [put, List.lookup_cons, hkey]
  | cons e later ih =>
    obtain ⟨k, v⟩ := e
    by_cases hk : k = key
    · subst hk
      simp [put, List.lookup_cons, hkey]
    · simp [put, hk, List.lookup_cons, ih]

/-- Setting a value changes what is found under one key and nothing else. -/
theorem lookup_put [BEq κ] [LawfulBEq κ] [DecidableEq κ] (key other : κ) (value : ν)
    (entries : List (κ × ν)) :
    (put key value entries).lookup other =
      if other = key then some value else entries.lookup other := by
  by_cases h : other = key
  · subst h
    simp
  · simp [h, lookup_put_of_ne h value entries]

end ScriptGraph.Entries
