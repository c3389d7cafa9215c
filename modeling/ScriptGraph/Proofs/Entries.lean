import ScriptGraph.Entries

/-!
# Entries and their keys

Looking up a key agrees with membership where no key occurs twice.  Setting the value of a new key
adds an entry at the end, and no key comes to occur twice.  Setting the values of two keys in one
order or the other gives the same entries under every key.
-/

namespace ScriptGraph.Entries

variable {κ ν : Type} [BEq κ] [LawfulBEq κ] {key : κ} {value : ν} {entries : List (κ × ν)}

theorem mem_of_lookup_eq_some (h : entries.lookup key = some value) : (key, value) ∈ entries := by
  obtain ⟨before, after, rfl, -⟩ := List.lookup_eq_some_iff.mp h
  simp

theorem lookup_eq_some_of_mem (hnodup : (entries.map Prod.fst).Nodup)
    (h : (key, value) ∈ entries) : entries.lookup key = some value := by
  induction entries with
  | nil => simp at h
  | cons e later ih =>
      obtain ⟨k, v⟩ := e
      obtain ⟨hfresh, hlater⟩ := List.nodup_cons.mp hnodup
      rcases List.mem_cons.mp h with heq | hmem
      · obtain ⟨rfl, rfl⟩ : key = k ∧ value = v := by simpa using heq
        exact List.lookup_cons_self
      · have hne : (key == k) = false := beq_false_of_ne fun heq =>
          hfresh (heq ▸ List.mem_map.mpr ⟨_, hmem, rfl⟩)
        simpa [List.lookup_cons, hne] using ih hlater hmem

/-- Two lists in which no key occurs twice and which answer alike have the same entries. -/
theorem perm_of_lookup_eq {entries' : List (κ × ν)} (hnodup : (entries.map Prod.fst).Nodup)
    (hnodup' : (entries'.map Prod.fst).Nodup)
    (h : ∀ key, entries.lookup key = entries'.lookup key) : entries.Perm entries' := by
  have hentries : ∀ {entries : List (κ × ν)}, (entries.map Prod.fst).Nodup → entries.Nodup :=
    List.Pairwise.of_map Prod.fst fun _ _ => mt (congrArg Prod.fst)
  rw [List.perm_ext_iff_of_nodup (hentries hnodup) (hentries hnodup')]
  rintro ⟨key, value⟩
  constructor
  · intro hmem
    exact mem_of_lookup_eq_some (h key ▸ lookup_eq_some_of_mem hnodup hmem)
  · intro hmem
    exact mem_of_lookup_eq_some ((h key).symm ▸ lookup_eq_some_of_mem hnodup' hmem)

theorem mem_of_mem_put {e : κ × ν} (h : e ∈ put key value entries) :
    e = (key, value) ∨ e ∈ entries := by
  induction entries with
  | nil => exact .inl (by simpa [put] using h)
  | cons first later ih =>
      obtain ⟨k, v⟩ := first
      unfold put at h
      split at h
      · rename_i hk
        obtain rfl : k = key := eq_of_beq hk
        exact (List.mem_cons.mp h).imp_right (List.mem_cons_of_mem _)
      · rcases List.mem_cons.mp h with rfl | hmem
        · exact .inr List.mem_cons_self
        · exact (ih hmem).imp_right (List.mem_cons_of_mem _)

theorem mem_of_mem_ofList {e : κ × ν} (h : e ∈ ofList entries) : e ∈ entries := by
  have hfold : ∀ (rest acc : List (κ × ν)),
      e ∈ rest.foldl (fun acc first => put first.1 first.2 acc) acc → e ∈ rest ∨ e ∈ acc := by
    intro rest
    induction rest with
    | nil => exact fun acc hmem => .inr hmem
    | cons first later ih =>
        intro acc hmem
        rcases ih _ hmem with hlater | hacc
        · exact .inl (List.mem_cons_of_mem _ hlater)
        · rcases mem_of_mem_put hacc with rfl | hold
          · exact .inl List.mem_cons_self
          · exact .inr hold
  exact (hfold entries [] h).resolve_right List.not_mem_nil

def Apart (keys : List κ) : Prop := keys.Pairwise fun a b => (a == b) = false

omit [LawfulBEq κ] in
theorem put_eq_append_of_new (h : ∀ k ∈ entries.map Prod.fst, (k == key) = false) (value : ν) :
    put key value entries = entries ++ [(key, value)] := by
  induction entries with
  | nil => rfl
  | cons first later ih =>
      obtain ⟨k, v⟩ := first
      obtain ⟨hk, hlater⟩ := List.forall_mem_cons.mp h
      rw [put, hk, if_neg Bool.false_ne_true, ih hlater, List.cons_append]

omit [LawfulBEq κ] in
theorem keys_put (key : κ) (value : ν) (entries : List (κ × ν)) :
    (put key value entries).map Prod.fst =
      if (entries.map Prod.fst).any (· == key) then entries.map Prod.fst
      else entries.map Prod.fst ++ [key] := by
  induction entries with
  | nil => rfl
  | cons first later ih =>
      obtain ⟨k, v⟩ := first
      simp only [put, List.map_cons, List.any_cons]
      cases k == key with
      | true => rfl
      | false =>
          simp only [Bool.false_eq_true, if_false, List.map_cons, ih, Bool.false_or]
          split
          · rfl
          · rfl

omit [LawfulBEq κ] in
theorem Apart.keys_put (h : Apart (entries.map Prod.fst)) (key : κ) (value : ν) :
    Apart ((put key value entries).map Prod.fst) := by
  rw [Entries.keys_put]
  split
  · exact h
  · rename_i hnew
    refine List.pairwise_append.mpr ⟨h, List.pairwise_singleton _ _, fun k hk other hother => ?_⟩
    obtain rfl : other = key := List.mem_singleton.mp hother
    exact Bool.eq_false_iff.mpr fun hsame => hnew (List.any_eq_true.mpr ⟨k, hk, hsame⟩)

omit [LawfulBEq κ] in
theorem mem_keys_of_mem_put {k : κ} (h : k ∈ (put key value entries).map Prod.fst) :
    k ∈ entries.map Prod.fst ∨ k = key := by
  rw [keys_put] at h
  split at h
  · exact .inl h
  · exact (List.mem_append.mp h).imp_right List.mem_singleton.mp

theorem put_eq_append (h : key ∉ entries.map Prod.fst) (value : ν) :
    put key value entries = entries ++ [(key, value)] := by
  refine put_eq_append_of_new (fun k hk => beq_false_of_ne ?_) value
  rintro rfl
  exact h hk

theorem apart_iff_nodup {keys : List κ} : Apart keys ↔ keys.Nodup := by
  simp only [Apart, List.Nodup, beq_eq_false_iff_ne]

theorem nodup_keys_put (hnodup : (entries.map Prod.fst).Nodup) (key : κ) (value : ν) :
    ((put key value entries).map Prod.fst).Nodup :=
  apart_iff_nodup.mp ((apart_iff_nodup.mpr hnodup).keys_put key value)

theorem foldl_put_eq_append {later : List (κ × ν)}
    (hnodup : ((entries ++ later).map Prod.fst).Nodup) :
    later.foldl (fun acc e => put e.1 e.2 acc) entries = entries ++ later := by
  induction later generalizing entries with
  | nil => simp
  | cons first later ih =>
      have hnew : first.1 ∉ entries.map Prod.fst := by
        rw [List.map_append, List.nodup_append] at hnodup
        exact fun hmem => hnodup.2.2 _ hmem _ (by simp) rfl
      rw [List.foldl_cons, put_eq_append hnew, ih (by simpa using hnodup), List.append_assoc,
        List.singleton_append]

theorem ofList_eq_self (hnodup : (entries.map Prod.fst).Nodup) : ofList entries = entries := by
  rw [ofList, foldl_put_eq_append (by simpa using hnodup), List.nil_append]

theorem lookup_filter (keeps : κ → Bool) (key : κ) (entries : List (κ × ν)) :
    (entries.filter fun e => keeps e.1).lookup key =
      if keeps key then entries.lookup key else none := by
  induction entries with
  | nil => simp
  | cons first later ih =>
      obtain ⟨k, v⟩ := first
      by_cases hk : key = k
      · subst hk
        cases hkeeps : keeps key
        · simpa [hkeeps] using ih
        · simp [hkeeps]
      · have hne : (key == k) = false := beq_false_of_ne hk
        cases hkeeps : keeps k <;> simp [hkeeps, List.lookup_cons, hne, ih]

theorem mem_keys_iff_isSome_lookup :
    key ∈ entries.map Prod.fst ↔ (entries.lookup key).isSome = true := by
  rw [List.lookup_isSome_iff]
  constructor
  · intro h
    obtain ⟨e, he, rfl⟩ := List.mem_map.mp h
    exact ⟨e, he, beq_self_eq_true e.1⟩
  · rintro ⟨e, he, hkey⟩
    rw [eq_of_beq hkey]
    exact List.mem_map_of_mem he

theorem any_key_eq_isSome_lookup (key : κ) (entries : List (κ × ν)) :
    (entries.any fun e => e.1 == key) = (entries.lookup key).isSome := by
  have hsame : ∀ e : κ × ν, (e.1 == key) = true ↔ (key == e.1) = true := by
    intro e
    rw [beq_iff_eq, beq_iff_eq, eq_comm]
  rw [Bool.eq_iff_iff, List.lookup_isSome_iff, List.any_eq_true]
  simp only [hsame]

/-- An entry that is made only under a new key answers for this key alone, and only if nothing else
does. -/
theorem lookup_put_of_new [DecidableEq κ] (key other : κ) (value : ν) (entries : List (κ × ν)) :
    (if (entries.lookup key).isSome then entries else put key value entries).lookup other =
      (entries.lookup other).or (if other = key then some value else none) := by
  by_cases hother : other = key
  · subst hother
    cases hlookup : entries.lookup other with
    | none => simp
    | some old => simp [hlookup]
  · rw [if_neg hother, Option.or_none]
    split
    · rfl
    · exact lookup_put_of_ne hother value entries

theorem put_append_of_mem (h : key ∈ entries.map Prod.fst) (value : ν) (later : List (κ × ν)) :
    put key value (entries ++ later) = put key value entries ++ later := by
  induction entries with
  | nil => simp at h
  | cons first rest ih =>
      obtain ⟨k, v⟩ := first
      by_cases hk : k = key
      · simp [put, hk]
      · have hrest : key ∈ rest.map Prod.fst := (List.mem_cons.mp h).resolve_left (Ne.symm hk)
        simp [put, hk, ih hrest]

theorem put_append_of_notMem (h : key ∉ entries.map Prod.fst) (value : ν) (later : List (κ × ν)) :
    put key value (entries ++ later) = entries ++ put key value later := by
  induction entries with
  | nil => rfl
  | cons first rest ih =>
      obtain ⟨k, v⟩ := first
      obtain ⟨hk, hrest⟩ := not_or.mp (mt List.mem_cons.mpr h)
      simp [put, Ne.symm hk, ih hrest]

/-- Where one of two keys has an entry, their values may be set in either order. -/
theorem put_comm_of_mem {key' : κ} (hne : key ≠ key') (h : key ∈ entries.map Prod.fst)
    (value value' : ν) :
    put key' value' (put key value entries) = put key value (put key' value' entries) := by
  induction entries with
  | nil => simp at h
  | cons first rest ih =>
      obtain ⟨k, v⟩ := first
      by_cases hk : k = key
      · simp [put, hk, hne]
      · have hrest : key ∈ rest.map Prod.fst := (List.mem_cons.mp h).resolve_left (Ne.symm hk)
        by_cases hk' : k = key'
        · simp [put, hk', Ne.symm hne]
        · simp [put, hk, hk', ih hrest]

/-! ### Entries up to their order -/

/-- Two lists have the same entries under every key, in the same order. -/
def Agree (entries entries' : List (κ × ν)) : Prop :=
  ∀ key : κ, entries.filter (·.1 == key) = entries'.filter (·.1 == key)

theorem filter_put_self (key : κ) (value : ν) (entries : List (κ × ν)) :
    (put key value entries).filter (·.1 == key) =
      (key, value) :: (entries.filter (·.1 == key)).tail := by
  induction entries with
  | nil => simp [put]
  | cons first later ih =>
      obtain ⟨k, v⟩ := first
      by_cases hk : k = key
      · simp [put, hk]
      · simpa [put, hk] using ih

theorem filter_put_of_ne {other : κ} (h : other ≠ key) (value : ν) (entries : List (κ × ν)) :
    (put key value entries).filter (·.1 == other) = entries.filter (·.1 == other) := by
  induction entries with
  | nil => simp [put, Ne.symm h]
  | cons first later ih =>
      obtain ⟨k, v⟩ := first
      by_cases hk : k = key
      · simp [put, hk, Ne.symm h]
      · simp [put, hk, List.filter_cons, ih]

namespace Agree

variable {entries entries' entries'' : List (κ × ν)}

omit [LawfulBEq κ] in
theorem refl (entries : List (κ × ν)) : Agree entries entries := fun _ => rfl

omit [LawfulBEq κ] in
theorem trans (h : Agree entries entries') (h' : Agree entries' entries'') :
    Agree entries entries'' := fun key => (h key).trans (h' key)

theorem put [DecidableEq κ] (h : Agree entries entries') (key : κ) (value : ν) :
    Agree (Entries.put key value entries) (Entries.put key value entries') := by
  intro other
  by_cases hother : other = key
  · rw [hother, filter_put_self, filter_put_self, h key]
  · rw [filter_put_of_ne hother, filter_put_of_ne hother, h other]

/-- Values of two keys may be set in either order. -/
theorem put_comm [DecidableEq κ] {key' : κ} (hne : key ≠ key') (value value' : ν)
    (entries : List (κ × ν)) :
    Agree (Entries.put key' value' (Entries.put key value entries))
      (Entries.put key value (Entries.put key' value' entries)) := by
  intro other
  by_cases hother : other = key
  · rw [hother, filter_put_of_ne hne, filter_put_self, filter_put_self, filter_put_of_ne hne]
  · rw [filter_put_of_ne hother]
    by_cases hother' : other = key'
    · rw [hother', filter_put_self, filter_put_self, filter_put_of_ne (Ne.symm hne)]
    · rw [filter_put_of_ne hother', filter_put_of_ne hother', filter_put_of_ne hother]

omit [LawfulBEq κ] in
theorem filter (h : Agree entries entries') (keeps : κ → Bool) :
    Agree (entries.filter fun e => keeps e.1) (entries'.filter fun e => keeps e.1) := by
  have hswap : ∀ (key : κ) (entries : List (κ × ν)),
      (entries.filter fun e => keeps e.1).filter (·.1 == key) =
        (entries.filter (·.1 == key)).filter fun e => keeps e.1 := by
    intro key entries
    simp only [List.filter_filter, Bool.and_comm]
  intro key
  rw [hswap, hswap, h key]

theorem perm (h : Agree entries entries') : entries.Perm entries' := by
  classical
  have hcount : ∀ (e : κ × ν) (entries : List (κ × ν)),
      (entries.filter (·.1 == e.1)).count e = entries.count e :=
    fun e entries => List.count_filter (beq_self_eq_true e.1)
  refine List.perm_iff_count.mpr fun e => ?_
  rw [← hcount e entries, h e.1, hcount e entries']

theorem lookup_eq (h : Agree entries entries') (key : κ) :
    entries.lookup key = entries'.lookup key := by
  have hhead : ∀ entries : List (κ × ν),
      entries.lookup key = (entries.filter (·.1 == key)).head?.map Prod.snd := by
    intro entries
    induction entries with
    | nil => rfl
    | cons first later ih =>
        obtain ⟨k, v⟩ := first
        by_cases hk : key = k
        · simp [hk]
        · simp [List.lookup_cons, beq_false_of_ne hk, beq_false_of_ne (Ne.symm hk), ih]
  rw [hhead, hhead, h key]

end Agree

/-- Two lists of entries begin alike, and the entries after that have a property. -/
def Aligned (P : ν → Prop) (entries entries' : List (κ × ν)) : Prop :=
  ∃ base new new', entries = base ++ new ∧ entries' = base ++ new' ∧
    (∀ e ∈ new, P e.2) ∧ ∀ e ∈ new', P e.2

namespace Aligned

variable {P : ν → Prop} {entries entries' entries'' : List (κ × ν)}

omit [BEq κ] [LawfulBEq κ] in
theorem refl (P : ν → Prop) (entries : List (κ × ν)) : Aligned P entries entries :=
  ⟨entries, [], [], by simp, by simp, by simp, by simp⟩

omit [BEq κ] [LawfulBEq κ] in
theorem trans (h : Aligned P entries entries') (h' : Aligned P entries' entries'') :
    Aligned P entries entries'' := by
  obtain ⟨base, new, new', rfl, rfl, hnew, hnew'⟩ := h
  obtain ⟨base', rest, rest', heq, rfl, hrest, hrest'⟩ := h'
  -- one beginning goes on where the other ends
  rcases List.append_eq_append_iff.mp heq with ⟨more, rfl, rfl⟩ | ⟨more, rfl, rfl⟩
  · refine ⟨base, new, more ++ rest', rfl, by simp, hnew, ?_⟩
    exact List.forall_mem_append.mpr ⟨(List.forall_mem_append.mp hnew').1, hrest'⟩
  · refine ⟨base', more ++ new, rest', by simp, rfl, ?_, hrest'⟩
    exact List.forall_mem_append.mpr ⟨(List.forall_mem_append.mp hrest).1, hnew⟩

theorem put (h : Aligned P entries entries') (key : κ) {value : ν} (hvalue : P value) :
    Aligned P (Entries.put key value entries) (Entries.put key value entries') := by
  obtain ⟨base, new, new', rfl, rfl, hnew, hnew'⟩ := h
  have hput : ∀ {new : List (κ × ν)}, (∀ e ∈ new, P e.2) → ∀ e ∈ Entries.put key value new, P e.2 := by
    intro new hnew e he
    rcases mem_of_mem_put he with rfl | hold
    · exact hvalue
    · exact hnew e hold
  by_cases hkey : key ∈ base.map Prod.fst
  · exact ⟨Entries.put key value base, new, new', put_append_of_mem hkey _ _,
      put_append_of_mem hkey _ _, hnew, hnew'⟩
  · exact ⟨base, Entries.put key value new, Entries.put key value new',
      put_append_of_notMem hkey _ _, put_append_of_notMem hkey _ _, hput hnew, hput hnew'⟩

theorem put_comm {key key' : κ} (hne : key ≠ key') {value value' : ν} (hvalue : P value)
    (hvalue' : P value') (entries : List (κ × ν)) :
    Aligned P (Entries.put key' value' (Entries.put key value entries))
      (Entries.put key value (Entries.put key' value' entries)) := by
  by_cases hkey : key ∈ entries.map Prod.fst
  · rw [put_comm_of_mem hne hkey]
    exact refl P _
  · by_cases hkey' : key' ∈ entries.map Prod.fst
    · rw [put_comm_of_mem (Ne.symm hne) hkey']
      exact refl P _
    · refine ⟨entries, [(key, value), (key', value')], [(key', value'), (key, value)], ?_, ?_, ?_, ?_⟩
      · rw [put_eq_append hkey, put_append_of_notMem hkey']
        simp [Entries.put, hne]
      · rw [put_eq_append hkey', put_append_of_notMem hkey]
        simp [Entries.put, Ne.symm hne]
      · simp [hvalue, hvalue']
      · simp [hvalue, hvalue']

omit [BEq κ] [LawfulBEq κ] in
theorem filter (h : Aligned P entries entries') (keeps : κ × ν → Bool) :
    Aligned P (entries.filter keeps) (entries'.filter keeps) := by
  obtain ⟨base, new, new', rfl, rfl, hnew, hnew'⟩ := h
  exact ⟨base.filter keeps, new.filter keeps, new'.filter keeps, List.filter_append ..,
    List.filter_append .., fun e he => hnew e (List.mem_filter.mp he).1,
    fun e he => hnew' e (List.mem_filter.mp he).1⟩

end Aligned

end ScriptGraph.Entries
