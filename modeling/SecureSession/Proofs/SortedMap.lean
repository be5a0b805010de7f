import SecureSession.SortedMap

/-! # Looking up in sorted maps

What each operation on a sorted map does to `get?`. Two maps are equal when they look the same at
every key, so `get?` is all that later proofs need to know of a map. -/

namespace SecureSession.SortedMap

variable {κ ν : Type} [Ord κ] [Std.LawfulEqOrd κ]

/-! ### Entries -/

theorem lookup_cons (k : κ) (e : κ × ν) (l : List (κ × ν)) [DecidableEq κ] :
    lookup k (e :: l) = if k = e.1 then some e.2 else lookup k l := by
  simp [lookup]

theorem lookup_eq_none {k : κ} : ∀ {l : List (κ × ν)}, (∀ e ∈ l, k ≠ e.1) → lookup k l = none
  | [], _ => rfl
  | e :: l, h => by
    classical
    rw [lookup_cons, if_neg (h e (by simp))]
    exact lookup_eq_none fun e he => h e (by simp [he])

theorem lookup_eq_some_iff {k : κ} {v : ν} : ∀ {l : List (κ × ν)},
    l.Pairwise (fun a b => compare a.1 b.1 = .lt) → (lookup k l = some v ↔ (k, v) ∈ l)
  | [], _ => by simp [lookup]
  | e :: l, h => by
    classical
    obtain ⟨he, hl⟩ := List.pairwise_cons.mp h
    rw [lookup_cons, List.mem_cons]
    by_cases hk : k = e.1
    · subst hk
      have hnot : (e.1, v) ∉ l := fun hm => by simpa using he _ hm
      rw [if_pos rfl]
      refine ⟨fun hv => .inl (by rw [← Option.some.inj hv]), fun hm => ?_⟩
      exact congrArg some (congrArg Prod.snd (hm.resolve_right hnot)).symm
    · rw [if_neg hk, lookup_eq_some_iff hl]
      exact ⟨.inr, fun hm => hm.resolve_left fun he => hk (congrArg Prod.fst he)⟩

theorem get?_eq_some_iff {m : SortedMap κ ν} {k : κ} {v : ν} :
    m.get? k = some v ↔ (k, v) ∈ m.entries := lookup_eq_some_iff m.sorted

theorem mem_keys_iff {m : SortedMap κ ν} {k : κ} : k ∈ m.keys ↔ ∃ v, m.get? k = some v := by
  simp [keys, get?_eq_some_iff]

omit [Std.LawfulEqOrd κ] in
theorem pairwise_keys (m : SortedMap κ ν) : m.keys.Pairwise fun a b => compare a b = .lt :=
  List.pairwise_map.mpr m.sorted

/-- What is listed in order is listed once. -/
theorem nodup_of_pairwise {l : List κ} (h : l.Pairwise fun a b => compare a b = .lt) : l.Nodup := by
  refine h.imp fun {a b} h heq => ?_
  have hself : compare b b = .eq := Std.ReflCmp.compare_self
  rw [heq, hself] at h
  cases h

theorem nodup_keys (m : SortedMap κ ν) : m.keys.Nodup := nodup_of_pairwise m.pairwise_keys

theorem nodup_entries (m : SortedMap κ ν) : m.entries.Nodup :=
  (List.pairwise_map.mp m.nodup_keys).imp fun hne heq => hne (congrArg Prod.fst heq)

/-- The same elements, in their order, make the same list. -/
theorem eq_of_mem_iff [Std.OrientedOrd κ] {l l' : List κ}
    (hl : l.Pairwise fun a b => compare a b = .lt) (hl' : l'.Pairwise fun a b => compare a b = .lt)
    (h : ∀ k, k ∈ l ↔ k ∈ l') : l = l' := by
  have hperm : l.Perm l' :=
    (List.perm_ext_iff_of_nodup (nodup_of_pairwise hl) (nodup_of_pairwise hl')).mpr h
  refine hperm.eq_of_pairwise (fun a b _ _ hab hba => ?_) hl hl'
  rw [Std.OrientedCmp.gt_of_lt hab] at hba
  cases hba

theorem keys_eq_of_mem_iff [Std.OrientedOrd κ] {m m' : SortedMap κ ν}
    (h : ∀ k, k ∈ m.keys ↔ k ∈ m'.keys) :
    m.keys = m'.keys := eq_of_mem_iff m.pairwise_keys m'.pairwise_keys h

/-- Maps that look the same at every key are equal. -/
theorem ext_get? [Std.OrientedOrd κ] {m m' : SortedMap κ ν}
    (h : ∀ k, m.get? k = m'.get? k) : m = m' := by
  have hperm : m.entries.Perm m'.entries :=
    (List.perm_ext_iff_of_nodup m.nodup_entries m'.nodup_entries).mpr fun ⟨k, v⟩ => by
      rw [← get?_eq_some_iff, ← get?_eq_some_iff, h]
  obtain ⟨entries, hsorted⟩ := m
  obtain ⟨entries', hsorted'⟩ := m'
  obtain rfl : entries = entries' := by
    refine hperm.eq_of_pairwise (fun a b _ _ hab hba => ?_) hsorted hsorted'
    rw [Std.OrientedCmp.gt_of_lt hab] at hba
    cases hba
  rfl

theorem mem_values_iff {m : SortedMap κ ν} {v : ν} : v ∈ m.values ↔ ∃ k, m.get? k = some v := by
  simp [values, get?_eq_some_iff]

omit [Std.LawfulEqOrd κ] in
@[simp] theorem get?_empty (k : κ) : (empty : SortedMap κ ν).get? k = none := rfl

/-! ### Insertion and removal -/

theorem lookup_insertEntry_self (k : κ) (v : ν) : ∀ l : List (κ × ν),
    lookup k (insertEntry k v l) = some v
  | [] => by simp [insertEntry, lookup]
  | e :: l => by
    unfold insertEntry
    split
    · simp [lookup]
    · simp [lookup]
    · rename_i h
      rw [lookup, if_neg (by simp [h])]
      exact lookup_insertEntry_self k v l

theorem lookup_insertEntry_of_ne {k k' : κ} (hk : k' ≠ k) (v : ν) : ∀ l : List (κ × ν),
    lookup k' (insertEntry k v l) = lookup k' l
  | [] => by simp [insertEntry, lookup, hk]
  | e :: l => by
    unfold insertEntry
    split
    · rw [lookup, if_neg (by simpa using hk)]
    · rename_i h
      have he : k = e.1 := Std.LawfulEqCmp.eq_of_compare h
      subst he
      simp [lookup, hk]
    · rw [lookup, lookup, lookup_insertEntry_of_ne hk v l]

theorem lookup_filter_ne (k k' : κ) [DecidableEq κ] : ∀ l : List (κ × ν),
    lookup k' (l.filter fun e => compare k e.1 != .eq) = if k' = k then none else lookup k' l
  | [] => by simp [lookup]
  | e :: l => by
    have ih := lookup_filter_ne k k' l
    by_cases hk : k = e.1
    · subst hk
      rw [List.filter_cons_of_neg (by simp), ih, lookup_cons]
      split <;> rfl
    · rw [List.filter_cons_of_pos (by simpa using hk), lookup_cons, lookup_cons, ih]
      by_cases he : k' = e.1
      · have hne : k' ≠ k := fun h => hk (h.symm.trans he)
        rw [if_pos he, if_neg hne, if_pos he]
      · rw [if_neg he, if_neg he]

theorem get?_erase (m : SortedMap κ ν) (k k' : κ) [DecidableEq κ] :
    (m.erase k).get? k' = if k' = k then none else m.get? k' := lookup_filter_ne k k' m.entries

/-! ### One entry and the others -/

theorem mem_entries_erase {m : SortedMap κ ν} {k : κ} {e : κ × ν} :
    e ∈ (m.erase k).entries ↔ e ∈ m.entries ∧ e.1 ≠ k := by
  rw [erase, List.mem_filter]
  refine and_congr_right fun _ => ?_
  rw [bne_iff_ne, ne_eq, ne_eq, Std.LawfulEqCmp.compare_eq_iff_eq, eq_comm]

/-- The entry at a key, apart from the others. -/
theorem perm_entries {m : SortedMap κ ν} {k : κ} {v : ν} (h : m.get? k = some v) :
    m.entries.Perm ((k, v) :: (m.erase k).entries) := by
  have hfresh : (k, v) ∉ (m.erase k).entries := fun hmem => (mem_entries_erase.mp hmem).2 rfl
  refine (List.perm_ext_iff_of_nodup m.nodup_entries
    (List.nodup_cons.mpr ⟨hfresh, (m.erase k).nodup_entries⟩)).mpr fun e => ?_
  rw [List.mem_cons, mem_entries_erase]
  constructor
  · intro he
    by_cases hk : e.1 = k
    · have hv : m.get? k = some e.2 := get?_eq_some_iff.mpr (hk ▸ he)
      rw [h] at hv
      exact .inl (Prod.ext hk (Option.some.inj hv).symm)
    · exact .inr ⟨he, hk⟩
  · rintro (rfl | ⟨he, -⟩)
    · exact get?_eq_some_iff.mp h
    · exact he

theorem entries_erase_of_none {m : SortedMap κ ν} {k : κ} (h : m.get? k = none) :
    (m.erase k).entries = m.entries := by
  rw [erase, List.filter_eq_self]
  intro e he
  rw [bne_iff_ne, ne_eq, Std.LawfulEqCmp.compare_eq_iff_eq]
  rintro rfl
  rw [get?_eq_some_iff.mpr he] at h
  cases h

/-! ### Many at once -/

/-- A map after a write per entry of a sorted list: what the list has at a key is written there. -/
theorem get?_foldl {α : Type} (write : SortedMap κ ν → κ × α → SortedMap κ ν)
    (effect : α → Option ν) [DecidableEq κ]
    (hwrite : ∀ m e k, (write m e).get? k = if k = e.1 then effect e.2 else m.get? k) (k : κ) :
    ∀ (l : List (κ × α)) (m : SortedMap κ ν), l.Pairwise (fun a b => compare a.1 b.1 = .lt) →
      (l.foldl write m).get? k = (lookup k l).elim (m.get? k) effect
  | [], m, _ => rfl
  | e :: l, m, h => by
    obtain ⟨he, hl⟩ := List.pairwise_cons.mp h
    rw [List.foldl_cons, get?_foldl write effect hwrite k l _ hl, hwrite, lookup_cons]
    split
    · rename_i hk
      have hnone : lookup k l = none := lookup_eq_none fun d hd hkd => by
        have := he d hd
        rw [← hk, ← hkd] at this
        simp at this
      rw [hnone]; rfl
    · rfl

/-! ### Operations that keep the order -/

variable [Std.TransOrd κ]

@[simp] theorem get?_insert_self (m : SortedMap κ ν) (k : κ) (v : ν) :
    (m.insert k v).get? k = some v := lookup_insertEntry_self k v m.entries

theorem get?_insert_of_ne (m : SortedMap κ ν) {k k' : κ} (h : k' ≠ k) (v : ν) :
    (m.insert k v).get? k' = m.get? k' := lookup_insertEntry_of_ne h v m.entries

theorem get?_insert (m : SortedMap κ ν) (k k' : κ) (v : ν) [DecidableEq κ] :
    (m.insert k v).get? k' = if k' = k then some v else m.get? k' := by
  split
  · subst k'; exact get?_insert_self ..
  · exact get?_insert_of_ne _ ‹_› _

theorem get?_modify (m : SortedMap κ ν) (k k' : κ) (f : ν → ν) [DecidableEq κ] :
    (m.modify k f).get? k' = if k' = k then (m.get? k).map f else m.get? k' := by
  unfold modify
  split
  · rename_i v hv
    rw [get?_insert, hv, Option.map_some]
  · rename_i hv
    split
    · subst k'; simp [hv]
    · rfl

theorem perm_entries_insert (m : SortedMap κ ν) (k : κ) (v : ν) :
    (m.insert k v).entries.Perm ((k, v) :: (m.erase k).entries) := by
  classical
  have herase : ((m.insert k v).erase k).entries.Perm (m.erase k).entries := by
    refine (List.perm_ext_iff_of_nodup (nodup_entries _) (nodup_entries _)).mpr fun e => ?_
    rw [mem_entries_erase, mem_entries_erase]
    refine and_congr_left fun hk => ?_
    have hget := m.get?_insert_of_ne hk v
    rw [← get?_eq_some_iff, ← get?_eq_some_iff, hget]
  exact (perm_entries (get?_insert_self m k v)).trans (herase.cons _)

theorem size_insert_of_none {m : SortedMap κ ν} {k : κ} (h : m.get? k = none) (v : ν) :
    (m.insert k v).size = m.size + 1 := by
  rw [size, (m.perm_entries_insert k v).length_eq, List.length_cons, entries_erase_of_none h, size]

/-- The elements of a sorted list are those of the list. -/
theorem mem_sortUnique {k : κ} {l : List κ} : k ∈ sortUnique l ↔ k ∈ l := by
  have h : ∀ (l : List (κ × Unit)) (m : SortedMap κ Unit),
      k ∈ (m.insertMany l).keys ↔ k ∈ m.keys ∨ k ∈ l.map Prod.fst := by
    classical
    intro l
    induction l with
    | nil => simp [insertMany]
    | cons e l ih =>
      intro m
      rw [show m.insertMany (e :: l) = (m.insert e.1 e.2).insertMany l from rfl, ih, mem_keys_iff,
        mem_keys_iff, List.map_cons, List.mem_cons]
      simp only [get?_insert]
      split <;> simp_all
  rw [sortUnique, h]
  simp [keys, empty, Function.comp_def]

end SecureSession.SortedMap
