import Mathlib

/-!
# Dictionaries

Finite maps with the operations of the map containers of C++, on Mathlib's `AList`. The order of
the entries is the order in which a traversal visits them; nothing that is stated about `lookup`
depends on it, and `Dict.reorder` puts the entries in any other order.

* `Dict.emplace` is `insert` of the containers: it leaves the value of a key that is present.
  With a default value it is also what reading through `operator[]` does to the map.
  Overwriting, as `map[key] = value` does, is `AList.insert`.
* `Dict.mapVal` applies a function to every value; `Dict.mapTo` does so with values of another type.
* `Dict.eraseFirst` erases the first entry that a predicate selects.
* `Dict.sweepOne` deletes, from a dictionary of lists, the first element that a predicate
  selects, and stops; `Dict.sweep` repeats it until nothing is selected.
* `Dict.elements` lists the elements of all lists.

## Main results

* `Dict.lookup_emplace`, `Dict.lookup_insert`, `Dict.lookup_erase`, `Dict.lookup_reorder`.
* `Dict.size_of_sweepOne`, `Dict.map_filter_dlookup_sweepEntries`: one deletion makes the dictionary
  smaller, and changes nothing that is not selected.
-/

namespace Foundation

/-- A finite map from `κ` to `ν`. -/
abbrev Dict (κ : Type*) (ν : Type*) := AList fun _ : κ => ν

namespace Dict

variable {κ ν : Type*} [DecidableEq κ]

/-- Insert a value unless the key is present. -/
def emplace (k : κ) (v : ν) (d : Dict κ ν) : Dict κ ν :=
  if k ∈ d then d else d.insert k v

/-- Erase the first entry selected by `p`, if there is one. -/
def eraseFirst (p : κ → ν → Bool) (d : Dict κ ν) : Dict κ ν :=
  match d.entries.find? fun e => p e.1 e.2 with
  | some e => d.erase e.1
  | none => d

/-- The key of the first entry selected by `p`, if there is one. -/
def firstKey (p : κ → ν → Bool) (d : Dict κ ν) : Option κ :=
  (d.entries.find? fun e => p e.1 e.2).map Sigma.fst

/-- Apply a function to every value. -/
def mapVal (f : ν → ν) (d : Dict κ ν) : Dict κ ν :=
  ⟨d.entries.map fun e => ⟨e.1, f e.2⟩, List.NodupKeys.map₂ (fun _ => f) d.entries d.nodupKeys⟩

/-- Visit the keys `order` first, in that order. -/
def reorder (order : List κ) (d : Dict κ ν) : Dict κ ν :=
  order.foldr (fun k d => match d.lookup k with
    | some v => d.insert k v
    | none => d) d

/-! ### Lookups -/

/-- The keys are those with a value. -/
theorem mem_iff_exists_lookup {k : κ} {d : Dict κ ν} : k ∈ d ↔ ∃ v, d.lookup k = some v := by
  rw [← AList.lookup_isSome, Option.isSome_iff_exists]

theorem lookup_insert (k k' : κ) (v : ν) (d : Dict κ ν) :
    (d.insert k v).lookup k' = if k' = k then some v else d.lookup k' := by
  split_ifs with hk
  · rw [hk, AList.lookup_insert]
  · rw [AList.lookup_insert_ne hk]

theorem lookup_erase (k k' : κ) (d : Dict κ ν) :
    (d.erase k).lookup k' = if k' = k then none else d.lookup k' := by
  split_ifs with hk
  · rw [hk, AList.lookup_erase]
  · rw [AList.lookup_erase_ne hk]

theorem lookup_emplace (k k' : κ) (v : ν) (d : Dict κ ν) :
    (emplace k v d).lookup k' = if k' = k then some ((d.lookup k).getD v) else d.lookup k' := by
  unfold emplace
  split_ifs with hmem hk hk
  · obtain ⟨w, hw⟩ := mem_iff_exists_lookup.mp hmem
    rw [hk, hw, Option.getD_some]
  · rfl
  · rw [hk, AList.lookup_insert, AList.lookup_eq_none.mpr hmem, Option.getD_none]
  · rw [AList.lookup_insert_ne hk]

@[simp] theorem lookup_emplace_self (k : κ) (v : ν) (d : Dict κ ν) :
    (emplace k v d).lookup k = some ((d.lookup k).getD v) := by
  rw [lookup_emplace, if_pos rfl]

/-- Reading through a missing key with a default and then falling back to that default is
falling back to it at once. -/
@[simp] theorem getD_lookup_emplace (k k' : κ) (v : ν) (d : Dict κ ν) :
    ((emplace k v d).lookup k').getD v = (d.lookup k').getD v := by
  rw [lookup_emplace]
  split_ifs with hk
  · rw [hk, Option.getD_some]
  · rfl

@[simp] theorem lookup_mapVal (f : ν → ν) (k : κ) (d : Dict κ ν) :
    (mapVal f d).lookup k = (d.lookup k).map f :=
  List.dlookup_map₂ (l := d.entries) (f := fun _ => f) k

@[simp] theorem lookup_reorder (order : List κ) (k : κ) (d : Dict κ ν) :
    (reorder order d).lookup k = d.lookup k := by
  unfold reorder
  induction order with
  | nil => rfl
  | cons k' order ih =>
    rw [List.foldr_cons]
    split
    · rename_i v hv
      rw [lookup_insert]
      split_ifs with hk
      · rw [← ih, hk, hv]
      · exact ih
    · exact ih

/-- Erasing the first selected entry erases its key. -/
theorem lookup_eraseFirst (p : κ → ν → Bool) (k : κ) (d : Dict κ ν) :
    (eraseFirst p d).lookup k = if firstKey p d = some k then none else d.lookup k := by
  unfold eraseFirst firstKey
  cases d.entries.find? fun e => p e.1 e.2 with
  | none => simp
  | some e =>
    rw [lookup_erase]
    simp only [Option.map_some, Option.some.injEq, eq_comm]

/-- What is left after `eraseFirst` was there before. -/
theorem lookup_of_lookup_eraseFirst {p : κ → ν → Bool} {d : Dict κ ν} {k : κ} {v : ν}
    (h : (eraseFirst p d).lookup k = some v) : d.lookup k = some v := by
  rw [lookup_eraseFirst] at h
  split_ifs at h
  exact h

/-- The first selected entry is selected. -/
theorem exists_lookup_of_firstKey {p : κ → ν → Bool} {d : Dict κ ν} {k : κ}
    (h : firstKey p d = some k) : ∃ v, d.lookup k = some v ∧ p k v = true := by
  obtain ⟨e, he, rfl⟩ := Option.map_eq_some_iff.mp h
  have hselected := List.find?_some he
  exact ⟨e.2, AList.mem_lookup_iff.mpr (List.mem_of_find?_eq_some he), hselected⟩

/-- Without a first selected entry, none is selected. -/
theorem eq_false_of_firstKey {p : κ → ν → Bool} {d : Dict κ ν} (h : firstKey p d = none) {k : κ}
    {v : ν} (hv : d.lookup k = some v) : p k v = false := by
  have hnone := List.find?_eq_none.mp (Option.map_eq_none_iff.mp h)
  simpa using hnone ⟨k, v⟩ (AList.mem_lookup_iff.mp hv)

/-! ### Keys -/

theorem mem_congr {d d' : Dict κ ν} {k : κ} (h : d'.lookup k = d.lookup k) : k ∈ d' ↔ k ∈ d := by
  rw [← AList.lookup_isSome, h, AList.lookup_isSome]

theorem mem_emplace_iff {k k' : κ} {v : ν} {d : Dict κ ν} :
    k' ∈ emplace k v d ↔ k' ∈ d ∨ k' = k := by
  rw [← AList.lookup_isSome, ← AList.lookup_isSome, lookup_emplace]
  split_ifs with hk <;> simp [hk]

/-! ### Entries -/

/-- Erasing a key takes its entry out. -/
theorem entries_erase {d : Dict κ ν} {before after : List (Σ _ : κ, ν)} {e : Σ _ : κ, ν}
    (h : d.entries = before ++ e :: after) : (d.erase e.1).entries = before ++ after := by
  have hkeys : d.entries.keys.Nodup := d.keys_nodup
  rw [h, List.keys_append, List.keys_cons, List.nodup_append] at hkeys
  have hbefore : e.1 ∉ before.keys := fun hmem =>
    hkeys.2.2 e.1 hmem e.1 List.mem_cons_self rfl
  change d.entries.kerase e.1 = before ++ after
  rw [h, List.kerase_append_right hbefore, List.kerase_cons_eq rfl]

/-- Any key can be visited first. -/
theorem exists_entries_reorder {d : Dict κ ν} {k : κ} {v : ν} (h : d.lookup k = some v) :
    ∃ order rest, (reorder order d).entries = ⟨k, v⟩ :: rest := by
  refine ⟨[k], d.entries.kerase k, ?_⟩
  rw [reorder, List.foldr_cons, List.foldr_nil, h]
  rfl

/-- The order of the entries is all in which two dictionaries with the same lookups differ. -/
theorem entries_perm {d d' : Dict κ ν} (h : ∀ k, d'.lookup k = d.lookup k) :
    d'.entries.Perm d.entries := by
  refine List.lookup_ext d'.nodupKeys d.nodupKeys fun k v => ?_
  change v ∈ d'.lookup k ↔ v ∈ d.lookup k
  rw [h k]

/-- The entries that are to be visited first are visited first. -/
theorem entries_reorder_keys {d : Dict κ ν} : ∀ {es : List (Σ _ : κ, ν)}, es.NodupKeys →
    (∀ e ∈ es, d.lookup e.1 = some e.2) → es <+: (reorder es.keys d).entries
  | [], _, _ => List.nil_prefix
  | e :: es, hnodup, hes => by
      obtain ⟨hnotMem, hrest⟩ := List.nodupKeys_cons.mp hnodup
      obtain ⟨rest, hentries⟩ :=
        entries_reorder_keys hrest fun e' he' => hes e' (List.mem_cons_of_mem e he')
      have hlook : (reorder es.keys d).lookup e.1 = some e.2 := by
        rw [lookup_reorder]
        exact hes e List.mem_cons_self
      have hinsert : (reorder (e :: es).keys d).entries =
          e :: (reorder es.keys d).entries.kerase e.1 := by
        rw [List.keys_cons, reorder, List.foldr_cons]
        change AList.entries (match (reorder es.keys d).lookup e.1 with
          | some v => (reorder es.keys d).insert e.1 v
          | none => reorder es.keys d) = _
        rw [hlook]
        rfl
      refine ⟨rest.kerase e.1, ?_⟩
      rw [hinsert, ← hentries, List.kerase_append_right hnotMem, List.cons_append]

/-- Any order of the entries can be reached. -/
theorem reorder_keys {d d' : Dict κ ν} (h : ∀ k, d'.lookup k = d.lookup k) :
    reorder d'.keys d = d' := by
  refine AList.ext ?_
  have hes : ∀ e ∈ d'.entries, d.lookup e.1 = some e.2 := fun e he => by
    rw [← h]
    exact AList.mem_lookup_iff.mpr he
  have hperm := entries_perm fun k => (lookup_reorder d'.keys k d).trans (h k).symm
  exact ((entries_reorder_keys d'.nodupKeys hes).eq_of_length hperm.length_eq.symm).symm

/-! ### Sweeping a dictionary of lists -/

section Sweep

variable (stale : ν → Bool)

/-- Delete the first selected element of the first list that has one. -/
def sweepEntries : List (Σ _ : κ, List ν) → Option (List (Σ _ : κ, List ν))
  | [] => none
  | ⟨k, vec⟩ :: rest =>
    if vec.any stale then some (⟨k, vec.eraseP stale⟩ :: rest)
    else (sweepEntries rest).map (⟨k, vec⟩ :: ·)

omit [DecidableEq κ] in
theorem keys_sweepEntries : ∀ {es es' : List (Σ _ : κ, List ν)},
    sweepEntries stale es = some es' → es'.keys = es.keys
  | [], _, h => by simp [sweepEntries] at h
  | ⟨k, vec⟩ :: rest, es', h => by
      rw [sweepEntries] at h
      split_ifs at h
      · obtain rfl := Option.some.inj h
        rfl
      · obtain ⟨rest', hrest, rfl⟩ := Option.map_eq_some_iff.mp h
        rw [List.keys_cons, List.keys_cons, keys_sweepEntries hrest]

/-- Delete the first selected element of the first list that has one; `none` when no element is
selected. -/
def sweepOne (d : Dict κ (List ν)) : Option (Dict κ (List ν)) :=
  (sweepEntries stale d.entries).pmap (fun es h => ⟨es, h⟩) fun es h => by
    rw [List.NodupKeys, keys_sweepEntries stale h]
    exact d.keys_nodup

/-- Repeat `sweepOne` until no element is selected, at most `n` times. -/
def sweepUpTo : ℕ → Dict κ (List ν) → Dict κ (List ν)
  | 0, d => d
  | n + 1, d =>
    match sweepOne stale d with
    | some d' => sweepUpTo n d'
    | none => d

/-- The number of elements of all lists. -/
def size (d : Dict κ (List ν)) : ℕ := (d.entries.map fun e => e.2.length).sum

omit [DecidableEq κ] in
/-- A dictionary without empty lists has at most as many keys as its lists have elements. -/
theorem length_entries_le_size {d : Dict κ (List ν)} (h : ∀ e ∈ d.entries, e.2 ≠ []) :
    d.entries.length ≤ size d := by
  have hone : ∀ n ∈ d.entries.map fun e => e.2.length, 1 ≤ n := by
    intro n hn
    obtain ⟨e, he, rfl⟩ := List.mem_map.mp hn
    exact List.length_pos_of_ne_nil (h e he)
  have hle := List.length_le_sum_of_one_le _ hone
  rwa [List.length_map] at hle

/-- Repeat `sweepOne` until no element is selected. Every repetition deletes one element, so
their number bounds the repetitions (`Dict.loop_sweep`). -/
def sweep (d : Dict κ (List ν)) : Dict κ (List ν) := sweepUpTo stale (size d) d

variable {stale}

omit [DecidableEq κ] in
theorem sweepEntries_of_sweepOne {d d' : Dict κ (List ν)} (h : sweepOne stale d = some d') :
    sweepEntries stale d.entries = some d'.entries := by
  obtain ⟨es, _, hes, rfl⟩ := Option.pmap_eq_some_iff.mp h
  exact hes

omit [DecidableEq κ] in
theorem any_eq_false_of_sweepEntries : ∀ {es : List (Σ _ : κ, List ν)},
    sweepEntries stale es = none → ∀ e ∈ es, e.2.any stale = false
  | [], _, e, he => by simp at he
  | ⟨k, vec⟩ :: rest, h, e, he => by
      rw [sweepEntries] at h
      split_ifs at h with hany
      rcases List.mem_cons.mp he with rfl | he
      · exact Bool.eq_false_iff.mpr hany
      · exact any_eq_false_of_sweepEntries (Option.map_eq_none_iff.mp h) e he

omit [DecidableEq κ] in
/-- One deletion removes one element. -/
theorem sum_length_sweepEntries : ∀ {es es' : List (Σ _ : κ, List ν)},
    sweepEntries stale es = some es' →
      (es'.map fun e => e.2.length).sum + 1 = (es.map fun e => e.2.length).sum
  | [], _, h => by simp [sweepEntries] at h
  | ⟨k, vec⟩ :: rest, es', h => by
      rw [sweepEntries] at h
      split_ifs at h with hany
      · obtain rfl := Option.some.inj h
        obtain ⟨x, hx, hstale⟩ := List.any_eq_true.mp hany
        have hlen : (vec.eraseP stale).length + 1 = vec.length := by
          have hpos : 0 < vec.length := List.length_pos_of_mem hx
          rw [List.length_eraseP_of_mem hx hstale]
          omega
        simp only [List.map_cons, List.sum_cons]
        omega
      · obtain ⟨rest', hrest, rfl⟩ := Option.map_eq_some_iff.mp h
        have ih := sum_length_sweepEntries hrest
        simp only [List.map_cons, List.sum_cons]
        omega

/-- Deleting a selected element does not change what a list keeps under the filter. -/
theorem filter_eraseP (vec : List ν) :
    (vec.eraseP stale).filter (fun x => !stale x) = vec.filter fun x => !stale x := by
  induction vec with
  | nil => rfl
  | cons x vec ih =>
    by_cases hx : stale x
    · simp [hx]
    · simp [hx, ih]

theorem map_filter_dlookup_sweepEntries (k : κ) : ∀ {es es' : List (Σ _ : κ, List ν)},
    sweepEntries stale es = some es' →
      (es'.dlookup k).map (List.filter fun x => !stale x) =
        (es.dlookup k).map (List.filter fun x => !stale x)
  | [], _, h => by simp [sweepEntries] at h
  | ⟨k', vec⟩ :: rest, es', h => by
      rw [sweepEntries] at h
      split_ifs at h with hany
      · obtain rfl := Option.some.inj h
        by_cases hk : k = k'
        · subst hk
          simp [List.dlookup_cons_eq, filter_eraseP]
        · simp [List.dlookup_cons_ne _ ⟨k', _⟩ hk]
      · obtain ⟨rest', hrest, rfl⟩ := Option.map_eq_some_iff.mp h
        by_cases hk : k = k'
        · subst hk
          simp [List.dlookup_cons_eq]
        · rw [List.dlookup_cons_ne _ ⟨k', _⟩ hk, List.dlookup_cons_ne _ ⟨k', _⟩ hk]
          exact map_filter_dlookup_sweepEntries k hrest

omit [DecidableEq κ] in
theorem size_of_sweepOne {d d' : Dict κ (List ν)} (h : sweepOne stale d = some d') :
    size d' + 1 = size d :=
  sum_length_sweepEntries (sweepEntries_of_sweepOne h)

/-- When `sweepOne` finds nothing, no list has a selected element. -/
theorem stale_eq_false_of_sweepOne {d : Dict κ (List ν)} (h : sweepOne stale d = none) {k : κ}
    {vec : List ν} (hvec : d.lookup k = some vec) {x : ν} (hx : x ∈ vec) : stale x = false := by
  have hnone : sweepEntries stale d.entries = none := Option.pmap_eq_none_iff.mp h
  have hmem : (⟨k, vec⟩ : Σ _ : κ, List ν) ∈ d.entries := AList.mem_lookup_iff.mp hvec
  have hany := any_eq_false_of_sweepEntries hnone _ hmem
  simpa using List.any_eq_false.mp hany x hx

end Sweep

/-! ### Images of the values -/

section Views

variable {μ : Type*} (f : ν → μ)

/-- The dictionary of the images of all values. -/
def mapTo (d : Dict κ ν) : Dict κ μ :=
  ⟨d.entries.map fun e => ⟨e.1, f e.2⟩, List.NodupKeys.map₂ (fun _ => f) d.entries d.nodupKeys⟩

@[simp] theorem lookup_mapTo (k : κ) (d : Dict κ ν) :
    (mapTo f d).lookup k = (d.lookup k).map f :=
  List.dlookup_map₂ (l := d.entries) (f := fun _ => f) k

theorem mapTo_insert (k : κ) (v : ν) (d : Dict κ ν) :
    mapTo f (d.insert k v) = (mapTo f d).insert k (f v) := by
  refine AList.ext ?_
  change (⟨k, v⟩ :: d.entries.kerase k).map (fun e => (⟨e.1, f e.2⟩ : Σ _ : κ, μ)) =
    ⟨k, f v⟩ :: (d.entries.map fun e => (⟨e.1, f e.2⟩ : Σ _ : κ, μ)).kerase k
  rw [List.map_cons, List.kerase, List.kerase, List.eraseP_map]
  rfl

theorem mapTo_reorder (order : List κ) (d : Dict κ ν) :
    mapTo f (reorder order d) = reorder order (mapTo f d) := by
  unfold reorder
  induction order with
  | nil => rfl
  | cons k order ih =>
    rw [List.foldr_cons, List.foldr_cons, ← ih, lookup_mapTo]
    cases (order.foldr _ d).lookup k with
    | none => simp
    | some v => simp [mapTo_insert]

end Views

/-! ### Elements of the lists -/

section Elements

/-- The elements of all lists. -/
def elements (d : Dict κ (List ν)) : List ν := d.entries.flatMap fun e => e.2

omit [DecidableEq κ] in
theorem size_eq (d : Dict κ (List ν)) : size d = d.elements.length := by
  rw [elements, List.length_flatMap]
  rfl

theorem mem_elements_iff {x : ν} {d : Dict κ (List ν)} :
    x ∈ d.elements ↔ ∃ k vec, d.lookup k = some vec ∧ x ∈ vec := by
  rw [elements, List.mem_flatMap]
  constructor
  · rintro ⟨e, he, hx⟩
    exact ⟨e.1, e.2, AList.mem_lookup_iff.mpr he, hx⟩
  · rintro ⟨k, vec, hvec, hx⟩
    exact ⟨⟨k, vec⟩, AList.mem_lookup_iff.mp hvec, hx⟩

omit [DecidableEq κ] in
theorem elements_mapTo {μ : Type*} (f : ν → μ) (d : Dict κ (List ν)) :
    elements (mapTo (List.map f) d) = d.elements.map f := by
  rw [elements, mapTo, List.flatMap_map, elements, List.map_flatMap]

omit [DecidableEq κ] in
theorem size_mapTo {μ : Type*} (f : ν → μ) (d : Dict κ (List ν)) :
    size (mapTo (List.map f) d) = size d := by
  rw [size_eq, elements_mapTo, List.length_map, size_eq]

theorem elements_insert (k : κ) (vec : List ν) (d : Dict κ (List ν)) :
    elements (d.insert k vec) = vec ++ elements (d.erase k) := rfl

/-- The elements under one key, and the others. -/
theorem elements_perm (k : κ) (d : Dict κ (List ν)) :
    d.elements.Perm ((d.lookup k).getD [] ++ elements (d.erase k)) := by
  cases hk : d.lookup k with
  | none =>
    have hentries : (d.erase k).entries = d.entries :=
      List.kerase_of_notMem_keys (AList.lookup_eq_none.mp hk)
    rw [elements, elements, hentries]
    exact List.Perm.refl _
  | some vec =>
    have hlook : ∀ k', (d.insert k vec).lookup k' = d.lookup k' := fun k' => by
      rw [lookup_insert]
      by_cases hk' : k' = k
      · rw [if_pos hk', hk', hk]
      · rw [if_neg hk']
    rw [Option.getD_some, ← elements_insert]
    exact (entries_perm hlook).symm.flatMap_right _

theorem elements_emplace (k : κ) (d : Dict κ (List ν)) : (emplace k [] d).elements = d.elements := by
  unfold emplace
  by_cases hk : k ∈ d
  · rw [if_pos hk]
  · rw [if_neg hk, elements, AList.entries_insert_of_notMem hk]
    rfl

theorem elements_reorder (order : List κ) (d : Dict κ (List ν)) :
    (reorder order d).elements.Perm d.elements :=
  (entries_perm fun k => lookup_reorder order k d).flatMap_right _

end Elements

end Dict

end Foundation
