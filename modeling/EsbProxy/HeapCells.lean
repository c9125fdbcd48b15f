import EsbProxy.HeapRegistries

/-!
# Cells

A cell is a registered method on the heap: the pointers to its two blocks, and the method. The cells
of a registry say what its pointers reach and which blocks belong to it; the handlers take cells to
cells.

## Main definitions

* `Cell`, `Cells`, `blocksOf`.
* `Holds`: the pointers of a registry point to its cells, and the heap consists of their blocks and
  of others.

## Main results

* `Holds.touch`, `Holds.push`, `Holds.erase`: what the handlers do to one method.
* `findMethod_cases`, `Holds.healthCheck_cases`, `Holds.healthChecks_eq`: the loops over the methods.
-/

namespace EsbProxy

open Foundation

/-! ### Cells -/

/-- A method in memory: the pointers to its two blocks, and what it is. -/
structure Cell where
  ptr : ℕ
  identifier : ℕ
  method : InvokeMethod

namespace Cell

/-- The block of a method. -/
def entry (c : Cell) : MethodEntry where
  identifier := c.identifier
  ownerGuid := c.method.ownerGuid
  methodGuid := c.method.methodGuid
  lastCheckTime := c.method.lastCheckTime

/-- The two blocks of a method. -/
def blocks (c : Cell) : List (Σ _ : ℕ, Block) :=
  [⟨c.ptr, .method c.entry⟩, ⟨c.identifier, .chars c.method.identifier⟩]

/-- The method with another time. -/
def touch (time : ℤ) (c : Cell) : Cell :=
  { c with method := { c.method with lastCheckTime := time } }

end Cell

/-- The methods that a registry of pointers stands for. -/
abbrev Cells := Dict Bytes (List Cell)

/-- The blocks of the methods of a registry. -/
def blocksOf (cells : Cells) : List (Σ _ : ℕ, Block) := cells.elements.flatMap Cell.blocks

/-- The pointers of a registry point to the cells, and the heap consists of their blocks and of
others. -/
structure Holds (memory : Heap Block) (methods : Pointers) (cells : Cells)
    (others : List (Σ _ : ℕ, Block)) : Prop where
  lookup : ∀ i, methods.lookup i = (cells.lookup i).map (List.map Cell.ptr)
  owns : memory.Owns (blocksOf cells ++ others)

/-- The cells hold the methods of a registry. -/
def Shows (cells : Cells) (registry : Registry) : Prop :=
  ∀ i, registry.lookup i = (cells.lookup i).map (List.map Cell.method)

section

variable {memory : Heap Block} {methods : Pointers} {cells : Cells} {registry : Registry}
  {others : List (Σ _ : ℕ, Block)} {i : Bytes} {vec before after : List Cell} {c : Cell}

/-! ### The blocks of one cell -/

theorem blocksOf_insert_perm (i : Bytes) (before after : List Cell) (c : Cell) (cells : Cells) :
    (blocksOf (cells.insert i (before ++ c :: after))).Perm
      (c.blocks ++ blocksOf (cells.insert i (before ++ after))) := by
  have hmiddle : (before ++ c :: after).Perm (c :: (before ++ after)) := List.perm_middle
  rw [blocksOf, blocksOf, Dict.elements_insert, Dict.elements_insert, ← List.flatMap_cons,
    ← List.cons_append]
  exact (hmiddle.append_right _).flatMap_right _

theorem blocksOf_insert_self (hvec : cells.lookup i = some vec) :
    (blocksOf cells).Perm (blocksOf (cells.insert i vec)) := by
  have hperm := Dict.elements_perm i cells
  rw [hvec, Option.getD_some] at hperm
  rw [blocksOf, blocksOf, Dict.elements_insert]
  exact hperm.flatMap_right _

/-- The blocks of a cell, and those of the other ones. -/
theorem blocksOf_perm (hvec : cells.lookup i = some (before ++ c :: after)) :
    (blocksOf cells).Perm (c.blocks ++ blocksOf (cells.insert i (before ++ after))) :=
  (blocksOf_insert_self hvec).trans (blocksOf_insert_perm i before after c cells)

theorem mem_blocksOf (hvec : cells.lookup i = some vec) (hc : c ∈ vec) {b : Σ _ : ℕ, Block}
    (hb : b ∈ c.blocks) : b ∈ blocksOf cells := by
  obtain ⟨before, after, rfl⟩ := List.append_of_mem hc
  exact (blocksOf_perm hvec).mem_iff.mpr (List.mem_append_left _ hb)

namespace Holds

/-- The method of a cell can be read. -/
theorem methodAt_eq (h : Holds memory methods cells others) (hvec : cells.lookup i = some vec)
    (hc : c ∈ vec) : methodAt memory c.ptr = some c.entry := by
  have hmem : (⟨c.ptr, .method c.entry⟩ : Σ _ : ℕ, Block) ∈ c.blocks := List.mem_cons_self
  rw [methodAt, h.owns.load_of_mem (List.mem_append_left _ (mem_blocksOf hvec hc hmem))]

/-- The identifier of a cell can be read. -/
theorem charsAt_eq (h : Holds memory methods cells others) (hvec : cells.lookup i = some vec)
    (hc : c ∈ vec) : charsAt memory c.identifier = some c.method.identifier := by
  have hmem : (⟨c.identifier, .chars c.method.identifier⟩ : Σ _ : ℕ, Block) ∈ c.blocks := by
    simp [Cell.blocks]
  rw [charsAt, h.owns.load_of_mem (List.mem_append_left _ (mem_blocksOf hvec hc hmem))]

theorem readMethod_eq (h : Holds memory methods cells others) (hvec : cells.lookup i = some vec)
    (hc : c ∈ vec) : readMethod memory c.ptr = some c.method := by
  have hchars : charsAt memory c.entry.identifier = some c.method.identifier :=
    h.charsAt_eq hvec hc
  simp only [readMethod, h.methodAt_eq hvec hc, hchars, Option.bind_eq_bind,
    Option.bind_some]
  rfl

theorem pointersOf_eq (h : Holds memory methods cells others) (i : Bytes) :
    pointersOf methods i = ((cells.lookup i).getD []).map Cell.ptr := by
  rw [pointersOf, h.lookup]
  cases cells.lookup i <;> rfl

/-- The other blocks may be listed in any order. -/
theorem perm (h : Holds memory methods cells others) {others' : List (Σ _ : ℕ, Block)}
    (hperm : others.Perm others') : Holds memory methods cells others' :=
  ⟨h.lookup, h.owns.perm (hperm.append_left _)⟩

/-- Reading through a missing identifier files an empty vector. -/
theorem emplace (h : Holds memory methods cells others) (i : Bytes) :
    Holds memory (methods.emplace i []) (cells.emplace i []) others where
  lookup i' := by
    rw [Dict.lookup_emplace, Dict.lookup_emplace, h.lookup, h.lookup]
    split_ifs
    · cases cells.lookup i <;> rfl
    · rfl
  owns := by
    rw [blocksOf, Dict.elements_emplace]
    exact h.owns

/-- **Touch.** The block of a method is overwritten. -/
theorem touch (h : Holds memory methods cells others)
    (hvec : cells.lookup i = some (before ++ c :: after)) (time : ℤ) :
    ∃ memory', memory.store c.ptr (.method { c.entry with lastCheckTime := time }) = some memory' ∧
      Holds memory' methods (cells.insert i (before ++ c.touch time :: after)) others := by
  have hperm := (blocksOf_perm hvec).append_right others
  obtain ⟨memory', hstore, howns⟩ := Heap.Owns.store (h.owns.perm hperm)
    (.method { c.entry with lastCheckTime := time })
  refine ⟨memory', hstore, fun i' => ?_, ?_⟩
  · rw [Dict.lookup_insert, h.lookup]
    split_ifs with hi
    · rw [hi, hvec, Option.map_some, Option.map_some, List.map_append, List.map_append]
      rfl
    · rfl
  · refine howns.perm ?_
    exact ((blocksOf_insert_perm i before after (c.touch time) cells).append_right others).symm

/-- **Push.** The two blocks of a new method go over to the registry. -/
theorem push (h : Holds memory methods cells (c.blocks ++ others))
    (hvec : cells.lookup i = some vec) :
    Holds memory (methods.insert i (vec.map Cell.ptr ++ [c.ptr])) (cells.insert i (vec ++ [c]))
      others where
  lookup i' := by
    rw [Dict.lookup_insert, Dict.lookup_insert, h.lookup]
    split_ifs
    · rw [Option.map_some, List.map_append]
      rfl
    · rfl
  owns := by
    have hinsert := blocksOf_insert_perm i vec [] c cells
    rw [List.append_nil] at hinsert
    have hmove : (blocksOf (cells.insert i vec) ++ (c.blocks ++ others)).Perm
        (c.blocks ++ blocksOf (cells.insert i vec) ++ others) := by
      rw [← List.append_assoc]
      exact List.perm_append_comm.append_right others
    have hsame := (blocksOf_insert_self hvec).append_right (c.blocks ++ others)
    exact h.owns.perm ((hsame.trans hmove).trans (hinsert.symm.append_right others))

/-- **Erase.** Both blocks of a method are freed. -/
theorem erase (h : Holds memory methods cells others)
    (hvec : cells.lookup i = some (before ++ c :: after)) :
    ∃ memory₁ memory₂, memory.free c.identifier = some memory₁ ∧
      memory₁.free c.ptr = some memory₂ ∧
      Holds memory₂ (methods.insert i (before.map Cell.ptr ++ after.map Cell.ptr))
        (cells.insert i (before ++ after)) others := by
  have hperm := (blocksOf_perm hvec).append_right others
  obtain ⟨memory₁, hfree₁, howns₁⟩ := Heap.Owns.free ((h.owns.perm hperm).perm (List.Perm.swap ..))
  obtain ⟨memory₂, hfree₂, howns₂⟩ := Heap.Owns.free howns₁
  refine ⟨memory₁, memory₂, hfree₁, hfree₂, fun i' => ?_, howns₂⟩
  rw [Dict.lookup_insert, Dict.lookup_insert, h.lookup]
  split_ifs
  · rw [Option.map_some, List.map_append]
  · rfl

end Holds

/-! ### Loops over the methods -/

/-- **Find.** The loop over a vector stops at the first method that is selected, if there is one. -/
theorem findMethod_cases (selects : MethodEntry → Bool) (p : InvokeMethod → Bool)
    (hselects : ∀ c : Cell, selects c.entry = p c.method) : ∀ {vec : List Cell},
    (∀ c ∈ vec, methodAt memory c.ptr = some c.entry) →
      (findMethod selects memory (vec.map Cell.ptr) = some none ∧ ∀ c ∈ vec, p c.method = false) ∨
      ∃ before c after, vec = before ++ c :: after ∧ (∀ c' ∈ before, p c'.method = false) ∧
        p c.method = true ∧ findMethod selects memory (vec.map Cell.ptr) =
          some (some ⟨before.map Cell.ptr, c.ptr, after.map Cell.ptr⟩)
  | [], _ => .inl ⟨rfl, by simp⟩
  | c :: vec, hread => by
      obtain ⟨hc, hrest⟩ := List.forall_mem_cons.mp hread
      simp only [List.map_cons, findMethod, hc, Option.bind_eq_bind, Option.bind_some, hselects]
      by_cases hp : p c.method = true
      · exact .inr ⟨[], c, vec, rfl, by simp, hp, by rw [if_pos hp]; rfl⟩
      · rw [if_neg hp]
        obtain ⟨hnone, hall⟩ | ⟨before, c', after, rfl, hbefore, hc', hfind⟩ :=
          findMethod_cases selects p hselects hrest
        · refine .inl ⟨by rw [hnone]; rfl, List.forall_mem_cons.mpr ⟨?_, hall⟩⟩
          exact Bool.eq_false_iff.mpr hp
        · refine .inr ⟨c :: before, c', after, rfl, ?_, hc', by rw [hfind]; rfl⟩
          exact List.forall_mem_cons.mpr ⟨Bool.eq_false_iff.mpr hp, hbefore⟩

variable {ttl now : ℤ}

/-- The loop over a registry stops at a stale method, unless there is none. -/
theorem Holds.findStale_cases (h : Holds memory methods cells others) (ttl now : ℤ) :
    ∀ {es : List (Σ _ : Bytes, List ℕ)},
    (∀ e ∈ es, ∃ vec, cells.lookup e.1 = some vec ∧ e.2 = vec.map Cell.ptr) →
      (findStale ttl now memory es = some none ∧ ∀ e ∈ es, ∀ vec, cells.lookup e.1 = some vec →
        ∀ c ∈ vec, Proxy.isStale ttl now c.method = false) ∨
      ∃ i before c after, cells.lookup i = some (before ++ c :: after) ∧
        Proxy.isStale ttl now c.method = true ∧ findStale ttl now memory es =
          some (some (i, ⟨before.map Cell.ptr, c.ptr, after.map Cell.ptr⟩))
  | [], _ => .inl ⟨rfl, by simp⟩
  | e :: es, hes => by
      obtain ⟨⟨vec, hvec, hptrs⟩, hrest⟩ := List.forall_mem_cons.mp hes
      simp only [findStale, hptrs, Option.bind_eq_bind]
      obtain ⟨hnone, hall⟩ | ⟨before, c, after, rfl, -, hc, hfind⟩ :=
        findMethod_cases (MethodEntry.isStale ttl now) (Proxy.isStale ttl now) (fun _ => rfl)
          fun c hc => h.methodAt_eq hvec hc
      · simp only [hnone, Option.bind_some]
        obtain ⟨hrestNone, hrestAll⟩ | hfound := h.findStale_cases ttl now hrest
        · refine .inl ⟨hrestNone, List.forall_mem_cons.mpr ⟨fun vec' hvec' => ?_, hrestAll⟩⟩
          rw [hvec] at hvec'
          obtain rfl := Option.some.inj hvec'
          exact hall
        · exact .inr hfound
      · exact .inr ⟨e.1, before, c, after, hvec, hc, by simp only [hfind, Option.bind_some]⟩

/-- **One health check.** It frees a stale method, unless there is none. -/
theorem Holds.healthCheck_cases (h : Holds memory methods cells others) (ttl now : ℤ) :
    (healthCheck ttl now methods memory = some none ∧ ∀ i vec, cells.lookup i = some vec →
        ∀ c ∈ vec, Proxy.isStale ttl now c.method = false) ∨
      ∃ i before c after methods' memory', cells.lookup i = some (before ++ c :: after) ∧
        Proxy.isStale ttl now c.method = true ∧
        healthCheck ttl now methods memory = some (some (methods', memory')) ∧
        Holds memory' methods' (cells.insert i (before ++ after)) others := by
  have hentries : ∀ e ∈ methods.entries,
      ∃ vec, cells.lookup e.1 = some vec ∧ e.2 = vec.map Cell.ptr := fun e he => by
    have hlook : methods.lookup e.1 = some e.2 := AList.mem_lookup_iff.mpr he
    rw [h.lookup] at hlook
    obtain ⟨vec, hvec, hptrs⟩ := Option.map_eq_some_iff.mp hlook
    exact ⟨vec, hvec, hptrs.symm⟩
  obtain ⟨hnone, hall⟩ | ⟨i, before, c, after, hvec, hc, hfind⟩ :=
    h.findStale_cases ttl now hentries
  · refine .inl ⟨by simp only [healthCheck, hnone, Option.bind_eq_bind, Option.bind_some], ?_⟩
    intro i vec hvec
    have hlook : methods.lookup i = some (vec.map Cell.ptr) := by rw [h.lookup, hvec]; rfl
    exact hall ⟨i, vec.map Cell.ptr⟩ (AList.mem_lookup_iff.mp hlook) vec hvec
  · have hmem : c ∈ before ++ c :: after := by simp
    obtain ⟨memory₁, memory₂, hfree₁, hfree₂, hholds⟩ := h.erase hvec
    have hchars : charsAt memory c.entry.identifier = some c.method.identifier :=
      h.charsAt_eq hvec hmem
    have hfree : memory.free c.entry.identifier = some memory₁ := hfree₁
    refine .inr ⟨i, before, c, after, _, memory₂, hvec, hc, ?_, hholds⟩
    simp only [healthCheck, hfind, h.methodAt_eq hvec hmem, hchars, hfree, hfree₂,
      Option.bind_eq_bind, Option.bind_some, Iterator.erase]

/-- A registry has as many pointers as cells. -/
theorem Holds.size_eq (h : Holds memory methods cells others) :
    methods.size = cells.elements.length := by
  have hlook : ∀ i, methods.lookup i = (cells.mapTo (List.map Cell.ptr)).lookup i := fun i => by
    rw [h.lookup, Dict.lookup_mapTo]
  rw [← Dict.size_eq, Dict.size, ((Dict.entries_perm hlook).map _).sum_eq]
  exact Dict.size_mapTo Cell.ptr cells

/-- What is stale is filtered out, whatever else was deleted that is stale. -/
theorem map_filter_lookup_insert {p : Cell → Bool}
    (hvec : cells.lookup i = some (before ++ c :: after)) (hc : p c = true) (i' : Bytes) :
    ((cells.insert i (before ++ after)).lookup i').map (List.filter fun c => !p c) =
      (cells.lookup i').map (List.filter fun c => !p c) := by
  rw [Dict.lookup_insert]
  split_ifs with hi
  · rw [hi, hvec]
    simp [hc]
  · rfl

/-- **The loops around the health checks.** They free the stale methods, and no others. -/
theorem Holds.healthChecksUpTo_eq (ttl now : ℤ) : ∀ {n : ℕ} {methods : Pointers}
    {memory : Heap Block} {cells : Cells}, Holds memory methods cells others →
    cells.elements.length ≤ n → ∃ methods' memory' cells',
      healthChecksUpTo ttl now n methods memory = some (methods', memory') ∧
        Holds memory' methods' cells' others ∧ ∀ i, cells'.lookup i =
          (cells.lookup i).map (List.filter fun c => !Proxy.isStale ttl now c.method) := by
  intro n
  induction n with
  | zero =>
    intro methods memory cells h hn
    refine ⟨methods, memory, cells, rfl, h, fun i => ?_⟩
    have hnil : cells.elements = [] := List.length_eq_zero_iff.mp (Nat.le_zero.mp hn)
    cases hvec : cells.lookup i with
    | none => rfl
    | some vec =>
      have hperm := Dict.elements_perm i cells
      rw [hnil, hvec, Option.getD_some] at hperm
      obtain ⟨rfl, -⟩ := List.append_eq_nil_iff.mp hperm.nil_eq.symm
      rfl
  | succ n ih =>
    intro methods memory cells h hn
    simp only [healthChecksUpTo, Option.bind_eq_bind]
    obtain ⟨hnone, hall⟩ | ⟨i, before, c, after, methods₁, memory₁, hvec, hc, hcheck, h₁⟩ :=
      h.healthCheck_cases ttl now
    · refine ⟨methods, memory, cells, by simp only [hnone, Option.bind_some], h, fun i => ?_⟩
      cases hvec : cells.lookup i with
      | none => rfl
      | some vec =>
        have hfilter : vec.filter (fun c => !Proxy.isStale ttl now c.method) = vec :=
          List.filter_eq_self.mpr fun c hc => by rw [hall i vec hvec c hc]; rfl
        rw [Option.map_some, hfilter]
    · have hlength : (Dict.elements (cells.insert i (before ++ after))).length + 1 =
          cells.elements.length := by
        rw [(Dict.elements_perm i cells).length_eq, hvec, Option.getD_some, Dict.elements_insert]
        simp only [List.length_append, List.length_cons]
        omega
      obtain ⟨methods', memory', cells', hchecks, h', hlook⟩ := ih h₁ (by omega)
      refine ⟨methods', memory', cells', by simp only [hcheck, Option.bind_some, hchecks], h', ?_⟩
      intro i'
      rw [hlook, map_filter_lookup_insert (p := fun c => Proxy.isStale ttl now c.method) hvec hc]

theorem Holds.healthChecks_eq (h : Holds memory methods cells others) (ttl now : ℤ) :
    ∃ methods' memory' cells', healthChecks ttl now methods memory = some (methods', memory') ∧
      Holds memory' methods' cells' others ∧ ∀ i, cells'.lookup i =
        (cells.lookup i).map (List.filter fun c => !Proxy.isStale ttl now c.method) :=
  h.healthChecksUpTo_eq ttl now h.size_eq.ge

end

end EsbProxy
