import EsbProxy.Foundation.Dictionary

/-!
# Heaps and ownership

A heap maps pointers to blocks. Reading, overwriting and freeing a block fail on a pointer to no
block, such as one to a block that was freed. An allocator answers each request with any pointer
that is not in use, also with one that was freed before.

A program owns a heap when it can list the blocks, each once. Every operation has one law: it
succeeds on a block that is in the list, changes or takes out that block, and leaves the rest of the
list alone. A program that always owns its heap therefore never uses a block after freeing it, frees
no block twice, and loses no block.

## Main definitions

* `Heap`, `Allocator`, `Heap.load`, `Heap.store`, `Heap.free`, `Heap.alloc`.
* `Heap.Owns`: the blocks of a heap, each listed once.

## Main results

* `Heap.Owns.load`, `Heap.Owns.store`, `Heap.Owns.free`, `Heap.Owns.alloc`: the laws of the
  operations.
-/

namespace Foundation

/-- Blocks under their pointers, and the number of blocks that were allocated so far. -/
structure Heap (β : Type*) where
  blocks : Dict ℕ β
  allocated : ℕ

/-- An allocator answers the `n`-th request, with the blocks that are in use, by a pointer that is
not in use. -/
structure Allocator (β : Type*) where
  malloc : ℕ → Dict ℕ β → ℕ
  malloc_notMem : ∀ n blocks, malloc n blocks ∉ blocks

variable {β : Type*}

/-- The pointer behind all pointers in use. -/
def Allocator.behind : Allocator β where
  malloc _ blocks := blocks.keys.sum + 1
  malloc_notMem _ blocks := by
    intro hmem
    have hle := List.single_le_sum (fun _ _ => Nat.zero_le _) _ (AList.mem_keys.mp hmem)
    omega

namespace Heap

/-- The heap with no block. -/
def empty : Heap β := ⟨∅, 0⟩

/-- The content of a block. -/
def load (p : ℕ) (heap : Heap β) : Option β := heap.blocks.lookup p

/-- Overwrite a block. -/
def store (p : ℕ) (b : β) (heap : Heap β) : Option (Heap β) :=
  if p ∈ heap.blocks then some { heap with blocks := heap.blocks.insert p b } else none

/-- Free a block. -/
def free (p : ℕ) (heap : Heap β) : Option (Heap β) :=
  if p ∈ heap.blocks then some { heap with blocks := heap.blocks.erase p } else none

/-- Allocate a block with the given content. -/
def alloc (A : Allocator β) (b : β) (heap : Heap β) : ℕ × Heap β :=
  let p := A.malloc heap.allocated heap.blocks
  (p, ⟨heap.blocks.insert p b, heap.allocated + 1⟩)

/-- The blocks of the heap are the listed ones, each listed once. -/
def Owns (heap : Heap β) (owned : List (Σ _ : ℕ, β)) : Prop := heap.blocks.entries.Perm owned

variable {heap : Heap β} {owned owned' : List (Σ _ : ℕ, β)} {p : ℕ} {b : β}

theorem owns_empty : Owns (empty : Heap β) [] := List.Perm.nil

namespace Owns

/-- The order of the list plays no part. -/
theorem perm (h : heap.Owns owned) (hperm : owned.Perm owned') : heap.Owns owned' := h.trans hperm

/-- As many blocks are in use as are listed. -/
theorem length_eq (h : heap.Owns owned) : heap.blocks.entries.length = owned.length :=
  List.Perm.length_eq h

/-- An owned block can be read. -/
theorem load_of_mem (h : heap.Owns owned) (hmem : ⟨p, b⟩ ∈ owned) : heap.load p = some b :=
  AList.mem_lookup_iff.mpr ((List.Perm.mem_iff h).mpr hmem)

theorem load (h : heap.Owns (⟨p, b⟩ :: owned)) : heap.load p = some b :=
  h.load_of_mem List.mem_cons_self

theorem mem (h : heap.Owns (⟨p, b⟩ :: owned)) : p ∈ heap.blocks :=
  Dict.mem_iff_exists_lookup.mpr ⟨b, h.load⟩

/-- Taking an owned block out leaves the others. -/
theorem erase (h : heap.Owns (⟨p, b⟩ :: owned)) : (heap.blocks.erase p).entries.Perm owned := by
  have hkerase : (heap.blocks.entries.kerase p).Perm ((⟨p, b⟩ :: owned).kerase p) :=
    List.Perm.kerase heap.blocks.nodupKeys h
  have hcons : (⟨p, b⟩ :: owned : List (Σ _ : ℕ, β)).kerase p = owned := List.kerase_cons_eq rfl
  rwa [hcons] at hkerase

/-- Overwriting an owned block leaves the others alone. -/
theorem store (h : heap.Owns (⟨p, b⟩ :: owned)) (b' : β) :
    ∃ heap', heap.store p b' = some heap' ∧ heap'.Owns (⟨p, b'⟩ :: owned) := by
  refine ⟨_, if_pos h.mem, ?_⟩
  exact h.erase.cons _

/-- Freeing an owned block leaves the others alone. -/
theorem free (h : heap.Owns (⟨p, b⟩ :: owned)) :
    ∃ heap', heap.free p = some heap' ∧ heap'.Owns owned :=
  ⟨_, if_pos h.mem, h.erase⟩

/-- An allocated block is owned beside the others. -/
theorem alloc (h : heap.Owns owned) (A : Allocator β) (b : β) :
    ∃ p heap', heap.alloc A b = (p, heap') ∧ heap'.Owns (⟨p, b⟩ :: owned) := by
  refine ⟨_, _, rfl, ?_⟩
  have hentries := AList.entries_insert_of_notMem
    (A.malloc_notMem heap.allocated heap.blocks) (b := b)
  change List.Perm (AList.insert _ b heap.blocks).entries _
  rw [hentries]
  exact List.Perm.cons _ h

end Owns

end Heap

end Foundation
