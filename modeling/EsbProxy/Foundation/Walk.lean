import Mathlib.Data.List.Nodup
import Mathlib.Logic.Relation

/-!
# Walks of a relation

A *walk* from one vertex to another is recorded as the list of the vertices that it leaves, so a
vertex is repeated in it when the walk leaves it twice. A token that is handed on along a relation
leaves no vertex twice, whatever choices are made on the way, exactly when no cycle can be reached
from where it starts.

## Main definitions

* `Walk`: the walks of a relation.

## Main results

* `Walk.exists_of_reflTransGen`, `Walk.rel_of_mem`: walks and reachability.
* `Walk.forall_nodup_iff`: all walks leave each vertex at most once exactly when no cycle is
  reachable.
-/

namespace Foundation

open Relation

variable {α : Type*} {R S : α → α → Prop} {a b c x : α} {l l' : List α}

/-- `Walk R a l b`: a walk from `a` to `b` along `R` that leaves the vertices `l`, in this
order. -/
inductive Walk (R : α → α → Prop) : α → List α → α → Prop
  | nil {a : α} : Walk R a [] a
  | cons {a b c : α} {l : List α} (first : R a b) (rest : Walk R b l c) : Walk R a (a :: l) c

namespace Walk

theorem append (left : Walk R a l b) (right : Walk R b l' c) : Walk R a (l ++ l') c := by
  induction left with
  | nil => exact right
  | cons first _ ih => exact .cons first (ih right)

/-- There is a walk to every vertex that can be reached. -/
theorem exists_of_reflTransGen (h : ReflTransGen R a b) : ∃ l, Walk R a l b := by
  induction h using ReflTransGen.head_induction_on with
  | refl => exact ⟨[], .nil⟩
  | head first _ ih =>
    obtain ⟨l, walk⟩ := ih
    exact ⟨_ :: l, .cons first walk⟩

/-- There is a walk around every cycle, and it leaves the vertex at which it starts. -/
theorem exists_of_transGen (h : TransGen R a b) : ∃ l, Walk R a (a :: l) b := by
  obtain ⟨c, first, rest⟩ := TransGen.head'_iff.mp h
  obtain ⟨l, walk⟩ := exists_of_reflTransGen rest
  exact ⟨l, .cons first walk⟩

/-- A vertex that a walk leaves can be reached from its start. -/
theorem rel_of_mem (walk : Walk R a l b) (hx : x ∈ l) : ReflTransGen R a x := by
  induction walk with
  | nil => simp at hx
  | cons first _ ih =>
    rcases List.mem_cons.mp hx with rfl | hx
    · exact .refl
    · exact .head first (ih hx)

/-- Without a reachable cycle a walk leaves each vertex at most once. -/
theorem nodup (walk : Walk R a l b) (acyclic : ∀ x, ReflTransGen R a x → ¬ TransGen R x x) :
    l.Nodup := by
  induction walk with
  | nil => exact List.nodup_nil
  | @cons a c _ l first rest ih =>
    have hrest := ih fun x hx => acyclic x (.head first hx)
    refine List.nodup_cons.mpr ⟨fun hmem => ?_, hrest⟩
    exact acyclic a .refl (TransGen.head' first (rest.rel_of_mem hmem))

/-- **Walks without repetition.** All walks from a vertex leave each vertex at most once exactly
when no cycle can be reached from it. -/
theorem forall_nodup_iff (a : α) : (∀ l b, Walk R a l b → l.Nodup) ↔
    ∀ x, ReflTransGen R a x → ¬ TransGen R x x := by
  constructor
  · intro hall x hreach hcycle
    obtain ⟨l, walk⟩ := exists_of_reflTransGen hreach
    obtain ⟨l', round⟩ := exists_of_transGen hcycle
    -- walking around the cycle twice leaves `x` twice
    have hnodup := hall _ _ ((walk.append round).append round)
    rw [List.nodup_append] at hnodup
    exact hnodup.2.2 x (by simp) x (by simp) rfl
  · exact fun acyclic l b walk => walk.nodup acyclic

end Walk

end Foundation
