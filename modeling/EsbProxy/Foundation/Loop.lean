import EsbProxy.Foundation.Dictionary

/-!
# Loops around a test

The loop `while (body());` runs its body until the body answers that there is nothing left to do.
The body is a relation, so that it may depend on a choice that nobody fixes, such as the order in
which a hash map is traversed. A loop terminates when no choice makes it go on forever.

As a first loop, `Dict.sweepOne` is repeated, on a dictionary that is traversed in another order
every time.

## Main definitions

* `Loop`, `Loop.Terminates`, `Loop.Safe`.
* `Dict.SweepStep`: one turn of the loop that sweeps a dictionary.

## Main results

* `Loop.terminates_of_lt`, `Loop.safe_of_invariant`, `Loop.exists_of_safe`, `Loop.invariant` and
  `Loop.map`.
* `Dict.SweepStep.size_lt`, `Dict.lookup_of_loop`: the loop ends, and the order of the traversals
  plays no part in the result.
* `Dict.loop_sweep`, `Dict.lookup_sweep`: a finished sweep filters every list.
* `invariant_of_foldlM`: what a loop over a list preserves, when a turn may fail.
-/

namespace Foundation

section

variable {σ τ : Type*} {body : σ → Option σ → Prop} {body' : τ → Option τ → Prop} {s s' : σ}

/-- The executions of a loop: `body s (some s')` says that the body takes `s` to `s'` and asks for
another turn, `body s none` that it finds nothing to do in `s`. -/
inductive Loop (body : σ → Option σ → Prop) : σ → σ → Prop
  | stop {s : σ} (last : body s none) : Loop body s s
  | turn {s s' s'' : σ} (first : body s (some s')) (rest : Loop body s' s'') : Loop body s s''

namespace Loop

/-- No execution from `s` goes on forever. -/
def Terminates (body : σ → Option σ → Prop) (s : σ) : Prop :=
  Acc (fun s' s => body s (some s')) s

/-- No execution from `s` gets stuck in a state in which the body fails. -/
def Safe (body : σ → Option σ → Prop) (s : σ) : Prop :=
  ∀ s', Relation.ReflTransGen (fun s s' => body s (some s')) s s' → ∃ r, body s' r

/-- A loop is safe when an invariant keeps its body from failing. -/
theorem safe_of_invariant {I : σ → Prop} (hturn : ∀ s s', I s → body s (some s') → I s')
    (hbody : ∀ s, I s → ∃ r, body s r) (hs : I s) : Safe body s := by
  intro s' hreach
  have hinv : I s' := by
    induction hreach with
    | refl => exact hs
    | tail _ hlast ih => exact hturn _ _ ih hlast
  exact hbody s' hinv

/-- A safe loop that terminates has a result. -/
theorem exists_of_safe (hsafe : Safe body s) (hacc : Terminates body s) :
    ∃ s', Loop body s s' := by
  induction hacc with
  | intro s _ ih =>
    obtain ⟨r, hr⟩ := hsafe s .refl
    cases r with
    | none => exact ⟨s, .stop hr⟩
    | some s' =>
      obtain ⟨s'', hloop⟩ := ih s' hr fun s₁ hreach => hsafe s₁ (.head hr hreach)
      exact ⟨s'', .turn hr hloop⟩

/-- A loop terminates when every turn makes a size smaller. -/
theorem terminates_of_lt (size : σ → ℕ) (hless : ∀ s s', body s (some s') → size s' < size s)
    (s : σ) : Terminates body s :=
  Subrelation.accessible (fun {s' s} hturn => hless s s' hturn)
    (InvImage.accessible size (wellFounded_lt.apply (size s)))

/-- What every turn preserves holds at the end, when the body finds nothing to do. -/
theorem invariant {I : σ → Prop} (hturn : ∀ s s', I s → body s (some s') → I s')
    (hloop : Loop body s s') (hs : I s) : I s' ∧ body s' none := by
  induction hloop with
  | stop last => exact ⟨hs, last⟩
  | turn first _ ih => exact ih (hturn _ _ hs first)

/-- A function that takes turns to turns takes executions to executions. -/
theorem map (f : σ → τ) (hbody : ∀ s r, body s r → body' (f s) (r.map f))
    (hloop : Loop body s s') : Loop body' (f s) (f s') := by
  induction hloop with
  | stop last => exact .stop (hbody _ _ last)
  | turn first _ ih => exact .turn (hbody _ _ first) ih

end Loop

end

/-! ### Sweeping a dictionary -/

namespace Dict

variable {κ ν : Type*} [DecidableEq κ] {stale : ν → Bool} {d d' : Dict κ (List ν)}

/-- The number of elements does not depend on the order of the entries. -/
theorem size_reorder (order : List κ) (d : Dict κ (List ν)) : size (reorder order d) = size d :=
  ((entries_perm fun k => lookup_reorder order k d).map _).sum_eq

/-- One turn of a sweep, in any order of the entries. -/
def SweepStep (stale : ν → Bool) (d : Dict κ (List ν)) (r : Option (Dict κ (List ν))) : Prop :=
  ∃ order, sweepOne stale (reorder order d) = r

/-- Every turn deletes an element. -/
theorem SweepStep.size_lt (hturn : SweepStep stale d (some d')) : size d' < size d := by
  obtain ⟨order, hone⟩ := hturn
  have hsize := size_of_sweepOne hone
  rw [size_reorder] at hsize
  omega

/-- The sweep is one execution of the loop. -/
theorem loop_sweep (d : Dict κ (List ν)) : Loop (SweepStep stale) d (sweep stale d) := by
  have hsweep : ∀ (n : ℕ) (d : Dict κ (List ν)), size d ≤ n →
      Loop (SweepStep stale) d (sweepUpTo stale n d) := by
    intro n
    induction n with
    | zero =>
      intro d hn
      cases hone : sweepOne stale d with
      | none => exact .stop ⟨[], hone⟩
      | some d' =>
        have hsize := size_of_sweepOne hone
        omega
    | succ n ih =>
      intro d hn
      rw [sweepUpTo]
      split
      · rename_i d' hone
        have hsize := size_of_sweepOne hone
        exact .turn ⟨[], hone⟩ (ih d' (by omega))
      · rename_i hnone
        exact .stop ⟨[], hnone⟩
  exact hsweep (size d) d le_rfl

/-- **Result of the loop.** Whatever the orders, every list keeps its unselected elements, in
their order, and no key comes or goes. -/
theorem lookup_of_loop (hloop : Loop (SweepStep stale) d d') (k : κ) :
    d'.lookup k = (d.lookup k).map (List.filter fun x => !stale x) := by
  have hturn : ∀ d₁ d₂, (d₁.lookup k).map (List.filter fun x => !stale x) =
      (d.lookup k).map (List.filter fun x => !stale x) → SweepStep stale d₁ (some d₂) →
      (d₂.lookup k).map (List.filter fun x => !stale x) =
        (d.lookup k).map (List.filter fun x => !stale x) := by
    rintro d₁ d₂ hfilter ⟨order, hone⟩
    rw [← hfilter, ← lookup_reorder order k d₁]
    exact map_filter_dlookup_sweepEntries k (sweepEntries_of_sweepOne hone)
  obtain ⟨hfilter, order, hnone⟩ := hloop.invariant hturn rfl
  rw [← hfilter]
  cases hvec : d'.lookup k with
  | none => rfl
  | some vec =>
    rw [Option.map_some, List.filter_eq_self.mpr]
    intro x hx
    have hvec' : (reorder order d').lookup k = some vec := by rw [lookup_reorder, hvec]
    rw [stale_eq_false_of_sweepOne hnone hvec' hx, Bool.not_false]

/-- **Result of a sweep.** Every list keeps its unselected elements, in their order, and no key
comes or goes. -/
theorem lookup_sweep (k : κ) (d : Dict κ (List ν)) :
    (sweep stale d).lookup k = (d.lookup k).map (List.filter fun x => !stale x) :=
  lookup_of_loop (loop_sweep d) k

/-- No key comes or goes. -/
theorem mem_sweep_iff {k : κ} : k ∈ sweep stale d ↔ k ∈ d := by
  rw [← AList.lookup_isSome, ← AList.lookup_isSome, lookup_sweep, Option.isSome_map]

/-! ### Sweeps whose selection grows -/

section Growing

variable {stales : ℕ → ν → Bool} {c c' : ℕ × Dict κ (List ν)}

/-- One turn of a sweep that counts its turns: the `n`-th turn deletes an element that `stales n`
selects. -/
def GrowingSweepStep (stales : ℕ → ν → Bool) (c : ℕ × Dict κ (List ν))
    (r : Option (ℕ × Dict κ (List ν))) : Prop :=
  ∃ d, SweepStep (stales c.1) c.2 d ∧ r = d.map (c.1 + 1, ·)

/-- What a sweep keeps of a list is also what a later, larger selection keeps. -/
theorem filter_eq_of_filter_eq {stale stale' : ν → Bool}
    (hgrows : ∀ x, stale x = true → stale' x = true) {vec vec' : Option (List ν)}
    (hfilter : vec'.map (List.filter fun x => !stale x) = vec.map (List.filter fun x => !stale x)) :
    vec'.map (List.filter fun x => !stale' x) = vec.map (List.filter fun x => !stale' x) := by
  have hboth : ∀ vec : Option (List ν), vec.map (List.filter fun x => !stale' x) =
      (vec.map (List.filter fun x => !stale x)).map (List.filter fun x => !stale' x) := by
    intro vec
    rw [Option.map_map]
    refine congrArg (fun f => vec.map f) (funext fun l => ?_)
    rw [Function.comp_apply, List.filter_filter]
    refine List.filter_congr fun x _ => ?_
    cases hx : stale x with
    | false => simp
    | true => simp [hgrows x hx]
  rw [hboth, hfilter, ← hboth]

/-- **A growing selection.** When the selection grows from turn to turn, the sweep keeps what its
last turn would keep of the first dictionary. -/
theorem lookup_of_growingLoop
    (hgrows : ∀ m n x, m ≤ n → stales m x = true → stales n x = true)
    (hloop : Loop (GrowingSweepStep stales) c c') :
    c.1 ≤ c'.1 ∧ ∀ k, c'.2.lookup k =
      (c.2.lookup k).map (List.filter fun x => !stales c'.1 x) := by
  induction hloop with
  | @stop c last =>
    obtain ⟨d, hstep, hd⟩ := last
    obtain rfl : d = none := Option.map_eq_none_iff.mp hd.symm
    exact ⟨le_rfl, lookup_of_loop (.stop hstep)⟩
  | @turn c c₁ c' first rest ih =>
    obtain ⟨hle, hlook⟩ := ih
    obtain ⟨d, ⟨order, hone⟩, hd⟩ := first
    obtain ⟨d₁, rfl, rfl⟩ := Option.map_eq_some_iff.mp hd.symm
    have hle' : c.1 ≤ c'.1 := Nat.le_of_succ_le hle
    refine ⟨hle', fun k => ?_⟩
    rw [hlook]
    refine filter_eq_of_filter_eq (hgrows c.1 c'.1 · hle') ?_
    rw [← lookup_reorder order k c.2]
    exact map_filter_dlookup_sweepEntries k (sweepEntries_of_sweepOne hone)

end Growing

end Dict

/-! ### Loops over a list -/

section Fold

variable {σ β ε : Type*} {f : σ → β → Except ε σ} {a r : σ}

/-- The first turn of a loop that may fail, and the rest. -/
theorem foldlM_cons_eq_ok_iff {b : β} {l : List β} :
    (b :: l).foldlM f a = .ok r ↔ ∃ a', f a b = .ok a' ∧ l.foldlM f a' = .ok r := by
  rw [List.foldlM_cons]
  cases hfirst : f a b with
  | error fault => simp [bind, Except.bind]
  | ok between => simp [bind, Except.bind]

/-- What every turn preserves holds at the end of a loop that does not fail. -/
theorem invariant_of_foldlM {P : σ → Prop} : ∀ {l : List β} {a : σ},
    (∀ b ∈ l, ∀ a a', P a → f a b = .ok a' → P a') → P a → l.foldlM f a = .ok r → P r
  | [], a, _, ha, hfold => by
      obtain rfl : a = r := by simpa [pure, Except.pure] using hfold
      exact ha
  | b :: l, a, hturn, ha, hfold => by
      obtain ⟨between, hfirst, hrest⟩ := foldlM_cons_eq_ok_iff.mp hfold
      have hbetween : P between := hturn b List.mem_cons_self a between ha hfirst
      exact invariant_of_foldlM (fun b' hb' => hturn b' (List.mem_cons_of_mem b hb')) hbetween hrest

end Fold

/-- A loop over a list no turn of which fails. -/
theorem mapM_eq_some_map {α β : Type*} {f : α → Option β} {g : α → β} {l : List α}
    (hf : ∀ x ∈ l, f x = some (g x)) : l.mapM f = some (l.map g) := by
  induction l with
  | nil => rfl
  | cons x l ih =>
    obtain ⟨hx, hl⟩ := List.forall_mem_cons.mp hf
    rw [List.mapM_cons, hx, ih hl]
    rfl

end Foundation
