import Mathlib

/-!
# Traces of a labelled step relation

A *trace* of a step relation is a finite chain of executed steps, each recorded as a
`Transition`: the state before, the action taken, the output emitted and the state after. The
recorded list grows at its end, so an invariant of a run, or a law about its whole history, is
proved by one induction whose step looks at the last transition only.

These rules are used throughout.

* An invariant that every step keeps, possibly only on steps that meet a side condition, holds
  at the end of every trace (`Trace.invariant`, `Trace.invariant_of_forall`); when the side
  condition is exact for one step, it is exact for traces (`Trace.forall_post_iff`).
* A slot that a step may fill when it is empty, keep, or empty, but never overwrite, holds at
  the end of a trace what one step of the trace put there, and no later step emptied it
  (`Trace.exists_fill`).
* If every step pays for what it spends out of a potential and of what the step earns, then the
  whole trace does (`Trace.sum_spent_le`).
* If every step that acts waits for the last stamp to be old enough, and stamps the time, then any
  two actions are far enough apart (`Trace.pairwise_of_throttled`).

## Main definitions

* `Transition`, `Trace`: executed steps and chains of them.
* `execute`: the trace of a list of actions under a partial function.

## Main results

* `Trace.split`: a trace cut at one of its transitions.
* `Trace.invariant`, `Trace.invariant_of_forall`, `Trace.forall_post_iff`, `Trace.exists_fill`,
  `Trace.exists_empty`, `Trace.sum_spent_le`.
* `trace_execute`: executed actions form a trace.
-/

namespace Foundation

/-- One executed step: the state before, the action, what it put out, and the state after. -/
structure Transition (σ α β : Type*) where
  /-- The state before the step. -/
  pre : σ
  /-- The action taken. -/
  action : α
  /-- What the step put out. -/
  out : β
  /-- The state after the step. -/
  post : σ

variable {σ α β : Type*} {step : σ → α → β → σ → Prop} {s₀ s s' : σ}
  {h h₁ h₂ : List (Transition σ α β)} {t : Transition σ α β}

/-- `Trace step s₀ h s`: the transitions `h`, oldest first, lead from `s₀` to `s`. -/
inductive Trace (step : σ → α → β → σ → Prop) (s₀ : σ) : List (Transition σ α β) → σ → Prop
  | nil : Trace step s₀ [] s₀
  | snoc {h : List (Transition σ α β)} {s : σ} {a : α} {o : β} {s' : σ}
      (run : Trace step s₀ h s) (last : step s a o s') : Trace step s₀ (h ++ [⟨s, a, o, s'⟩]) s'

namespace Trace

/-- The last transition of a trace is a step into its final state. -/
theorem last (run : Trace step s₀ (h ++ [t]) s) :
    Trace step s₀ h t.pre ∧ step t.pre t.action t.out t.post ∧ t.post = s := by
  generalize hh : h ++ [t] = l at run
  cases run with
  | nil => simp at hh
  | snoc run last =>
    obtain ⟨rfl, rfl⟩ := List.append_inj' hh rfl |>.imp_right fun e => by simpa using e
    exact ⟨run, last, rfl⟩

/-- Two traces that meet compose. -/
theorem append (run₁ : Trace step s₀ h₁ s) (run₂ : Trace step s h₂ s') :
    Trace step s₀ (h₁ ++ h₂) s' := by
  induction run₂ with
  | nil => simpa using run₁
  | snoc run last ih =>
    rw [← List.append_assoc]
    exact ih.snoc last

/-- A trace cut between two parts of its history. -/
theorem split : ∀ {h₂ : List (Transition σ α β)} {s : σ}, Trace step s₀ (h₁ ++ h₂) s →
    ∃ m, Trace step s₀ h₁ m ∧ Trace step m h₂ s := by
  intro h₂
  induction h₂ using List.reverseRecOn with
  | nil => exact fun {s} run => ⟨s, by simpa using run, .nil⟩
  | append_singleton h₂ t ih =>
    intro s run
    rw [← List.append_assoc] at run
    obtain ⟨before, hstep, rfl⟩ := run.last
    obtain ⟨m, left, right⟩ := ih before
    exact ⟨m, left, right.snoc hstep⟩

/-- A trace cut at one of its transitions. -/
theorem split_cons (run : Trace step s₀ (h₁ ++ t :: h₂) s) :
    Trace step s₀ h₁ t.pre ∧ step t.pre t.action t.out t.post ∧ Trace step t.post h₂ s := by
  have hassoc : h₁ ++ t :: h₂ = (h₁ ++ [t]) ++ h₂ := by simp
  rw [hassoc] at run
  obtain ⟨m, left, right⟩ := run.split
  obtain ⟨before, hstep, rfl⟩ := left.last
  exact ⟨before, hstep, right⟩

/-- Every transition of a trace is a step. -/
theorem step_of_mem (run : Trace step s₀ h s) (ht : t ∈ h) :
    step t.pre t.action t.out t.post := by
  obtain ⟨h₁, h₂, rfl⟩ := List.append_of_mem ht
  exact run.split_cons.2.1

/-! ### Invariants -/

/-- A property that every step meeting the side condition `P` keeps holds at the end of every
trace all of whose transitions meet it. -/
theorem invariant_of_forall {I : σ → Prop} {P : Transition σ α β → Prop} (init : I s₀)
    (keep : ∀ t : Transition σ α β, step t.pre t.action t.out t.post → P t → I t.pre → I t.post)
    (run : Trace step s₀ h s) (hP : ∀ t ∈ h, P t) : I s := by
  induction run with
  | nil => exact init
  | @snoc h s a o s' run last ih =>
    exact keep ⟨s, a, o, s'⟩ last (hP _ (by simp)) (ih fun t ht => hP t (by simp [ht]))

/-- A property that every step keeps holds at the end of every trace. -/
theorem invariant {I : σ → Prop} (init : I s₀)
    (keep : ∀ s a o s', step s a o s' → I s → I s') (run : Trace step s₀ h s) : I s :=
  run.invariant_of_forall (P := fun _ => True) init (fun _ hstep _ => keep _ _ _ _ hstep)
    fun _ _ => trivial

/-- **When a law holds all along.** If, in a state with the invariant, the law holds after a step
exactly when the step meets `P`, and such a step keeps the invariant, then the law holds after
every step of a trace exactly when every step meets `P`. -/
theorem forall_post_iff {I L : σ → Prop} {P : Transition σ α β → Prop} (init : I s₀)
    (law : ∀ t : Transition σ α β, step t.pre t.action t.out t.post → I t.pre → (L t.post ↔ P t))
    (keep : ∀ t : Transition σ α β, step t.pre t.action t.out t.post → P t → I t.pre → I t.post)
    (run : Trace step s₀ h s) : (∀ t ∈ h, L t.post) ↔ ∀ t ∈ h, P t := by
  induction run with
  | nil => simp
  | @snoc h s a o s' run last ih =>
    have hlast : (∀ t ∈ h, P t) → (L s' ↔ P ⟨s, a, o, s'⟩) := fun hP =>
      law ⟨s, a, o, s'⟩ last (run.invariant_of_forall init keep hP)
    simp only [List.forall_mem_append, List.forall_mem_singleton, ih]
    exact and_congr_right hlast

/-! ### Slots that are filled only when empty -/

section Slot

variable {ν : Type*} (slot : σ → Option ν)

/-- A step respects a slot when it leaves the content alone or empties the slot: a full slot is
never overwritten. -/
def Keeps (t : Transition σ α β) : Prop :=
  ∀ v, slot t.pre = some v → slot t.post = some v ∨ slot t.post = none

/-- **Origin of a slot's content.** If the slot was empty at the start and no step overwrites
it, what it holds at the end was put there by one step of the trace, out of an empty slot, and
after that step the slot was never emptied. -/
theorem exists_fill (run : Trace step s₀ h s) (keeps : ∀ t ∈ h, Keeps slot t)
    (init : slot s₀ = none) {v : ν} (hv : slot s = some v) :
    ∃ h₁ t h₂, h = h₁ ++ t :: h₂ ∧ slot t.pre = none ∧ slot t.post = some v ∧
      ∀ t' ∈ h₂, slot t'.pre = some v ∧ slot t'.post = some v := by
  induction run with
  | nil => simp [init] at hv
  | @snoc h s a o s' run last ih =>
    cases hs : slot s with
    | none => exact ⟨h, ⟨s, a, o, s'⟩, [], rfl, hs, hv, by simp⟩
    | some w =>
      obtain hw | hw := keeps ⟨s, a, o, s'⟩ (by simp) w hs
      · obtain rfl : w = v := Option.some.inj (hw.symm.trans hv)
        obtain ⟨h₁, t, h₂, rfl, hpre, hpost, hkept⟩ :=
          ih (fun t ht => keeps t (by simp [ht])) hs
        refine ⟨h₁, t, h₂ ++ [⟨s, a, o, s'⟩], by simp, hpre, hpost, fun t' ht' => ?_⟩
        rcases List.mem_append.mp ht' with ht' | ht'
        · exact hkept t' ht'
        · rw [List.mem_singleton] at ht'
          subst ht'
          exact ⟨hs, hv⟩
      · simp [hw] at hv

/-- A slot that no step overwrites and that is never empty keeps its content. -/
theorem slot_eq_of_ne_none (run : Trace step s₀ h s) (keeps : ∀ t ∈ h, Keeps slot t) {v : ν}
    (init : slot s₀ = some v) (full : ∀ t ∈ h, slot t.post ≠ none) : slot s = some v :=
  run.invariant_of_forall (I := fun s => slot s = some v)
    (P := fun t => Keeps slot t ∧ slot t.post ≠ none) init
    (fun _ _ ht hpre => (ht.1 v hpre).resolve_right ht.2) fun t ht => ⟨keeps t ht, full t ht⟩

/-- A slot that is full at the start and empty at the end was emptied by some step. -/
theorem exists_empty (run : Trace step s₀ h s) (init : slot s₀ ≠ none) (hs : slot s = none) :
    ∃ t ∈ h, slot t.pre ≠ none ∧ slot t.post = none := by
  induction run with
  | nil => exact absurd hs init
  | @snoc h s a o s' run last ih =>
    by_cases hpre : slot s = none
    · obtain ⟨t, ht, htpre, htpost⟩ := ih hpre
      exact ⟨t, by simp [ht], htpre, htpost⟩
    · exact ⟨⟨s, a, o, s'⟩, by simp, hpre, hs⟩

end Slot

/-! ### Potentials -/

/-- **Budget of a trace.** If every step that meets `P` spends at most what it earns and what it
takes off the potential, the whole trace spends at most what it earns and the initial
potential. -/
theorem sum_spent_le {P : Transition σ α β → Prop} (Φ : σ → ℕ)
    (spent earned : Transition σ α β → ℕ)
    (pays : ∀ t : Transition σ α β, step t.pre t.action t.out t.post → P t →
      Φ t.post + spent t ≤ Φ t.pre + earned t)
    (run : Trace step s₀ h s) (hP : ∀ t ∈ h, P t) :
    Φ s + (h.map spent).sum ≤ Φ s₀ + (h.map earned).sum := by
  induction run with
  | nil => simp
  | @snoc h s a o s' run last ih =>
    have hlast : Φ s' + spent ⟨s, a, o, s'⟩ ≤ Φ s + earned ⟨s, a, o, s'⟩ :=
      pays ⟨s, a, o, s'⟩ last (hP _ (by simp))
    have hrest := ih fun t ht => hP t (by simp [ht])
    simp only [List.map_append, List.map_cons, List.map_nil, List.sum_append, List.sum_cons,
      List.sum_nil, Nat.add_zero] at hrest ⊢
    omega

/-! ### Throttles -/

/-- A step that acts at a time waits until `gap` has passed since the stamp, and stamps the time.
No step takes the stamp back. -/
structure Throttled (gap : ℤ) (stamp : σ → ℤ) (acts : Transition σ α β → ℤ → Prop)
    (t : Transition σ α β) : Prop where
  mono : stamp t.pre ≤ stamp t.post
  waits : ∀ now, acts t now → stamp t.pre + gap ≤ now ∧ now ≤ stamp t.post

/-- The actions of a throttled trace lie between its first and its last stamp. -/
theorem stamp_le_of_throttled {gap : ℤ} {stamp : σ → ℤ} {acts : Transition σ α β → ℤ → Prop}
    (run : Trace step s₀ h s) (throttled : ∀ t ∈ h, Throttled gap stamp acts t) :
    stamp s₀ ≤ stamp s ∧
      ∀ t ∈ h, ∀ now, acts t now → stamp s₀ + gap ≤ now ∧ now ≤ stamp s := by
  induction run with
  | nil => simp
  | @snoc h s a o s' run last ih =>
    obtain ⟨hbefore, hlast⟩ := List.forall_mem_append.mp throttled
    obtain ⟨hmono, hacts⟩ := ih hbefore
    have ht := hlast _ (List.mem_singleton_self _)
    have hpost : stamp s ≤ stamp s' := ht.mono
    refine ⟨hmono.trans hpost, List.forall_mem_append.mpr ⟨fun t hmem now hact => ?_, ?_⟩⟩
    · obtain ⟨hfirst, hnow⟩ := hacts t hmem now hact
      exact ⟨hfirst, hnow.trans hpost⟩
    · refine List.forall_mem_singleton.mpr fun now hact => ?_
      obtain ⟨hwait, hnow⟩ := ht.waits now hact
      have hwait' : stamp s + gap ≤ now := hwait
      exact ⟨by omega, hnow⟩

/-- **Throttles.** Two actions of a throttled trace are at least `gap` apart. -/
theorem pairwise_of_throttled {gap : ℤ} {stamp : σ → ℤ} {acts : Transition σ α β → ℤ → Prop}
    (run : Trace step s₀ h s) (throttled : ∀ t ∈ h, Throttled gap stamp acts t) :
    h.Pairwise fun t u => ∀ now now', acts t now → acts u now' → now + gap ≤ now' := by
  induction run with
  | nil => exact List.Pairwise.nil
  | @snoc h s a o s' run last ih =>
    obtain ⟨hbefore, hlast⟩ := List.forall_mem_append.mp throttled
    refine List.pairwise_append.mpr ⟨ih hbefore, List.pairwise_singleton _ _, ?_⟩
    intro t ht u hu now now' hact hact'
    obtain ⟨hwait, -⟩ := (hlast u hu).waits now' hact'
    obtain rfl := List.mem_singleton.mp hu
    have hnow := ((stamp_le_of_throttled run hbefore).2 t ht now hact).2
    have hwait' : stamp s + gap ≤ now' := hwait
    omega

end Trace

/-- Counting is summing an indicator. -/
theorem countP_eq_sum_map {γ : Type*} (p : γ → Prop) [DecidablePred p] (l : List γ) :
    (l.countP fun x => decide (p x)) = (l.map fun x => if p x then 1 else 0).sum := by
  induction l with
  | nil => rfl
  | cons x l ih =>
    rw [List.countP_cons, List.map_cons, List.sum_cons, ih, Nat.add_comm]
    simp only [decide_eq_true_eq]

/-! ### Potentials of many parties -/

/-- When one party changes its state, only its share of a potential that is summed over all
parties changes. -/
theorem sum_update_add {ι τ : Type*} [Fintype ι] [DecidableEq ι] (φ : τ → ℕ) (parties : ι → τ)
    (a : ι) (new : τ) :
    ∑ x, φ (Function.update parties a new x) + φ (parties a) = ∑ x, φ (parties x) + φ new := by
  have hrest : ∑ x ∈ Finset.univ.erase a, φ (Function.update parties a new x) =
      ∑ x ∈ Finset.univ.erase a, φ (parties x) :=
    Finset.sum_congr rfl fun x hx => by
      rw [Function.update_of_ne (Finset.ne_of_mem_erase hx)]
  have hnew := Finset.add_sum_erase Finset.univ
    (fun x => φ (Function.update parties a new x)) (Finset.mem_univ a)
  have hold := Finset.add_sum_erase Finset.univ (fun x => φ (parties x)) (Finset.mem_univ a)
  simp only [Function.update_self] at hnew
  omega

/-! ### Traces of executed actions -/

/-- The transitions of a list of actions executed by a partial function, and the state they
lead to. -/
def execute (exec : σ → α → Option (σ × β)) : σ → List α → Option (List (Transition σ α β) × σ)
  | s, [] => some ([], s)
  | s, a :: as =>
    match exec s a with
    | none => none
    | some (s', o) =>
      match execute exec s' as with
      | none => none
      | some (h, s'') => some (⟨s, a, o, s'⟩ :: h, s'')

/-- Executed actions form a trace. -/
theorem trace_execute {exec : σ → α → Option (σ × β)}
    (sound : ∀ s a o s', exec s a = some (s', o) → step s a o s') :
    ∀ {as : List α} {s₀ s : σ} {h : List (Transition σ α β)},
      execute exec s₀ as = some (h, s) → Trace step s₀ h s := by
  intro as
  induction as with
  | nil =>
    rintro s₀ s h hrun
    obtain ⟨rfl, rfl⟩ : [] = h ∧ s₀ = s := by simpa [execute] using hrun
    exact .nil
  | cons a as ih =>
    intro s₀ s h hrun
    rw [execute] at hrun
    split at hrun
    · simp at hrun
    · rename_i s' o hstep
      split at hrun
      · simp at hrun
      · rename_i h' s'' hrest
        obtain ⟨rfl, rfl⟩ : ⟨s₀, a, o, s'⟩ :: h' = h ∧ s'' = s := by simpa using hrun
        have hfirst : Trace step s₀ [⟨s₀, a, o, s'⟩] s' := Trace.nil.snoc (sound _ _ _ _ hstep)
        exact hfirst.append (ih hrest)

/-- The actions of an executed list are the listed ones. -/
theorem map_action_execute {exec : σ → α → Option (σ × β)} : ∀ {as : List α} {s₀ s : σ}
    {h : List (Transition σ α β)}, execute exec s₀ as = some (h, s) → h.map (·.action) = as := by
  intro as
  induction as with
  | nil =>
    rintro s₀ s h hrun
    obtain ⟨rfl, -⟩ : [] = h ∧ s₀ = s := by simpa [execute] using hrun
    rfl
  | cons a as ih =>
    intro s₀ s h hrun
    rw [execute] at hrun
    split at hrun
    · simp at hrun
    · split at hrun
      · simp at hrun
      · rename_i hrest
        obtain ⟨rfl, -⟩ := by simpa using hrun
        rw [List.map_cons, ih hrest]

theorem action_getElem_execute {exec : σ → α → Option (σ × β)} {as : List α} {s₀ s : σ}
    {h : List (Transition σ α β)} (hrun : execute exec s₀ as = some (h, s)) {n : ℕ}
    (hn : n < h.length) {a : α} (ha : as[n]? = some a) : h[n].action = a := by
  rw [← map_action_execute hrun, List.getElem?_map, List.getElem?_eq_getElem hn] at ha
  exact Option.some.inj ha

end Foundation
