import Mathlib

/-!
# Readers that are fed in pieces

A reader takes items off a stream that arrives in pieces. It keeps what it has not used yet, takes
one item after another as long as the input at hand suffices, and goes on with the next piece where
it stopped. If more input never changes what is made of the input at hand, then the pieces in which
a stream arrives play no part.

## Main definitions

* `Reader`: a reader, with the laws that more input changes nothing and that every item uses some.
* `Reader.drain`: take items as long as the input suffices.
* `Reader.stop`: where the reader stops then, whether it fails or not.
* `Reader.read`: feed the pieces of a stream one after the other, and drain after each.

## Main results

* `Reader.drain_feed`: a drained reader goes on as if it had been given all input at once.
* `Reader.read_eq`: the pieces of a stream play no part.
* `Reader.Steps.invariant`, `Reader.exists_drain`: what every item preserves, and how it keeps the
  reader from failing.
-/

namespace Foundation

/-- A reader with states `σ` on a stream of `β`. `next s` takes one item, is `none` when the input
at hand does not suffice, and an error when the reader fails on it. -/
structure Reader (σ β ε : Type*) where
  next : σ → Except ε (Option σ)
  feed : List β → σ → σ
  /-- A bound for the items that the input at hand suffices for. -/
  left : σ → ℕ
  left_lt {s s' : σ} : next s = .ok (some s') → left s' < left s
  next_feed {s s' : σ} (b : List β) : next s = .ok (some s') →
    next (feed b s) = .ok (some (feed b s'))
  next_feed_error {s : σ} {e : ε} (b : List β) : next s = .error e → next (feed b s) = .error e
  feed_nil (s : σ) : feed [] s = s
  feed_feed (b c : List β) (s : σ) : feed c (feed b s) = feed (b ++ c) s

namespace Reader

variable {σ β ε : Type*} (R : Reader σ β ε) {s s' : σ} {e : ε}

/-- Take up to `n` items. -/
def drainUpTo : ℕ → σ → Except ε σ
  | 0, s => .ok s
  | n + 1, s =>
    match R.next s with
    | .error e => .error e
    | .ok none => .ok s
    | .ok (some s') => drainUpTo n s'

/-- Take items as long as the input at hand suffices. -/
def drain (s : σ) : Except ε σ := R.drainUpTo (R.left s + 1) s

/-- Feed the pieces of a stream, and drain after each. -/
def read (pieces : List (List β)) (s : σ) : Except ε σ :=
  pieces.foldlM (fun s piece => R.drain (R.feed piece s)) s

/-- Take up to `n` items, and stop where there is none or the reader fails. -/
def stopUpTo : ℕ → σ → σ
  | 0, s => s
  | n + 1, s =>
    match R.next s with
    | .ok (some s') => stopUpTo n s'
    | _ => s

/-- Where a reader stops. -/
def stop (s : σ) : σ := R.stopUpTo (R.left s + 1) s

/-- One item after another leads from one state to the other. -/
def Steps (s s' : σ) : Prop := Relation.ReflTransGen (fun s s' => R.next s = .ok (some s')) s s'

variable {R}

/-- Enough turns are as good as more. -/
theorem drainUpTo_eq : ∀ {n m : ℕ} {s : σ}, R.left s < n → R.left s < m →
    R.drainUpTo n s = R.drainUpTo m s
  | n + 1, m + 1, s, hn, hm => by
      rw [drainUpTo, drainUpTo]
      cases hnext : R.next s with
      | error e => rfl
      | ok r =>
        cases r with
        | none => rfl
        | some s' =>
          have hless := R.left_lt hnext
          exact drainUpTo_eq (by omega) (by omega)

theorem drain_of_error (hnext : R.next s = .error e) : R.drain s = .error e := by
  rw [drain, drainUpTo, hnext]

theorem drain_of_none (hnext : R.next s = .ok none) : R.drain s = .ok s := by
  rw [drain, drainUpTo, hnext]

theorem drain_of_some (hnext : R.next s = .ok (some s')) : R.drain s = R.drain s' := by
  have hless := R.left_lt hnext
  rw [drain, drainUpTo, hnext]
  exact drainUpTo_eq (by omega) (by omega)

/-- Induction along the items that a reader takes. -/
theorem drain_induction {P : σ → Prop} (failed : ∀ s e, R.next s = .error e → P s)
    (blocked : ∀ s, R.next s = .ok none → P s)
    (step : ∀ s s', R.next s = .ok (some s') → P s' → P s) (s : σ) : P s := by
  induction hn : R.left s using Nat.strongRecOn generalizing s with
  | _ n ih =>
    cases hnext : R.next s with
    | error e => exact failed s e hnext
    | ok r =>
      cases r with
      | none => exact blocked s hnext
      | some s' => exact step s s' hnext (ih _ (hn ▸ R.left_lt hnext) s' rfl)

theorem drain_eq_of_steps (hsteps : R.Steps s s') : R.drain s = R.drain s' := by
  induction hsteps with
  | refl => rfl
  | tail _ hlast ih => rw [ih, drain_of_some hlast]

theorem drain_of_steps (hsteps : R.Steps s s') (hnext : R.next s' = .ok none) :
    R.drain s = .ok s' :=
  (drain_eq_of_steps hsteps).trans (drain_of_none hnext)

theorem steps_of_drain (hdrain : R.drain s = .ok s') : R.Steps s s' := by
  induction s using R.drain_induction with
  | failed s e hnext =>
    rw [drain_of_error hnext] at hdrain
    simp at hdrain
  | blocked s hnext =>
    rw [drain_of_none hnext] at hdrain
    exact Except.ok.inj hdrain ▸ .refl
  | step s s₁ hnext ih => exact .head hnext (ih (by rw [← drain_of_some hnext, hdrain]))

/-- A reader fails on one of the items. -/
theorem exists_steps_of_drain_error (hdrain : R.drain s = .error e) :
    ∃ s', R.Steps s s' ∧ R.next s' = .error e := by
  induction s using R.drain_induction with
  | failed s e' hnext =>
    rw [drain_of_error hnext] at hdrain
    exact ⟨s, .refl, Except.error.inj hdrain ▸ hnext⟩
  | blocked s hnext =>
    rw [drain_of_none hnext] at hdrain
    simp at hdrain
  | step s s₁ hnext ih =>
    obtain ⟨s', hsteps, herror⟩ := ih (by rw [← drain_of_some hnext, hdrain])
    exact ⟨s', .head hnext hsteps, herror⟩

theorem stopUpTo_eq : ∀ {n m : ℕ} {s : σ}, R.left s < n → R.left s < m →
    R.stopUpTo n s = R.stopUpTo m s
  | n + 1, m + 1, s, hn, hm => by
      rw [stopUpTo, stopUpTo]
      split
      · rename_i s' hnext
        have hless := R.left_lt hnext
        exact stopUpTo_eq (by omega) (by omega)
      · rfl

theorem stop_of_some (hnext : R.next s = .ok (some s')) : R.stop s = R.stop s' := by
  have hless := R.left_lt hnext
  rw [stop, stopUpTo, hnext]
  exact stopUpTo_eq (by omega) (by omega)

theorem stop_of_none (hnext : R.next s = .ok none) : R.stop s = s := by
  rw [stop, stopUpTo, hnext]

theorem stop_of_error (hnext : R.next s = .error e) : R.stop s = s := by
  rw [stop, stopUpTo, hnext]

theorem stop_eq_of_steps (hsteps : R.Steps s s') : R.stop s = R.stop s' := by
  induction hsteps with
  | refl => rfl
  | tail _ hlast ih => rw [ih, stop_of_some hlast]

theorem steps_stop (s : σ) : R.Steps s (R.stop s) := by
  induction s using R.drain_induction with
  | failed s e hnext =>
    rw [stop_of_error hnext]
    exact .refl
  | blocked s hnext =>
    rw [stop_of_none hnext]
    exact .refl
  | step s s₁ hnext ih =>
    rw [stop_of_some hnext]
    exact .head hnext ih

/-- What a reader makes of its input, it makes of more input as well. -/
theorem Steps.feed (b : List β) (hsteps : R.Steps s s') : R.Steps (R.feed b s) (R.feed b s') := by
  induction hsteps with
  | refl => exact .refl
  | tail _ hlast ih => exact .tail ih (R.next_feed b hlast)

/-- A drained reader waits for input. -/
theorem next_of_drain (hdrain : R.drain s = .ok s') : R.next s' = .ok none := by
  induction s using R.drain_induction with
  | failed s e hnext =>
    rw [drain_of_error hnext] at hdrain
    simp at hdrain
  | blocked s hnext =>
    rw [drain_of_none hnext] at hdrain
    exact Except.ok.inj hdrain ▸ hnext
  | step s s₁ hnext ih => exact ih (by rw [← drain_of_some hnext, hdrain])

/-- **More input.** A drained reader that is fed goes on as if it had been given all input at
once. -/
theorem drain_feed (b : List β) (hdrain : R.drain s = .ok s') :
    R.drain (R.feed b s') = R.drain (R.feed b s) := by
  induction s using R.drain_induction with
  | failed s e hnext =>
    rw [drain_of_error hnext] at hdrain
    simp at hdrain
  | blocked s hnext =>
    rw [drain_of_none hnext] at hdrain
    rw [Except.ok.inj hdrain]
  | step s s₁ hnext ih =>
    rw [drain_of_some (R.next_feed b hnext)]
    exact ih (by rw [← drain_of_some hnext, hdrain])

/-- A reader that fails does not recover with more input. -/
theorem drain_feed_error (b : List β) (hdrain : R.drain s = .error e) :
    R.drain (R.feed b s) = .error e := by
  induction s using R.drain_induction with
  | failed s e' hnext =>
    rw [drain_of_error hnext] at hdrain
    rw [drain_of_error (R.next_feed_error b hnext), hdrain]
  | blocked s hnext =>
    rw [drain_of_none hnext] at hdrain
    simp at hdrain
  | step s s₁ hnext ih =>
    rw [drain_of_some (R.next_feed b hnext)]
    exact ih (by rw [← drain_of_some hnext, hdrain])

/-- **The pieces of a stream play no part.** A reader that waits for input makes of a stream in
pieces what it makes of the whole stream. -/
theorem read_eq : ∀ {pieces : List (List β)} {s : σ}, R.next s = .ok none →
    R.read pieces s = R.drain (R.feed pieces.flatten s)
  | [], s, hnext => by
      rw [List.flatten_nil, R.feed_nil, drain_of_none hnext]
      rfl
  | piece :: pieces, s, hnext => by
      rw [read, List.foldlM_cons, List.flatten_cons, ← R.feed_feed]
      cases hdrain : R.drain (R.feed piece s) with
      | error e => exact (drain_feed_error _ hdrain).symm
      | ok s' =>
        rw [← drain_feed _ hdrain]
        exact read_eq (next_of_drain hdrain)

/-- What every item preserves holds of every state that is reached. -/
theorem Steps.invariant {I : σ → Prop} (hkeep : ∀ s s', I s → R.next s = .ok (some s') → I s')
    (hsteps : R.Steps s s') (hs : I s) : I s' := by
  induction hsteps with
  | refl => exact hs
  | tail _ hlast ih => exact hkeep _ _ ih hlast

/-- A reader does not fail when an invariant keeps each item from failing, and keeps the
invariant. -/
theorem exists_drain {I : σ → Prop} (hkeep : ∀ s s', I s → R.next s = .ok (some s') → I s')
    (hsafe : ∀ s, I s → ∃ r, R.next s = .ok r) (hs : I s) : ∃ s', R.drain s = .ok s' ∧ I s' := by
  cases hdrain : R.drain s with
  | error e =>
    obtain ⟨s', hsteps, herror⟩ := exists_steps_of_drain_error hdrain
    obtain ⟨r, hok⟩ := hsafe s' (hsteps.invariant hkeep hs)
    rw [herror] at hok
    simp at hok
  | ok s' => exact ⟨s', rfl, (steps_of_drain hdrain).invariant hkeep hs⟩

end Reader

end Foundation
