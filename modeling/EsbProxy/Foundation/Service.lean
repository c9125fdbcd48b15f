import Mathlib

/-!
# A queue that is served in rounds

In every round more elements may arrive at the end of a queue, and some are taken from its front.
Nothing is lost, taken twice or overtaken. A round may pass the queue by; a round that serves it
takes `n` elements, or fewer when it meets a bad one, which it takes as well, or the end of the
queue. How long an element waits is bounded by the number of elements and of bad elements in front
of it.

## Main definitions

* `Round`, `Serves`: the rounds that lead from one queue to another.
* `Advances`: what a round takes that serves the queue.

## Main results

* `Serves.conserved`: what was waiting and what arrived was taken in this order, or waits.
* `Serves.lt_length_taken`: an element is taken after enough rounds that served the queue.
-/

namespace Foundation

variable {α : Type*} {good : α → Bool} {n : ℕ} {q q' w taken left : List α}

/-- A round: what has arrived before it, what it takes, and whether it serves the queue. -/
structure Round (α : Type*) where
  arrived : List α
  taken : List α
  served : Bool

/-- The rounds lead from the queue `q` to `q'`. A round that serves the queue takes from it what
`serve` says. -/
inductive Serves (serve : List α → List α → Prop) : List α → List (Round α) → List α → Prop
  | done {q : List α} : Serves serve q [] q
  | round {q left q' : List α} {r : Round α} {rounds : List (Round α)}
      (takes : q ++ r.arrived = r.taken ++ left)
      (full : r.served = true → serve (q ++ r.arrived) r.taken)
      (rest : Serves serve left rounds q') : Serves serve q (r :: rounds) q'

/-- A round that serves the queue takes up to `n` elements, and stops behind the first bad one. -/
def Advances (good : α → Bool) (n : ℕ) (w taken : List α) : Prop :=
  taken = w.take (min n ((w.takeWhile good).length + 1))

/-- **Conservation.** What was waiting and what has arrived was taken, in this order, or is still
waiting. -/
theorem Serves.conserved {serve : List α → List α → Prop} {rounds : List (Round α)}
    (hserves : Serves serve q rounds q') :
    q ++ rounds.flatMap Round.arrived = rounds.flatMap Round.taken ++ q' := by
  induction hserves with
  | done => simp
  | round takes full rest ih =>
    rw [List.flatMap_cons, ← List.append_assoc, takes, List.append_assoc, ih, List.flatMap_cons,
      List.append_assoc]

/-- A round that serves the queue and stops before the `p`-th element has taken `n` elements, or a
bad one. -/
theorem Advances.cases (hadvances : Advances good n w taken) {p : ℕ} (hp : p < w.length)
    (htaken : taken.length ≤ p) :
    taken.length = n ∨ 0 < taken.countP fun a => !good a := by
  rw [Advances] at hadvances
  have hlength : taken.length = min n ((w.takeWhile good).length + 1) := by
    rw [hadvances, List.length_take] at htaken ⊢
    omega
  by_cases hshort : (w.takeWhile good).length < n
  · right
    -- the round stopped behind the first bad element
    cases hrest : w.dropWhile good with
    | nil =>
      have hall : w.takeWhile good = w := by
        have happend := List.takeWhile_append_dropWhile (p := good) (l := w)
        rwa [hrest, List.append_nil] at happend
      rw [hall] at hlength hshort
      omega
    | cons b rest =>
      have hw : w = w.takeWhile good ++ b :: rest := by
        rw [← hrest, List.takeWhile_append_dropWhile]
      have hbad : good b = false := by
        have hhead := List.head?_dropWhile_not good w
        simpa [hrest] using hhead
      have hstops : taken = w.takeWhile good ++ [b] := by
        have htake : (w.takeWhile good ++ b :: rest).take ((w.takeWhile good).length + 1) =
            w.takeWhile good ++ [b] := by
          rw [List.take_length_add_append, List.take_one, List.head?_cons, Option.toList_some]
        rw [hadvances, Nat.min_eq_right hshort, ← htake, ← hw]
      rw [hstops, List.countP_append, List.countP_singleton]
      simp [hbad]
  · left
    omega

/-- **No element waits forever.** The `p`-th element of the queue is taken when more rounds have
served the queue than there are batches of `n` elements and bad elements in front of it. -/
theorem Serves.lt_length_taken {rounds : List (Round α)}
    (hserves : Serves (Advances good n) q rounds q') (hn : 0 < n) {p : ℕ} (hp : p < q.length)
    (hrounds : p / n + ((q.take p).countP fun a => !good a) < rounds.countP Round.served) :
    p < (rounds.flatMap Round.taken).length := by
  induction hserves generalizing p with
  | done => simp at hrounds
  | @round q left q' r rounds takes full rest ih =>
    rw [List.flatMap_cons, List.length_append]
    by_cases htaken : p < r.taken.length
    · omega
    -- the element moves forward by what is taken
    obtain ⟨k, rfl⟩ : ∃ k, p = r.taken.length + k := ⟨p - r.taken.length, by omega⟩
    have hfront : q.take (r.taken.length + k) = r.taken ++ left.take k := by
      have hbefore : (q ++ r.arrived).take (r.taken.length + k) = q.take (r.taken.length + k) :=
        List.take_append_of_le_length hp.le
      rw [← hbefore, takes, List.take_length_add_append]
    have hleft : k < left.length := by
      have hlength := congrArg List.length takes
      rw [List.length_append, List.length_append] at hlength
      omega
    rw [hfront, List.countP_append, List.countP_cons] at hrounds
    have hdiv : k / n ≤ (r.taken.length + k) / n := Nat.div_le_div_right (by omega)
    have hk : k < (rounds.flatMap Round.taken).length := by
      refine ih hleft ?_
      cases hserved : r.served with
      | false =>
        rw [hserved] at hrounds
        simp only [Bool.false_eq_true, if_false] at hrounds
        omega
      | true =>
        rw [hserved, if_pos rfl] at hrounds
        have hp' : r.taken.length + k < (q ++ r.arrived).length := by
          rw [List.length_append]
          omega
        rcases (full hserved).cases hp' (by omega) with hbatch | hbad
        · have hbatches : (r.taken.length + k) / n = k / n + 1 := by
            rw [hbatch, Nat.add_comm, Nat.add_div_right k hn]
          omega
        · omega
    omega

end Foundation
