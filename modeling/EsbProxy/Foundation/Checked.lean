import Mathlib

/-!
# Writes into bounded buffers

A computation with *checked* writes stops when a text and its terminator do not fit into the buffer
they are written to. It guards the computation without the checks: it does the same when all writes
fit, and stops otherwise.

## Main definitions

* `Stop`, `Checked`, `write`: computations with checked writes.
* `Guards`: such a computation next to the one without checks.
* `FoldFits`: when the writes of all turns of a fold fit.

## Main results

* `Guards.ne_overflow_iff`, `Guards.eq_or_eq`.
* `Guards.write`, `Guards.andThen`, `Guards.map`, `Guards.bind`, `Guards.foldlM`: the rules.
-/

namespace Foundation

/-- How a computation with checked writes can stop: at a write that does not fit, or at a fault of
its own. -/
inductive Stop (ε : Type)
  | overflow
  | fault (fault : ε)
  deriving DecidableEq

/-- A computation with checked writes. -/
abbrev Checked (ε α : Type) := Except (Stop ε) α

section

variable {ε α β σ τ : Type} {fits fits' : Prop} {result : Except ε α} {checked : Checked ε α}

/-- Write a text and its terminator into a buffer of `capacity` elements. -/
def write (capacity : ℕ) (text : List β) : Checked ε Unit :=
  if text.length + 1 ≤ capacity then .ok () else .error .overflow

/-- The computation `checked` does what `result` does if `fits`, and overflows otherwise. -/
def Guards (fits : Prop) (result : Except ε α) (checked : Checked ε α) : Prop :=
  fits ∧ checked = result.mapError Stop.fault ∨ ¬ fits ∧ checked = .error .overflow

namespace Guards

theorem ne_overflow_iff (hguards : Guards fits result checked) :
    checked ≠ .error .overflow ↔ fits := by
  obtain ⟨hfits, rfl⟩ | ⟨hfits, rfl⟩ := hguards
  · refine iff_of_true ?_ hfits
    cases result with
    | error fault => simp [Except.mapError]
    | ok a => simp [Except.mapError]
  · simp [hfits]

theorem eq_or_eq (hguards : Guards fits result checked) :
    checked = .error .overflow ∨ checked = result.mapError Stop.fault :=
  hguards.elim (fun hfits => .inr hfits.2) fun hnot => .inl hnot.2

theorem congr (hguards : Guards fits result checked) (hiff : fits ↔ fits') :
    Guards fits' result checked := by
  rwa [← propext hiff]

/-- A computation without writes. -/
theorem of_eq (heq : checked = result.mapError Stop.fault) : Guards True result checked :=
  .inl ⟨trivial, heq⟩

/-- A computation that succeeds, for its writes, in front of another one. -/
theorem andThen {a : α} {result' : Except ε τ} {checked' : Checked ε τ}
    (hguards : Guards fits (.ok a) checked) (hnext : Guards fits' result' checked') :
    Guards (fits ∧ fits') result' (checked >>= fun _ => checked') := by
  obtain ⟨hfits, rfl⟩ | ⟨hfits, rfl⟩ := hguards
  · exact hnext.congr (and_iff_right hfits).symm
  · exact .inr ⟨fun hall => hfits hall.1, rfl⟩

/-- One write. -/
theorem write (capacity : ℕ) (text : List β) :
    Guards (text.length + 1 ≤ capacity) (.ok () : Except ε Unit)
      (Foundation.write capacity text) := by
  unfold Foundation.write
  split_ifs with hlength
  · exact .inl ⟨hlength, rfl⟩
  · exact .inr ⟨hlength, rfl⟩

/-- A function of the result. -/
theorem map (hguards : Guards fits result checked) (f : α → τ) :
    Guards fits (result.map f) (checked >>= fun a => .ok (f a)) := by
  obtain ⟨hfits, rfl⟩ | ⟨hfits, rfl⟩ := hguards
  · exact .inl ⟨hfits, by cases result <;> rfl⟩
  · exact .inr ⟨hfits, rfl⟩

/-- Two computations one after the other. -/
theorem bind {next : α → Except ε τ} {next' : α → Checked ε τ} {nextFits : α → Prop}
    (hguards : Guards fits result checked)
    (hnext : ∀ a, result = .ok a → Guards (nextFits a) (next a) (next' a)) :
    Guards (fits ∧ ∀ a, result = .ok a → nextFits a) (result >>= next) (checked >>= next') := by
  obtain ⟨hfits, rfl⟩ | ⟨hfits, rfl⟩ := hguards
  · cases result with
    | error fault => exact .inl ⟨⟨hfits, by simp⟩, rfl⟩
    | ok a => exact (hnext a rfl).congr (by simp [hfits])
  · exact .inr ⟨fun hall => hfits hall.1, rfl⟩

end Guards

/-- The writes of every turn of a fold fit, as far as the fold gets. -/
def FoldFits (fits : σ → β → Prop) (f : σ → β → Except ε σ) : σ → List β → Prop
  | _, [] => True
  | a, b :: l => fits a b ∧ ∀ a', f a b = .ok a' → FoldFits fits f a' l

/-- A fold. -/
theorem Guards.foldlM {f : σ → β → Except ε σ} {g : σ → β → Checked ε σ} {fits : σ → β → Prop}
    (hstep : ∀ a b, Guards (fits a b) (f a b) (g a b)) :
    ∀ (l : List β) (a : σ), Guards (FoldFits fits f a l) (l.foldlM f a) (l.foldlM g a)
  | [], _ => .of_eq rfl
  | b :: l, a => by
      rw [List.foldlM_cons, List.foldlM_cons]
      exact (hstep a b).bind fun a' _ => Guards.foldlM hstep l a'

end

end Foundation
