import EsbProxy.Foundation.Loop

/-!
# The bind loops

`Responder` and `Publisher` bind their sockets in the same loop: when the port is in use, try the
next one, ten times at most. The loop asks `zmq_errno` whether the port was in use, and asks it
after a call that succeeded as well. A successful call need not reset it, so after a port that was
in use the loop may go on behind the port that it has bound, and bind the next one too.

## Main definitions

* `BindResult`: what `zmq_bind` does.
* `Binding`, `Binding.Turn`: the loop.
* `BindLaw`: what the loop should come to.
* `BindsOnce`: when it does.

## Main results

* `Binding.ended_of_loop`: the state in which the loop ends.
* `bindLoops_iff`: the loop ends after ten calls at most, and obeys the law exactly when `BindsOnce`.
-/

namespace EsbProxy

open Foundation

/-! ### The loop -/

/-- `EADDRINUSE` of Linux (`ADDR_IN_USE_ERROR` of `globals.h`). -/
def ADDR_IN_USE_ERROR : ℤ := 98

/-- What `zmq_bind` does: it binds the socket and returns 0, or fails; in either case, what
`zmq_errno` returns afterwards. -/
inductive BindResult
  | bound (errno : ℤ)
  | failed (errno : ℤ)
  deriving DecidableEq

namespace BindResult

/-- The value of `zmq_errno` after the call. -/
def errno : BindResult → ℤ
  | bound errno => errno
  | failed errno => errno

/-- The call returned 0. -/
def isBound : BindResult → Bool
  | bound _ => true
  | failed _ => false

end BindResult

/-- How the loop ends: with `break`, or in the assertion `rc == 0`. -/
inductive BindOutcome
  | success
  | assertionFailed
  deriving DecidableEq

/-- The state of the loop: its variables, the ports on which `zmq_bind` was called and those that
the socket is bound to, and how the loop ended. -/
structure Binding where
  port : ℤ
  retries : ℕ
  tried : List ℤ
  bound : List ℤ
  outcome : Option BindOutcome
  deriving DecidableEq

namespace Binding

/-- The loop starts on the port that the constructor was given. -/
def start (port : ℤ) : Binding where
  port := port
  retries := 0
  tried := []
  bound := []
  outcome := none

/-- The body of the loop. -/
def turn (zmqBind : ℤ → BindResult) (b : Binding) : Binding :=
  let result := zmqBind b.port
  let tried := b.tried ++ [b.port]
  let bound := if result.isBound then b.bound ++ [b.port] else b.bound
  let outcome := if result.isBound then BindOutcome.success else .assertionFailed
  if result.errno = ADDR_IN_USE_ERROR then
    if b.retries + 1 < 10 then ⟨b.port + 1, b.retries + 1, tried, bound, none⟩
    else ⟨b.port, b.retries + 1, tried, bound, some outcome⟩
  else ⟨b.port, b.retries, tried, bound, some outcome⟩

/-- One turn of `while (true)`, unless the loop was left. -/
def Turn (zmqBind : ℤ → BindResult) (b : Binding) (r : Option Binding) : Prop :=
  r = if b.outcome.isSome then none else some (b.turn zmqBind)

end Binding

/-- The loop of `Responder::Responder`. -/
def Responder.Binds (zmqBind : ℤ → BindResult) (port : ℤ) (b : Binding) : Prop :=
  Loop (Binding.Turn zmqBind) (Binding.start port) b

/-- The loop of `Publisher::Publisher`. -/
def Publisher.Binds (zmqBind : ℤ → BindResult) (port : ℤ) (b : Binding) : Prop :=
  Loop (Binding.Turn zmqBind) (Binding.start port) b

/-! ### What the loop should come to -/

variable (zmqBind : ℤ → BindResult) (port : ℤ)

/-- A port is in use. -/
def InUse (q : ℤ) : Prop := zmqBind q = .failed ADDR_IN_USE_ERROR

/-- What a loop on ports from `port` on should come to: when it is left with `break`, the socket is
bound to the first port that is not in use, and to no other, and that port is left in `port`; when
the ten candidates are in use, the assertion fails. -/
structure BindLaw (b : Binding) : Prop where
  bindsFirst : b.outcome = some .success → ∃ n : ℕ, (∀ i < n, InUse zmqBind (port + i)) ∧
    ¬ InUse zmqBind (port + n) ∧ b.port = port + n ∧ b.bound = [port + n]
  fails : (∀ i < 10, InUse zmqBind (port + (i : ℕ))) → b.outcome = some .assertionFailed

/-- If the first port that is not in use is bound and leaves `EADDRINUSE` in `zmq_errno`, and is
not the tenth, then the call that ends the loop on a later port fails. -/
def BindsOnce : Prop :=
  ∀ k n : ℕ, k < n → n < 10 → (∀ i < k, InUse zmqBind (port + i)) →
    zmqBind (port + k) = .bound ADDR_IN_USE_ERROR →
    (∀ i, k < i → i < n → (zmqBind (port + i)).errno = ADDR_IN_USE_ERROR) →
    n = 9 ∨ (zmqBind (port + n)).errno ≠ ADDR_IN_USE_ERROR →
    (zmqBind (port + n)).isBound = false

/-! ### The states of the loop -/

namespace Binding

variable {zmqBind port} {b b' : Binding} {n : ℕ}

variable (zmqBind port) in
/-- The ports on which `zmq_bind` was called in `n` turns. -/
def candidates (n : ℕ) : List ℤ := (List.range n).map fun i : ℕ => port + i

variable (zmqBind port) in
/-- The state after `n` turns that did not leave the loop. -/
structure Trying (n : ℕ) (b : Binding) : Prop where
  port_eq : b.port = port + n
  retries : b.retries = n
  lt : n < 10
  tried : b.tried = candidates port n
  bound : b.bound = (candidates port n).filter fun q => (zmqBind q).isBound
  errno : ∀ i < n, (zmqBind (port + i)).errno = ADDR_IN_USE_ERROR
  outcome : b.outcome = none

variable (zmqBind port) in
/-- The state in which the loop was left in the turn after `n` others. -/
structure Ended (n : ℕ) (b : Binding) : Prop where
  port_eq : b.port = port + n
  lt : n < 10
  tried : b.tried = candidates port (n + 1)
  bound : b.bound = (candidates port (n + 1)).filter fun q => (zmqBind q).isBound
  errno : ∀ i < n, (zmqBind (port + i)).errno = ADDR_IN_USE_ERROR
  last : n = 9 ∨ (zmqBind (port + n)).errno ≠ ADDR_IN_USE_ERROR
  outcome : b.outcome =
    some (if (zmqBind (port + n)).isBound then .success else .assertionFailed)

theorem candidates_succ (n : ℕ) : candidates port (n + 1) = candidates port n ++ [port + n] := by
  rw [candidates, List.range_succ, List.map_append, List.map_singleton, candidates]

theorem trying_start : Trying zmqBind port 0 (start port) where
  port_eq := by simp [start]
  retries := rfl
  lt := by omega
  tried := rfl
  bound := rfl
  errno i hi := by omega
  outcome := rfl

/-- What one turn does: the loop goes on, or is left. -/
theorem Trying.turn (hb : Trying zmqBind port n b) :
    Trying zmqBind port (n + 1) (b.turn zmqBind) ∨ Ended zmqBind port n (b.turn zmqBind) := by
  have hbound : (if (zmqBind b.port).isBound then b.bound ++ [b.port] else b.bound) =
      (candidates port (n + 1)).filter fun q => (zmqBind q).isBound := by
    rw [candidates_succ, List.filter_append, hb.bound, hb.port_eq]
    cases h : (zmqBind (port + n)).isBound with
    | true => simp [h]
    | false => simp [h]
  have htried : b.tried ++ [b.port] = candidates port (n + 1) := by
    rw [candidates_succ, hb.tried, hb.port_eq]
  have hlt := hb.lt
  simp only [Binding.turn]
  by_cases herrno : (zmqBind b.port).errno = ADDR_IN_USE_ERROR
  · rw [if_pos herrno, hb.retries]
    by_cases hretry : n + 1 < 10
    · rw [if_pos hretry]
      refine .inl ⟨?_, rfl, hretry, htried, hbound, fun i hi => ?_, rfl⟩
      · simp only [hb.port_eq]
        push_cast
        ring
      · obtain hi | rfl := Nat.lt_succ_iff_lt_or_eq.mp hi
        · exact hb.errno i hi
        · rw [← hb.port_eq]
          exact herrno
    · rw [if_neg hretry]
      refine .inr ⟨hb.port_eq, hlt, htried, hbound, hb.errno, .inl (by omega), ?_⟩
      rw [hb.port_eq]
  · rw [if_neg herrno]
    refine .inr ⟨hb.port_eq, hlt, htried, hbound, hb.errno, .inr ?_, ?_⟩
    · rw [← hb.port_eq]
      exact herrno
    · rw [hb.port_eq]

theorem turn_cases (zmqBind : ℤ → BindResult) (b : Binding) :
    (b.turn zmqBind).outcome.isSome ∨
      b.retries + 1 < 10 ∧ (b.turn zmqBind).retries = b.retries + 1 := by
  simp only [turn]
  by_cases herrno : (zmqBind b.port).errno = ADDR_IN_USE_ERROR
  · rw [if_pos herrno]
    by_cases hretry : b.retries + 1 < 10
    · rw [if_pos hretry]
      exact .inr ⟨hretry, rfl⟩
    · rw [if_neg hretry]
      exact .inl rfl
  · rw [if_neg herrno]
    exact .inl rfl

/-- Every turn leaves the loop, or uses up one of ten retries. -/
theorem terminates (b : Binding) : Loop.Terminates (Turn zmqBind) b := by
  let left (b : Binding) : ℕ := if b.outcome.isSome then 0 else 1 + (10 - b.retries)
  refine Loop.terminates_of_lt left (fun b b' hturn => ?_) b
  rw [Turn] at hturn
  split_ifs at hturn with hleft
  obtain rfl := Option.some.inj hturn
  have hleft' : left b = 1 + (10 - b.retries) := if_neg hleft
  rw [hleft']
  obtain hsome | ⟨hretry, hretries⟩ := turn_cases zmqBind b
  · have hdone : left (b.turn zmqBind) = 0 := if_pos hsome
    omega
  · have hmore : left (b.turn zmqBind) ≤ 1 + (10 - (b.retries + 1)) := by
      simp only [left, hretries]
      split_ifs
      · exact Nat.zero_le _
      · exact le_rfl
    omega

/-- The loop reaches an end. -/
theorem exists_loop (zmqBind : ℤ → BindResult) (b : Binding) : ∃ b', Loop (Turn zmqBind) b b' :=
  Loop.exists_of_safe (fun _ _ => ⟨_, rfl⟩) (terminates b)

/-- **The end of the loop.** It was left in one of the first ten turns. -/
theorem ended_of_loop (hloop : Loop (Turn zmqBind) (start port) b) :
    ∃ n, Ended zmqBind port n b := by
  have hturn : ∀ b b', (∃ n, Trying zmqBind port n b ∨ Ended zmqBind port n b) →
      Turn zmqBind b (some b') → ∃ n, Trying zmqBind port n b' ∨ Ended zmqBind port n b' := by
    rintro b b' ⟨n, hb | hb⟩ hturn
    · rw [Turn, hb.outcome] at hturn
      obtain rfl := Option.some.inj hturn
      exact hb.turn.elim (fun h => ⟨n + 1, .inl h⟩) fun h => ⟨n, .inr h⟩
    · simp [Turn, hb.outcome] at hturn
  obtain ⟨⟨n, hb | hb⟩, hlast⟩ := hloop.invariant hturn ⟨0, .inl trying_start⟩
  · simp [Turn, hb.outcome] at hlast
  · exact ⟨n, hb⟩

/-! ### When the law is obeyed -/

theorem Ended.mem_bound_iff (hb : Ended zmqBind port n b) {q : ℤ} :
    q ∈ b.bound ↔ ∃ i ≤ n, q = port + i ∧ (zmqBind q).isBound := by
  rw [hb.bound, List.mem_filter, candidates, List.mem_map]
  constructor
  · rintro ⟨⟨i, hi, rfl⟩, hbound⟩
    exact ⟨i, Nat.lt_succ_iff.mp (List.mem_range.mp hi), rfl, hbound⟩
  · rintro ⟨i, hi, rfl, hbound⟩
    exact ⟨⟨i, List.mem_range.mpr (Nat.lt_succ_of_le hi), rfl⟩, hbound⟩

/-- The loop ends in one turn only. -/
theorem Ended.eq_of_last (hb : Ended zmqBind port n b) {m : ℕ} (hm : m < 10)
    (herrno : ∀ i < m, (zmqBind (port + i)).errno = ADDR_IN_USE_ERROR)
    (hlast : m = 9 ∨ (zmqBind (port + m)).errno ≠ ADDR_IN_USE_ERROR) : m = n := by
  obtain hlt | heq | hgt := lt_trichotomy m n
  · have hn := hb.lt
    exact absurd (hb.errno m hlt) (hlast.resolve_left (by omega))
  · exact heq
  · exact absurd (herrno n hgt) (hb.last.resolve_left (by omega))

theorem isBound_of_errno {q : ℤ} (herrno : (zmqBind q).errno = ADDR_IN_USE_ERROR)
    (hfree : ¬ InUse zmqBind q) : zmqBind q = .bound ADDR_IN_USE_ERROR := by
  cases h : zmqBind q with
  | bound errno =>
    rw [h] at herrno
    exact congrArg BindResult.bound herrno
  | failed errno =>
    rw [h] at herrno
    exact absurd (h.trans (congrArg BindResult.failed herrno)) hfree

/-- When all ten candidates are in use, the loop ends in the assertion. -/
theorem Ended.fails (hb : Ended zmqBind port n b)
    (hused : ∀ i < 10, InUse zmqBind (port + (i : ℕ))) : b.outcome = some .assertionFailed := by
  have hlast := hused n hb.lt
  rw [InUse] at hlast
  rw [hb.outcome, hlast]
  rfl

/-- **The law.** A loop that ended obeys the law exactly when it binds one port at most. -/
theorem Ended.law_iff (hb : Ended zmqBind port n b) :
    BindLaw zmqBind port b ↔ BindsOnce zmqBind port := by
  constructor
  · intro hlaw k m hkm hm hused hbound herrno hlast
    have herrno' : ∀ i < m, (zmqBind (port + i)).errno = ADDR_IN_USE_ERROR := by
      intro i hi
      obtain hik | rfl | hik := lt_trichotomy i k
      · rw [hused i hik]
        rfl
      · rw [hbound]
        rfl
      · exact herrno i hik hi
    obtain rfl := hb.eq_of_last hm herrno' hlast
    by_contra hsuccess
    rw [Bool.not_eq_false] at hsuccess
    -- the socket is bound to the port `k` and to the last one
    have houtcome := hb.outcome
    rw [if_pos hsuccess] at houtcome
    obtain ⟨j, -, -, -, hsingle⟩ := hlaw.bindsFirst houtcome
    have hfirst := hb.mem_bound_iff.mpr ⟨k, hkm.le, rfl, by rw [hbound]; rfl⟩
    have hsecond := hb.mem_bound_iff.mpr ⟨m, le_rfl, rfl, hsuccess⟩
    rw [hsingle, List.mem_singleton] at hfirst hsecond
    omega
  · intro honce
    refine ⟨fun hsuccess => ?_, hb.fails⟩
    have hlast : (zmqBind (port + n)).isBound = true := by
      by_contra hfailed
      rw [hb.outcome, if_neg hfailed] at hsuccess
      simp at hsuccess
    have hused : ∀ i < n, InUse zmqBind (port + i) := by
      intro i hi
      induction i using Nat.strong_induction_on with
      | _ i ih =>
        by_contra hfree
        have hfailed := honce i n hi hb.lt (fun j hj => ih j hj (hj.trans hi))
          (isBound_of_errno (hb.errno i hi) hfree) (fun j _ hj => hb.errno j hj) hb.last
        simp [hfailed] at hlast
    have hfree : ¬ InUse zmqBind (port + n) := by
      intro hmem
      rw [InUse] at hmem
      simp [hmem, BindResult.isBound] at hlast
    refine ⟨n, hused, hfree, hb.port_eq, ?_⟩
    have hnone : (candidates port n).filter (fun q => (zmqBind q).isBound) = [] := by
      rw [List.filter_eq_nil_iff]
      intro q hq
      obtain ⟨i, hi, rfl⟩ := List.mem_map.mp hq
      have hq := hused i (List.mem_range.mp hi)
      rw [InUse] at hq
      simp [hq, BindResult.isBound]
    rw [hb.bound, candidates_succ, List.filter_append, hnone, List.nil_append]
    exact List.filter_eq_self.mpr fun q hq => List.mem_singleton.mp hq ▸ hlast

end Binding

/-- **The bind loops.** For every initial port and everything that `zmq_bind` may answer on the ports,
the loops of the responder and of the publisher end, after ten attempts at most. They obey the law
exactly when the first port that is not in use, if it is bound with `EADDRINUSE` left in `zmq_errno`
before the tenth attempt, is not followed by an attempt that ends the loop with another success. -/
theorem bindLoops_iff :
    Loop.Terminates (Binding.Turn zmqBind) (Binding.start port) ∧
      (∃ b, Responder.Binds zmqBind port b) ∧ (∃ b, Publisher.Binds zmqBind port b) ∧
      ∀ b, Responder.Binds zmqBind port b ∨ Publisher.Binds zmqBind port b →
        b.tried.length ≤ 10 ∧ (BindLaw zmqBind port b ↔ BindsOnce zmqBind port) := by
  refine ⟨Binding.terminates _, Binding.exists_loop zmqBind _, Binding.exists_loop zmqBind _,
    fun b hloop => ?_⟩
  obtain ⟨n, hb⟩ := Binding.ended_of_loop (hloop.elim id id)
  have hn := hb.lt
  refine ⟨?_, hb.law_iff⟩
  rw [hb.tried, Binding.candidates, List.length_map, List.length_range]
  omega

/-- The port 7770 is in use, and no other; a call that succeeds leaves `zmq_errno` alone. -/
def oneUsed (q : ℤ) : BindResult :=
  if q = 7770 then .failed ADDR_IN_USE_ERROR else .bound ADDR_IN_USE_ERROR

/-- **A socket bound to nine ports.** With 7770 in use, the loop of the responder binds 7771, and goes
on to 7779. -/
theorem not_bindLoops : ¬ ∀ (zmqBind : ℤ → BindResult) (port : ℤ) (b : Binding),
    Responder.Binds zmqBind port b → BindLaw zmqBind port b := by
  intro claim
  obtain ⟨b, hb⟩ := Binding.exists_loop oneUsed (Binding.start 7770)
  obtain ⟨n, hended⟩ := Binding.ended_of_loop hb
  have honce := hended.law_iff.mp (claim _ _ _ hb)
  refine absurd (honce 1 9 (by omega) (by omega) ?_ rfl ?_ (.inl rfl)) (by decide)
  · intro i hi
    obtain rfl : i = 0 := by omega
    rfl
  · intro i hlower hupper
    rw [oneUsed, if_neg (by omega)]
    rfl

end EsbProxy
