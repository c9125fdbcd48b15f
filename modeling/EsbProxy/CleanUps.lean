import EsbProxy.PendingCalls
import EsbProxy.HealthChecks

/-!
# Clean-ups of the pending calls

`CleanUpResponsesMap` walks over `invokeResponsesCallTime` with an iterator, erases what it takes to
be older than three seconds, and leaves the loop at the end of the map or after 100000 calls. Here
the loop is run with the position of its iterator, and a turn fails that dereferences, erases or
advances an iterator that points to no entry. The loop does not fail and ends; it removes the first
calls, at most 100000, whose age is more than three seconds in `int` arithmetic.

## Main definitions

* `CleanUp`, `CleanUp.body`, `CleanUp.Turn`: the loop.
* `PendingSince`: when a pending call was routed.
* `CleanUpLaw`: what a clean-up should do.

## Main results

* `CleanUp.safe`, `CleanUp.terminates`, `CleanUp.proxy_of_loop`: the loop.
* `lookup_cleanUpLoop_eq`: the calls that a clean-up removes.
* `Proxy.Run.cleanUps_iff`: clean-ups obey the law, or `int` arithmetic is wrong about an age.
-/

namespace EsbProxy

open Foundation

variable {config : Config} {h : List (Transition Proxy Input Output)} {s s' : Proxy}
  {now time : ℤ} {g : Bytes}

/-! ### The loop and its iterator -/

/-- The state of the loop: the position of `it` in `invokeResponsesCallTime`, the number of calls
found, and whether the loop was left by `break`. -/
structure CleanUp where
  proxy : Proxy
  it : ℕ
  found : ℕ
  broken : Bool

namespace CleanUp

variable {c c' : CleanUp}

/-- The entries that the iterator can point to. -/
abbrev calls (c : CleanUp) : List (Σ _ : Bytes, ℤ) := c.proxy.invokeResponsesCallTime.entries

/-- The body of the loop; `none` when `it` points to no entry. -/
def body (now : ℤ) (c : CleanUp) : Option CleanUp :=
  match c.calls[c.it]? with
  | none => none
  | some entry =>
    if int32 (now - entry.2) > 3 then
      let proxy := c.proxy.settle entry.1
      -- `erase` returns the iterator that points behind the erased entry
      some
        { proxy := proxy
          it := c.it
          found := c.found + 1
          broken := decide (c.it = proxy.invokeResponsesCallTime.entries.length ∨
            c.found + 1 ≥ Proxy.cleanUpBatch) }
    else some { c with it := c.it + 1 }

/-- One turn of the loop. The body is entered unless `it` is the end of the map or the loop was
left. -/
def Turn (now : ℤ) (c : CleanUp) (r : Option CleanUp) : Prop :=
  if c.broken = true ∨ c.it = c.calls.length then r = none
  else r.isSome ∧ c.body now = r

/-- The state in which the loop begins. -/
def start (s : Proxy) : CleanUp where
  proxy := s
  it := 0
  found := 0
  broken := false

theorem turn_some (hturn : Turn now c (some c')) :
    (c.broken = false ∧ c.it ≠ c.calls.length) ∧ c.body now = some c' := by
  unfold Turn at hturn
  split_ifs at hturn with hend
  rw [not_or, Bool.not_eq_true] at hend
  exact ⟨hend, hturn.2⟩

theorem turn_none (hturn : Turn now c none) : c.broken = true ∨ c.it = c.calls.length := by
  unfold Turn at hturn
  split_ifs at hturn with hend
  · exact hend
  · simp at hturn

/-- **A turn.** The entry at the iterator is erased, and the iterator points behind it; or the
iterator advances. -/
theorem body_cases (hbody : c.body now = some c') :
    ∃ before entry after, c.calls = before ++ entry :: after ∧ before.length = c.it ∧
      (int32 (now - entry.2) > 3 ∧ c'.proxy = c.proxy.settle entry.1 ∧ c'.it = c.it ∧
          c'.found = c.found + 1 ∧ c'.calls = before ++ after ∧
          c'.broken = decide (after = [] ∨ c.found + 1 ≥ Proxy.cleanUpBatch) ∨
        ¬ int32 (now - entry.2) > 3 ∧ c' = { c with it := c.it + 1 }) := by
  unfold body at hbody
  split at hbody
  · simp at hbody
  · rename_i entry hentry
    obtain ⟨hlt, rfl⟩ := List.getElem?_eq_some_iff.mp hentry
    have hsplit : c.calls = c.calls.take c.it ++ c.calls[c.it] :: c.calls.drop (c.it + 1) := by
      rw [← List.drop_eq_getElem_cons hlt, List.take_append_drop]
    have hlength : (c.calls.take c.it).length = c.it := by
      rw [List.length_take]
      omega
    refine ⟨_, _, _, hsplit, hlength, ?_⟩
    split_ifs at hbody with hold
    · obtain rfl := Option.some.inj hbody
      have herase : (c.proxy.settle c.calls[c.it].1).invokeResponsesCallTime.entries =
          c.calls.take c.it ++ c.calls.drop (c.it + 1) := Dict.entries_erase hsplit
      have hend : c.it = (c.proxy.settle c.calls[c.it].1).invokeResponsesCallTime.entries.length ↔
          c.calls.drop (c.it + 1) = [] := by
        rw [herase, List.length_append, hlength, Nat.left_eq_add, List.length_eq_zero_iff]
      exact .inl ⟨hold, rfl, rfl, rfl, herase, decide_eq_decide.mpr (or_congr_left hend)⟩
    · exact .inr ⟨hold, (Option.some.inj hbody).symm⟩

/-- The iterator points to an entry, or to the end. -/
theorem it_le_of_turn (hturn : Turn now c (some c')) : c'.it ≤ c'.calls.length := by
  obtain ⟨before, entry, after, hcalls, hlength, hcase⟩ := body_cases (turn_some hturn).2
  rcases hcase with ⟨-, -, hit, -, hcalls', -⟩ | ⟨-, rfl⟩
  · rw [hit, hcalls', List.length_append]
    omega
  · change c.it + 1 ≤ c.calls.length
    rw [hcalls, List.length_append, List.length_cons]
    omega

/-- **Iterators.** The loop never dereferences, erases or advances an iterator that points to no
entry. -/
theorem safe (now : ℤ) (s : Proxy) : Loop.Safe (Turn now) (start s) := by
  refine Loop.safe_of_invariant (I := fun c : CleanUp => c.it ≤ c.calls.length)
    (fun c c' _ hturn => it_le_of_turn hturn) (fun c hc => ?_) (Nat.zero_le _)
  by_cases hend : c.broken = true ∨ c.it = c.calls.length
  · exact ⟨none, by rw [Turn, if_pos hend]⟩
  · have hlt : c.it < c.calls.length := by omega
    have hsome : (c.body now).isSome := by
      rw [body, List.getElem?_eq_getElem hlt]
      dsimp only
      split_ifs
      · rfl
      · rfl
    exact ⟨c.body now, by rw [Turn, if_neg hend]; exact ⟨hsome, rfl⟩⟩

/-- **The loop ends**, because every turn leaves fewer entries from the iterator on. -/
theorem terminates (now : ℤ) (s : Proxy) : Loop.Terminates (Turn now) (start s) := by
  refine Loop.terminates_of_lt (fun c => c.calls.length - c.it) (fun c c' hturn => ?_) _
  obtain ⟨before, entry, after, hcalls, hlength, hcase⟩ := body_cases (turn_some hturn).2
  have htotal : c.calls.length = before.length + (after.length + 1) := by
    rw [hcalls, List.length_append, List.length_cons]
  rcases hcase with ⟨-, -, hit, -, hcalls', -⟩ | ⟨-, rfl⟩
  · rw [hit, hcalls', List.length_append]
    omega
  · change c.calls.length - (c.it + 1) < c.calls.length - c.it
    omega

/-- The entries that are still to be visited. -/
def rest (c : CleanUp) : List (Σ _ : Bytes, ℤ) := if c.broken then [] else c.calls.drop c.it

/-- **What the loop computes.** It is the recursion over the entries that are still to be
visited. -/
theorem proxy_of_loop (hloop : Loop (Turn now) c c') :
    c'.proxy = Proxy.cleanUpLoop now c.found c.rest c.proxy := by
  induction hloop with
  | @stop c last =>
    have hrest : c.rest = [] := by
      unfold rest
      split_ifs with hbroken
      · rfl
      · rw [(turn_none last).resolve_left hbroken, List.drop_length]
    rw [hrest, Proxy.cleanUpLoop]
  | @turn c c₁ c₂ first _ ih =>
    obtain ⟨⟨hbroken, -⟩, hbody⟩ := turn_some first
    obtain ⟨before, entry, after, hcalls, hlength, hcase⟩ := body_cases hbody
    have hrest : c.rest = entry :: after := by
      rw [rest, hbroken, if_neg (by simp), hcalls, ← hlength, List.drop_left]
    rw [ih, hrest, Proxy.cleanUpLoop]
    rcases hcase with ⟨hold, hproxy, hit, hfound, hcalls', hbroken'⟩ | ⟨hnew, rfl⟩
    · rw [if_pos hold]
      split_ifs with hend
      · rw [rest, hbroken', decide_eq_true hend, if_pos rfl, Proxy.cleanUpLoop, hproxy]
      · rw [rest, hbroken', decide_eq_false hend, if_neg (by simp), hcalls', hit, ← hlength,
          List.drop_left, hproxy, hfound]
    · have hrest' : ({ c with it := c.it + 1 } : CleanUp).rest = after := by
        rw [rest, if_neg (by simp [hbroken])]
        change c.calls.drop (c.it + 1) = after
        rw [hcalls, ← hlength, ← List.drop_drop, List.drop_left, List.drop_one, List.tail_cons]
      rw [if_neg hnew, hrest']

end CleanUp

/-! ### What the loop removes -/

/-- A clean-up takes the call of an entry to be older than three seconds. -/
def IsDead (now : ℤ) (it : Σ _ : Bytes, ℤ) : Bool := decide (int32 (now - it.2) > 3)

/-- The first `n` calls of a traversal that a clean-up takes to be older than three seconds. -/
def deadCalls (now : ℤ) (n : ℕ) (its : List (Σ _ : Bytes, ℤ)) : List Bytes :=
  ((its.filter (IsDead now)).take n).map Sigma.fst

theorem deadCalls_cons_of_dead {it : Σ _ : Bytes, ℤ} {its : List (Σ _ : Bytes, ℤ)}
    (hold : int32 (now - it.2) > 3) (n : ℕ) :
    deadCalls now (n + 1) (it :: its) = it.1 :: deadCalls now n its := by
  have hdead : IsDead now it = true := decide_eq_true hold
  rw [deadCalls, List.filter_cons_of_pos hdead, List.take_succ_cons, List.map_cons, deadCalls]

theorem deadCalls_cons_of_alive {it : Σ _ : Bytes, ℤ} {its : List (Σ _ : Bytes, ℤ)}
    (hnew : ¬ int32 (now - it.2) > 3) (n : ℕ) :
    deadCalls now n (it :: its) = deadCalls now n its := by
  rw [deadCalls, List.filter_cons_of_neg (by simpa [IsDead] using hnew), deadCalls]

theorem length_deadCalls (now : ℤ) (n : ℕ) (its : List (Σ _ : Bytes, ℤ)) :
    (deadCalls now n its).length = min n (its.filter (IsDead now)).length := by
  rw [deadCalls, List.length_map, List.length_take]

theorem exists_of_mem_deadCalls {n : ℕ} {its : List (Σ _ : Bytes, ℤ)}
    (hg : g ∈ deadCalls now n its) : ∃ t, ⟨g, t⟩ ∈ its ∧ int32 (now - t) > 3 := by
  obtain ⟨it, hit, rfl⟩ := List.mem_map.mp hg
  obtain ⟨hmem, hdead⟩ := List.mem_filter.mp (List.mem_of_mem_take hit)
  exact ⟨it.2, hmem, of_decide_eq_true hdead⟩

/-- A short list of dead calls is complete. -/
theorem mem_deadCalls_of_lt {n : ℕ} {its : List (Σ _ : Bytes, ℤ)} {t : ℤ}
    (hfew : (deadCalls now n its).length < n) (hmem : ⟨g, t⟩ ∈ its)
    (hold : int32 (now - t) > 3) : g ∈ deadCalls now n its := by
  rw [length_deadCalls] at hfew
  have hall : (its.filter (IsDead now)).take n = its.filter (IsDead now) :=
    List.take_of_length_le (by omega)
  have hdead : (⟨g, t⟩ : Σ _ : Bytes, ℤ) ∈ its.filter (IsDead now) :=
    List.mem_filter.mpr ⟨hmem, decide_eq_true hold⟩
  rw [deadCalls, hall]
  exact List.mem_map.mpr ⟨_, hdead, rfl⟩

theorem nodup_deadCalls {its : List (Σ _ : Bytes, ℤ)} (hnodup : its.NodupKeys) (now : ℤ) (n : ℕ) :
    (deadCalls now n its).Nodup :=
  List.Nodup.sublist (((List.take_sublist n _).trans List.filter_sublist).map Sigma.fst) hnodup

/-- **What the loop removes.** The first dead calls of the traversal are removed from both maps,
as many as are left of the batch; all else stays. -/
theorem lookup_cleanUpLoop_eq (now : ℤ) (g : Bytes) : ∀ (found : ℕ) (its : List (Σ _ : Bytes, ℤ))
    (s : Proxy), found < Proxy.cleanUpBatch →
    let removed := deadCalls now (Proxy.cleanUpBatch - found) its
    (Proxy.cleanUpLoop now found its s).invokeResponses.lookup g =
        (if g ∈ removed then none else s.invokeResponses.lookup g) ∧
      (Proxy.cleanUpLoop now found its s).invokeResponsesCallTime.lookup g =
        if g ∈ removed then none else s.invokeResponsesCallTime.lookup g
  | found, [], s, _ => by simp [Proxy.cleanUpLoop, deadCalls]
  | found, it :: rest, s, hfound => by
      obtain ⟨n, hn⟩ : ∃ n, Proxy.cleanUpBatch - found = n + 1 :=
        Nat.exists_eq_succ_of_ne_zero (by omega)
      have hbatch : Proxy.cleanUpBatch - (found + 1) = n := by omega
      rw [Proxy.cleanUpLoop]
      split_ifs with hold hend
      · have hlast : deadCalls now n rest = [] := by
          rcases hend with rfl | hend
          · simp [deadCalls]
          · obtain rfl : n = 0 := by omega
            simp [deadCalls]
        simp only [hn, deadCalls_cons_of_dead hold, hlast, List.mem_singleton,
          Proxy.lookup_settle, Proxy.lookup_settle_callTime, and_self]
      · have ih := lookup_cleanUpLoop_eq now g (found + 1) rest (s.settle it.1) (by omega)
        simp only [hbatch, Proxy.lookup_settle, Proxy.lookup_settle_callTime] at ih
        simp only [hn, deadCalls_cons_of_dead hold, List.mem_cons, ih.1, ih.2]
        by_cases hg : g = it.1
        · simp [hg]
        · simp [hg]
      · have ih := lookup_cleanUpLoop_eq now g found rest s hfound
        rwa [deadCalls_cons_of_alive hold]

/-! ### Clean-ups of a proxy -/

/-- The state in which the loop of a clean-up at `time` begins that visits the calls in some
order. -/
def Proxy.cleanUpStart (order : List Bytes) (time : ℤ) (s : Proxy) : CleanUp :=
  CleanUp.start
    { s with
      lastResponsesCleanUp := int32 time
      invokeResponsesCallTime := s.invokeResponsesCallTime.reorder order }

/-- The loop of a clean-up takes `s` to `s'`. -/
def Proxy.CleansUp (order : List Bytes) (time : ℤ) (s s' : Proxy) : Prop :=
  ∃ c, Loop (CleanUp.Turn (int32 time)) (s.cleanUpStart order time) c ∧ c.proxy = s'

theorem Proxy.exists_cleansUp (order : List Bytes) (time : ℤ) (s : Proxy) :
    ∃ s', s.CleansUp order time s' := by
  obtain ⟨c, hloop⟩ := Loop.exists_of_safe (CleanUp.safe (int32 time) _)
    (CleanUp.terminates (int32 time) _)
  exact ⟨c.proxy, c, hloop, rfl⟩

/-- What a clean-up should do to the pending calls, given which of them are old: it removes the old
ones, as long as the batch lasts, from both maps, and nothing else. -/
structure RemovesBatch (old : Bytes → Prop) (s : Proxy) (removed : List Bytes) (s' : Proxy) :
    Prop where
  nodup : removed.Nodup
  length_le : removed.length ≤ Proxy.cleanUpBatch
  mem_iff : ∀ g, g ∈ removed ↔
    g ∈ s.invokeResponsesCallTime ∧ g ∉ s'.invokeResponsesCallTime
  old_of_mem : ∀ g ∈ removed, old g
  gone : ∀ g ∈ removed, g ∉ s'.invokeResponses
  not_old : removed.length < Proxy.cleanUpBatch → ∀ g ∈ s'.invokeResponsesCallTime, ¬ old g
  kept : ∀ g, g ∉ removed → s'.invokeResponses.lookup g = s.invokeResponses.lookup g ∧
    s'.invokeResponsesCallTime.lookup g = s.invokeResponsesCallTime.lookup g

/-- The calls that a clean-up removes when it visits the calls in a given order. -/
def Proxy.deadCallsIn (order : List Bytes) (time : ℤ) (s : Proxy) : List Bytes :=
  deadCalls (int32 time) cleanUpBatch (s.invokeResponsesCallTime.reorder order).entries

/-- An execution of the loop removes the dead calls of its traversal. -/
theorem Proxy.CleansUp.lookup_eq {order : List Bytes} (hclean : s.CleansUp order time s')
    (g : Bytes) :
    s'.invokeResponses.lookup g =
        (if g ∈ s.deadCallsIn order time then none else s.invokeResponses.lookup g) ∧
      s'.invokeResponsesCallTime.lookup g =
        if g ∈ s.deadCallsIn order time then none else s.invokeResponsesCallTime.lookup g := by
  obtain ⟨c, hloop, rfl⟩ := hclean
  rw [CleanUp.proxy_of_loop hloop]
  have hlook := lookup_cleanUpLoop_eq (int32 time) g 0
    (s.invokeResponsesCallTime.reorder order).entries
    { s with
      lastResponsesCleanUp := int32 time
      invokeResponsesCallTime := s.invokeResponsesCallTime.reorder order } (by decide)
  simp only [Dict.lookup_reorder] at hlook
  exact hlook

/-- The clean-up of the main loop is such an execution. -/
theorem Proxy.cleansUp_cleanUpResponsesMap
    (hpass : 60 ≤ int32 (int32 time - s.lastResponsesCleanUp)) :
    s.CleansUp [] time (s.cleanUpResponsesMap time) := by
  obtain ⟨s', c, hloop, -⟩ := s.exists_cleansUp [] time
  refine ⟨c, hloop, ?_⟩
  rw [CleanUp.proxy_of_loop hloop]
  simp only [cleanUpResponsesMap]
  rw [if_neg (not_lt.mpr hpass)]
  rfl

section

variable {since : Bytes → ℤ}

/-- A list of calls that are old in `int` arithmetic is no longer than the list of all of them. -/
theorem length_le_of_old (time : ℤ) {calls : List Bytes} (hnodup : calls.Nodup)
    (hcalls : ∀ g ∈ calls, g ∈ s.invokeResponsesCallTime ∧ int32 (time - since g) > 3) :
    calls.length ≤
      (s.invokeResponsesCallTime.keys.filter fun g => int32 (time - since g) > 3).length := by
  refine (List.subperm_of_subset hnodup fun g hg => ?_).length_le
  exact List.mem_filter.mpr ⟨(hcalls g hg).1, decide_eq_true (hcalls g hg).2⟩

variable (htimes : ∀ g t, s.invokeResponsesCallTime.lookup g = some t → t = int32 (since g))

include htimes

/-- The age that a clean-up sees. -/
theorem int32_age (time : ℤ) (hg : g ∈ s.invokeResponsesCallTime) :
    ∃ t, s.invokeResponsesCallTime.lookup g = some t ∧
      int32 (int32 time - t) = int32 (time - since g) := by
  obtain ⟨t, ht⟩ := Dict.mem_iff_exists_lookup.mp hg
  refine ⟨t, ht, ?_⟩
  rw [htimes g t ht]
  unfold int32
  omega

/-- A call is removed only if it is old in `int` arithmetic. -/
theorem old_of_mem_deadCallsIn {order : List Bytes} (hg : g ∈ s.deadCallsIn order time) :
    g ∈ s.invokeResponsesCallTime ∧ int32 (time - since g) > 3 := by
  obtain ⟨t, hmem, hold⟩ := exists_of_mem_deadCalls hg
  have ht : s.invokeResponsesCallTime.lookup g = some t := by
    rw [← Dict.lookup_reorder order]
    exact AList.mem_lookup_iff.mpr hmem
  have hpending : g ∈ s.invokeResponsesCallTime := Dict.mem_iff_exists_lookup.mpr ⟨t, ht⟩
  obtain ⟨t', ht', hage⟩ := int32_age htimes time hpending
  obtain rfl : t = t' := Option.some.inj (ht.symm.trans ht')
  exact ⟨hpending, hage ▸ hold⟩

/-- When fewer calls than a batch are removed, all that are old in `int` arithmetic are. -/
theorem mem_deadCallsIn_of_lt {order : List Bytes}
    (hfew : (s.deadCallsIn order time).length < Proxy.cleanUpBatch)
    (hg : g ∈ s.invokeResponsesCallTime) (hold : int32 (time - since g) > 3) :
    g ∈ s.deadCallsIn order time := by
  obtain ⟨t, ht, hage⟩ := int32_age htimes time hg
  have hmem : ⟨g, t⟩ ∈ (s.invokeResponsesCallTime.reorder order).entries := by
    rw [← AList.mem_lookup_iff, Dict.lookup_reorder]
    exact ht
  exact mem_deadCalls_of_lt hfew hmem (hage.symm ▸ hold)

/-- **What a clean-up does.** It removes a batch of the calls that are old in `int`
arithmetic. -/
theorem Proxy.CleansUp.removesBatch {order : List Bytes} (hclean : s.CleansUp order time s') :
    ∃ removed, RemovesBatch (fun g => int32 (time - since g) > 3) s removed s' := by
  have hlook := hclean.lookup_eq
  have hpending : ∀ g, g ∈ s'.invokeResponsesCallTime ↔
      g ∉ s.deadCallsIn order time ∧ g ∈ s.invokeResponsesCallTime := by
    intro g
    rw [← AList.lookup_isSome, ← AList.lookup_isSome, (hlook g).2]
    by_cases hg : g ∈ s.deadCallsIn order time
    · simp [hg]
    · simp [hg]
  refine ⟨s.deadCallsIn order time, nodup_deadCalls (AList.nodupKeys _) _ _, ?_, fun g => ?_,
    fun g hg => (old_of_mem_deadCallsIn htimes hg).2, fun g hg => ?_, fun hfew g hg hold => ?_,
    fun g hg => ?_⟩
  · rw [deadCallsIn, length_deadCalls]
    exact min_le_left _ _
  · have hold : g ∈ s.deadCallsIn order time → g ∈ s.invokeResponsesCallTime :=
      fun hg => (old_of_mem_deadCallsIn htimes hg).1
    rw [hpending]
    tauto
  · rw [← AList.lookup_eq_none, (hlook g).1, if_pos hg]
  · obtain ⟨halive, hg⟩ := (hpending g).mp hg
    exact halive (mem_deadCallsIn_of_lt htimes hfew hg hold)
  · rw [(hlook g).1, (hlook g).2, if_neg hg, if_neg hg]
    exact ⟨rfl, rfl⟩

/-- A call that is old in `int` arithmetic is removed when it is visited first. -/
theorem exists_cleansUp_notMem (hg : g ∈ s.invokeResponsesCallTime)
    (hold : int32 (time - since g) > 3) :
    ∃ order s', s.CleansUp order time s' ∧ g ∉ s'.invokeResponsesCallTime := by
  obtain ⟨t, ht, hage⟩ := int32_age htimes time hg
  obtain ⟨order, rest, hfirst⟩ := Dict.exists_entries_reorder ht
  obtain ⟨s', hclean⟩ := s.exists_cleansUp order time
  refine ⟨order, s', hclean, ?_⟩
  have hdead : g ∈ s.deadCallsIn order time := by
    obtain ⟨n, hn⟩ : ∃ n, Proxy.cleanUpBatch = n + 1 := Nat.exists_eq_succ_of_ne_zero (by decide)
    rw [Proxy.deadCallsIn, hfirst, hn, deadCalls_cons_of_dead (hage.symm ▸ hold)]
    exact List.mem_cons_self
  rw [← AList.lookup_eq_none, (hclean.lookup_eq g).2, if_pos hdead]

/-- **When clean-ups are right about ages.** In every iteration order a clean-up removes a batch of
the calls older than three seconds exactly when no younger call is old in `int` arithmetic, and,
unless that arithmetic finds a full batch, no older call is young in it. -/
theorem Proxy.forall_cleansUp_iff :
    (∀ order s', s.CleansUp order time s' →
        ∃ removed, RemovesBatch (fun g => time - since g > 3) s removed s') ↔
      (∀ g ∈ s.invokeResponsesCallTime, int32 (time - since g) > 3 → time - since g > 3) ∧
        ((s.invokeResponsesCallTime.keys.filter fun g => int32 (time - since g) > 3).length <
            cleanUpBatch →
          ∀ g ∈ s.invokeResponsesCallTime, time - since g > 3 → int32 (time - since g) > 3) := by
  constructor
  · intro hexact
    constructor
    · intro g hg hdead
      obtain ⟨order, s', hclean, hgone⟩ := exists_cleansUp_notMem htimes hg hdead
      obtain ⟨removed, hbatch⟩ := hexact order s' hclean
      exact hbatch.old_of_mem g ((hbatch.mem_iff g).mpr ⟨hg, hgone⟩)
    · intro hfew g hg hold
      by_contra hyoung
      obtain ⟨s', hclean⟩ := s.exists_cleansUp [] time
      obtain ⟨dead, hdead⟩ := hclean.removesBatch htimes
      obtain ⟨removed, hbatch⟩ := hexact [] s' hclean
      have hsame : ∀ g, g ∈ removed ↔ g ∈ dead := fun g =>
        (hbatch.mem_iff g).trans (hdead.mem_iff g).symm
      have hlength := length_le_of_old time hbatch.nodup fun g hg =>
        ⟨((hbatch.mem_iff g).mp hg).1, hdead.old_of_mem g ((hsame g).mp hg)⟩
      have hkept : g ∈ s'.invokeResponsesCallTime := by
        by_contra hgone
        exact hyoung (hdead.old_of_mem g ((hdead.mem_iff g).mpr ⟨hg, hgone⟩))
      exact hbatch.not_old (by omega) g hkept hold
  · rintro ⟨hyoung, hold⟩ order s' hclean
    obtain ⟨removed, hdead⟩ := hclean.removesBatch htimes
    refine ⟨removed, hdead.nodup, hdead.length_le, hdead.mem_iff, fun g hg => ?_, hdead.gone,
      fun hfew g hg hage => ?_, hdead.kept⟩
    · exact hyoung g ((hdead.mem_iff g).mp hg).1 (hdead.old_of_mem g hg)
    · have hkept : g ∉ removed := fun hmem => ((hdead.mem_iff g).mp hmem).2 hg
      have hpending : g ∈ s.invokeResponsesCallTime :=
        (Dict.mem_congr (hdead.kept g hkept).2).mp hg
      have hcount : (s.invokeResponsesCallTime.keys.filter
          fun g => int32 (time - since g) > 3).length ≤ removed.length := by
        have hnodup : s.invokeResponsesCallTime.keys.Nodup := s.invokeResponsesCallTime.keys_nodup
        refine (List.subperm_of_subset (hnodup.filter _) fun g hg => ?_).length_le
        obtain ⟨hmem, hdeadg⟩ := List.mem_filter.mp hg
        by_contra hg
        have hleft : g ∈ s'.invokeResponsesCallTime :=
          (Dict.mem_congr (hdead.kept g hg).2).mpr hmem
        exact hdead.not_old hfew g hleft (of_decide_eq_true hdeadg)
      exact hdead.not_old hfew g hg (hold (by omega) g hpending hage)

end

/-! ### The age of a pending call -/

/-- At the end of the history `h`, the call `g` has been pending since it was routed at `time`. -/
def PendingSince (h : List (Transition Proxy Input Output)) (g : Bytes) (time : ℤ) : Prop :=
  ∃ h₁ t h₂ source, h = h₁ ++ t :: h₂ ∧ RoutesCall t g source time ∧
    g ∉ t.pre.invokeResponsesCallTime ∧ ∀ u ∈ h₂, g ∈ u.post.invokeResponsesCallTime

/-- A guid is pending when the second map holds it. -/
theorem pendingCall_ne_none_iff (hkeys : s.KeysAgree) :
    pendingCall g s ≠ none ↔ g ∈ s.invokeResponsesCallTime := by
  rw [Ne, pendingCall_eq_none hkeys, ← Option.isNone_iff_eq_none, Bool.not_eq_true,
    Option.isNone_eq_false_iff, hkeys g, AList.lookup_isSome]

/-- Every pending call has been pending since it was routed. -/
theorem Proxy.Run.exists_pendingSince (hrun : Proxy.Run config h s)
    (hg : g ∈ s.invokeResponsesCallTime) : ∃ time, PendingSince h g time := by
  have keeps : ∀ t ∈ h, Trace.Keeps (pendingCall g) t := fun t ht =>
    (hrun.step_of_mem ht).keeps (Proxy.Run.keysAgree_pre hrun ht) g
  obtain ⟨v, hv⟩ := Option.ne_none_iff_exists'.mp
    ((pendingCall_ne_none_iff (Proxy.Run.keysAgree hrun)).mpr hg)
  obtain ⟨h₁, t, h₂, rfl, hpre, hpost, hkept⟩ :=
    Trace.exists_fill (pendingCall g) hrun keeps rfl hv
  obtain ⟨before, hstep, after⟩ := hrun.split_cons
  have hkeys : t.pre.KeysAgree := Proxy.Run.keysAgree before
  rcases hstep.pendingCall_cases hkeys g with
    hsame | ⟨now, rand, cmdReq, key, haction, hcmd, hguid, hinvoke, -, -⟩ |
      ⟨_, _, _, _, -, -, -, hnone⟩ | ⟨_, _, _, -, -, -, hnone⟩
  · exact absurd (hpost.symm.trans (hsame.trans hpre)) (by simp)
  · refine ⟨now, h₁, t, h₂, cmdReq.sourceProxyGuid, rfl,
      ⟨rand, cmdReq, key, haction, hcmd, hguid, rfl, hinvoke⟩, fun hmem => ?_, fun u hu => ?_⟩
    · exact (pendingCall_ne_none_iff hkeys).mpr hmem hpre
    · have hmem : u ∈ h₁ ++ t :: h₂ := by simp [hu]
      have hkeysPost := (hrun.step_of_mem hmem).keysAgree (Proxy.Run.keysAgree_pre hrun hmem)
      exact (pendingCall_ne_none_iff hkeysPost).mp (by simp [(hkept u hu).2])
  · exact absurd (hpost.symm.trans hnone) (by simp)
  · exact absurd (hpost.symm.trans hnone) (by simp)

/-- What the second map holds is the time at which the call was routed, truncated to `int`. -/
theorem PendingSince.lookup_eq (hsince : PendingSince h g time) (hrun : Proxy.Run config h s) :
    s.invokeResponsesCallTime.lookup g = some (int32 time) := by
  obtain ⟨h₁, t, h₂, source, rfl, hroute, hfree, hpending⟩ := hsince
  obtain ⟨before, hstep, after⟩ := hrun.split_cons
  have hkeys : t.pre.KeysAgree := Proxy.Run.keysAgree before
  have hpre : pendingCall g t.pre = none := by
    by_contra hfull
    exact hfree ((pendingCall_ne_none_iff hkeys).mp hfull)
  have hpost : pendingCall g t.post = some (source, int32 time) := by
    rw [hroute.pendingCall_post hstep hkeys, hpre, Option.getD_none]
  have hmem : ∀ u ∈ h₂, u ∈ h₁ ++ t :: h₂ := fun u hu => by simp [hu]
  have hkept := Trace.slot_eq_of_ne_none (pendingCall g) after
    (fun u hu => (hrun.step_of_mem (hmem u hu)).keeps
      (Proxy.Run.keysAgree_pre hrun (hmem u hu)) g) hpost fun u hu =>
      (pendingCall_ne_none_iff ((hrun.step_of_mem (hmem u hu)).keysAgree
        (Proxy.Run.keysAgree_pre hrun (hmem u hu)))).mpr (hpending u hu)
  exact (pendingCall_eq_some.mp hkept).2

/-- A call was routed at a time that the clock has shown. -/
theorem PendingSince.mem_clocks (hsince : PendingSince h g time) : time ∈ clocks h := by
  obtain ⟨h₁, t, h₂, source, rfl, ⟨rand, cmdReq, key, haction, -⟩, -⟩ := hsince
  exact List.mem_filterMap.mpr ⟨t, by simp, by rw [haction, Input.clock]⟩

/-- What the second map holds of all pending calls. -/
theorem Proxy.Run.callTimes (hrun : Proxy.Run config h s) {since : Bytes → ℤ}
    (hsince : ∀ g ∈ s.invokeResponsesCallTime, PendingSince h g (since g)) :
    ∀ g t, s.invokeResponsesCallTime.lookup g = some t → t = int32 (since g) := by
  intro g t ht
  have hpending : g ∈ s.invokeResponsesCallTime := Dict.mem_iff_exists_lookup.mpr ⟨t, ht⟩
  exact Option.some.inj (ht.symm.trans ((hsince g hpending).lookup_eq hrun))

/-- **Clean-ups.** Take a state that a run reaches, in which the calls have been pending since the
times `since`, and a clean-up at any clock value that is not throttled. In every iteration order
its loop ends without an iterator past the end, and removes from both maps up to 100000 of the
calls whose age is more than three seconds in `int` arithmetic, and all of them if it removes
fewer. These are the calls older than three seconds exactly when no younger call is old in that
arithmetic and, unless it finds 100000 old ones, no older call is young. -/
theorem Proxy.Run.cleanUps_iff (hrun : Proxy.Run config h s) (since : Bytes → ℤ)
    (hsince : ∀ g ∈ s.invokeResponsesCallTime, PendingSince h g (since g)) (time : ℤ)
    (hpass : 60 ≤ int32 (int32 time - s.lastResponsesCleanUp)) :
    s.CleansUp [] time (s.cleanUpResponsesMap time) ∧
      (∀ order, Loop.Terminates (CleanUp.Turn (int32 time)) (s.cleanUpStart order time) ∧
        Loop.Safe (CleanUp.Turn (int32 time)) (s.cleanUpStart order time)) ∧
      (∀ order s', s.CleansUp order time s' →
        ∃ removed, RemovesBatch (fun g => int32 (time - since g) > 3) s removed s') ∧
      ((∀ order s', s.CleansUp order time s' →
          ∃ removed, RemovesBatch (fun g => time - since g > 3) s removed s') ↔
        (∀ g ∈ s.invokeResponsesCallTime, int32 (time - since g) > 3 → time - since g > 3) ∧
          ((s.invokeResponsesCallTime.keys.filter fun g => int32 (time - since g) > 3).length <
              100000 →
            ∀ g ∈ s.invokeResponsesCallTime, time - since g > 3 →
              int32 (time - since g) > 3)) := by
  have htimes := Proxy.Run.callTimes hrun hsince
  exact ⟨cleansUp_cleanUpResponsesMap hpass,
    fun order => ⟨CleanUp.terminates _ _, CleanUp.safe _ _⟩,
    fun order s' hclean => hclean.removesBatch htimes, forall_cleansUp_iff htimes⟩

/-- A node registers a method, and another one calls it a hundred seconds after the start. -/
def calledOnce : List Input :=
  let server := List.replicate GUID_SIZE 83
  let client := List.replicate GUID_SIZE 67
  [.command 100 0
    { cmd? := some .registerInvoke
      sourceProxyGuid? := some server
      payload? := some (List.replicate GUID_SIZE 77)
      identifier? := some (ascii "add") } server,
   .command 100 0
    { cmd? := some .invoke
      sourceProxyGuid? := some client
      identifier? := some (ascii "add")
      guidFrom? := some (ascii "call") } client]

theorem run_calledOnce : ∃ h s, Proxy.Run (Config.ofSite .first 7770 7780) h s ∧
    s.invokeResponsesCallTime.keys = [ascii "call"] ∧ s.lastResponsesCleanUp = 0 ∧
    ∀ g ∈ s.invokeResponsesCallTime, PendingSince h g 100 := by
  have hsome : (Proxy.execute (Config.ofSite .first 7770 7780) calledOnce).isSome := by decide
  obtain ⟨h, s, hexec, hkeys, hstart⟩ : ∃ h s,
      Proxy.execute (Config.ofSite .first 7770 7780) calledOnce = some (h, s) ∧
      s.invokeResponsesCallTime.keys = [ascii "call"] ∧ s.lastResponsesCleanUp = 0 :=
    ⟨_, _, (Option.some_get hsome).symm, by decide, by decide⟩
  have hrun := Proxy.run_execute hexec
  refine ⟨h, s, hrun, hkeys, hstart, fun g hg => ?_⟩
  obtain ⟨time, hsince⟩ := Proxy.Run.exists_pendingSince hrun hg
  have hclock := hsince.mem_clocks
  rw [clocks_of_execute hexec] at hclock
  obtain rfl : time = 100 := by
    change time ∈ [(100 : ℤ), 100] at hclock
    simpa using hclock
  exact hsince

/-- After the run of `calledOnce` a clean-up at 170 removes the call, which is 70 seconds old. -/
theorem cleanUps_iff_calledOnce : ∃ h s, Proxy.Run (Config.ofSite .first 7770 7780) h s ∧
    ascii "call" ∈ s.invokeResponsesCallTime ∧
    ∀ order s', s.CleansUp order 170 s' →
      ∃ removed, RemovesBatch (fun _ => (170 : ℤ) - 100 > 3) s removed s' := by
  obtain ⟨h, s, hrun, hkeys, hstart, hsince⟩ := run_calledOnce
  have hpass : 60 ≤ int32 (int32 170 - s.lastResponsesCleanUp) := by
    rw [hstart]
    decide
  refine ⟨h, s, hrun, ?_, ?_⟩
  · rw [AList.mem_keys, hkeys]
    exact List.mem_singleton_self _
  · exact (Proxy.Run.cleanUps_iff hrun (fun _ => 100) hsince 170 hpass).2.2.2.mpr
      ⟨fun g _ _ => by decide, fun _ g _ _ => by decide⟩

/-- A call that was routed at 100 is still pending after a clean-up at `2 ^ 32 + 60`. -/
theorem not_cleanUps : ¬ ∀ (config : Config) (h : List (Transition Proxy Input Output)) (s : Proxy)
    (since : Bytes → ℤ) (time : ℤ), Proxy.Run config h s →
    (∀ g ∈ s.invokeResponsesCallTime, PendingSince h g (since g)) →
    60 ≤ int32 (int32 time - s.lastResponsesCleanUp) →
    ∀ order s', s.CleansUp order time s' →
      ∃ removed, RemovesBatch (fun g => time - since g > 3) s removed s' := by
  intro claim
  obtain ⟨h, s, hrun, hkeys, hstart, hsince⟩ := run_calledOnce
  have hpass : 60 ≤ int32 (int32 (2 ^ 32 + 60) - s.lastResponsesCleanUp) := by
    rw [hstart]
    decide
  have hlaw := claim _ h s (fun _ => 100) (2 ^ 32 + 60) hrun hsince hpass
  have hfew := (Proxy.forall_cleansUp_iff (Proxy.Run.callTimes hrun hsince)).mp hlaw
  have hcall : ascii "call" ∈ s.invokeResponsesCallTime := by
    rw [AList.mem_keys, hkeys]
    exact List.mem_singleton_self _
  refine absurd (hfew.2 ?_ (ascii "call") hcall (by decide)) (by decide)
  rw [hkeys]
  decide

end EsbProxy
