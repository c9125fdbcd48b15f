import EsbProxy.Foundation.Trace

/-!
# Leases

A table holds keys with a *stamp*, the time at which the key was last renewed. A renewal at time
`r` stamps its key with `r`; nothing else puts a stamp into the table, and nothing but another
renewal of the key, or an expiry of the stamps that are older than `ttl`, takes one out. If the
clock never goes backwards then, whenever everything older than `ttl` has just been dropped, the
keys with a stamp are exactly those renewed within the last `ttl` units
(`Lease.exists_stamp_iff`).

The rules speak about the transitions of any labelled step relation: the table is read off the
state by `stamp`, the renewals off a transition by `renews`.

## Main definitions

* `Lease.Obeys`: a transition treats the stamps as leases.

## Main results

* `Lease.exists_renewal`: a stamp is the time of a renewal.
* `Lease.exists_stamp_iff`: after an expiry, stamped means renewed recently.
-/

namespace Foundation

namespace Lease

variable {σ α β κ : Type*} {step : σ → α → β → σ → Prop} {s₀ s : σ}
  {h : List (Transition σ α β)} (ttl : ℤ) (stamp : σ → κ → ℤ → Prop)
  (renews : Transition σ α β → κ → ℤ → Prop) (clock : α → Option ℤ)

/-- A transition treats the stamps as leases: a renewed key is stamped with the clock, and any
other stamp was there before; a stamp that was there stays, unless its key is renewed or it is
older than `ttl`. -/
structure Obeys (t : Transition σ α β) : Prop where
  clock_of_renews : ∀ {k r}, renews t k r → clock t.action = some r
  renewed : ∀ {k r}, renews t k r → stamp t.post k r
  origin : ∀ {k r}, stamp t.post k r → renews t k r ∨ stamp t.pre k r
  kept : ∀ {k r}, stamp t.pre k r → stamp t.post k r ∨ (∃ r', renews t k r') ∨
    ∃ now, clock t.action = some now ∧ r + ttl < now

variable {ttl stamp renews clock}

/-- A transition without renewals that leaves the table alone treats the stamps as leases. -/
theorem Obeys.of_same {t : Transition σ α β} (quiet : ∀ k r, ¬ renews t k r)
    (same : ∀ k r, stamp t.post k r ↔ stamp t.pre k r) : Obeys ttl stamp renews clock t where
  clock_of_renews hren := absurd hren (quiet _ _)
  renewed hren := absurd hren (quiet _ _)
  origin hs := .inr ((same _ _).mp hs)
  kept hs := .inl ((same _ _).mpr hs)

/-- Every stamp is the time of a renewal. -/
theorem exists_renewal (run : Trace step s₀ h s)
    (obeys : ∀ t ∈ h, Obeys ttl stamp renews clock t) (init : ∀ k r, ¬ stamp s₀ k r) {k : κ}
    {r : ℤ} (hr : stamp s k r) : ∃ t ∈ h, renews t k r := by
  induction run with
  | nil => exact absurd hr (init k r)
  | @snoc h s a o s' run last ih =>
    have hlast : Obeys ttl stamp renews clock ⟨s, a, o, s'⟩ := obeys _ (by simp)
    rcases hlast.origin hr with hren | hpre
    · exact ⟨⟨s, a, o, s'⟩, by simp, hren⟩
    · obtain ⟨t, ht, htr⟩ := ih (fun t ht => obeys t (by simp [ht])) hpre
      exact ⟨t, by simp [ht], htr⟩

/-- A renewal is still on record, possibly by a later stamp, unless the clock has meanwhile
passed the end of its lease. -/
theorem stamp_or_expired (run : Trace step s₀ h s)
    (obeys : ∀ t ∈ h, Obeys ttl stamp renews clock t)
    (mono : (h.filterMap fun t => clock t.action).Pairwise (· ≤ ·)) {t : Transition σ α β}
    (ht : t ∈ h) {k : κ} {r : ℤ} (hr : renews t k r) :
    (∃ r', r ≤ r' ∧ stamp s k r') ∨
      ∃ now ∈ h.filterMap (fun t => clock t.action), r + ttl < now := by
  induction run generalizing r with
  | nil => simp at ht
  | @snoc h s a o s' run last ih =>
    have hlast : Obeys ttl stamp renews clock ⟨s, a, o, s'⟩ := obeys _ (by simp)
    have hclockLast : ∀ now, clock a = some now →
        now ∈ [(⟨s, a, o, s'⟩ : Transition σ α β)].filterMap fun t => clock t.action :=
      fun now hnow => List.mem_filterMap.mpr ⟨_, List.mem_singleton_self _, hnow⟩
    rw [List.filterMap_append, List.pairwise_append] at mono
    obtain ⟨hmono, -, hle⟩ := mono
    rw [List.filterMap_append]
    rcases List.mem_append.mp ht with ht | ht
    · -- an earlier renewal: look at what the last transition did to the stamp
      have hclock : r ∈ h.filterMap fun t => clock t.action :=
        List.mem_filterMap.mpr ⟨t, ht, (obeys t (by simp [ht])).clock_of_renews hr⟩
      obtain ⟨r', hrr', hs⟩ | ⟨now, hnow, hlt⟩ :=
        ih (fun t ht => obeys t (by simp [ht])) hmono ht hr
      · obtain hsame | ⟨r'', hren⟩ | ⟨now, hnow, hlt⟩ := hlast.kept hs
        · exact .inl ⟨r', hrr', hsame⟩
        · have hr'' := hclockLast r'' (hlast.clock_of_renews hren)
          exact .inl ⟨r'', hle r hclock r'' hr'', hlast.renewed hren⟩
        · exact .inr ⟨now, List.mem_append_right _ (hclockLast now hnow), by omega⟩
      · exact .inr ⟨now, List.mem_append_left _ hnow, hlt⟩
    · obtain rfl := List.mem_singleton.mp ht
      exact .inl ⟨r, le_rfl, hlast.renewed hr⟩

/-- **Stamped means renewed recently.** If the clock never went backwards and nothing older than
`ttl` is left at `now`, a key has a stamp exactly when it was renewed at most `ttl` before
`now`. -/
theorem exists_stamp_iff (run : Trace step s₀ h s)
    (obeys : ∀ t ∈ h, Obeys ttl stamp renews clock t) (init : ∀ k r, ¬ stamp s₀ k r)
    (mono : (h.filterMap fun t => clock t.action).Pairwise (· ≤ ·)) {now : ℤ}
    (latest : ∀ r ∈ h.filterMap fun t => clock t.action, r ≤ now) (k : κ) :
    (∃ r, stamp s k r ∧ now ≤ r + ttl) ↔ ∃ t ∈ h, ∃ r, renews t k r ∧ now - r ≤ ttl := by
  constructor
  · rintro ⟨r, hr, hage⟩
    obtain ⟨t, ht, hren⟩ := exists_renewal run obeys init hr
    exact ⟨t, ht, r, hren, by omega⟩
  · rintro ⟨t, ht, r, hren, hage⟩
    obtain ⟨r', hrr', hs⟩ | ⟨c, hc, hlt⟩ := stamp_or_expired run obeys mono ht hren
    · exact ⟨r', hs, by omega⟩
    · have := latest c hc
      omega

end Lease

end Foundation
