import EsbProxy.Registry

/-!
# Offers

An offer says that an owner, a node or another proxy, serves a method under an identifier. Both
registries file offers with `fileMethod`, which finds the entry to renew by its method guid alone.
An offer is therefore on file after it was filed only if it *agrees* with the registry: no entry
for the same method names another owner. Filing an offer that agrees renews it and leaves all
other offers alone.

## Main definitions

* `Offer`, `Registry.Stamped`, `Registry.Agrees`: who offers which method, and when the registry
  last heard of it.

## Main results

* `Registry.stamped_fileMethod`, `Registry.stamped_of_fileMethod`,
  `Registry.stamped_fileMethod_of_stamped`: filing one offer.
* `Registry.stamped_updateEntries`: filing the offers of an advertisement.
-/

namespace EsbProxy

open Foundation

/-! ### Offers -/

/-- An owner offers a method under an identifier. -/
structure Offer where
  identifier : Bytes
  methodGuid : Bytes
  ownerGuid : Bytes
  deriving DecidableEq

/-- The offer that a listed method makes. -/
def RegistryEntry.offer (entry : RegistryEntry) : Offer :=
  ⟨entry.identifier, entry.methodGuid, entry.proxyGuid⟩

/-- The offer that a registration makes. -/
def Command.offer (cmdReq : Command) : Offer :=
  ⟨cmdReq.identifier, cmdReq.payload, cmdReq.sourceProxyGuid⟩

/-- The offer that an entry on file stands for. -/
def InvokeMethod.offer (e : InvokeMethod) : Offer := ⟨e.identifier, e.methodGuid, e.ownerGuid⟩

/-- No string of the offer has a NUL. -/
def Offer.Clean (k : Offer) : Prop := 0 ∉ k.identifier ∧ 0 ∉ k.methodGuid ∧ 0 ∉ k.ownerGuid

instance (k : Offer) : Decidable k.Clean := inferInstanceAs (Decidable (_ ∧ _ ∧ _))

/-- The method that is pushed for an offer. -/
def Offer.method (k : Offer) (time : ℤ) : InvokeMethod where
  identifier := k.identifier
  ownerGuid := k.ownerGuid
  methodGuid := k.methodGuid
  lastCheckTime := int32 time

namespace Registry

/-- The registry has an entry for the offer that was last confirmed at `time`. -/
def Stamped (registry : Registry) (k : Offer) (time : ℤ) : Prop :=
  ∃ e ∈ methodsOf registry k.identifier,
    e.methodGuid = k.methodGuid ∧ e.ownerGuid = k.ownerGuid ∧ e.lastCheckTime = time

/-- Every entry on file for the offered method names the owner that offers it. -/
def Agrees (registry : Registry) (k : Offer) : Prop :=
  ∀ e ∈ methodsOf registry k.identifier, e.methodGuid = k.methodGuid → e.ownerGuid = k.ownerGuid

instance (registry : Registry) (k : Offer) : Decidable (registry.Agrees k) :=
  inferInstanceAs (Decidable (∀ e ∈ methodsOf registry k.identifier, _ → _))

theorem stamped_congr {registry registry' : Registry}
    (heq : ∀ i, methodsOf registry' i = methodsOf registry i) (k : Offer) (time : ℤ) :
    Stamped registry' k time ↔ Stamped registry k time := by
  rw [Stamped, Stamped, heq]

theorem agrees_congr {registry registry' : Registry}
    (heq : ∀ i, methodsOf registry' i = methodsOf registry i) (k : Offer) :
    Agrees registry' k ↔ Agrees registry k := by
  rw [Agrees, Agrees, heq]

/-- A filed offer that agrees with the registry is renewed. -/
theorem stamped_fileMethod {registry : Registry} {k : Offer} (hagrees : registry.Agrees k)
    (now : ℤ) : Stamped (fileMethod now (k.method now) registry) k (int32 now) := by
  rcases filed_or_refreshed now (k.method now) registry with ⟨y, hy, hm, hrefreshed⟩ | ⟨-, hfiled⟩
  · exact ⟨_, hrefreshed, hm, hagrees y hy hm, rfl⟩
  · exact ⟨_, hfiled, rfl, rfl, rfl⟩

/-- A stamp after an offer was filed that agrees with the registry is the offer's, or was there
before. -/
theorem stamped_of_fileMethod {registry : Registry} {k k' : Offer} {now time : ℤ}
    (hagrees : registry.Agrees k)
    (hstamped : Stamped (fileMethod now (k.method now) registry) k' time) :
    k' = k ∧ time = int32 now ∨ registry.Stamped k' time := by
  obtain ⟨e, he, hm, ho, rfl⟩ := hstamped
  obtain he | ⟨hi, ⟨y, hy, hym, rfl⟩ | ⟨rfl, -⟩⟩ := mem_fileMethod he
  · exact .inr ⟨e, he, hm, ho, rfl⟩
  · have hik : k'.identifier = k.identifier := hi
    have hyo : y.ownerGuid = k.ownerGuid := hagrees y (hik ▸ hy) hym
    refine .inl ⟨?_, rfl⟩
    rcases k with ⟨i, m, o⟩
    rcases k' with ⟨i', m', o'⟩
    simp_all [Offer.method]
  · refine .inl ⟨?_, rfl⟩
    rcases k with ⟨i, m, o⟩
    rcases k' with ⟨i', m', o'⟩
    simp_all [Offer.method]

/-- Filing an offer that agrees with the registry takes no stamp but its own. -/
theorem stamped_fileMethod_of_stamped {registry : Registry} {k k' : Offer} {time : ℤ}
    (hagrees : registry.Agrees k) (hstamped : registry.Stamped k' time) (now : ℤ) :
    k' = k ∨ Stamped (fileMethod now (k.method now) registry) k' time := by
  obtain ⟨e, he, hm, ho, rfl⟩ := hstamped
  by_cases hsame : k'.identifier = k.identifier ∧ e.methodGuid = k.methodGuid
  · obtain ⟨hi, hem⟩ := hsame
    have heo : e.ownerGuid = k.ownerGuid := hagrees e (hi ▸ he) hem
    left
    rcases k with ⟨i, m, o⟩
    rcases k' with ⟨i', m', o'⟩
    simp_all
  · refine .inr ⟨e, mem_fileMethod_of_ne he ?_, hm, ho, rfl⟩
    exact not_and_or.mp hsame

/-- Filing an offer that agrees with the registry, and with another offer, leaves that one in
agreement. -/
theorem Agrees.fileMethod {registry : Registry} {k k' : Offer} (hagrees : registry.Agrees k)
    (hagrees' : registry.Agrees k')
    (hsame : k'.identifier = k.identifier → k'.methodGuid = k.methodGuid →
      k'.ownerGuid = k.ownerGuid) (now : ℤ) :
    Agrees (fileMethod now (k.method now) registry) k' := by
  intro e he hm
  have hstamped : Stamped (EsbProxy.fileMethod now (k.method now) registry)
      ⟨k'.identifier, k'.methodGuid, e.ownerGuid⟩ e.lastCheckTime := ⟨e, he, hm, rfl, rfl⟩
  rcases stamped_of_fileMethod hagrees hstamped with ⟨hk, -⟩ | ⟨y, hy, hym, hyo, -⟩
  · subst hk
    exact (hsame rfl rfl).symm
  · exact hyo.symm.trans (hagrees' y hy hym)

end Registry

/-- Without NULs, a listed method is filed as the offer it makes. -/
theorem updateEntry_of_clean {entry : RegistryEntry} (hclean : entry.offer.Clean) (now : ℤ)
    (methods : Registry) :
    Proxy.updateEntry now methods entry = .ok (fileMethod now (entry.offer.method now)
      (methods.emplace entry.identifier [])) := by
  have hi : 0 ∉ entry.identifier := hclean.1
  have hm : 0 ∉ entry.methodGuid := hclean.2.1
  have ho : 0 ∉ entry.proxyGuid := hclean.2.2
  rw [Proxy.updateEntry_of_notMem hi, cStr_eq_self ho, cStr_eq_self hm]
  rfl

/-- **Effect of an advertisement.** If the listed methods have no NULs, and agree with the
registry and with each other, then all of them are renewed, nothing else is entered, and no other
entry is lost. -/
theorem Registry.stamped_updateEntries {now : ℤ} : ∀ {entries : List RegistryEntry}
    {methods methods' : Registry},
    (∀ entry ∈ entries, entry.offer.Clean ∧ methods.Agrees entry.offer) →
    (∀ entry ∈ entries, ∀ entry' ∈ entries, entry'.identifier = entry.identifier →
      entry'.methodGuid = entry.methodGuid → entry'.proxyGuid = entry.proxyGuid) →
    entries.foldlM (Proxy.updateEntry now) methods = .ok methods' →
      (∀ entry ∈ entries, methods'.Stamped entry.offer (int32 now)) ∧
      (∀ k time, methods'.Stamped k time →
        (∃ entry ∈ entries, entry.offer = k) ∧ time = int32 now ∨ methods.Stamped k time) ∧
      ∀ k time, methods.Stamped k time →
        (∃ entry ∈ entries, entry.offer = k) ∨ methods'.Stamped k time
  | [], methods, methods', _, _, hfold => by
      obtain rfl : methods = methods' := by simpa [pure, Except.pure] using hfold
      simp
  | entry :: rest, methods, methods', hentries, hsame, hfold => by
      obtain ⟨hclean, hagrees⟩ := hentries entry List.mem_cons_self
      rw [List.foldlM_cons, updateEntry_of_clean hclean] at hfold
      have hlists := methodsOf_emplace methods entry.identifier
      obtain ⟨opened, hopened⟩ : ∃ opened : Registry,
          opened = methods.emplace entry.identifier [] := ⟨_, rfl⟩
      rw [← hopened] at hfold hlists
      have hopen : opened.Agrees entry.offer := (agrees_congr hlists _).mpr hagrees
      have hrest : ∀ entry' ∈ rest, entry'.offer.Clean ∧
          Registry.Agrees (fileMethod now (entry.offer.method now) opened) entry'.offer := by
        intro entry' hmem
        obtain ⟨hclean', hagrees'⟩ := hentries entry' (List.mem_cons_of_mem _ hmem)
        refine ⟨hclean', hopen.fileMethod ((agrees_congr hlists _).mpr hagrees') ?_ now⟩
        exact hsame entry List.mem_cons_self entry' (List.mem_cons_of_mem _ hmem)
      have hsame' : ∀ e ∈ rest, ∀ e' ∈ rest, e'.identifier = e.identifier →
          e'.methodGuid = e.methodGuid → e'.proxyGuid = e.proxyGuid := fun e he e' he' =>
        hsame e (List.mem_cons_of_mem _ he) e' (List.mem_cons_of_mem _ he')
      obtain ⟨hrenewed, horigin, hkept⟩ := stamped_updateEntries hrest hsame' hfold
      refine ⟨fun entry' hmem => ?_, fun k time hk => ?_, fun k time hk => ?_⟩
      · rcases List.mem_cons.mp hmem with heq | hmem
        · subst heq
          obtain ⟨e, he, heq⟩ | hstamped := hkept _ _ (stamped_fileMethod hopen now)
          · exact heq ▸ hrenewed e he
          · exact hstamped
        · exact hrenewed entry' hmem
      · obtain ⟨⟨e, he, hek⟩, htime⟩ | hfiledk := horigin k time hk
        · exact .inl ⟨⟨e, List.mem_cons_of_mem _ he, hek⟩, htime⟩
        · obtain ⟨hek, htime⟩ | hbefore := stamped_of_fileMethod hopen hfiledk
          · exact .inl ⟨⟨entry, List.mem_cons_self, hek.symm⟩, htime⟩
          · exact .inr ((stamped_congr hlists k time).mp hbefore)
      · have hopenk := (stamped_congr hlists k time).mpr hk
        obtain hek | hfiledk := stamped_fileMethod_of_stamped hopen hopenk now
        · exact .inl ⟨entry, List.mem_cons_self, hek.symm⟩
        · obtain ⟨e, he, hek⟩ | hafter := hkept k time hfiledk
          · exact .inl ⟨e, List.mem_cons_of_mem _ he, hek⟩
          · exact .inr hafter

/-! ### What all offers on file satisfy -/

section AllOffers

variable {P Q : Offer → Prop} {registry registry' : Registry}

/-- All entries carry the identifier under which they are filed, and stand for offers that satisfy
`P`. -/
def Registry.AllOffers (P : Offer → Prop) (registry : Registry) : Prop :=
  ∀ i, ∀ e ∈ methodsOf registry i, e.identifier = i ∧ P e.offer

theorem Registry.AllOffers.mono (hall : registry.AllOffers P) (himp : ∀ k, P k → Q k) :
    registry.AllOffers Q :=
  fun i e he => ⟨(hall i e he).1, himp _ (hall i e he).2⟩

theorem Registry.AllOffers.congr (hall : registry.AllOffers P)
    (heq : ∀ i, methodsOf registry' i = methodsOf registry i) : registry'.AllOffers P :=
  fun i e he => hall i e (heq i ▸ he)

theorem Registry.AllOffers.sweep (hall : registry.AllOffers P) (stale : InvokeMethod → Bool) :
    Registry.AllOffers P (Dict.sweep stale registry) := by
  intro i e he
  rw [methodsOf_sweep] at he
  exact hall i e (List.mem_of_mem_filter he)

theorem Registry.AllOffers.fileMethod (hall : registry.AllOffers P) {e : InvokeMethod}
    (he : P e.offer) (now : ℤ) : Registry.AllOffers P (fileMethod now e registry) := by
  intro i x hx
  obtain hx | ⟨rfl, ⟨y, hy, -, rfl⟩ | ⟨rfl, -⟩⟩ := mem_fileMethod hx
  · exact hall i x hx
  · exact hall _ y hy
  · exact ⟨rfl, he⟩

/-- What holds of all offers on file, and of those that an advertisement lists, holds of all offers
on file after the advertisement was filed. -/
theorem Registry.AllOffers.updateEntries {now : ℤ} {entries : List RegistryEntry}
    {methods methods' : Registry} (hall : methods.AllOffers P)
    (hentries : ∀ entry ∈ entries, entry.offer.Clean ∧ P entry.offer)
    (hfold : entries.foldlM (Proxy.updateEntry now) methods = .ok methods') :
    methods'.AllOffers P := by
  refine invariant_of_foldlM (fun entry hentry before after hbefore hturn => ?_) hall hfold
  obtain ⟨hclean, hoffer⟩ := hentries entry hentry
  rw [updateEntry_of_clean hclean] at hturn
  obtain rfl := Except.ok.inj hturn
  have hopen := hbefore.congr (methodsOf_emplace before entry.identifier)
  exact hopen.fileMethod (e := entry.offer.method now) hoffer now

end AllOffers

/-- Without NULs, a registration is filed as the offer it makes. -/
theorem Proxy.registerInvoke_of_clean {cmdReq : Command} (hclean : cmdReq.offer.Clean) (now : ℤ)
    (s : Proxy) :
    (s.registerInvoke now cmdReq).1.localInvokeMethods =
      fileMethod now (cmdReq.offer.method now)
        (s.localInvokeMethods.emplace cmdReq.identifier []) := by
  have hi : 0 ∉ cmdReq.identifier := hclean.1
  have hm : 0 ∉ cmdReq.payload := hclean.2.1
  have ho : 0 ∉ cmdReq.sourceProxyGuid := hclean.2.2
  simp only [registerInvoke, cStr_eq_self hi, cStr_eq_self hm, cStr_eq_self ho]
  rfl

end EsbProxy
