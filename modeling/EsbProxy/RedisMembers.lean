import EsbProxy.Discovery

/-!
# The members that a proxy deletes

`PingRedis` takes a member of `ZSET:PROXIES` apart at its `'#'`, and `ConnectToAnotherProxy` puts the
first two parts together again to delete a member whose proxy cannot be reached. A third part is
not put back, nor an empty part behind the last `'#'`, which `split` drops, nor what stands behind a
NUL. Such a member is not the one that is deleted, and is found again by every ping. The members
that proxies add themselves are of two parts.

## Main results

* `join_eq_iff`: when the first two parts make the member again.
* `Proxy.deletesMember_iff`: when a proxy deletes the member that it found.
-/

namespace EsbProxy

open Foundation

/-- The first two parts of a member make the member exactly when it has no NUL and one `'#'`. -/
theorem join_eq_iff {member guid2 connectionString : Bytes} {rest : List Bytes}
    (hsplit : split (cStr member) hash = guid2 :: connectionString :: rest) :
    guid2 ++ [hash] ++ connectionString = member ↔ 0 ∉ member ∧ member.count hash = 1 := by
  obtain ⟨after, hmember, hguid, hafter⟩ := exists_of_split_eq_cons_cons hsplit
  have hcount : (cStr member).count hash = 1 + after.count hash := by
    rw [hmember, List.count_append, List.count_cons_self, List.count_eq_zero_of_not_mem hguid]
    omega
  by_cases hmem : hash ∈ after
  · -- something stands behind a second `'#'`, or nothing: the join is too short
    obtain ⟨second, last, rfl, hsecond⟩ := List.eq_append_cons_of_mem hmem
    rw [split_append last hsecond] at hafter
    obtain rfl := (List.cons.inj hafter).1
    have hshort : (guid2 ++ [hash] ++ second).length < (cStr member).length := by
      rw [hmember]
      simp
    have hprefix : (cStr member).length ≤ member.length := (List.takeWhile_prefix _).length_le
    constructor
    · intro hjoin
      rw [hjoin] at hshort
      omega
    · rintro ⟨hzero, hone⟩
      rw [cStr_eq_self hzero, hone, List.count_append, List.count_cons_self] at hcount
      omega
  · have hne : after ≠ [] := by
      rintro rfl
      simp [split, getlines] at hafter
    rw [split_of_notMem hmem hne] at hafter
    obtain rfl := (List.cons.inj hafter).1
    have hjoin : guid2 ++ [hash] ++ after = cStr member := by
      rw [hmember]
      simp
    rw [hjoin]
    constructor
    · intro heq
      rw [← heq]
      exact ⟨zero_notMem_cStr member, by rw [hcount, List.count_eq_zero_of_not_mem hmem]⟩
    · rintro ⟨hzero, -⟩
      exact cStr_eq_self hzero

/-- A member leaves the set when it is the one deleted. -/
theorem RedisCommand.notMem_apply_zrem_iff {members : List Bytes} {member key : Bytes}
    (hmember : member ∈ members) : member ∉ apply members (.zrem key) ↔ key = member := by
  rw [apply, List.mem_filter, decide_eq_true_eq, not_and, ne_eq, not_not]
  exact ⟨fun h => (h hmember).symm, fun h _ => h.symm⟩

/-- A proxy deletes what the first two parts of a member make, when it has no connection to the proxy
that the member names and cannot connect to it. -/
theorem Proxy.visitMember_of_unreachable {s : Proxy} {member guid2 connectionString : Bytes}
    {rest : List Bytes} (hsplit : split (cStr member) hash = guid2 :: connectionString :: rest)
    (hself : guid2 ≠ s.guid) (hknown : guid2 ∉ s.subscribers) {peer : PeerOutcome}
    (hpeer : peer.responderConnects = false) (now : ℤ) :
    s.visitMember now member peer = .ok (s, [.zrem (guid2 ++ [hash] ++ connectionString)]) := by
  simp [visitMember, hsplit, hself, hknown, connectToAnotherProxy, hpeer]

/-- **Deleting a member.** When a proxy that visits a member deletes something, it deletes the
member, and the member leaves the set, exactly when the member has no NUL and one `'#'`. The member
that a proxy adds, with a guid and a host name that are C strings without `'#'`, is read by every
other proxy as the guid and the address `tcp://host:port`. -/
theorem Proxy.deletesMember_iff (s : Proxy) (now : ℤ) (peer : PeerOutcome) :
    (∀ (s' : Proxy) (member : Bytes) (redis : List RedisCommand),
        s.visitMember now member peer = .ok (s', redis) → ∀ key, .zrem key ∈ redis →
          (key = member ↔ 0 ∉ member ∧ member.count hash = 1) ∧
          ∀ members, member ∈ members →
            (member ∉ RedisCommand.apply members (.zrem key) ↔
              0 ∉ member ∧ member.count hash = 1)) ∧
      ∀ t : Proxy, 0 ∉ t.guid ∧ hash ∉ t.guid → 0 ∉ t.host ∧ hash ∉ t.host →
        s.visitMember now t.member peer =
          if t.guid = s.guid then .ok (s, [])
          else if t.guid ∈ s.subscribers then .ok (s, [])
          else .ok (s.connectToAnotherProxy now t.guid (address t.host t.responderPort) peer) := by
  refine ⟨fun s' member redis hvisit key hkey => ?_, fun t hguid hhost => ?_⟩
  · obtain ⟨guid2, connectionString, rest, hsplit, hzrem⟩ := visitMember_redis hvisit hkey
    obtain rfl := RedisCommand.zrem.inj hzrem
    have hjoin := join_eq_iff hsplit
    exact ⟨hjoin, fun members hmember =>
      (RedisCommand.notMem_apply_zrem_iff hmember).trans hjoin⟩
  · rw [visitMember, split_member hguid hhost]

/-- A member of another site with something behind a second `'#'`. -/
def threeParts : Bytes := (localhost.config .second).member ++ ascii "#x"

/-- A peer that cannot be connected to. -/
def unreachable : PeerOutcome := ⟨false, none, false⟩

/-- A new proxy that finds an unreachable one deletes its member from the set that holds it. -/
theorem deletesMember_second : ∃ s s' : Proxy, ∃ redis key,
    s.visitMember 100 (localhost.config .second).member unreachable = .ok (s', redis) ∧
      .zrem key ∈ redis ∧ (localhost.config .second).member ∉
        RedisCommand.apply [(localhost.config .second).member] (.zrem key) := by
  have hvisit := Proxy.visitMember_of_unreachable (localhost.config .second).split_member
    (s := Proxy.init (localhost.config .first)) (by decide) (by decide)
    (rfl : unreachable.responderConnects = false) 100
  have hdeletes := (Proxy.deletesMember_iff _ _ _).1 _ _ _ hvisit _ (List.mem_singleton.mpr rfl)
  exact ⟨_, _, _, _, hvisit, List.mem_singleton.mpr rfl,
    (hdeletes.2 _ (List.mem_singleton.mpr rfl)).mpr (by decide)⟩

/-- **A member that stays.** A proxy visits the member of three parts and cannot connect to its
address. What it deletes is not the member. -/
theorem not_deletesMember : ¬ ∀ (s s' : Proxy) (now : ℤ) (member : Bytes) (peer : PeerOutcome)
    (redis : List RedisCommand), s.visitMember now member peer = .ok (s', redis) →
    ∀ key, .zrem key ∈ redis → key = member := by
  intro claim
  have hsplit : split (cStr threeParts) hash =
      [(localhost.config .second).guid, (localhost.config .second).responderAddress,
        ascii "x"] := by decide
  have hvisit := Proxy.visitMember_of_unreachable hsplit
    (s := Proxy.init (localhost.config .first)) (by decide) (by decide)
    (rfl : unreachable.responderConnects = false) 100
  exact absurd (claim _ _ _ _ _ _ hvisit _ (List.mem_singleton.mpr rfl)) (by decide)

end EsbProxy
