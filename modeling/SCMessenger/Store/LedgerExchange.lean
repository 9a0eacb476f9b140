import SCMessenger.Store.LedgerReload

/-!
# What a ledger tells other peers

The answer has the entries that were reached and are alive, at addresses the requester may know.  The
requester's own entry is recognised under the text it is known by only, which is not the canonical one.
-/

namespace SCMessenger

/-- An entry as it is sent. -/
structure SharedPeerEntry where
  multiaddr : String
  lastPeerId : Option String
  /-- in seconds -/
  lastSeen : Nat
  knownTopics : List String
deriving DecidableEq, Repr

section

variable (env : LedgerEnv)

def ledgerEntryToShared (entry : LedgerEntry) : SharedPeerEntry :=
  { multiaddr := env.addrs.stripPeerId entry.multiaddr
    lastPeerId := entry.peerId
    lastSeen := entry.lastSeen.getD 0 / 1000
    knownTopics := entry.topics }

def ledgerEntryToSharedRoutingOnly (entry : LedgerEntry) : SharedPeerEntry :=
  { ledgerEntryToShared env entry with knownTopics := [] }

def mayTell (requesterAddr : Option String) (myAddrs : List String) (entry : LedgerEntry) : Bool :=
  let addr := env.addrs.stripPeerId entry.multiaddr
  env.addrs.isDisclosableMultiaddr addr || env.addrs.isDisclosableOnRfc1918Network addr requesterAddr myAddrs

def isAnswer (requesterPeerId : String) (requesterAddr : Option String) (myAddrs : List String)
    (entry : LedgerEntry) : Bool :=
  (0 < entry.successCount && entry.failureCount < ledgerDeadFailureThreshold)
    && entry.peerId != some requesterPeerId && mayTell env requesterAddr myAddrs entry

namespace LedgerManager

def answeredEntries (manager : LedgerManager) (limit : Nat) (requesterPeerId : String)
    (requesterAddr : Option String) (myAddrs : List String) : List LedgerEntry :=
  (manager.entries.filter (isAnswer env requesterPeerId requesterAddr myAddrs)).take limit

def exchangeResponseEntriesForRequest (manager : LedgerManager) (limit : Nat) (requesterPeerId : String)
    (requesterAddr : Option String) (myAddrs : List String) : List SharedPeerEntry :=
  (manager.answeredEntries env limit requesterPeerId requesterAddr myAddrs).map
    (ledgerEntryToSharedRoutingOnly env)

end LedgerManager

end

section

variable {env : LedgerEnv}

/-! ## Addresses in a ledger -/

variable (env) in
def NamelessAddr (multiaddr : String) : Prop :=
  ∃ addr, env.addrs.parse multiaddr = some addr ∧ NoDnsBeforeCircuit addr

variable {multiaddr : String}

theorem namelessAddr_of_isRecordable (h : env.addrs.isRecordableMultiaddr multiaddr = true) :
    NamelessAddr env multiaddr := by
  unfold Multiaddrs.isRecordableMultiaddr at h
  split at h
  · rename_i a ha
    exact ⟨a, ha, noDnsBeforeCircuit_of_recordable h⟩
  · cases h

theorem namelessAddr_of_isDialable {m : NetworkMode}
    (h : env.addrs.isDialableMultiaddr multiaddr m .reject = true) : NamelessAddr env multiaddr := by
  unfold Multiaddrs.isDialableMultiaddr at h
  split at h
  · rename_i a ha
    exact ⟨a, ha, noDnsBeforeCircuit_of_checkMultiaddr h⟩
  · cases h

theorem NamelessAddr.strip (hl : env.Lawful) (h : NamelessAddr env multiaddr) :
    NamelessAddr env (env.addrs.stripPeerId multiaddr) := by
  obtain ⟨a, ha, hn⟩ := h
  refine ⟨stripPeerIdMultiaddr a, ?_, noDnsBeforeCircuit_strip hn⟩
  rw [Multiaddrs.stripPeerId, ha]
  exact hl.addrs.parse_strip multiaddr a ha

variable (env) in
/-- The addresses in memory and in the file have no names in front of a relay. -/
structure Addressed (manager : LedgerManager) : Prop where
  entries : ∀ e ∈ manager.entries, NamelessAddr env e.multiaddr
  file : ∀ parsed, manager.file = some parsed → ∀ e ∈ parsed, NamelessAddr env e.multiaddr

theorem Addressed.saveWithEntries {m : LedgerManager} (h : Addressed env m)
    {en : List LedgerEntry} (he : ∀ e ∈ en, NamelessAddr env e.multiaddr) :
    Addressed env (m.saveWithEntries env en) := by
  refine ⟨he, ?_⟩
  intro p hp
  simp only [LedgerManager.saveWithEntries] at hp
  split at hp
  · rw [← Option.some.inj hp]
    exact he
  · exact h.file p hp

theorem forall_upsert_nameless {en : List LedgerEntry} {p : String}
    {od o : LedgerEntry → LedgerEntry} {f : LedgerEntry}
    (hen : ∀ e ∈ en, NamelessAddr env e.multiaddr) (hf : NamelessAddr env f.multiaddr)
    (hd : ∀ e, (od e).multiaddr = e.multiaddr) (hs : ∀ e, (o e).multiaddr = e.multiaddr) :
    ∀ e ∈ upsert env multiaddr p od o f en, NamelessAddr env e.multiaddr := by
  refine (forall_upsert_iff (Q := fun e => NamelessAddr env e.multiaddr) hen hf).mpr ⟨?_, ?_⟩
  · intro e he
    rw [hd]
    exact hen e (List.mem_of_find?_eq_some he)
  · intro _ e he
    rw [hs]
    exact hen e (List.mem_of_find?_eq_some he)

theorem loadEntries_nameless {p : List LedgerEntry} (h : ∀ e ∈ p, NamelessAddr env e.multiaddr) :
    ∀ e ∈ loadEntries env p, NamelessAddr env e.multiaddr := by
  intro e he
  obtain ⟨entry, hen, rfl⟩ := List.mem_map.mp he
  rw [repairEntry_multiaddr]
  have hm : entry ∈ p.filter (isLoadable env) := by
    split at hen
    · exact List.mem_mergeSort.mp (List.mem_of_mem_take hen)
    · exact hen
  exact h entry (List.mem_of_mem_filter hm)

/-- **The operations let only addresses without names into a ledger.** -/
theorem Addressed.step {m : LedgerManager} (h : Addressed env m) (op : LedgerOp) :
    Addressed env (m.step env op) := by
  cases op with
  | recordConnection now multiaddr peerId =>
    show Addressed env (m.recordConnection env now multiaddr peerId)
    unfold LedgerManager.recordConnection
    split
    · exact h
    · rename_i hr
      split
      · exact h
      · have ha : NamelessAddr env multiaddr := namelessAddr_of_isRecordable (by simpa using hr)
        refine h.saveWithEntries (forall_upsert_nameless h.entries ha ?_ ?_)
        · exact fun _ => rfl
        · exact fun _ => rfl
  | recordFailure multiaddr =>
    refine h.saveWithEntries ?_
    refine (forall_updateFirst_iff h.entries).mpr fun e he => ?_
    exact h.entries e (List.mem_of_find?_eq_some he)
  | annotateIdentity now multiaddr peerId publicKey n =>
    show Addressed env (m.annotateIdentity env now multiaddr peerId publicKey n)
    unfold LedgerManager.annotateIdentity
    split
    · exact h
    · rename_i hr
      refine h.saveWithEntries ?_
      unfold annotateIdentityLocked
      simp only
      split
      · exact h.entries
      · have ha : NamelessAddr env multiaddr := namelessAddr_of_isRecordable (by simpa using hr)
        refine forall_upsert_nameless h.entries ha ?_ ?_
        · exact fun _ => rfl
        · exact fun _ => rfl
  | importSeedEntries now s =>
    refine h.saveWithEntries (forall_importSeeds h.entries ?_)
    intro text hd
    exact namelessAddr_of_isDialable hd
  | load =>
    rcases m.step_load_cases env with hs | ⟨p, hf, hn⟩
    · rw [hs]
      exact h
    · rw [hn]
      have hl := loadEntries_nameless (h.file p hf)
      refine ⟨hl, ?_⟩
      intro p' hp'
      rw [← Option.some.inj hp']
      exact hl

theorem addressed_new : Addressed env (.new none) where
  entries := by
    intro e he
    cases he
  file := by
    rintro p ⟨⟩

/-! ## The policy -/

variable (env) in
/-- An entry is of a peer: it has it under the same text, or both texts have one canonical form. -/
def IsEntryOf (peerId : String) (entry : LedgerEntry) : Prop :=
  ∃ held, entry.peerId = some held
    ∧ (held = peerId ∨ ∃ canonical, canonicalLedgerPeerId env peerId none = some canonical
      ∧ canonicalLedgerPeerId env held none = some canonical)

variable (env) in
/-- A direct private address in the subnet of the requester and of one of our listeners. -/
def OnRequesterNetwork (requesterAddr : Option String) (myAddrs : List String) (multiaddr : String) : Prop :=
  ∃ observed entryIp requesterIp, requesterAddr = some observed
    ∧ env.addrs.Direct multiaddr entryIp ∧ env.addrs.Direct observed requesterIp
    ∧ isPrivateAdjacencyIp entryIp = true ∧ isPrivateAdjacencyIp requesterIp = true
    ∧ SameSubnet entryIp requesterIp
    ∧ ∃ listener ∈ myAddrs, ∃ localIp, env.addrs.firstIpComponent listener = some localIp
      ∧ SameSubnet localIp requesterIp

variable (env) in
/-- What may be told of an entry, and to whom. -/
structure KeepsPolicy (requesterPeerId : String) (requesterAddr : Option String) (myAddrs : List String)
    (entry : LedgerEntry) (sent : SharedPeerEntry) : Prop where
  proven : 0 < entry.successCount
  alive : entry.failureCount < ledgerDeadFailureThreshold
  topics : sent.knownTopics = []
  nameless : NamelessAddr env sent.multiaddr
  address : env.addrs.isDisclosableMultiaddr sent.multiaddr = true
    ∨ OnRequesterNetwork env requesterAddr myAddrs sent.multiaddr
  other : ¬ IsEntryOf env requesterPeerId entry

variable (env) in
def AnswerKeepsPolicy (manager : LedgerManager) (limit : Nat) (requesterPeerId : String)
    (requesterAddr : Option String) (myAddrs : List String) : Prop :=
  ∀ entry ∈ manager.answeredEntries env limit requesterPeerId requesterAddr myAddrs,
    KeepsPolicy env requesterPeerId requesterAddr myAddrs entry (ledgerEntryToSharedRoutingOnly env entry)

theorem mem_take_filter_iff {α : Type} {p : α → Bool} {l : List α} {n : Nat} {x : α} :
    x ∈ (l.filter p).take n ↔ ∃ i : Nat, l[i]? = some x ∧ p x = true ∧ (l.take i).countP p < n := by
  induction l generalizing n with
  | nil => simp
  | cons y ys ih =>
    by_cases hy : p y = true
    · rw [List.filter_cons_of_pos hy]
      cases n with
      | zero => simp
      | succ n =>
        rw [List.take_succ_cons, List.mem_cons, ih]
        constructor
        · rintro (rfl | ⟨i, hg, hx, hc⟩)
          · exact ⟨0, rfl, hy, by simp⟩
          · exact ⟨i + 1, hg, hx, by simpa [hy] using hc⟩
        · rintro ⟨i, hg, hx, hc⟩
          cases i with
          | zero => exact .inl (Option.some.inj hg).symm
          | succ i => exact .inr ⟨i, hg, hx, by simpa [hy] using hc⟩
    · rw [List.filter_cons_of_neg hy, ih]
      constructor
      · rintro ⟨i, hg, hx, hc⟩
        exact ⟨i + 1, hg, hx, by simpa [hy] using hc⟩
      · rintro ⟨i, hg, hx, hc⟩
        cases i with
        | zero =>
          rw [Option.some.inj hg] at hy
          exact absurd hx hy
        | succ i => exact ⟨i, hg, hx, by simpa [hy] using hc⟩

variable (env) in
/-- No entry of the requester under another text would be in an answer. -/
def NotHeldOtherwise (manager : LedgerManager) (limit : Nat) (requesterPeerId : String)
    (requesterAddr : Option String) (myAddrs : List String) : Prop :=
  ∀ (i : Nat) (entry : LedgerEntry), manager.entries[i]? = some entry →
    IsEntryOf env requesterPeerId entry → entry.peerId ≠ some requesterPeerId →
    entry.successCount = 0 ∨ ledgerDeadFailureThreshold ≤ entry.failureCount
      ∨ mayTell env requesterAddr myAddrs entry = false
      ∨ limit ≤ (manager.entries.take i).countP (isAnswer env requesterPeerId requesterAddr myAddrs)

theorem isAnswer_iff {r : String} {ra : Option String} {m : List String}
    {e : LedgerEntry} :
    isAnswer env r ra m e = true
      ↔ (0 < e.successCount ∧ e.failureCount < ledgerDeadFailureThreshold)
        ∧ e.peerId ≠ some r ∧ mayTell env ra m e = true := by
  simp [isAnswer, and_assoc]

/-- **An answer keeps to the policy** exactly when no entry of the requester is under another text. -/
theorem exchange_policy_iff (hlaw : env.Lawful) (ops : List LedgerOp) (limit : Nat)
    (requesterPeerId : String) (requesterAddr : Option String) (myAddrs : List String) :
    AnswerKeepsPolicy env (ops.foldl (LedgerManager.step env) (.new none)) limit requesterPeerId requesterAddr myAddrs
      ↔ NotHeldOtherwise env (ops.foldl (LedgerManager.step env) (.new none)) limit requesterPeerId requesterAddr
        myAddrs := by
  have had : Addressed env (ops.foldl (LedgerManager.step env) (.new none)) :=
    List.foldlRecOn ops _ addressed_new fun m h op _ => h.step op
  generalize ops.foldl (LedgerManager.step env) (.new none) = m at had ⊢
  constructor
  · intro hk i entry hg how ho
    by_contra hnot
    simp only [not_or, ← ne_eq, Bool.not_eq_false, not_le] at hnot
    obtain ⟨hr, ha, ht, hro⟩ := hnot
    have han : isAnswer env requesterPeerId requesterAddr myAddrs entry = true :=
      isAnswer_iff.mpr ⟨⟨UInt32.pos_iff_ne_zero.mpr hr, UInt32.not_le.mp ha⟩, ho, ht⟩
    exact (hk entry (mem_take_filter_iff.mpr ⟨i, hg, han, hro⟩)).other how
  · intro hf entry he
    obtain ⟨i, hg, han, hro⟩ := mem_take_filter_iff.mp he
    obtain ⟨⟨hp, ha⟩, ho, ht⟩ := isAnswer_iff.mp han
    refine ⟨hp, ha, rfl, ?_, ?_, ?_⟩
    · exact (had.entries entry (List.mem_of_getElem? hg)).strip hlaw
    · simp only [mayTell, Bool.or_eq_true] at ht
      exact ht.imp_right Multiaddrs.isDisclosableOnRfc1918Network_iff.mp
    · intro how
      rcases hf i entry hg how ho with hz | hd | hs | hfu
      · rw [hz] at hp
        exact absurd hp (by decide)
      · exact absurd ha (UInt32.not_lt.mpr hd)
      · rw [hs] at ht
        cases ht
      · exact absurd hro (not_lt.mpr hfu)

end

namespace SampleLedger

/-- Alice's entry may be told to Carol. -/
theorem answer_to_carol :
    AnswerKeepsPolicy env ([recordAlice].foldl (LedgerManager.step env) (.new none)) 16 "QmCarol" none [] := by
  refine (exchange_policy_iff env_lawful [recordAlice] 16 "QmCarol" none []).mpr ?_
  rintro i entry hg ⟨held, hh, hs | ⟨c, hc, -⟩⟩ ho
  · rw [hh, hs] at ho
    exact absurd rfl ho
  · have hn : canonicalLedgerPeerId env "QmCarol" none = none := by decide +kernel
    rw [hn] at hc
    cases hc

/-- Alice's entry is told to Alice, who asks under her libp2p identifier. -/
theorem answer_to_alice :
    ¬ AnswerKeepsPolicy env ([recordAlice].foldl (LedgerManager.step env) (.new none)) 16
      (env.toPeerId aliceKey).text none [] := by
  rw [run_recordAlice]
  intro h
  have ht : isAnswer env (env.toPeerId aliceKey).text none []
      ⟨publicText, some (hexEncode aliceKey.1), some (hexEncode aliceKey.1), none, 1, 0, some 0, []⟩ = true := by
    refine isAnswer_iff.mpr ⟨⟨by decide, by decide⟩, ?_, by decide +kernel⟩
    rw [ne_eq, Option.some.injEq]
    intro heq
    have hl : rustToLowercase (env.toPeerId aliceKey).text = hexEncode aliceKey.1 := by
      rw [← heq, rustToLowercase_hexEncode]
    exact lower_toPeerId_ne env_lawful (isKeyText_hexEncode aliceKey) hl
  have he := h _ (mem_take_filter_iff.mpr ⟨0, by rw [entries_aliceSeen]; rfl, ht, by simp⟩)
  exact he.other ⟨_, rfl, .inr ⟨_, canonicalLedgerPeerId_toPeerId env_lawful rfl (base58Decode_toPeerId aliceKey),
    canonicalLedgerPeerId_hexEncode aliceKey none⟩⟩

end SampleLedger

end SCMessenger
