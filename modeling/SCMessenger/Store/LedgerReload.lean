import SCMessenger.Store.LedgerBindings

/-!
# What a ledger keeps when it is loaded again

`load` was written for files with libp2p identifiers: it drops an entry with another one, and writes what is
left in canonical form, so that the next load drops it.
-/

namespace SCMessenger

def LedgerEntry.view (entry : LedgerEntry) : String × Option String × Option String × UInt32 × UInt32 :=
  (entry.multiaddr, entry.peerId, entry.publicKey, entry.successCount, entry.failureCount)

section

variable {env : LedgerEnv}

/-! ## One entry -/

def CleanKey (publicKey : Option String) : Prop :=
  ∀ key, publicKey = some key → rustTrim key = key ∧ isCleanText maxLenPublicKey key = true

theorem sanitizeOptionalLedgerText_eq_self {p : Option String} :
    sanitizeOptionalLedgerText p maxLenPublicKey = p ↔ CleanKey p := by
  cases p with
  | none => simp [sanitizeOptionalLedgerText, CleanKey]
  | some key =>
    simp only [sanitizeOptionalLedgerText, Option.bind_some, CleanKey, Option.some.injEq, forall_eq']
    constructor
    · intro h
      split at h
      · rename_i hc
        rw [Option.some.injEq] at h
        rw [h] at hc
        exact ⟨h, hc⟩
      · cases h
    · rintro ⟨ht, hc⟩
      rw [ht, if_pos hc]

variable (env) in
/-- A short address; a clean key without a peer, or a parsed peer that contains no key and has none. -/
def LoadsBack (entry : LedgerEntry) : Prop :=
  entry.multiaddr.utf8ByteSize ≤ maxLenMultiaddr
    ∧ ((entry.peerId = none ∨ entry.peerId = some "") ∧ CleanKey entry.publicKey
      ∨ ∃ peerId, entry.peerId = some peerId ∧ peerId ≠ "" ∧ peerId.utf8ByteSize ≤ maxLenPeerId
        ∧ env.parsesPeerId peerId = true ∧ entry.publicKey = none
        ∧ (canonicalLedgerPeerId env peerId none = none ∨ canonicalLedgerPeerId env peerId none = some peerId))

/-- A pair stays exactly when there is no key, and the peer is canonical or absent. -/
theorem canonicalBinding_gated_eq_self (hl : env.Lawful) {p : String}
    {pk g : Option String} (hne : p ≠ "")
    (hg : ∀ key, pk = some key → isSelfCertifyingBinding env p key = true)
    (hgi : g = none → pk = none) :
    canonicalBinding env p pk = (p, g)
      ↔ g = none
        ∧ (canonicalLedgerPeerId env p none = none ∨ canonicalLedgerPeerId env p none = some p) := by
  cases pk with
  | some key =>
    -- the identifier of a key is replaced with the key
    obtain ⟨k, hk, hv, rfl⟩ :=
      peerIdFromPublicKeyHex_eq_some.mp (isSelfCertifyingBinding_iff.mp (hg key rfl))
    rw [canonicalBinding_self hl hk hv]
    refine iff_of_false ?_ ?_
    · intro h
      have hf : rustToLowercase key = (env.toPeerId k).text := congrArg Prod.fst h
      have hs : rustToLowercase (env.toPeerId k).text = rustToLowercase key := by
        rw [← hf, rustToLowercase_idem]
      exact lower_toPeerId_ne hl hk.lower hs
    · rintro ⟨hn, -⟩
      cases hgi hn
  | none =>
    unfold canonicalBinding
    cases hc : canonicalLedgerPeerId env p none with
    | none => simp [eq_comm]
    | some c =>
      obtain ⟨⟨k, hk⟩, hlo⟩ := isKeyText_canonicalLedgerPeerId hc
      have hse : rustToLowercase (rustTrim c) = c := by
        rw [hk.rustTrim_eq, hlo]
      by_cases hs : c = rustToLowercase (rustTrim p)
      · simp only [hs, ne_eq, not_true, if_false, Option.map_none, Prod.mk.injEq, reduceCtorEq, false_or,
          Option.some.injEq]
        rw [and_comm, eq_comm]
      · simp only [ne_eq, hs, not_false_eq_true, if_true, Prod.mk.injEq, reduceCtorEq, false_or,
          Option.some.injEq]
        refine iff_of_false ?_ ?_
        · rintro ⟨rfl, -⟩
          exact hs hse.symm
        · rintro ⟨-, rfl⟩
          exact hs hse.symm

theorem loads_back_iff (hla : env.Lawful) (e : LedgerEntry) :
    (isLoadable env e = true ∧ (repairEntry env e).view = e.view) ↔ LoadsBack env e := by
  cases hp : e.peerId with
  | none =>
    simp only [isLoadable, repairEntry, hp, LedgerEntry.view, LoadsBack, Prod.mk.injEq, true_and, and_true,
      Bool.and_true, decide_eq_true_eq, sanitizeOptionalLedgerText_eq_self, reduceCtorEq, false_and,
      exists_false, or_false]
  | some peerId =>
    by_cases he : peerId = ""
    · subst he
      have hke : ∀ publicKey : Option String,
          (publicKey.filter fun key => "".isEmpty || isSelfCertifyingBinding env "" key) = publicKey := by
        intro publicKey
        cases publicKey <;> rfl
      have hbi : ∀ publicKey : Option String, canonicalBinding env "" publicKey = ("", publicKey) := by
        intro publicKey
        unfold canonicalBinding
        rw [canonicalLedgerPeerId_empty]
      simp [isLoadable, repairEntry, hp, LedgerEntry.view, LoadsBack, hke, hbi,
        sanitizeOptionalLedgerText_eq_self]
    · have hg : e.publicKey = none →
          ((sanitizeOptionalLedgerText e.publicKey maxLenPublicKey).filter
            fun key => peerId.isEmpty || isSelfCertifyingBinding env peerId key) = none := by
        intro hn
        rw [hn]
        rfl
      have hga : ∀ key, ((sanitizeOptionalLedgerText e.publicKey maxLenPublicKey).filter
          fun key => peerId.isEmpty || isSelfCertifyingBinding env peerId key) = some key →
          isSelfCertifyingBinding env peerId key = true := by
        intro key hk
        have hb := (Option.filter_eq_some_iff.mp hk).2
        rw [Bool.or_eq_true, String.isEmpty_iff] at hb
        exact hb.resolve_left he
      have hsa := canonicalBinding_gated_eq_self hla he hga hg
      have hv : (repairEntry env e).view = e.view
          ↔ canonicalBinding env peerId ((sanitizeOptionalLedgerText e.publicKey maxLenPublicKey).filter
            fun key => peerId.isEmpty || isSelfCertifyingBinding env peerId key) = (peerId, e.publicKey) := by
        unfold repairEntry
        simp only [hp]
        generalize canonicalBinding env peerId _ = pair
        simp [LedgerEntry.view, hp, Prod.ext_iff]
      rw [hv, hsa]
      have hbl : peerId.isEmpty = false := by
        rw [Bool.eq_false_iff, ne_eq, String.isEmpty_iff]
        exact he
      simp only [isLoadable, hp, hbl, LoadsBack, Bool.false_or, Bool.and_eq_true, decide_eq_true_eq,
        reduceCtorEq, Option.some.injEq, he, or_false, false_and, false_or, exists_eq_left', ne_eq,
        not_false_eq_true, true_and]
      constructor
      · rintro ⟨⟨hl, hs, hpa⟩, hn, hc⟩
        exact ⟨hl, hs, hpa, hn, hc⟩
      · rintro ⟨hl, hs, hpa, hn, hc⟩
        exact ⟨⟨hl, hs, hpa⟩, hn, hc⟩

/-! ## The entries and the file -/

def DistinctAddrs (entries : List LedgerEntry) : Prop := (entries.map (·.multiaddr)).Nodup

variable {entries : List LedgerEntry}

theorem DistinctAddrs.eq_of_mem (h : DistinctAddrs entries) {a b : LedgerEntry} (ha : a ∈ entries)
    (hb : b ∈ entries) (hs : a.multiaddr = b.multiaddr) : a = b :=
  List.inj_on_of_nodup_map h ha hb hs

theorem DistinctAddrs.updateFirst {p : LedgerEntry → Bool} {f : LedgerEntry → LedgerEntry}
    (h : DistinctAddrs entries) (hf : ∀ e, (f e).multiaddr = e.multiaddr) :
    DistinctAddrs (updateFirst p f entries) := by
  unfold DistinctAddrs
  rw [map_updateFirst fun e _ => hf e]
  exact h

theorem DistinctAddrs.pushEntry {f : LedgerEntry} (h : DistinctAddrs entries)
    (hf : ∀ e ∈ entries, e.multiaddr ≠ f.multiaddr) : DistinctAddrs (pushEntry entries f) := by
  have hs : (makeRoom (entries.length + 1) entries).Sublist entries := makeRoom_sublist
  unfold DistinctAddrs SCMessenger.pushEntry
  rw [List.map_append, List.nodup_append]
  refine ⟨h.sublist (hs.map _), by simp, ?_⟩
  intro a ha b hb
  obtain ⟨e, he, rfl⟩ := List.mem_map.mp ha
  rw [List.map_singleton, List.mem_singleton] at hb
  rw [hb]
  exact hf e (hs.subset he)

theorem DistinctAddrs.upsert {m p : String} {od o : LedgerEntry → LedgerEntry}
    {f : LedgerEntry} (h : DistinctAddrs entries) (hd : ∀ e, (od e).multiaddr = e.multiaddr)
    (hs : ∀ e, (o e).multiaddr = e.multiaddr) (hf : f.multiaddr = m) :
    DistinctAddrs (upsert env m p od o f entries) := by
  unfold SCMessenger.upsert
  split
  · exact h.updateFirst hd
  · split
    · exact h.updateFirst hs
    · rename_i hn
      refine h.pushEntry fun e he heq => hn ?_
      rw [List.any_eq_true]
      exact ⟨e, he, by rw [heq, hf]; exact BEq.rfl⟩

theorem DistinctAddrs.importSeeds (hl : env.Lawful) {now a : Nat} {m : NetworkMode}
    {s : List SeedLedgerEntry} (h : DistinctAddrs entries) :
    DistinctAddrs (s.foldl (LedgerManager.importSeed env now m) (entries, a)).1 := by
  refine List.foldlRecOn (motive := fun st : List LedgerEntry × Nat => DistinctAddrs st.1) s _ h fun st hs se _ => ?_
  rcases LedgerManager.importSeed_cases now m st se with he | ⟨a, ha, he, -, hn⟩
  · rwa [he]
  · rw [he]
    -- an entry of the stripped address would be known
    refine DistinctAddrs.pushEntry hs fun e hm heq => hn e hm ?_
    rw [heq, ha, Multiaddrs.stripPeerId_idem hl.addrs]

theorem repairEntry_multiaddr (e : LedgerEntry) :
    (repairEntry env e).multiaddr = e.multiaddr := by
  unfold repairEntry
  simp only
  split
  · rfl
  · rfl

theorem DistinctAddrs.loadEntries {p : List LedgerEntry} (h : DistinctAddrs p) :
    DistinctAddrs (loadEntries env p) := by
  have hf : DistinctAddrs (p.filter (isLoadable env)) := h.sublist (List.filter_sublist.map _)
  have hm : ∀ entries : List LedgerEntry, DistinctAddrs entries →
      DistinctAddrs (entries.map (repairEntry env)) := by
    intro entries he
    unfold DistinctAddrs
    rw [List.map_map]
    have hs : (fun e : LedgerEntry => e.multiaddr) ∘ repairEntry env = fun e => e.multiaddr :=
      funext repairEntry_multiaddr
    rw [hs]
    exact he
  unfold SCMessenger.loadEntries
  refine hm _ ?_
  split
  · have hp := List.mergeSort_perm (p.filter (isLoadable env)) fun a b => loadOrder a b != .gt
    have hso : DistinctAddrs ((p.filter (isLoadable env)).mergeSort fun a b => loadOrder a b != .gt) :=
      (hp.map fun e : LedgerEntry => e.multiaddr).nodup_iff.mpr hf
    exact hso.sublist ((List.take_sublist _ _).map _)
  · exact hf

variable (env) in
/-- Addresses are distinct, and the file has what is in memory, unless that is too large. -/
structure Stored (manager : LedgerManager) : Prop where
  distinct : DistinctAddrs manager.entries
  fileDistinct : ∀ parsed, manager.file = some parsed → DistinctAddrs parsed
  synced : env.persistedSize manager.entries ≤ maxPersistedLedgerBytes →
    manager.file = some manager.entries ∨ manager.file = none ∧ manager.entries = []

theorem stored_new : Stored env (.new none) where
  distinct := List.nodup_nil
  fileDistinct := by
    rintro p ⟨⟩
  synced _ := .inr ⟨rfl, rfl⟩

theorem Stored.saveWithEntries {m : LedgerManager} (h : Stored env m)
    (he : DistinctAddrs entries) : Stored env (m.saveWithEntries env entries) := by
  by_cases hs : env.persistedSize entries ≤ maxPersistedLedgerBytes
  · have hsa : m.saveWithEntries env entries = ⟨entries, some entries⟩ := by
      rw [LedgerManager.saveWithEntries, if_pos hs]
    rw [hsa]
    refine ⟨he, ?_, fun _ => .inl rfl⟩
    intro p hp
    rw [← Option.some.inj hp]
    exact he
  · have hsa : m.saveWithEntries env entries = ⟨entries, m.file⟩ := by
      rw [LedgerManager.saveWithEntries, if_neg hs]
    rw [hsa]
    exact ⟨he, h.fileDistinct, fun hf => absurd hf hs⟩

theorem Stored.step (hla : env.Lawful) {ma : LedgerManager} (h : Stored env ma) (op : LedgerOp) :
    Stored env (ma.step env op) := by
  cases op with
  | recordConnection now m peerId =>
    show Stored env (ma.recordConnection env now m peerId)
    unfold LedgerManager.recordConnection
    split
    · exact h
    · split
      · exact h
      · refine h.saveWithEntries (h.distinct.upsert ?_ ?_ rfl)
        · exact fun _ => rfl
        · exact fun _ => rfl
  | recordFailure m => exact h.saveWithEntries (h.distinct.updateFirst fun _ => rfl)
  | annotateIdentity now m peerId publicKey n =>
    show Stored env (ma.annotateIdentity env now m peerId publicKey n)
    unfold LedgerManager.annotateIdentity
    split
    · exact h
    · refine h.saveWithEntries ?_
      unfold annotateIdentityLocked
      simp only
      split
      · exact h.distinct
      · refine h.distinct.upsert ?_ ?_ rfl
        · exact fun _ => rfl
        · exact fun _ => rfl
  | importSeedEntries now s => exact h.saveWithEntries (h.distinct.importSeeds hla)
  | load =>
    rcases ma.step_load_cases env with hs | ⟨p, hf, hn⟩
    · rw [hs]
      exact h
    · rw [hn]
      have hl : DistinctAddrs (loadEntries env p) := (h.fileDistinct p hf).loadEntries
      refine ⟨hl, ?_, fun _ => .inl rfl⟩
      intro p' hp'
      rw [← Option.some.inj hp']
      exact hl

/-! ## Loading again -/

variable (env) in
/-- A fresh manager has the same addresses, peers, keys and counters. -/
def ReloadsSame (manager : LedgerManager) : Prop :=
  ∃ fresh, (LedgerManager.new manager.file).load env = .ok fresh
    ∧ ∀ view, view ∈ fresh.entries.map LedgerEntry.view ↔ view ∈ manager.entries.map LedgerEntry.view

variable (env) in
/-- The limits on the number of entries and on the size of the file. -/
structure WithinLimits (manager : LedgerManager) : Prop where
  count : manager.entries.length ≤ maxLedgerEntries
  saved : env.persistedSize manager.entries ≤ maxPersistedLedgerBytes
  loaded : env.persistedSize (loadEntries env manager.entries) ≤ maxPersistedLedgerBytes

theorem loadEntries_of_count {p : List LedgerEntry} (h : p.length ≤ maxLedgerEntries) :
    loadEntries env p = (p.filter (isLoadable env)).map (repairEntry env) := by
  have hc : ¬ maxLedgerEntries < (p.filter (isLoadable env)).length :=
    Nat.not_lt.mpr ((List.length_filter_le _ _).trans h)
  rw [loadEntries, if_neg hc]

theorem mem_view_loadEntries_iff (hla : env.Lawful) (hd : DistinctAddrs entries)
    (hc : entries.length ≤ maxLedgerEntries) :
    (∀ view, view ∈ (loadEntries env entries).map LedgerEntry.view ↔ view ∈ entries.map LedgerEntry.view)
      ↔ ∀ e ∈ entries, LoadsBack env e := by
  rw [loadEntries_of_count hc]
  constructor
  · intro hs e he
    obtain ⟨loaded, hl, hv⟩ := List.mem_map.mp ((hs e.view).mpr (List.mem_map_of_mem he))
    obtain ⟨e', he', rfl⟩ := List.mem_map.mp hl
    obtain ⟨hm, hk⟩ := List.mem_filter.mp he'
    -- the entry that is loaded with this address is the entry itself
    have ha : e'.multiaddr = e.multiaddr :=
      (repairEntry_multiaddr e').symm.trans (congrArg Prod.fst hv)
    obtain rfl : e' = e := hd.eq_of_mem hm he ha
    exact (loads_back_iff hla e').mp ⟨hk, hv⟩
  · intro hba view
    have hb := fun e he => (loads_back_iff hla e).mpr (hba e he)
    have hf : entries.filter (isLoadable env) = entries :=
      List.filter_eq_self.mpr fun e he => (hb e he).1
    have hvw : ((entries.filter (isLoadable env)).map (repairEntry env)).map LedgerEntry.view
        = entries.map LedgerEntry.view := by
      rw [hf, List.map_map]
      exact List.map_congr_left fun e he => (hb e he).2
    rw [hvw]

/-- **A ledger is read back as it was** exactly when every entry is one that a load leaves alone. -/
theorem ledger_reload_iff (hlaw : env.Lawful) (ops : List LedgerOp)
    (hlimits : WithinLimits env (ops.foldl (LedgerManager.step env) (.new none))) :
    ReloadsSame env (ops.foldl (LedgerManager.step env) (.new none))
      ↔ ∀ e ∈ (ops.foldl (LedgerManager.step env) (.new none)).entries, LoadsBack env e := by
  have hs : Stored env (ops.foldl (LedgerManager.step env) (.new none)) :=
    List.foldlRecOn ops _ stored_new fun m h op _ => h.step hlaw op
  generalize ops.foldl (LedgerManager.step env) (.new none) = m at hlimits hs ⊢
  rcases hs.synced hlimits.saved with hf | ⟨hf, hem⟩
  · rw [← mem_view_loadEntries_iff hlaw hs.distinct hlimits.count, ReloadsSame, hf]
    have hl : (LedgerManager.new (some m.entries)).load env
        = .ok ⟨loadEntries env m.entries, some (loadEntries env m.entries)⟩ := by
      simp only [LedgerManager.load, LedgerManager.new, if_neg (Nat.not_lt.mpr hlimits.loaded)]
    rw [hl]
    simp
  · rw [ReloadsSame, hf, hem]
    refine iff_of_true ⟨.new none, rfl, fun view => Iff.rfl⟩ ?_
    intro e he
    cases he

end

namespace SampleLedger

def recordCarol : LedgerOp := .recordConnection 0 publicText "QmCarol"

/-- A ledger that has seen only her is read back. -/
theorem reload_carol : ReloadsSame env ([recordCarol].foldl (LedgerManager.step env) (.new none)) := by
  have hen : ([recordCarol].foldl (LedgerManager.step env) (.new none)).entries
      = [⟨publicText, some "QmCarol", none, none, 1, 0, some 0, []⟩] := by decide +kernel
  refine (ledger_reload_iff env_lawful [recordCarol] ⟨?_, ?_, ?_⟩).mpr ?_
  · rw [hen]
    decide
  · rw [hen]
    decide
  · rw [hen]
    decide +kernel
  · rw [hen]
    intro e he
    rw [List.mem_singleton] at he
    rw [he]
    refine ⟨by decide +kernel, .inr ⟨"QmCarol", rfl, by decide, by decide +kernel, by decide +kernel, rfl, ?_⟩⟩
    exact .inl (by decide +kernel)

/-- A ledger that has seen Alice is empty when it is read back. -/
theorem reload_drops_alice :
    ¬ ReloadsSame env ([recordAlice].foldl (LedgerManager.step env) (.new none)) := by
  rw [run_recordAlice]
  rintro ⟨fresh, hl, hs⟩
  have hf : aliceSeen.file = some aliceSeen.entries := by
    have hst : Stored env aliceSeen := stored_new.step env_lawful recordAlice
    rcases hst.synced (by rw [entries_aliceSeen]; decide) with hf | ⟨-, he⟩
    · exact hf
    · rw [entries_aliceSeen] at he
      cases he
  have hd : loadEntries env aliceSeen.entries = [] := by
    have hr : isLoadable env
        ⟨publicText, some (hexEncode aliceKey.1), some (hexEncode aliceKey.1), none, 1, 0, some 0, []⟩ = false := by
      decide +kernel
    rw [entries_aliceSeen, loadEntries_of_count (by decide)]
    simp [hr]
  have hv : (⟨publicText, some (hexEncode aliceKey.1), some (hexEncode aliceKey.1), none, 1, 0, some 0, []⟩ :
      LedgerEntry).view ∈ fresh.entries.map LedgerEntry.view := by
    rw [hs, entries_aliceSeen]
    simp
  have hfr : fresh.entries = [] := by
    rw [hf] at hl
    simp only [LedgerManager.load, LedgerManager.new, hd] at hl
    split at hl
    · cases hl
    · rw [← Except.ok.inj hl]
  rw [hfr] at hv
  cases hv

end SampleLedger

end SCMessenger
