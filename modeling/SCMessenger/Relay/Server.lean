import Mathlib.Data.List.Perm.Basic
import SCMessenger.Lib.Bytes
import SCMessenger.Lib.Run
import SCMessenger.Lib.Table

/-!
# The envelopes a relay server holds

A pull returns the envelopes stored since some time, and empties the queue.  `ServerRun` follows the
envelopes of one peer beside the server.  Connections are left out.
-/

namespace SCMessenger

structure RelayServerConfig where
  maxStoredPerPeer : Nat
  storeTtlSecs : UInt64

/-- An envelope with the time it came in. -/
structure RelayServer.StoredEnvelope where
  data : Bytes
  storedAt : UInt64
deriving DecidableEq

structure RelayServerStats where
  envelopesStored : Nat
  envelopesDelivered : UInt64

/-- The envelopes kept for each peer, with the counters. -/
structure RelayServer where
  config : RelayServerConfig
  storage : Table String (List RelayServer.StoredEnvelope)
  stats : RelayServerStats

namespace RelayServer

def withConfig (config : RelayServerConfig) : RelayServer := ⟨config, ∅, ⟨0, 0⟩⟩

variable (server : RelayServer)

def withStorage (storage : Table String (List StoredEnvelope)) (delivered : UInt64) : RelayServer :=
  { server with storage, stats := ⟨(storage.entries.map fun q => q.2.length).sum, delivered⟩ }

def storeLoop (maxStored : Nat) (now : UInt64) :
    List StoredEnvelope × UInt32 × UInt32 → List Bytes → List StoredEnvelope × UInt32 × UInt32
  | state, [] => state
  | (queue, accepted, rejected), envelope :: envelopes =>
    if maxStored ≤ queue.length then storeLoop maxStored now (queue, accepted, rejected + 1) envelopes
    else storeLoop maxStored now (queue ++ [⟨envelope, now⟩], accepted + 1, rejected) envelopes

def queue (peerId : String) : List StoredEnvelope := (server.storage.lookup peerId).getD []

def storeForPeer (now : UInt64) (targetPeerId : String) (envelopes : List Bytes) :
    (UInt32 × UInt32) × RelayServer :=
  let (queue, counts) :=
    storeLoop server.config.maxStoredPerPeer now (server.queue targetPeerId, 0, 0) envelopes
  (counts, server.withStorage (server.storage.insert targetPeerId queue) server.stats.envelopesDelivered)

def getStoredFor (peerId : String) (sinceTimestamp : UInt64) : List Bytes × RelayServer :=
  match server.storage.lookup peerId with
  | some queue =>
    let envelopes := (queue.filter fun env => decide (sinceTimestamp ≤ env.storedAt)).map (·.data)
    (envelopes, server.withStorage (server.storage.insert peerId [])
      (server.stats.envelopesDelivered + UInt64.ofNat envelopes.length))
  | none => ([], server)

/-- Whether `cleanup_expired` keeps an envelope.  The difference wraps where it is below 0. -/
def isFresh (now : UInt64) (env : StoredEnvelope) : Bool :=
  decide (now - env.storedAt < server.config.storeTtlSecs)

def cleanupExpired (now : UInt64) : RelayServer :=
  server.withStorage
    (server.storage.filterMapValues fun queue =>
      if (queue.filter (server.isFresh now)).isEmpty then none else some (queue.filter (server.isFresh now)))
    server.stats.envelopesDelivered

/-! ## The queue of one peer -/

variable {server} {peer : String}

theorem storeLoop_eq (m : Nat) (now : UInt64) (q : List StoredEnvelope) (a r : UInt32)
    (e : List Bytes) :
    let room := m - q.length
    storeLoop m now (q, a, r) e
      = (q ++ (e.take room).map (⟨·, now⟩), a + UInt32.ofNat (e.take room).length,
        r + UInt32.ofNat (e.drop room).length) := by
  induction e generalizing q a r with
  | nil => simp [storeLoop]
  | cons en e ih =>
    simp only [storeLoop]
    by_cases hf : m ≤ q.length
    · rw [if_pos hf, ih, Nat.sub_eq_zero_of_le hf]
      simp [UInt32.ofNat_add, UInt32.add_assoc, UInt32.add_comm 1]
    · obtain ⟨n, hn⟩ : ∃ n, m - q.length = n + 1 := ⟨m - q.length - 1, by omega⟩
      have hm : m - (q ++ [(⟨en, now⟩ : StoredEnvelope)]).length = n := by
        rw [List.length_append, List.length_singleton]
        omega
      rw [if_neg hf, ih, hm, hn]
      simp [UInt32.ofNat_add, UInt32.add_assoc, UInt32.add_comm 1]

def acceptedOf (server : RelayServer) (peer : String) (now : UInt64) (envelopes : List Bytes) :
    List StoredEnvelope :=
  (envelopes.take (server.config.maxStoredPerPeer - (server.queue peer).length)).map (⟨·, now⟩)

theorem queue_storeForPeer (now : UInt64) (t : String) (e : List Bytes) :
    (server.storeForPeer now t e).2.queue peer
      = server.queue peer ++ if t = peer then server.acceptedOf peer now e else [] := by
  simp only [storeForPeer, storeLoop_eq, queue, withStorage]
  by_cases ht : t = peer
  · subst ht
    rw [AList.lookup_insert, if_pos rfl]
    rfl
  · rw [AList.lookup_insert_ne (Ne.symm ht), if_neg ht, List.append_nil]

theorem storeForPeer_accepted (now : UInt64) (e : List Bytes) :
    (server.storeForPeer now peer e).1.1 = UInt32.ofNat (server.acceptedOf peer now e).length := by
  simp [storeForPeer, storeLoop_eq, acceptedOf]

theorem getStoredFor_answer (s : UInt64) :
    (server.getStoredFor peer s).1
      = ((server.queue peer).filter fun env => decide (s ≤ env.storedAt)).map (·.data) := by
  unfold getStoredFor queue
  cases server.storage.lookup peer with
  | none => rfl
  | some q => rfl

theorem queue_getStoredFor (p : String) (s : UInt64) :
    (server.getStoredFor p s).2.queue peer = if p = peer then [] else server.queue peer := by
  unfold getStoredFor queue
  cases hl : server.storage.lookup p with
  | none =>
    by_cases hp : p = peer
    · subst hp
      simp [hl]
    · rw [if_neg hp]
  | some q =>
    by_cases hp : p = peer
    · subst hp
      simp [withStorage]
    · simp only [withStorage, AList.lookup_insert_ne (Ne.symm hp), if_neg hp]

theorem queue_cleanupExpired (now : UInt64) :
    (server.cleanupExpired now).queue peer = (server.queue peer).filter (server.isFresh now) := by
  simp only [cleanupExpired, queue, withStorage, Table.lookup_filterMapValues]
  cases server.storage.lookup peer with
  | none => rfl
  | some q =>
    simp only [Option.bind_some, Option.getD_some]
    split
    case isTrue he => rw [List.isEmpty_iff.mp he, Option.getD_none]
    case isFalse => rfl

end RelayServer

/-- The calls that change a server. -/
inductive ServerCall where
  | storeForPeer (now : UInt64) (targetPeerId : String) (envelopes : List Bytes)
  | getStoredFor (peerId : String) (sinceTimestamp : UInt64)
  | cleanupExpired (now : UInt64)

/-- A server, and the envelopes of one peer: accepted, returned, removed, and whether a time was negative. -/
structure ServerRun where
  server : RelayServer
  accepted : List Bytes
  returned : List Bytes
  expired : List (RelayServer.StoredEnvelope × UInt64)
  underflowed : Bool

namespace ServerRun

def new (config : RelayServerConfig) : ServerRun := ⟨.withConfig config, [], [], [], false⟩

def step (peer : String) (run : ServerRun) : ServerCall → ServerRun
  | .storeForPeer now target envelopes =>
    { run with
      server := (run.server.storeForPeer now target envelopes).2
      -- a full queue stays full, so that the envelopes counted are the first ones
      accepted := run.accepted
        ++ if target = peer then envelopes.take (run.server.storeForPeer now target envelopes).1.1.toNat else [] }
  | .getStoredFor p since =>
    { run with
      server := (run.server.getStoredFor p since).2
      returned := run.returned ++ if p = peer then (run.server.getStoredFor p since).1 else [] }
  | .cleanupExpired now =>
    { run with
      server := run.server.cleanupExpired now
      expired := run.expired
        ++ ((run.server.queue peer).filter fun env => !run.server.isFresh now env).map fun env => (env, now)
      underflowed := run.underflowed || (run.server.queue peer).any fun env => decide (now < env.storedAt) }

/-- The envelopes accepted are stored, returned once, or removed when old enough. -/
structure Lossless (peer : String) (run : ServerRun) : Prop where
  conserved : run.accepted.Perm
    ((run.server.queue peer).map (·.data) ++ run.returned ++ run.expired.map fun x => x.1.data)
  aged : ∀ x ∈ run.expired, x.1.storedAt.toNat + run.server.config.storeTtlSecs.toNat ≤ x.2.toNat
  noUnderflow : run.underflowed = false

/-- No count overflows, a pull asks for all that is stored, a cleanup finds nothing from the future. -/
def Keeps (peer : String) (run : ServerRun) : ServerCall → Prop
  | .storeForPeer now target envelopes =>
    target = peer → (run.server.acceptedOf peer now envelopes).length < UInt32.size
  | .getStoredFor p since => p = peer → ∀ env ∈ run.server.queue peer, since ≤ env.storedAt
  | .cleanupExpired now => ∀ env ∈ run.server.queue peer, env.storedAt ≤ now

variable {peer : String} {run : ServerRun}

theorem step_config (c : ServerCall) : (run.step peer c).server.config = run.server.config := by
  cases c with
  | storeForPeer now t envelopes => rfl
  | getStoredFor p s =>
    simp only [step, RelayServer.getStoredFor]
    split <;> rfl
  | cleanupExpired now => rfl

theorem lossless_getStoredFor_iff {p : String} {s : UInt64} (h : run.Lossless peer) :
    (run.step peer (.getStoredFor p s)).Lossless peer ↔ run.Keeps peer (.getStoredFor p s) := by
  have hc := h.conserved
  by_cases hp : p = peer
  · subst hp
    have hs : (run.step p (.getStoredFor p s)).server.queue p = [] := by
      rw [step, RelayServer.queue_getStoredFor, if_pos rfl]
    have hr : (run.step p (.getStoredFor p s)).returned
        = run.returned ++ ((run.server.queue p).filter fun env => decide (s ≤ env.storedAt)).map (·.data) := by
      rw [step, if_pos rfl, RelayServer.getStoredFor_answer]
    constructor
    · intro hl _ env he
      have hlen := hc.length_eq.symm.trans hl.conserved.length_eq
      rw [hs, hr] at hlen
      simp only [List.length_append, List.length_map, List.length_nil, step] at hlen
      have hall := List.length_filter_eq_length_iff.mp
        (show ((run.server.queue p).filter fun env => decide (s ≤ env.storedAt)).length
          = (run.server.queue p).length by omega)
      exact of_decide_eq_true (hall env he)
    · intro hk
      have hf : ((run.server.queue p).filter fun env => decide (s ≤ env.storedAt)) = run.server.queue p :=
        List.filter_eq_self.mpr fun env he => decide_eq_true (hk rfl env he)
      refine ⟨?_, by rw [step_config]; exact h.aged, h.noUnderflow⟩
      rw [hs, hr, hf, List.map_nil, List.nil_append]
      exact hc.trans (List.perm_append_comm.append_right _)
  · refine iff_of_true ⟨?_, by rw [step_config]; exact h.aged, h.noUnderflow⟩ fun he => absurd he hp
    simpa only [step, RelayServer.queue_getStoredFor, if_neg hp, List.append_nil] using hc

theorem age_of_not_isFresh (server : RelayServer) {now : UInt64} {env : RelayServer.StoredEnvelope} (hle : env.storedAt ≤ now)
    (hf : server.isFresh now env = false) :
    env.storedAt.toNat + server.config.storeTtlSecs.toNat ≤ now.toNat := by
  rw [RelayServer.isFresh, decide_eq_false_iff_not, UInt64.not_lt, UInt64.le_iff_toNat_le,
    UInt64.toNat_sub_of_le _ _ hle] at hf
  rw [UInt64.le_iff_toNat_le] at hle
  omega

theorem lossless_cleanupExpired_iff {now : UInt64} (h : run.Lossless peer) :
    (run.step peer (.cleanupExpired now)).Lossless peer ↔ run.Keeps peer (.cleanupExpired now) := by
  constructor
  · intro hl env he
    have hu := hl.noUnderflow
    simp only [step, Bool.or_eq_false_iff, List.any_eq_false, decide_eq_true_eq] at hu
    exact UInt64.not_lt.mp (hu.2 env he)
  · intro hk
    refine ⟨?_, ?_, ?_⟩
    · refine h.conserved.trans ?_
      have hs := List.filter_append_perm (run.server.isFresh now) (run.server.queue peer)
      have hd := (hs.symm.map (·.data)).append_right run.returned |>.append_right
        (run.expired.map fun x => x.1.data)
      refine hd.trans ?_
      simp only [step, RelayServer.queue_cleanupExpired, List.map_append, List.map_map, Function.comp_def,
        List.append_assoc]
      exact .append_left _ (List.perm_append_comm.trans (by rw [List.append_assoc]))
    · intro x hx
      rcases List.mem_append.mp hx with hx | hx
      · exact h.aged x hx
      · obtain ⟨env, he, rfl⟩ := List.mem_map.mp hx
        obtain ⟨hm, hf⟩ := List.mem_filter.mp he
        exact age_of_not_isFresh run.server (hk env hm) (by simpa using hf)
    · simp only [step, h.noUnderflow, Bool.false_or, List.any_eq_false, decide_eq_true_eq]
      exact fun env he => UInt64.not_lt.mpr (hk env he)

theorem lossless_storeForPeer_iff {now : UInt64} {t : String} {e : List Bytes} (h : run.Lossless peer) :
    (run.step peer (.storeForPeer now t e)).Lossless peer ↔ run.Keeps peer (.storeForPeer now t e) := by
  by_cases ht : t = peer
  · subst ht
    have ha : (run.step t (.storeForPeer now t e)).accepted
        = run.accepted ++ e.take ((run.server.acceptedOf t now e).length % UInt32.size) := by
      rw [step, if_pos rfl, RelayServer.storeForPeer_accepted, UInt32.toNat_ofNat']
    have hs : (run.step t (.storeForPeer now t e)).server.queue t
        = run.server.queue t ++ run.server.acceptedOf t now e := by
      rw [step, RelayServer.queue_storeForPeer, if_pos rfl]
    constructor
    · intro hl _
      have hlen := hl.conserved.length_eq
      have hlen' := h.conserved.length_eq
      rw [ha, hs] at hlen
      simp only [List.length_append, List.length_map, List.length_take, step] at hlen hlen'
      have hm := Nat.mod_lt (run.server.acceptedOf t now e).length (show 0 < UInt32.size by decide)
      omega
    · intro hk
      refine ⟨?_, h.aged, h.noUnderflow⟩
      have hd : e.take (run.server.acceptedOf t now e).length = (run.server.acceptedOf t now e).map (·.data) := by
        simp [RelayServer.acceptedOf, Function.comp_def, ← List.take_eq_take_min]
      rw [ha, hs, Nat.mod_eq_of_lt (hk rfl), hd, List.map_append]
      refine (h.conserved.append_right _).trans ?_
      simp only [List.append_assoc]
      refine .append_left _ ?_
      rw [← List.append_assoc]
      exact List.perm_append_comm
  · refine iff_of_true ⟨?_, h.aged, h.noUnderflow⟩ fun he => absurd he ht
    simpa only [step, RelayServer.queue_storeForPeer, if_neg ht, List.append_nil] using h.conserved

theorem lossless_step_iff (c : ServerCall) (h : run.Lossless peer) :
    (run.step peer c).Lossless peer ↔ run.Keeps peer c := by
  cases c with
  | storeForPeer now t e => exact lossless_storeForPeer_iff h
  | getStoredFor p s => exact lossless_getStoredFor_iff h
  | cleanupExpired now => exact lossless_cleanupExpired_iff h

/-- **When no envelope is lost**: all along a run, exactly when every call `Keeps` what it finds. -/
theorem relay_storage_lossless_iff (config : RelayServerConfig) (calls : List ServerCall) (peer : String) :
    (∀ k, (stateAt (step peer) (new config) calls k).Lossless peer)
      ↔ Guarded (Keeps peer) (step peer) (new config) calls :=
  have hn : (new config).Lossless peer := ⟨.refl _, by simp [new], rfl⟩
  forall_stateAt_iff (fun _ h => h) (fun _ call _ h => lossless_step_iff call h)
    (fun _ call _ h hk => (lossless_step_iff call h).mpr hk) hn

/-- A pull of what was stored since 5 loses what was stored at 0. -/
theorem old_envelope_lost :
    ¬ ((new ⟨10, 60⟩).step "bob" (.storeForPeer 0 "bob" [[1]]) |>.step "bob" (.getStoredFor "bob" 5)).Lossless
      "bob" := by
  intro h
  have hl := h.conserved.length_eq
  revert hl
  decide +kernel

end ServerRun

end SCMessenger
