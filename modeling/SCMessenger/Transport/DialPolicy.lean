import SCMessenger.Lib.Run
import SCMessenger.Lib.Table

/-!
# How many dials to one address are under way

The backoff and the counter of an address are pruned together, by the age of the backoff.  `DialRun` keeps
the dials that were let through and not completed beside the manager.
-/

namespace SCMessenger

/-- The failures of an address, and how long it is left alone. -/
structure PerPeerBackoffState (π : Type) where
  attemptCount : UInt32
  lastAttemptTs : Nat
  backoffDuration : Nat
  isDead : Bool
  peerId : Option π

namespace PerPeerBackoffState

variable {π : Type}

def new (now : Nat) (peerId : Option π) : PerPeerBackoffState π := ⟨0, now, 1, false, peerId⟩

variable (state : PerPeerBackoffState π)

def isEligible (now : Nat) : Bool :=
  if state.isDead then false
  else if 3 ≤ state.attemptCount then false
  else if state.attemptCount = 0 then true
  else decide (state.lastAttemptTs + state.backoffDuration ≤ now)

def onDialFailure (now : Nat) : PerPeerBackoffState π :=
  { state with
    attemptCount := state.attemptCount + 1
    lastAttemptTs := now
    backoffDuration := min (state.backoffDuration * 2) 30
    isDead := if 3 ≤ state.attemptCount + 1 then true else state.isDead }

def onPermanentFailure : PerPeerBackoffState π := { state with isDead := true, attemptCount := 3 }

def onConnectionEstablished (now : Nat) : PerPeerBackoffState π :=
  { state with attemptCount := 0, backoffDuration := 1, lastAttemptTs := now, isDead := false }

end PerPeerBackoffState

/-- The state of each address, and the dials under way. -/
structure DialPolicyManager (π : Type) where
  peerBackoff : Table String (PerPeerBackoffState π)
  concurrentDials : Table String UInt32

namespace DialPolicyManager

variable {π : Type} [DecidableEq π]

def new : DialPolicyManager π := ⟨∅, ∅⟩

variable (manager : DialPolicyManager π)

def backoffOf (now : Nat) (addrKey : String) (peerId : Option π) : PerPeerBackoffState π :=
  (manager.peerBackoff.lookup addrKey).getD (.new now peerId)

def registerDialAttempt (now : Nat) (addrKey : String) (peerId : Option π) : Bool × DialPolicyManager π :=
  let state := manager.backoffOf now addrKey peerId
  let manager := { manager with peerBackoff := manager.peerBackoff.insert addrKey state }
  if !state.isEligible now then (false, manager)
  else
    let dialCount := (manager.concurrentDials.lookup addrKey).getD 0
    if 3 ≤ dialCount then
      (false, { manager with concurrentDials := manager.concurrentDials.insert addrKey dialCount })
    else (true, { manager with concurrentDials := manager.concurrentDials.insert addrKey (dialCount + 1) })

def completeDialAttempt (addrKey : String) : DialPolicyManager π :=
  match manager.concurrentDials.lookup addrKey with
  | some count =>
    if 0 < count then { manager with concurrentDials := manager.concurrentDials.insert addrKey (count - 1) }
    else manager
  | none => manager

def updateBackoff (now : Nat) (addrKey : String) (peerId : Option π)
    (f : PerPeerBackoffState π → PerPeerBackoffState π) : DialPolicyManager π :=
  { manager with peerBackoff := manager.peerBackoff.insert addrKey (f (manager.backoffOf now addrKey peerId)) }

def recordDialFailure (now : Nat) (addrKey : String) (peerId : Option π) : DialPolicyManager π :=
  manager.updateBackoff now addrKey peerId (·.onDialFailure now)

def recordPermanentFailure (now : Nat) (addrKey : String) (peerId : Option π) : DialPolicyManager π :=
  manager.updateBackoff now addrKey peerId (·.onPermanentFailure)

def resetOnConnectionEstablished (now : Nat) (addrKey : String) (peerId : Option π) : DialPolicyManager π :=
  manager.updateBackoff now addrKey peerId (·.onConnectionEstablished now)

def resetPeerBackoff (now : Nat) (peerId : π) : DialPolicyManager π :=
  { manager with
    peerBackoff := manager.peerBackoff.filterMapValues fun state =>
      some (if state.peerId = some peerId ∧ (state.isDead = true ∨ 0 < state.attemptCount) then
        state.onConnectionEstablished now
      else state) }

def isStale (now maxAge : Nat) (addrKey : String) : Bool :=
  (manager.peerBackoff.lookup addrKey).any fun state => decide (maxAge < now - state.lastAttemptTs)

def pruneOldEntries (now maxAge : Nat) : DialPolicyManager π where
  peerBackoff := manager.peerBackoff.restrict fun key => !manager.isStale now maxAge key
  concurrentDials := manager.concurrentDials.restrict fun key => !manager.isStale now maxAge key

def dialCount (addrKey : String) : Nat := ((manager.concurrentDials.lookup addrKey).getD 0).toNat

end DialPolicyManager

/-- The operations, with the time they take place at. -/
inductive DialOp (π : Type) where
  | registerDialAttempt (now : Nat) (addrKey : String) (peerId : Option π)
  | completeDialAttempt (addrKey : String)
  | recordDialFailure (now : Nat) (addrKey : String) (peerId : Option π)
  | recordPermanentFailure (now : Nat) (addrKey : String) (peerId : Option π)
  | resetOnConnectionEstablished (now : Nat) (addrKey : String) (peerId : Option π)
  | resetPeerBackoff (now : Nat) (peerId : π)
  | pruneOldEntries (now maxAge : Nat)

/-- The manager, and the addresses of the dials that were let through and are not completed. -/
structure DialRun (π : Type) where
  manager : DialPolicyManager π
  unfinished : List String

namespace DialRun

variable {π : Type} [DecidableEq π]

def new : DialRun π := ⟨.new, []⟩

variable (run : DialRun π)

def step : DialOp π → DialRun π
  | .registerDialAttempt now addrKey peerId =>
    let (granted, manager) := run.manager.registerDialAttempt now addrKey peerId
    ⟨manager, if granted then addrKey :: run.unfinished else run.unfinished⟩
  | .completeDialAttempt addrKey => ⟨run.manager.completeDialAttempt addrKey, run.unfinished.erase addrKey⟩
  | .recordDialFailure now addrKey peerId => { run with manager := run.manager.recordDialFailure now addrKey peerId }
  | .recordPermanentFailure now addrKey peerId =>
    { run with manager := run.manager.recordPermanentFailure now addrKey peerId }
  | .resetOnConnectionEstablished now addrKey peerId =>
    { run with manager := run.manager.resetOnConnectionEstablished now addrKey peerId }
  | .resetPeerBackoff now peerId => { run with manager := run.manager.resetPeerBackoff now peerId }
  | .pruneOldEntries now maxAge => { run with manager := run.manager.pruneOldEntries now maxAge }

def Completes : DialOp π → Prop
  | .completeDialAttempt addrKey => addrKey ∈ run.unfinished
  | _ => True

def PrunesIdle : DialOp π → Prop
  | .pruneOldEntries now maxAge => ∀ key ∈ run.unfinished, run.manager.isStale now maxAge key = false
  | _ => True

/-- The counters agree with the dials under way, of which there are at most three to an address. -/
def Counted : Prop := ∀ key, run.unfinished.count key ≤ 3 ∧ run.manager.dialCount key = run.unfinished.count key

variable {run}

theorem Counted.register {now : Nat} {a : String} {p : Option π} (h : run.Counted) :
    (run.step (.registerDialAttempt now a p)).Counted := by
  have hc (key : String) (n : UInt32) : (AList.lookup key (run.manager.concurrentDials.insert a n)).getD 0
      = if key = a then n else (run.manager.concurrentDials.lookup key).getD 0 := by
    by_cases hk : key = a
    · subst hk
      simp
    · rw [AList.lookup_insert_ne hk, if_neg hk]
  intro key
  obtain ⟨hle, heq⟩ := h key
  unfold DialPolicyManager.dialCount at heq
  simp only [step, DialPolicyManager.registerDialAttempt]
  split
  · exact ⟨hle, heq⟩
  · split
    · rename_i hf
      simp only [DialPolicyManager.dialCount, hc, Bool.false_eq_true, if_false]
      refine ⟨hle, ?_⟩
      split
      · rename_i hk
        rw [← heq, hk]
      · exact heq
    · rename_i hl
      simp only [DialPolicyManager.dialCount, hc, if_true, List.count_cons]
      by_cases hk : key = a
      · subst hk
        rw [UInt32.not_le, UInt32.lt_iff_toNat_lt, heq] at hl
        have h3 : (3 : UInt32).toNat = 3 := rfl
        have hs : ((run.manager.concurrentDials.lookup key).getD 0 + 1).toNat = run.unfinished.count key + 1 := by
          rw [UInt32.toNat_add, heq]
          have h1 : (1 : UInt32).toNat = 1 := rfl
          omega
        simp only [if_true, beq_self_eq_true, hs, and_true]
        omega
      · have hb : (a == key) = false := by simpa using Ne.symm hk
        simp only [if_neg hk, hb, Bool.false_eq_true, if_false, Nat.add_zero]
        exact ⟨hle, heq⟩

theorem Counted.complete {a : String} (h : run.Counted) (hm : a ∈ run.unfinished) :
    (run.step (.completeDialAttempt a)).Counted := by
  have hp : 0 < run.unfinished.count a := List.count_pos_iff.mpr hm
  have ha := (h a).2
  unfold DialPolicyManager.dialCount at ha
  -- the counter is there, since it is not 0
  cases hl : run.manager.concurrentDials.lookup a with
  | none =>
    rw [hl] at ha
    simp only [Option.getD_none, UInt32.toNat_zero] at ha
    omega
  | some count =>
    rw [hl, Option.getD_some] at ha
    have hpos : 0 < count := by
      rw [UInt32.lt_iff_toNat_lt, ha]
      exact hp
    intro key
    obtain ⟨hle, heq⟩ := h key
    simp only [step, DialPolicyManager.completeDialAttempt, hl, if_pos hpos, DialPolicyManager.dialCount]
    by_cases hk : key = a
    · subst hk
      have hs : (count - 1).toNat = count.toNat - 1 :=
        UInt32.toNat_sub_of_le _ _ (by rw [UInt32.le_iff_toNat_le]; exact UInt32.lt_iff_toNat_lt.mp hpos)
      rw [AList.lookup_insert, Option.getD_some, List.count_erase_self, hs, ha]
      omega
    · rw [AList.lookup_insert_ne hk, List.count_erase_of_ne hk]
      exact ⟨hle, heq⟩

theorem Counted.prune {now m : Nat} (h : run.Counted)
    (hi : ∀ key ∈ run.unfinished, run.manager.isStale now m key = false) :
    (run.step (.pruneOldEntries now m)).Counted := by
  intro key
  obtain ⟨hle, heq⟩ := h key
  refine ⟨hle, ?_⟩
  simp only [step, DialPolicyManager.pruneOldEntries, DialPolicyManager.dialCount] at heq ⊢
  by_cases hk : key ∈ run.unfinished
  · have hs : AList.lookup key (run.manager.concurrentDials.restrict
        fun k => !run.manager.isStale now m k) = run.manager.concurrentDials.lookup key := by
      ext v
      rw [Table.lookup_restrict, hi key hk]
      simp
    rw [hs, heq]
  · rw [List.count_eq_zero_of_not_mem hk] at heq ⊢
    cases hs : AList.lookup key (run.manager.concurrentDials.restrict
        fun k => !run.manager.isStale now m k) with
    | none => rfl
    | some v =>
      rw [(Table.lookup_restrict.mp hs).2] at heq
      exact heq

theorem Counted.step (h : run.Counted) (op : DialOp π) (hc : run.Completes op) (hp : run.PrunesIdle op) :
    (run.step op).Counted := by
  cases op with
  | registerDialAttempt now a peerId => exact h.register
  | completeDialAttempt a => exact h.complete hc
  | pruneOldEntries now m => exact h.prune hp
  | recordDialFailure | recordPermanentFailure | resetOnConnectionEstablished | resetPeerBackoff => exact h

/-- **Dials are counted** as long as no address is pruned that has dials under way. -/
theorem concurrent_dials_bounded (ops : List (DialOp π)) (hc : Guarded Completes step new ops)
    (hp : Guarded PrunesIdle step new ops) (key : String) :
    (ops.foldl step new).unfinished.count key ≤ 3
      ∧ (ops.foldl step new).manager.dialCount key = (ops.foldl step new).unfinished.count key := by
  have hi : (ops.foldl step new).Counted :=
    (hc.and hp).invariant Counted (fun _ op h hg => h.step op hg.1 hg.2) fun _ => ⟨Nat.zero_le _, rfl⟩
  exact hi key

/-- Three dials, one of which fails, and a pruning that keeps the address. -/
def threeDials : List (DialOp Nat) :=
  [.registerDialAttempt 0 "relay" none, .registerDialAttempt 0 "relay" none, .registerDialAttempt 0 "relay" none,
    .completeDialAttempt "relay", .recordDialFailure 5 "relay" none, .pruneOldEntries 9 60]

theorem threeDials_counted : (threeDials.foldl step new).unfinished.count "relay" ≤ 3
    ∧ (threeDials.foldl step new).manager.dialCount "relay" = (threeDials.foldl step new).unfinished.count "relay" := by
  refine concurrent_dials_bounded threeDials ⟨trivial, trivial, trivial, ?_, trivial, trivial, trivial⟩
    ⟨trivial, trivial, trivial, trivial, trivial, ?_, trivial⟩ "relay"
  · show "relay" ∈ _
    decide +kernel
  · show ∀ key ∈ _, _
    decide +kernel

def prunedDials : List (DialOp Nat) :=
  [.registerDialAttempt 0 "relay" none, .registerDialAttempt 0 "relay" none, .registerDialAttempt 0 "relay" none,
    .pruneOldEntries 61 60, .registerDialAttempt 61 "relay" none]

/-- The address can then be dialed a fourth time, and its counter shows that dial only. -/
theorem pruned_under_way : Guarded Completes step new prunedDials
    ∧ (prunedDials.foldl step new).unfinished.count "relay" = 4
    ∧ (prunedDials.foldl step new).manager.dialCount "relay" = 1 :=
  ⟨⟨trivial, trivial, trivial, trivial, trivial, trivial⟩, by decide +kernel⟩

end DialRun

end SCMessenger
