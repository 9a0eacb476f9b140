import SCMessenger.Lib.Run
import SCMessenger.Lib.Table

/-!
# The circuit breaker of the relays

A half-open breaker lets some requests through as probes; they are counted when it becomes half open, and
not when it lets one through.  Durations that no call reads, and statistics, are left out.
-/

namespace SCMessenger

inductive CircuitState where
  | closed
  | opened
  | halfOpen
deriving DecidableEq, Repr

structure CircuitBreakerConfig where
  failureThreshold : UInt32
  openTimeout : Nat
  successThreshold : UInt32
  maxHalfOpenProbes : UInt32

def CircuitBreakerConfig.default : CircuitBreakerConfig where
  failureThreshold := 3
  openTimeout := 300
  successThreshold := 2
  maxHalfOpenProbes := 3

/-- The breaker of one peer. -/
structure CircuitBreakerEntry where
  state : CircuitState
  failureCount : UInt32
  successCount : UInt32
  halfOpenProbes : UInt32
  openedAt : Option Nat
  halfOpenStartedAt : Option Nat
  lastFailureReason : Option String
  lastSuccessAt : Option Nat

namespace CircuitBreakerEntry

def new : CircuitBreakerEntry := ⟨.closed, 0, 0, 0, none, none, none, none⟩

def transitionToHalfOpen (now : Nat) (entry : CircuitBreakerEntry) : CircuitBreakerEntry :=
  { entry with
    state := .halfOpen
    halfOpenStartedAt := some now
    halfOpenProbes := entry.halfOpenProbes + 1
    successCount := 0 }

def recordSuccess (config : CircuitBreakerConfig) (now : Nat) (entry : CircuitBreakerEntry) :
    CircuitBreakerEntry :=
  let entry := { entry with lastSuccessAt := some now, lastFailureReason := none }
  match entry.state with
  | .closed => { entry with failureCount := 0 }
  | .halfOpen =>
    let entry := { entry with successCount := entry.successCount + 1 }
    if config.successThreshold ≤ entry.successCount then
      { entry with
        state := .closed
        failureCount := 0
        successCount := 0
        halfOpenProbes := 0
        openedAt := none
        halfOpenStartedAt := none }
    else entry
  | .opened => entry

def recordFailure (config : CircuitBreakerConfig) (now : Nat) (reason : String)
    (entry : CircuitBreakerEntry) : CircuitBreakerEntry :=
  let entry := { entry with failureCount := entry.failureCount + 1, lastFailureReason := some reason }
  match entry.state with
  | .closed =>
    if config.failureThreshold ≤ entry.failureCount then
      { entry with state := .opened, openedAt := some now, successCount := 0 }
    else entry
  | .halfOpen =>
    { entry with
      state := .opened
      openedAt := some now
      successCount := 0
      halfOpenProbes := 0
      halfOpenStartedAt := none }
  | .opened => { entry with openedAt := some now }

end CircuitBreakerEntry

/-- The breakers by peer. -/
structure CircuitBreakerManager where
  config : CircuitBreakerConfig
  entries : Table String CircuitBreakerEntry

/-- The calls that look at or change the breaker of a relay, with the time they are made at. -/
inductive BreakerCall where
  | allowRequest (now : Nat) (relayAddress : String)
  | recordSuccess (now : Nat) (relayAddress : String)
  | recordFailure (now : Nat) (relayAddress reason : String)
deriving DecidableEq

def BreakerCall.isOutcomeFor (relay : String) : BreakerCall → Bool
  | .allowRequest _ _ => false
  | .recordSuccess _ r | .recordFailure _ r _ => r == relay

def BreakerCall.asksFor (relay : String) : BreakerCall → Bool
  | .allowRequest _ r => r == relay
  | _ => false

namespace CircuitBreakerManager

def new (config : CircuitBreakerConfig) : CircuitBreakerManager := ⟨config, ∅⟩

variable (manager : CircuitBreakerManager)

def modify (relayAddress : String) (f : CircuitBreakerEntry → CircuitBreakerEntry) : CircuitBreakerManager :=
  { manager with
    entries := manager.entries.insert relayAddress (f ((manager.entries.lookup relayAddress).getD .new)) }

def allowRequest (now : Nat) (relayAddress : String) : Bool × CircuitBreakerManager :=
  match manager.entries.lookup relayAddress with
  | none => (true, manager)
  | some entry =>
    match entry.state with
    | .closed => (true, manager)
    | .opened =>
      match entry.openedAt with
      | some openedAt =>
        -- a clock that was set back counts as no time at all
        if manager.config.openTimeout ≤ now - openedAt then
          (true, manager.modify relayAddress (.transitionToHalfOpen now))
        else (false, manager)
      | none => (false, manager)
    | .halfOpen => (decide (entry.halfOpenProbes < manager.config.maxHalfOpenProbes), manager)

def recordSuccess (now : Nat) (relayAddress : String) : CircuitBreakerManager :=
  manager.modify relayAddress (.recordSuccess manager.config now)

def recordFailure (now : Nat) (relayAddress reason : String) : CircuitBreakerManager :=
  manager.modify relayAddress (.recordFailure manager.config now reason)

def getState (relayAddress : String) : CircuitState :=
  ((manager.entries.lookup relayAddress).map (·.state)).getD .closed

def step : BreakerCall → Bool × CircuitBreakerManager
  | .allowRequest now relay => manager.allowRequest now relay
  | .recordSuccess now relay => (false, manager.recordSuccess now relay)
  | .recordFailure now relay reason => (false, manager.recordFailure now relay reason)

def granted (relay : String) : CircuitBreakerManager → List BreakerCall → Nat
  | _, [] => 0
  | manager, call :: calls =>
    (if call.asksFor relay && (manager.step call).1 then 1 else 0) + granted relay (manager.step call).2 calls

def run (config : CircuitBreakerConfig) (calls : List BreakerCall) : CircuitBreakerManager :=
  calls.foldl (fun manager call => (manager.step call).2) (.new config)

/-! ## One call -/

variable {manager} {relay : String} {entry : CircuitBreakerEntry} {call : BreakerCall}

theorem step_cases (manager : CircuitBreakerManager) (call : BreakerCall) :
    (manager.step call).2 = manager
      ∨ ∃ relay f, (manager.step call).2 = manager.modify relay f
        ∧ ((∃ now entry, call = .allowRequest now relay ∧ manager.entries.lookup relay = some entry
            ∧ entry.state = .opened ∧ f = .transitionToHalfOpen now)
          ∨ (∃ now, call = .recordSuccess now relay ∧ f = .recordSuccess manager.config now)
          ∨ ∃ now r, call = .recordFailure now relay r
            ∧ f = .recordFailure manager.config now r) := by
  cases call with
  | allowRequest now relay =>
    simp only [step, allowRequest]
    split
    case h_1 => exact .inl rfl
    case h_2 e he =>
      split
      case h_1 => exact .inl rfl
      case h_2 ho =>
        split
        · split
          · exact .inr ⟨relay, _, rfl, .inl ⟨now, e, rfl, he, ho, rfl⟩⟩
          · exact .inl rfl
        · exact .inl rfl
      case h_3 => exact .inl rfl
  | recordSuccess now relay => exact .inr ⟨relay, _, rfl, .inr (.inl ⟨now, rfl, rfl⟩)⟩
  | recordFailure now relay r => exact .inr ⟨relay, _, rfl, .inr (.inr ⟨now, r, rfl, rfl⟩)⟩

theorem step_config (manager : CircuitBreakerManager) (call : BreakerCall) :
    (manager.step call).2.config = manager.config := by
  rcases step_cases manager call with h | ⟨_, _, h, -⟩ <;> rw [h]
  rfl

theorem step_lookup_halfOpen (he : manager.entries.lookup relay = some entry) (hh : entry.state = .halfOpen)
    (hq : call.isOutcomeFor relay = false) : (manager.step call).2.entries.lookup relay = some entry := by
  rcases step_cases manager call with h | ⟨r, f, h, hc⟩
  · rwa [h]
  · have hr : relay ≠ r := by
      rintro rfl
      rcases hc with ⟨now, e, rfl, he', ho, -⟩ | ⟨now, rfl, -⟩ | ⟨now, re, rfl, -⟩
      · rw [he] at he'
        cases he'
        rw [hh] at ho
        cases ho
      · simp [BreakerCall.isOutcomeFor] at hq
      · simp [BreakerCall.isOutcomeFor] at hq
    rwa [h, modify, AList.lookup_insert_ne hr]

/-! ## A half-open breaker -/

/-- **A half-open breaker answers always the same**, until an outcome is recorded. -/
theorem granted_halfOpen {c : List BreakerCall} (he : manager.entries.lookup relay = some entry)
    (hh : entry.state = .halfOpen) (hq : ∀ call ∈ c, call.isOutcomeFor relay = false) :
    granted relay manager c
      = if entry.halfOpenProbes < manager.config.maxHalfOpenProbes then c.countP (·.asksFor relay)
        else 0 := by
  induction c generalizing manager with
  | nil => simp [granted]
  | cons call c ih =>
    rw [List.forall_mem_cons] at hq
    have ha : call.asksFor relay = true →
        (manager.step call).1 = decide (entry.halfOpenProbes < manager.config.maxHalfOpenProbes) := by
      cases call with
      | allowRequest now r =>
        intro h
        obtain rfl : r = relay := by simpa [BreakerCall.asksFor] using h
        simp [step, allowRequest, he, hh]
      | recordSuccess now r | recordFailure now r re =>
        intro h
        cases h
    rw [granted, ih (step_lookup_halfOpen he hh hq.1) hq.2, step_config, List.countP_cons]
    cases hc : call.asksFor relay with
    | false => simp
    | true =>
      rw [ha hc]
      by_cases hp : entry.halfOpenProbes < manager.config.maxHalfOpenProbes
      · simp [hp, Nat.add_comm]
      · simp only [hp, if_false, decide_false, Bool.and_false, Bool.false_eq_true]

def Unprobed (manager : CircuitBreakerManager) : Prop :=
  ∀ relay entry, manager.entries.lookup relay = some entry → entry.state ≠ .halfOpen → entry.halfOpenProbes = 0

theorem Unprobed.step (h : manager.Unprobed) (call : BreakerCall) : (manager.step call).2.Unprobed := by
  have hn (r : String) : let e := (manager.entries.lookup r).getD .new
      e.state ≠ .halfOpen → e.halfOpenProbes = 0 := by
    cases he : manager.entries.lookup r with
    | none => exact fun _ => rfl
    | some e => exact h r e he
  rcases step_cases manager call with hs | ⟨r, f, hs, hc⟩
  · rwa [hs]
  · rw [hs]
    intro relay entry he hne
    by_cases hr : relay = r
    · subst hr
      rw [modify, AList.lookup_insert, Option.some.injEq] at he
      subst he
      have hn := hn relay
      rcases hc with ⟨now, e, -, -, -, rfl⟩ | ⟨now, -, rfl⟩ | ⟨now, re, -, rfl⟩
      · exact absurd rfl hne
      · unfold CircuitBreakerEntry.recordSuccess at hne ⊢
        grind
      · unfold CircuitBreakerEntry.recordFailure at hne ⊢
        grind
    · rw [modify, AList.lookup_insert_ne hr] at he
      exact h relay entry he hne

theorem unprobed_run (c : CircuitBreakerConfig) (ca : List BreakerCall) :
    (run c ca).Unprobed ∧ (run c ca).config = c := by
  refine List.foldlRecOn (motive := fun m : CircuitBreakerManager => m.Unprobed ∧ m.config = c) ca _ ⟨?_, rfl⟩ ?_
  · intro relay entry he
    simp [new] at he
  · intro m ⟨hu, hc⟩ call _
    exact ⟨hu.step call, (step_config m call).trans hc⟩

theorem allowRequest_halfOpen {now : Nat} (hu : manager.Unprobed) (ho : manager.getState relay = .opened)
    (hh : (manager.allowRequest now relay).2.getState relay = .halfOpen) :
    (manager.allowRequest now relay).1 = true
      ∧ ∃ entry, (manager.allowRequest now relay).2.entries.lookup relay = some entry
        ∧ entry.state = .halfOpen ∧ entry.halfOpenProbes = 1 := by
  unfold getState at ho
  cases he : manager.entries.lookup relay with
  | none => simp [he] at ho
  | some entry =>
    simp only [he, Option.map_some, Option.getD_some] at ho
    have hp := hu relay entry he (by simp [ho])
    have hs : getState manager relay ≠ .halfOpen := by simp [getState, he, ho]
    unfold allowRequest at hh ⊢
    simp only [he, ho] at hh ⊢
    cases ha : entry.openedAt with
    | none =>
      simp only [ha] at hh
      exact absurd hh hs
    | some o =>
      simp only [ha] at hh ⊢
      by_cases ht : manager.config.openTimeout ≤ now - o
      · rw [if_pos ht]
        exact ⟨rfl, entry.transitionToHalfOpen now, by simp [modify, he], rfl,
          by simp [CircuitBreakerEntry.transitionToHalfOpen, hp]⟩
      · rw [if_neg ht] at hh
        exact absurd hh hs

/-- **When the probes are bounded**: exactly when `max_half_open_probes` is one. -/
theorem half_open_probes_bounded_iff (config : CircuitBreakerConfig) (hmax : 1 ≤ config.maxHalfOpenProbes)
    (past : List BreakerCall) (relay : String) (now : Nat) (ho : (run config past).getState relay = .opened)
    (hh : ((run config past).allowRequest now relay).2.getState relay = .halfOpen) :
    (∀ calls : List BreakerCall, (∀ call ∈ calls, call.isOutcomeFor relay = false) →
        granted relay (run config past) (.allowRequest now relay :: calls) ≤ config.maxHalfOpenProbes.toNat)
      ↔ config.maxHalfOpenProbes = 1 := by
  obtain ⟨hu, hc⟩ := unprobed_run config past
  obtain ⟨hg, entry, he, hs, hp⟩ := allowRequest_halfOpen hu ho hh
  have hn : ((run config past).allowRequest now relay).2.config = config :=
    (step_config _ (.allowRequest now relay)).trans hc
  have ht (calls : List BreakerCall) (hq : ∀ call ∈ calls, call.isOutcomeFor relay = false) :
      granted relay (run config past) (.allowRequest now relay :: calls)
        = 1 + if 1 < config.maxHalfOpenProbes then calls.countP (·.asksFor relay) else 0 := by
    have ha : BreakerCall.asksFor relay (.allowRequest now relay) = true := beq_self_eq_true relay
    simp only [granted, step, ha, hg, Bool.and_self, if_true]
    rw [granted_halfOpen he hs hq, hp, hn]
  rw [UInt32.le_iff_toNat_le] at hmax
  constructor
  · intro h
    by_contra hne
    have hlt : 1 < config.maxHalfOpenProbes := by
      rw [UInt32.lt_iff_toNat_lt]
      have : config.maxHalfOpenProbes.toNat ≠ 1 := fun hm => hne (UInt32.toNat_inj.mp hm)
      simp at hmax ⊢
      omega
    -- one request more than there may be probes
    have hq : ∀ call ∈ List.replicate config.maxHalfOpenProbes.toNat (BreakerCall.allowRequest now relay),
        call.isOutcomeFor relay = false := by
      intro call hc
      rw [(List.mem_replicate.mp hc).2]
      rfl
    have hb := h _ hq
    rw [ht _ hq, if_pos hlt, List.countP_replicate] at hb
    simp only [BreakerCall.asksFor, beq_self_eq_true, if_true] at hb
    omega
  · intro h calls hq
    rw [ht calls hq, h]
    simp

def relayFailures : List BreakerCall :=
  [.recordFailure 0 "relay" "timeout", .recordFailure 0 "relay" "timeout", .recordFailure 0 "relay" "timeout"]

theorem single_probe_bounded :
    granted "relay" (run { CircuitBreakerConfig.default with maxHalfOpenProbes := 1 } relayFailures)
      [.allowRequest 300 "relay", .allowRequest 301 "relay", .allowRequest 302 "relay"] ≤ 1 :=
  (half_open_probes_bounded_iff { CircuitBreakerConfig.default with maxHalfOpenProbes := 1 } (by decide)
    relayFailures "relay" 300 (by decide +kernel) (by decide +kernel)).mpr rfl _ (by decide +kernel)

/-- With the default configuration, which allows three probes, four requests are let through. -/
theorem four_probes_granted : (run .default relayFailures).getState "relay" = .opened
    ∧ ((run .default relayFailures).allowRequest 300 "relay").2.getState "relay" = .halfOpen
    ∧ granted "relay" (run .default relayFailures) (List.replicate 4 (.allowRequest 300 "relay")) = 4
    ∧ CircuitBreakerConfig.default.maxHalfOpenProbes.toNat = 3 := by
  decide +kernel

end CircuitBreakerManager

end SCMessenger
