import SCMessenger.Lib.SlidingWindow
import SCMessenger.Lib.Table

/-!
# The limit on sync requests

For each peer the limiter of `drift/rate_limit.rs` keeps the times of the requests it allowed, without those
that no longer count.  The difference of two instants is zero if the later one comes first.
-/

namespace SCMessenger

open SlidingWindow

/-- The times of each peer's last requests. -/
structure SyncRateLimiter where
  limits : Table String (List Nat)
  window : Nat
  maxPerWindow : Nat

/-- What may be called. -/
inductive SyncCall where
  | allowSync (peerId : String)
  | cleanupExpired
deriving DecidableEq

/-- A request and what was answered. -/
structure SyncAnswer where
  peerId : String
  now : Nat
  allowed : Bool
deriving DecidableEq

namespace SyncRateLimiter

def new (window maxPerWindow : Nat) : SyncRateLimiter := ⟨∅, window, maxPerWindow⟩

def timestamps (limiter : SyncRateLimiter) (peerId : String) : List Nat := (limiter.limits.lookup peerId).getD []

def record (limiter : SyncRateLimiter) (peerId : String) (times : List Nat) : SyncRateLimiter :=
  { limiter with limits := limiter.limits.insert peerId times }

def allowSyncAt (limiter : SyncRateLimiter) (peerId : String) (now : Nat) : Bool × SyncRateLimiter :=
  let times := live limiter.window now (limiter.timestamps peerId)
  -- a request that is denied has pruned the times nevertheless
  if limiter.maxPerWindow ≤ times.length then (false, limiter.record peerId times)
  else (true, limiter.record peerId (times ++ [now]))

def cleanupExpired (limiter : SyncRateLimiter) (now : Nat) : SyncRateLimiter :=
  { limiter with
    limits := limiter.limits.filterMapValues fun times =>
      let times := live limiter.window now times
      if times.isEmpty then none else some times }

def answers (limiter : SyncRateLimiter) : List (Nat × SyncCall) → List SyncAnswer
  | [] => []
  | (now, .allowSync peerId) :: rest =>
    ⟨peerId, now, (limiter.allowSyncAt peerId now).1⟩ :: answers (limiter.allowSyncAt peerId now).2 rest
  | (now, .cleanupExpired) :: rest => answers (limiter.cleanupExpired now) rest

/-! ## Keeping everything -/

def granted (past : List SyncAnswer) (peerId : String) : List Nat :=
  (past.filter fun a => a.peerId = peerId && a.allowed).map SyncAnswer.now

/-- Whether fewer than the limit were allowed in the window before. -/
def expectedAnswer (window maxPerWindow : Nat) (past : List SyncAnswer) (peerId : String) (now : Nat) : SyncAnswer :=
  ⟨peerId, now, decide ((live window now (granted past peerId)).length < maxPerWindow)⟩

def expected (window maxPerWindow : Nat) : List SyncAnswer → List (Nat × SyncCall) → List SyncAnswer
  | _, [] => []
  | past, (now, .allowSync peerId) :: rest =>
    expectedAnswer window maxPerWindow past peerId now
      :: expected window maxPerWindow (past ++ [expectedAnswer window maxPerWindow past peerId now]) rest
  | past, (_, .cleanupExpired) :: rest => expected window maxPerWindow past rest

/-! ## The limiter and what it forgot -/

variable {limiter : SyncRateLimiter} {past : List SyncAnswer} {calls : List (Nat × SyncCall)} {now : Nat}
  {peerId : String}

theorem timestamps_record (limiter : SyncRateLimiter) (peerId o : String) (t : List Nat) :
    (limiter.record peerId t).timestamps o = if o = peerId then t else limiter.timestamps o := by
  unfold timestamps record
  by_cases hp : o = peerId
  · subst hp
    simp
  · simp [hp]

theorem timestamps_cleanupExpired (limiter : SyncRateLimiter) (now : Nat) (peerId : String) :
    (limiter.cleanupExpired now).timestamps peerId = live limiter.window now (limiter.timestamps peerId) := by
  unfold timestamps cleanupExpired
  rw [Table.lookup_filterMapValues]
  cases limiter.limits.lookup peerId with
  | none => rfl
  | some t =>
    simp only [Option.bind_some, Option.getD_some]
    split
    · rename_i he
      exact (List.isEmpty_iff.mp he).symm
    · rfl

theorem granted_append (past m : List SyncAnswer) (peerId : String) :
    granted (past ++ m) peerId = granted past peerId ++ granted m peerId := by
  simp [granted]

def Remembers (limiter : SyncRateLimiter) (now : Nat) (past : List SyncAnswer) : Prop :=
  ∀ peerId, Agrees limiter.window now (limiter.timestamps peerId) (granted past peerId)

variable (window maxPerWindow : Nat)

theorem remembers_new (now : Nat) : (new window maxPerWindow).Remembers now [] :=
  fun _ => Agrees.refl _ _ _

theorem Remembers.later {now' : Nat} (h : limiter.Remembers now past) (hl : now ≤ now') :
    limiter.Remembers now' past :=
  fun peerId => (h peerId).later hl

theorem Remembers.cleanupExpired (h : limiter.Remembers now past) :
    (limiter.cleanupExpired now).Remembers now past := by
  intro peerId
  rw [timestamps_cleanupExpired]
  exact (h peerId).prune

/-- **A request is answered as expected, and remembered.** -/
theorem Remembers.allowSyncAt (h : limiter.Remembers now past) (peerId : String) :
    (limiter.allowSyncAt peerId now).1
        = (expectedAnswer limiter.window limiter.maxPerWindow past peerId now).allowed
      ∧ (limiter.allowSyncAt peerId now).2.window = limiter.window
      ∧ (limiter.allowSyncAt peerId now).2.maxPerWindow = limiter.maxPerWindow
      ∧ (limiter.allowSyncAt peerId now).2.Remembers now
          (past ++ [expectedAnswer limiter.window limiter.maxPerWindow past peerId now]) := by
  have hl := (h peerId).live_eq
  by_cases hf : limiter.maxPerWindow ≤ (live limiter.window now (limiter.timestamps peerId)).length
  · have hd : (live limiter.window now (granted past peerId)).length < limiter.maxPerWindow ↔ False := by
      rw [← hl]
      simpa using hf
    rw [SyncRateLimiter.allowSyncAt, if_pos hf, expectedAnswer, decide_eq_false hd.mp]
    refine ⟨rfl, rfl, rfl, fun other => ?_⟩
    rw [timestamps_record, granted_append, show granted [⟨peerId, now, false⟩] other = [] by simp [granted],
      List.append_nil]
    show Agrees limiter.window _ _ _
    split
    case isTrue hpeer => exact hpeer ▸ (h peerId).prune
    case isFalse hpeer => exact h other
  · have ha : (live limiter.window now (granted past peerId)).length < limiter.maxPerWindow := by
      rw [← hl]
      omega
    rw [SyncRateLimiter.allowSyncAt, if_neg hf, expectedAnswer, decide_eq_true ha]
    refine ⟨rfl, rfl, rfl, fun other => ?_⟩
    rw [timestamps_record, granted_append]
    show Agrees limiter.window _ _ _
    split
    case isTrue hpeer =>
      subst hpeer
      rw [show granted [⟨other, now, true⟩] other = [now] by simp [granted]]
      exact (h other).prune.push now
    case isFalse hpeer =>
      rw [show granted [⟨peerId, now, true⟩] other = [] by simp [granted, Ne.symm hpeer], List.append_nil]
      exact h other

/-- **The limiter answers like one that forgets nothing**, if time does not go back. -/
theorem answers_eq_expected (h : limiter.Remembers now past) (hn : ∀ c ∈ calls, now ≤ c.1)
    (hs : (calls.map Prod.fst).Pairwise (· ≤ ·)) :
    limiter.answers calls = expected limiter.window limiter.maxPerWindow past calls := by
  induction calls generalizing limiter past now with
  | nil => rfl
  | cons c r ih =>
    obtain ⟨t, call⟩ := c
    rw [List.map_cons, List.pairwise_cons] at hs
    have hl : ∀ c ∈ r, t ≤ c.1 := fun c hc => hs.1 _ (List.mem_map_of_mem hc)
    have ht := h.later (hn _ List.mem_cons_self)
    cases call with
    | allowSync peerId =>
      obtain ⟨ha, hw, hm, hnx⟩ := ht.allowSyncAt peerId
      rw [answers, expected, ih hnx hl hs.2, hw, hm, ha]
      rfl
    | cleanupExpired =>
      rw [answers, expected, ih ht.cleanupExpired hl hs.2]
      rfl

/-! ## What is expected -/

theorem allowed_of_expected {window maxPerWindow : Nat} {be l : List SyncAnswer} {a : SyncAnswer}
    (h : expected window maxPerWindow past calls = be ++ a :: l) :
    a.allowed = decide ((live window a.now (granted (past ++ be) a.peerId)).length < maxPerWindow) := by
  induction calls generalizing past be with
  | nil => simp [expected] at h
  | cons c r ih =>
    obtain ⟨t, call⟩ := c
    cases call with
    | allowSync peerId =>
      rw [expected] at h
      cases be with
      | nil =>
        obtain ⟨rfl, -⟩ := List.cons.inj h
        rw [List.append_nil]
        rfl
      | cons b be =>
        obtain ⟨rfl, hr⟩ := List.cons.inj h
        rw [ih hr, List.append_assoc, List.singleton_append]
    | cleanupExpired =>
      rw [expected] at h
      exact ih h

theorem expected_without_cleanup (past : List SyncAnswer) (calls : List (Nat × SyncCall)) :
    expected window maxPerWindow past (calls.filter fun c => c.2 ≠ .cleanupExpired)
      = expected window maxPerWindow past calls := by
  induction calls generalizing past with
  | nil => rfl
  | cons c r ih =>
    obtain ⟨t, call⟩ := c
    cases call with
    | allowSync peerId =>
      rw [List.filter_cons_of_pos (by simp), expected, expected, ih]
    | cleanupExpired =>
      rw [List.filter_cons_of_neg (by simp), expected, ih]

theorem granted_filter (past : List SyncAnswer) (peerId : String) :
    granted (past.filter fun a => a.peerId = peerId) peerId = granted past peerId := by
  rw [granted, granted, List.filter_filter]
  congr 2
  funext a
  by_cases h : a.peerId = peerId <;> simp [h]

theorem expected_filter (peerId : String) (past : List SyncAnswer) (calls : List (Nat × SyncCall)) :
    (expected window maxPerWindow past calls).filter (fun a => a.peerId = peerId)
      = expected window maxPerWindow (past.filter fun a => a.peerId = peerId)
          (calls.filter fun c => c.2 = .allowSync peerId) := by
  induction calls generalizing past with
  | nil => rfl
  | cons c r ih =>
    obtain ⟨t, call⟩ := c
    cases call with
    | allowSync other =>
      by_cases hp : other = peerId
      · subst hp
        have hs : expectedAnswer window maxPerWindow (past.filter fun a => a.peerId = other) other t
            = expectedAnswer window maxPerWindow past other t := by
          rw [expectedAnswer, granted_filter, expectedAnswer]
        rw [List.filter_cons_of_pos (by simp), expected, expected, List.filter_cons_of_pos (by simp [expectedAnswer]),
          ih, List.filter_append, hs, List.filter_cons_of_pos (by simp [expectedAnswer]), List.filter_nil]
      · rw [List.filter_cons_of_neg (by simpa using hp), expected,
          List.filter_cons_of_neg (by simp [expectedAnswer, hp]), ih, List.filter_append,
          List.filter_cons_of_neg (by simp [expectedAnswer, hp]), List.filter_nil, List.append_nil]
    | cleanupExpired =>
      rw [List.filter_cons_of_neg (by simp), expected, ih]

/-- **The limit on sync requests** counts a peer's own requests in the window and nothing else. -/
theorem sync_limit (window maxPerWindow : Nat) {calls : List (Nat × SyncCall)}
    (hsorted : (calls.map Prod.fst).Pairwise (· ≤ ·)) :
    (∀ before a later, (new window maxPerWindow).answers calls = before ++ a :: later →
        (a.allowed = true ↔ (live window a.now (granted before a.peerId)).length < maxPerWindow))
      ∧ (new window maxPerWindow).answers (calls.filter fun c => c.2 ≠ .cleanupExpired)
          = (new window maxPerWindow).answers calls
      ∧ ∀ peerId, ((new window maxPerWindow).answers calls).filter (fun a => a.peerId = peerId)
          = (new window maxPerWindow).answers (calls.filter fun c => c.2 = .allowSync peerId) := by
  have he : ∀ some : List (Nat × SyncCall), (some.map Prod.fst).Pairwise (· ≤ ·) →
      (new window maxPerWindow).answers some = expected window maxPerWindow [] some :=
    fun some hs => answers_eq_expected (remembers_new window maxPerWindow 0) (fun c _ => Nat.zero_le c.1) hs
  have hf (p : Nat × SyncCall → Bool) : ((calls.filter p).map Prod.fst).Pairwise (· ≤ ·) :=
    hsorted.sublist (List.filter_sublist.map Prod.fst)
  rw [he calls hsorted]
  refine ⟨?_, ?_, ?_⟩
  · intro before a later h
    rw [allowed_of_expected h, List.nil_append, decide_eq_true_eq]
  · rw [he _ (hf _), expected_without_cleanup]
  · intro peerId
    rw [he _ (hf _), expected_filter]
    rfl

/-- The second request of a peer comes too soon, and one after the window does not. -/
theorem sync_limit_sample :
    ((new 10 1).answers [(0, .allowSync "a"), (3, .allowSync "b"), (5, .allowSync "a"), (7, .cleanupExpired),
        (10, .allowSync "a")]).filter (fun a => a.peerId = "a")
      = [⟨"a", 0, true⟩, ⟨"a", 5, false⟩, ⟨"a", 10, true⟩] := by
  rw [(sync_limit 10 1 (by decide)).2.2 "a"]
  decide

end SyncRateLimiter

end SCMessenger
