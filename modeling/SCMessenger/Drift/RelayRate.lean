import SCMessenger.Drift.RelayFrame
import SCMessenger.Lib.FixedWindow

/-!
# The hourly relay limit

`check_rate_limit` over runs whose clock readings are arbitrary.  The two numbers the engine keeps are a
`FixedWindow`, whose subtraction underflows if the clock was set back to before it.
-/

namespace SCMessenger

/-- One call: its clock, the envelope and its sender, and who is held for abusive then. -/
structure RelayCall where
  clock : RelayClock
  data : Bytes
  sender : Option String
  abusive : String → Bool

namespace RelayEngine

def call (lz4 : Lz4) (engine : RelayEngine) (c : RelayCall) : Outcome DriftError RelayDecision × RelayEngine :=
  engine.processIncomingFrom lz4 c.abusive c.clock c.data c.sender

def after (lz4 : Lz4) (engine : RelayEngine) (c : RelayCall) : RelayEngine := (engine.call lz4 c).2

def looksAtRate (lz4 : Lz4) (engine : RelayEngine) (c : RelayCall) : Bool :=
  match DriftEnvelope.fromBytes lz4 c.data with
  | .ok e => (engine.route c.clock.now (c.sender.any c.abusive) e).isNone && !e.isCoverTraffic
  | _ => false

def passesOn (lz4 : Lz4) (engine : RelayEngine) (c : RelayCall) : Bool :=
  match DriftEnvelope.fromBytes lz4 c.data, (engine.call lz4 c).1 with
  | .ok e, .ok (.storeAndRelay _) => !e.isCoverTraffic
  | _, _ => false

/-- The clock readings, in milliseconds, of the calls of a run that get as far as the rate limit. -/
def lookTimes (lz4 : Lz4) : RelayEngine → List RelayCall → List Nat
  | _, [] => []
  | engine, c :: rest =>
    if engine.looksAtRate lz4 c then c.clock.nowMillis.toNat :: lookTimes lz4 (engine.after lz4 c) rest
    else lookTimes lz4 (engine.after lz4 c) rest

/-- The clock readings of the calls of a run that pass on an envelope that is not cover traffic. -/
def relayTimes (lz4 : Lz4) : RelayEngine → List RelayCall → List Nat
  | _, [] => []
  | engine, c :: rest =>
    if engine.passesOn lz4 c then c.clock.nowMillis.toNat :: relayTimes lz4 (engine.after lz4 c) rest
    else relayTimes lz4 (engine.after lz4 c) rest

def NeverUnderflows (lz4 : Lz4) : RelayEngine → List RelayCall → Prop
  | _, [] => True
  | engine, c :: rest =>
    (engine.looksAtRate lz4 c = true → engine.hourStart ≤ c.clock.nowMillis)
      ∧ NeverUnderflows lz4 (engine.after lz4 c) rest

def window (engine : RelayEngine) : FixedWindow := ⟨engine.relayCountThisHour.toNat, engine.hourStart.toNat⟩

/-- The limit is kept in every hour, and nothing underflows. -/
structure RateLaw (lz4 : Lz4) (engine : RelayEngine) (calls : List RelayCall) : Prop where
  neverUnderflows : engine.NeverUnderflows lz4 calls
  perHour : ∀ a, FixedWindow.within hourMillis.toNat a (engine.relayTimes lz4 calls)
    ≤ engine.config.maxRelayPerHour.toNat

variable {lz4 : Lz4} {engine : RelayEngine} {c : RelayCall} {calls : List RelayCall} {e : DriftEnvelope}

/-! ## One call -/

theorem looksAtRate_iff :
    engine.looksAtRate lz4 c = true ↔ ∃ e, DriftEnvelope.fromBytes lz4 c.data = .ok e
      ∧ engine.Passes c.clock.now (c.sender.any c.abusive) e ∧ e.isCoverTraffic = false := by
  unfold looksAtRate
  cases DriftEnvelope.fromBytes lz4 c.data with
  | ok e => simp [← route_eq_none_iff]
  | err x => simp
  | panicked => simp

theorem called (lz4 : Lz4) (engine : RelayEngine) (c : RelayCall) :
    Processed lz4 engine c.clock (c.sender.any c.abusive) c.data (engine.call lz4 c).1 (engine.after lz4 c) :=
  processed lz4 c.abusive engine c.clock c.data c.sender

theorem after_config (lz4 : Lz4) (engine : RelayEngine) (c : RelayCall) :
    (engine.after lz4 c).config = engine.config := by
  have hc := called lz4 engine c
  generalize (engine.call lz4 c).1 = re at hc
  generalize engine.after lz4 c = after at hc ⊢
  cases hc with
  | relayed parse p r => exact (counting_frame _ _ _).1
  | limited parse p r => exact (counting_frame _ _ _).1
  | unchanged none k => rfl

variable {now : UInt64}

theorem window_checkRateLimit (hst : engine.hourStart ≤ now) :
    (engine.checkRateLimit now).window = engine.window.look hourMillis.toNat now.toNat := by
  have hs : (now - engine.hourStart).toNat = now.toNat - engine.hourStart.toNat := UInt64.toNat_sub_of_le _ _ hst
  unfold checkRateLimit FixedWindow.look
  by_cases ho : hourMillis < now - engine.hourStart
  · have hl := UInt64.lt_iff_toNat_lt.mp ho
    rw [hs] at hl
    rw [if_pos ho, if_pos (show _ < now.toNat - engine.window.start from hl)]
    rfl
  · have hle := Nat.not_lt.mpr (UInt64.le_iff_toNat_le.mp (UInt64.not_lt.mp ho))
    rw [hs] at hle
    rw [if_neg ho, if_neg (show ¬ _ < now.toNat - engine.window.start from hle)]

theorem overRate_iff (hc : e.isCoverTraffic = false) (hl : 0 < engine.config.maxRelayPerHour) :
    engine.overRate e = true ↔ ¬ engine.window.used < engine.config.maxRelayPerHour.toNat := by
  simp only [overRate, hc, hl, decide_true, Bool.not_false, Bool.and_self, Bool.true_and,
    decide_eq_true_eq, Nat.not_lt]
  exact UInt32.le_iff_toNat_le

/-- **A call that looks at the rate limit is an attempt at its window**, unless it underflows. -/
theorem after_of_looks (hl : 0 < engine.config.maxRelayPerHour)
    (hlo : engine.looksAtRate lz4 c = true) (hs : engine.hourStart ≤ c.clock.nowMillis) :
    engine.window.attempt hourMillis.toNat engine.config.maxRelayPerHour.toNat c.clock.nowMillis.toNat
      = (engine.passesOn lz4 c, (engine.after lz4 c).window) := by
  obtain ⟨e, hp, hpa, hc⟩ := looksAtRate_iff.mp hlo
  have hcn : engine.counting c.clock.nowMillis e = engine.checkRateLimit c.clock.nowMillis := by
    rw [counting, hc, if_neg Bool.false_ne_true]
  have hcf : (engine.counting c.clock.nowMillis e).config = engine.config := (counting_frame _ _ _).1
  rw [FixedWindow.attempt, ← window_checkRateLimit hs, ← hcn]
  rw [← hcf] at hl ⊢
  have ho := overRate_iff hc hl
  have hca := called lz4 engine c
  simp only [passesOn, hp]
  generalize (engine.call lz4 c).1 = re at hca ⊢
  generalize engine.after lz4 c = after at hca ⊢
  cases hca with
  | @relayed x parse _ r =>
    rw [hp] at parse
    cases parse
    have hr : (engine.counting c.clock.nowMillis e).window.used
        < (engine.counting c.clock.nowMillis e).config.maxRelayPerHour.toNat := by
      by_contra hnot
      rw [ho.mpr hnot] at r
      cases r
    have hsm := (engine.counting c.clock.nowMillis e).config.maxRelayPerHour.toNat_lt
    rw [FixedWindow.take, if_pos hr]
    simp only [hc, relayed, window, Bool.not_false, Bool.false_eq_true, if_false, Prod.mk.injEq, true_and,
      FixedWindow.mk.injEq, and_true]
    rw [UInt32.toNat_add, Nat.mod_eq_of_lt]
    · rfl
    · exact Nat.lt_of_le_of_lt hr hsm
  | @limited x parse _ r =>
    rw [hp] at parse
    cases parse
    rw [FixedWindow.take, if_neg (ho.mp r)]
  | unchanged none k => exact absurd hpa (none e hp)

theorem hourStart_after (hl : 0 < engine.config.maxRelayPerHour)
    (hlo : engine.looksAtRate lz4 c = true) (hs : engine.hourStart ≤ c.clock.nowMillis)
    (ho : hourMillis < c.clock.nowMillis - engine.hourStart) :
    (engine.after lz4 c).hourStart = c.clock.nowMillis := by
  have hsp := congrArg Prod.snd (after_of_looks hl hlo hs)
  have hlt := UInt64.lt_iff_toNat_lt.mp ho
  rw [UInt64.toNat_sub_of_le _ _ hs] at hlt
  rw [FixedWindow.attempt_of_lt hlt] at hsp
  apply UInt64.toNat_inj.mp
  calc (engine.after lz4 c).hourStart.toNat = (engine.after lz4 c).window.start := rfl
    _ = _ := (congrArg FixedWindow.start hsp).symm
    _ = c.clock.nowMillis.toNat := FixedWindow.take_start _ _

theorem after_of_not_looks (hl : engine.looksAtRate lz4 c = false) :
    engine.passesOn lz4 c = false ∧ (engine.after lz4 c).window = engine.window := by
  have hco : ∀ e, DriftEnvelope.fromBytes lz4 c.data = .ok e →
      engine.Passes c.clock.now (c.sender.any c.abusive) e → e.isCoverTraffic = true := by
    intro e hpa hp
    by_contra hnot
    rw [looksAtRate_iff.mpr ⟨e, hpa, hp, Bool.eq_false_iff.mpr hnot⟩] at hl
    cases hl
  have hc := called lz4 engine c
  rw [passesOn]
  generalize (engine.call lz4 c).1 = re at hc ⊢
  generalize engine.after lz4 c = after at hc ⊢
  cases hc with
  | relayed parse p r =>
    have h := hco _ parse p
    simp [parse, h, window, relayed, counting]
  | limited parse p r =>
    have h := hco _ parse p
    simp [overRate, h] at r
  | unchanged none k =>
    refine ⟨?_, rfl⟩
    split
    · exact absurd rfl (k _)
    · rfl

/-! ## Runs -/

theorem lookTimes_sublist (lz4 : Lz4) (engine : RelayEngine) (calls : List RelayCall) :
    (engine.lookTimes lz4 calls).Sublist (calls.map fun c => c.clock.nowMillis.toNat) := by
  induction calls generalizing engine with
  | nil => exact .slnil
  | cons c r ih =>
    rw [lookTimes, List.map_cons]
    split
    · exact (ih _).cons_cons _
    · exact (ih _).cons _

/-- A run whose window is never ahead of the clock passes on what the window grants. -/
theorem relayTimes_eq (hli : 0 < engine.config.maxRelayPerHour)
    (ha : FixedWindow.NeverBehind hourMillis.toNat engine.config.maxRelayPerHour.toNat engine.window
      (engine.lookTimes lz4 calls)) :
    engine.NeverUnderflows lz4 calls
      ∧ engine.relayTimes lz4 calls = FixedWindow.granted hourMillis.toNat engine.config.maxRelayPerHour.toNat
        engine.window (engine.lookTimes lz4 calls) := by
  induction calls generalizing engine with
  | nil => exact ⟨trivial, rfl⟩
  | cons c r ih =>
    have hc := after_config lz4 engine c
    rw [lookTimes] at ha ⊢
    rw [relayTimes]
    by_cases hl : engine.looksAtRate lz4 c = true
    · rw [if_pos hl] at ha ⊢
      have hs : engine.hourStart ≤ c.clock.nowMillis := UInt64.le_iff_toNat_le.mpr ha.1
      have hsp := after_of_looks hli hl hs
      have hr := ha.2
      rw [hsp, ← hc] at hr
      obtain ⟨hn, ht⟩ := ih (hc ▸ hli) hr
      refine ⟨⟨fun _ => hs, hn⟩, ?_⟩
      rw [FixedWindow.granted, hsp, ht, hc]
    · rw [if_neg hl] at ha ⊢
      obtain ⟨hno, hsa⟩ := after_of_not_looks (Bool.eq_false_iff.mpr hl)
      rw [← hsa, ← hc] at ha
      obtain ⟨hn, ht⟩ := ih (hc ▸ hli) ha
      refine ⟨⟨fun h => absurd h hl, hn⟩, ?_⟩
      rw [hno, if_neg Bool.false_ne_true, ht, hsa, hc]

theorem rateLaw_of_within (hl : 0 < engine.config.maxRelayPerHour)
    (hti : ∀ c ∈ calls, engine.hourStart ≤ c.clock.nowMillis
      ∧ c.clock.nowMillis - engine.hourStart ≤ hourMillis) : engine.RateLaw lz4 calls := by
  have hw : ∀ t ∈ engine.lookTimes lz4 calls,
      engine.window.start ≤ t ∧ t - engine.window.start ≤ hourMillis.toNat := by
    intro t ht
    obtain ⟨c, hc, rfl⟩ := List.mem_map.mp ((lookTimes_sublist lz4 engine calls).subset ht)
    obtain ⟨hs, hh⟩ := hti c hc
    have hh := UInt64.le_iff_toNat_le.mp hh
    rw [UInt64.toNat_sub_of_le _ _ hs] at hh
    exact ⟨UInt64.le_iff_toNat_le.mp hs, hh⟩
  obtain ⟨hn, hg⟩ := relayTimes_eq hl (FixedWindow.neverBehind_of_within hw)
  refine ⟨hn, fun a => ?_⟩
  rw [hg]
  calc FixedWindow.within _ a _ ≤ _ := List.countP_le_length
    _ ≤ _ := FixedWindow.granted_length_le fun t ht => (hw t ht).2
    _ ≤ _ := Nat.sub_le _ _

theorem rateLaw_of_eq (hl : 0 < engine.config.maxRelayPerHour) (hs : engine.hourStart ≤ now)
    (hti : ∀ c ∈ calls, c.clock.nowMillis = now) : engine.RateLaw lz4 calls := by
  have he : ∀ t ∈ engine.lookTimes lz4 calls, t = now.toNat := by
    intro t ht
    obtain ⟨c, hc, rfl⟩ := List.mem_map.mp ((lookTimes_sublist lz4 engine calls).subset ht)
    exact congrArg UInt64.toNat (hti c hc)
  have hso : (engine.lookTimes lz4 calls).Pairwise (· ≤ ·) :=
    List.pairwise_of_forall_mem_list fun t ht u hu => by
      rw [he t ht, he u hu]
  have hf : ∀ t ∈ engine.lookTimes lz4 calls, engine.window.start ≤ t := fun t ht => by
    rw [he t ht]
    exact UInt64.le_iff_toNat_le.mp hs
  obtain ⟨hn, hg⟩ := relayTimes_eq hl (FixedWindow.neverBehind_of_sorted hf hso)
  refine ⟨hn, fun a => ?_⟩
  rw [hg]
  exact Nat.le_trans (List.countP_le_length) (FixedWindow.granted_length_le_of_eq he)

/-! ## Clocks that are set back -/

theorem passes_after {s : Bool} (h : engine.Passes now s e)
    (ho : ∀ x, DriftEnvelope.fromBytes lz4 c.data = .ok x → x.messageId ≠ e.messageId) :
    (engine.after lz4 c).Passes now s e := by
  have hca := called lz4 engine c
  generalize (engine.call lz4 c).1 = re at hca
  generalize engine.after lz4 c = after at hca ⊢
  cases hca with
  | @relayed x parse p r =>
    obtain ⟨hc, hs, hh⟩ := engine.counting_frame c.clock.nowMillis x
    have hn : (engine.relayed c.clock c.data x).store.contains e.messageId = false := by
      by_contra hin
      obtain ⟨y, hy⟩ := Option.isSome_iff_exists.mp (Bool.eq_true_of_not_eq_false hin)
      have hp := MeshStore.get_of_get_evict hy
      rw [MeshStore.get_put,
        if_neg (show e.messageId ≠ (x.stored c.data c.clock.receivedAt).messageId from (ho x parse).symm),
        MeshStore.get_eq_none h.new] at hp
      cases hp
    exact ⟨h.trusted, h.fresh, hn, hh ▸ h.forOthers, hs.trans h.active, hc ▸ h.hops,
      hc ▸ h.urgent⟩
  | @limited x parse p r =>
    obtain ⟨hc, hs, hh⟩ := engine.counting_frame c.clock.nowMillis x
    have hst : (engine.counting c.clock.nowMillis x).store = engine.store := counting_store _ _
    exact ⟨h.trusted, h.fresh, hst ▸ h.new, hh ▸ h.forOthers, hs.trans h.active, hc ▸ h.hops,
      hc ▸ h.urgent⟩
  | unchanged none k => exact h

def numbered (n : UInt8) : DriftEnvelope :=
  { DriftEnvelope.extendedEnvelope with compressed := false, messageId := Arr.fit 16 [n] }

def numberedBytes (n : UInt8) : Bytes :=
  (numbered n).headerBytes ++ (numbered n).signature.1 ++ leBytes 2 1 ++ [42] ++ (numbered n).ratchetBytes
    ++ (numbered n).pqBytes

def callAt (n : UInt8) (now : UInt64) : RelayCall :=
  ⟨⟨0, now, 0, fun _ _ _ => .eq⟩, numberedBytes n, none, fun _ => false⟩

def joined (hourStart : UInt64) (limit : UInt32) : RelayEngine :=
  ⟨.active, { maxRelayPerHour := limit }, MeshStore.new, Arr.fit 4 [1], 0, hourStart⟩

theorem fromBytes_numberedBytes (lz4 : Lz4) (n : UInt8) :
    DriftEnvelope.fromBytes lz4 (numberedBytes n) = .ok (numbered n) := by
  have hn : (numbered n).WireNormal := { DriftEnvelope.extendedEnvelope_normal with }
  exact DriftEnvelope.fromBytes_toBytes_of_read rfl hn
    (DriftEnvelope.toBytes_eq_ok.mpr ⟨(by decide : 1 ≤ DriftEnvelope.maxCiphertext), rfl⟩)

theorem joined_passes (s : UInt64) (l : UInt32) (n : UInt8) :
    (joined s l).Passes 0 false (numbered n) where
  trusted := rfl
  fresh := rfl
  new := rfl
  forOthers := show Arr.fit 4 [] ≠ Arr.fit 4 [1] by decide
  active := rfl
  hops := show (0 : UInt8) < 16 by decide
  urgent := show (0 : UInt8) ≤ 128 by decide

theorem joined_looks (lz4 : Lz4) (s : UInt64) (l : UInt32) (n : UInt8) (now : UInt64) :
    (joined s l).looksAtRate lz4 (callAt n now) = true :=
  looksAtRate_iff.mpr ⟨numbered n, fromBytes_numberedBytes lz4 n, joined_passes s l n, rfl⟩

theorem joined_looks_again (lz4 : Lz4) (s : UInt64) (l : UInt32) (now now' : UInt64) :
    ((joined s l).after lz4 (callAt 1 now)).looksAtRate lz4 (callAt 2 now') = true := by
  refine looksAtRate_iff.mpr ⟨numbered 2, fromBytes_numberedBytes lz4 2, ?_, rfl⟩
  refine passes_after (joined_passes s l 2) fun x hx => ?_
  rw [show (callAt 1 now).data = numberedBytes 1 from rfl, fromBytes_numberedBytes] at hx
  cases hx
  decide

theorem joined_underflows (lz4 : Lz4) {s now' : UInt64} {l : UInt32} (hl : 0 < l)
    (hs : s ≤ now) (ho : hourMillis < now - s) (hb : now' < now) :
    ¬ (joined s l).NeverUnderflows lz4 [callAt 1 now, callAt 2 now'] := by
  rintro ⟨-, hse, -⟩
  have hle := hse (joined_looks_again lz4 s l now now')
  rw [hourStart_after hl (joined_looks lz4 s l 1 now) hs ho] at hle
  exact UInt64.not_lt.mpr hle hb

/-- **The limit holds for every run exactly if the clock cannot leave the hour** or be read twice. -/
theorem rate_law_iff (lz4 : Lz4) {limit : UInt32} (hlimit : 0 < limit) (start : UInt64)
    (readings : Set UInt64) :
    (∀ (engine : RelayEngine) (calls : List RelayCall), engine.config.maxRelayPerHour = limit →
        engine.hourStart = start → (∀ c ∈ calls, c.clock.nowMillis ∈ readings) → engine.RateLaw lz4 calls)
      ↔ (∀ t ∈ readings, start ≤ t)
        ∧ ((∀ t ∈ readings, t - start ≤ hourMillis) ∨ readings.Subsingleton) := by
  constructor
  · intro hla
    have hl : ∀ t ∈ readings, start ≤ t := by
      intro t ht
      have hru := hla (joined start limit) [callAt 1 t] rfl rfl (by simpa [callAt] using ht)
      exact hru.neverUnderflows.1 (joined_looks lz4 start limit 1 t)
    refine ⟨hl, ?_⟩
    by_cases hs : ∀ t ∈ readings, t - start ≤ hourMillis
    · exact .inl hs
    · obtain ⟨t, ht, hlo⟩ : ∃ t ∈ readings, ¬ t - start ≤ hourMillis := by
        by_contra hn
        exact hs fun t ht => by_contra fun hlo => hn ⟨t, ht, hlo⟩
      have ho := UInt64.not_le.mp hlo
      -- the later of two readings starts a new hour, and the earlier one comes after it
      have hb : ∀ u ∈ readings, ∀ v ∈ readings, hourMillis < u - start → u ≤ v := by
        intro u hu v hv ho
        by_contra hlt
        have hru := hla (joined start limit) [callAt 1 u, callAt 2 v] rfl rfl (by simp [callAt, hu, hv])
        exact joined_underflows lz4 hlimit (hl u hu) ho (UInt64.not_le.mp hlt) hru.neverUnderflows
      have hon : ∀ u ∈ readings, u = t := by
        intro u hu
        have hle := hb t ht u hu ho
        have ho' : hourMillis < u - start := by
          rw [UInt64.lt_iff_toNat_lt, UInt64.toNat_sub_of_le _ _ (hl _ hu)]
          rw [UInt64.lt_iff_toNat_lt, UInt64.toNat_sub_of_le _ _ (hl _ ht)] at ho
          exact Nat.lt_of_lt_of_le ho (Nat.sub_le_sub_right (UInt64.le_iff_toNat_le.mp hle) _)
        exact UInt64.le_antisymm (hb u hu t ht ho') hle
      exact .inr fun u hu v hv => (hon u hu).trans (hon v hv).symm
  · rintro ⟨hl, hs | hsi⟩ engine calls rfl rfl hr
    · exact rateLaw_of_within hlimit fun c hc => ⟨hl _ (hr c hc), hs _ (hr c hc)⟩
    · cases calls with
      | nil => exact ⟨trivial, fun _ => Nat.zero_le _⟩
      | cons c r =>
        have hc := hr c List.mem_cons_self
        exact rateLaw_of_eq hlimit (hl _ hc) fun x hx => hsi (hr x hx) hc

/-- A clock that goes back within the hour, with a limit of one. -/
theorem rate_law_sample :
    (0 : UInt32) < 1
      ∧ (joined 1000 1).RateLaw DriftEnvelope.storedLz4 [callAt 1 3601000, callAt 2 1000] := by
  refine ⟨by decide, ?_⟩
  refine (rate_law_iff DriftEnvelope.storedLz4 (by decide : (0 : UInt32) < 1) 1000 {3601000, 1000}).mpr ?_ _ _
    rfl rfl ?_
  · exact ⟨by simp, .inl (by simp [hourMillis])⟩
  · simp [callAt]

/-- A clock set back underflows; one that is not lets two envelopes through within two milliseconds. -/
theorem rate_law_broken :
    ¬ (joined 1000 1).NeverUnderflows DriftEnvelope.storedLz4 [callAt 1 3601001, callAt 2 1000]
      ∧ (joined 1000 1).relayTimes DriftEnvelope.storedLz4 [callAt 1 3601000, callAt 2 3601001]
        = [3601000, 3601001] := by
  constructor
  · exact joined_underflows _ (by decide) (by decide) (by decide) (by decide)
  · have hl : (joined 1000 1).lookTimes DriftEnvelope.storedLz4 [callAt 1 3601000, callAt 2 3601001]
        = [3601000, 3601001] := by
      rw [lookTimes, if_pos (joined_looks _ _ _ _ _), lookTimes, if_pos (joined_looks_again _ _ _ _ _)]
      rfl
    have hli : 0 < (joined 1000 1).config.maxRelayPerHour := by decide
    rw [(relayTimes_eq hli _).2, hl]
    · decide
    · rw [hl]
      exact ⟨by decide, by decide, trivial⟩

end RelayEngine

end SCMessenger
