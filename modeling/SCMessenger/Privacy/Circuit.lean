import Mathlib.Data.List.Dedup
import Mathlib.Data.List.Perm.Subperm
import Mathlib.Order.Lattice
import SCMessenger.Lib.Bytes
import SCMessenger.Lib.Table

/-!
# Building circuits

With diverse paths, the segments of the network are visited in turn; else the hops are drawn from all
eligible peers at once.  What is random or left open is a parameter, and the scores lie in any linear order.
-/

namespace SCMessenger.Circuit

inductive CircuitError where
  | insufficientPeers
  | invalidConfig
deriving DecidableEq, Repr

/-- A peer that may become a hop. -/
structure PeerInfo (ρ : Type) where
  peerId : String
  publicKey : Bytes
  reliabilityScore : ρ
  networkSegment : String

/-- The hops of a circuit, with their keys. -/
structure CircuitPath (ρ : Type) where
  circuitId : UInt64
  hops : List (String × Bytes)
  destination : Option (PeerInfo ρ)

structure CircuitConfig (ρ : Type) where
  minHops : Nat
  maxHops : Nat
  preferDiversePaths : Bool
  minReliability : ρ

section

variable {ρ : Type} [LinearOrder ρ]

def CircuitConfig.validate [Zero ρ] [One ρ] (config : CircuitConfig ρ) : Except CircuitError Unit :=
  if config.minHops = 0 ∨ config.maxHops = 0 then .error .invalidConfig
  else if config.maxHops < config.minHops then .error .invalidConfig
  else if config.minReliability < 0 ∨ 1 < config.minReliability then .error .invalidConfig
  else .ok ()

/-- What is drawn at random, and the order in which a hash map gives its keys. -/
structure CircuitChoices (ρ : Type) where
  circuitId : UInt64
  hopCount : Nat → Nat → Nat
  hopCount_mem : ∀ lo hi, lo ≤ hi → lo ≤ hopCount lo hi ∧ hopCount lo hi ≤ hi
  keyOrder : HashOrder String
  chooseMultiple : List (PeerInfo ρ) → Nat → List (PeerInfo ρ)
  chooseMultiple_subperm : ∀ peers n, (chooseMultiple peers n).Subperm peers
  length_chooseMultiple : ∀ peers n, (chooseMultiple peers n).length = min n peers.length

def mostReliable : List (PeerInfo ρ) → Option (PeerInfo ρ)
  | [] => none
  | peer :: peers =>
    some (peers.foldl (fun a b => if b.reliabilityScore < a.reliabilityScore then a else b) peer)

def selectLoop (numHops : Nat) (segments : List String) (bySegment : String → List (PeerInfo ρ)) :
    Nat → List (String × Bytes) → List String → Nat → Option (Except CircuitError (List (String × Bytes)))
  | 0, _, _, _ => none
  | fuel + 1, selected, usedPeers, segmentIdx =>
    if numHops ≤ selected.length then some (.ok selected)
    else
      match segments[segmentIdx % segments.length]? with
      | none => some (.error .insufficientPeers)
      | some segment =>
        match mostReliable ((bySegment segment).filter fun p => p.peerId ∉ usedPeers) with
        | some peer =>
          selectLoop numHops segments bySegment fuel (selected ++ [(peer.peerId, peer.publicKey)])
            (peer.peerId :: usedPeers) (segmentIdx + 1)
        | none => selectLoop numHops segments bySegment fuel selected usedPeers (segmentIdx + 1)

/-- A builder is made with a valid configuration only. -/
structure CircuitBuilder (ρ : Type) [LinearOrder ρ] [Zero ρ] [One ρ] where
  peers : List (PeerInfo ρ)
  config : CircuitConfig ρ
  valid : config.validate = .ok ()

namespace CircuitBuilder

variable [Zero ρ] [One ρ] (builder : CircuitBuilder ρ) (choices : CircuitChoices ρ)

def new (peers : List (PeerInfo ρ)) (config : CircuitConfig ρ) : Except CircuitError (CircuitBuilder ρ) :=
  match h : config.validate with
  | .ok () => .ok ⟨peers, config, h⟩
  | .error e => .error e

def eligible (destination : PeerInfo ρ) : List (PeerInfo ρ) :=
  builder.peers.filter fun p =>
    decide (builder.config.minReliability ≤ p.reliabilityScore) && decide (p.peerId ≠ destination.peerId)

def selectHopCount : Nat := choices.hopCount builder.config.minHops builder.config.maxHops

def selectDiverseHops (fuel numHops : Nat) (destination : PeerInfo ρ) :
    Option (Except CircuitError (List (String × Bytes))) :=
  let eligible := builder.eligible destination
  if eligible.length < numHops then some (.error .insufficientPeers)
  else
    let segments := choices.keyOrder.visit (eligible.map (·.networkSegment)).dedup
    selectLoop numHops segments (fun segment => eligible.filter (·.networkSegment == segment)) fuel []
      [destination.peerId] 0

def selectRandomHops (numHops : Nat) (destination : PeerInfo ρ) : Except CircuitError (List (String × Bytes)) :=
  let eligible := builder.eligible destination
  if eligible.length < numHops then .error .insufficientPeers
  else .ok ((choices.chooseMultiple eligible numHops).map fun p => (p.peerId, p.publicKey))

def buildCircuit (fuel : Nat) (destination : PeerInfo ρ) : Option (Except CircuitError (CircuitPath ρ)) :=
  let numHops := builder.selectHopCount choices
  if builder.peers.length < numHops then some (.error .insufficientPeers)
  else
    let selectedHops :=
      if builder.config.preferDiversePaths then builder.selectDiverseHops choices fuel numHops destination
      else some (builder.selectRandomHops choices numHops destination)
    selectedHops.map fun hops => hops.map fun hops => ⟨choices.circuitId, hops, some destination⟩

end CircuitBuilder

/-! ## The loop -/

variable {numHops fuel : Nat} {segments : List String} {bySegment : String → List (PeerInfo ρ)}
  {selected hops : List (String × Bytes)} {used : List String}

theorem mostReliable_mem {pe : List (PeerInfo ρ)} {pr : PeerInfo ρ} (h : mostReliable pe = some pr) :
    pr ∈ pe := by
  cases pe with
  | nil => cases h
  | cons p ps =>
    obtain rfl := Option.some.inj h
    refine List.foldlRecOn (motive := (· ∈ p :: ps)) ps _ List.mem_cons_self fun a ha b hb => ?_
    split
    · exact ha
    · exact List.mem_cons_of_mem _ hb

theorem mostReliable_eq_none {p : List (PeerInfo ρ)} : mostReliable p = none ↔ p = [] := by
  cases p <;> simp [mostReliable]

/-- Hops are different peers that are marked as used. -/
structure Distinct (destination : String) (selected : List (String × Bytes)) (used : List String) : Prop where
  nodup : (selected.map Prod.fst).Nodup
  used : ∀ id, id ∈ used ↔ id = destination ∨ id ∈ selected.map Prod.fst
  fresh : destination ∉ selected.map Prod.fst

theorem Distinct.add {destination id : String} {p : Bytes} (h : Distinct destination selected used)
    (hid : id ∉ used) : Distinct destination (selected ++ [(id, p)]) (id :: used) := by
  have hn := hid
  rw [h.used, not_or] at hn
  refine ⟨?_, fun x => ?_, ?_⟩
  · rw [List.map_append, List.nodup_append]
    refine ⟨h.nodup, List.nodup_singleton _, fun a ha b hb => ?_⟩
    rintro rfl
    exact hn.2 (by rwa [List.mem_singleton.mp hb] at ha)
  · rw [List.mem_cons, h.used, List.map_append, List.mem_append, List.map_singleton, List.mem_singleton]
    tauto
  · rw [List.map_append, List.mem_append, not_or]
    exact ⟨h.fresh, fun hd => hn.1 (List.mem_singleton.mp hd).symm⟩

theorem distinct_nil {destination : String} : Distinct destination [] [destination] :=
  ⟨List.nodup_nil, fun id => by simp, by simp⟩

section

variable {E : List (PeerInfo ρ)} {destination : String}

theorem selectLoop_some {idx : Nat} {r : Except CircuitError (List (String × Bytes))}
    (hseg : 0 < segments.length) (hd : Distinct destination selected used) (hl : selected.length ≤ numHops)
    (hk : selected.map Prod.fst ⊆ E.map (·.peerId))
    (h : selectLoop numHops segments (fun s => E.filter (·.networkSegment == s)) fuel selected used idx
      = some r) :
    ∃ hops, r = .ok hops ∧ (∃ used, Distinct destination hops used) ∧ hops.length = numHops
      ∧ hops.map Prod.fst ⊆ E.map (·.peerId) := by
  induction fuel generalizing selected used idx with
  | zero => cases h
  | succ fuel ih =>
    rw [selectLoop] at h
    split at h
    case isTrue hn =>
      cases h
      exact ⟨selected, rfl, ⟨used, hd⟩, Nat.le_antisymm hl hn, hk⟩
    case isFalse hn =>
      rw [List.getElem?_eq_getElem (Nat.mod_lt idx hseg)] at h
      dsimp only at h
      split at h
      case h_1 peer hp =>
        obtain ⟨hm, hu⟩ := List.mem_filter.mp (mostReliable_mem hp)
        refine ih (hd.add (by simpa using hu)) ?_ ?_ h
        · rw [List.length_append, List.length_singleton]
          omega
        · rw [List.map_append, List.append_subset]
          refine ⟨hk, fun id hid => ?_⟩
          rw [List.mem_singleton.mp hid]
          exact List.mem_map_of_mem (List.mem_filter.mp hm).1
      case h_2 => exact ih hd hl hk h

/-- The different peers among the eligible ones. -/
def distinctIds (E : List (PeerInfo ρ)) : List String := (E.map (·.peerId)).dedup

omit [LinearOrder ρ] in
theorem exists_unused (hdest : ∀ p ∈ E, p.peerId ≠ destination) (hd : Distinct destination selected used)
    (hl : selected.length < (distinctIds E).length) : ∃ p ∈ E, p.peerId ∉ used := by
  by_contra hall
  simp only [not_exists, not_and, not_not] at hall
  have hsub : distinctIds E ⊆ selected.map Prod.fst := by
    intro id hid
    obtain ⟨p, hp, rfl⟩ := List.mem_map.mp (List.mem_dedup.mp hid)
    exact ((hd.used _).mp (hall p hp)).resolve_left (hdest p hp)
  have hle := ((List.nodup_dedup _).subperm hsub).length_le
  rw [← distinctIds, List.length_map] at hle
  omega

/-- The loop ends when there are enough different eligible peers. -/
theorem selectLoop_terminates (hdest : ∀ p ∈ E, p.peerId ≠ destination)
    (hseg : ∀ p ∈ E, p.networkSegment ∈ segments) (hl : numHops ≤ (distinctIds E).length) (m : Nat)
    (hm : numHops ≤ selected.length + m) (hd : Distinct destination selected used) (idx : Nat) :
    ∃ fuel r, selectLoop numHops segments (fun s => E.filter (·.networkSegment == s)) fuel
      selected used idx = some r := by
  induction m generalizing selected used idx with
  | zero => exact ⟨1, _, by rw [selectLoop, if_pos (by omega)]⟩
  | succ m ih =>
    by_cases hlt : numHops ≤ selected.length
    · exact ⟨1, _, by rw [selectLoop, if_pos hlt]⟩
    have h (idx : Nat) (s : String) (pe : PeerInfo ρ)
        (hs : segments[idx % segments.length]? = some s)
        (hb : mostReliable ((E.filter (·.networkSegment == s)).filter fun p => p.peerId ∉ used)
          = some pe) :
        ∃ fuel r, selectLoop numHops segments (fun s => E.filter (·.networkSegment == s)) fuel
          selected used idx = some r := by
      have hu : pe.peerId ∉ used := by simpa using (List.mem_filter.mp (mostReliable_mem hb)).2
      have hlen : numHops ≤ (selected ++ [(pe.peerId, pe.publicKey)]).length + m := by
        rw [List.length_append, List.length_singleton]
        omega
      obtain ⟨fuel, r, hr⟩ := ih hlen (hd.add hu) (idx + 1)
      exact ⟨fuel + 1, r, by simpa only [selectLoop, if_neg hlt, hs, hb] using hr⟩
    obtain ⟨p, hp, hpu⟩ := exists_unused hdest hd (by omega)
    obtain ⟨j, hj, hjs⟩ := List.getElem_of_mem (hseg p hp)
    obtain ⟨d, hdj⟩ : ∃ d, segments[(idx + d) % segments.length]? = some p.networkSegment := by
      refine ⟨segments.length * idx + j - idx, ?_⟩
      have hle : idx ≤ segments.length * idx := Nat.le_mul_of_pos_left _ (by omega)
      have he : idx + (segments.length * idx + j - idx) = j + segments.length * idx := by omega
      rw [he, Nat.add_mul_mod_self_left, Nat.mod_eq_of_lt hj, List.getElem?_eq_getElem hj, hjs]
    induction d generalizing idx with
    | zero =>
      cases hb : mostReliable
          ((E.filter (·.networkSegment == p.networkSegment)).filter fun p => p.peerId ∉ used) with
      | some pe => exact h idx _ pe hdj hb
      | none =>
        rw [mostReliable_eq_none] at hb
        have hpm : p ∈ (E.filter (·.networkSegment == p.networkSegment)).filter fun p => p.peerId ∉ used := by
          simp [hp, hpu]
        rw [hb] at hpm
        cases hpm
    | succ d ihd =>
      have hlt' : idx % segments.length < segments.length := Nat.mod_lt _ (by omega)
      have hs := List.getElem?_eq_getElem hlt'
      cases hb : mostReliable ((E.filter (·.networkSegment == segments[idx % segments.length])).filter
          fun p => p.peerId ∉ used) with
      | some pe => exact h idx _ pe hs hb
      | none =>
        obtain ⟨fuel, r, hr⟩ := ihd (idx + 1) (by rwa [Nat.add_assoc, Nat.add_comm 1])
        exact ⟨fuel + 1, r, by simpa only [selectLoop, if_neg hlt, hs, hb] using hr⟩

end

/-! ## The builder -/

namespace CircuitBuilder

variable [Zero ρ] [One ρ] {builder : CircuitBuilder ρ} {choices : CircuitChoices ρ} {destination : PeerInfo ρ}

theorem minHops_bounds (builder : CircuitBuilder ρ) :
    0 < builder.config.minHops ∧ builder.config.minHops ≤ builder.config.maxHops := by
  have hv := builder.valid
  unfold CircuitConfig.validate at hv
  split at hv
  · cases hv
  · split at hv
    · cases hv
    · omega

theorem ne_destination {p : PeerInfo ρ} (h : p ∈ builder.eligible destination) :
    p.peerId ≠ destination.peerId := by
  have hp := (List.mem_filter.mp h).2
  simp only [Bool.and_eq_true, decide_eq_true_eq] at hp
  exact hp.2

variable (builder choices destination) in
/-- Hops are different peers, none of them the destination, and as many as configured. -/
def LoopFree (hops : List (String × Bytes)) : Prop :=
  (hops.map Prod.fst).Nodup ∧ destination.peerId ∉ hops.map Prod.fst
    ∧ builder.config.minHops ≤ hops.length ∧ hops.length ≤ builder.config.maxHops

theorem selectHopCount_mem (builder : CircuitBuilder ρ) (choices : CircuitChoices ρ) :
    builder.config.minHops ≤ builder.selectHopCount choices
      ∧ builder.selectHopCount choices ≤ builder.config.maxHops :=
  choices.hopCount_mem _ _ builder.minHops_bounds.2

variable (choices) in
theorem mem_segments {p : PeerInfo ρ} (h : p ∈ builder.eligible destination) :
    p.networkSegment
      ∈ choices.keyOrder.visit ((builder.eligible destination).map (·.networkSegment)).dedup :=
  (choices.keyOrder.perm _).mem_iff.mpr (List.mem_dedup.mpr (List.mem_map.mpr ⟨p, h, rfl⟩))

theorem selectDiverseHops_some {fuel : Nat} {r : Except CircuitError (List (String × Bytes))}
    (hl : builder.selectHopCount choices ≤ (builder.eligible destination).length)
    (h : builder.selectDiverseHops choices fuel (builder.selectHopCount choices) destination = some r) :
    ∃ hops, r = .ok hops ∧ builder.LoopFree destination hops
      ∧ builder.selectHopCount choices ≤ (distinctIds (builder.eligible destination)).length := by
  have hb := builder.selectHopCount_mem choices
  rw [selectDiverseHops, if_neg (Nat.not_lt.mpr hl)] at h
  obtain ⟨p, hp⟩ := List.exists_mem_of_length_pos (Nat.lt_of_lt_of_le builder.minHops_bounds.1 (hb.1.trans hl))
  obtain ⟨hops, rfl, ⟨used, hd⟩, hlen, hk⟩ :=
    selectLoop_some (List.length_pos_of_mem (mem_segments choices hp)) distinct_nil (Nat.zero_le _) (by simp) h
  refine ⟨hops, rfl, ⟨hd.nodup, hd.fresh, hlen ▸ hb.1, hlen ▸ hb.2⟩, ?_⟩
  have := (hd.nodup.subperm fun id hid => List.mem_dedup.mpr (hk hid)).length_le
  rwa [List.length_map, hlen] at this

theorem selectDiverseHops_terminates
    (hl : builder.selectHopCount choices ≤ (distinctIds (builder.eligible destination)).length) :
    ∃ fuel r, builder.selectDiverseHops choices fuel (builder.selectHopCount choices) destination = some r := by
  have hle := (List.dedup_sublist ((builder.eligible destination).map (·.peerId))).length_le
  rw [List.length_map] at hle
  obtain ⟨fuel, r, hr⟩ := selectLoop_terminates (fun p hp => ne_destination hp)
    (fun p hp => mem_segments choices hp) hl (builder.selectHopCount choices) (by simp) distinct_nil 0
  refine ⟨fuel, r, ?_⟩
  rw [selectDiverseHops, if_neg (Nat.not_lt.mpr (hl.trans hle))]
  exact hr

variable (builder choices destination) in
/-- The peers that a draw takes. -/
def drawn : List (PeerInfo ρ) :=
  choices.chooseMultiple (builder.eligible destination) (builder.selectHopCount choices)

theorem loopFree_drawn_iff (hl : builder.selectHopCount choices ≤ (builder.eligible destination).length) :
    builder.LoopFree destination ((builder.drawn choices destination).map fun p => (p.peerId, p.publicKey))
      ↔ ((builder.drawn choices destination).map (·.peerId)).Nodup := by
  have hb := builder.selectHopCount_mem choices
  have hlen : (builder.drawn choices destination).length = builder.selectHopCount choices := by
    rw [drawn, choices.length_chooseMultiple]
    omega
  obtain ⟨l, hp, hs⟩ := choices.chooseMultiple_subperm (builder.eligible destination) (builder.selectHopCount choices)
  have hd : destination.peerId ∉ (builder.drawn choices destination).map (·.peerId) := by
    intro hm
    obtain ⟨p, hpm, he⟩ := List.mem_map.mp hm
    exact ne_destination (hs.subset (hp.mem_iff.mpr hpm)) he
  rw [LoopFree, List.map_map, List.length_map, hlen]
  exact ⟨fun h => h.1, fun h => ⟨h, hd, hb⟩⟩

/-- **When circuits are built and free of loops**: too few entries, or different peers for every hop. -/
theorem circuit_total_and_loop_free_iff (builder : CircuitBuilder ρ) (choices : CircuitChoices ρ)
    (destination : PeerInfo ρ) :
    ((∃ fuel result, builder.buildCircuit choices fuel destination = some result)
        ∧ ∀ fuel path, builder.buildCircuit choices fuel destination = some (.ok path) →
          builder.LoopFree destination path.hops)
      ↔ (builder.selectHopCount choices ≤ (builder.eligible destination).length →
          if builder.config.preferDiversePaths then
            builder.selectHopCount choices ≤ (distinctIds (builder.eligible destination)).length
          else ((builder.drawn choices destination).map (·.peerId)).Nodup) := by
  by_cases hl : (builder.eligible destination).length < builder.selectHopCount choices
  · have herr (fuel : Nat) :
        builder.buildCircuit choices fuel destination = some (.error .insufficientPeers) := by
      simp only [buildCircuit, selectDiverseHops, selectRandomHops, if_pos hl]
      split
      · rfl
      · split <;> rfl
    refine iff_of_true ⟨⟨0, _, herr 0⟩, fun fuel path h => ?_⟩ fun h => absurd hl (Nat.not_lt.mpr h)
    rw [herr] at h
    cases h
  have hle := Nat.not_lt.mp hl
  have hp : ¬ builder.peers.length < builder.selectHopCount choices :=
    Nat.not_lt.mpr (hle.trans (List.length_filter_le _ _))
  rw [imp_iff_right hle]
  simp only [buildCircuit, if_neg hp]
  cases builder.config.preferDiversePaths with
  | false =>
    simp only [Bool.false_eq_true, if_false, selectRandomHops, if_neg hl]
    rw [← loopFree_drawn_iff hle]
    constructor
    · intro h
      exact h.2 0 _ rfl
    · intro h
      refine ⟨⟨0, _, rfl⟩, fun _ path he => ?_⟩
      cases he
      exact h
  | true =>
    simp only [if_true]
    constructor
    · rintro ⟨⟨fuel, result, hr⟩, -⟩
      obtain ⟨r, hr, -⟩ := Option.map_eq_some_iff.mp hr
      obtain ⟨hops, -, -, hn⟩ := selectDiverseHops_some hle hr
      exact hn
    · intro hn
      obtain ⟨fuel, r, hr⟩ := selectDiverseHops_terminates hn
      refine ⟨⟨fuel, _, by rw [hr]; rfl⟩, fun fuel path h => ?_⟩
      obtain ⟨r, hr, he⟩ := Option.map_eq_some_iff.mp h
      obtain ⟨hops, rfl, hf, -⟩ := selectDiverseHops_some hle hr
      cases he
      exact hf

end CircuitBuilder

def firstChoices : CircuitChoices ρ where
  circuitId := 0
  hopCount lo _ := lo
  hopCount_mem _ _ h := ⟨Nat.le_refl _, h⟩
  keyOrder := ⟨id, fun _ => .refl _⟩
  chooseMultiple peers n := peers.take n
  chooseMultiple_subperm _ _ := (List.take_sublist _ _).subperm
  length_chooseMultiple _ _ := List.length_take

end

def samplePeer (id : String) : PeerInfo Nat := ⟨id, [], 1, "segment"⟩

def sampleBuilder (ids : List String) (diverse : Bool) : CircuitBuilder Nat :=
  ⟨ids.map samplePeer, ⟨2, 2, diverse, 0⟩, rfl⟩

/-- With one peer listed twice the loop never ends, and a draw takes the peer twice. -/
theorem same_peer_twice :
    (∀ fuel, (sampleBuilder ["alice", "alice"] true).buildCircuit firstChoices fuel (samplePeer "carol") = none)
      ∧ ∃ path, (sampleBuilder ["alice", "alice"] false).buildCircuit firstChoices 0 (samplePeer "carol")
          = some (.ok path) ∧ ¬ (path.hops.map Prod.fst).Nodup := by
  refine ⟨fun fuel => ?_, _, rfl, by decide⟩
  let bySegment := fun segment => ([samplePeer "alice", samplePeer "alice"]).filter (·.networkSegment == segment)
  -- the only segment has no other peer, however often it is visited
  have h (fuel idx : Nat) :
      selectLoop 2 ["segment"] bySegment fuel [("alice", [])] ["alice", "carol"] idx = none := by
    induction fuel generalizing idx with
    | zero => rfl
    | succ fuel ih =>
      rw [selectLoop, if_neg (by decide), List.length_singleton, Nat.mod_one]
      exact ih (idx + 1)
  have hnone : selectLoop 2 ["segment"] bySegment fuel [] ["carol"] 0 = none := by
    cases fuel with
    | zero => rfl
    | succ fuel => exact h fuel 1
  exact congrArg (Option.map _) hnone

end SCMessenger.Circuit
