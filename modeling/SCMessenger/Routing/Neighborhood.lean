import SCMessenger.Lib.Queues
import SCMessenger.Lib.Run
import SCMessenger.Routing.Layers

/-!
# Gossip about the neighbourhood

`routing/neighborhood.rs`.  A released build wraps around where a number leaves its range, a checked one
stops, so each call also says whether that happened.
-/

namespace SCMessenger

namespace Routing

/-- What a gateway tells of its cell and of its own neighbours. -/
structure NeighborhoodGossip where
  localSummary : CellSummary
  neighborhoodSummaries : List NeighborhoodSummary
  timestamp : UInt64

/-- The orders in which the two hash maps of the table are visited. -/
structure MapOrders where
  gateways : HashOrder GatewayInfo
  summaries : HashOrder NeighborhoodSummary

namespace NeighborhoodTable

def rebuildSummaries (orders : MapOrders) (table : NeighborhoodTable) : NeighborhoodTable :=
  let unique := table.summaries.foldl (fun (unique : Table (List Hint) NeighborhoodSummary) summary =>
    match unique.lookup summary.reachableHints with
    | some existing =>
      if existing.timestamp < summary.timestamp then unique.insert summary.reachableHints summary
      else unique
    | none => unique.insert summary.reachableHints summary) ∅
  { table with summaries := orders.summaries.visit (unique.entries.map fun e => e.2) }

def evictStalestGateway (orders : MapOrders) (table : NeighborhoodTable) : NeighborhoodTable :=
  match (orders.gateways.visit table.values).argmin (·.lastUpdated.toNat) with
  | some gateway => { table with gateways := table.gateways.erase gateway.gatewayId }
  | none => table

def updateGateway (orders : MapOrders) (table : NeighborhoodTable) (now : UInt64) (gatewayId : Arr 32)
    (cellSummary : CellSummary) (hops : UInt8) (transport : TransportType) : NeighborhoodTable :=
  if table.maxHops < hops then table
  else
    let table := { table with
      gateways := table.gateways.insert gatewayId ⟨gatewayId, cellSummary, hops, now, transport, .high⟩ }
    let table := if table.maxGateways < table.gateways.keys.length then table.evictStalestGateway orders
      else table
    table.rebuildSummaries orders

def acceptSummary (table : NeighborhoodTable) (timestamp : UInt64) (neighbor : NeighborhoodSummary) :
    NeighborhoodTable × Bool :=
  let ourHops := neighbor.hopCount + 1
  let overflow := decide (neighbor.hopCount = 255)
  if ourHops ≤ table.maxHops then
    let summary := { neighbor with hopCount := ourHops, timestamp := timestamp }
    let isSame := fun s : NeighborhoodSummary =>
      s.hopCount == ourHops && s.reachableHints == neighbor.reachableHints
    let refresh := fun existing : NeighborhoodSummary =>
      if existing.timestamp < timestamp then summary else existing
    if table.summaries.any isSame then
      ({ table with summaries := updateFirst isSame refresh table.summaries }, overflow)
    else ({ table with summaries := table.summaries ++ [summary] }, overflow)
  else (table, overflow)

def processGossip (orders : MapOrders) (table : NeighborhoodTable) (now : UInt64) (fromPeer : Arr 32)
    (gossip : NeighborhoodGossip) : NeighborhoodTable × Bool :=
  let table := table.updateGateway orders now fromPeer gossip.localSummary 1 .tcp
  let (table, overflow) := gossip.neighborhoodSummaries.foldl (fun (table, overflow) neighbor =>
    let (table', overflow') := table.acceptSummary gossip.timestamp neighbor
    (table', overflow || overflow')) (table, false)
  (table.rebuildSummaries orders, overflow)

def cleanup (table : NeighborhoodTable) (now : UInt64) : NeighborhoodTable × Bool :=
  ({ table with
      gateways := (table.gateways.purge fun gateway =>
        decide (table.maxStaleness < now - gateway.lastUpdated)).2
      summaries := table.summaries.filter fun summary => now - summary.timestamp ≤ table.maxStaleness },
    table.values.any (fun gateway => now < gateway.lastUpdated)
      || table.summaries.any fun summary => now < summary.timestamp)

/-- Everything stored is between one and `maxHops` hops away. -/
structure HopsInRange (table : NeighborhoodTable) : Prop where
  gateways : ∀ g ∈ table.values, 1 ≤ g.hopsAway ∧ g.hopsAway ≤ table.maxHops
  summaries : ∀ s ∈ table.summaries, 1 ≤ s.hopCount ∧ s.hopCount ≤ table.maxHops

variable {table : NeighborhoodTable} {orders : MapOrders}

theorem mem_rebuildSummaries {s : NeighborhoodSummary}
    (h : s ∈ (table.rebuildSummaries orders).summaries) : s ∈ table.summaries := by
  have hfold : ∀ (l : List NeighborhoodSummary) (u : Table (List Hint) NeighborhoodSummary) (k v),
      (l.foldl (fun (unique : Table (List Hint) NeighborhoodSummary) summary =>
        match unique.lookup summary.reachableHints with
        | some existing =>
          if existing.timestamp < summary.timestamp then unique.insert summary.reachableHints summary
          else unique
        | none => unique.insert summary.reachableHints summary) u).lookup k = some v →
      u.lookup k = some v ∨ v ∈ l := by
    intro l
    induction l with
    | nil => exact fun u k v hv => .inl hv
    | cons x l ih =>
      intro u k v hv
      have hins : ∀ {v}, (u.insert x.reachableHints x).lookup k = some v → u.lookup k = some v ∨ v = x := by
        intro v hv
        by_cases hk : k = x.reachableHints
        · subst hk
          exact .inr (by simpa using hv.symm)
        · rw [AList.lookup_insert_ne hk] at hv
          exact .inl hv
      rcases ih _ k v hv with hu | hm
      · have hx : u.lookup k = some v ∨ v = x := by
          dsimp only at hu
          split at hu
          · split at hu
            · exact hins hu
            · exact .inl hu
          · exact hins hu
        rcases hx with hx | rfl
        · exact .inl hx
        · exact .inr List.mem_cons_self
      · exact .inr (List.mem_cons_of_mem x hm)
  obtain ⟨⟨k, v⟩, he, rfl⟩ := List.mem_map.mp ((orders.summaries.perm _).mem_iff.mp h)
  rcases hfold _ _ k v (Table.mem_entries.mp he) with hn | hm
  · cases hn
  · exact hm

theorem mem_values {g : GatewayInfo} : g ∈ table.values ↔ ∃ k, table.gateways.lookup k = some g := by
  simp only [values, List.mem_map]
  constructor
  · rintro ⟨⟨k, v⟩, he, rfl⟩
    exact ⟨k, Table.mem_entries.mp he⟩
  · rintro ⟨k, hk⟩
    exact ⟨⟨k, g⟩, Table.mem_entries.mpr hk, rfl⟩

theorem HopsInRange.rebuildSummaries (h : table.HopsInRange) (orders : MapOrders) :
    (table.rebuildSummaries orders).HopsInRange :=
  ⟨h.gateways, fun s hs => h.summaries s (mem_rebuildSummaries hs)⟩

theorem HopsInRange.evictStalestGateway (h : table.HopsInRange) (orders : MapOrders) :
    (table.evictStalestGateway orders).HopsInRange := by
  unfold NeighborhoodTable.evictStalestGateway
  split
  · refine ⟨fun g hg => ?_, h.summaries⟩
    obtain ⟨k, hk⟩ := mem_values.mp hg
    exact h.gateways g (mem_values.mpr ⟨k, (Table.lookup_erase_iff.mp hk).2⟩)
  · exact h

theorem HopsInRange.updateGateway (h : table.HopsInRange) (orders : MapOrders) (now : UInt64) (id : Arr 32)
    (cell : CellSummary) (transport : TransportType) :
    (table.updateGateway orders now id cell 1 transport).HopsInRange := by
  unfold NeighborhoodTable.updateGateway
  split
  · exact h
  · rename_i hm
    have hi : ({ table with gateways := table.gateways.insert id ⟨id, cell, 1, now, transport, .high⟩ } :
        NeighborhoodTable).HopsInRange := by
      refine ⟨fun g hg => ?_, h.summaries⟩
      obtain ⟨k, hk⟩ := mem_values.mp hg
      by_cases hid : k = id
      · subst hid
        obtain rfl : _ = g := by simpa using hk
        exact ⟨UInt8.le_refl 1, UInt8.not_lt.mp hm⟩
      · exact h.gateways g (mem_values.mpr ⟨k, by rwa [AList.lookup_insert_ne hid] at hk⟩)
    dsimp only
    split
    · exact (hi.evictStalestGateway orders).rebuildSummaries orders
    · exact hi.rebuildSummaries orders

/-- **One summary** whose hop count can be raised. -/
theorem HopsInRange.acceptSummary (h : table.HopsInRange) (time : UInt64) {n : NeighborhoodSummary}
    (hn : n.hopCount ≠ 255) : (table.acceptSummary time n).1.HopsInRange := by
  have ho : 1 ≤ n.hopCount + 1 := by
    have hne : n.hopCount.toNat ≠ 255 := fun he => hn (UInt8.toNat_inj.mp he)
    have hlt := n.hopCount.toNat_lt
    rw [UInt8.le_iff_toNat_le, UInt8.toNat_add]
    simp only [UInt8.reduceToNat]
    omega
  unfold NeighborhoodTable.acceptSummary
  dsimp only
  split
  · rename_i hle
    split
    · refine ⟨h.gateways, (forall_updateFirst_iff h.summaries).mpr fun s hs => ?_⟩
      split
      · exact ⟨ho, hle⟩
      · exact h.summaries s (List.mem_of_find?_eq_some hs)
    · refine ⟨h.gateways, fun s hs => ?_⟩
      rcases mem_concat.mp hs with hs | rfl
      · exact h.summaries s hs
      · exact ⟨ho, hle⟩
  · exact h

/-- A number leaves its range exactly when some hop count cannot be raised. -/
theorem acceptSummaries (t : NeighborhoodTable) (time : UInt64) (l : List NeighborhoodSummary) (b : Bool) :
    let r := l.foldl (fun (t, o) n =>
      let (t', o') := t.acceptSummary time n
      (t', o || o')) (t, b)
    (r.2 = false ↔ b = false ∧ ∀ n ∈ l, n.hopCount ≠ 255)
      ∧ (t.HopsInRange → (∀ n ∈ l, n.hopCount ≠ 255) → r.1.HopsInRange) := by
  induction l generalizing t b with
  | nil => simp
  | cons n l ih =>
    have hov : (t.acceptSummary time n).2 = false ↔ n.hopCount ≠ 255 := by
      rw [ne_eq, ← decide_eq_false_iff_not, NeighborhoodTable.acceptSummary]
      dsimp only
      split
      · split <;> exact .rfl
      · exact .rfl
    obtain ⟨ho, hr⟩ := ih (t.acceptSummary time n).1 (b || (t.acceptSummary time n).2)
    rw [List.forall_mem_cons]
    refine ⟨ho.trans (by rw [Bool.or_eq_false_iff, hov, and_assoc]), fun h hn => ?_⟩
    exact hr (h.acceptSummary time hn.1) hn.2

end NeighborhoodTable

/-! ## Runs -/

namespace Neighborhood

/-- The calls that change the table. -/
inductive NeighborhoodCall where
  | processGossip (now : UInt64) (fromPeer : Arr 32) (gossip : NeighborhoodGossip)
  | cleanup (now : UInt64)

open NeighborhoodTable

abbrev NeighborhoodRun := NeighborhoodTable × Bool

def step (orders : MapOrders) (run : NeighborhoodRun) : NeighborhoodCall → NeighborhoodRun
  | .processGossip now fromPeer gossip =>
    let (table, overflow) := run.1.processGossip orders now fromPeer gossip
    (table, run.2 || overflow)
  | .cleanup now =>
    let (table, overflow) := run.1.cleanup now
    (table, run.2 || overflow)

def InRange (run : NeighborhoodRun) : Prop := run.2 = false ∧ run.1.HopsInRange

/-- Hop counts that can be raised, and no time after the one of the cleanup. -/
def Sound (run : NeighborhoodRun) : NeighborhoodCall → Prop
  | .processGossip _ _ gossip => ∀ n ∈ gossip.neighborhoodSummaries, n.hopCount ≠ 255
  | .cleanup now => (∀ g ∈ run.1.values, g.lastUpdated ≤ now) ∧ ∀ s ∈ run.1.summaries, s.timestamp ≤ now

variable {run : NeighborhoodRun} {orders : MapOrders}

/-- **One call** stays in range exactly when it is sound. -/
theorem inRange_step_iff (h : InRange run) (call : NeighborhoodCall) :
    InRange (step orders run call) ↔ Sound run call := by
  obtain ⟨hf, hh⟩ := h
  cases call with
  | processGossip now p g =>
    have hu := hh.updateGateway orders now p g.localSummary .tcp
    obtain ⟨ho, hr⟩ := acceptSummaries (run.1.updateGateway orders now p g.localSummary 1 .tcp)
      g.timestamp g.neighborhoodSummaries false
    simp only [true_and] at ho
    simp only [InRange, step, hf, Bool.false_or, Sound]
    refine ⟨fun hi => ho.mp hi.1, fun hs => ⟨ho.mpr hs, ?_⟩⟩
    exact (hr hu hs).rebuildSummaries orders
  | cleanup now =>
    have hk : (run.1.cleanup now).1.HopsInRange := by
      refine ⟨fun g hg => ?_, fun s hs => hh.summaries s (List.mem_filter.mp hs).1⟩
      obtain ⟨k, hl⟩ := mem_values.mp hg
      simp only [cleanup] at hl
      exact hh.gateways g (mem_values.mpr ⟨k, (Table.lookup_purge.mp hl).1⟩)
    have hb : (run.1.cleanup now).2 = false ↔ Sound run (.cleanup now) := by
      simp [cleanup, Sound, UInt64.not_lt]
    simp only [InRange, step, hf, Bool.false_or, hb, hk, and_true]

/-- **Gossip arithmetic** stays in range along every run exactly when every call is `Sound`. -/
theorem gossip_arithmetic_safe_iff (orders : MapOrders) (maxStaleness : UInt64)
    (calls : List NeighborhoodCall) :
    (∀ k, InRange (stateAt (step orders) (withMaxStaleness maxStaleness, false) calls k))
      ↔ Guarded Sound (step orders) (withMaxStaleness maxStaleness, false) calls := by
  refine forall_stateAt_iff (fun _ h => h) (fun run call _ h => inRange_step_iff h call)
    (fun run call _ h hs => (inRange_step_iff h call).mpr hs) ⟨rfl, ?_, ?_⟩
  · intro g hg
    cases hg
  · intro s hs
    cases hs

def keptOrder : MapOrders := ⟨⟨id, fun _ => .refl _⟩, ⟨id, fun _ => .refl _⟩⟩

def sampleGossip (hops : UInt8) : NeighborhoodGossip :=
  ⟨⟨1, 0, [], 1, 5⟩, [⟨1, [], 1, hops, 5⟩], 5⟩

/-- A summary 255 hops away is stored as one that is here; a cleanup back in time drops a peer. -/
theorem gossip_wraps :
    Prod.map (fun table => table.summaries.map (·.hopCount)) id
        (step keptOrder (.new, false) (.processGossip 7 (Arr.fit 32 [1]) (sampleGossip 255))) = ([0], true)
      ∧ Prod.map (fun table => table.values.length) id (stateAt (step keptOrder) (.new, false)
        [.processGossip 7 (Arr.fit 32 [1]) (sampleGossip 1), .cleanup 6] 2) = (0, true) := by
  decide +kernel

end Neighborhood

end Routing

end SCMessenger
