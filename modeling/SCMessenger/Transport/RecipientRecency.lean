import SCMessenger.Lib.Levelling
import SCMessenger.Lib.Run
import SCMessenger.Lib.Table
import SCMessenger.Store.StoragePressure

/-!
# Where recipients were seen

How many routes a node remembers is bounded (`transport/mesh_routing.rs`): a relay with too many loses its
oldest one, and when there are too many in all, those with the most lose theirs first.
-/

namespace SCMessenger

def recencyMaxClockSkewSecs : Nat := 5 * 60
def recencyMaxAgeSecs : Nat := 7 * 24 * 60 * 60
def recencyMaxTrackedRoutes : Nat := 4096
def recencyPruneTargetRoutes : Nat := 3072
def recencyMaxRoutesPerRelay : Nat := 64

/-- When each recipient was seen through each relay, and each relay's recipients in order. -/
structure MultiPathDelivery (P : Type) where
  recipientRecencyByRoute : Table (P × P) Nat
  recencyRoutesByRelay : Table P (List P)

/-- A prune on its way. -/
structure Pruning (P : Type) where
  routes : Table P (List P)
  evicted : List (P × P)
  toDrop : Nat

section

variable {P : Type} [LinearOrder P]

def recipientsOf (routes : Table P (List P)) (relay : P) : List P := (routes.lookup relay).getD []

namespace Pruning

def evictOne (amount : List P → Nat) (p : Pruning P) (relay : P) : Pruning P :=
  let recipients := recipientsOf p.routes relay
  let n := min (amount recipients) p.toDrop
  ⟨AList.insert relay (recipients.drop n) p.routes, p.evicted ++ (recipients.take n).map (relay, ·), p.toDrop - n⟩

def evictFrom (amount : List P → Nat) (relays : List P) (p : Pruning P) : Pruning P :=
  relays.foldl (evictOne amount) p

end Pruning

namespace MultiPathDelivery

def new : MultiPathDelivery P := ⟨∅, ∅⟩

/-- Cut every relay to a level just too high, and take the rest one each in the order `iterate`. -/
def pruneRecipientRecency (iterate : List P → List P) (m : MultiPathDelivery P) : MultiPathDelivery P :=
  let total := m.recipientRecencyByRoute.keys.length
  if total ≤ recencyMaxTrackedRoutes then m
  else
    let toDrop := total - recencyPruneTargetRoutes
    let relays := iterate m.recencyRoutesByRelay.keys
    let counts := relays.map fun relay =>
      min (recipientsOf m.recencyRoutesByRelay relay).length recencyMaxRoutesPerRelay
    let excessAbove := fun level =>
      ∑ c ∈ Finset.Ioc level recencyMaxRoutesPerRelay, counts.count c * (c - level)
    let tStar := Levelling.waterLevel excessAbove toDrop recencyMaxRoutesPerRelay
    let trimTo := min (tStar + 1) recencyMaxRoutesPerRelay
    let trimmed := Pruning.evictFrom (fun recipients => recipients.length - trimTo) relays
      ⟨m.recencyRoutesByRelay, [], toDrop⟩
    let relaysAtTrimLevel := relays.filter fun relay =>
      (recipientsOf trimmed.routes relay).length = trimTo ∧ 0 < trimTo
    let pruned := Pruning.evictFrom (fun recipients => min recipients.length 1)
      (relaysAtTrimLevel.mergeSort (· ≤ ·)) trimmed
    ⟨pruned.evicted.foldl (fun recency key => AList.erase key recency) m.recipientRecencyByRoute,
      pruned.routes.filterMapValues fun recipients => if recipients.isEmpty then none else some recipients⟩

def trackRoute (m : MultiPathDelivery P) (relayPeer recipientPeer : P) (seenAt : Nat) : MultiPathDelivery P :=
  let recipients := recipientsOf m.recencyRoutesByRelay relayPeer ++ [recipientPeer]
  let n := recipients.length - recencyMaxRoutesPerRelay
  ⟨(recipients.take n).foldl (fun recency recipient => AList.erase (relayPeer, recipient) recency)
      (AList.insert (relayPeer, recipientPeer) seenAt m.recipientRecencyByRoute),
    AList.insert relayPeer (recipients.drop n) m.recencyRoutesByRelay⟩

def isStale (now seenAt : Nat) : Bool := seenAt = 0 ∨ saturatingAdd seenAt recencyMaxAgeSecs < now

def recordRecipientSeenViaRelay (now : Nat) (iterate : List P → List P) (m : MultiPathDelivery P)
    (relayPeer recipientPeer : P) (seenAt : Nat) : MultiPathDelivery P :=
  if isStale now seenAt then m
  else
    let clamped := min seenAt (saturatingAdd now recencyMaxClockSkewSecs)
    match m.recipientRecencyByRoute.lookup (relayPeer, recipientPeer) with
    | some existing =>
      let updated := if now < existing then clamped else max existing clamped
      ⟨AList.insert (relayPeer, recipientPeer) updated m.recipientRecencyByRoute, m.recencyRoutesByRelay⟩
    | none => (m.trackRoute relayPeer recipientPeer clamped).pruneRecipientRecency iterate

end MultiPathDelivery

/-! ## One loop -/

namespace Pruning

variable (amount : List P → Nat) {relays : List P} {p : Pruning P}

theorem recipientsOf_insert (ro : Table P (List P)) (re r : P) (l : List P) :
    recipientsOf (AList.insert re l ro) r = if r = re then l else recipientsOf ro r := by
  unfold recipientsOf
  split
  · rename_i h
    rw [h, AList.lookup_insert, Option.getD_some]
  · rename_i h
    rw [AList.lookup_insert_ne h]

theorem mem_evictOne {re r x : P} :
    (r, x) ∈ (evictOne amount p re).evicted ↔ (r, x) ∈ p.evicted
      ∨ r = re ∧ x ∈ (recipientsOf p.routes re).take (min (amount (recipientsOf p.routes re)) p.toDrop) := by
  simp only [evictOne, List.mem_append, List.mem_map, Prod.mk.injEq]
  refine or_congr_right ⟨?_, ?_⟩
  · rintro ⟨y, hy, rfl, rfl⟩
    exact ⟨rfl, hy⟩
  · rintro ⟨rfl, hx⟩
    exact ⟨x, hx, rfl, rfl⟩

theorem evictFrom_of_zero (relays : List P) (h : p.toDrop = 0) :
    (∀ r, recipientsOf (evictFrom amount relays p).routes r = recipientsOf p.routes r)
      ∧ (evictFrom amount relays p).evicted = p.evicted ∧ (evictFrom amount relays p).toDrop = 0 := by
  induction relays generalizing p with
  | nil => exact ⟨fun _ => rfl, rfl, h⟩
  | cons relay relays ih =>
    have ho : (evictOne amount p relay).toDrop = 0 := by simp [evictOne, h]
    obtain ⟨hro, he, hd⟩ := ih ho
    refine ⟨fun r => (hro r).trans ?_, he.trans ?_, hd⟩
    · simp only [evictOne, h, Nat.min_zero, List.drop_zero, recipientsOf_insert]
      split
      · rename_i hr
        rw [hr]
      · rfl
    · simp [evictOne, h]

theorem evictFrom_of_enough (hno : relays.Nodup)
    (hen : (relays.map fun r => amount (recipientsOf p.routes r)).sum ≤ p.toDrop) :
    (∀ r, recipientsOf (evictFrom amount relays p).routes r
      = (recipientsOf p.routes r).drop (if r ∈ relays then amount (recipientsOf p.routes r) else 0))
    ∧ (∀ r x, (r, x) ∈ (evictFrom amount relays p).evicted ↔ (r, x) ∈ p.evicted
      ∨ x ∈ (recipientsOf p.routes r).take (if r ∈ relays then amount (recipientsOf p.routes r) else 0))
    ∧ (evictFrom amount relays p).toDrop
      = p.toDrop - (relays.map fun r => amount (recipientsOf p.routes r)).sum := by
  induction relays generalizing p with
  | nil => exact ⟨fun _ => rfl, fun r x => by simp [evictFrom], rfl⟩
  | cons relay relays ih =>
    obtain ⟨hre, hrl⟩ := List.nodup_cons.mp hno
    rw [List.map_cons, List.sum_cons] at hen ⊢
    have hn : min (amount (recipientsOf p.routes relay)) p.toDrop = amount (recipientsOf p.routes relay) := by
      omega
    have ho : ∀ r, r ≠ relay → recipientsOf (evictOne amount p relay).routes r = recipientsOf p.routes r := by
      intro r hr
      rw [evictOne, recipientsOf_insert, if_neg hr]
    have hs : (relays.map fun r => amount (recipientsOf (evictOne amount p relay).routes r)).sum
        = (relays.map fun r => amount (recipientsOf p.routes r)).sum := by
      refine congrArg List.sum (List.map_congr_left fun r hr => ?_)
      rw [ho r fun heq => hre (heq ▸ hr)]
    have hd : (evictOne amount p relay).toDrop = p.toDrop - amount (recipientsOf p.routes relay) := by
      rw [evictOne, hn]
    obtain ⟨hro, he, hl⟩ := ih (p := evictOne amount p relay) hrl (by omega)
    refine ⟨fun r => (hro r).trans ?_, fun r x => (he r x).trans ?_, ?_⟩
    · by_cases hr : r = relay
      · subst hr
        simp [evictOne, hn, recipientsOf_insert, hre]
      · rw [ho r hr]
        simp [hr]
    · by_cases hr : r = relay
      · subst hr
        simp [mem_evictOne, hn, hre]
      · rw [ho r hr]
        simp [mem_evictOne, hr]
    · show (evictFrom amount relays (evictOne amount p relay)).toDrop = _
      rw [hl, hs, hd]
      omega

theorem evictFrom_one (hn : relays.Nodup) (hs : ∀ r ∈ relays, recipientsOf p.routes r ≠ []) :
    (∀ r, recipientsOf (evictFrom (fun l => min l.length 1) relays p).routes r
      = (recipientsOf p.routes r).drop (if r ∈ relays.take p.toDrop then 1 else 0))
    ∧ (∀ r x, (r, x) ∈ (evictFrom (fun l => min l.length 1) relays p).evicted ↔ (r, x) ∈ p.evicted
      ∨ x ∈ (recipientsOf p.routes r).take (if r ∈ relays.take p.toDrop then 1 else 0)) := by
  have ho : ∀ r ∈ relays, min (recipientsOf p.routes r).length 1 = 1 := by
    intro r hr
    have hp := List.length_pos_iff.mpr (hs r hr)
    omega
  have hsu : ((relays.take p.toDrop).map fun r => min (recipientsOf p.routes r).length 1).sum
      = min p.toDrop relays.length := by
    rw [List.map_congr_left fun r hr => ho r (List.mem_of_mem_take hr)]
    simp
  obtain ⟨hro, he, hl⟩ := evictFrom_of_enough (fun l => min l.length 1)
    (hn.sublist (List.take_sublist p.toDrop relays)) (p := p) (by omega)
  have hre : evictFrom (fun l => min l.length 1) relays p = evictFrom (fun l => min l.length 1)
      (relays.drop p.toDrop) (evictFrom (fun l => min l.length 1) (relays.take p.toDrop) p) := by
    rw [evictFrom, evictFrom, evictFrom, ← List.foldl_append, List.take_append_drop]
  have hsa : ∀ r, (if r ∈ relays.take p.toDrop then min (recipientsOf p.routes r).length 1 else 0)
      = if r ∈ relays.take p.toDrop then 1 else 0 := by
    intro r
    split
    · exact ho r (List.mem_of_mem_take ‹_›)
    · rfl
  simp only [hsa] at hro he
  rw [hsu] at hl
  by_cases hlo : relays.length ≤ p.toDrop
  · rw [hre, List.drop_of_length_le hlo]
    exact ⟨hro, he⟩
  · obtain ⟨hr', he', -⟩ := evictFrom_of_zero (fun l : List P => min l.length 1)
      (relays.drop p.toDrop) (hl.trans (by omega))
    rw [hre]
    refine ⟨fun r => (hr' r).trans (hro r), fun r x => ?_⟩
    rw [he']
    exact he r x

end Pruning

/-! ## A prune -/

section

variable (relays : List P) (L : P → List P) (toDrop : Nat)

def countsOf : List Nat := relays.map fun r => (L r).length

def trimLevel : Nat :=
  Levelling.waterLevel (Levelling.excess (countsOf relays L)) toDrop recencyMaxRoutesPerRelay + 1

def losers : List P :=
  ((relays.filter fun r => trimLevel relays L toDrop ≤ (L r).length).mergeSort (· ≤ ·)).take
    (toDrop - Levelling.excess (countsOf relays L) (trimLevel relays L toDrop))

def cutOf (r : P) : Nat :=
  (L r).length - trimLevel relays L toDrop + if r ∈ losers relays L toDrop then 1 else 0

variable {relays L toDrop} {relays' : List P}

theorem mergeSort_perm_eq {l l' : List P} (h : l.Perm l') : l.mergeSort (· ≤ ·) = l'.mergeSort (· ≤ ·) := by
  refine List.Perm.eq_of_pairwise' (r := (· ≤ ·)) ?_ ?_
    ((List.mergeSort_perm _ _).trans (h.trans (List.mergeSort_perm _ _).symm))
  all_goals exact (List.pairwise_mergeSort' (· ≤ ·) _)

theorem cutOf_perm (h : relays.Perm relays') : cutOf relays L toDrop = cutOf relays' L toDrop := by
  have he : Levelling.excess (countsOf relays L) = Levelling.excess (countsOf relays' L) :=
    funext (Levelling.excess_perm (h.map _))
  have hl : trimLevel relays L toDrop = trimLevel relays' L toDrop := by rw [trimLevel, trimLevel, he]
  have hlo : losers relays L toDrop = losers relays' L toDrop := by
    rw [losers, losers, hl, he, mergeSort_perm_eq (h.filter _)]
  funext r
  rw [cutOf, cutOf, hl, hlo]

omit [LinearOrder P] in
theorem trimLevel_spec (hq : ∀ r, (L r).length ≤ recencyMaxRoutesPerRelay) (hp : 0 < toDrop)
    (he : toDrop ≤ (countsOf relays L).sum) :
    trimLevel relays L toDrop ≤ recencyMaxRoutesPerRelay
      ∧ Levelling.excess (countsOf relays L) (trimLevel relays L toDrop) < toDrop
      ∧ toDrop - Levelling.excess (countsOf relays L) (trimLevel relays L toDrop)
        ≤ (relays.filter fun r => trimLevel relays L toDrop ≤ (L r).length).length := by
  have ha : Levelling.excess (countsOf relays L) 0 = (countsOf relays L).sum := by
    simp [Levelling.excess]
  have hto : Levelling.excess (countsOf relays L) recencyMaxRoutesPerRelay = 0 := by
    refine Levelling.excess_eq_zero fun c hc => ?_
    obtain ⟨r, -, rfl⟩ := List.mem_map.mp hc
    exact hq r
  have ht := Levelling.le_taken_waterLevel (he.trans_eq ha.symm) recencyMaxRoutesPerRelay
  have hl : trimLevel relays L toDrop ≤ recencyMaxRoutesPerRelay := by
    rcases Nat.lt_or_eq_of_le (Levelling.waterLevel_le (Levelling.excess (countsOf relays L)) toDrop
      recencyMaxRoutesPerRelay) with hlt | heq
    · exact hlt
    · rw [heq, hto] at ht
      omega
  refine ⟨hl, Levelling.taken_lt_of_waterLevel_lt (Nat.lt_succ_self _) hl, ?_⟩
  rw [Levelling.excess_succ] at ht
  have hco : ((countsOf relays L).filter (trimLevel relays L toDrop - 1 < ·)).length
      = (relays.filter fun r => trimLevel relays L toDrop ≤ (L r).length).length := by
    rw [countsOf, List.filter_map, List.length_map]
    rfl
  rw [← hco]
  exact Nat.sub_le_iff_le_add'.mpr ht

theorem sum_cutOf (hn : relays.Nodup) (hq : ∀ r, (L r).length ≤ recencyMaxRoutesPerRelay)
    (hpo : 0 < toDrop) (he : toDrop ≤ (countsOf relays L).sum) :
    (relays.map (cutOf relays L toDrop)).sum = toDrop := by
  obtain ⟨-, hle, hm⟩ := trimLevel_spec hq hpo he
  have hl : (losers relays L toDrop).length
      = toDrop - Levelling.excess (countsOf relays L) (trimLevel relays L toDrop) := by
    rw [losers, List.length_take, List.length_mergeSort]
    omega
  have hp : (relays.filter (· ∈ losers relays L toDrop)).Perm (losers relays L toDrop) := by
    refine (List.perm_ext_iff_of_nodup (hn.filter _) ?_).mpr fun r => ?_
    · exact (List.take_sublist _ _).nodup ((List.mergeSort_perm _ _).nodup_iff.mpr (hn.filter _))
    · rw [List.mem_filter, decide_eq_true_eq, and_iff_right_iff_imp]
      exact fun hr => List.mem_of_mem_filter (List.mem_mergeSort.mp (List.mem_of_mem_take hr))
  have ho : (relays.map fun r => if r ∈ losers relays L toDrop then 1 else 0).sum
      = (losers relays L toDrop).length := by
    rw [← hp.length_eq, Levelling.sum_indicator]
  have hs : (relays.map (cutOf relays L toDrop)).sum
      = Levelling.excess (countsOf relays L) (trimLevel relays L toDrop) + (losers relays L toDrop).length := by
    rw [← ho, Levelling.excess, countsOf, List.map_map, ← List.sum_map_add]
    rfl
  omega

end

theorem evictFrom_twice {ro : Table P (List P)} {relays : List P} {t toDrop : Nat} (hn : relays.Nodup)
    (hem : ∀ r, r ∉ relays → recipientsOf ro r = []) (hp : 0 < t)
    (hls : Levelling.excess (countsOf relays (recipientsOf ro)) t ≤ toDrop) :
    let tr := Pruning.evictFrom (fun l => l.length - t) relays ⟨ro, [], toDrop⟩
    let le := relays.filter fun r => (recipientsOf tr.routes r).length = t ∧ 0 < t
    let pr := Pruning.evictFrom (fun l => min l.length 1) (le.mergeSort (· ≤ ·)) tr
    let cut := fun r => (recipientsOf ro r).length - t
      + if r ∈ ((relays.filter fun r => t ≤ (recipientsOf ro r).length).mergeSort (· ≤ ·)).take
          (toDrop - Levelling.excess (countsOf relays (recipientsOf ro)) t) then 1 else 0
    (∀ r, recipientsOf pr.routes r = (recipientsOf ro r).drop (cut r))
      ∧ ∀ r x, (r, x) ∈ pr.evicted ↔ x ∈ (recipientsOf ro r).take (cut r) := by
  intro tr le pr cut
  have hs : (relays.map fun r => (recipientsOf ro r).length - t).sum
      = Levelling.excess (countsOf relays (recipientsOf ro)) t := by
    rw [Levelling.excess, countsOf, List.map_map]
    rfl
  obtain ⟨hro, he, hl⟩ := Pruning.evictFrom_of_enough (fun l => l.length - t)
    (p := ⟨ro, [], toDrop⟩) hn (hs.trans_le hls)
  have hc : ∀ r, (if r ∈ relays then (recipientsOf ro r).length - t else 0)
      = (recipientsOf ro r).length - t := by
    intro r
    split
    · rfl
    · rw [hem r ‹_›, List.length_nil, Nat.zero_sub]
  simp only [hc, hs, List.not_mem_nil, false_or] at hro he hl
  have hle : le = relays.filter fun r => t ≤ (recipientsOf ro r).length := by
    refine List.filter_congr fun r _ => ?_
    rw [hro r, List.length_drop]
    exact decide_eq_decide.mpr (by omega)
  have hso : (le.mergeSort (· ≤ ·)).Nodup := (List.mergeSort_perm _ _).nodup_iff.mpr (hn.filter _)
  obtain ⟨hr', he'⟩ := Pruning.evictFrom_one (p := tr) hso (by
    intro r hr
    have hm := of_decide_eq_true (List.mem_filter.mp (List.mem_mergeSort.mp hr)).2
    exact List.ne_nil_of_length_pos (by omega))
  refine ⟨fun r => (hr' r).trans ?_, fun r x => (he' r x).trans ?_⟩
  · rw [hro r, List.drop_drop, hle, show tr.toDrop = _ from hl]
  · rw [he r x, hro r, hle, show tr.toDrop = _ from hl, List.take_add, List.mem_append]

theorem cutOf_fair (relays : List P) (L : P → List P) (toDrop : Nat) (r : P) :
    cutOf relays L toDrop r ≤ (L r).length
      ∧ (L r).length - cutOf relays L toDrop r ≤ trimLevel relays L toDrop
      ∧ (0 < cutOf relays L toDrop r →
        trimLevel relays L toDrop ≤ (L r).length - cutOf relays L toDrop r + 1) := by
  have hp : 0 < trimLevel relays L toDrop := Nat.succ_pos _
  have hl : r ∈ losers relays L toDrop → trimLevel relays L toDrop ≤ (L r).length := by
    intro hr
    have hm := List.mem_mergeSort.mp (List.mem_of_mem_take hr)
    exact of_decide_eq_true (List.mem_filter.mp hm).2
  rw [cutOf]
  split
  · have hle := hl ‹_›
    omega
  · omega

namespace MultiPathDelivery

variable {m : MultiPathDelivery P}

/-- The two tables agree, and no relay has too many routes. -/
structure Indexed (m : MultiPathDelivery P) : Prop where
  relay : ∀ r, r ∈ m.recencyRoutesByRelay.keys ↔ recipientsOf m.recencyRoutesByRelay r ≠ []
  nodup : ∀ r, (recipientsOf m.recencyRoutesByRelay r).Nodup
  quota : ∀ r, (recipientsOf m.recencyRoutesByRelay r).length ≤ recencyMaxRoutesPerRelay
  index : ∀ r x, (r, x) ∈ m.recipientRecencyByRoute.keys ↔ x ∈ recipientsOf m.recencyRoutesByRelay r

theorem Indexed.length_eq (h : Indexed m) {relays : List P} (hr : relays.Nodup)
    (ha : ∀ r, recipientsOf m.recencyRoutesByRelay r ≠ [] → r ∈ relays) :
    m.recipientRecencyByRoute.keys.length = (countsOf relays (recipientsOf m.recencyRoutesByRelay)).sum := by
  have hp : m.recipientRecencyByRoute.keys.Perm
      (relays.flatMap fun r => (recipientsOf m.recencyRoutesByRelay r).map (r, ·)) := by
    refine (List.perm_ext_iff_of_nodup m.recipientRecencyByRoute.keys_nodup ?_).mpr ?_
    · refine List.nodup_flatMap.mpr ⟨fun r _ => (h.nodup r).map (Prod.mk_right_injective r), ?_⟩
      refine hr.imp fun {r r'} hn => ?_
      intro key hk hk'
      obtain ⟨x, -, rfl⟩ := List.mem_map.mp hk
      obtain ⟨y, -, he⟩ := List.mem_map.mp hk'
      exact hn (Prod.mk.inj he).1.symm
    · rintro ⟨r, x⟩
      rw [h.index, List.mem_flatMap]
      constructor
      · intro hx
        exact ⟨r, ha r (List.ne_nil_of_mem hx), List.mem_map.mpr ⟨x, hx, rfl⟩⟩
      · rintro ⟨r', -, hx⟩
        obtain ⟨y, hy, he⟩ := List.mem_map.mp hx
        cases he
        exact hy
  rw [hp.length_eq, List.length_flatMap, countsOf]
  simp

theorem mem_foldl_erase {key : P × P} {e : List (P × P)} {r : Table (P × P) Nat} :
    key ∈ (e.foldl (fun r key => AList.erase key r) r).keys
      ↔ key ∈ r.keys ∧ key ∉ e := by
  induction e generalizing r with
  | nil => simp
  | cons k e ih =>
    rw [List.foldl_cons, ih, ← AList.mem_keys, AList.mem_erase, AList.mem_keys, List.mem_cons, not_or]
    tauto

theorem recipientsOf_retain (ro : Table P (List P)) (r : P) :
    recipientsOf (ro.filterMapValues fun l => if l.isEmpty then none else some l) r = recipientsOf ro r
      ∧ (r ∈ (ro.filterMapValues fun l => if l.isEmpty then none else some l).keys
        ↔ recipientsOf ro r ≠ []) := by
  rw [← AList.mem_keys, ← AList.lookup_isSome, recipientsOf, recipientsOf, Table.lookup_filterMapValues]
  cases ro.lookup r with
  | none => simp
  | some l => cases l <;> simp

omit [LinearOrder P] in
theorem mem_drop_iff {l : List P} (h : l.Nodup) {n : Nat} {x : P} :
    x ∈ l.drop n ↔ x ∈ l ∧ x ∉ l.take n := by
  rw [← List.take_append_drop n l, List.nodup_append] at h
  constructor
  · intro hx
    exact ⟨List.mem_of_mem_drop hx, fun ht => h.2.2 x ht x hx rfl⟩
  · rintro ⟨hx, ht⟩
    rw [← List.take_append_drop n l, List.mem_append] at hx
    exact hx.resolve_left ht

/-- **What a prune leaves**: each relay loses its oldest routes, as many as `cutOf` says. -/
theorem Indexed.prune (h : Indexed m) {i : List P → List P} (hi : ∀ l, (i l).Perm l)
    (hf : recencyMaxTrackedRoutes < m.recipientRecencyByRoute.keys.length) :
    let L := recipientsOf m.recencyRoutesByRelay
    let cut := cutOf (i m.recencyRoutesByRelay.keys) L
      (m.recipientRecencyByRoute.keys.length - recencyPruneTargetRoutes)
    let m' := m.pruneRecipientRecency i
    (∀ r, recipientsOf m'.recencyRoutesByRelay r = (L r).drop (cut r)) ∧ Indexed m'
      ∧ m'.recipientRecencyByRoute.keys.length = recencyPruneTargetRoutes := by
  intro L cut m'
  let relays := i m.recencyRoutesByRelay.keys
  let toDrop := m.recipientRecencyByRoute.keys.length - recencyPruneTargetRoutes
  have hre : relays.Nodup := (hi _).nodup_iff.mpr m.recencyRoutesByRelay.keys_nodup
  have ha : ∀ r, L r ≠ [] → r ∈ relays := fun r hr => (hi _).mem_iff.mpr ((h.relay r).mpr hr)
  have ht : _ = (countsOf relays L).sum := h.length_eq hre ha
  have hta : recencyPruneTargetRoutes ≤ recencyMaxTrackedRoutes := by decide
  have hp : 0 < toDrop := by omega
  have he : toDrop ≤ (countsOf relays L).sum := (Nat.sub_le _ _).trans_eq ht
  obtain ⟨hle, hls, -⟩ := trimLevel_spec h.quota hp he
  -- the counts are within the quota, and the histogram gives the excess
  have hco : relays.map (fun r => min (L r).length recencyMaxRoutesPerRelay) = countsOf relays L :=
    List.map_congr_left fun r _ => Nat.min_eq_left (h.quota r)
  have hex : (fun le => ∑ c ∈ Finset.Ioc le recencyMaxRoutesPerRelay,
      (countsOf relays L).count c * (c - le)) = Levelling.excess (countsOf relays L) := by
    funext le
    refine Levelling.sum_histogram (fun c hc => ?_) le
    obtain ⟨r, -, rfl⟩ := List.mem_map.mp hc
    exact h.quota r
  have hl := evictFrom_twice hre (fun r hr => of_not_not fun hn => hr (ha r hn)) (Nat.succ_pos _)
    (Nat.le_of_lt hls)
  have hm' : m' = m.pruneRecipientRecency i := rfl
  simp only [pruneRecipientRecency, if_neg (Nat.not_le.mpr hf)] at hm'
  have hl' : Levelling.waterLevel (Levelling.excess (countsOf relays L))
      (m.recipientRecencyByRoute.keys.length - recencyPruneTargetRoutes) recencyMaxRoutesPerRelay + 1
      ≤ recencyMaxRoutesPerRelay := hle
  rw [hco, hex, min_eq_left hl'] at hm'
  have hcu : ∀ r, recipientsOf m'.recencyRoutesByRelay r = (L r).drop (cut r) := by
    intro r
    rw [hm']
    exact (recipientsOf_retain _ r).1.trans (hl.1 r)
  have hin : Indexed m' := by
    refine ⟨fun r => ?_, fun r => ?_, fun r => ?_, fun r x => ?_⟩
    · rw [hm', (recipientsOf_retain _ r).1, (recipientsOf_retain _ r).2]
    · rw [hcu]
      exact (List.drop_sublist _ _).nodup (h.nodup r)
    · rw [hcu, List.length_drop]
      exact (Nat.sub_le _ _).trans (h.quota r)
    · rw [hcu, mem_drop_iff (h.nodup r), hm', mem_foldl_erase, h.index]
      exact and_congr_right fun _ => not_congr (hl.2 r x)
  refine ⟨hcu, hin, ?_⟩
  have hcv : ∀ r, recipientsOf m'.recencyRoutesByRelay r ≠ [] → r ∈ relays := by
    intro r hr
    rw [hcu] at hr
    exact ha r fun hni => hr (by rw [hni, List.drop_nil])
  have hlf : (countsOf relays (recipientsOf m'.recencyRoutesByRelay)).sum + (relays.map cut).sum
      = (countsOf relays L).sum := by
    rw [countsOf, ← List.sum_map_add, countsOf]
    refine congrArg List.sum (List.map_congr_left fun r _ => ?_)
    have hle := (cutOf_fair relays L toDrop r).1
    rw [hcu, List.length_drop]
    exact Nat.sub_add_cancel hle
  rw [sum_cutOf hre h.quota hp he] at hlf
  rw [hin.length_eq hre hcv]
  omega

/-- **A prune is exact and fair.** -/
theorem Indexed.prune_fair (h : Indexed m) {i : List P → List P} (hi : ∀ l, (i l).Perm l)
    (hf : recencyMaxTrackedRoutes < m.recipientRecencyByRoute.keys.length) :
    let b := recipientsOf m.recencyRoutesByRelay
    let after := recipientsOf (m.pruneRecipientRecency i).recencyRoutesByRelay
    (m.pruneRecipientRecency i).recipientRecencyByRoute.keys.length = recencyPruneTargetRoutes
      ∧ ∀ r r', (after r).length < (b r).length → (after r').length ≤ (after r).length + 1 := by
  intro b after
  obtain ⟨hc, -, hle⟩ := h.prune hi hf
  refine ⟨hle, fun r r' hl => ?_⟩
  simp only [after, hc, List.length_drop] at hl ⊢
  refine (cutOf_fair _ _ _ r').2.1.trans ((cutOf_fair _ _ _ r).2.2 (Nat.pos_of_ne_zero fun hz => ?_))
  rw [hz] at hl
  exact Nat.lt_irrefl _ hl

theorem Indexed.track (h : Indexed m) {re x : P} (hne : (re, x) ∉ m.recipientRecencyByRoute.keys)
    (s : Nat) : Indexed (m.trackRoute re x s) := by
  have hro : ∀ r, recipientsOf (m.trackRoute re x s).recencyRoutesByRelay r
      = if r = re then (recipientsOf m.recencyRoutesByRelay re ++ [x]).drop
          ((recipientsOf m.recencyRoutesByRelay re ++ [x]).length - recencyMaxRoutesPerRelay)
        else recipientsOf m.recencyRoutesByRelay r :=
    fun r => Pruning.recipientsOf_insert _ _ _ _
  have hn : (recipientsOf m.recencyRoutesByRelay re ++ [x]).Nodup := by
    rw [← List.concat_eq_append, List.nodup_concat]
    exact ⟨fun hx => hne ((h.index re x).mpr hx), h.nodup re⟩
  have hp : 0 < recencyMaxRoutesPerRelay := by decide
  refine ⟨fun r => ?_, fun r => ?_, fun r => ?_, fun r y => ?_⟩
  · rw [hro, trackRoute, ← AList.mem_keys, AList.mem_insert, AList.mem_keys, h.relay]
    split
    · have hle : 0 < ((recipientsOf m.recencyRoutesByRelay re ++ [x]).drop
          ((recipientsOf m.recencyRoutesByRelay re ++ [x]).length - recencyMaxRoutesPerRelay)).length := by
        rw [List.length_drop, List.length_append, List.length_singleton]
        omega
      exact iff_of_true (.inl ‹_›) (List.ne_nil_of_length_pos hle)
    · rename_i hr
      rw [or_iff_right hr]
  · rw [hro]
    split
    · exact (List.drop_sublist _ _).nodup hn
    · exact h.nodup r
  · rw [hro]
    split
    · rw [List.length_drop]
      omega
    · exact h.quota r
  · rw [hro, trackRoute, ← List.foldl_map (f := (re, ·))
      (g := fun (rc : Table (P × P) Nat) key => AList.erase key rc), mem_foldl_erase,
      ← AList.mem_keys, AList.mem_insert, AList.mem_keys, h.index]
    split
    · rename_i hr
      subst hr
      rw [mem_drop_iff hn, List.mem_map_of_injective (Prod.mk_right_injective r), Prod.mk.injEq, mem_concat,
        and_iff_right rfl, or_comm]
    · rename_i hr
      have ho : ∀ l : List P, (r, y) ∉ l.map (re, ·) := by
        intro l hl
        obtain ⟨z, -, he⟩ := List.mem_map.mp hl
        exact hr (Prod.mk.inj he).1.symm
      rw [Prod.mk.injEq, or_iff_right fun he => hr he.1, and_iff_left (ho _)]

end MultiPathDelivery

/-! ## Runs -/

/-- A call, with the time it is made at and the order in which a table of relays is then visited. -/
structure SeenCall (P : Type) where
  relayPeer : P
  recipientPeer : P
  seenAt : Nat
  now : Nat
  iterate : List P → List P
  perm : ∀ l, (iterate l).Perm l

def SeenCall.accepted (call : SeenCall P) : Bool := !MultiPathDelivery.isStale call.now call.seenAt

namespace MultiPathDelivery

variable {m m' : MultiPathDelivery P}

def step (m : MultiPathDelivery P) (call : SeenCall P) : MultiPathDelivery P :=
  m.recordRecipientSeenViaRelay call.now call.iterate call.relayPeer call.recipientPeer call.seenAt

def tracked (m : MultiPathDelivery P) (call : SeenCall P) : MultiPathDelivery P :=
  m.trackRoute call.relayPeer call.recipientPeer
    (min call.seenAt (saturatingAdd call.now recencyMaxClockSkewSecs))

/-- **What a call does**: nothing, a new time for a route, or a new route and a prune. -/
theorem step_cases (m : MultiPathDelivery P) (c : SeenCall P) :
    (c.accepted = false ∧ m.step c = m)
    ∨ (c.accepted = true ∧ (c.relayPeer, c.recipientPeer) ∈ m.recipientRecencyByRoute.keys
      ∧ ∃ u, m.step c = ⟨AList.insert (c.relayPeer, c.recipientPeer) u
        m.recipientRecencyByRoute, m.recencyRoutesByRelay⟩)
    ∨ c.accepted = true ∧ (c.relayPeer, c.recipientPeer) ∉ m.recipientRecencyByRoute.keys
      ∧ m.step c = (m.tracked c).pruneRecipientRecency c.iterate := by
  unfold step recordRecipientSeenViaRelay SeenCall.accepted
  cases isStale c.now c.seenAt with
  | true => exact .inl ⟨rfl, rfl⟩
  | false =>
    right
    cases hl : m.recipientRecencyByRoute.lookup (c.relayPeer, c.recipientPeer) with
    | some e =>
      have hk := AList.lookup_isSome.mp (Option.isSome_of_eq_some hl)
      exact .inl ⟨rfl, hk, _, rfl⟩
    | none => exact .inr ⟨rfl, AList.lookup_eq_none.mp hl, rfl⟩

/-- The tables agree, and there are not too many routes. -/
structure Bounded (m : MultiPathDelivery P) : Prop where
  indexed : Indexed m
  length : m.recipientRecencyByRoute.keys.length ≤ recencyMaxTrackedRoutes

theorem Bounded.new : Bounded (new : MultiPathDelivery P) :=
  ⟨⟨fun r => by simp [MultiPathDelivery.new, recipientsOf], fun r => List.nodup_nil, fun r => Nat.zero_le _,
    fun r x => by simp [MultiPathDelivery.new, recipientsOf]⟩, Nat.zero_le _⟩

theorem Bounded.step (h : Bounded m) (c : SeenCall P) : Bounded (m.step c) := by
  rcases step_cases m c with ⟨-, he⟩ | ⟨-, hk, u, he⟩ | ⟨-, hn, he⟩
  · rwa [he]
  · have hi : Indexed (m.step c) := by
      refine ⟨?_, ?_, ?_, fun r x => ?_⟩
      · rw [he]
        exact h.indexed.relay
      · rw [he]
        exact h.indexed.nodup
      · rw [he]
        exact h.indexed.quota
      · rw [he, ← h.indexed.index, ← AList.mem_keys, AList.mem_insert, AList.mem_keys, or_iff_right_iff_imp]
        intro hr
        rw [hr]
        exact hk
    have ha := fun r => (h.indexed.relay r).mpr
    refine ⟨hi, ?_⟩
    rw [hi.length_eq m.recencyRoutesByRelay.keys_nodup (by rw [he]; exact ha), he,
      ← h.indexed.length_eq m.recencyRoutesByRelay.keys_nodup ha]
    exact h.length
  · rw [he]
    have ht : Indexed (m.tracked c) := h.indexed.track hn _
    by_cases hf : recencyMaxTrackedRoutes < (m.tracked c).recipientRecencyByRoute.keys.length
    · obtain ⟨-, hi, hl⟩ := ht.prune c.perm hf
      exact ⟨hi, hl.trans_le (by decide)⟩
    · rw [pruneRecipientRecency, if_pos (Nat.le_of_not_lt hf)]
      exact ⟨ht, Nat.le_of_not_lt hf⟩

/-- The routes that calls add, in the order in which they are added. -/
def added (m : MultiPathDelivery P) : List (SeenCall P) → List (P × P)
  | [] => []
  | call :: calls =>
    let route := (call.relayPeer, call.recipientPeer)
    if call.accepted ∧ route ∉ m.recipientRecencyByRoute.keys then route :: added (m.step call) calls
    else added (m.step call) calls

/-- The recipients of a relay among routes. -/
def recipientsIn (routes : List (P × P)) (relay : P) : List P :=
  (routes.filter (·.1 = relay)).map (·.2)

theorem recipientsIn_append (l l' : List (P × P)) (r : P) :
    recipientsIn (l ++ l') r = recipientsIn l r ++ recipientsIn l' r := by
  simp [recipientsIn]

theorem added_append (m : MultiPathDelivery P) (c c' : List (SeenCall P)) :
    added m (c ++ c') = added m c ++ added (c.foldl MultiPathDelivery.step m) c' := by
  induction c generalizing m with
  | nil => rfl
  | cons call c ih =>
    simp only [List.cons_append, added, ih, List.foldl_cons]
    split <;> rfl

/-- A relay's list with a new route is the end of the list it had and the route. -/
theorem tracked_suffix {c : SeenCall P} (ha : c.accepted = true)
    (hn : (c.relayPeer, c.recipientPeer) ∉ m.recipientRecencyByRoute.keys) (r : P) :
    recipientsOf (m.tracked c).recencyRoutesByRelay r
      <:+ recipientsOf m.recencyRoutesByRelay r ++ recipientsIn (added m [c]) r := by
  simp only [tracked, trackRoute, Pruning.recipientsOf_insert, added, ha, hn, not_false_eq_true, and_self,
    if_true]
  split
  · rename_i hr
    subst hr
    simpa [recipientsIn] using List.drop_suffix _ _
  · rename_i hr
    simp [recipientsIn, Ne.symm hr]

theorem prune_suffix (h : Indexed m) (c : SeenCall P) (r : P) :
    recipientsOf (m.pruneRecipientRecency c.iterate).recencyRoutesByRelay r
      <:+ recipientsOf m.recencyRoutesByRelay r := by
  by_cases hf : recencyMaxTrackedRoutes < m.recipientRecencyByRoute.keys.length
  · rw [(h.prune c.perm hf).1 r]
    exact List.drop_suffix _ _
  · rw [pruneRecipientRecency, if_pos (Nat.le_of_not_lt hf)]

theorem Bounded.step_suffix (h : Bounded m) (c : SeenCall P) (r : P) :
    recipientsOf (m.step c).recencyRoutesByRelay r
      <:+ recipientsOf m.recencyRoutesByRelay r ++ recipientsIn (added m [c]) r := by
  rcases step_cases m c with ⟨ha, he⟩ | ⟨-, hk, u, he⟩ | ⟨ha, hn, he⟩
  · simp [he, added, ha, recipientsIn]
  · simp [he, added, hk, recipientsIn]
  · rw [he]
    exact (prune_suffix (h.indexed.track hn _) c r).trans (tracked_suffix ha hn r)

theorem bounded_run (c : List (SeenCall P)) : Bounded (c.foldl step new) := by
  have hc : ∀ call ∈ c, True := fun _ _ => trivial
  exact (Guarded.of_forall step hc new).invariant Bounded (fun m call h _ => h.step call) .new

/-- The list of a relay holds the routes added last, in order. -/
theorem run_suffix (c : List (SeenCall P)) (r : P) :
    recipientsOf (c.foldl step new).recencyRoutesByRelay r <:+ recipientsIn (added new c) r := by
  induction c using List.reverseRecOn with
  | nil => exact List.suffix_rfl
  | append_singleton c call ih =>
    obtain ⟨rest, hr⟩ := ih
    rw [List.foldl_append, added_append, recipientsIn_append, ← hr, List.append_assoc]
    exact ((bounded_run c).step_suffix call r).trans (List.suffix_append _ _)

end MultiPathDelivery

open MultiPathDelivery

/-- **The routes are bounded, indexed and pruned fairly**, and the oldest go. -/
theorem recency_bounded (calls : List (SeenCall P)) :
    let m := calls.foldl step new
    m.recipientRecencyByRoute.keys.length ≤ recencyMaxTrackedRoutes
      ∧ (∀ r, (recipientsOf m.recencyRoutesByRelay r).length ≤ recencyMaxRoutesPerRelay
        ∧ (recipientsOf m.recencyRoutesByRelay r).Nodup
        ∧ recipientsOf m.recencyRoutesByRelay r <:+ recipientsIn (added new calls) r)
      ∧ (∀ r x, (r, x) ∈ m.recipientRecencyByRoute.keys ↔ x ∈ recipientsOf m.recencyRoutesByRelay r)
      ∧ ∀ call : SeenCall P, call.accepted = true →
        (call.relayPeer, call.recipientPeer) ∉ m.recipientRecencyByRoute.keys →
        recencyMaxTrackedRoutes < (m.tracked call).recipientRecencyByRoute.keys.length →
        let before := recipientsOf (m.tracked call).recencyRoutesByRelay
        let after := recipientsOf (m.step call).recencyRoutesByRelay
        (m.step call).recipientRecencyByRoute.keys.length = recencyPruneTargetRoutes
          ∧ (∀ r, before r <:+ recipientsIn (added new (calls ++ [call])) r ∧ after r <:+ before r)
          ∧ ∀ r r', (after r).length < (before r).length → (after r').length ≤ (after r).length + 1 := by
  intro m
  have h : Bounded m := bounded_run calls
  refine ⟨h.length, fun r => ⟨h.indexed.quota r, h.indexed.nodup r, run_suffix calls r⟩, h.indexed.index, ?_⟩
  intro call ha hn hf
  have hs : m.step call = (m.tracked call).pruneRecipientRecency call.iterate := by
    rcases step_cases m call with ⟨hr, -⟩ | ⟨-, hk, -⟩ | ⟨-, -, he⟩
    · rw [ha] at hr
      cases hr
    · exact absurd hk hn
    · exact he
  rw [hs]
  have ht : Indexed (m.tracked call) := h.indexed.track hn _
  obtain ⟨hl, hfair⟩ := ht.prune_fair call.perm hf
  refine ⟨hl, fun r => ⟨?_, prune_suffix ht call r⟩, hfair⟩
  obtain ⟨rest, hr⟩ := run_suffix calls r
  rw [added_append, recipientsIn_append, ← hr, List.append_assoc]
  exact (tracked_suffix ha hn r).trans (List.suffix_append _ _)

/-! ## Two runs -/

namespace MultiPathDelivery

variable {m m' : MultiPathDelivery P}

def SameRoutes (m m' : MultiPathDelivery P) : Prop :=
  recipientsOf m.recencyRoutesByRelay = recipientsOf m'.recencyRoutesByRelay

theorem SameRoutes.keys_perm (h : SameRoutes m m') (hm : Indexed m) (hm' : Indexed m') :
    m.recencyRoutesByRelay.keys.Perm m'.recencyRoutesByRelay.keys := by
  refine (List.perm_ext_iff_of_nodup (AList.keys_nodup _) (AList.keys_nodup _)).mpr fun r => ?_
  rw [hm.relay, hm'.relay, h]

theorem SameRoutes.prune (h : SameRoutes m m') (hm : Indexed m) (hm' : Indexed m')
    {i i' : List P → List P} (hi : ∀ l, (i l).Perm l) (hi' : ∀ l, (i' l).Perm l) :
    SameRoutes (m.pruneRecipientRecency i) (m'.pruneRecipientRecency i') := by
  have ht : m.recipientRecencyByRoute.keys.length = m'.recipientRecencyByRoute.keys.length := by
    rw [hm.length_eq (AList.keys_nodup _) fun r => (hm.relay r).mpr,
      hm'.length_eq (AList.keys_nodup _) fun r => (hm'.relay r).mpr, h]
    exact ((h.keys_perm hm hm').map _).sum_nat
  by_cases hf : recencyMaxTrackedRoutes < m.recipientRecencyByRoute.keys.length
  · obtain ⟨hc, -⟩ := hm.prune hi hf
    obtain ⟨hc', -⟩ := hm'.prune hi' (ht ▸ hf)
    have hp := (hi m.recencyRoutesByRelay.keys).trans
      ((h.keys_perm hm hm').trans (hi' m'.recencyRoutesByRelay.keys).symm)
    funext r
    rw [hc, hc', h, ht, cutOf_perm hp]
  · have hf' := hf
    rw [ht] at hf'
    rw [pruneRecipientRecency, if_pos (Nat.le_of_not_lt hf), pruneRecipientRecency,
      if_pos (Nat.le_of_not_lt hf')]
    exact h

theorem SameRoutes.step (h : SameRoutes m m') (hm : Bounded m) (hm' : Bounded m') {c c' : SeenCall P}
    (hre : c.relayPeer = c'.relayPeer) (hr : c.recipientPeer = c'.recipientPeer)
    (ha : c.accepted = c'.accepted) : SameRoutes (m.step c) (m'.step c') := by
  have hk : (c.relayPeer, c.recipientPeer) ∈ m.recipientRecencyByRoute.keys
      ↔ (c'.relayPeer, c'.recipientPeer) ∈ m'.recipientRecencyByRoute.keys := by
    rw [hm.indexed.index, hm'.indexed.index, h, hre, hr]
  rcases step_cases m c with ⟨hc, he⟩ | ⟨hc, hky, u, he⟩ | ⟨hc, hn, he⟩ <;>
    rcases step_cases m' c' with ⟨hc', he'⟩ | ⟨hc', hk', u', he'⟩ | ⟨hc', hn', he'⟩ <;>
    rw [ha, hc'] at hc
  all_goals try cases hc
  · rwa [he, he']
  · rw [he, he']
    exact h
  · exact absurd (hk.mp hky) hn'
  · exact absurd (hk.mpr hk') hn
  · rw [he, he']
    refine SameRoutes.prune ?_ (hm.indexed.track hn _) (hm'.indexed.track hn' _) c.perm c'.perm
    funext r
    simp only [trackRoute, Pruning.recipientsOf_insert]
    rw [hre, hr, h]

end MultiPathDelivery

/-- **Claimed times do not steer what is evicted.** -/
theorem eviction_unsteered (calls calls' : List (SeenCall P))
    (h : calls.map (fun call => (call.relayPeer, call.recipientPeer, call.accepted))
      = calls'.map fun call => (call.relayPeer, call.recipientPeer, call.accepted)) (route : P × P) :
    route ∈ (calls.foldl step new).recipientRecencyByRoute.keys
      ↔ route ∈ (calls'.foldl step new).recipientRecencyByRoute.keys := by
  have hs : ∀ m m' : MultiPathDelivery P, SameRoutes m m' → Bounded m → Bounded m' →
      SameRoutes (calls.foldl step m) (calls'.foldl step m') := by
    induction calls generalizing calls' with
    | nil =>
      intro m m' hr _ _
      rw [List.map_eq_nil_iff.mp h.symm]
      exact hr
    | cons call calls ih =>
      cases calls' with
      | nil => cases h
      | cons c' calls' =>
        intro m m' hr hm hm'
        rw [List.map_cons, List.map_cons, List.cons.injEq, Prod.mk.injEq, Prod.mk.injEq] at h
        obtain ⟨⟨hrl, hre, ha⟩, hrs⟩ := h
        exact ih calls' hrs _ _ (hr.step hm hm' hrl hre ha) (hm.step call) (hm'.step c')
  obtain ⟨relay, r⟩ := route
  rw [(bounded_run calls).indexed.index, (bounded_run calls').indexed.index,
    hs new new rfl .new .new]

end

/-- Relay 1 reports more recipients than it may keep, with times of its choice. -/
def manyReports (seenAt : Nat → Nat) : List (SeenCall Nat) :=
  (List.range 66).map fun recipient => ⟨1, recipient, seenAt recipient, 1000000, id, fun l => .refl l⟩

def afterReports (seenAt : Nat → Nat) : MultiPathDelivery Nat :=
  (manyReports seenAt).foldl MultiPathDelivery.step .new

theorem eviction_unsteered_beyond_quota :
    ((1, 0) ∈ (afterReports (900000 + ·)).recipientRecencyByRoute.keys
      ↔ (1, 0) ∈ (afterReports (u64Max - ·)).recipientRecencyByRoute.keys)
      ∧ (1, 0) ∉ (afterReports (900000 + ·)).recipientRecencyByRoute.keys :=
  ⟨eviction_unsteered (manyReports (900000 + ·)) (manyReports (u64Max - ·)) (by decide +kernel) (1, 0),
    by decide +kernel⟩

end SCMessenger
