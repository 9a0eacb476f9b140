import SCMessenger.Lib.Queues
import SCMessenger.Routing.Layers

/-!
# The table of global routes

`routing/global.rs`: routes are kept by hint.  A newer route from a next hop replaces the held one, but the
total is compared first, so a full table takes no news about the routes it holds.
-/

namespace SCMessenger

namespace Routing

/-- How routes compare: sorted with the worst first, and whether a new one is better than the worst. -/
structure RouteOrder where
  sort : List RouteAdvertisement → List RouteAdvertisement
  perm : ∀ l, (sort l).Perm l
  better : RouteAdvertisement → RouteAdvertisement → Bool

def exactOrder : RouteOrder where
  sort l := l.mergeSort fun a b =>
    if a.hopCount ≠ b.hopCount then b.hopCount ≤ a.hopCount
    else if 1 / 100 < |a.reliability - b.reliability| then a.reliability ≤ b.reliability
    else a.lastConfirmed ≤ b.lastConfirmed
  perm l := List.mergeSort_perm l _
  better ad worst := ad.hopCount < worst.hopCount
    ∨ ad.hopCount = worst.hopCount ∧ worst.reliability < ad.reliability
    ∨ ad.hopCount = worst.hopCount ∧ |ad.reliability - worst.reliability| ≤ 1 / 100
      ∧ worst.lastConfirmed < ad.lastConfirmed

namespace GlobalRoutes

def routeCount (table : GlobalRoutes) : Nat := table.routes.total List.length

def routesForHint (table : GlobalRoutes) (hint : Hint) : List RouteAdvertisement :=
  (table.routes.lookup hint).getD []

def put (table : GlobalRoutes) (hint : Hint) (routes : List RouteAdvertisement) : GlobalRoutes :=
  { table with routes := table.routes.insert hint routes }

/-- Whether a route was added, or nothing if the call panicked on an empty list. -/
def addRoute (order : RouteOrder) (table : GlobalRoutes) (ad : RouteAdvertisement) :
    Option Bool × GlobalRoutes :=
  if table.maxTotalRoutes ≤ table.routeCount then (some false, table)
  else
    let held := table.routesForHint ad.destinationHint
    let put := table.put ad.destinationHint
    match held.find? (·.nextHop = ad.nextHop) with
    | some existing =>
      if ad.sequence ≤ existing.sequence then (some false, put held)
      else (some true, put (updateFirst (·.nextHop = ad.nextHop) (fun _ => ad) held))
    | none =>
      if table.maxRoutesPerHint ≤ held.length then
        match order.sort held with
        | [] => (none, put [])
        | worst :: rest =>
          if order.better ad worst then (some true, put (rest ++ [ad])) else (some false, put (worst :: rest))
      else (some true, put (held ++ [ad]))

/-- Keep the routes of a kind, and no hint without routes: how many were removed, and the table. -/
def retain (keep : RouteAdvertisement → Bool) (table : GlobalRoutes) : Nat × GlobalRoutes :=
  (table.routes.total (List.countP fun route => !keep route),
    { table with routes := table.routes.filterMapValues fun routes =>
        if (routes.filter keep).isEmpty then none else some (routes.filter keep) })

def cleanup (table : GlobalRoutes) (now : Nat) : Nat × GlobalRoutes :=
  let (removed, table) := table.retain fun route => !decide (route.ttl ≤ now - route.lastConfirmed)
  (removed, { table with pendingRequests := (table.pendingRequests.purge fun requestedAt =>
    decide (300 < now - requestedAt)).2 })

def removeRoutesVia (table : GlobalRoutes) (peerId : Arr 32) : Nat × GlobalRoutes :=
  table.retain fun route => decide (route.nextHop ≠ peerId)

/-! ## The bounds -/

/-- A list of routes as a hint may hold it. -/
structure WellKept (max : Nat) (hint : Hint) (routes : List RouteAdvertisement) : Prop where
  length_le : routes.length ≤ max
  nodup : (routes.map (·.nextHop)).Nodup
  keyed : ∀ r ∈ routes, r.destinationHint = hint

/-- At most `max` routes for each hint and `maxTotal` in all, one for each hint and next hop. -/
structure Bounded (max maxTotal : Nat) (table : GlobalRoutes) : Prop where
  limits : table.maxRoutesPerHint = max ∧ table.maxTotalRoutes = maxTotal
  perHint : ∀ hint, WellKept max hint (table.routesForHint hint)
  total : table.routeCount ≤ maxTotal

variable {table : GlobalRoutes} {order : RouteOrder} {ad : RouteAdvertisement} {hint : Hint} {max maxTotal : Nat}
  {routes : List RouteAdvertisement}

theorem wellKept_nil : WellKept max hint [] := ⟨Nat.zero_le _, .nil, by simp⟩

theorem WellKept.perm {l : List RouteAdvertisement} (h : WellKept max hint routes) (hp : l.Perm routes) :
    WellKept max hint l where
  length_le := hp.length_eq ▸ h.length_le
  nodup := (hp.map _).nodup_iff.mpr h.nodup
  keyed r hr := h.keyed r (hp.mem_iff.mp hr)

theorem WellKept.sublist {l : List RouteAdvertisement} (h : WellKept max hint routes) (hs : l.Sublist routes) :
    WellKept max hint l where
  length_le := hs.length_le.trans h.length_le
  nodup := h.nodup.sublist (hs.map _)
  keyed r hr := h.keyed r (hs.subset hr)

theorem WellKept.concat (h : WellKept max ad.destinationHint routes) (hl : routes.length < max)
    (hn : ∀ r ∈ routes, r.nextHop ≠ ad.nextHop) : WellKept max ad.destinationHint (routes ++ [ad]) where
  length_le := by
    rw [List.length_append]
    exact hl
  nodup := by
    rw [List.map_append, List.nodup_append]
    refine ⟨h.nodup, by simp, fun a ha b hb he => ?_⟩
    obtain ⟨r, hr, rfl⟩ := List.mem_map.mp ha
    exact hn r hr (he.trans (by simpa using hb))
  keyed r hr := by
    rcases List.mem_append.mp hr with hr | hr
    · exact h.keyed r hr
    · rw [List.mem_singleton.mp hr]

theorem WellKept.replace (h : WellKept max ad.destinationHint routes) :
    WellKept max ad.destinationHint (updateFirst (·.nextHop = ad.nextHop) (fun _ => ad) routes) where
  length_le := length_updateFirst routes ▸ h.length_le
  nodup := by
    rw [map_updateFirst fun r hr => (of_decide_eq_true hr).symm]
    exact h.nodup
  keyed := (forall_updateFirst_iff h.keyed).mpr fun _ _ => rfl

/-- While there is room, the hint gets a list as it should be, at most one longer. -/
theorem addRoute_eq_put (h : table.Bounded max maxTotal) (order : RouteOrder) (ad : RouteAdvertisement)
    (hroom : table.routeCount < maxTotal) :
    ∃ routes, (table.addRoute order ad).2 = table.put ad.destinationHint routes
      ∧ WellKept max ad.destinationHint routes
      ∧ routes.length ≤ (table.routesForHint ad.destinationHint).length + 1 := by
  have hk := h.perHint ad.destinationHint
  rw [addRoute, h.limits.1, h.limits.2, if_neg (Nat.not_le.mpr hroom)]
  dsimp only
  cases hf : (table.routesForHint ad.destinationHint).find? (·.nextHop = ad.nextHop) with
  | some existing =>
    dsimp only
    split
    · exact ⟨_, rfl, hk, Nat.le_succ _⟩
    · exact ⟨_, rfl, hk.replace, by rw [length_updateFirst]; omega⟩
  | none =>
    have hn : ∀ r ∈ table.routesForHint ad.destinationHint, r.nextHop ≠ ad.nextHop := by
      simpa using hf
    dsimp only
    split
    · have hp := order.perm (table.routesForHint ad.destinationHint)
      cases hs : order.sort (table.routesForHint ad.destinationHint) with
      | nil => exact ⟨[], rfl, wellKept_nil, Nat.zero_le _⟩
      | cons worst rest =>
        rw [hs] at hp
        have hw := hk.perm hp
        have hle : rest.length + 1 = (table.routesForHint ad.destinationHint).length := hp.length_eq
        dsimp only
        split
        · refine ⟨_, rfl, (hw.sublist (List.sublist_cons_self _ _)).concat ?_ fun r hr => ?_, ?_⟩
          · exact Nat.lt_of_lt_of_le (Nat.lt_succ_self _) hw.length_le
          · exact hn r (hp.mem_iff.mp (List.mem_cons_of_mem _ hr))
          · rw [List.length_append, List.length_singleton]
            omega
        · exact ⟨_, rfl, hw, by rw [List.length_cons]; omega⟩
    · rename_i hl
      exact ⟨_, rfl, hk.concat (Nat.not_le.mp hl) hn, by simp⟩

theorem routesForHint_put (table : GlobalRoutes) (hint hint' : Hint) (routes : List RouteAdvertisement) :
    (table.put hint routes).routesForHint hint' = if hint' = hint then routes else table.routesForHint hint' := by
  unfold put routesForHint
  by_cases h : hint' = hint
  · subst h
    simp
  · rw [if_neg h, AList.lookup_insert_ne h]

/-- **Adding keeps the bounds.** -/
theorem Bounded.addRoute (h : table.Bounded max maxTotal) (order : RouteOrder) (ad : RouteAdvertisement) :
    (table.addRoute order ad).2.Bounded max maxTotal := by
  by_cases hroom : table.routeCount < maxTotal
  · obtain ⟨routes, he, hk, hl⟩ := addRoute_eq_put h order ad hroom
    rw [he]
    refine ⟨h.limits, fun hint => ?_, ?_⟩
    · rw [routesForHint_put]
      split
      · rename_i hh
        exact hh ▸ hk
      · exact h.perHint hint
    · have ht := Table.total_insert List.length table.routes ad.destinationHint routes
      have hh : ((table.routes.lookup ad.destinationHint).map List.length).getD 0
          = (table.routesForHint ad.destinationHint).length := by
        unfold routesForHint
        cases table.routes.lookup ad.destinationHint <;> rfl
      simp only [routeCount, put] at hroom ⊢
      omega
  · rw [GlobalRoutes.addRoute, if_pos (h.limits.2.symm ▸ Nat.not_lt.mp hroom)]
    exact h

/-- **Removing keeps the bounds.** -/
theorem Bounded.retain (h : table.Bounded max maxTotal) (keep : RouteAdvertisement → Bool) :
    (table.retain keep).2.Bounded max maxTotal := by
  refine ⟨h.limits, fun hint => ?_, le_trans (Table.total_filterMapValues_le (fun u v hv => ?_) _) h.total⟩
  · have hf : (table.retain keep).2.routesForHint hint = (table.routesForHint hint).filter keep := by
      simp only [GlobalRoutes.retain, routesForHint, Table.lookup_filterMapValues]
      cases table.routes.lookup hint with
      | none => rfl
      | some routes =>
        rw [Option.bind_some, Option.getD_some]
        split
        · rename_i he
          exact (List.isEmpty_iff.mp he).symm
        · rfl
    rw [hf]
    exact (h.perHint hint).sublist List.filter_sublist
  · split at hv
    · cases hv
    · rw [← Option.some.inj hv]
      exact List.length_filter_le keep u

/-! ## Runs -/

/-- The calls that change the table. -/
inductive RouteCall where
  | addRoute (ad : RouteAdvertisement)
  | cleanup (now : Nat)
  | removeRoutesVia (peerId : Arr 32)

def step (order : RouteOrder) (table : GlobalRoutes) : RouteCall → GlobalRoutes
  | .addRoute ad => (table.addRoute order ad).2
  | .cleanup now => (table.cleanup now).2
  | .removeRoutesVia peerId => (table.removeRoutesVia peerId).2

theorem Bounded.step (h : table.Bounded max maxTotal) (order : RouteOrder) (call : RouteCall) :
    (table.step order call).Bounded max maxTotal := by
  cases call with
  | addRoute ad => exact h.addRoute order ad
  | cleanup now => exact ⟨h.limits, (h.retain _).perHint, (h.retain _).total⟩
  | removeRoutesVia p => exact h.retain _

/-- **Every run keeps the bounds.** -/
theorem Bounded.run (h : table.Bounded max maxTotal) (order : RouteOrder) (calls : List RouteCall) :
    (calls.foldl (GlobalRoutes.step order) table).Bounded max maxTotal := by
  induction calls generalizing table with
  | nil => exact h
  | cons call calls ih => exact ih (h.step order call)

theorem bounded_withLimits (max maxTotal : Nat) : (withLimits max maxTotal).Bounded max maxTotal :=
  ⟨⟨rfl, rfl⟩, fun _ => wellKept_nil, Nat.zero_le _⟩

def Replaced (order : RouteOrder) (table : GlobalRoutes) (ad : RouteAdvertisement) : Prop :=
  (table.addRoute order ad).1 = some true
    ∧ ad ∈ (table.addRoute order ad).2.routesForHint ad.destinationHint
    ∧ ∀ r ∈ (table.addRoute order ad).2.routesForHint ad.destinationHint, r.nextHop = ad.nextHop → r = ad

/-- **News about a held route** is taken exactly when the table is not full. -/
theorem Bounded.replaced_iff (h : table.Bounded max maxTotal) {existing : RouteAdvertisement}
    (hm : existing ∈ table.routesForHint ad.destinationHint) (hh : existing.nextHop = ad.nextHop)
    (hs : existing.sequence < ad.sequence) :
    table.Replaced order ad ↔ table.routeCount < maxTotal := by
  constructor
  · rintro ⟨hr, -⟩
    by_contra hfull
    rw [GlobalRoutes.addRoute, if_pos (h.limits.2.symm ▸ Nat.not_lt.mp hfull)] at hr
    cases hr
  · intro hroom
    have hb := (h.addRoute order ad).perHint ad.destinationHint
    -- the route found is the one that is held, since there is one for each next hop
    have hf : (table.routesForHint ad.destinationHint).find? (·.nextHop = ad.nextHop) = some existing := by
      cases hf : (table.routesForHint ad.destinationHint).find? (·.nextHop = ad.nextHop) with
      | none => exact absurd hh (by simpa using List.find?_eq_none.mp hf existing hm)
      | some r =>
        have hr : r.nextHop = ad.nextHop := by simpa using List.find?_some hf
        rw [List.inj_on_of_nodup_map (h.perHint ad.destinationHint).nodup (List.mem_of_find?_eq_some hf) hm
          (hr.trans hh.symm)]
    have he : table.addRoute order ad = (some true, table.put ad.destinationHint
        (updateFirst (·.nextHop = ad.nextHop) (fun _ => ad) (table.routesForHint ad.destinationHint))) := by
      rw [GlobalRoutes.addRoute, if_neg (h.limits.2.symm ▸ Nat.not_le.mpr hroom)]
      dsimp only
      rw [hf]
      dsimp only
      rw [if_neg (Nat.not_le.mpr hs)]
    have hin : ad ∈ (table.addRoute order ad).2.routesForHint ad.destinationHint := by
      rw [he, routesForHint_put, if_pos rfl]
      exact mem_updateFirst_of_find? (f := fun _ => ad) hf
    exact ⟨by rw [he], hin, fun r hr hn => List.inj_on_of_nodup_map hb.nodup hr hin hn⟩

/-- **The global routes** stay within bounds, and news takes its place exactly when the table is not full. -/
theorem global_routes_bounded (order : RouteOrder) (maxRoutesPerHint maxTotalRoutes : Nat)
    (calls : List RouteCall) :
    let table := calls.foldl (step order) (withLimits maxRoutesPerHint maxTotalRoutes)
    table.Bounded maxRoutesPerHint maxTotalRoutes
      ∧ ∀ ad existing, existing ∈ table.routesForHint ad.destinationHint →
        existing.nextHop = ad.nextHop → existing.sequence < ad.sequence →
        (table.Replaced order ad ↔ table.routeCount < maxTotalRoutes) := by
  intro table
  have h : table.Bounded maxRoutesPerHint maxTotalRoutes :=
    (bounded_withLimits maxRoutesPerHint maxTotalRoutes).run order calls
  exact ⟨h, fun ad existing hm hh hs => h.replaced_iff hm hh hs⟩

def sampleRoute (sequence : Nat) : RouteAdvertisement :=
  ⟨Arr.fit 4 [1], Arr.fit 32 [2], 1, 1, 5, sequence, 60⟩

/-- A table for one route refuses the newer advertisement of the route it holds. -/
theorem full_table_keeps_stale_route :
    let table := (withLimits 3 1).step exactOrder (.addRoute (sampleRoute 1))
    (table.addRoute exactOrder (sampleRoute 2)).1 = some false
      ∧ ((table.addRoute exactOrder (sampleRoute 2)).2.routesForHint (Arr.fit 4 [1])).map (·.sequence)
        = [1] := by
  decide +kernel

end GlobalRoutes

end Routing

end SCMessenger
