import Mathlib.Data.List.Perm.Subperm
import SCMessenger.Transport.Reassembly

/-!
# What leaves the reassembly, and in which orders messages arrive

A peer's entry waits for as many fragments as the first announced and does not look at their positions.  A
fragment that comes twice is stored once and counted twice.
-/

namespace SCMessenger

theorem mem_of_nodup_of_length_eq {α : Type} {l l' : List α} (hl : l.Nodup) (hs : l ⊆ l')
    (he : l.length = l'.length) {a : α} (ha : a ∈ l') : a ∈ l :=
  ((List.subperm_of_subset hl hs).perm_of_length_le (Nat.le_of_eq he.symm)).mem_iff.mpr ha

namespace PartialReassembly

def positions (p : PartialReassembly) : List UInt16 :=
  (List.range p.expectedTotal.toNat).map UInt16.ofNat

variable {p : PartialReassembly} {i : UInt16}

theorem mem_positions : i ∈ p.positions ↔ i < p.expectedTotal := by
  have ht := p.expectedTotal.toNat_lt
  rw [UInt16.lt_iff_toNat_lt]
  constructor
  · intro h
    obtain ⟨n, hn, rfl⟩ := List.mem_map.mp h
    have hn' := List.mem_range.mp hn
    rwa [toNat_ofNat_position (by omega)]
  · intro h
    exact List.mem_map.mpr ⟨i.toNat, List.mem_range.mpr h, UInt16.ofNat_toNat⟩

theorem nodup_positions (p : PartialReassembly) : p.positions.Nodup := by
  have ht := p.expectedTotal.toNat_lt
  refine List.Nodup.map_on (fun a ha b hb hab => ?_) List.nodup_range
  have ha' := List.mem_range.mp ha
  have hb' := List.mem_range.mp hb
  have hn := congrArg UInt16.toNat hab
  rwa [toNat_ofNat_position (by omega), toNat_ofNat_position (by omega)] at hn

/-- **A full entry** holds every position it waits for exactly when it holds no other. -/
theorem holds_positions_iff (h : p.isComplete = true) :
    (∀ i < p.expectedTotal, i ∈ p.fragments) ↔ ∀ i ∈ p.fragments, i < p.expectedTotal := by
  have hl : p.fragments.keys.length = p.positions.length := by
    rw [positions, List.length_map, List.length_range]
    exact beq_iff_eq.mp h
  constructor
  · intro hh i hi
    refine mem_positions.mp (mem_of_nodup_of_length_eq p.nodup_positions (fun j hj => ?_) hl.symm hi)
    exact hh j (mem_positions.mp hj)
  · intro hh i hi
    refine mem_of_nodup_of_length_eq p.fragments.keys_nodup (fun j hj => ?_) hl (mem_positions.mpr hi)
    exact mem_positions.mpr (hh j hj)

end PartialReassembly

/-! ## What is returned -/

/-- A fragment that arrives from a peer. -/
structure FeedCall where
  now : Nat
  peerId : String
  fragment : Bytes

def FeedCall.Brings (call : FeedCall) (peerId : String) (i : UInt16) (payload : Bytes) : Prop :=
  call.peerId = peerId ∧ call.fragment.drop FragmentHeader.headerSize = payload
    ∧ ∃ total, FragmentHeader.fromBytes call.fragment = .ok ⟨total, i⟩

namespace L2capReassemblyManager

open PartialReassembly

def feed (m : L2capReassemblyManager) (call : FeedCall) : L2capReassemblyManager :=
  (m.feedFragment call.now call.peerId call.fragment).2

def collected (m : L2capReassemblyManager) (call : FeedCall) : Option PartialReassembly :=
  (FragmentHeader.fromBytes call.fragment).toOption.map fun header =>
    ((live m.reassemblyTimeout call.now (m.partials.lookup call.peerId)).getD (.new header call.now)).insert
      header.fragmentIndex (call.fragment.drop FragmentHeader.headerSize)

theorem lookup_feedFragment_of_ne (m : L2capReassemblyManager) (now : Nat) {pi pj : String} (h : pj ≠ pi)
    (f : Bytes) : (m.feedFragment now pi f).2.partials.lookup pj
      = live m.reassemblyTimeout now (m.partials.lookup pj) := by
  rw [← lookup_evictExpired]
  unfold feedFragment
  dsimp only
  split
  · rfl
  · split
    · exact AList.lookup_erase_ne h
    · split
      · split
        · exact AList.lookup_erase_ne h
        · exact AList.lookup_erase_ne h
      · exact AList.lookup_insert_ne h

def Brought (calls : List FeedCall) (m : L2capReassemblyManager) : Prop :=
  ∀ peerId p, m.partials.lookup peerId = some p → ∀ i payload, p.fragments.lookup i = some payload →
    ∃ call ∈ calls, call.Brings peerId i payload

variable {m : L2capReassemblyManager} {calls : List FeedCall} {call : FeedCall} {p : PartialReassembly}

theorem Brought.collected (h : Brought calls m) (hp : m.collected call = some p) (i : UInt16) (b : Bytes)
    (hi : p.fragments.lookup i = some b) :
    ∃ c ∈ calls ++ [call], c.Brings call.peerId i b := by
  cases hf : FragmentHeader.fromBytes call.fragment with
  | error e => simp [L2capReassemblyManager.collected, hf, Except.toOption] at hp
  | ok he =>
    obtain rfl : _ = p := by simpa [L2capReassemblyManager.collected, hf, Except.toOption] using hp
    by_cases hj : i = he.fragmentIndex
    · subst hj
      have hb : call.fragment.drop FragmentHeader.headerSize = b := by
        simpa [PartialReassembly.insert] using hi
      exact ⟨call, by simp, rfl, hb, he.totalFragments, hf⟩
    · change AList.lookup i (AList.insert _ _ _) = _ at hi
      rw [AList.lookup_insert_ne hj] at hi
      cases hl : live m.reassemblyTimeout call.now (m.partials.lookup call.peerId) with
      | none =>
        rw [hl] at hi
        cases hi
      | some q =>
        rw [hl, Option.getD_some] at hi
        obtain ⟨c, hc, hbr⟩ := h call.peerId q (Option.filter_eq_some_iff.mp hl).1 i b hi
        exact ⟨c, List.mem_append_left _ hc, hbr⟩

/-- **What a call returns, and leaves in the slot of its peer**: of the entry collected with it. -/
theorem feedFragment_collected (hp : m.collected call = some p) :
    (m.feedFragment call.now call.peerId call.fragment).1 = none
        ∧ ((m.feed call).partials.lookup call.peerId = none
          ∨ (m.feed call).partials.lookup call.peerId = some p)
      ∨ p.isComplete = true
        ∧ (m.feedFragment call.now call.peerId call.fragment).1 = checkCrc32 (p.payloadFrom 0)
        ∧ (m.feed call).partials.lookup call.peerId = none := by
  cases hf : FragmentHeader.fromBytes call.fragment with
  | error e => simp [collected, hf, Except.toOption] at hp
  | ok he =>
    obtain rfl : _ = p := by simpa [collected, hf, Except.toOption] using hp
    obtain ⟨hr, hs, -⟩ := m.feedFragment_slot call.now call.peerId hf
    rw [feed, hr, hs]
    unfold slotFeed
    dsimp only
    split
    · exact .inl ⟨rfl, .inl rfl⟩
    · split
      · rename_i hc
        exact .inr ⟨hc, rfl, rfl⟩
      · exact .inl ⟨rfl, .inr rfl⟩

theorem feedFragment_uncollected (hp : m.collected call = none) :
    m.feedFragment call.now call.peerId call.fragment = (none, m.evictExpired call.now) := by
  cases hf : FragmentHeader.fromBytes call.fragment with
  | error e => simp only [feedFragment, hf]
  | ok he => simp [collected, hf, Except.toOption] at hp

theorem Brought.live (h : Brought calls m) {now : Nat} {pi : String}
    (hp : PartialReassembly.live m.reassemblyTimeout now (m.partials.lookup pi) = some p) (i : UInt16)
    (b : Bytes) (hi : p.fragments.lookup i = some b) : ∃ c ∈ calls ++ [call], c.Brings pi i b := by
  obtain ⟨c, hc, hb⟩ := h pi p (Option.filter_eq_some_iff.mp hp).1 i b hi
  exact ⟨c, List.mem_append_left _ hc, hb⟩

/-- **One call.** -/
theorem Brought.feed (h : Brought calls m) (call : FeedCall) : Brought (calls ++ [call]) (m.feed call) := by
  intro pj q hq
  by_cases hj : pj = call.peerId
  · subst hj
    cases hp : m.collected call with
    | none =>
      rw [L2capReassemblyManager.feed, feedFragment_uncollected hp, lookup_evictExpired] at hq
      exact h.live hq
    | some p =>
      rcases feedFragment_collected hp with ⟨-, hl | hl⟩ | ⟨-, -, hl⟩
      · cases hl.symm.trans hq
      · obtain rfl := Option.some.inj (hl.symm.trans hq)
        exact h.collected hp
      · cases hl.symm.trans hq
  · rw [L2capReassemblyManager.feed, lookup_feedFragment_of_ne m call.now hj] at hq
    exact h.live hq

/-- **Every run.** -/
theorem Brought.run (h : Brought calls m) (more : List FeedCall) :
    Brought (calls ++ more) (more.foldl L2capReassemblyManager.feed m) := by
  induction more generalizing calls m with
  | nil => simpa using h
  | cons call more ih => simpa using ih (h.feed call)

theorem brought_new (timeout cap : Nat) : Brought [] (new timeout cap) := by
  intro pi p hp
  cases hp

/-- **What leaves the reassembly** is complete and checked exactly without positions beyond its number. -/
theorem verified_iff (timeout cap : Nat) (calls : List FeedCall) (call : FeedCall) {data : Bytes}
    (h : ((calls.foldl feed (new timeout cap)).feedFragment call.now call.peerId call.fragment).1
      = some data) :
    ∃ p, (calls.foldl feed (new timeout cap)).collected call = some p
      ∧ (∀ i payload, p.fragments.lookup i = some payload →
        ∃ c ∈ calls ++ [call], c.Brings call.peerId i payload)
      ∧ (((∀ i < p.expectedTotal, i ∈ p.fragments) ∧ p.payloadFrom 0 = appendCrc32 data)
        ↔ (∀ i ∈ p.fragments, i < p.expectedTotal) ∧ 4 ≤ (p.payloadFrom 0).length) := by
  cases hp : (calls.foldl feed (new timeout cap)).collected call with
  | none =>
    rw [feedFragment_uncollected hp] at h
    cases h
  | some p =>
    refine ⟨p, rfl, ((brought_new timeout cap).run calls).collected hp, ?_⟩
    rcases feedFragment_collected hp with ⟨hn, -⟩ | ⟨hc, hr, -⟩
    · cases hn.symm.trans h
    · rw [holds_positions_iff hc]
      refine and_congr_right fun _ => ⟨fun he => ?_, fun hl => ?_⟩
      · rw [he, length_appendCrc32]
        omega
      · exact eq_appendCrc32_of_check hl (hr.symm.trans h)

def sampleCalls : List FeedCall := [⟨0, "peer", ((sampleFragments firstMessage)[0]?).getD []⟩]

def sampleCall : FeedCall := ⟨1, "peer", ((sampleFragments firstMessage)[1]?).getD []⟩

theorem first_message_verified :
    ((sampleCalls.foldl feed (new 30 1000)).feedFragment sampleCall.now sampleCall.peerId
        sampleCall.fragment).1 = some firstMessage
      ∧ ∃ p, (sampleCalls.foldl feed (new 30 1000)).collected sampleCall = some p
        ∧ (∀ i < p.expectedTotal, i ∈ p.fragments) ∧ p.payloadFrom 0 = appendCrc32 firstMessage := by
  have h : ((sampleCalls.foldl feed (new 30 1000)).feedFragment sampleCall.now sampleCall.peerId
      sampleCall.fragment).1 = some firstMessage := by decide +kernel
  have hc : ((sampleCalls.foldl feed (new 30 1000)).collected sampleCall).all (fun p =>
      p.fragments.keys.all (· < p.expectedTotal) && decide (4 ≤ (p.payloadFrom 0).length)) = true := by
    decide +kernel
  obtain ⟨p, hp, -, hi⟩ := verified_iff 30 1000 sampleCalls sampleCall h
  rw [hp, Option.all_some, Bool.and_eq_true, List.all_eq_true] at hc
  exact ⟨h, p, hp, hi.mpr ⟨fun i hm => of_decide_eq_true (hc.1 i hm), of_decide_eq_true hc.2⟩⟩

/-- A fragment with another number stands for a missing one; two bytes carry no checksum. -/
theorem unverified_returned :
    withDefaults.feedAll "peer" [(0, fragmentBytes 2 0 (appendCrc32 [7])), (1, fragmentBytes 9 5 [])]
        = [none, some [7]]
      ∧ withDefaults.feedAll "peer" [(0, fragmentBytes 1 0 [1, 2])] = [some [1, 2]] := by
  decide +kernel

end L2capReassemblyManager

/-! ## Orders and repetitions -/

namespace PartialReassembly

/-- The entry after the chunks at the given positions of a message were fed, in this order. -/
structure Fed (chunks : List Bytes) (fed : List Nat) (p : PartialReassembly) : Prop where
  total : p.expectedTotal.toNat = chunks.length
  stored : p.bytesStored = (fed.map fun i => (chunks.getD i []).length).sum
  held : ∀ i : UInt16, p.fragments.lookup i = if i.toNat ∈ fed then chunks[i.toNat]? else none

variable {chunks : List Bytes} {fed : List Nat} {p : PartialReassembly} {i : Nat}

theorem fed_new {header : FragmentHeader} (h : header.totalFragments.toNat = chunks.length) (now : Nat) :
    Fed chunks [] (.new header now) where
  total := h
  stored := rfl
  held _ := rfl

/-- **One more fragment**, new or not. -/
theorem Fed.insert (h : Fed chunks fed p) (hl : chunks.length ≤ 65535) {c : Bytes}
    (hc : chunks[i]? = some c) : Fed chunks (fed ++ [i]) (p.insert (UInt16.ofNat i) c) := by
  have hi := (List.getElem?_eq_some_iff.mp hc).1
  have hp : (UInt16.ofNat i).toNat = i := toNat_ofNat_position (by omega)
  refine ⟨h.total, ?_, fun j => ?_⟩
  · change p.bytesStored + c.length = _
    simp [h.stored, hc]
  · change (p.fragments.insert _ _).lookup _ = _
    by_cases hj : j = UInt16.ofNat i
    · subst hj
      simp [hp, hc]
    · have hn : j.toNat ≠ i := fun he => hj (by rw [← he, UInt16.ofNat_toNat])
      rw [AList.lookup_insert_ne hj, h.held]
      simp [hn]

theorem Fed.isComplete_iff (h : Fed chunks fed p) (hf : ∀ i ∈ fed, i < chunks.length) :
    p.isComplete = true ↔ ∀ i < chunks.length, i ∈ fed := by
  have hm : ∀ i : UInt16, i ∈ p.fragments ↔ i.toNat ∈ fed := by
    intro i
    rw [← AList.lookup_isSome, h.held]
    by_cases hi : i.toNat ∈ fed
    · simp [hi, hf _ hi]
    · simp [hi]
  have hT := p.expectedTotal.toNat_lt
  have hr : ∀ i ∈ p.fragments, i < p.expectedTotal := by
    intro i hi
    rw [UInt16.lt_iff_toNat_lt, h.total]
    exact hf _ ((hm i).mp hi)
  constructor
  · intro hc i hi
    have hp : (UInt16.ofNat i).toNat = i := toNat_ofNat_position (by rw [h.total] at hT; omega)
    rw [← hp, ← hm]
    refine (holds_positions_iff hc).mpr hr _ ?_
    rwa [UInt16.lt_iff_toNat_lt, hp, h.total]
  · intro hall
    have hle : p.fragments.keys.length = p.positions.length := by
      refine Nat.le_antisymm ?_ ?_
      · exact (List.subperm_of_subset p.fragments.keys_nodup fun i hi =>
          mem_positions.mpr (hr i hi)).length_le
      · refine (List.subperm_of_subset p.nodup_positions fun i hi => ?_).length_le
        have hi' := UInt16.lt_iff_toNat_lt.mp (mem_positions.mp hi)
        exact (hm i).mpr (hall _ (h.total ▸ hi'))
    rw [positions, List.length_map, List.length_range] at hle
    exact beq_iff_eq.mpr hle

theorem Fed.payloadFrom_zero (h : Fed chunks fed p) (hall : ∀ i < chunks.length, i ∈ fed) :
    p.payloadFrom 0 = chunks.flatten := by
  have hT := p.expectedTotal.toNat_lt
  rw [payloadFrom, h.total, Nat.sub_zero, ← List.range_eq_range', List.flatMap_def]
  congr 1
  apply List.ext_getElem?
  intro i
  by_cases hi : i < chunks.length
  · have hp : (UInt16.ofNat i).toNat = i := toNat_ofNat_position (by rw [h.total] at hT; omega)
    have hk : p.fragments.lookup (UInt16.ofNat i) = chunks[i]? := by
      rw [h.held, hp, if_pos (hall i hi)]
    rw [List.getElem?_map, List.getElem?_range hi, Option.map_some, hk]
    simp [hi]
  · simp [hi]

end PartialReassembly

namespace L2capReassemblyManager

open PartialReassembly

/-- What a peer's slot holds of a message whose fragments come close together. -/
structure Collects (chunks : List Bytes) (fed times : List Nat) (peerId : String)
    (m : L2capReassemblyManager) : Prop where
  close : ∀ t ∈ times, ∀ t' ∈ times, t' - t ≤ m.reassemblyTimeout
  slot : (fed = [] ∧ m.partials.lookup peerId = none)
    ∨ ∃ p, m.partials.lookup peerId = some p ∧ p.receivedAt ∈ times ∧ Fed chunks fed p

variable {m : L2capReassemblyManager} {chunks : List Bytes} {fed times : List Nat} {peerId : String}
  {i now : Nat} {c : Bytes}

/-- **One fragment** of a message, at any position, while there is memory for it. -/
theorem Collects.feed (h : Collects chunks fed times peerId m) (hl : chunks.length ≤ 65535)
    (hf : ∀ j ∈ fed ++ [i], j < chunks.length) (hn : now ∈ times) (hc : chunks[i]? = some c)
    (hcap : ((fed ++ [i]).map fun j => (chunks.getD j []).length).sum ≤ m.maxPeerMemoryBytes) :
    ((∀ j < chunks.length, j ∈ fed ++ [i])
      → (m.feedFragment now peerId (fragmentBytes chunks.length i c)).1 = checkCrc32 chunks.flatten)
    ∧ ((¬ ∀ j < chunks.length, j ∈ fed ++ [i])
      → (m.feedFragment now peerId (fragmentBytes chunks.length i c)).1 = none
        ∧ (m.feedFragment now peerId (fragmentBytes chunks.length i c)).2.maxPeerMemoryBytes
          = m.maxPeerMemoryBytes
        ∧ Collects chunks (fed ++ [i]) times peerId
          (m.feedFragment now peerId (fragmentBytes chunks.length i c)).2) := by
  have hi := (List.getElem?_eq_some_iff.mp hc).1
  let he : FragmentHeader := ⟨UInt16.ofNat chunks.length, UInt16.ofNat i⟩
  have hh : FragmentHeader.fromBytes (fragmentBytes chunks.length i c) = .ok he :=
    headerFromBytes_fragmentBytes (e := L2capError.errors) hi hl c
  have hp : (fragmentBytes chunks.length i c).drop FragmentHeader.headerSize = c :=
    List.drop_left' (FragmentHeader.length_toBytes _)
  obtain ⟨hr, hs, hm, ht⟩ := m.feedFragment_slot now peerId hh
  -- the entry the fragment is put into
  obtain ⟨p, hlive, hpt, hpf⟩ : ∃ p,
      (live m.reassemblyTimeout now (m.partials.lookup peerId)).getD (.new he now) = p
        ∧ p.receivedAt ∈ times ∧ Fed chunks fed p := by
    rcases h.slot with ⟨rfl, hnone⟩ | ⟨p, hsome, hpt, hpf⟩
    · exact ⟨_, by rw [hnone]; rfl, hn, fed_new (toNat_ofNat_position hl) now⟩
    · have hx : p.expired m.reassemblyTimeout now = false := by
        simpa [expired] using h.close _ hpt now hn
      exact ⟨p, by simp [hsome, live, Option.filter, hx], hpt, hpf⟩
  have hins := hpf.insert hl hc
  have hroom : ¬ m.maxPeerMemoryBytes < p.bytesStored + c.length := by
    have hst : p.bytesStored + c.length = _ := hins.stored
    omega
  simp only [slotFeed, hp, hlive, hroom, if_false] at hr hs
  have hco := hins.isComplete_iff hf
  constructor
  · intro hall
    rw [hr, if_pos (hco.mpr hall), hins.payloadFrom_zero hall]
  · intro hall
    have hno : ¬ (p.insert he.fragmentIndex c).isComplete = true := fun hcc => hall (hco.mp hcc)
    rw [if_neg hno] at hr hs
    exact ⟨hr, hm, ⟨by rw [ht]; exact h.close, .inr ⟨_, hs, hpt, hins⟩⟩⟩

def fragmentsAt (chunks : List Bytes) (order : List Nat) : List Bytes :=
  order.map fun i => fragmentBytes chunks.length i (chunks.getD i [])

/-- **Every order with repetitions**: nothing is returned before the last missing position. -/
theorem Collects.run (hl : chunks.length ≤ 65535) (order : List Nat) {last : Nat} (ts : List Nat)
    (hts : ts.length = order.length + 1) (hsub : ∀ t ∈ ts, t ∈ times)
    (h : Collects chunks fed times peerId m)
    (hf : ∀ j ∈ fed ++ order ++ [last], j < chunks.length) (hlast : last ∉ fed ++ order)
    (hall : ∀ j < chunks.length, j ∈ fed ++ order ++ [last])
    (hcap : ((fed ++ order ++ [last]).map fun j => (chunks.getD j []).length).sum
      ≤ m.maxPeerMemoryBytes) :
    m.feedAll peerId (ts.zip (fragmentsAt chunks (order ++ [last])))
      = List.replicate order.length none ++ [checkCrc32 chunks.flatten] := by
  have hg : ∀ {j : Nat}, j < chunks.length → chunks[j]? = some (chunks.getD j []) := by
    intro j hj
    simp [hj]
  induction order generalizing fed ts m with
  | nil =>
    obtain ⟨now, rfl⟩ := List.length_eq_one_iff.mp hts
    rw [List.append_nil] at hf hall hcap
    have hlt := hf last (by simp)
    have hr := (h.feed hl hf (hsub now (by simp)) (hg hlt) hcap).1 hall
    rw [fragmentsAt, List.nil_append, List.map_singleton, List.zip_cons_cons, feedAll]
    dsimp only
    rw [hr]
    rfl
  | cons i order ih =>
    cases ts with
    | nil => simp at hts
    | cons now ts =>
      have hsplit : fed ++ i :: order = (fed ++ [i]) ++ order := by simp
      rw [hsplit] at hf hlast hall hcap
      have hf' : ∀ j ∈ fed ++ [i], j < chunks.length := fun j hj =>
        hf j (List.mem_append_left _ (List.mem_append_left _ hj))
      have hcap' : ((fed ++ [i]).map fun j => (chunks.getD j []).length).sum ≤ m.maxPeerMemoryBytes := by
        rw [List.append_assoc, List.map_append, List.sum_append] at hcap
        omega
      -- the last position is still missing
      have hmiss : ¬ ∀ j < chunks.length, j ∈ fed ++ [i] := fun hc =>
        hlast (List.mem_append_left _ (hc last (hf last (by simp))))
      obtain ⟨hr, hm, hnext⟩ :=
        (h.feed hl hf' (hsub now (by simp)) (hg (hf' i (by simp))) hcap').2 hmiss
      have hrest := ih ts (by simpa using hts) (fun t ht => hsub t (by simp [ht])) hnext hf hlast hall
        (by rw [hm]; exact hcap)
      rw [fragmentsAt] at hrest ⊢
      rw [List.cons_append, List.map_cons, List.zip_cons_cons, feedAll]
      dsimp only
      rw [hr, hrest, List.length_cons, List.replicate_succ, List.cons_append]

/-- **Reassembly in any order**, if all bytes fed fit the memory, repetitions counted again. -/
theorem any_order_delivers (timeoutSecs cap : Nat) (peerId : String) {config : L2capConfig}
    (hconfig : config.validate = .ok ()) (data : Bytes) {fragments : List Bytes}
    (hfragments : config.fragment (appendCrc32 data) = .ok fragments) {order : List Nat} {last : Nat}
    (hlast : last ∉ order) (hall : ∀ i, i < fragments.length ↔ i ∈ order ++ [last]) {times : List Nat}
    (htimes : times.length = order.length + 1)
    (hclose : ∀ t ∈ times, ∀ t' ∈ times, t' - t ≤ timeoutSecs * 1000000000)
    (hcap : ((order ++ [last]).map fun i =>
      ((fragments.getD i []).drop FragmentHeader.headerSize).length).sum ≤ cap) :
    (new timeoutSecs cap).feedAll peerId
        (times.zip ((order ++ [last]).map fun i => fragments.getD i []))
      = List.replicate order.length none ++ [some data] := by
  have hm := L2capConfig.mtu_ge_of_validate hconfig
  have hp : 0 < config.maxPayloadPerFragment := by
    simp only [L2capConfig.maxPayloadPerFragment, FragmentHeader.headerSize]
    omega
  obtain ⟨hl, rfl⟩ := FragmentErrors.fragment_eq (e := L2capError.errors) (appendCrc32_ne_nil data)
    hfragments
  set chunks := chunksOf config.maxPayloadPerFragment (appendCrc32 data) with hchunks
  have hf : chunks.flatten = appendCrc32 data := chunksOf_flatten hp _
  simp only [List.length_map, List.length_zipIdx] at hall
  have hat : ∀ i ∈ order ++ [last],
      (chunks.zipIdx.map fun x => fragmentBytes chunks.length x.2 x.1).getD i []
        = fragmentBytes chunks.length i (chunks.getD i []) := by
    intro i hi
    have hlt := (hall i).mpr hi
    simp [hlt]
  have hfed : ((order ++ [last]).map fun i =>
      (chunks.zipIdx.map fun x => fragmentBytes chunks.length x.2 x.1).getD i [])
        = fragmentsAt chunks (order ++ [last]) := List.map_congr_left hat
  have hbytes : ((order ++ [last]).map fun i => (chunks.getD i []).length).sum ≤ cap := by
    refine le_of_eq_of_le (congrArg List.sum (List.map_congr_left fun i hi => ?_)) hcap
    rw [hat i hi, fragmentBytes, List.drop_left' (FragmentHeader.length_toBytes _)]
  have h : Collects chunks [] times peerId (new timeoutSecs cap) := ⟨hclose, .inl ⟨rfl, rfl⟩⟩
  rw [hfed, h.run hl order times htimes (fun t ht => ht) (fun i hi => (hall i).mpr hi) hlast
    (fun i hi => (hall i).mp hi) hbytes, hf, checkCrc32_appendCrc32]

/-- The second fragment arrives twice before the first. -/
theorem second_twice_delivers :
    (new 30 1000).feedAll "peer" ([5, 6, 7].zip (([1, 1] ++ [0]).map fun i =>
        (sampleFragments firstMessage).getD i [])) = [none, none, some firstMessage] := by
  have hf : sampleConfig.fragment (appendCrc32 firstMessage)
      = .ok (sampleFragments firstMessage) := by decide +kernel
  have hall : ∀ i, i < (sampleFragments firstMessage).length ↔ i ∈ [1, 1] ++ [0] := by
    have hl : (sampleFragments firstMessage).length = 2 := by decide +kernel
    intro i
    rw [hl]
    simp
    omega
  exact any_order_delivers 30 1000 "peer" rfl firstMessage hf (by decide) hall rfl (by decide)
    (by decide +kernel)

/-- A message whose first fragment arrives twice is not delivered. -/
theorem repetition_exhausts_memory :
    (appendCrc32 firstMessage).length ≤ 24
      ∧ (new 30 24).feedAll "peer" ([5, 6, 7].zip (([0, 0] ++ [1]).map fun i =>
        (sampleFragments firstMessage).getD i [])) = [none, none, none]
      ∧ (new 30 24).feedAll "peer" ([5, 6].zip (sampleFragments firstMessage))
        = [none, some firstMessage] := by
  decide +kernel

end L2capReassemblyManager

end SCMessenger
