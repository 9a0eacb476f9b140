import SCMessenger.Transport.L2cap

/-!
# Messages after a loss

A fragment says nothing about its message, so those left over from a message that lost some are put together
with those of the next.  What a peer's fragments do is seen on its slot alone.
-/

namespace SCMessenger

/-! ## One peer's slot -/

namespace PartialReassembly

def live (timeout now : Nat) (slot : Option PartialReassembly) : Option PartialReassembly :=
  slot.filter fun p => !p.expired timeout now

def slotFeed (cap now : Nat) (slot : Option PartialReassembly) (header : FragmentHeader)
    (payload : Bytes) : Option Bytes × Option PartialReassembly :=
  let held := slot.getD (.new header now)
  if cap < held.bytesStored + payload.length then (none, none)
  else
    let held := held.insert header.fragmentIndex payload
    if held.isComplete then (checkCrc32 (held.payloadFrom 0), none) else (none, some held)

end PartialReassembly

namespace L2capReassemblyManager

open PartialReassembly

theorem lookup_evictExpired (m : L2capReassemblyManager) (now : Nat) (pi : String) :
    (m.evictExpired now).partials.lookup pi
      = live m.reassemblyTimeout now (m.partials.lookup pi) := by
  have hi : ∀ p, (m.evictExpired now).partials.lookup pi = some p
      ↔ live m.reassemblyTimeout now (m.partials.lookup pi) = some p := by
    intro p
    change (m.partials.purge _).2.lookup pi = some p ↔ _
    rw [Table.lookup_purge, live, Option.filter_eq_some_iff]
    simp
  exact Option.ext hi

/-- A fragment acts on the slot of its peer only. -/
theorem feedFragment_slot (m : L2capReassemblyManager) (now : Nat) (pi : String) {f : Bytes}
    {he : FragmentHeader} (hh : FragmentHeader.fromBytes f = .ok he) :
    let s := live m.reassemblyTimeout now (m.partials.lookup pi)
    let r := slotFeed m.maxPeerMemoryBytes now s he
      (f.drop FragmentHeader.headerSize)
    (m.feedFragment now pi f).1 = r.1
      ∧ (m.feedFragment now pi f).2.partials.lookup pi = r.2
      ∧ (m.feedFragment now pi f).2.maxPeerMemoryBytes = m.maxPeerMemoryBytes
      ∧ (m.feedFragment now pi f).2.reassemblyTimeout = m.reassemblyTimeout := by
  intro s r
  have hs : (m.evictExpired now).partials.lookup pi = s := lookup_evictExpired m now pi
  have hc : (m.evictExpired now).maxPeerMemoryBytes = m.maxPeerMemoryBytes := rfl
  unfold feedFragment
  simp only [hh, hs, hc]
  simp only [r, slotFeed]
  by_cases hf : m.maxPeerMemoryBytes < (s.getD (.new he now)).bytesStored
      + (f.drop FragmentHeader.headerSize).length
  · simp only [hf, if_true]
    exact ⟨trivial, by simp [countDrops, removePeer], rfl, rfl⟩
  · simp only [hf, if_false]
    split
    · cases hch : checkCrc32 (((s.getD (.new he now)).insert he.fragmentIndex
          (f.drop FragmentHeader.headerSize)).payloadFrom 0) with
      | none => exact ⟨rfl, by simp [countDrops, removePeer], rfl, rfl⟩
      | some d => exact ⟨rfl, by simp [removePeer], rfl, rfl⟩
    · exact ⟨rfl, by simp, rfl, rfl⟩

end L2capReassemblyManager

namespace PartialReassembly

def slotRun (cap timeout total : Nat) :
    Nat → Option PartialReassembly → List (Nat × Bytes) → List (Option Bytes)
  | _, _, [] => []
  | i, slot, (now, chunk) :: rest =>
    let r := slotFeed cap now (live timeout now slot) ⟨UInt16.ofNat total, UInt16.ofNat i⟩ chunk
    r.1 :: slotRun cap timeout total (i + 1) r.2 rest

end PartialReassembly

open PartialReassembly in
theorem L2capReassemblyManager.feedAll_eq_slotRun {t : Nat} (hto : t ≤ 65535)
    (pi : String) (chunks : List Bytes) (ti : List Nat) (i : Nat)
    (hl : i + chunks.length = t) (m : L2capReassemblyManager) :
    m.feedAll pi (ti.zip ((chunks.zipIdx i).map fun x => fragmentBytes t x.2 x.1))
      = slotRun m.maxPeerMemoryBytes m.reassemblyTimeout t i (m.partials.lookup pi)
        (ti.zip chunks) := by
  induction chunks generalizing ti i m with
  | nil => simp [feedAll, slotRun]
  | cons c chunks ih =>
    cases ti with
    | nil => simp [feedAll, slotRun]
    | cons now ti =>
      have hi : i < t := by
        simp only [List.length_cons] at hl
        omega
      let h : FragmentHeader := ⟨UInt16.ofNat t, UInt16.ofNat i⟩
      have hh : FragmentHeader.fromBytes (fragmentBytes t i c) = .ok h :=
        headerFromBytes_fragmentBytes (e := L2capError.errors) hi hto c
      have hp : (fragmentBytes t i c).drop FragmentHeader.headerSize = c :=
        List.drop_left' (FragmentHeader.length_toBytes _)
      obtain ⟨hr, hs, hc, ht⟩ := m.feedFragment_slot now pi hh
      rw [hp] at hr hs
      simp only [List.zipIdx_cons, List.map_cons, List.zip_cons_cons, feedAll, slotRun]
      rw [hr, ih ti (i + 1) (by simp only [List.length_cons] at hl; omega), hs, hc,
        ht]

/-! ## Older fragments under a new message -/

namespace PartialReassembly

def countFrom (p : PartialReassembly) (n : Nat) : Nat :=
  p.fragments.keys.countP fun i => n ≤ i.toNat

/-- `q` is `p` after the first `k` chunks of a new message were put over it. -/
structure Overlaid (p : PartialReassembly) (chunks : List Bytes) (k : Nat) (q : PartialReassembly) :
    Prop where
  total : q.expectedTotal = p.expectedTotal
  received : q.receivedAt = p.receivedAt
  stored : q.bytesStored = p.bytesStored + (chunks.take k).flatten.length
  replaced : ∀ i < k, q.fragments.lookup (UInt16.ofNat i) = chunks[i]?
  kept : ∀ i : UInt16, k ≤ i.toNat → q.fragments.lookup i = p.fragments.lookup i
  count : q.fragments.keys.length = k + p.countFrom k

theorem overlaid_zero (p : PartialReassembly) (chunks : List Bytes) : Overlaid p chunks 0 p where
  total := rfl
  received := rfl
  stored := by simp
  replaced i hi := absurd hi (Nat.not_lt_zero i)
  kept i _ := rfl
  count := by simp [countFrom]

theorem countFrom_eq (p : PartialReassembly) {k : Nat} (hk : k ≤ 65535) :
    p.countFrom k = p.countFrom (k + 1) + if UInt16.ofNat k ∈ p.fragments.keys then 1 else 0 := by
  have hn : p.fragments.keys.Nodup := p.fragments.keys_nodup
  have ho : ∀ i : UInt16, i = UInt16.ofNat k ↔ i.toNat = k := by
    intro i
    rw [← UInt16.toNat_inj, toNat_ofNat_position hk]
  have hc : p.fragments.keys.count (UInt16.ofNat k)
      = if UInt16.ofNat k ∈ p.fragments.keys then 1 else 0 := by
    rw [List.Nodup.count hn]
  rw [← hc]
  unfold countFrom
  generalize p.fragments.keys = keys
  clear hn hc
  induction keys with
  | nil => rfl
  | cons i keys ih =>
    rw [List.countP_cons, List.countP_cons, List.count_cons, ih]
    have hb : (i == UInt16.ofNat k) = decide (i.toNat = k) := by
      rw [Bool.eq_iff_iff, beq_iff_eq, ho i, decide_eq_true_iff]
    rw [hb]
    by_cases hle : k ≤ i.toNat
    · by_cases he : i.toNat = k
      · have hl : ¬ k + 1 ≤ i.toNat := by omega
        rw [if_pos (decide_eq_true hle), if_neg (by simpa using hl), if_pos (decide_eq_true he)]
        omega
      · have hl : k + 1 ≤ i.toNat := by omega
        simp only [hle, hl, he, decide_true, decide_false, if_true, Bool.false_eq_true, if_false]
        omega
    · have hl : ¬ k + 1 ≤ i.toNat := by omega
      have he : ¬ i.toNat = k := by omega
      simp only [hle, hl, he, decide_false, Bool.false_eq_true, if_false]
      omega

variable {p q : PartialReassembly} {chunks : List Bytes}

/-- **One more chunk** over a slot with older fragments. -/
theorem Overlaid.insert {k : Nat} (h : Overlaid p chunks k q) (hl : chunks.length ≤ 65535) {c : Bytes}
    (hc : chunks[k]? = some c) : Overlaid p chunks (k + 1) (q.insert (UInt16.ofNat k) c) := by
  have hk : k < chunks.length := (List.getElem?_eq_some_iff.mp hc).1
  have hpo : ∀ i : Nat, i ≤ k → (UInt16.ofNat i).toNat = i := fun i hi =>
    toNat_ofNat_position (by omega)
  refine ⟨h.total, h.received, ?_, ?_, ?_, ?_⟩
  · change q.bytesStored + c.length = _
    rw [h.stored, List.take_add_one, hc]
    simp
    omega
  · intro i hi
    change (q.fragments.insert _ _).lookup _ = _
    by_cases hik : i = k
    · subst hik
      rw [AList.lookup_insert, hc]
    · have hn : UInt16.ofNat i ≠ UInt16.ofNat k := by
        intro he
        have := congrArg UInt16.toNat he
        rw [hpo i (by omega), hpo k (by omega)] at this
        exact hik this
      rw [AList.lookup_insert_ne hn]
      exact h.replaced i (by omega)
  · intro i hi
    change (q.fragments.insert _ _).lookup _ = _
    have hn : i ≠ UInt16.ofNat k := by
      rintro rfl
      rw [hpo k (by omega)] at hi
      omega
    rw [AList.lookup_insert_ne hn]
    exact h.kept i (by omega)
  · change (q.fragments.insert _ _).keys.length = _
    have hm : UInt16.ofNat k ∈ q.fragments.keys ↔ UInt16.ofNat k ∈ p.fragments.keys := by
      rw [← AList.mem_keys, ← AList.mem_keys, ← AList.lookup_isSome, ← AList.lookup_isSome,
        h.kept _ (Nat.le_of_eq (hpo k le_rfl).symm)]
    have hco := h.count
    rw [countFrom_eq p (by omega)] at hco
    rw [AList.keys_insert, List.length_cons]
    by_cases hin : UInt16.ofNat k ∈ q.fragments.keys
    · have hg : 0 < q.fragments.keys.length := List.length_pos_of_mem hin
      rw [List.length_erase_of_mem hin]
      rw [if_pos (hm.mp hin)] at hco
      omega
    · rw [List.erase_of_not_mem hin]
      rw [if_neg (fun hp => hin (hm.mpr hp))] at hco
      omega

theorem Overlaid.payloadFrom_zero {k : Nat} (h : Overlaid p chunks k q) (hk : k ≤ chunks.length)
    (ht : k ≤ p.expectedTotal.toNat) :
    q.payloadFrom 0 = (chunks.take k).flatten ++ p.payloadFrom k := by
  have hT := p.expectedTotal.toNat_lt
  have hs : List.range' 0 (q.expectedTotal.toNat - 0)
      = List.range k ++ List.range' k (p.expectedTotal.toNat - k) := by
    rw [h.total, List.range_eq_range', Nat.sub_zero]
    have ha := List.range'_append_1 (s := 0) (m := k) (n := p.expectedTotal.toNat - k)
    rw [Nat.zero_add] at ha
    rw [ha]
    congr 1
    omega
  rw [payloadFrom, hs, List.flatMap_append]
  congr 1
  · -- below `k` the chunks of the message are held
    have hm : (List.range k).flatMap (fun i => (q.fragments.lookup (UInt16.ofNat i)).getD [])
        = ((List.range k).map fun i => (chunks[i]?).getD []).flatten := by
      rw [List.flatMap_def]
      congr 1
      apply List.map_congr_left
      intro i hi
      rw [h.replaced i (List.mem_range.mp hi)]
    rw [hm]
    congr 1
    apply List.ext_getElem?
    intro i
    by_cases hi : i < k
    · have hi' : i < chunks.length := by omega
      simp [hi, List.getElem?_eq_getElem hi']
    · rw [List.getElem?_eq_none (by rw [List.length_map, List.length_range]; omega),
        List.getElem?_eq_none (by rw [List.length_take]; omega)]
  · rw [payloadFrom]
    apply List.flatMap_congr
    intro i hi
    have hi' := List.mem_range'_1.mp hi
    rw [h.kept]
    rw [toNat_ofNat_position (by omega)]
    exact hi'.1

/-! ## Whether the new message arrives -/

/-- With `n` chunks of the new message over it, a slot holds as many fragments as it waits for. -/
def FilledAt (p : PartialReassembly) (n : Nat) : Prop :=
  n + p.countFrom n = p.expectedTotal.toNat

/-- When the chunks fill the slot, the older fragments behind them are the rest of the message. -/
def HarmlessFrom (k cap : Nat) (p : PartialReassembly) (chunks : List Bytes) : Prop :=
  ∃ n, k < n ∧ n ≤ chunks.length ∧ p.FilledAt n ∧ (∀ j, k < j → j < n → ¬ p.FilledAt j)
    ∧ p.bytesStored + (chunks.take n).flatten.length ≤ cap
    ∧ p.payloadFrom n = (chunks.drop n).flatten

/-- The rest of a message from position `i` on cannot be completed in a slot. -/
def Short (total i : Nat) (slot : Option PartialReassembly) : Prop :=
  ∀ q, slot = some q → q.expectedTotal.toNat = total ∧ q.fragments.keys.length < i

theorem length_keys_insert_le (q : PartialReassembly) (i : UInt16) (c : Bytes) :
    (q.insert i c).fragments.keys.length ≤ q.fragments.keys.length + 1 := by
  change (q.fragments.insert i c).keys.length ≤ _
  rw [AList.keys_insert, List.length_cons]
  exact Nat.succ_le_succ List.length_erase_le

variable {cap timeout : Nat}

/-- **Nothing more arrives** once a fragment of the message is lost to the slot. -/
theorem slotRun_of_short {t : Nat} (ht : t ≤ 65535) {d : Bytes} (r : List (Nat × Bytes))
    {i : Nat} (hi : 0 < i) (hle : i + r.length ≤ t) {s : Option PartialReassembly}
    (h : Short t i s) : some d ∉ slotRun cap timeout t i s r := by
  induction r generalizing i s with
  | nil => simp [slotRun]
  | cons entry r ih =>
    obtain ⟨now, chunk⟩ := entry
    simp only [List.length_cons] at hle
    let he : FragmentHeader := ⟨UInt16.ofNat t, UInt16.ofNat i⟩
    have hh : he.totalFragments.toNat = t := toNat_ofNat_position ht
    -- the entry the chunk is put into
    have hhe : ((live timeout now s).getD (.new he now)).expectedTotal.toNat = t
        ∧ ((live timeout now s).getD (.new he now)).fragments.keys.length < i := by
      cases hl : live timeout now s with
      | none => exact ⟨hh, by simpa [PartialReassembly.new] using hi⟩
      | some q => exact h q (Option.filter_eq_some_iff.mp hl).1
    obtain ⟨hT, hc⟩ := hhe
    have hin := length_keys_insert_le ((live timeout now s).getD (.new he now))
      he.fragmentIndex chunk
    have hn : ((((live timeout now s).getD (.new he now)).insert
        he.fragmentIndex chunk).isComplete) = false := by
      rw [isComplete, beq_eq_false_iff_ne]
      change _ ≠ ((live timeout now s).getD (.new he now)).expectedTotal.toNat
      omega
    rw [slotRun, List.mem_cons, not_or]
    by_cases hfu : cap < ((live timeout now s).getD (.new he now)).bytesStored
        + chunk.length
    · have hf : slotFeed cap now (live timeout now s) he chunk = (none, none) := by
        simp only [slotFeed, hfu, if_true]
      rw [hf]
      refine ⟨by simp, ih (Nat.succ_pos i) (by omega) ?_⟩
      intro q hq
      cases hq
    · have hf : slotFeed cap now (live timeout now s) he chunk
          = (none, some (((live timeout now s).getD (.new he now)).insert
              he.fragmentIndex chunk)) := by
        simp only [slotFeed, hfu, if_false, hn, Bool.false_eq_true]
      rw [hf]
      refine ⟨by simp, ih (Nat.succ_pos i) (by omega) ?_⟩
      intro q hq
      cases hq
      exact ⟨hT, by omega⟩

/-- Whether the rest of a message arrives when the first `k` chunks are in the slot. -/
theorem slotRun_recovers_iff {d : Bytes} (hle : chunks.length ≤ 65535)
    (hda : chunks.flatten = appendCrc32 d) (hfi : ∀ n, 0 < n → 4 ≤ (chunks.take n).flatten.length)
    (r : List Bytes) (ti : List Nat) (hti : ti.length = r.length) {k : Nat}
    (hr : chunks.drop k = r) (hq : Overlaid p chunks k q)
    (hl : ∀ t ∈ ti, t - p.receivedAt ≤ timeout) :
    some d ∈ slotRun cap timeout chunks.length k (some q) (ti.zip r)
      ↔ HarmlessFrom k cap p chunks := by
  induction r generalizing ti k q with
  | nil =>
    have hk : chunks.length ≤ k := List.drop_eq_nil_iff.mp hr
    simp only [List.zip_nil_right, slotRun, List.not_mem_nil, false_iff]
    rintro ⟨n, hkn, hn, -⟩
    omega
  | cons c r ih =>
    cases ti with
    | nil => simp at hti
    | cons now ti =>
    have hch : chunks[k]? = some c := by
      rw [← List.head?_drop, hr]
      rfl
    have hk : k < chunks.length := (List.getElem?_eq_some_iff.mp hch).1
    have hr' : chunks.drop (k + 1) = r := by
      rw [← List.tail_drop, hr]
      rfl
    have hl' : live timeout now (some q) = some q := by
      have := hl now (by simp)
      simp [live, expired, hq.received]
      omega
    have ho := hq.insert hle hch
    have hst : q.bytesStored + c.length
        = p.bytesStored + (chunks.take (k + 1)).flatten.length := ho.stored
    have hco : (q.insert (UInt16.ofNat k) c).isComplete = true ↔ p.FilledAt (k + 1) := by
      rw [isComplete, beq_iff_eq, ho.count, ho.total, FilledAt]
    have hsh : Short chunks.length (k + 1) none := fun q hq => by cases hq
    have hd : some d ∉ slotRun cap timeout chunks.length (k + 1) none (ti.zip r) := by
      refine slotRun_of_short hle _ (Nat.succ_pos k) ?_ hsh
      rw [List.length_zip, ← hr', List.length_drop]
      omega
    rw [List.zip_cons_cons, slotRun, hl', List.mem_cons]
    by_cases hfu : cap < q.bytesStored + c.length
    · -- the cap drops the slot: no later position has memory either
      have hfe : slotFeed cap now (some q) ⟨UInt16.ofNat chunks.length, UInt16.ofNat k⟩ c
          = (none, none) := by
        simp only [slotFeed, Option.getD_some, hfu, if_true]
      rw [hfe]
      simp only [reduceCtorEq, false_or, hd, false_iff]
      rintro ⟨n, hkn, hn, -, -, hc, -⟩
      have hmo : (chunks.take (k + 1)).flatten.length ≤ (chunks.take n).flatten.length := by
        have hp : chunks.take (k + 1) <+: chunks.take n :=
          List.take_prefix_take_left (by omega)
        obtain ⟨more, hm⟩ := hp
        rw [← hm, List.flatten_append, List.length_append]
        omega
      omega
    · by_cases hf : p.FilledAt (k + 1)
      · -- the slot is full: it is put together now or never
        have hfe : slotFeed cap now (some q) ⟨UInt16.ofNat chunks.length, UInt16.ofNat k⟩ c
            = (checkCrc32 ((q.insert (UInt16.ofNat k) c).payloadFrom 0), none) := by
          simp only [slotFeed, Option.getD_some, hfu, if_false, hco.mpr hf, if_true]
        have hto : k + 1 ≤ p.expectedTotal.toNat := by
          unfold FilledAt at hf
          omega
        rw [hfe, ho.payloadFrom_zero (by omega) hto]
        simp only [hd, or_false]
        have hlo : 4 ≤ ((chunks.take (k + 1)).flatten ++ p.payloadFrom (k + 1)).length := by
          have := hfi (k + 1) (Nat.succ_pos k)
          rw [List.length_append]
          omega
        have hs : appendCrc32 d
            = (chunks.take (k + 1)).flatten ++ (chunks.drop (k + 1)).flatten := by
          rw [← hda, ← List.flatten_append, List.take_append_drop]
        constructor
        · intro hcc
          have hsa := eq_appendCrc32_of_check hlo hcc.symm
          rw [hs] at hsa
          exact ⟨k + 1, Nat.lt_succ_self k, hk, hf, fun j hj hj' => by omega, by omega,
            List.append_cancel_left hsa⟩
        · rintro ⟨n, hkn, hn, hf', hfi', hc, ha⟩
          obtain rfl : n = k + 1 := by
            by_contra hne
            exact hfi' (k + 1) (Nat.lt_succ_self k) (by omega) hf
          rw [ha, ← hs, checkCrc32_appendCrc32]
      · -- the slot waits for more
        have hno : (q.insert (UInt16.ofNat k) c).isComplete = false := by
          rw [← Bool.not_eq_true, hco]
          exact hf
        have hfe : slotFeed cap now (some q) ⟨UInt16.ofNat chunks.length, UInt16.ofNat k⟩ c
            = (none, some (q.insert (UInt16.ofNat k) c)) := by
          simp only [slotFeed, Option.getD_some, hfu, if_false, hno, Bool.false_eq_true]
        rw [hfe]
        simp only [reduceCtorEq, false_or]
        rw [ih ti (by simpa using hti) hr' ho fun t ht => hl t (by simp [ht])]
        constructor
        · rintro ⟨n, hkn, hn, hf', hfi', hc, ha⟩
          refine ⟨n, by omega, hn, hf', ?_, hc, ha⟩
          intro j hj hjn
          by_cases hjk : j = k + 1
          · rw [hjk]
            exact hf
          · exact hfi' j (by omega) hjn
        · rintro ⟨n, hkn, hn, hf', hfi', hc, ha⟩
          have hne : n ≠ k + 1 := by
            rintro rfl
            exact hf hf'
          exact ⟨n, by omega, hn, hf', fun j hj hjn => hfi' j (by omega) hjn, hc, ha⟩

def Harmless (cap : Nat) (p : PartialReassembly) (fragments : List Bytes) : Prop :=
  HarmlessFrom 0 cap p (fragments.map (·.drop FragmentHeader.headerSize))

theorem slotRun_none {t now : Nat} (ti : List Nat) (chunks : List Bytes) :
    slotRun cap timeout t 0 none ((now :: ti).zip chunks)
      = slotRun cap timeout t 0 (some (.new ⟨UInt16.ofNat t, UInt16.ofNat 0⟩ now))
        ((now :: ti).zip chunks) := by
  cases chunks with
  | nil => rfl
  | cons c r =>
    let p : PartialReassembly := .new ⟨UInt16.ofNat t, UInt16.ofNat 0⟩ now
    have hl : live timeout now (some p) = some p := by
      simp [live, expired, p, PartialReassembly.new]
    rw [List.zip_cons_cons, slotRun, slotRun, hl]
    rfl

theorem harmlessFrom_new {now : Nat} (hl : chunks.length ≤ 65535) (hn : chunks ≠ [])
    (hca : chunks.flatten.length ≤ cap) (i : UInt16) :
    HarmlessFrom 0 cap (.new ⟨UInt16.ofNat chunks.length, i⟩ now) chunks := by
  have hc : ∀ n, (PartialReassembly.new ⟨UInt16.ofNat chunks.length, i⟩ now).countFrom n = 0 :=
    fun n => rfl
  have ht : (PartialReassembly.new ⟨UInt16.ofNat chunks.length, i⟩ now).expectedTotal.toNat
      = chunks.length := toNat_ofNat_position hl
  refine ⟨chunks.length, List.length_pos_iff.mpr hn, le_rfl, ?_, ?_, ?_, ?_⟩
  · rw [FilledAt, hc, ht, Nat.add_zero]
  · intro j _ hj
    rw [FilledAt, hc, ht]
    omega
  · rw [List.take_length]
    simpa [PartialReassembly.new] using hca
  · rw [payloadFrom, ht]
    simp

end PartialReassembly

/-! ## The manager -/

namespace L2capReassemblyManager

open PartialReassembly

/-- No partial reassembly of the peer runs out of time while fragments are fed at these times. -/
structure InTime (m : L2capReassemblyManager) (peerId : String) (times : List Nat) : Prop where
  fed : ∀ t ∈ times, ∀ t' ∈ times, t' - t ≤ m.reassemblyTimeout
  held : ∀ p, m.partials.lookup peerId = some p →
    ∀ t ∈ times, t - p.receivedAt ≤ m.reassemblyTimeout

theorem four_le_chunks {c : L2capConfig} (hc : c.validate = .ok ()) (d : Bytes) {n : Nat}
    (hn : 0 < n) :
    4 ≤ ((chunksOf c.maxPayloadPerFragment (appendCrc32 d)).take n).flatten.length := by
  have hm := L2capConfig.mtu_ge_of_validate hc
  have hma : c.maxPayloadPerFragment = c.mtu.toNat - 4 := rfl
  have hln := length_appendCrc32 d
  have hne : appendCrc32 d ≠ [] := appendCrc32_ne_nil d
  have hf := chunksOf_getElem?_zero (n := c.maxPayloadPerFragment) (by omega) hne
  cases hch : chunksOf c.maxPayloadPerFragment (appendCrc32 d) with
  | nil => simp [hch] at hf
  | cons ch r =>
    rw [hch] at hf
    have hcn : ch = (appendCrc32 d).take c.maxPayloadPerFragment :=
      Option.some.inj hf
    obtain ⟨n, rfl⟩ := Nat.exists_eq_succ_of_ne_zero (Nat.pos_iff_ne_zero.mp hn)
    rw [List.take_succ_cons, List.flatten_cons, List.length_append, hcn, List.length_take]
    omega

/-- **Recovery from loss** exactly when what is held of earlier messages is harmless. -/
theorem recovers_iff (m : L2capReassemblyManager) (peerId : String) {config : L2capConfig}
    (hconfig : config.validate = .ok ()) (data : Bytes) {fragments : List Bytes}
    (hfragments : config.fragment (appendCrc32 data) = .ok fragments)
    (hcap : (appendCrc32 data).length ≤ m.maxPeerMemoryBytes) {times : List Nat}
    (htimes : times.length = fragments.length) (hin : m.InTime peerId times) :
    some data ∈ m.feedAll peerId (times.zip fragments)
      ↔ ∀ p, m.partials.lookup peerId = some p → Harmless m.maxPeerMemoryBytes p fragments := by
  have hne := appendCrc32_ne_nil data
  obtain ⟨hl, rfl⟩ := FragmentErrors.fragment_eq (e := L2capError.errors) hne hfragments
  set chunks := chunksOf config.maxPayloadPerFragment (appendCrc32 data) with hc
  have hfo : ∀ n, 0 < n → 4 ≤ (chunks.take n).flatten.length :=
    fun n hn => four_le_chunks hconfig data hn
  have hm : 0 < config.maxPayloadPerFragment := by
    by_contra hzero
    have := hfo 1 (by omega)
    rw [hc, Nat.eq_zero_of_not_pos hzero] at this
    simp [chunksOf] at this
  have hf : chunks.flatten = appendCrc32 data := chunksOf_flatten hm _
  have hpo : chunks ≠ [] := by
    intro h
    rw [h] at hf
    exact hne hf.symm
  simp only [List.length_map, List.length_zipIdx] at htimes
  rw [feedAll_eq_slotRun hl peerId chunks times 0 (Nat.zero_add _)]
  simp only [Harmless, payloads_fragments]
  have ho : ∀ (p : PartialReassembly), (∀ t ∈ times, t - p.receivedAt ≤ m.reassemblyTimeout) →
      (some data ∈ slotRun m.maxPeerMemoryBytes m.reassemblyTimeout chunks.length 0 (some p)
        (times.zip chunks) ↔ HarmlessFrom 0 m.maxPeerMemoryBytes p chunks) := fun p hp =>
    slotRun_recovers_iff hl hf hfo chunks times htimes rfl (overlaid_zero p chunks) hp
  cases hs : m.partials.lookup peerId with
  | some p =>
    rw [ho p (hin.held p hs)]
    simp
  | none =>
    simp only [reduceCtorEq, false_implies, implies_true, iff_true]
    cases times with
    | nil => exact absurd (List.length_eq_zero_iff.mp htimes.symm) hpo
    | cons now times =>
      let p : PartialReassembly :=
        .new ⟨UInt16.ofNat chunks.length, UInt16.ofNat 0⟩ now
      have hp : ∀ t ∈ now :: times, t - p.receivedAt ≤ m.reassemblyTimeout :=
        fun t ht => hin.fed now (by simp) t ht
      rw [slotRun_none, ho p hp]
      exact harmlessFrom_new hl hpo (hf ▸ hcap) _

def sampleConfig : L2capConfig := ⟨23, 30⟩

def sampleFragments (data : Bytes) : List Bytes :=
  ((sampleConfig.fragment (appendCrc32 data)).toOption).getD []

def afterLoss (data : Bytes) (i : Nat) : L2capReassemblyManager :=
  (withDefaults.feedFragment 0 "peer" (((sampleFragments data)[i]?).getD [])).2

def firstMessage : Bytes := List.replicate 20 1
def secondMessage : Bytes := List.replicate 20 2

/-- The first fragment of a message of which the second was lost is harmless to the next message. -/
theorem recovers_after_first :
    some secondMessage ∈ (afterLoss firstMessage 0).feedAll "peer"
        ([5, 6].zip (sampleFragments secondMessage))
      ∧ ∀ p, (afterLoss firstMessage 0).partials.lookup "peer" = some p →
        Harmless (afterLoss firstMessage 0).maxPeerMemoryBytes p (sampleFragments secondMessage) := by
  have hf : sampleConfig.fragment (appendCrc32 secondMessage)
      = .ok (sampleFragments secondMessage) := by
    cases h : sampleConfig.fragment (appendCrc32 secondMessage) with
    | error e =>
      have ho : (sampleConfig.fragment (appendCrc32 secondMessage)).toBool = true := by
        decide +kernel
      rw [h] at ho
      cases ho
    | ok f => simp [sampleFragments, h, Except.toOption]
  have hh : ((afterLoss firstMessage 0).partials.lookup "peer").all (·.receivedAt == 0) = true := by
    decide +kernel
  have hi : (afterLoss firstMessage 0).InTime "peer" [5, 6] := by
    refine ⟨by decide +kernel, ?_⟩
    intro p hp t ht
    rw [hp, Option.all_some, beq_iff_eq] at hh
    have hs : ∀ t ∈ [5, 6], t ≤ (afterLoss firstMessage 0).reassemblyTimeout := by
      decide +kernel
    rw [hh]
    exact hs t ht
  have hr : some secondMessage ∈ (afterLoss firstMessage 0).feedAll "peer"
      ([5, 6].zip (sampleFragments secondMessage)) := by decide +kernel
  exact ⟨hr, (recovers_iff (afterLoss firstMessage 0) "peer" rfl secondMessage hf
    (by decide +kernel) (by decide +kernel) hi).mp hr⟩

/-- A left-over second fragment is put together with the first of the next message. -/
theorem stale_fragment_blocks :
    (afterLoss firstMessage 1).feedAll "peer" ([5, 6].zip (sampleFragments secondMessage))
        = [none, none]
      ∧ withDefaults.feedAll "peer" ([5, 6].zip (sampleFragments secondMessage))
        = [none, some secondMessage] := by
  decide +kernel

end L2capReassemblyManager

end SCMessenger
