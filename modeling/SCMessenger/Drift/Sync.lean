import SCMessenger.Drift.PersistentStore
import SCMessenger.Drift.SketchFormat

/-!
# Synchronising two stores

The exchange of `drift/sync.rs`: offer, response, completion.  Each side decodes the difference of the two
sketches, of which one has been on the wire.  The time and the offer's proof, which nobody reads, are arguments.
-/

namespace SCMessenger

/-- The messages of an exchange. -/
inductive SyncMessage where
  | syncOffer (ibltData : Bytes) (messageCount sketchCapacity : UInt32) (peerProof : String)
      (timestamp : UInt64)
  | syncResponse (ibltData : Bytes) (messageCount : UInt32) (missingEnvelopes : List Bytes)
  | syncComplete (missingEnvelopes : List Bytes)
deriving DecidableEq

inductive SyncState where
  | ready
  | awaitingResponse
  | processingResponse
  | complete
  | failed
deriving DecidableEq, Repr

/-- One side of an exchange. -/
structure SyncSession where
  state : SyncState
  ourIblt : Option IBLT
  peerIblt : Option IBLT
  peerMissing : List (Arr 16)
  ourMissing : List (Arr 16)
  peerMessageCount : UInt32

/-- The bincode form of the envelopes a store has under some identifiers. -/
def MeshStore.envelopeBytes (store : MeshStore) (ids : List (Arr 16)) : List Bytes :=
  (ids.filterMap store.get).map storedEnvelopeCodec.serialize

def parseEnvelopes (data : List Bytes) : List StoredEnvelope := data.filterMap storedEnvelopeCodec.deserialize

namespace SyncSession

def new : SyncSession := ⟨.ready, none, none, [], [], 0⟩

def initiate (hash : CellHash) (proof : MeshStore → String) (now : UInt64) (session : SyncSession)
    (store : MeshStore) : Except DriftError SyncMessage × SyncSession :=
  if session.state ≠ .ready then (.error (.decompressionFailed "SyncSession already initiated"), session)
  else
    let messageCount := UInt32.ofNat store.len
    let iblt := IBLT.ofKeys hash (.new (max (messageCount.toNat * 4 + 8) 1)) store.messageIds
    match iblt.toBytes with
    | .error e => (.error e, session)
    | .ok data =>
      (.ok (.syncOffer data messageCount (UInt32.ofNat iblt.numCells) (proof store) now),
        { session with ourIblt := some iblt, state := .awaitingResponse })

def respond (hash : CellHash) (session : SyncSession) (store : MeshStore) (offer : SyncMessage) :
    Except DriftError (SyncMessage × List StoredEnvelope) × SyncSession :=
  if session.state ≠ .ready then
    (.error (.decompressionFailed "SyncSession in wrong state for respond"), session)
  else
    match offer with
    | .syncOffer ibltData messageCount _ _ _ =>
      match IBLT.fromBytes ibltData with
      | .error e => (.error e, session)
      | .ok peerIblt =>
        let session := { session with peerIblt := some peerIblt, peerMessageCount := messageCount }
        let ourIblt := IBLT.ofKeys hash (.withCells peerIblt.numCells) store.messageIds
        match (ourIblt.subtract peerIblt).bind (IBLT.decode hash) with
        | .error e => (.error e, session)
        | .ok (theyHaveNot, theyHaveWeDont) =>
          let session := { session with peerMissing := theyHaveNot, ourMissing := theyHaveWeDont }
          match ourIblt.toBytes with
          | .error e => (.error e, session)
          | .ok data =>
            (.ok (.syncResponse data (UInt32.ofNat store.len) (store.envelopeBytes theyHaveNot),
              theyHaveWeDont.filterMap store.get),
              { session with ourIblt := some ourIblt, state := .processingResponse })
    | _ => (.error (.decompressionFailed "Expected SyncOffer message"), session)

def complete (hash : CellHash) (session : SyncSession) (store : MeshStore) (response : SyncMessage) :
    Except DriftError (SyncMessage × List StoredEnvelope) × SyncSession :=
  if session.state ≠ .awaitingResponse then
    (.error (.decompressionFailed "SyncSession not awaiting response"), session)
  else
    match response with
    | .syncResponse ibltData _ missingEnvelopes =>
      match IBLT.fromBytes ibltData with
      | .error e => (.error e, session)
      | .ok peerIblt =>
        match session.ourIblt with
        | none => (.error (.decompressionFailed "No local IBLT stored"), session)
        | some ourIblt =>
          match (ourIblt.subtract peerIblt).bind (IBLT.decode hash) with
          | .error e => (.error e, session)
          | .ok (weHaveOnly, theyHaveOnly) =>
            (.ok (.syncComplete (store.envelopeBytes weHaveOnly), parseEnvelopes missingEnvelopes),
              { session with peerMissing := weHaveOnly, ourMissing := theyHaveOnly, state := .complete })
    | _ => (.error (.decompressionFailed "Expected SyncResponse message"), session)

end SyncSession

def SyncMessage.completed : SyncMessage → List StoredEnvelope
  | .syncComplete missingEnvelopes => parseEnvelopes missingEnvelopes
  | _ => []

/-- One exchange between new sessions: the envelopes each side gets to merge. -/
def exchange (hash : CellHash) (proof : MeshStore → String) (now : UInt64) (a b : MeshStore) :
    Except DriftError (List StoredEnvelope × List StoredEnvelope) :=
  match SyncSession.new.initiate hash proof now a with
  | (.error e, _) => .error e
  | (.ok offer, initiator) =>
    match SyncSession.new.respond hash b offer with
    | (.error e, _) => .error e
    | (.ok (response, _), _) =>
      match initiator.complete hash a response with
      | (.error e, _) => .error e
      | (.ok (completion, received), _) => .ok (received, completion.completed)

def mergeEnvelopes (scores : Arr 16 → Scores) (store : MeshStore) (envelopes : List StoredEnvelope) :
    Nat × MeshStore :=
  envelopes.foldl (fun acc e =>
    let (new, store) := acc.2.insert (scores e.messageId) e
    (if new then acc.1 + 1 else acc.1, store)) (0, store)

/-! ## What an exchange hands over -/

def MeshStore.sketchCells (store : MeshStore) : Nat := ((UInt32.ofNat store.len).toNat * 4 + 8) * 3

def MeshStore.sketch (hash : CellHash) (cells : Nat) (store : MeshStore) : IBLT :=
  IBLT.ofKeys hash (.withCells cells) store.messageIds

def MeshStore.Fits (store : MeshStore) : Prop := ∀ id e, store.get id = some e → storedEnvelopeCodec.fits e

theorem IBLT.new_eq_withCells {d : Nat} (h : 0 < d) : IBLT.new d = .withCells (d * 3) := by
  rw [IBLT.new, IBLT.withCells, IBLT.cellsPerDiff, Nat.max_eq_left h, Nat.max_eq_left (by omega)]

variable {store : MeshStore}

theorem parseEnvelopes_envelopeBytes (h : store.Fits) (ids : List (Arr 16)) :
    parseEnvelopes (store.envelopeBytes ids) = ids.filterMap store.get := by
  have hf : ∀ e ∈ ids.filterMap store.get, storedEnvelopeCodec.fits e := by
    intro e he
    obtain ⟨id, -, hi⟩ := List.mem_filterMap.mp he
    exact h id e hi
  rw [parseEnvelopes, MeshStore.envelopeBytes]
  generalize ids.filterMap store.get = envelopes at hf
  induction envelopes with
  | nil => rfl
  | cons e r ih =>
    rw [List.map_cons, List.filterMap_cons,
      storedEnvelopeCodec.deserialize_serialize_self (hf e List.mem_cons_self)]
    exact congrArg (e :: ·) (ih fun x hx => hf x (List.mem_cons_of_mem _ hx))

variable {cells : Nat}

theorem numCells_sketch (hash : CellHash) (h : 0 < cells) (store : MeshStore) :
    (store.sketch hash cells).numCells = cells := by
  rw [MeshStore.sketch, IBLT.numCells_ofKeys, IBLT.withCells, IBLT.numCells, List.length_replicate]
  omega

theorem sketchCells_pos (store : MeshStore) : 0 < store.sketchCells := by
  rw [MeshStore.sketchCells]
  omega

theorem toBytes_sketch (hash : CellHash) (hp : 0 < cells) (hs : cells ≤ 65535) (store : MeshStore) :
    ∃ d, (store.sketch hash cells).toBytes = .ok d := by
  refine ⟨_, if_neg ?_⟩
  rw [numCells_sketch hash hp]
  omega

def SyncSession.offering (iblt : IBLT) : SyncSession := ⟨.awaitingResponse, some iblt, none, [], [], 0⟩

theorem ofKeys_new_eq_sketch (hash : CellHash) (store : MeshStore) :
    IBLT.ofKeys hash (.new (max ((UInt32.ofNat store.len).toNat * 4 + 8) 1)) store.messageIds
      = store.sketch hash store.sketchCells := by
  rw [Nat.max_eq_left (by omega), IBLT.new_eq_withCells (by omega), MeshStore.sketch, MeshStore.sketchCells]

theorem initiate_of_ok (hash : CellHash) (p : MeshStore → String) (now : UInt64) {s : SyncSession}
    (hr : s.state = .ready) {d : Bytes}
    (hd : (store.sketch hash store.sketchCells).toBytes = .ok d) :
    s.initiate hash p now store
      = (.ok (.syncOffer d (UInt32.ofNat store.len)
          (UInt32.ofNat (store.sketch hash store.sketchCells).numCells) (p store) now),
        { s with ourIblt := some (store.sketch hash store.sketchCells), state := .awaitingResponse }) := by
  unfold SyncSession.initiate
  rw [if_neg (not_not.mpr hr)]
  simp only [ofKeys_new_eq_sketch, hd]

theorem initiate_of_error (hash : CellHash) (p : MeshStore → String) (now : UInt64)
    {s : SyncSession} (hr : s.state = .ready) {e : DriftError}
    (he : (store.sketch hash store.sketchCells).toBytes = .error e) :
    s.initiate hash p now store = (.error e, s) := by
  unfold SyncSession.initiate
  rw [if_neg (not_not.mpr hr)]
  simp only [ofKeys_new_eq_sketch, he]

theorem toBytes_of_large (hash : CellHash) (hs : 65535 < store.sketchCells) :
    (store.sketch hash store.sketchCells).toBytes = .error (.bufferTooShort store.sketchCells 65535) := by
  rw [IBLT.toBytes, numCells_sketch hash (sketchCells_pos store), if_pos hs]

variable {a b : MeshStore}

/-- Each side gets what the other found to be its alone. -/
theorem exchange_eq (hash : CellHash) (p : MeshStore → String) (now : UInt64) (ha : a.Fits)
    (hb : b.Fits) (hs : a.sketchCells ≤ 65535) :
    exchange hash p now a b
      = (((b.sketch hash a.sketchCells).subtract (a.sketch hash a.sketchCells).cut).bind (IBLT.decode hash)).bind
          fun d => (((a.sketch hash a.sketchCells).subtract (b.sketch hash a.sketchCells).cut).bind
            (IBLT.decode hash)).bind
              fun d' => .ok (d.1.filterMap b.get, d'.1.filterMap a.get) := by
  have hp : 0 < a.sketchCells := sketchCells_pos a
  obtain ⟨o, ho⟩ := toBytes_sketch hash hp hs a
  obtain ⟨an, han⟩ := toBytes_sketch hash hp hs b
  have hi : SyncSession.new.initiate hash p now a = (_, .offering (a.sketch hash a.sketchCells)) :=
    initiate_of_ok hash p now rfl ho
  have hc : (a.sketch hash a.sketchCells).cut.numCells = a.sketchCells := by
    rw [IBLT.numCells_cut, numCells_sketch hash hp]
  have hou : IBLT.ofKeys hash (.withCells a.sketchCells) b.messageIds = b.sketch hash a.sketchCells := rfl
  unfold exchange
  simp only [hi]
  unfold SyncSession.respond SyncSession.complete
  simp only [SyncSession.new, SyncSession.offering, ne_eq, not_true_eq_false, if_false, IBLT.fromBytes_toBytes ho,
    hc, hou]
  cases ((b.sketch hash a.sketchCells).subtract (a.sketch hash a.sketchCells).cut).bind (IBLT.decode hash) with
  | error e => rfl
  | ok d =>
    simp only [han, IBLT.fromBytes_toBytes han]
    cases ((a.sketch hash a.sketchCells).subtract (b.sketch hash a.sketchCells).cut).bind
        (IBLT.decode hash) with
    | error e => rfl
    | ok d' =>
      simp only [parseEnvelopes_envelopeBytes hb, SyncMessage.completed, parseEnvelopes_envelopeBytes ha]
      rfl

theorem exchange_of_large (hash : CellHash) (p : MeshStore → String) (now : UInt64)
    (hs : 65535 < a.sketchCells) :
    exchange hash p now a b = .error (.bufferTooShort a.sketchCells 65535) := by
  unfold exchange
  rw [initiate_of_error hash p now rfl (toBytes_of_large hash hs)]

/-! ## Merging what was received -/

def envelopeIds (envelopes : List StoredEnvelope) : Finset (Arr 16) :=
  (envelopes.map StoredEnvelope.messageId).toFinset

theorem envelopeIds_cons (e : StoredEnvelope) (r : List StoredEnvelope) :
    envelopeIds (e :: r) = Insert.insert e.messageId (envelopeIds r) := by
  simp [envelopeIds]

/-- **Merging envelopes adds their identifiers**, while there is room. -/
theorem ids_mergeEnvelopes {s : Arr 16 → Scores} (en : List StoredEnvelope)
    (hr : (store.ids ∪ envelopeIds en).card ≤ store.maxMessages) :
    (mergeEnvelopes s store en).2.ids = store.ids ∪ envelopeIds en := by
  rw [mergeEnvelopes]
  generalize 0 = count
  induction en generalizing store count with
  | nil => simp [envelopeIds]
  | cons e r ih =>
    have hu : store.ids ∪ envelopeIds (e :: r)
        = Insert.insert e.messageId store.ids ∪ envelopeIds r := by
      rw [envelopeIds_cons, Finset.union_insert, Finset.insert_union]
    rw [hu] at hr ⊢
    rw [List.foldl_cons]
    cases ho : store.contains e.messageId with
    | true =>
      rw [Finset.insert_eq_of_mem (MeshStore.mem_ids.mpr ho)] at hr ⊢
      have hi : store.insert (s e.messageId) e = (false, store) := if_pos ho
      simp only [hi]
      exact ih hr _
    | false =>
      have hon : (Insert.insert e.messageId store.ids).card ≤ store.maxMessages :=
        le_trans (Finset.card_le_card Finset.subset_union_left) hr
      simp only [MeshStore.insert_of_room ho hon]
      rw [← MeshStore.ids_put] at hr ⊢
      exact ih hr _

/-! ## Convergence -/

theorem nodup_messageIds (store : MeshStore) : store.messageIds.Nodup := store.messages.keys_nodup

theorem mem_messageIds {id : Arr 16} : id ∈ store.messageIds ↔ id ∈ store.ids := by
  rw [MeshStore.ids, List.mem_toFinset]

theorem union_envelopeIds (hb : b.Keyed) {f : List (Arr 16)}
    (hf : List.Perm f (Peeling.only b.messageIds a.messageIds)) :
    a.ids ∪ envelopeIds (f.filterMap b.get) = a.ids ∪ b.ids := by
  ext id
  rw [Finset.mem_union, Finset.mem_union]
  constructor
  · rintro (h | h)
    · exact Or.inl h
    · rw [envelopeIds, List.mem_toFinset, List.mem_map] at h
      obtain ⟨e, he, rfl⟩ := h
      obtain ⟨id, -, hi⟩ := List.mem_filterMap.mp he
      rw [hb id e hi]
      exact Or.inr (MeshStore.mem_ids_iff.mpr ⟨e, hi⟩)
  · rintro (h | h)
    · exact Or.inl h
    · by_cases ha : id ∈ a.ids
      · exact Or.inl ha
      · right
        obtain ⟨e, he⟩ := MeshStore.mem_ids_iff.mp h
        rw [envelopeIds, List.mem_toFinset, List.mem_map]
        refine ⟨e, List.mem_filterMap.mpr ⟨id, hf.mem_iff.mpr ?_, he⟩, hb id e he⟩
        exact Peeling.mem_only.mpr ⟨mem_messageIds.mpr h, fun h' => ha (mem_messageIds.mp h')⟩

theorem cut_sketch {hash : CellHash} (hp : 0 < cells)
    (h : ∀ j, Peeling.weight (IBLT.mult hash cells) store.messageIds j < 256) :
    (store.sketch hash cells).cut = store.sketch hash cells := by
  apply IBLT.cut_of_small
  intro c hc
  obtain ⟨j, hj⟩ := List.mem_iff_getElem?.mp hc
  have hs : IBLT.Shows hash (store.sketch hash cells) store.messageIds := IBLT.shows_ofKeys _ _
  have hsm := h j
  have hco : c.count = Peeling.weight (IBLT.mult hash cells) store.messageIds j := by
    have he : i32 (Peeling.weight (IBLT.mult hash cells) store.messageIds j)
        = Peeling.weight (IBLT.mult hash cells) store.messageIds j :=
      IBLT.i32_of_small (by omega) (by omega)
    rw [(hs j c hj).1, numCells_sketch hash hp]
    exact he
  omega

theorem perm_of_decode {hash : CellHash} (hp : 0 < cells)
    (ha : ∀ j, Peeling.weight (IBLT.mult hash cells) a.messageIds j < 256)
    (hb : ∀ j, Peeling.weight (IBLT.mult hash cells) b.messageIds j < 256)
    (hap : Peeling.Separable (IBLT.mult hash cells) (Peeling.only a.messageIds b.messageIds)
      (Peeling.only b.messageIds a.messageIds)) {xs ys : List (Arr 16)}
    (ho : ((a.sketch hash cells).subtract (b.sketch hash cells).cut).bind (IBLT.decode hash) = .ok (xs, ys)) :
    List.Perm xs (Peeling.only a.messageIds b.messageIds) := by
  have hn : (a.sketch hash cells).numCells = cells := numCells_sketch hash hp a
  have hsm : ∀ {s t : MeshStore}, (∀ j, Peeling.weight (IBLT.mult hash cells) s.messageIds j < 256) →
      IBLT.Small hash cells (Peeling.only s.messageIds t.messageIds) := by
    intro s t hs j
    exact Nat.lt_of_le_of_lt Peeling.weight_only_le ((hs j).trans (by decide))
  rw [cut_sketch hp hb] at ho
  rw [← hn] at hap
  exact (IBLT.decode_of_shows (IBLT.shows_ofKeys _ _) (IBLT.shows_ofKeys _ _) (nodup_messageIds a)
    (nodup_messageIds b) (hn.symm ▸ hp) hap (hn.symm ▸ hsm ha) (hn.symm ▸ hsm hb) ho).1

/-- **Convergence**, if the messages of the two sides are separable and no cell gets 256 of one store. -/
theorem sync_converges (hash : CellHash) (proof : MeshStore → String) (now : UInt64) {a b : MeshStore}
    (ha : a.Keyed ∧ a.Fits) (hb : b.Keyed ∧ b.Fits)
    (hroom : (a.ids ∪ b.ids).card ≤ a.maxMessages) (hroom' : (a.ids ∪ b.ids).card ≤ b.maxMessages)
    (hsep : Peeling.Separable (IBLT.mult hash a.sketchCells) (Peeling.only a.messageIds b.messageIds)
      (Peeling.only b.messageIds a.messageIds))
    (hsmall : ∀ j, Peeling.weight (IBLT.mult hash a.sketchCells) a.messageIds j < 256)
    (hsmall' : ∀ j, Peeling.weight (IBLT.mult hash a.sketchCells) b.messageIds j < 256)
    {forA forB : List StoredEnvelope} (hok : exchange hash proof now a b = .ok (forA, forB))
    (scores scores' : Arr 16 → Scores) :
    (mergeEnvelopes scores a forA).2.ids = a.ids ∪ b.ids
      ∧ (mergeEnvelopes scores' b forB).2.ids = a.ids ∪ b.ids := by
  have hp : 0 < a.sketchCells := sketchCells_pos a
  have hs : a.sketchCells ≤ 65535 := by
    by_contra hlarge
    rw [exchange_of_large hash proof now (by omega)] at hok
    cases hok
  rw [exchange_eq hash proof now ha.2 hb.2 hs] at hok
  cases hr : ((b.sketch hash a.sketchCells).subtract (a.sketch hash a.sketchCells).cut).bind
      (IBLT.decode hash) with
  | error e =>
    rw [hr] at hok
    cases hok
  | ok d =>
    cases hi : ((a.sketch hash a.sketchCells).subtract (b.sketch hash a.sketchCells).cut).bind
        (IBLT.decode hash) with
    | error e =>
      rw [hr, hi] at hok
      cases hok
    | ok d' =>
      rw [hr, hi] at hok
      cases hok
      have hfo := union_envelopeIds hb.1 (perm_of_decode hp hsmall' hsmall hsep.symm hr)
      have hf := union_envelopeIds ha.1 (perm_of_decode hp hsmall hsmall' hsep hi)
      rw [Finset.union_comm b.ids a.ids] at hf
      constructor
      · rw [ids_mergeEnvelopes _ (hfo ▸ hroom), hfo]
      · rw [ids_mergeEnvelopes _ (hf ▸ hroom'), hf]

def carryingIds (ids : List (Arr 16)) : MeshStore :=
  ids.foldl (fun store id => store.put ⟨[], id, Arr.fit 4 [], 1000, 0, 0, 100, 0⟩) MeshStore.new

theorem sound_carryingIds (ids : List (Arr 16)) :
    (carryingIds ids).Keyed ∧ (carryingIds ids).Fits ∧ (carryingIds ids).maxMessages = 10000 := by
  have hs : ∀ (ids : List (Arr 16)) (store : MeshStore),
      store.Keyed ∧ store.Fits ∧ store.maxMessages = 10000 →
      let store := ids.foldl (fun store id => store.put ⟨[], id, Arr.fit 4 [], 1000, 0, 0, 100, 0⟩) store
      store.Keyed ∧ store.Fits ∧ store.maxMessages = 10000 := by
    intro ids
    induction ids with
    | nil => exact fun store h => h
    | cons id ids ih =>
      rintro store ⟨hk, hf, hm⟩
      refine ih _ ⟨MeshStore.keyed_put hk _, fun id' e he => ?_, hm⟩
      rw [MeshStore.get_put] at he
      split at he
      · cases he
        exact PersistentStore.fits_of_length (show ([] : Bytes).length < 256 ^ 8 by decide)
      · exact hf id' e he
  exact hs ids MeshStore.new ⟨MeshStore.keyed_new, nofun, rfl⟩

theorem weight_lt_of_length (hash : CellHash) (cells : Nat) {ids : List (Arr 16)} (hi : ids.length ≤ 80)
    (j : Nat) : Peeling.weight (IBLT.mult hash cells) ids j < 256 := by
  have hw : Peeling.weight (IBLT.mult hash cells) ids j ≤ ids.length * IBLT.hashCount :=
    Peeling.weight_le fun key => IBLT.mult_le hash cells j key
  rw [IBLT.hashCount] at hw
  omega

/-- Each side has a message that the other lacks, and the two meet in a cell. -/
theorem sync_converges_sample :
    ∃ forA forB, exchange IBLT.sampleHash (fun _ => "") 0 (carryingIds [Arr.fit 16 [10], Arr.fit 16 [2]])
          (carryingIds [Arr.fit 16 [10], Arr.fit 16 [4]]) = .ok (forA, forB)
      ∧ (mergeEnvelopes (fun _ _ _ _ => .eq) (carryingIds [Arr.fit 16 [10], Arr.fit 16 [2]]) forA).2.ids
        = (mergeEnvelopes (fun _ _ _ _ => .eq) (carryingIds [Arr.fit 16 [10], Arr.fit 16 [4]]) forB).2.ids := by
  have hi : (exchange IBLT.sampleHash (fun _ => "") 0 (carryingIds [Arr.fit 16 [10], Arr.fit 16 [2]])
      (carryingIds [Arr.fit 16 [10], Arr.fit 16 [4]])).isOk = true := by decide +kernel
  cases ho : exchange IBLT.sampleHash (fun _ => "") 0 (carryingIds [Arr.fit 16 [10], Arr.fit 16 [2]])
      (carryingIds [Arr.fit 16 [10], Arr.fit 16 [4]]) with
  | error e =>
    rw [ho] at hi
    cases hi
  | ok d =>
    obtain ⟨ha, ha', -⟩ := sound_carryingIds [Arr.fit 16 [10], Arr.fit 16 [2]]
    obtain ⟨hb, hb', -⟩ := sound_carryingIds [Arr.fit 16 [10], Arr.fit 16 [4]]
    obtain ⟨hf, hfo⟩ := sync_converges IBLT.sampleHash (fun _ => "") 0 ⟨ha, ha'⟩ ⟨hb, hb'⟩
      (by decide) (by decide)
      (IBLT.separable_of_lt (by decide) (by decide +kernel) (by decide +kernel) (by decide +kernel))
      (weight_lt_of_length _ _ (by decide)) (weight_lt_of_length _ _ (by decide)) ho
      (fun _ _ _ _ => .eq) (fun _ _ _ _ => .eq)
    exact ⟨d.1, d.2, rfl, hf.trans hfo.symm⟩

theorem exchange_collision (hash : CellHash) (p : MeshStore → String) (now : UInt64) {x y : Arr 16}
    (h : ∀ i < IBLT.hashCount, IBLT.hashToCell hash 36 x i = IBLT.hashToCell hash 36 y i) :
    exchange hash p now (carryingIds [x]) (carryingIds [y]) = .ok ([], []) := by
  have hc : (carryingIds [x]).sketchCells = 36 := rfl
  have ho : ∀ id j, Peeling.weight (IBLT.mult hash 36) (carryingIds [id]).messageIds j < 256 :=
    fun id => weight_lt_of_length hash 36 (show 1 ≤ 80 by decide)
  have hd : ∀ {x y : Arr 16},
      (∀ i < IBLT.hashCount, IBLT.hashToCell hash 36 x i = IBLT.hashToCell hash 36 y i) →
      (((carryingIds [x]).sketch hash 36).subtract ((carryingIds [y]).sketch hash 36).cut).bind
        (IBLT.decode hash) = .ok ([], []) := by
    intro x y h
    rw [cut_sketch (by decide) (ho y)]
    exact IBLT.decode_collision h
  rw [exchange_eq hash p now (sound_carryingIds [x]).2.1 (sound_carryingIds [y]).2.1
    (by rw [hc]; decide), hc, hd fun i hi => (h i hi).symm, hd h]
  rfl

/-- **No hash makes synchronisation converge**: an exchange succeeds and hands nothing over. -/
theorem no_hash_converges : ¬ ∃ (hash : CellHash) (proof : MeshStore → String) (now : UInt64),
    ∀ (a b : MeshStore) (forA forB : List StoredEnvelope), a.Keyed ∧ a.Fits → b.Keyed ∧ b.Fits →
      (a.ids ∪ b.ids).card ≤ a.maxMessages → (a.ids ∪ b.ids).card ≤ b.maxMessages →
      exchange hash proof now a b = .ok (forA, forB) →
      (mergeEnvelopes (fun _ _ _ _ => .eq) a forA).2.ids = (mergeEnvelopes (fun _ _ _ _ => .eq) b forB).2.ids := by
  rintro ⟨hash, proof, now, hco⟩
  obtain ⟨x, y, hn, hce⟩ := IBLT.exists_collision hash (m := 36) (by decide) (by decide)
  obtain ⟨hx, hx', hm⟩ := sound_carryingIds [x]
  obtain ⟨hy, hy', hm'⟩ := sound_carryingIds [y]
  have hi : ∀ id, (carryingIds [id]).ids = {id} := fun id => rfl
  have hc : ((carryingIds [x]).ids ∪ (carryingIds [y]).ids).card ≤ 10000 := by
    rw [hi, hi]
    refine le_trans (Finset.card_union_le _ _) ?_
    rw [Finset.card_singleton, Finset.card_singleton]
    decide
  have hsa := hco (carryingIds [x]) (carryingIds [y]) [] [] ⟨hx, hx'⟩ ⟨hy, hy'⟩ (hm ▸ hc)
    (hm' ▸ hc) (exchange_collision hash proof now hce)
  have hs : (carryingIds [x]).ids = (carryingIds [y]).ids := hsa
  rw [hi, hi, Finset.singleton_inj] at hs
  exact hn hs

/-! ## Offers of large stores -/

def SyncSession.Starts (hash : CellHash) (proof : MeshStore → String) (now : UInt64) (session : SyncSession)
    (store : MeshStore) : Prop :=
  ∃ data count capacity text time session', session.initiate hash proof now store
      = (.ok (.syncOffer data count capacity text time), session')
    ∧ ∃ table, IBLT.fromBytes data = .ok table

theorem sketchCells_eq (hl : store.len < 2 ^ 32) : store.sketchCells = (store.len * 4 + 8) * 3 := by
  rw [MeshStore.sketchCells, UInt32.toNat_ofNat', Nat.mod_eq_of_lt hl]

/-- **Which stores can start**: those with at most 5459 messages, as cells are counted in two bytes. -/
theorem starts_iff (hash : CellHash) (proof : MeshStore → String) (now : UInt64) {session : SyncSession}
    (hready : session.state = .ready) {store : MeshStore} (hlen : store.len ≤ 10000) :
    session.Starts hash proof now store ↔ store.len ≤ 5459 := by
  have hc : store.sketchCells = (store.len * 4 + 8) * 3 := sketchCells_eq (by omega)
  constructor
  · rintro ⟨d, count, c, text, t, s', ho, -⟩
    by_contra hmany
    rw [initiate_of_error hash proof now hready (toBytes_of_large hash (by omega))] at ho
    cases ho
  · intro hf
    obtain ⟨d, hd⟩ := toBytes_sketch hash (sketchCells_pos store) (by omega) store
    exact ⟨d, _, _, _, _, _, initiate_of_ok hash proof now hready hd, _, IBLT.fromBytes_toBytes hd⟩

theorem ids_foldl_put (ids : List (Arr 16)) (store : MeshStore) :
    (ids.foldl (fun store id => store.put ⟨[], id, Arr.fit 4 [], 1000, 0, 0, 100, 0⟩) store).ids
      = store.ids ∪ ids.toFinset := by
  induction ids generalizing store with
  | nil => simp
  | cons id ids ih =>
    rw [List.foldl_cons, ih, MeshStore.ids_put, List.toFinset_cons, Finset.union_insert,
      Finset.insert_union]

theorem len_carryingIds {ids : List (Arr 16)} (h : ids.Nodup) : (carryingIds ids).len = ids.length := by
  have hn : MeshStore.new.ids = ∅ := rfl
  rw [← MeshStore.card_ids, carryingIds, ids_foldl_put, hn, Finset.empty_union,
    List.toFinset_card_of_nodup h]

def manyIds (count : Nat) : List (Arr 16) := (List.range count).map fun i => Arr.fit 16 (leBytes 2 i)

theorem nodup_manyIds {c : Nat} (h : c ≤ 256 ^ 2) : (manyIds c).Nodup := by
  refine List.Nodup.map_on ?_ List.nodup_range
  intro i hi j hj hij
  have hb : ∀ k, (Arr.fit 16 (leBytes 2 k)).1.take 2 = leBytes 2 k := by
    intro k
    rw [Arr.take_fit (by decide) (by simp), List.take_of_length_le (by simp)]
  have ht : leBytes 2 i = leBytes 2 j := by
    rw [← hb i, ← hb j, hij]
  exact leBytes_inj ((List.mem_range.mp hi).trans_le h) ((List.mem_range.mp hj).trans_le h) ht

theorem len_carrying_manyIds {c : Nat} (h : c ≤ 256 ^ 2) :
    (carryingIds (manyIds c)).len = c := by
  rw [len_carryingIds (nodup_manyIds h), manyIds, List.length_map, List.length_range]

/-- The largest store that can start one. -/
theorem starts_largest :
    SyncSession.new.Starts IBLT.sampleHash (fun _ => "") 0 (carryingIds (manyIds 5459)) :=
  (starts_iff IBLT.sampleHash (fun _ => "") 0 rfl
    (by rw [len_carrying_manyIds (by decide)]; decide)).mpr (by rw [len_carrying_manyIds (by decide)])

/-- A store with one message more, about half of what it may hold, is refused, whatever the hash. -/
theorem initiate_refused : (carryingIds (manyIds 5460)).len = 5460
    ∧ ∀ (hash : CellHash) (proof : MeshStore → String) (now : UInt64),
      SyncSession.new.initiate hash proof now (carryingIds (manyIds 5460))
        = (.error (.bufferTooShort 65544 65535), .new) := by
  have hl : (carryingIds (manyIds 5460)).len = 5460 := len_carrying_manyIds (by decide)
  have hc : (carryingIds (manyIds 5460)).sketchCells = 65544 := by
    rw [sketchCells_eq (by rw [hl]; decide), hl]
  refine ⟨hl, fun hash proof now => ?_⟩
  have hb := toBytes_of_large hash (show 65535 < (carryingIds (manyIds 5460)).sketchCells by rw [hc]; decide)
  rw [hc] at hb
  exact initiate_of_error hash proof now rfl (hc.symm ▸ hb)

end SCMessenger
