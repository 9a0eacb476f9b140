import SCMessenger.Drift.RoundTrip
import SCMessenger.Drift.Sketch

/-!
# Sketches on the wire

Of each count only the lowest byte is sent, which is read back as a number from `0` to `255`.
-/

namespace SCMessenger

namespace IBLT

def cellWidth : Nat := 21

def cellBytes (c : IBLTCell) : Bytes :=
  UInt8.ofInt c.count :: (c.keySum.1 ++ leBytes 4 c.keyCheck.toNat)

def toBytes (t : IBLT) : Except DriftError Bytes :=
  if 65535 < t.numCells then .error (.bufferTooShort t.numCells 65535)
  else .ok (leBytes 2 t.numCells ++ t.cells.flatMap cellBytes)

def cellAt (data : Bytes) (offset : Nat) : IBLTCell :=
  ⟨(DriftEnvelope.byteAt data offset).toNat, DriftEnvelope.arrAt data (offset + 1) 16,
    DriftEnvelope.u32At data (offset + 17)⟩

def fromBytes (data : Bytes) : Except DriftError IBLT :=
  if data.length < 2 then .error (.bufferTooShort 2 data.length)
  else
    let numCells := leNat (DriftEnvelope.sliceAt data 0 2)
    if data.length ≠ 2 + numCells * cellWidth then
      .error (.bufferTooShort (2 + numCells * cellWidth) data.length)
    else .ok ⟨(List.range numCells).map fun i => cellAt data (2 + i * cellWidth)⟩

def cut (t : IBLT) : IBLT := ⟨t.cells.map fun c => { c with count := (UInt8.ofInt c.count).toNat }⟩

theorem cellBytes_length (c : IBLTCell) : (cellBytes c).length = cellWidth := by
  simp [cellBytes, c.keySum.2, cellWidth]

theorem numCells_cut (t : IBLT) : t.cut.numCells = t.numCells := by
  simp [cut, numCells]

theorem cellAt_of_standsAt {d : Bytes} {o : Nat} {c : IBLTCell} (h : StandsAt d o (cellBytes c)) :
    cellAt d o = { c with count := (UInt8.ofInt c.count).toNat } := by
  rw [cellBytes, StandsAt.cons, StandsAt.append, c.keySum.2] at h
  obtain ⟨hc, hs, hch⟩ := h
  rw [cellAt, DriftEnvelope.byteAt_of_standsAt hc, DriftEnvelope.arrAt_of_standsAt hs,
    DriftEnvelope.u32At_of_standsAt hch]

/-- **A table that was sent is read with its counts cut.** -/
theorem fromBytes_toBytes {t : IBLT} {d : Bytes} (h : t.toBytes = .ok d) :
    fromBytes d = .ok t.cut := by
  rw [toBytes] at h
  split at h
  · cases h
  case isFalse hsize =>
    cases h
    have hw := StandsAt.append.mp (StandsAt.whole (leBytes 2 t.numCells ++ t.cells.flatMap cellBytes))
    have hn : leNat (DriftEnvelope.sliceAt (leBytes 2 t.numCells ++ t.cells.flatMap cellBytes) 0 2)
        = t.numCells := DriftEnvelope.leNat_sliceAt hw.1 (by omega)
    have hl : (leBytes 2 t.numCells ++ t.cells.flatMap cellBytes).length
        = 2 + t.numCells * cellWidth := by
      rw [List.length_append, leBytes_length, List.length_flatMap]
      simp [cellBytes_length, numCells]
    have hc : StandsAt (leBytes 2 t.numCells ++ t.cells.flatMap cellBytes) 2 (t.cells.flatMap cellBytes) := by
      simpa using hw.2
    rw [fromBytes, if_neg (by omega)]
    simp only [hn, hl, ne_eq, not_true_eq_false, if_false]
    congr 2
    apply List.ext_getElem?
    intro i
    rw [List.getElem?_map, List.getElem?_map]
    by_cases hi : i < t.cells.length
    · rw [List.getElem?_range (show i < t.numCells from hi), List.getElem?_eq_getElem hi, Option.map_some, Option.map_some,
        cellAt_of_standsAt (hc.record cellBytes_length (List.getElem?_eq_getElem hi))]
    · rw [List.getElem?_eq_none (by simpa [numCells] using hi), List.getElem?_eq_none (by omega)]
      rfl

theorem cut_of_small {t : IBLT} (h : ∀ c ∈ t.cells, 0 ≤ c.count ∧ c.count < 256) : t.cut = t := by
  have hce : t.cells.map (fun c => { c with count := ((UInt8.ofInt c.count).toNat : Int) }) = t.cells := by
    rw [List.map_congr_left (g := id), List.map_id]
    intro c hc
    obtain ⟨hl, hh⟩ := h c hc
    have hco : ((UInt8.ofInt c.count).toNat : Int) = c.count := by
      rw [UInt8.ofInt]
      simp
      omega
    rw [hco]
    rfl
  rw [cut, hce]

theorem cut_eq_iff {t : IBLT} : t.cut = t ↔ ∀ c ∈ t.cells, 0 ≤ c.count ∧ c.count < 256 := by
  refine ⟨fun h c hc => ?_, cut_of_small⟩
  have hce : t.cells.map (fun c => { c with count := ((UInt8.ofInt c.count).toNat : Int) })
      = t.cells.map id := by
    rw [List.map_id]
    exact congrArg IBLT.cells h
  have hco : ((UInt8.ofInt c.count).toNat : Int) = c.count :=
    congrArg IBLTCell.count (List.map_inj_left.mp hce c hc)
  have hb := (UInt8.ofInt c.count).toNat_lt
  omega

/-- **A table is read back exactly if its counts are from `0` to `255`.** -/
theorem sketch_roundTrip_iff {t : IBLT} (hsize : t.numCells ≤ 65535) :
    (∃ data, t.toBytes = .ok data ∧ fromBytes data = .ok t)
      ↔ ∀ c ∈ t.cells, 0 ≤ c.count ∧ c.count < 256 := by
  have hw : t.toBytes = .ok (leBytes 2 t.numCells ++ t.cells.flatMap cellBytes) := by
    rw [toBytes, if_neg (by omega)]
  rw [← cut_eq_iff]
  constructor
  · rintro ⟨data, ht, hf⟩
    rw [fromBytes_toBytes ht] at hf
    exact Except.ok.inj hf
  · intro hc
    exact ⟨_, hw, by rw [fromBytes_toBytes hw, hc]⟩

def sampleSketch : IBLT := (withCells 3).insert (fun i _ => UInt64.ofNat i) (Arr.fit 16 [7])

theorem sampleSketch_roundTrip :
    sampleSketch.numCells ≤ 65535
      ∧ ∃ data, sampleSketch.toBytes = .ok data ∧ fromBytes data = .ok sampleSketch :=
  ⟨by decide, (sketch_roundTrip_iff (by decide)).mpr (by decide)⟩

def sampleDifference : IBLT := ⟨List.zipWith subCell (withCells 3).cells sampleSketch.cells⟩

/-- A count of minus one is read as `255`. -/
theorem negative_count_lost :
    (withCells 3).subtract sampleSketch = .ok sampleDifference
      ∧ ∃ data, sampleDifference.toBytes = .ok data ∧ fromBytes data ≠ .ok sampleDifference := by
  refine ⟨rfl, _, rfl, fun h => ?_⟩
  rw [fromBytes_toBytes (t := sampleDifference) rfl] at h
  exact absurd (cut_eq_iff.mp (Except.ok.inj h)) (by decide)

end IBLT

end SCMessenger
