import SCMessenger.Lib.Bincode
import SCMessenger.Lib.Chunks
import SCMessenger.Lib.Table

/-!
# Fragments on a BLE channel

`transport/ble/l2cap.rs`: a message is cut into fragments behind headers, and the receiver's manager
collects those of each peer.  The clock is an argument, in nanoseconds.
-/

namespace SCMessenger

/-! ## Configuration and header -/

inductive L2capError where
  | invalidMtu (mtu : UInt16)
  | invalidTimeout
  | fragmentationError (text : String)
  | reassemblyError (text : String)
deriving DecidableEq, Repr

structure L2capConfig where
  mtu : UInt16
  timeoutSecs : UInt64
deriving DecidableEq, Repr

def L2capConfig.validate (config : L2capConfig) : Except L2capError Unit :=
  if config.mtu < 23 then .error (.invalidMtu config.mtu)
  else if config.timeoutSecs = 0 then .error .invalidTimeout
  else .ok ()

theorem L2capConfig.mtu_ge_of_validate {config : L2capConfig} (h : config.validate = .ok ()) :
    23 ≤ config.mtu.toNat := by
  unfold validate at h
  split at h
  · cases h
  · rename_i hl
    exact UInt16.le_iff_toNat_le.mp (UInt16.not_lt.mp hl)

/-- The first four bytes of a fragment. -/
structure FragmentHeader where
  totalFragments : UInt16
  fragmentIndex : UInt16
deriving DecidableEq, Repr

namespace FragmentHeader

def headerSize : Nat := 4

def toBytes (header : FragmentHeader) : Bytes :=
  leBytes 2 header.totalFragments.toNat ++ leBytes 2 header.fragmentIndex.toNat

theorem length_toBytes (he : FragmentHeader) : he.toBytes.length = headerSize := by
  simp [toBytes, headerSize]

end FragmentHeader

/-- The errors of a kind of fragments; both kinds cut and put together alike. -/
structure FragmentErrors (ε : Type) where
  fragmentationError : String → ε
  reassemblyError : String → ε

namespace FragmentErrors

variable {ε : Type} (errors : FragmentErrors ε)

def newHeader (totalFragments fragmentIndex : UInt16) : Except ε FragmentHeader :=
  if totalFragments ≤ fragmentIndex then
    .error (errors.fragmentationError "Fragment index out of range")
  else .ok ⟨totalFragments, fragmentIndex⟩

def headerFromBytes (bytes : Bytes) : Except ε FragmentHeader :=
  if bytes.length < FragmentHeader.headerSize then
    .error (errors.reassemblyError "Fragment header too short")
  else
    errors.newHeader (UInt16.ofNat (leNat (bytes.take 2)))
      (UInt16.ofNat (leNat ((bytes.drop 2).take 2)))

theorem headerFromBytes_toBytes_append {he : FragmentHeader}
    (h : he.fragmentIndex < he.totalFragments) (p : Bytes) :
    errors.headerFromBytes (he.toBytes ++ p) = .ok he := by
  have hl : ¬ (he.toBytes ++ p).length < FragmentHeader.headerSize := by
    simp [FragmentHeader.length_toBytes, FragmentHeader.headerSize]
  have ht : (he.toBytes ++ p).take 2 = leBytes 2 he.totalFragments.toNat := by
    rw [FragmentHeader.toBytes, List.append_assoc, List.take_left' (leBytes_length 2 _)]
  have hi : ((he.toBytes ++ p).drop 2).take 2 = leBytes 2 he.fragmentIndex.toNat := by
    rw [FragmentHeader.toBytes, List.append_assoc, List.drop_left' (leBytes_length 2 _),
      List.take_left' (leBytes_length 2 _)]
  have hr : ∀ n : UInt16, UInt16.ofNat (leNat (leBytes 2 n.toNat)) = n := by
    intro n
    have hn : n.toNat < 256 ^ 2 := n.toNat_lt
    rw [leNat_leBytes, Nat.mod_eq_of_lt hn, UInt16.ofNat_toNat]
  rw [headerFromBytes, if_neg hl, ht, hi, hr, hr, newHeader, if_neg (UInt16.not_le.mpr h)]

def fragment (maxPayload : Nat) (tooLarge : String) (data : Bytes) : Except ε (List Bytes) :=
  if data.isEmpty then .ok [[]]
  else
    let chunks := chunksOf maxPayload data
    if 65535 < chunks.length then .error (errors.fragmentationError tooLarge)
    else
      chunks.zipIdx.mapM fun (chunk, index) => do
        let header ← errors.newHeader (UInt16.ofNat chunks.length) (UInt16.ofNat index)
        return header.toBytes ++ chunk

def checkFragment (totalFragments : UInt16) (fragment : Bytes) (i : Nat) : Except ε Unit := do
  let header ← errors.headerFromBytes fragment
  if header.fragmentIndex.toNat ≠ i then
    .error (errors.reassemblyError ("Fragment out of order: expected index " ++ toString i
      ++ ", got " ++ toString header.fragmentIndex))
  else if header.totalFragments ≠ totalFragments then
    .error (errors.reassemblyError "Inconsistent fragment count")
  else .ok ()

def reassemble : List Bytes → Except ε Bytes
  | [] => .ok []
  | first :: rest => do
    let fragments := first :: rest
    let firstHeader ← errors.headerFromBytes first
    let expectedTotal := firstHeader.totalFragments.toNat
    if fragments.length ≠ expectedTotal then
      .error (errors.reassemblyError ("Expected " ++ toString expectedTotal ++ " fragments, got "
        ++ toString fragments.length))
    else do
      fragments.zipIdx.forM fun (fragment, i) =>
        errors.checkFragment firstHeader.totalFragments fragment i
      .ok (fragments.flatMap (·.drop FragmentHeader.headerSize))

end FragmentErrors

def L2capError.errors : FragmentErrors L2capError := ⟨.fragmentationError, .reassemblyError⟩

def FragmentHeader.new (totalFragments fragmentIndex : UInt16) : Except L2capError FragmentHeader :=
  L2capError.errors.newHeader totalFragments fragmentIndex

def FragmentHeader.fromBytes (bytes : Bytes) : Except L2capError FragmentHeader :=
  L2capError.errors.headerFromBytes bytes

/-! ## Cutting a message -/

def L2capConfig.maxPayloadPerFragment (config : L2capConfig) : Nat :=
  config.mtu.toNat - FragmentHeader.headerSize

def L2capConfig.fragment (config : L2capConfig) (data : Bytes) : Except L2capError (List Bytes) :=
  L2capError.errors.fragment config.maxPayloadPerFragment "Message too large for fragmentation" data

theorem toNat_ofNat_position {n : Nat} (h : n ≤ 65535) : (UInt16.ofNat n).toNat = n :=
  UInt16.toNat_ofNat_of_lt' (Nat.lt_of_le_of_lt h (by decide))

theorem mapM_ok {α β ε : Type} {f : α → Except ε β} {g : α → β} :
    ∀ {xs : List α}, (∀ x ∈ xs, f x = .ok (g x)) → xs.mapM f = .ok (xs.map g)
  | [], _ => rfl
  | x :: xs, h => by
      rw [List.mapM_cons, h x (by simp), mapM_ok fun y hy => h y (by simp [hy])]
      rfl

def fragmentBytes (total i : Nat) (chunk : Bytes) : Bytes :=
  (FragmentHeader.mk (UInt16.ofNat total) (UInt16.ofNat i)).toBytes ++ chunk

theorem payloads_fragments (t : Nat) (chunks : List Bytes) (i : Nat) :
    ((chunks.zipIdx i).map fun x => fragmentBytes t x.2 x.1).map
      (·.drop FragmentHeader.headerSize) = chunks := by
  induction chunks generalizing i with
  | nil => rfl
  | cons c chunks ih =>
    have hp : (fragmentBytes t i c).drop FragmentHeader.headerSize = c :=
      List.drop_left' (FragmentHeader.length_toBytes _)
    simp only [List.zipIdx_cons, List.map_cons, ih, hp]

section

variable {ε : Type} {e : FragmentErrors ε} {p : Nat} {text : String} {d : Bytes} {f : List Bytes}

theorem headerFromBytes_fragmentBytes {t i : Nat} (hi : i < t) (ht : t ≤ 65535) (c : Bytes) :
    e.headerFromBytes (fragmentBytes t i c) = .ok ⟨UInt16.ofNat t, UInt16.ofNat i⟩ := by
  apply FragmentErrors.headerFromBytes_toBytes_append
  rw [UInt16.lt_iff_toNat_lt, toNat_ofNat_position ht, toNat_ofNat_position (by omega)]
  exact hi

/-- **The fragments of a message**: one for each chunk, behind its header. -/
theorem FragmentErrors.fragment_eq (hd : d ≠ []) (h : e.fragment p text d = .ok f) :
    let c := chunksOf p d
    c.length ≤ 65535 ∧ f = c.zipIdx.map fun x => fragmentBytes c.length x.2 x.1 := by
  intro c
  have he : ¬ d.isEmpty = true := by simpa using hd
  rw [fragment, if_neg he] at h
  dsimp only at h
  by_cases hl : 65535 < c.length
  · rw [if_pos hl] at h
    cases h
  · rw [if_neg hl] at h
    refine ⟨Nat.not_lt.mp hl, ?_⟩
    rw [mapM_ok (g := fun x => fragmentBytes c.length x.2 x.1) ?_, Except.ok.injEq] at h
    · exact h.symm
    · rintro ⟨ch, i⟩ hm
      have hi : i < c.length := by
        have hm' : i < 0 + c.length := (List.mem_zipIdx hm).2.1
        omega
      have hn : ¬ UInt16.ofNat c.length ≤ UInt16.ofNat i := by
        rw [UInt16.not_le, UInt16.lt_iff_toNat_lt, toNat_ofNat_position (by omega),
          toNat_ofNat_position (by omega)]
        exact hi
      dsimp only
      rw [newHeader, if_neg hn]
      rfl

end

/-! ## The checksum -/

def crc32Bit (crc : UInt32) : UInt32 :=
  if crc &&& 1 ≠ 0 then (crc >>> 1) ^^^ 0xEDB88320 else crc >>> 1

def crc32 (data : Bytes) : UInt32 :=
  (data.foldl (fun crc byte => (List.range 8).foldl (fun crc _ => crc32Bit crc)
    (crc ^^^ byte.toUInt32)) 0xFFFFFFFF) ^^^ 0xFFFFFFFF

def appendCrc32 (data : Bytes) : Bytes := data ++ leBytes 4 (crc32 data).toNat

/-- A reassembled message without its checksum, nothing if that differs; short ones as they are. -/
def checkCrc32 (reassembled : Bytes) : Option Bytes :=
  if 4 ≤ reassembled.length then
    let data := reassembled.take (reassembled.length - 4)
    let expected := UInt32.ofNat (leNat (reassembled.drop (reassembled.length - 4)))
    if expected ≠ crc32 data then none else some data
  else some reassembled

theorem length_appendCrc32 (d : Bytes) : (appendCrc32 d).length = d.length + 4 := by
  simp [appendCrc32]

theorem appendCrc32_ne_nil (d : Bytes) : appendCrc32 d ≠ [] := by
  intro h
  have hl := length_appendCrc32 d
  rw [h, List.length_nil] at hl
  omega

theorem checkCrc32_appendCrc32 (d : Bytes) : checkCrc32 (appendCrc32 d) = some d := by
  have hl : (appendCrc32 d).length - 4 = d.length := by
    rw [length_appendCrc32, Nat.add_sub_cancel]
  have hr : UInt32.ofNat (leNat (leBytes 4 (crc32 d).toNat)) = crc32 d := by
    have hc : (crc32 d).toNat < 256 ^ 4 := (crc32 d).toNat_lt
    rw [leNat_leBytes, Nat.mod_eq_of_lt hc, UInt32.ofNat_toNat]
  have ht : (appendCrc32 d).take d.length = d := List.take_left
  have hd : (appendCrc32 d).drop d.length = leBytes 4 (crc32 d).toNat := List.drop_left
  rw [checkCrc32, if_pos (by rw [length_appendCrc32]; omega), hl, ht, hd, hr]
  simp

/-- **The checksum pins the message**: what passes as `data` is `data` with its checksum. -/
theorem eq_appendCrc32_of_check {r data : Bytes} (hle : 4 ≤ r.length)
    (h : checkCrc32 r = some data) : r = appendCrc32 data := by
  rw [checkCrc32, if_pos hle] at h
  dsimp only at h
  split at h
  · cases h
  · rename_i hc
    cases h
    rw [not_not] at hc
    -- the last four bytes are those of the number they encode
    have hby : ∀ b : Bytes, b.length = 4 → leBytes 4 (UInt32.ofNat (leNat b)).toNat = b := by
      intro b hb
      have hl := leNat_lt b
      have hba := leBytes_leNat b
      rw [hb] at hl hba
      rw [UInt32.toNat_ofNat_of_lt' (by simpa using hl), hba]
    rw [appendCrc32, ← hc, hby _ (by rw [List.length_drop]; omega), List.take_append_drop]

/-! ## Collecting fragments -/

inductive L2cap.DropReason where
  | timeout
  | memoryCapExceeded
  | crcMismatch
deriving DecidableEq, Repr

/-- The fragments of one peer, as far as they arrived. -/
structure PartialReassembly where
  fragments : Table UInt16 Bytes
  expectedTotal : UInt16
  receivedAt : Nat
  bytesStored : Nat

namespace PartialReassembly

def new (header : FragmentHeader) (now : Nat) : PartialReassembly := ⟨∅, header.totalFragments, now, 0⟩

def insert (p : PartialReassembly) (index : UInt16) (payload : Bytes) : PartialReassembly :=
  { p with
    fragments := p.fragments.insert index payload
    bytesStored := p.bytesStored + payload.length }

def isComplete (p : PartialReassembly) : Bool :=
  p.fragments.keys.length == p.expectedTotal.toNat

def payloadFrom (p : PartialReassembly) (n : Nat) : Bytes :=
  (List.range' n (p.expectedTotal.toNat - n)).flatMap fun i =>
    (p.fragments.lookup (UInt16.ofNat i)).getD []

def expired (timeout now : Nat) (p : PartialReassembly) : Bool := timeout < now - p.receivedAt

end PartialReassembly

/-- The reassemblies of all peers. -/
structure L2capReassemblyManager where
  reassemblyTimeout : Nat
  maxPeerMemoryBytes : Nat
  partials : Table String PartialReassembly
  dropStats : L2cap.DropReason → Nat

namespace L2capReassemblyManager

def new (reassemblyTimeoutSecs maxPeerMemoryBytes : Nat) : L2capReassemblyManager :=
  ⟨reassemblyTimeoutSecs * 1000000000, maxPeerMemoryBytes, ∅, fun _ => 0⟩

def withDefaults : L2capReassemblyManager := new 30 (256 * 1024)

def countDrops (m : L2capReassemblyManager) (reason : L2cap.DropReason) (n : Nat) : L2capReassemblyManager :=
  { m with dropStats := Function.update m.dropStats reason (m.dropStats reason + n) }

def evictExpired (m : L2capReassemblyManager) (now : Nat) : L2capReassemblyManager :=
  let (expired, kept) := m.partials.purge (·.expired m.reassemblyTimeout now)
  { m with partials := kept }.countDrops .timeout expired.length

def removePeer (m : L2capReassemblyManager) (peerId : String) : L2capReassemblyManager :=
  { m with partials := m.partials.erase peerId }

def feedFragment (m : L2capReassemblyManager) (now : Nat) (peerId : String) (fragment : Bytes) :
    Option Bytes × L2capReassemblyManager :=
  let m := m.evictExpired now
  match FragmentHeader.fromBytes fragment with
  | .error _ => (none, m)
  | .ok header =>
    let payload := fragment.drop FragmentHeader.headerSize
    -- the entry of a peer keeps the number of fragments its first fragment announced
    let held := (m.partials.lookup peerId).getD (.new header now)
    if m.maxPeerMemoryBytes < held.bytesStored + payload.length then
      (none, (m.removePeer peerId).countDrops .memoryCapExceeded 1)
    else
      let held := held.insert header.fragmentIndex payload
      if held.isComplete then
        match checkCrc32 (held.payloadFrom 0) with
        | none => (none, (m.removePeer peerId).countDrops .crcMismatch 1)
        | some data => (some data, m.removePeer peerId)
      else (none, { m with partials := m.partials.insert peerId held })

def feedAll (m : L2capReassemblyManager) (peerId : String) : List (Nat × Bytes) → List (Option Bytes)
  | [] => []
  | (now, fragment) :: rest =>
    let (result, m') := m.feedFragment now peerId fragment
    result :: m'.feedAll peerId rest

end L2capReassemblyManager

end SCMessenger
