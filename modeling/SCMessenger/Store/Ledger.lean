import Mathlib.Data.List.Infix
import SCMessenger.Core.State
import SCMessenger.Store.RelayRegistry
import SCMessenger.Transport.AddrFilter

/-!
# The connection ledger

What a node remembers of addresses and of who is there.  Every write brings the peer identifier into
canonical form, and so does `load`.  libp2p's view of texts and the size of the file are parameters.
-/

namespace SCMessenger

/-- What is known of an address. -/
structure LedgerEntry where
  multiaddr : String
  peerId : Option String
  publicKey : Option String
  nickname : Option String
  successCount : UInt32
  failureCount : UInt32
  lastSeen : Option Nat
  topics : List String
deriving DecidableEq, Repr

/-- What the ledger is told by libp2p and by the file system. -/
structure LedgerEnv where
  base58Decode : String → Option Bytes
  parsesPeerId : String → Bool
  toPeerId : Arr 32 → PeerId
  validKey : Arr 32 → Bool
  addrs : Multiaddrs
  persistedSize : List LedgerEntry → Nat

/-- The identifiers of Ed25519 keys all begin with the same letters. -/
structure LedgerEnv.Lawful (env : LedgerEnv) : Prop where
  toPeerId_startsWith : ∀ key, startsWith "12D3KooW" (env.toPeerId key).text = true
  addrs : env.addrs.Lawful

def maxSeedLedgerEntries : Nat := 16
def maxLedgerEntries : Nat := 1024
def maxLenMultiaddr : Nat := 512
def maxLenPeerId : Nat := 128
def maxLenPublicKey : Nat := 512
def maxLenNickname : Nat := 128
def maxTopicsPerEntry : Nat := 64
def maxLenTopic : Nat := 256
def maxPersistedLedgerBytes : Nat := 16 * 1024 * 1024
def ledgerDeadFailureThreshold : UInt32 := 3

/-! ## Texts of addresses and peers -/

def containsText (part text : String) : Bool := decide (part.toList <:+: text.toList)

def isDnsMultiaddr (addrStr : String) : Bool :=
  containsText "/dns/" addrStr || containsText "/dns4/" addrStr || containsText "/dns6/" addrStr
    || containsText "/dnsaddr/" addrStr

def isCanonicalHex (trimmed : String) : Bool :=
  trimmed.utf8ByteSize == 64 && (trimmed.toList.all fun c => (hexVal c).isSome) && (hexDecode trimmed).toBool

section

variable (env : LedgerEnv)

def getMultiaddrPort (addrStr : String) : Option UInt16 :=
  (env.addrs.parse addrStr).bind fun addr => addr.findSome? fun proto =>
    match proto with
    | .tcp port => some port
    | .udp port => some port
    | _ => none

def peerIdFromPublicKeyHex (publicKeyHex : String) : Option String :=
  match hexDecode publicKeyHex with
  | .error _ => none
  | .ok bytes =>
    match Arr.ofBytes? 32 bytes with
    | none => none
    | some key => if env.validKey key then some (env.toPeerId key).text else none

def publicKeyHexFromLibp2pPeerId (peerId : String) : Option String :=
  match env.base58Decode (rustTrim peerId) with
  | none => none
  | some bytes =>
    if bytes.length ≠ 38 ∨ bytes.take 6 ≠ [0x00, 0x24, 0x08, 0x01, 0x12, 0x20] then none
    else
      let keyHex := hexEncode (bytes.drop 6)
      if peerIdFromPublicKeyHex env keyHex ≠ some (rustTrim peerId) then none else some keyHex

/-- Whether a peer id is the one of a key. -/
def isSelfCertifyingBinding (peerId publicKeyHex : String) : Bool :=
  match peerIdFromPublicKeyHex env publicKeyHex with
  | some derived => derived == peerId
  | none => false

def canonicalLedgerPeerId (peerId : String) (publicKey : Option String) : Option String :=
  let trimmed := rustTrim peerId
  if trimmed.isEmpty then none
  else if isCanonicalHex trimmed then some (rustToLowercase trimmed)
  else
    match publicKey with
    | some pk =>
      let pkTrimmed := rustTrim pk
      if isCanonicalHex pkTrimmed && isSelfCertifyingBinding env trimmed pkTrimmed then
        some (rustToLowercase pkTrimmed)
      else
        match publicKeyHexFromLibp2pPeerId env trimmed with
        | some derived => some (rustToLowercase derived)
        | none => none
    | none => (publicKeyHexFromLibp2pPeerId env trimmed).map rustToLowercase

/-- A peer identifier and a key in canonical form, as `annotate_identity` and `load` write them. -/
def canonicalBinding (peerId : String) (publicKey : Option String) : String × Option String :=
  match canonicalLedgerPeerId env peerId publicKey with
  | none => (peerId, publicKey)
  | some canonical =>
    if canonical ≠ rustToLowercase (rustTrim peerId) then
      (canonical,
        match publicKey with
        | some pk => if rustToLowercase (rustTrim pk) = canonical ∧ pk ≠ canonical then some canonical else some pk
        | none => some canonical)
    else (rustToLowercase (rustTrim peerId), publicKey.map fun pk => rustToLowercase (rustTrim pk))

/-- The peer id `recordConnection` writes, and the key it has for it. -/
def recordedBinding (peerId : String) : String × Option String :=
  match canonicalLedgerPeerId env peerId none with
  | some canonical => (canonical, some canonical)
  | none =>
    let trimmedLower := rustToLowercase (rustTrim peerId)
    if isCanonicalHex trimmedLower && peerId != trimmedLower then (trimmedLower, some trimmedLower)
    else (peerId, none)

/-- What `annotate_identity` writes: a key only with the peer identifier derived from it. -/
def annotatedBinding (peerId : String) (publicKey : Option String) : String × Option String :=
  canonicalBinding env peerId
    (publicKey.filter fun key => peerId.isEmpty || isSelfCertifyingBinding env peerId key)

/-- What both writers check of an address and a peer id. -/
def acceptable (multiaddr peerId : String) : Bool :=
  !(maxLenMultiaddr < multiaddr.utf8ByteSize
    || (!peerId.isEmpty && (maxLenPeerId < peerId.utf8ByteSize
      || (!isCanonicalHex (rustTrim peerId) && !env.parsesPeerId peerId))))

/-! ## Room for an entry -/

/-- Entries that were never seen come first, then the ones seen longest ago. -/
def evictionOrder (a b : LedgerEntry) : Ordering :=
  (match a.lastSeen, b.lastSeen with
  | none, none => Ordering.eq
  | none, some _ => .lt
  | some _, none => .gt
  | some aLastSeen, some bLastSeen => compare aLastSeen bLastSeen).then (compare a.multiaddr b.multiaddr)

def firstMinBy {α : Type} (cmp : α → α → Ordering) : List α → Option α
  | [] => none
  | x :: xs =>
    match firstMinBy cmp xs with
    | none => some x
    | some y => if cmp y x = .lt then some y else some x

def evictOne (entries : List LedgerEntry) : List LedgerEntry :=
  if entries.length < maxLedgerEntries then entries
  else
    let indexed := entries.zipIdx
    let victim :=
      match firstMinBy (fun a b => evictionOrder a.1 b.1) (indexed.filter fun e => e.1.successCount == 0) with
      | some (_, idx) => idx
      | none =>
        match firstMinBy (fun a b => evictionOrder a.1 b.1) indexed with
        | some (_, idx) => idx
        | none => 0
    entries.eraseIdx victim

/-- Evicts until there is room for one more. -/
def makeRoom : Nat → List LedgerEntry → List LedgerEntry
  | 0, entries => entries
  | fuel + 1, entries => if entries.length < maxLedgerEntries then entries else makeRoom fuel (evictOne entries)

def pushEntry (entries : List LedgerEntry) (entry : LedgerEntry) : List LedgerEntry :=
  makeRoom (entries.length + 1) entries ++ [entry]

/-! ## Writing -/

def isDnsEntryOf (multiaddr peerId : String) (entry : LedgerEntry) : Bool :=
  entry.peerId == some peerId && isDnsMultiaddr entry.multiaddr
    && ((getMultiaddrPort env multiaddr).isNone
      || getMultiaddrPort env entry.multiaddr == getMultiaddrPort env multiaddr)

/-- Write to the entry under a name, else to that of the address, else to a new one. -/
def upsert (multiaddr peerId : String) (onDns onSame : LedgerEntry → LedgerEntry) (fresh : LedgerEntry)
    (entries : List LedgerEntry) : List LedgerEntry :=
  if entries.any (isDnsEntryOf env multiaddr peerId) then
    updateFirst (isDnsEntryOf env multiaddr peerId) onDns entries
  else if entries.any (·.multiaddr == multiaddr) then updateFirst (·.multiaddr == multiaddr) onSame entries
  else pushEntry entries fresh

def recordConnectionLocked (now : Nat) (multiaddr peerId : String) (entries : List LedgerEntry) :
    List LedgerEntry :=
  let (peerId, canonicalPublicKey) := recordedBinding env peerId
  let onDns (entry : LedgerEntry) : LedgerEntry :=
    { entry with
      successCount := entry.successCount + 1
      publicKey := entry.publicKey.or canonicalPublicKey
      lastSeen := some now }
  upsert env multiaddr peerId onDns (fun entry => { onDns entry with peerId := some peerId })
    { multiaddr, peerId := some peerId, publicKey := canonicalPublicKey, nickname := none, successCount := 1,
      failureCount := 0, lastSeen := some now, topics := [] } entries

def normalizeText (value : Option String) : Option String :=
  value.bind fun value => if (rustTrim value).isEmpty then none else some (rustTrim value)

def annotateIdentityLocked (now : Nat) (multiaddr peerId : String) (publicKey nickname : Option String)
    (entries : List LedgerEntry) : List LedgerEntry :=
  let normalizedPublicKey := normalizeText publicKey
  let normalizedNickname := normalizeText nickname
  if !acceptable env multiaddr peerId
      || (normalizedPublicKey.any fun value => maxLenPublicKey < value.utf8ByteSize)
      || (normalizedNickname.any fun value => maxLenNickname < value.utf8ByteSize) then entries
  else
    let (peerId, normalizedPublicKey) := annotatedBinding env peerId normalizedPublicKey
    let onDns (entry : LedgerEntry) : LedgerEntry :=
      { entry with
        publicKey := normalizedPublicKey.or entry.publicKey
        nickname := normalizedNickname.or entry.nickname
        lastSeen := some now }
    upsert env multiaddr peerId onDns (fun entry => { onDns entry with peerId := some peerId })
      { multiaddr, peerId := some peerId, publicKey := normalizedPublicKey, nickname := normalizedNickname,
        successCount := 0, failureCount := 0, lastSeen := some now, topics := [] } entries

/-! ## Loading -/

def isControl (c : Char) : Bool := c.toNat < 0x20 || (0x7F ≤ c.toNat && c.toNat < 0xA0)

def isCleanText (maxLen : Nat) (trimmed : String) : Bool :=
  !(trimmed.isEmpty || maxLen < trimmed.utf8ByteSize || trimmed.toList.any isControl)

def sanitizeOptionalLedgerText (value : Option String) (maxLen : Nat) : Option String :=
  value.bind fun value => if isCleanText maxLen (rustTrim value) then some (rustTrim value) else none

def sanitizeLegacyTopics (topics : List String) : List String :=
  topics.foldl (fun sanitized topic =>
    if sanitized.length = maxTopicsPerEntry then sanitized
    else if !isCleanText maxLenTopic (rustTrim topic) then sanitized
    else if rustTrim topic ∈ sanitized then sanitized
    else sanitized ++ [rustTrim topic]) []

/-- Whether `load` takes an entry to be valid. -/
def isLoadable (entry : LedgerEntry) : Bool :=
  entry.multiaddr.utf8ByteSize ≤ maxLenMultiaddr
    && match entry.peerId with
      | none => true
      | some peerId =>
        peerId.isEmpty || (peerId.utf8ByteSize ≤ maxLenPeerId && env.parsesPeerId peerId)

/-- What `load` makes of an entry it keeps. -/
def repairEntry (entry : LedgerEntry) : LedgerEntry :=
  let publicKey := sanitizeOptionalLedgerText entry.publicKey maxLenPublicKey
  let entry :=
    { entry with
      nickname := sanitizeOptionalLedgerText entry.nickname maxLenNickname
      topics := sanitizeLegacyTopics entry.topics }
  match entry.peerId with
  | none => { entry with publicKey }
  | some peerId =>
    -- a key that the peer identifier is not derived from is stripped
    let certified := publicKey.filter fun key => peerId.isEmpty || isSelfCertifyingBinding env peerId key
    let (peerId, publicKey) := canonicalBinding env peerId certified
    { entry with peerId := some peerId, publicKey }

/-- Reached entries first, then the latest seen. -/
def loadOrder (a b : LedgerEntry) : Ordering :=
  (compare (decide (0 < b.successCount)) (decide (0 < a.successCount))).then
    ((compare (b.lastSeen.getD 0) (a.lastSeen.getD 0)).then (compare a.multiaddr b.multiaddr))

def loadEntries (parsed : List LedgerEntry) : List LedgerEntry :=
  let entries := parsed.filter (isLoadable env)
  let entries :=
    if maxLedgerEntries < entries.length then
      (entries.mergeSort fun a b => loadOrder a b != .gt).take maxLedgerEntries
    else entries
  entries.map (repairEntry env)

/-! ## The manager -/

/-- The entries in memory, and the file. -/
structure LedgerManager where
  entries : List LedgerEntry
  file : Option (List LedgerEntry)

/-- An address in an invite. -/
structure SeedLedgerEntry where
  multiaddr : String
deriving DecidableEq, Repr

namespace LedgerManager

variable (manager : LedgerManager)

def new (file : Option (List LedgerEntry)) : LedgerManager := ⟨[], file⟩

def saveWithEntries (entries : List LedgerEntry) : LedgerManager :=
  ⟨entries, if env.persistedSize entries ≤ maxPersistedLedgerBytes then some entries else manager.file⟩

def load : Except IronCoreError LedgerManager :=
  match manager.file with
  | none => .ok manager
  | some parsed =>
    let entries := loadEntries env parsed
    if maxPersistedLedgerBytes < env.persistedSize entries then .error .storageError
    else .ok ⟨entries, some entries⟩

def recordConnection (now : Nat) (multiaddr peerId : String) : LedgerManager :=
  if !env.addrs.isRecordableMultiaddr multiaddr then manager
  else if !acceptable env multiaddr peerId then manager
  else manager.saveWithEntries env (recordConnectionLocked env now multiaddr peerId manager.entries)

def recordFailure (multiaddr : String) : LedgerManager :=
  manager.saveWithEntries env
    (updateFirst (·.multiaddr == multiaddr) (fun entry => { entry with failureCount := entry.failureCount + 1 })
      manager.entries)

def annotateIdentity (now : Nat) (multiaddr peerId : String) (publicKey nickname : Option String) :
    LedgerManager :=
  if !env.addrs.isRecordableMultiaddr multiaddr then manager
  else
    manager.saveWithEntries env
      (annotateIdentityLocked env now multiaddr peerId publicKey nickname manager.entries)

/-- Takes one seed into the entries; the number counts the new ones. -/
def importSeed (now : Nat) (mode : NetworkMode) (state : List LedgerEntry × Nat) (seed : SeedLedgerEntry) :
    List LedgerEntry × Nat :=
  let stripped := env.addrs.stripPeerId seed.multiaddr
  if stripped.isEmpty then state
  else if !env.addrs.isDialableMultiaddr stripped mode .reject then state
  else if state.1.any fun e => env.addrs.stripPeerId e.multiaddr == stripped then state
  else if maxLenMultiaddr < seed.multiaddr.utf8ByteSize || maxLenMultiaddr < stripped.utf8ByteSize then state
  else
    (pushEntry state.1
      { multiaddr := stripped, peerId := none, publicKey := none, nickname := none, successCount := 0,
        failureCount := 0, lastSeen := some now, topics := [] }, state.2 + 1)

def importSeedEntriesWithMode (now : Nat) (seeds : List SeedLedgerEntry) (mode : NetworkMode) :
    Nat × LedgerManager :=
  let (entries, added) := (seeds.take maxSeedLedgerEntries).foldl (importSeed env now mode) (manager.entries, 0)
  (added, manager.saveWithEntries env entries)

def importSeedEntries (now : Nat) (seeds : List SeedLedgerEntry) : Nat × LedgerManager :=
  manager.importSeedEntriesWithMode env now seeds .localMode

end LedgerManager

/-- What is done to a ledger. -/
inductive LedgerOp where
  | recordConnection (now : Nat) (multiaddr peerId : String)
  | recordFailure (multiaddr : String)
  | annotateIdentity (now : Nat) (multiaddr peerId : String) (publicKey nickname : Option String)
  | importSeedEntries (now : Nat) (seeds : List SeedLedgerEntry)
  | load

namespace LedgerManager

def step (manager : LedgerManager) : LedgerOp → LedgerManager
  | .recordConnection now multiaddr peerId => manager.recordConnection env now multiaddr peerId
  | .recordFailure multiaddr => manager.recordFailure env multiaddr
  | .annotateIdentity now multiaddr peerId publicKey nickname =>
    manager.annotateIdentity env now multiaddr peerId publicKey nickname
  | .importSeedEntries now seeds => (manager.importSeedEntries env now seeds).2
  | .load =>
    match manager.load env with
    | .ok loaded => loaded
    | .error _ => manager

end LedgerManager

end

/-! ## What the writers keep -/

section

variable {env : LedgerEnv} {entries : List LedgerEntry} {Q : LedgerEntry → Prop}

variable (env) in
theorem LedgerManager.step_load_cases (manager : LedgerManager) :
    manager.step env .load = manager
      ∨ ∃ p, manager.file = some p
        ∧ manager.step env .load = ⟨loadEntries env p, some (loadEntries env p)⟩ := by
  unfold LedgerManager.step LedgerManager.load
  cases manager.file with
  | none => exact .inl rfl
  | some p =>
    by_cases hs : maxPersistedLedgerBytes < env.persistedSize (loadEntries env p)
    · left
      simp only [if_pos hs]
    · right
      refine ⟨p, rfl, ?_⟩
      simp only [if_neg hs]

theorem evictOne_sublist : (evictOne entries).Sublist entries := by
  unfold evictOne
  split
  · exact List.Sublist.refl _
  · exact List.eraseIdx_sublist ..

theorem makeRoom_sublist {f : Nat} : (makeRoom f entries).Sublist entries := by
  induction f generalizing entries with
  | zero => exact List.Sublist.refl _
  | succ f ih =>
    unfold makeRoom
    split
    · exact List.Sublist.refl _
    · exact ih.trans evictOne_sublist

theorem forall_pushEntry {en : LedgerEntry} (hen : ∀ e ∈ entries, Q e) (het : Q en) :
    ∀ e ∈ pushEntry entries en, Q e := by
  intro e he
  rcases List.mem_append.mp he with he | he
  · exact hen e (makeRoom_sublist.subset he)
  · rw [List.mem_singleton.mp he]
    exact het

theorem any_eq_false_iff_find? {p : LedgerEntry → Bool} :
    entries.any p = false ↔ entries.find? p = none := by
  rw [List.any_eq_false, List.find?_eq_none]

theorem forall_upsert_iff {m p : String} {od o : LedgerEntry → LedgerEntry}
    {f : LedgerEntry} (he : ∀ e ∈ entries, Q e) (hf : Q f) :
    (∀ e ∈ upsert env m p od o f entries, Q e)
      ↔ (∀ e, entries.find? (isDnsEntryOf env m p) = some e → Q (od e))
        ∧ (entries.find? (isDnsEntryOf env m p) = none →
          ∀ e, entries.find? (·.multiaddr == m) = some e → Q (o e)) := by
  unfold upsert
  cases hd : entries.any (isDnsEntryOf env m p) with
  | true =>
    have hs : entries.find? (isDnsEntryOf env m p) ≠ none := by
      rw [ne_eq, ← any_eq_false_iff_find?, hd]
      simp
    rw [if_pos rfl, forall_updateFirst_iff he]
    exact (and_iff_left fun hn => absurd hn hs).symm
  | false =>
    have hn := any_eq_false_iff_find?.mp hd
    rw [if_neg (by simp), hn]
    cases hsa : entries.any (·.multiaddr == m) with
    | true =>
      rw [if_pos rfl, forall_updateFirst_iff he]
      simp
    | false =>
      rw [if_neg (by simp), any_eq_false_iff_find?.mp hsa]
      simpa using forall_pushEntry he hf

theorem LedgerManager.importSeed_cases (now : Nat) (m : NetworkMode) (s : List LedgerEntry × Nat)
    (se : SeedLedgerEntry) :
    LedgerManager.importSeed env now m s se = s
      ∨ ∃ a, a = env.addrs.stripPeerId se.multiaddr
        ∧ LedgerManager.importSeed env now m s se
          = (pushEntry s.1 ⟨a, none, none, none, 0, 0, some now, []⟩, s.2 + 1)
        ∧ env.addrs.isDialableMultiaddr a m .reject = true
        ∧ ∀ e ∈ s.1, env.addrs.stripPeerId e.multiaddr ≠ a := by
  unfold LedgerManager.importSeed
  simp only
  split
  · exact .inl rfl
  · split
    · exact .inl rfl
    · rename_i hd
      split
      · exact .inl rfl
      · rename_i hn
        split
        · exact .inl rfl
        · refine .inr ⟨_, rfl, rfl, by simpa using hd, ?_⟩
          simpa using hn

theorem forall_importSeeds {now : Nat} {m : NetworkMode} {s : List SeedLedgerEntry} {a : Nat}
    (he : ∀ e ∈ entries, Q e)
    (hf : ∀ text, env.addrs.isDialableMultiaddr text m .reject = true →
      Q ⟨text, none, none, none, 0, 0, some now, []⟩) :
    ∀ e ∈ (s.foldl (LedgerManager.importSeed env now m) (entries, a)).1, Q e := by
  refine List.foldlRecOn (motive := fun st : List LedgerEntry × Nat => ∀ e ∈ st.1, Q e) s _ he fun st hs se _ => ?_
  rcases LedgerManager.importSeed_cases now m st se with h | ⟨a, -, h, hd, -⟩
  · rwa [h]
  · rw [h]
    exact forall_pushEntry hs (hf a hd)

end

end SCMessenger
