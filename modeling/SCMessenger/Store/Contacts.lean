import SCMessenger.Store.BlockAliases
import SCMessenger.Store.RelayRegistry

/-!
# Contacts

A contact is stored under one name, and an index leads from the identity id of its key to that key.  `get`
follows the index over and over; `remove` drops the record only under the name it is given.
-/

namespace SCMessenger

/-- A contact with all that is stored of it. -/
structure StoredContact extends Contact where
  /-- the nickname the peer gives itself -/
  nickname : Option String
  /-- the nickname the user gives the peer -/
  localNickname : Option String
  addedAt : Nat
  lastSeen : Option Nat
  notes : Option String
deriving DecidableEq, Repr

def StoredContact.new (now : Nat) (peerId publicKey : String) : StoredContact :=
  ⟨⟨peerId, publicKey, none⟩, none, none, now, none, none⟩

def contactKey (peerId : String) : String := "contact:" ++ peerId
def contactBundleKey (publicKeyHex : String) : String := "contact_bundle:" ++ publicKeyHex
def identityIdIndexKey (identityId : String) : String := "identity_id_idx:" ++ identityId

/-! ## Canonical names -/

/-- The check of a public key: only the length and the decoding are of the trimmed text. -/
def isHexKey (publicKey : String) : Bool :=
  (rustTrim publicKey).utf8ByteSize == 64 && (publicKey.toList.all fun c => (hexVal c).isSome)
    && (hexDecode (rustTrim publicKey)).toBool

section

variable {K : Type} (P : Primitives K) (base58Decode : String → Option Bytes)

def derivePublicKeyFromPeerId (peerId : String) : Except IronCoreError String :=
  let trimmed := rustTrim peerId
  if trimmed.utf8ByteSize = 64 ∧ (trimmed.toList.all fun c => (hexVal c).isSome) = true then
    -- 64 digits that are no key are likely an identity id
    match hexDecode trimmed with
    | .error _ => .error .invalidInput
    | .ok bytes =>
      match Arr.ofBytes? 32 bytes with
      | none => .error .invalidInput
      | some key => if P.edKeyValid key then .ok (rustToLowercase trimmed) else .error .invalidInput
  else
    match base58Decode trimmed with
    | none => .error .invalidInput
    | some bytes =>
      if bytes.length = 38 ∧ bytes.take 6 = [0x00, 0x24, 0x08, 0x01, 0x12, 0x20] then
        .ok (hexEncode (bytes.drop 6))
      else if 32 ≤ bytes.length then .ok (hexEncode (bytes.drop (bytes.length - 32)))
      else .error .invalidInput

def canonicalHex (contact : StoredContact) : Option String :=
  let trimmed := rustTrim contact.peerId
  if isHexKey contact.publicKey then some (rustToLowercase (rustTrim contact.publicKey))
  else
    match derivePublicKeyFromPeerId P base58Decode trimmed with
    | .ok derived => some (rustToLowercase derived)
    | .error _ =>
      if trimmed.utf8ByteSize = 64 ∧ (trimmed.toList.all fun c => (hexVal c).isSome) = true
          ∧ (hexDecode trimmed).toBool = true then some (rustToLowercase trimmed)
      else none

def canonicalize (contact : StoredContact) : StoredContact :=
  let trimmed := rustTrim contact.peerId
  if trimmed.isEmpty then contact
  else
    match canonicalHex P base58Decode contact with
    | none => contact
    | some canonical =>
      let sameKey := rustToLowercase (rustTrim contact.publicKey) = canonical ∧ contact.publicKey ≠ canonical
      if rustToLowercase trimmed ≠ canonical then
        if isHexKey contact.publicKey = false ∨ sameKey then
          { contact with peerId := canonical, publicKey := canonical }
        else { contact with peerId := canonical }
      else if contact.peerId ≠ canonical then
        if sameKey then { contact with peerId := canonical, publicKey := canonical }
        else { contact with peerId := canonical }
      else contact

/-! ## The store -/

/-- Every record lies under the name it holds, every index entry under the id of its key. -/
structure ContactStore where
  records : Table String StoredContact
  index : Table String String
  bundles : Table String PublicKeyBundle
  owned : ∀ name contact, records.lookup name = some contact → contact.peerId = name
  sound : ∀ id key, index.lookup id = some key → identityIdFromPublicKeyHex P key = some id

namespace ContactStore

variable {P} {base58Decode}

def empty : ContactStore P := ⟨∅, ∅, ∅, by simp, by simp⟩

def putRecord (store : ContactStore P) (contact : StoredContact) : ContactStore P :=
  { store with
    records := store.records.insert contact.peerId contact
    owned := by
      intro name held hheld
      by_cases hname : name = contact.peerId
      · subst hname
        rw [AList.lookup_insert, Option.some.injEq] at hheld
        rw [← hheld]
      · rw [AList.lookup_insert_ne hname] at hheld
        exact store.owned name held hheld }

def saveIdentityIdIndex (store : ContactStore P) (identityId publicKeyHex : String)
    (h : identityIdFromPublicKeyHex P publicKeyHex = some identityId) : ContactStore P :=
  { store with
    index := store.index.insert identityId publicKeyHex
    sound := by
      intro id key hkey
      by_cases hid : id = identityId
      · subst hid
        rw [AList.lookup_insert, Option.some.injEq] at hkey
        rw [← hkey, h]
      · rw [AList.lookup_insert_ne hid] at hkey
        exact store.sound id key hkey }

def eraseRecord (store : ContactStore P) (name : String) : ContactStore P :=
  { store with
    records := store.records.erase name
    owned := fun name' contact hheld => store.owned name' contact (Table.lookup_erase_iff.mp hheld).2 }

/-- Store a contact.  A refused entry of the index is not an error. -/
def add (base58Decode : String → Option Bytes) (takes : String → Bool) (store : ContactStore P)
    (contact : StoredContact) : Except IronCoreError (ContactStore P) :=
  let contact := canonicalize P base58Decode contact
  if takes (contactKey contact.peerId) = false then .error .storageError
  else
    let store := store.putRecord contact
    match h : identityIdFromPublicKeyHex P contact.publicKey with
    | some identityId =>
      if takes (identityIdIndexKey identityId) then
        .ok (store.saveIdentityIdIndex identityId contact.publicKey h)
      else .ok store
    | none => .ok store

def resolveIdentityId (store : ContactStore P) (identityId : String) : Option String :=
  store.index.lookup identityId

def get : Nat → ContactStore P → String → Option (Option StoredContact)
  | 0, _, _ => none
  | fuel + 1, store, peerId =>
    match store.records.lookup peerId with
    | some contact => some (some contact)
    | none =>
      match store.resolveIdentityId peerId with
      | some publicKey => get fuel store publicKey
      | none => some none

def remove (fuel : Nat) (takes : String → Bool) (store : ContactStore P) (peerId : String) :
    Option (Except IronCoreError (ContactStore P)) :=
  match get fuel store peerId with
  | none => none
  | some found =>
    let store : ContactStore P :=
      match found with
      | some contact =>
        if takes (contactBundleKey contact.publicKey) then
          { store with bundles := store.bundles.erase contact.publicKey }
        else store
      | none => store
    if takes (contactKey peerId) then some (.ok (store.eraseRecord peerId)) else some (.error .storageError)

def GetReturns (store : ContactStore P) (peerId : String) (found : Option StoredContact) : Prop :=
  ∃ fuel, get fuel store peerId = some found

def RemoveReturns (takes : String → Bool) (store : ContactStore P) (peerId : String)
    (store' : ContactStore P) : Prop :=
  ∃ fuel, remove fuel takes store peerId = some (.ok store')

/-! ## Where a name leads -/

/-- The index leads from a name to the first one with a record, or to nothing. -/
inductive Leads (records : String → Option StoredContact) (index : String → Option String) :
    String → Option String → Prop
  | record {name : String} {contact : StoredContact} (h : records name = some contact) :
      Leads records index name (some name)
  | nothing {name : String} (h : records name = none) (hindex : index name = none) :
      Leads records index name none
  | forward {name key : String} {place : Option String} (h : records name = none)
      (hindex : index name = some key) (hrest : Leads records index key place) : Leads records index name place

abbrev LeadsIn (store : ContactStore P) : String → Option String → Prop :=
  Leads (fun name => store.records.lookup name) fun name => store.index.lookup name

variable {store : ContactStore P}

variable {name : String} {found : Option StoredContact}

theorem leads_of_get {f : Nat} (h : get f store name = some found) :
    ∃ place, LeadsIn store name place ∧ found = place.bind fun place => store.records.lookup place := by
  induction f generalizing name with
  | zero => cases h
  | succ f ih =>
    rw [get] at h
    cases hr : store.records.lookup name with
    | some contact =>
      simp only [hr, Option.some.injEq] at h
      exact ⟨some name, .record hr, by rw [← h, Option.bind_some, hr]⟩
    | none =>
      rw [hr] at h
      cases hi : store.resolveIdentityId name with
      | none =>
        simp only [hi, Option.some.injEq] at h
        exact ⟨none, .nothing hr hi, h.symm⟩
      | some key =>
        rw [hi] at h
        obtain ⟨place, hp, hf⟩ := ih h
        exact ⟨place, .forward hr hi hp, hf⟩

variable {place : Option String}

theorem Leads.getReturns (h : LeadsIn store name place) :
    GetReturns store name (place.bind fun place => store.records.lookup place) := by
  induction h with
  | record h =>
    refine ⟨1, ?_⟩
    rw [get, h, Option.bind_some, h]
  | nothing h hi =>
    refine ⟨1, ?_⟩
    rw [get, h, resolveIdentityId, hi]
    rfl
  | forward h hi hrest ih =>
    obtain ⟨f, hf⟩ := ih
    refine ⟨f + 1, ?_⟩
    rw [get, h, resolveIdentityId, hi]
    exact hf

theorem getReturns_iff :
    GetReturns store name found
      ↔ ∃ place, LeadsIn store name place ∧ found = place.bind fun place => store.records.lookup place := by
  constructor
  · rintro ⟨f, h⟩
    exact leads_of_get h
  · rintro ⟨place, hp, rfl⟩
    exact hp.getReturns

theorem Leads.isSome {place : String} (h : LeadsIn store name (some place)) :
    ∃ contact, store.records.lookup place = some contact := by
  generalize hp : some place = t at h
  induction h with
  | record h =>
    cases hp
    exact ⟨_, h⟩
  | nothing => cases hp
  | forward _ _ _ ih => exact ih hp

theorem Leads.unique {p' : Option String} (h : LeadsIn store name place) (h' : LeadsIn store name p') :
    place = p' := by
  induction h with
  | record h =>
    cases h' with
    | record => rfl
    | nothing hn => rw [h] at hn; cases hn
    | forward hn => rw [h] at hn; cases hn
  | nothing h hi =>
    cases h' with
    | record hs => rw [h] at hs; cases hs
    | nothing => rfl
    | forward _ hs => rw [hi] at hs; cases hs
  | forward h hi hrest ih =>
    cases h' with
    | record hs => rw [h] at hs; cases hs
    | nothing _ hn => rw [hi] at hn; cases hn
    | forward _ hi' hrest' =>
      rw [hi, Option.some.injEq] at hi'
      exact ih (hi' ▸ hrest')

theorem leads_some_iff {place : String} :
    LeadsIn store name (some place)
      ↔ (name = place ∧ ∃ contact, store.records.lookup name = some contact)
        ∨ (store.records.lookup name = none
          ∧ ∃ key, store.index.lookup name = some key ∧ LeadsIn store key (some place)) := by
  constructor
  · intro h
    cases h with
    | record h => exact .inl ⟨rfl, _, h⟩
    | forward h hi hr => exact .inr ⟨h, _, hi, hr⟩
  · rintro (⟨rfl, contact, h⟩ | ⟨h, key, hi, hr⟩)
    · exact .record h
    · exact .forward h hi hr

variable {contact : StoredContact}

/-- A lookup finds a contact exactly when the name leads to where the contact is. -/
theorem getReturns_some_iff :
    GetReturns store name (some contact)
      ↔ LeadsIn store name (some contact.peerId) ∧ store.records.lookup contact.peerId = some contact := by
  rw [getReturns_iff]
  constructor
  · rintro ⟨place, hp, hf⟩
    cases place with
    | none => cases hf
    | some place =>
      rw [Option.bind_some] at hf
      rw [store.owned place contact hf.symm]
      exact ⟨hp, hf.symm⟩
  · rintro ⟨hp, hf⟩
    exact ⟨_, hp, by rw [Option.bind_some, hf]⟩

theorem getReturns_none_iff : GetReturns store name none ↔ LeadsIn store name none := by
  rw [getReturns_iff]
  constructor
  · rintro ⟨place, hp, hf⟩
    cases place with
    | none => exact hp
    | some place =>
      obtain ⟨contact, hc⟩ := hp.isSome
      rw [Option.bind_some, hc] at hf
      cases hf
  · intro hp
    exact ⟨none, hp, rfl⟩

theorem Leads.isKey {place : String} (h : LeadsIn store name (some place)) (hn : name ≠ place) :
    ∃ id, identityIdFromPublicKeyHex P place = some id := by
  generalize hp : some place = t at h
  induction h with
  | record =>
    cases hp
    exact absurd rfl hn
  | nothing => cases hp
  | @forward name key _ _ hi _ ih =>
    by_cases hk : key = place
    · exact ⟨name, hk ▸ store.sound name key hi⟩
    · exact ih hk hp

theorem Leads.eraseRecord {place : String} {r : Option String} (h : LeadsIn store name (some place))
    (hr : LeadsIn (store.eraseRecord place) place r) : LeadsIn (store.eraseRecord place) name r := by
  generalize hp : some place = t at h
  induction h with
  | record =>
    cases hp
    exact hr
  | nothing => cases hp
  | @forward name key _ h hi _ ih =>
    refine .forward ?_ hi (ih hp)
    show (store.records.erase place).lookup name = none
    cases hl : (store.records.erase place).lookup name with
    | none => rfl
    | some contact =>
      rw [(Table.lookup_erase_iff.mp hl).2] at h
      cases h

/-! ## What a name of a contact is -/

variable {id : String}

theorem isHexKey_of_identityId {p : String} (h : identityIdFromPublicKeyHex P p = some id) :
    isHexKey p = true ∧ rustTrim p = p := by
  have hv : isValidPublicKey P p = true := by
    unfold identityIdFromPublicKeyHex at h
    split at h
    · cases h
    · rename_i hv
      simpa using hv
  unfold isValidPublicKey at hv
  split at hv
  · cases hv
  · rename_i hf
    rw [not_or, not_not, Bool.not_eq_false, List.all_eq_true] at hf
    obtain ⟨hs, hcr⟩ := hf
    have hd : ∀ c ∈ p.toList, (hexVal c).isSome = true := by
      intro c hc
      have hch := hcr c hc
      simp only [Bool.or_eq_true, Bool.and_eq_true, decide_eq_true_eq, Char.isDigit] at hch
      unfold hexVal
      rcases hch with (hdg | hl) | hu
      · have hd' : '0' ≤ c ∧ c ≤ '9' := hdg
        rw [if_pos hd']
        rfl
      · simp only [hl, and_self, if_true]
        split <;> rfl
      · simp only [hu, and_self, if_true]
        split
        · rfl
        · split <;> rfl
    have ht := rustTrim_of_hexVal hd
    refine ⟨?_, ht⟩
    have hde : (hexDecode p).toBool = true := by
      cases hdc : hexDecode p with
      | error e => rw [hdc] at hv; cases hv
      | ok bytes => rfl
    simp only [isHexKey, ht, hs, List.all_eq_true.mpr hd, hde, BEq.rfl, Bool.and_self]

theorem rustToLowercase_identityId {p : String}
    (h : identityIdFromPublicKeyHex P p = some id) : rustToLowercase id = id := by
  unfold identityIdFromPublicKeyHex at h
  split at h
  · cases h
  · split at h
    · cases h
    · rw [← Option.some.inj h]
      exact rustToLowercase_hexEncode _

theorem rustToLowercase_canonicalHex {c : String}
    (h : canonicalHex P base58Decode contact = some c) : rustToLowercase c = c := by
  have hl : ∃ text, c = rustToLowercase text := by
    unfold canonicalHex at h
    simp only at h
    split at h
    · exact ⟨_, (Option.some.inj h).symm⟩
    · split at h
      · exact ⟨_, (Option.some.inj h).symm⟩
      · split at h
        · exact ⟨_, (Option.some.inj h).symm⟩
        · cases h
  obtain ⟨text, rfl⟩ := hl
  exact rustToLowercase_idem text

theorem canonicalize_peerId (hn : (rustTrim contact.peerId).isEmpty = false)
    (hi : identityIdFromPublicKeyHex P (canonicalize P base58Decode contact).publicKey = some id) :
    (canonicalize P base58Decode contact).peerId
      = rustToLowercase (canonicalize P base58Decode contact).publicKey := by
  unfold canonicalize at hi ⊢
  simp only [hn, Bool.false_eq_true, if_false] at hi ⊢
  -- the key that was given decides the canonical name, where it is kept
  have hg : ∀ {id}, identityIdFromPublicKeyHex P contact.publicKey = some id →
      canonicalHex P base58Decode contact = some (rustToLowercase contact.publicKey) := by
    intro id hi
    obtain ⟨hh, ht⟩ := isHexKey_of_identityId hi
    rw [canonicalHex, if_pos hh, ht]
  cases hc : canonicalHex P base58Decode contact with
  | none =>
    rw [hc] at hi
    rw [hg hi] at hc
    cases hc
  | some canonical =>
    have hl := rustToLowercase_canonicalHex hc
    have hk : ∀ {id}, identityIdFromPublicKeyHex P contact.publicKey = some id →
        canonical = rustToLowercase contact.publicKey := by
      intro id hi
      rw [hg hi, Option.some.injEq] at hc
      exact hc.symm
    simp only [hc] at hi ⊢
    split at hi
    · split at hi
      · rename_i ho hb
        rw [if_pos ho, if_pos hb]
        exact hl.symm
      · rename_i ho hb
        rw [if_pos ho, if_neg hb]
        exact hk hi
    · split at hi
      · split at hi
        · rename_i ho hcs hb
          rw [if_neg ho, if_pos hcs, if_pos hb]
          exact hl.symm
        · rename_i ho hcs hb
          rw [if_neg ho, if_pos hcs, if_neg hb]
          exact hk hi
      · rename_i ho hcs
        rw [if_neg ho, if_neg hcs]
        rw [not_not] at hcs
        rw [hcs]
        exact hk hi

theorem canonicalize_of_blank (h : (rustTrim contact.peerId).isEmpty = true) :
    canonicalize P base58Decode contact = contact := by
  rw [canonicalize]
  simp only [h, if_true]

theorem not_isKey_of_blank (h : (rustTrim name).isEmpty = true) :
    identityIdFromPublicKeyHex P name ≠ some id := by
  intro hi
  obtain ⟨hh, ht⟩ := isHexKey_of_identityId hi
  rw [ht, String.isEmpty_iff] at h
  rw [h] at hh
  exact absurd hh (by decide)

theorem canonicalize_of_key {key : Arr 32} (hv : P.edKeyValid key = true)
    (hp : contact.peerId = hexEncode key.1) (hk : contact.publicKey = hexEncode key.1) :
    canonicalize P base58Decode contact = contact := by
  have hi := identityIdFromPublicKeyHex_of_valid P (hexDecode_hexEncode key.1) hv
  obtain ⟨hh, ht⟩ := isHexKey_of_identityId hi
  have hl := rustToLowercase_hexEncode key.1
  have hc : canonicalHex P base58Decode contact = some (hexEncode key.1) := by
    rw [canonicalHex, hk, if_pos hh, ht, hl]
  unfold canonicalize
  simp only [hc, hp, ht, hl, ne_eq, not_true, if_false, ite_self]

/-! ## One contact under all its names -/

section Aliases

variable (base58Decode)

/-- The names of a contact: as it was given, as it is stored, and the identity id of its key. -/
def aliases (P : Primitives K) (contact : StoredContact) : List String :=
  contact.peerId :: (canonicalize P base58Decode contact).peerId
    :: (identityIdFromPublicKeyHex P (canonicalize P base58Decode contact).publicKey).toList

/-- An added contact is found under all its names, and under none once it is removed. -/
def AliasesConsistent (removes : String → Bool) (store : ContactStore P) (contact : StoredContact)
    (name : String) : Prop :=
  (∀ a ∈ aliases base58Decode P contact, GetReturns store a (some (canonicalize P base58Decode contact)))
    ∧ ∀ store', RemoveReturns removes store name store' →
      ∀ a ∈ aliases base58Decode P contact, GetReturns store' a none

end Aliases

/-- The index once a contact is stored: the entry of its own identity id, if it is written, before the others. -/
def indexWith (takes : String → Bool) (before : ContactStore P) (stored : StoredContact) (name : String) :
    Option String :=
  if identityIdFromPublicKeyHex P stored.publicKey = some name ∧ takes (identityIdIndexKey name) = true then
    some stored.publicKey
  else before.index.lookup name

/-- What the names of a contact have to be like in the store it is added to. -/
structure AliasesAgree (takes : String → Bool) (before : ContactStore P) (givenName : String)
    (stored : StoredContact) (name : String) : Prop where
  /-- the name it was given under is the one it is stored under, or leads there -/
  given : Leads (Function.update (fun a => before.records.lookup a) stored.peerId (some stored))
    (before.indexWith takes stored) givenName (some stored.peerId)
  /-- nothing else lies under its identity id, its key is in lower case and is entered into the index -/
  identity : ∀ id, identityIdFromPublicKeyHex P stored.publicKey = some id →
    id = stored.peerId
      ∨ (takes (identityIdIndexKey id) = true ∧ before.records.lookup id = none
        ∧ stored.publicKey = stored.peerId)
      ∨ (takes (identityIdIndexKey id) = false
        ∧ Leads (Function.update (fun a => before.records.lookup a) stored.peerId (some stored))
          (before.indexWith takes stored) id (some stored.peerId))
  /-- it is removed under the name it is stored under -/
  removed : name = stored.peerId
  /-- and that name is not an alias of something else -/
  last : Leads (Function.update (fun a => before.records.lookup a) stored.peerId none)
    (before.indexWith takes stored) stored.peerId none

theorem stored_mem_aliases (contact : StoredContact) :
    (canonicalize P base58Decode contact).peerId ∈ aliases base58Decode P contact := by
  simp [aliases]

variable {takes : String → Bool} {before : ContactStore P}

theorem add_cases {store : ContactStore P} (h : before.add base58Decode takes contact = .ok store) :
    store.records = before.records.insert (canonicalize P base58Decode contact).peerId
        (canonicalize P base58Decode contact)
      ∧ (fun a => store.index.lookup a) = before.indexWith takes (canonicalize P base58Decode contact) := by
  unfold add at h
  simp only at h
  split at h
  · cases h
  · split at h
    · rename_i id hi
      split at h
      · rename_i ht
        rw [← Except.ok.inj h]
        refine ⟨rfl, Table.lookup_insert_eq.trans ?_⟩
        funext a
        rw [indexWith, hi]
        by_cases ha : a = id
        · rw [ha, Function.update_self, if_pos ⟨rfl, ht⟩]
        · rw [Function.update_of_ne ha, if_neg fun h => ha (Option.some.inj h.1).symm]
          rfl
      · rename_i ht
        rw [← Except.ok.inj h]
        refine ⟨rfl, ?_⟩
        funext a
        rw [indexWith, hi, if_neg]
        · rfl
        · rintro ⟨ha, hta⟩
          exact ht (Option.some.inj ha ▸ hta)
    · rename_i hn
      rw [← Except.ok.inj h]
      refine ⟨rfl, ?_⟩
      funext a
      rw [indexWith, hn, if_neg fun h => nomatch h.1]
      rfl

theorem add_of_identityId
    (hi : identityIdFromPublicKeyHex P (canonicalize P base58Decode contact).publicKey = some id)
    (hr : takes (contactKey (canonicalize P base58Decode contact).peerId) = true)
    (hin : takes (identityIdIndexKey id) = true) :
    before.add base58Decode takes contact
      = .ok ((before.putRecord (canonicalize P base58Decode contact)).saveIdentityIdIndex id _ hi) := by
  unfold add
  simp only [hr, Bool.true_eq_false, if_false]
  split
  · rename_i id' hi'
    obtain rfl : id = id' := by
      rw [hi, Option.some.injEq] at hi'
      exact hi'
    rw [if_pos hin]
  · rename_i hn
    rw [hi] at hn
    cases hn

variable {removes : String → Bool}

theorem RemoveReturns.eq {s' : ContactStore P} (h : RemoveReturns removes store name s') :
    s'.records = (store.eraseRecord name).records ∧ s'.index = store.index := by
  obtain ⟨f, h⟩ := h
  unfold remove at h
  split at h
  · cases h
  · rename_i found hf
    simp only at h
    split at h
    · rw [Option.some.injEq, Except.ok.injEq] at h
      rw [← h]
      cases found with
      | none => exact ⟨rfl, rfl⟩
      | some contact =>
        simp only
        split
        · exact ⟨rfl, rfl⟩
        · exact ⟨rfl, rfl⟩
    · simp at h

theorem Leads.congr {s' : ContactStore P} (hr : s'.records = store.records)
    (hi : s'.index = store.index) (h : LeadsIn store name place) : LeadsIn s' name place := by
  induction h with
  | record h => exact .record (hr ▸ h)
  | nothing h hnone => exact .nothing (hr ▸ h) (hi ▸ hnone)
  | forward h hsome _ ih => exact .forward (hr ▸ h) (hi ▸ hsome) ih

theorem exists_removeReturns (h : GetReturns store name found) (ht : removes (contactKey name) = true) :
    ∃ s', RemoveReturns removes store name s' := by
  obtain ⟨f, h⟩ := h
  cases hr : remove f removes store name with
  | none =>
    simp only [remove, h, ht, if_true] at hr
    cases hr
  | some r =>
    cases r with
    | error e =>
      simp only [remove, h, ht, if_true] at hr
      cases hr
    | ok s' => exact ⟨s', f, hr⟩

/-- The identity id of a stored contact leads to its record exactly in one step. -/
theorem leads_identity_iff (ha : before.add base58Decode takes contact = .ok store)
    (hid : identityIdFromPublicKeyHex P (canonicalize P base58Decode contact).publicKey = some id)
    (ht : takes (identityIdIndexKey id) = true)
    (hne : id ≠ (canonicalize P base58Decode contact).peerId) :
    LeadsIn store id (some (canonicalize P base58Decode contact).peerId)
      ↔ before.records.lookup id = none
        ∧ (canonicalize P base58Decode contact).publicKey = (canonicalize P base58Decode contact).peerId := by
  obtain ⟨hr, hi⟩ := add_cases ha
  have he : store.index.lookup id = some (canonicalize P base58Decode contact).publicKey :=
    (congrFun hi id).trans (if_pos ⟨hid, ht⟩)
  have hl : store.records.lookup id = before.records.lookup id := by
    rw [hr, AList.lookup_insert_ne hne]
  constructor
  · intro h
    rcases leads_some_iff.mp h with ⟨heq, -⟩ | ⟨hn, key, hs, hre⟩
    · exact absurd heq hne
    · refine ⟨hl.symm.trans hn, ?_⟩
      rw [he, Option.some.injEq] at hs
      rw [← hs] at hre
      by_contra hk
      -- the key is not the name of the record: it would have to be an identity id itself
      rcases leads_some_iff.mp hre with ⟨heq, -⟩ | ⟨-, key', hs', -⟩
      · exact hk heq
      · have hlo := rustToLowercase_identityId (store.sound _ _ hs')
        cases hb : (rustTrim contact.peerId).isEmpty with
        | false =>
          refine hk ?_
          rw [canonicalize_peerId hb hid, hlo]
        | true =>
          obtain ⟨id', hi'⟩ := hre.isKey hk
          rw [canonicalize_of_blank hb] at hi'
          exact not_isKey_of_blank hb hi'
  · rintro ⟨hn, hk⟩
    refine leads_some_iff.mpr (.inr ⟨hl.trans hn, _, he, ?_⟩)
    rw [hk]
    exact leads_some_iff.mpr (.inl ⟨rfl, _, hr ▸ AList.lookup_insert _⟩)

theorem AliasesConsistent.name_eq
    (h : AliasesConsistent base58Decode removes store contact name)
    (hh : store.records.lookup (canonicalize P base58Decode contact).peerId
      = some (canonicalize P base58Decode contact))
    (hn : name ∈ aliases base58Decode P contact) (hr : removes (contactKey name) = true) :
    name = (canonicalize P base58Decode contact).peerId := by
  obtain ⟨hf, hg⟩ := h
  obtain ⟨s', hs'⟩ := exists_removeReturns (hf name hn) hr
  have hno := getReturns_none_iff.mp (hg s' hs' _ (stored_mem_aliases contact))
  by_contra hne
  have hs : s'.records.lookup (canonicalize P base58Decode contact).peerId
      = some (canonicalize P base58Decode contact) := by
    rw [hs'.eq.1]
    exact Table.lookup_erase_iff.mpr ⟨Ne.symm hne, hh⟩
  cases (Leads.record hs).unique hno

/-- **When the names of a contact agree**: all of them lead to one record, and nothing else does. -/
theorem aliases_consistent_iff (takes removes : String → Bool) (before store : ContactStore P)
    (contact : StoredContact) (name : String) (hadd : before.add base58Decode takes contact = .ok store)
    (hname : name ∈ aliases base58Decode P contact) (hremoves : removes (contactKey name) = true) :
    AliasesConsistent base58Decode removes store contact name
      ↔ AliasesAgree takes before contact.peerId (canonicalize P base58Decode contact) name := by
  obtain ⟨hre, hin⟩ := add_cases hadd
  have hup : (fun a => store.records.lookup a) = _ := hre ▸ Table.lookup_insert_eq
  have her : (fun a => (store.eraseRecord (canonicalize P base58Decode contact).peerId).records.lookup a) = _ :=
    Table.lookup_erase_eq
  rw [hup, Function.update_idem] at her
  have hh : store.records.lookup (canonicalize P base58Decode contact).peerId
      = some (canonicalize P base58Decode contact) := by
    rw [hre]
    exact AList.lookup_insert _
  have hf : ∀ a, GetReturns store a (some (canonicalize P base58Decode contact))
      ↔ LeadsIn store a (some (canonicalize P base58Decode contact).peerId) :=
    fun a => getReturns_some_iff.trans (and_iff_left hh)
  constructor
  · intro hc
    have hr := hc.name_eq hh hname hremoves
    obtain ⟨hfo, hgo⟩ := hc
    obtain ⟨s', hs'⟩ := exists_removeReturns (hfo name hname) hremoves
    obtain ⟨hr', hi'⟩ := hs'.eq
    have hla := getReturns_none_iff.mp (hgo s' hs' _ (stored_mem_aliases contact))
    refine ⟨?_, ?_, hr, ?_⟩
    · rw [← hup, ← hin]
      exact (hf _).mp (hfo _ (by simp [aliases]))
    · intro id hid
      rw [← hup, ← hin]
      have hl := (hf id).mp (hfo id (by simp [aliases, hid]))
      by_cases hn : id = (canonicalize P base58Decode contact).peerId
      · exact .inl hn
      · cases ht : takes (identityIdIndexKey id) with
        | false => exact .inr (.inr ⟨rfl, hl⟩)
        | true =>
          obtain ⟨hno, hk⟩ := (leads_identity_iff hadd hid ht hn).mp hl
          exact .inr (.inl ⟨rfl, hno, hk⟩)
    · rw [hr] at hr'
      rw [← her, ← hin]
      exact hla.congr hr'.symm hi'.symm
  · rintro ⟨hg, hi, hr, hla⟩
    rw [← hup, ← hin] at hg hi
    rw [← her, ← hin] at hla
    have hs : LeadsIn store (canonicalize P base58Decode contact).peerId
        (some (canonicalize P base58Decode contact).peerId) := Leads.record hh
    have hl : ∀ a ∈ aliases base58Decode P contact,
        LeadsIn store a (some (canonicalize P base58Decode contact).peerId) := by
      intro a ha
      simp only [aliases, List.mem_cons, Option.mem_toList] at ha
      rcases ha with he | he | hid
      · rw [he]
        exact hg
      · rw [he]
        exact hs
      · rcases hi a hid with he | ⟨ht, hno, hk⟩ | ⟨-, hl⟩
        · rw [he]
          exact hs
        · by_cases hn : a = (canonicalize P base58Decode contact).peerId
          · rw [hn]
            exact hs
          · exact (leads_identity_iff hadd hid ht hn).mpr ⟨hno, hk⟩
        · exact hl
    refine ⟨fun a ha => (hf a).mpr (hl a ha), fun s' hs' a ha => ?_⟩
    obtain ⟨hr', hi'⟩ := hs'.eq
    rw [hr] at hr'
    exact getReturns_none_iff.mpr (((hl a ha).eraseRecord hla).congr hr' hi')

end ContactStore

end

namespace ContactStore

/-! ## A sample contact -/

def samplePrimitives : Primitives Term := { termPrimitives with blake3 := fun b => Arr.fit 32 (1 :: b) }

def sampleKey : Arr 32 := Arr.fit 32 [0xab]

def sampleIdentity : String := identityIdOf samplePrimitives sampleKey.1

theorem sampleIdentity_ne : sampleIdentity ≠ hexEncode sampleKey.1 := by
  intro h
  have hb := congrArg hexDecode h
  rw [sampleIdentity, identityIdOf, hexDecode_hexEncode, hexDecode_hexEncode, Except.ok.injEq] at hb
  exact absurd hb (by decide)

def sampleContact : StoredContact := StoredContact.new 0 (hexEncode sampleKey.1) (hexEncode sampleKey.1)

theorem canonicalize_sampleContact :
    canonicalize samplePrimitives (fun _ => none) sampleContact = sampleContact :=
  canonicalize_of_key (show samplePrimitives.edKeyValid sampleKey = true from rfl) rfl rfl

theorem identityId_sampleContact :
    identityIdFromPublicKeyHex samplePrimitives
      (canonicalize samplePrimitives (fun _ => none) sampleContact).publicKey = some sampleIdentity := by
  rw [canonicalize_sampleContact]
  exact identityIdFromPublicKeyHex_of_valid samplePrimitives (hexDecode_hexEncode _) rfl

def sampleStore : ContactStore samplePrimitives :=
  (empty.putRecord (canonicalize samplePrimitives (fun _ => none) sampleContact)).saveIdentityIdIndex
    sampleIdentity _ identityId_sampleContact

theorem add_sampleContact : add (fun _ => none) (fun _ => true) empty sampleContact = .ok sampleStore :=
  add_of_identityId identityId_sampleContact rfl rfl

/-- Given, stored and removed under its key, a contact is found and then is not. -/
theorem aliases_consistent_sample :
    AliasesConsistent (fun _ => none) (fun _ => true) sampleStore sampleContact (hexEncode sampleKey.1) := by
  have hs : (canonicalize samplePrimitives (fun _ => none) sampleContact).peerId = hexEncode sampleKey.1 := by
    rw [canonicalize_sampleContact]
    rfl
  rw [aliases_consistent_iff (fun _ => true) (fun _ => true) empty sampleStore sampleContact _
    add_sampleContact (hs ▸ stored_mem_aliases sampleContact) rfl]
  constructor
  · have hr : sampleStore.records.lookup
        (canonicalize samplePrimitives (fun _ => none) sampleContact).peerId
        = some (canonicalize samplePrimitives (fun _ => none) sampleContact) := AList.lookup_insert _
    rw [hs] at hr ⊢
    exact .record hr
  · intro id _
    rw [canonicalize_sampleContact]
    exact .inr (.inl ⟨rfl, rfl, rfl⟩)
  · exact hs.symm
  · have hr : (sampleStore.eraseRecord
        (canonicalize samplePrimitives (fun _ => none) sampleContact).peerId).records.lookup
        (canonicalize samplePrimitives (fun _ => none) sampleContact).peerId = none := AList.lookup_erase _ _
    have hi : sampleStore.index.lookup (hexEncode sampleKey.1) = none :=
      AList.lookup_insert_ne sampleIdentity_ne.symm
    rw [hs] at hr ⊢
    exact .nothing hr hi

/-- Removed under its identity id, the contact stays. -/
theorem removed_under_identity_stays :
    ¬ AliasesConsistent (fun _ => none) (fun _ => true) sampleStore sampleContact sampleIdentity := by
  intro h
  have hm : sampleIdentity ∈ aliases (fun _ => none) samplePrimitives sampleContact := by
    simp [aliases, identityId_sampleContact]
  have he := h.name_eq (AList.lookup_insert _) hm rfl
  rw [canonicalize_sampleContact] at he
  exact sampleIdentity_ne he

end ContactStore

/-! ## Keys from peer identifiers -/

def identityHeader : Bytes := [0x00, 0x24, 0x08, 0x01, 0x12, 0x20]

def libp2pPeerId (key : Arr 32) : Bytes := identityHeader ++ key.1

theorem exists_key_suffix {b : Bytes} (h : 32 ≤ b.length) :
    ∃ he, ∃ key : Arr 32, b = he ++ key.1 ∧ key.1 = b.drop (b.length - 32) :=
  ⟨b.take (b.length - 32), ⟨b.drop (b.length - 32), by rw [List.length_drop]; omega⟩,
    (List.take_append_drop _ _).symm, rfl⟩

/-- **Where a derived key comes from**, and when the identifier is that of the key. -/
theorem derived_key_iff {K : Type} {P : Primitives K} {base58Decode : String → Option Bytes}
    {peerId text : String} (h : derivePublicKeyFromPeerId P base58Decode peerId = .ok text) :
    (text = rustToLowercase (rustTrim peerId)
      ∧ ∃ key, hexDecode (rustTrim peerId) = .ok key.1 ∧ P.edKeyValid key = true)
    ∨ ∃ header, ∃ key : Arr 32, base58Decode (rustTrim peerId) = some (header ++ key.1) ∧ text = hexEncode key.1
      ∧ (base58Decode (rustTrim peerId) = some (libp2pPeerId key) ↔ header = identityHeader) := by
  simp only [derivePublicKeyFromPeerId] at h
  split at h
  · left
    cases hh : hexDecode (rustTrim peerId) with
    | error e =>
      rw [hh] at h
      cases h
    | ok bytes =>
      simp only [hh] at h
      cases hk : Arr.ofBytes? 32 bytes with
      | none =>
        rw [hk] at h
        cases h
      | some key =>
        simp only [hk] at h
        split at h
        · rename_i hv
          exact ⟨(Except.ok.inj h).symm, key, by rw [Arr.ofBytes?_eq_some.mp hk], hv⟩
        · cases h
  · right
    cases hb : base58Decode (rustTrim peerId) with
    | none =>
      rw [hb] at h
      cases h
    | some bytes =>
      simp only [hb] at h
      -- both branches take the last 32 bytes
      have hl : 32 ≤ bytes.length ∧ text = hexEncode (bytes.drop (bytes.length - 32)) := by
        split at h
        · rename_i hf
          rw [← Except.ok.inj h, hf.1]
          exact ⟨by decide, rfl⟩
        · split at h
          · rename_i hle
            exact ⟨hle, (Except.ok.inj h).symm⟩
          · cases h
      obtain ⟨header, key, rfl, hk⟩ := exists_key_suffix hl.1
      refine ⟨header, key, rfl, hl.2.trans (congrArg hexEncode hk.symm), ?_⟩
      rw [Option.some.injEq, libp2pPeerId, List.append_left_inj]

def bs58Decode (text : String) : Option Bytes :=
  if text.toList.all (· ∈ base58Alphabet) then
    let value := text.toList.foldl (fun n c => 58 * n + base58Alphabet.idxOf c) 0
    some ((text.toList.takeWhile (· = '1')).map (fun _ => 0)
      ++ (leBytes text.toList.length value).reverse.dropWhile (· = 0))
  else none

def samplePeerId : String := "12D3KooWMKstHpf91svaGB52ctHgsFXvjzfSm9VWov6sTLD59Wmu"

theorem derived_key_sample :
    (hexEncode ContactStore.sampleKey.1 = rustToLowercase (rustTrim samplePeerId)
      ∧ ∃ key, hexDecode (rustTrim samplePeerId) = .ok key.1 ∧ termPrimitives.edKeyValid key = true)
    ∨ ∃ header, ∃ key : Arr 32, bs58Decode (rustTrim samplePeerId) = some (header ++ key.1)
      ∧ hexEncode ContactStore.sampleKey.1 = hexEncode key.1
      ∧ (bs58Decode (rustTrim samplePeerId) = some (libp2pPeerId key) ↔ header = identityHeader) :=
  derived_key_iff (P := termPrimitives) (by decide +kernel)

/-- The identifier holds the SHA-256 hash of a key, which is returned as a key. -/
theorem hash_taken_for_key :
    let peerId := "QmZrAReq4wby8iSvyn2VFpkdB5m9UQP6yivdkhmWTVTG7y"
    bs58Decode peerId = some (0x12 :: 0x20 :: ContactStore.sampleKey.1)
      ∧ derivePublicKeyFromPeerId termPrimitives bs58Decode peerId = .ok (hexEncode ContactStore.sampleKey.1)
      ∧ bs58Decode peerId ≠ some (libp2pPeerId ContactStore.sampleKey) := by
  decide +kernel

end SCMessenger
