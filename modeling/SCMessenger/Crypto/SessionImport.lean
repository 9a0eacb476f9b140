import SCMessenger.Crypto.SessionManager
import SCMessenger.Crypto.Snapshot
import SCMessenger.Lib.Table

/-!
# Importing sessions

`deserializeSessions` skips the records it cannot convert; `deserializeSessionsStrict` converts all of them
before it stores the first.  Reading the JSON text is a parameter, and the order of the hash map is free.
-/

namespace SCMessenger

abbrev SessionMap := Table String SerializableRatchetSession

abbrev SessionEntry := Sigma fun _ : String => SerializableRatchetSession

variable (fromStr : String → Except String SessionMap)

def readSessionMap (json : String) : Except String SessionMap :=
  (fromStr json).mapError fun e => "Failed to deserialize ratchet sessions: " ++ e

namespace RatchetSessionManager

/-- Take in one entry, unless there is a session for the peer or the record cannot be converted. -/
def importEntry (m : RatchetSessionManager (Arr 32)) (entry : SessionEntry) :
    RatchetSessionManager (Arr 32) :=
  if m.hasSession entry.1 then m
  else
    match entry.2.intoSession with
    | .error _ => m
    | .ok session => m.insert entry.1 session

def deserializeSessions (m : RatchetSessionManager (Arr 32)) (json : String) :
    Except String Unit × RatchetSessionManager (Arr 32) :=
  match readSessionMap fromStr json with
  | .error e => (.error e, m)
  | .ok map => (.ok (), map.entries.foldl importEntry m)

def decodeEntries (m : RatchetSessionManager (Arr 32)) :
    List SessionEntry → Except String (List (String × RatchetSession (Arr 32)))
  | [] => .ok []
  | entry :: rest =>
    if m.hasSession entry.1 then decodeEntries m rest
    else
      match entry.2.intoSession with
      | .error e => .error e
      | .ok session => (decodeEntries m rest).map ((entry.1, session) :: ·)

def deserializeSessionsStrict (m : RatchetSessionManager (Arr 32)) (json : String) :
    Except String Unit × RatchetSessionManager (Arr 32) :=
  match readSessionMap fromStr json with
  | .error e => (.error e, m)
  | .ok map =>
    match m.decodeEntries map.entries with
    | .error e => (.error e, m)
    | .ok decoded => (.ok (), decoded.foldl (fun m d => m.insert d.1 d.2) m)

/-! ## What an import leaves -/

def converted (r : SerializableRatchetSession) : Option (RatchetSession (Arr 32)) := r.intoSession.toOption

def Imported (m : RatchetSessionManager (Arr 32)) (map : SessionMap) (m' : RatchetSessionManager (Arr 32)) :
    Prop :=
  ∀ peer, m'.sessions peer = (m.sessions peer).or ((map.lookup peer).bind converted)

variable {m m' m'' : RatchetSessionManager (Arr 32)} {map : SessionMap}

theorem Imported.unique (h : m.Imported map m') (h' : m.Imported map m'') : m' = m'' := by
  cases m'
  cases m''
  congr 1
  funext p
  exact (h p).trans (h' p).symm

theorem importEntry_sessions_of_ne {e : SessionEntry} {p : String} (h : p ≠ e.1) :
    (m.importEntry e).sessions p = m.sessions p := by
  unfold importEntry
  split
  · rfl
  · split
    · rfl
    · exact insert_sessions_of_ne m _ h

theorem importEntry_sessions_self (e : SessionEntry) :
    (m.importEntry e).sessions e.1 = (m.sessions e.1).or (converted e.2) := by
  unfold importEntry converted hasSession
  cases hm : m.sessions e.1 with
  | some s => simp [hm]
  | none => cases e.2.intoSession <;> simp [hm, Except.toOption]

theorem foldl_importEntry {e : List SessionEntry} (hno : e.NodupKeys)
    (m : RatchetSessionManager (Arr 32)) (p : String) :
    (e.foldl importEntry m).sessions p
      = (m.sessions p).or ((e.dlookup p).bind converted) := by
  induction e generalizing m with
  | nil => simp
  | cons entry r ih =>
    obtain ⟨hn, hr⟩ := List.nodupKeys_cons.mp hno
    rw [List.foldl_cons, ih hr]
    by_cases hp : p = entry.1
    · subst hp
      rw [importEntry_sessions_self, List.dlookup_eq_none.mpr hn, List.dlookup_cons_eq]
      simp
    · rw [importEntry_sessions_of_ne hp, List.dlookup_cons_ne _ _ hp]

def Convertible (m : RatchetSessionManager (Arr 32)) (entries : List SessionEntry) : Prop :=
  ∀ entry ∈ entries, m.sessions entry.1 = none → ∃ s, entry.2.intoSession = .ok s

theorem convertible_cons {e : SessionEntry} {r : List SessionEntry} :
    m.Convertible (e :: r)
      ↔ (m.sessions e.1 = none → ∃ s, e.2.intoSession = .ok s) ∧ m.Convertible r := by
  simp [Convertible]

theorem decodeEntries_ok_iff (m : RatchetSessionManager (Arr 32)) (en : List SessionEntry) :
    (∃ d, m.decodeEntries en = .ok d) ↔ m.Convertible en := by
  induction en with
  | nil => exact ⟨fun _ entry h => absurd h (List.not_mem_nil), fun _ => ⟨[], rfl⟩⟩
  | cons entry r ih =>
    rw [convertible_cons, ← ih, decodeEntries, hasSession]
    cases m.sessions entry.1 with
    | some s => simp
    | none =>
      cases entry.2.intoSession with
      | error e => simp
      | ok s => cases m.decodeEntries r <;> simp [Except.map]

theorem foldl_decoded {en : List SessionEntry} (hno : en.NodupKeys)
    {de : List (String × RatchetSession (Arr 32))} (h : m.decodeEntries en = .ok de)
    (b : RatchetSessionManager (Arr 32)) (peer : String) :
    (de.foldl (fun m d => m.insert d.1 d.2) b).sessions peer
      = match m.sessions peer with
        | some _ => b.sessions peer
        | none => ((en.dlookup peer).bind converted).or (b.sessions peer) := by
  induction en generalizing de b with
  | nil =>
    cases h
    cases m.sessions peer <;> simp
  | cons entry r ih =>
    obtain ⟨hn, hr⟩ := List.nodupKeys_cons.mp hno
    rw [decodeEntries, hasSession] at h
    cases hm : m.sessions entry.1 with
    | some s =>
      -- the entry is passed over, and its peer has a session
      rw [hm, Option.isSome_some, if_pos rfl] at h
      rw [ih hr h]
      by_cases hp : peer = entry.1
      · subst hp
        rw [hm]
      · rw [List.dlookup_cons_ne _ _ hp]
    | none =>
      rw [hm, Option.isSome_none, if_neg Bool.false_ne_true] at h
      cases hs : entry.2.intoSession with
      | error e => simp [hs] at h
      | ok s =>
        cases hd : m.decodeEntries r with
        | error e => simp [hs, hd, Except.map] at h
        | ok d' =>
          simp only [hs, hd, Except.map, Except.ok.injEq] at h
          subst h
          rw [List.foldl_cons, ih hr hd]
          by_cases hp : peer = entry.1
          · subst hp
            rw [hm, List.dlookup_eq_none.mpr hn, List.dlookup_cons_eq]
            simp [converted, hs, Except.toOption]
          · rw [List.dlookup_cons_ne _ _ hp, insert_sessions_of_ne _ _ hp]

/-! ## The two imports -/

variable {fromStr} {json : String}

theorem readSessionMap_ok (h : fromStr json = .ok map) : readSessionMap fromStr json = .ok map := by
  rw [readSessionMap, h]
  rfl

theorem readSessionMap_error {e : String} (h : fromStr json = .error e) :
    readSessionMap fromStr json = .error ("Failed to deserialize ratchet sessions: " ++ e) := by
  rw [readSessionMap, h]
  rfl

theorem deserializeSessions_imported (m : RatchetSessionManager (Arr 32)) (h : fromStr json = .ok map) :
    ∃ m', m.deserializeSessions fromStr json = (.ok (), m') ∧ m.Imported map m' := by
  rw [deserializeSessions, readSessionMap_ok h]
  exact ⟨_, rfl, foldl_importEntry map.nodupKeys m⟩

/-- **The strict import succeeds if every record it needs can be converted.** -/
theorem deserializeSessionsStrict_imported (h : fromStr json = .ok map) (hc : m.Convertible map.entries) :
    ∃ m', m.deserializeSessionsStrict fromStr json = (.ok (), m') ∧ m.Imported map m' := by
  obtain ⟨d, hd⟩ := (decodeEntries_ok_iff m map.entries).mpr hc
  rw [deserializeSessionsStrict, readSessionMap_ok h]
  simp only [hd]
  refine ⟨_, rfl, fun p => ?_⟩
  rw [foldl_decoded map.nodupKeys hd m p]
  cases m.sessions p with
  | some s => rfl
  | none => simp [AList.lookup]

/-- **It fails otherwise, and changes nothing.** -/
theorem deserializeSessionsStrict_unchanged
    (h : ∀ map, fromStr json = .ok map → ¬ m.Convertible map.entries) :
    ∃ e, m.deserializeSessionsStrict fromStr json = (.error e, m) := by
  unfold deserializeSessionsStrict
  cases hr : fromStr json with
  | error e =>
    rw [readSessionMap_error hr]
    exact ⟨_, rfl⟩
  | ok map =>
    rw [readSessionMap_ok hr]
    cases hd : m.decodeEntries map.entries with
    | error e =>
      simp only [hd]
      exact ⟨e, rfl⟩
    | ok d => exact absurd ((decodeEntries_ok_iff m map.entries).mp ⟨d, hd⟩) (h map hr)

theorem convertible_iff :
    m.Convertible map.entries
      ↔ ∀ p r, map.lookup p = some r → m.sessions p = none → ∃ s, r.intoSession = .ok s :=
  ⟨fun h p r hr => h ⟨p, r⟩ (Table.mem_entries.mpr hr),
    fun h entry he => h entry.1 entry.2 (Table.mem_entries.mp he)⟩

theorem deserializeSessionsStrict_cases (fromStr : String → Except String SessionMap)
    (m : RatchetSessionManager (Arr 32)) (json : String) :
    (∃ e, m.deserializeSessionsStrict fromStr json = (.error e, m))
      ∨ ∃ map m', fromStr json = .ok map ∧ m.deserializeSessionsStrict fromStr json = (.ok (), m')
        ∧ m.Convertible map.entries ∧ m.Imported map m' := by
  by_cases h : ∃ map, fromStr json = .ok map ∧ m.Convertible map.entries
  · obtain ⟨map, hre, hc⟩ := h
    obtain ⟨m', hr, hi⟩ := deserializeSessionsStrict_imported hre hc
    exact .inr ⟨map, m', hre, hr, hc, hi⟩
  · exact .inl (deserializeSessionsStrict_unchanged fun map hre hc => h ⟨map, hre, hc⟩)

/-- **The strict import is all or nothing**, and keeps the sessions that are there. -/
theorem strict_import (fromStr : String → Except String SessionMap) (m : RatchetSessionManager (Arr 32))
    (json : String) :
    ((∃ e, m.deserializeSessionsStrict fromStr json = (.error e, m))
      ∨ ∃ map m', fromStr json = .ok map ∧ m.deserializeSessionsStrict fromStr json = (.ok (), m')
        ∧ (∀ peer r, map.lookup peer = some r → m.sessions peer = none →
            ∃ s, r.intoSession = .ok s ∧ m'.sessions peer = some s)
        ∧ ∀ peer, map.lookup peer = none → m'.sessions peer = m.sessions peer)
    ∧ (∀ peer s, m.sessions peer = some s →
        (m.deserializeSessionsStrict fromStr json).2.sessions peer = some s)
    ∧ ((∀ map, fromStr json = .ok map → ∀ peer r, map.lookup peer = some r → ∃ s, r.intoSession = .ok s) →
        new.deserializeSessionsStrict fromStr json = new.deserializeSessions fromStr json) := by
  refine ⟨?_, ?_, ?_⟩
  · refine (deserializeSessionsStrict_cases fromStr m json).imp_right ?_
    rintro ⟨map, m', hre, hru, hc, hi⟩
    refine ⟨map, m', hre, hru, fun peer r hr hn => ?_, fun peer hn => ?_⟩
    · obtain ⟨s, hs⟩ := convertible_iff.mp hc peer r hr hn
      refine ⟨s, hs, ?_⟩
      rw [hi peer, hn, hr]
      simp [converted, hs, Except.toOption]
    · rw [hi peer, hn]
      simp
  · intro peer s hs
    rcases deserializeSessionsStrict_cases fromStr m json with ⟨e, hru⟩ | ⟨map, m', -, hru, -, hi⟩
    · rw [hru]
      exact hs
    · rw [hru]
      simp only
      rw [hi peer, hs]
      rfl
  · intro ha
    cases hre : fromStr json with
    | error e =>
      rw [deserializeSessionsStrict, deserializeSessions, readSessionMap_error hre]
    | ok map =>
      have hc : new.Convertible map.entries :=
        convertible_iff.mpr fun peer r hr _ => ha map hre peer r hr
      obtain ⟨m', hst, hi⟩ := deserializeSessionsStrict_imported hre hc
      obtain ⟨m'', hl, hi'⟩ := deserializeSessions_imported new hre
      rw [hst, hl, hi.unique hi']

end RatchetSessionManager

end SCMessenger
