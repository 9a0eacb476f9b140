import SCMessenger.Lib.Walk
import SCMessenger.Store.Ledger

/-!
# Invites

The seed ledger of an invite has addresses without identifiers, which are cut off as text from the first
`/p2p/` on.  `InviteChain` records who invited whom.
-/

namespace SCMessenger

/-! ## The seed ledger -/

def cutAt (part : List Char) : List Char → List Char
  | [] => []
  | c :: text => if part.isPrefixOf (c :: text) then [] else c :: cutAt part text

def p2pMark : List Char := "/p2p/".toList

def strippedSeed (entry : SeedLedgerEntry) : SeedLedgerEntry :=
  ⟨String.ofList (cutAt p2pMark entry.multiaddr.toList)⟩

def seedLoop : List SeedLedgerEntry → List SeedLedgerEntry → List SeedLedgerEntry
  | out, [] => out
  | out, peer :: rankedPeers =>
    if maxSeedLedgerEntries ≤ out.length then out
    else if strippedSeed peer ∈ out then seedLoop out rankedPeers
    else seedLoop (out ++ [strippedSeed peer]) rankedPeers

def buildSeedLedger (inviterEntry : SeedLedgerEntry) (rankedPeers : List SeedLedgerEntry) : List SeedLedgerEntry :=
  seedLoop [strippedSeed inviterEntry] rankedPeers

theorem seedLoop_spec {out : List SeedLedgerEntry} (p : List SeedLedgerEntry) (hn : out.Nodup)
    (hl : out.length ≤ maxSeedLedgerEntries) :
    ∃ added, seedLoop out p = out ++ added ∧ (out ++ added).Nodup
      ∧ (out ++ added).length ≤ maxSeedLedgerEntries ∧ added ⊆ p.map strippedSeed := by
  induction p generalizing out with
  | nil => exact ⟨[], by simp [seedLoop], by simpa, by simpa, by simp⟩
  | cons pe p ih =>
    rw [seedLoop]
    by_cases hf : maxSeedLedgerEntries ≤ out.length
    · rw [if_pos hf]
      exact ⟨[], by simp, by simpa, by simpa, by simp⟩
    rw [if_neg hf]
    by_cases hm : strippedSeed pe ∈ out
    · rw [if_pos hm]
      obtain ⟨added, he, hnd, hle, hs⟩ := ih hn hl
      exact ⟨added, he, hnd, hle, fun x hx => List.mem_cons_of_mem _ (hs hx)⟩
    · rw [if_neg hm]
      have hn' : (out ++ [strippedSeed pe]).Nodup := by
        rw [List.nodup_append]
        refine ⟨hn, List.nodup_singleton _, fun a ha b hb => ?_⟩
        rintro rfl
        exact hm (by rwa [← List.mem_singleton.mp hb])
      obtain ⟨added, he, hnd, hle, hs⟩ := ih hn' (by rw [List.length_append, List.length_singleton]; omega)
      rw [List.append_assoc] at he hnd hle
      refine ⟨strippedSeed pe :: added, he, hnd, hle, ?_⟩
      rw [List.map_cons]
      exact List.cons_subset_cons _ hs

/-! ## Where a text is cut -/

/-- A text is some text without `/p2p/`, or with more behind it, starting with the first `/p2p/`. -/
def CutsTo (text kept : List Char) : Prop :=
  (text = kept ∧ ¬ p2pMark <:+: kept) ∨ ∃ rest, text = kept ++ p2pMark ++ rest ∧ ¬ p2pMark <:+: kept ++ ['/']

theorem cutsTo_cutAt (text : List Char) : CutsTo text (cutAt p2pMark text) := by
  induction text with
  | nil => exact .inl ⟨rfl, by decide⟩
  | cons c text ih =>
    rw [cutAt]
    split
    case isTrue h =>
      obtain ⟨rest, hr⟩ := List.isPrefixOf_iff_prefix.mp h
      exact .inr ⟨rest, hr.symm, by decide⟩
    case isFalse h =>
      rw [List.isPrefixOf_iff_prefix] at h
      rcases ih with ⟨ht, hn⟩ | ⟨rest, ht, hn⟩
      · rw [← ht] at hn ⊢
        exact .inl ⟨rfl, by rw [List.infix_cons_iff, not_or]; exact ⟨h, hn⟩⟩
      · refine .inr ⟨rest, by rw [List.cons_append, List.cons_append, ← ht], ?_⟩
        rw [List.cons_append, List.infix_cons_iff, not_or]
        refine ⟨fun hp => h (hp.trans ?_), hn⟩
        refine (List.prefix_cons_inj c).mpr ⟨"p2p/".toList ++ rest, ?_⟩
        exact Eq.trans (by simp [p2pMark]) ht.symm

theorem cutAt_of_not_infix {s : List Char} (h : ¬ p2pMark <:+: s) : cutAt p2pMark s = s := by
  rcases cutsTo_cutAt s with ⟨ht, -⟩ | ⟨rest, ht, -⟩
  · exact ht.symm
  · exact absurd ⟨_, rest, ht.symm⟩ h

/-- The mark overlaps with itself in one slash only. -/
theorem cutAt_append_mark {s : List Char} (rest : List Char) (h : ¬ p2pMark <:+: s ++ ['/']) :
    cutAt p2pMark (s ++ p2pMark ++ rest) = s := by
  induction s with
  | nil => rfl
  | cons c s ih =>
    rw [List.cons_append, List.infix_cons_iff, not_or] at h
    have hno : ¬ p2pMark <+: c :: (s ++ p2pMark ++ rest) := by
      intro hp
      by_cases hl : 3 ≤ s.length
      · have hpre : c :: (s ++ ['/']) <+: c :: (s ++ p2pMark ++ rest) :=
          (List.prefix_cons_inj c).mpr ⟨"p2p/".toList ++ rest, by simp [p2pMark]⟩
        refine h.1 (List.prefix_of_prefix_length_le hp hpre ?_)
        simp only [p2pMark, List.length_cons, List.length_append]
        simpa using hl
      · match s with
        | [] | [_] | [_, _] => simp [p2pMark] at hp
        | _ :: _ :: _ :: _ => simp at hl
    rw [List.cons_append, List.cons_append, cutAt, if_neg (by rwa [List.isPrefixOf_iff_prefix]), ih h.2]

theorem cutAt_eq_iff {text kept : List Char} : cutAt p2pMark text = kept ↔ CutsTo text kept := by
  constructor
  · rintro rfl
    exact cutsTo_cutAt text
  · rintro (⟨rfl, h⟩ | ⟨rest, rfl, h⟩)
    · exact cutAt_of_not_infix h
    · exact cutAt_append_mark rest h

/-- An entry becomes an address when its text is cut to it. -/
def SeedLedgerEntry.KeptAs (entry : SeedLedgerEntry) (address : String) : Prop :=
  CutsTo entry.multiaddr.toList address.toList

theorem strippedSeed_eq_iff {entry : SeedLedgerEntry} {address : String} :
    strippedSeed entry = ⟨address⟩ ↔ entry.KeptAs address := by
  rw [SeedLedgerEntry.KeptAs, ← cutAt_eq_iff, strippedSeed, SeedLedgerEntry.mk.injEq, ← String.toList_inj,
    String.toList_ofList]

namespace SampleInvite

def hopId : PeerId := .ofText "QmHop" (by decide)
def targetId : PeerId := .ofText "QmTarget" (by decide)

def parts : Protocol → List (List Char)
  | .ip4 _ => ["ip4".toList, "198.51.100.9".toList]
  | .tcp _ => ["tcp".toList, "443".toList]
  | .p2p peer => ["p2p".toList, peer.text.toList]
  | .p2pCircuit => ["p2p-circuit".toList]
  | _ => []

def relayAddr : List Protocol := [.ip4 ⟨198, 51, 100, 9⟩, .tcp 443, .p2p hopId]

def circuitText : String := "/ip4/198.51.100.9/tcp/443/p2p/QmHop/p2p-circuit/p2p/QmTarget"

def addrs : Multiaddrs where
  parse text := if text = circuitText then some (relayAddr ++ [.p2pCircuit, .p2p targetId]) else none
  toText addr := String.ofList ((addr.flatMap parts).flatMap ('/' :: ·))

end SampleInvite

/-! ## Who invited whom -/

/-- An invite: the inviter, the invitee and the time. -/
structure InviteRecord where
  inviterId : String
  inviteeId : String
  timestamp : Nat

/-- The invites by their identifiers. -/
structure InviteChain where
  invites : Table String InviteRecord

namespace InviteChain

def new : InviteChain := ⟨∅⟩

variable (chain : InviteChain) (order : HashOrder InviteRecord)

def recordInvite (now : Nat) (inviteId inviterId inviteeId : String) : InviteChain :=
  ⟨chain.invites.insert inviteId ⟨inviterId, inviteeId, now⟩⟩

def getInviter (inviteeId : String) : Option String :=
  ((order.visit (chain.invites.entries.map (·.2))).find? (·.inviteeId == inviteeId)).map (·.inviterId)

def getTrustChain (fuel : Nat) (nodeId : String) : Option (List String) :=
  follow (chain.getInviter order) fuel [nodeId] nodeId

def distanceFromRoot (fuel : Nat) (nodeId : String) : Option UInt32 :=
  (chain.getTrustChain order fuel nodeId).map fun c =>
    if UInt32.ofNat c.length = 0 then 0 else UInt32.ofNat c.length - 1

def record (calls : List (Nat × String × String × String)) : InviteChain :=
  calls.foldl (fun chain call => chain.recordInvite call.1 call.2.1 call.2.2.1 call.2.2.2) new

/-- **A trust chain is finite** exactly when it does not come to someone who is their own inviter. -/
theorem trust_chain_finite_iff (calls : List (Nat × String × String × String)) (order : HashOrder InviteRecord)
    (nodeId : String) :
    ((∃ fuel c, (record calls).getTrustChain order fuel nodeId = some c)
        ∧ (∀ fuel c, (record calls).getTrustChain order fuel nodeId = some c → c.Nodup)
        ∧ ∃ fuel d, (record calls).distanceFromRoot order fuel nodeId = some d)
      ↔ ¬ ReachesCycle ((record calls).getInviter order) nodeId := by
  have hr (a b : String) (h : (record calls).getInviter order a = some b) :
      b ∈ (order.visit ((record calls).invites.entries.map (·.2))).map (·.inviterId) := by
    obtain ⟨i, hi, rfl⟩ := Option.map_eq_some_iff.mp h
    exact List.mem_map.mpr ⟨i, List.mem_of_find?_eq_some hi, rfl⟩
  rw [← follow_finite_iff hr nodeId]
  constructor
  · rintro ⟨ht, hn, -⟩
    exact ⟨ht, hn⟩
  · rintro ⟨⟨fuel, c, h⟩, hn⟩
    exact ⟨⟨fuel, c, h⟩, hn, fuel, _, by rw [distanceFromRoot, getTrustChain, h]; rfl⟩

/-- Someone who invites themselves, or two who invite each other, have no end of inviters. -/
theorem trust_chain_loops :
    (¬ ∃ fuel c, (record [(0, "i", "alice", "alice")]).getTrustChain ⟨id, fun _ => .refl _⟩ fuel "alice" = some c)
      ∧ ¬ ∃ fuel c, (record [(0, "i", "alice", "bob"), (1, "j", "bob", "alice")]).getTrustChain
          ⟨id, fun _ => .refl _⟩ fuel "alice" = some c := by
  have h : ReachesCycle ((record [(0, "i", "alice", "alice")]).getInviter ⟨id, fun _ => .refl _⟩) "alice" :=
    ⟨"alice", .refl, .single (by unfold Follows; decide +kernel)⟩
  have h' : ReachesCycle ((record [(0, "i", "alice", "bob"), (1, "j", "bob", "alice")]).getInviter
      ⟨id, fun _ => .refl _⟩) "alice" :=
    ⟨"alice", .refl, .tail (b := "bob") (.single (by unfold Follows; decide +kernel))
      (by unfold Follows; decide +kernel)⟩
  constructor
  · rintro ⟨fuel, c, hc⟩
    exact Option.some_ne_none c (hc.symm.trans (follow_eq_none h fuel _))
  · rintro ⟨fuel, c, hc⟩
    exact Option.some_ne_none c (hc.symm.trans (follow_eq_none h' fuel _))

end InviteChain

end SCMessenger
