import SCMessenger.Lib.Bincode

/-!
# Relay protocol messages

The messages of `relay/protocol.rs` in bincode.  Bytes after a message are ignored.
-/

namespace SCMessenger

/-- What a relay offers. -/
structure RelayCapability where
  canRelay : Bool
  canStore : Bool
  hasInternet : Bool
  fullNode : Bool
deriving DecidableEq, Repr

/-- What a relay says about a peer; the reliability score is the bit pattern of an `f32`. -/
structure RelayPeerInfoMessage where
  peerId : String
  addresses : List String
  lastSeen : UInt64
  reliabilityScore : UInt32
  capabilities : RelayCapability
deriving DecidableEq, Repr

/-- The messages between a relay and its clients. -/
inductive RelayMessage where
  | handshake (version : UInt32) (peerId : String) (capabilities : RelayCapability)
  | handshakeAck (version : UInt32) (peerId : String) (capabilities : RelayCapability)
  | storeRequest (envelopes : List Bytes)
  | storeAck (accepted rejected : UInt32)
  | pullRequest (sinceTimestamp : UInt64) (hints : List (Arr 4))
  | pullResponse (envelopes : List Bytes)
  | peerExchange (knownRelays : List RelayPeerInfoMessage)
  | peerJoined (peerInfo : RelayPeerInfoMessage)
  | peerLeft (peerId : String)
  | peerListRequest
  | peerListResponse (peers : List RelayPeerInfoMessage)
  | ping
  | pong
  | disconnect (reason : String)

open Codec

def relayCapabilityCodec : Codec RelayCapability :=
  (bool.pair (bool.pair (bool.pair bool))).iso
    (fun (a, b, c, d) => ⟨a, b, c, d⟩)
    (fun c => (c.canRelay, c.canStore, c.hasInternet, c.fullNode)) fun _ => rfl

def relayPeerInfoCodec : Codec RelayPeerInfoMessage :=
  (string.pair (string.vec.pair (u64.pair (u32.pair relayCapabilityCodec)))).iso
    (fun (a, b, c, d, e) => ⟨a, b, c, d, e⟩)
    (fun p => (p.peerId, p.addresses, p.lastSeen, p.reliabilityScore, p.capabilities)) fun _ => rfl

def handshakeCodec : Codec (UInt32 × String × RelayCapability) :=
  u32.pair (string.pair relayCapabilityCodec)

namespace RelayMessage

def maxMessageBytes : Nat := 64 * 1024

def decodeVariant (index : Nat) (b : Bytes) : Option RelayMessage :=
  match index with
  | 0 => (handshakeCodec.deserialize b).map fun (v, p, c) => .handshake v p c
  | 1 => (handshakeCodec.deserialize b).map fun (v, p, c) => .handshakeAck v p c
  | 2 => (bytes.vec.deserialize b).map .storeRequest
  | 3 => ((u32.pair u32).deserialize b).map fun (a, r) => .storeAck a r
  | 4 => ((u64.pair (array 4).vec).deserialize b).map fun (t, h) => .pullRequest t h
  | 5 => (bytes.vec.deserialize b).map .pullResponse
  | 6 => (relayPeerInfoCodec.vec.deserialize b).map .peerExchange
  | 7 => (relayPeerInfoCodec.deserialize b).map .peerJoined
  | 8 => (string.deserialize b).map .peerLeft
  | 9 => some .peerListRequest
  | 10 => (relayPeerInfoCodec.vec.deserialize b).map .peerListResponse
  | 11 => some .ping
  | 12 => some .pong
  | 13 => (string.deserialize b).map .disconnect
  | _ => none

def fromBytes (b : Bytes) : Option RelayMessage :=
  if maxMessageBytes < b.length then none
  else ((uint 4).decode b).bind fun (index, rest) => decodeVariant index rest

end RelayMessage

end SCMessenger
