import SCMessenger.Store.RelayCustody

/-!
# Which addresses may be recorded, dialed and told to others

What stands before the first relay marker of an address says where a connection goes.  `checkMultiaddr`
answers both whether it can be dialed and whether a stranger may hear of it.
-/

namespace SCMessenger

/-! ## IP addresses -/

structure Ipv4Addr where
  o0 : UInt8
  o1 : UInt8
  o2 : UInt8
  o3 : UInt8
deriving DecidableEq, Repr

namespace Ipv4Addr

variable (ip : Ipv4Addr)

def isLoopback : Bool := ip.o0 == 127
def isUnspecified : Bool := ip == ⟨0, 0, 0, 0⟩
def isLinkLocal : Bool := ip.o0 == 169 && ip.o1 == 254
def isMulticast : Bool := 224 ≤ ip.o0 && ip.o0 ≤ 239
def isBroadcast : Bool := ip == ⟨255, 255, 255, 255⟩

def isPrivate : Bool :=
  ip.o0 == 10 || (ip.o0 == 172 && 16 ≤ ip.o1 && ip.o1 ≤ 31) || (ip.o0 == 192 && ip.o1 == 168)

def isUnconditionallyRoutable : Bool :=
  if ip.isLoopback || ip.isUnspecified || ip.isLinkLocal || ip.isMulticast || ip.isBroadcast then false
  else if ip.o0 == 0 then false
  else if ip.o0 == 192 && ip.o1 == 0 && ip.o2 == 0 then false
  else true

def isCgnat : Bool := ip.o0 == 100 && (64 ≤ ip.o1 && ip.o1 ≤ 127)

def isGloballyRoutable : Bool :=
  if !ip.isUnconditionallyRoutable then false
  else if ip.isPrivate then false
  else if ip.o0 == 100 && (64 ≤ ip.o1 && ip.o1 ≤ 127) then false
  else if ip.o0 == 192 && ip.o1 == 0 && ip.o2 == 2 then false
  else if ip.o0 == 198 && (ip.o1 == 18 || ip.o1 == 19) then false
  else if ip.o0 ≥ 240 then false
  else true

end Ipv4Addr

structure Ipv6Addr where
  s0 : UInt16
  s1 : UInt16
  s2 : UInt16
  s3 : UInt16
  s4 : UInt16
  s5 : UInt16
  s6 : UInt16
  s7 : UInt16
deriving DecidableEq, Repr

def highOctet (segment : UInt16) : UInt8 := (segment >>> 8).toUInt8
def lowOctet (segment : UInt16) : UInt8 := segment.toUInt8

namespace Ipv6Addr

variable (ip : Ipv6Addr)

def isLoopback : Bool := ip == ⟨0, 0, 0, 0, 0, 0, 0, 1⟩
def isUnspecified : Bool := ip == ⟨0, 0, 0, 0, 0, 0, 0, 0⟩
def isMulticast : Bool := ip.s0 &&& 0xff00 == 0xff00
def isUnicastLinkLocal : Bool := ip.s0 &&& 0xffc0 == 0xfe80
def isUniqueLocal : Bool := ip.s0 &&& 0xfe00 == 0xfc00

def toIpv4 : Option Ipv4Addr :=
  if ip.s0 = 0 ∧ ip.s1 = 0 ∧ ip.s2 = 0 ∧ ip.s3 = 0 ∧ ip.s4 = 0 ∧ (ip.s5 = 0 ∨ ip.s5 = 0xffff) then
    some ⟨highOctet ip.s6, lowOctet ip.s6, highOctet ip.s7, lowOctet ip.s7⟩
  else none

def embeddedIpv4 : Option Ipv4Addr :=
  match ip.toIpv4 with
  | some v4 => some v4
  | none =>
    -- the well-known and the local prefix of NAT64, then 6to4
    if ip.s0 = 0x0064 ∧ ip.s1 = 0xff9b ∧ ip.s2 = 0 ∧ ip.s3 = 0 ∧ ip.s4 = 0 ∧ ip.s5 = 0 then
      some ⟨highOctet ip.s6, lowOctet ip.s6, highOctet ip.s7, lowOctet ip.s7⟩
    else if ip.s0 = 0x0064 ∧ ip.s1 = 0xff9b ∧ ip.s2 = 0x0001 then
      some ⟨highOctet ip.s3, lowOctet ip.s3, lowOctet ip.s4, highOctet ip.s5⟩
    else if ip.s0 = 0x2002 then
      some ⟨highOctet ip.s1, lowOctet ip.s1, highOctet ip.s2, lowOctet ip.s2⟩
    else none

def teredoIpv4s : Option (Ipv4Addr × Ipv4Addr) :=
  if ip.s0 ≠ 0x2001 ∨ ip.s1 ≠ 0x0000 then none
  else
    some (⟨highOctet ip.s2, lowOctet ip.s2, highOctet ip.s3, lowOctet ip.s3⟩,
      ⟨~~~highOctet ip.s6, ~~~lowOctet ip.s6, ~~~highOctet ip.s7, ~~~lowOctet ip.s7⟩)

end Ipv6Addr

inductive IpAddr where
  | v4 (ip : Ipv4Addr)
  | v6 (ip : Ipv6Addr)
deriving DecidableEq, Repr

/-! ## Addresses -/

/-- A component of an address, as far as it is told apart. -/
inductive Protocol where
  | ip4 (ip : Ipv4Addr)
  | ip6 (ip : Ipv6Addr)
  | dns (name : String)
  | dns4 (name : String)
  | dns6 (name : String)
  | dnsaddr (name : String)
  | tcp (port : UInt16)
  | udp (port : UInt16)
  | p2p (peer : PeerId)
  | p2pCircuit
  | other (text : String)
deriving DecidableEq

namespace Protocol

def isDns : Protocol → Bool
  | .dns _ | .dns4 _ | .dns6 _ | .dnsaddr _ => true
  | _ => false

def isP2p : Protocol → Bool
  | .p2p _ => true
  | _ => false

end Protocol

/-- The texts of addresses. -/
structure Multiaddrs where
  parse : String → Option (List Protocol)
  toText : List Protocol → String

/-- Whether private addresses may be dialled. -/
inductive NetworkMode where
  | localMode
  | publicMode
deriving DecidableEq, Repr

/-- Whether names are taken for addresses. -/
inductive DnsPolicy where
  | reject
  | allowLocallyConfigured
deriving DecidableEq, Repr

/-- Which question is asked of an address. -/
inductive Audience where
  | dial (mode : NetworkMode)
  | disclose
  | dialTrustedLocalProxy
deriving DecidableEq, Repr

def ipv4Permitted (ip : Ipv4Addr) : Audience → Bool
  | .dial .localMode => ip.isUnconditionallyRoutable
  | .dial .publicMode => ip.isUnconditionallyRoutable && !ip.isPrivate
  | .disclose => ip.isGloballyRoutable
  | .dialTrustedLocalProxy => ip.isLoopback || ip.isUnconditionallyRoutable

def ipv6Permitted (ip : Ipv6Addr) (audience : Audience) : Bool :=
  match ip.embeddedIpv4 with
  | some v4 => ipv4Permitted v4 audience
  | none =>
    match ip.teredoIpv4s with
    | some (server, client) => ipv4Permitted server audience && ipv4Permitted client audience
    | none =>
      if ip.isLoopback || ip.isUnspecified || ip.isMulticast then false
      else if ip.s0 &&& 0xffc0 == 0xfe80 || ip.s0 &&& 0xffc0 == 0xfec0 then false
      else
        match audience with
        | .dial .localMode => true
        | .dialTrustedLocalProxy => true
        | .dial .publicMode => !ip.isUniqueLocal
        | .disclose => !ip.isUniqueLocal

def checkComponents (audience : Audience) (dns : DnsPolicy) (hasTransport hasCircuit : Bool) :
    List Protocol → Bool
  | [] => hasTransport
  | proto :: rest =>
    if hasCircuit then
      if proto = .p2pCircuit then false else checkComponents audience dns hasTransport hasCircuit rest
    else
      match proto with
      | .p2pCircuit => checkComponents audience dns hasTransport true rest
      | .ip4 ip => if !ipv4Permitted ip audience then false else checkComponents audience dns true hasCircuit rest
      | .ip6 ip => if !ipv6Permitted ip audience then false else checkComponents audience dns true hasCircuit rest
      | .dns _ | .dns4 _ | .dns6 _ | .dnsaddr _ =>
        if dns = .reject then false else checkComponents audience dns true hasCircuit rest
      | _ => checkComponents audience dns hasTransport hasCircuit rest

def checkMultiaddr (addr : List Protocol) (audience : Audience) (dns : DnsPolicy) : Bool :=
  checkComponents audience dns false false addr

def recordableComponents (hasIpTransport hasCircuit : Bool) : List Protocol → Bool
  | [] => hasIpTransport
  | proto :: rest =>
    match proto with
    | .p2pCircuit => if hasCircuit then false else recordableComponents hasIpTransport true rest
    | .ip4 _ | .ip6 _ => recordableComponents true hasCircuit rest
    | .dns _ | .dns4 _ | .dns6 _ | .dnsaddr _ =>
      if hasCircuit then recordableComponents hasIpTransport hasCircuit rest else false
    | _ => recordableComponents hasIpTransport hasCircuit rest

/-- Take the endpoint's identifier off: behind the last relay marker, or everywhere. -/
def stripPeerIdMultiaddr (addr : List Protocol) : List Protocol :=
  addr.rdropWhile (· ≠ .p2pCircuit) ++ (addr.rtakeWhile (· ≠ .p2pCircuit)).filter fun proto => !proto.isP2p

def firstIp (addr : List Protocol) : Option IpAddr :=
  addr.findSome? fun proto =>
    match proto with
    | .ip4 ip => some (.v4 ip)
    | .ip6 ip => some (.v6 ip)
    | _ => none

def isSafePrivateIpv4 (ip : Ipv4Addr) : Bool :=
  !ip.isLoopback && !ip.isUnspecified && !ip.isLinkLocal && !ip.isMulticast && !ip.isBroadcast
    && (ip.isPrivate || ip.isCgnat)

def isSafePrivateIp : IpAddr → Bool
  | .v4 ip => isSafePrivateIpv4 ip
  | .v6 ip =>
    !ip.isLoopback && !ip.isUnspecified && !ip.isMulticast && !ip.isUnicastLinkLocal
      && (ip.isUniqueLocal || ip.embeddedIpv4.any isSafePrivateIpv4)

def isPrivateAdjacencyIp : IpAddr → Bool
  | .v4 ip => isSafePrivateIp (.v4 ip) && ip.isPrivate
  | .v6 ip =>
    if !isSafePrivateIp (.v6 ip) then false
    else if ip.isUniqueLocal then true
    else ip.embeddedIpv4.any fun v4 => isSafePrivateIp (.v4 v4) && v4.isPrivate

def sameNetwork24 (left right : Ipv4Addr) : Bool :=
  left.o0 == right.o0 && left.o1 == right.o1 && left.o2 == right.o2

def samePrivateSubnet : IpAddr → IpAddr → Bool
  | .v4 left, .v4 right => sameNetwork24 left right
  | .v6 left, .v6 right =>
    if !left.isUniqueLocal || !right.isUniqueLocal then false
    else left.s0 == right.s0 && left.s1 == right.s1 && left.s2 == right.s2 && left.s3 == right.s3
  | .v6 left, .v4 right => left.embeddedIpv4.any fun left => sameNetwork24 left right
  | .v4 left, .v6 right => right.embeddedIpv4.any fun right => sameNetwork24 left right

namespace Multiaddrs

variable (addrs : Multiaddrs)

/-- What is printed after a peer identifier was taken off is read back. -/
structure Lawful : Prop where
  parse_strip : ∀ text addr, addrs.parse text = some addr →
    addrs.parse (addrs.toText (stripPeerIdMultiaddr addr)) = some (stripPeerIdMultiaddr addr)

def isDialableMultiaddr (multiaddr : String) (mode : NetworkMode) (dns : DnsPolicy) : Bool :=
  match addrs.parse multiaddr with
  | some addr => checkMultiaddr addr (.dial mode) dns
  | none => false

def isDisclosableMultiaddr (multiaddr : String) : Bool :=
  match addrs.parse multiaddr with
  | some addr => checkMultiaddr addr .disclose .reject
  | none => false

def isRecordableMultiaddr (multiaddr : String) : Bool :=
  match addrs.parse multiaddr with
  | some addr => recordableComponents false false addr
  | none => false

def stripPeerId (multiaddr : String) : String :=
  match addrs.parse multiaddr with
  | some addr => addrs.toText (stripPeerIdMultiaddr addr)
  | none => multiaddr

def firstIpComponent (multiaddr : String) : Option IpAddr :=
  (addrs.parse multiaddr).bind firstIp

def isDisclosableOnRfc1918Network (multiaddr : String) (requesterAddr : Option String)
    (myAddrs : List String) : Bool :=
  match addrs.parse multiaddr with
  | none => false
  | some addr =>
    if .p2pCircuit ∈ addr then false
    else
      match requesterAddr with
      | none => false
      | some requesterAddr =>
        match addrs.parse requesterAddr with
        | none => false
        | some requesterMultiaddr =>
          if .p2pCircuit ∈ requesterMultiaddr then false
          else
            match addrs.firstIpComponent requesterAddr with
            | none => false
            | some requesterIp =>
              if !isPrivateAdjacencyIp requesterIp then false
              else
                match addrs.firstIpComponent multiaddr with
                | none => false
                | some entryIp =>
                  if !isPrivateAdjacencyIp entryIp || !samePrivateSubnet entryIp requesterIp then false
                  else
                    let concreteLocalIps := myAddrs.filterMap addrs.firstIpComponent
                    !concreteLocalIps.isEmpty
                      && concreteLocalIps.any fun localIp => samePrivateSubnet localIp requesterIp

end Multiaddrs

/-! ## What the traversals accept -/

def beforeCircuit (addr : List Protocol) : List Protocol := addr.takeWhile (· ≠ .p2pCircuit)

def NoDnsBeforeCircuit (addr : List Protocol) : Prop := ∀ proto ∈ beforeCircuit addr, proto.isDns = false

def Permitted (audience : Audience) (dns : DnsPolicy) : Protocol → Prop
  | .ip4 ip => ipv4Permitted ip audience = true
  | .ip6 ip => ipv6Permitted ip audience = true
  | .dns _ | .dns4 _ | .dns6 _ | .dnsaddr _ => dns ≠ .reject
  | _ => True

def IsTransport : Protocol → Prop
  | .ip4 _ | .ip6 _ | .dns _ | .dns4 _ | .dns6 _ | .dnsaddr _ => True
  | _ => False

section

variable {audience : Audience} {dns : DnsPolicy}

variable {addr : List Protocol}

theorem checkComponents_circuit {ha : Bool} :
    checkComponents audience dns ha true addr = true
      ↔ ha = true ∧ .p2pCircuit ∉ addr := by
  induction addr with
  | nil => simp [checkComponents]
  | cons p r ih =>
    unfold checkComponents
    by_cases hp : p = .p2pCircuit
    · simp [hp]
    · simp only [if_true, if_neg hp]
      rw [ih, List.mem_cons, not_or]
      constructor
      · rintro ⟨ht, hr⟩
        exact ⟨ht, Ne.symm hp, hr⟩
      · rintro ⟨ht, -, hr⟩
        exact ⟨ht, hr⟩

theorem checkComponents_iff {ha : Bool} :
    checkComponents audience dns ha false addr = true
      ↔ (ha = true ∨ ∃ proto ∈ beforeCircuit addr, IsTransport proto)
        ∧ (∀ proto ∈ beforeCircuit addr, Permitted audience dns proto)
        ∧ addr.count .p2pCircuit ≤ 1 := by
  induction addr generalizing ha with
  | nil => simp [checkComponents, beforeCircuit]
  | cons proto rest ih =>
    cases proto with
    | p2pCircuit =>
      simp [checkComponents, checkComponents_circuit, beforeCircuit, List.count_eq_zero]
    | ip4 ip =>
      cases hi : ipv4Permitted ip audience <;>
        simp [checkComponents, ih, hi, beforeCircuit, Permitted, IsTransport]
    | ip6 ip =>
      cases hi : ipv6Permitted ip audience <;>
        simp [checkComponents, ih, hi, beforeCircuit, Permitted, IsTransport]
    | dns name | dns4 name | dns6 name | dnsaddr name =>
      by_cases hd : dns = .reject <;>
        simp [checkComponents, ih, hd, beforeCircuit, Permitted, IsTransport]
    | tcp port | udp port | p2p peer | other text =>
      simp [checkComponents, ih, beforeCircuit, Permitted, IsTransport]

/-- A permitted transport before the relay, nothing forbidden, and at most one relay. -/
theorem checkMultiaddr_iff :
    checkMultiaddr addr audience dns = true
      ↔ (∃ p ∈ beforeCircuit addr, IsTransport p)
        ∧ (∀ p ∈ beforeCircuit addr, Permitted audience dns p)
        ∧ addr.count .p2pCircuit ≤ 1 := by
  rw [checkMultiaddr, checkComponents_iff]
  simp

theorem noDnsBeforeCircuit_of_checkMultiaddr (h : checkMultiaddr addr audience .reject = true) :
    NoDnsBeforeCircuit addr := by
  intro p hp
  have hpe := (checkMultiaddr_iff.mp h).2.1 p hp
  cases p <;> simp_all [Permitted, Protocol.isDns]

end

variable {addr : List Protocol}

theorem noDnsBeforeCircuit_of_recordable {ha : Bool}
    (h : recordableComponents ha false addr = true) : NoDnsBeforeCircuit addr := by
  induction addr generalizing ha with
  | nil => simp [NoDnsBeforeCircuit, beforeCircuit]
  | cons proto rest ih =>
    cases proto with
    | p2pCircuit => simp [NoDnsBeforeCircuit, beforeCircuit]
    | dns name | dns4 name | dns6 name | dnsaddr name => simp [recordableComponents] at h
    | ip4 _ | ip6 _ | tcp _ | udp _ | p2p _ | other _ =>
      have hr := ih h
      simpa [NoDnsBeforeCircuit, beforeCircuit, Protocol.isDns] using hr

section

variable {front tail : List Protocol}

theorem stripPeerIdMultiaddr_direct (h : .p2pCircuit ∉ addr) :
    stripPeerIdMultiaddr addr = addr.filter fun p => !p.isP2p := by
  have ha : ∀ x ∈ addr, decide (x ≠ Protocol.p2pCircuit) = true := by
    intro x hx
    rw [decide_eq_true_eq]
    rintro rfl
    exact h hx
  rw [stripPeerIdMultiaddr, List.rdropWhile_eq_nil_iff.mpr ha, List.rtakeWhile_eq_self_iff.mpr ha,
    List.nil_append]

theorem stripPeerIdMultiaddr_relayed (h : .p2pCircuit ∉ tail) :
    stripPeerIdMultiaddr (front ++ .p2pCircuit :: tail)
      = front ++ .p2pCircuit :: tail.filter fun p => !p.isP2p := by
  have ha : ∀ x ∈ tail.reverse, decide (x ≠ Protocol.p2pCircuit) = true := by
    intro x hx
    rw [decide_eq_true_eq]
    rintro rfl
    exact h (List.mem_reverse.mp hx)
  have hr : (front ++ .p2pCircuit :: tail).reverse = tail.reverse ++ .p2pCircuit :: front.reverse := by simp
  rw [stripPeerIdMultiaddr, List.rdropWhile, List.rtakeWhile, hr, List.dropWhile_append_of_pos ha,
    List.takeWhile_append_of_pos ha, List.dropWhile_cons_of_neg (by simp),
    List.takeWhile_cons_of_neg (by simp)]
  simp

theorem direct_or_relayed (addr : List Protocol) :
    .p2pCircuit ∉ addr ∨ ∃ front tail, addr = front ++ .p2pCircuit :: tail ∧ .p2pCircuit ∉ tail := by
  by_cases hc : .p2pCircuit ∈ addr
  · obtain ⟨s, t, he, hs⟩ := List.eq_append_cons_of_mem (List.mem_reverse.mpr hc)
    refine .inr ⟨t.reverse, s.reverse, ?_, by simpa using hs⟩
    rw [← List.reverse_reverse addr, he]
    simp
  · exact .inl hc

theorem stripPeerIdMultiaddr_idem (addr : List Protocol) :
    stripPeerIdMultiaddr (stripPeerIdMultiaddr addr) = stripPeerIdMultiaddr addr := by
  have hf {l : List Protocol} (h : .p2pCircuit ∉ l) : .p2pCircuit ∉ l.filter fun p => !p.isP2p :=
    fun hm => h (List.mem_of_mem_filter hm)
  rcases direct_or_relayed addr with hd | ⟨front, tail, rfl, ht⟩
  · rw [stripPeerIdMultiaddr_direct hd, stripPeerIdMultiaddr_direct (hf hd)]
    simp
  · rw [stripPeerIdMultiaddr_relayed ht, stripPeerIdMultiaddr_relayed (hf ht)]
    simp

theorem beforeCircuit_relayed : beforeCircuit (front ++ .p2pCircuit :: tail) = beforeCircuit front := by
  induction front with
  | nil => simp [beforeCircuit]
  | cons p r ih =>
    unfold beforeCircuit at *
    rw [List.cons_append, List.takeWhile_cons, List.takeWhile_cons, ih]

theorem beforeCircuit_direct (h : .p2pCircuit ∉ addr) : beforeCircuit addr = addr := by
  rw [beforeCircuit, List.takeWhile_eq_self_iff]
  intro x hx
  rw [decide_eq_true_eq]
  rintro rfl
  exact h hx

theorem mem_beforeCircuit_strip {p : Protocol} (hp : p.isP2p = false) :
    p ∈ beforeCircuit (stripPeerIdMultiaddr addr) ↔ p ∈ beforeCircuit addr := by
  rcases direct_or_relayed addr with hd | ⟨front, tail, rfl, ht⟩
  · rw [stripPeerIdMultiaddr_direct hd, beforeCircuit_direct hd,
      beforeCircuit_direct fun hm => hd (List.mem_of_mem_filter hm), List.mem_filter, hp]
    simp
  · rw [stripPeerIdMultiaddr_relayed ht, beforeCircuit_relayed, beforeCircuit_relayed]

theorem count_circuit_strip : (stripPeerIdMultiaddr addr).count .p2pCircuit = addr.count .p2pCircuit := by
  conv_rhs => rw [← List.rdropWhile_append_rtakeWhile (p := (· ≠ Protocol.p2pCircuit)) (l := addr)]
  rw [stripPeerIdMultiaddr, List.count_append, List.count_append, List.count_filter rfl]

theorem checkMultiaddr_strip (audience : Audience) (dns : DnsPolicy) :
    checkMultiaddr (stripPeerIdMultiaddr addr) audience dns = checkMultiaddr addr audience dns := by
  have hm (q : Protocol → Prop) (hq : ∀ p, q p → p.isP2p = false) :
      (∃ p ∈ beforeCircuit (stripPeerIdMultiaddr addr), q p) ↔ ∃ p ∈ beforeCircuit addr, q p := by
    constructor
    · rintro ⟨p, hp, h⟩
      exact ⟨p, (mem_beforeCircuit_strip (hq p h)).mp hp, h⟩
    · rintro ⟨p, hp, h⟩
      exact ⟨p, (mem_beforeCircuit_strip (hq p h)).mpr hp, h⟩
  have ht := hm IsTransport fun p h => by cases p <;> first | rfl | exact h.elim
  have hr := hm (fun p => ¬ Permitted audience dns p) fun p h => by cases p <;> first | rfl | exact (h trivial).elim
  have ha : (∀ p ∈ beforeCircuit (stripPeerIdMultiaddr addr), Permitted audience dns p)
      ↔ ∀ p ∈ beforeCircuit addr, Permitted audience dns p := by
    simpa only [not_exists, not_and, not_not] using not_congr hr
  rw [Bool.eq_iff_iff, checkMultiaddr_iff, checkMultiaddr_iff, ht, ha, count_circuit_strip]

end

/-! ## One audience inside the other -/

def Audience.breadth : Audience → Nat
  | .disclose => 0
  | .dial .publicMode => 1
  | .dial .localMode => 2
  | .dialTrustedLocalProxy => 3

section

variable {a b : Audience}

theorem Ipv4Addr.routable_of_globally {ip : Ipv4Addr} (h : ip.isGloballyRoutable = true) :
    ip.isUnconditionallyRoutable = true ∧ ip.isPrivate = false := by
  unfold Ipv4Addr.isGloballyRoutable at h
  cases hu : ip.isUnconditionallyRoutable <;> cases hp : ip.isPrivate <;> simp_all

theorem ipv4Permitted_mono (hab : a.breadth ≤ b.breadth) {ip : Ipv4Addr} (h : ipv4Permitted ip a = true) :
    ipv4Permitted ip b = true := by
  have hg := @Ipv4Addr.routable_of_globally ip
  rcases a with ⟨_ | _⟩ | _ | _ <;> rcases b with ⟨_ | _⟩ | _ | _ <;>
    simp_all [Audience.breadth, ipv4Permitted]

theorem ipv6Permitted_mono (hab : a.breadth ≤ b.breadth) {ip : Ipv6Addr} (h : ipv6Permitted ip a = true) :
    ipv6Permitted ip b = true := by
  unfold ipv6Permitted at h ⊢
  cases he : ip.embeddedIpv4 with
  | some v4 =>
    rw [he] at h
    exact ipv4Permitted_mono hab h
  | none =>
    cases ht : ip.teredoIpv4s with
    | some pair =>
      simp only [he, ht, Bool.and_eq_true] at h ⊢
      exact ⟨ipv4Permitted_mono hab h.1, ipv4Permitted_mono hab h.2⟩
    | none =>
      simp only [he, ht] at h ⊢
      split at h
      · cases h
      · rename_i hl
        split at h
        · cases h
        · rename_i hs
          rw [if_neg hl, if_neg hs]
          rcases a with ⟨_ | _⟩ | _ | _ <;> rcases b with ⟨_ | _⟩ | _ | _ <;> simp_all [Audience.breadth]

theorem checkMultiaddr_mono (hab : a.breadth ≤ b.breadth) {dns : DnsPolicy}
    (h : checkMultiaddr addr a dns = true) : checkMultiaddr addr b dns = true := by
  rw [checkMultiaddr_iff] at h ⊢
  refine ⟨h.1, fun p hp => ?_, h.2.2⟩
  have hpe := h.2.1 p hp
  cases p with
  | ip4 ip => exact ipv4Permitted_mono hab hpe
  | ip6 ip => exact ipv6Permitted_mono hab hpe
  | dns _ | dns4 _ | dns6 _ | dnsaddr _ => exact hpe
  | tcp _ | udp _ | p2p _ | p2pCircuit | other _ => trivial

end

/-- **The policies are nested**, and the endpoint's identifier changes no verdict. -/
theorem address_policies_nested (addr : List Protocol) :
    (checkMultiaddr addr .disclose .reject = true → checkMultiaddr addr (.dial .publicMode) .reject = true)
      ∧ (checkMultiaddr addr (.dial .publicMode) .reject = true →
        checkMultiaddr addr (.dial .localMode) .reject = true)
      ∧ (checkMultiaddr addr (.dial .localMode) .reject = true →
        checkMultiaddr addr .dialTrustedLocalProxy .reject = true)
      ∧ stripPeerIdMultiaddr (stripPeerIdMultiaddr addr) = stripPeerIdMultiaddr addr
      ∧ ∀ audience, checkMultiaddr (stripPeerIdMultiaddr addr) audience .reject
          = checkMultiaddr addr audience .reject :=
  ⟨checkMultiaddr_mono (by decide), checkMultiaddr_mono (by decide), checkMultiaddr_mono (by decide),
    stripPeerIdMultiaddr_idem addr, fun audience => checkMultiaddr_strip audience .reject⟩

theorem noDnsBeforeCircuit_strip (h : NoDnsBeforeCircuit addr) :
    NoDnsBeforeCircuit (stripPeerIdMultiaddr addr) := by
  intro p hp
  cases hq : p.isP2p with
  | false => exact h p ((mem_beforeCircuit_strip hq).mp hp)
  | true => cases p <;> simp_all [Protocol.isP2p, Protocol.isDns]

/-! ## The same subnet -/

/-- One /24 of IPv4, possibly written as IPv6, or one /64 of unique local addresses. -/
inductive SameSubnet : IpAddr → IpAddr → Prop
  | v4 {a b : Ipv4Addr} (h : (a.o0, a.o1, a.o2) = (b.o0, b.o1, b.o2)) : SameSubnet (.v4 a) (.v4 b)
  | v6 {a b : Ipv6Addr} (ha : a.isUniqueLocal = true) (hb : b.isUniqueLocal = true)
      (h : (a.s0, a.s1, a.s2, a.s3) = (b.s0, b.s1, b.s2, b.s3)) : SameSubnet (.v6 a) (.v6 b)
  | left {a : Ipv6Addr} {v4 b : Ipv4Addr} (ha : a.embeddedIpv4 = some v4)
      (h : (v4.o0, v4.o1, v4.o2) = (b.o0, b.o1, b.o2)) : SameSubnet (.v6 a) (.v4 b)
  | right {a v4 : Ipv4Addr} {b : Ipv6Addr} (hb : b.embeddedIpv4 = some v4)
      (h : (a.o0, a.o1, a.o2) = (v4.o0, v4.o1, v4.o2)) : SameSubnet (.v4 a) (.v6 b)

theorem sameNetwork24_iff {a b : Ipv4Addr} :
    sameNetwork24 a b = true ↔ (a.o0, a.o1, a.o2) = (b.o0, b.o1, b.o2) := by
  simp [sameNetwork24, and_assoc]

theorem any_eq_true_iff {α : Type} {o : Option α} {p : α → Bool} :
    o.any p = true ↔ ∃ x, o = some x ∧ p x = true := by
  cases o <;> simp

theorem samePrivateSubnet_iff {a b : IpAddr} : samePrivateSubnet a b = true ↔ SameSubnet a b := by
  constructor
  · intro h
    cases a with
    | v4 a =>
      cases b with
      | v4 b => exact .v4 (sameNetwork24_iff.mp h)
      | v6 b =>
        obtain ⟨v4, hv4, hs⟩ := any_eq_true_iff.mp h
        exact .right hv4 (sameNetwork24_iff.mp hs)
    | v6 a =>
      cases b with
      | v4 b =>
        obtain ⟨v4, hv4, hs⟩ := any_eq_true_iff.mp h
        exact .left hv4 (sameNetwork24_iff.mp hs)
      | v6 b =>
        simp only [samePrivateSubnet] at h
        split at h
        · cases h
        · rename_i hl
          simp only [Bool.or_eq_true, Bool.not_eq_true', not_or, Bool.not_eq_false] at hl
          refine .v6 hl.1 hl.2 ?_
          simpa [and_assoc] using h
  · intro h
    cases h with
    | v4 h => exact sameNetwork24_iff.mpr h
    | v6 ha hb h =>
      simp only [Prod.mk.injEq] at h
      simp [samePrivateSubnet, ha, hb, h]
    | left ha h => exact any_eq_true_iff.mpr ⟨_, ha, sameNetwork24_iff.mpr h⟩
    | right hb h => exact any_eq_true_iff.mpr ⟨_, hb, sameNetwork24_iff.mpr h⟩

namespace Multiaddrs

variable {addrs : Multiaddrs}

theorem stripPeerId_idem (hl : addrs.Lawful) (m : String) :
    addrs.stripPeerId (addrs.stripPeerId m) = addrs.stripPeerId m := by
  cases hp : addrs.parse m with
  | none => simp only [stripPeerId, hp]
  | some addr =>
    have ha := hl.parse_strip m addr hp
    simp only [stripPeerId, hp, ha, stripPeerIdMultiaddr_idem]

def Direct (addrs : Multiaddrs) (multiaddr : String) (ip : IpAddr) : Prop :=
  ∃ addr, addrs.parse multiaddr = some addr ∧ .p2pCircuit ∉ addr ∧ firstIp addr = some ip

/-- A private address is told to a requester in its subnet, if a listener of ours is. -/
theorem isDisclosableOnRfc1918Network_iff {mu : String} {ra : Option String}
    {m : List String} :
    addrs.isDisclosableOnRfc1918Network mu ra m = true
      ↔ ∃ o e r, ra = some o
        ∧ addrs.Direct mu e ∧ addrs.Direct o r
        ∧ isPrivateAdjacencyIp e = true ∧ isPrivateAdjacencyIp r = true
        ∧ SameSubnet e r
        ∧ ∃ li ∈ m, ∃ l, addrs.firstIpComponent li = some l
          ∧ SameSubnet l r := by
  constructor
  · intro h
    unfold isDisclosableOnRfc1918Network at h
    split at h
    · cases h
    rename_i addr ha
    split at h
    · cases h
    rename_i hd
    split at h
    · cases h
    rename_i o
    split at h
    · cases h
    rename_i rm hrs
    split at h
    · cases h
    rename_i hre
    split at h
    · cases h
    rename_i r hrq
    split at h
    · cases h
    rename_i hr
    split at h
    · cases h
    rename_i e he
    split at h
    · cases h
    rename_i het
    rw [firstIpComponent, hrs, Option.bind_some] at hrq
    rw [firstIpComponent, ha, Option.bind_some] at he
    simp only [Bool.not_eq_true', Bool.not_eq_false, Bool.or_eq_true, not_or] at hr het
    simp only [Bool.and_eq_true, List.any_eq_true] at h
    obtain ⟨-, l, hlo, hs⟩ := h
    obtain ⟨li, hl, hi⟩ := List.mem_filterMap.mp hlo
    exact ⟨o, e, r, rfl, ⟨addr, ha, hd, he⟩,
      ⟨rm, hrs, hre, hrq⟩, het.1, hr,
      samePrivateSubnet_iff.mp het.2, li, hl, l, hi, samePrivateSubnet_iff.mp hs⟩
  · rintro ⟨o, e, r, rfl, ⟨addr, ha, hd, he⟩,
      ⟨rm, hrs, hre, hrq⟩, hen, hr,
      hs, li, hl, l, hi, hlo⟩
    have hm : l ∈ m.filterMap addrs.firstIpComponent :=
      List.mem_filterMap.mpr ⟨li, hl, hi⟩
    have han : ((m.filterMap addrs.firstIpComponent).any fun l =>
        samePrivateSubnet l r) = true :=
      List.any_eq_true.mpr ⟨l, hm, samePrivateSubnet_iff.mpr hlo⟩
    have hso : (m.filterMap addrs.firstIpComponent).isEmpty = false := by
      rw [List.isEmpty_eq_false_iff]
      exact List.ne_nil_of_mem hm
    simp [isDisclosableOnRfc1918Network, firstIpComponent, ha, hd, hrs, hre,
      hrq, he, hen, hr, samePrivateSubnet_iff.mpr hs, han, hso]

end Multiaddrs

end SCMessenger
