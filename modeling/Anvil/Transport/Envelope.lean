import Anvil.Lib.Delimited
import Anvil.Transport.ProxyProtocol

/-!
# Authenticated datagram envelopes (`anvil-transport/src/proxy_protocol.rs`)

A datagram to a gateway's listener carries a PROXY header with a freshness record and a tag over the listener, the header and
the payload. The MAC is a parameter.

* `ListenerBinding.canonicalDomain`, `Freshness.encodeValue`, `EnvelopeForm.block` : the parts;
* `encodeDatagram` : the datagram and where its tag is; `authenticated` : what the MAC is fed;
* `authenticated_injective` : what is fed tells the listener, the addresses, the freshness and the payload.
-/

namespace Anvil.Transport.ProxyProtocol
open Anvil.Lib

/-! ## Parts -/

inductive DatagramListenerProtocol
  | udp
  | dtls
deriving DecidableEq

structure ListenerBinding where
  protocol : DatagramListenerProtocol
  bindAddr : IpAddr
  port : UInt16
deriving DecidableEq

def ListenerBinding.new (protocol : DatagramListenerProtocol) (bindAddr : IpAddr) (port : UInt16) : ListenerBinding :=
  ⟨protocol, canonicalIp bindAddr, port⟩

def domainLabel : List UInt8 := ascii "ferrum-datagram-proxy-v1"

def domainBindingVersion : UInt8 := 0x01

def DatagramListenerProtocol.byte : DatagramListenerProtocol → UInt8
  | .udp => 0x01
  | .dtls => 0x02

/-- The family byte of a bind address. -/
def familyByte : IpAddr → UInt8
  | .v4 _ => 0x04
  | .v6 _ => 0x06

def octets : IpAddr → List UInt8
  | .v4 ip => ip.octets
  | .v6 ip => ip.octets

def ListenerBinding.canonicalDomain (b : ListenerBinding) : List UInt8 :=
  domainLabel ++ [domainBindingVersion] ++ [b.protocol.byte] ++ ([familyByte b.bindAddr] ++ octets b.bindAddr) ++ toBe b.port

structure Freshness where
  senderId : UInt32
  epoch : UInt64
  sequence : UInt64
  timestampMs : UInt64
deriving DecidableEq

def freshnessVersion : UInt8 := 0x01

def freshnessValueLen : Nat := 29

def Freshness.encodeValue (f : Freshness) : List UInt8 :=
  [freshnessVersion] ++ beBytes 4 f.senderId.toNat ++ beBytes 8 f.epoch.toNat ++ beBytes 8 f.sequence.toNat ++
    beBytes 8 f.timestampMs.toNat

inductive EnvelopeForm
  | localForm
  | unspec
  | forwarded (source destination : SocketAddr)
deriving DecidableEq

/-- The addresses of an envelope, folded to IPv4 where they are mapped. -/
def EnvelopeForm.canonical : EnvelopeForm → EnvelopeForm
  | .localForm => .localForm
  | .unspec => .unspec
  | .forwarded source destination => .forwarded (Lib.canonical source) (Lib.canonical destination)

def isIpv4Pair (s d : SocketAddr) : Bool := s.ip.isIpv4 && d.ip.isIpv4

/-- The command and family bytes. -/
def EnvelopeForm.command : EnvelopeForm → UInt8 × UInt8
  | .localForm => (0x20, 0x00)
  | .unspec => (0x21, 0x02)
  | .forwarded source destination =>
    if isIpv4Pair (Lib.canonical source) (Lib.canonical destination) then (0x21, 0x12) else (0x21, 0x22)

/-- Two addresses of one family: a pair that is mixed is promoted to IPv6. -/
def addressBlock (s d : SocketAddr) : List UInt8 :=
  (if isIpv4Pair s d then octets s.ip ++ octets d.ip else (toV6 s.ip).octets ++ (toV6 d.ip).octets) ++
    toBe s.port ++ toBe d.port

/-- `fixed`. -/
def EnvelopeForm.block : EnvelopeForm → List UInt8
  | .localForm => []
  | .unspec => []
  | .forwarded source destination => addressBlock (Lib.canonical source) (Lib.canonical destination)

/-! ## Datagrams -/

def freshnessTlvType : UInt8 := 0xE1

def authTlvType : UInt8 := 0xE0

def authTagLen : Nat := 32

/-- A MAC of `HmacSha256`. -/
structure Tag where
  bytes : List UInt8
  length_bytes : bytes.length = authTagLen

structure EnvelopeKey where
  secret : List UInt8
  binding : ListenerBinding
  freshness : Freshness

/-- The signature, the command, the length of the address block and the fixed addresses. -/
def envelopeHeader (form : EnvelopeForm) (tlvLen : Nat) : List UInt8 :=
  v2Sig ++ [form.command.1, form.command.2] ++ toBe (UInt16.ofNat (form.block.length + tlvLen)) ++ form.block

def tlvLen : Nat := 3 + freshnessValueLen + 3 + authTagLen

/-- What stands before the tag. -/
def beforeTag (form : EnvelopeForm) (f : Freshness) : List UInt8 :=
  envelopeHeader form tlvLen ++ ([freshnessTlvType] ++ toBe (UInt16.ofNat freshnessValueLen)) ++ f.encodeValue ++
    ([authTlvType] ++ toBe (UInt16.ofNat authTagLen))

/-- What the MAC is fed of a datagram: the listener, and the datagram without the tag at its place. -/
def authenticated (b : ListenerBinding) (datagram : List UInt8) (tagStart : Nat) : List UInt8 :=
  b.canonicalDomain ++ datagram.take tagStart ++ datagram.drop (tagStart + authTagLen)

/-- The tag is written over its place. -/
def placeTag (datagram : List UInt8) (tagStart : Nat) (tag : Tag) : List UInt8 :=
  datagram.take tagStart ++ tag.bytes ++ datagram.drop (tagStart + authTagLen)

/-- The datagram before its tag is known. -/
def untagged (form : EnvelopeForm) (payload : List UInt8) (f : Freshness) : List UInt8 :=
  beforeTag form f ++ List.replicate authTagLen 0 ++ payload

/-- The datagram, and the offset of the tag of one that is authenticated. -/
def encodeDatagram (mac : List UInt8 → List UInt8 → Tag) (form : EnvelopeForm) (payload : List UInt8) :
    Option EnvelopeKey → List UInt8 × Option Nat
  | none => (envelopeHeader form 0 ++ payload, none)
  | some auth =>
    let tagStart := (beforeTag form auth.freshness).length
    let out := untagged form payload auth.freshness
    (placeTag out tagStart (mac auth.secret (authenticated auth.binding out tagStart)), some tagStart)

/-! ## What each part tells -/

theorem delimits_byte {α κ : Type} {f : α → UInt8} {key : α → κ} (hf : ∀ a a', f a = f a' → key a = key a') :
    Delimits (fun a => [f a]) key :=
  delimits_fixed 1 (fun _ => rfl) fun a a' he => hf a a' (List.cons.inj he).1

theorem length_toBe (n : UInt16) : (toBe n).length = 2 := rfl

theorem toBe_injective : Function.Injective toBe := by
  intro n m he
  have hpair := (List.cons.inj he).2
  have hn := fromBe_toBe n
  rw [(List.cons.inj he).1, (List.cons.inj hpair).1, fromBe_toBe] at hn
  exact hn.symm

theorem delimits_toBe : Delimits toBe id := delimits_fixed 2 length_toBe fun _ _ he => toBe_injective he

theorem delimits_beBytes {α κ : Type} {k : Nat} {f : α → Nat} {key : α → κ} (hbound : ∀ a, f a < 256 ^ k)
    (hkey : ∀ a a', f a = f a' → key a = key a') : Delimits (fun a => beBytes k (f a)) key :=
  delimits_fixed k (fun _ => length_beBytes k _) fun a a' he => by
    refine hkey a a' ?_
    have hback := congrArg ofBeBytes he
    rwa [ofBeBytes_beBytes (hbound a), ofBeBytes_beBytes (hbound a')] at hback

theorem octets_injective {a a' : Ipv6Addr} (he : a.octets = a'.octets) : a = a' := by
  cases a
  cases a'
  cases he
  rfl

/-- A bind address after its family byte. -/
theorem delimits_bindAddr : Delimits (fun ip => [familyByte ip] ++ octets ip) (id : IpAddr → IpAddr) := by
  refine (@delimits_byte _ _ familyByte familyByte fun _ _ he => he).choice fun a a' x x' htag he => ?_
  cases a with
  | v4 ip =>
    cases a' with
    | v4 ip' =>
      obtain ⟨hoct, hx⟩ := List.append_inj he rfl
      obtain ⟨a, b, c, d⟩ := ip
      obtain ⟨a', b', c', d'⟩ := ip'
      simp only [octets, Ipv4Addr.octets, List.cons.injEq, and_true] at hoct
      obtain ⟨rfl, rfl, rfl, rfl⟩ := hoct
      exact ⟨rfl, hx⟩
    | v6 ip' => exact absurd htag (show (0x04 : UInt8) ≠ 0x06 by decide)
  | v6 ip =>
    cases a' with
    | v4 ip' => exact absurd htag (show (0x06 : UInt8) ≠ 0x04 by decide)
    | v6 ip' =>
      obtain ⟨hoct, hx⟩ := List.append_inj he (ip.length_octets.trans ip'.length_octets.symm)
      rw [octets_injective hoct]
      exact ⟨rfl, hx⟩

theorem protocolByte_injective : ∀ p q : DatagramListenerProtocol, p.byte = q.byte → p = q := by
  intro p q he
  cases p <;> cases q <;> first | rfl | exact absurd he (by decide)

theorem delimits_canonicalDomain : Delimits ListenerBinding.canonicalDomain (id : ListenerBinding → ListenerBinding) := by
  have hlabel : Delimits (fun _ : ListenerBinding => domainLabel ++ [domainBindingVersion]) fun _ => () := delimits_const _
  have hproto : Delimits (fun b : ListenerBinding => [b.protocol.byte]) ListenerBinding.protocol :=
    delimits_byte fun a a' => protocolByte_injective a.protocol a'.protocol
  have hall := ((hlabel.append hproto).append (delimits_bindAddr.comp ListenerBinding.bindAddr)).append
    (delimits_toBe.comp ListenerBinding.port)
  refine hall.imp fun a a' he => ?_
  obtain ⟨protocol, bindAddr, port⟩ := a
  obtain ⟨protocol', bindAddr', port'⟩ := a'
  simp only [Prod.mk.injEq, id] at he
  obtain ⟨⟨⟨-, rfl⟩, rfl⟩, rfl⟩ := he
  rfl

/-- Listeners given at mapped addresses have the domain of the address itself, and otherwise one of their own. -/
theorem new_canonicalDomain {p p' : DatagramListenerProtocol} {ip ip' : IpAddr} {port port' : UInt16} :
    (ListenerBinding.new p ip port).canonicalDomain = (ListenerBinding.new p' ip' port').canonicalDomain ↔
      p = p' ∧ canonicalIp ip = canonicalIp ip' ∧ port = port' := by
  constructor
  · intro he
    simpa [ListenerBinding.new] using delimits_canonicalDomain.injective he
  · rintro ⟨rfl, hip, rfl⟩
    unfold ListenerBinding.new
    rw [hip]

theorem delimits_freshness : Delimits Freshness.encodeValue (id : Freshness → Freshness) := by
  have h64 : ∀ n : UInt64, n.toNat < 256 ^ 8 := fun n => n.toNat_lt
  have hver : Delimits (fun _ : Freshness => [freshnessVersion]) fun _ => () := delimits_const _
  have hsender : Delimits (fun f : Freshness => beBytes 4 f.senderId.toNat) Freshness.senderId :=
    delimits_beBytes (fun f => f.senderId.toNat_lt) fun _ _ he => UInt32.toNat_inj.1 he
  have hepoch : Delimits (fun f : Freshness => beBytes 8 f.epoch.toNat) Freshness.epoch :=
    delimits_beBytes (fun f => h64 f.epoch) fun _ _ he => UInt64.toNat_inj.1 he
  have hseq : Delimits (fun f : Freshness => beBytes 8 f.sequence.toNat) Freshness.sequence :=
    delimits_beBytes (fun f => h64 f.sequence) fun _ _ he => UInt64.toNat_inj.1 he
  have htime : Delimits (fun f : Freshness => beBytes 8 f.timestampMs.toNat) Freshness.timestampMs :=
    delimits_beBytes (fun f => h64 f.timestampMs) fun _ _ he => UInt64.toNat_inj.1 he
  refine ((((hver.append hsender).append hepoch).append hseq).append htime).imp fun a a' he => ?_
  obtain ⟨s, e, q, t⟩ := a
  obtain ⟨s', e', q', t'⟩ := a'
  simp only [Prod.mk.injEq] at he
  obtain ⟨⟨⟨⟨-, rfl⟩, rfl⟩, rfl⟩, rfl⟩ := he
  rfl

/-! ## What the header tells -/

/-- A pair of canonical addresses, from its block and its command. -/
theorem addressBlock_told {s d s' d' : SocketAddr} {x x' : List UInt8}
    (hpair : isIpv4Pair (Lib.canonical s) (Lib.canonical d) = isIpv4Pair (Lib.canonical s') (Lib.canonical d'))
    (he : addressBlock (Lib.canonical s) (Lib.canonical d) ++ x = addressBlock (Lib.canonical s') (Lib.canonical d') ++ x') :
    (Lib.canonical s = Lib.canonical s' ∧ Lib.canonical d = Lib.canonical d') ∧ x = x' := by
  unfold addressBlock at he
  rw [hpair] at he
  cases h : isIpv4Pair (Lib.canonical s') (Lib.canonical d') with
  | true =>
    rw [h] at hpair he
    unfold isIpv4Pair at h hpair
    rw [Bool.and_eq_true] at h hpair
    obtain ⟨hs, hd⟩ := hpair
    obtain ⟨hs', hd'⟩ := h
    generalize Lib.canonical s = a at *
    generalize Lib.canonical d = b at *
    generalize Lib.canonical s' = a' at *
    generalize Lib.canonical d' = b' at *
    obtain ⟨_ | _, p⟩ := a
    · obtain ⟨_ | _, q⟩ := b
      · obtain ⟨_ | _, p'⟩ := a'
        · obtain ⟨_ | _, q'⟩ := b'
          · rename_i a b a' b'
            simp only [if_true, octets, Ipv4Addr.octets, toBe, List.cons_append, List.nil_append, List.cons.injEq] at he
            obtain ⟨h₁, h₂, h₃, h₄, h₅, h₆, h₇, h₈, h₉, h₁₀, h₁₁, h₁₂, hx⟩ := he
            have hp : p = p' := toBe_injective (by rw [toBe, toBe, h₉, h₁₀])
            have hq : q = q' := toBe_injective (by rw [toBe, toBe, h₁₁, h₁₂])
            obtain ⟨a₁, a₂, a₃, a₄⟩ := a
            obtain ⟨b₁, b₂, b₃, b₄⟩ := b
            obtain ⟨a₁', a₂', a₃', a₄'⟩ := a'
            obtain ⟨b₁', b₂', b₃', b₄'⟩ := b'
            simp only at h₁ h₂ h₃ h₄ h₅ h₆ h₇ h₈
            subst h₁ h₂ h₃ h₄ h₅ h₆ h₇ h₈ hp hq
            exact ⟨⟨rfl, rfl⟩, hx⟩
          · cases hd'
        · cases hs'
      · cases hd
    · cases hs
  | false =>
    rw [h] at he
    rw [if_neg (by simp), if_neg (by simp)] at he
    simp only [List.append_assoc] at he
    have h16 : ∀ a a' : Ipv6Addr, a.octets.length = a'.octets.length :=
      fun a a' => a.length_octets.trans a'.length_octets.symm
    obtain ⟨h₁, he⟩ := List.append_inj he (h16 _ _)
    obtain ⟨h₂, he⟩ := List.append_inj he (h16 _ _)
    obtain ⟨h₃, he⟩ := delimits_toBe he
    obtain ⟨h₄, hx⟩ := delimits_toBe he
    refine ⟨⟨?_, ?_⟩, hx⟩
    · rw [← canonical_toV6 s, ← canonical_toV6 s', octets_injective h₁, show s.port = s'.port from h₃]
    · rw [← canonical_toV6 d, ← canonical_toV6 d', octets_injective h₂, show d.port = d'.port from h₄]

/-- The fixed addresses, from the command. -/
theorem block_told {form form' : EnvelopeForm} {x x' : List UInt8} (hc : form.command = form'.command)
    (he : form.block ++ x = form'.block ++ x') : form.canonical = form'.canonical ∧ x = x' := by
  have hforward : ∀ s d, EnvelopeForm.command (.forwarded s d) ≠ (0x20, 0x00) ∧
      EnvelopeForm.command (.forwarded s d) ≠ (0x21, 0x02) := by
    intro s d
    unfold EnvelopeForm.command
    dsimp only
    split_ifs <;> decide
  cases form with
  | localForm =>
    cases form' with
    | localForm => exact ⟨rfl, he⟩
    | unspec => exact absurd hc (by decide)
    | forwarded s d => exact absurd hc.symm (hforward s d).1
  | unspec =>
    cases form' with
    | localForm => exact absurd hc (by decide)
    | unspec => exact ⟨rfl, he⟩
    | forwarded s d => exact absurd hc.symm (hforward s d).2
  | forwarded s d =>
    cases form' with
    | localForm => exact absurd hc (hforward s d).1
    | unspec => exact absurd hc (hforward s d).2
    | forwarded s' d' =>
      have hpair : isIpv4Pair (Lib.canonical s) (Lib.canonical d) = isIpv4Pair (Lib.canonical s') (Lib.canonical d') := by
        unfold EnvelopeForm.command at hc
        dsimp only at hc
        cases h : isIpv4Pair (Lib.canonical s) (Lib.canonical d) <;> cases h' : isIpv4Pair
          (Lib.canonical s') (Lib.canonical d')
        · rfl
        · rw [h, h'] at hc
          exact absurd hc (by decide)
        · rw [h, h'] at hc
          exact absurd hc (by decide)
        · rfl
      obtain ⟨⟨hs, hd⟩, hx⟩ := addressBlock_told hpair he
      exact ⟨congrArg₂ EnvelopeForm.forwarded hs hd, hx⟩

theorem delimits_envelopeHeader (n : Nat) : Delimits (fun form => envelopeHeader form n) EnvelopeForm.canonical := by
  have hsig : Delimits (fun _ : EnvelopeForm => v2Sig) fun _ => () := delimits_const _
  have hcommand : Delimits (fun form : EnvelopeForm => [form.command.1, form.command.2]) EnvelopeForm.command :=
    delimits_fixed 2 (fun _ => rfl) fun a a' he =>
      Prod.ext (List.cons.inj he).1 (List.cons.inj (List.cons.inj he).2).1
  have hlen : Delimits (fun form : EnvelopeForm => toBe (UInt16.ofNat (form.block.length + n))) fun _ => () :=
    delimits_fixed 2 (fun _ => rfl) fun _ _ _ => rfl
  refine ((hsig.append hcommand).append hlen).choice fun a a' x x' htag he => ?_
  exact block_told (congrArg (fun t => t.1.2) htag) he

theorem delimits_beforeTag :
    Delimits (fun a : EnvelopeForm × Freshness => beforeTag a.1 a.2) fun a => (a.1.canonical, a.2) := by
  have hhead := (delimits_envelopeHeader tlvLen).comp (Prod.fst : EnvelopeForm × Freshness → EnvelopeForm)
  have htype : Delimits (fun _ : EnvelopeForm × Freshness => [freshnessTlvType] ++ toBe (UInt16.ofNat freshnessValueLen))
    fun _ => () := delimits_const _
  have hauth : Delimits (fun _ : EnvelopeForm × Freshness => [authTlvType] ++ toBe (UInt16.ofNat authTagLen)) fun _ => () :=
    delimits_const _
  have hfresh := delimits_freshness.comp (Prod.snd : EnvelopeForm × Freshness → Freshness)
  refine (((hhead.append htype).append hfresh).append hauth).imp fun a a' he => ?_
  simp only [Prod.mk.injEq, id] at he
  exact Prod.ext he.1.1.1 he.1.2

/-! ## What is authenticated -/

/-- Nothing that stands at the place of the tag matters. -/
theorem authenticated_append (b : ListenerBinding) {before tag after : List UInt8} (ht : tag.length = authTagLen) :
    authenticated b (before ++ tag ++ after) before.length = b.canonicalDomain ++ before ++ after := by
  unfold authenticated
  rw [← ht, ← List.length_append, List.drop_left, List.append_assoc before, List.take_left]

/-- The header of an envelope is that of its canonical addresses. -/
theorem beforeTag_canonical (form : EnvelopeForm) (f : Freshness) : beforeTag form.canonical f = beforeTag form f := by
  unfold beforeTag envelopeHeader
  cases form with
  | localForm => rfl
  | unspec => rfl
  | forwarded s d =>
    simp only [EnvelopeForm.canonical, EnvelopeForm.command, EnvelopeForm.block]
    rw [canonical_canonical, canonical_canonical]

theorem encodeDatagram_auth (mac : List UInt8 → List UInt8 → Tag) (form : EnvelopeForm) (payload : List UInt8)
    (k : EnvelopeKey) :
    ∃ tag, tag = mac k.secret (k.binding.canonicalDomain ++ beforeTag form k.freshness ++ payload) ∧
      encodeDatagram mac form payload (some k) =
        (beforeTag form k.freshness ++ tag.bytes ++ payload, some (beforeTag form k.freshness).length) := by
  refine ⟨_, rfl, ?_⟩
  have hzero : (List.replicate authTagLen (0 : UInt8)).length = authTagLen := List.length_replicate
  unfold encodeDatagram placeTag untagged
  dsimp only
  rw [authenticated_append _ hzero, List.append_assoc (beforeTag form k.freshness), List.take_left, ← List.append_assoc,
    show (beforeTag form k.freshness).length + authTagLen =
      (beforeTag form k.freshness ++ List.replicate authTagLen 0).length by rw [List.length_append, hzero], List.drop_left]

/-- **What the tag of a datagram authenticates tells all of it**: the tag is the MAC of the listener and the datagram without
its tag, and that text is the same for two datagrams only where the listener, the form and its canonical addresses, the
freshness and the payload are. -/
theorem authenticated_injective (mac : List UInt8 → List UInt8 → Tag) (form form' : EnvelopeForm)
    (payload payload' : List UInt8)
    (k k' : EnvelopeKey) : ∃ d d' t t', encodeDatagram mac form payload (some k) = (d, some t) ∧
      encodeDatagram mac form' payload' (some k') = (d', some t') ∧
      (d.drop t).take authTagLen = (mac k.secret (authenticated k.binding d t)).bytes ∧
      (authenticated k.binding d t = authenticated k'.binding d' t' ↔
        k.binding = k'.binding ∧ form.canonical = form'.canonical ∧ k.freshness = k'.freshness ∧ payload = payload') := by
  obtain ⟨tag, htag, hd⟩ := encodeDatagram_auth mac form payload k
  obtain ⟨tag', htag', hd'⟩ := encodeDatagram_auth mac form' payload' k'
  refine ⟨_, _, _, _, hd, hd', ?_, ?_⟩
  · rw [authenticated_append _ tag.length_bytes, ← htag, List.append_assoc, List.drop_left, ← tag.length_bytes,
      List.take_left]
  · rw [authenticated_append _ tag.length_bytes, authenticated_append _ tag'.length_bytes, List.append_assoc,
      List.append_assoc]
    constructor
    · intro he
      obtain ⟨hbinding, he⟩ := delimits_canonicalDomain he
      obtain ⟨hform, hpayload⟩ := @delimits_beforeTag (form, k.freshness) (form', k'.freshness) _ _ he
      exact ⟨hbinding, congrArg Prod.fst hform, congrArg Prod.snd hform, hpayload⟩
    · rintro ⟨hbinding, hform, hfresh, rfl⟩
      rw [hbinding, hfresh]
      rw [← beforeTag_canonical form, hform, beforeTag_canonical]

end Anvil.Transport.ProxyProtocol
