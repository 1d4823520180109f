import Anvil.Lib.Net
import Anvil.Lib.Utf8

/-!
# The redirect authority of an execution (`anvil-transport/src/destination.rs`)

`DestinationPolicy` is shared by all attempts of one execution. `validate` accepts or refuses a resolved answer, `pin`
is the attempt around it: a proxied attempt is not resolved, and leaves an origin that no redirect can follow.

What an attempt resolves to, and the literal addresses of `std::net`, are its arguments.

* `validate_cases` : everything that `validate` does to the policy;
* `Tracks` : the policy against the accepted hops before it;
* `run_authorized` : what every accepted hop of every run is.
-/

namespace Anvil.Transport
open Anvil.Lib

inductive Zone where
  | publicZone
  | privateZone
  | shared
  | linkLocal
  | loopback
  | benchmark
deriving DecidableEq, Repr

def Zone.index : Zone → Nat
  | .publicZone => 0
  | .privateZone => 1
  | .shared => 2
  | .linkLocal => 3
  | .loopback => 4
  | .benchmark => 5

def Zone.bit (z : Zone) : BitVec 8 := 1#8 <<< z.index

def publicBit : BitVec 8 := Zone.publicZone.bit

def benchmarkBit : BitVec 8 := Zone.benchmark.bit

inductive Origin where
  | unresolved
  /-- The zones of the original answer, and whether any hop so far could reach a public address. -/
  | resolved (zones : BitVec 8) (publicHop : Bool)
  | opaqueProxy
deriving DecidableEq

structure DestinationPolicy where
  origin : Origin := .unresolved
  originalHost : Text := []
deriving DecidableEq

inductive Phase where
  | dns
  | connect
deriving DecidableEq

inductive FailureKind where
  | unsupportedCombination
  | canceled
  | totalTimeout
  | resolution
deriving DecidableEq

/-- A failure, without its text. -/
structure TransportFailure where
  phase : Phase
  kind : FailureKind
  field : Option String := none
deriving DecidableEq

def refused : TransportFailure := ⟨.connect, .unsupportedCombination, some "settings.redirects"⟩

/-- `trim_end_matches`. -/
def trimEnd (c : Char) (t : Text) : Text := (t.reverse.dropWhile (· = c)).reverse

def hostKey (host : Text) : Text :=
  (trimEnd '.' (trimEnd ']' (host.dropWhile (· = '[')))).map Char.toLower

def zoneV4 (ip : Ipv4Addr) : Option Zone :=
  let a := ip.a.toNat
  let b := ip.b.toNat
  let c := ip.c.toNat
  if a = 127 then some .loopback
  else if a = 169 ∧ b = 254 then some .linkLocal
  else if a = 10 ∨ (a = 172 ∧ 16 ≤ b ∧ b ≤ 31) ∨ (a = 192 ∧ b = 168) then some .privateZone
  else if a = 100 ∧ 64 ≤ b ∧ b ≤ 127 then some .shared
  else if a = 198 ∧ (b = 18 ∨ b = 19) then some .benchmark
  else if a = 0 ∨ 224 ≤ a ∨ (a = 192 ∧ b = 0 ∧ (c = 0 ∨ c = 2)) ∨ (a = 192 ∧ b = 88 ∧ c = 99) ∨
      (a = 198 ∧ b = 51 ∧ c = 100) ∨ (a = 203 ∧ b = 0 ∧ c = 113) then none
  else some .publicZone

def Ipv6Addr.isLoopback (ip : Ipv6Addr) : Bool := ip.octets = [0, 0, 0, 0, 0, 0, 0, 0, 0, 0, 0, 0, 0, 0, 0, 1]

def zoneV6 (ip : Ipv6Addr) : Option Zone :=
  match ip.toIpv4Mapped with
  | some mapped => zoneV4 mapped
  | none =>
    let s := ip.segment
    -- the well-known NAT64 prefix, 64:ff9b::/96
    if [s 0, s 1, s 2, s 3, s 4, s 5] = [0x64, 0xff9b, 0, 0, 0, 0] then zoneV4 ip.embedded
    else if Ipv6Addr.isLoopback ip then some .loopback
    else if s 0 &&& 0xffc0 = 0xfe80 then some .linkLocal
    else if s 0 &&& 0xfe00 = 0xfc00 then some .privateZone
    else if s 0 &&& 0xe000 = 0x2000 ∧ s 0 ≠ 0x2002 ∧ ¬(s 0 = 0x2001 ∧ (s 1 < 0x0200 ∨ s 1 = 0x0db8)) ∧
        ¬(s 0 = 0x3fff ∧ s 1 < 0x1000) ∧ ¬((s 4 = 0 ∨ s 4 = 0x0200) ∧ s 5 = 0x5efe) then some .publicZone
    else none

def zone : IpAddr → Option Zone
  | .v4 ip => zoneV4 ip
  | .v6 ip => zoneV6 ip

/-- The zones of an answer, from those of the addresses before. -/
def zonesFrom (zones : BitVec 8) : List SocketAddr → Except TransportFailure (BitVec 8)
  | [] => .ok zones
  | addr :: addrs =>
    match zone addr.ip with
    | none => .error refused
    | some z => zonesFrom (zones ||| z.bit) addrs

/-- A result, and the policy behind the lock after it. -/
abbrev Verdict := Except TransportFailure Unit × DestinationPolicy

namespace DestinationPolicy

def refuse (p : DestinationPolicy) : Verdict := (.error refused, p)

/-- The match of `validate` on the origin. -/
def decide (p : DestinationPolicy) (host : Text) (zones : BitVec 8) (redirected : Bool) : Verdict :=
  match p.origin with
  | .unresolved =>
    if !redirected then (.ok (), ⟨.resolved zones (zones &&& publicBit ≠ 0), host⟩) else p.refuse
  | .resolved allowed publicHop =>
    if !redirected then
      if zones &&& ~~~(allowed ||| publicBit) = 0 then
        (.ok (), { p with origin := .resolved allowed (publicHop || zones &&& publicBit ≠ 0) })
      else p.refuse
    else if zones = publicBit then (.ok (), { p with origin := .resolved allowed true })
    else if zones &&& publicBit ≠ 0 then p.refuse
    else if publicHop then p.refuse
    else if zones &&& ~~~allowed ≠ 0 then p.refuse
    else if zones &&& benchmarkBit ≠ 0 ∧ host ≠ p.originalHost then p.refuse
    else (.ok (), p)
  | .opaqueProxy => p.refuse

def validate (p : DestinationPolicy) (host : Text) (addrs : List SocketAddr) (redirected : Bool) : Verdict :=
  match zonesFrom 0 addrs with
  | .error e => (.error e, p)
  | .ok zones =>
    if zones = 0 then p.refuse
    else p.decide (hostKey host) zones redirected

end DestinationPolicy

/-- A proxied attempt: the host of the authority it sends, where a forward proxy routes by that. -/
structure ProxyHop where
  authorityHost : Option Text := none

/-- What `pin` reads of an attempt. -/
structure Attempt where
  host : Text
  redirected : Bool
  canceled : Bool := false
  expired : Bool := false
  proxy : Option ProxyHop := none
  /-- What resolution gives, if it is reached. -/
  resolution : Except TransportFailure (List SocketAddr)

section Pin
variable (parseIp : Text → Option IpAddr)

/-- `dns::parse_literal`. -/
def parseLiteral (host : Text) : Option IpAddr := parseIp (trimEnd ']' (host.dropWhile (· = '[')))

def permittedLiteral (host : Text) : Bool :=
  match parseLiteral parseIp host with
  | none => true
  | some ip => (zone ip).isSome

def DestinationPolicy.pin (p : DestinationPolicy) (t : Attempt) : Verdict :=
  if t.canceled then (.error ⟨.dns, .canceled, none⟩, p)
  else if t.expired then (.error ⟨.dns, .totalTimeout, none⟩, p)
  else
    match t.proxy with
    | some hop =>
      if t.redirected then p.refuse
      else if !permittedLiteral parseIp t.host then p.refuse
      else if hop.authorityHost.any fun host => !permittedLiteral parseIp host then p.refuse
      else (.ok (), { p with origin := .opaqueProxy })
    | none =>
      if t.redirected ∧ (p.origin = .opaqueProxy ∨ p.origin = .unresolved) then p.refuse
      else
        match t.resolution with
        | .error e => (.error e, p)
        | .ok addrs => p.validate t.host addrs t.redirected

end Pin

/-! ## Zones as bits -/

/-- Some address of the answer is in the zone. -/
def Hits (addrs : List SocketAddr) (z : Zone) : Prop := ∃ a ∈ addrs, zone a.ip = some z

theorem and_bit_eq_zero {m : BitVec 8} {z : Zone} : m &&& z.bit = 0 ↔ m.getLsbD z.index = false := by
  have hbit : z.bit = BitVec.twoPow 8 z.index := rfl
  rw [hbit, BitVec.and_twoPow]
  cases h : m.getLsbD z.index with
  | false => exact ⟨fun _ => rfl, fun _ => rfl⟩
  | true =>
    refine ⟨fun h0 => ?_, fun hf => absurd hf (by decide)⟩
    revert h0
    cases z <;> decide

theorem getLsbD_bit (z w : Zone) : z.bit.getLsbD w.index = true ↔ w = z := by
  cases z <;> cases w <;> decide

theorem and_not_eq_zero {m n : BitVec 8} (h : m &&& ~~~n = 0) {i : Nat} (hi : i < 8) (hm : m.getLsbD i = true) :
    n.getLsbD i = true := by
  have := congrArg (BitVec.getLsbD · i) h
  simp only [BitVec.getLsbD_and, BitVec.getLsbD_not, hi, hm] at this
  simpa using this

theorem Zone.index_lt (z : Zone) : z.index < 8 := by
  cases z <;> decide

theorem zonesFrom_ok {addrs : List SocketAddr} {m zones : BitVec 8} (h : zonesFrom m addrs = .ok zones) :
    (∀ a ∈ addrs, (zone a.ip).isSome) ∧
    ∀ z : Zone, zones.getLsbD z.index = true ↔ m.getLsbD z.index = true ∨ Hits addrs z := by
  induction addrs generalizing m with
  | nil =>
    cases h
    refine ⟨fun a ha => absurd ha List.not_mem_nil, fun z => ?_⟩
    unfold Hits
    simp only [List.not_mem_nil, false_and, exists_false, or_false]
  | cons addr addrs ih =>
    unfold zonesFrom at h
    cases hz : zone addr.ip with
    | none =>
      rw [hz] at h
      cases h
    | some z₀ =>
      rw [hz] at h
      obtain ⟨hsome, hbits⟩ := ih h
      refine ⟨List.forall_mem_cons.2 ⟨by rw [hz]; rfl, hsome⟩, fun z => ?_⟩
      rw [hbits z, BitVec.getLsbD_or, Bool.or_eq_true, getLsbD_bit, or_assoc]
      unfold Hits
      rw [List.exists_mem_cons_iff, hz, Option.some.injEq, @eq_comm _ z₀ z]

/-- The zones of a whole answer. -/
theorem zones_iff {addrs : List SocketAddr} {zones : BitVec 8} (h : zonesFrom 0 addrs = .ok zones) (z : Zone) :
    zones.getLsbD z.index = true ↔ Hits addrs z := by
  have hzero : (0 : BitVec 8).getLsbD z.index = false := BitVec.getLsbD_zero
  rw [(zonesFrom_ok h).2 z, hzero]
  simp only [Bool.false_eq_true, false_or]

theorem hits_iff {addrs : List SocketAddr} {zones : BitVec 8} (h : zonesFrom 0 addrs = .ok zones) (z : Zone) :
    zones &&& z.bit ≠ 0 ↔ Hits addrs z := by
  rw [← zones_iff h z, ne_eq, and_bit_eq_zero, Bool.not_eq_false]

/-! ## One call -/

namespace DestinationPolicy

/-- What a policy does with an answer in these zones, all guards included. -/
theorem decide_cases (p : DestinationPolicy) (host : Text) (zones : BitVec 8) (redirected : Bool) :
    p.decide host zones redirected = p.refuse ∨
    (p.origin = .unresolved ∧ redirected = false ∧
      p.decide host zones redirected = (.ok (), ⟨.resolved zones (zones &&& publicBit ≠ 0), host⟩)) ∨
    (∃ allowed hop, p.origin = .resolved allowed hop ∧ redirected = false ∧
      p.decide host zones redirected =
        (.ok (), { p with origin := .resolved allowed (hop || zones &&& publicBit ≠ 0) })) ∨
    (∃ allowed hop, p.origin = .resolved allowed hop ∧ redirected = true ∧ zones = publicBit ∧
      p.decide host zones redirected = (.ok (), { p with origin := .resolved allowed true })) ∨
    (∃ allowed, p.origin = .resolved allowed false ∧ redirected = true ∧ zones &&& publicBit = 0 ∧
      zones &&& ~~~allowed = 0 ∧ (zones &&& benchmarkBit ≠ 0 → host = p.originalHost) ∧
      p.decide host zones redirected = (.ok (), p)) := by
  unfold decide
  cases ho : p.origin with
  | opaqueProxy => exact .inl rfl
  | unresolved =>
    cases redirected with
    | true => exact .inl rfl
    | false => exact .inr (.inl ⟨rfl, rfl, rfl⟩)
  | resolved allowed hop =>
    cases redirected with
    | false =>
      simp only [Bool.not_false, if_true]
      split_ifs
      · exact .inr (.inr (.inl ⟨allowed, hop, rfl, trivial, rfl⟩))
      · exact .inl rfl
    | true =>
      simp only [Bool.not_true, Bool.false_eq_true, if_false]
      by_cases hpub : zones = publicBit
      · rw [if_pos hpub]
        exact .inr (.inr (.inr (.inl ⟨allowed, hop, rfl, trivial, hpub, rfl⟩)))
      rw [if_neg hpub]
      by_cases hmix : zones &&& publicBit = 0
      · rw [if_neg (not_not.2 hmix)]
        cases hop with
        | true => exact .inl (if_pos rfl)
        | false =>
          rw [if_neg Bool.false_ne_true]
          by_cases hin : zones &&& ~~~allowed = 0
          · rw [if_neg (not_not.2 hin)]
            by_cases hhost : zones &&& benchmarkBit ≠ 0 ∧ host ≠ p.originalHost
            · exact .inl (if_pos hhost)
            · rw [if_neg hhost]
              have hsame : zones &&& benchmarkBit ≠ 0 → host = p.originalHost := fun hb =>
                by_contra fun hne => hhost ⟨hb, hne⟩
              exact .inr (.inr (.inr (.inr ⟨allowed, rfl, trivial, hmix, hin, hsame, rfl⟩)))
          · exact .inl (if_pos hin)
      · exact .inl (if_pos hmix)

/-- A refused answer leaves the policy as it was; an accepted one was decided on by its zones. -/
theorem validate_cases (p : DestinationPolicy) (host : Text) (addrs : List SocketAddr) (redirected : Bool) :
    (∃ e, p.validate host addrs redirected = (.error e, p)) ∨
    ∃ zones, zonesFrom 0 addrs = .ok zones ∧
      p.validate host addrs redirected = p.decide (hostKey host) zones redirected ∧
      (p.decide (hostKey host) zones redirected).1 = .ok () := by
  unfold validate
  cases hz : zonesFrom 0 addrs with
  | error e => exact .inl ⟨e, rfl⟩
  | ok zones =>
    simp only
    by_cases h0 : zones = 0
    · rw [if_pos h0]
      exact .inl ⟨_, rfl⟩
    · rw [if_neg h0]
      rcases decide_cases p (hostKey host) zones redirected with hm | ⟨-, -, h⟩ | ⟨_, _, -, -, h⟩ |
        ⟨_, _, -, -, -, h⟩ | ⟨_, -, -, -, -, -, h⟩
      · exact .inl ⟨_, hm⟩
      all_goals exact .inr ⟨zones, rfl, rfl, by rw [h]⟩

end DestinationPolicy

/-! ## Runs -/

/-- A call on the policy: the check of an answer, or an attempt. -/
inductive Call where
  | validate (host : Text) (addrs : List SocketAddr) (redirected : Bool)
  | pin (t : Attempt)

/-- A destination as it was resolved. -/
structure Hop where
  host : Text
  addrs : List SocketAddr
  redirected : Bool

/-- The answer that a call asks about; a proxied attempt and one that resolves to nothing have none. -/
def Call.hop : Call → Option Hop
  | .validate host addrs redirected => some ⟨host, addrs, redirected⟩
  | .pin t =>
    match t.proxy, t.resolution with
    | none, .ok addrs => some ⟨t.host, addrs, t.redirected⟩
    | _, _ => none

def Call.proxied : Call → Bool
  | .validate _ _ _ => false
  | .pin t => t.proxy.isSome

section Runs
variable (parseIp : Text → Option IpAddr)

namespace DestinationPolicy

def call (p : DestinationPolicy) : Call → Verdict
  | .validate host addrs redirected => p.validate host addrs redirected
  | .pin t => p.pin parseIp t

def run (p : DestinationPolicy) (calls : List Call) : DestinationPolicy :=
  calls.foldl (fun p c => (p.call parseIp c).2) p

def Accepts (p : DestinationPolicy) (c : Call) : Prop := (p.call parseIp c).1 = .ok ()

instance (p : DestinationPolicy) (c : Call) : Decidable (p.Accepts parseIp c) :=
  inferInstanceAs (Decidable (_ = _))

/-- The accepted hops of a run, in order. -/
def accepted (p : DestinationPolicy) : List Call → List Hop
  | [] => []
  | c :: calls =>
    (if p.Accepts parseIp c then c.hop.toList else []) ++ (p.call parseIp c).2.accepted calls

/-- An attempt is refused, leaves an opaque origin, or is the check of what it resolves to. -/
theorem pin_cases (p : DestinationPolicy) (t : Attempt) :
    (∃ e, p.pin parseIp t = (.error e, p)) ∨
    (t.proxy.isSome ∧ p.pin parseIp t = (.ok (), { p with origin := .opaqueProxy })) ∨
    ∃ addrs, t.proxy = none ∧ t.resolution = .ok addrs ∧ p.pin parseIp t = p.validate t.host addrs t.redirected := by
  unfold pin
  by_cases hc : t.canceled = true
  · exact .inl ⟨_, if_pos hc⟩
  by_cases he : t.expired = true
  · exact .inl ⟨_, (if_neg hc).trans (if_pos he)⟩
  rw [if_neg hc, if_neg he]
  cases t.proxy with
  | some hop =>
    simp only
    split_ifs
    · exact .inl ⟨_, rfl⟩
    · exact .inl ⟨_, rfl⟩
    · exact .inl ⟨_, rfl⟩
    · exact .inr (.inl ⟨rfl, rfl⟩)
  | none =>
    simp only
    split_ifs
    · exact .inl ⟨_, rfl⟩
    cases t.resolution with
    | error e => exact .inl ⟨e, rfl⟩
    | ok addrs => exact .inr (.inr ⟨addrs, trivial, rfl, rfl⟩)

/-- What a call does to the policy. -/
theorem call_cases (p : DestinationPolicy) (c : Call) :
    (∃ e, p.call parseIp c = (.error e, p)) ∨
    (c.proxied = true ∧ c.hop = none ∧ p.call parseIp c = (.ok (), { p with origin := .opaqueProxy })) ∨
    ∃ h zones, c.hop = some h ∧ c.proxied = false ∧ zonesFrom 0 h.addrs = .ok zones ∧
      p.call parseIp c = p.decide (hostKey h.host) zones h.redirected ∧ p.Accepts parseIp c := by
  have hcheck : ∀ (h : Hop), c.hop = some h → c.proxied = false →
      p.call parseIp c = p.validate h.host h.addrs h.redirected →
      (∃ e, p.call parseIp c = (.error e, p)) ∨
      ∃ h zones, c.hop = some h ∧ c.proxied = false ∧ zonesFrom 0 h.addrs = .ok zones ∧
        p.call parseIp c = p.decide (hostKey h.host) zones h.redirected ∧ p.Accepts parseIp c := by
    intro h hh hp hcall
    unfold Accepts
    rw [hcall]
    rcases p.validate_cases h.host h.addrs h.redirected with he | ⟨zones, hz, hv, hok⟩
    · exact .inl he
    · exact .inr ⟨h, zones, hh, hp, hz, hv, by rw [hv, hok]⟩
  cases c with
  | validate host addrs redirected => exact (hcheck ⟨host, addrs, redirected⟩ rfl rfl rfl).imp_right .inr
  | pin t =>
    rcases p.pin_cases parseIp t with he | ⟨hp, h⟩ | ⟨addrs, hp, hr, h⟩
    · exact .inl he
    · refine .inr (.inl ⟨hp, ?_, h⟩)
      obtain ⟨hop, hhop⟩ := Option.isSome_iff_exists.1 hp
      unfold Call.hop
      simp only [hhop]
    · refine (hcheck ⟨t.host, addrs, t.redirected⟩ ?_ ?_ h).imp_right .inr
      · unfold Call.hop
        simp only [hp, hr]
      · show t.proxy.isSome = false
        rw [hp]
        rfl

/-- The policy against the hops accepted before. -/
def Tracks (p : DestinationPolicy) (hist : List Hop) : Prop :=
  match p.origin with
  | .unresolved => hist = []
  | .resolved zones publicHop => ∃ first rest, hist = first :: rest ∧ first.redirected = false ∧
      zonesFrom 0 first.addrs = .ok zones ∧ p.originalHost = hostKey first.host ∧
      (publicHop = true ↔ ∃ h ∈ hist, Hits h.addrs .publicZone)
  | .opaqueProxy => True

/-- What an accepted redirect is, after the hops `hist`. -/
structure Authorized (hist : List Hop) (h : Hop) (first : Hop) : Prop where
  original : hist.head? = some first
  not_redirected : first.redirected = false
  zones : (∀ a ∈ h.addrs, zone a.ip = some .publicZone) ∨
    (∀ a ∈ h.addrs, ∃ z, zone a.ip = some z ∧ Hits first.addrs z) ∧ ∀ g ∈ hist, ¬Hits g.addrs .publicZone
  host : Hits h.addrs .benchmark → hostKey h.host = hostKey first.host

theorem Tracks.call {p : DestinationPolicy} {hist : List Hop} (ht : p.Tracks hist) (c : Call) :
    ((p.call parseIp c).2).Tracks (hist ++ if p.Accepts parseIp c then c.hop.toList else []) := by
  rcases p.call_cases parseIp c with ⟨e, he⟩ | ⟨-, -, h⟩ | ⟨h, zones, hh, -, hz, hd, hok⟩
  · have hno : ¬p.Accepts parseIp c := by
      unfold Accepts
      rw [he]
      exact nofun
    rw [if_neg hno, List.append_nil, he]
    exact ht
  · rw [h]
    trivial
  rw [if_pos hok, hh, hd]
  unfold Accepts at hok
  rw [hd] at hok
  unfold Tracks at ht
  rcases p.decide_cases (hostKey h.host) zones h.redirected with hm | ⟨ho, hr, hm⟩ | ⟨allowed, hop, ho, hr, hm⟩ |
    ⟨allowed, hop, ho, hr, hpub, hm⟩ | ⟨allowed, ho, hr, hpub, hin, hhost, hm⟩
  · rw [hm] at hok
    cases hok
  all_goals
    rw [hm]
    rw [ho] at ht
  · subst ht
    refine ⟨h, [], rfl, hr, hz, rfl, ?_⟩
    show Decidable.decide (zones &&& publicBit ≠ 0) = true ↔ _
    rw [decide_eq_true_iff, publicBit, hits_iff hz]
    simp
  · obtain ⟨first, rest, rfl, hf, hfz, hhost, hlatch⟩ := ht
    refine ⟨first, rest ++ [h], rfl, hf, hfz, hhost, ?_⟩
    show (hop || Decidable.decide (zones &&& publicBit ≠ 0)) = true ↔ _
    rw [Bool.or_eq_true, hlatch, decide_eq_true_iff, publicBit, hits_iff hz]
    simp [or_assoc, or_and_right, exists_or]
  · obtain ⟨first, rest, rfl, hf, hfz, hhost, hlatch⟩ := ht
    refine ⟨first, rest ++ [h], rfl, hf, hfz, hhost, iff_of_true rfl ⟨h, by simp, ?_⟩⟩
    rw [← hits_iff hz, hpub]
    decide
  · obtain ⟨first, rest, rfl, hf, hfz, horig, hlatch⟩ := ht
    unfold Tracks
    rw [ho]
    refine ⟨first, rest ++ [h], rfl, hf, hfz, horig, hlatch.trans ?_⟩
    have hno : ¬Hits h.addrs .publicZone := by
      rw [← hits_iff hz, not_not]
      exact hpub
    simp [or_and_right, exists_or, hno]

theorem Tracks.authorized {p : DestinationPolicy} {hist : List Hop} (ht : p.Tracks hist) {c : Call} {h : Hop}
    (hc : c.hop = some h) (ha : p.Accepts parseIp c) :
    (∀ a ∈ h.addrs, (zone a.ip).isSome) ∧ (h.redirected = true → ∃ first, Authorized hist h first) := by
  rcases p.call_cases parseIp c with ⟨e, he⟩ | ⟨-, hno, -⟩ | ⟨h', zones, hh, -, hz, hd, -⟩
  · unfold Accepts at ha
    rw [he] at ha
    cases ha
  · exact absurd (hc.symm.trans hno) nofun
  obtain rfl : h = h' := Option.some.inj (hc.symm.trans hh)
  have hsome := (zonesFrom_ok hz).1
  refine ⟨hsome, fun hred => ?_⟩
  unfold Accepts at ha
  rw [hd] at ha
  unfold Tracks at ht
  rcases p.decide_cases (hostKey h.host) zones h.redirected with hm | ⟨-, hr, -⟩ | ⟨_, _, -, hr, -⟩ |
    ⟨allowed, hop, ho, -, hpub, -⟩ | ⟨allowed, ho, -, hpub, hin, hhost, -⟩
  · rw [hm] at ha
    cases ha
  · exact absurd (hred.symm.trans hr) (by decide)
  · exact absurd (hred.symm.trans hr) (by decide)
  all_goals
    rw [ho] at ht
    obtain ⟨first, rest, rfl, hf, hfz, horig, hlatch⟩ := ht
  · have honly : ∀ z, Hits h.addrs z → z = .publicZone := fun z hhit => by
      rw [← zones_iff hz, hpub] at hhit
      exact (getLsbD_bit .publicZone z).1 hhit
    refine ⟨first, rfl, hf, .inl fun a hmem => ?_, fun hb => absurd (honly _ hb) (by decide)⟩
    obtain ⟨z, hza⟩ := Option.isSome_iff_exists.1 (hsome a hmem)
    rw [hza, honly z ⟨a, hmem, hza⟩]
  · refine ⟨first, rfl, hf, .inr ⟨fun a hmem => ?_, fun g hg hhit => ?_⟩, fun hb => ?_⟩
    · obtain ⟨z, hza⟩ := Option.isSome_iff_exists.1 (hsome a hmem)
      have hbit := (zones_iff hz z).2 ⟨a, hmem, hza⟩
      exact ⟨z, hza, (zones_iff hfz z).1 (and_not_eq_zero hin z.index_lt hbit)⟩
    · exact Bool.false_ne_true (hlatch.2 ⟨g, hg, hhit⟩)
    · rw [← horig]
      exact hhost ((hits_iff hz .benchmark).2 hb)

theorem run_append (p : DestinationPolicy) (calls more : List Call) :
    p.run parseIp (calls ++ more) = (p.run parseIp calls).run parseIp more := List.foldl_append

theorem Tracks.run {p : DestinationPolicy} {hist : List Hop} (ht : p.Tracks hist) (calls : List Call) :
    (p.run parseIp calls).Tracks (hist ++ p.accepted parseIp calls) := by
  induction calls generalizing p hist with
  | nil =>
    unfold accepted
    rw [List.append_nil]
    exact ht
  | cons c calls ih =>
    unfold accepted
    rw [← List.append_assoc]
    exact ih (ht.call parseIp c)

/-- The granted zones, once there are some, are only ever given up to a proxy. -/
theorem call_resolved {p : DestinationPolicy} {zones : BitVec 8} {hop : Bool} (ho : p.origin = .resolved zones hop)
    (c : Call) : (∃ hop', (p.call parseIp c).2.origin = .resolved zones hop') ∨
      c.proxied = true ∧ (p.call parseIp c).2.origin = .opaqueProxy := by
  rcases p.call_cases parseIp c with ⟨e, he⟩ | ⟨hp, -, h⟩ | ⟨h, zones', -, -, -, hd, -⟩
  · exact .inl ⟨hop, by rw [he, ho]⟩
  · exact .inr ⟨hp, by rw [h]⟩
  rw [hd]
  have hsame : ∀ {allowed : BitVec 8} {hop' : Bool}, p.origin = .resolved allowed hop' → allowed = zones := fun h' => by
    rw [ho] at h'
    cases h'
    rfl
  rcases p.decide_cases (hostKey h.host) zones' h.redirected with hm | ⟨ho', -, -⟩ | ⟨allowed, hop', ho', -, hm⟩ |
    ⟨allowed, hop', ho', -, -, hm⟩ | ⟨allowed, ho', -, -, -, -, hm⟩
  · exact .inl ⟨hop, by rw [hm]; exact ho⟩
  · exact absurd (ho.symm.trans ho') nofun
  all_goals
    rw [hm]
    obtain rfl := hsame ho'
  · exact .inl ⟨_, rfl⟩
  · exact .inl ⟨_, rfl⟩
  · exact .inl ⟨_, ho'⟩

theorem call_opaqueProxy {p : DestinationPolicy} (ho : p.origin = .opaqueProxy) (c : Call) :
    (p.call parseIp c).2.origin = .opaqueProxy ∧ (p.Accepts parseIp c → c.hop = none) := by
  unfold Accepts
  rcases p.call_cases parseIp c with ⟨e, he⟩ | ⟨-, hn, h⟩ | ⟨h, zones, -, -, -, hd, hok⟩
  · rw [he]
    exact ⟨ho, nofun⟩
  · rw [h]
    exact ⟨rfl, fun _ => hn⟩
  · unfold Accepts decide at *
    rw [hd, ho] at hok
    cases hok

theorem run_opaqueProxy {p : DestinationPolicy} (ho : p.origin = .opaqueProxy) (calls : List Call) :
    (p.run parseIp calls).origin = .opaqueProxy := by
  induction calls generalizing p with
  | nil => exact ho
  | cons c calls ih => exact ih (call_opaqueProxy parseIp ho c).1

theorem run_resolved {p : DestinationPolicy} {zones : BitVec 8} {hop : Bool} (ho : p.origin = .resolved zones hop)
    (calls : List Call) : (∃ hop', (p.run parseIp calls).origin = .resolved zones hop') ∨
      (∃ c ∈ calls, c.proxied = true) ∧ (p.run parseIp calls).origin = .opaqueProxy := by
  induction calls generalizing p hop with
  | nil => exact .inl ⟨hop, ho⟩
  | cons c calls ih =>
    rcases call_resolved parseIp ho c with ⟨hop', h⟩ | ⟨hp, h⟩
    · exact (ih h).imp_right fun ⟨⟨d, hd, hdp⟩, h'⟩ => ⟨⟨d, List.mem_cons_of_mem c hd, hdp⟩, h'⟩
    · exact .inr ⟨⟨c, List.mem_cons_self, hp⟩, run_opaqueProxy parseIp h calls⟩

/-- A call that is refused leaves the policy as it was. -/
theorem call_refused {p : DestinationPolicy} {c : Call} (h : ¬p.Accepts parseIp c) : (p.call parseIp c).2 = p := by
  unfold Accepts at h
  rcases p.call_cases parseIp c with ⟨e, he⟩ | ⟨-, -, h'⟩ | ⟨_, _, -, -, -, -, hok⟩
  · rw [he]
  · rw [h'] at h
    exact absurd rfl h
  · exact absurd hok h

/-- **What holds of every run of calls on one policy**, `hist` being the hops it accepted. -/
theorem run_authorized (calls : List Call) :
    -- the granted zones never change, but for a proxied attempt that gives them up
    (∀ zones hop, (run parseIp {} calls).origin = .resolved zones hop → ∀ more,
      (∃ hop', (run parseIp {} (calls ++ more)).origin = .resolved zones hop') ∨
      (∃ c ∈ more, c.proxied = true) ∧ (run parseIp {} (calls ++ more)).origin = .opaqueProxy) ∧
    -- every accepted answer is permitted unicast, and every accepted redirect is authorized
    (∀ c h, c.hop = some h → (run parseIp {} calls).Accepts parseIp c →
      (∀ a ∈ h.addrs, (zone a.ip).isSome) ∧
      (h.redirected = true → ∃ first, Authorized (accepted parseIp {} calls) h first)) ∧
    -- a refused call changes nothing
    (∀ c, ¬(run parseIp {} calls).Accepts parseIp c →
      ((run parseIp {} calls).call parseIp c).2 = run parseIp {} calls) ∧
    -- no resolved hop, redirected or not, follows an opaque proxy
    ((run parseIp {} calls).origin = .opaqueProxy → ∀ more c h, c.hop = some h →
      ¬(run parseIp {} (calls ++ more)).Accepts parseIp c) := by
  have hnew : Tracks {} [] := rfl
  have htracks : (run parseIp {} calls).Tracks (accepted parseIp {} calls) := hnew.run parseIp calls
  refine ⟨fun zones hop ho more => ?_, fun c h hc ha => htracks.authorized parseIp hc ha, fun c => call_refused parseIp,
    fun ho more c h hc ha => ?_⟩
  · rw [run_append]
    exact run_resolved parseIp ho more
  · rw [run_append] at ha
    have hopaque := run_opaqueProxy parseIp ho more
    exact absurd (hc.symm.trans ((call_opaqueProxy parseIp hopaque c).2 ha)) nofun

end DestinationPolicy

end Runs

/-- An original at `10.0.0.1`. -/
def privateCall : Call := .validate ['h'] [⟨.v4 ⟨10, 0, 0, 1⟩, 80⟩] false

/-- A redirect to `10.0.0.2`. -/
def privateHop : Hop := ⟨['o'], [⟨.v4 ⟨10, 0, 0, 2⟩, 80⟩], true⟩

/-- A redirect to `127.0.0.1`. -/
def loopbackCall : Call := .validate ['o'] [⟨.v4 ⟨127, 0, 0, 1⟩, 80⟩] true

def proxiedCall : Call := .pin { host := ['h'], redirected := false, proxy := some {}, resolution := .ok [] }

/-- No host here is a literal address. -/
def noLiteral (_ : Text) : Option IpAddr := none

open DestinationPolicy in
theorem run_authorized_private :
    ((∃ hop', (run noLiteral {} ([privateCall] ++ [loopbackCall])).origin = .resolved 2#8 hop') ∨
      (∃ c ∈ [loopbackCall], c.proxied = true) ∧
      (run noLiteral {} ([privateCall] ++ [loopbackCall])).origin = .opaqueProxy) ∧
    (∃ first, Authorized (accepted noLiteral {} [privateCall]) privateHop first) ∧
    ((run noLiteral {} [privateCall]).call noLiteral loopbackCall).2 = run noLiteral {} [privateCall] ∧
    ¬(run noLiteral {} ([proxiedCall] ++ [])).Accepts noLiteral loopbackCall :=
  ⟨(run_authorized noLiteral [privateCall]).1 2#8 false (by decide) [loopbackCall],
    ((run_authorized noLiteral [privateCall]).2.1 (.validate privateHop.host privateHop.addrs true) privateHop rfl
      (by decide)).2 rfl,
    (run_authorized noLiteral [privateCall]).2.2.1 loopbackCall (by decide),
    (run_authorized noLiteral [proxiedCall]).2.2.2 (by decide) [] loopbackCall _ rfl⟩

end Anvil.Transport
