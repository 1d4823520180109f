import Anvil.Lib.Bytes
import Anvil.Lib.Net
import Anvil.Lib.Wire

/-!
# PROXY headers of stream connections (`anvil-transport/src/proxy_protocol.rs`)

`HeaderPlan.build` writes the header of a connection, `checkStreamHeader` reads one the way the gateway's parser does.
The text of an address (`Display` and `FromStr` of `IpAddr`) is a parameter. What is written as evidence beside the
bytes is kept as far as it is not text: the hexadecimal and redacted forms are left out.

* `build_v1_cases`, `build_v2_cases` : the bytes of a header that was built;
* `check_v1`, `check_v2` : what is read back from them, whatever stream bytes follow;
* `checkStreamHeader_build` : a built header is accepted, at its full length, with the meaning of its plan.
-/

namespace Anvil.Transport.ProxyProtocol
open Anvil.Lib

/-! ## Plans -/

inductive ProxyHeaderVersion where
  | v1
  | v2
  | raw
deriving DecidableEq

inductive ProxyCommand where
  | proxy
  | localCommand
deriving DecidableEq

inductive ProxyAddressFamily where
  | auto
  | unspec
deriving DecidableEq

inductive AddressOrigin where
  | socket
  | configured
deriving DecidableEq

structure HeaderPlan where
  version : ProxyHeaderVersion
  command : ProxyCommand
  family : ProxyAddressFamily
  /-- `none` for the local socket address. -/
  source : Option SocketAddr := none
  /-- `none` for the remote socket address. -/
  destination : Option SocketAddr := none
  tlvs : List (UInt8 × List UInt8) := []
  raw : List UInt8 := []

structure ProxyHeaderObservation where
  command : Option ProxyCommand := none
  family : String := ""
  source : Option SocketAddr := none
  sourceOrigin : Option AddressOrigin := none
  destination : Option SocketAddr := none
  destinationOrigin : Option AddressOrigin := none
  length : Nat := 0
  wellFormed : Bool := true
  problem : Option String := none
deriving DecidableEq

structure BuiltHeader where
  bytes : List UInt8
  observation : ProxyHeaderObservation
deriving DecidableEq

def v2Sig : List UInt8 := [0x0D, 0x0A, 0x0D, 0x0A, 0x00, 0x0D, 0x0A, 0x51, 0x55, 0x49, 0x54, 0x0A]

def v1MaxLine : Nat := 107

def v2MaxAddrLen : Nat := 512

def ascii (s : String) : List UInt8 := s.toList.map fun c => UInt8.ofNat c.toNat

def pick (configured socket : Option SocketAddr) (which : String) : Except String (SocketAddr × AddressOrigin) :=
  match configured, socket with
  | some a, _ => .ok (a, .configured)
  | none, some a => .ok (a, .socket)
  | none, none => .error ("the real " ++ which ++ " socket address is not known; set the PROXY header " ++ which ++
      " explicitly")

def toV6 : IpAddr → Ipv6Addr
  | .v4 ip => ip.toIpv6Mapped
  | .v6 ip => ip

/-! ## What a parser makes of a header -/

inductive StreamHeader where
  | forwarded (v2 : Bool) (src dst : SocketAddr) (headerLen : Nat)
  | noAddress (v2 localCommand : Bool) (headerLen : Nat)
deriving DecidableEq

def StreamHeader.headerLen : StreamHeader → Nat
  | .forwarded _ _ _ n => n
  | .noAddress _ _ n => n

inductive HeaderError where
  | noCrlfWithin109
  | notTerminated
  | notUtf8
  | noKeyword
  | noProtocol
  | unsupportedProtocol (proto : List UInt8)
  | missing (name : String)
  | invalidPort (which : String)
  | invalidIp (which : String) (text : List UInt8)
  | wrongFamily (proto : List UInt8)
  | truncatedHeader (length : Nat)
  | invalidSignature
  | unsupportedVersion (version : UInt8)
  | blockTooLong (addrLen : Nat)
  | truncatedBlock (addrLen present : Nat)
  | blockTooShort (family : String) (length : Nat)
  | unsupportedFamily (family : UInt8)
  | unsupportedCommand (command : UInt8)
  | emptyHeader
  | noSignature
deriving DecidableEq

section Text
variable (display : IpAddr → List UInt8) (parseIp : List UInt8 → Option IpAddr)

def checkV1Line (line : List UInt8) (headerLen : Nat) : Except HeaderError StreamHeader :=
  match splitAsciiWhitespace line with
  | [] => .error .noKeyword
  | keyword :: parts =>
    if keyword ≠ ascii "PROXY" then .error .noKeyword
    else
      match parts with
      | [] => .error .noProtocol
      | proto :: fields =>
        if proto = ascii "UNKNOWN" then .ok (.noAddress false false headerLen)
        else if proto ≠ ascii "TCP4" ∧ proto ≠ ascii "TCP6" then .error (.unsupportedProtocol proto)
        else
          match fields with
          | [] => .error (.missing "source address")
          | [_] => .error (.missing "destination address")
          | [_, _] => .error (.missing "source port")
          | [_, _, _] => .error (.missing "destination port")
          | s :: d :: sp :: dp :: _ =>
            match parseU16 sp with
            | none => .error (.invalidPort "source")
            | some sp =>
              match parseU16 dp with
              | none => .error (.invalidPort "destination")
              | some dp =>
                match parseIp s with
                | none => .error (.invalidIp "source" s)
                | some src =>
                  match parseIp d with
                  | none => .error (.invalidIp "destination" d)
                  | some dst =>
                    let v4 : Bool := proto = ascii "TCP4"
                    if v4 ≠ src.isIpv4 ∨ v4 ≠ dst.isIpv4 then .error (.wrongFamily proto)
                    else .ok (.forwarded false ⟨src, sp⟩ ⟨dst, dp⟩ headerLen)

/-- The address block of a PROXY command. -/
def checkBlock (fam : UInt8) (block : List UInt8) (headerLen : Nat) : Except HeaderError StreamHeader :=
  let transport := fam &&& 0x0F
  let family := fam >>> 4
  let at' := fun i => block.getD i 0
  if family = 0x00 ∨ family = 0x03 then .ok (.noAddress true false headerLen)
  else if family = 0x01 then
    if block.length < 12 then .error (.blockTooShort "AF_INET" block.length)
    else if transport ≠ 0x01 then .ok (.noAddress true false headerLen)
    else
      .ok (.forwarded true
        ⟨.v4 ⟨at' 0, at' 1, at' 2, at' 3⟩, fromBe (at' 8) (at' 9)⟩
        ⟨.v4 ⟨at' 4, at' 5, at' 6, at' 7⟩, fromBe (at' 10) (at' 11)⟩ headerLen)
  else if family = 0x02 then
    if h : block.length < 36 then .error (.blockTooShort "AF_INET6" block.length)
    else if transport ≠ 0x01 then .ok (.noAddress true false headerLen)
    else
      .ok (.forwarded true
        ⟨.v6 ⟨block.take 16, by rw [List.length_take]; omega⟩, fromBe (at' 32) (at' 33)⟩
        ⟨.v6 ⟨(block.drop 16).take 16, by rw [List.length_take, List.length_drop]; omega⟩, fromBe (at' 34) (at' 35)⟩
        headerLen)
  else .error (.unsupportedFamily family)

def checkV2 (bytes : List UInt8) : Except HeaderError StreamHeader :=
  if bytes.length < 16 then .error (.truncatedHeader bytes.length)
  else if bytes.take 12 ≠ v2Sig then .error .invalidSignature
  else
    let verCmd := bytes.getD 12 0
    let fam := bytes.getD 13 0
    let addrLen := (fromBe (bytes.getD 14 0) (bytes.getD 15 0)).toNat
    if verCmd >>> 4 ≠ 2 then .error (.unsupportedVersion (verCmd >>> 4))
    else if v2MaxAddrLen < addrLen then .error (.blockTooLong addrLen)
    else if bytes.length < 16 + addrLen then .error (.truncatedBlock addrLen (bytes.length - 16))
    else
      let headerLen := 16 + addrLen
      let block := (bytes.drop 16).take addrLen
      let command := verCmd &&& 0x0F
      if command = 0x00 then .ok (.noAddress true true headerLen)
      else if command = 0x01 then checkBlock fam block headerLen
      else .error (.unsupportedCommand command)

def checkStreamHeader (bytes : List UInt8) : Except HeaderError StreamHeader :=
  if ascii "PROXY " <+: bytes then
    match crlfAt (bytes.take (min bytes.length 109)) with
    | none => .error (if 109 ≤ bytes.length then .noCrlfWithin109 else .notTerminated)
    | some n => if !isUtf8 (bytes.take n) then .error .notUtf8 else checkV1Line parseIp (bytes.take n) (n + 2)
  else if 6 ≤ bytes.length ∧ bytes.take 6 = v2Sig.take 6 then checkV2 bytes
  else if bytes = [] then .error .emptyHeader
  else .error .noSignature

/-! ## Building -/

namespace HeaderPlan

def buildV1 (p : HeaderPlan) (localAddr remote : Option SocketAddr) : Except String BuiltHeader :=
  let finish (line : List UInt8) (o : ProxyHeaderObservation) : Except String BuiltHeader :=
    if v1MaxLine < line.length then
      .error ("the PROXY v1 line is " ++ toString line.length ++ " bytes; the limit is " ++ toString v1MaxLine ++
        " before CRLF")
    else
      let bytes := line ++ [0x0D, 0x0A]
      .ok ⟨bytes, { o with length := bytes.length }⟩
  if p.command = .localCommand then
    .error "PROXY v1 has no LOCAL command; use v2, or v1 with the UNKNOWN family"
  else if p.family = .unspec then finish (ascii "PROXY UNKNOWN") { family := "UNKNOWN" }
  else
    match pick p.source localAddr "source" with
    | .error e => .error e
    | .ok (src, so) =>
      match pick p.destination remote "destination" with
      | .error e => .error e
      | .ok (dst, dor) =>
        let src := canonical src
        let dst := canonical dst
        let proto : Option String :=
          match src.ip, dst.ip with
          | .v4 _, .v4 _ => some "TCP4"
          | .v6 _, .v6 _ => some "TCP6"
          | _, _ => none
        match proto with
        | none => .error "PROXY v1 needs both addresses in one family"
        | some proto =>
          finish (ascii "PROXY " ++ ascii proto ++ 0x20 :: (display src.ip ++ 0x20 :: (display dst.ip ++
              0x20 :: (decimalBytes src.port ++ 0x20 :: decimalBytes dst.port))))
            { family := proto, source := some src, sourceOrigin := some so, destination := some dst,
              destinationOrigin := some dor }

/-- The TLVs as they are written. -/
def tlvBytes : List (UInt8 × List UInt8) → Except String (List UInt8)
  | [] => .ok []
  | (t, v) :: more =>
    if 65535 < v.length then .error ("TLV " ++ toString t ++ " is " ++ toString v.length ++
        " bytes; a TLV value holds at most 65535")
    else (tlvBytes more).map fun rest => t :: (toBe (UInt16.ofNat v.length) ++ v ++ rest)

/-- The command and family bytes and the fixed addresses. -/
def fixedV2 (p : HeaderPlan) (localAddr remote : Option SocketAddr) :
    Except String (UInt8 × UInt8 × List UInt8 × ProxyHeaderObservation) :=
  match p.command, p.family with
  | .localCommand, _ => .ok (0x20, 0x00, [], { command := some .localCommand, family := "AF_UNSPEC" })
  | .proxy, .unspec => .ok (0x21, 0x00, [], { command := some .proxy, family := "AF_UNSPEC" })
  | .proxy, .auto =>
    match pick p.source localAddr "source" with
    | .error e => .error e
    | .ok (src, so) =>
      match pick p.destination remote "destination" with
      | .error e => .error e
      | .ok (dst, dor) =>
        let src := canonical src
        let dst := canonical dst
        let o (family : String) : ProxyHeaderObservation :=
          { command := some .proxy, family, source := some src, sourceOrigin := some so, destination := some dst,
            destinationOrigin := some dor }
        match src.ip, dst.ip with
        | .v4 s, .v4 d => .ok (0x21, 0x11, s.octets ++ d.octets ++ toBe src.port ++ toBe dst.port, o "AF_INET")
        | s, d =>
          .ok (0x21, 0x21, (toV6 s).octets ++ (toV6 d).octets ++ toBe src.port ++ toBe dst.port, o "AF_INET6")

def buildV2 (p : HeaderPlan) (localAddr remote : Option SocketAddr) : Except String BuiltHeader :=
  match p.fixedV2 localAddr remote with
  | .error e => .error e
  | .ok (verCmd, fam, fixed, o) =>
    match tlvBytes p.tlvs with
    | .error e => .error e
    | .ok tlvs =>
      let addrLen := fixed.length + tlvs.length
      if 65535 < addrLen then
        .error ("the address block is " ++ toString addrLen ++ " bytes; PROXY v2 allows at most 65535")
      else
        let problem :=
          if v2MaxAddrLen < addrLen then
            some ("the address block is " ++ toString addrLen ++ " bytes, above the " ++ toString v2MaxAddrLen ++
              "-byte cap some receivers (Ferrum Edge) enforce")
          else none
        let bytes := v2Sig ++ verCmd :: fam :: (toBe (UInt16.ofNat addrLen) ++ fixed ++ tlvs)
        .ok ⟨bytes, { o with length := bytes.length, problem }⟩

/-- `build_raw`, with `describe_stream_header`. -/
def buildRaw (p : HeaderPlan) (message : HeaderError → String) : BuiltHeader :=
  let o : ProxyHeaderObservation :=
    match checkStreamHeader parseIp p.raw with
    | .error e => { family := "unparsed", wellFormed := false, problem := some (message e) }
    | .ok h =>
      let problem :=
        if h.headerLen < p.raw.length then
          some (toString (p.raw.length - h.headerLen) ++ " byte(s) after the header are sent as stream data")
        else none
      match h with
      | .forwarded v2 src dst _ =>
        { command := if v2 then some .proxy else none
          family :=
            match v2, src.ip.isIpv4 with
            | false, true => "TCP4"
            | false, false => "TCP6"
            | true, true => "AF_INET"
            | true, false => "AF_INET6"
          source := some src, sourceOrigin := some .configured
          destination := some dst, destinationOrigin := some .configured, problem }
      | .noAddress v2 localCommand _ =>
        { command := if v2 then some (if localCommand then .localCommand else .proxy) else none
          family := if v2 then "AF_UNSPEC" else "UNKNOWN"
          problem }
  ⟨p.raw, { o with length := p.raw.length }⟩

def build (p : HeaderPlan) (message : HeaderError → String) (localAddr remote : Option SocketAddr) :
    Except String BuiltHeader :=
  match p.version with
  | .raw => .ok (p.buildRaw parseIp message)
  | .v1 => p.buildV1 display localAddr remote
  | .v2 => p.buildV2 localAddr remote

end HeaderPlan

end Text

/-! ## Reading a line back -/

/-- A field of a line: not empty, and printable. -/
structure Word (w : List UInt8) : Prop where
  ne_nil : w ≠ []
  printable : ∀ c ∈ w, 0x21 ≤ c ∧ c < 0x7F

theorem Word.not_space {w : List UInt8} (h : Word w) : ∀ c ∈ w, isAsciiSpace c = false := by
  intro c hc
  have hne : ∀ d : UInt8, d < 0x21 → decide (c = d) = false := fun d hd => decide_eq_false fun he => by
    have := (h.printable c hc).1
    rw [he, UInt8.le_iff_toNat_le] at this
    exact absurd (UInt8.lt_iff_toNat_lt.1 hd) (by omega)
  unfold isAsciiSpace
  rw [hne _ (by decide), hne _ (by decide), hne _ (by decide), hne _ (by decide), hne _ (by decide)]
  rfl

theorem word_decimalBytes (n : UInt16) : Word (decimalBytes n) := by
  obtain ⟨hne, hd⟩ := decimalBytes_digits n
  refine ⟨hne, fun c hc => ?_⟩
  have h := hd c hc
  unfold isDigit at h
  rw [Bool.and_eq_true, decide_eq_true_iff, decide_eq_true_iff, UInt8.le_iff_toNat_le, UInt8.le_iff_toNat_le] at h
  rw [UInt8.le_iff_toNat_le, UInt8.lt_iff_toNat_lt]
  exact ⟨le_trans (by decide) h.1, lt_of_le_of_lt h.2 (by decide)⟩

/-- The words of a line, with a space between them. -/
def joined : List UInt8 → List (List UInt8) → List UInt8
  | w, [] => w
  | w, v :: more => w ++ 0x20 :: joined v more

theorem splitAsciiWhitespace_joined {w : List UInt8} {more : List (List UInt8)} (hw : Word w)
    (hm : ∀ v ∈ more, Word v) : splitAsciiWhitespace (joined w more) = w :: more := by
  induction more generalizing w with
  | nil => exact splitAsciiWhitespace_word hw.not_space hw.ne_nil
  | cons v more ih =>
    rw [joined, splitAsciiWhitespace_cons hw.not_space hw.ne_nil,
      ih (hm v List.mem_cons_self) fun u hu => hm u (List.mem_cons_of_mem v hu)]

theorem joined_printable {w : List UInt8} {more : List (List UInt8)} (hw : Word w) (hm : ∀ v ∈ more, Word v) :
    ∀ c ∈ joined w more, 0x20 ≤ c ∧ c < 0x7F := by
  have hword : ∀ {v : List UInt8}, Word v → ∀ c ∈ v, 0x20 ≤ c ∧ c < 0x7F := fun hv c hc => by
    obtain ⟨h₁, h₂⟩ := hv.printable c hc
    exact ⟨UInt8.le_trans (by decide) h₁, h₂⟩
  induction more generalizing w with
  | nil => exact hword hw
  | cons v more ih =>
    intro c hc
    unfold joined at hc
    rcases List.mem_append.1 hc with hc | hc
    · exact hword hw c hc
    rcases List.mem_cons.1 hc with rfl | hc
    · decide
    · exact ih (hm v List.mem_cons_self) (fun u hu => hm u (List.mem_cons_of_mem v hu)) c hc

section Check
variable (parseIp : List UInt8 → Option IpAddr)

/-- A terminated line within the limit is read up to its end, whatever follows. -/
theorem checkStreamHeader_line {line : List UInt8} (hstart : ascii "PROXY " <+: line)
    (hprint : ∀ c ∈ line, 0x20 ≤ c ∧ c < 0x7F) (hlen : line.length ≤ v1MaxLine) (rest : List UInt8) :
    checkStreamHeader parseIp (line ++ [0x0D, 0x0A] ++ rest) = checkV1Line parseIp line (line.length + 2) := by
  have hcr : (0x0D : UInt8) ∉ line := fun h => absurd (hprint _ h).1 (by decide)
  have hascii : ∀ c ∈ line, c < 0x80 := fun c hc => UInt8.lt_trans (hprint c hc).2 (by decide)
  unfold v1MaxLine at hlen
  have hbytes : line ++ [0x0D, 0x0A] ++ rest = line ++ 0x0D :: 0x0A :: rest := by
    rw [List.append_assoc]
    rfl
  obtain ⟨k, hk⟩ : ∃ k, min (line ++ 0x0D :: 0x0A :: rest).length 109 = line.length + (k + 2) := by
    rw [List.length_append, List.length_cons, List.length_cons]
    exact ⟨min (line.length + (rest.length + 1 + 1)) 109 - line.length - 2, by omega⟩
  unfold checkStreamHeader
  rw [hbytes, if_pos (hstart.trans (List.prefix_append _ _)), hk, List.take_length_add_append]
  show (match crlfAt (line ++ 0x0D :: 0x0A :: rest.take k) with
    | none => _
    | some n => _) = _
  rw [crlfAt_line hcr]
  simp only
  rw [List.take_left, isUtf8_ascii hascii]
  rfl

theorem word_keyword : Word (ascii "PROXY") := ⟨by decide, by decide⟩

theorem checkV1Line_unknown (n : Nat) :
    checkV1Line parseIp (ascii "PROXY UNKNOWN") n = .ok (.noAddress false false n) := by
  have h : splitAsciiWhitespace (ascii "PROXY UNKNOWN") = [ascii "PROXY", ascii "UNKNOWN"] := by decide
  unfold checkV1Line
  rw [h]
  rfl

/-- A line of six words whose addresses are in the family it names. -/
theorem checkV1Line_forwarded {proto s d sp dp : List UInt8} {src dst : IpAddr} {sport dport : UInt16}
    (hproto : proto = ascii "TCP4" ∧ src.isIpv4 = true ∧ dst.isIpv4 = true ∨
      proto = ascii "TCP6" ∧ src.isIpv4 = false ∧ dst.isIpv4 = false)
    (hs : Word s) (hd : Word d) (hsp : Word sp) (hdp : Word dp) (hps : parseIp s = some src)
    (hpd : parseIp d = some dst) (hpsp : parseU16 sp = some sport) (hpdp : parseU16 dp = some dport) (n : Nat) :
    checkV1Line parseIp (joined (ascii "PROXY") [proto, s, d, sp, dp]) n =
      .ok (.forwarded false ⟨src, sport⟩ ⟨dst, dport⟩ n) := by
  have hp : Word proto := by
    rcases hproto with ⟨rfl, -⟩ | ⟨rfl, -⟩ <;> exact ⟨by decide, by decide⟩
  have hsplit : splitAsciiWhitespace (joined (ascii "PROXY") [proto, s, d, sp, dp]) =
      [ascii "PROXY", proto, s, d, sp, dp] := by
    refine splitAsciiWhitespace_joined word_keyword fun v hv => ?_
    simp only [List.mem_cons, List.not_mem_nil, or_false] at hv
    rcases hv with rfl | rfl | rfl | rfl | rfl <;> assumption
  unfold checkV1Line
  rw [hsplit]
  simp only [hps, hpd, hpsp, hpdp]
  rcases hproto with ⟨rfl, h₁, h₂⟩ | ⟨rfl, h₁, h₂⟩
  · rw [h₁, h₂]
    rfl
  · rw [h₁, h₂]
    rfl

/-! ## Reading a binary header back -/

/-- The fixed part of a binary header, and what its block is read as, whatever follows. -/
theorem checkStreamHeader_v2 {verCmd fam hi lo : UInt8} {block : List UInt8}
    (hlen : (fromBe hi lo).toNat = block.length) (hmax : block.length ≤ v2MaxAddrLen) (hver : verCmd >>> 4 = 2)
    (rest : List UInt8) :
    checkStreamHeader parseIp (v2Sig ++ verCmd :: fam :: hi :: lo :: (block ++ rest)) =
      if verCmd &&& 0x0F = 0x00 then .ok (.noAddress true true (16 + block.length))
      else if verCmd &&& 0x0F = 0x01 then checkBlock fam block (16 + block.length)
      else .error (.unsupportedCommand (verCmd &&& 0x0F)) := by
  have htext : ¬ascii "PROXY " <+: v2Sig ++ verCmd :: fam :: hi :: lo :: (block ++ rest) := by
    have hhead : ascii "PROXY " = 0x50 :: ascii "ROXY " := by decide
    rw [hhead]
    rintro ⟨t, ht⟩
    have hfirst : some (0x50 : UInt8) = some 0x0D := congrArg List.head? ht
    exact absurd hfirst (by decide)
  have hlength : (v2Sig ++ verCmd :: fam :: hi :: lo :: (block ++ rest)).length = 16 + block.length + rest.length := by
    simp only [List.length_append, List.length_cons]
    show 12 + _ = _
    omega
  unfold checkStreamHeader
  rw [if_neg htext, if_pos ⟨by omega, rfl⟩]
  unfold checkV2
  have hsig : (v2Sig ++ verCmd :: fam :: hi :: lo :: (block ++ rest)).take 12 = v2Sig := List.take_left' rfl
  rw [if_neg (by omega), if_neg (not_not.2 hsig)]
  have h12 : (v2Sig ++ verCmd :: fam :: hi :: lo :: (block ++ rest)).getD 12 0 = verCmd := rfl
  have h13 : (v2Sig ++ verCmd :: fam :: hi :: lo :: (block ++ rest)).getD 13 0 = fam := rfl
  have h14 : (v2Sig ++ verCmd :: fam :: hi :: lo :: (block ++ rest)).getD 14 0 = hi := rfl
  have h15 : (v2Sig ++ verCmd :: fam :: hi :: lo :: (block ++ rest)).getD 15 0 = lo := rfl
  have hdrop : (v2Sig ++ verCmd :: fam :: hi :: lo :: (block ++ rest)).drop 16 = block ++ rest := rfl
  simp only [h12, h13, h14, h15, hdrop, hlen, List.take_left]
  rw [if_neg (not_not.2 hver), if_neg (by omega), if_neg (by omega)]

theorem checkBlock_inet (s d : Ipv4Addr) (sp dp : UInt16) (tlvs : List UInt8) (n : Nat) :
    checkBlock 0x11 (s.octets ++ d.octets ++ toBe sp ++ toBe dp ++ tlvs) n =
      .ok (.forwarded true ⟨.v4 s, sp⟩ ⟨.v4 d, dp⟩ n) := by
  have hlen : ¬(s.octets ++ d.octets ++ toBe sp ++ toBe dp ++ tlvs).length < 12 := by
    simp only [List.length_append]
    show ¬4 + 4 + 2 + 2 + _ < 12
    omega
  unfold checkBlock
  simp only
  rw [if_neg (by decide), if_pos (by decide), if_neg hlen, if_neg (by decide)]
  show Except.ok (StreamHeader.forwarded true
    ⟨.v4 s, fromBe (UInt8.ofNat (sp.toNat / 256)) (UInt8.ofNat (sp.toNat % 256))⟩
    ⟨.v4 d, fromBe (UInt8.ofNat (dp.toNat / 256)) (UInt8.ofNat (dp.toNat % 256))⟩ n) = _
  rw [fromBe_toBe, fromBe_toBe]

theorem checkBlock_inet6 (s d : Ipv6Addr) (sp dp : UInt16) (tlvs : List UInt8) (n : Nat) :
    checkBlock 0x21 (s.octets ++ d.octets ++ toBe sp ++ toBe dp ++ tlvs) n =
      .ok (.forwarded true ⟨.v6 s, sp⟩ ⟨.v6 d, dp⟩ n) := by
  obtain ⟨so, hs⟩ := s
  obtain ⟨od, hd⟩ := d
  have hblock : so ++ od ++ toBe sp ++ toBe dp ++ tlvs = so ++ (od ++ (toBe sp ++ (toBe dp ++ tlvs))) := by
    simp only [List.append_assoc]
  have hlen : ¬(so ++ od ++ toBe sp ++ toBe dp ++ tlvs).length < 36 := by
    simp only [List.length_append, hs, hd]
    show ¬16 + 16 + 2 + 2 + _ < 36
    omega
  have hport : ∀ i, (so ++ od ++ toBe sp ++ toBe dp ++ tlvs).getD (32 + i) 0 = (toBe sp ++ (toBe dp ++ tlvs)).getD i 0 := by
    intro i
    rw [hblock, ← List.append_assoc, List.getD_eq_getElem?_getD,
      List.getElem?_append_right (by rw [List.length_append, hs, hd]; omega), List.length_append, hs, hd,
      Nat.add_sub_cancel_left, List.getD_eq_getElem?_getD]
  have htake : (so ++ od ++ toBe sp ++ toBe dp ++ tlvs).take 16 = so := by
    rw [hblock, List.take_left' hs]
  have hdrop : ((so ++ od ++ toBe sp ++ toBe dp ++ tlvs).drop 16).take 16 = od := by
    rw [hblock, List.drop_left' hs, List.take_left' hd]
  unfold checkBlock
  simp only
  rw [if_neg (by decide), if_neg (by decide), if_pos (by decide), dif_neg hlen, if_neg (by decide)]
  rw [Except.ok.injEq, StreamHeader.forwarded.injEq, SocketAddr.mk.injEq, SocketAddr.mk.injEq, IpAddr.v6.injEq,
    IpAddr.v6.injEq, Ipv6Addr.mk.injEq, Ipv6Addr.mk.injEq]
  refine ⟨rfl, ⟨htake, ?_⟩, ⟨hdrop, ?_⟩, rfl⟩
  · rw [hport 0, hport 1]
    exact fromBe_toBe sp
  · rw [hport 2, hport 3]
    exact fromBe_toBe dp

end Check

/-! ## What is built -/

/-- The addresses that a plan describes. -/
structure Describes (p : HeaderPlan) (localAddr remote : Option SocketAddr) (src dst : SocketAddr) : Prop where
  source : p.source.or localAddr = some src
  destination : p.destination.or remote = some dst

theorem pick_ok {configured socket : Option SocketAddr} {which : String} {a : SocketAddr} {o : AddressOrigin}
    (h : pick configured socket which = .ok (a, o)) : configured.or socket = some a := by
  unfold pick at h
  cases configured with
  | some b =>
    cases h
    rfl
  | none =>
    cases socket with
    | some b =>
      cases h
      rfl
    | none => cases h

section Build
variable {p : HeaderPlan} {localAddr remote : Option SocketAddr} {built : BuiltHeader}

/-- A text header is `UNKNOWN`, or six words with the canonical addresses. -/
theorem build_v1_cases {display : IpAddr → List UInt8} (h : p.buildV1 display localAddr remote = .ok built) :
    ∃ line, line.length ≤ v1MaxLine ∧ built.bytes = line ++ [0x0D, 0x0A] ∧ p.command = .proxy ∧
      (p.family = .unspec ∧ line = ascii "PROXY UNKNOWN" ∨
        p.family = .auto ∧ ∃ src dst proto, Describes p localAddr remote src dst ∧
          (proto = ascii "TCP4" ∧ (canonical src).ip.isIpv4 = true ∧ (canonical dst).ip.isIpv4 = true ∨
            proto = ascii "TCP6" ∧ (canonical src).ip.isIpv4 = false ∧ (canonical dst).ip.isIpv4 = false) ∧
          line = joined (ascii "PROXY") [proto, display (canonical src).ip, display (canonical dst).ip,
            decimalBytes src.port, decimalBytes dst.port]) := by
  unfold HeaderPlan.buildV1 at h
  simp only at h
  have hcmd : p.command = .proxy := by
    cases hc : p.command with
    | proxy => rfl
    | localCommand =>
      rw [if_pos hc] at h
      cases h
  rw [if_neg (by rw [hcmd]; decide)] at h
  cases hf : p.family with
  | unspec =>
    rw [if_pos hf] at h
    split_ifs at h with hlen
    cases h
    exact ⟨_, Nat.not_lt.1 hlen, rfl, hcmd, .inl ⟨rfl, rfl⟩⟩
  | auto =>
    rw [if_neg (by rw [hf]; decide)] at h
    split at h
    · cases h
    next src so hs =>
    split at h
    · cases h
    next dst dor hd =>
    have hdesc : Describes p localAddr remote src dst := ⟨pick_ok hs, pick_ok hd⟩
    have hsp : (canonical src).port = src.port := rfl
    have hdp : (canonical dst).port = dst.port := rfl
    have hkeyword : ascii "PROXY " = ascii "PROXY" ++ [0x20] := by decide
    rw [hsp, hdp, hkeyword] at h
    cases hsi : (canonical src).ip with
    | v4 s =>
      cases hdi : (canonical dst).ip with
      | v4 d =>
        simp only [hsi, hdi] at h
        split_ifs at h with hlen
        cases h
        exact ⟨_, Nat.not_lt.1 hlen, rfl, hcmd, .inr ⟨rfl, src, dst, ascii "TCP4", hdesc, .inl ⟨rfl, by rw [hsi]; rfl,
          by rw [hdi]; rfl⟩, by rw [hsi, hdi]; simp only [joined, List.append_assoc, List.cons_append, List.nil_append]⟩⟩
      | v6 d =>
        simp only [hsi, hdi] at h
        cases h
    | v6 s =>
      cases hdi : (canonical dst).ip with
      | v4 d =>
        simp only [hsi, hdi] at h
        cases h
      | v6 d =>
        simp only [hsi, hdi] at h
        split_ifs at h with hlen
        cases h
        exact ⟨_, Nat.not_lt.1 hlen, rfl, hcmd, .inr ⟨rfl, src, dst, ascii "TCP6", hdesc, .inr ⟨rfl, by rw [hsi]; rfl,
          by rw [hdi]; rfl⟩, by rw [hsi, hdi]; simp only [joined, List.append_assoc, List.cons_append, List.nil_append]⟩⟩

theorem build_v2_cases (h : p.buildV2 localAddr remote = .ok built) (hp : built.observation.problem = none) :
    ∃ verCmd fam fixed o tlvs, p.fixedV2 localAddr remote = .ok (verCmd, fam, fixed, o) ∧
      (fixed ++ tlvs).length ≤ v2MaxAddrLen ∧
      built.bytes = v2Sig ++ verCmd :: fam :: (toBe (UInt16.ofNat (fixed ++ tlvs).length) ++ (fixed ++ tlvs)) := by
  unfold HeaderPlan.buildV2 at h
  split at h
  · cases h
  next verCmd fam fixed o hfix =>
  split at h
  · cases h
  next tlvs htlv =>
  simp only at h
  split_ifs at h with hlong hmax
  · cases h
    cases hp
  · cases h
    refine ⟨verCmd, fam, fixed, o, tlvs, hfix, ?_, ?_⟩
    · rw [List.length_append]
      omega
    · show v2Sig ++ verCmd :: fam :: (toBe (UInt16.ofNat (fixed.length + tlvs.length)) ++ fixed ++ tlvs) = _
      rw [List.length_append, List.append_assoc]

/-- The addresses of a binary header: none, two IPv4 addresses, or two IPv6 addresses with IPv4 promoted. -/
theorem fixedV2_cases {verCmd fam : UInt8} {fixed : List UInt8} {o : ProxyHeaderObservation}
    (h : p.fixedV2 localAddr remote = .ok (verCmd, fam, fixed, o)) :
    (p.command = .localCommand ∧ verCmd = 0x20) ∨
    (p.command = .proxy ∧ p.family = .unspec ∧ verCmd = 0x21 ∧ fam = 0x00) ∨
    (p.command = .proxy ∧ p.family = .auto ∧ verCmd = 0x21 ∧ ∃ src dst, Describes p localAddr remote src dst ∧
      ((∃ s d, (canonical src).ip = .v4 s ∧ (canonical dst).ip = .v4 d ∧ fam = 0x11 ∧
          fixed = s.octets ++ d.octets ++ toBe src.port ++ toBe dst.port) ∨
        fam = 0x21 ∧ fixed = (toV6 (canonical src).ip).octets ++ (toV6 (canonical dst).ip).octets ++
          toBe src.port ++ toBe dst.port)) := by
  unfold HeaderPlan.fixedV2 at h
  cases hc : p.command with
  | localCommand =>
    rw [hc] at h
    cases h
    exact .inl ⟨rfl, rfl⟩
  | proxy =>
    cases hf : p.family with
    | unspec =>
      rw [hc, hf] at h
      cases h
      exact .inr (.inl ⟨rfl, rfl, rfl, rfl⟩)
    | auto =>
      rw [hc, hf] at h
      simp only at h
      split at h
      · cases h
      next src so hs =>
      split at h
      · cases h
      next dst dor hd =>
      have hdesc : Describes p localAddr remote src dst := ⟨pick_ok hs, pick_ok hd⟩
      refine .inr (.inr ⟨rfl, rfl, ?_⟩)
      split at h
      · next s d hsi hdi =>
        cases h
        exact ⟨rfl, src, dst, hdesc, .inl ⟨s, d, hsi, hdi, rfl, rfl⟩⟩
      · cases h
        exact ⟨rfl, src, dst, hdesc, .inr ⟨rfl, rfl⟩⟩

end Build

/-! ## The round trip -/

/-- The declared meaning of a plan. -/
def Means (p : HeaderPlan) (localAddr remote : Option SocketAddr) (h : StreamHeader) : Prop :=
  if p.command = .proxy ∧ p.family = .auto then
    ∃ src dst s d, Describes p localAddr remote src dst ∧ canonical s = canonical src ∧ canonical d = canonical dst ∧
      h = .forwarded (p.version = .v2) s d h.headerLen
  else h = .noAddress (p.version = .v2) (p.command = .localCommand) h.headerLen

theorem canonical_canonical (a : SocketAddr) : canonical (canonical a) = canonical a :=
  congrArg (SocketAddr.mk · a.port) (canonicalIp_canonicalIp a.ip)

/-- Promoting a canonical address to IPv6 and folding it again. -/
theorem canonical_toV6 (a : SocketAddr) : canonical ⟨.v6 (toV6 (canonical a).ip), a.port⟩ = canonical a := by
  have h := canonical_canonical a
  unfold toV6
  cases hi : (canonical a).ip with
  | v4 ip =>
    show (⟨canonicalIp (.v6 ip.toIpv6Mapped), a.port⟩ : SocketAddr) = canonical a
    rw [canonicalIp_toIpv6Mapped, ← hi]
    rfl
  | v6 ip =>
    show canonical ⟨.v6 ip, a.port⟩ = canonical a
    rw [← hi]
    exact h

section RoundTrip
variable {display : IpAddr → List UInt8} {parseIp : List UInt8 → Option IpAddr}

theorem check_v1 (hparse : ∀ ip, parseIp (display ip) = some ip) (hword : ∀ ip, Word (display ip)) {p : HeaderPlan}
    (hv : p.version = .v1) {localAddr remote : Option SocketAddr} {built : BuiltHeader}
    (h : p.buildV1 display localAddr remote = .ok built) (rest : List UInt8) :
    ∃ header, checkStreamHeader parseIp (built.bytes ++ rest) = .ok header ∧
      header.headerLen = built.bytes.length ∧ Means p localAddr remote header := by
  obtain ⟨line, hlen, hbytes, hcmd, hline⟩ := build_v1_cases h
  have hlength : built.bytes.length = line.length + 2 := by
    rw [hbytes, List.length_append]
    rfl
  rw [hlength, hbytes]
  unfold Means
  rcases hline with ⟨hf, rfl⟩ | ⟨hf, src, dst, proto, hdesc, hproto, rfl⟩
  · refine ⟨.noAddress false false ((ascii "PROXY UNKNOWN").length + 2), ?_, rfl, ?_⟩
    · rw [checkStreamHeader_line parseIp (by decide) (by decide) hlen, checkV1Line_unknown]
    · rw [if_neg (by rw [hf]; simp), hv, hcmd]
      rfl
  · have hp : Word proto := by
      rcases hproto with ⟨rfl, -⟩ | ⟨rfl, -⟩ <;> exact ⟨by decide, by decide⟩
    have hwords : ∀ v ∈ [proto, display (canonical src).ip, display (canonical dst).ip, decimalBytes src.port,
        decimalBytes dst.port], Word v := by
      intro v hm
      simp only [List.mem_cons, List.not_mem_nil, or_false] at hm
      rcases hm with rfl | rfl | rfl | rfl | rfl
      · exact hp
      · exact hword _
      · exact hword _
      · exact word_decimalBytes _
      · exact word_decimalBytes _
    have hstart : ascii "PROXY " <+: joined (ascii "PROXY") [proto, display (canonical src).ip,
        display (canonical dst).ip, decimalBytes src.port, decimalBytes dst.port] := by
      have hkeyword : ascii "PROXY " = ascii "PROXY" ++ [0x20] := by decide
      rw [hkeyword, joined, List.prefix_append_right_inj, List.cons_prefix_cons]
      exact ⟨rfl, List.nil_prefix⟩
    refine ⟨.forwarded false (canonical src) (canonical dst) _, ?_, rfl, ?_⟩
    · rw [checkStreamHeader_line parseIp hstart (joined_printable word_keyword hwords) hlen]
      exact checkV1Line_forwarded parseIp hproto (hword _) (hword _) (word_decimalBytes _) (word_decimalBytes _)
        (hparse _) (hparse _) (parseU16_decimalBytes _) (parseU16_decimalBytes _) _
    · rw [if_pos ⟨hcmd, hf⟩, hv]
      exact ⟨src, dst, _, _, hdesc, canonical_canonical src, canonical_canonical dst, rfl⟩

theorem check_v2 {p : HeaderPlan} (hv : p.version = .v2) {localAddr remote : Option SocketAddr} {built : BuiltHeader}
    (h : p.buildV2 localAddr remote = .ok built) (hproblem : built.observation.problem = none) (rest : List UInt8) :
    ∃ header, checkStreamHeader parseIp (built.bytes ++ rest) = .ok header ∧
      header.headerLen = built.bytes.length ∧ Means p localAddr remote header := by
  obtain ⟨verCmd, fam, fixed, o, tlvs, hfix, hmax, hbytes⟩ := build_v2_cases h hproblem
  have hlength : built.bytes.length = 16 + (fixed ++ tlvs).length := by
    rw [hbytes, List.length_append, List.length_cons, List.length_cons, List.length_append]
    show 12 + (2 + (fixed ++ tlvs).length + 1 + 1) = _
    omega
  have hsize : (fixed ++ tlvs).length < 65536 := lt_of_le_of_lt hmax (by decide)
  have haddr : (UInt16.ofNat (fixed ++ tlvs).length).toNat = (fixed ++ tlvs).length :=
    UInt16.toNat_ofNat_of_lt' hsize
  have hread : verCmd >>> 4 = 2 → checkStreamHeader parseIp (built.bytes ++ rest) =
      if verCmd &&& 0x0F = 0x00 then .ok (.noAddress true true (16 + (fixed ++ tlvs).length))
      else if verCmd &&& 0x0F = 0x01 then checkBlock fam (fixed ++ tlvs) (16 + (fixed ++ tlvs).length)
      else .error (.unsupportedCommand (verCmd &&& 0x0F)) := by
    intro hver
    rw [hbytes, ← checkStreamHeader_v2 parseIp (by rw [fromBe_toBe]; exact haddr) hmax hver rest]
    rfl
  rw [hlength]
  unfold Means
  rw [hv]
  rcases fixedV2_cases hfix with ⟨hc, rfl⟩ | ⟨hc, hf, rfl, rfl⟩ | ⟨hc, hf, rfl, src, dst, hdesc, hfam⟩
  · refine ⟨_, (hread (by decide)).trans (if_pos (by decide)), rfl, ?_⟩
    rw [if_neg (by rw [hc]; simp), hc]
    rfl
  · refine ⟨_, (hread (by decide)).trans ((if_neg (by decide)).trans (if_pos (by decide))), rfl, ?_⟩
    rw [if_neg (by rw [hf]; simp), hc]
    rfl
  · have hblock := (hread (by decide)).trans ((if_neg (by decide)).trans (if_pos (by decide)))
    rw [hblock]
    rcases hfam with ⟨s, d, hs, hd, rfl, rfl⟩ | ⟨rfl, rfl⟩
    · refine ⟨_, checkBlock_inet s d src.port dst.port tlvs _, rfl, ?_⟩
      rw [if_pos ⟨hc, hf⟩]
      refine ⟨src, dst, _, _, hdesc, ?_, ?_, rfl⟩
      · rw [← canonical_canonical src, ← hs]
        rfl
      · rw [← canonical_canonical dst, ← hd]
        rfl
    · refine ⟨_, checkBlock_inet6 _ _ src.port dst.port tlvs _, rfl, ?_⟩
      rw [if_pos ⟨hc, hf⟩]
      exact ⟨src, dst, _, _, hdesc, canonical_toV6 src, canonical_toV6 dst, rfl⟩

/-- **A header built without a problem is read back at its full length and with the meaning of its plan**, whatever
stream bytes follow it. -/
theorem checkStreamHeader_build (hparse : ∀ ip, parseIp (display ip) = some ip) (hword : ∀ ip, Word (display ip))
    (message : HeaderError → String) (p : HeaderPlan) (hv : p.version ≠ .raw) (localAddr remote : Option SocketAddr)
    (built : BuiltHeader) (h : p.build display parseIp message localAddr remote = .ok built)
    (hproblem : built.observation.problem = none) (rest : List UInt8) :
    ∃ header, checkStreamHeader parseIp (built.bytes ++ rest) = .ok header ∧
      header.headerLen = built.bytes.length ∧ Means p localAddr remote header := by
  unfold HeaderPlan.build at h
  cases hver : p.version with
  | raw => exact absurd hver hv
  | v1 =>
    rw [hver] at h
    exact check_v1 hparse hword hver h rest
  | v2 =>
    rw [hver] at h
    exact check_v2 hver h hproblem rest

end RoundTrip

/-! ### An instance -/

def clientIp : IpAddr := .v4 ⟨10, 0, 0, 1⟩

def gatewayIp : IpAddr := .v4 ⟨10, 0, 0, 2⟩

/-- Two letters for each octet. -/
def letters (l : List UInt8) : List UInt8 :=
  l.flatMap fun o => [UInt8.ofNat (0x61 + o.toNat / 16), UInt8.ofNat (0x61 + o.toNat % 16)]

def ofLetters : List UInt8 → List UInt8
  | hi :: lo :: t => UInt8.ofNat ((hi.toNat - 0x61) * 16 + (lo.toNat - 0x61)) :: ofLetters t
  | _ => []

theorem letter_spec {n : Nat} (h : n < 16) :
    (UInt8.ofNat (0x61 + n)).toNat = 0x61 + n ∧ 0x61 ≤ UInt8.ofNat (0x61 + n) ∧ UInt8.ofNat (0x61 + n) < 0x7F := by
  have ht : (UInt8.ofNat (0x61 + n)).toNat = 0x61 + n := UInt8.toNat_ofNat_of_lt' (show 0x61 + n < 256 by omega)
  rw [UInt8.le_iff_toNat_le, UInt8.lt_iff_toNat_lt, ht]
  exact ⟨rfl, Nat.le_add_right 0x61 n, show 0x61 + n < 127 by omega⟩

theorem ofLetters_letters (l : List UInt8) : ofLetters (letters l) = l := by
  induction l with
  | nil => rfl
  | cons o l ih =>
    have ho := o.toNat_lt
    show UInt8.ofNat (((UInt8.ofNat (0x61 + o.toNat / 16)).toNat - 0x61) * 16 +
      ((UInt8.ofNat (0x61 + o.toNat % 16)).toNat - 0x61)) :: ofLetters (letters l) = o :: l
    rw [ih, (letter_spec (by omega)).1, (letter_spec (Nat.mod_lt _ (by decide))).1,
      show (0x61 + o.toNat / 16 - 0x61) * 16 + (0x61 + o.toNat % 16 - 0x61) = o.toNat by omega, UInt8.ofNat_toNat]

/-- The usual text of two addresses, and letters for the others. -/
def sampleDisplay (ip : IpAddr) : List UInt8 :=
  if ip = clientIp then ascii "10.0.0.1"
  else if ip = gatewayIp then ascii "10.0.0.2"
  else
    match ip with
    | .v4 ip => 0x77 :: letters ip.octets
    | .v6 ip => 0x78 :: letters ip.octets

def sampleParse (t : List UInt8) : Option IpAddr :=
  if t = ascii "10.0.0.1" then some clientIp
  else if t = ascii "10.0.0.2" then some gatewayIp
  else
    match t with
    | [] => none
    | c :: t =>
      if c = 0x77 then
        match ofLetters t with
        | [a, b, c, d] => some (.v4 ⟨a, b, c, d⟩)
        | _ => none
      else if h : (ofLetters t).length = 16 then some (.v6 ⟨ofLetters t, h⟩) else none

theorem sampleParse_sampleDisplay (ip : IpAddr) : sampleParse (sampleDisplay ip) = some ip := by
  unfold sampleDisplay
  split_ifs with h₁ h₂
  · rw [h₁]
    decide
  · rw [h₂]
    decide
  have hfirst : ∀ (c : UInt8) (t u : List UInt8), c ≠ 0x31 → c :: t ≠ 0x31 :: u := fun c t u hc h =>
    hc (List.cons.inj h).1
  have hone : ascii "10.0.0.1" = 0x31 :: ascii "0.0.0.1" := by decide
  have htwo : ascii "10.0.0.2" = 0x31 :: ascii "0.0.0.2" := by decide
  unfold sampleParse
  rw [hone, htwo]
  cases ip with
  | v4 ip =>
    simp only
    rw [if_neg (hfirst _ _ _ (by decide)), if_neg (hfirst _ _ _ (by decide)), if_pos trivial, ofLetters_letters]
    rfl
  | v6 ip =>
    simp only
    rw [if_neg (hfirst _ _ _ (by decide)), if_neg (hfirst _ _ _ (by decide)), if_neg (by decide)]
    simp only [ofLetters_letters, ip.length_octets, dite_true]

theorem word_letters (c : UInt8) (hc : 0x21 ≤ c ∧ c < 0x7F) (l : List UInt8) : Word (c :: letters l) := by
  refine ⟨List.cons_ne_nil _ _, fun d hd => ?_⟩
  rcases List.mem_cons.1 hd with rfl | hd
  · exact hc
  obtain ⟨o, -, ho⟩ := List.mem_flatMap.1 hd
  have hlt := o.toNat_lt
  have hletter : ∃ n, n < 16 ∧ d = UInt8.ofNat (0x61 + n) := by
    rcases List.mem_cons.1 ho with rfl | ho
    · exact ⟨_, by omega, rfl⟩
    · exact ⟨_, Nat.mod_lt _ (by decide), List.mem_singleton.1 ho⟩
  obtain ⟨n, hn, rfl⟩ := hletter
  obtain ⟨-, h₁, h₂⟩ := letter_spec hn
  exact ⟨UInt8.le_trans (by decide) h₁, h₂⟩

theorem word_sampleDisplay (ip : IpAddr) : Word (sampleDisplay ip) := by
  unfold sampleDisplay
  split_ifs
  · exact ⟨by decide, by decide⟩
  · exact ⟨by decide, by decide⟩
  cases ip with
  | v4 ip => exact word_letters _ (by decide) _
  | v6 ip => exact word_letters _ (by decide) _

def samplePlan : HeaderPlan := { version := .v1, command := .proxy, family := .auto, source := some ⟨clientIp, 40000⟩ }

def sampleBuilt : BuiltHeader :=
  ⟨ascii "PROXY TCP4 10.0.0.1 10.0.0.2 40000 443" ++ [0x0D, 0x0A],
    { family := "TCP4", source := some ⟨clientIp, 40000⟩, sourceOrigin := some .configured,
      destination := some ⟨gatewayIp, 443⟩, destinationOrigin := some .socket, length := 40 }⟩

theorem samplePlan_build (message : HeaderError → String) :
    samplePlan.build sampleDisplay sampleParse message none (some ⟨gatewayIp, 443⟩) = .ok sampleBuilt := by
  show samplePlan.buildV1 sampleDisplay none (some ⟨gatewayIp, 443⟩) = .ok sampleBuilt
  decide

theorem checkStreamHeader_build_sample :
    ∃ header, checkStreamHeader sampleParse (sampleBuilt.bytes ++ [0x16, 0x03, 0x0D, 0x0A]) = .ok header ∧
      header.headerLen = sampleBuilt.bytes.length ∧ Means samplePlan none (some ⟨gatewayIp, 443⟩) header :=
  checkStreamHeader_build sampleParse_sampleDisplay word_sampleDisplay (fun _ => "") samplePlan (by decide) none
    (some ⟨gatewayIp, 443⟩) sampleBuilt (samplePlan_build _) rfl [0x16, 0x03, 0x0D, 0x0A]

end Anvil.Transport.ProxyProtocol
