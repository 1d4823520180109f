import Anvil.Lib.Keyed
import Anvil.Transport.WsExtensions

/-!
# Agreeing on `permessage-deflate` (`anvil-transport/src/ws_deflate.rs`)

* `negotiate` : the server's answer, checked against the offer;
* `Fits`, `Honours` : what an acceptable answer says, and what agreed parameters owe to the answer and to the offer;
* `negotiate_exact` : the client agrees on those answers alone, unless a window size has a sign or a field other whitespace.
-/

namespace Anvil.WsDeflate
open Anvil.Lib Anvil.Lib.Quoted

def extension : Text := "permessage-deflate".toList

namespace Param

def serverNct : Text := "server_no_context_takeover".toList

def clientNct : Text := "client_no_context_takeover".toList

def serverBits : Text := "server_max_window_bits".toList

def clientBits : Text := "client_max_window_bits".toList

end Param

/-- The validated offer. Window sizes are base-2 logarithms. -/
structure DeflateOffer where
  serverNoContextTakeover : Bool := false
  clientNoContextTakeover : Bool := false
  serverMaxWindowBits : Option Nat := none
  /-- `none`: `client_max_window_bits` without a value. -/
  clientMaxWindowBits : Option Nat := none

/-- The agreed parameters, as evidence. -/
structure WsDeflateParams where
  serverNoContextTakeover : Bool
  clientNoContextTakeover : Bool
  serverMaxWindowBits : Option Nat
  clientMaxWindowBits : Option Nat
  clientCompresses : Bool

/-- What the codec is set up with. -/
structure DeflateConfig where
  compress : Bool
  compressWindowBits : Nat
  compressNoContextTakeover : Bool
  decompressNoContextTakeover : Bool
  level : Nat

structure Agreed where
  params : WsDeflateParams
  codec : DeflateConfig

/-! ## Window sizes -/

/-- `str::parse::<u8>`: a `+` may stand before the digits. -/
def parseU8 (s : Text) : Option Nat := (digitsOf (if s.head? = some '+' then s.tail else s)).filter (· < 256)

/-- The size that a value gives, if it is one. -/
def windowSize (s : Text) : Option Nat :=
  if s.head? = some '0' then none else (parseU8 s).filter fun b => 8 ≤ b ∧ b ≤ 15

def windowBits (name : Text) : Option Text → Except Text Nat
  | none => .error (name ++ " has no value, but the answer must give one (8 to 15)".toList)
  | some s =>
    (windowSize s).elim (.error (name ++ '=' :: (s ++ " is not a window size from 8 to 15".toList))) .ok

/-! ## The parameters of an answer -/

/-- What has been read of the answer. -/
structure Answered where
  serverNct : Bool := false
  clientNct : Bool := false
  serverBits : Option Nat := none
  clientBits : Option Nat := none

def readFlag (k : Text) (a : Answered) : Option Text → Except Text Answered
  | none => .ok a
  | some v => .error (k ++ " takes no value, but the answer gives ".toList ++ k ++ '=' :: v)

def readParam (a : Answered) (k : Text) (v : Option Text) : Except Text Answered :=
  if k = Param.serverNct then readFlag k { a with serverNct := true } v
  else if k = Param.clientNct then readFlag k { a with clientNct := true } v
  else if k = Param.serverBits then (windowBits k v).map fun b => { a with serverBits := some b }
  else if k = Param.clientBits then (windowBits k v).map fun b => { a with clientBits := some b }
  else .error (k ++ " is not a permessage-deflate parameter".toList)

/-- The parameters, after those seen. -/
def readParams (seen : List Text) (a : Answered) : List (Text × Option Text) → Except Text Answered
  | [] => .ok a
  | p :: params =>
    if p.1 ∈ seen then .error ("the answer repeats ".toList ++ p.1)
    else (readParam a p.1 p.2).bind fun a => readParams (seen ++ [p.1]) a params

/-! ## The offer -/

/-- An answer without `server_no_context_takeover` does not accept an offer with it. -/
def takeoverMisfit (offer : DeflateOffer) (a : Answered) : Option Text :=
  if offer.serverNoContextTakeover && !a.serverNct then
    some "the offer asked for server_no_context_takeover, but the answer does not include it".toList
  else none

/-- `server_max_window_bits` is accepted with the same or a smaller value. -/
def serverMisfit (offer : DeflateOffer) (a : Answered) : Option Text :=
  match offer.serverMaxWindowBits, a.serverBits with
  | none, _ => none
  | some asked, none =>
    some ("the offer asked for server_max_window_bits=".toList ++ Nat.toDigits 10 asked ++
      ", but the answer does not include it".toList)
  | some asked, some b =>
    if asked < b then
      some ("the answer's server_max_window_bits=".toList ++ Nat.toDigits 10 b ++ " is larger than the ".toList ++
        Nat.toDigits 10 asked ++ " Anvil asked for".toList)
    else none

/-- `client_max_window_bits` may only shrink Anvil's own limit. -/
def clientMisfit (offer : DeflateOffer) (a : Answered) : Option Text :=
  match offer.clientMaxWindowBits, a.clientBits with
  | some limit, some b =>
    if limit < b then
      some ("the answer's client_max_window_bits=".toList ++ Nat.toDigits 10 b ++ " is larger than the ".toList ++
        Nat.toDigits 10 limit ++ " Anvil offered".toList)
    else none
  | _, _ => none

def misfit (offer : DeflateOffer) (a : Answered) : Option Text :=
  (takeoverMisfit offer a).or ((serverMisfit offer a).or (clientMisfit offer a))

/-- The agreed parameters. Anvil keeps its own promises even when the answer does not repeat them. -/
def agree (offer : DeflateOffer) (a : Answered) : Agreed :=
  let clientNct := a.clientNct || offer.clientNoContextTakeover
  let clientWindow := a.clientBits.or offer.clientMaxWindowBits
  let bits := clientWindow.getD 15
  let clientCompresses := decide (9 ≤ bits)
  { params :=
      { serverNoContextTakeover := a.serverNct
        clientNoContextTakeover := clientNct
        serverMaxWindowBits := a.serverBits
        clientMaxWindowBits := clientWindow
        clientCompresses }
    codec :=
      { compress := clientCompresses
        compressWindowBits := max bits 9
        compressNoContextTakeover := clientNct
        decompressNoContextTakeover := a.serverNct
        level := 6 } }

/-! ## The negotiation -/

/-- The one element of the answer, whose extension was offered. -/
def accept (offer : DeflateOffer) (params : List (Text × Option Text)) : Except Text (Option Agreed) :=
  (readParams [] {} params).bind fun a => (misfit offer a).elim (.ok (some (agree offer a))) .error

def notOffered (name why : Text) : Text :=
  "the server accepted the extension '".toList ++ name ++ "', which Anvil did not offer".toList ++ why

def why (rawOffer : Bool) : Text :=
  if rawOffer then
    "; Anvil runs only a permessage-deflate it offered itself, not one offered through a custom ".toList ++
      "Sec-WebSocket-Extensions header".toList
  else []

/-- More elements than one. -/
def extraError (extra : Element) : Text :=
  if extra.name = extension then "the answer names permessage-deflate more than once".toList else notOffered extra.name []

def decideOn (offer : Option DeflateOffer) (rawOffer : Bool) : List Element → Except Text (Option Agreed)
  | [] => .ok none
  | first :: rest =>
    match offer.filter fun _ => first.name = extension with
    | none => .error (notOffered first.name (why rawOffer))
    | some offer => (rest.head?.map extraError).elim (accept offer first.params) .error

/-- The answer of the server; `none` when no extension is in use. -/
def negotiate (offer : Option DeflateOffer) (answer : List Text) (rawOffer : Bool) : Except Text (Option Agreed) :=
  match parse answer with
  | .error e => .error ("the Sec-WebSocket-Extensions answer is malformed: ".toList ++ e)
  | .ok elements => decideOn offer rawOffer elements

/-! ## What the answer must say -/

/-- A window size as it is written: a plain decimal. -/
def Plain (s : Text) (b : Nat) : Prop := s = Nat.toDigits 10 b ∧ 8 ≤ b ∧ b ≤ 15

/-- A window size, or one with a sign and any zeros before it. -/
def Signed (s : Text) (b : Nat) : Prop :=
  (s = Nat.toDigits 10 b ∨ ∃ z, s = '+' :: (List.replicate z '0' ++ Nat.toDigits 10 b)) ∧ 8 ≤ b ∧ b ≤ 15

/-- A parameter with the value that it takes; `size` says how window sizes are written. -/
def Known (size : Text → Nat → Prop) (p : Text × Option Text) : Prop :=
  ((p.1 = Param.serverNct ∨ p.1 = Param.clientNct) ∧ p.2 = none) ∨
    ((p.1 = Param.serverBits ∨ p.1 = Param.clientBits) ∧ ∃ s b, p.2 = some s ∧ size s b)

/-- Parameters that are distinct, known and allowed by the offer. -/
structure Fits (size : Text → Nat → Prop) (offer : DeflateOffer) (params : List (Text × Option Text)) : Prop where
  distinct : (keysOf params).Nodup
  known : ∀ p ∈ params, Known size p
  takeover : offer.serverNoContextTakeover = true → (Param.serverNct, none) ∈ params
  server : ∀ asked, offer.serverMaxWindowBits = some asked →
    ∃ s b, (Param.serverBits, some s) ∈ params ∧ size s b ∧ b ≤ asked
  client : ∀ limit s b, offer.clientMaxWindowBits = some limit → (Param.clientBits, some s) ∈ params → size s b → b ≤ limit

/-- The window that Anvil may compress with: the answer's, or else the offer's, or else the largest. -/
def Window (size : Text → Nat → Prop) (offer : DeflateOffer) (params : List (Text × Option Text)) (b : Nat) : Prop :=
  (∃ s, (Param.clientBits, some s) ∈ params ∧ size s b) ∨
    Param.clientBits ∉ keysOf params ∧ b = offer.clientMaxWindowBits.getD 15

/-- What agreed parameters owe to the answer and to the offer. -/
structure Honours (size : Text → Nat → Prop) (offer : DeflateOffer) (params : List (Text × Option Text)) (agreed : Agreed) :
    Prop where
  window : ∀ b, Window size offer params b →
    (agreed.codec.compress = true → agreed.codec.compressWindowBits ≤ b) ∧ (agreed.codec.compress = true ↔ 9 ≤ b)
  server : agreed.codec.decompressNoContextTakeover = true ↔ (Param.serverNct, none) ∈ params
  client : agreed.codec.compressNoContextTakeover = true ↔
    (Param.clientNct, none) ∈ params ∨ offer.clientNoContextTakeover = true
  told : agreed.params.serverNoContextTakeover = agreed.codec.decompressNoContextTakeover ∧
    agreed.params.clientNoContextTakeover = agreed.codec.compressNoContextTakeover ∧
    agreed.params.clientCompresses = agreed.codec.compress ∧
    ∀ b, agreed.params.serverMaxWindowBits = some b ↔ ∃ s, (Param.serverBits, some s) ∈ params ∧ size s b

/-- The client agrees on the answers that fit, honours them, refuses an extension that it did not offer, and goes on without
any extension only when the answer names none; so every other answer, also one that is not well formed, is refused. -/
structure Correct (offer : Option DeflateOffer) (answer : List Text) (rawOffer : Bool) : Prop where
  agrees : (∃ agreed, negotiate offer answer rawOffer = .ok (some agreed)) ↔
    ∃ o params, offer = some o ∧ IsAnswer isOws [⟨extension, params⟩] answer ∧ Fits Plain o params
  honours : ∀ agreed, negotiate offer answer rawOffer = .ok (some agreed) →
    ∀ o params, offer = some o → IsAnswer isOws [⟨extension, params⟩] answer → Honours Plain o params agreed
  refuses : ∀ elements e, IsAnswer isWhitespace elements answer → e ∈ elements → offer = none ∨ e.name ≠ extension →
    ∃ error, negotiate offer answer rawOffer = .error error
  silent : negotiate offer answer rawOffer = .ok none ↔ IsAnswer isWhitespace [] answer

/-- No value of a parameter is written with a sign. -/
def NoSign (params : List (Text × Option Text)) : Prop := ∀ p ∈ params, ∀ s, p.2 = some s → s.head? ≠ some '+'

/-- An answer that would fit with signs before its window sizes and with any Unicode whitespace has none of these. -/
def Strict (offer : Option DeflateOffer) (answer : List Text) : Prop :=
  ∀ o params, offer = some o → IsAnswer isWhitespace [⟨extension, params⟩] answer → Fits Signed o params →
    NoSign params ∧ ∀ value ∈ answer, Narrow value

/-! ## Window sizes -/

theorem head_toDigits {n : Nat} : (Nat.toDigits 10 n).head? ≠ some '+' := by
  intro h
  have hdigit := Nat.isDigit_of_mem_toDigits (b := 10) (by omega) (by omega) (List.mem_of_mem_head? h)
  revert hdigit
  decide

theorem signed_iff {s : Text} {b : Nat} : Signed s b ↔ windowSize s = some b := by
  unfold Signed windowSize parseU8
  constructor
  · rintro ⟨rfl | ⟨z, rfl⟩, hlow, hhigh⟩
    · have hzero : (Nat.toDigits 10 b).head? ≠ some '0' := by
        interval_cases b <;> decide
      rw [if_neg hzero, if_neg head_toDigits, digitsOf_toDigits]
      have hbyte : b < 256 := by omega
      simp [hlow, hhigh, hbyte]
    · have hread : digitsOf (List.replicate z '0' ++ Nat.toDigits 10 b) = some b := digitsOf_iff.2 ⟨z, rfl⟩
      have hbyte : b < 256 := by omega
      simp [hlow, hhigh, hbyte, hread]
  · intro h
    split_ifs at h with hzero hsign
    · rw [Option.filter_eq_some_iff, Option.filter_eq_some_iff, digitsOf_iff] at h
      obtain ⟨⟨⟨z, hz⟩, -⟩, hsize⟩ := h
      obtain ⟨t, rfl⟩ : ∃ t, s = '+' :: t := by
        cases s with
        | nil => cases hsign
        | cons c t => exact ⟨t, by rw [Option.some.inj hsign]⟩
      exact ⟨.inr ⟨z, by rw [← hz, List.tail_cons]⟩, by simpa using hsize⟩
    · rw [Option.filter_eq_some_iff, Option.filter_eq_some_iff] at h
      exact ⟨.inl (digitsOf_plain hzero h.1.1), by simpa using h.2⟩

theorem plain_of_signed {s : Text} {b : Nat} (hs : s.head? ≠ some '+') : Signed s b ↔ Plain s b := by
  unfold Signed Plain
  refine and_congr_left fun _ => or_iff_left ?_
  rintro ⟨z, rfl⟩
  exact hs rfl

theorem Plain.head {s : Text} {b : Nat} (h : Plain s b) : s.head? ≠ some '+' := by
  rw [h.1]
  exact head_toDigits

/-! ## The parameters read -/

/-- What a known parameter adds. -/
def note (a : Answered) (p : Text × Option Text) : Answered :=
  if p.1 = Param.serverNct then { a with serverNct := true }
  else if p.1 = Param.clientNct then { a with clientNct := true }
  else if p.1 = Param.serverBits then { a with serverBits := p.2.bind windowSize }
  else if p.1 = Param.clientBits then { a with clientBits := p.2.bind windowSize }
  else a

theorem names_distinct : Param.serverNct ≠ Param.clientNct ∧ Param.serverNct ≠ Param.serverBits ∧
    Param.serverNct ≠ Param.clientBits ∧ Param.clientNct ≠ Param.serverBits ∧ Param.clientNct ≠ Param.clientBits ∧
    Param.serverBits ≠ Param.clientBits := by
  decide

theorem readFlag_iff {k : Text} {a a' : Answered} {v : Option Text} : readFlag k a v = .ok a' ↔ v = none ∧ a' = a := by
  cases v with
  | none => exact ⟨fun h => ⟨rfl, (Except.ok.inj h).symm⟩, fun h => congrArg Except.ok h.2.symm⟩
  | some v => exact ⟨fun h => (by cases h), fun h => (by cases h.1)⟩

theorem windowBits_iff {k : Text} {v : Option Text} {b : Nat} :
    windowBits k v = .ok b ↔ ∃ s, v = some s ∧ windowSize s = some b := by
  cases v with
  | none => exact ⟨fun h => (by cases h), fun h => (by obtain ⟨s, hs, -⟩ := h; cases hs)⟩
  | some s =>
    unfold windowBits
    cases hsize : windowSize s <;> simp [hsize]

theorem map_windowBits_iff {k : Text} {v : Option Text} (f : Option Nat → Answered) {a' : Answered} :
    (windowBits k v).map (fun b => f (some b)) = .ok a' ↔
      (∃ s b, v = some s ∧ windowSize s = some b) ∧ a' = f (v.bind windowSize) := by
  cases hread : windowBits k v with
  | error e =>
    refine ⟨fun h => (by cases h), ?_⟩
    rintro ⟨⟨s, b, hs, hb⟩, -⟩
    rw [windowBits_iff.2 ⟨s, hs, hb⟩] at hread
    cases hread
  | ok b =>
    obtain ⟨s, rfl, hb⟩ := windowBits_iff.1 hread
    rw [Option.bind_some, hb]
    exact ⟨fun h => ⟨⟨s, b, rfl, hb⟩, (Except.ok.inj h).symm⟩, fun h => congrArg Except.ok h.2.symm⟩

/-- A parameter is read when it is known, and adds what it says. -/
theorem readParam_iff {a a' : Answered} {p : Text × Option Text} :
    readParam a p.1 p.2 = .ok a' ↔ Known Signed p ∧ a' = note a p := by
  obtain ⟨h12, h13, h14, h23, h24, h34⟩ := names_distinct
  obtain ⟨k, v⟩ := p
  unfold readParam note Known
  simp only [signed_iff]
  split_ifs with h1 h2 h3 h4
  · subst h1
    rw [readFlag_iff]
    simp [h13, h14]
  · subst h2
    rw [readFlag_iff]
    simp [h23, h24]
  · subst h3
    rw [map_windowBits_iff fun b => { a with serverBits := b }]
    simp [h13.symm, h23.symm]
  · subst h4
    rw [map_windowBits_iff fun b => { a with clientBits := b }]
    simp [h14.symm, h24.symm]
  · simp [h1, h2, h3, h4]

theorem readParams_iff {params : List (Text × Option Text)} : ∀ {seen : List Text} {a a' : Answered},
    readParams seen a params = .ok a' ↔
      ((keysOf params).Nodup ∧ (∀ k ∈ seen, k ∉ keysOf params) ∧ ∀ p ∈ params, Known Signed p) ∧
        a' = params.foldl note a := by
  induction params with
  | nil =>
    intro seen a a'
    rw [readParams]
    simp [eq_comm]
  | cons p params ih =>
    intro seen a a'
    rw [readParams]
    split_ifs with hseen
    · exact ⟨fun h => (by cases h), fun h => absurd List.mem_cons_self (h.1.2.1 p.1 hseen)⟩
    cases hp : readParam a p.1 p.2 with
    | error e =>
      refine ⟨fun h => (by cases h), fun h => ?_⟩
      have hknown := h.1.2.2 p List.mem_cons_self
      rw [readParam_iff.2 ⟨hknown, rfl⟩] at hp
      cases hp
    | ok b =>
      obtain ⟨hknown, rfl⟩ := readParam_iff.1 hp
      change readParams (seen ++ [p.1]) (note a p) params = _ ↔ _
      rw [ih, List.foldl_cons]
      refine and_congr_left fun _ => ?_
      change _ ↔ (p.1 :: keysOf params).Nodup ∧ (∀ k ∈ seen, k ∉ p.1 :: keysOf params) ∧ _
      rw [List.nodup_cons, List.forall_mem_cons]
      constructor
      · rintro ⟨hdistinct, hfresh, hall⟩
        refine ⟨⟨hfresh p.1 (by simp), hdistinct⟩, fun k hk hmem => ?_, hknown, hall⟩
        rcases List.mem_cons.1 hmem with rfl | hmem
        · exact hseen hk
        · exact hfresh k (List.mem_append_left _ hk) hmem
      · rintro ⟨⟨hp', hdistinct⟩, hfresh, -, hall⟩
        refine ⟨hdistinct, fun k hk hmem => ?_, hall⟩
        rcases List.mem_append.1 hk with hk | hk
        · exact hfresh k hk (List.mem_cons_of_mem _ hmem)
        · exact hp' (List.mem_singleton.1 hk ▸ hmem)

/-! ## What has been read -/

/-- An answer read from distinct, known parameters says what they say. -/
structure Says (params : List (Text × Option Text)) (a : Answered) : Prop where
  serverNct : a.serverNct = true ↔ (Param.serverNct, none) ∈ params
  clientNct : a.clientNct = true ↔ (Param.clientNct, none) ∈ params
  serverBits : ∀ b, a.serverBits = some b ↔ ∃ s, (Param.serverBits, some s) ∈ params ∧ Signed s b
  clientBits : ∀ b, a.clientBits = some b ↔ ∃ s, (Param.clientBits, some s) ∈ params ∧ Signed s b

theorem note_spec (a : Answered) (p : Text × Option Text) :
    (note a p).serverNct = (if p.1 = Param.serverNct then true else a.serverNct) ∧
      (note a p).clientNct = (if p.1 = Param.clientNct then true else a.clientNct) ∧
      (note a p).serverBits = (if p.1 = Param.serverBits then p.2.bind windowSize else a.serverBits) ∧
      (note a p).clientBits = if p.1 = Param.clientBits then p.2.bind windowSize else a.clientBits := by
  obtain ⟨h12, h13, h14, h23, h24, h34⟩ := names_distinct
  unfold note
  split_ifs with h1 h2 h3 h4 <;> simp_all

/-- A part of what is read, which the parameter of one name sets. -/
theorem look_note {α : Type} (look : Answered → α) {name : Text} (val : Option Text → α)
    (hnote : ∀ a p, look (note a p) = if p.1 = name then val p.2 else look a) {params : List (Text × Option Text)}
    (hdistinct : (keysOf params).Nodup) (a : Answered) :
    (∀ v, (name, v) ∈ params → look (params.foldl note a) = val v) ∧
      (name ∉ keysOf params → look (params.foldl note a) = look a) := by
  have hmiss (m : Answered) (p : Text × Option Text) (hp : ¬ p.1 = name) : look (note m p) = look m := by
    rw [hnote, if_neg hp]
  have hhit (m : Answered) (p : Text × Option Text) (hp : p.1 = name) : look (note m p) = val p.2 := by
    rw [hnote, if_pos hp]
  constructor
  · intro v hv
    refine look_foldl_of_hit look (fun p => p.1 = name) (fun p => val p.2) hmiss hhit a ⟨_, hv, rfl⟩ ?_
    rintro p hp rfl
    have hsame := (lookup_of_mem hdistinct hp).symm.trans (lookup_of_mem hdistinct hv)
    rw [Option.some.inj hsame]
  · intro hname
    refine look_foldl_of_not_hit look (fun p => p.1 = name) hmiss a ?_
    rintro p hp rfl
    exact hname (List.mem_map_of_mem hp)

theorem Known.flag {size : Text → Nat → Prop} {k : Text} {v : Option Text} (h : Known size (k, v))
    (hk : k = Param.serverNct ∨ k = Param.clientNct) : v = none := by
  obtain ⟨h12, h13, h14, h23, h24, h34⟩ := names_distinct
  rcases h with ⟨-, hv⟩ | ⟨hk', -⟩
  · exact hv
  · rcases hk with rfl | rfl
    · exact (hk'.elim h13 h14).elim
    · exact (hk'.elim h23 h24).elim

theorem Known.bits {size : Text → Nat → Prop} {k : Text} {v : Option Text} (h : Known size (k, v))
    (hk : k = Param.serverBits ∨ k = Param.clientBits) : ∃ s b, v = some s ∧ size s b := by
  obtain ⟨h12, h13, h14, h23, h24, h34⟩ := names_distinct
  rcases h with ⟨hk', -⟩ | ⟨-, hv⟩
  · rcases hk with rfl | rfl
    · exact (hk'.elim h13.symm h23.symm).elim
    · exact (hk'.elim h14.symm h24.symm).elim
  · exact hv

theorem flag_foldl (look : Answered → Bool) {name : Text} (hname : name = Param.serverNct ∨ name = Param.clientNct)
    (hnote : ∀ a p, look (note a p) = if p.1 = name then true else look a) {params : List (Text × Option Text)}
    (hdistinct : (keysOf params).Nodup) (hknown : ∀ p ∈ params, Known Signed p) {a : Answered} (ha : look a = false) :
    look (params.foldl note a) = true ↔ (name, none) ∈ params := by
  obtain ⟨hset, hunset⟩ := look_note look (fun _ => true) hnote hdistinct a
  constructor
  · intro h
    by_contra hmem
    have hfresh : name ∉ keysOf params := by
      intro hkey
      obtain ⟨⟨k, v⟩, hp, rfl⟩ := List.mem_map.1 hkey
      obtain rfl := (hknown _ hp).flag hname
      exact hmem hp
    rw [hunset hfresh, ha] at h
    cases h
  · exact hset none

theorem bits_foldl (look : Answered → Option Nat) {name : Text} (hname : name = Param.serverBits ∨ name = Param.clientBits)
    (hnote : ∀ a p, look (note a p) = if p.1 = name then p.2.bind windowSize else look a) {params : List (Text × Option Text)}
    (hdistinct : (keysOf params).Nodup) (hknown : ∀ p ∈ params, Known Signed p) {a : Answered}
    (ha : look a = none) (b : Nat) :
    look (params.foldl note a) = some b ↔ ∃ s, (name, some s) ∈ params ∧ Signed s b := by
  obtain ⟨hset, hunset⟩ := look_note look (fun v => v.bind windowSize) hnote hdistinct a
  constructor
  · intro h
    by_cases hkey : name ∈ keysOf params
    · obtain ⟨⟨k, v⟩, hp, rfl⟩ := List.mem_map.1 hkey
      obtain ⟨s, b', rfl, -⟩ := (hknown _ hp).bits hname
      rw [hset _ hp, Option.bind_some] at h
      exact ⟨s, hp, signed_iff.2 h⟩
    · rw [hunset hkey, ha] at h
      cases h
  · rintro ⟨s, hmem, hs⟩
    rw [hset _ hmem, Option.bind_some]
    exact signed_iff.1 hs

theorem answered_foldl {params : List (Text × Option Text)} (hdistinct : (keysOf params).Nodup)
    (hknown : ∀ p ∈ params, Known Signed p) : Says params (params.foldl note {}) where
  serverNct := flag_foldl Answered.serverNct (.inl rfl) (fun a p => (note_spec a p).1) hdistinct hknown rfl
  clientNct := flag_foldl Answered.clientNct (.inr rfl) (fun a p => (note_spec a p).2.1) hdistinct hknown rfl
  serverBits := bits_foldl Answered.serverBits (.inl rfl) (fun a p => (note_spec a p).2.2.1) hdistinct hknown rfl
  clientBits := bits_foldl Answered.clientBits (.inr rfl) (fun a p => (note_spec a p).2.2.2) hdistinct hknown rfl

/-! ## What the client accepts -/

theorem takeoverMisfit_eq_none {o : DeflateOffer} {a : Answered} :
    takeoverMisfit o a = none ↔ (o.serverNoContextTakeover = true → a.serverNct = true) := by
  unfold takeoverMisfit
  cases o.serverNoContextTakeover <;> cases a.serverNct <;> simp [-String.reduceToList]

theorem serverMisfit_eq_none {o : DeflateOffer} {a : Answered} : serverMisfit o a = none ↔
    ∀ asked, o.serverMaxWindowBits = some asked → ∃ b, a.serverBits = some b ∧ b ≤ asked := by
  unfold serverMisfit
  cases o.serverMaxWindowBits <;> cases a.serverBits <;> simp [-String.reduceToList]

theorem clientMisfit_eq_none {o : DeflateOffer} {a : Answered} : clientMisfit o a = none ↔
    ∀ limit b, o.clientMaxWindowBits = some limit → a.clientBits = some b → b ≤ limit := by
  unfold clientMisfit
  cases o.clientMaxWindowBits <;> cases a.clientBits <;> simp [-String.reduceToList]

theorem misfit_eq_none {o : DeflateOffer} {a : Answered} :
    misfit o a = none ↔ takeoverMisfit o a = none ∧ serverMisfit o a = none ∧ clientMisfit o a = none := by
  unfold misfit
  rw [Option.or_eq_none_iff, Option.or_eq_none_iff]

/-- The parameters that fit the offer are those that are read and respect it. -/
theorem fits_iff {o : DeflateOffer} {params : List (Text × Option Text)} : Fits Signed o params ↔
    ((keysOf params).Nodup ∧ ∀ p ∈ params, Known Signed p) ∧ misfit o (params.foldl note {}) = none := by
  rw [misfit_eq_none, takeoverMisfit_eq_none, serverMisfit_eq_none, clientMisfit_eq_none]
  constructor
  · intro h
    have hread := answered_foldl h.distinct h.known
    refine ⟨⟨h.distinct, h.known⟩, fun hasked => hread.serverNct.2 (h.takeover hasked), fun asked hasked => ?_, ?_⟩
    · obtain ⟨s, b, hs, hb, hle⟩ := h.server asked hasked
      exact ⟨b, (hread.serverBits b).2 ⟨s, hs, hb⟩, hle⟩
    · intro limit b hlimit hb
      obtain ⟨s, hs, hb⟩ := (hread.clientBits b).1 hb
      exact h.client limit s b hlimit hs hb
  · rintro ⟨⟨hdistinct, hknown⟩, htakeover, hserver, hclient⟩
    have hread := answered_foldl hdistinct hknown
    refine ⟨hdistinct, hknown, fun hasked => hread.serverNct.1 (htakeover hasked), fun asked hasked => ?_, ?_⟩
    · obtain ⟨b, hb, hle⟩ := hserver asked hasked
      obtain ⟨s, hs, hb⟩ := (hread.serverBits b).1 hb
      exact ⟨s, b, hs, hb, hle⟩
    · exact fun limit s b hlimit hs hb => hclient limit b hlimit ((hread.clientBits b).2 ⟨s, hs, hb⟩)

theorem accept_iff {o : DeflateOffer} {params : List (Text × Option Text)} {r : Option Agreed} :
    accept o params = .ok r ↔ Fits Signed o params ∧ r = some (agree o (params.foldl note {})) := by
  rw [fits_iff]
  unfold accept
  cases hread : readParams [] {} params with
  | error e =>
    refine ⟨fun h => (by cases h), fun h => ?_⟩
    rw [readParams_iff.2 ⟨⟨h.1.1.1, by simp, h.1.1.2⟩, rfl⟩] at hread
    cases hread
  | ok a =>
    obtain ⟨⟨hdistinct, -, hknown⟩, rfl⟩ := readParams_iff.1 hread
    change (misfit o (params.foldl note {})).elim _ _ = _ ↔ _
    cases misfit o (params.foldl note {}) with
    | none => exact ⟨fun h => ⟨⟨⟨hdistinct, hknown⟩, rfl⟩, (Except.ok.inj h).symm⟩, fun h => congrArg Except.ok h.2.symm⟩
    | some e => exact ⟨fun h => (by cases h), fun h => (by cases h.1.2)⟩

/-- What the client agrees to honours the answer and the offer. -/
theorem honours_agree {o : DeflateOffer} {params : List (Text × Option Text)} (h : Fits Signed o params) :
    Honours Signed o params (agree o (params.foldl note {})) := by
  have hread := answered_foldl h.distinct h.known
  generalize params.foldl note {} = a at hread
  refine ⟨fun b hb => ?_, hread.serverNct, ?_, rfl, rfl, rfl, hread.serverBits⟩
  · have hbits : (a.clientBits.or o.clientMaxWindowBits).getD 15 = b := by
      rcases hb with hb | ⟨hnone, rfl⟩
      · rw [(hread.clientBits b).2 hb]
        rfl
      · have hclient : a.clientBits = none := by
          refine Option.eq_none_iff_forall_ne_some.2 fun c hc => hnone ?_
          obtain ⟨s, hs, -⟩ := (hread.clientBits c).1 hc
          exact List.mem_map_of_mem hs
        rw [hclient, Option.none_or]
    change (decide (9 ≤ _) = true → max _ 9 ≤ b) ∧ (decide (9 ≤ _) = true ↔ 9 ≤ b)
    rw [hbits, decide_eq_true_iff]
    exact ⟨fun hb => max_le le_rfl hb, Iff.rfl⟩
  · change (a.clientNct || o.clientNoContextTakeover) = true ↔ _
    rw [Bool.or_eq_true_iff, hread.clientNct]

/-! ## The elements of an answer -/

theorem decideOn_none {offer : Option DeflateOffer} {rawOffer : Bool} {es : List Element} :
    decideOn offer rawOffer es = .ok none ↔ es = [] := by
  cases es with
  | nil => exact ⟨fun _ => rfl, fun _ => rfl⟩
  | cons first rest =>
    refine ⟨fun h => ?_, fun h => (by cases h)⟩
    rw [decideOn] at h
    split at h
    · cases h
    · cases rest with
      | nil => cases (accept_iff.1 h).2
      | cons extra rest => cases h

theorem decideOn_some {offer : Option DeflateOffer} {rawOffer : Bool} {es : List Element} {agreed : Agreed} :
    decideOn offer rawOffer es = .ok (some agreed) ↔ ∃ o params, offer = some o ∧ es = [⟨extension, params⟩] ∧
      Fits Signed o params ∧ agreed = agree o (params.foldl note {}) := by
  constructor
  · intro h
    cases es with
    | nil => cases h
    | cons first rest =>
      rw [decideOn] at h
      split at h
      · cases h
      · next o hfilter =>
        obtain ⟨ho, hname⟩ := Option.filter_eq_some_iff.1 hfilter
        cases rest with
        | nil =>
          obtain ⟨hfits, hagreed⟩ := accept_iff.1 h
          refine ⟨o, first.params, ho, ?_, hfits, Option.some.inj hagreed⟩
          rw [← of_decide_eq_true hname]
        | cons extra rest => cases h
  · rintro ⟨o, params, rfl, rfl, hfits, rfl⟩
    exact accept_iff.2 ⟨hfits, rfl⟩

theorem decideOn_refuses {offer : Option DeflateOffer} {rawOffer : Bool} {es : List Element} {e : Element} (he : e ∈ es)
    (hforeign : offer = none ∨ e.name ≠ extension) : ∃ error, decideOn offer rawOffer es = .error error := by
  cases hdecide : decideOn offer rawOffer es with
  | error error => exact ⟨error, rfl⟩
  | ok r =>
    cases r with
    | none =>
      rw [decideOn_none.1 hdecide] at he
      cases he
    | some agreed =>
      obtain ⟨o, params, rfl, rfl, -⟩ := decideOn_some.1 hdecide
      rw [List.mem_singleton.1 he] at hforeign
      rcases hforeign with hforeign | hforeign
      · cases hforeign
      · exact absurd rfl hforeign

/-! ## Signs -/

theorem Fits.congr {size size' : Text → Nat → Prop} {o : DeflateOffer} {params : List (Text × Option Text)}
    (hsize : ∀ p ∈ params, ∀ s, p.2 = some s → ∀ b, size s b ↔ size' s b) (h : Fits size o params) : Fits size' o params where
  distinct := h.distinct
  known := by
    intro p hp
    rcases h.known p hp with hflag | ⟨hname, s, b, hs, hb⟩
    · exact .inl hflag
    · exact .inr ⟨hname, s, b, hs, (hsize p hp s hs b).1 hb⟩
  takeover := h.takeover
  server := by
    intro asked hasked
    obtain ⟨s, b, hs, hb, hle⟩ := h.server asked hasked
    exact ⟨s, b, hs, (hsize _ hs s rfl b).1 hb, hle⟩
  client := fun limit s b hlimit hs hb => h.client limit s b hlimit hs ((hsize _ hs s rfl b).2 hb)

theorem Honours.congr {size size' : Text → Nat → Prop} {o : DeflateOffer} {params : List (Text × Option Text)}
    {agreed : Agreed}
    (hsize : ∀ p ∈ params, ∀ s, p.2 = some s → ∀ b, size s b ↔ size' s b) (h : Honours size o params agreed) :
    Honours size' o params agreed where
  window := by
    intro b hb
    refine h.window b (hb.imp_left ?_)
    rintro ⟨s, hs, hb⟩
    exact ⟨s, hs, (hsize _ hs s rfl b).2 hb⟩
  server := h.server
  client := h.client
  told := by
    obtain ⟨hserver, hclient, hcompress, hbits⟩ := h.told
    refine ⟨hserver, hclient, hcompress, fun b => (hbits b).trans ⟨?_, ?_⟩⟩
    · rintro ⟨s, hs, hb⟩
      exact ⟨s, hs, (hsize _ hs s rfl b).1 hb⟩
    · rintro ⟨s, hs, hb⟩
      exact ⟨s, hs, (hsize _ hs s rfl b).2 hb⟩

theorem NoSign.size {params : List (Text × Option Text)} (h : NoSign params) :
    ∀ p ∈ params, ∀ s, p.2 = some s → ∀ b, Signed s b ↔ Plain s b :=
  fun p hp s hs _ => plain_of_signed (h p hp s hs)

/-- Plain window sizes are those without a sign. -/
theorem fits_plain_iff {o : DeflateOffer} {params : List (Text × Option Text)} :
    Fits Plain o params ↔ Fits Signed o params ∧ NoSign params := by
  constructor
  · intro h
    have hsign : NoSign params := by
      intro p hp s hs
      rcases h.known p hp with ⟨-, hnone⟩ | ⟨-, s', b, hs', hb⟩
      · rw [hnone] at hs
        cases hs
      · rw [Option.some.inj (hs.symm.trans hs')]
        exact hb.head
    exact ⟨h.congr fun p hp s hs b => (hsign.size p hp s hs b).symm, hsign⟩
  · exact fun h => h.1.congr h.2.size

/-! ## The negotiation -/

theorem IsAnswer.unique {es es' : List Element} {answer : List Text} (h : IsAnswer isWhitespace es answer)
    (h' : IsAnswer isWhitespace es' answer) : es = es' :=
  Except.ok.inj ((parse_iff.2 h).symm.trans (parse_iff.2 h'))

theorem negotiate_iff {offer : Option DeflateOffer} {answer : List Text} {rawOffer : Bool} {r : Option Agreed} :
    negotiate offer answer rawOffer = .ok r ↔ ∃ es, IsAnswer isWhitespace es answer ∧ decideOn offer rawOffer es = .ok r := by
  unfold negotiate
  cases hparse : parse answer with
  | error e =>
    refine ⟨fun h => (by cases h), ?_⟩
    rintro ⟨es, hes, -⟩
    rw [parse_iff.2 hes] at hparse
    cases hparse
  | ok es =>
    constructor
    · exact fun h => ⟨es, parse_iff.1 hparse, h⟩
    · rintro ⟨es', hes', h⟩
      rw [(parse_iff.1 hparse).unique hes']
      exact h

theorem negotiate_some {offer : Option DeflateOffer} {answer : List Text} {rawOffer : Bool} {agreed : Agreed} :
    negotiate offer answer rawOffer = .ok (some agreed) ↔ ∃ o params, offer = some o ∧
      IsAnswer isWhitespace [⟨extension, params⟩] answer ∧ Fits Signed o params ∧
        agreed = agree o (params.foldl note {}) := by
  rw [negotiate_iff]
  constructor
  · rintro ⟨es, hes, h⟩
    obtain ⟨o, params, ho, rfl, hfits, hagreed⟩ := decideOn_some.1 h
    exact ⟨o, params, ho, hes, hfits, hagreed⟩
  · rintro ⟨o, params, ho, hes, hfits, hagreed⟩
    exact ⟨_, hes, decideOn_some.2 ⟨o, params, ho, rfl, hfits, hagreed⟩⟩

/-- No extension is in use when the answer names none. -/
theorem negotiate_none {offer : Option DeflateOffer} {answer : List Text} {rawOffer : Bool} :
    negotiate offer answer rawOffer = .ok none ↔ IsAnswer isWhitespace [] answer := by
  rw [negotiate_iff]
  constructor
  · rintro ⟨es, hes, h⟩
    obtain rfl := decideOn_none.1 h
    exact hes
  · exact fun h => ⟨[], h, rfl⟩

theorem negotiate_refuses {offer : Option DeflateOffer} {answer : List Text} {rawOffer : Bool} {es : List Element}
    {e : Element}
    (hes : IsAnswer isWhitespace es answer) (he : e ∈ es) (hforeign : offer = none ∨ e.name ≠ extension) :
    ∃ error, negotiate offer answer rawOffer = .error error := by
  unfold negotiate
  rw [parse_iff.2 hes]
  exact decideOn_refuses he hforeign

/-- **The client agrees on compression** for the single elements whose parameters fit the offer, honours both sides, and
refuses every other answer that names an extension, exactly when an answer that it would take has no sign before a window size
and no whitespace but that of a header field. -/
theorem negotiate_exact (offer : Option DeflateOffer) (answer : List Text) (rawOffer : Bool) :
    Correct offer answer rawOffer ↔ Strict offer answer := by
  constructor
  · intro h o params ho hes hfits
    obtain ⟨o', params', ho', hes', hplain⟩ := h.agrees.1 ⟨_, negotiate_some.2 ⟨o, params, ho, hes, hfits, rfl⟩⟩
    obtain ⟨hread, hnarrow⟩ := isAnswer_ows.1 hes'
    have hsame := (Element.mk.inj (List.singleton_inj.1 (hread.unique hes))).2
    rw [← hsame]
    exact ⟨(fits_plain_iff.1 hplain).2, hnarrow⟩
  · intro h
    refine ⟨⟨?_, ?_⟩, ?_, fun es e hes he hforeign => negotiate_refuses hes he hforeign, negotiate_none⟩
    · rintro ⟨agreed, hagreed⟩
      obtain ⟨o, params, ho, hes, hfits, -⟩ := negotiate_some.1 hagreed
      obtain ⟨hsign, hnarrow⟩ := h o params ho hes hfits
      exact ⟨o, params, ho, isAnswer_ows.2 ⟨hes, hnarrow⟩, fits_plain_iff.2 ⟨hfits, hsign⟩⟩
    · rintro ⟨o, params, ho, hes, hplain⟩
      exact ⟨_, negotiate_some.2 ⟨o, params, ho, (isAnswer_ows.1 hes).1, (fits_plain_iff.1 hplain).1, rfl⟩⟩
    · intro agreed hagreed o params ho hes
      obtain ⟨hes, -⟩ := isAnswer_ows.1 hes
      obtain ⟨o', params', ho', hes', hfits, rfl⟩ := negotiate_some.1 hagreed
      obtain rfl := Option.some.inj (ho.symm.trans ho')
      obtain rfl := (Element.mk.inj (List.singleton_inj.1 (hes'.unique hes))).2
      exact (honours_agree hfits).congr (h o params' ho hes hfits).1.size

/-- A window size with a sign and a zero. -/
theorem signed_window_agreed :
    ¬ Correct (some {}) ["permessage-deflate; client_max_window_bits=+010".toList] false := by
  intro h
  have hread : parse ["permessage-deflate; client_max_window_bits=+010".toList] =
      .ok [⟨extension, [(Param.clientBits, some "+010".toList)]⟩] := by
    decide
  have hagreed : ∃ agreed, negotiate (some {}) ["permessage-deflate; client_max_window_bits=+010".toList] false =
      .ok (some agreed) := by
    unfold negotiate
    rw [hread]
    exact ⟨_, rfl⟩
  obtain ⟨o, params, -, hes, hfits⟩ := h.agrees.1 hagreed
  have hsame := (Element.mk.inj (List.singleton_inj.1 ((isAnswer_ows.1 hes).1.unique (parse_iff.1 hread)))).2
  have hsign := (fits_plain_iff.1 hfits).2
  rw [hsame] at hsign
  exact hsign _ (List.mem_singleton_self _) _ rfl rfl

end Anvil.WsDeflate
