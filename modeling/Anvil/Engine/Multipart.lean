import Anvil.Engine.Request
import Anvil.Lib.Multipart
import Anvil.Lib.Run
import Anvil.Transport.Session

/-!
# Multipart bodies (`anvil-engine/src/prepare.rs`, `Body::Multipart`)

Variables are resolved by a parameter, which is asked with the path of the field: it may give another text each time. So
is an attachment loaded.

* `multipartBody` : the body, its content type and whether it holds a sensitive field;
* `sentParts` : the enabled parts, resolved;
* `multipartBody_bytes` : the body is the parts, laid out between delimiters;
* `multipart_exact` : when a reader of forms gets these parts back.
-/

namespace Anvil.Engine
open Anvil.Lib Anvil.Lib.Multipart

inductive AttachmentRef
  | stored (sha256 : Text) (size : Nat) (fileName : Text) (mediaType : Option Text)
  | linkedFile (path : Text)

inductive MultipartContent
  | text (value : Text)
  | file (attachment : AttachmentRef) (fileName : Option Text)

structure MultipartPart where
  name : Text
  enabled : Bool
  content : MultipartContent
  contentType : Option Text

inductive BodyFailure (ε : Type)
  | unresolved (e : ε)
  | missingAttachment (message field : Text)

/-- `Path::file_name`: the last component, unless it is the parent. -/
def pathFileName (path : Text) : Option Text :=
  ((path.splitOn '/').filter fun c => !(c.isEmpty || c = ".".toList)).getLast?.bind fun c =>
    if c = "..".toList then none else some c

/-- The name that a file is sent under. -/
def sentFileName (attachment : AttachmentRef) (fileName : Option Text) : Text :=
  fileName.getD (match attachment with
    | .stored _ _ name _ => name
    | .linkedFile path => (pathFileName path).getD "file".toList)

def boundary (random : List UInt8) : Text := "----AnvilFormBoundary".toList ++ Session.hexEncode random

def replaceQuotes (s : Text) : Text := s.flatMap fun c => if c = '"' then "%22".toList else [c]

/-- `body.parts[i].field`. -/
def partField (i : Nat) (field : String) : Text := "body.parts[".toList ++ Nat.toDigits 10 i ++ "].".toList ++ field.toList

structure MultipartBody where
  bytes : List UInt8
  contentType : Text
  sensitive : Bool

section Body
variable {ε : Type} (names : List Text) (resolve : Text → Text → Except ε Text)
    (load : AttachmentRef → Except Text (List UInt8))

def resolveField (text field : Text) : Except (BodyFailure ε) Text := (resolve text field).mapError .unresolved

def loadPart (i : Nat) (a : AttachmentRef) : Except (BodyFailure ε) (List UInt8) :=
  (load a).mapError fun e => .missingAttachment e (partField i "file")

/-- One part, after the bytes that are written already. -/
def multipartStep (mark : Text) (s : List UInt8 × Bool) (x : MultipartPart × Nat) :
    Except (BodyFailure ε) (List UInt8 × Bool) := do
  let resolvedName ← resolveField resolve x.1.name (partField x.2 "name")
  let name := replaceQuotes resolvedName
  let out := s.1 ++ encodeUtf8 ("--".toList ++ mark ++ "\r\n".toList)
  match x.1.content with
  | .text value => do
    let v ← resolveField resolve value (partField x.2 "value")
    let out := out ++ encodeUtf8 ("Content-Disposition: form-data; name=\"".toList ++ name ++ "\"\r\n".toList)
    let out := x.1.contentType.elim out fun ct => out ++ encodeUtf8 ("Content-Type: ".toList ++ ct ++ "\r\n".toList)
    pure (out ++ encodeUtf8 "\r\n".toList ++ encodeUtf8 v ++ encodeUtf8 "\r\n".toList,
      s.2 || isCredentialName resolvedName names)
  | .file attachment fileName => do
    let data ← loadPart load x.2 attachment
    let fname := sentFileName attachment fileName
    let out := out ++ encodeUtf8 ("Content-Disposition: form-data; name=\"".toList ++ name ++ "\"; filename=\"".toList ++
      replaceQuotes fname ++ "\"\r\n".toList)
    let out := out ++ encodeUtf8 ("Content-Type: ".toList ++ x.1.contentType.getD "application/octet-stream".toList ++
      "\r\n\r\n".toList)
    pure (out ++ data ++ encodeUtf8 "\r\n".toList, s.2)

def multipartBody (random : List UInt8) (parts : List MultipartPart) : Except (BodyFailure ε) MultipartBody := do
  let s ← (parts.zipIdx.filter (·.1.enabled)).foldlM (multipartStep names resolve load (boundary random)) ([], false)
  pure ⟨s.1 ++ encodeUtf8 ("--".toList ++ boundary random ++ "--\r\n".toList),
    "multipart/form-data; boundary=".toList ++ boundary random, s.2⟩

/-! ## The parts that are sent -/

structure SentPart where
  name : Text
  fileName : Option Text
  contentType : Option Text
  content : List UInt8

def sentPart (x : MultipartPart × Nat) : Except (BodyFailure ε) SentPart := do
  let name ← resolveField resolve x.1.name (partField x.2 "name")
  match x.1.content with
  | .text value => do
    let v ← resolveField resolve value (partField x.2 "value")
    pure ⟨name, none, x.1.contentType, encodeUtf8 v⟩
  | .file attachment fileName => do
    let data ← loadPart load x.2 attachment
    pure ⟨name, some (sentFileName attachment fileName), some (x.1.contentType.getD "application/octet-stream".toList), data⟩

/-- The enabled parts, in order. -/
def sentParts (parts : List MultipartPart) : Except (BodyFailure ε) (List SentPart) :=
  (parts.zipIdx.filter (·.1.enabled)).mapM (sentPart resolve load)

end Body

/-- A name that stands between quotes as it is meant, once its quotes are replaced. -/
structure CleanName (name : Text) : Prop where
  slash : '\\' ∉ name
  cr : '\r' ∉ name
  percent : ¬"%22".toList <:+: name

namespace SentPart

/-- What stands between the delimiters for a part. -/
def block (s : SentPart) : List UInt8 :=
  layout (escapeQuotes (encodeUtf8 s.name)) (s.fileName.map fun f => escapeQuotes (encodeUtf8 f))
    (s.contentType.map encodeUtf8) s.content

/-- A part as a reader of forms should get it. -/
def read (s : SentPart) : FormPart := ⟨encodeUtf8 s.name, s.fileName.map encodeUtf8, s.contentType.map encodeUtf8, s.content⟩

/-- The boundary is nowhere in the part. -/
def Free (mark : Text) (s : SentPart) : Prop :=
  ¬mark <:+: s.name ∧ (∀ f ∈ s.fileName, ¬mark <:+: f) ∧ (∀ t ∈ s.contentType, ¬mark <:+: t) ∧ ¬encodeUtf8 mark <:+: s.content

/-- No backslash, carriage return or `%22` in a name, and no line break in the content type. -/
structure Clean (s : SentPart) : Prop where
  name : CleanName s.name
  fileName : ∀ f ∈ s.fileName, CleanName f
  contentType : ∀ t ∈ s.contentType, ¬"\r\n".toList <:+: t

end SentPart

/-! ## The bytes of the body -/

theorem escapeQuotes_append (s t : List UInt8) : escapeQuotes (s ++ t) = escapeQuotes s ++ escapeQuotes t :=
    List.flatMap_append

theorem escapeQuotes_self {s : List UInt8} (h : 0x22 ∉ s) : escapeQuotes s = s := by
  induction s with
  | nil => rfl
  | cons b s ih =>
    rw [List.mem_cons, not_or] at h
    rw [escapeQuotes_cons, if_neg (Ne.symm h.1), ih h.2]
    rfl

theorem encodeUtf8_replaceQuotes (s : Text) : encodeUtf8 (replaceQuotes s) = escapeQuotes (encodeUtf8 s) := by
  induction s with
  | nil => rfl
  | cons c s ih =>
    have hcons : replaceQuotes (c :: s) = (if c = '"' then "%22".toList else [c]) ++ replaceQuotes s := List.flatMap_cons
    have hone : encodeUtf8 (c :: s) = encodeUtf8 [c] ++ encodeUtf8 s := encodeUtf8_append [c] s
    rw [hcons, encodeUtf8_append, ih, hone, escapeQuotes_append]
    congr 1
    split_ifs with hc
    · rw [hc]
      decide
    · refine (escapeQuotes_self fun hq => hc ?_).symm
      exact (List.mem_singleton.1 (ascii_mem_encodeUtf8 (by decide) hq)).symm

/-- A part with the delimiter line before it. -/
def delimited (mark : Text) (p : SentPart) : List UInt8 := [0x2D, 0x2D] ++ encodeUtf8 mark ++ crlf ++ p.block ++ crlf

theorem encodeUtf8_dashes : encodeUtf8 "--".toList = [0x2D, 0x2D] := by decide

theorem encodeUtf8_crlf : encodeUtf8 "\r\n".toList = crlf := by decide

theorem encodeUtf8_opening : encodeUtf8 "Content-Disposition: form-data; name=\"".toList =
    encodeUtf8 "Content-Disposition: form-data; name=".toList ++ [0x22] := by decide

theorem encodeUtf8_closing : encodeUtf8 "\"\r\n".toList = 0x22 :: crlf := by decide

theorem encodeUtf8_between :
    encodeUtf8 "\"; filename=\"".toList = 0x22 :: (encodeUtf8 "; filename=".toList ++ [0x22]) := by decide

theorem encodeUtf8_blank : encodeUtf8 "\r\n\r\n".toList = crlf ++ crlf := by decide

section Bytes
variable {ε : Type} (names : List Text) (resolve : Text → Text → Except ε Text)
    (load : AttachmentRef → Except Text (List UInt8))

/-- What one part adds. -/
theorem multipartStep_bytes (mark : Text) (s : List UInt8 × Bool) (x : MultipartPart × Nat) :
    (multipartStep names resolve load mark s x).map Prod.fst = (sentPart resolve load x).map fun p => s.1 ++
      delimited mark p := by
  unfold multipartStep sentPart
  cases resolveField resolve x.1.name (partField x.2 "name") with
  | error e => rfl
  | ok name =>
    simp only [ok_bind]
    cases x.1.content with
    | text value =>
      dsimp only
      cases resolveField resolve value (partField x.2 "value") with
      | error e => rfl
      | ok v =>
        simp only [ok_bind]
        refine congrArg Except.ok ?_
        unfold delimited SentPart.block layout dispositionLine quoted typeLine
        cases x.1.contentType with
        | none =>
          simp only [Option.elim_none, Option.map_none, encodeUtf8_append, encodeUtf8_replaceQuotes, encodeUtf8_dashes,
            encodeUtf8_crlf,
            encodeUtf8_opening, encodeUtf8_closing, List.append_assoc, List.cons_append, List.nil_append, List.append_nil]
        | some t =>
          simp only [Option.elim_none, Option.elim_some, Option.map_none, Option.map_some, encodeUtf8_append,
            encodeUtf8_replaceQuotes,
            encodeUtf8_dashes, encodeUtf8_crlf, encodeUtf8_opening, encodeUtf8_closing, List.append_assoc, List.cons_append,
            List.nil_append, List.append_nil]
    | file attachment fileName =>
      dsimp only
      cases loadPart load x.2 attachment with
      | error e => rfl
      | ok data =>
        simp only [ok_bind]
        refine congrArg Except.ok ?_
        unfold delimited SentPart.block layout dispositionLine quoted typeLine
        simp only [Option.elim_some, Option.map_some, encodeUtf8_append, encodeUtf8_replaceQuotes, encodeUtf8_dashes,
          encodeUtf8_crlf,
          encodeUtf8_opening, encodeUtf8_closing, encodeUtf8_between, encodeUtf8_blank, List.append_assoc, List.cons_append,
          List.nil_append]

/-- What the loop adds. -/
theorem foldlM_bytes (mark : Text) (l : List (MultipartPart × Nat)) (s : List UInt8 × Bool) :
    (l.foldlM (multipartStep names resolve load mark) s).map Prod.fst =
      (l.mapM (sentPart resolve load)).map fun ps => s.1 ++ ps.flatMap (delimited mark) := by
  induction l generalizing s with
  | nil => exact congrArg Except.ok (List.append_nil s.1).symm
  | cons x l ih =>
    have hstep := multipartStep_bytes names resolve load mark s x
    rw [List.foldlM_cons, List.mapM_cons]
    cases hnext : multipartStep names resolve load mark s x with
    | error e =>
      cases hpart : sentPart resolve load x with
      | error e' =>
        rw [hnext, hpart] at hstep
        exact congrArg Except.error (Except.error.inj hstep)
      | ok p =>
        rw [hnext, hpart] at hstep
        cases hstep
    | ok next =>
      cases hpart : sentPart resolve load x with
      | error e' =>
        rw [hnext, hpart] at hstep
        cases hstep
      | ok p =>
        rw [hnext, hpart] at hstep
        have hbytes : next.1 = s.1 ++ delimited mark p := Except.ok.inj hstep
        rw [ok_bind, ok_bind, ih next, hbytes]
        cases l.mapM (sentPart resolve load) with
        | error e => rfl
        | ok ps =>
          refine congrArg Except.ok ?_
          dsimp only
          rw [List.flatMap_cons, List.append_assoc]

/-- The parts, laid out between delimiters. -/
def writeForm (mark : Text) (sent : List SentPart) : List UInt8 := writeBlocks (encodeUtf8 mark) (sent.map SentPart.block)

theorem multipartBody_bytes (random : List UInt8) (parts : List MultipartPart) :
    (multipartBody names resolve load random parts).map MultipartBody.bytes =
      (sentParts resolve load parts).map (writeForm (boundary random)) := by
  have hfold := foldlM_bytes names resolve load (boundary random) (parts.zipIdx.filter (·.1.enabled)) ([], false)
  have hend : encodeUtf8 ("--".toList ++ boundary random ++ "--\r\n".toList) =
      [0x2D, 0x2D] ++ encodeUtf8 (boundary random) ++ [0x2D, 0x2D] ++ crlf := by
    have hlast : encodeUtf8 "--\r\n".toList = [0x2D, 0x2D] ++ crlf := by decide
    rw [encodeUtf8_append, encodeUtf8_append, encodeUtf8_dashes, hlast]
    simp only [List.append_assoc]
  have hwrite : ∀ ps, writeForm (boundary random) ps =
      ps.flatMap (delimited (boundary random)) ++ encodeUtf8 ("--".toList ++ boundary random ++ "--\r\n".toList) := by
    intro ps
    unfold writeForm writeBlocks
    rw [hend, List.flatMap_map]
    rfl
  unfold multipartBody sentParts
  cases hrun : (parts.zipIdx.filter (·.1.enabled)).foldlM (multipartStep names resolve load (boundary random))
    ([], false) with
  | error e =>
    cases hparts : (parts.zipIdx.filter (·.1.enabled)).mapM (sentPart resolve load) with
    | error e' =>
      rw [hrun, hparts] at hfold
      exact congrArg Except.error (Except.error.inj hfold)
    | ok ps =>
      rw [hrun, hparts] at hfold
      cases hfold
  | ok s =>
    cases hparts : (parts.zipIdx.filter (·.1.enabled)).mapM (sentPart resolve load) with
    | error e' =>
      rw [hrun, hparts] at hfold
      cases hfold
    | ok ps =>
      rw [hrun, hparts] at hfold
      have hbytes : s.1 = ps.flatMap (delimited (boundary random)) := Except.ok.inj hfold
      refine congrArg Except.ok ?_
      dsimp only
      rw [hwrite, hbytes]

end Bytes

/-! ## Reading the body -/

theorem infix_encodeUtf8 {p t : Text} (hp : p ≠ []) : encodeUtf8 p <:+: encodeUtf8 t ↔ p <:+: t := by
  constructor
  · rintro ⟨x, y, hsplit⟩
    rw [List.append_assoc] at hsplit
    obtain ⟨pre, post, rfl, -, hpost⟩ := encodeUtf8_infix hp hsplit.symm
    exact hpost.isInfix.trans List.infix_append_right
  · rintro ⟨x, y, rfl⟩
    rw [encodeUtf8_append, encodeUtf8_append]
    exact List.infix_append _ _ _

/-- A byte of the boundary is a dash, a letter or a digit. -/
def isMarkByte (b : UInt8) : Bool := b = 0x2D || (0x30 ≤ b && b ≤ 0x39) || (0x41 ≤ b && b ≤ 0x5A) || (0x61 ≤ b && b ≤ 0x7A)

theorem isMarkByte_boundary {random : List UInt8} {b : UInt8} (h : b ∈ encodeUtf8 (boundary random)) :
    isMarkByte b = true := by
  have hdigit : ∀ n : Fin 16, (encodeUtf8 [Nat.digitChar n]).all isMarkByte = true := by decide
  have hlit : (encodeUtf8 "----AnvilFormBoundary".toList).all isMarkByte = true := by decide
  unfold boundary at h
  rw [encodeUtf8_append] at h
  rcases List.mem_append.1 h with h | h
  · exact List.all_eq_true.1 hlit b h
  · unfold Session.hexEncode encodeUtf8 at h
    rw [List.flatMap_assoc] at h
    obtain ⟨d, -, hd⟩ := List.mem_flatMap.1 h
    have hhigh : d.toNat / 16 < 16 := Nat.div_lt_of_lt_mul d.toNat_lt
    have hlow : d.toNat % 16 < 16 := Nat.mod_lt _ (by decide)
    change b ∈ encodeUtf8 ([Nat.digitChar (d.toNat / 16)] ++ [Nat.digitChar (d.toNat % 16)]) at hd
    rw [encodeUtf8_append] at hd
    rcases List.mem_append.1 hd with hd | hd
    · exact List.all_eq_true.1 (hdigit ⟨_, hhigh⟩) b hd
    · exact List.all_eq_true.1 (hdigit ⟨_, hlow⟩) b hd

/-- The boundary is foreign to what the code writes of itself. -/
theorem boundary_eq (random : List UInt8) : ∃ r, encodeUtf8 (boundary random) = 0x2D :: r ∧ 0x41 ∈ r := by
  refine ⟨encodeUtf8 ("---AnvilFormBoundary".toList ++ Session.hexEncode random), rfl, ?_⟩
  rw [encodeUtf8_append]
  exact List.mem_append_left _ (by decide)

theorem not_infix_block {random : List UInt8} {s : SentPart} (h : s.Free (boundary random)) :
    ¬delimiter (encodeUtf8 (boundary random)) <:+: s.block := by
  obtain ⟨hname, hfile, htype, hcontent⟩ := h
  obtain ⟨r, hr, hA⟩ := boundary_eq random
  have hne : boundary random ≠ [] := List.cons_ne_nil _ _
  have hbyte : ∀ {b : UInt8}, isMarkByte b = false → b ∉ 0x2D :: r := by
    intro b hb hmem
    rw [← hr] at hmem
    rw [isMarkByte_boundary hmem] at hb
    cases hb
  have hlit : ∀ {l : List UInt8}, 0x41 ∉ l → ¬0x2D :: r <:+: l := fun hl h => hl (h.subset (List.mem_cons_of_mem _ hA))
  have hforeign : Foreign (0x2D :: r) := ⟨hbyte (by decide), hlit (by decide), hlit (by decide)⟩
  intro hblock
  have hmark : 0x2D :: r <:+: s.block := by
    rw [← hr]
    exact (show encodeUtf8 (boundary random) <:+: delimiter (encodeUtf8 (boundary random)) from
      ⟨[0x0D, 0x0A, 0x2D, 0x2D], [], List.append_nil _⟩).trans hblock
  have hback : ∀ {t : Text}, 0x2D :: r <:+: escapeQuotes (encodeUtf8 t) → boundary random <:+: t := by
    intro t ht
    rw [← infix_encodeUtf8 hne, hr]
    exact infix_escapeQuotes (hbyte (by decide)) (by decide) ht
  rcases infix_layout hforeign (hbyte (by decide)) (hbyte (by decide)) (hbyte (by decide)) (hlit (by decide)) hmark with
    h | ⟨f, hf, h⟩ | ⟨t, ht, h⟩ | h
  · exact hname (hback h)
  · obtain ⟨g, hg, rfl⟩ := Option.map_eq_some_iff.1 hf
    exact hfile g hg (hback h)
  · obtain ⟨g, hg, rfl⟩ := Option.map_eq_some_iff.1 ht
    rw [← hr, infix_encodeUtf8 hne] at h
    exact htype g hg h
  · rw [← hr] at h
    exact hcontent h

theorem crlf_encodeUtf8 {t : Text} : crlf <:+: encodeUtf8 t ↔ "\r\n".toList <:+: t := by
  rw [← encodeUtf8_crlf]
  exact infix_encodeUtf8 (List.cons_ne_nil _ _)

theorem quoteEscape_encodeUtf8 {t : Text} : quoteEscape <:+: encodeUtf8 t ↔ "%22".toList <:+: t := by
  have hlit : encodeUtf8 "%22".toList = quoteEscape := by decide
  rw [← hlit]
  exact infix_encodeUtf8 (List.cons_ne_nil _ _)

theorem mem_encodeUtf8_escaped {t : Text} {b : UInt8} (hb : b < 0x80) (hnot : b ∉ [0x25, 0x32])
    (h : b ∈ escapeQuotes (encodeUtf8 t)) : Char.ofNat b.toNat ∈ t := by
  obtain ⟨x, hx, hmem⟩ := List.mem_flatMap.1 h
  split_ifs at hmem
  · exact absurd hmem (by simpa using hnot)
  · rw [List.mem_singleton.1 hmem] at hb ⊢
    exact ascii_mem_encodeUtf8 hb hx

/-- A clean name needs no quoted pair, and is read as it was. -/
theorem CleanName.plain {t : Text} (h : CleanName t) : Plain (escapeQuotes (encodeUtf8 t)) :=
  ⟨fun hc => h.slash (mem_encodeUtf8_escaped (by decide) (by decide) hc),
    fun hc => h.cr (mem_encodeUtf8_escaped (by decide) (by decide) hc)⟩

theorem CleanName.unquote {t : Text} (h : CleanName t) : unquote (escapeQuotes (encodeUtf8 t)) = encodeUtf8 t :=
  unquote_escapeQuotes fun hq => h.percent (quoteEscape_encodeUtf8.1 hq)

theorem cleanName_of_plain {t : Text} (h : Plain (encodeUtf8 t) ∧ ¬quoteEscape <:+: encodeUtf8 t) : CleanName t where
  slash := fun hc => h.1.slash (List.mem_flatMap.2 ⟨'\\', hc, by decide⟩)
  cr := fun hc => h.1.cr (List.mem_flatMap.2 ⟨'\r', hc, by decide⟩)
  percent := fun hq => h.2 (quoteEscape_encodeUtf8.2 hq)

/-- A clean part is read as it was. -/
theorem formPart_block {s : SentPart} (h : s.Clean) : formPart s.block = some s.read := by
  obtain ⟨hname, hfile, htype⟩ := h
  unfold SentPart.block SentPart.read
  rw [formPart_layout ⟨quote_not_mem_escapeQuotes _, hname.plain⟩, hname.unquote, Option.map_map]
  · have hfiles : s.fileName.map (Multipart.unquote ∘ fun f => escapeQuotes (encodeUtf8 f)) = s.fileName.map encodeUtf8 :=
      Option.map_congr fun f hf => (hfile f hf).unquote
    rw [hfiles]
  · intro f hf
    obtain ⟨g, hg, rfl⟩ := Option.map_eq_some_iff.1 hf
    exact ⟨quote_not_mem_escapeQuotes _, (hfile g hg).plain⟩
  · intro t ht
    obtain ⟨g, hg, rfl⟩ := Option.map_eq_some_iff.1 ht
    exact fun hc => htype g hg (crlf_encodeUtf8.1 hc)

theorem slashes_escapeQuotes (s : List UInt8) : slashes (escapeQuotes s) = slashes s := by
  induction s with
  | nil => rfl
  | cons b s ih =>
    rw [escapeQuotes_cons, slashes_append, ih, slashes_cons]
    split_ifs with hq hs hs
    · exact absurd (hq.symm.trans hs) (by decide)
    · exact Nat.zero_add _
    · rw [hs, Nat.add_comm]
      rfl
    · rw [slashes_cons, if_neg hs]
      exact Nat.zero_add _

theorem slashes_block (s : SentPart) : s.read.slashes = slashes s.block := by
  unfold SentPart.read SentPart.block FormPart.slashes
  rw [slashes_layout, slashes_escapeQuotes]
  dsimp only
  cases s.fileName with
  | none => cases s.contentType <;> rfl
  | some f =>
    rw [Option.map_some, Option.map_some, Option.elim_some, Option.elim_some, slashes_escapeQuotes]

/-- A part that is read as it was is clean: no backslash was lost. -/
theorem clean_of_read {s : SentPart} (h : formPart s.block = some s.read) : s.Clean := by
  have hclean := (formPart_slashes h).2 (slashes_block s)
  refine ⟨cleanName_of_plain hclean.name, fun f hf => ?_, fun t ht hc => ?_⟩
  · exact cleanName_of_plain (hclean.fileName _ (Option.map_eq_some_iff.2 ⟨f, hf, rfl⟩))
  · exact hclean.contentType _ (Option.map_eq_some_iff.2 ⟨t, ht, rfl⟩) (crlf_encodeUtf8.2 hc)

/-- Every block is read on its own. -/
theorem mapM_block {sent : List SentPart} (h : (sent.map SentPart.block).mapM formPart = some (sent.map SentPart.read)) :
    ∀ s ∈ sent, formPart s.block = some s.read := by
  induction sent with
  | nil => exact fun s hs => absurd hs List.not_mem_nil
  | cons s sent ih =>
    rw [List.map_cons, List.mapM_cons] at h
    obtain ⟨p, hp, h⟩ := Option.bind_eq_some_iff.1 h
    obtain ⟨rest, hrest, h⟩ := Option.bind_eq_some_iff.1 h
    obtain ⟨rfl, rfl⟩ := List.cons.inj (Option.some.inj h)
    exact List.forall_mem_cons.2 ⟨hp, ih hrest⟩

/-- The parts are read back exactly when each is clean. -/
theorem readForm_writeForm {random : List UInt8} {sent : List SentPart} (hfree : ∀ s ∈ sent, s.Free (boundary random)) :
    readForm (encodeUtf8 (boundary random)) (writeForm (boundary random) sent) = some (sent.map SentPart.read) ↔
      ∀ s ∈ sent, s.Clean := by
  have hcr : 0x0D ∉ encodeUtf8 (boundary random) := fun h => absurd (isMarkByte_boundary h) (by decide)
  have hblocks : readForm (encodeUtf8 (boundary random)) (writeForm (boundary random) sent) =
      (sent.map SentPart.block).mapM formPart := by
    unfold readForm writeForm
    rw [readBlocks_writeBlocks hcr, Option.bind_some]
    intro b hb
    obtain ⟨s, hs, rfl⟩ := List.mem_map.1 hb
    exact not_infix_block (hfree s hs)
  rw [hblocks]
  constructor
  · exact fun h s hs => clean_of_read (mapM_block h s hs)
  · intro h
    clear hblocks hfree
    induction sent with
    | nil => rfl
    | cons s sent ih =>
      obtain ⟨hs, hrest⟩ := List.forall_mem_cons.1 h
      rw [List.map_cons, List.mapM_cons, formPart_block hs, ih hrest]
      rfl

/-- **A multipart body.** Where the parts resolve, and the boundary is in none of them, a reader of forms gets exactly the
enabled parts back, in order, each with its name, file name, content type and content, if and only if no name has a backslash,
a carriage return or a `%22`, and no content type a line break. -/
theorem multipart_exact {ε : Type} (names : List Text) {resolve : Text → Text → Except ε Text}
    {load : AttachmentRef → Except Text (List UInt8)}
    {random : List UInt8} {parts : List MultipartPart} {sent : List SentPart}
    (hsent : sentParts resolve load parts = .ok sent)
    (hfree : ∀ s ∈ sent, s.Free (boundary random)) : ∃ body, multipartBody names resolve load random parts = .ok body ∧
      (readForm (encodeUtf8 (boundary random)) body.bytes = some (sent.map SentPart.read) ↔ ∀ s ∈ sent, s.Clean) := by
  have hbytes := multipartBody_bytes names resolve load random parts
  rw [hsent] at hbytes
  cases hbody : multipartBody names resolve load random parts with
  | error e =>
    rw [hbody] at hbytes
    cases hbytes
  | ok body =>
    rw [hbody] at hbytes
    have hwritten : body.bytes = writeForm (boundary random) sent := Except.ok.inj hbytes
    refine ⟨body, rfl, ?_⟩
    rw [hwritten]
    exact readForm_writeForm hfree

/-- A line break in a name ends its header line. -/
theorem name_breaks_line :
    ∃ (sent : List SentPart) (body : MultipartBody),
      sentParts (fun t _ => (.ok t : Except Unit Text)) (fun _ => .error [])
        [⟨"a\r\nb".toList, true, .text "v".toList, none⟩] = .ok sent ∧
      (∀ s ∈ sent, s.Free (boundary (List.replicate 12 0))) ∧
      multipartBody [] (fun t _ => (.ok t : Except Unit Text)) (fun _ => .error []) (List.replicate 12 0)
        [⟨"a\r\nb".toList, true, .text "v".toList, none⟩] = .ok body ∧
      readForm (encodeUtf8 (boundary (List.replicate 12 0))) body.bytes ≠ some (sent.map SentPart.read) := by
  refine ⟨_, _, rfl, ?_, rfl, by decide +kernel⟩
  intro s hs
  rw [List.mem_singleton.1 hs]
  exact ⟨by decide, fun _ hf => (by cases hf), fun _ ht => (by cases ht), by decide⟩

/-- A quote in a name, a delimiter line of another boundary in a content, and a file without a name of its own. -/
theorem multipart_exact_two :
    ∃ (sent : List SentPart) (body : MultipartBody), sent.length = 2 ∧
      multipartBody [] (fun t _ => (.ok t : Except Unit Text)) (fun _ => .ok [0x00, 0xFF]) (List.replicate 12 0)
        [⟨"a\"b".toList, true, .text "\r\n--x--\r\n".toList, some "text/plain".toList⟩, ⟨"c".toList, false, .text [], none⟩,
          ⟨"f".toList, true, .file (.linkedFile "dir/x.bin".toList) none, none⟩] = .ok body ∧
      readForm (encodeUtf8 (boundary (List.replicate 12 0))) body.bytes = some (sent.map SentPart.read) := by
  let sent : List SentPart := [⟨"a\"b".toList, none, some "text/plain".toList, encodeUtf8 "\r\n--x--\r\n".toList⟩,
    ⟨"f".toList, some "x.bin".toList, some "application/octet-stream".toList, [0x00, 0xFF]⟩]
  have hfree : ∀ s ∈ sent, s.Free (boundary (List.replicate 12 0)) := by
    intro s hs
    rcases List.mem_pair.1 hs with rfl | rfl
    · exact ⟨by decide, fun _ hf => (by cases hf), fun t ht => (by cases ht; decide), by decide⟩
    · exact ⟨by decide, fun f hf => (by cases hf; decide), fun t ht => (by cases ht; decide), by decide⟩
  have hclean : ∀ s ∈ sent, s.Clean := by
    intro s hs
    rcases List.mem_pair.1 hs with rfl | rfl
    · exact ⟨⟨by decide, by decide, by decide⟩, fun _ hf => (by cases hf), fun t ht => (by cases ht; decide)⟩
    · exact ⟨⟨by decide, by decide, by decide⟩, fun f hf => (by cases hf; exact ⟨by decide, by decide, by decide⟩),
        fun t ht => (by cases ht; decide)⟩
  have hsent : sentParts (fun t _ => (.ok t : Except Unit Text)) (fun _ => .ok [0x00, 0xFF])
      [⟨"a\"b".toList, true, .text "\r\n--x--\r\n".toList, some "text/plain".toList⟩, ⟨"c".toList, false, .text [], none⟩,
        ⟨"f".toList, true, .file (.linkedFile "dir/x.bin".toList) none, none⟩] = .ok sent := rfl
  obtain ⟨body, hbody, hread⟩ := multipart_exact [] hsent hfree
  exact ⟨sent, body, rfl, hbody, hread.2 hclean⟩

end Anvil.Engine
