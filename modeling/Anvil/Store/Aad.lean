import Anvil.Lib.Bytes
import Anvil.Lib.Json
import Anvil.Lib.Utf8Match
import Anvil.Store.Records

/-!
# What an envelope is bound to (`anvil-storage/src/store.rs`)

The associated data of every payload that the database keeps, and of the canaries. XChaCha20-Poly1305 is a parameter
(`Aead`).

* `Aead`, `framedAead` : the cipher, and one that puts the key and the associated data in front;
* `Sealed`, `Sealed.aad` : what is sealed, with its associated data;
* `Sealed.family`, `heading` : the part of the data that no id takes part in;
* `sealed_apart` : two different records never share their data, so neither opens as the other.
-/

namespace Anvil.Store
open Anvil.Lib Anvil.Storage

/-! ## The cipher -/

/-- `crypto::seal` (under a nonce) and `crypto::open`. An envelope opens exactly under the key and the associated data that
it was sealed with. -/
structure Aead where
  sealWith : Key → Bytes → Bytes → Bytes → Bytes
  openWith : Key → Bytes → Bytes → Option Bytes
  open_seal : ∀ k nonce a m, openWith k a (sealWith k nonce a m) = some m
  open_other : ∀ k a k' a' nonce m, (k, a) ≠ (k', a') → openWith k' a' (sealWith k nonce a m) = none

theorem Aead.open_seal_eq (c : Aead) (k k' : Key) (nonce a a' m : Bytes) :
    c.openWith k' a' (c.sealWith k nonce a m) = if (k, a) = (k', a') then some m else none := by
  split_ifs with h
  · obtain ⟨rfl, rfl⟩ := Prod.mk.inj h
    exact c.open_seal k nonce a m
  · exact c.open_other k a k' a' nonce m h

/-- The key and the associated data, after the length of the latter. -/
def framed (k : Key) (a : Bytes) : Bytes := List.replicate a.length 1 ++ 0 :: (k.bytes ++ a)

theorem framed_inj {k k' : Key} {a a' x x' : Bytes} (h : framed k a ++ x = framed k' a' ++ x') : k = k' ∧ a = a' := by
  unfold framed at h
  rw [List.append_assoc, List.append_assoc] at h
  have hcut : ∀ (n : Nat) (t : Bytes), ((List.replicate n (1 : UInt8)) ++ 0 :: t).takeWhile (· = 1) = List.replicate n 1 := by
    intro n t
    rw [List.takeWhile_append_of_pos]
    · simp
    · intro b hb
      simp [List.eq_of_mem_replicate hb]
  have hlen : a.length = a'.length := by
    have hones := congrArg (List.takeWhile (· = 1)) h
    simp only [List.cons_append] at hones
    rw [hcut, hcut] at hones
    simpa using congrArg List.length hones
  rw [hlen] at h
  have hrest := (List.cons.inj (List.append_cancel_left h)).2
  change k.bytes ++ a ++ x = k'.bytes ++ a' ++ x' at hrest
  rw [List.append_assoc, List.append_assoc] at hrest
  obtain ⟨hkey, hrest⟩ := List.append_inj hrest (by rw [k.length_eq, k'.length_eq])
  refine ⟨?_, (List.append_inj hrest hlen).1⟩
  cases k
  cases k'
  simpa using hkey

/-- A cipher that hides nothing, but opens nothing else. -/
def framedAead : Aead where
  sealWith := fun k _ a m => framed k a ++ m
  openWith := fun k a env => dropPrefix (framed k a) env
  open_seal := fun _ _ _ _ => dropPrefix_eq_some.2 rfl
  open_other := by
    intro k a k' a' _ m h
    cases hopen : dropPrefix (framed k' a') (framed k a ++ m) with
    | none => rfl
    | some t =>
      obtain ⟨rfl, rfl⟩ := framed_inj (dropPrefix_eq_some.1 hopen)
      exact absurd rfl h

/-! ## Sealed records -/

/-- `kind`: the kinds of the objects table. -/
def kinds : List String :=
  ["workspace", "folder", "request", "revision", "environment", "tls_profile", "proxy_profile", "integration", "dataset",
    "scenario", "load_plan", "app_settings", "user_profile", "import_source", "spec_source", "run_report", "api_ruleset",
    "token_file", "linked_file", "device_identity_seal"]

abbrev Kind := { kind : Text // kind ∈ kinds.map String.toList }

theorem Kind.slash_not_mem (kind : Kind) : '/' ∉ kind.val := by
  have hall : (kinds.map String.toList).all (fun k => !k.contains '/') = true := by decide
  simpa using List.all_eq_true.1 hall _ kind.property

/-- What is sealed: the rows of the five tables, in the forms of schema 1 and in the later ones, and the canaries. -/
inductive Sealed
  | object (kind : Kind) (id : Text)
  | ownerlessSecret (id : Text)
  | blob (id : Text)
  | bodylessHistory (id : Text)
  | report (id : Text)
  | secret (id : Text) (owner : Option Text)
  | revision (id : Text)
  | history (id : Text) (body : Option Text)
  | canary
  | rotatedCanary
  | manifestCanary
deriving DecidableEq

namespace Sealed

def aad : Sealed → Text
  | object kind id => Store.aad objectsTable kind.val id
  | ownerlessSecret id => Store.aad secretsTable "secret".toList id
  | blob id => Store.aad "blobs".toList "blob".toList id
  | bodylessHistory id => Store.aad "history".toList "record".toList id
  | report id => Store.aad "load_reports".toList "report".toList id
  | secret id owner => secretAad id owner
  | revision id => revisionAad id
  | history id body => historyAad id body
  | canary => "anvil/v1/canary".toList
  | rotatedCanary => "anvil/v2/rotated-canary".toList
  | manifestCanary => "anvil/v3/manifest-canary".toList

/-- The associated data as the cipher takes it. -/
def bytes (s : Sealed) : Bytes := encodeUtf8 s.aad

def family : Sealed → Fin 11
  | object .. => 0
  | ownerlessSecret _ => 1
  | blob _ => 2
  | bodylessHistory _ => 3
  | report _ => 4
  | secret .. => 5
  | revision _ => 6
  | history .. => 7
  | canary => 8
  | rotatedCanary => 9
  | manifestCanary => 10

/-- What follows the heading of a family. -/
def rest : Sealed → Text
  | object kind id => kind.val ++ '/' :: id
  | ownerlessSecret id => "secret".toList ++ '/' :: id
  | blob id => "blob".toList ++ '/' :: id
  | bodylessHistory id => "record".toList ++ '/' :: id
  | report id => "report".toList ++ '/' :: id
  | secret id owner => sized id ++ owner.elim "/profile".toList fun ws => "/workspace/".toList ++ sized ws
  | revision id => sized id
  | history id body => sized id ++ body.elim "/no-body".toList fun b => "/body/".toList ++ sized b
  | canary => []
  | rotatedCanary => []
  | manifestCanary => []

end Sealed

/-- What the data of a table in the form of schema 1 begins with. -/
def tableHeading (table : Text) : Text := "anvil/v1/".toList ++ table ++ ['/']

/-- What all the data of a family begins with. -/
def heading : Fin 11 → Text
  | 0 => tableHeading objectsTable
  | 1 => tableHeading secretsTable
  | 2 => tableHeading "blobs".toList
  | 3 => tableHeading "history".toList
  | 4 => tableHeading "load_reports".toList
  | 5 => "anvil/v2/secrets/secret/".toList
  | 6 => "anvil/v3/objects/revision/".toList
  | 7 => "anvil/v3/history/record/".toList
  | 8 => "anvil/v1/canary".toList
  | 9 => "anvil/v2/rotated-canary".toList
  | 10 => "anvil/v3/manifest-canary".toList

theorem slashed_assoc (start table kind id : Text) :
    start ++ table ++ '/' :: kind ++ '/' :: id = start ++ table ++ ['/'] ++ (kind ++ '/' :: id) := by
  simp

theorem aad_eq_heading (table kind id : Text) : aad table kind id = tableHeading table ++ (kind ++ '/' :: id) :=
  slashed_assoc _ table kind id

theorem secretAad_eq (id : Text) (owner : Option Text) : secretAad id owner = "anvil/v2/secrets/secret/".toList ++
    (sized id ++ owner.elim "/profile".toList fun ws => "/workspace/".toList ++ sized ws) := by
  unfold secretAad
  generalize "anvil/v2/secrets/secret/".toList = start
  cases owner with
  | none => exact List.append_assoc _ _ _
  | some ws =>
    change start ++ sized id ++ "/workspace/".toList ++ sized ws = _
    rw [Option.elim_some, List.append_assoc, List.append_assoc]

theorem historyAad_eq (id : Text) (body : Option Text) : historyAad id body = "anvil/v3/history/record/".toList ++
    (sized id ++ body.elim "/no-body".toList fun b => "/body/".toList ++ sized b) := by
  unfold historyAad
  generalize "anvil/v3/history/record/".toList = start
  cases body with
  | none => exact List.append_assoc _ _ _
  | some b =>
    change start ++ sized id ++ "/body/".toList ++ sized b = _
    rw [Option.elim_some, List.append_assoc, List.append_assoc]

theorem Sealed.aad_eq (s : Sealed) : s.aad = heading s.family ++ s.rest := by
  cases s with
  | object kind id => exact aad_eq_heading _ _ _
  | ownerlessSecret id => exact aad_eq_heading _ _ _
  | blob id => exact aad_eq_heading _ _ _
  | bodylessHistory id => exact aad_eq_heading _ _ _
  | report id => exact aad_eq_heading _ _ _
  | secret id owner => exact secretAad_eq id owner
  | revision id => rfl
  | history id body => exact historyAad_eq id body
  | canary => exact (List.append_nil _).symm
  | rotatedCanary => exact (List.append_nil _).symm
  | manifestCanary => exact (List.append_nil _).symm

/-- No heading begins with another one. -/
theorem heading_prefix_eq : ∀ i j, heading i <+: heading j → i = j := by decide

theorem heading_inj {i j : Fin 11} {x y : Text} (h : heading i ++ x = heading j ++ y) : i = j ∧ x = y := by
  have hij : i = j := by
    rcases List.prefix_or_prefix_of_prefix (List.prefix_append (heading i) x) (h ▸ List.prefix_append (heading j) y)
      with hp | hp
    · exact heading_prefix_eq i j hp
    · exact (heading_prefix_eq j i hp).symm
  subst hij
  exact ⟨rfl, List.append_cancel_left h⟩

/-- The length tells where a sized text ends. -/
theorem sized_inj {s t x y : Text} (h : sized s ++ x = sized t ++ y) : s = t ∧ x = y := by
  have hcolon : ∀ n : Nat, ':' ∉ (Nat.repr n).toList := by
    intro n hc
    rw [Nat.toList_repr] at hc
    exact absurd (Nat.isDigit_of_mem_toDigits (by decide) (by decide) hc) (by decide)
  unfold sized at h
  simp only [List.append_assoc, List.cons_append] at h
  have hsplit := congrArg (splitOnce ':') h
  rw [splitOnce_of_mem (hcolon _), splitOnce_of_mem (hcolon _)] at hsplit
  obtain ⟨hlen, hrest⟩ := Prod.mk.inj (Option.some.inj hsplit)
  rw [Nat.toList_repr, Nat.toList_repr] at hlen
  exact append_inj_utf8Len hrest (Json.toDigits_injective hlen)

theorem binding_inj {absent present : Text} (hp : ¬present <+: absent) {a b : Option Text}
    (h : (a.elim absent fun t => present ++ sized t) = b.elim absent fun t => present ++ sized t) : a = b := by
  cases a with
  | none =>
    cases b with
    | none => rfl
    | some t => exact absurd ⟨sized t, h.symm⟩ hp
  | some s =>
    cases b with
    | none => exact absurd ⟨sized s, h⟩ hp
    | some t =>
      have hsized : sized s ++ [] = sized t ++ [] := congrArg (· ++ []) (List.append_cancel_left h)
      rw [(sized_inj hsized).1]

theorem after_heading_inj {p s t : Text} {c : Char} (h : p ++ c :: s = p ++ c :: t) : s = t :=
  (List.cons.inj (List.append_cancel_left h)).2

theorem Sealed.rest_inj {s t : Sealed} (hf : s.family = t.family) (h : s.rest = t.rest) : s = t := by
  cases s with
  | object kind id =>
    cases t with
    | object kind' id' =>
      have hsplit : splitOnce '/' (kind.val ++ '/' :: id) =
          splitOnce '/' (kind'.val ++ '/' :: id') := congrArg (splitOnce '/') h
      rw [splitOnce_of_mem kind.slash_not_mem, splitOnce_of_mem kind'.slash_not_mem] at hsplit
      obtain ⟨hkind, rfl⟩ := Prod.mk.inj (Option.some.inj hsplit)
      rw [Subtype.ext hkind]
    | _ => cases hf
  | ownerlessSecret id =>
    cases t with
    | ownerlessSecret id' =>
      have hrest : "secret".toList ++ '/' :: id = "secret".toList ++ '/' :: id' := h
      rw [after_heading_inj hrest]
    | _ => cases hf
  | blob id =>
    cases t with
    | blob id' =>
      have hrest : "blob".toList ++ '/' :: id = "blob".toList ++ '/' :: id' := h
      rw [after_heading_inj hrest]
    | _ => cases hf
  | bodylessHistory id =>
    cases t with
    | bodylessHistory id' =>
      have hrest : "record".toList ++ '/' :: id = "record".toList ++ '/' :: id' := h
      rw [after_heading_inj hrest]
    | _ => cases hf
  | report id =>
    cases t with
    | report id' =>
      have hrest : "report".toList ++ '/' :: id = "report".toList ++ '/' :: id' := h
      rw [after_heading_inj hrest]
    | _ => cases hf
  | secret id owner =>
    cases t with
    | secret id' owner' =>
      obtain ⟨rfl, hbound⟩ := sized_inj h
      rw [binding_inj (by decide) hbound]
    | _ => cases hf
  | revision id =>
    cases t with
    | revision id' =>
      have hsized : sized id ++ [] = sized id' ++ [] := congrArg (· ++ []) h
      rw [(sized_inj hsized).1]
    | _ => cases hf
  | history id body =>
    cases t with
    | history id' body' =>
      obtain ⟨rfl, hbound⟩ := sized_inj h
      rw [binding_inj (by decide) hbound]
    | _ => cases hf
  | canary => cases t with | canary => rfl | _ => cases hf
  | rotatedCanary => cases t with | rotatedCanary => rfl | _ => cases hf
  | manifestCanary => cases t with | manifestCanary => rfl | _ => cases hf

theorem Sealed.aad_injective : Function.Injective Sealed.aad := by
  intro s t h
  rw [aad_eq, aad_eq] at h
  obtain ⟨hfamily, hrest⟩ := heading_inj h
  exact rest_inj hfamily hrest

/-- **Associated data never collides**: two sealed records have the same data only where they are the same, so a payload
opens under its own key as itself and as nothing else. -/
theorem sealed_apart : Function.Injective Sealed.bytes ∧ ∀ (c : Aead) (k k' : Key) (s t : Sealed) (nonce m : Bytes),
    c.openWith k' t.bytes (c.sealWith k nonce s.bytes m) = if k = k' ∧ s = t then some m else none := by
  have hinj : Function.Injective Sealed.bytes := encodeUtf8_injective.comp Sealed.aad_injective
  refine ⟨hinj, fun c k k' s t nonce m => ?_⟩
  rw [c.open_seal_eq]
  simp only [Prod.mk.injEq, hinj.eq_iff]

end Anvil.Store
