import Anvil.Lib.JsonText
import Anvil.Lib.Ordered
import Anvil.Lib.Utf8Match
import Anvil.Store.Catalogue

/-!
# The catalogue as it is encoded (`anvil-storage/src/manifest.rs`)

`Catalogue` takes the digests of buckets as functions of their entries. Here names and entries are the texts that are
stored and hashed, and the maps are in the order of the names.

* `nameOf`, `Entry.encode` : the JSON of a name and of an entry; `delimits_encode` : an entry's text tells it;
* `Encoded`, `Encoded.fromEntries`, `Encoded.apply`, `Encoded.root` : the digests, from the entries and as they are kept up
  to date; `none` where the source would index a name that has no entry;
* `Encoded.certified` : what a catalogue is of its entries alone; `fromEntries_eq`, `apply_certified`;
* `entries_of_root` : the root tells the entries;
* `incremental_exact` : the catalogue that is kept up to date is the one from the entries, and its root identifies it.
-/

namespace Anvil.Store
open Anvil.Lib Anvil.Lib.Json

/-! ## Names and entries -/

/-- `name`. -/
def nameOf (table kind id : Text) : Text := (Json.array [.string table, .string kind, .string id]).compact

def Entry.nameText (e : Entry Text) : Text := nameOf e.table e.kind e.id

def optionJson (o : Option Text) : Json := o.elim .null .string

/-- An `i64`. -/
def signedText (i : Int) : Text := if i < 0 then '-' :: Nat.toDigits 10 i.natAbs else Nat.toDigits 10 i.natAbs

def Entry.encode (e : Entry Text) : Text :=
  (Json.object [("table".toList, .string e.table), ("kind".toList, .string e.kind), ("id".toList, .string e.id),
    ("owner".toList, optionJson e.owner), ("parent".toList, optionJson e.parent), ("digest".toList, .string e.digest),
    ("sort_bits".toList, .number (Nat.toDigits 10 e.sortBits.toNat)),
    ("updated_at".toList, .number (signedText e.updatedAt))]).compact

theorem nameOf_eq (table kind id : Text) :
    nameOf table kind id = '[' :: (quote table ++ ',' :: (quote kind ++ ',' :: (quote id ++ [']']))) := by
  simp [nameOf, compact, compactItems]

theorem nameOf_injective {table kind id table' kind' id' : Text} (h : nameOf table kind id = nameOf table' kind' id') :
    table = table' ∧ kind = kind' ∧ id = id' := by
  rw [nameOf_eq, nameOf_eq] at h
  obtain ⟨htable, h⟩ := delimits_quote (List.cons.inj h).2
  obtain ⟨hkind, h⟩ := delimits_quote (List.cons.inj h).2
  obtain ⟨hid, -⟩ := delimits_quote (List.cons.inj h).2
  exact ⟨htable, hkind, hid⟩

theorem delimits_option : Delimits (fun o => (optionJson o).compact) (id : Option Text → Option Text) := by
  intro o o' x x' he
  cases o with
  | none =>
    cases o' with
    | none => exact ⟨rfl, List.append_cancel_left he⟩
    | some t => exact absurd (congrArg List.head? he) (by simp [optionJson, compact, quote])
  | some s =>
    cases o' with
    | none => exact absurd (congrArg List.head? he) (by simp [optionJson, compact, quote])
    | some t =>
      obtain ⟨hst, hx⟩ := delimits_quote he
      exact ⟨congrArg some hst, hx⟩

theorem isDigit_of_mem_toDigits {n : Nat} {c : Char} (hc : c ∈ Nat.toDigits 10 n) : c.isDigit = true :=
  Nat.isDigit_of_mem_toDigits (by decide) (by decide) hc

theorem mem_signedText {i : Int} {c : Char} (hc : c ∈ signedText i) : c = '-' ∨ c.isDigit = true := by
  unfold signedText at hc
  split_ifs at hc
  · exact (List.mem_cons.1 hc).imp id isDigit_of_mem_toDigits
  · exact .inr (isDigit_of_mem_toDigits hc)

theorem signedText_injective {i j : Int} (h : signedText i = signedText j) : i = j := by
  have hminus : ∀ n : Nat, ∀ t : Text, '-' :: t ≠ Nat.toDigits 10 n := by
    intro n t he
    exact absurd (isDigit_of_mem_toDigits (he ▸ List.mem_cons_self)) (by decide)
  unfold signedText at h
  split_ifs at h with hi hj hj
  · have habs := toDigits_injective (List.cons.inj h).2
    omega
  · exact absurd h (hminus _ _)
  · exact absurd h.symm (hminus _ _)
  · have habs := toDigits_injective h
    omega

/-- **An entry's text tells it**, and where it ends. -/
theorem delimits_encode : Delimits Entry.encode (id : Entry Text → Entry Text) := by
  have hbits : Delimits (fun e : Entry Text => Nat.toDigits 10 e.sortBits.toNat ++ [',']) Entry.sortBits :=
    delimits_until (fun e hc => absurd (isDigit_of_mem_toDigits hc) (by decide))
      fun e e' he => UInt64.toNat_inj.1 (toDigits_injective he)
  have htime : Delimits (fun e : Entry Text => signedText e.updatedAt ++ ['\x7d']) Entry.updatedAt := by
    refine delimits_until (fun e hc => ?_) fun e e' he => signedText_injective he
    rcases mem_signedText hc with hc | hc
    · exact absurd hc (by decide)
    · exact absurd hc (by decide)
  have hfield : ∀ {α κ : Type} {v : α → Text} {key : α → κ}, Delimits v key → ∀ {k : Text} {a a' : α} {r r' : Text},
      quote k ++ ':' :: (v a ++ r) = quote k ++ ':' :: (v a' ++ r') → key a = key a' ∧ r = r' :=
    fun hv _ _ _ _ _ he => hv (List.cons.inj (List.append_cancel_left he)).2
  have hmarked : ∀ {κ : Type} {v : Entry Text → Text} {key : Entry Text → κ} {c : Char}, Delimits (fun e => v e ++ [c]) key →
      ∀ {k : Text} {a a' : Entry Text} {r r' : Text},
      quote k ++ ':' :: (v a ++ c :: r) = quote k ++ ':' :: (v a' ++ c :: r') → key a = key a' ∧ r = r' := by
    intro κ v key c hv k a a' r r' he
    have hvalue := (List.cons.inj (List.append_cancel_left he)).2
    exact hv (by rw [List.append_assoc, List.append_assoc]; exact hvalue)
  intro e e' x x' he
  simp only [Entry.encode, compact, compactFields, List.isEmpty_cons, List.isEmpty_nil, if_true, if_false, Bool.false_eq_true,
    List.append_assoc, List.cons_append, List.nil_append, List.append_nil] at he
  have he := (List.cons.inj he).2
  obtain ⟨htable, he⟩ := hfield delimits_quote he
  obtain ⟨hkind, he⟩ := hfield delimits_quote (List.cons.inj he).2
  obtain ⟨hid, he⟩ := hfield delimits_quote (List.cons.inj he).2
  obtain ⟨howner, he⟩ := hfield delimits_option (List.cons.inj he).2
  obtain ⟨hparent, he⟩ := hfield delimits_option (List.cons.inj he).2
  obtain ⟨hdigest, he⟩ := hfield delimits_quote (List.cons.inj he).2
  obtain ⟨hsort, he⟩ := hmarked hbits (List.cons.inj he).2
  obtain ⟨hupdated, hx⟩ := hmarked htime he
  refine ⟨?_, hx⟩
  obtain ⟨table, kind, i, owner, parent, digest, bits, updated⟩ := e
  simp only [id_eq] at htable hkind hid howner hparent hdigest hsort hupdated ⊢
  subst htable hkind hid howner hparent hdigest hsort hupdated
  rfl

/-! ## Digests -/

structure Sha256 where
  digest : Bytes → Bytes
  length_digest : ∀ b, (digest b).length = 32

variable (h : Sha256)

/-- Of the first two bytes of the digest of a name. -/
def bucket (n : Text) : Fin buckets :=
  ⟨ofBeBytes ((h.digest (encodeUtf8 n)).take 2) % buckets, Nat.mod_lt _ (by decide)⟩

def bucketDomain : Bytes := encodeUtf8 ("anvil/v4/catalogue-bucket".toList ++ ['\x00'])

def rootDomain : Bytes := encodeUtf8 ("anvil/v4/catalogue-root".toList ++ ['\x00'])

/-- `hex::encode`. -/
def hexEncode (bytes : Bytes) : Text := bytes.flatMap fun b => [Nat.digitChar (b.toNat / 16), Nat.digitChar (b.toNat % 16)]

/-- An entry after its length, as a `u64`. -/
def framedEntry (e : Entry Text) : Bytes := beBytes 8 (encodeUtf8 e.encode).length ++ encodeUtf8 e.encode

def bucketInput (b : Fin buckets) (listed : List (Entry Text)) : Bytes :=
  bucketDomain ++ (beBytes 4 b ++ listed.flatMap framedEntry)

abbrev EntryMap := Ordered Text (Entry Text)

abbrev EntryEdits := Ordered.Edits Text (Entry Text)

/-- `Catalogue`. A set of names is a map to `Unit`. -/
structure Encoded where
  entries : EntryMap
  members : Fin buckets → Ordered Text Unit
  digests : Fin buckets → Bytes

namespace Encoded

/-- `self.entries[name]` panics for a name without an entry. -/
def bucketDigest (c : Encoded) (b : Fin buckets) : Option Bytes :=
  ((c.members b).keys.mapM c.entries.get?).map fun listed => h.digest (bucketInput b listed)

def rootInput (c : Encoded) : Bytes := rootDomain ++ (List.finRange buckets).flatMap c.digests

def root (c : Encoded) : Text := hexEncode (h.digest c.rootInput)

/-- Recompute the digests of some buckets. -/
def refresh (c : Encoded) (bs : List (Fin buckets)) : Option Encoded :=
  bs.foldlM (fun c b => (c.bucketDigest h b).map fun d => { c with digests := Function.update c.digests b d }) c

def fromEntries (entries : EntryMap) : Option Encoded :=
  let members := entries.keys.foldl
    (fun (m : Fin buckets → Ordered Text Unit) n => Function.update m (bucket h n) ((m (bucket h n)).insert n ()))
    fun _ => Ordered.empty
  refresh h ⟨entries, members, fun _ => List.replicate 32 0⟩ (List.finRange buckets)

/-- The entries and members, and the buckets that were touched. -/
structure Touch where
  entries : EntryMap
  members : Fin buckets → Ordered Text Unit
  touched : Ordered (Fin buckets) Unit

def touch (s : Touch) (e : Text × Option (Entry Text)) : Touch :=
  let b := bucket h e.1
  match e.2 with
  | some v =>
    ⟨s.entries.insert e.1 v, Function.update s.members b ((s.members b).insert e.1 ()), s.touched.insert b ()⟩
  | none => ⟨s.entries.remove e.1, Function.update s.members b ((s.members b).remove e.1), s.touched.insert b ()⟩

def apply (c : Encoded) (changes : EntryEdits) : Option Encoded :=
  let s := changes.list.foldl (touch h) ⟨c.entries, c.members, Ordered.empty⟩
  refresh h ⟨s.entries, s.members, c.digests⟩ s.touched.keys

/-! ## A catalogue of its entries -/

def ofBucket (entries : EntryMap) (b : Fin buckets) : EntryMap := entries.keep fun e => bucket h e.1 = b

def certifiedMembers (entries : EntryMap) (b : Fin buckets) : Ordered Text Unit :=
  (ofBucket h entries b).mapValues fun _ => ()

def certifiedDigest (entries : EntryMap) (b : Fin buckets) : Bytes :=
  h.digest (bucketInput b ((ofBucket h entries b).list.map Prod.snd))

/-- What the catalogue of some entries holds. -/
def certified (entries : EntryMap) : Encoded := ⟨entries, certifiedMembers h entries, certifiedDigest h entries⟩

theorem get?_certifiedMembers (entries : EntryMap) (b : Fin buckets) (n : Text) :
    (certifiedMembers h entries b).get? n = if bucket h n = b then (entries.get? n).map fun _ => () else none := by
  unfold certifiedMembers ofBucket
  rw [Ordered.get?_mapValues, Ordered.get?_keep]
  cases entries.get? n with
  | none => simp
  | some e =>
    by_cases hb : bucket h n = b
    · simp [hb]
    · simp [hb]

/-- No member is without its entry. -/
theorem bucketDigest_certified (entries : EntryMap) (digests : Fin buckets → Bytes) (b : Fin buckets) :
    bucketDigest h ⟨entries, certifiedMembers h entries, digests⟩ b = some (certifiedDigest h entries b) := by
  have hlisted : ∀ e ∈ (ofBucket h entries b).list, e ∈ entries.list := fun e he => (Ordered.mem_keep.1 he).1
  unfold bucketDigest certifiedMembers certifiedDigest
  simp only
  rw [Ordered.keys_mapValues]
  unfold Ordered.keys
  rw [Ordered.mapM_get? entries hlisted]
  rfl

theorem refresh_certified (entries : EntryMap) (bs : List (Fin buckets)) (digests : Fin buckets → Bytes) :
    refresh h ⟨entries, certifiedMembers h entries, digests⟩ bs = some ⟨entries, certifiedMembers h entries,
      fun b => if b ∈ bs then certifiedDigest h entries b else digests b⟩ := by
  unfold refresh
  induction bs generalizing digests with
  | nil => simp
  | cons b bs ih =>
    rw [List.foldlM_cons, bucketDigest_certified]
    simp only [Option.map_some, Option.bind_eq_bind, Option.bind_some]
    rw [ih]
    congr 2
    funext b'
    by_cases hmem : b' ∈ bs
    · simp [hmem]
    · by_cases hb : b' = b
      · simp [hb]
      · simp [hmem, hb]

theorem get?_foldl_members (names : List Text) (members : Fin buckets → Ordered Text Unit) (b : Fin buckets) (n : Text) :
    (names.foldl (fun (m : Fin buckets → Ordered Text Unit) k =>
      Function.update m (bucket h k) ((m (bucket h k)).insert k ())) members b).get? n =
      if n ∈ names ∧ bucket h n = b then some () else (members b).get? n := by
  induction names generalizing members with
  | nil => simp
  | cons k names ih =>
    rw [List.foldl_cons, ih]
    by_cases hmem : n ∈ names ∧ bucket h n = b
    · simp [hmem]
    · rw [if_neg hmem]
      by_cases hb : b = bucket h k
      · subst hb
        rw [Function.update_self, Ordered.get?_insert]
        by_cases hk : n = k
        · simp [hk]
        · rw [if_neg hk, if_neg]
          rintro ⟨hn, hbucket⟩
          rcases List.mem_cons.1 hn with hn | hn
          · exact hk hn
          · exact hmem ⟨hn, hbucket⟩
      · rw [Function.update_of_ne hb, if_neg]
        rintro ⟨hn, hbucket⟩
        rcases List.mem_cons.1 hn with rfl | hn
        · exact hb hbucket.symm
        · exact hmem ⟨hn, hbucket⟩

/-- From the entries: no name is without its entry, and every digest is that of its bucket. -/
theorem fromEntries_eq (entries : EntryMap) : fromEntries h entries = some (certified h entries) := by
  have hmembers : (entries.keys.foldl (fun (m : Fin buckets → Ordered Text Unit) n =>
      Function.update m (bucket h n) ((m (bucket h n)).insert n ())) fun _ => Ordered.empty) =
        certifiedMembers h entries := by
    funext b
    apply Ordered.ext_get?
    intro n
    rw [get?_foldl_members, get?_certifiedMembers]
    by_cases hb : bucket h n = b
    · cases hn : entries.get? n with
      | none => simp [hb, Ordered.mem_keys, hn]
      | some e => simp [hb, Ordered.mem_keys, hn]
    · simp [hb]
  unfold fromEntries
  simp only
  rw [hmembers, refresh_certified]
  simp [certified]

/-- The entries and members under some changes, and the buckets that these touch. -/
theorem foldl_touch (l : List (Text × Option (Entry Text))) (entries : EntryMap) (touched : Ordered (Fin buckets) Unit) :
    (l.foldl (touch h) ⟨entries, certifiedMembers h entries, touched⟩).entries = l.foldl Ordered.patch entries ∧
      (l.foldl (touch h) ⟨entries, certifiedMembers h entries, touched⟩).members =
        certifiedMembers h (l.foldl Ordered.patch entries) ∧
      ∀ b, b ∈ (l.foldl (touch h) ⟨entries, certifiedMembers h entries, touched⟩).touched.keys ↔
        b ∈ touched.keys ∨ ∃ e ∈ l, bucket h e.1 = b := by
  induction l generalizing entries touched with
  | nil => simp
  | cons e l ih =>
    have hstep : touch h ⟨entries, certifiedMembers h entries, touched⟩ e =
        ⟨entries.patch e, certifiedMembers h (entries.patch e), touched.insert (bucket h e.1) ()⟩ := by
      have hmembers : ∀ (s : Ordered Text Unit),
          (∀ n, s.get? n = if n = e.1 then e.2.map (fun _ => ()) else (certifiedMembers h entries (bucket h e.1)).get? n) →
          Function.update (certifiedMembers h entries) (bucket h e.1) s = certifiedMembers h (entries.patch e) := by
        intro s hs
        funext b
        apply Ordered.ext_get?
        intro n
        rw [get?_certifiedMembers, Ordered.get?_patch]
        by_cases hb : b = bucket h e.1
        · subst hb
          rw [Function.update_self, hs, get?_certifiedMembers]
          by_cases hn : n = e.1
          · simp [hn]
          · simp [hn]
        · rw [Function.update_of_ne hb, get?_certifiedMembers]
          by_cases hn : n = e.1
          · subst hn
            rw [if_neg (Ne.symm hb), if_neg (Ne.symm hb)]
          · rw [if_neg hn]
      obtain ⟨n, v⟩ := e
      cases v with
      | some v =>
        rw [← hmembers ((certifiedMembers h entries (bucket h n)).insert n ()) fun k => by rw [Ordered.get?_insert]; congr]
        rfl
      | none =>
        rw [← hmembers ((certifiedMembers h entries (bucket h n)).remove n) fun k => by rw [Ordered.get?_remove]; congr]
        rfl
    rw [List.foldl_cons, hstep, List.foldl_cons]
    obtain ⟨hentries, hmembers, htouched⟩ := ih (entries.patch e) (touched.insert (bucket h e.1) ())
    refine ⟨hentries, hmembers, ?_⟩
    intro b
    rw [htouched, Ordered.mem_keys, Ordered.mem_keys, Ordered.get?_insert]
    by_cases hb : b = bucket h e.1
    · simp [hb]
    · simp [hb, Ne.symm hb]

/-- A bucket that no change falls in stays. -/
theorem ofBucket_override {entries : EntryMap} {changes : EntryEdits} {b : Fin buckets}
    (hb : ∀ e ∈ changes.list, bucket h e.1 ≠ b) : ofBucket h (entries.override changes) b = ofBucket h entries b := by
  apply Ordered.ext_get?
  intro n
  unfold ofBucket
  rw [Ordered.get?_keep, Ordered.get?_keep, Ordered.get?_override]
  cases hn : changes.get? n with
  | none => rfl
  | some v =>
    have hne : bucket h n ≠ b := hb _ (Ordered.get?_eq_some.1 hn)
    simp [hne]

/-- Keeping the catalogue up to date gives that of the changed entries. -/
theorem apply_certified (entries : EntryMap) (changes : EntryEdits) :
    apply h (certified h entries) changes = some (certified h (entries.override changes)) := by
  obtain ⟨hentries, hmembers, htouched⟩ := foldl_touch h changes.list entries Ordered.empty
  unfold apply certified
  simp only
  rw [hentries, hmembers, refresh_certified]
  congr 2
  funext b
  split_ifs with hb
  · rfl
  · rw [htouched, not_or, not_exists] at hb
    have hkeep : ofBucket h (entries.override changes) b = ofBucket h entries b :=
      ofBucket_override h fun e he hbe => hb.2 e ⟨he, hbe⟩
    unfold certifiedDigest
    rw [← hkeep]

theorem foldlM_apply (cs : List EntryEdits) (entries : EntryMap) :
    cs.foldlM (apply h) (certified h entries) = some (certified h (cs.foldl Ordered.override entries)) := by
  induction cs generalizing entries with
  | nil => rfl
  | cons c cs ih =>
    rw [List.foldlM_cons, apply_certified]
    exact ih (entries.override c)

/-! ## What the root tells -/

/-- The entries stand under their names. -/
def Named (entries : EntryMap) : Prop := ∀ e ∈ entries.list, e.1 = e.2.nameText

/-- The entries of some changes do. -/
def NamedEdits (changes : EntryEdits) : Prop := ∀ n e, (n, some e) ∈ changes.list → n = e.nameText

/-- What is hashed for the root of a catalogue. -/
def inputs (c : Encoded) : List Bytes :=
  c.rootInput :: (List.finRange buckets).map fun b => bucketInput b ((ofBucket h c.entries b).list.map Prod.snd)

/-- The hash tells these apart. -/
def TellsApart (l : List Bytes) : Prop := ∀ x ∈ l, ∀ y ∈ l, h.digest x = h.digest y → x = y

/-- A catalogue that was built from entries, and kept up to date. -/
def Built (c : Encoded) : Prop :=
  ∃ (entries : EntryMap) (cs : List EntryEdits), Named entries ∧ (∀ changes ∈ cs, NamedEdits changes) ∧
    ((fromEntries h entries).bind fun c => cs.foldlM (apply h) c) = some c

variable {h}

theorem delimits_framedEntry : Delimits framedEntry (id : Entry Text → Entry Text) := by
  have hlength : Delimits (fun e : Entry Text => beBytes 8 (encodeUtf8 e.encode).length) fun _ => () :=
    delimits_fixed 8 (fun _ => length_beBytes 8 _) fun _ _ _ => rfl
  exact (hlength.append delimits_encode.utf8).imp fun e e' he => (Prod.mk.inj he).2

theorem framedEntry_ne_nil (e : Entry Text) : framedEntry e ≠ [] := by
  intro he
  have hlen := congrArg List.length he
  unfold framedEntry at hlen
  rw [List.length_append, length_beBytes, List.length_nil] at hlen
  omega

/-- The input of a bucket tells its entries. -/
theorem bucketInput_injective {b : Fin buckets} {l l' : List (Entry Text)}
    (he : bucketInput b l = bucketInput b l') : l = l' := by
  have hentries := List.append_cancel_left (List.append_cancel_left he)
  simpa using delimits_framedEntry.flatMap framedEntry_ne_nil hentries

theorem hexEncode_injective : Function.Injective hexEncode := by
  have hdigit : ∀ i < 16, ∀ j < 16, Nat.digitChar i = Nat.digitChar j → i = j := by decide
  have hbyte : Delimits (fun b : UInt8 => [Nat.digitChar (b.toNat / 16), Nat.digitChar (b.toNat % 16)]) id := by
    refine delimits_fixed 2 (fun _ => rfl) fun b b' he => ?_
    have hb := b.toNat_lt
    have hb' := b'.toNat_lt
    obtain ⟨hhigh, hlow⟩ := List.cons.inj he
    have hdiv := hdigit _ (by omega) _ (by omega) hhigh
    have hmod := hdigit _ (by omega) _ (by omega) (List.cons.inj hlow).1
    have hnat : b.toNat = b'.toNat := by omega
    exact UInt8.toNat_inj.1 hnat
  intro l l' he
  simpa using hbyte.flatMap (fun _ => by simp) he

theorem named_override {entries : EntryMap} {changes : EntryEdits} (hn : Named entries) (hc : NamedEdits changes) :
    Named (entries.override changes) := by
  rintro ⟨n, e⟩ he
  have hget := Ordered.get?_eq_some.2 he
  rw [Ordered.get?_override] at hget
  cases hchange : changes.get? n with
  | none =>
    rw [hchange] at hget
    exact hn _ (Ordered.get?_eq_some.1 hget)
  | some v =>
    rw [hchange] at hget
    exact hc n e (Ordered.get?_eq_some.1 (hchange.trans (congrArg some hget)))

theorem Built.certified {c : Encoded} (hc : Built h c) : Named c.entries ∧ c = certified h c.entries := by
  obtain ⟨entries, cs, hn, hcs, he⟩ := hc
  rw [fromEntries_eq, Option.bind_some, foldlM_apply] at he
  obtain rfl := Option.some.inj he
  refine ⟨?_, rfl⟩
  induction cs generalizing entries with
  | nil => exact hn
  | cons changes cs ih =>
    obtain ⟨hchanges, hcs⟩ := List.forall_mem_cons.1 hcs
    exact ih _ (named_override hn hchanges) hcs rfl

/-- **The root tells the entries**, where the hash tells apart what is hashed for the two. -/
theorem entries_of_root {entries entries' : EntryMap} (hn : Named entries) (hn' : Named entries')
    (hinj : TellsApart h (inputs h (certified h entries) ++ inputs h (certified h entries')))
    (he : root h (certified h entries) = root h (certified h entries')) : entries = entries' := by
  have hroot : (certified h entries).rootInput = (certified h entries').rootInput :=
    hinj _ (by simp [inputs]) _ (by simp [inputs]) (hexEncode_injective he)
  have hdigests : ∀ b, certifiedDigest h entries b = certifiedDigest h entries' b := by
    intro b
    have hall := flatMap_fixed 32 (fun b => h.length_digest _) (fun b => h.length_digest _) (List.append_cancel_left hroot)
    exact hall b (List.mem_finRange b)
  have hlists : ∀ b, (ofBucket h entries b).list.map Prod.snd = (ofBucket h entries' b).list.map Prod.snd := by
    intro b
    refine bucketInput_injective (b := b) (hinj _ ?_ _ ?_ (hdigests b))
    · exact List.mem_append_left _ (List.mem_cons_of_mem _ (List.mem_map_of_mem (List.mem_finRange b)))
    · exact List.mem_append_right _ (List.mem_cons_of_mem _ (List.mem_map_of_mem (List.mem_finRange b)))
  have hsub : ∀ {m m' : EntryMap}, Named m → Named m' →
      (∀ b, (ofBucket h m b).list.map Prod.snd = (ofBucket h m' b).list.map Prod.snd) → ∀ e ∈ m.list, e ∈ m'.list := by
    intro m m' hm hm' hbuckets e he
    have hin : e.2 ∈ (ofBucket h m (bucket h e.1)).list.map Prod.snd :=
      List.mem_map_of_mem (Ordered.mem_keep.2 ⟨he, decide_eq_true rfl⟩)
    rw [hbuckets] at hin
    obtain ⟨e', he', hsnd⟩ := List.mem_map.1 hin
    have hmem := (Ordered.mem_keep.1 he').1
    have hfst : e'.1 = e.1 := by rw [hm' e' hmem, hm e he, hsnd]
    exact Prod.ext hfst hsnd ▸ hmem
  exact Ordered.ext_mem fun e => ⟨hsub hn hn' hlists e, hsub hn' hn (fun b => (hlists b).symm) e⟩

/-- **The catalogue that is kept up to date is the one from its entries**, along any changes, and without a name that has
no entry; and of two catalogues with one root the entries are the same, where the hash tells apart what is hashed for
them. -/
theorem incremental_exact (h : Sha256) (entries : EntryMap) (cs : List EntryEdits) :
    (∃ c, ((fromEntries h entries).bind fun c => cs.foldlM (apply h) c) = some c ∧
      fromEntries h (cs.foldl Ordered.override entries) = some c) ∧
    ∀ c c', Built h c → Built h c' → TellsApart h (inputs h c ++ inputs h c') → root h c = root h c' →
      c.entries = c'.entries := by
  refine ⟨⟨certified h (cs.foldl Ordered.override entries), ?_, fromEntries_eq h _⟩, ?_⟩
  · rw [fromEntries_eq, Option.bind_some, foldlM_apply]
  · intro c c' hc hc' hinj he
    obtain ⟨hn, hcert⟩ := hc.certified
    obtain ⟨hn', hcert'⟩ := hc'.certified
    rw [hcert, hcert'] at hinj he
    exact entries_of_root hn hn' hinj he

/-- Thirty-two bytes that show the length, and four bytes from where the bucket stands. -/
def sampleSha : Sha256 where
  digest bytes := beBytes 28 bytes.length ++ ((bytes.drop 26) ++ List.replicate 4 0).take 4
  length_digest bytes := by simp

def keptEntry : Entry Text := ⟨objectsTable, ['r'], ['k'], none, none, ['1'], 0, 7⟩

def removedEntry : Entry Text := ⟨objectsTable, ['r'], ['i'], none, none, ['0'], 0, 5⟩

theorem nameText_ne : keptEntry.nameText ≠ removedEntry.nameText := by
  intro he
  exact absurd (nameOf_injective he).2.2 (by decide)

/-- Write two entries, and remove one. -/
def sampleEdits : List EntryEdits :=
  [(Ordered.empty.insert keptEntry.nameText (some keptEntry)).insert removedEntry.nameText (some removedEntry),
    Ordered.empty.insert removedEntry.nameText none]

def keptEntries : EntryMap := Ordered.empty.insert keptEntry.nameText keptEntry

theorem sampleEdits_entries : sampleEdits.foldl Ordered.override Ordered.empty = keptEntries := by
  apply Ordered.ext_get?
  intro n
  simp only [sampleEdits, keptEntries, List.foldl_cons, List.foldl_nil, Ordered.get?_override, Ordered.get?_insert,
    Ordered.get?_empty]
  by_cases hremoved : n = removedEntry.nameText
  · simp [hremoved, Ne.symm nameText_ne]
  · rw [if_neg hremoved, if_neg hremoved]
    split_ifs
    · rfl
    · rfl

theorem length_rootInput (entries : EntryMap) : (certified h entries).rootInput.length = 32792 := by
  have hlen : ∀ l : List (Fin buckets), (l.flatMap (certified h entries).digests).length = 32 * l.length := by
    intro l
    induction l with
    | nil => rfl
    | cons b l ih =>
      have hb : ((certified h entries).digests b).length = 32 := h.length_digest _
      rw [List.flatMap_cons, List.length_append, ih, hb, List.length_cons]
      omega
  unfold rootInput
  rw [List.length_append, hlen, List.length_finRange]
  decide

theorem length_bucketDomain : bucketDomain.length = 26 := by decide

/-- The buckets are told apart by their numbers, and from the root by their lengths, where they are short. -/
theorem sampleSha_tellsApart {entries : EntryMap}
    (hshort : ∀ b, (bucketInput b ((ofBucket sampleSha entries b).list.map Prod.snd)).length < 32792) :
    TellsApart sampleSha (inputs sampleSha (certified sampleSha entries)) := by
  have hdigest : ∀ x y : Bytes, sampleSha.digest x = sampleSha.digest y → beBytes 28 x.length = beBytes 28 y.length ∧
      ((x.drop 26) ++ List.replicate 4 0).take 4 = ((y.drop 26) ++ List.replicate 4 0).take 4 :=
    fun x y he => List.append_inj he (by rw [length_beBytes, length_beBytes])
  have hlength : ∀ x y : Bytes, x.length ≤ 32792 → y.length ≤ 32792 → sampleSha.digest x = sampleSha.digest y →
      x.length = y.length := by
    intro x y hx hy he
    have hsame := congrArg ofBeBytes (hdigest x y he).1
    rwa [ofBeBytes_beBytes (lt_of_le_of_lt hx (by norm_num)), ofBeBytes_beBytes (lt_of_le_of_lt hy (by norm_num))] at hsame
  have hcases : ∀ x ∈ inputs sampleSha (certified sampleSha entries), x = (certified sampleSha entries).rootInput ∨
      ∃ b, x = bucketInput b ((ofBucket sampleSha entries b).list.map Prod.snd) := by
    intro x hx
    rcases List.mem_cons.1 hx with rfl | hx
    · exact .inl rfl
    · obtain ⟨b, -, rfl⟩ := List.mem_map.1 hx
      exact .inr ⟨b, rfl⟩
  have hnumber : ∀ (b : Fin buckets) (l : List (Entry Text)),
      (((bucketInput b l).drop 26) ++ List.replicate 4 0).take 4 = beBytes 4 b := by
    intro b l
    unfold bucketInput
    rw [List.drop_append_of_le_length length_bucketDomain.ge, List.drop_of_length_le length_bucketDomain.le, List.nil_append,
      List.append_assoc]
    exact List.take_left' (length_beBytes 4 _)
  have hroot := length_rootInput (h := sampleSha) entries
  intro x hx y hy he
  rcases hcases x hx with rfl | ⟨b, rfl⟩
  · rcases hcases y hy with rfl | ⟨b, rfl⟩
    · rfl
    · have hlen := hlength _ _ hroot.le (hshort b).le he
      exact absurd (hlen.symm.trans hroot) (hshort b).ne
  · rcases hcases y hy with rfl | ⟨b', rfl⟩
    · have hlen := hlength _ _ (hshort b).le hroot.le he
      exact absurd (hlen.trans hroot) (hshort b).ne
    · have hval := congrArg ofBeBytes (((hnumber b _).symm.trans (hdigest _ _ he).2).trans (hnumber b' _))
      have hb : (b : Nat) < 256 ^ 4 := lt_trans b.isLt (by decide)
      have hb' : (b' : Nat) < 256 ^ 4 := lt_trans b'.isLt (by decide)
      rw [ofBeBytes_beBytes hb, ofBeBytes_beBytes hb'] at hval
      rw [Fin.ext hval]

theorem short_keptEntries (b : Fin buckets) :
    (bucketInput b ((ofBucket sampleSha keptEntries b).list.map Prod.snd)).length < 32792 := by
  have hframed : (framedEntry keptEntry).length < 32000 := by
    rw [framedEntry, List.length_append, length_beBytes, length_encodeUtf8]
    decide
  have hlisted : (ofBucket sampleSha keptEntries b).list.map Prod.snd = [] ∨
      (ofBucket sampleSha keptEntries b).list.map Prod.snd = [keptEntry] := by
    unfold ofBucket
    by_cases hb : bucket sampleSha keptEntry.nameText = b
    · exact .inr (by simp [keptEntries, Ordered.keep, Ordered.insert, Ordered.empty, hb])
    · exact .inl (by simp [keptEntries, Ordered.keep, Ordered.insert, Ordered.empty, hb])
  unfold bucketInput
  rw [List.length_append, List.length_append, length_bucketDomain, length_beBytes]
  rcases hlisted with hl | hl
  · rw [hl]
    decide
  · rw [hl, List.flatMap_cons, List.flatMap_nil, List.append_nil]
    omega

/-- The catalogue of one entry, and one in which this stayed and another was removed. -/
theorem incremental_exact_removed :
    ∃ c c', Built sampleSha c ∧ Built sampleSha c' ∧ root sampleSha c = root sampleSha c' ∧ c.entries = c'.entries ∧
      c.entries.get? keptEntry.nameText = some keptEntry := by
  obtain ⟨⟨c, hbuilt, hc⟩, hroots⟩ := incremental_exact sampleSha Ordered.empty sampleEdits
  rw [sampleEdits_entries, fromEntries_eq] at hc
  obtain rfl := Option.some.inj hc
  have hnone : Named Ordered.empty := fun e he => absurd he List.not_mem_nil
  have hone : Named keptEntries := by
    intro e he
    rcases Ordered.mem_insert.1 he with rfl | ⟨he, -⟩
    · rfl
    · exact absurd he List.not_mem_nil
  have hedits : ∀ changes ∈ sampleEdits, NamedEdits changes := by
    intro changes hchanges n e hm
    rcases List.mem_cons.1 hchanges with rfl | hchanges
    · rcases Ordered.mem_insert.1 hm with hm | ⟨hm, -⟩
      · obtain ⟨rfl, he⟩ := Prod.mk.inj hm
        rw [Option.some.inj he]
      · rcases Ordered.mem_insert.1 hm with hm | ⟨hm, -⟩
        · obtain ⟨rfl, he⟩ := Prod.mk.inj hm
          rw [Option.some.inj he]
        · exact absurd hm List.not_mem_nil
    · obtain rfl := List.mem_singleton.1 hchanges
      rcases Ordered.mem_insert.1 hm with hm | ⟨hm, -⟩
      · exact absurd (Prod.mk.inj hm).2 (by simp)
      · exact absurd hm List.not_mem_nil
  have hremoved : Built sampleSha (certified sampleSha keptEntries) := ⟨_, _, hnone, hedits, hbuilt⟩
  have hfresh : Built sampleSha (certified sampleSha keptEntries) :=
    ⟨_, [], hone, fun _ h => absurd h List.not_mem_nil, by rw [fromEntries_eq]; rfl⟩
  have happart : TellsApart sampleSha
      (inputs sampleSha (certified sampleSha keptEntries) ++ inputs sampleSha (certified sampleSha keptEntries)) := by
    intro x hx y hy
    exact sampleSha_tellsApart short_keptEntries x (by simpa using hx) y (by simpa using hy)
  exact ⟨_, _, hfresh, hremoved, rfl, hroots _ _ hfresh hremoved happart rfl,
    (Ordered.get?_insert ..).trans (if_pos rfl)⟩

end Encoded

end Anvil.Store
