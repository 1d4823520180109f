import Anvil.Lib.Run
import Mathlib.Data.List.MinMax
import Mathlib.Data.Prod.Lex
import Mathlib.Data.String.Basic
import Mathlib.Data.List.Sort

/-!
# The bounded cookie jar (`anvil-engine/src/cookies.rs`)

`BoundedJar` keeps a flat list of entries and a clock. `insert` replaces the entry of the same
domain, path and name, then evicts from the cookie's site and then from the largest site until the
new entry fits; `header` selects the cookies of a URL and stamps them; `purgeExpired` drops what
expired.

What belongs to other packages is a parameter: `CookieStore` (matching and expiry of
`cookie_store`, the public suffix list of `psl`, `size_of::<Entry>()`). Every reading of the clock
of the machine is its own argument, so cookies may expire between any two readings.

An `unwrap` of `None` and a loop that does not end are traps (`Trap`); the loops run on a budget of
one round per entry and one more, which `siteLoop_spec` and `jarLoop_spec` show to be enough.

* `Bounded` : the limits, distinct cookie identities and stamps below the clock;
* `insert_spec`, `header_spec`, `purgeExpired_bounded` : each operation keeps `Bounded` and never traps.
-/

namespace Anvil.Cookies
open Anvil.Lib

def maxItemBytes : Nat := 8192
def maxSiteCount : Nat := 180
def maxSiteBytes : Nat := 128 * 1024
def maxJarCount : Nat := 3000
def maxJarBytes : Nat := 2 * 1024 * 1024
def maxCookieHeaderBytes : Nat := 8192

/-! ## Cookies -/

/-- `cookie_store::CookieDomain`. -/
inductive CookieDomain where
  | hostOnly (host : String)
  | suffix (domain : String)
  | notPresent
  | empty
deriving DecidableEq, Repr

def CookieDomain.asCow : CookieDomain → Option String
  | .hostOnly h => some h
  | .suffix d => some d
  | .notPresent => none
  | .empty => none

/-- `cookie_store::Cookie`, with what its expiry is computed from left abstract. -/
structure Cookie (χ : Type) where
  domain : CookieDomain
  path : String
  name : String
  value : String
  expires : χ

/-- What the jar takes from `cookie_store`, `psl` and the compiler. -/
structure CookieStore (χ τ υ : Type) where
  isExpired : τ → Cookie χ → Bool
  isMatch : Cookie χ → υ → Bool
  /-- `psl::suffix(domain).is_some_and(|s| s.is_known())` -/
  suffixKnown : String → Bool
  /-- `psl::domain_str(domain)` -/
  domainStr : String → Option String
  /-- `std::mem::size_of::<Entry>()` -/
  entrySize : Nat

structure Entry (χ : Type) where
  cookie : Cookie χ
  site : String
  bytes : Nat
  used : Nat
  created : Nat

structure BoundedJar (χ : Type) where
  entries : List (Entry χ) := []
  clock : Nat := 0

inductive Trap where
  | unwrapNone
  | notEnded
deriving DecidableEq, Repr

/-- The identity RFC 6265 replaces by: domain, path and name. -/
def Cookie.key {χ : Type} (c : Cookie χ) : Option String × String × String :=
  (c.domain.asCow, c.path, c.name)

/-! ## The operations -/

section Model
variable {χ τ υ : Type} (cs : CookieStore χ τ υ)

/-- `retain(|e| !e.cookie.is_expired())`; entry `i` is looked at when the clock reads `now i`. -/
def purgeExpired (now : Nat → τ) (j : BoundedJar χ) : BoundedJar χ :=
  { j with entries := (j.entries.zipIdx.filter fun p => !cs.isExpired (now p.2) p.1.cookie).map Prod.fst }

/-- `unwrap`. -/
def unwrap {α : Type} : Option α → Except Trap α
  | some a => .ok a
  | none => .error .unwrapNone

/-- The stamps in use (`sort_unstable`, `dedup`): in order, so repeats are adjacent, and without them. -/
def stamps (es : List (Entry χ)) : List Nat :=
  ((es.flatMap fun e => [e.used, e.created]).insertionSort (· ≤ ·)).dedup

/-- `binary_search` on a strictly sorted list: the index of the one equal element. -/
def binarySearch (l : List Nat) (x : Nat) : Option Nat := if x ∈ l then some (l.idxOf x) else none

def restamp (st : List Nat) (e : Entry χ) : Except Trap (Entry χ) := do
  let used ← unwrap (binarySearch st e.used)
  let created ← unwrap (binarySearch st e.created)
  pure { e with used, created }

def tick (j : BoundedJar χ) : Except Trap (Nat × BoundedJar χ) := do
  let j ← if j.clock = u64Max then do
      -- Rebase only ordering metadata, preserving ties and creation order.
      let st := stamps j.entries
      let entries ← j.entries.mapM (restamp st)
      pure { entries, clock := st.length }
    else pure j
  let clock := (j.clock + 1) % 2 ^ 64
  pure (clock, { j with clock })

def bytes (j : BoundedJar χ) : Nat := (j.entries.map Entry.bytes).sum

/-- Entries and bytes of a site. -/
def siteUsage (j : BoundedJar χ) (site : String) : Nat × Nat :=
  (j.entries.filter fun e => e.site = site).foldl (fun u e => (u.1 + 1, u.2 + e.bytes)) (0, 0)

/-- Remove the least recently used entry of a site. -/
def evict (j : BoundedJar χ) (site : String) : Except Trap (BoundedJar χ) := do
  let p ← unwrap ((j.entries.zipIdx.filter fun p => p.1.site = site).argmin
    fun p => toLex (p.1.used, toLex (p.1.created, p.1.cookie.name)))
  pure { j with entries := j.entries.eraseIdx p.2 }

/-- The first loop of `insert`, with `fuel` rounds left. -/
def siteLoop (site : String) (size : Nat) : Nat → BoundedJar χ → Except Trap (BoundedJar χ)
  | 0, _ => .error .notEnded
  | fuel + 1, j =>
    let (count, total) := siteUsage j site
    if count < maxSiteCount ∧ total + size ≤ maxSiteBytes then pure j
    else do
      let j ← evict j site
      siteLoop site size fuel j

/-- The retained site with the most bytes, then entries, then the last name. -/
def largestSite (j : BoundedJar χ) : Option String :=
  (j.entries.map Entry.site).dedup.argmax fun s =>
    toLex (toLex ((siteUsage j s).2, (siteUsage j s).1), s)

/-- The second loop of `insert`, with `fuel` rounds left. -/
def jarLoop (size : Nat) : Nat → BoundedJar χ → Except Trap (BoundedJar χ)
  | 0, _ => .error .notEnded
  | fuel + 1, j =>
    if j.entries.length ≥ maxJarCount ∨ bytes j + size > maxJarBytes then do
      let largest ← unwrap (largestSite j)
      let j ← evict j largest
      jarLoop size fuel j
    else pure j

/-- `trim_end_matches('.')` -/
def trimEndDots (s : String) : String := String.ofList (s.toList.reverse.dropWhile (· = '.')).reverse

def siteKey (domain : String) : String :=
  let domain := trimEndDots domain
  if cs.suffixKnown domain then (cs.domainStr domain).getD domain else domain

/-- The charge of a cookie: the wire form, the owned copies and the fixed metadata (`usize` sums). -/
def entryBytes (domain path site : String) (wireBytes : Nat) : Nat :=
  (wireBytes + domain.utf8ByteSize + path.utf8ByteSize + site.utf8ByteSize + cs.entrySize) % 2 ^ 64

/-- An entry of the same domain, path and name. -/
def sameTuple (domain : String) (cookie : Cookie χ) (e : Entry χ) : Bool :=
  e.cookie.domain.asCow = some domain ∧ e.cookie.path = cookie.path ∧ e.cookie.name = cookie.name

/-- Remove the first entry `p` holds of; its creation stamp. -/
def takeOld (p : Entry χ → Bool) (j : BoundedJar χ) : Option Nat × BoundedJar χ :=
  match j.entries.findIdx? p with
  | some i => (j.entries[i]?.map Entry.created, { j with entries := j.entries.eraseIdx i })
  | none => (none, j)

/-- Evict until the entry fits its site and the jar, then add it. -/
def makeRoom (e : Entry χ) (j : BoundedJar χ) : Except Trap (BoundedJar χ) := do
  let j ← siteLoop e.site e.bytes (j.entries.length + 1) j
  let j ← jarLoop e.bytes (j.entries.length + 1) j
  pure { j with entries := j.entries ++ [e] }

/-- `now` gives the clock for the purge, `later` for the check of the cookie itself. -/
def insert (now : Nat → τ) (later : τ) (cookie : Cookie χ) (wireBytes : Nat) (j : BoundedJar χ) :
    Except Trap (BoundedJar χ) :=
  let j := purgeExpired cs now j
  match cookie.domain.asCow with
  | none => pure j
  | some domain =>
    let site := siteKey cs domain
    let size := entryBytes cs domain cookie.path site wireBytes
    if size > maxItemBytes then pure j
    else do
      let (used, j) ← tick j
      let (created, j) := takeOld (sameTuple domain cookie) j
      -- An expired replacement removes the same tuple immediately.
      if cs.isExpired later cookie then pure j
      else makeRoom { cookie, site, bytes := size, used, created := created.getD used } j

/-- Whole cookies in order while they fit: the selected indices and the bytes they take. -/
def selectPairs (es : List (Entry χ)) (indices : List Nat) : List Nat × Nat :=
  indices.foldl (fun acc i => match es[i]? with
    | none => acc
    | some e =>
      let pair := e.cookie.name.utf8ByteSize + 1 + e.cookie.value.utf8ByteSize
      let added := pair + if acc.1.isEmpty then 0 else 2
      if acc.2 + added ≤ maxCookieHeaderBytes then (acc.1 ++ [i], acc.2 + added) else acc) ([], 0)

/-- The indices of the cookies of `url`: longest path first, then oldest. -/
def matching (es : List (Entry χ)) (url : υ) : List Nat :=
  ((es.zipIdx.filter fun p => cs.isMatch p.1.cookie url).insertionSort fun p q =>
    toLex (OrderDual.toDual p.1.cookie.path.utf8ByteSize, toLex (p.1.created, p.2)) ≤
      toLex (OrderDual.toDual q.1.cookie.path.utf8ByteSize, toLex (q.1.created, q.2))).map Prod.snd

/-- `name=value` pairs joined with `"; "`. -/
def headerText (es : List (Entry χ)) (selected : List Nat) : String :=
  "; ".intercalate ((selected.filterMap fun i => es[i]?).map fun e => e.cookie.name ++ "=" ++ e.cookie.value)

/-- `e.used = used` for the selected entries. -/
def stampUsed (used : Nat) (selected : List Nat) (es : List (Entry χ)) : List (Entry χ) :=
  selected.foldl (fun es i => es.modify i fun e => { e with used }) es

def header (now : Nat → τ) (url : υ) (j : BoundedJar χ) : Except Trap (Option String × BoundedJar χ) := do
  let j := purgeExpired cs now j
  let selected := (selectPairs j.entries (matching cs j.entries url)).1
  if selected.isEmpty then pure (none, j)
  else do
    let (used, j) ← tick j
    pure (some (headerText j.entries selected),
      { j with entries := stampUsed used selected j.entries })

/-- An operation of the jar with the times at which it reads the clock. -/
inductive Op (χ τ υ : Type) where
  | insert (now : Nat → τ) (later : τ) (cookie : Cookie χ) (wireBytes : Nat)
  | header (now : Nat → τ) (url : υ)
  | purgeExpired (now : Nat → τ)

def step (j : BoundedJar χ) : Op χ τ υ → Except Trap (BoundedJar χ)
  | .insert now later cookie wireBytes => insert cs now later cookie wireBytes j
  | .header now url => Prod.snd <$> header cs now url j
  | .purgeExpired now => pure (purgeExpired cs now j)

end Model

/-! ## What the jar must keep -/

section Invariant
variable {χ : Type}

/-- The part of an entry that restamping leaves alone. -/
structure Charge (χ : Type) where
  cookie : Cookie χ
  site : String
  bytes : Nat

def Entry.charge (e : Entry χ) : Charge χ := ⟨e.cookie, e.site, e.bytes⟩

/-- The bytes of a list of charges. -/
def total (l : List (Charge χ)) : Nat := (l.map Charge.bytes).sum

/-- The charges of a site. -/
def ofSite (l : List (Charge χ)) (site : String) : List (Charge χ) := l.filter fun c => c.site = site

/-- The limits of the jar, of every site and of every item, and distinct cookie identities. -/
structure Within (l : List (Charge χ)) : Prop where
  count : l.length ≤ maxJarCount
  bytes : total l ≤ maxJarBytes
  siteCount : ∀ s, (ofSite l s).length ≤ maxSiteCount
  siteBytes : ∀ s, total (ofSite l s) ≤ maxSiteBytes
  item : ∀ c ∈ l, c.bytes ≤ maxItemBytes
  keys : (l.map fun c => c.cookie.key).Nodup

/-- The jar's invariant: the limits, and stamps that are at most the clock. -/
structure Bounded (j : BoundedJar χ) : Prop where
  within : Within (j.entries.map Entry.charge)
  stamps : ∀ e ∈ j.entries, e.used ≤ j.clock ∧ e.created ≤ j.clock
  clock : j.clock ≤ u64Max

@[simp] theorem total_nil : total ([] : List (Charge χ)) = 0 := rfl

@[simp] theorem total_append (l m : List (Charge χ)) : total (l ++ m) = total l + total m := by
  simp [total]

theorem total_sublist {l m : List (Charge χ)} (h : l.Sublist m) : total l ≤ total m :=
  (h.map Charge.bytes).sum_le_sum fun _ _ => Nat.zero_le _

theorem Within.nil : Within ([] : List (Charge χ)) :=
  ⟨Nat.zero_le _, Nat.zero_le _, fun _ => Nat.zero_le _, fun _ => Nat.zero_le _, by simp, by simp⟩

/-- Dropping entries keeps every limit. -/
theorem Within.sublist {l m : List (Charge χ)} (h : Within m) (hs : l.Sublist m) : Within l where
  count := hs.length_le.trans h.count
  bytes := (total_sublist hs).trans h.bytes
  siteCount s := (hs.filter _).length_le.trans (h.siteCount s)
  siteBytes s := (total_sublist (hs.filter _)).trans (h.siteBytes s)
  item c hc := h.item c (hs.subset hc)
  keys := h.keys.sublist (hs.map _)

/-- Adding a charge that fits its site and the jar, under a new identity. -/
theorem Within.snoc {l : List (Charge χ)} (h : Within l) (c : Charge χ) (hitem : c.bytes ≤ maxItemBytes)
    (hcount : l.length < maxJarCount) (hbytes : total l + c.bytes ≤ maxJarBytes)
    (hsc : (ofSite l c.site).length < maxSiteCount) (hsb : total (ofSite l c.site) + c.bytes ≤ maxSiteBytes)
    (hkey : ∀ d ∈ l, d.cookie.key ≠ c.cookie.key) : Within (l ++ [c]) := by
  have hsite : ∀ s, ofSite (l ++ [c]) s = ofSite l s ++ if c.site = s then [c] else [] := by
    intro s
    simp only [ofSite, List.filter_append, List.filter_singleton, Bool.cond_decide]
  refine ⟨by simpa using hcount, by simpa [total] using hbytes, fun s => ?_, fun s => ?_, ?_, ?_⟩
  · rw [hsite]
    split_ifs with hs
    · subst hs; simpa using hsc
    · simpa using h.siteCount s
  · rw [hsite, total_append]
    split_ifs with hs
    · subst hs; simpa [total] using hsb
    · simpa using h.siteBytes s
  · intro d hd
    rcases List.mem_append.mp hd with hd | hd
    · exact h.item d hd
    · rw [List.mem_singleton.mp hd]; exact hitem
  · rw [List.map_append, List.map_singleton, List.nodup_append]
    refine ⟨h.keys, by simp, ?_⟩
    intro k hk k' hk'
    obtain ⟨d, hd, rfl⟩ := List.mem_map.mp hk
    rw [List.mem_singleton.mp hk']
    exact hkey d hd

theorem Bounded.empty : Bounded ({} : BoundedJar χ) :=
  ⟨Within.nil, by simp, Nat.zero_le _⟩

/-- Dropping entries keeps the invariant. -/
theorem Bounded.sublist {j : BoundedJar χ} (h : Bounded j) {es : List (Entry χ)} (hs : es.Sublist j.entries) :
    Bounded { j with entries := es } :=
  ⟨h.within.sublist (hs.map _), fun e he => h.stamps e (hs.subset he), h.clock⟩

end Invariant

/-! ## Evictions -/

section Evictions
variable {χ : Type}

/-- What `evict` minimizes. -/
def lruKey (e : Entry χ) : Nat ×ₗ Nat ×ₗ String := toLex (e.used, toLex (e.created, e.cookie.name))

/-- Entries are taken out, `removed` in this order, while there are too many: each is a least recently used entry of a site
that `Victim` names at that moment. -/
inductive Evictions (Over : List (Entry χ) → Prop) (Victim : List (Entry χ) → String → Prop) :
    List (Entry χ) → List (Entry χ) → List (Entry χ) → Prop
  | fits {es : List (Entry χ)} : ¬ Over es → Evictions Over Victim es [] es
  | evict {l r removed kept : List (Entry χ)} {e : Entry χ} : Over (l ++ e :: r) → Victim (l ++ e :: r) e.site →
      (∀ d ∈ l ++ r, d.site = e.site → lruKey e ≤ lruKey d) → Evictions Over Victim (l ++ r) removed kept →
      Evictions Over Victim (l ++ e :: r) (e :: removed) kept

variable {Over : List (Entry χ) → Prop} {Victim : List (Entry χ) → String → Prop} {es removed kept : List (Entry χ)}

theorem Evictions.sublist (h : Evictions Over Victim es removed kept) : kept.Sublist es := by
  induction h with
  | fits => exact .refl _
  | @evict l r _ _ e _ _ _ _ ih => exact ih.trans ((List.sublist_cons_self e r).append_left l)

theorem Evictions.not_over (h : Evictions Over Victim es removed kept) : ¬ Over kept := by
  induction h with
  | fits h => exact h
  | evict _ _ _ _ ih => exact ih

/-- Nothing is evicted for nothing. -/
theorem Evictions.eq_of_not_over (h : Evictions Over Victim es removed kept) (hover : ¬ Over es) : kept = es := by
  cases h with
  | fits => rfl
  | evict h => exact absurd h hover

/-- The entries of a site. -/
def atSite (es : List (Entry χ)) (s : String) : List (Entry χ) := es.filter fun e => e.site = s

def bytesOf (es : List (Entry χ)) : Nat := (es.map Entry.bytes).sum

/-- No room in site `s` for an entry of `size` bytes. -/
def SiteOver (s : String) (size : Nat) (es : List (Entry χ)) : Prop :=
  ¬((atSite es s).length < maxSiteCount ∧ bytesOf (atSite es s) + size ≤ maxSiteBytes)

/-- No room in the jar for an entry of `size` bytes. -/
def JarOver (size : Nat) (es : List (Entry χ)) : Prop := es.length ≥ maxJarCount ∨ bytesOf es + size > maxJarBytes

/-- No site has more bytes, or as many and more entries. -/
def Largest (es : List (Entry χ)) (s : String) : Prop :=
  ∀ d ∈ es, toLex (bytesOf (atSite es d.site), (atSite es d.site).length) ≤
    toLex (bytesOf (atSite es s), (atSite es s).length)

theorem ofSite_charge (es : List (Entry χ)) (s : String) :
    ofSite (es.map Entry.charge) s = (atSite es s).map Entry.charge := by
  rw [ofSite, List.filter_map]
  rfl

theorem total_charge (es : List (Entry χ)) : total (es.map Entry.charge) = bytesOf es := by
  simp only [total, bytesOf, List.map_map]
  rfl

end Evictions

/-! ## The operations keep it -/

section Specs
variable {χ τ υ : Type} (cs : CookieStore χ τ υ)

theorem siteUsage_eq (j : BoundedJar χ) (s : String) :
    siteUsage j s = ((atSite j.entries s).length, bytesOf (atSite j.entries s)) := by
  have hfold : ∀ (es : List (Entry χ)) (u : Nat × Nat),
      es.foldl (fun u e => (u.1 + 1, u.2 + e.bytes)) u = (u.1 + es.length, u.2 + (es.map Entry.bytes).sum) := by
    intro es
    induction es with
    | nil => intro u; rfl
    | cons e es ih =>
      intro u
      rw [List.foldl_cons, ih]
      simp only [List.length_cons, List.map_cons, List.sum_cons]
      ext <;> simp only <;> omega
  rw [siteUsage, hfold, Nat.zero_add, Nat.zero_add]
  rfl

theorem bytes_eq (j : BoundedJar χ) : bytes j = bytesOf j.entries := rfl

theorem purgeExpired_sublist (now : Nat → τ) (j : BoundedJar χ) :
    (purgeExpired cs now j).entries.Sublist j.entries := by
  have h := (List.filter_sublist (p := fun p => !cs.isExpired (now p.2) p.1.cookie)
    (l := j.entries.zipIdx)).map Prod.fst
  rwa [List.zipIdx_map_fst] at h

theorem purgeExpired_bounded (now : Nat → τ) {j : BoundedJar χ} (h : Bounded j) :
    Bounded (purgeExpired cs now j) :=
  h.sublist (purgeExpired_sublist cs now j)

/-- Evicting from a site that has an entry removes a least recently used one. -/
theorem evict_spec (j : BoundedJar χ) (s : String) (hs : ∃ e ∈ j.entries, e.site = s) :
    ∃ l e r, j.entries = l ++ e :: r ∧ e.site = s ∧ (∀ d ∈ l ++ r, d.site = e.site → lruKey e ≤ lruKey d) ∧
      evict j s = .ok { j with entries := l ++ r } := by
  have hmem : ∀ d ∈ j.entries, d.site = s → ∃ i, (d, i) ∈ j.entries.zipIdx.filter fun p => p.1.site = s := by
    intro d hd hds
    obtain ⟨i, hi⟩ := List.mem_iff_getElem?.mp hd
    exact ⟨i, List.mem_filter.mpr ⟨List.mk_mem_zipIdx_iff_getElem?.mpr hi, by simpa using hds⟩⟩
  obtain ⟨e₀, he₀, hs₀⟩ := hs
  obtain ⟨i₀, hi₀⟩ := hmem e₀ he₀ hs₀
  unfold evict
  cases harg : (j.entries.zipIdx.filter fun p => p.1.site = s).argmin
      fun p => toLex (p.1.used, toLex (p.1.created, p.1.cookie.name)) with
  | none =>
    rw [List.argmin_eq_none] at harg
    rw [harg] at hi₀
    exact absurd hi₀ List.not_mem_nil
  | some p =>
    obtain ⟨hp, hsite⟩ := List.mem_filter.mp (List.argmin_mem harg)
    obtain ⟨hlt, hget⟩ := List.getElem?_eq_some_iff.mp
        (List.mk_mem_zipIdx_iff_getElem?.mp (show (p.1, p.2) ∈ j.entries.zipIdx from hp))
    have hsite : p.1.site = s := by simpa using hsite
    refine ⟨j.entries.take p.2, p.1, j.entries.drop (p.2 + 1), ?_, hsite, fun d hd hds => ?_, ?_⟩
    · rw [← hget, ← List.drop_eq_getElem_cons hlt, List.take_append_drop]
    · have hd : d ∈ j.entries := by
        rcases List.mem_append.mp hd with hd | hd
        · exact List.mem_of_mem_take hd
        · exact List.mem_of_mem_drop hd
      obtain ⟨i, hi⟩ := hmem d hd (hds.trans hsite)
      have hle := List.le_of_mem_argmin hi harg
      exact hle
    · show Except.ok { j with entries := j.entries.eraseIdx p.2 } = _
      rw [List.eraseIdx_eq_take_drop_succ]

/-- A site over its limits has an entry to evict: an item alone always fits. -/
theorem exists_of_site_over {es : List (Entry χ)} {s : String} {size : Nat} (hsize : size ≤ maxItemBytes)
    (h : SiteOver s size es) : ∃ e ∈ es, e.site = s := by
  by_contra hno
  have hnil : atSite es s = [] := by
    rw [atSite, List.filter_eq_nil_iff]
    intro e he hes
    exact hno ⟨e, he, of_decide_eq_true hes⟩
  apply h
  rw [hnil]
  refine ⟨show 0 < maxSiteCount by decide, ?_⟩
  show 0 + size ≤ maxSiteBytes
  rw [Nat.zero_add]
  exact hsize.trans (by decide)

/-- The first eviction loop ends within one round per entry. -/
theorem siteLoop_spec (s : String) (size : Nat) (hsize : size ≤ maxItemBytes) :
    ∀ (fuel : Nat) (j : BoundedJar χ), j.entries.length < fuel →
      ∃ removed es, siteLoop s size fuel j = .ok { j with entries := es } ∧
        Evictions (SiteOver s size) (fun _ t => t = s) j.entries removed es := by
  intro fuel
  induction fuel with
  | zero => intro j hj; exact absurd hj (Nat.not_lt_zero _)
  | succ fuel ih =>
    intro j hj
    by_cases hfit : (siteUsage j s).1 < maxSiteCount ∧ (siteUsage j s).2 + size ≤ maxSiteBytes
    · refine ⟨[], j.entries, ?_, .fits ?_⟩
      · simp only [siteLoop, if_pos hfit]; rfl
      · rw [siteUsage_eq] at hfit
        exact not_not.mpr hfit
    · have hover : SiteOver s size j.entries := by
        rwa [siteUsage_eq] at hfit
      obtain ⟨l, e, r, hes, hsite, hlru, hev⟩ := evict_spec j s (exists_of_site_over hsize hover)
      rw [hes] at hover hj ⊢
      obtain ⟨removed, kept, hloop, hevs⟩ := ih { j with entries := l ++ r } (by simp at hj ⊢; omega)
      refine ⟨e :: removed, kept, ?_, .evict hover hsite hlru hevs⟩
      simp only [siteLoop, if_neg hfit, hev]
      exact hloop

theorem largestSite_spec (j : BoundedJar χ) (h : j.entries ≠ []) :
    ∃ s, largestSite j = some s ∧ (∃ e ∈ j.entries, e.site = s) ∧ Largest j.entries s := by
  cases harg : largestSite j with
  | none =>
    rw [largestSite, List.argmax_eq_none, List.dedup_eq_nil, List.map_eq_nil_iff] at harg
    exact absurd harg h
  | some s =>
    obtain ⟨e, he, hes⟩ := List.mem_map.mp (List.mem_dedup.mp (List.argmax_mem harg))
    refine ⟨s, rfl, ⟨e, he, hes⟩, fun d hd => ?_⟩
    have hle := List.le_of_mem_argmax (List.mem_dedup.mpr (List.mem_map_of_mem (f := Entry.site) hd)) harg
    simp only [siteUsage_eq] at hle
    exact (Prod.Lex.toLex_le_toLex'.mp hle).1

/-- The second eviction loop ends within one round per entry. -/
theorem jarLoop_spec (size : Nat) (hsize : size ≤ maxItemBytes) :
    ∀ (fuel : Nat) (j : BoundedJar χ), j.entries.length < fuel →
      ∃ removed es, jarLoop size fuel j = .ok { j with entries := es } ∧
        Evictions (JarOver size) Largest j.entries removed es := by
  intro fuel
  induction fuel with
  | zero => intro j hj; exact absurd hj (Nat.not_lt_zero _)
  | succ fuel ih =>
    intro j hj
    by_cases hover : j.entries.length ≥ maxJarCount ∨ bytes j + size > maxJarBytes
    · have hne : j.entries ≠ [] := by
        rintro hnil
        rcases hover with h | h
        · rw [hnil] at h; exact absurd h (show ¬ 0 ≥ maxJarCount by decide)
        · rw [bytes_eq, hnil] at h
          simp only [bytesOf, List.map_nil, List.sum_nil, Nat.zero_add] at h
          exact absurd (hsize.trans (by decide)) (Nat.not_le.mpr h)
      obtain ⟨s, hs, hsite, hlargest⟩ := largestSite_spec j hne
      obtain ⟨l, e, r, hes, rfl, hlru, hev⟩ := evict_spec j s hsite
      have hover' : JarOver size j.entries := hover
      rw [hes] at hover' hlargest hj ⊢
      obtain ⟨removed, kept, hloop, hevs⟩ := ih { j with entries := l ++ r } (by simp at hj ⊢; omega)
      refine ⟨e :: removed, kept, ?_, .evict hover' hlargest hlru hevs⟩
      simp only [jarLoop, if_pos hover, hs]
      show (evict j e.site >>= fun j => jarLoop size fuel j) = _
      rw [hev]
      exact hloop
    · refine ⟨[], j.entries, ?_, .fits hover⟩
      simp only [jarLoop, if_neg hover]; rfl

theorem mem_stamps {es : List (Entry χ)} {e : Entry χ} (he : e ∈ es) :
    e.used ∈ stamps es ∧ e.created ∈ stamps es := by
  simp only [stamps, List.mem_dedup, List.mem_insertionSort, List.mem_flatMap]
  exact ⟨⟨e, he, by simp⟩, ⟨e, he, by simp⟩⟩

theorem length_stamps_le (es : List (Entry χ)) : (stamps es).length ≤ 2 * es.length := by
  have h := (List.dedup_sublist ((es.flatMap fun e => [e.used, e.created]).insertionSort (· ≤ ·))).length_le
  rw [List.length_insertionSort, List.length_flatMap] at h
  simpa [stamps, List.map_const', Nat.mul_comm] using h

/-- An entry with its stamps renumbered. -/
def Entry.restamped (f : Nat → Nat) (e : Entry χ) : Entry χ := { e with used := f e.used, created := f e.created }

@[simp] theorem map_charge_restamped (f : Nat → Nat) (es : List (Entry χ)) :
    (es.map (Entry.restamped f)).map Entry.charge = es.map Entry.charge := by
  rw [List.map_map]
  rfl

/-- Rebasing never misses a stamp. -/
theorem restamp_spec {es : List (Entry χ)} (st : List Nat) (h : ∀ e ∈ es, e.used ∈ st ∧ e.created ∈ st) :
    es.mapM (restamp st) = .ok (es.map (Entry.restamped st.idxOf)) := by
  induction es with
  | nil => rfl
  | cons e es ih =>
    obtain ⟨hu, hc⟩ := h e List.mem_cons_self
    have he : restamp st e = .ok (e.restamped st.idxOf) := by
      simp only [restamp, binarySearch, if_pos hu, if_pos hc]; rfl
    rw [List.mapM_cons, he, ih fun x hx => h x (List.mem_cons_of_mem _ hx)]
    rfl

/-- Positions in a strictly sorted list are ordered as its elements. -/
theorem strictMonoOn_idxOf {l : List Nat} (h : l.Pairwise (· < ·)) : StrictMonoOn l.idxOf {x | x ∈ l} := by
  intro a ha b hb hab
  have hla := List.idxOf_lt_length_of_mem ha
  have hlb := List.idxOf_lt_length_of_mem hb
  rcases lt_trichotomy (l.idxOf a) (l.idxOf b) with hlt | heq | hgt
  · exact hlt
  · have hsame : a = b := by
      rw [← List.getElem_idxOf hla, ← List.getElem_idxOf hlb]
      simp only [heq]
    omega
  · have hlt := List.pairwise_iff_getElem.mp h _ _ hlb hla hgt
    rw [List.getElem_idxOf, List.getElem_idxOf] at hlt
    omega

theorem stamps_sorted (es : List (Entry χ)) : (stamps es).Pairwise (· < ·) := by
  have hsorted : (stamps es).Pairwise (· ≤ ·) :=
    (List.pairwise_insertionSort (· ≤ ·) _).sublist (List.dedup_sublist _)
  exact hsorted.imp₂ (fun _ _ hle hne => lt_of_le_of_ne hle hne) (List.nodup_dedup _)

/-- `tick` never traps and keeps the invariant; it renumbers the stamps in order, where the clock ran out and only there, and
returns the new clock, which is past every stamp. -/
theorem tick_spec {j : BoundedJar χ} (h : Bounded j) :
    ∃ f j', tick j = .ok (j'.clock, j') ∧ j'.entries = j.entries.map (Entry.restamped f) ∧ Bounded j' ∧
      StrictMonoOn f {x | x ∈ stamps j.entries} ∧ (j.clock ≠ u64Max → f = id) ∧
      ∀ e ∈ j'.entries, e.used < j'.clock ∧ e.created < j'.clock := by
  by_cases hmax : j.clock = u64Max
  · have hmap := restamp_spec (stamps j.entries) fun e he => mem_stamps he
    have hlen : (stamps j.entries).length ≤ 2 * maxJarCount := by
      have := h.within.count
      rw [List.length_map] at this
      exact (length_stamps_le j.entries).trans (by omega)
    have hmod : ((stamps j.entries).length + 1) % 2 ^ 64 = (stamps j.entries).length + 1 :=
      Nat.mod_eq_of_lt (by unfold maxJarCount at hlen; omega)
    have hlt : ∀ e ∈ j.entries.map (Entry.restamped (stamps j.entries).idxOf),
        e.used < (stamps j.entries).length + 1 ∧ e.created < (stamps j.entries).length + 1 := by
      intro e he
      obtain ⟨e₀, he₀, rfl⟩ := List.mem_map.mp he
      obtain ⟨hu, hc⟩ := mem_stamps he₀
      exact ⟨Nat.lt_succ_of_lt (List.idxOf_lt_length_iff.mpr hu), Nat.lt_succ_of_lt (List.idxOf_lt_length_iff.mpr hc)⟩
    refine ⟨(stamps j.entries).idxOf, ⟨_, (stamps j.entries).length + 1⟩, ?_, rfl, ⟨?_, fun e he => ?_, ?_⟩,
      strictMonoOn_idxOf (stamps_sorted j.entries), fun hne => absurd hmax hne, hlt⟩
    · simp only [tick, if_pos hmax, hmap]
      show Except.ok _ = _
      rw [hmod]
    · rw [map_charge_restamped]
      exact h.within
    · exact ⟨(hlt e he).1.le, (hlt e he).2.le⟩
    · unfold maxJarCount at hlen; unfold u64Max; simp only; omega
  · have hle := h.clock
    have hmod : (j.clock + 1) % 2 ^ 64 = j.clock + 1 :=
      Nat.mod_eq_of_lt (by unfold u64Max at hmax hle; omega)
    have hlt : ∀ e ∈ j.entries, e.used < j.clock + 1 ∧ e.created < j.clock + 1 := by
      intro e he
      exact ⟨Nat.lt_succ_of_le (h.stamps e he).1, Nat.lt_succ_of_le (h.stamps e he).2⟩
    refine ⟨id, { j with clock := j.clock + 1 }, ?_, (List.map_id _).symm, ⟨h.within, fun e he => ?_, ?_⟩,
      fun _ _ _ _ hab => hab, fun _ => rfl, hlt⟩
    · simp only [tick, if_neg hmax]
      show Except.ok _ = _
      rw [hmod]
    · exact ⟨(hlt e he).1.le, (hlt e he).2.le⟩
    · unfold u64Max at hmax hle ⊢; simp only; omega

/-- Of entries with distinct identities at most one has the identity `k`. -/
theorem eraseIdx_findIdx {k : Option String × String × String} {p : Entry χ → Bool}
    (hp : ∀ e, p e = true ↔ e.cookie.key = k) : ∀ {es : List (Entry χ)}, (es.map fun e => e.cookie.key).Nodup →
      ∀ {i : Nat}, es.findIdx? p = some i → es.eraseIdx i = es.filter (fun e => !p e) ∧ es[i]? = es.find? p
  | [], _, i, hi => by simp at hi
  | e :: es, hn, i, hi => by
    obtain ⟨hnot, hn⟩ := List.nodup_cons.mp hn
    rw [List.findIdx?_cons] at hi
    rw [List.filter_cons, List.find?_cons]
    cases he : p e with
    | true =>
      rw [he, if_pos rfl] at hi
      obtain rfl := Option.some.inj hi
      have hrest : es.filter (fun e => !p e) = es := by
        rw [List.filter_eq_self]
        intro d hd
        rw [Bool.not_eq_true', ← Bool.not_eq_true, hp]
        exact fun hk => hnot (List.mem_map.mpr ⟨d, hd, hk.trans ((hp e).mp he).symm⟩)
      rw [hrest]
      exact ⟨rfl, rfl⟩
    | false =>
      rw [he, if_neg (by simp), Option.map_eq_some_iff] at hi
      obtain ⟨i, hi, rfl⟩ := hi
      obtain ⟨herase, hget⟩ := eraseIdx_findIdx hp hn hi
      rw [List.eraseIdx_cons_succ, herase, List.getElem?_cons_succ, hget]
      exact ⟨rfl, rfl⟩

/-- `takeOld` drops the entry of the tuple and returns its creation stamp. -/
theorem takeOld_spec {j : BoundedJar χ} (h : Bounded j) (k : Option String × String × String)
    (p : Entry χ → Bool) (hp : ∀ e, p e = true ↔ e.cookie.key = k) :
    takeOld p j = ((j.entries.find? p).map Entry.created, { j with entries := j.entries.filter fun e => !p e }) := by
  have hkeys : (j.entries.map fun e => e.cookie.key).Nodup := by
    have hkeys := h.within.keys
    rw [List.map_map] at hkeys
    exact hkeys
  unfold takeOld
  cases hfind : j.entries.findIdx? p with
  | none =>
    rw [List.findIdx?_eq_none_iff] at hfind
    have hself : j.entries.filter (fun e => !p e) = j.entries :=
      List.filter_eq_self.mpr fun e he => by rw [hfind e he]; rfl
    have hnone : j.entries.find? p = none :=
      List.find?_eq_none.mpr fun e he => by rw [hfind e he]; simp
    rw [hself, hnone]
    rfl
  | some i =>
    obtain ⟨herase, hget⟩ := eraseIdx_findIdx hp hkeys hfind
    rw [← herase, ← hget]

/-- `makeRoom` never traps on an item: it evicts from the entry's site, then from the largest sites. -/
theorem makeRoom_evicts (e : Entry χ) (hitem : e.bytes ≤ maxItemBytes) (j : BoundedJar χ) :
    ∃ removed kept removed' kept', makeRoom e j = .ok { j with entries := kept' ++ [e] } ∧
      Evictions (SiteOver e.site e.bytes) (fun _ t => t = e.site) j.entries removed kept ∧
      Evictions (JarOver e.bytes) Largest kept removed' kept' := by
  obtain ⟨removed, kept, hloop, hev⟩ := siteLoop_spec e.site e.bytes hitem (j.entries.length + 1) j (Nat.lt_succ_self _)
  obtain ⟨removed', kept', hloop', hev'⟩ :=
    jarLoop_spec e.bytes hitem (kept.length + 1) { j with entries := kept } (Nat.lt_succ_self _)
  refine ⟨removed, kept, removed', kept', ?_, hev, hev'⟩
  unfold makeRoom
  rw [hloop]
  show (jarLoop e.bytes (kept.length + 1) { j with entries := kept } >>= _) = _
  rw [hloop']
  rfl

/-- `makeRoom` keeps the invariant for an item of a fresh identity. -/
theorem makeRoom_spec {j : BoundedJar χ} (h : Bounded j) (e : Entry χ) (hitem : e.bytes ≤ maxItemBytes)
    (hkey : ∀ d ∈ j.entries, d.cookie.key ≠ e.cookie.key) (hused : e.used ≤ j.clock)
    (hcreated : e.created ≤ j.clock) : ∃ j', makeRoom e j = .ok j' ∧ Bounded j' := by
  obtain ⟨_, es₁, _, es₂, hmake, hev₁, hev₂⟩ := makeRoom_evicts e hitem j
  have hsub := hev₂.sublist.trans hev₁.sublist
  have hsite : (ofSite (es₂.map Entry.charge) e.site).Sublist (ofSite (es₁.map Entry.charge) e.site) :=
    (hev₂.sublist.map _).filter _
  obtain ⟨hsc, hsb⟩ : (ofSite (es₁.map Entry.charge) e.site).length < maxSiteCount ∧
      total (ofSite (es₁.map Entry.charge) e.site) + e.bytes ≤ maxSiteBytes := by
    rw [ofSite_charge, List.length_map, total_charge]
    exact not_not.mp hev₁.not_over
  obtain ⟨hjc, hjb⟩ : es₂.length < maxJarCount ∧ bytesOf es₂ + e.bytes ≤ maxJarBytes := by
    have hfit := not_or.mp hev₂.not_over
    exact ⟨not_le.mp hfit.1, not_lt.mp hfit.2⟩
  rw [← total_charge] at hjb
  refine ⟨_, hmake, ⟨?_, ?_, h.clock⟩⟩
  · rw [List.map_append, List.map_singleton]
    refine (h.within.sublist (hsub.map _)).snoc e.charge hitem (by simpa using hjc) hjb
      (hsite.length_le.trans_lt hsc) ((Nat.add_le_add_right (total_sublist hsite) _).trans hsb) ?_
    intro d hd
    obtain ⟨x, hx, rfl⟩ := List.mem_map.mp hd
    exact hkey x (hsub.subset hx)
  · intro x hx
    rcases List.mem_append.mp hx with hx | hx
    · exact h.stamps x (hsub.subset hx)
    · rw [List.mem_singleton.mp hx]; exact ⟨hused, hcreated⟩

/-- The same domain, path and name. -/
theorem sameTuple_iff {domain : String} {cookie : Cookie χ} (hdom : cookie.domain.asCow = some domain) (e : Entry χ) :
    sameTuple domain cookie e = true ↔ e.cookie.key = cookie.key := by
  simp only [sameTuple, decide_eq_true_eq, Cookie.key, hdom, Prod.mk.injEq]

/-- `insert` never traps and keeps the invariant, whatever the cookie, its wire size and the times. -/
theorem insert_spec (now : Nat → τ) (later : τ) (cookie : Cookie χ) (wireBytes : Nat) {j : BoundedJar χ}
    (h : Bounded j) : ∃ j', insert cs now later cookie wireBytes j = .ok j' ∧ Bounded j' := by
  have h₀ := purgeExpired_bounded cs now h
  unfold insert
  cases hdom : cookie.domain.asCow with
  | none => exact ⟨_, rfl, h₀⟩
  | some domain =>
    simp only
    by_cases hbig : entryBytes cs domain cookie.path (siteKey cs domain) wireBytes > maxItemBytes
    · exact ⟨_, by rw [if_pos hbig]; rfl, h₀⟩
    · obtain ⟨f, j₁, htick, -, h₁, -, -, -⟩ := tick_spec h₀
      have hold := takeOld_spec h₁ cookie.key (sameTuple domain cookie) (sameTuple_iff hdom)
      have h₂ := h₁.sublist (List.filter_sublist (p := fun e => !sameTuple domain cookie e))
      rw [if_neg hbig, htick]
      simp only [ok_bind, hold]
      by_cases hexp : cs.isExpired later cookie = true
      · exact ⟨_, by rw [if_pos hexp]; rfl, h₂⟩
      · rw [if_neg hexp]
        refine makeRoom_spec h₂ _ (Nat.not_lt.mp hbig) (fun d hd hk => ?_) (Nat.le_refl _) ?_
        · have hnot := (List.mem_filter.mp hd).2
          rw [(sameTuple_iff hdom d).mpr hk] at hnot
          exact absurd hnot (by decide)
        · cases hfind : j₁.entries.find? (sameTuple domain cookie) with
          | none => exact Nat.le_refl _
          | some e => exact (h₁.stamps e (List.mem_of_find?_eq_some hfind)).2

/-- Stamping entries as used changes no charge and no other stamp. -/
theorem stampUsed_spec (used clock : Nat) (hused : used ≤ clock) :
    ∀ (selected : List Nat) (es : List (Entry χ)), (∀ e ∈ es, e.used ≤ clock ∧ e.created ≤ clock) →
      (stampUsed used selected es).map Entry.charge = es.map Entry.charge ∧
        ∀ e ∈ stampUsed used selected es, e.used ≤ clock ∧ e.created ≤ clock
  | [], _, h => ⟨rfl, h⟩
  | i :: selected, es, h => by
    have hcharge : (es.modify i fun e => { e with used }).map Entry.charge = es.map Entry.charge := by
      apply List.ext_getElem (by simp)
      intro n hn hn'
      rw [List.getElem_map, List.getElem_map, List.getElem_modify]
      split_ifs <;> rfl
    have hle : ∀ e ∈ es.modify i fun e => { e with used }, e.used ≤ clock ∧ e.created ≤ clock := by
      intro e he
      obtain ⟨n, hn, rfl⟩ := List.mem_iff_getElem.mp he
      rw [List.length_modify] at hn
      have hold := h _ (List.getElem_mem hn)
      rw [List.getElem_modify]
      split_ifs
      · exact ⟨hused, hold.2⟩
      · exact hold
    obtain ⟨h₁, h₂⟩ := stampUsed_spec used clock hused selected _ hle
    exact ⟨h₁.trans hcharge, h₂⟩

/-- `header` never traps and keeps the invariant. -/
theorem header_spec (now : Nat → τ) (url : υ) {j : BoundedJar χ} (h : Bounded j) :
    ∃ text j', header cs now url j = .ok (text, j') ∧ Bounded j' := by
  have h₀ := purgeExpired_bounded cs now h
  unfold header
  simp only
  generalize (selectPairs (purgeExpired cs now j).entries
    (matching cs (purgeExpired cs now j).entries url)).1 = selected
  by_cases hnone : selected.isEmpty = true
  · exact ⟨none, _, by rw [if_pos hnone]; rfl, h₀⟩
  · obtain ⟨f, j₁, htick, -, h₁, -⟩ := tick_spec h₀
    obtain ⟨hcharge, hle⟩ := stampUsed_spec j₁.clock j₁.clock (Nat.le_refl _) selected j₁.entries h₁.stamps
    rw [if_neg hnone, htick]
    exact ⟨_, _, rfl, by rw [hcharge]; exact h₁.within, hle, h₁.clock⟩

theorem step_spec (j : BoundedJar χ) (op : Op χ τ υ) (h : Bounded j) :
    ∃ j', step cs j op = .ok j' ∧ Bounded j' := by
  cases op with
  | insert now later cookie wireBytes => exact insert_spec cs now later cookie wireBytes h
  | header now url =>
    obtain ⟨text, j', hj', hb⟩ := header_spec cs now url h
    exact ⟨j', by rw [step, hj']; rfl, hb⟩
  | purgeExpired now => exact ⟨_, rfl, purgeExpired_bounded cs now h⟩

/-- **Every run of the jar keeps its limits.** No run from the empty jar traps (an `unwrap` of `None`, an
eviction loop that does not end), and after it every limit holds, no two entries share domain, path and
name, and every stamp is at most the clock. -/
theorem run_within_limits (ops : List (Op χ τ υ)) :
    ∃ j : BoundedJar χ, runOps (step cs) {} ops = .ok j ∧
      j.entries.length ≤ maxJarCount ∧ bytes j ≤ maxJarBytes ∧
      (∀ s, (siteUsage j s).1 ≤ maxSiteCount ∧ (siteUsage j s).2 ≤ maxSiteBytes) ∧
      (∀ e ∈ j.entries, e.bytes ≤ maxItemBytes) ∧
      (j.entries.map fun e => (e.cookie.domain.asCow, e.cookie.path, e.cookie.name)).Nodup ∧
      ∀ e ∈ j.entries, e.used ≤ j.clock ∧ e.created ≤ j.clock := by
  obtain ⟨j, hrun, hb⟩ := runOps_inv (step_spec cs) ops {} Bounded.empty
  refine ⟨j, hrun, by simpa using hb.within.count, by rw [bytes_eq, ← total_charge]; exact hb.within.bytes, fun s => ?_,
    fun e he => hb.within.item e.charge (List.mem_map_of_mem he), ?_, hb.stamps⟩
  · have hcount := hb.within.siteCount s
    have hbytes := hb.within.siteBytes s
    rw [ofSite_charge, List.length_map] at hcount
    rw [ofSite_charge, total_charge] at hbytes
    rw [siteUsage_eq]
    exact ⟨hcount, hbytes⟩
  · have hkeys := hb.within.keys
    rw [List.map_map] at hkeys
    exact hkeys

end Specs

end Anvil.Cookies
