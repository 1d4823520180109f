import Anvil.Lib.Rows

/-!
# A table with the digests of its buckets

The rows of a table fall into `n` buckets by their key, and each bucket has a digest over its rows. Changing some rows
changes the digests of their buckets only.

* `inBucket` : the rows of a bucket;
* `Digested` : a table, the keys of each bucket and the digests, which agree with the rows;
* `Digested.ofRows`, `Digested.apply` : from the rows, and after changes (`touched` buckets only);
* `Digested.digests_of_same` : the digests depend on the rows only.
-/

namespace Anvil.Lib

variable {α ι β : Type} [DecidableEq α] [DecidableEq ι] {key : α → ι} {n : Nat} {bucket : ι → Fin n}

/-- The rows of bucket `b`. -/
def inBucket (bucket : ι → Fin n) (m : Rows key) (b : Fin n) : Finset α := m.list.toFinset.filter fun a => bucket (key a) = b

theorem mem_inBucket {m : Rows key} {b : Fin n} {a : α} :
    a ∈ inBucket bucket m b ↔ m.get? (key a) = some a ∧ bucket (key a) = b := by
  unfold inBucket
  rw [Finset.mem_filter, List.mem_toFinset, Rows.get?_eq_some, and_iff_left rfl]

/-- A bucket depends on what the table holds under its keys. -/
theorem inBucket_congr {m m' : Rows key} {b : Fin n} (h : ∀ k, bucket k = b → m.get? k = m'.get? k) :
    inBucket bucket m b = inBucket bucket m' b := by
  ext a
  rw [mem_inBucket, mem_inBucket]
  constructor
  · exact fun ⟨ha, hb⟩ => ⟨(h _ hb).symm.trans ha, hb⟩
  · exact fun ⟨ha, hb⟩ => ⟨(h _ hb).trans ha, hb⟩

structure Digested (key : α → ι) (bucket : ι → Fin n) (hash : Fin n → Finset α → β) where
  entries : Rows key
  members : Fin n → Finset ι
  digests : Fin n → β
  members_eq : ∀ b k, k ∈ members b ↔ bucket k = b ∧ (entries.get? k).isSome
  digests_eq : ∀ b, digests b = hash b (inBucket bucket entries b)

namespace Digested
variable {hash : Fin n → Finset α → β}

/-- The rows under the keys. -/
def rowsOf (m : Rows key) (keys : Finset ι) : Finset α := keys.biUnion fun k => (m.get? k).toFinset

theorem rowsOf_eq {m : Rows key} {keys : Finset ι} {b : Fin n}
    (h : ∀ k, k ∈ keys ↔ bucket k = b ∧ (m.get? k).isSome) : rowsOf m keys = inBucket bucket m b := by
  ext a
  rw [mem_inBucket]
  unfold rowsOf
  rw [Finset.mem_biUnion]
  constructor
  · rintro ⟨k, hk, ha⟩
    have ha := Option.mem_toFinset.1 ha
    obtain rfl := Rows.key_get? ha
    exact ⟨ha, ((h _).1 hk).1⟩
  · exact fun ⟨ha, hb⟩ => ⟨key a, (h _).2 ⟨hb, by rw [ha]; rfl⟩, Option.mem_toFinset.2 ha⟩

def ofRows (m : Rows key) : Digested key bucket hash where
  entries := m
  members := fun b => (m.list.map key).toFinset.filter fun k => bucket k = b
  digests := fun b => hash b (rowsOf m ((m.list.map key).toFinset.filter fun k => bucket k = b))
  members_eq := by
    intro b k
    rw [Finset.mem_filter, List.mem_toFinset, and_comm, Option.isSome_iff_exists, List.mem_map]
    simp only [Rows.get?_eq_some]
  digests_eq := by
    intro b
    rw [rowsOf_eq]
    intro k
    rw [Finset.mem_filter, List.mem_toFinset, and_comm, Option.isSome_iff_exists, List.mem_map]
    simp only [Rows.get?_eq_some]

/-- The keys of the buckets after a change. -/
def patchMembers (bucket : ι → Fin n) (members : Fin n → Finset ι) (c : Change key) : Fin n → Finset ι :=
  Function.update members (bucket c.name)
    (match c.value with
    | some _ => insert c.name (members (bucket c.name))
    | none => (members (bucket c.name)).erase c.name)

omit [DecidableEq α] in
theorem mem_patchMembers {members : Fin n → Finset ι} {m : Rows key}
    (h : ∀ b k, k ∈ members b ↔ bucket k = b ∧ (m.get? k).isSome) (c : Change key) (b : Fin n) (k : ι) :
    k ∈ patchMembers bucket members c b ↔ bucket k = b ∧ ((m.patch c).get? k).isSome := by
  rw [Rows.get?_patch]
  unfold patchMembers
  by_cases hb : b = bucket c.name
  · subst hb
    rw [Function.update_self]
    cases hv : c.value with
    | some a =>
      rw [Finset.mem_insert, h]
      by_cases hk : k = c.name
      · simp [hk]
      · simp [hk]
    | none =>
      rw [Finset.mem_erase, h]
      by_cases hk : k = c.name
      · simp [hk]
      · simp [hk]
  · rw [Function.update_of_ne hb, h]
    by_cases hk : k = c.name
    · subst hk
      simp [Ne.symm hb]
    · rw [if_neg hk]

omit [DecidableEq α] in
theorem mem_foldl_patchMembers (cs : List (Change key)) {members : Fin n → Finset ι} {m : Rows key}
    (h : ∀ b k, k ∈ members b ↔ bucket k = b ∧ (m.get? k).isSome) (b : Fin n) (k : ι) :
    k ∈ cs.foldl (patchMembers bucket) members b ↔ bucket k = b ∧ ((cs.foldl Rows.patch m).get? k).isSome := by
  induction cs generalizing members m with
  | nil => exact h b k
  | cons c cs ih => exact ih fun b k => mem_patchMembers h c b k

/-- Change rows, and the digests of the buckets they fall in. -/
def apply (d : Digested key bucket hash) (cs : Changes key) : Digested key bucket hash where
  entries := d.entries.patchAll cs
  members := cs.list.foldl (patchMembers bucket) d.members
  digests := fun b =>
    if b ∈ cs.list.map (fun c => bucket c.name) then
      hash b (rowsOf (d.entries.patchAll cs) (cs.list.foldl (patchMembers bucket) d.members b))
    else d.digests b
  members_eq := mem_foldl_patchMembers cs.list d.members_eq
  digests_eq := by
    intro b
    split_ifs with hb
    · exact congrArg (hash b) (rowsOf_eq (mem_foldl_patchMembers cs.list d.members_eq b))
    · rw [d.digests_eq, inBucket_congr]
      intro k hk
      rw [Rows.get?_patchAll]
      have hnone : cs.get? k = none := by
        rw [Rows.get?_eq_none]
        rintro c hc rfl
        exact hb (List.mem_map.2 ⟨c, hc, hk⟩)
      rw [hnone]
      rfl

theorem digests_of_same {d d' : Digested key bucket hash} (h : d.entries.Same d'.entries) : d.digests = d'.digests := by
  funext b
  rw [d.digests_eq, d'.digests_eq, inBucket_congr fun k _ => h k]

end Digested

end Anvil.Lib
