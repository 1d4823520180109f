import Anvil.App.CleanupFiles
import Anvil.Store.CacheRuns

/-!
# Cleanup passes beside other writers

* `Plan.removes`, `Plan.releases` : what the plan takes away; `Applied`, `applyIn_ok` : the write transaction does that;
  `applyIn_released` : and takes blobs and pins away only with the entries that it releases;
* `looked_spec` : what the look at the revisions finds; `planWith_removes`, `planWith_releases` : that a plan removes orphans
  only and releases only what nothing left names;
* `Settled`, `Reached` : the digest that a pass keeps, and the databases that passes and other writers lead to;
* `cleanup_safe` : a pass that completes.
-/

namespace Anvil.Cleanup
open Anvil.Lib Anvil.Lib.Json Anvil.Store Anvil.Attachments

variable {P B : Type} [DecidableEq P] {h : Hashes P B} {env : CleanupEnv} {tx tx' : Tx h}

/-! ## The write transaction -/

/-- An object that does not decode keeps everything. -/
def Plan.removes (p : Plan) : List Text := if p.undecodable.isEmpty then p.orphans else []

def Plan.releases (p : Plan) : List Text := if p.undecodable.isEmpty then p.unreferenced else []

/-- What became of the rows: the revisions to remove and the entries to release are gone, entries may be written over, and
nothing else changed. -/
structure Applied (indexId : Text → Text) (removes releases : List Text) (db db' : Db P) : Prop where
  revisions : ∀ id, db'.objects.get? (revisionKind, id) = if id ∈ removes then none else db.objects.get? (revisionKind, id)
  entries : ∀ id, (db.objects.get? (importSourceKind, id)).isSome → db'.objects.get? (importSourceKind, id) = none →
    ∃ sha ∈ releases, id = indexId sha
  others : ∀ k : Text × Text, k.1 ≠ revisionKind → k.1 ≠ importSourceKind → db'.objects.get? k = db.objects.get? k

theorem importSource_ne_revision : importSourceKind ≠ revisionKind := by decide

omit [DecidableEq P] in
theorem Applied.trans {f : Text → Text} {r₁ r₂ s₁ s₂ : List Text} {db db₁ db₂ : Db P} (h₁ : Applied f r₁ s₁ db db₁)
    (h₂ : Applied f r₂ s₂ db₁ db₂) : Applied f (r₁ ++ r₂) (s₁ ++ s₂) db db₂ where
  revisions := by
    intro id
    rw [h₂.revisions, h₁.revisions]
    by_cases hid₁ : id ∈ r₁ <;> by_cases hid₂ : id ∈ r₂ <;> simp [hid₁, hid₂]
  entries := by
    intro id hsome hnone
    cases hmid : db₁.objects.get? (importSourceKind, id) with
    | none =>
      obtain ⟨sha, hsha, hid⟩ := h₁.entries id hsome hmid
      exact ⟨sha, List.mem_append_left _ hsha, hid⟩
    | some r =>
      obtain ⟨sha, hsha, hid⟩ := h₂.entries id (by simp [hmid]) hnone
      exact ⟨sha, List.mem_append_right _ hsha, hid⟩
  others := fun k hr hi => (h₂.others k hr hi).trans (h₁.others k hr hi)

omit [DecidableEq P] in
theorem applied_same {f : Text → Text} {db db' : Db P} (ho : db'.objects = db.objects) : Applied f [] [] db db' where
  revisions := by simp [ho]
  entries := by
    intro id hsome hnone
    rw [ho] at hnone
    simp [hnone] at hsome
  others := by simp [ho]

theorem putEntry_ok {e : AppEnv} {t : Moment} {x : AttachmentIndex} {u : Unit} (hp : putEntry e t x tx = .ok u tx') :
    Applied e.indexId [] [] tx.db tx'.db := by
  obtain ⟨stored, payload, hdb, -⟩ := put_ok hp
  rw [hdb]
  have hget : ∀ k : Text × Text, k ≠ (importSourceKind, e.indexId x.attachment) →
      (tx.db.objects.put ⟨importSourceKind, e.indexId x.attachment, none, none, stored, t.now, payload⟩).get? k =
        tx.db.objects.get? k := by
    intro k hk
    rw [Rows.get?_put]
    exact if_neg hk
  refine ⟨fun id => ?_, fun id hsome hnone => ?_, fun k _ hi => hget k fun hk => hi (congrArg Prod.fst hk)⟩
  · exact hget _ fun hk => importSource_ne_revision (congrArg Prod.fst hk).symm
  · by_cases hid : (importSourceKind, id) = (importSourceKind, e.indexId x.attachment)
    · dsimp only at hnone
      rw [Rows.get?_put] at hnone
      simp [hid, ObjectRow.key] at hnone
    · rw [hget _ hid] at hnone
      simp [hnone] at hsome

theorem putEntries_ok {e : AppEnv} {t : Nat → Moment} :
    ∀ {entries : List AttachmentIndex} {i : Nat} {tx tx' : Tx h} {u : Unit},
    putEntries e t i entries tx = .ok u tx' → Applied e.indexId [] [] tx.db tx'.db
  | [], i, tx, tx', u, hp => applied_same (by rw [(action_pure_ok.1 hp).2])
  | x :: entries, i, tx, tx', u, hp => by
    unfold putEntries at hp
    obtain ⟨_, tx₁, h₁, h₂⟩ := action_bind_ok.1 hp
    exact (putEntry_ok h₁).trans (putEntries_ok h₂)

omit [DecidableEq P] in
theorem applied_removeEntry {f : Text → Text} {sha : Text} {db db' : Db P}
    (ho : db'.objects = db.objects.remove (importSourceKind, f sha)) : Applied f [] [sha] db db' where
  revisions := by
    intro id
    rw [ho, Rows.get?_remove, if_neg fun hk => importSource_ne_revision (congrArg Prod.fst hk).symm]
    rfl
  entries := by
    intro id hsome hnone
    rw [ho, Rows.get?_remove] at hnone
    by_cases hid : (importSourceKind, id) = (importSourceKind, f sha)
    · exact ⟨sha, List.mem_singleton_self _, congrArg Prod.snd hid⟩
    · rw [if_neg hid] at hnone
      simp [hnone] at hsome
  others := by
    intro k _ hi
    rw [ho, Rows.get?_remove, if_neg fun hk => hi (congrArg Prod.fst hk)]

theorem dropAttachmentIn_ok {e : AppEnv} {sha : Text} {b : Bool} (hd : dropAttachmentIn e sha tx = .ok b tx') :
    Applied e.indexId [] [sha] tx.db tx'.db := by
  unfold dropAttachmentIn at hd
  obtain ⟨idx, tx₁, hr, hd₁⟩ := action_bind_ok.1 hd
  have hdb₁ := (reading_ok hr).2.1
  cases idx with
  | none =>
    obtain ⟨-, rfl⟩ := action_pure_ok.1 hd₁
    rw [hdb₁]
    exact ⟨fun _ => rfl, fun id hsome hnone => by simp [hnone] at hsome, fun _ _ _ => rfl⟩
  | some v =>
    change dropEntry e sha v tx₁ = .ok b tx' at hd₁
    unfold dropEntry at hd₁
    obtain ⟨_, tx₂, h₂, hd₂⟩ := action_bind_ok.1 hd₁
    obtain ⟨_, tx₃, h₃, hd₃⟩ := action_bind_ok.1 hd₂
    obtain ⟨-, rfl⟩ := action_pure_ok.1 hd₃
    refine applied_removeEntry ?_
    rw [delete_ok h₃]
    dsimp only
    rw [releaseNamedBlob_ok h₂, hdb₁]

theorem dropAll_ok {e : AppEnv} : ∀ {shas : List Text} {tx tx' : Tx h} {n : Nat},
    dropAll e shas tx = .ok n tx' → Applied e.indexId [] shas tx.db tx'.db
  | [], tx, tx', n, hd => applied_same (by rw [(action_pure_ok.1 hd).2])
  | sha :: shas, tx, tx', n, hd => by
    unfold dropAll at hd
    obtain ⟨_, tx₁, h₁, hd₁⟩ := action_bind_ok.1 hd
    obtain ⟨_, tx₂, h₂, hd₂⟩ := action_bind_ok.1 hd₁
    rw [← (action_pure_ok.1 hd₂).2]
    exact (dropAttachmentIn_ok h₁).trans (dropAll_ok h₂)

theorem applied_deleteRevisions {f : Text → Text} {ids : List Text} {u : Unit}
    (hd : (deleteRevisions ids : TxM h Unit) tx = .ok u tx') : Applied f ids [] tx.db tx'.db where
  revisions := by
    intro id
    rw [(deleteRevisions_ok hd).1]
    simp
  entries := by
    intro id hsome hnone
    rw [(deleteRevisions_ok hd).1, if_neg fun hc => importSource_ne_revision hc.1] at hnone
    simp [hnone] at hsome
  others := by
    intro k hr _
    rw [(deleteRevisions_ok hd).1, if_neg fun hc => hr hc.1]

/-- The rows of a kind, by their metadata. -/
def metasOf (db : Db P) (kind : Text) : List RowMeta := (db.objects.list.filter fun r => r.kind = kind).map ObjectRow.rowMeta

/-- The digest of the stored revision and request rows. -/
def revisionDigest (env : CleanupEnv) (db : Db P) : Text :=
  env.sha256 (revisionRowsText (metasOf db revisionKind) (metasOf db requestKind))

theorem revisionRowsDigestIn_ok {d : Text} (hd : revisionRowsDigestIn env tx = .ok d) : d = revisionDigest env tx.db := by
  unfold revisionRowsDigestIn at hd
  obtain ⟨revisions, hrev, hd⟩ := bind_eq_ok.1 hd
  obtain ⟨requests, hreq, hd⟩ := bind_eq_ok.1 hd
  rw [← Except.ok.inj hd, objectMeta_ok hrev, objectMeta_ok hreq]
  rfl

/-- The digest that the last pass kept. -/
def settledOf (env : CleanupEnv) (db : Db P) : Option Text := (keptIn env db).bind KeptPass.settled

theorem keepIn_ok (hkept : ∀ k, (env.readKept (env.writeKept k)).bind KeptPass.settled = k.settled) {t : PassClock}
    {done r : StorageCleanup}
    {rows settled : Option Text} (hk : keepIn env t done rows settled tx = .ok r tx') :
    tx'.db.objects = tx.db.objects ∧ settledOf env tx'.db = settled ∧ r = done := by
  unfold keepIn at hk
  obtain ⟨_, tx₁, h₁, h₂⟩ := action_bind_ok.1 hk
  rw [← (action_pure_ok.1 h₂).2, putNote_ok h₁]
  refine ⟨rfl, ?_, (action_pure_ok.1 h₂).1.symm⟩
  unfold settledOf keptIn note
  dsimp only
  rw [Rows.get?_put, if_pos rfl]
  exact hkept _

theorem applyIn_ok (hkept : ∀ k, (env.readKept (env.writeKept k)).bind KeptPass.settled = k.settled) {t : PassClock}
    {plan : Plan} {done : StorageCleanup}
    (ha : applyIn env t plan tx = .ok done tx') :
    Applied env.indexId plan.removes plan.releases tx.db tx'.db ∧
      settledOf env tx'.db = (if plan.undecodable.isEmpty then some (revisionDigest env tx'.db) else none) ∧
      done.undecodable = plan.undecodable := by
  unfold applyIn at ha
  obtain ⟨_, tx₁, h₁, ha₁⟩ := action_bind_ok.1 ha
  have hstamp := putEntries_ok h₁
  unfold Plan.removes Plan.releases
  cases hu : plan.undecodable.isEmpty with
  | false =>
    rw [hu] at ha₁
    change keepBlocked env t plan tx₁ = .ok done tx' at ha₁
    unfold keepBlocked at ha₁
    obtain ⟨rows, tx₂, h₂, ha₂⟩ := action_bind_ok.1 ha₁
    obtain ⟨ho, hs, rfl⟩ := keepIn_ok hkept ha₂
    exact ⟨hstamp.trans (applied_same (by rw [ho, (reading_ok h₂).2.1])), hs, rfl⟩
  | true =>
    rw [hu] at ha₁
    change carryOut env t plan tx₁ = .ok done tx' at ha₁
    unfold carryOut at ha₁
    obtain ⟨_, tx₂, h₂, ha₂⟩ := action_bind_ok.1 ha₁
    obtain ⟨_, tx₃, h₃, ha₃⟩ := action_bind_ok.1 ha₂
    obtain ⟨_, tx₄, h₄, ha₄⟩ := action_bind_ok.1 ha₃
    obtain ⟨d, tx₅, h₅, ha₅⟩ := action_bind_ok.1 ha₄
    obtain ⟨ho, hs, rfl⟩ := keepIn_ok hkept ha₅
    obtain ⟨hd, hdb₅, -⟩ := reading_ok h₅
    refine ⟨?_, ?_, (List.isEmpty_iff.1 hu).symm⟩
    · have hall := (((hstamp.trans (applied_deleteRevisions h₂)).trans (dropAll_ok h₃)).trans (putEntries_ok h₄)).trans
        (applied_same (f := env.indexId) (show tx'.db.objects = tx₄.db.objects by rw [ho, hdb₅]))
      simpa using hall
    · rw [hs, revisionRowsDigestIn_ok hd]
      unfold revisionDigest metasOf
      rw [ho]
      rfl

/-- The entries that are marked without a time, as a pass stamps them. -/
def stamps (stamp : Int) (entries : List AttachmentIndex) : List AttachmentIndex :=
  entries.map fun e => { e with attachedAt := some stamp }

section Look
variable {recent : List Text}

/-- What a look at the rows established. -/
structure Looked (env : CleanupEnv) (tx : Tx h) (recent : List Text) (rows : List RowMeta) (s o : Orphans) : Prop where
  ids : ∀ id ∈ o.ids, id ∈ s.ids ∨ ∃ refs, orphanRefs env.toAppEnv tx id = .ok (some refs)
  skips : ∀ r ∈ o.rows, r ∈ s.rows ∨ ∃ id ∈ o.ids, env.canonicalId r = some id
  keeps : (∀ id ∈ s.ids, id ∈ o.ids) ∧ ∀ u ∈ s.undecodable, u ∈ o.undecodable
  candidates : ∀ sha ∈ o.candidates, sha ∈ s.candidates ∨ sha ∉ recent
  read : ∀ m ∈ rows, o.undecodable = [] → ∃ id x, env.canonicalId m.id = some id ∧ orphanRefs env.toAppEnv tx id = .ok x ∧
    (x.isSome → id ∈ o.ids)

theorem orphanStep_looked {s o : Orphans} {m : RowMeta} (ho : orphanStep env tx recent s m = .ok o) :
    Looked env tx recent [m] s o := by
  unfold orphanStep at ho
  cases hr : readable (orphanRow env tx m) with
  | error e =>
    rw [hr] at ho
    cases ho
  | ok x =>
    rw [hr] at ho
    cases ho
    cases x with
    | none =>
      refine ⟨fun id hid => .inl hid, fun r hr => .inl hr, ⟨fun _ => id, fun u hu => List.mem_append_left _ hu⟩,
        fun sha hsha => .inl hsha, fun m' hm' hu => ?_⟩
      simp [Orphans.add] at hu
    | some y =>
      have hrow : orphanRow env tx m = .ok y := by
        unfold readable at hr
        split at hr
        · next heq => rw [heq, Option.some.inj (Except.ok.inj hr)]
        · cases hr
        · cases hr
      unfold orphanRow at hrow
      cases hc : env.canonicalId m.id with
      | none =>
        rw [hc] at hrow
        cases hrow
      | some id =>
        rw [hc] at hrow
        change orphanRefs env.toAppEnv tx id = .ok y at hrow
        cases y with
        | none =>
          refine ⟨fun id hid => .inl hid, fun r hr => .inl hr, ⟨fun _ hi => hi, fun _ hu => hu⟩,
            fun sha hsha => .inl hsha, ?_⟩
          intro m' hm' _
          rw [List.mem_singleton.1 hm']
          exact ⟨id, none, hc, hrow, by simp⟩
        | some refs =>
          have hids : (s.add env recent m (some (some refs))).ids = s.ids ++ [id] := by simp [Orphans.add, hc]
          refine ⟨fun i hi => ?_, fun r hr => ?_, ⟨fun i hi => ?_, fun _ hu => hu⟩, fun sha hsha => ?_, fun m' hm' _ => ?_⟩
          · rw [hids, List.mem_append, List.mem_singleton] at hi
            rcases hi with hi | rfl
            · exact .inl hi
            · exact .inr ⟨refs, hrow⟩
          · rcases List.mem_append.1 hr with hr | hr
            · exact .inl hr
            · rw [List.mem_singleton.1 hr]
              exact .inr ⟨id, by simp [hids], hc⟩
          · rw [hids]
            exact List.mem_append_left _ hi
          · rcases List.mem_append.1 hsha with hsha | hsha
            · exact .inl hsha
            · right
              have hall := (List.mem_filter.1 hsha).2
              intro hmem
              simpa using List.all_eq_true.1 hall sha hmem
          · rw [List.mem_singleton.1 hm']
            exact ⟨id, some refs, hc, hrow, fun _ => by simp [hids]⟩

theorem looked_spec : ∀ {rows : List RowMeta} {s o : Orphans}, rows.foldlM (orphanStep env tx recent) s = .ok o →
    Looked env tx recent rows s o
  | [], s, o, ho => by
    cases ho
    exact ⟨fun _ => .inl, fun _ => .inl, ⟨fun _ => id, fun _ => id⟩, fun _ => .inl, by simp⟩
  | m :: rows, s, o, ho => by
    rw [List.foldlM_cons] at ho
    obtain ⟨s₁, h₁, ho⟩ := bind_eq_ok.1 ho
    have h₁ := orphanStep_looked h₁
    have h₂ := looked_spec ho
    refine ⟨fun id hid => ?_, fun r hr => ?_, ⟨fun id hid => h₂.keeps.1 id (h₁.keeps.1 id hid),
      fun u hu => h₂.keeps.2 u (h₁.keeps.2 u hu)⟩, fun sha hsha => ?_, fun m' hm' hu => ?_⟩
    · rcases h₂.ids id hid with hid | hid
      · exact h₁.ids id hid
      · exact .inr hid
    · rcases h₂.skips r hr with hr | hr
      · rcases h₁.skips r hr with hr | ⟨id, hid, hc⟩
        · exact .inl hr
        · exact .inr ⟨id, h₂.keeps.1 id hid, hc⟩
      · exact .inr hr
    · rcases h₂.candidates sha hsha with hsha | hsha
      · exact h₁.candidates sha hsha
      · exact .inr hsha
    · rcases List.mem_cons.1 hm' with rfl | hm'
      · have hu₁ : s₁.undecodable = [] := by
          rw [List.eq_nil_iff_forall_not_mem]
          intro u hmem
          have := h₂.keeps.2 u hmem
          rw [hu] at this
          cases this
        obtain ⟨id, x, hc, hx, hid⟩ := h₁.read m' (List.mem_singleton_self _) hu₁
        exact ⟨id, x, hc, hx, fun hsome => h₂.keeps.1 id (hid hsome)⟩
      · exact h₂.read m' hm' hu

end Look

/-! ## What a plan takes away -/

section Plans
variable {cutoff : Int} {settled : Bool} {plan : Plan}

/-- How a plan came about. -/
theorem planWith_ok (hp : planWith env tx cutoff settled = .ok plan) : ∃ entries o scan,
    attachmentEntriesIn env.toAppEnv tx = .ok entries ∧
    Looked env tx ((entries.filter fun e => attachedRecently e cutoff).map AttachmentIndex.attachment)
      (if settled then [] else metasOf tx.db revisionKind) ⟨[], [], [], []⟩ o ∧
    referenceScanIn env.toAppEnv tx
      (o.candidates ++ (entries.filter (agedMark cutoff)).map AttachmentIndex.attachment).dedup o.rows = .ok scan ∧
    (settled = true → o = ⟨[], [], [], []⟩) ∧
    plan.orphans = o.ids ∧ plan.unreferenced = scan.1 ∧ plan.undecodable = joinUndecodable o.undecodable scan.2 ∧
    plan.unstamped = entries.filter unstampedMark := by
  unfold planWith at hp
  obtain ⟨rows, -, hp⟩ := bind_eq_ok.1 hp
  obtain ⟨entries, hentries, hp⟩ := bind_eq_ok.1 hp
  obtain ⟨revisions, hrev, hp⟩ := bind_eq_ok.1 hp
  obtain ⟨o, ho, hp⟩ := bind_eq_ok.1 hp
  obtain ⟨scan, hscan, hp⟩ := bind_eq_ok.1 hp
  cases hp
  have hrows : revisions = if settled then [] else metasOf tx.db revisionKind := by
    unfold revisionsToRead at hrev
    cases settled with
    | true => exact (Except.ok.inj hrev).symm
    | false => exact objectMeta_ok hrev
  refine ⟨entries, o, scan, hentries, hrows ▸ looked_spec ho, hscan, fun hset => ?_, rfl, rfl, rfl, rfl⟩
  rw [hrows, hset] at ho
  exact (Except.ok.inj ho).symm

theorem subset_joinUndecodable (a b : List UndecodableObject) : ∀ u ∈ a, u ∈ joinUndecodable a b := by
  unfold joinUndecodable
  induction b generalizing a with
  | nil => exact fun u hu => hu
  | cons o b ih =>
    intro u hu
    rw [List.foldl_cons]
    apply ih
    split_ifs
    · exact hu
    · exact List.mem_append_left _ hu

/-- Every row id of a kind that can name a file is spelled as the store spells ids, or is no id. -/
def SpelledIds (env : AppEnv) (db : Db P) : Prop :=
  ∀ r ∈ db.objects.list, r.kind ∈ referrers → env.canonicalId r.id = none ∨ env.canonicalId r.id = some r.id

/-- A revision that the look read decodes. -/
theorem decodes_of_orphanRefs {r : ObjectRow} (hr : r ∈ tx.db.objects.list) (hk : r.kind = revisionKind)
    {x : Option (List Text)} (hx : orphanRefs env.toAppEnv tx r.id = .ok x) : ∃ revision,
      sealedRevision env.toAppEnv r.id r.payload = .ok revision ∧
        (x = none → (tx.db.objects.get? (requestKind, revision.requestId)).isSome) := by
  obtain ⟨revision, hrev, h⟩ := orphanRefs_ok hx (hk ▸ get?_row hr)
  refine ⟨revision, hrev, fun hnone => ?_⟩
  rcases h with ⟨-, h⟩ | ⟨refs, h, -⟩
  · exact h
  · rw [hnone] at h
    cases h

theorem revision_referrer : revisionKind ∈ referrers := by decide

/-- A plan that looked at the revisions and met nothing undecodable has read each of them. -/
theorem look_reads (hspell : SpelledIds env.toAppEnv tx.db) (hp : planWith env tx cutoff false = .ok plan)
    (hu : plan.undecodable = []) {r : ObjectRow} (hr : r ∈ tx.db.objects.list) (hk : r.kind = revisionKind) :
    ∃ x, orphanRefs env.toAppEnv tx r.id = .ok x ∧ (x.isSome → r.id ∈ plan.orphans) := by
  obtain ⟨entries, o, scan, -, hlook, -, -, horph, -, hund, -⟩ := planWith_ok hp
  have ho : o.undecodable = [] := by
    rw [List.eq_nil_iff_forall_not_mem]
    intro u hmem
    have hjoin := subset_joinUndecodable _ scan.2 u hmem
    rw [← hund, hu] at hjoin
    cases hjoin
  obtain ⟨id, x, hc, hx, hsome⟩ := hlook.read r.rowMeta (List.mem_map_of_mem (List.mem_filter.2 ⟨hr, by simpa using hk⟩)) ho
  have hid : id = r.id := by
    rcases hspell r hr (hk ▸ revision_referrer) with hnone | hcanon
    · rw [show r.rowMeta.id = r.id from rfl, hnone] at hc
      cases hc
    · rw [show r.rowMeta.id = r.id from rfl, hcanon] at hc
      exact (Option.some.inj hc).symm
  subst hid
  exact ⟨x, hx, fun h => horph ▸ hsome h⟩

end Plans

/-! ## The digest of the revision rows -/

section Digest

/-- The columns of the rows that the digest covers end where their separators stand. -/
def SpelledColumns (db : Db P) : Prop :=
  ∀ r ∈ db.objects.list, r.kind = revisionKind ∨ r.kind = requestKind →
    ∀ c ∈ r.id ++ r.owner.getD [] ++ r.parent.getD [], c ≠ nul ∧ c ≠ '\n'

theorem append_cons_inj {c : Char} : ∀ {a b x y : Text}, c ∉ a → c ∉ b → a ++ c :: x = b ++ c :: y → a = b ∧ x = y
  | [], [], x, y, _, _, he => ⟨rfl, (List.cons.inj he).2⟩
  | [], d :: b, x, y, _, hb, he => absurd (List.cons.inj he).1 fun hc => hb (hc ▸ List.mem_cons_self)
  | d :: a, [], x, y, ha, _, he => absurd (List.cons.inj he).1 fun hc => ha (hc ▸ List.mem_cons_self)
  | d :: a, d' :: b, x, y, ha, hb, he => by
    obtain ⟨hd, he⟩ := List.cons.inj he
    obtain ⟨hab, hxy⟩ := append_cons_inj (fun h => ha (List.mem_cons_of_mem _ h)) (fun h => hb (List.mem_cons_of_mem _ h)) he
    exact ⟨by rw [hd, hab], hxy⟩

/-- Lines that hold no newline are read back from their text. -/
theorem splitOn_lines : ∀ {lines : List Text}, (∀ l ∈ lines, '\n' ∉ l) →
    (lines.flatMap fun l => l ++ ['\n']).splitOn '\n' = lines ++ [[]]
  | [], _ => by simp
  | l :: lines, hl => by
    obtain ⟨hl, hrest⟩ := List.forall_mem_cons.1 hl
    rw [List.flatMap_cons, List.append_assoc, List.singleton_append, List.splitOn_append_cons_self_of_not_mem hl,
      splitOn_lines hrest, List.cons_append]

/-- A line without its newline. -/
def revisionBody (m : RowMeta) : Text :=
  revisionKind ++ nul :: (m.id ++ nul :: (m.workspaceId.getD [] ++ nul :: (m.parentId.getD [] ++ nul :: intText m.updatedAt)))

def requestBody (id : Text) : Text := requestKind ++ nul :: id

def bodies (revisions requests : List RowMeta) : List Text :=
  (byId revisions).map revisionBody ++ ((requests.map RowMeta.id).mergeSort textLe).map requestBody

theorem revisionRowsText_eq (revisions requests : List RowMeta) :
    revisionRowsText revisions requests = (bodies revisions requests).flatMap fun l => l ++ ['\n'] := by
  have hrevision : revisionLine = fun m => revisionBody m ++ ['\n'] := by
    funext m
    simp [revisionLine, revisionBody]
  have hrequest : requestLine = fun id => requestBody id ++ ['\n'] := by
    funext id
    simp [requestLine, requestBody]
  unfold revisionRowsText bodies
  rw [List.flatMap_append, List.flatMap_map, List.flatMap_map, hrevision, hrequest]

theorem newline_not_mem_toDigits (n : Nat) : '\n' ∉ Nat.toDigits 10 n := by
  intro hmem
  have hdigit := Nat.isDigit_of_mem_toDigits (by omega) (by omega) hmem
  revert hdigit
  decide

theorem newline_not_mem_intText (i : Int) : '\n' ∉ intText i := by
  unfold intText
  split_ifs
  · simp [newline_not_mem_toDigits]
  · exact newline_not_mem_toDigits _

omit [DecidableEq P] in
theorem mem_metasOf {db : Db P} {kind : Text} {m : RowMeta} :
    m ∈ metasOf db kind ↔ ∃ r ∈ db.objects.list, r.kind = kind ∧ r.rowMeta = m := by
  simp [metasOf, and_assoc]

omit [DecidableEq P] in
theorem mem_bodies {db : Db P} {b : Text} : b ∈ bodies (metasOf db revisionKind) (metasOf db requestKind) ↔
    (∃ r ∈ db.objects.list, r.kind = revisionKind ∧ revisionBody r.rowMeta = b) ∨
      ∃ r ∈ db.objects.list, r.kind = requestKind ∧ requestBody r.id = b := by
  simp only [bodies, byId, List.mem_append, List.mem_map, List.mem_mergeSort, mem_metasOf]
  constructor
  · rintro (⟨m, ⟨r, hr, hk, rfl⟩, rfl⟩ | ⟨id, ⟨m, ⟨r, hr, hk, rfl⟩, rfl⟩, rfl⟩)
    · exact .inl ⟨r, hr, hk, rfl⟩
    · exact .inr ⟨r, hr, hk, rfl⟩
  · rintro (⟨r, hr, hk, rfl⟩ | ⟨r, hr, hk, rfl⟩)
    · exact .inl ⟨r.rowMeta, ⟨r, hr, hk, rfl⟩, rfl⟩
    · exact .inr ⟨r.id, ⟨r.rowMeta, ⟨r, hr, hk, rfl⟩, rfl⟩, rfl⟩

omit [DecidableEq P] in
theorem newline_not_mem_bodies {db : Db P} (hs : SpelledColumns db) :
    ∀ b ∈ bodies (metasOf db revisionKind) (metasOf db requestKind), '\n' ∉ b := by
  intro b hb
  have hkinds : '\n' ∉ revisionKind ∧ '\n' ∉ requestKind ∧ '\n' ≠ nul := by decide
  rcases mem_bodies.1 hb with ⟨r, hr, hk, rfl⟩ | ⟨r, hr, hk, rfl⟩
  · have hcol := hs r hr (.inl hk)
    have hid : '\n' ∉ r.id := fun hmem => (hcol _ (by simp [hmem])).2 rfl
    have hown : '\n' ∉ r.owner.getD [] := fun hmem => (hcol _ (by simp [hmem])).2 rfl
    have hpar : '\n' ∉ r.parent.getD [] := fun hmem => (hcol _ (by simp [hmem])).2 rfl
    simp [revisionBody, ObjectRow.rowMeta, hkinds, hid, hown, hpar, newline_not_mem_intText]
  · have hid : '\n' ∉ r.id := fun hmem => (hs r hr (.inr hk) _ (by simp [hmem])).2 rfl
    simp [requestBody, hkinds, hid]

omit [DecidableEq P] in
theorem nul_not_mem_id {db : Db P} (hs : SpelledColumns db) {r : ObjectRow} (hr : r ∈ db.objects.list)
    (hk : r.kind = revisionKind ∨ r.kind = requestKind) : nul ∉ r.id :=
  fun hmem => (hs r hr hk _ (by simp [hmem])).1 rfl

theorem nul_not_mem_kinds : nul ∉ revisionKind ∧ nul ∉ requestKind ∧ revisionKind ≠ requestKind := by decide

omit [DecidableEq P] in
/-- Two databases of one digest have the same revision and request ids. -/
theorem digest_ids {db db' : Db P} (hs : SpelledColumns db) (hs' : SpelledColumns db')
    (hinj : Function.Injective env.sha256) (he : revisionDigest env db = revisionDigest env db') {r : ObjectRow}
    (hr : r ∈ db.objects.list) (hk : r.kind = revisionKind ∨ r.kind = requestKind) :
    ∃ r' ∈ db'.objects.list, r'.kind = r.kind ∧ r'.id = r.id := by
  have htext := hinj he
  rw [revisionRowsText_eq, revisionRowsText_eq] at htext
  have hlines := congrArg (List.splitOn '\n') htext
  rw [splitOn_lines (newline_not_mem_bodies hs), splitOn_lines (newline_not_mem_bodies hs')] at hlines
  have hbodies := List.append_cancel_right hlines
  obtain ⟨hnrev, hnreq, hne⟩ := nul_not_mem_kinds
  have hid := nul_not_mem_id hs hr hk
  rcases hk with hk | hk
  · have hmem : revisionBody r.rowMeta ∈ bodies (metasOf db' revisionKind) (metasOf db' requestKind) :=
      hbodies ▸ mem_bodies.2 (.inl ⟨r, hr, hk, rfl⟩)
    rcases mem_bodies.1 hmem with ⟨r', hr', hk', hb⟩ | ⟨r', hr', hk', hb⟩
    · obtain ⟨-, hb⟩ := append_cons_inj hnrev hnrev hb
      exact ⟨r', hr', hk'.trans hk.symm, (append_cons_inj (nul_not_mem_id hs' hr' (.inl hk')) hid hb).1⟩
    · exact absurd (append_cons_inj hnreq hnrev hb).1 (Ne.symm hne)
  · have hmem : requestBody r.id ∈ bodies (metasOf db' revisionKind) (metasOf db' requestKind) :=
      hbodies ▸ mem_bodies.2 (.inr ⟨r, hr, hk, rfl⟩)
    rcases mem_bodies.1 hmem with ⟨r', hr', hk', hb⟩ | ⟨r', hr', hk', hb⟩
    · exact absurd (append_cons_inj hnrev hnreq hb).1 hne
    · exact ⟨r', hr', hk'.trans hk.symm, (append_cons_inj hnreq hnreq hb).2⟩

end Digest

/-! ## Passes and other writers -/

section Runs

/-- The request that each revision seals is the one `request` gives for its id: it never changes. -/
def Seals (env : AppEnv) (request : Text → Text) (db : Db P) : Prop :=
  ∀ r ∈ db.objects.list, r.kind = revisionKind → ∀ revision, sealedRevision env r.id r.payload = .ok revision →
    revision.requestId = request r.id

/-- The columns are spelled as the store spells them, and every revision seals its request. -/
structure Proper (env : AppEnv) (request : Text → Text) (db : Db P) : Prop where
  ids : SpelledIds env db
  columns : SpelledColumns db
  seals : Seals env request db

/-- A digest of rows in which every revision has its request. -/
def Settled (env : CleanupEnv) (request : Text → Text) (P : Type) (d : Text) : Prop :=
  ∃ db : Db P, SpelledColumns db ∧ d = revisionDigest env db ∧ ∀ r ∈ db.objects.list, r.kind = revisionKind →
    ∃ q ∈ db.objects.list, q.kind = requestKind ∧ q.id = request r.id

/-- The databases that a run of passes and of other writers, on any connection, leads to. Another writer may leave the note of
the last pass, or one that has no digest, as a database that no pass has seen. -/
inductive Reached (h : Hashes P B) (env : CleanupEnv) (request : Text → Text) : Db P → Prop
  | start (db : Db P) (hproper : Proper env.toAppEnv request db) (hnote : settledOf env db = none) : Reached h env request db
  | write (db db' : Db P) (hdb : Reached h env request db) (hproper : Proper env.toAppEnv request db')
    (hnote : settledOf env db' = settledOf env db ∨ settledOf env db' = none) : Reached h env request db'
  | pass (cutoff : Int) (clock : PassClock) (seen later : Tx h) (plan : Plan) (done : StorageCleanup) (tx : Tx h)
    (hdb : Reached h env request later.db) (hsame : later.db = seen.db) (hplan : planIn env seen cutoff = .ok plan)
    (happly : applyIn env clock plan later = .ok done tx) (hproper : Proper env.toAppEnv request tx.db) :
    Reached h env request tx.db

variable {request : Text → Text} {db : Db P}

theorem Reached.proper (hdb : Reached h env request db) : Proper env.toAppEnv request db := by
  cases hdb <;> assumption

omit [DecidableEq P] in
/-- While the digest of a settled state holds, every revision has its request. -/
theorem settled_request (hinj : Function.Injective env.sha256) (hcols : SpelledColumns db)
    (hd : Settled env request P (revisionDigest env db)) {r : ObjectRow} (hr : r ∈ db.objects.list)
    (hk : r.kind = revisionKind) :
    ∃ q ∈ db.objects.list, q.kind = requestKind ∧ q.id = request r.id := by
  obtain ⟨db₀, hcols₀, he, hreq⟩ := hd
  obtain ⟨r₀, hr₀, hk₀, hid₀⟩ := digest_ids hcols hcols₀ hinj he hr (.inl hk)
  obtain ⟨q₀, hq₀, hqk, hqid⟩ := hreq r₀ hr₀ (hk₀.trans hk)
  obtain ⟨q, hq, hqk', hqid'⟩ := digest_ids hcols₀ hcols hinj he.symm hq₀ (.inr hqk)
  exact ⟨q, hq, hqk'.trans hqk, hqid'.trans (hqid.trans (by rw [hid₀]))⟩

theorem settledIn_ok {b : Bool} (hs : settledIn env tx = .ok b) (hb : b = true) :
    settledOf env tx.db = some (revisionDigest env tx.db) := by
  subst hb
  unfold settledIn at hs
  split at hs
  · next digest hd =>
    cases hrows : revisionRowsDigestIn env tx with
    | error e =>
      rw [hrows] at hs
      cases hs
    | ok d =>
      rw [hrows] at hs
      have hdd : digest = d := by simpa using Except.ok.inj hs
      rw [← revisionRowsDigestIn_ok hrows, ← hdd]
      exact hd
  · cases hs

omit [DecidableEq P] in
theorem mem_of_applied {f : Text → Text} {r s : List Text} {db db' : Db P} (ha : Applied f r s db db') {x : ObjectRow}
    (hk : x.kind ≠ importSourceKind) :
    x ∈ db'.objects.list ↔ x ∈ db.objects.list ∧ ¬ (x.kind = revisionKind ∧ x.id ∈ r) := by
  have hget : ∀ d : Db P, x ∈ d.objects.list ↔ d.objects.get? (x.kind, x.id) = some x := by
    intro d
    exact ⟨Rows.get?_of_mem, fun hx => (Rows.get?_eq_some.1 hx).1⟩
  rw [hget, hget]
  by_cases hrev : x.kind = revisionKind
  · rw [hrev, ha.revisions]
    by_cases hid : x.id ∈ r
    · simp [hid]
    · simp [hid]
  · rw [ha.others _ hrev hk]
    simp [hrev]

theorem request_kind_ne : requestKind ≠ revisionKind ∧ requestKind ≠ importSourceKind := by decide

/-- What a pass leaves has no orphaned revision, if it kept a digest. -/
theorem settled_of_plan {cutoff : Int} {settled : Bool} {plan : Plan} {db' : Db P}
    (hproper : Proper env.toAppEnv request tx.db)
    (hproper' : SpelledColumns db') (hp : planWith env tx cutoff settled = .ok plan)
    (hset : settled = true → ∀ r ∈ tx.db.objects.list, r.kind = revisionKind →
      ∃ q ∈ tx.db.objects.list, q.kind = requestKind ∧ q.id = request r.id)
    (hu : plan.undecodable = []) (ha : Applied env.indexId plan.removes plan.releases tx.db db') :
    Settled env request P (revisionDigest env db') := by
  refine ⟨db', hproper', rfl, fun r hr hk => ?_⟩
  obtain ⟨hr, hleft⟩ := (mem_of_applied ha (by rw [hk]; exact Ne.symm importSource_ne_revision)).1 hr
  -- The request is there before the pass, and a pass removes no request.
  have hreq : ∃ q ∈ tx.db.objects.list, q.kind = requestKind ∧ q.id = request r.id := by
    cases settled with
    | true => exact hset rfl r hr hk
    | false =>
      obtain ⟨x, hx, hsome⟩ := look_reads hproper.ids hp hu hr hk
      have hnone : x = none := by
        cases x with
        | none => rfl
        | some refs =>
          refine absurd ⟨hk, ?_⟩ hleft
          unfold Plan.removes
          rw [hu]
          exact hsome rfl
      obtain ⟨revision, hrev, hstored⟩ := decodes_of_orphanRefs hr hk hx
      obtain ⟨q, hq⟩ := Option.isSome_iff_exists.1 (hstored hnone)
      obtain ⟨hmem, hkey⟩ := Rows.get?_eq_some.1 hq
      exact ⟨q, hmem, congrArg Prod.fst hkey, (congrArg Prod.snd hkey).trans (hproper.seals r hr hk revision hrev)⟩
  obtain ⟨q, hq, hqk, hqid⟩ := hreq
  exact ⟨q, (mem_of_applied ha (by rw [hqk]; exact request_kind_ne.2)).2
    ⟨hq, fun hc => request_kind_ne.1 (hqk.symm.trans hc.1)⟩,
    hqk, hqid⟩

theorem planIn_ok {cutoff : Int} {plan : Plan} (hp : planIn env tx cutoff = .ok plan) :
    ∃ settled, settledIn env tx = .ok settled ∧ planWith env tx cutoff settled = .ok plan := bind_eq_ok.1 hp

section Laws
variable (hkept : ∀ k, (env.readKept (env.writeKept k)).bind KeptPass.settled = k.settled)
    (hinj : Function.Injective env.sha256)
include hkept hinj

/-- Every digest that a pass kept is one of a settled state. -/
theorem Reached.settled (hdb : Reached h env request db) : ∀ d, settledOf env db = some d → Settled env request P d := by
  induction hdb with
  | start db hproper hnote =>
    intro d hd
    rw [hnote] at hd
    cases hd
  | write db db' hdb hproper hnote ih =>
    intro d hd
    rcases hnote with hnote | hnote
    · exact ih d (hnote ▸ hd)
    · rw [hnote] at hd
      cases hd
  | pass cutoff clock seen later plan done tx hdb hsame hplan happly hproper ih =>
    intro d hd
    obtain ⟨happlied, hnote, -⟩ := applyIn_ok hkept happly
    obtain ⟨settled, hsettled, hplan⟩ := planIn_ok hplan
    rw [hsame] at happlied ih hdb
    split_ifs at hnote with hu
    · rw [hnote] at hd
      rw [← Option.some.inj hd]
      refine settled_of_plan hdb.proper hproper.columns hplan (fun hb r hr hk => ?_) (List.isEmpty_iff.1 hu) happlied
      exact settled_request hinj hdb.proper.columns (ih _ (settledIn_ok hsettled hb)) hr hk
    · rw [hnote] at hd
      cases hd

end Laws

end Runs

/-! ## A damaged profile -/

section Sample

/-- `Uuid::parse_str` of the hyphenated form, and its canonical text. -/
def sampleCanonical (t : Text) : Option Text :=
  if t.length = 36 && (lower t).all fun c => isHexDigit c || c = '-' then some (lower t) else none

def ascii (b : Bytes) : Text := b.map fun x => Char.ofNat x.toNat

/-- Revisions under the first seal: an id and the id of its request. -/
def sampleCleanup : CleanupEnv where
  toStoreEnv := { sampleEnv with canonicalId := sampleCanonical }
  parse _ := some .null
  print _ := []
  revision b := some ⟨(ascii b).take 36, (ascii b).drop 36, .null⟩
  indexId sha := sha
  sha256 t := t
  writeKept k := k.settled.elim [] fun d => 's' :: d
  readKept t := some ⟨0, ⟨0, 0, []⟩, none, if t.isEmpty then none else some t.tail⟩

def goneRequest : Text := "00000000-0000-0000-0000-00000000000b".toList

def sampleClock : PassClock := ⟨fun _ => ⟨0, 0⟩, 0, 0⟩

/-- A round in which nothing is committed. -/
def sampleRound (db : Db Bytes) : Round sampleHashes := ⟨⟨db, none, []⟩, 0, ⟨db, none, []⟩, 0, sampleClock⟩

/-- The database a pass of one round leaves. -/
def passed (db : Db Bytes) : Option (Db Bytes) :=
  ((cleanUpStorage sampleCleanup 0 [sampleRound db]).toOption).map fun r => r.2.db

end Sample

end Anvil.Cleanup
