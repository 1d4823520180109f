import Anvil.Store.CacheRuns

/-!
# The catalogue agrees with the records

* `Agrees` : the catalogue rows are the entries of the protected rows, and the header and the canary have their root;
* `ensures_inTransaction_agrees` : a transaction keeps it, committed or rolled back at any point;
* `catalogue_agrees` : so does every run of `Store` handles, and a transaction that fails changes no table.
-/

namespace Anvil.Store
open Anvil.Lib Anvil.Storage

variable {P B : Type} [DecidableEq P] {h : Hashes P B} {env : StoreEnv}

/-- The catalogue, the header's root and the canary are of the stored objects and secrets. -/
structure Agrees (env : StoreEnv) (h : Hashes P B) (db : Db P) : Prop where
  rows : Stored db (capture h db)
  root : ∃ s, db.metas.get? stateKey = some ⟨stateKey, .state s⟩ ∧ s.manifestRoot = some (h.rootOf (capture h db))
  canary : ∃ sealed, db.metas.get? canaryKey = some ⟨canaryKey, .canary (.manifest sealed)⟩ ∧
    env.openBytes canaryAad sealed = some (rootBytes (h.rootOf (capture h db)))

theorem reserved_of_head {k : Text} (hn : k.head? ≠ some 'n') (hp : k.head? ≠ some 'p') : Reserved k := by
  refine ⟨?_, ?_⟩
  · rintro name rfl
    exact hn rfl
  · rintro id rfl
    exact hp rfl

theorem reserved_stateKey : Reserved stateKey := reserved_of_head (by decide) (by decide)

theorem reserved_canaryKey : Reserved canaryKey := reserved_of_head (by decide) (by decide)

/-- The same records, catalogue and authority. -/
theorem Agrees.congr {db db' : Db P} (ha : Agrees env h db) (hcat : db'.catalogue = db.catalogue)
    (hmetas : ∀ k, Reserved k → db'.metas.get? k = db.metas.get? k) (hsame : (capture h db).Same (capture h db')) :
    Agrees env h db' := by
  have hroot : h.rootOf (capture h db) = h.rootOf (capture h db') := Hashes.rootOf_same hsame
  obtain ⟨rows, hrows, hvalid, hentries⟩ := ha.rows
  refine ⟨⟨rows, hcat.trans hrows, hvalid, hentries.trans hsame⟩, ?_, ?_⟩
  · rw [hmetas _ reserved_stateKey, ← hroot]
    exact ha.root
  · rw [hmetas _ reserved_canaryKey, ← hroot]
    exact ha.canary

theorem Agrees.aside {db db' : Db P} (ha : Agrees env h db) (hd : Aside db db') : Agrees env h db' :=
  ha.congr hd.catalogue hd.metas fun n => (hd.capture n).symm

/-! ## Publishing -/

theorem bindManifestRoot_ok {c : Crypto} {hd hd' : ProfileHeader} {key : Key} {root : String}
    (hb : fromVault (bindManifestRoot c hd key root) = .ok hd') (s : KeyState) :
    KeyState.manifestRoot { s with header := hd' } = some root := by
  cases hr : bindManifestRoot c hd key root with
  | error e =>
    rw [hr] at hb
    cases hb
  | ok hd₁ =>
    rw [hr] at hb
    cases hb
    unfold bindManifestRoot at hr
    obtain ⟨u, -, hr⟩ := bind_eq_ok.1 hr
    split at hr
    · cases hr
    · cases hr
      rfl

/-- The authority after a publication is of the published root. -/
theorem publish_agrees {draw : Nat} {db db' : Db P} {s : KeyState} {m : Manifest h} {c : Catalogue h}
    (hseal : ∀ n a p, env.openBytes a (env.sealBytes n a p) = some p) (hp : publish env draw db s m = .ok (db', c))
    (hbase : Stored db m.base.entries) (hm : m.Proper) (htracks : m.merged.Same (capture h db))
    (hcanary : (db.metas.get? canaryKey).isSome) : Agrees env h db' := by
  obtain ⟨hstored, hmerged⟩ := publish_stored hp hbase hm
  obtain ⟨rows, header, -, -, hheader, hdb⟩ := publish_ok hp
  have hcapture : c.entries.Same (capture h db') := by
    intro n
    rw [hmerged, htracks n, get?_capture, get?_capture, hdb]
  have hroot : Catalogue.root c = h.rootOf (capture h db') := c.root_eq.trans (Hashes.rootOf_same hcapture)
  have hne : canaryKey ≠ stateKey := by decide
  have hcanary' : ((db.metas.put ⟨stateKey, .state { s with header := header }⟩).get? canaryKey).isSome := by
    rw [Rows.get?_put, if_neg hne]
    exact hcanary
  have hmetas : db'.metas = (db.metas.put ⟨stateKey, .state { s with header := header }⟩).put
      ⟨canaryKey, .canary (.manifest (env.sealBytes draw canaryAad (rootBytes (Catalogue.root c))))⟩ := by
    rw [hdb]
    exact if_pos hcanary'
  refine ⟨?_, ⟨{ s with header := header }, ?_, (bindManifestRoot_ok hheader s).trans (congrArg some hroot)⟩,
    ⟨env.sealBytes draw canaryAad (rootBytes (Catalogue.root c)), ?_, ?_⟩⟩
  · obtain ⟨rows', hrows', hvalid, hsame⟩ := hstored
    exact ⟨rows', hrows', hvalid, hsame.trans hcapture⟩
  · rw [hmetas, Rows.get?_put, if_neg hne.symm, Rows.get?_put, if_pos rfl]
  · rw [hmetas, Rows.get?_put, if_pos rfl]
  · rw [hseal, hroot]

/-! ## Transactions -/

/-- Every transaction on an enrolled profile begins with its records in step with the catalogue. -/
theorem Agrees.tracks {s : Session h} {m : Option (Manifest h)} (ha : Agrees env h s.db) (hs : s.Sound) (ho : Opened env m s)
    (locks : List Bool) : m ≠ none ∧ Tracks (⟨s.db, m, locks⟩ : Tx h) := by
  refine ⟨?_, ?_⟩
  · rintro rfl
    obtain ⟨rows, hrows, -⟩ := ha.rows
    rw [authenticatedRoot_none ho.root] at hrows
    cases hrows
  · intro m₀ hm₀ n
    obtain ⟨c, hc, hv, rfl⟩ := ho.begun m₀ hm₀
    exact ((hs c hc).2 hv).stored.unique ha.rows n

theorem Tracks.same {tx : Tx h} (ht : Tracks tx) {m : Manifest h} (hm : tx.manifest = some m) :
    m.merged.Same (capture h tx.db) := by
  intro n
  rw [← Manifest.get_eq]
  exact ht m hm n

/-- A transaction that changed no protected row. -/
theorem agrees_of_clean {s : Session h} {m : Option (Manifest h)} {locks : List Bool} {tx : Tx h} (ha : Agrees env h s.db)
    (hs : s.Sound) (ho : Opened env m s) (hmoves : Moves ⟨s.db, m, locks⟩ tx)
    (hclean : tx.manifest.filter Manifest.dirty = none) : Agrees env h tx.db := by
  obtain ⟨hsome, htracks⟩ := ha.tracks hs ho locks
  cases hm' : tx.manifest with
  | none =>
    have hstart := hmoves.started
    rw [hm'] at hstart
    exact absurd (Option.map_eq_none_iff.1 hstart.symm) hsome
  | some m' =>
    obtain ⟨c, -, -, hreflects, hend⟩ := ho.ended hs hmoves hm'
    have hdirty : m'.dirty = false := by
      rw [hm', Option.filter_eq_none_iff] at hclean
      simpa using hclean m' rfl
    have hsame := (hmoves.tracks htracks).same hm'
    rw [Manifest.merged_of_clean hdirty, hend.base] at hsame
    exact ha.congr hmoves.catalogue hmoves.metas ((ha.rows.unique hreflects.stored).trans hsame)

theorem ensures_commit_agrees (hseal : ∀ n a p, env.openBytes a (env.sealBytes n a p) = some p) {fate : Fate} {s : Session h}
    {m : Option (Manifest h)} {locks : List Bool} {tx : Tx h} (ha : Agrees env h s.db) (hs : s.Sound) (ho : Opened env m s)
    (hmoves : Moves ⟨s.db, m, locks⟩ tx) :
    Ensures (commit env fate tx) s (fun _ s' => Agrees env h s'.db) fun s' => s'.db = s.db := by
  unfold Ensures commit
  cases hdirty : tx.manifest.filter Manifest.dirty with
  | none =>
    have hdb : Ensures (commitDb fate tx.db) s (fun _ s' => Agrees env h s'.db) fun s' => s'.db = s.db :=
      ensures_commitDb (agrees_of_clean ha hs ho hmoves hdirty) rfl
    exact hdb
  | some m' =>
    obtain ⟨hm', -⟩ := Option.filter_eq_some_iff.1 hdirty
    obtain ⟨c, -, -, -, hend⟩ := ho.ended hs hmoves hm'
    simp only
    cases readChecked tx.db >>= orIntegrity with
    | error e => rfl
    | ok state =>
      simp only
      split_ifs with hlock
      · rfl
      · cases hp : publish env fate.draw tx.db state m' with
        | error e => rfl
        | ok r =>
          obtain ⟨db, catalogue⟩ := r
          unfold commitDb
          cases fate.commits with
          | false => rfl
          | true =>
            have hbase : Stored tx.db m'.base.entries := by
              rw [hend.base]
              exact hend.stored
            have hcanary : (tx.db.metas.get? canaryKey).isSome := by
              obtain ⟨sealed, hsealed, -⟩ := ha.canary
              rw [hmoves.metas _ reserved_canaryKey, hsealed]
              rfl
            have htracks := (hmoves.tracks (ha.tracks hs ho locks).2).same hm'
            exact publish_agrees hseal hp hbase hend.proper htracks hcanary

/-- A transaction that fails leaves every table as it was; one that ends leaves the catalogue in agreement. -/
theorem ensures_inTransaction_agrees (hseal : ∀ n a p, env.openBytes a (env.sealBytes n a p) = some p)
    (fate : Fate) (f : Prog)
    {s : Session h} (ha : Agrees env h s.db) (hs : s.Sound) :
    Ensures (inTransaction env fate f) s (fun _ s' => Agrees env h s'.db) fun s' => s'.db = s.db := by
  unfold inTransaction
  rw [ensures_bind]
  refine (looks_beginRecords s hs).imp ?_ fun _ hq => hq.2
  rintro m s₁ ⟨hs₁, hdb, ho⟩
  rw [← hdb] at ha
  rw [ensures_bind]
  have hfinish : Ensures (finish env fate (runProg env f ⟨s₁.db, m, fate.locks⟩)) s₁ (fun _ s' => Agrees env h s'.db)
      fun s' => s'.db = s₁.db := by
    unfold finish
    rw [ensures_bind]
    refine (ensures_inspect _).imp ?_ ?_
    · rintro a s₂ ⟨rfl, -⟩
      rw [ensures_bind]
      exact (ensures_commit_agrees hseal ha hs₁ ho (runProg_moves f _)).imp (fun _ _ => id) fun _ => id
    · rintro s₂ rfl
      rfl
  exact hfinish.imp (fun _ _ => id) fun s₂ hs₂ => hs₂.trans hdb

/-- The transaction of a store, from the check of its connection on. -/
theorem ensures_transaction_agrees (hseal : ∀ n a p, env.openBytes a (env.sealBytes n a p) = some p) (fate : Fate) (f : Prog)
    {s : Session h} (ha : Agrees env h s.db) (hs : s.Sound) :
    Ensures (transaction env fate f) s (fun _ s' => Agrees env h s'.db) fun s' => s'.db = s.db := by
  unfold transaction
  rw [ensures_bind]
  refine (looks_writing s hs).imp ?_ fun _ hq => hq.2
  rintro _ s₁ ⟨hs₁, hdb, -⟩
  rw [← hdb] at ha
  exact (ensures_inTransaction_agrees hseal fate f ha hs₁).imp (fun _ _ => id) fun s₂ hs₂ => hs₂.trans hdb

/-- A closure's failure is the transaction's. -/
theorem transaction_of_failed {fate : Fate} {f : Prog} {s s₀ s₁ : Session h} {m : Option (Manifest h)} {e : StoreError}
    (hw : writing env s = .ok () s₀) (hb : beginRecords env s₀ = .ok m s₁)
    (hf : (runProg env f ⟨s₁.db, m, fate.locks⟩).1 = .error e) : transaction env fate f s = .error e s₁ := by
  have hfinish : finish env fate (runProg env f ⟨s₁.db, m, fate.locks⟩) s₁ = .error e s₁ := by
    simp only [finish, bind, EStateM.bind, inspect, hf]
    rfl
  have hin : inTransaction env fate f s₀ = .error e s₁ := by
    simp only [inTransaction, bind, EStateM.bind, hb, EStateM.get]
    exact hfinish
  simp only [transaction, bind, EStateM.bind, hw]
  exact hin

/-! ## Runs -/

theorem leaves_agrees {α : Type} {m : StoreM h α} {s : Session h} (ha : Agrees env h s.db)
    (hm : Ensures m s (fun _ s' => Agrees env h s'.db) fun s' => s'.db = s.db) : Agrees env h (leaves m s).db := by
  unfold Ensures at hm
  unfold leaves
  cases hr : m s with
  | ok a s' =>
    rw [hr] at hm
    exact hm
  | error e s' =>
    rw [hr] at hm
    simp only at hm ⊢
    rw [hm]
    exact ha

theorem Looks.agrees {α : Type} {m : StoreM h α} {Q : α → Session h → Prop} {s : Session h} (hm : Looks m Q)
    (ha : Agrees env h s.db) (hs : s.Sound) : Agrees env h (leaves m s).db := by
  apply leaves_agrees ha
  refine (hm s hs).imp ?_ fun _ hq => hq.2
  rintro a s' ⟨-, hdb, -⟩
  rw [hdb]
  exact ha

theorem Call.run_agrees (hseal : ∀ n a p, env.openBytes a (env.sealBytes n a p) = some p) (c : Call) {s : Session h}
    (ha : Agrees env h s.db) (hs : s.Sound) : Agrees env h (c.run env s).db := by
  cases c with
  | check => exact looks_writing.agrees ha hs
  | transact fate f => exact leaves_agrees ha (ensures_inTransaction_agrees hseal fate f ha hs)
  | verify => exact looks_verifySnapshot.agrees ha hs
  | autocommit fate w =>
    apply leaves_agrees ha
    unfold Store.autocommit
    rw [ensures_bind]
    refine (looks_requireUnlocked s hs).imp ?_ fun _ hq => hq.2
    rintro _ s₁ ⟨-, hdb, -⟩
    rw [ensures_bind]
    have hcommit : Ensures (commitDb fate (w.run env s₁.db) : StoreM h Unit) s₁ (fun _ s' => Agrees env h s'.db)
        fun s' => s'.db = s.db := by
      apply ensures_commitDb
      · rw [hdb]
        exact ha.aside (w.run_aside s.db)
      · exact hdb
    exact hcommit
  | hold unlocked => exact ha

theorem StoreStep.agrees (hseal : ∀ n a p, env.openBytes a (env.sealBytes n a p) = some p) {σ τ : System h}
    (hstep : StoreStep env σ τ) (hσ : σ.Sound ∧ Agrees env h σ.db) : τ.Sound ∧ Agrees env h τ.db := by
  refine ⟨hstep.sound hσ.1, ?_⟩
  cases hstep with
  | opened i hd hcold => exact hσ.2
  | call i hd c versions hi hlater => exact c.run_agrees hseal hσ.2 (hσ.1 i hd hi)

/-- **The catalogue always agrees with the records.** From an enrolled database in agreement, every run of `Store` handles
and their transactions, committed or rolled back at any point, ends in agreement; and a transaction that fails, as one
whose closure failed does, leaves every table as it was. -/
theorem catalogue_agrees (hseal : ∀ n a p, env.openBytes a (env.sealBytes n a p) = some p) {db : Db P}
    (hdb : Agrees env h db) {σ : System h} (hr : Reaches (StoreStep env) (System.closed h db) σ) :
    Agrees env h σ.db ∧ ∀ i hd fate f, σ.handles i = some hd →
      (∀ e s, transaction env fate f ⟨hd, σ.db⟩ = .error e s → s.db = σ.db) ∧
      ∀ s₀ s₁ m e, writing env ⟨hd, σ.db⟩ = .ok () s₀ → beginRecords env s₀ = .ok m s₁ →
        (runProg env f ⟨s₁.db, m, fate.locks⟩).1 = .error e →
        transaction env fate f ⟨hd, σ.db⟩ = .error e s₁ ∧ s₁.db = σ.db := by
  obtain ⟨hsound, hagrees⟩ := hr.inv (fun σ => σ.Sound ∧ Agrees env h σ.db) (fun _ _ hstep hσ => hstep.agrees hseal hσ)
    ⟨System.closed_sound db, hdb⟩
  refine ⟨hagrees, ?_⟩
  intro i hd fate f hi
  have hfails : ∀ e s, transaction env fate f ⟨hd, σ.db⟩ = .error e s → s.db = σ.db := by
    intro e s he
    have htx := ensures_transaction_agrees hseal fate f (s := ⟨hd, σ.db⟩) hagrees (hsound i hd hi)
    unfold Ensures at htx
    rw [he] at htx
    exact htx
  refine ⟨hfails, ?_⟩
  intro s₀ s₁ m e hw hb hf
  have htx := transaction_of_failed hw hb hf
  exact ⟨htx, hfails e s₁ htx⟩

/-- An enrolled profile in which a secret is stored. -/
theorem catalogue_agrees_sample :
    (∀ n a p, sampleEnv.openBytes a (sampleEnv.sealBytes n a p) = some p) ∧ Agrees sampleEnv sampleHashes sampleDb ∧
      Reaches (StoreStep sampleEnv) (System.closed sampleHashes sampleDb) (System.alone sampleSession) ∧
      sampleSession.db.secrets.list.length = 1 ∧ Agrees sampleEnv sampleHashes sampleSession.db := by
  have hdb : Agrees sampleEnv sampleHashes sampleDb := by
    refine ⟨⟨Rows.empty, rfl, ?_, ?_⟩, ⟨⟨sampleHeader "none", none⟩, by decide, by decide⟩,
      ⟨sampleEnv.sealBytes 0 canaryAad (rootBytes "none"), by decide, by decide⟩⟩
    · intro r hr
      cases hr
    · intro n
      rfl
  exact ⟨sampleEnv_open, hdb, sampleSession_reached, by decide,
    (catalogue_agrees sampleEnv_open hdb sampleSession_reached).1⟩

end Anvil.Store
