import Anvil.Storage.VaultRuns
import Anvil.Store.RecordRuns

/-!
# The cached catalogue over whole runs

* `Stored` : the rows of the catalogue table are the entries; `publish_stored` : publishing writes only the changed ones;
* `Reflects` : a cached catalogue is the stored one, and its rows where they count as verified;
* `Session.Sound` : the cache of a handle reflects the database as long as its connection saw no other commit;
* `Safe` : what the calls on a handle keep; `reaches_sound` : every handle of every run.
-/

namespace Anvil.Store
open Anvil.Lib Anvil.Storage

variable {P B : Type} [DecidableEq P] {h : Hashes P B} {env : StoreEnv}

/-! ## The stored entries -/

omit [DecidableEq P] in
theorem get?_entriesOf (rows : Rows (@CatalogueRow.name P)) (n : Name) :
    (entriesOf rows).get? n = (rows.get? n).bind validEntry := by
  apply Option.ext
  intro e
  rw [Rows.get?_eq_some, Option.bind_eq_some_iff]
  simp only [Rows.get?_eq_some]
  constructor
  · rintro ⟨he, rfl⟩
    obtain ⟨r, hr, hv⟩ := List.mem_filterMap.1 he
    exact ⟨r, ⟨hr, (validEntry_name hv).symm⟩, hv⟩
  · rintro ⟨r, ⟨hr, rfl⟩, hv⟩
    exact ⟨List.mem_filterMap.2 ⟨r, hr, hv⟩, validEntry_name hv⟩

/-- Every catalogue row is an entry. -/
def AllValid (rows : Rows (@CatalogueRow.name P)) : Prop := ∀ r ∈ rows.list, (validEntry r).isSome

/-- The catalogue table has the entries, and no other rows. -/
def Stored (db : Db P) (entries : Entries P) : Prop :=
  ∃ rows, db.catalogue = some rows ∧ AllValid rows ∧ (entriesOf rows).Same entries

omit [DecidableEq P] in
theorem Stored.unique {db : Db P} {m m' : Entries P} (hs : Stored db m) (hs' : Stored db m') : m.Same m' := by
  obtain ⟨rows, hr, -, hm⟩ := hs
  obtain ⟨rows', hr', -, hm'⟩ := hs'
  obtain rfl := Option.some.inj (hr.symm.trans hr')
  exact hm.symm.trans hm'

theorem loadCatalogue_ok {db : Db P} {root : String} {c : Catalogue h} (hc : loadCatalogue h db root = .ok c) :
    Stored db c.entries ∧ Catalogue.root c = root := by
  unfold loadCatalogue at hc
  obtain ⟨rows, hrows, hc⟩ := bind_eq_ok.1 hc
  obtain ⟨u, hvalid, hc⟩ := bind_eq_ok.1 hc
  obtain ⟨u', hroot, hc⟩ := bind_eq_ok.1 hc
  rw [refuseIf_ok, not_not] at hvalid hroot
  have hcat : db.catalogue = some rows := by
    cases hd : db.catalogue with
    | none =>
      rw [hd] at hrows
      cases hrows
    | some r =>
      rw [hd] at hrows
      cases hrows
      rfl
  cases hc
  refine ⟨⟨rows, hcat, ?_, Rows.Same.refl _⟩, hroot⟩
  exact List.all_eq_true.1 hvalid

omit [DecidableEq P] in
theorem validEntry_change {c : Change (@Entry.name P)} {e : Entry P} (hv : c.value = some e) (hp : e.Protected) :
    validEntry ⟨c.name, some e⟩ = some e := by
  unfold validEntry
  rw [Option.filter_some, if_pos]
  rw [Bool.and_eq_true, Bool.or_eq_true, decide_eq_true_eq, decide_eq_true_eq, decide_eq_true_eq]
  exact ⟨(c.named e hv).symm, hp⟩

omit [DecidableEq P] in
theorem patchRow_stored {rows : Rows (@CatalogueRow.name P)} {c : Change (@Entry.name P)} (hr : AllValid rows)
    (hc : ∀ e, c.value = some e → e.Protected) :
    AllValid (patchRow rows c) ∧ (entriesOf (patchRow rows c)).Same ((entriesOf rows).patch c) := by
  unfold patchRow
  split
  · next e he =>
    have hv := validEntry_change he (hc e he)
    refine ⟨?_, ?_⟩
    · intro r hmem
      rcases Rows.mem_put.1 hmem with ⟨hmem, -⟩ | rfl
      · exact hr r hmem
      · rw [hv]
        rfl
    · intro n
      rw [get?_entriesOf, Rows.get?_put, Rows.get?_patch, get?_entriesOf, he]
      split_ifs with hn
      · exact hv
      · rfl
  · next he =>
    refine ⟨fun r hmem => hr r (Rows.mem_remove.1 hmem).1, ?_⟩
    intro n
    rw [get?_entriesOf, Rows.get?_remove, Rows.get?_patch, get?_entriesOf, he]
    split_ifs with hn
    · rfl
    · rfl

omit [DecidableEq P] in
theorem foldl_patchRow_stored : ∀ {cs : List (Change (@Entry.name P))} {rows : Rows (@CatalogueRow.name P)}
    (_ : AllValid rows) (_ : ∀ c ∈ cs, ∀ e, c.value = some e → e.Protected),
    AllValid (cs.foldl patchRow rows) ∧ (entriesOf (cs.foldl patchRow rows)).Same (cs.foldl Rows.patch (entriesOf rows))
  | [], rows, hr, _ => ⟨hr, Rows.Same.refl _⟩
  | c :: cs, rows, hr, hcs => by
    have hc := patchRow_stored hr (hcs c List.mem_cons_self)
    obtain ⟨hall, hsame⟩ := foldl_patchRow_stored hc.1 fun d hd => hcs d (List.mem_cons_of_mem c hd)
    refine ⟨hall, hsame.trans ?_⟩
    exact Rows.Same.foldl_patch hc.2 cs

/-! ## Publishing -/

/-- What a publication writes: the changed entries, the header with the root, and the canary. -/
theorem publish_ok {draw : Nat} {db db' : Db P} {s : KeyState} {m : Manifest h} {c : Catalogue h}
    (hp : publish env draw db s m = .ok (db', c)) :
    ∃ rows header, db.catalogue = some rows ∧ c = m.base.apply m.changes ∧
      fromVault (bindManifestRoot env.crypto s.header env.key (Catalogue.root c)) = .ok header ∧
      db' = { db with
        catalogue := some (m.changes.list.foldl patchRow rows)
        metas := updateCanary env draw (Catalogue.root c)
          (db.metas.put ⟨stateKey, .state { s with header := header }⟩) } := by
  unfold publish at hp
  obtain ⟨rows, hrows, hp⟩ := bind_eq_ok.1 hp
  obtain ⟨db₁, hroot, hp⟩ := bind_eq_ok.1 hp
  unfold publishRoot at hroot
  obtain ⟨header, hheader, hroot⟩ := bind_eq_ok.1 hroot
  cases hroot
  cases hp
  have hcat : db.catalogue = some rows := by
    cases hd : db.catalogue with
    | none =>
      rw [hd] at hrows
      cases hrows
    | some r =>
      rw [hd] at hrows
      cases hrows
      rfl
  exact ⟨rows, header, hcat, rfl, hheader, rfl⟩

/-- The stored catalogue after a publication is the published one. -/
theorem publish_stored {draw : Nat} {db db' : Db P} {s : KeyState} {m : Manifest h} {c : Catalogue h}
    (hp : publish env draw db s m = .ok (db', c)) (hbase : Stored db m.base.entries) (hm : m.Proper) :
    Stored db' c.entries ∧ c.entries = m.merged := by
  obtain ⟨rows, header, hrows, rfl, -, rfl⟩ := publish_ok hp
  obtain ⟨rows', hrows', hvalid, hsame⟩ := hbase
  obtain rfl := Option.some.inj (hrows.symm.trans hrows')
  obtain ⟨hall, hpatched⟩ := foldl_patchRow_stored hvalid hm
  exact ⟨⟨_, rfl, hall, hpatched.trans (hsame.patchAll m.changes)⟩, rfl⟩

/-! ## Caches that reflect the database -/

/-- The cached catalogue is the stored one, and has the root it is kept for. -/
structure Reflects (c : Cache h) (db : Db P) : Prop where
  root : Catalogue.root c.catalogue = c.root
  stored : Stored db c.catalogue.entries
  verified : c.rowsVerified = true → c.catalogue.entries.Same (capture h db)

/-- A cache is never ahead of its connection, and reflects the database unless another connection committed since. -/
def Session.Sound (s : Session h) : Prop :=
  ∀ c, s.handle.cache = some c → c.dataVersion ≤ s.handle.dataVersion ∧
    (c.dataVersion = s.handle.dataVersion → Reflects c s.db)

theorem sound_of_cold {s : Session h} (hc : s.handle.cache = none) : s.Sound := by
  intro c hc'
  rw [hc] at hc'
  cases hc'

theorem Session.Sound.withCache_none (s : Session h) : (s.withCache none).Sound := sound_of_cold rfl

/-- Any change of the handle but to its cache and `data_version`. -/
theorem Session.Sound.congr {s s' : Session h} (hs : s.Sound) (hc : s'.handle.cache = s.handle.cache)
    (hv : s'.handle.dataVersion = s.handle.dataVersion) (hdb : s'.db = s.db) : s'.Sound := by
  intro c hc'
  rw [hc] at hc'
  rw [hv, hdb]
  exact hs c hc'

/-- However the action ends, the handle is sound and the database as it was. -/
def Looks {α : Type} (m : StoreM h α) (Q : α → Session h → Prop) : Prop :=
  ∀ s, s.Sound → Ensures m s (fun a s' => s'.Sound ∧ s'.db = s.db ∧ Q a s') fun s' => s'.Sound ∧ s'.db = s.db

variable {α β : Type} {Q : α → Session h → Prop} {R : β → Session h → Prop}

theorem looks_pure {a : α} (hq : ∀ s, Q a s) : Looks (pure a : StoreM h α) Q := fun s hs => ⟨hs, rfl, hq s⟩

theorem Looks.bind {m : StoreM h α} {f : α → StoreM h β} (hm : Looks m Q)
    (hf : ∀ a s, s.Sound → Q a s → Ensures (f a) s (fun b s' => s'.Sound ∧ s'.db = s.db ∧ R b s') fun s' => s'.Sound ∧
      s'.db = s.db) :
    Looks (m >>= f) R := by
  intro s hs
  rw [ensures_bind]
  refine (hm s hs).imp ?_ fun _ => id
  rintro a s₁ ⟨hs₁, hdb, hq⟩
  refine (hf a s₁ hs₁ hq).imp ?_ ?_
  · exact fun b s₂ hb => ⟨hb.1, hb.2.1.trans hdb, hb.2.2⟩
  · exact fun s₂ hb => ⟨hb.1, hb.2.trans hdb⟩

theorem Looks.then {m : StoreM h α} {f : α → StoreM h β} (hm : Looks m Q) (hf : ∀ a, Looks (f a) R) : Looks (m >>= f) R :=
  hm.bind fun a s hs _ => hf a s hs

theorem ensures_inspect {s : Session h} (f : Db P → Except StoreError α) :
    Ensures (inspect f : StoreM h α) s (fun a s' => s' = s ∧ f s.db = .ok a) fun s' => s' = s := by
  have hcheck : Ensures (check (f s.db) : StoreM h α) s (fun a s' => s' = s ∧ f s.db = .ok a) fun s' => s' = s :=
    ensures_check.2 ⟨fun a ha => ⟨rfl, ha⟩, fun _ _ => rfl⟩
  exact hcheck

theorem looks_inspect (f : Db P → Except StoreError α) : Looks (inspect f : StoreM h α) fun a s => f s.db = .ok a := by
  intro s hs
  refine (ensures_inspect f).imp ?_ ?_
  · rintro a s' ⟨rfl, ha⟩
    exact ⟨hs, rfl, ha⟩
  · rintro s' rfl
    exact ⟨hs, rfl⟩

/-- The manifest began with the handle's cache, at the state it reflects. -/
def Begun (m : Manifest h) (s : Session h) : Prop :=
  ∃ c, s.handle.cache = some c ∧ c.dataVersion = s.handle.dataVersion ∧ m = Manifest.begin c.catalogue c.root c.dataVersion

theorem looks_catalogueAt (root : String) :
    Looks (catalogueAt root : StoreM h (Manifest h)) fun m s => Begun m s ∧ m.root = root := by
  intro s hs
  unfold Ensures catalogueAt
  cases hhit : s.handle.cache.filter fun c => c.hits root s.handle.dataVersion with
  | some c =>
    obtain ⟨hc, hroot⟩ := Option.filter_eq_some_iff.1 hhit
    unfold Cache.hits at hroot
    rw [Bool.and_eq_true, decide_eq_true_eq, decide_eq_true_eq] at hroot
    obtain ⟨rfl, hv⟩ := hroot
    refine ⟨hs, rfl, ⟨c, hc, hv, ?_⟩, rfl⟩
    rw [hv]
  | none =>
    cases hload : loadCatalogue h s.db root with
    | error e => exact ⟨Session.Sound.withCache_none s, rfl⟩
    | ok c =>
      obtain ⟨hstored, hroot⟩ := loadCatalogue_ok hload
      refine ⟨?_, rfl, ⟨_, rfl, rfl, rfl⟩, rfl⟩
      intro c' hc'
      cases hc'
      exact ⟨le_rfl, fun _ => ⟨hroot, hstored, by simp⟩⟩

omit [DecidableEq P] in
theorem authenticatedRoot_none {db : Db P} (ha : authenticatedRoot env db = .ok none) : db.catalogue = none := by
  unfold authenticatedRoot at ha
  obtain ⟨state, -, ha⟩ := bind_eq_ok.1 ha
  split at ha
  · unfold checkUnenrolled at ha
    obtain ⟨u, hu, -⟩ := bind_eq_ok.1 ha
    rw [refuseIf_ok, not_or, not_or] at hu
    exact Option.not_isSome_iff_eq_none.1 hu.2.1
  · unfold checkRoot at ha
    obtain ⟨_, -, ha⟩ := bind_eq_ok.1 ha
    obtain ⟨_, -, ha⟩ := bind_eq_ok.1 ha
    obtain ⟨_, -, ha⟩ := bind_eq_ok.1 ha
    obtain ⟨_, -, ha⟩ := bind_eq_ok.1 ha
    obtain ⟨_, -, ha⟩ := bind_eq_ok.1 ha
    cases ha

/-- What a transaction begins with: the catalogue that the root authenticates, or none where there is no catalogue. -/
structure Opened (env : StoreEnv) (m : Option (Manifest h)) (s : Session h) : Prop where
  root : authenticatedRoot env s.db = .ok (m.map Manifest.root)
  begun : ∀ m₀, m = some m₀ → Begun m₀ s

theorem looks_verifiedCatalogue : Looks (verifiedCatalogue env : StoreM h (Option (Manifest h))) (Opened env) := by
  unfold verifiedCatalogue
  apply (looks_inspect _).bind
  intro root s hs hroot
  cases root with
  | none => exact ⟨hs, rfl, hroot, by simp⟩
  | some root =>
    have hmap : Ensures (some <$> catalogueAt root : StoreM h (Option (Manifest h))) s
        (fun m s' => s'.Sound ∧ s'.db = s.db ∧ Opened env m s') (fun s' => s'.Sound ∧ s'.db = s.db) := by
      rw [← bind_pure_comp, ensures_bind]
      refine (looks_catalogueAt root s hs).imp ?_ fun _ => id
      rintro m s' ⟨hs', hdb, hbegun, rfl⟩
      refine ⟨hs', hdb, ?_, ?_⟩
      · rw [hdb, hroot]
        rfl
      · rintro m₀ hm₀
        cases hm₀
        exact hbegun
    exact hmap

theorem ensures_requireManifest {s : Session h} (present : Bool) :
    Ensures (requireManifest present : StoreM h Unit) s
      (fun _ s' => s'.handle.cache = s.handle.cache ∧ s'.handle.dataVersion = s.handle.dataVersion ∧ s'.db = s.db)
      fun s' => s' = s := by
  unfold Ensures requireManifest
  cases present with
  | true => exact ⟨rfl, rfl, rfl⟩
  | false =>
    cases hr : s.handle.manifestRequired with
    | true => simp
    | false => simp

theorem Opened.congr {m : Option (Manifest h)} {s s' : Session h} (ho : Opened env m s)
    (hc : s'.handle.cache = s.handle.cache)
    (hv : s'.handle.dataVersion = s.handle.dataVersion) (hdb : s'.db = s.db) : Opened env m s' := by
  refine ⟨by rw [hdb, ho.root], ?_⟩
  intro m₀ hm₀
  obtain ⟨c, hcache, hver, rfl⟩ := ho.begun m₀ hm₀
  exact ⟨c, hc.trans hcache, hver.trans hv.symm, rfl⟩

theorem looks_requireUnlocked : Looks (requireUnlocked : StoreM h Unit) fun _ _ => True := by
  intro s hs
  unfold Ensures requireUnlocked
  cases hu : s.handle.unlocked with
  | true => simpa using hs
  | false => simpa using hs

theorem looks_beginRecords : Looks (beginRecords env : StoreM h (Option (Manifest h))) (Opened env) := by
  unfold beginRecords
  apply looks_requireUnlocked.then
  intro _
  apply looks_verifiedCatalogue.bind
  intro m s hs ho
  rw [ensures_bind]
  refine (ensures_requireManifest m.isSome).imp ?_ ?_
  · rintro _ s' ⟨hc, hv, hdb⟩
    exact ⟨hs.congr hc hv hdb, hdb, ho.congr hc hv hdb⟩
  · rintro s' rfl
    exact ⟨hs, rfl⟩

theorem looks_checkHeldKey : Looks (checkHeldKey env : StoreM h Unit) fun _ _ => True := by
  unfold checkHeldKey
  apply (looks_inspect _).then
  intro valid
  apply looks_verifiedCatalogue.bind
  intro m s hs ho
  rw [ensures_bind]
  refine (ensures_requireManifest m.isSome).imp ?_ ?_
  · rintro _ s' ⟨hc, hv, hdb⟩
    refine (looks_inspect _ s' (hs.congr hc hv hdb)).imp ?_ ?_
    · exact fun _ s'' hq => ⟨hq.1, hq.2.1.trans hdb, trivial⟩
    · exact fun s'' hq => ⟨hq.1, hq.2.trans hdb⟩
  · rintro s' rfl
    exact ⟨hs, rfl⟩

theorem looks_conn : Looks (conn env : StoreM h Unit) fun _ _ => True := by
  intro s hs
  have hcheck : Ensures (checkHeldKey env) s _ _ := looks_checkHeldKey s hs
  unfold Ensures at hcheck ⊢
  unfold conn
  split_ifs with hu
  · cases hr : checkHeldKey env s with
    | ok _ s' =>
      rw [hr] at hcheck
      exact hcheck
    | error e s' =>
      rw [hr] at hcheck
      cases e with
      | integrity => exact ⟨hcheck.1.congr rfl rfl rfl, hcheck.2⟩
      | _ => exact hcheck
  · exact ⟨hs, rfl, trivial⟩

theorem looks_writing : Looks (writing env : StoreM h Unit) fun _ _ => True :=
  looks_conn.then fun _ => looks_requireUnlocked

/-! ## The end of a transaction -/

/-- What a transaction's manifest is at its end, of the cache it began with. -/
structure Ended (c : Cache h) (m : Manifest h) (db : Db P) : Prop where
  base : m.base = c.catalogue
  root : m.root = c.root
  dataVersion : m.dataVersion = c.dataVersion
  proper : m.Proper
  stored : Stored db c.catalogue.entries
  verified : c.rowsVerified = true → m.merged.Same (capture h db)

/-- At every point of a transaction, its manifest is still one of the cache it began with. -/
theorem Opened.ended {s : Session h} {m : Option (Manifest h)} {locks : List Bool} {tx : Tx h} {m' : Manifest h}
    (hs : s.Sound)
    (ho : Opened env m s) (hmoves : Moves ⟨s.db, m, locks⟩ tx) (hm' : tx.manifest = some m') :
    ∃ c, s.handle.cache = some c ∧ c.dataVersion = s.handle.dataVersion ∧ Reflects c s.db ∧ Ended c m' tx.db := by
  have hstart := hmoves.started
  rw [hm', Option.map_some] at hstart
  obtain ⟨m₀, hm₀, hstart⟩ := Option.map_eq_some_iff.1 hstart.symm
  simp only at hm₀
  obtain ⟨c, hc, hv, rfl⟩ := ho.begun m₀ hm₀
  have hreflects := (hs c hc).2 hv
  simp only [Manifest.start, Manifest.begin, Prod.mk.injEq] at hstart
  refine ⟨c, hc, hv, hreflects, hstart.1.symm, hstart.2.1.symm, hstart.2.2.symm, ?_, ?_, ?_⟩
  · apply hmoves.proper
    · intro m₁ hm₁ ch hch
      obtain rfl := Option.some.inj (hm₀.symm.trans hm₁)
      cases hch
    · exact hm'
  · obtain ⟨rows, hrows, hrest⟩ := hreflects.stored
    exact ⟨rows, hmoves.catalogue.trans hrows, hrest⟩
  · intro hver n
    have htracks : Tracks (⟨s.db, m, locks⟩ : Tx h) := by
      intro m₁ hm₁ n
      obtain rfl := Option.some.inj (hm₀.symm.trans hm₁)
      exact hreflects.verified hver n
    rw [← Manifest.get_eq]
    exact hmoves.tracks htracks m' hm' n

theorem Manifest.merged_of_clean {m : Manifest h} (hd : m.dirty = false) : m.merged = m.base.entries := by
  unfold Manifest.dirty at hd
  rw [Bool.or_eq_false_iff, Bool.not_eq_false', List.isEmpty_iff] at hd
  unfold Manifest.merged Rows.patchAll
  rw [hd.1]
  rfl

theorem ensures_commitDb {fate : Fate} {db : Db P} {s : Session h} {R : Unit → Session h → Prop} {E : Session h → Prop}
    (hok : R () { s with db := db }) (herr : E s) : Ensures (commitDb fate db : StoreM h Unit) s R E := by
  unfold Ensures commitDb
  cases fate.commits with
  | true => exact hok
  | false => exact herr

/-- The cache still reflects the database after a transaction that changed no protected row. -/
theorem sound_of_clean {s : Session h} {m : Option (Manifest h)} {locks : List Bool} {tx : Tx h} (hs : s.Sound)
    (ho : Opened env m s) (hmoves : Moves ⟨s.db, m, locks⟩ tx) (hclean : tx.manifest.filter Manifest.dirty = none) :
    Session.Sound { s with db := tx.db } := by
  intro c hc
  refine ⟨(hs c hc).1, ?_⟩
  intro hv
  have hreflects := (hs c hc).2 hv
  cases hm' : tx.manifest with
  | none =>
    have hnone : m = none := by
      have hstart := hmoves.started
      rw [hm'] at hstart
      exact Option.map_eq_none_iff.1 hstart.symm
    obtain ⟨rows, hrows, -⟩ := hreflects.stored
    have hroot := ho.root
    rw [hnone, Option.map_none] at hroot
    rw [authenticatedRoot_none hroot] at hrows
    cases hrows
  | some m' =>
    obtain ⟨c', hc', -, -, hend⟩ := ho.ended hs hmoves hm'
    obtain rfl := Option.some.inj (hc.symm.trans hc')
    refine ⟨hreflects.root, hend.stored, ?_⟩
    intro hver
    have hdirty : m'.dirty = false := by
      rw [hm', Option.filter_eq_none_iff] at hclean
      simpa using hclean m' rfl
    rw [← hend.base, ← Manifest.merged_of_clean hdirty]
    exact hend.verified hver

theorem ensures_commit {fate : Fate} {s : Session h} {m : Option (Manifest h)} {locks : List Bool} {tx : Tx h} (hs : s.Sound)
    (ho : Opened env m s) (hmoves : Moves ⟨s.db, m, locks⟩ tx) :
    Ensures (commit env fate tx) s (fun _ => Session.Sound) Session.Sound := by
  unfold Ensures commit
  cases hdirty : tx.manifest.filter Manifest.dirty with
  | none =>
    have hdb : Ensures (commitDb fate tx.db) s (fun _ => Session.Sound) Session.Sound :=
      ensures_commitDb (sound_of_clean hs ho hmoves hdirty) hs
    exact hdb
  | some m' =>
    obtain ⟨hm', -⟩ := Option.filter_eq_some_iff.1 hdirty
    obtain ⟨c, hc, hv, -, hend⟩ := ho.ended hs hmoves hm'
    simp only
    cases readChecked tx.db >>= orIntegrity with
    | error e => exact hs
    | ok state =>
      simp only
      split_ifs with hlock
      · exact Session.Sound.withCache_none s
      · cases hp : publish env fate.draw tx.db state m' with
        | error e => exact Session.Sound.withCache_none s
        | ok r =>
          obtain ⟨db, catalogue⟩ := r
          have hbase : Stored tx.db m'.base.entries := by
            rw [hend.base]
            exact hend.stored
          obtain ⟨hstored, hmerged⟩ := publish_stored hp hbase hend.proper
          obtain ⟨rows, header, -, -, -, hdb⟩ := publish_ok hp
          unfold commitDb
          cases fate.commits with
          | false => exact Session.Sound.withCache_none s
          | true =>
            intro c' hc'
            cases hc'
            refine ⟨(hend.dataVersion.trans hv).le, fun _ => ⟨rfl, hstored, ?_⟩⟩
            intro hver
            rw [hc, Bool.and_eq_true, Option.any_some, Bool.and_eq_true] at hver
            have hcapture : ∀ n, (capture h db).get? n = (capture h tx.db).get? n := by
              intro n
              rw [get?_capture, get?_capture, hdb]
            intro n
            rw [hmerged, hend.verified hver.2.2 n]
            exact (hcapture n).symm

/-! ## Calls -/

/-- However the action ends, the handle is sound. -/
def Safe (m : StoreM h α) : Prop := ∀ s, s.Sound → Ensures m s (fun _ => Session.Sound) Session.Sound

theorem Looks.safe {m : StoreM h α} (hm : Looks m Q) : Safe m :=
  fun s hs => (hm s hs).imp (fun _ _ hq => hq.1) fun _ hq => hq.1

theorem safe_inTransaction (fate : Fate) (f : Prog) : Safe (inTransaction env fate f : StoreM h Answer) := by
  intro s hs
  unfold inTransaction
  rw [ensures_bind]
  refine (looks_beginRecords s hs).imp ?_ fun _ hq => hq.1
  rintro m s₁ ⟨hs₁, -, ho⟩
  rw [ensures_bind]
  have hfinish : Ensures (finish env fate (runProg env f ⟨s₁.db, m, fate.locks⟩)) s₁
      (fun _ => Session.Sound) Session.Sound := by
    unfold finish
    rw [ensures_bind]
    refine (ensures_inspect _).imp ?_ ?_
    · rintro a s₂ ⟨rfl, -⟩
      rw [ensures_bind]
      exact (ensures_commit hs₁ ho (runProg_moves f _)).imp (fun _ _ => id) fun _ => id
    · rintro s₂ rfl
      exact hs₁
  exact hfinish

theorem ensures_verifyRows {s : Session h} {m : Manifest h} (hs : s.Sound) (hb : Begun m s) :
    Ensures (verifyRows m s.db) s (fun _ s' => s'.Sound ∧ s'.db = s.db) fun s' => s'.Sound ∧ s'.db = s.db := by
  obtain ⟨c, hc, hv, rfl⟩ := hb
  unfold Ensures verifyRows
  rw [hc]
  split_ifs with hverified
  · exact ⟨hs, rfl⟩
  · unfold Manifest.verifyRows
    split_ifs with hsame
    · refine ⟨?_, rfl⟩
      intro c' hc'
      have hreflects := (hs c hc).2 hv
      have hmark : (if c.answers (Manifest.begin c.catalogue c.root c.dataVersion) then { c with rowsVerified := true } else
          c) = c' :=
        Option.some.inj hc'
      split_ifs at hmark with hanswers
      · subst hmark
        exact ⟨hv.le, fun _ => ⟨hreflects.root, hreflects.stored, fun _ => hsame⟩⟩
      · subst hmark
        exact ⟨hv.le, fun _ => hreflects⟩
    · exact ⟨hs, rfl⟩

theorem looks_verifySnapshot : Looks (verifySnapshot env : StoreM h (Option KeyState)) fun _ _ => True := by
  have hrest : Looks (do
      let state ← inspect readChecked
      state.elim (pure ()) fun _ => requireUnlocked
      inspect fun _ => state.elim (.ok ()) (verifyBinding env)
      pure state : StoreM h (Option KeyState)) fun _ _ => True := by
    apply (looks_inspect _).then
    intro state
    refine Looks.then (Q := fun _ _ => True) ?_ fun _ => (looks_inspect _).then fun _ => looks_pure fun _ => trivial
    cases state with
    | none => exact looks_pure fun _ => trivial
    | some state => exact looks_requireUnlocked
  unfold verifySnapshot
  apply looks_beginRecords.bind
  intro m s hs ho
  rw [ensures_bind]
  have hverify : Ensures (m.elim (pure ()) fun m => verifyRows m s.db) s (fun _ s' => s'.Sound ∧ s'.db = s.db)
      fun s' => s'.Sound ∧ s'.db = s.db := by
    cases m with
    | none => exact ⟨hs, rfl⟩
    | some m => exact ensures_verifyRows hs (ho.begun m rfl)
  have hall : Ensures (do
      m.elim (pure ()) fun m => verifyRows m s.db
      let state ← inspect readChecked
      state.elim (pure ()) fun _ => requireUnlocked
      inspect fun _ => state.elim (.ok ()) (verifyBinding env)
      pure state : StoreM h (Option KeyState)) s (fun _ s' => s'.Sound ∧ s'.db = s.db ∧ True) fun s' => s'.Sound ∧
        s'.db = s.db := by
    rw [ensures_bind]
    refine hverify.imp ?_ fun _ => id
    rintro _ s₁ ⟨hs₁, hdb⟩
    refine (hrest s₁ hs₁).imp ?_ ?_
    · exact fun _ s₂ hq => ⟨hq.1, hq.2.1.trans hdb, trivial⟩
    · exact fun s₂ hq => ⟨hq.1, hq.2.trans hdb⟩
  exact hall

omit [DecidableEq P] in
theorem Autocommit.run_aside (w : Autocommit) (db : Db P) : Aside db (w.run env db) := by
  cases w with
  | putBlob draw now bytes => exact putBlobRow_aside draw now bytes db
  | pinBlob id => exact pinRow_aside id db
  | clearHistory ws => exact aside_history db _
  | deleteLoadReport id => exact ⟨rfl, rfl, rfl, fun _ _ => rfl⟩
  | pruneHistory keeps => exact (aside_history db _).trans (aside_blobs _ _)

theorem Reflects.aside {c : Cache h} {db db' : Db P} (hr : Reflects c db) (ha : Aside db db') : Reflects c db' := by
  refine ⟨hr.root, ?_, ?_⟩
  · obtain ⟨rows, hrows, hrest⟩ := hr.stored
    exact ⟨rows, ha.catalogue.trans hrows, hrest⟩
  · intro hver n
    rw [hr.verified hver n]
    exact (ha.capture n).symm

theorem safe_autocommit (fate : Fate) (w : Autocommit) : Safe (autocommit env fate w : StoreM h Unit) := by
  intro s hs
  unfold autocommit
  rw [ensures_bind]
  refine (looks_requireUnlocked s hs).imp ?_ fun _ hq => hq.1
  rintro _ s₁ ⟨hs₁, -, -⟩
  rw [ensures_bind]
  have hcommit : Ensures (commitDb fate (w.run env s₁.db) : StoreM h Unit) s₁ (fun _ => Session.Sound) Session.Sound := by
    apply ensures_commitDb
    · intro c hc
      exact ⟨(hs₁ c hc).1, fun hv => ((hs₁ c hc).2 hv).aside (w.run_aside s₁.db)⟩
    · exact hs₁
  exact hcommit

theorem Safe.leaves {m : StoreM h α} (hm : Safe m) {s : Session h} (hs : s.Sound) : (leaves m s).Sound := by
  have he := hm s hs
  unfold Ensures at he
  unfold Store.leaves
  cases hr : m s with
  | ok a s' =>
    rw [hr] at he
    exact he
  | error e s' =>
    rw [hr] at he
    exact he

/-- Every call keeps a handle's cache sound for the database it leaves. -/
theorem Call.run_sound (c : Call) {s : Session h} (hs : s.Sound) : (c.run env s).Sound := by
  cases c with
  | check => exact looks_writing.safe.leaves hs
  | transact fate f => exact (safe_inTransaction fate f).leaves hs
  | verify => exact looks_verifySnapshot.safe.leaves hs
  | autocommit fate w => exact (safe_autocommit fate w).leaves hs
  | hold unlocked => exact hs.congr rfl rfl rfl

/-! ## Runs -/

def System.Sound (σ : System h) : Prop := ∀ i hd, σ.handles i = some hd → Session.Sound ⟨hd, σ.db⟩

/-- A connection that sees a new `data_version` no longer trusts its cache. -/
theorem System.Sound.seen {σ : System h} (hs : σ.Sound) {db : Db P} {versions : Nat → Nat} (hlater : Later σ db versions)
    {i : Nat} {hd : Handle h} (hi : σ.seen versions i = some hd) : Session.Sound ⟨hd, db⟩ := by
  obtain ⟨hd₀, hi₀, rfl⟩ := Option.map_eq_some_iff.1 hi
  obtain ⟨hle, hlt⟩ := hlater i hd₀ hi₀
  intro c hc
  obtain ⟨hcv, hreflects⟩ := hs i hd₀ hi₀ c hc
  simp only at hcv hreflects ⊢
  refine ⟨hcv.trans hle, ?_⟩
  intro hv
  by_cases hdb : db = σ.db
  · rw [hdb]
    exact hreflects (by omega)
  · have := hlt hdb
    omega

theorem System.Sound.update {σ : System h} (hs : σ.Sound) {db : Db P} {versions : Nat → Nat} (hlater : Later σ db versions)
    (i : Nat) {hd : Handle h} (hhd : Session.Sound ⟨hd, db⟩) :
    System.Sound ⟨db, Function.update (σ.seen versions) i (some hd)⟩ := by
  intro j hd' hj
  simp only at hj
  by_cases hij : j = i
  · subst hij
    rw [Function.update_self, Option.some.injEq] at hj
    subst hj
    exact hhd
  · rw [Function.update_of_ne hij] at hj
    exact hs.seen hlater hj

theorem StoreStep.sound {σ τ : System h} (hstep : StoreStep env σ τ) (hs : σ.Sound) : τ.Sound := by
  cases hstep with
  | opened i hd hcold =>
    intro j hd' hj
    simp only at hj
    by_cases hij : j = i
    · subst hij
      rw [Function.update_self, Option.some.injEq] at hj
      subst hj
      exact sound_of_cold hcold
    · rw [Function.update_of_ne hij] at hj
      exact hs j hd' hj
  | call i hd c versions hi hlater => exact hs.update hlater i (c.run_sound (hs i hd hi))

theorem Step.sound {σ τ : System h} (hstep : Step σ τ) (hs : σ.Sound) : τ.Sound := by
  cases hstep with
  | store env hstep => exact hstep.sound hs
  | raw db versions hlater => exact fun j hd hj => hs.seen hlater hj
  | rewrite i hd db versions hcold hlater => exact hs.update hlater i (sound_of_cold hcold)

/-- The database before any `Store` is open. -/
def System.closed (h : Hashes P B) (db : Db P) : System h := ⟨db, fun _ => none⟩

theorem System.closed_sound (db : Db P) : (System.closed h db).Sound := fun i hd hi => absurd hi (by simp [System.closed])

theorem reaches_sound {db : Db P} {σ : System h} (hr : Reaches Step (System.closed h db) σ) : σ.Sound :=
  hr.inv System.Sound (fun _ _ hstep hs => hstep.sound hs) (System.closed_sound db)

section Sample

/-- One handle, and no other. -/
def System.alone (s : Session h) : System h := ⟨s.db, Function.update (fun _ => none) 0 (some s.handle)⟩

theorem alone_first (s : Session h) : (System.alone s).handles 0 = some s.handle := by
  simp [System.alone]

theorem alone_opened {db : Db P} {hd : Handle h} (hcold : hd.cache = none) :
    StoreStep env (System.closed h db) (System.alone ⟨hd, db⟩) := .opened _ 0 hd hcold

theorem alone_call (c : Call) (s : Session h) : StoreStep env (System.alone s) (System.alone (c.run env s)) := by
  have hlater : Later (System.alone s) (c.run env s).db fun _ => s.handle.dataVersion + 1 := by
    intro j hd hj
    have hhd : hd = s.handle := by
      unfold System.alone at hj
      simp only [Function.update_apply] at hj
      split_ifs at hj with h0
      exact (Option.some.inj hj).symm
    rw [hhd]
    exact ⟨Nat.le_succ _, fun _ => Nat.lt_succ_self _⟩
  have hseen : Function.update ((System.alone s).seen fun _ => s.handle.dataVersion + 1) 0 (some (c.run env s).handle) =
      Function.update (fun _ => none) 0 (some (c.run env s).handle) := by
    funext j
    by_cases hj : j = 0
    · rw [hj, Function.update_self, Function.update_self]
    · rw [Function.update_of_ne hj, Function.update_of_ne hj]
      simp [System.seen, System.alone, Function.update_of_ne hj]
  have hstep : StoreStep env _ _ := StoreStep.call (System.alone s) 0 s.handle c _ (alone_first s) hlater
  have hafter : System.alone (c.run env s) = ⟨(c.run env s).db,
      Function.update ((System.alone s).seen fun _ => s.handle.dataVersion + 1) 0 (some (c.run env s).handle)⟩ := by
    rw [hseen]
    rfl
  rw [hafter]
  exact hstep

/-- A payload is its own digest, and the root counts the entries. -/
def sampleHashes : Hashes Bytes Nat where
  sha := id
  bucket _ := ⟨0, by decide⟩
  bucketDigest _ entries := entries.card
  rootDigest digests := if digests ⟨0, by decide⟩ = 0 then "none" else if digests ⟨0, by decide⟩ = 1 then "one" else "more"

def sampleOpen (a : Text) (sealed : Bytes) : Option Bytes :=
  if sealed.tail.take (encodeUtf8 a).length = encodeUtf8 a then some (sealed.tail.drop ((encodeUtf8 a).length + 1)) else none

/-- An envelope that shows its draw, its associated data and its contents. -/
def sampleEnv : StoreEnv where
  sealBytes draw a p := UInt8.ofNat draw :: (encodeUtf8 a ++ 0 :: p)
  openBytes := sampleOpen
  crypto := sampleCrypto
  key := sampleKey ['k']
  blobId bytes := bytes.map fun b => Char.ofNat b.toNat
  identity _ _ := some ⟨none, none, none⟩
  wrapRevision _ _ json := json
  unwrapRevision _ := none
  historyOwner _ := some (none, none)
  secretJson label value := encodeUtf8 (label ++ ':' :: value)
  secretFields _ := none
  canonicalId id := some id
  realColumn bits := some bits
  realLe a b := a ≤ b

theorem sampleEnv_open (draw : Nat) (a : Text) (p : Bytes) :
    sampleEnv.openBytes a (sampleEnv.sealBytes draw a p) = some p := by
  have hopen : sampleOpen a (UInt8.ofNat draw :: (encodeUtf8 a ++ 0 :: p)) = some p := by
    unfold sampleOpen
    rw [List.tail_cons, if_pos List.take_left, ← List.drop_drop, List.drop_left]
    rfl
  exact hopen

/-- An enrolled header that names the root. -/
def sampleHeader (root : String) : ProfileHeader where
  profileId := "p"
  displayName := "Profile"
  createdAt := 0
  protection := .osKeychain
  passphraseWrap := none
  recoveryWrap := none
  keychainAccount := some "a"
  keyCheck := sampleCrypto.keyCheck (sampleKey ['k'])
  protectionMac := some (sampleCrypto.mac (sampleKey ['k']) (.legacy "p" .osKeychain ""))
  rotation := some ⟨"", [], some root⟩

/-- An enrolled profile without records. -/
def sampleDb : Db Bytes where
  objects := Rows.empty
  secrets := Rows.empty
  catalogue := some Rows.empty
  metas := ((Rows.empty.put ⟨schemaKey, .text ['6']⟩).put ⟨stateKey, .state ⟨sampleHeader "none", none⟩⟩).put
    ⟨canaryKey, .canary (.manifest (sampleEnv.sealBytes 0 canaryAad (rootBytes "none")))⟩
  blobs := Rows.empty
  history := Rows.empty
  loadReports := Rows.empty

def sampleFate : Fate := ⟨1, [], true⟩

/-- Store a secret, and a note. -/
def sampleProg : Prog :=
  .step (.putSecret 2 5 ['s'] none ['l'] ['v']) fun _ => .step (.putNote ['n'] ['x']) fun _ => .done (.ok .unit)

/-- A transaction that begins with a verified cache of one entry. -/
def answersOne : EStateM.Result StoreError (Session h) (Option (Manifest h)) → Bool
  | .ok (some m) s => s.handle.cache.any fun c => (c.answers m && c.rowsVerified) && c.catalogue.entries.list.length = 1
  | _ => false

/-- A handle that stored a secret. -/
def sampleSession : Session sampleHashes :=
  Call.run sampleEnv (.transact sampleFate sampleProg) ⟨⟨true, none, false, 0⟩, sampleDb⟩

theorem sampleSession_reached :
    Reaches (StoreStep sampleEnv) (System.closed sampleHashes sampleDb) (System.alone sampleSession) :=
  .tail (.single (alone_opened rfl)) (alone_call _ _)

end Sample

/-- **A cached catalogue is never stale.** Over every run of handles, raw writers and rewrites: where a handle's
transaction takes its cached catalogue, that is the stored one and has the authenticated root; and where `verify_rows`
answers from the cache, at any point of a transaction, every stored row is the catalogue's. -/
theorem cached_catalogue_sound {db : Db P} {σ : System h} (hr : Reaches Step (System.closed h db) σ) (env : StoreEnv)
    {i : Nat} {hd : Handle h} (hi : σ.handles i = some hd) :
    (∀ c root, hd.cache = some c → authenticatedRoot env σ.db = .ok (some root) → c.hits root hd.dataVersion = true →
      Stored σ.db c.catalogue.entries ∧ h.rootOf c.catalogue.entries = root) ∧
    ∀ m s, beginRecords env ⟨hd, σ.db⟩ = .ok m s → ∀ f locks m',
      (runProg env f ⟨s.db, m, locks⟩).2.manifest = some m' →
      (s.handle.cache.any fun c => c.answers m' && c.rowsVerified) = true →
      ∃ c, s.handle.cache = some c ∧ m'.base = c.catalogue ∧ m'.merged = c.catalogue.entries ∧
        c.catalogue.entries.Same (capture h (runProg env f ⟨s.db, m, locks⟩).2.db) := by
  have hs := reaches_sound hr i hd hi
  refine ⟨?_, ?_⟩
  · intro c root hc _ hhit
    unfold Cache.hits at hhit
    rw [Bool.and_eq_true, decide_eq_true_eq, decide_eq_true_eq] at hhit
    have hreflects := (hs c hc).2 hhit.2
    rw [← Catalogue.root_eq, hreflects.root]
    exact ⟨hreflects.stored, hhit.1⟩
  · intro m s hbegin f locks m' hm' hany
    have hlook : Ensures (beginRecords env) ⟨hd, σ.db⟩ _ _ := looks_beginRecords ⟨hd, σ.db⟩ hs
    unfold Ensures at hlook
    rw [hbegin] at hlook
    obtain ⟨hs', -, ho⟩ := hlook
    obtain ⟨c, hc, -, -, hend⟩ := ho.ended hs' (runProg_moves f ⟨s.db, m, locks⟩) hm'
    rw [hc, Option.any_some, Bool.and_eq_true] at hany
    unfold Cache.answers at hany
    rw [Bool.and_eq_true, Bool.not_eq_true'] at hany
    have hmerged : m'.merged = c.catalogue.entries := by rw [Manifest.merged_of_clean hany.1.2, hend.base]
    refine ⟨c, hc, hend.base, hmerged, ?_⟩
    rw [← hmerged]
    exact hend.verified hany.2

/-- After the handle stored a secret and verified the rows, it answers from its cache. -/
theorem cached_catalogue_sound_sample :
    ∃ s s' : Session sampleHashes, ∃ m c, Reaches Step (System.closed sampleHashes sampleDb) (System.alone s) ∧
      beginRecords sampleEnv s = .ok (some m) s' ∧ s'.handle.cache = some c ∧ c.rowsVerified = true ∧
      c.catalogue.entries.list.length = 1 ∧ c.catalogue.entries.Same (capture sampleHashes s'.db) ∧
      ∃ c₀, s.handle.cache = some c₀ ∧ c₀.hits "one" s.handle.dataVersion = true ∧ Stored s.db c₀.catalogue.entries ∧
        sampleHashes.rootOf c₀.catalogue.entries = "one" := by
  have hr : Reaches Step (System.closed sampleHashes sampleDb) (System.alone (Call.verify.run sampleEnv sampleSession)) := by
    refine .tail ?_ (.store sampleEnv (alone_call _ _))
    exact Relation.ReflTransGen.mono (fun _ _ hs => Step.store sampleEnv hs) _ _ sampleSession_reached
  generalize hs : Call.verify.run sampleEnv sampleSession = s at hr
  have hsound := cached_catalogue_sound hr sampleEnv (alone_first s)
  have hroot : authenticatedRoot sampleEnv s.db = .ok (some "one") := by
    rw [← hs]
    decide
  have hcached : (s.handle.cache.any fun c => c.hits "one" s.handle.dataVersion) = true := by
    rw [← hs]
    decide
  have hbegins : answersOne (beginRecords sampleEnv s) = true := by
    rw [← hs]
    decide
  obtain ⟨c₀, hc₀, hhit⟩ := (Option.any_eq_true _ _).1 hcached
  unfold answersOne at hbegins
  split at hbegins
  · next m s' hb =>
    obtain ⟨c, hc, hp⟩ := (Option.any_eq_true _ _).1 hbegins
    rw [Bool.and_eq_true, decide_eq_true_eq] at hp
    have hany : (s'.handle.cache.any fun c => c.answers m && c.rowsVerified) = true := by rw [hc, Option.any_some, hp.1]
    obtain ⟨c', hc', -, -, hsame⟩ := hsound.2 (some m) s' hb (.done (.ok .unit)) [] m rfl hany
    obtain rfl := Option.some.inj (hc.symm.trans hc')
    rw [Bool.and_eq_true] at hp
    exact ⟨s, s', m, c, hr, hb, hc, hp.1.2, hp.2, hsame, c₀, hc₀, hhit, hsound.1 c₀ "one" hc₀ hroot hhit⟩
  · cases hbegins

end Anvil.Store
