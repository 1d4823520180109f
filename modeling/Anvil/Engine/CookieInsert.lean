import Anvil.Engine.Cookies

/-!
# What `insert` replaces and evicts (`anvil-engine/src/cookies.rs`)

* `Trimmed` : entries of one site were taken out, least recently used first and no more than needed; `Evictions.trimmed` :
  so does the first loop of `insert`;
* `insert_exact` : an insertion into any reachable jar, from the renumbering of the stamps to the last eviction.
-/

namespace Anvil.Cookies
open Anvil.Lib

section Trim
variable {χ : Type} {s : String} {size : Nat} {es removed kept : List (Entry χ)}

theorem SiteOver.perm {es' : List (Entry χ)} (hp : es.Perm es') (h : SiteOver s size es) : SiteOver s size es' := by
  have hat : (atSite es s).Perm (atSite es' s) := hp.filter _
  have hbytes : bytesOf (atSite es s) = bytesOf (atSite es' s) := (hat.map Entry.bytes).sum_eq
  unfold SiteOver at h ⊢
  rwa [hat.length_eq, hbytes] at h

/-- The least recently used entries of site `s`, `removed` in that order, are out of `es`: enough of them for `size` bytes to
fit the site, and without the last of them they would not. -/
structure Trimmed (s : String) (size : Nat) (es removed kept : List (Entry χ)) : Prop where
  perm : (removed ++ kept).Perm es
  order : kept.Sublist es
  site : ∀ e ∈ removed, e.site = s
  lru : removed.Pairwise fun e d => lruKey e ≤ lruKey d
  older : ∀ e ∈ removed, ∀ d ∈ kept, d.site = s → lruKey e ≤ lruKey d
  fits : ¬ SiteOver s size kept
  needed : ∀ rs e, removed = rs ++ [e] → SiteOver s size (e :: kept)

theorem Evictions.trimmed (h : Evictions (SiteOver s size) (fun _ t => t = s) es removed kept) :
    Trimmed s size es removed kept := by
  induction h with
  | @fits es hfit => exact ⟨.refl es, .refl es, by simp, .nil, by simp, hfit, by simp⟩
  | @evict l r removed kept e hover hsite hlru hevs ih =>
    have hmem : ∀ d ∈ removed ++ kept, d ∈ l ++ r := fun d hd => ih.perm.subset hd
    refine ⟨?_, ?_, ?_, ?_, ?_, ih.fits, ?_⟩
    · exact (ih.perm.cons e).trans List.perm_middle.symm
    · exact ih.order.trans ((List.sublist_cons_self e r).append_left l)
    · exact List.forall_mem_cons.mpr ⟨hsite, ih.site⟩
    · refine List.pairwise_cons.mpr ⟨fun d hd => ?_, ih.lru⟩
      exact hlru d (hmem d (List.mem_append_left _ hd)) ((ih.site d hd).trans hsite.symm)
    · intro x hx d hd hds
      rcases List.mem_cons.mp hx with rfl | hx
      · exact hlru d (hmem d (List.mem_append_right _ hd)) (hds.trans hsite.symm)
      · exact ih.older x hx d hd hds
    · intro rs x hlast
      cases rs with
      | nil =>
        -- only `e` was taken out
        obtain ⟨rfl, rfl⟩ := List.cons.inj hlast
        exact hover.perm (List.perm_middle.trans (ih.perm.symm.cons e))
      | cons y rs => exact ih.needed rs x (List.cons.inj hlast).2

end Trim

section Insert
variable {χ τ υ : Type} (cs : CookieStore χ τ υ)

/-- **An insertion, exactly.** In any reachable jar a tick renumbers the stamps in order if the clock ran out, leaves them as
they were otherwise, and returns a clock past all of them. After the tick of an insertion an expired cookie takes out the
entry of its domain, path and name and leaves the rest; any other is there afterwards with the creation stamp of the entry it
replaced, and what went besides are the least recently used entries of its own site that the site's limits needed out and
then, while the jar's limits were hit and only then, least recently used entries of the site that was the largest at that
moment. -/
theorem insert_exact {ops : List (Op χ τ υ)} {j : BoundedJar χ} (hrun : runOps (step cs) {} ops = .ok j) (now : Nat → τ)
    (later : τ) (cookie : Cookie χ) (wireBytes : Nat) {domain : String} (hdom : cookie.domain.asCow = some domain)
    (hsize : entryBytes cs domain cookie.path (siteKey cs domain) wireBytes ≤ maxItemBytes) :
    (∃ f j', tick j = .ok (j'.clock, j') ∧ j'.entries = j.entries.map (Entry.restamped f) ∧
      StrictMonoOn f {x | x ∈ stamps j.entries} ∧ (j.clock ≠ u64Max → f = id) ∧
      ∀ e ∈ j'.entries, e.used < j'.clock ∧ e.created < j'.clock) ∧
    ∃ f j', insert cs now later cookie wireBytes j = .ok j' ∧
      let site := siteKey cs domain
      let size := entryBytes cs domain cookie.path site wireBytes
      let live := (purgeExpired cs now j).entries
      let ticked := live.map (Entry.restamped f)
      let rest := ticked.filter fun e => !sameTuple domain cookie e
      StrictMonoOn f {x | x ∈ stamps live} ∧ (j.clock ≠ u64Max → f = id) ∧
      (∀ e ∈ ticked, e.used < j'.clock ∧ e.created < j'.clock) ∧
      (cs.isExpired later cookie = true → j'.entries = rest ∧ ∀ e ∈ j'.entries, e.cookie.key ≠ cookie.key) ∧
      (cs.isExpired later cookie = false → ∃ e removed kept removed' kept',
        j'.entries = kept' ++ [e] ∧
        e.cookie = cookie ∧ e.site = site ∧ e.bytes = size ∧ e.used = j'.clock ∧
        (∀ old ∈ ticked, old.cookie.key = cookie.key → e.created = old.created) ∧
        ((∀ old ∈ ticked, old.cookie.key ≠ cookie.key) → e.created = e.used) ∧
        Trimmed site size rest removed kept ∧
        Evictions (JarOver size) Largest kept removed' kept' ∧
        (¬ JarOver size kept → ∀ d ∈ rest, d.site ≠ site → d ∈ j'.entries)) := by
  obtain ⟨j₀, hrun₀, hb⟩ := runOps_inv (step_spec cs) ops {} Bounded.empty
  obtain rfl : j₀ = j := Except.ok.inj (hrun₀.symm.trans hrun)
  have h₀ := purgeExpired_bounded cs now hb
  refine ⟨?_, ?_⟩
  · obtain ⟨f, j', htick, hticked, -, hmono, hid, hpast⟩ := tick_spec hb
    exact ⟨f, j', htick, hticked, hmono, hid, hpast⟩
  obtain ⟨f, j₁, htick, hticked, h₁, hmono, hid, hpast⟩ := tick_spec h₀
  have hold := takeOld_spec h₁ cookie.key (sameTuple domain cookie) (sameTuple_iff hdom)
  have hunique : ∀ x ∈ j₁.entries, ∀ y ∈ j₁.entries, x.cookie.key = y.cookie.key → x = y := by
    have hkeys := h₁.within.keys
    rw [List.map_map] at hkeys
    exact fun x hx y hy hxy => List.inj_on_of_nodup_map hkeys hx hy hxy
  have hins : insert cs now later cookie wireBytes j₀ =
      if cs.isExpired later cookie then .ok { j₁ with entries := j₁.entries.filter fun e => !sameTuple domain cookie e }
      else makeRoom ⟨cookie, siteKey cs domain, entryBytes cs domain cookie.path (siteKey cs domain) wireBytes, j₁.clock,
        ((j₁.entries.find? (sameTuple domain cookie)).map Entry.created).getD j₁.clock⟩
        { j₁ with entries := j₁.entries.filter fun e => !sameTuple domain cookie e } := by
    unfold insert
    simp only [hdom, if_neg (not_lt.mpr hsize), htick, ok_bind, hold]
    rfl
  refine ⟨f, ?_⟩
  rw [hins]
  dsimp only
  rw [← hticked]
  cases hexp : cs.isExpired later cookie with
  | true =>
    refine ⟨_, rfl, hmono, hid, hpast, fun _ => ⟨rfl, fun e he hk => ?_⟩, fun h => absurd h (by decide)⟩
    have hnot := (List.mem_filter.mp he).2
    rw [(sameTuple_iff hdom e).mpr hk] at hnot
    exact absurd hnot (by decide)
  | false =>
    obtain ⟨removed, kept, removed', kept', hmake, hev, hev'⟩ := makeRoom_evicts
      ⟨cookie, siteKey cs domain, entryBytes cs domain cookie.path (siteKey cs domain) wireBytes, j₁.clock,
        ((j₁.entries.find? (sameTuple domain cookie)).map Entry.created).getD j₁.clock⟩ hsize
      { j₁ with entries := j₁.entries.filter fun e => !sameTuple domain cookie e }
    have htrim := hev.trimmed
    rw [if_neg (by decide)]
    refine ⟨_, hmake, hmono, hid, hpast, fun h => absurd h (by decide), fun _ =>
      ⟨_, removed, kept, removed', kept', rfl, rfl, rfl, rfl, rfl, fun old hold hk => ?_, fun hno => ?_, htrim, hev',
        fun hfit d hd hds => ?_⟩⟩
    · cases hfind : j₁.entries.find? (sameTuple domain cookie) with
      | none => exact absurd ((sameTuple_iff hdom old).mpr hk) (List.find?_eq_none.mp hfind old hold)
      | some e =>
        have he := (sameTuple_iff hdom e).mp (List.find?_some hfind)
        rw [hunique old hold e (List.mem_of_find?_eq_some hfind) (hk.trans he.symm)]
        rfl
    · have hfind : j₁.entries.find? (sameTuple domain cookie) = none :=
        List.find?_eq_none.mpr fun old hold hsame => hno old hold ((sameTuple_iff hdom old).mp hsame)
      rw [hfind]
      rfl
    · rw [hev'.eq_of_not_over hfit]
      rcases List.mem_append.mp (htrim.perm.symm.subset hd) with hd | hd
      · exact absurd (htrim.site d hd) hds
      · exact List.mem_append_left _ hd

end Insert

/-- Nothing expires, and every domain is a site of its own. -/
def plainStore : CookieStore Unit Unit Unit where
  isExpired _ _ := false
  isMatch _ _ := true
  suffixKnown _ := false
  domainStr _ := none
  entrySize := 64

def plainCookie (value : String) : Cookie Unit := ⟨.hostOnly "a.test", "/", "c", value, ()⟩

/-- A cookie that replaces one keeps its creation stamp. -/
theorem insert_exact_replaced : ∃ j j', runOps (step plainStore) {} [.insert (fun _ => ()) () (plainCookie "old") 5] = .ok j ∧
    insert plainStore (fun _ => ()) () (plainCookie "new") 5 j = .ok j' ∧
    ∃ e ∈ j'.entries, e.cookie = plainCookie "new" ∧ ∀ old ∈ j.entries, old.cookie.key = e.cookie.key →
      e.created = old.created := by
  obtain ⟨j, hrun, hentries, hclock⟩ : ∃ j, runOps (step plainStore) {}
      [.insert (fun _ => ()) () (plainCookie "old") 5] = .ok j ∧
      (purgeExpired plainStore (fun _ => ()) j).entries = j.entries ∧ j.clock ≠ u64Max := ⟨_, rfl, rfl, by decide⟩
  obtain ⟨-, f, j', hins, -, hid, -, -, hnew⟩ := @insert_exact _ _ _ plainStore _ j hrun (fun _ => ()) ()
    (plainCookie "new") 5 "a.test" rfl (by decide)
  obtain ⟨e, removed, kept, removed', kept', hj', hcookie, -, -, -, hcreated, -⟩ := hnew rfl
  refine ⟨j, j', hrun, hins, e, by simp [hj'], hcookie, fun old hold hk => ?_⟩
  rw [hcookie] at hk
  refine hcreated old ?_ hk
  rw [hid hclock, hentries]
  exact List.mem_map.mpr ⟨old, hold, rfl⟩

end Anvil.Cookies
