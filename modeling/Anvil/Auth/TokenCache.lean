import Anvil.Auth.Multi
import Anvil.Lib.Rows

/-!
# The OAuth token cache (`anvil-auth/src/oauth.rs`)

The state behind the cache's state lock, and its critical sections.

* `CacheState.generationOf` : the generation of a key, four counters of which a clear resets three;
* `insertIfCurrent`, `storeSignIn`, `forgetRejectedRefresh` : a write is refused once the generation has moved on;
* `remove`, `clear`, `clearPartition` : start a new generation, and name the refresh tasks to abort;
* generations are ordered lexicographically : `Bounded` counters only ever move up in it, although `clear` and
  `clearPartition` put the smaller ones back to zero.
-/

namespace Anvil.Auth
open Anvil.Lib

/-- `DateTime<Utc>` of the `chrono` crate: the time a number of seconds after another, if it can be represented. -/
class Chrono where
  checkedAddSeconds : Int → Int → Option Int

inductive OAuthGrant
  | clientCredentials
  | authorizationCodePkce
  | refreshToken
deriving DecidableEq

/-- Identity of a cached token. -/
structure TokenKey where
  partition : Text
  tokenUrl : Text
  authorizationUrl : Text
  clientId : Text
  basicClientAuth : Bool
  grant : OAuthGrant
  audience : Text
  scope : Text
  tokenCacheId : Option Text
deriving DecidableEq

structure CachedToken where
  accessToken : Text
  tokenType : Text
  expiresAt : Option Int
  refreshToken : Option Text
deriving DecidableEq

/-- A token without an expiry, or whose expiry cannot be compared, is not usable. -/
def CachedToken.usable [Chrono] (t : CachedToken) (now skew : Int) : Bool :=
  match Chrono.checkedAddSeconds now skew, t.expiresAt with
  | some h, some e => h < e
  | _, _ => false

/-! ## Failures -/

def superseded : AuthError := .canceled
  ("a lock, a workspace delete, a sign-out or a new sign-in superseded this OAuth token in flight; " ++
    "the token was discarded").toList

def interactionMessage (grant : OAuthGrant) (refreshError : Option Text) : Text :=
  let flow := match grant with
    | .refreshToken => "the refresh-token grant".toList
    | _ => "the authorization-code + PKCE grant".toList
  match refreshError with
  | some e => "The authorization server rejected the cached refresh token (".toList ++ e ++
      "). This auth profile uses ".toList ++ flow ++ ", so a new sign-in in the system browser is required.".toList
  | none => "No access token or refresh token is available for this auth profile, which uses ".toList ++ flow ++
      ". Sign in through the system browser first; Anvil never substitutes the client-credentials grant.".toList

/-- Outcome of a token request that yields no token. -/
inductive TokenFailure
  | transport (message : Text)
  | rejected (status : Nat) (error description : Text)
  | malformed (message : Text)
deriving DecidableEq

def TokenFailure.toAuthError : TokenFailure → AuthError
  | .transport m => .acquisition m
  | .malformed m => .acquisition m
  | .rejected status error description => .acquisition (trim ("token endpoint returned HTTP ".toList ++
      (toString status).toList ++ ": ".toList ++ error ++ " ".toList ++ description))

/-! ## Generations -/

/-- The cache generation an acquisition started in, for one key. -/
structure Generation where
  cache : Nat
  partition : Nat
  removal : Nat
  signIn : Nat
deriving DecidableEq

namespace Generation

/-- What a sign-in leaves as it is. -/
def base (g : Generation) : ℕ ×ₗ ℕ ×ₗ ℕ := toLex (g.cache, toLex (g.partition, g.removal))

def stamp (g : Generation) : (ℕ ×ₗ ℕ ×ₗ ℕ) ×ₗ ℕ := toLex (g.base, g.signIn)

theorem stamp_injective : Function.Injective stamp := by
  intro g h heq
  simp only [stamp, base, EmbeddingLike.apply_eq_iff_eq, Prod.mk.injEq] at heq
  obtain ⟨⟨hc, hp, hr⟩, hs⟩ := heq
  cases g
  cases h
  simp_all

instance instPartialOrder : PartialOrder Generation := PartialOrder.lift stamp stamp_injective

theorem lt_iff {g h : Generation} : g < h ↔ g.base < h.base ∨ g.base = h.base ∧ g.signIn < h.signIn := by
  change stamp g < stamp h ↔ _
  rw [Prod.Lex.lt_iff]
  rfl

theorem base_mono {g h : Generation} (hgh : g ≤ h) : g.base ≤ h.base := by
  change stamp g ≤ stamp h at hgh
  rcases Prod.Lex.le_iff.1 hgh with hlt | ⟨heq, -⟩
  · exact hlt.le
  · exact heq.le

theorem base_lt_iff {g h : Generation} : g.base < h.base ↔ g.cache < h.cache ∨ g.cache = h.cache ∧
    (g.partition < h.partition ∨ g.partition = h.partition ∧ g.removal < h.removal) := by
  unfold base
  rw [Prod.Lex.lt_iff]
  simp only [ofLex_toLex, Prod.Lex.lt_iff]

end Generation

/-! ## The state -/

/-- The refresh in flight of a key: its sequence number, and the task behind its `AbortHandle`. -/
structure Refresh where
  key : TokenKey
  id : Nat
  task : Nat

/-- A counter without an entry is zero. -/
structure CacheState where
  entries : TokenKey → Option CachedToken := fun _ => none
  generation : Nat := 0
  partitions : Text → Nat := fun _ => 0
  removals : TokenKey → Nat := fun _ => 0
  signIns : TokenKey → Nat := fun _ => 0
  refreshes : Rows Refresh.key := Rows.empty
  nextRefresh : Nat := 0

/-- `u64::wrapping_add(1)`. -/
def wrappingSucc (n : Nat) : Nat := (n + 1) % 2 ^ 64

namespace CacheState

def generationOf (st : CacheState) (key : TokenKey) : Generation :=
  ⟨st.generation, st.partitions key.partition, st.removals key, st.signIns key⟩

def bump {κ : Type} [DecidableEq κ] (counts : κ → Nat) (key : κ) : κ → Nat :=
  Function.update counts key (wrappingSucc (counts key))

/-- Nothing but sign-ins happened since `generation`. -/
def onlySignedIn (st : CacheState) (key : TokenKey) (generation : Generation) : Bool :=
  { st.generationOf key with signIn := generation.signIn } = generation

/-- The answer of an acquisition that can no longer store its own token. -/
def supersededAnswer [Chrono] (st : CacheState) (key : TokenKey) (generation : Generation) (skew now : Int) :
    Except AuthError CachedToken :=
  match st.entries key with
  | some t => if st.onlySignedIn key generation && t.usable now skew then .ok t else .error superseded
  | none => .error superseded

/-- The registration of refresh `id` is over. -/
def refreshFinished (st : CacheState) (key : TokenKey) (id : Nat) : CacheState :=
  { st with refreshes := if (st.refreshes.get? key).any (fun r => r.id = id) then st.refreshes.remove key else st.refreshes }

def setEntry (st : CacheState) (key : TokenKey) (t : Option CachedToken) : CacheState :=
  { st with entries := Function.update st.entries key t }

def insertIfCurrent (st : CacheState) (key : TokenKey) (generation : Generation) (t : CachedToken) : CacheState × Bool :=
  if st.generationOf key ≠ generation then (st, false) else (st.setEntry key (some t), true)

/-- The entry goes with the refresh token the issuer rejected, unless it was replaced or the generation moved on. -/
def forgetRejectedRefresh (st : CacheState) (key : TokenKey) (generation : Generation) (rejected : Text) : CacheState :=
  if st.generationOf key ≠ generation then st
  else if ((st.entries key).bind CachedToken.refreshToken).any (fun rt => rt = rejected) then st.setEntry key none
  else st

def storeSignIn (st : CacheState) (key : TokenKey) (generation : Generation) (t : CachedToken) : CacheState × Bool :=
  if st.generationOf key ≠ generation then (st, false)
  else ({ st.setEntry key (some t) with signIns := bump st.signIns key }, true)

def registerRefresh (st : CacheState) (key : TokenKey) (task : Nat) : CacheState :=
  { st with
    nextRefresh := wrappingSucc st.nextRefresh
    refreshes := st.refreshes.put ⟨key, wrappingSucc st.nextRefresh, task⟩ }

/-- An explicit sign-out; also the tasks to abort. -/
def remove (st : CacheState) (key : TokenKey) : CacheState × List Nat :=
  ({ st.setEntry key none with
      removals := bump st.removals key
      refreshes := st.refreshes.remove key },
    (st.refreshes.get? key).toList.map Refresh.task)

/-- A lock. -/
def clear (st : CacheState) : CacheState × List Nat :=
  ({ st with
      entries := fun _ => none
      partitions := fun _ => 0
      removals := fun _ => 0
      signIns := fun _ => 0
      refreshes := Rows.empty
      generation := wrappingSucc st.generation },
    st.refreshes.list.map Refresh.task)

/-- A workspace delete, as far as it holds the state lock. The per-key counters go with the entries. -/
def clearPartition (st : CacheState) (partition : Text) : CacheState × List Nat :=
  ({ st with
      partitions := bump st.partitions partition
      entries := fun k => if k.partition = partition then none else st.entries k
      removals := fun k => if k.partition = partition then 0 else st.removals k
      signIns := fun k => if k.partition = partition then 0 else st.signIns k
      refreshes := st.refreshes.keep fun r => r.key.partition ≠ partition },
    (st.refreshes.keep fun r => r.key.partition = partition).list.map Refresh.task)

end CacheState

/-- The calls that forget tokens. -/
inductive Wipe
  | clear
  | clearPartition (partition : Text)
  | remove (key : TokenKey)
deriving DecidableEq

def Wipe.covers (key : TokenKey) : Wipe → Bool
  | .clear => true
  | .clearPartition partition => key.partition = partition
  | .remove k => key = k

def CacheState.wipe (st : CacheState) : Wipe → CacheState × List Nat
  | .clear => st.clear
  | .clearPartition partition => st.clearPartition partition
  | .remove key => st.remove key

namespace CacheState

/-! ## What a critical section does to the generations -/

@[simp] theorem generationOf_setEntry (st : CacheState) (k : TokenKey) (t : Option CachedToken) :
    (st.setEntry k t).generationOf = st.generationOf := rfl

@[simp] theorem generationOf_refreshFinished (st : CacheState) (k : TokenKey) (id : Nat) :
    (st.refreshFinished k id).generationOf = st.generationOf := rfl

@[simp] theorem entries_refreshFinished (st : CacheState) (k : TokenKey) (id : Nat) :
    (st.refreshFinished k id).entries = st.entries := rfl

@[simp] theorem generationOf_registerRefresh (st : CacheState) (k : TokenKey) (task : Nat) :
    (st.registerRefresh k task).generationOf = st.generationOf := rfl

@[simp] theorem entries_registerRefresh (st : CacheState) (k : TokenKey) (task : Nat) :
    (st.registerRefresh k task).entries = st.entries := rfl

theorem insertIfCurrent_of_current {st : CacheState} {k : TokenKey} {g : Generation} (h : st.generationOf k = g)
    (t : CachedToken) : st.insertIfCurrent k g t = (st.setEntry k (some t), true) := if_neg (not_not.2 h)

theorem insertIfCurrent_of_stale {st : CacheState} {k : TokenKey} {g : Generation} (h : st.generationOf k ≠ g)
    (t : CachedToken) : st.insertIfCurrent k g t = (st, false) := if_pos h

theorem forgetRejectedRefresh_of_stale {st : CacheState} {k : TokenKey} {g : Generation} (h : st.generationOf k ≠ g)
    (rt : Text) : st.forgetRejectedRefresh k g rt = st := if_pos h

@[simp] theorem generationOf_forgetRejectedRefresh (st : CacheState) (k : TokenKey) (g : Generation) (rt : Text) :
    (st.forgetRejectedRefresh k g rt).generationOf = st.generationOf := by
  unfold forgetRejectedRefresh
  split_ifs <;> simp

theorem onlySignedIn_iff {st : CacheState} {k : TokenKey} {g : Generation} :
    st.onlySignedIn k g = true ↔ (st.generationOf k).base = g.base := by
  unfold onlySignedIn Generation.base
  rw [decide_eq_true_iff]
  cases g
  simp

/-- The answer of a superseded acquisition is the entry of its key, and only sign-ins happened since. -/
theorem supersededAnswer_ok [Chrono] {st : CacheState} {k : TokenKey} {g : Generation} {skew now : Int} {t : CachedToken}
    (h : st.supersededAnswer k g skew now = .ok t) : st.entries k = some t ∧ (st.generationOf k).base = g.base := by
  unfold supersededAnswer at h
  cases he : st.entries k with
  | none => simp [he] at h
  | some t' =>
    simp only [he] at h
    split_ifs at h with hc
    rw [Bool.and_eq_true] at hc
    exact ⟨by rw [Except.ok.inj h], onlySignedIn_iff.1 hc.1⟩

/-- No counter is above `n`. -/
structure Bounded (st : CacheState) (n : Nat) : Prop where
  generation : st.generation ≤ n
  partitions : ∀ p, st.partitions p ≤ n
  removals : ∀ k, st.removals k ≤ n
  signIns : ∀ k, st.signIns k ≤ n

theorem Bounded.congr {st st' : CacheState} {n : Nat} (h : st'.generationOf = st.generationOf) (hb : st.Bounded n) :
    st'.Bounded n := by
  have hgen (k : TokenKey) : st'.generationOf k = st.generationOf k := by rw [h]
  refine ⟨?_, fun p => ?_, fun k => ?_, fun k => ?_⟩
  · exact (congrArg Generation.cache (hgen ⟨[], [], [], [], false, .clientCredentials, [], [], none⟩)).trans_le hb.generation
  · exact (congrArg Generation.partition
      (hgen ⟨p, [], [], [], false, .clientCredentials, [], [], none⟩)).trans_le (hb.partitions p)
  · exact (congrArg Generation.removal (hgen k)).trans_le (hb.removals k)
  · exact (congrArg Generation.signIn (hgen k)).trans_le (hb.signIns k)

theorem wrappingSucc_of_lt {m n : Nat} (h : m ≤ n) (hn : n + 1 < 2 ^ 64) : wrappingSucc m = m + 1 :=
  Nat.mod_eq_of_lt (by omega)

theorem bump_self {κ : Type} [DecidableEq κ] (counts : κ → Nat) (k : κ) : bump counts k k = wrappingSucc (counts k) :=
  Function.update_self ..

theorem bump_of_ne {κ : Type} [DecidableEq κ] (counts : κ → Nat) {k k' : κ} (h : k' ≠ k) :
    bump counts k k' = counts k' := Function.update_of_ne h ..

theorem bump_le {κ : Type} [DecidableEq κ] {counts : κ → Nat} {n : Nat} (h : ∀ k, counts k ≤ n) (hn : n + 1 < 2 ^ 64)
    (k k' : κ) : bump counts k k' ≤ n + 1 := by
  by_cases hk : k' = k
  · rw [hk, bump_self, wrappingSucc_of_lt (h k) hn]
    exact Nat.succ_le_succ (h k)
  · rw [bump_of_ne counts hk]
    exact Nat.le_succ_of_le (h k')

section Wipe
variable {st : CacheState} {n : Nat}

theorem Bounded.succ (h : st.Bounded n) : st.Bounded (n + 1) :=
  ⟨Nat.le_succ_of_le h.generation, fun p => Nat.le_succ_of_le (h.partitions p), fun k => Nat.le_succ_of_le (h.removals k),
    fun k => Nat.le_succ_of_le (h.signIns k)⟩

theorem Bounded.wipe (h : st.Bounded n) (hn : n + 1 < 2 ^ 64) (w : Wipe) : (st.wipe w).1.Bounded (n + 1) := by
  cases w with
  | clear =>
    refine ⟨?_, fun _ => Nat.zero_le _, fun _ => Nat.zero_le _, fun _ => Nat.zero_le _⟩
    change wrappingSucc st.generation ≤ n + 1
    rw [wrappingSucc_of_lt h.generation hn]
    exact Nat.succ_le_succ h.generation
  | clearPartition p =>
    refine ⟨h.succ.generation, bump_le h.partitions hn p, fun k => ?_, fun k => ?_⟩
    · change (if k.partition = p then 0 else st.removals k) ≤ n + 1
      split_ifs
      · exact Nat.zero_le _
      · exact h.succ.removals k
    · change (if k.partition = p then 0 else st.signIns k) ≤ n + 1
      split_ifs
      · exact Nat.zero_le _
      · exact h.succ.signIns k
  | remove k => exact ⟨h.succ.generation, h.succ.partitions, bump_le h.removals hn k, h.succ.signIns⟩

/-- A wipe starts a new generation of the keys it covers: a sign-in apart, nothing older compares equal again. -/
theorem base_lt_wipe (h : st.Bounded n) (hn : n + 1 < 2 ^ 64) {w : Wipe} {k : TokenKey} (hk : w.covers k = true) :
    (st.generationOf k).base < ((st.wipe w).1.generationOf k).base := by
  rw [Generation.base_lt_iff]
  cases w with
  | clear =>
    left
    change st.generation < wrappingSucc st.generation
    rw [wrappingSucc_of_lt h.generation hn]
    exact Nat.lt_succ_self _
  | clearPartition p =>
    have hp : k.partition = p := of_decide_eq_true hk
    refine Or.inr ⟨rfl, Or.inl ?_⟩
    change st.partitions k.partition < bump st.partitions p k.partition
    rw [hp, bump_self, wrappingSucc_of_lt (h.partitions p) hn]
    exact Nat.lt_succ_self _
  | remove k' =>
    have hp : k = k' := of_decide_eq_true hk
    refine Or.inr ⟨rfl, Or.inr ⟨rfl, ?_⟩⟩
    change st.removals k < bump st.removals k' k
    rw [hp, bump_self, wrappingSucc_of_lt (h.removals k') hn]
    exact Nat.lt_succ_self _

theorem generationOf_wipe_of_not_covers {w : Wipe} {k : TokenKey} (hk : w.covers k = false) :
    (st.wipe w).1.generationOf k = st.generationOf k := by
  cases w with
  | clear => exact absurd hk (by simp [Wipe.covers])
  | clearPartition p =>
    have hp : k.partition ≠ p := of_decide_eq_false hk
    simp [wipe, clearPartition, generationOf, bump_of_ne _ hp, hp]
  | remove k' =>
    have hp : k ≠ k' := of_decide_eq_false hk
    simp [wipe, remove, setEntry, generationOf, bump_of_ne _ hp]

theorem entries_wipe (w : Wipe) (k : TokenKey) :
    (st.wipe w).1.entries k = if w.covers k then none else st.entries k := by
  cases w with
  | clear => rfl
  | clearPartition p => simp [wipe, clearPartition, Wipe.covers]
  | remove k' =>
    change Function.update st.entries k' none k = _
    simp [Wipe.covers, Function.update_apply]

theorem generationOf_le_wipe (h : st.Bounded n) (hn : n + 1 < 2 ^ 64) (w : Wipe) (k : TokenKey) :
    st.generationOf k ≤ (st.wipe w).1.generationOf k := by
  cases hk : w.covers k with
  | true => exact (Generation.lt_iff.2 (Or.inl (base_lt_wipe h hn hk))).le
  | false => exact (generationOf_wipe_of_not_covers hk).ge

end Wipe

section SignIn
variable {st : CacheState} {n : Nat} {k : TokenKey} {g : Generation} (t : CachedToken)

theorem storeSignIn_of_current (h : st.generationOf k = g) :
    st.storeSignIn k g t = ({ st.setEntry k (some t) with signIns := bump st.signIns k }, true) := if_neg (not_not.2 h)

theorem storeSignIn_of_stale (h : st.generationOf k ≠ g) : st.storeSignIn k g t = (st, false) := if_pos h

theorem Bounded.storeSignIn (h : st.Bounded n) (hn : n + 1 < 2 ^ 64) : (st.storeSignIn k g t).1.Bounded (n + 1) := by
  by_cases hg : st.generationOf k = g
  · rw [storeSignIn_of_current t hg]
    exact ⟨h.succ.generation, h.succ.partitions, h.succ.removals, bump_le h.signIns hn k⟩
  · rw [storeSignIn_of_stale t hg]
    exact h.succ

theorem base_storeSignIn (k' : TokenKey) :
    ((st.storeSignIn k g t).1.generationOf k').base = (st.generationOf k').base := by
  by_cases hg : st.generationOf k = g
  · rw [storeSignIn_of_current t hg]
    rfl
  · rw [storeSignIn_of_stale t hg]

theorem generationOf_storeSignIn_of_ne {k' : TokenKey} (hk : k' ≠ k) :
    (st.storeSignIn k g t).1.generationOf k' = st.generationOf k' := by
  by_cases hg : st.generationOf k = g
  · rw [storeSignIn_of_current t hg]
    simp [generationOf, setEntry, bump_of_ne _ hk]
  · rw [storeSignIn_of_stale t hg]

/-- A sign-in that is stored starts a new generation of its key. -/
theorem lt_storeSignIn (h : st.Bounded n) (hn : n + 1 < 2 ^ 64) (hg : st.generationOf k = g) :
    st.generationOf k < (st.storeSignIn k g t).1.generationOf k := by
  refine Generation.lt_iff.2 (Or.inr ⟨(base_storeSignIn t k).symm, ?_⟩)
  rw [storeSignIn_of_current t hg]
  change st.signIns k < bump st.signIns k k
  rw [bump_self, wrappingSucc_of_lt (h.signIns k) hn]
  exact Nat.lt_succ_self _

theorem generationOf_le_storeSignIn (h : st.Bounded n) (hn : n + 1 < 2 ^ 64) (k' : TokenKey) :
    st.generationOf k' ≤ (st.storeSignIn k g t).1.generationOf k' := by
  by_cases hk : k' = k
  · subst hk
    by_cases hg : st.generationOf k' = g
    · exact (lt_storeSignIn t h hn hg).le
    · rw [storeSignIn_of_stale t hg]
  · exact (generationOf_storeSignIn_of_ne t hk).ge

end SignIn

end CacheState

end Anvil.Auth
