import Anvil.Engine.Request

/-!
# The Cookie header of one send (`anvil-engine/src/http_exec.rs`)

`cookie_header_budget` keeps configured `Cookie` fields while they fit, and `add_jar_cookies` adds the stored cookies that
still do. Both count the bytes of the fields as if these were joined by `"; "`.

* `addJarCookiesNoted` : `add_jar_cookies` with its notes;
* `joinedLen`, `Counts` : the bytes of joined fields, and a count of them;
* `Placed` : where the added cookies go;
* `Composed`, `addJarCookies_composed` : the header that is sent, for every configured list and every stored one.
-/

namespace Anvil.Engine
open Anvil.Lib

/-! ## The notes -/

/-- A step of a loop, and the notes that it leaves. -/
def noting {σ α : Type} (step : σ → α → σ) (note : σ → α → List Text) (s : σ × List Text) (a : α) : σ × List Text :=
  (step s.1 a, s.2 ++ note s.1 a)

def budgetNote (s : List Header × Nat) (h : Header) : List Text :=
  if !isNamed "cookie" h then []
  else if maxCookieHeaderBytes < s.2 + cookieSize s.2 h.2 then
    ["a Cookie header exceeds the 8 KiB request cookie budget".toList]
  else []

def storedNote (w : Wire) (sent : List Text) (s : List Text × Nat) (pair : Text) : List Text :=
  if sent.contains (cookieName pair) then []
  else if !w.validValue pair then
    ["stored cookie '".toList ++ cookieName pair ++ "' not sent: its value is not a valid header value".toList]
  else if maxCookieHeaderBytes < s.2 + cookieSize s.2 pair then
    ["a stored cookie exceeds the 8 KiB request cookie budget".toList]
  else []

/-- The names of the cookies that a list of headers sends. -/
def sentNames (headers : List Header) : List Text :=
  ((headers.filter (isNamed "cookie")).flatMap fun h => (h.2.splitOn ';').map cookieName).filter fun n => !n.isEmpty

/-- `add_jar_cookies`: the headers and the notes; `jar` is the jar's `Cookie` header for the target. -/
def addJarCookiesNoted (w : Wire) (jar : Option Text) (headers : List Header) : List Header × List Text :=
  let budget := headers.foldl (noting budgetStep budgetNote) (([], 0), [])
  match jar with
  | none => (budget.1.1, budget.2)
  | some stored =>
    let sent := sentNames budget.1.1
    let jarred := (cookiePairs stored).foldl (noting (storedStep w sent) (storedNote w sent)) (([], budget.1.2), budget.2)
    (if jarred.1.1.isEmpty then budget.1.1 else addCookies ("; ".toList.intercalate jarred.1.1) budget.1.1, jarred.2)

section Noting
variable {σ α : Type} (step : σ → α → σ) (note : σ → α → List Text)

theorem foldl_noting_fst (l : List α) (s : σ × List Text) : (l.foldl (noting step note) s).1 = l.foldl step s.1 := by
  induction l generalizing s with
  | nil => rfl
  | cons a l ih => rw [List.foldl_cons, ih]; rfl

end Noting

/-! ## Bytes -/

/-- The bytes of fields joined by `"; "`. -/
def joinedLen (fields : List Text) : Nat := (fields.map fun v => utf8Len v + 2).sum - 2

theorem utf8Len_intercalate (fields : List Text) : utf8Len ("; ".toList.intercalate fields) = joinedLen fields := by
  have hsep : utf8Len "; ".toList = 2 := by decide
  induction fields with
  | nil => rfl
  | cons v fields ih =>
    cases fields with
    | nil => simp [joinedLen]
    | cons u fields =>
      rw [List.intercalate_cons_cons, utf8Len_append, utf8Len_append, ih, hsep]
      simp only [joinedLen, List.map_cons, List.sum_cons]
      omega

/-- `bytes` is the count of the joined fields, the first of which is not empty. -/
structure Counts (fields : List Text) (bytes : Nat) : Prop where
  bytes_eq : bytes = joinedLen fields
  head : fields.head? ≠ some []

theorem Counts.size {fields : List Text} {bytes : Nat} (h : Counts fields bytes) (v : Text) :
    bytes + cookieSize bytes v = joinedLen (fields ++ [v]) := by
  obtain ⟨rfl, hhead⟩ := h
  cases fields with
  | nil => simp [joinedLen, cookieSize]
  | cons u fields =>
    have hpos : 0 < utf8Len u := utf8Len_pos (by simpa using hhead)
    have hbytes : joinedLen (u :: fields) ≠ 0 := by
      simp only [joinedLen, List.map_cons, List.sum_cons]
      omega
    rw [cookieSize, if_neg hbytes]
    simp only [joinedLen, List.cons_append, List.map_cons, List.sum_cons, List.map_append, List.sum_append, List.map_nil,
      List.sum_nil]
    omega

theorem Counts.push {fields : List Text} {bytes : Nat} {v : Text} (h : Counts fields bytes) (hv : v ≠ [] ∨ fields ≠ []) :
    Counts (fields ++ [v]) (bytes + cookieSize bytes v) := by
  refine ⟨h.size v, ?_⟩
  cases fields with
  | nil => simpa using hv
  | cons u fields => simpa using h.head

def cookieValues (headers : List Header) : List Text := (headers.filter (isNamed "cookie")).map Prod.snd

theorem cookieValues_append (a b : List Header) : cookieValues (a ++ b) = cookieValues a ++ cookieValues b := by
  unfold cookieValues
  rw [List.filter_append, List.map_append]

/-- The `Cookie` values that are counted: an empty one is not, before the first that is not empty. -/
def countedValues (headers : List Header) : List Text := (cookieValues headers).dropWhile List.isEmpty

theorem counts_dropWhile {values : List Text} {bytes : Nat} {v : Text} (h : Counts (values.dropWhile List.isEmpty) bytes) :
    Counts ((values ++ [v]).dropWhile List.isEmpty) (bytes + cookieSize bytes v) := by
  rw [List.dropWhile_append]
  split_ifs with hempty
  · -- nothing was counted yet
    rw [List.isEmpty_iff] at hempty
    rw [hempty] at h
    cases v with
    | nil =>
      obtain ⟨rfl, -⟩ := h
      exact ⟨rfl, by simp⟩
    | cons c v => exact h.push (.inl (by simp))
  · exact h.push (.inr (by simpa using hempty))

/-- Every state of the budget's loop counts what it kept, and what it kept fits. -/
theorem cookieHeaderBudget_counts (headers : List Header) :
    Counts (countedValues (cookieHeaderBudget headers).1) (cookieHeaderBudget headers).2 ∧
      (cookieHeaderBudget headers).2 ≤ maxCookieHeaderBytes := by
  have hstart : Counts (countedValues []) 0 := ⟨rfl, by simp [countedValues, cookieValues]⟩
  refine List.foldlRecOn (motive := fun s : List Header × Nat =>
    Counts (countedValues s.1) s.2 ∧ s.2 ≤ maxCookieHeaderBytes) headers budgetStep ⟨hstart, Nat.zero_le _⟩ ?_
  rintro s ⟨hcount, hle⟩ h -
  unfold budgetStep
  split_ifs with hname hlarge
  · refine ⟨?_, hle⟩
    have hnone : cookieValues [h] = [] := by simpa [cookieValues] using hname
    rw [countedValues, cookieValues_append, hnone, List.append_nil]
    exact hcount
  · exact ⟨hcount, hle⟩
  · have hc : isNamed "cookie" h = true := by simpa using hname
    have hone : cookieValues [h] = [h.2] := by simp [cookieValues, hc]
    refine ⟨?_, Nat.le_of_not_lt hlarge⟩
    rw [countedValues, cookieValues_append, hone]
    exact counts_dropWhile hcount

/-! ## The stored cookies -/

/-- What becomes of a stored cookie. -/
inductive Fate
  | named
  | invalid
  | tooLarge
  | added
deriving DecidableEq

def storedFate (w : Wire) (sent : List Text) (bytes : Nat) (pair : Text) : Fate :=
  if sent.contains (cookieName pair) then .named
  else if !w.validValue pair then .invalid
  else if maxCookieHeaderBytes < bytes + cookieSize bytes pair then .tooLarge
  else .added

def Fate.notes (pair : Text) : Fate → List Text
  | .invalid => ["stored cookie '".toList ++ cookieName pair ++ "' not sent: its value is not a valid header value".toList]
  | .tooLarge => ["a stored cookie exceeds the 8 KiB request cookie budget".toList]
  | .named => []
  | .added => []

/-- The fates of the stored cookies, in jar order, after `bytes` of cookies. -/
def storedFates (w : Wire) (sent : List Text) : Nat → List Text → List (Text × Fate)
  | _, [] => []
  | bytes, pair :: rest =>
    (pair, storedFate w sent bytes pair) :: storedFates w sent
      (if storedFate w sent bytes pair = .added then bytes + cookieSize bytes pair else bytes) rest

/-- The cookies of a list that are added. -/
def addedOf (fates : List (Text × Fate)) : List Text := (fates.filter fun f => f.2 = .added).map Prod.fst

section Stored
variable (w : Wire) (sent : List Text)

variable {w sent} in
theorem storedFate_added {bytes : Nat} {pair : Text} (h : storedFate w sent bytes pair = .added) :
    cookieName pair ∉ sent ∧ w.validValue pair = true ∧ bytes + cookieSize bytes pair ≤ maxCookieHeaderBytes := by
  unfold storedFate at h
  split_ifs at h with hnamed hvalid hlarge
  exact ⟨by simpa using hnamed, by simpa using hvalid, Nat.le_of_not_lt hlarge⟩

variable {w sent} in
theorem storedFate_tooLarge {bytes : Nat} {pair : Text} (h : storedFate w sent bytes pair = .tooLarge) :
    maxCookieHeaderBytes < bytes + cookieSize bytes pair := by
  unfold storedFate at h
  split_ifs at h with hnamed hvalid hlarge
  exact hlarge

variable {w sent} in
theorem storedFate_named {bytes : Nat} {pair : Text} : storedFate w sent bytes pair = .named ↔ cookieName pair ∈ sent := by
  unfold storedFate
  split_ifs with hnamed <;> simp_all

variable {w sent} in
theorem storedFate_invalid {bytes : Nat} {pair : Text} (h : storedFate w sent bytes pair = .invalid) :
    w.validValue pair = false := by
  unfold storedFate at h
  split_ifs at h with hnamed hvalid
  simpa using hvalid

theorem storedStep_eq (s : List Text × Nat) (pair : Text) :
    storedStep w sent s pair =
      if storedFate w sent s.2 pair = .added then (s.1 ++ [pair], s.2 + cookieSize s.2 pair) else s := by
  unfold storedStep storedFate
  split_ifs <;> first | rfl | simp_all

theorem storedNote_eq (s : List Text × Nat) (pair : Text) :
    storedNote w sent s pair = (storedFate w sent s.2 pair).notes pair := by
  unfold storedNote storedFate
  split_ifs <;> rfl

/-- The loop adds the cookies whose fate is to be added, and leaves the notes of the others. -/
theorem foldl_stored (pairs : List Text) (s : List Text × Nat) (notes : List Text) :
    (pairs.foldl (noting (storedStep w sent) (storedNote w sent)) (s, notes)).1.1 =
        s.1 ++ addedOf (storedFates w sent s.2 pairs) ∧
      (pairs.foldl (noting (storedStep w sent) (storedNote w sent)) (s, notes)).2 =
        notes ++ (storedFates w sent s.2 pairs).flatMap fun f => f.2.notes f.1 := by
  induction pairs generalizing s notes with
  | nil => simp [storedFates, addedOf]
  | cons pair pairs ih =>
    rw [List.foldl_cons, noting, storedStep_eq, storedNote_eq, storedFates]
    split_ifs with hadded
    · obtain ⟨hfst, hsnd⟩ := ih (s.1 ++ [pair], s.2 + cookieSize s.2 pair) (notes ++ (storedFate w sent s.2 pair).notes pair)
      refine ⟨?_, ?_⟩
      · rw [hfst]
        simp [addedOf, hadded]
      · rw [hsnd]
        simp
    · obtain ⟨hfst, hsnd⟩ := ih s (notes ++ (storedFate w sent s.2 pair).notes pair)
      refine ⟨?_, ?_⟩
      · rw [hfst]
        simp [addedOf, hadded]
      · rw [hsnd]
        simp

theorem storedFates_fst (pairs : List Text) (bytes : Nat) : (storedFates w sent bytes pairs).map Prod.fst = pairs := by
  induction pairs generalizing bytes with
  | nil => rfl
  | cons pair pairs ih => rw [storedFates, List.map_cons, ih]

theorem mem_storedFates {pairs : List Text} {bytes : Nat} {f : Text × Fate} (hf : f ∈ storedFates w sent bytes pairs) :
    ∃ bytes, f.2 = storedFate w sent bytes f.1 := by
  induction pairs generalizing bytes with
  | nil => exact absurd hf (by simp [storedFates])
  | cons pair pairs ih =>
    rw [storedFates] at hf
    rcases List.mem_cons.1 hf with rfl | hf
    · exact ⟨bytes, rfl⟩
    · exact ih hf

/-- The added cookies are counted after what was counted before, and fit; one that is too large would not. -/
theorem storedFates_counts {pairs fields : List Text} {bytes : Nat} (hpairs : ∀ p ∈ pairs, p ≠ [])
    (h : Counts fields bytes) (hle : bytes ≤ maxCookieHeaderBytes) :
    joinedLen (fields ++ addedOf (storedFates w sent bytes pairs)) ≤ maxCookieHeaderBytes ∧
      ∀ pre pair post, storedFates w sent bytes pairs = pre ++ (pair, .tooLarge) :: post →
        maxCookieHeaderBytes < joinedLen (fields ++ addedOf pre ++ [pair]) := by
  induction pairs generalizing fields bytes with
  | nil =>
    refine ⟨?_, fun pre pair post he => absurd he (by simp [storedFates])⟩
    simpa [storedFates, addedOf] using h.bytes_eq ▸ hle
  | cons p pairs ih =>
    have hp : p ≠ [] := hpairs p List.mem_cons_self
    have hrest : ∀ q ∈ pairs, q ≠ [] := fun q hq => hpairs q (List.mem_cons_of_mem _ hq)
    have hpush := h.push (v := p) (.inl hp)
    rw [storedFates]
    by_cases hadded : storedFate w sent bytes p = .added
    · rw [if_pos hadded]
      obtain ⟨hbound, hlarge⟩ := ih hrest hpush (storedFate_added hadded).2.2
      have hcons : ∀ l : List (Text × Fate), addedOf ((p, storedFate w sent bytes p) :: l) = p :: addedOf l := by
        simp [addedOf, hadded]
      refine ⟨?_, fun pre pair post he => ?_⟩
      · rw [hcons, List.append_cons]
        exact hbound
      · cases pre with
        | nil =>
          obtain ⟨hpair, -⟩ := List.cons.inj he
          exact absurd (hadded.symm.trans (Prod.mk.inj hpair).2) (by decide)
        | cons f pre =>
          obtain ⟨rfl, htail⟩ := List.cons.inj he
          rw [hcons, List.append_cons fields p]
          exact hlarge pre pair post htail
    · rw [if_neg hadded]
      obtain ⟨hbound, hlarge⟩ := ih hrest h hle
      have hcons : ∀ l : List (Text × Fate), addedOf ((p, storedFate w sent bytes p) :: l) = addedOf l := by
        simp [addedOf, hadded]
      refine ⟨?_, fun pre pair post he => ?_⟩
      · rw [hcons]
        exact hbound
      · cases pre with
        | nil =>
          obtain ⟨hpair, -⟩ := List.cons.inj he
          obtain ⟨rfl, hfate⟩ := Prod.mk.inj hpair
          have := storedFate_tooLarge hfate
          rw [h.size] at this
          simpa [addedOf] using this
        | cons f pre =>
          obtain ⟨rfl, htail⟩ := List.cons.inj he
          rw [hcons]
          exact hlarge pre pair post htail

end Stored

/-! ## The header that is sent -/

/-- A value of white space only. -/
def isBlank (value : Text) : Prop := trim value = []

/-- The added cookies end the first `Cookie` field, replace it where it is blank, or are a field of their own. -/
inductive Placed (added : Text) : List Header → List Header → Prop
  | after {pre post : List Header} {h : Header} (hpre : cookieValues pre = []) (hc : isNamed "cookie" h = true)
      (hb : ¬isBlank h.2) : Placed added (pre ++ h :: post) (pre ++ (h.1, h.2 ++ ("; ".toList ++ added)) :: post)
  | instead {pre post : List Header} {h : Header} (hpre : cookieValues pre = []) (hc : isNamed "cookie" h = true)
      (hb : isBlank h.2) : Placed added (pre ++ h :: post) (pre ++ (h.1, added) :: post)
  | alone {headers : List Header} (hnone : cookieValues headers = []) :
      Placed added headers (headers ++ [("Cookie".toList, added)])

theorem placed_addCookies (added : Text) (headers : List Header) : Placed added headers (addCookies added headers) := by
  induction headers with
  | nil => exact .alone rfl
  | cons h headers ih =>
    unfold addCookies
    split_ifs with hc hb
    · exact @Placed.instead added [] headers h rfl hc (List.isEmpty_iff.1 hb)
    · exact @Placed.after added [] headers h rfl hc fun h => hb (List.isEmpty_iff.2 h)
    · have hcons : ∀ l, cookieValues (h :: l) = cookieValues l := by simp [cookieValues, hc]
      generalize addCookies added headers = out at ih
      cases ih with
      | after hpre hc hb => exact @Placed.after added (h :: _) _ _ ((hcons _).trans hpre) hc hb
      | instead hpre hc hb => exact @Placed.instead added (h :: _) _ _ ((hcons _).trans hpre) hc hb
      | alone hnone => exact .alone ((hcons _).trans hnone)

/-- The bytes of the fields, each with a separator of its own. -/
def weight (fields : List Text) : Nat := (fields.map fun v => utf8Len v + 2).sum

theorem joinedLen_le {a b : List Text} (h : weight a ≤ weight b) : joinedLen a ≤ joinedLen b := Nat.sub_le_sub_right h 2

theorem weight_append (a b : List Text) : weight (a ++ b) = weight a + weight b := by
  unfold weight
  rw [List.map_append, List.sum_append]

@[simp] theorem weight_nil : weight [] = 0 := rfl

theorem weight_cons (v : Text) (l : List Text) : weight (v :: l) = utf8Len v + 2 + weight l := by
  unfold weight
  rw [List.map_cons, List.sum_cons]

theorem weight_sublist {a b : List Text} (h : a.Sublist b) : weight a ≤ weight b :=
  (h.map _).sum_le_sum fun _ _ => Nat.zero_le _

theorem weight_intercalate {added : List Text} (h : added ≠ []) :
    utf8Len ("; ".toList.intercalate added) + 2 = weight added := by
  obtain ⟨v, l, rfl⟩ := List.exists_cons_of_ne_nil h
  rw [utf8Len_intercalate]
  unfold joinedLen
  rw [← weight, weight_cons]
  omega

theorem Placed.values {added : Text} {headers out : List Header} (h : Placed added headers out) :
    (∃ v V, cookieValues headers = v :: V ∧ ¬isBlank v ∧ cookieValues out = (v ++ ("; ".toList ++ added)) :: V) ∨
      (∃ v V, cookieValues headers = v :: V ∧ isBlank v ∧ cookieValues out = added :: V) ∨
        cookieValues headers = [] ∧ cookieValues out = [added] := by
  have hcons : ∀ (g : Header) (post : List Header), isNamed "cookie" g = true →
      cookieValues (g :: post) = g.2 :: cookieValues post := by
    intro g post hc
    simp [cookieValues, hc]
  cases h with
  | @after pre post h hpre hc hb =>
    refine .inl ⟨h.2, cookieValues post, ?_, hb, ?_⟩
    · rw [cookieValues_append, hpre, hcons h post hc, List.nil_append]
    · rw [cookieValues_append, hpre, hcons (h.1, h.2 ++ ("; ".toList ++ added)) post hc, List.nil_append]
  | @instead pre post h hpre hc hb =>
    refine .inr (.inl ⟨h.2, cookieValues post, ?_, hb, ?_⟩)
    · rw [cookieValues_append, hpre, hcons h post hc, List.nil_append]
    · rw [cookieValues_append, hpre, hcons (h.1, added) post hc, List.nil_append]
  | alone hnone =>
    have hname : eqIgnoreCase "Cookie".toList "cookie".toList = true := by decide
    refine .inr (.inr ⟨hnone, ?_⟩)
    rw [cookieValues_append, hnone, hcons ("Cookie".toList, added) [] hname]
    rfl

/-- The added cookies take no more than their own bytes, whichever field they go to. -/
theorem Placed.weight_le {added : List Text} {headers out : List Header} (hne : added ≠ [])
    (h : Placed ("; ".toList.intercalate added) headers out) :
    weight (cookieValues out) ≤ weight (cookieValues headers ++ added) := by
  have hadded := weight_intercalate hne
  have hsep : utf8Len "; ".toList = 2 := by decide
  rcases h.values with ⟨v, V, hv, -, hout⟩ | ⟨v, V, hv, -, hout⟩ | ⟨hv, hout⟩
  · rw [hv, hout, weight_append, weight_cons, weight_cons, utf8Len_append, utf8Len_append, hsep]
    omega
  · rw [hv, hout, weight_append, weight_cons, weight_cons]
    omega
  · rw [hv, hout, weight_append, weight_cons]
    omega

def nonEmpty (values : List Text) : List Text := values.filter fun v => !v.isEmpty

theorem nonEmpty_sublist (values : List Text) : (nonEmpty values).Sublist (values.dropWhile List.isEmpty) := by
  induction values with
  | nil => exact List.Sublist.slnil
  | cons v values ih =>
    unfold nonEmpty
    by_cases hv : v.isEmpty = true
    · rw [List.filter_cons_of_neg (by simpa using hv), List.dropWhile_cons_of_pos hv]
      exact ih
    · rw [List.dropWhile_cons_of_neg hv]
      exact List.filter_sublist

/-- The fields that are not empty take no more than what is counted. -/
theorem Placed.weight_nonEmpty_le {added : List Text} {headers out : List Header} (hne : added ≠ [])
    (h : Placed ("; ".toList.intercalate added) headers out) :
    weight (nonEmpty (cookieValues out)) ≤ weight (countedValues headers ++ added) := by
  have hadded := weight_intercalate hne
  rcases h.values with ⟨v, V, hv, hblank, -⟩ | ⟨v, V, hv, -, hout⟩ | ⟨hv, hout⟩
  · -- the first field is not empty, so that every field is counted
    have hne' : ¬v.isEmpty = true := fun he => hblank (by rw [List.isEmpty_iff.1 he]; rfl)
    have hcounted : countedValues headers = cookieValues headers := by
      rw [countedValues, hv, List.dropWhile_cons_of_neg hne']
    rw [hcounted]
    exact (weight_sublist List.filter_sublist).trans (h.weight_le hne)
  · have hV : weight (nonEmpty V) ≤ weight (countedValues headers) := by
      refine weight_sublist (((List.sublist_cons_self v V).filter _).trans ?_)
      rw [countedValues, hv]
      exact nonEmpty_sublist (v :: V)
    have hfilter : (nonEmpty (cookieValues out)).Sublist ("; ".toList.intercalate added :: nonEmpty V) := by
      rw [hout]
      unfold nonEmpty
      rw [List.filter_cons]
      split_ifs
      · exact List.Sublist.refl _
      · exact List.sublist_cons_self _ _
    refine (weight_sublist hfilter).trans ?_
    rw [weight_cons, weight_append]
    omega
  · refine (weight_sublist List.filter_sublist).trans ?_
    rw [hout, weight_append, weight_cons, weight_nil]
    omega

/-- The `Cookie` header of one send: `kept` are the configured headers within the budget, `out` the headers and the notes. -/
structure Composed (w : Wire) (jar : Option Text) (headers kept : List Header) (out : List Header × List Text) : Prop where
  /-- Every `Cookie` field that fits what the kept ones before it leave is kept, in order and as it is. -/
  fitting : ∀ pre h post, headers = pre ++ h :: post → isNamed "cookie" h = true →
    joinedLen (countedValues (cookieHeaderBudget pre).1 ++ [h.2]) ≤ maxCookieHeaderBytes →
    ∃ rest, kept = (cookieHeaderBudget pre).1 ++ h :: rest
  kept_sublist : kept.Sublist headers
  others : headers.filter (fun h => !isNamed "cookie" h) = kept.filter fun h => !isNamed "cookie" h
  /-- The joined fields fit, unless the first configured one is empty. -/
  bounded : (cookieValues kept).head? ≠ some [] → joinedLen (cookieValues out.1) ≤ maxCookieHeaderBytes
  nonEmpty_bounded : joinedLen (nonEmpty (cookieValues out.1)) ≤ maxCookieHeaderBytes
  /-- Every stored cookie is added or left out, in jar order. -/
  stored : ∃ fates : List (Text × Fate), fates.map Prod.fst = (jar.map cookiePairs).getD [] ∧
    (addedOf fates = [] ∧ out.1 = kept ∨ addedOf fates ≠ [] ∧ Placed ("; ".toList.intercalate (addedOf fates)) kept out.1) ∧
    (∃ before, out.2 = before ++ fates.flatMap fun f => f.2.notes f.1) ∧
    (∀ f ∈ fates, (f.2 = .named ↔ cookieName f.1 ∈ sentNames kept) ∧ (f.2 = .added → w.validValue f.1 = true) ∧
      (f.2 = .invalid → w.validValue f.1 = false)) ∧
    ∀ pre pair post, fates = pre ++ (pair, .tooLarge) :: post →
      maxCookieHeaderBytes < joinedLen (countedValues kept ++ addedOf pre ++ [pair])

theorem cookieHeaderBudget_append (pre : List Header) (h : Header) (post : List Header)
    (hc : isNamed "cookie" h = true)
    (hfit : joinedLen (countedValues (cookieHeaderBudget pre).1 ++ [h.2]) ≤ maxCookieHeaderBytes) :
    ∃ rest, (cookieHeaderBudget (pre ++ h :: post)).1 = (cookieHeaderBudget pre).1 ++ h :: rest := by
  have hstep : (budgetStep (cookieHeaderBudget pre) h).1 = (cookieHeaderBudget pre).1 ++ [h] := by
    unfold budgetStep
    rw [if_neg (by simp [hc]), (cookieHeaderBudget_counts pre).1.size, if_neg (Nat.not_lt.2 hfit)]
  obtain ⟨rest, -, hrest⟩ := foldl_sublist budgetStep_fst post (budgetStep (cookieHeaderBudget pre) h)
  refine ⟨rest, ?_⟩
  rw [hstep, List.append_assoc, List.singleton_append] at hrest
  rw [← hrest, cookieHeaderBudget, List.foldl_append, List.foldl_cons]
  rfl

theorem budgetStep_others (s : List Header × Nat) (h : Header) :
    (budgetStep s h).1.filter (fun g => !isNamed "cookie" g) =
      s.1.filter (fun g => !isNamed "cookie" g) ++ [h].filter fun g => !isNamed "cookie" g := by
  unfold budgetStep
  split_ifs with hname hlarge
  · exact List.filter_append _ _
  · simp [hname]
  · exact List.filter_append _ _

theorem cookieHeaderBudget_others (headers : List Header) :
    (cookieHeaderBudget headers).1.filter (fun h => !isNamed "cookie" h) = headers.filter fun h => !isNamed "cookie" h := by
  have hfold : ∀ (l : List Header) (s : List Header × Nat), (l.foldl budgetStep s).1.filter (fun h => !isNamed "cookie" h) =
      s.1.filter (fun h => !isNamed "cookie" h) ++ l.filter fun h => !isNamed "cookie" h := by
    intro l
    induction l with
    | nil => exact fun s => (List.append_nil _).symm
    | cons h l ih =>
      intro s
      rw [List.foldl_cons, ih, budgetStep_others, List.append_assoc, ← List.filter_append, List.singleton_append]
  exact hfold headers ([], 0)

theorem countedValues_eq {headers : List Header} (h : (cookieValues headers).head? ≠ some []) :
    countedValues headers = cookieValues headers := by
  unfold countedValues
  cases hv : cookieValues headers with
  | nil => rfl
  | cons v values =>
    rw [hv] at h
    exact List.dropWhile_cons_of_neg (by simpa using h)

/-- Where the added cookies fit after the counted fields, the fields that are sent fit. -/
theorem placed_bounded {added : List Text} {kept out : List Header}
    (hfit : joinedLen (countedValues kept ++ added) ≤ maxCookieHeaderBytes)
    (h : added = [] ∧ out = kept ∨ added ≠ [] ∧ Placed ("; ".toList.intercalate added) kept out) :
    ((cookieValues kept).head? ≠ some [] → joinedLen (cookieValues out) ≤ maxCookieHeaderBytes) ∧
      joinedLen (nonEmpty (cookieValues out)) ≤ maxCookieHeaderBytes := by
  rcases h with ⟨rfl, rfl⟩ | ⟨hne, hplaced⟩
  · rw [List.append_nil] at hfit
    refine ⟨fun hhead => ?_, (joinedLen_le (weight_sublist (nonEmpty_sublist _))).trans hfit⟩
    rwa [countedValues_eq hhead] at hfit
  · refine ⟨fun hhead => ?_, (joinedLen_le (hplaced.weight_nonEmpty_le hne)).trans hfit⟩
    rw [countedValues_eq hhead] at hfit
    exact (joinedLen_le (hplaced.weight_le hne)).trans hfit

theorem cookiePairs_ne_nil {stored p : Text} (hp : p ∈ cookiePairs stored) : p ≠ [] := by
  have hne := (List.mem_filter.1 hp).2
  simpa using hne

/-- The fates of the jar's cookies after the configured fields. -/
def jarFates (w : Wire) (jar : Option Text) (headers : List Header) : List (Text × Fate) :=
  storedFates w (sentNames (cookieHeaderBudget headers).1) (cookieHeaderBudget headers).2 ((jar.map cookiePairs).getD [])

theorem addJarCookiesNoted_fates (w : Wire) (jar : Option Text) (headers : List Header) :
    addJarCookiesNoted w jar headers =
      (if (addedOf (jarFates w jar headers)).isEmpty then (cookieHeaderBudget headers).1
        else addCookies ("; ".toList.intercalate (addedOf (jarFates w jar headers))) (cookieHeaderBudget headers).1,
        (headers.foldl (noting budgetStep budgetNote) (([], 0), [])).2 ++
          (jarFates w jar headers).flatMap fun f => f.2.notes f.1) := by
  have hbudget : (headers.foldl (noting budgetStep budgetNote) (([], 0), [])).1 = cookieHeaderBudget headers :=
    foldl_noting_fst _ _ headers _
  cases jar with
  | none =>
    have hnone : jarFates w none headers = [] := rfl
    rw [hnone]
    simp only [addJarCookiesNoted, hbudget]
    simp [addedOf]
  | some stored =>
    obtain ⟨hadded, hnotes⟩ := foldl_stored w (sentNames (cookieHeaderBudget headers).1) (cookiePairs stored)
      ([], (cookieHeaderBudget headers).2) (headers.foldl (noting budgetStep budgetNote) (([], 0), [])).2
    simp only [addJarCookiesNoted, hbudget, hadded, hnotes, List.nil_append]
    rfl

/-- **The Cookie header of one send** is composed of the configured fields within the budget and of stored cookies. -/
theorem addJarCookies_composed (w : Wire) (jar : Option Text) (headers : List Header) :
    Composed w jar headers (cookieHeaderBudget headers).1 (addJarCookiesNoted w jar headers) := by
  obtain ⟨hcount, hle⟩ := cookieHeaderBudget_counts headers
  have hpairs : ∀ p ∈ (jar.map cookiePairs).getD [], p ≠ [] := by
    cases jar with
    | none => exact fun p hp => absurd hp (by simp)
    | some stored => exact fun p hp => cookiePairs_ne_nil hp
  obtain ⟨hfit, hlarge⟩ := storedFates_counts w (sentNames (cookieHeaderBudget headers).1) hpairs hcount hle
  have hplaced : addedOf (jarFates w jar headers) = [] ∧ (addJarCookiesNoted w jar headers).1 =
      (cookieHeaderBudget headers).1 ∨
      addedOf (jarFates w jar headers) ≠ [] ∧ Placed ("; ".toList.intercalate (addedOf (jarFates w jar headers)))
        (cookieHeaderBudget headers).1 (addJarCookiesNoted w jar headers).1 := by
    rw [addJarCookiesNoted_fates]
    by_cases hempty : addedOf (jarFates w jar headers) = []
    · exact .inl ⟨hempty, by simp [hempty]⟩
    · exact .inr ⟨hempty, by simpa [hempty] using placed_addCookies _ _⟩
  obtain ⟨hbounded, hnonEmpty⟩ := placed_bounded hfit hplaced
  refine ⟨fun pre h post he hc hfits => ?_, cookieHeaderBudget_sublist headers, (cookieHeaderBudget_others headers).symm,
    hbounded, hnonEmpty, jarFates w jar headers, storedFates_fst w _ _ _, hplaced, ?_, ?_, hlarge⟩
  · rw [he]
    exact cookieHeaderBudget_append pre h post hc hfits
  · rw [addJarCookiesNoted_fates]
    exact ⟨_, rfl⟩
  · intro f hf
    obtain ⟨bytes, hfate⟩ := mem_storedFates w _ hf
    rw [hfate]
    exact ⟨storedFate_named, fun h => (storedFate_added h).2.1, storedFate_invalid⟩

def plainWire : Wire := ⟨fun name => !name.isEmpty, headerValueOk, fun _ => false⟩

/-- A blank field fits and is kept, but gives way to the stored cookies; a cookie without a name is sent beside another. -/
theorem blank_replaced :
    (cookieHeaderBudget [("Cookie".toList, "  ".toList)]).1 = [("Cookie".toList, "  ".toList)] ∧
      addJarCookiesNoted plainWire (some "a=b".toList) [("Cookie".toList, "  ".toList)] =
        ([("Cookie".toList, "a=b".toList)], []) ∧
      ¬"  ".toList <+: "a=b".toList ∧
      addJarCookiesNoted plainWire (some "=x".toList) [("Cookie".toList, "=y".toList)] =
        ([("Cookie".toList, "=y; =x".toList)], []) ∧ cookieName "=x".toList = cookieName "=y".toList := by
  decide

end Anvil.Engine
