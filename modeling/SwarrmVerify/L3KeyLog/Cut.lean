import SwarrmVerify.L3KeyLog.KeyRun

/-!
# The key log below a leaf

A key log is replayed in leaf order, so the entries below a leaf are replayed
first. Replaying only those gives the log as it stood there: the keys they
introduced, with the roles they still have, and the revocations up to then.
Whoever was authorised below the leaf by the whole log is authorised by the cut
one, since authority at a position is about what lies below it.

The source sorts the entries it collects; that the entries below a leaf, once
sorted, are a prefix of all of them sorted is a fact about insertion
(`filter_insertionSort`, `filter_prefix`). From there `UpTo` relates the two
logs: every key of the cut log is in the whole one with the same introduction,
material and roles, and every key of the whole one that was introduced below
the leaf is in the cut one.

**Results.**
* `collectKeyEntries_below`: sorting the entries below a leaf, or cutting the
  sorted log there.
* `wellFormed_below`, `replay_below`: the cut log replays, if the genesis is in
  it.
* `UpTo.active`: what was authorised below the leaf is authorised by the cut
  log.
-/
namespace SwarrmVerify.L3.Cut
open SwarrmVerify.L3.Receipt SwarrmVerify.L3.Keys SwarrmVerify.L3.KeyRun

variable {X : Crates}

/-! ## Sorted lists -/

section
variable {α : Type} {r : α → α → Prop}

/-- What passes a test that the later elements pass less and less is a prefix. -/
theorem filter_prefix {p : α → Bool} {l : List α} (hl : l.Pairwise r)
    (hp : ∀ a b, r a b → p b = true → p a = true) : l.filter p <+: l := by
  induction l with
  | nil => exact List.prefix_refl _
  | cons a l ih =>
    obtain ⟨ha, hl⟩ := List.pairwise_cons.mp hl
    cases hpa : p a with
    | true =>
      rw [List.filter_cons_of_pos hpa]
      exact List.cons_prefix_cons.mpr ⟨rfl, ih hl⟩
    | false =>
      have hnone : (a :: l).filter p = [] := by
        rw [List.filter_eq_nil_iff]
        intro b hb hpb
        rcases List.mem_cons.mp hb with rfl | hb
        · exact Bool.eq_false_iff.mp hpa hpb
        · exact Bool.eq_false_iff.mp hpa (hp a b (ha b hb) hpb)
      rw [hnone]
      exact List.nil_prefix

variable [DecidableRel r]

theorem orderedInsert_first {a : α} {l : List α} (h : ∀ b ∈ l, r a b) : l.orderedInsert r a = a :: l := by
  cases l with
  | nil => rfl
  | cons b l => exact List.orderedInsert_cons_of_le _ _ (h b (List.mem_cons_self ..))

theorem filter_orderedInsert [IsTrans α r] (p : α → Bool) (a : α) {l : List α} (hl : l.Pairwise r) :
    (l.orderedInsert r a).filter p = if p a then (l.filter p).orderedInsert r a else l.filter p := by
  induction l with
  | nil => cases hp : p a <;> simp [hp]
  | cons b l ih =>
    obtain ⟨hb, hl⟩ := List.pairwise_cons.mp hl
    by_cases hab : r a b
    · rw [List.orderedInsert_cons, if_pos hab, List.filter_cons]
      split
      · -- `a` stands before everything that is kept
        refine (orderedInsert_first ?_).symm
        intro c hc
        rcases List.mem_cons.mp (List.mem_of_mem_filter hc) with rfl | hc
        · exact hab
        · exact IsTrans.trans _ _ _ hab (hb c hc)
      · rfl
    · rw [List.orderedInsert_cons, if_neg hab, List.filter_cons, ih hl, List.filter_cons]
      cases hp : p b with
      | false => simp
      | true => cases p a <;> simp [hab]

/-- Leaving elements out of a list or of the sorted list is the same. -/
theorem filter_insertionSort [Std.Total r] [IsTrans α r] (p : α → Bool) (l : List α) :
    (l.insertionSort r).filter p = (l.filter p).insertionSort r := by
  induction l with
  | nil => rfl
  | cons a l ih =>
    rw [List.insertionSort_cons, filter_orderedInsert p a (List.pairwise_insertionSort r l), ih, List.filter_cons]
    split <;> rfl

end

/-! ## The entries below a leaf -/

/-- The entries of a key log below a leaf. -/
def below (m : UInt64) (l : List KeyEntry) : List KeyEntry := l.filter fun k => decide (k.leaf < m)

theorem mem_below {m : UInt64} {l : List KeyEntry} {k : KeyEntry} : k ∈ below m l ↔ k ∈ l ∧ k.leaf < m := by
  rw [below, List.mem_filter, decide_eq_true_eq]

theorem collectKeyEntries_sorted (es : List Value) :
    (collectKeyEntries X es).Pairwise fun a b => a.leaf ≤ b.leaf :=
  List.pairwise_insertionSort (fun a b : KeyEntry => a.leaf ≤ b.leaf) _

theorem collectKeyEntries_below {es es' : List Value} {m : UInt64}
    (h : es'.filterMap (keyEntry X) = below m (es.filterMap (keyEntry X))) :
    collectKeyEntries X es' = below m (collectKeyEntries X es) := by
  rw [collectKeyEntries, h, below, below, collectKeyEntries]
  exact (filter_insertionSort (r := fun a b : KeyEntry => a.leaf ≤ b.leaf) _ _).symm

theorem below_prefix {l : List KeyEntry} (hl : l.Pairwise fun a b => a.leaf ≤ b.leaf) (m : UInt64) :
    below m l <+: l := by
  refine filter_prefix hl fun a b hab hb => ?_
  rw [decide_eq_true_eq] at hb ⊢
  exact UInt64.lt_of_le_of_lt hab hb

/-- A prefix of a well-formed key log is well-formed, if the genesis is in it. -/
theorem wellFormed_below {l : List KeyEntry} (hl : l.Pairwise fun a b => a.leaf ≤ b.leaf)
    (h : keyEntriesWellFormed l = true) {m : UInt64} (hm : 0 < m) : keyEntriesWellFormed (below m l) = true := by
  obtain ⟨rest, hrest⟩ := below_prefix hl m
  cases l with
  | nil => cases h
  | cons first l =>
    simp only [keyEntriesWellFormed, Bool.and_eq_true, beq_iff_eq] at h
    have hfirst : below m (first :: l) = first :: below m l := by
      rw [below, below, List.filter_cons_of_pos]
      rw [h.1.1, decide_eq_true_eq]
      exact hm
    rw [hfirst] at hrest ⊢
    simp only [keyEntriesWellFormed, Bool.and_eq_true, beq_iff_eq]
    refine ⟨h.1, ?_⟩
    have hall := h.2
    rw [← hrest, List.zipIdx_append, List.all_append, Bool.and_eq_true] at hall
    exact hall.1

/-! ## What a replay holds -/

/-- The keys that the entries consumed so far introduced. -/
structure Held (X : Crates) (l : List (KeyEntry × Nat)) (kl : KeyLog) : Prop where
  sameKeys : SameKeys kl
  keys : ∀ p ∈ l, ∀ c, keyClaim X p.1 = some c → Introduces c → kl.keys.lookup c.kid = some c.material

theorem held_step {l : List (KeyEntry × Nat)} {kl kl' : KeyLog} {p : KeyEntry × Nat} (h : Held X l kl)
    (hs : applyKeyEntry X kl p = some kl') : Held X (l ++ [p]) kl' := by
  have hgrows := grows_step h.sameKeys hs
  obtain ⟨c, hc, _, ht⟩ := applyKeyEntry_cases hs
  refine ⟨step_sameKeys h.sameKeys ht, fun q hq d hd hi => ?_⟩
  rcases List.mem_append.mp hq with hq | hq
  · exact hgrows.keys _ _ (h.keys q hq d hd hi)
  · obtain rfl := List.mem_singleton.mp hq
    rw [hc] at hd
    cases hd
    cases ht with
    | created => exact AList.lookup_insert _
    | rotated => exact AList.lookup_insert _
    | revoked st eff ha =>
      rcases hi with hi | hi <;> rw [ha] at hi <;> exact absurd hi (by decide)

theorem held_run {l : List (KeyEntry × Nat)} {kl : KeyLog}
    (h : Replay.run (applyKeyEntry X) .empty l = some kl) : Held X l kl := by
  refine Replay.run_history (P := Held X) ⟨sameKeys_empty, ?_⟩ (fun _ _ _ _ _ hl hs => held_step hl hs) h
  intro p hp
  cases hp

/-! ## The cut log -/

/-- `kl'` is the log `kl` as it stood below the leaf `m`. -/
structure UpTo (m : UInt64) (kl kl' : KeyLog) : Prop where
  sameKeys : SameKeys kl'
  grows : Grows kl' kl
  known : ∀ kid st, kl.state.lookup kid = some st → st.introduced.1 < m → (kl'.state.lookup kid).isSome = true

namespace UpTo
variable {m : UInt64} {kl kl' : KeyLog} {kid : String}

/-- Revocations apart, a key has one state in both. -/
theorem state (h : UpTo m kl kl') (hk : (kl'.state.lookup kid).isSome = true) : ∃ st st',
    kl.state.lookup kid = some st ∧ kl'.state.lookup kid = some st' ∧ st = { st' with revokedAt := st.revokedAt } ∧
    (st'.revokedAt.isSome = true → st.revokedAt = st'.revokedAt) := by
  obtain ⟨st', hst'⟩ := Option.isSome_iff_exists.mp hk
  obtain ⟨st, hst, hrev, he⟩ := h.grows.state kid st' hst'
  exact ⟨st, st', hst, hst', he, hrev⟩

theorem keys (h : UpTo m kl kl') (hk : (kl'.state.lookup kid).isSome = true) :
    kl'.keys.lookup kid = kl.keys.lookup kid := by
  rw [← h.sameKeys kid] at hk
  obtain ⟨key, hkey⟩ := Option.isSome_iff_exists.mp hk
  rw [hkey, h.grows.keys kid key hkey]

theorem nonIssuer (h : UpTo m kl kl') (hk : (kl'.state.lookup kid).isSome = true) :
    Keys.nonIssuer kl' kid = Keys.nonIssuer kl kid := by
  obtain ⟨st, st', hst, hst', he, _⟩ := h.state hk
  rw [Keys.nonIssuer, Keys.nonIssuer, hst, hst', Option.any_some, Option.any_some, he]

theorem recorder (h : UpTo m kl kl') (hk : (kl'.state.lookup kid).isSome = true) :
    (kl'.state.lookup kid).any (·.recorder) = (kl.state.lookup kid).any (·.recorder) := by
  obtain ⟨st, st', hst, hst', he, _⟩ := h.state hk
  rw [hst, hst', Option.any_some, Option.any_some, he]

/-- A key active below the leaf was introduced below it. -/
theorem known_of_active (h : UpTo m kl kl') {ts : String} {size : UInt64} (hsize : size ≤ m)
    (ha : keyActive kl kid ts size = true) : (kl'.state.lookup kid).isSome = true := by
  obtain ⟨st, t, hst, _, hlt, _⟩ := keyActive_iff.mp ha
  exact h.known kid st hst (UInt64.lt_of_lt_of_le hlt hsize)

/-- What was authorised below the leaf is authorised by the cut log. -/
theorem active (h : UpTo m kl kl') {ts : String} {size : UInt64} (hsize : size ≤ m)
    (ha : keyActive kl kid ts size = true) : keyActive kl' kid ts size = true := by
  obtain ⟨st, st', hst, hst', he, hrev⟩ := h.state (h.known_of_active hsize ha)
  obtain ⟨st₁, t, hst₁, ht, hlt, hle, hrevoked⟩ := keyActive_iff.mp ha
  rw [hst] at hst₁
  cases hst₁
  rw [he] at hlt hle
  refine keyActive_iff.mpr ⟨st', t, hst', ht, hlt, hle, fun r hr => hrevoked r ?_⟩
  rw [hrev (by rw [hr]; rfl), hr]

end UpTo

theorem replayLoop_run {l : List (KeyEntry × Nat)} {kl kl' : KeyLog}
    (h : Replay.run (applyKeyEntry X) kl l = some kl') : replayLoop X kl l = { kl' with ok := true } := by
  induction l generalizing kl with
  | nil =>
    obtain rfl := Option.some.inj h
    rfl
  | cons p l ih =>
    obtain ⟨next, hstep, hrest⟩ := Replay.run_cons.mp h
    rw [replayLoop, hstep]
    exact ih hrest

/-- The entries below a leaf replay to the cut log. -/
theorem replay_below {es es' : List Value} {m : UInt64} (hok : (replayKeyLog X es).ok = true) (hm : 0 < m)
    (h : es'.filterMap (keyEntry X) = below m (es.filterMap (keyEntry X))) :
    (replayKeyLog X es').ok = true ∧ UpTo m (replayKeyLog X es) (replayKeyLog X es') ∧
      Explained X (below m (collectKeyEntries X es)).zipIdx (replayKeyLog X es') ∧
      Held X (below m (collectKeyEntries X es)).zipIdx (replayKeyLog X es') := by
  obtain ⟨hwf, fin, hrun, hfin⟩ := replayKeyLog_ok hok
  have hsorted := collectKeyEntries_sorted (X := X) es
  have hexplained := explained_run hrun
  have hwf' := wellFormed_below hsorted hwf hm
  obtain ⟨rest, hrest⟩ := below_prefix hsorted m
  rw [← hrest, List.zipIdx_append] at hrun
  obtain ⟨mid, hmid, hrun'⟩ := Replay.run_append.mp hrun
  have hreplay : replayKeyLog X es' = { mid with ok := true } := by
    unfold replayKeyLog
    rw [collectKeyEntries_below h]
    dsimp only
    rw [hwf']
    exact replayLoop_run hmid
  have hheld := held_run hmid
  have hmidExplained := explained_run hmid
  have hgrows := grows_run hheld.sameKeys hrun'
  rw [hreplay, hfin]
  refine ⟨rfl, ⟨hheld.sameKeys, ⟨hgrows.keys, hgrows.state⟩, ?_⟩,
    ⟨hmidExplained.sameKeys, hmidExplained.introduced, hmidExplained.revokes, hmidExplained.roles⟩,
    ⟨hheld.sameKeys, hheld.keys⟩⟩
  intro kid st hst hlt
  obtain ⟨p, hp, c, hc, hi, hkid, hintroduced⟩ := hexplained.introduced kid st hst
  -- the entry that introduced the key is below the leaf
  have hleaf : p.1.leaf < m := by rwa [hintroduced] at hlt
  have hmem : p.1 ∈ below m (collectKeyEntries X es) :=
    mem_below.mpr ⟨List.mem_of_getElem? (List.mem_zipIdx_iff_getElem?.mp hp), hleaf⟩
  obtain ⟨i, hi'⟩ := List.getElem?_of_mem hmem
  have hkey := hheld.keys (p.1, i) (List.mk_mem_zipIdx_iff_getElem?.mpr hi') c hc hi
  have hsome := hheld.sameKeys c.kid
  rw [hkey, hkid] at hsome
  exact hsome.symm

/-- A key log that replays starts with the key at leaf 0. -/
theorem genesis_introduces {es : List Value} (hok : (replayKeyLog X es).ok = true) :
    ∃ k ∈ collectKeyEntries X es, ∃ c, k.leaf = 0 ∧ keyClaim X k = some c ∧ Introduces c := by
  obtain ⟨hwf, fin, hrun, _⟩ := replayKeyLog_ok hok
  cases hl : collectKeyEntries X es with
  | nil =>
    rw [hl] at hwf
    cases hwf
  | cons first l =>
    rw [hl] at hwf hrun
    simp only [keyEntriesWellFormed, Bool.and_eq_true, beq_iff_eq] at hwf
    obtain ⟨next, hstep, _⟩ := Replay.run_cons.mp hrun
    obtain ⟨c, hc, _, _⟩ := applyKeyEntry_cases hstep
    refine ⟨first, List.mem_cons_self .., c, hwf.1.1, hc, .inl ?_⟩
    rw [(keyClaim_reads hc).action, hwf.1.2, Option.getD_some]

end SwarrmVerify.L3.Cut
