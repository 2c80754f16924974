import SwarrmVerify.L3KeyLog.Keys

/-!
# What a key-log replay leaves behind

The state after a run is explained by the entries it consumed. A key stands in
the log because one entry introduced it, as a creation or as a rotation, and it
stands with the leaf, the role and the material of that entry; a revocation is
recorded because an entry at that leaf revokes the key. Nothing else is in the
tables, and nothing is ever taken out of them.

The invariant is `Explained`, and it is carried by `Replay.run_history`: one
lemma for a step (`explained_step`), one for the run. It is stated on the
tables of keys and of states together, which have the same domain throughout
(`SameKeys`).

**Results.**
* `explained_run`: the invariant, over every run.
* `grows_run`: whatever follows, keys are not removed, their introductions and
  roles do not change, and revocations are not undone.
* `keyActive_window`: the window that `keyActive` checks, read off the entries:
  one of them introduced the key below this position, effective by this time,
  and none revokes it below the position or with effect before the time.
-/
namespace SwarrmVerify.L3.KeyRun
open SwarrmVerify.L3.Receipt SwarrmVerify.L3.Keys

variable {X : Crates}

/-! ## Table lemmas -/

@[simp] theorem insert_keys (kl : KeyLog) (kid : String) (m : Digest) (st : KeyState) :
    (kl.insert kid m st).keys = kl.keys.insert kid m := rfl

@[simp] theorem insert_state (kl : KeyLog) (kid : String) (m : Digest) (st : KeyState) :
    (kl.insert kid m st).state = kl.state.insert kid st := rfl

theorem lookup_insert_cases {α : Type} {t : Table α} {k k' : String} {a b : α}
    (h : (t.insert k a).lookup k' = some b) : (k' = k ∧ b = a) ∨ (k' ≠ k ∧ t.lookup k' = some b) := by
  by_cases hk : k' = k
  · subst hk
    rw [AList.lookup_insert] at h
    exact Or.inl ⟨rfl, (Option.some.inj h).symm⟩
  · rw [AList.lookup_insert_ne hk] at h
    exact Or.inr ⟨hk, h⟩

/-- Both tables hold the same keys. -/
def SameKeys (kl : KeyLog) : Prop := ∀ kid, (kl.keys.lookup kid).isSome = (kl.state.lookup kid).isSome

theorem sameKeys_empty : SameKeys .empty := fun _ => rfl

theorem sameKeys_insert {kl : KeyLog} (h : SameKeys kl) (kid : String) (m : Digest) (st : KeyState) :
    SameKeys (kl.insert kid m st) := by
  intro k
  by_cases hk : k = kid
  · subst hk; simp [AList.lookup_insert]
  · simp only [insert_keys, insert_state, AList.lookup_insert_ne hk]; exact h k

theorem state_fresh {kl : KeyLog} (h : SameKeys kl) {kid : String} (hnew : kl.keys.lookup kid = none) :
    kl.state.lookup kid = none := by
  have := h kid
  rw [hnew] at this
  simpa using this.symm

theorem step_sameKeys {kl kl' : KeyLog} {p : KeyEntry × Nat} {c : KeyClaim} (h : SameKeys kl)
    (ht : Transition X kl p c kl') : SameKeys kl' := by
  cases ht with
  | created => exact sameKeys_insert h _ _ _
  | rotated => exact sameKeys_insert h _ _ _
  | revoked st eff _ hst =>
    intro k
    by_cases hk : k = c.kid
    · subst hk
      have := h c.kid
      rw [hst] at this
      simpa [AList.lookup_insert] using this
    · simp only [AList.lookup_insert_ne hk]; exact h k

/-! ## The history invariant -/

/-- A claim that introduces its key. -/
def Introduces (c : KeyClaim) : Prop := c.action = "evd.key.created" ∨ c.action = "evd.key.rotated"

/-- The log's state, explained by the entries consumed so far. -/
structure Explained (X : Crates) (l : List (KeyEntry × Nat)) (kl : KeyLog) : Prop where
  sameKeys : SameKeys kl
  introduced : ∀ kid st, kl.state.lookup kid = some st → ∃ p ∈ l, ∃ c, keyClaim X p.1 = some c ∧
    Introduces c ∧ c.kid = kid ∧ st.introduced = (p.1.leaf, c.effective)
  revokes : ∀ p ∈ l, ∀ c, keyClaim X p.1 = some c → c.action = "evd.key.revoked" →
    ∃ st eff, kl.state.lookup c.kid = some st ∧ st.revokedAt = some (p.1.leaf, eff) ∧
      utcEpochMicros eff = some c.effective
  roles : ∀ kid st, kl.state.lookup kid = some st → st.recorder = true ∨ st.scitt = true →
    st.nonIssuer = true

theorem explained_insert {l : List (KeyEntry × Nat)} {kl : KeyLog} {p : KeyEntry × Nat} {c : KeyClaim}
    {st : KeyState} (h : Explained X l kl) (hc : keyClaim X p.1 = some c) (hi : Introduces c)
    (hnew : kl.keys.lookup c.kid = none) (hst : st.introduced = (p.1.leaf, c.effective))
    (hrole : st.recorder = true ∨ st.scitt = true → st.nonIssuer = true) :
    Explained X (l ++ [p]) (kl.insert c.kid c.material st) := by
  have hfresh := state_fresh h.sameKeys hnew
  refine ⟨sameKeys_insert h.sameKeys _ _ _, ?_, ?_, ?_⟩
  · intro kid st' hl
    rcases lookup_insert_cases hl with ⟨rfl, rfl⟩ | ⟨_, hl⟩
    · exact ⟨p, by simp, c, hc, hi, rfl, hst⟩
    · obtain ⟨q, hq, hrest⟩ := h.introduced kid st' hl
      exact ⟨q, by simp [hq], hrest⟩
  · intro q hq d hd hrev
    rcases List.mem_append.mp hq with hq | hq
    · obtain ⟨st', eff, hl, hr⟩ := h.revokes q hq d hd hrev
      have hne : d.kid ≠ c.kid := by
        intro he; rw [he, hfresh] at hl; cases hl
      exact ⟨st', eff, by simpa [AList.lookup_insert_ne hne] using hl, hr⟩
    · -- the new entry is no revocation
      obtain rfl := List.mem_singleton.mp hq
      rw [hc] at hd; cases hd
      rcases hi with hi | hi <;> rw [hi] at hrev <;> exact absurd hrev (by decide)
  · intro kid st' hl
    rcases lookup_insert_cases hl with ⟨_, rfl⟩ | ⟨_, hl⟩
    · exact hrole
    · exact h.roles kid st' hl

theorem explained_step {l : List (KeyEntry × Nat)} {kl kl' : KeyLog} {p : KeyEntry × Nat}
    (h : Explained X l kl) (hs : applyKeyEntry X kl p = some kl') : Explained X (l ++ [p]) kl' := by
  obtain ⟨c, hc, _, ht⟩ := applyKeyEntry_cases hs
  have hsame := step_sameKeys h.sameKeys ht
  cases ht with
  | created issuer ha hnew _ hr =>
    refine explained_insert h hc (Or.inl ha) hnew rfl ?_
    intro hrole
    have : (c.ctx.getStr "role").isSome = true := by
      rcases hrole with hrole | hrole <;> rw [eq_of_beq hrole] <;> rfl
    simp [this]
  | rotated prevKid prev ha hnew =>
    refine explained_insert h hc (Or.inr ha) hnew rfl ?_
    rintro (hf | hf) <;> cases hf
  | revoked st eff ha hst hun _ heff =>
    refine ⟨hsame, ?_, ?_, ?_⟩
    · intro kid st' hl
      rcases lookup_insert_cases hl with ⟨rfl, rfl⟩ | ⟨_, hl⟩
      · obtain ⟨q, hq, hrest⟩ := h.introduced _ _ hst
        exact ⟨q, by simp [hq], hrest⟩
      · obtain ⟨q, hq, hrest⟩ := h.introduced kid st' hl
        exact ⟨q, by simp [hq], hrest⟩
    · intro q hq d hd hrev
      rcases List.mem_append.mp hq with hq | hq
      · obtain ⟨st', eff', hl, hr, he⟩ := h.revokes q hq d hd hrev
        have hne : d.kid ≠ c.kid := by
          intro hk
          rw [hk, hst] at hl
          cases hl; rw [hun] at hr; cases hr
        exact ⟨st', eff', by simpa [AList.lookup_insert_ne hne] using hl, hr, he⟩
      · obtain rfl := List.mem_singleton.mp hq
        rw [hc] at hd; cases hd
        exact ⟨_, eff, AList.lookup_insert _, rfl, heff⟩
    · intro kid st' hl
      rcases lookup_insert_cases hl with ⟨rfl, rfl⟩ | ⟨_, hl⟩
      · exact h.roles _ st hst
      · exact h.roles kid st' hl

theorem explained_run {l : List (KeyEntry × Nat)} {kl : KeyLog}
    (h : Replay.run (applyKeyEntry X) .empty l = some kl) : Explained X l kl := by
  refine Replay.run_history (P := Explained X) ?_ ?_ h
  · refine ⟨sameKeys_empty, ?_, ?_, ?_⟩
    · intro kid st hl; cases hl
    · intro p hp; cases hp
    · intro kid st hl; cases hl
  · intro l kl p kl' _ hl hs
    exact explained_step hl hs

/-! ## Growth -/

/-- `kl'` keeps every key of `kl` with its introduction and role, and every
revocation. -/
structure Grows (kl kl' : KeyLog) : Prop where
  keys : ∀ kid key, kl.keys.lookup kid = some key → kl'.keys.lookup kid = some key
  state : ∀ kid st, kl.state.lookup kid = some st → ∃ st', kl'.state.lookup kid = some st' ∧
    (st.revokedAt.isSome = true → st'.revokedAt = st.revokedAt) ∧
    st' = { st with revokedAt := st'.revokedAt }

theorem grows_refl (kl : KeyLog) : Grows kl kl :=
  ⟨fun _ _ h => h, fun _ st h => ⟨st, h, fun _ => rfl, rfl⟩⟩

theorem grows_trans {a b c : KeyLog} (h : Grows a b) (h' : Grows b c) : Grows a c := by
  refine ⟨fun kid key hk => h'.keys kid key (h.keys kid key hk), ?_⟩
  intro kid st hl
  obtain ⟨st₁, hl₁, hr₁, he₁⟩ := h.state kid st hl
  obtain ⟨st₂, hl₂, hr₂, he₂⟩ := h'.state kid st₁ hl₁
  refine ⟨st₂, hl₂, fun hr => ?_, by rw [he₂, he₁]⟩
  rw [hr₂ (by rw [hr₁ hr]; exact hr), hr₁ hr]

theorem grows_insert {kl : KeyLog} {kid : String} (m : Digest) (st : KeyState) (h : SameKeys kl)
    (hnew : kl.keys.lookup kid = none) : Grows kl (kl.insert kid m st) := by
  have hfresh := state_fresh h hnew
  refine ⟨fun k key hk => ?_, fun k st' hl => ⟨st', ?_, fun _ => rfl, rfl⟩⟩
  · have hne : k ≠ kid := by rintro rfl; rw [hnew] at hk; cases hk
    simpa [AList.lookup_insert_ne hne] using hk
  · have hne : k ≠ kid := by rintro rfl; rw [hfresh] at hl; cases hl
    simpa [AList.lookup_insert_ne hne] using hl

theorem grows_step {kl kl' : KeyLog} {p : KeyEntry × Nat} (h : SameKeys kl)
    (hs : applyKeyEntry X kl p = some kl') : Grows kl kl' := by
  obtain ⟨c, _, _, ht⟩ := applyKeyEntry_cases hs
  cases ht with
  | created _ _ hnew => exact grows_insert _ _ h hnew
  | rotated _ _ _ hnew => exact grows_insert _ _ h hnew
  | revoked st eff _ hst hun =>
    refine ⟨fun _ _ hk => hk, fun kid st' hl => ?_⟩
    by_cases hk : kid = c.kid
    · subst hk
      rw [hst] at hl; cases hl
      refine ⟨_, AList.lookup_insert _, ?_, rfl⟩
      intro hr
      rw [hun] at hr; cases hr
    · exact ⟨st', by simpa [AList.lookup_insert_ne hk] using hl, fun _ => rfl, rfl⟩

/-- Whatever follows, the log only grows. -/
theorem grows_run {l : List (KeyEntry × Nat)} {kl kl' : KeyLog} (h : SameKeys kl)
    (hr : Replay.run (applyKeyEntry X) kl l = some kl') : Grows kl kl' := by
  refine (Replay.run_mono (R := fun a b => SameKeys a → SameKeys b ∧ Grows a b) ?_ ?_ ?_ hr h).2
  · exact fun a ha => ⟨ha, grows_refl a⟩
  · intro a b c hab hbc ha
    obtain ⟨hb, hg⟩ := hab ha
    obtain ⟨hc, hg'⟩ := hbc hb
    exact ⟨hc, grows_trans hg hg'⟩
  · intro a p b hs ha
    obtain ⟨c, _, _, ht⟩ := applyKeyEntry_cases hs
    exact ⟨step_sameKeys ha ht, grows_step ha hs⟩

/-! ## The authority window -/

theorem keyActive_iff {kl : KeyLog} {kid ts : String} {size : UInt64} :
    keyActive kl kid ts size = true ↔ ∃ st t, kl.state.lookup kid = some st ∧ utcEpochMicros ts = some t ∧
      st.introduced.1 < size ∧ st.introduced.2 ≤ t ∧
      ∀ r, st.revokedAt = some r → size ≤ r.1 ∧ ∃ t', utcEpochMicros r.2 = some t' ∧ t ≤ t' := by
  unfold keyActive
  split
  · rename_i st t hst ht
    simp only [Bool.and_eq_true, decide_eq_true_eq, Option.all_eq_true, Option.any_eq_true]
    constructor
    · rintro ⟨⟨h1, h2⟩, h3⟩
      refine ⟨st, t, hst, ht, h1, h2, fun r hr => ?_⟩
      simpa using h3 r hr
    · rintro ⟨st', t', hst', ht', h1, h2, h3⟩
      rw [hst] at hst'; rw [ht] at ht'
      cases hst'; cases ht'
      exact ⟨⟨h1, h2⟩, fun r hr => by simpa using h3 r hr⟩
  · rename_i hnone
    constructor
    · intro h; cases h
    · rintro ⟨st, t, hst, ht, _⟩
      exact absurd ht (hnone st t hst)

/-- The window of an active key, read off the entries of the log: it was
introduced before this position and no later than this time, and every
revocation of it is at or after this position and not before this time. -/
theorem keyActive_window {l : List (KeyEntry × Nat)} {kl : KeyLog} (h : Explained X l kl) {kid ts : String}
    {size : UInt64} (ha : keyActive kl kid ts size = true) :
    ∃ t, utcEpochMicros ts = some t ∧
      (∃ p ∈ l, ∃ c, keyClaim X p.1 = some c ∧ Introduces c ∧ c.kid = kid ∧ p.1.leaf < size ∧
        c.effective ≤ t) ∧
      ∀ p ∈ l, ∀ c, keyClaim X p.1 = some c → c.action = "evd.key.revoked" → c.kid = kid →
        size ≤ p.1.leaf ∧ t ≤ c.effective := by
  obtain ⟨st, t, hst, ht, hleaf, heff, hrev⟩ := keyActive_iff.mp ha
  refine ⟨t, ht, ?_, ?_⟩
  · obtain ⟨p, hp, c, hc, hi, hkid, hintro⟩ := h.introduced kid st hst
    rw [hintro] at hleaf heff
    exact ⟨p, hp, c, hc, hi, hkid, hleaf, heff⟩
  · rintro p hp c hc hact rfl
    obtain ⟨st', eff, hst', hr, he⟩ := h.revokes p hp c hc hact
    rw [hst] at hst'; cases hst'
    obtain ⟨h1, t', ht', h2⟩ := hrev _ hr
    rw [he] at ht'; cases ht'
    exact ⟨h1, h2⟩

end SwarrmVerify.L3.KeyRun
