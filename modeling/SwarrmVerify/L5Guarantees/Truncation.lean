import SwarrmVerify.L5Guarantees.Authority

/-!
# Key-log truncation

Deleting key-log entries from a bundle leaves every other signature and proof
valid: nothing else is signed over them. So whoever passes a bundle on could
try to lose a revocation. If the result still verifies, nothing was gained. The
sequence numbers are dense over what is left, so only a tail can be missing,
and the JWKS must list exactly the keys that the shorter log leaves unrevoked.

**Hypothesis.** The original bundle verifies, and its JWKS lists the keys that
its log leaves unrevoked. Which entries are deleted, and what else is in the
bundle, is arbitrary; no assumption on the crates is made.

The two replays are one run and a prefix of it (`keyLog_prefix`), so the longer
log keeps what the shorter one had (`replay_grows`): a key that is unrevoked in
the shorter log and listed was introduced there, and a revocation that is lost
would leave a key that the JWKS does not list.

**Results.**
* `unrevoked_listed`, `listed_in_log`: both directions of the JWKS check.
* `truncation_harmless`: where the shorter bundle verifies, the two logs leave
  the same keys unrevoked.
* `published_truncation`: the published log without its deputy.
-/
namespace SwarrmVerify.L5.Truncation
open SwarrmVerify.L3.Receipt SwarrmVerify.L3.Keys SwarrmVerify.L3.KeyRun
open SwarrmVerify.L4.Checkpoint SwarrmVerify.L4.Bundle SwarrmVerify.L5.Authority

variable {X : Crates}

/-- `es'` is `es` with some key-log entries left out. -/
inductive Drops (X : Crates) : List Value → List Value → Prop where
  | nil : Drops X [] []
  | keep {es es' : List Value} (e : Value) (h : Drops X es es') : Drops X (e :: es) (e :: es')
  | drop {es es' : List Value} (e : Value) (hk : (keyEntry X e).isSome = true) (h : Drops X es es') :
      Drops X (e :: es) es'

/-- The bundle with another list of entries and nothing else changed. -/
def withEntries : Value → List Value → Value
  | .object m, es => .object (m.map fun p => if p.1 = "entries" then (p.1, .array es) else p)
  | v, _ => v

/-- The log holds the key and has not revoked it. -/
def Unrevoked (kl : KeyLog) (kid : String) : Prop :=
  ∃ st, kl.state.lookup kid = some st ∧ st.revokedAt = none

/-- The kids of the bundle's JWKS. -/
def Listed (X : Crates) (bundle : Value) (kid : String) : Prop :=
  ∃ jwks, ((bundle.get "jwks").bind fun j => j.getArray "keys") = some jwks ∧
    ∃ jwk ∈ jwks, ∃ material, keyFromJwk X jwk = some (material, kid)

/-! ## The shorter bundle -/

theorem drops_subset {es es' : List Value} (h : Drops X es es') : es' ⊆ es := by
  induction h with
  | nil => exact List.Subset.refl _
  | keep e _ ih => exact List.cons_subset_cons e ih
  | drop e _ _ ih => exact fun x hx => List.mem_cons_of_mem e (ih hx)

theorem lookup_replace (m : List (String × Value)) (v : Value) (k : String) :
    (m.map fun p => if p.1 = "entries" then (p.1, v) else p).lookup k =
      if k = "entries" then (m.lookup k).map fun _ => v else m.lookup k := by
  induction m with
  | nil => simp
  | cons p m ih =>
    obtain ⟨j, w⟩ := p
    simp only [List.map_cons, List.lookup_cons]
    by_cases hj : j = "entries"
    · subst hj
      by_cases hk : k = "entries"
      · subst hk; simp
      · simp only [if_true, List.lookup_cons, beq_false_of_ne hk, ih, hk, if_false]
    · rw [if_neg hj]
      by_cases hk : k = j
      · subst hk; simp [hj]
      · simp only [List.lookup_cons, beq_false_of_ne hk, ih]

theorem get_withEntries (bundle : Value) (es : List Value) {k : String} (hk : k ≠ "entries") :
    (withEntries bundle es).get k = bundle.get k := by
  cases bundle with
  | object m => simp only [withEntries, Value.get, lookup_replace, if_neg hk]
  | _ => rfl

theorem entriesOf_withEntries {bundle : Value} {es es' : List Value}
    (h : bundle.getArray "entries" = some es) : entriesOf (withEntries bundle es') = es' := by
  obtain ⟨v, hv, _⟩ := Option.bind_eq_some_iff.mp h
  cases bundle with
  | object m =>
    simp only [Value.get] at hv
    simp [entriesOf, withEntries, Value.getArray, Value.get, lookup_replace, hv, Value.asArray]
  | _ => cases hv

/-! ## The JWKS check -/

theorem checkJwksMatchLog_spec {bundle : Value} {kl : KeyLog} (h : checkJwksMatchLog X bundle kl = true) :
    ∃ jwks listed, ((bundle.get "jwks").bind fun j => j.getArray "keys") = some jwks ∧
      jwks.mapM (listedKid X kl) = some listed ∧ ∀ kid, Unrevoked kl kid → kid ∈ listed := by
  unfold checkJwksMatchLog at h
  split at h
  · cases h
  rename_i jwks hjwks
  split at h
  · cases h
  split at h
  · cases h
  rename_i listed hlisted
  refine ⟨jwks, listed, hjwks, hlisted, ?_⟩
  rintro kid ⟨st, hst, hun⟩
  have := List.all_eq_true.mp h ⟨kid, st⟩ (AList.mem_lookup_iff.mp hst)
  simpa [hun] using this

theorem listedKid_spec {kl : KeyLog} {jwk : Value} {kid : String} (h : listedKid X kl jwk = some kid) :
    ∃ material, keyFromJwk X jwk = some (material, kid) ∧ kl.keys.lookup kid = some material := by
  unfold listedKid at h
  simp only [Option.bind_eq_bind, Option.bind_eq_some_iff] at h
  obtain ⟨⟨material, kid'⟩, hk, logMaterial, hl, h⟩ := h
  split at h
  · rename_i heq
    cases h; subst heq
    exact ⟨logMaterial, hk, hl⟩
  · cases h

/-- Unrevoked keys are listed. -/
theorem unrevoked_listed {bundle : Value} {kl : KeyLog} (h : checkJwksMatchLog X bundle kl = true)
    {kid : String} (hu : Unrevoked kl kid) : Listed X bundle kid := by
  obtain ⟨jwks, listed, hjwks, hlisted, hall⟩ := checkJwksMatchLog_spec h
  obtain ⟨jwk, hjwk, hk⟩ := mem_mapM hlisted (hall kid hu)
  obtain ⟨material, hm, _⟩ := listedKid_spec hk
  exact ⟨jwks, hjwks, jwk, hjwk, material, hm⟩

/-- Listed keys are in the log. -/
theorem listed_in_log {bundle : Value} {kl : KeyLog} (h : checkJwksMatchLog X bundle kl = true)
    (hs : SameKeys kl) {kid : String} (hl : Listed X bundle kid) : ∃ st, kl.state.lookup kid = some st := by
  obtain ⟨jwks, listed, hjwks, hlisted, _⟩ := checkJwksMatchLog_spec h
  obtain ⟨jwks', hjwks', jwk, hjwk, material, hm⟩ := hl
  rw [hjwks] at hjwks'; cases hjwks'
  obtain ⟨kid', _, hk⟩ := mem_of_mapM hlisted hjwk
  obtain ⟨material', hm', hlookup⟩ := listedKid_spec hk
  rw [hm] at hm'; cases hm'
  have := hs kid
  rw [hlookup] at this
  exact Option.isSome_iff_exists.mp this.symm

/-! ## Prefixes -/

/-- Two dense key logs, one inside the other: it is a prefix. -/
theorem keyLog_prefix {l l' : List KeyEntry} (h : keyEntriesWellFormed l = true)
    (h' : keyEntriesWellFormed l' = true) (hsub : l' ⊆ l) : l' <+: l := by
  rw [List.prefix_iff_getElem?]
  intro i hi
  have hget : l'[i]? = some l'[i] := List.getElem?_eq_getElem hi
  obtain ⟨j, hj⟩ := List.getElem?_of_mem (hsub (List.getElem_mem hi))
  have hseq := keyEntries_seq h' hget
  rw [keyEntries_seq h hj] at hseq
  have hji : j = i := by omega
  subst hji
  exact hj

/-- What a longer log keeps of a shorter one. -/
theorem replay_grows {l l' : List KeyEntry} {kl kl' : KeyLog} (hp : l' <+: l)
    (h : Replay.run (applyKeyEntry X) .empty l.zipIdx = some kl)
    (h' : Replay.run (applyKeyEntry X) .empty l'.zipIdx = some kl') : Grows kl' kl := by
  obtain ⟨rest, rfl⟩ := hp
  rw [List.zipIdx_append] at h
  obtain ⟨m, hm, hrest⟩ := Replay.run_append.mp h
  rw [h'] at hm; cases hm
  exact grows_run (explained_run h').sameKeys hrest

/-- A key of the shorter log that the longer one leaves unrevoked: a revocation
in the shorter log would still stand. -/
theorem unrevoked_of_grows {kl kl' : KeyLog} {kid : String} {st' : KeyState} (hg : Grows kl' kl)
    (hst' : kl'.state.lookup kid = some st') (hu : Unrevoked kl kid) : Unrevoked kl' kid := by
  obtain ⟨st, hst, hun⟩ := hu
  refine ⟨st', hst', ?_⟩
  obtain ⟨st₂, hst₂, hrev, _⟩ := hg.state kid st' hst'
  rw [hst₂] at hst; cases hst
  by_contra hne
  have := hrev (Option.isSome_iff_ne_none.mpr hne)
  rw [hun] at this
  exact hne this.symm

/-- **Truncation is harmless when it goes unnoticed.** Delete key-log entries
from a verified bundle whose JWKS lists exactly the keys its log leaves
unrevoked. If the rest still verifies, the key log that is left is a prefix of
the old one and leaves the same keys unrevoked, so no revocation was undone. -/
theorem truncation_harmless (X : Crates) (bundle : Value) (es' : List Value) (t t' : Option Value)
    (hdrop : Drops X (entriesOf bundle) es')
    (h : (verifyBundleFacts X bundle t).ok = true)
    (h' : (verifyBundleFacts X (withEntries bundle es') t').ok = true)
    (hjwks : ∀ kid, Listed X bundle kid ↔ Unrevoked (replayKeyLog X (entriesOf bundle)) kid) :
    keyLogOf X (withEntries bundle es') <+: keyLogOf X bundle ∧
    (∀ kid, Unrevoked (replayKeyLog X es') kid ↔ Unrevoked (replayKeyLog X (entriesOf bundle)) kid) ∧
    ∀ kid st, (replayKeyLog X (entriesOf bundle)).state.lookup kid = some st → st.revokedAt.isSome = true →
      ¬ Unrevoked (replayKeyLog X es') kid := by
  obtain ⟨entries, kl, target, chainEntries, chain, root, sparse, hacc⟩ := accepted_of_ok h
  obtain ⟨entries', kl', target', chainEntries', chain', root', sparse', hacc'⟩ := accepted_of_ok h'
  have hes' : entriesOf (withEntries bundle es') = es' := entriesOf_withEntries hacc.hentries
  have hentries' : es' = entries' := hes'.symm.trans hacc'.entries_eq
  subst hentries'
  have hentries := hacc.entries_eq
  subst hentries
  have hreplay := hacc.hreplay
  have hreplay' := hacc'.hreplay
  subst hreplay
  subst hreplay'
  obtain ⟨hwf, fin, hrun, hfin⟩ := replayKeyLog_ok hacc.hok
  obtain ⟨hwf', fin', hrun', hfin'⟩ := replayKeyLog_ok hacc'.hok
  have hsub : collectKeyEntries X es' ⊆ collectKeyEntries X (entriesOf bundle) := by
    intro k hk
    simp only [collectKeyEntries, List.mem_insertionSort, List.mem_filterMap] at hk ⊢
    obtain ⟨e, he, hke⟩ := hk
    exact ⟨e, drops_subset hdrop he, hke⟩
  have hpre := keyLog_prefix hwf hwf' hsub
  have hgrows := replay_grows hpre hrun hrun'
  have hlisted : ∀ kid, Listed X (withEntries bundle es') kid ↔ Listed X bundle kid := by
    intro kid
    unfold Listed
    rw [get_withEntries bundle es' (by decide)]
  have hsame : ∀ kid, Unrevoked (replayKeyLog X es') kid ↔ Unrevoked (replayKeyLog X (entriesOf bundle)) kid := by
    intro kid
    constructor
    · intro hu
      exact (hjwks kid).mp ((hlisted kid).mp (unrevoked_listed hacc'.hjwks hu))
    · rintro hu
      obtain ⟨st', hst'⟩ := listed_in_log hacc'.hjwks (by rw [hfin']; exact (explained_run hrun').sameKeys)
        ((hlisted kid).mpr ((hjwks kid).mpr hu))
      rw [hfin'] at hst' ⊢
      rw [hfin] at hu
      show Unrevoked fin' kid
      exact unrevoked_of_grows hgrows hst' hu
  refine ⟨?_, hsame, ?_⟩
  · rw [keyLogOf, hes']; exact hpre
  · rintro kid st hst hrev hu
    obtain ⟨st', hst', hun⟩ := (hsame kid).mp hu
    rw [hst] at hst'; cases hst'
    rw [hun] at hrev; cases hrev

section
open SwarrmVerify.L3.Published

theorem withEntries_published : withEntries published [entry0, entry3] = withoutDeputy := by
  simp [withEntries, published, withoutDeputy, L3.Published.bundle]

/-- The JWKS of the published log lists the `genesis` key, which alone the log
leaves unrevoked. -/
theorem published_jwks (kid : String) :
    Listed crates published kid ↔ Unrevoked (replayKeyLog crates (entriesOf published)) kid := by
  obtain ⟨entries, kl, target, chainEntries, chain, root, sparse, hacc⟩ := accepted_of_ok published_ok
  constructor
  · rintro ⟨jwks, hjwks, jwk, hjwk, material, hkey⟩
    obtain rfl : [genesisJwk] = jwks := Option.some.inj hjwks
    obtain rfl := List.mem_singleton.mp hjwk
    have hgenesis : (keyFromJwk crates genesisJwk).map Prod.snd = some genesisKid := by decide +kernel
    obtain rfl : kid = genesisKid := by simpa [hkey] using hgenesis
    obtain ⟨st, hst, hrev⟩ := Option.map_eq_some_iff.mp published_checked.2.2.2
    exact ⟨st, hst, hrev⟩
  · intro hu
    rw [hacc.entries_eq, hacc.hreplay] at hu
    exact unrevoked_listed hacc.hjwks hu

/-- Without the entries about the `deputy` the published log still verifies,
and the `genesis` key is the unrevoked key of both. -/
theorem published_truncation :
    (verifyBundleFacts crates (withEntries published [entry0, entry3]) none).ok = true ∧
      keyLogOf crates (withEntries published [entry0, entry3]) <+: keyLogOf crates published ∧
      ∀ kid, Unrevoked (replayKeyLog crates [entry0, entry3]) kid ↔
        Unrevoked (replayKeyLog crates (entriesOf published)) kid := by
  have hkeys : (keyEntry crates entry1).isSome = true ∧ (keyEntry crates entry2).isSome = true := by
    have h := keyEntries
    simp only [keyLog, List.map_cons, List.map_nil, List.cons_append, List.cons.injEq] at h
    simp [h]
  have hdrop : Drops crates (entriesOf published) [entry0, entry3] :=
    .keep entry0 (.drop entry1 hkeys.1 (.drop entry2 hkeys.2 (.keep entry3 .nil)))
  have hok : (verifyBundleFacts crates (withEntries published [entry0, entry3]) none).ok = true := by
    rw [withEntries_published]; exact withoutDeputy_ok
  obtain ⟨hpre, hsame, _⟩ := truncation_harmless crates published [entry0, entry3] none none hdrop
    published_ok hok published_jwks
  exact ⟨hok, hpre, hsame⟩

end

end SwarrmVerify.L5.Truncation
