import SwarrmVerify.L4Action.Verdict
import SwarrmVerify.L3KeyLog.Issuers

/-!
# More trust never weakens a verdict (`action.rs`, `trust.rs`)

Two derivations of one input under trust contexts `t` and `t'`, where every
key-category table of `t` is contained in that of `t'` (`Contained`): each name
that `t` knows means the same under `t'`. Nothing else is assumed of either
context, nor of the input.

A signature that verifies under `t` verifies under `t'`, since it is checked
under the key of its name. From there the derivation is followed dimension by
dimension. Each keeps its value or moves from the weak value to the strong one
(`Rises`), or grows in the rank of its scale. What is adverse is found without
trust: a gap, an overlap, an ambiguity are read off the input, and a view
withholds what it withholds.

**Results.**
* `verified_mono`, `macVerified_mono`, `sourceWebhookVerified_mono`: the three
  checks that read a trust context.
* `sourceSignature_mono`, `nodeDims_mono`, `coverage_rises`, `temporal_mono`,
  `surfaces_mono`, `accountability_mono`, `population_mono` and the others: one
  lemma for each dimension.
* `eligible_mono`: eligibility reads dimensions that only rise.
* `more_trust`: the vector under `t'` is at least as strong (`AtLeast`), has
  the same adverse and withheld values, and the derivation raises under both
  contexts or under neither (`SameAdverse`).
-/
namespace SwarrmVerify.L5.MoreTrust
open SwarrmVerify.L3.Receipt SwarrmVerify.L4.Trust SwarrmVerify.L4.Action

/-! ## Trust contexts -/

/-- What a trust context has under a category and a name. -/
def entry (trust : Option Value) (category name : String) : Option Value :=
  ((trust.bind fun t => t.get category).bind Value.asObject).bind fun m => m.lookup name

/-- Every key-category table of `t` is contained in that of `t'`: a name that
`t` has under a category means the same under `t'`. No context at all is
contained in every other. -/
def Contained (t t' : Option Value) : Prop :=
  ∀ category ∈ keyCategories, ∀ name v, entry t category name = some v → entry t' category name = some v

section Signatures

variable {E : Engine} {X : Crates} {t t' : Option Value}

theorem keyFor_entry (trust : Option Value) (category name : String) :
    keyFor X trust category (some name) =
      if keyCategories.contains category then decodeMaterial X (entry trust category name) else none := by
  unfold keyFor entry
  cases keyCategories.contains category with
  | false => rfl
  | true =>
    cases trust with
    | none => rfl
    | some t =>
      simp only [Option.bind_eq_bind, Option.bind_some, Bool.not_true, Bool.false_eq_true, if_false, if_true]
      cases t.get category with
      | none => rfl
      | some table =>
        simp only [Option.bind_some]
        cases table.asObject with
        | none => rfl
        | some m => rfl

/-- A name that has a key under the smaller context has the same one under the
larger. -/
theorem keyFor_mono (hc : Contained t t') {category : String} {name : Option String} {raw : Bytes}
    (h : keyFor X t category name = some raw) : keyFor X t' category name = some raw := by
  cases name with
  | none =>
    unfold keyFor at h
    split at h
    · cases h
    · simp at h
  | some name =>
    rw [keyFor_entry] at h ⊢
    split at h
    · rename_i hcat
      rw [if_pos hcat]
      cases he : entry t category name with
      | none => rw [he] at h; simp [decodeMaterial] at h
      | some v => rwa [hc category (List.contains_iff_mem.mp hcat) name v he, ← he]
    · cases h

theorem digestFor_mono (hc : Contained t t') {category : String} {name : Option String} {key : Digest}
    (h : (keyFor X t category name).bind toDigest = some key) : (keyFor X t' category name).bind toDigest = some key := by
  obtain ⟨raw, hraw, hkey⟩ := Option.bind_eq_some_iff.mp h
  exact Option.bind_eq_some_iff.mpr ⟨raw, keyFor_mono hc hraw, hkey⟩

/-- A document that verifies under a named key verifies under more trust,
because the key is the same. -/
theorem verified_mono (hc : Contained t t') {category : String} {name : Option String} {domain : String}
    {payload : Value} (h : verified X t category name domain payload = true) :
    verified X t' category name domain payload = true := by
  unfold verified at h ⊢
  split at h
  · rename_i key sig msg hkey hproof
    rw [digestFor_mono hc hkey, hproof]
    exact h
  · cases h

theorem macVerified_mono (hc : Contained t t') {name : Option String} {domain : String} {payload : Value}
    (h : macVerified X t name domain payload = true) : macVerified X t' name domain payload = true := by
  unfold macVerified at h ⊢
  split at h
  · rename_i secret mac msg hkey hproof
    rw [keyFor_mono hc hkey, hproof]
    exact h
  · cases h

/-- A disclosed delivery is checked against the secret or key of its source, and
against nothing else of the context. -/
theorem sourceWebhookVerified_mono (hc : Contained t t') {name family : Option String} {payload : Value}
    (h : sourceWebhookVerified E t name family payload = true) :
    sourceWebhookVerified E t' name family payload = true := by
  unfold sourceWebhookVerified at h ⊢
  cases hst : sourceWebhookStatement E name payload with
  | none => rw [hst] at h; cases h
  | some st =>
    rw [hst] at h
    dsimp only at h ⊢
    split
    · rename_i hk
      rw [if_pos hk] at h
      unfold sourceWebhookEd25519 at h ⊢
      split at h
      · rename_i key sig hkey hsig
        rw [digestFor_mono hc hkey, hsig]
        exact h
      · cases h
    · rename_i hk
      rw [if_neg hk] at h
      split
      · rename_i hm
        rw [if_pos hm] at h
        unfold sourceWebhookMac at h ⊢
        split at h
        · rename_i secret mac hkey hmac
          rw [keyFor_mono hc hkey, hmac]
          exact h
        · cases h
      · rename_i hm
        rw [if_neg hm] at h
        cases h

end Signatures

/-! ## Scales -/

/-- The value stays, or the weak one becomes the strong one. On a scale of
two values this is monotonicity; an adverse third value can neither appear
nor go. -/
def Rises {α : Type} (weak strong a b : α) : Prop := a = b ∨ a = weak ∧ b = strong

def signatureRank : SourceSignature → Nat
  | .asymmetric => 2
  | .sharedSecret => 1
  | _ => 0

def basisRank : CoverageBasis → Nat
  | .insufficient => 0
  | .attestedNodeFullScan => 1
  | .sourceProvenPopulation => 2

def temporalRank : TemporalBinding → Nat
  | .unproven => 0
  | .provenIndependent => 1
  | .provenSourceEcho => 2

/-! ## Source signature -/

section Source

variable {E : Engine} {t t' : Option Value}

theorem fullSourceProofKind_mono (hc : Contained t t') (p : Value) (key : Option Value) (kid : Option String) :
    fullSourceProofKind E p key kid t = .nothing ∨
      fullSourceProofKind E p key kid t' = fullSourceProofKind E p key kid t := by
  unfold fullSourceProofKind
  dsimp only
  split
  · exact .inl rfl
  · rename_i h
    simp only [Bool.or_eq_true, Bool.not_eq_true', not_or, Bool.not_eq_true, Bool.not_eq_false] at h
    rw [h.1, sourceWebhookVerified_mono hc h.2]
    exact .inr rfl

theorem legacySourceProofKind_mono (hc : Contained t t') (p : Value) (key : Option Value) (kid : Option String) :
    legacySourceProofKind E.toCrates p key kid t = .nothing ∨
      legacySourceProofKind E.toCrates p key kid t' = legacySourceProofKind E.toCrates p key kid t := by
  unfold legacySourceProofKind
  split
  · rename_i h
    simp only [Bool.and_eq_true] at h
    rw [if_pos (by simp only [h.1, verified_mono hc h.2, Bool.and_self])]
    exact .inr rfl
  · split
    · rename_i h
      simp only [Bool.and_eq_true, beq_iff_eq] at h
      right
      -- a code is never also a signature: the type of the proof decides
      rw [if_neg (by simp [h.1]), if_pos (by simp [h.1, macVerified_mono hc h.2])]
    · exact .inl rfl

/-- A proof that counts for something counts for the same under more trust; one
that counts for nothing may come to count. -/
theorem sourceProofKind_mono (hc : Contained t t') (p : Value) (keys : List Value) :
    sourceProofKind E p keys t = .nothing ∨ sourceProofKind E p keys t' = sourceProofKind E p keys t := by
  unfold sourceProofKind
  split
  · exact .inl rfl
  · dsimp only
    split
    · exact fullSourceProofKind_mono hc p _ _
    · exact legacySourceProofKind_mono hc p _ _

/-- Having seen a valid code before can only strengthen what the loop
reports. -/
theorem signatureLoop_hasMac (keys : List Value) (trust : Option Value) : ∀ ps : List Value,
    signatureRank (signatureLoop E keys trust ps false) ≤ signatureRank (signatureLoop E keys trust ps true)
  | [] => by simp [signatureLoop, signatureRank]
  | p :: ps => by
    have ih := signatureLoop_hasMac keys trust ps
    unfold signatureLoop
    split
    · exact le_refl _
    · exact le_refl _
    · exact ih

/-- The loop over the proofs, by induction on them. A proof that comes to count
may end the loop earlier, with the strongest value, or add a code. -/
theorem signatureLoop_mono (hc : Contained t t') (keys : List Value) : ∀ (ps : List Value) (hasMac : Bool),
    signatureRank (signatureLoop E keys t ps hasMac) ≤ signatureRank (signatureLoop E keys t' ps hasMac)
  | [], _ => le_refl _
  | p :: ps, hasMac => by
    have htop : ∀ ps m, signatureRank (signatureLoop E keys t ps m) ≤ 2 := by
      intro ps m
      cases signatureLoop E keys t ps m <;> decide
    rcases sourceProofKind_mono hc p keys with hk | hk
    · -- nothing under `t`; whatever it is under `t'`, the rest decides
      have ih := signatureLoop_mono hc keys ps hasMac
      have hstep : signatureLoop E keys t (p :: ps) hasMac = signatureLoop E keys t ps hasMac := by
        rw [signatureLoop, hk]
      rw [hstep]
      cases hk' : sourceProofKind E p keys t' with
      | asymmetric =>
        rw [show signatureLoop E keys t' (p :: ps) hasMac = .asymmetric by rw [signatureLoop, hk']]
        exact htop ps hasMac
      | mac =>
        rw [show signatureLoop E keys t' (p :: ps) hasMac = signatureLoop E keys t' ps true by rw [signatureLoop, hk']]
        cases hasMac with
        | true => exact ih
        | false => exact ih.trans (signatureLoop_hasMac keys t' ps)
      | nothing =>
        rw [show signatureLoop E keys t' (p :: ps) hasMac = signatureLoop E keys t' ps hasMac by rw [signatureLoop, hk']]
        exact ih
    · unfold signatureLoop
      rw [hk]
      split
      · exact le_refl _
      · exact signatureLoop_mono hc keys ps true
      · exact signatureLoop_mono hc keys ps hasMac

/-- The source signature rises in rank, and whether it was recomputed is left to
the view. -/
theorem sourceSignature_mono (hc : Contained t t') {vi : Value} {s s' : SourceSignature}
    (h : sourceSignature E vi t = some s) (h' : sourceSignature E vi t' = some s') :
    signatureRank s ≤ signatureRank s' ∧ (s = .notRecomputed ↔ s' = .notRecomputed) := by
  simp only [sourceSignature, Option.bind_eq_bind, Option.bind_eq_some_iff] at h h'
  obtain ⟨w, hw, h⟩ := h
  obtain ⟨w', hw', h'⟩ := h'
  cases hw.symm.trans hw'
  cases w with
  | true => cases h; cases h'; simp
  | false =>
    simp only [Bool.false_eq_true, if_false, Option.bind_eq_some_iff] at h h'
    obtain ⟨keys, hkeys, h⟩ := h
    obtain ⟨keys', hkeys', h'⟩ := h'
    cases hkeys.symm.trans hkeys'
    split at h
    · rename_i hb
      rw [hb] at h'
      cases h; cases h'; simp
    · rename_i proofs hb
      rw [hb] at h'
      cases h; cases h'
      exact ⟨signatureLoop_mono hc keys proofs false, by simp [signatureLoop_recomputed]⟩

end Source

/-! ## The other dimensions -/

section Dimensions

variable {E : Engine} {X : Crates} {vi : Value} {t t' : Option Value}

theorem controlDomain_mono (hc : Contained t t') {d d' : ControlDomain} (h : controlDomain X vi t = some d)
    (h' : controlDomain X vi t' = some d') : Rises .unknown .independent d d' := by
  simp only [controlDomain, Option.bind_eq_bind, Option.bind_eq_some_iff, Option.pure_def, Option.some.injEq] at h h'
  obtain ⟨decls, hd, rfl⟩ := h
  obtain ⟨decls', hd', rfl⟩ := h'
  cases hd.symm.trans hd'
  split
  · exact .inl rfl
  · split
    · rename_i hg
      simp only [Bool.and_eq_true] at hg
      left
      rw [if_pos (by simp only [hg.1, verified_mono hc hg.2, Bool.and_self])]
    · split
      · exact .inr ⟨rfl, rfl⟩
      · exact .inl rfl

theorem nodeObserved_mono (hc : Contained t t') (h : nodeObserved X vi t = true) : nodeObserved X vi t' = true := by
  simp only [nodeObserved, Bool.and_eq_true] at h ⊢
  exact ⟨h.1, verified_mono hc h.2⟩

theorem attestationOk_mono (hc : Contained t t') {att : Value} (h : attestationOk X att t = true) :
    attestationOk X att t' = true := by
  simp only [attestationOk, Bool.and_eq_true] at h ⊢
  exact ⟨⟨⟨⟨verified_mono hc h.1.1.1.1, h.1.1.1.2⟩, h.1.1.2⟩, h.1.2⟩, h.2⟩

theorem nodeDims_observation : ((nodeDims X vi t).observation == .observed) = nodeObserved X vi t := by
  unfold nodeDims
  cases nodeObserved X vi t <;> rfl

/-- The node dimensions keep their values or rise from the weak ones. -/
theorem nodeDims_mono (hc : Contained t t') :
    Rises .notObserved .observed (nodeDims X vi t).observation (nodeDims X vi t').observation ∧
      Rises .none .attested (nodeDims X vi t).client (nodeDims X vi t').client ∧
      ((nodeDims X vi t).basis = .logWitnessedSoftware ∨ (nodeDims X vi t).basis = (nodeDims X vi t').basis) := by
  have hobs := @nodeObserved_mono X vi t t' hc
  refine ⟨?_, ?_, ?_⟩
  · unfold nodeDims Rises
    cases ho : nodeObserved X vi t with
    | true => rw [hobs ho]; exact .inl rfl
    | false => cases nodeObserved X vi t' <;> simp
  · unfold nodeDims Rises
    cases ho : nodeObserved X vi t with
    | true => rw [hobs ho]; exact .inl rfl
    | false => cases nodeObserved X vi t' <;> cases flag vi "client_attestation_present" <;> simp
  · unfold nodeDims
    dsimp only
    cases ha : attestationOk X (vi.index "node_attestation") t with
    | false => exact .inl rfl
    | true => rw [attestationOk_mono hc ha]; exact .inr rfl

/-- The basis of a coverage is the strongest of those that a signature stands
for, and rises with each. -/
theorem coverageBasis_mono (hc : Contained t t') :
    basisRank (coverageBasis X vi (nodeDims X vi t).basis (nodeObserved X vi t) t) ≤
      basisRank (coverageBasis X vi (nodeDims X vi t').basis (nodeObserved X vi t') t') := by
  have htop : ∀ b, basisRank b ≤ 2 := by
    intro b
    cases b <;> decide
  by_cases hp' : (flag ((vi.index "batch").index "population_proof") "source_scope_defined" &&
      verified X t' "population_keys" (((vi.index "batch").index "population_proof").getStr "source_id")
        "population-proof" ((vi.index "batch").index "population_proof")) = true
  · rw [show coverageBasis X vi (nodeDims X vi t').basis (nodeObserved X vi t') t' = .sourceProvenPopulation from
      if_pos hp']
    exact htop _
  · -- no population proof under `t'`, so none under `t`
    have hp : ¬ (flag ((vi.index "batch").index "population_proof") "source_scope_defined" &&
        verified X t "population_keys" (((vi.index "batch").index "population_proof").getStr "source_id")
          "population-proof" ((vi.index "batch").index "population_proof")) = true := by
      intro hp
      simp only [Bool.and_eq_true] at hp hp'
      exact hp' ⟨hp.1, verified_mono hc hp.2⟩
    unfold coverageBasis
    dsimp only
    rw [if_neg hp, if_neg hp']
    split
    · rename_i hs
      simp only [fullScan, Bool.and_eq_true, beq_iff_eq] at hs
      have hb : (nodeDims X vi t').basis = .hardwareAttested := by
        rcases (nodeDims_mono hc).2.2 with h | h
        · rw [hs.2] at h; cases h
        · rw [← h, hs.2]
      rw [if_pos (by simp [fullScan, hs.1.1, nodeObserved_mono hc hs.1.2, hb])]
    · exact Nat.zero_le _

/-- Coverage is closed by a basis that is strong enough. A gap is found in the
input before any basis is asked for. -/
theorem coverage_rises {c c' : Coverage} {b b' : CoverageBasis} {nb nb' : NodeBasis} {o o' : Bool}
    (h : (c, b) = coverage X vi nb o t) (h' : (c', b') = coverage X vi nb' o' t')
    (hb : basisRank b ≤ basisRank b') : Rises .unknown .closed c c' := by
  unfold coverage at h h'
  dsimp only at h h'
  cases hg : gapped vi with
  | true =>
    rw [hg] at h h'
    cases h; cases h'
    exact .inl rfl
  | false =>
    rw [hg] at h h'
    cases h; cases h'
    generalize coverageBasis X vi nb o t = b at hb ⊢
    generalize coverageBasis X vi nb' o' t' = b' at hb ⊢
    unfold Rises
    cases b <;> cases b' <;> simp_all [basisRank]

theorem temporal_mono (hc : Contained t t') : temporalRank (temporal X vi t) ≤ temporalRank (temporal X vi t') := by
  have htop : ∀ b, temporalRank b ≤ 2 := by
    intro b
    cases b <;> decide
  unfold temporal
  cases obj vi "temporal" with
  | none => exact le_refl _
  | some tm =>
    dsimp only
    split
    · rename_i he
      simp only [Bool.and_eq_true] at he
      rw [if_pos (by simp only [he.1, verified_mono hc he.2, Bool.and_self])]
    · split
      · rename_i hb
        simp only [Bool.and_eq_true] at hb
        split
        · exact htop _
        · rw [if_pos (by simp only [verified_mono hc hb.1.1, verified_mono hc hb.1.2, hb.2, Bool.and_self])]
      · exact Nat.zero_le _

/-- A row of one surface: the favourable values may rise, the rest stays. -/
structure RowRises (r r' : SurfaceRow) : Prop where
  surfaceId : r.surfaceId = r'.surfaceId
  mechanism : r.mechanism = r'.mechanism
  controlDomain : Rises .unknown .independent r.controlDomain r'.controlDomain
  coverage : Rises .unknown .closed r.coverage r'.coverage

theorem surfaceRow_mono (hc : Contained t t') (e : Value) : RowRises (surfaceRow E e t) (surfaceRow E e t') := by
  have hg := @verified_mono E.toCrates t t' hc "evaluator_keys" (e.getStr "controlling_party") "surface-entry" e
  refine ⟨rfl, rfl, ?_, ?_⟩
  · unfold surfaceRow Rises
    dsimp only
    split
    · exact .inl rfl
    · cases hv : verified E.toCrates t "evaluator_keys" (e.getStr "controlling_party") "surface-entry" e with
      | true => rw [hg hv]; exact .inl rfl
      | false =>
        cases verified E.toCrates t' "evaluator_keys" (e.getStr "controlling_party") "surface-entry" e <;>
          cases flag e "controller_grounded_independent" <;> simp
  · unfold surfaceRow Rises
    dsimp only
    split
    · exact .inl rfl
    · cases hv : verified E.toCrates t "evaluator_keys" (e.getStr "controlling_party") "surface-entry" e with
      | true => rw [hg hv]; exact .inl rfl
      | false =>
        cases verified E.toCrates t' "evaluator_keys" (e.getStr "controlling_party") "surface-entry" e <;>
          cases flag e "coverage_closed" <;> simp

/-- The rows of the surfaces rise one by one; what is out of scope, and what is
breached, is read off the input. -/
theorem surfaces_mono (hc : Contained t t') {r r' : SurfaceSets} (h : surfaces E vi t = some r)
    (h' : surfaces E vi t' = some r') :
    List.Forall₂ RowRises r.rows r'.rows ∧ r.outOfScope = r'.outOfScope ∧ r.breaches = r'.breaches := by
  unfold surfaces at h h'
  split at h
  · rename_i hn
    rw [hn] at h'
    cases h; cases h'
    exact ⟨.nil, rfl, rfl⟩
  · rename_i sur hsur
    rw [hsur] at h'
    simp only [Option.bind_eq_bind, Option.bind_eq_some_iff] at h h'
    obtain ⟨entries, hentries, h⟩ := h
    obtain ⟨entries', hentries', h'⟩ := h'
    cases hentries.symm.trans hentries'
    split at h
    · cases h
    · rename_i hu
      rw [if_neg hu] at h'
      simp only [Option.bind_eq_some_iff, Option.pure_def, Option.some.injEq] at h h'
      obtain ⟨activity, hact, rfl⟩ := h
      obtain ⟨activity', hact', rfl⟩ := h'
      cases hact.symm.trans hact'
      refine ⟨?_, rfl, rfl⟩
      rw [List.forall₂_map_left_iff, List.forall₂_map_right_iff]
      exact List.forall₂_same.mpr fun e _ => surfaceRow_mono hc e

theorem bindingBasis_mono (hc : Contained t t') (b : Value) :
    bindingBasis E t b = none ∨ bindingBasis E t' b = bindingBasis E t b := by
  cases hb : bindingBasis E t b with
  | none => exact .inl rfl
  | some basis =>
    right
    simp only [bindingBasis, Option.bind_eq_bind, Option.bind_eq_some_iff] at hb ⊢
    obtain ⟨k, hk, hb⟩ := hb
    refine ⟨k, hk, ?_⟩
    split at hb
    · cases hb
    · rename_i hs
      split at hb
      · cases hb
      · rename_i hv
        simp only [Bool.not_eq_true', Bool.not_eq_false] at hv
        rw [if_neg hs, verified_mono hc hv]
        exact hb

theorem strongerBasis_mono {best best' : AccountabilityBasis} (h : best.rank ≤ best'.rank)
    {b b' : Option AccountabilityBasis} (hb : b = none ∨ b' = b) :
    (strongerBasis best b).rank ≤ (strongerBasis best' b').rank := by
  have hgrow : ∀ (best : AccountabilityBasis) (b : Option AccountabilityBasis),
      best.rank ≤ (strongerBasis best b).rank := by
    intro best b
    unfold strongerBasis
    split
    · exact le_refl _
    · split <;> omega
  rcases hb with rfl | rfl
  · exact h.trans (hgrow best' b')
  · cases b' with
    | none => exact h
    | some b =>
      simp only [strongerBasis]
      split <;> split <;> omega

/-- The best basis among the bindings, folded from the weakest. -/
theorem accountability_mono (hc : Contained t t') {a a' : AccountabilityBasis} (h : accountability E vi t = some a)
    (h' : accountability E vi t' = some a') : a.rank ≤ a'.rank := by
  simp only [accountability, Option.bind_eq_bind, Option.bind_eq_some_iff, Option.pure_def, Option.some.injEq] at h h'
  obtain ⟨bindings, hb, rfl⟩ := h
  obtain ⟨bindings', hb', rfl⟩ := h'
  cases hb.symm.trans hb'
  -- both folds run over the same bindings
  have hfold : ∀ (bs : List Value) (best best' : AccountabilityBasis), best.rank ≤ best'.rank →
      ((bs.map (bindingBasis E t)).foldl strongerBasis best).rank ≤
        ((bs.map (bindingBasis E t')).foldl strongerBasis best').rank := by
    intro bs
    induction bs with
    | nil => intro best best' hle; exact hle
    | cons b bs ih =>
      intro best best' hle
      exact ih _ _ (strongerBasis_mono hle (bindingBasis_mono hc b))
  exact hfold _ _ _ (le_refl _)

theorem assurance_mono {o o' : Bool} (ho : o = true → o' = true) :
    Rises .deterministic .direct (assurance vi o) (assurance vi o') := by
  cases o with
  | true => rw [ho rfl]; exact .inl rfl
  | false =>
    cases o' with
    | false => exact .inl rfl
    | true =>
      unfold assurance Rises
      dsimp only
      split
      · exact .inl rfl
      · split
        · exact .inl rfl
        · split
          · split
            · exact .inl rfl
            · exact .inr ⟨rfl, rfl⟩
          · exact .inl rfl

theorem population_mono (hc : Contained t t') :
    Rises (some .indeterminate) (some .proven) (population X vi t) (population X vi t') := by
  unfold population
  cases obj vi "population_index" with
  | none => exact .inl rfl
  | some pi =>
    simp only [Option.map_some]
    split
    · rename_i h
      simp only [Bool.and_eq_true] at h
      left
      rw [if_pos (by simp only [h.1.1, h.1.2, verified_mono hc h.2, Bool.and_self])]
    · split
      · exact .inr ⟨rfl, rfl⟩
      · exact .inl rfl

theorem registrationStatus_mono (hc : Contained t t') :
    registrationStatus X vi t = registrationStatus X vi t' ∨ registrationStatus X vi t' = .registered := by
  unfold registrationStatus
  dsimp only
  split
  · rename_i h
    simp only [Bool.and_eq_true] at h
    left
    rw [if_pos (by simp only [h.1.1.1.1, h.1.1.1.2, h.1.1.2, h.1.2, verified_mono hc h.2, Bool.and_self])]
  · split_ifs <;> simp

end Dimensions

/-! ## The vector -/

/-- The vector `v'` is at least as strong as `v`, dimension by dimension, each
on its own scale, and hides nothing adverse. -/
structure AtLeast (v v' : VerdictVector) : Prop where
  sourceSignature : signatureRank v.sourceSignature ≤ signatureRank v'.sourceSignature
  signatureWithheld : v.sourceSignature = .notRecomputed ↔ v'.sourceSignature = .notRecomputed
  controlDomain : Rises .unknown .independent v.controlDomain v'.controlDomain
  observation : Rises .notObserved .observed v.node.observation v'.node.observation
  client : Rises .none .attested v.node.client v'.node.client
  basis : v.node.basis = .logWitnessedSoftware ∨ v.node.basis = v'.node.basis
  coverage : Rises .unknown .closed v.coverage v'.coverage
  coverageBasis : basisRank v.coverageBasis ≤ basisRank v'.coverageBasis
  temporalBinding : temporalRank v.temporalBinding ≤ temporalRank v'.temporalBinding
  surfaces : List.Forall₂ RowRises v.surfaces.rows v'.surfaces.rows
  accountability : v.accountabilityBasis.rank ≤ v'.accountabilityBasis.rank
  assurance : Rises .deterministic .direct v.assuranceLinkage v'.assuranceLinkage
  population : Rises (some .indeterminate) (some .proven) v.populationStatus v'.populationStatus
  registration : v.registrationStatus = v'.registrationStatus ∨ v'.registrationStatus = .registered
  eligibility : Rises .ineligible .eligible v.technicalEligibility v'.technicalEligibility
  markWithheld : v.mark = .notRecomputed ↔ v'.mark = .notRecomputed
  block : v.block = v'.block
  linkage : v.linkage = v'.linkage
  outcome : v.outcome = v'.outcome
  scopeRelation : v.scopeRelation = v'.scopeRelation
  historyState : v.historyState = v'.historyState
  authorityProof : v.authorityProof = v'.authorityProof
  outOfScope : v.surfaces.outOfScope = v'.surfaces.outOfScope
  breaches : v.surfaces.breaches = v'.surfaces.breaches
  subjectIds : v.subjectIds = v'.subjectIds

/-- A value that is neither the weak nor the strong one is on both sides or on
neither; so are the adverse values and the withheld ones. -/
theorem Rises.iff_of_ne {α : Type} {weak strong a b x : α} (h : Rises weak strong a b) (hw : x ≠ weak)
    (hs : x ≠ strong) : a = x ↔ b = x := by
  rcases h with rfl | ⟨rfl, rfl⟩
  · exact Iff.rfl
  · exact ⟨fun h => absurd h.symm hw, fun h => absurd h.symm hs⟩

/-- Eligibility reads dimensions that only rise, and asks of each for a value
from some strength on. -/
theorem eligible_mono {vi : Value} {d d' : Dims} (hb : d.block = d'.block) (ho : d.outcome = d'.outcome)
    (hl : d.linkage = d'.linkage) (hcov : Rises .unknown .closed d.coverage d'.coverage)
    (hbasis : basisRank d.coverageBasis ≤ basisRank d'.coverageBasis)
    (htemp : temporalRank d.temporalBinding ≤ temporalRank d'.temporalBinding)
    (h : eligible vi d = true) : eligible vi d' = true := by
  simp only [eligible, Bool.and_eq_true, beq_iff_eq, bne_iff_ne] at h ⊢
  obtain ⟨⟨⟨⟨⟨⟨⟨h1, hclosed⟩, h3⟩, h4⟩, hins⟩, h5⟩, hunp⟩, h6⟩ := h
  refine ⟨⟨⟨⟨⟨⟨⟨?_, ?_⟩, ?_⟩, ?_⟩, ?_⟩, h5⟩, ?_⟩, h6⟩
  · rwa [← hb, ← ho]
  · rcases hcov with h | h
    · rw [← h, hclosed]
    · exact h.2
  · rwa [← hb]
  · rwa [← hl]
  · intro h0
    rw [h0] at hbasis
    cases hv : d.coverageBasis <;> rw [hv] at hbasis hins <;> simp_all [basisRank]
  · intro h0
    rw [h0] at htemp
    cases hv : d.temporalBinding <;> rw [hv] at htemp hunp <;> simp_all [temporalRank]

theorem eligibility_mono {E : Engine} {vi : Value} {d d' : Dims} {e e' : Eligibility}
    (hm : eligible vi d = true → eligible vi d' = true) (h : eligibility E vi d = some e)
    (h' : eligibility E vi d' = some e') : Rises .ineligible .eligible e e' := by
  simp only [eligibility, Option.map_eq_some_iff] at h h'
  obtain ⟨ws, hw, rfl⟩ := h
  obtain ⟨ws', hw', rfl⟩ := h'
  cases hw.symm.trans hw'
  split
  · exact .inl rfl
  · cases he : eligible vi d with
    | true => rw [hm he]; exact .inl rfl
    | false => cases eligible vi d' <;> simp [Rises]

/-- Two derivations of one input, dimension by dimension. -/
theorem derived_mono {E : Engine} {vi : Value} {t t' : Option Value} (hc : Contained t t') {v v' : VerdictVector}
    (h : Derived E vi t v) (h' : Derived E vi t' v') : AtLeast v v' := by
  have hnode := @nodeDims_mono E.toCrates vi t t' hc
  have hlo : (v.linkage, v.outcome) = (v'.linkage, v'.outcome) := by
    have := h.linkage.symm.trans h'.linkage
    exact Option.some.inj this
  have hblock : v.block = v'.block := h.block.trans h'.block.symm
  have hsig := sourceSignature_mono hc h.sourceSignature h'.sourceSignature
  have hsur := surfaces_mono hc h.surfaces h'.surfaces
  have hbasis : basisRank v.coverageBasis ≤ basisRank v'.coverageBasis := by
    have e : ∀ {t : Option Value} {v : VerdictVector}, Derived E vi t v →
        v.coverageBasis = coverageBasis E.toCrates vi (nodeDims E.toCrates vi t).basis (nodeObserved E.toCrates vi t) t := by
      intro t v h
      have hb := congrArg Prod.snd h.coverage
      rw [h.node, nodeDims_observation] at hb
      unfold coverage at hb
      dsimp only at hb
      split at hb <;> exact hb
    rw [e h, e h']
    exact coverageBasis_mono hc
  have hcov := coverage_rises h.coverage h'.coverage hbasis
  have htemp : temporalRank v.temporalBinding ≤ temporalRank v'.temporalBinding := by
    rw [h.temporal, h'.temporal]
    exact temporal_mono hc
  have helig : Rises .ineligible .eligible v.technicalEligibility v'.technicalEligibility :=
    eligibility_mono (eligible_mono hblock (congrArg Prod.snd hlo) (congrArg Prod.fst hlo) hcov hbasis htemp)
      h.eligibility h'.eligibility
  constructor
  case sourceSignature => exact hsig.1
  case signatureWithheld => exact hsig.2
  case controlDomain => exact controlDomain_mono hc h.controlDomain h'.controlDomain
  case observation => rw [h.node, h'.node]; exact hnode.1
  case client => rw [h.node, h'.node]; exact hnode.2.1
  case basis => rw [h.node, h'.node]; exact hnode.2.2
  case coverage => exact hcov
  case coverageBasis => exact hbasis
  case temporalBinding => exact htemp
  case surfaces => exact hsur.1
  case accountability => exact accountability_mono hc h.accountability h'.accountability
  case assurance =>
    rw [h.assurance, h'.assurance, h.node, h'.node, nodeDims_observation, nodeDims_observation]
    exact assurance_mono (nodeObserved_mono hc)
  case population => rw [h.population, h'.population]; exact population_mono hc
  case registration => rw [h.registration, h'.registration]; exact registrationStatus_mono hc
  case eligibility => exact helig
  case markWithheld =>
    rw [h.mark, h'.mark, mark_notRecomputed, mark_notRecomputed]
    exact helig.iff_of_ne nofun nofun
  case block => exact hblock
  case linkage => exact congrArg Prod.fst hlo
  case outcome => exact congrArg Prod.snd hlo
  case scopeRelation => exact Option.some.inj (h.scope.symm.trans h'.scope)
  case historyState => exact Option.some.inj (h.history.symm.trans h'.history)
  case authorityProof => exact h.proof.trans h'.proof.symm
  case outOfScope => exact hsur.2.1
  case breaches => exact hsur.2.2
  case subjectIds => exact h.subjectIds.trans h'.subjectIds.symm

theorem AtLeast.refl (v : VerdictVector) : AtLeast v v := by
  have hrow : List.Forall₂ RowRises v.surfaces.rows v.surfaces.rows :=
    List.forall₂_same.mpr fun _ _ => ⟨rfl, rfl, .inl rfl, .inl rfl⟩
  constructor <;> first | exact hrow | exact le_refl _ | exact Iff.rfl | exact .inl rfl | exact .inr rfl | rfl

/-- The adverse values, and what a view withholds, are the same under both
contexts; and so is whether the derivation raises. -/
structure SameAdverse (E : Engine) (vi : Value) (t t' : Option Value) (v v' : VerdictVector) : Prop where
  overlapping : v.controlDomain = .overlapping ↔ v'.controlDomain = .overlapping
  gapped : v.coverage = .gapped ↔ v'.coverage = .gapped
  ambiguous : v.assuranceLinkage = .ambiguous ↔ v'.assuranceLinkage = .ambiguous
  notRecomputed : v.technicalEligibility = .notRecomputed ↔ v'.technicalEligibility = .notRecomputed
  raises : deriveInner E vi t = none ↔ deriveInner E vi t' = none

/-- More trust never weakens a verdict and never hides an adverse one. Where the
derivation raises, both vectors are the weak one. -/
theorem more_trust (E : Engine) (vi : Value) {t t' : Option Value} (hc : Contained t t') :
    AtLeast (deriveVectorWithTrust E vi t) (deriveVectorWithTrust E vi t') ∧
      SameAdverse E vi t t' (deriveVectorWithTrust E vi t) (deriveVectorWithTrust E vi t') := by
  have hsome : (deriveInner E vi t).isSome = (deriveInner E vi t').isSome :=
    (deriveInner_isSome E vi t).trans (deriveInner_isSome E vi t').symm
  have hraise : deriveInner E vi t = none ↔ deriveInner E vi t' = none := by
    rw [← Option.isNone_iff_eq_none, ← Option.isNone_iff_eq_none, ← Option.not_isSome, ← Option.not_isSome, hsome]
  have hat : AtLeast (deriveVectorWithTrust E vi t) (deriveVectorWithTrust E vi t') := by
    rcases deriveVector_derived E vi t with h | ⟨hn, h⟩
    · rcases deriveVector_derived E vi t' with h' | ⟨hn', h'⟩
      · exact derived_mono hc h h'
      · have hn := hraise.mpr hn'
        unfold deriveVectorWithTrust
        rw [hn, hn']
        exact AtLeast.refl _
    · have hn' := hraise.mp hn
      unfold deriveVectorWithTrust
      rw [hn, hn']
      exact AtLeast.refl _
  exact ⟨hat, hat.controlDomain.iff_of_ne nofun nofun, hat.coverage.iff_of_ne nofun nofun,
    hat.assurance.iff_of_ne nofun nofun, hat.eligibility.iff_of_ne nofun nofun, hraise⟩

/-! A registry signs a population index with the first test key. -/

def registryIndex : List (String × Value) :=
  [("checkpoint_ref", .string "cp"), ("consistency_proof_ref", .string "cf"), ("count", .number (.posInt 1)),
    ("dense_seq_range", .array [.number (.posInt 1), .number (.posInt 1)]), ("query_descriptor", .object []),
    ("result_root", .string "rr"), ("source_id", .string "registry"), ("tree_size", .number (.posInt 4))]

def registrySig : Bytes :=
  Sha256.bytesBE 64 0x61556cdf72d28d60578b2811f63a4ea11f9c3ecd62701c0550bcb273e1f76d126032156471b2bd563e02120212635c68ed6c0c676aec6c291624ffd99e749e06

def registryInput : Value :=
  .object [("population_index", .object (setMember registryIndex "signature" (.string (hex registrySig))))]

def registryEngine : Engine :=
  referenceEngine (L1.Reference.reference []
    [⟨L3.Published.genesis, utf8 "evd/v1/population-index" ++ 0 :: L1.Reference.text (.object registryIndex),
      registrySig⟩] [])

def registryTrust : Option Value :=
  some (.object [("population_keys", .object [("registry", .string (hex L3.Published.genesis.val))])])

theorem none_contained (t : Option Value) : Contained none t := by
  intro category _ name v h
  cases h

/-- Naming the registry's key proves the population it signed. -/
theorem more_trust_registry :
    (deriveVectorWithTrust registryEngine registryInput none).populationStatus = some .indeterminate ∧
      (deriveVectorWithTrust registryEngine registryInput registryTrust).populationStatus = some .proven ∧
      AtLeast (deriveVectorWithTrust registryEngine registryInput none)
        (deriveVectorWithTrust registryEngine registryInput registryTrust) := by
  refine ⟨by decide +kernel, by decide +kernel, ?_⟩
  exact (more_trust registryEngine registryInput (none_contained registryTrust)).1

end SwarrmVerify.L5.MoreTrust
