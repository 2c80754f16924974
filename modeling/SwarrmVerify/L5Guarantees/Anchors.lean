import SwarrmVerify.L4Action.Verdict

/-!
# Favourable verdicts are anchored (`action.rs`, `trust.rs`)

No value that helps the subject comes from a declaration alone. The verdict
input may call its source independent, its coverage closed or its node
attested; what reaches the vector is what a signature stands for, under a key
that the relying party's trust context names.

`NamedKey` says that the context has this key material under a category and a
name. `SignedUnder` says that the named field of a document names such a key,
and that the key signed the document under the domain of its kind. `Anchored`
collects, for every favourable value of a vector, the signature it stands for:
which document, which field, which category, which domain.

Nothing is assumed of the input or of the context. A verdict without a trust
context has no favourable value, since then no key is named.

**Results.**
* `sourceSignature_backed`: the loop over the source proofs reports what one of
  them backs, a key of a source or a shared secret.
* `controlDomain_independent`, `nodeDims_observed`, `nodeDims_attested`,
  `coverage_closed`, `surfaceRow_grounded`, `temporal_signed`,
  `accountability_signed`, `assurance_direct`, `population_proven`,
  `registrationStatus_registered`: one lemma for each dimension.
* `favourable_anchored`: every vector is anchored, for every input and every
  trust context, also when the derivation raises.
-/
namespace SwarrmVerify.L5.Anchors
open SwarrmVerify.L3.Receipt SwarrmVerify.L4.Trust SwarrmVerify.L4.Action

/-! ## Named keys -/

/-- The trust context names this key material: under the category, in its table,
by the name. Without a context there is none. -/
def NamedKey (X : Crates) (trust : Option Value) (category name : String) (raw : Bytes) : Prop :=
  ∃ t table material, trust = some t ∧ t.get category = some (.object table) ∧
    table.lookup name = some material ∧ decodeMaterial X (some material) = some raw

theorem keyFor_named {X : Crates} {trust : Option Value} {category : String} {name : Option String} {raw : Bytes}
    (h : keyFor X trust category name = some raw) : ∃ n, name = some n ∧ NamedKey X trust category n raw := by
  unfold keyFor at h
  split at h
  · cases h
  · simp only [Option.bind_eq_bind, Option.bind_eq_some_iff] at h
    obtain ⟨t, ht, table, htable, m, hm, n, hn, hraw⟩ := h
    cases Value.asObject_eq_some hm
    cases hlk : m.lookup n with
    | none => rw [hlk] at hraw; simp [decodeMaterial] at hraw
    | some material => exact ⟨n, hn, t, m, material, ht, htable, hlk, by rwa [hlk] at hraw⟩

/-- A key of the category, named by `field`, signed the document under the
domain. Which key it is, the document says; that it counts, the context does. -/
def SignedUnder (X : Crates) (trust : Option Value) (category field domain : String) (payload : Value) : Prop :=
  ∃ (name : String) (key : Digest) (sig msg : Bytes), payload.getStr field = some name ∧
    NamedKey X trust category name key.val ∧ signedProof X payload domain = some (sig, msg) ∧
    ed25519Verify X key msg sig = true

theorem signedUnder_of_verified {X : Crates} {trust : Option Value} {category field domain : String} {payload : Value}
    (h : verified X trust category (payload.getStr field) domain payload = true) :
    SignedUnder X trust category field domain payload := by
  unfold verified at h
  split at h
  · rename_i key sig msg hkey hproof
    obtain ⟨raw, hraw, hdig⟩ := Option.bind_eq_some_iff.mp hkey
    obtain ⟨name, hname, hnamed⟩ := keyFor_named hraw
    exact ⟨name, key, sig, msg, hname, by rwa [toDigest_val hdig], hproof, h⟩
  · cases h

/-- A carried proof verifies under a source key: as a signed document, or as
a disclosed delivery. -/
def SourceSigned (E : Engine) (trust : Option Value) (p : Value) : Prop :=
  SignedUnder E.toCrates trust "source_keys" "key_identity" "source-proof" p ∨
    ∃ (name signature : String) (message sig : Bytes) (key : Digest), p.getStr "key_identity" = some name ∧
      sourceWebhookStatement E (some name) p = some (signature, message) ∧
      NamedKey E.toCrates trust "source_keys" name key.val ∧ decodeB64 E.toCrates signature = some sig ∧
      ed25519Verify E.toCrates key message sig = true

/-- A carried proof has the code of a shared secret: over the document, or
over a disclosed delivery. -/
def SourceMac (E : Engine) (trust : Option Value) (p : Value) : Prop :=
  ∃ (name : String) (secret mac msg : Bytes), p.getStr "key_identity" = some name ∧
    NamedKey E.toCrates trust "mac_keys" name secret ∧ ctEq (hmacSha256 E.toCrates secret msg).val mac = true ∧
    (signedProof E.toCrates p "source-proof" = some (mac, msg) ∨
      ∃ signature, sourceWebhookStatement E (some name) p = some (signature, msg) ∧ hexToBytes signature = some mac)

/-! ## Source proofs -/

section Proofs

variable {E : Engine} {trust : Option Value} {p : Value}

theorem macVerified_mac (h : macVerified E.toCrates trust (p.getStr "key_identity") "source-proof" p = true) :
    SourceMac E trust p := by
  unfold macVerified at h
  split at h
  · rename_i secret mac msg hkey hproof
    obtain ⟨name, hname, hnamed⟩ := keyFor_named hkey
    exact ⟨name, secret, mac, msg, hname, hnamed, h, .inl hproof⟩
  · cases h

theorem webhook_signed {name : Option String} {signature : String} {message : Bytes}
    (hname : p.getStr "key_identity" = name)
    (hst : sourceWebhookStatement E name p = some (signature, message))
    (h : sourceWebhookEd25519 E.toCrates trust name signature message = true) : SourceSigned E trust p := by
  unfold sourceWebhookEd25519 at h
  split at h
  · rename_i key sig hkey hsig
    obtain ⟨raw, hraw, hdig⟩ := Option.bind_eq_some_iff.mp hkey
    obtain ⟨n, rfl, hnamed⟩ := keyFor_named hraw
    exact .inr ⟨n, signature, message, sig, key, hname, hst, by rwa [toDigest_val hdig], hsig, h⟩
  · cases h

theorem webhook_mac {name : Option String} {signature : String} {message : Bytes}
    (hname : p.getStr "key_identity" = name)
    (hst : sourceWebhookStatement E name p = some (signature, message))
    (h : sourceWebhookMac E.toCrates trust name signature message = true) : SourceMac E trust p := by
  unfold sourceWebhookMac at h
  split at h
  · rename_i secret mac hkey hmac
    simp only [Bool.and_eq_true] at h
    obtain ⟨n, rfl, hnamed⟩ := keyFor_named hkey
    exact ⟨n, secret, mac, message, hname, hnamed, h.2, .inr ⟨signature, hst, hmac⟩⟩
  · cases h

/-- What a delivery that verifies is: its body is signed, or it has the code of
a shared secret, by the scheme of its family. -/
theorem sourceWebhookVerified_cases {name family : Option String} (hname : p.getStr "key_identity" = name)
    (h : sourceWebhookVerified E trust name family p = true) :
    p.getStr "proof_type" = some "asymmetric_signature" ∧ SourceSigned E trust p ∨
      p.getStr "proof_type" = some "mac" ∧ SourceMac E trust p := by
  unfold sourceWebhookVerified at h
  split at h
  · cases h
  · rename_i signature message hst
    split at h
    · rename_i hc
      simp only [Bool.and_eq_true, beq_iff_eq] at hc
      exact .inl ⟨hc.1, webhook_signed hname hst h⟩
    · split at h
      · rename_i hc
        simp only [Bool.and_eq_true, beq_iff_eq] at hc
        exact .inr ⟨hc.1, webhook_mac hname hst h⟩
      · cases h

/-- The kind of a proof is backed by a key of its category: a signature for the
asymmetric kind, a code for the shared one. -/
def Backed (E : Engine) (trust : Option Value) (p : Value) : ProofKind → Prop
  | .nothing => True
  | .mac => SourceMac E trust p
  | .asymmetric => SourceSigned E trust p

theorem fullSourceProofKind_backed (key : Option Value) :
    Backed E trust p (fullSourceProofKind E p key (p.getStr "key_identity") trust) := by
  unfold fullSourceProofKind
  dsimp only
  split
  · trivial
  · rename_i hv
    simp only [Bool.or_eq_true, Bool.not_eq_true', not_or, Bool.not_eq_false] at hv
    have hcases := sourceWebhookVerified_cases rfl hv.2
    split
    · rename_i ha
      rcases hcases with h | h
      · exact h.2
      · rw [h.1] at ha; simp at ha
    · rename_i ha
      rcases hcases with h | h
      · rw [h.1] at ha; simp at ha
      · exact h.2

theorem legacySourceProofKind_backed (key : Option Value) :
    Backed E trust p (legacySourceProofKind E.toCrates p key (p.getStr "key_identity") trust) := by
  unfold legacySourceProofKind
  split
  · rename_i h
    simp only [Bool.and_eq_true] at h
    exact .inl (signedUnder_of_verified h.2)
  · split
    · rename_i h
      simp only [Bool.and_eq_true] at h
      exact macVerified_mac h.2
    · trivial

theorem sourceProofKind_backed (keys : List Value) : Backed E trust p (sourceProofKind E p keys trust) := by
  unfold sourceProofKind
  split
  · trivial
  · dsimp only
    split
    · exact fullSourceProofKind_backed _
    · exact legacySourceProofKind_backed _

/-- The loop over the proofs reports what one of them backs. By induction on the
proofs, with what the loop has seen so far. -/
theorem signatureLoop_backed (keys : List Value) : ∀ (ps : List Value) (hasMac : Bool),
    (signatureLoop E keys trust ps hasMac = .asymmetric → ∃ q ∈ ps, SourceSigned E trust q) ∧
      (signatureLoop E keys trust ps hasMac = .sharedSecret → hasMac = true ∨ ∃ q ∈ ps, SourceMac E trust q)
  | [], hasMac => by cases hasMac <;> simp [signatureLoop]
  | q :: ps, hasMac => by
    have hb : Backed E trust q (sourceProofKind E q keys trust) := sourceProofKind_backed keys
    unfold signatureLoop
    split
    · rename_i hk
      rw [hk] at hb
      refine ⟨fun _ => ⟨q, List.mem_cons_self, hb⟩, fun hkind => ?_⟩
      cases hkind
    · rename_i hk
      rw [hk] at hb
      obtain ⟨ih, _⟩ := signatureLoop_backed keys ps true
      refine ⟨fun h => ?_, fun _ => .inr ⟨q, List.mem_cons_self, hb⟩⟩
      obtain ⟨r, hr, hs⟩ := ih h
      exact ⟨r, List.mem_cons_of_mem _ hr, hs⟩
    · obtain ⟨ih, ih'⟩ := signatureLoop_backed keys ps hasMac
      refine ⟨fun h => ?_, fun h => ?_⟩
      · obtain ⟨r, hr, hs⟩ := ih h
        exact ⟨r, List.mem_cons_of_mem _ hr, hs⟩
      · refine (ih' h).imp_right fun hex => ?_
        obtain ⟨r, hr, hs⟩ := hex
        exact ⟨r, List.mem_cons_of_mem _ hr, hs⟩

end Proofs

/-! ## The other dimensions -/

section Dimensions

variable {E : Engine} {vi : Value} {trust : Option Value}

theorem sourceSignature_backed {s : SourceSignature} (h : sourceSignature E vi trust = some s) :
    (s = .asymmetric → ∃ p ∈ arr vi "source_proofs", SourceSigned E trust p) ∧
      (s = .sharedSecret → ∃ p ∈ arr vi "source_proofs", SourceMac E trust p) := by
  simp only [sourceSignature, Option.bind_eq_bind, Option.bind_eq_some_iff] at h
  obtain ⟨w, -, h⟩ := h
  cases w with
  | true =>
    cases h
    constructor <;> intro hkind <;> cases hkind
  | false =>
    simp only [Bool.false_eq_true, if_false, Option.bind_eq_some_iff] at h
    obtain ⟨keys, -, h⟩ := h
    split at h
    · cases h
      constructor <;> intro hkind <;> cases hkind
    · rename_i proofs hp
      have hproofs : proofs = [] ∨ proofs = arr vi "source_proofs" := by
        unfold boundedSourceProofs at hp
        split at hp
        · cases hp; exact .inl rfl
        · rename_i value hvalue
          simp only [Option.bind_eq_bind, Option.bind_eq_some_iff] at hp
          obtain ⟨xs, hxs, hp⟩ := hp
          split at hp
          · cases hp
          · simp only [Option.bind_eq_some_iff, Option.pure_def, Option.some.injEq] at hp
            obtain ⟨_, _, rfl⟩ := hp
            exact .inr (by simp [arr, Value.getArray, hvalue, hxs])
      have hloop := @signatureLoop_backed E trust keys proofs false
      cases h
      rcases hproofs with rfl | rfl
      · constructor <;> intro hkind <;> cases hkind
      · exact ⟨hloop.1, fun h => (hloop.2 h).resolve_left Bool.false_ne_true⟩

theorem controlDomain_independent (h : controlDomain E.toCrates vi trust = some .independent) :
    SignedUnder E.toCrates trust "evaluator_keys" "evaluator" "control-evidence" (vi.index "control_evidence") := by
  simp only [controlDomain, Option.bind_eq_bind, Option.bind_eq_some_iff, Option.pure_def, Option.some.injEq] at h
  obtain ⟨decls, -, h⟩ := h
  split at h
  · cases h
  · split at h
    · rename_i hc
      simp only [Bool.and_eq_true] at hc
      exact signedUnder_of_verified hc.2
    · cases h

theorem nodeObserved_signed (h : nodeObserved E.toCrates vi trust = true) :
    SignedUnder E.toCrates trust "node_keys" "node_id" "node-scan" (vi.index "scan") := by
  simp only [nodeObserved, Bool.and_eq_true] at h
  exact signedUnder_of_verified h.2

theorem nodeDims_observed : ((nodeDims E.toCrates vi trust).observation == .observed) = nodeObserved E.toCrates vi trust := by
  unfold nodeDims
  cases nodeObserved E.toCrates vi trust <;> rfl

theorem nodeDims_attested (h : (nodeDims E.toCrates vi trust).client = .attested) :
    nodeObserved E.toCrates vi trust = true := by
  by_contra hn
  simp [nodeDims, hn] at h

/-- A basis above software is an attestation signed under a node root, by its
own method. -/
theorem nodeDims_basis (h : (nodeDims E.toCrates vi trust).basis ≠ .logWitnessedSoftware) :
    SignedUnder E.toCrates trust "node_roots" "attestor" "node-attestation" (vi.index "node_attestation") ∧
      ((nodeDims E.toCrates vi trust).basis = .hardwareAttested →
        (vi.index "node_attestation").getStr "method" = some "HARDWARE_ATTESTED") := by
  unfold nodeDims at h ⊢
  dsimp only at h ⊢
  split at h
  · exact absurd rfl h
  · rename_i ha
    simp only [attestationOk, Bool.not_eq_true', Bool.not_eq_false, Bool.and_eq_true] at ha
    refine ⟨signedUnder_of_verified ha.1.1.1.1, fun hb => ?_⟩
    split at hb
    · cases hb
    · split at hb
      · rename_i hm
        exact beq_iff_eq.mp hm
      · split at hb <;> cases hb

/-- What a coverage basis stands for. -/
def CoverageSigned (X : Crates) (vi : Value) (trust : Option Value) : Prop :=
  SignedUnder X trust "population_keys" "source_id" "population-proof" ((vi.index "batch").index "population_proof") ∨
    SignedUnder X trust "node_keys" "node_id" "node-scan" (vi.index "scan") ∧
      SignedUnder X trust "node_roots" "attestor" "node-attestation" (vi.index "node_attestation") ∧
      (vi.index "node_attestation").getStr "method" = some "HARDWARE_ATTESTED"

/-- What a basis of coverage above the weakest stands for is signed, under the
category of that basis. -/
theorem coverageBasis_signed
    (h : coverageBasis E.toCrates vi (nodeDims E.toCrates vi trust).basis (nodeObserved E.toCrates vi trust) trust ≠
      .insufficient) : CoverageSigned E.toCrates vi trust := by
  unfold coverageBasis at h
  dsimp only at h
  split at h
  · rename_i hp
    simp only [Bool.and_eq_true] at hp
    exact .inl (signedUnder_of_verified hp.2)
  · split at h
    · rename_i hs
      simp only [fullScan, Bool.and_eq_true, beq_iff_eq] at hs
      have hbasis : (nodeDims E.toCrates vi trust).basis ≠ .logWitnessedSoftware := by
        rw [hs.2]
        decide
      have hb := @nodeDims_basis E vi trust hbasis
      exact .inr ⟨nodeObserved_signed hs.1.2, hb.1, hb.2 hs.2⟩
    · exact absurd rfl h

theorem coverage_closed {nodeBasis : NodeBasis} {observed : Bool} {c : Coverage} {b : CoverageBasis}
    (h : (c, b) = coverage E.toCrates vi nodeBasis observed trust) :
    b = coverageBasis E.toCrates vi nodeBasis observed trust ∧ (c = .closed → b ≠ .insufficient) := by
  unfold coverage at h
  dsimp only at h
  split at h
  · cases h; exact ⟨rfl, nofun⟩
  · cases h
    refine ⟨rfl, fun hc hb => ?_⟩
    rw [hb] at hc
    cases hc

/-- A row that is independent or closed is an entry that its controlling party
signed. -/
theorem surfaceRow_grounded {e : Value}
    (h : (surfaceRow E e trust).controlDomain = .independent ∨ (surfaceRow E e trust).coverage = .closed) :
    SignedUnder E.toCrates trust "evaluator_keys" "controlling_party" "surface-entry" e := by
  by_contra hn
  have hv : verified E.toCrates trust "evaluator_keys" (e.getStr "controlling_party") "surface-entry" e = false := by
    by_contra hv
    exact hn (signedUnder_of_verified (by simpa using hv))
  rcases h with h | h
  · simp only [surfaceRow, hv, Bool.false_and, Bool.false_eq_true, if_false] at h
    split at h <;> cases h
  · simp only [surfaceRow, hv, Bool.false_and, Bool.false_eq_true, if_false] at h
    split at h <;> cases h

/-- The rows are those of the manifest's entries. -/
theorem surfaces_rows {sets : SurfaceSets} (h : surfaces E vi trust = some sets) {row : SurfaceRow}
    (hr : row ∈ sets.rows) :
    ∃ entries e, iterMember ((vi.index "surfaces").index "manifest") "entries" = some entries ∧ e ∈ entries ∧
      row = surfaceRow E e trust := by
  unfold surfaces at h
  split at h
  · cases h; cases hr
  · rename_i sur hsur
    simp only [Option.bind_eq_bind, Option.bind_eq_some_iff] at h
    obtain ⟨entries, hentries, h⟩ := h
    split at h
    · cases h
    · simp only [Option.bind_eq_some_iff, Option.pure_def, Option.some.injEq] at h
      obtain ⟨activity, _, rfl⟩ := h
      obtain ⟨e, he, rfl⟩ := List.mem_map.mp hr
      exact ⟨entries, e, by rw [index_of_obj hsur]; exact hentries, (List.mem_filter.mp he).1, rfl⟩

theorem temporal_signed :
    (temporal E.toCrates vi trust = .provenSourceEcho →
      SignedUnder E.toCrates trust "source_keys" "source_id" "temporal-echo" ((vi.index "temporal").index "echo")) ∧
    (temporal E.toCrates vi trust = .provenIndependent →
      SignedUnder E.toCrates trust "temporal_keys" "attester" "temporal-bounds"
        ((vi.index "temporal").index "intent_bounds") ∧
      SignedUnder E.toCrates trust "temporal_keys" "attester" "temporal-bounds"
        ((vi.index "temporal").index "event_bounds")) := by
  unfold temporal
  split
  · constructor <;> intro h <;> cases h
  · rename_i t ht
    rw [index_of_obj ht]
    dsimp only
    split
    · rename_i h
      simp only [Bool.and_eq_true] at h
      refine ⟨fun _ => signedUnder_of_verified h.2, fun hkind => ?_⟩
      cases hkind
    · split
      · rename_i h
        simp only [Bool.and_eq_true] at h
        refine ⟨fun hkind => ?_, fun _ => ⟨signedUnder_of_verified h.1.1, signedUnder_of_verified h.1.2⟩⟩
        cases hkind
      · constructor <;> intro h <;> cases h

theorem bindingBasis_signed {b : Value} {basis : AccountabilityBasis} (h : bindingBasis E trust b = some basis) :
    SignedUnder E.toCrates trust "accountability_keys" "party" "accountability-binding" b := by
  simp only [bindingBasis, Option.bind_eq_bind, Option.bind_eq_some_iff] at h
  obtain ⟨k, _, h⟩ := h
  split at h
  · cases h
  · split at h
    · cases h
    · rename_i hv
      exact signedUnder_of_verified (by simpa using hv)

/-- A best basis above the start is the basis of some binding; the fold invents
none. -/
theorem foldl_strongerBasis : ∀ (bs : List (Option AccountabilityBasis)) (best : AccountabilityBasis),
    bs.foldl strongerBasis best = best ∨ some (bs.foldl strongerBasis best) ∈ bs
  | [], best => .inl rfl
  | b :: bs, best => by
    rw [List.foldl_cons]
    rcases foldl_strongerBasis bs (strongerBasis best b) with h | h
    · rw [h]
      cases b with
      | none => exact .inl rfl
      | some b =>
        unfold strongerBasis
        dsimp only
        split
        · exact .inr List.mem_cons_self
        · exact .inl rfl
    · exact .inr (List.mem_cons_of_mem _ h)

theorem accountability_signed {basis : AccountabilityBasis} (h : accountability E vi trust = some basis)
    (hb : basis ≠ .unknown) :
    ∃ bindings b, iterMember (vi.index "accountability") "bindings" = some bindings ∧ b ∈ bindings ∧
      SignedUnder E.toCrates trust "accountability_keys" "party" "accountability-binding" b := by
  simp only [accountability, Option.bind_eq_bind, Option.bind_eq_some_iff, Option.pure_def, Option.some.injEq] at h
  obtain ⟨bindings, hbind, rfl⟩ := h
  rcases foldl_strongerBasis ((bindings.filter Value.isObject).map (bindingBasis E trust)) .unknown with h | h
  · exact absurd h hb
  · obtain ⟨b, hmem, hbasis⟩ := List.mem_map.mp h
    exact ⟨bindings, b, hbind, (List.mem_filter.mp hmem).1, bindingBasis_signed hbasis⟩

theorem assurance_direct {observed : Bool} (h : assurance vi observed = .direct) : observed = true := by
  by_contra hn
  simp only [Bool.not_eq_true] at hn
  subst hn
  simp only [assurance, Bool.false_eq_true, if_false] at h
  split at h
  · cases h
  · split at h
    · cases h
    · split at h
      · split at h <;> cases h
      · split at h <;> cases h

theorem population_proven (h : population E.toCrates vi trust = some .proven) :
    SignedUnder E.toCrates trust "population_keys" "source_id" "population-index" (vi.index "population_index") := by
  simp only [population, Option.map_eq_some_iff] at h
  obtain ⟨pi, hpi, h⟩ := h
  rw [index_of_obj hpi]
  split at h
  · rename_i hc
    simp only [Bool.and_eq_true] at hc
    exact signedUnder_of_verified hc.2
  · cases h

theorem registrationStatus_registered (h : registrationStatus E.toCrates vi trust = .registered) :
    SignedUnder E.toCrates trust "scitt_ts_keys" "transparency_service" "scope-registration"
      ((vi.index "registration").index "scope_registration") := by
  unfold registrationStatus at h
  dsimp only at h
  split at h
  · rename_i hc
    simp only [Bool.and_eq_true] at hc
    exact signedUnder_of_verified hc.2
  · split at h <;> cases h

end Dimensions

/-! ## The vector -/

/-- What every favourable value of a vector stands for. -/
structure Anchored (E : Engine) (vi : Value) (trust : Option Value) (v : VerdictVector) : Prop where
  asymmetric : v.sourceSignature = .asymmetric → ∃ p ∈ arr vi "source_proofs", SourceSigned E trust p
  sharedSecret : v.sourceSignature = .sharedSecret → ∃ p ∈ arr vi "source_proofs", SourceMac E trust p
  independent : v.controlDomain = .independent →
    SignedUnder E.toCrates trust "evaluator_keys" "evaluator" "control-evidence" (vi.index "control_evidence")
  surfaces : ∀ row ∈ v.surfaces.rows, row.controlDomain = .independent ∨ row.coverage = .closed →
    ∃ entries e, iterMember ((vi.index "surfaces").index "manifest") "entries" = some entries ∧ e ∈ entries ∧
      row = surfaceRow E e trust ∧
      SignedUnder E.toCrates trust "evaluator_keys" "controlling_party" "surface-entry" e
  observed : v.node.observation = .observed ∨ v.node.client = .attested ∨ v.assuranceLinkage = .direct →
    SignedUnder E.toCrates trust "node_keys" "node_id" "node-scan" (vi.index "scan")
  basis : v.node.basis ≠ .logWitnessedSoftware →
    SignedUnder E.toCrates trust "node_roots" "attestor" "node-attestation" (vi.index "node_attestation")
  closed : v.coverage = .closed ∨ v.coverageBasis ≠ .insufficient → CoverageSigned E.toCrates vi trust
  temporalEcho : v.temporalBinding = .provenSourceEcho →
    SignedUnder E.toCrates trust "source_keys" "source_id" "temporal-echo" ((vi.index "temporal").index "echo")
  temporalBounds : v.temporalBinding = .provenIndependent →
    SignedUnder E.toCrates trust "temporal_keys" "attester" "temporal-bounds"
      ((vi.index "temporal").index "intent_bounds") ∧
    SignedUnder E.toCrates trust "temporal_keys" "attester" "temporal-bounds"
      ((vi.index "temporal").index "event_bounds")
  accountability : v.accountabilityBasis ≠ .unknown →
    ∃ bindings b, iterMember (vi.index "accountability") "bindings" = some bindings ∧ b ∈ bindings ∧
      SignedUnder E.toCrates trust "accountability_keys" "party" "accountability-binding" b
  population : v.populationStatus = some .proven →
    SignedUnder E.toCrates trust "population_keys" "source_id" "population-index" (vi.index "population_index")
  registered : v.registrationStatus = .registered →
    SignedUnder E.toCrates trust "scitt_ts_keys" "transparency_service" "scope-registration"
      ((vi.index "registration").index "scope_registration")
  /-- an eligible action rests on a closed coverage and a proven order -/
  eligible : v.technicalEligibility = .eligible → v.coverage = .closed ∧ v.temporalBinding ≠ .unproven

/-- Eligibility needs favourable values of other dimensions, so it is anchored
where these are. -/
theorem eligible_needs {E : Engine} {vi : Value} {d : Dims} (h : eligibility E vi d = some .eligible) :
    eligible vi d = true := by
  simp only [eligibility, Option.map_eq_some_iff] at h
  obtain ⟨ws, _, h⟩ := h
  split at h
  · cases h
  · split at h
    · assumption
    · cases h

/-- One derivation, dimension by dimension. -/
theorem derived_anchored {E : Engine} {vi : Value} {trust : Option Value} {v : VerdictVector}
    (h : Derived E vi trust v) : Anchored E vi trust v := by
  have hobs : (v.node.observation == .observed) = nodeObserved E.toCrates vi trust := by
    rw [h.node]; exact nodeDims_observed
  have hcov := coverage_closed h.coverage
  have hsig := sourceSignature_backed h.sourceSignature
  have htemp := @temporal_signed E vi trust
  constructor
  case asymmetric => exact hsig.1
  case sharedSecret => exact hsig.2
  case independent =>
    intro hi
    exact controlDomain_independent (hi ▸ h.controlDomain)
  case surfaces =>
    intro row hrow hfav
    obtain ⟨entries, e, hentries, he, rfl⟩ := surfaces_rows h.surfaces hrow
    exact ⟨entries, e, hentries, he, rfl, surfaceRow_grounded hfav⟩
  case observed =>
    intro ho
    apply nodeObserved_signed
    rcases ho with ho | ho | ho
    · rw [← hobs, ho]; rfl
    · exact nodeDims_attested (h.node ▸ ho)
    · rw [← hobs]
      exact assurance_direct (h.assurance ▸ ho)
  case basis =>
    intro hb
    rw [h.node] at hb
    exact (nodeDims_basis hb).1
  case closed =>
    intro hc
    have hb : v.coverageBasis ≠ .insufficient := hc.elim hcov.2 id
    rw [hcov.1, hobs, h.node] at hb
    exact coverageBasis_signed hb
  case temporalEcho => intro ht; exact htemp.1 (h.temporal ▸ ht)
  case temporalBounds => intro ht; exact htemp.2 (h.temporal ▸ ht)
  case accountability => exact accountability_signed h.accountability
  case population => intro hp; exact population_proven (h.population ▸ hp)
  case registered => intro hr; exact registrationStatus_registered (h.registration ▸ hr)
  case eligible =>
    intro he
    have hel := eligible_needs (he ▸ h.eligibility)
    simp only [L4.Action.eligible, Bool.and_eq_true, beq_iff_eq, bne_iff_ne] at hel
    exact ⟨hel.1.1.1.1.1.1.2, hel.1.2⟩

/-- Every favourable value is anchored in a key the relying party named. A
derivation that raises has no favourable value, being that of the empty input
without trust. -/
theorem favourable_anchored (E : Engine) (vi : Value) (trust : Option Value) :
    Anchored E vi trust (deriveVectorWithTrust E vi trust) := by
  rcases deriveVector_derived E vi trust with h | ⟨-, h⟩
  · exact derived_anchored h
  · -- the weak vector has no favourable value
    rw [h, weakVector_eq]
    constructor <;> simp

end SwarrmVerify.L5.Anchors
