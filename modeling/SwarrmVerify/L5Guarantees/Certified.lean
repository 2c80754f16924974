import SwarrmVerify.L4Certificate.Certificate
import SwarrmVerify.L1Encoding.CborCodec

/-!
# What a certificate report can say (`certificate.rs`)

Before the verdict engine runs, `verify_core` patches three members of the
producer's verdict input: `view`, `authority` and `registration`. The engine
reads each dimension from members of its own, so what a patch decides can be
said of the patched member alone, whatever else stands in the input.

A core that fails a cross-check against its log gets an authority block and a
registration that claim nothing. A core that is carried with a view gets that
view's withheld names. A bare core, without a view, gets no patch of `view` at
all, and keeps what its producer wrote there.

**Results.**
* `invalidated_whole`: after a failed cross-check nothing favourable about the
  log is left, on every path of `run` that ends there.
* `withheld_iff`: what the engine leaves unrecomputed is what the input's own
  `view` names.
* `derivedInput_view`: a view that withholds nothing overrides the producer's.
* `recomputed_iff`: a carried core is fully recomputed, except a bare one whose
  verdict input has a `view` of its own that withholds something the engine
  reads.
* `bare_withheld`: the producer of a bare core has its eligibility and its mark
  left out.
-/
namespace SwarrmVerify.L5.Certified
open SwarrmVerify.L1.CborWire SwarrmVerify.L4.Action SwarrmVerify.L4.Certificate

/-! ## Patched members -/

section Patches

variable {V : Verifier} {vi j : Value} {id : String} {bundle : Value} {trust : Option Value} {k : String}

theorem applyScittOverride_get (h : k ≠ "registration") :
    (applyScittOverride V vi id bundle trust).get k = vi.get k := by
  unfold applyScittOverride
  split
  · rfl
  · exact get_setIndex_ne _ h _

theorem invalidated_get {failed : Bool} (h : k ≠ "authority") : (invalidated vi failed).get k = vi.get k := by
  unfold invalidated
  split
  · rfl
  · exact get_setIndex_ne _ h _

theorem withView_get {view : Option Cbor.Value} (h : k ≠ "view") : (withView vi view).get k = vi.get k := by
  unfold withView
  split
  · rfl
  · exact get_setIndex_ne _ h _

theorem invalidated_integrity : ((invalidated vi true).index "authority").getStr "integrity" = some "INVALID" := by
  simp [invalidated, Value.index, Value.getStr, Value.asStr]

end Patches

/-! ## Failed cross-checks -/

/-- An invalid log leaves the weak values. -/
structure Refused (v : VerdictVector) : Prop where
  integrity : v.block.valid = false
  identity : v.block.identity = .notVerified
  authority : v.block.authority = .notVerified
  intent : v.block.intent = .notRecorded
  eligibility : v.technicalEligibility ≠ .eligible

theorem authorityBlock_invalid {vi : Value} (h : (vi.index "authority").getStr "integrity" = some "INVALID") :
    (authorityBlock vi).valid = false ∧ (authorityBlock vi).identity = .notVerified ∧
      (authorityBlock vi).authority = .notVerified ∧ (authorityBlock vi).intent = .notRecorded := by
  simp [authorityBlock, h]

theorem derived_refused {E : Engine} {vi : Value} {trust : Option Value} {v : VerdictVector} (hd : Derived E vi trust v)
    (h : (vi.index "authority").getStr "integrity" = some "INVALID") : Refused v := by
  obtain ⟨hvalid, hid, hauth, hint⟩ := authorityBlock_invalid h
  rw [← hd.block] at hvalid hid hauth hint
  refine ⟨hvalid, hid, hauth, hint, fun he => ?_⟩
  -- eligibility asks for a valid log
  have helig := hd.eligibility
  rw [he] at helig
  simp only [eligibility, Option.map_eq_some_iff] at helig
  obtain ⟨ws, _, helig⟩ := helig
  split at helig
  · cases helig
  · simp [eligible, hvalid] at helig

theorem deriveVector_refused (E : Engine) {vi : Value} (trust : Option Value)
    (h : (vi.index "authority").getStr "integrity" = some "INVALID") :
    Refused (deriveVectorWithTrust E vi trust) := by
  rcases deriveVector_derived E vi trust with hd | ⟨-, hw⟩
  · exact derived_refused hd h
  · rw [hw, weakVector_eq]
    exact ⟨rfl, rfl, rfl, rfl, nofun⟩

theorem derivedInput_invalid {V : Verifier} {id : String} {j : Value} {view : Option Cbor.Value} {trust : Option Value}
    (h : (crossCheckErrors V.toEngine j (j.index "bundle") trust).1 ≠ []) :
    ((derivedInput V id j view trust).index "authority").getStr "integrity" = some "INVALID" := by
  have hfailed : (!(crossCheckErrors V.toEngine j (j.index "bundle") trust).1.isEmpty) = true := by
    simpa using h
  unfold derivedInput
  dsimp only
  rw [hfailed, Value.index, applyScittOverride_get (by decide)]
  exact invalidated_integrity

/-- Never a partial pass: a core that failed a cross-check is refused whatever
its producer wrote into the verdict input. -/
theorem invalidated_whole (V : Verifier) (id : String) (core : Cbor.Value) (view : Option Cbor.Value)
    (trust : Option Value) (j : Value) (hgate : gatedCore core = .ok j)
    (herr : (crossCheckErrors V.toEngine j (j.index "bundle") trust).1 ≠ []) :
    (verifyCore V id core view trust).crossChecksOk = false ∧
      ∃ v, (verifyCore V id core view trust).vector = some v ∧ Refused v := by
  unfold verifyCore
  rw [hgate]
  refine ⟨?_, _, rfl, deriveVector_refused V.toEngine trust (derivedInput_invalid herr)⟩
  simp only [checkedCore]
  rw [List.isEmpty_eq_false_iff]
  exact List.append_ne_nil_of_left_ne_nil herr _

/-! ## What stays unrecomputed -/

/-- The engine reads the input to its end, and the input's own view withholds
the source proofs or a gated field. -/
def withholds (E : Engine) (vi : Value) : Bool :=
  readable E vi && (withheldNames E vi).any fun ws => ws.any fun w => w == "source_proofs" || gated.contains w

theorem sourceSignature_withheld {E : Engine} {vi : Value} {trust : Option Value} {s : SourceSignature}
    {ws : List String} (hw : withheldNames E vi = some ws) (h : sourceSignature E vi trust = some s) :
    s = .notRecomputed ↔ ws.contains "source_proofs" = true := by
  simp only [sourceSignature, fieldWithheld, hw, Option.map_some, Option.bind_eq_bind, Option.bind_some] at h
  cases hc : ws.contains "source_proofs" with
  | true =>
    rw [hc] at h
    cases h
    simp
  | false =>
    rw [hc] at h
    simp only [Bool.false_eq_true, if_false, Option.bind_eq_some_iff] at h
    obtain ⟨keys, _, h⟩ := h
    split at h
    · cases h; simp
    · cases h
      simp [signatureLoop_recomputed]

theorem eligibility_withheld {E : Engine} {vi : Value} {d : Dims} {e : Eligibility} {ws : List String}
    (hw : withheldNames E vi = some ws) (h : eligibility E vi d = some e) :
    e = .notRecomputed ↔ ws.any gated.contains = true := by
  simp only [eligibility, hw, Option.map_some, Option.some.injEq] at h
  subst h
  split
  · rename_i hg; simpa using hg
  · rename_i hg
    constructor
    · intro h; split at h <;> cases h
    · intro h; exact absurd h hg

/-- Every dimension of the vector that a view can withhold was recomputed. -/
def Recomputed (v : VerdictVector) : Prop :=
  v.sourceSignature ≠ .notRecomputed ∧ v.technicalEligibility ≠ .notRecomputed ∧ v.mark ≠ .notRecomputed

theorem withheld_iff (E : Engine) (vi : Value) (trust : Option Value) :
    Recomputed (deriveVectorWithTrust E vi trust) ↔ withholds E vi = false := by
  have hread := deriveInner_isSome E vi trust
  unfold deriveVectorWithTrust withholds
  cases h : deriveInner E vi trust with
  | none =>
    rw [h] at hread
    rw [← hread, Option.getD_none, weakVector_eq]
    simp [Recomputed]
  | some v =>
    rw [h] at hread
    have hd := deriveInner_derived h
    obtain ⟨ws, hw⟩ : ∃ ws, withheldNames E vi = some ws := by
      rw [← Option.isSome_iff_exists, ← eligibility_isSome E vi v.toDims, hd.eligibility]
      rfl
    have hsig := sourceSignature_withheld hw hd.sourceSignature
    have helig := eligibility_withheld hw hd.eligibility
    rw [Option.getD_some, ← hread, Recomputed, hd.mark, Ne, Ne, Ne, mark_notRecomputed, hsig, helig, hw]
    have hany : (ws.any fun w => w == "source_proofs" || gated.contains w) =
        (ws.contains "source_proofs" || ws.any gated.contains) := by
      rw [Bool.eq_iff_iff]
      simp only [List.any_eq_true, Bool.or_eq_true, beq_iff_eq, List.contains_iff_mem]
      constructor
      · rintro ⟨w, hmem, rfl | hg⟩
        · exact .inl hmem
        · exact .inr ⟨w, hmem, hg⟩
      · rintro (hmem | ⟨w, hmem, hg⟩)
        · exact ⟨_, hmem, .inl rfl⟩
        · exact ⟨w, hmem, .inr hg⟩
    rw [Option.any_some, hany]
    cases ws.contains "source_proofs" <;> cases ws.any gated.contains <;> simp

section Congr

variable (E : Engine) {vi vi' : Value}

theorem withheldNames_congr (h : vi.get "view" = vi'.get "view") : withheldNames E vi = withheldNames E vi' := by
  simp only [withheldNames, Value.index, h]

/-- Neither the authority nor the registration of an input decides whether it
can be read. -/
theorem readable_congr (h : ∀ k, k ≠ "authority" → k ≠ "registration" → vi.get k = vi'.get k) :
    readable E vi = readable E vi' := by
  simp only [readable, surfacesReadable, mandatesReadable, historyReadable, obj, Value.index,
    withheldNames_congr E (h "view" (by decide) (by decide)), h "event_matches" (by decide) (by decide),
    h "surfaces" (by decide) (by decide), h "source_identity" (by decide) (by decide),
    h "control_declarations" (by decide) (by decide), h "accountability" (by decide) (by decide),
    h "mandates" (by decide) (by decide), h "history" (by decide) (by decide)]

theorem withholds_congr (h : ∀ k, k ≠ "authority" → k ≠ "registration" → vi.get k = vi'.get k) :
    withholds E vi = withholds E vi' := by
  rw [withholds, withholds, readable_congr E h, withheldNames_congr E (h "view" (by decide) (by decide))]

end Congr

section Run

variable {V : Verifier} {id : String} {j : Value} {trust : Option Value}

theorem derivedInput_get {k : String} (ha : k ≠ "authority") (hr : k ≠ "registration") :
    (derivedInput V id j none trust).get k = (j.index "verdict_input").get k := by
  rw [derivedInput, applyScittOverride_get hr, invalidated_get ha]
  rfl

theorem derivedInput_bare : withholds V.toEngine (derivedInput V id j none trust) =
    withholds V.toEngine (j.index "verdict_input") := withholds_congr V.toEngine fun _ => derivedInput_get

/-- A view that withholds nothing overrides what the producer wrote. -/
theorem derivedInput_view {view : Cbor.Value} (h : withheldFields view = []) :
    withholds V.toEngine (derivedInput V id j (some view) trust) = false := by
  have hget : (derivedInput V id j (some view) trust).get "view" = some (.object [("withheld_fields", .array [])]) := by
    rw [derivedInput, applyScittOverride_get (by decide), invalidated_get (by decide), withView, h]
    exact get_setIndex_self _ _ _
  have hnames : withheldNames V.toEngine (derivedInput V id j (some view) trust) = some [] := by
    rw [withheldNames, Value.index, hget]
    rfl
  rw [withholds, hnames]
  simp

theorem verifyCore_vector {core : Cbor.Value} {view : Option Cbor.Value} {v : VerdictVector}
    (h : (verifyCore V id core view trust).vector = some v) :
    ∃ j, gatedCore core = .ok j ∧ v = deriveVectorWithTrust V.toEngine (derivedInput V id j view trust) trust := by
  unfold verifyCore at h
  split at h
  · cases h
  · rename_i j hj
    exact ⟨j, hj, (Option.some.inj h).symm⟩

theorem runView_vector {view : Cbor.Value} {v : VerdictVector} (h : (runView V view trust).vector = some v) :
    ∃ id core, withheldFields view = [] ∧ (verifyCore V id core (some view) trust).vector = some v := by
  unfold runView at h
  dsimp only at h
  split at h
  · cases h
  · split at h
    · cases h
    · rename_i id hid
      split at h
      · cases h
      · split at h
        · cases h
        · rename_i hw
          split at h
          · split at h
            · cases h
            · rename_i core hcore
              split at h
              · cases h
              · split at h
                · cases h
                · exact ⟨id, core, by simpa using hw, h⟩
          · cases h

end Run

/-- A bare core that passes the gates and withholds fields by its own verdict
input. -/
def BareWithholds (V : Verifier) (bytes : Slice) : Prop :=
  ∃ top j, decodeCbor V.ciborium bytes L1.CborWire.maxDepth maxBytes = some top ∧
    ctext top "schema" = some coreSchema ∧ gatedCore top = .ok j ∧
    withholds V.toEngine (j.index "verdict_input") = true

/-- A carried core is fully recomputed, exactly when it is not a bare core
that withholds fields by itself. -/
theorem recomputed_iff (V : Verifier) (bytes : Slice) (trust : Option Value) (v : VerdictVector)
    (hv : (run V bytes trust).vector = some v) : Recomputed v ↔ ¬ BareWithholds V bytes := by
  unfold run at hv
  split at hv
  · cases hv
  · rename_i top htop
    split at hv
    · rename_i hschema
      split at hv
      · cases hv
      · obtain ⟨j, hj, rfl⟩ := verifyCore_vector hv
        rw [withheld_iff, derivedInput_bare]
        constructor
        · rintro h ⟨top', j', htop', _, hj', hw⟩
          cases htop.symm.trans htop'
          cases hj.symm.trans hj'
          rw [h] at hw
          cases hw
        · intro h
          by_contra hw
          exact h ⟨top, j, htop, beq_iff_eq.mp hschema, hj, by simpa using hw⟩
    · rename_i hschema
      split at hv
      · -- what a view withholds is nothing once it carries its core
        obtain ⟨id, core, hempty, hcore⟩ := runView_vector hv
        obtain ⟨j, hj, rfl⟩ := verifyCore_vector hcore
        rw [withheld_iff, derivedInput_view hempty]
        refine ⟨?_, fun _ => rfl⟩
        rintro - ⟨top', j', htop', hs, _⟩
        cases htop.symm.trans htop'
        exact hschema (beq_iff_eq.mpr hs)
      · cases hv

/-! A bare core without a log; its producer writes the verdict input. -/

def bareCore (input : List (Cbor.Value × Cbor.Value)) : Cbor.Value :=
  .map [(.text "bundle", .map []), (.text "events", .array []), (.text "schema", .text coreSchema),
    (.text "subject", .map []), (.text "limitations", .array []), (.text "coverage_doc", .map []),
    (.text "event_matches", .array []), (.text "open_findings", .array []), (.text "proof_digests", .array []),
    (.text "verdict_input", .map input)]

/-- The bytes of a core. -/
def emitted (core : Cbor.Value) : Slice :=
  let b := (canonicalCbor core).getD []
  if h : b.length < 2 ^ 63 then ⟨b, h⟩ else ⟨[], by decide⟩

def verifier : Verifier :=
  { referenceEngine L1.Reference.blank with
    ciborium := fromReader, scittPackKeys := fun _ _ _ => none, scittReceipt := fun _ _ _ _ _ _ => false }

def boastingCore : Cbor.Value :=
  bareCore [(.text "authority", .map [(.text "identity", .text "VERIFIED"), (.text "integrity", .text "VALID")])]

/-- A valid log and a verified identity that only the producer asserts. -/
theorem invalidated_whole_boast : ∃ j, gatedCore boastingCore = .ok j ∧
    (crossCheckErrors verifier.toEngine j (j.index "bundle") none).1 ≠ [] ∧
    ∃ v, (verifyCore verifier "id" boastingCore none none).vector = some v ∧ Refused v := by
  have hcheck : (match gatedCore boastingCore with
      | .ok j => !(crossCheckErrors verifier.toEngine j (j.index "bundle") none).1.isEmpty
      | .error _ => false) = true := by
    decide +kernel
  cases hj : gatedCore boastingCore with
  | error code => rw [hj] at hcheck; cases hcheck
  | ok j =>
    rw [hj] at hcheck
    have herr : (crossCheckErrors verifier.toEngine j (j.index "bundle") none).1 ≠ [] := by simpa using hcheck
    exact ⟨j, rfl, herr, (invalidated_whole verifier "id" boastingCore none none j hj herr).2⟩

def plainCore : Cbor.Value := bareCore []

/-- A core without a view of its own is recomputed. -/
theorem recomputed_plain : ∃ v, (run verifier (emitted plainCore) none).vector = some v ∧ Recomputed v ∧
    ¬ BareWithholds verifier (emitted plainCore) := by
  have hcheck : ((run verifier (emitted plainCore) none).vector.map fun v =>
      (v.sourceSignature, v.technicalEligibility, v.mark)) = some (.none, .ineligible, .unmarkedUnregistered) := by
    decide +kernel
  obtain ⟨v, hv, heq⟩ := Option.map_eq_some_iff.mp hcheck
  simp only [Prod.mk.injEq] at heq
  have hr : Recomputed v := by simp [Recomputed, heq]
  exact ⟨v, hv, hr, (recomputed_iff verifier (emitted plainCore) none v hv).mp hr⟩

def withholdingCore : Cbor.Value :=
  bareCore [(.text "view", .map [(.text "withheld_fields", .array [.text "outcome"])])]

/-- The producer of a bare core has its eligibility and its mark left out. -/
theorem bare_withheld : (run verifier (emitted withholdingCore) none).corePresent = true ∧
    ∃ v, (run verifier (emitted withholdingCore) none).vector = some v ∧
      v.technicalEligibility = .notRecomputed ∧ v.mark = .notRecomputed := by
  have hcheck : (run verifier (emitted withholdingCore) none).corePresent = true ∧
      ((run verifier (emitted withholdingCore) none).vector.map fun v => (v.technicalEligibility, v.mark)) =
        some (.notRecomputed, .notRecomputed) := by
    decide +kernel
  obtain ⟨v, hv, heq⟩ := Option.map_eq_some_iff.mp hcheck.2
  exact ⟨hcheck.1, v, hv, Prod.mk.inj heq⟩

end SwarrmVerify.L5.Certified
