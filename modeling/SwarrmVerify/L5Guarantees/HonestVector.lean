import SwarrmVerify.L4Handshake.Phases

/-!
# Reports of a Counterparty Assurance exchange

A consumer reads the vector beside the verdict, also beside a failure. The
evaluation leaves at some forty places, each with a copy of the vector at its
stage, and some results are built before there is an evaluation. A dimension
that is reported as verified must have been verified on the way, wherever the
evaluation left.

Stages come in one order, and each marks the dimensions of its own. So the
vectors that can be seen are as many as there are stages, and they are nested:
`vectorAt n` is the vector after `n` of them. `L4Handshake.Phases` says that a
refusal carries one of these; here it is followed to the text that is reported.

No hypothesis is made on the four byte strings or on the crates.

**Results.**
* `result_returns`: what is reported, whatever the four byte strings are.
* `verifyB28Cwt_never_panics`: no index, `unwrap`, subtraction or slice on the
  way to a report fails.
* `not_required`: a required dimension that is not evaluated is found.
* `vector_honest`: what is verified is a prefix of the stages, only an exchange
  that passed all of them is referred to the store, and a refusal verifies no
  more than its own two dimensions, and both or neither.
-/
namespace SwarrmVerify.L5.HonestVector
open Panics SwarrmVerify.L4.Handshake Evaluation

/-! ## Results -/

/-- A result on the path of a presentation. -/
def Presented (H : Host) (exchange : Bytes) (ctx : PresentationLocal) (r : ResultValue) : Prop :=
  Refused r ∨ r = ⟨"FAIL", "MIXED_PROFILE_GENERATION", initialVector⟩ ∨
    ∃ input roots o c s sel head, (parseInput H exchange ctx).run = .ok (some input) ∧
      Established H { input with roots := roots } o c s sel head ∧
      r = ⟨"INDETERMINATE", "DURABLE_REPLAY_REQUIRED", vectorAt 9⟩

/-- A result on the path of a refusal. -/
def RefusedPath (r : ResultValue) : Prop :=
  Unproved r ∨ r = ⟨"FAIL", "MIXED_PROFILE_GENERATION", initialVector⟩ ∨
    r = ⟨"FAIL", "SIGNED_REFUSAL", mark initialVector [.challenge, .binding] "VERIFIED"⟩

section Paths

variable {H : Host} {exchange trustPack pin : Bytes}

theorem pinned_ends {first second : Bytes} :
    Ends (pinned H first second trustPack pin)
      (fun r => mixedGeneration first second = true ∧ r = ⟨"FAIL", "MIXED_PROFILE_GENERATION", initialVector⟩ ∨
        mixedGeneration first second = false ∧ r = ⟨"INDETERMINATE", "NO_PINNED_TRUST_PACK", initialVector⟩)
      fun _ => mixedGeneration first second = false := by
  unfold pinned
  cases hmixed : mixedGeneration first second with
  | true => exact Ends.throw (.inl ⟨rfl, rfl⟩)
  | false =>
    refine Ends.lift (parsePinnedTrustPack_spec H trustPack pin) fun roots _ => ?_
    cases roots with
    | none => exact Ends.throw (.inr ⟨rfl, rfl⟩)
    | some roots => exact Ends.pure rfl

theorem parseInput_safe {ctx : PresentationLocal} : Safe (parseInput H exchange ctx).run :=
  ((exchangeParts_yields H exchange "presentation").bind fun _ _ => Yields.pure (Q := fun _ => True) trivial).safe

theorem parseRefusal_safe {ctx : RefusalLocal} : Safe (parseRefusal H exchange ctx).run :=
  ((exchangeParts_yields H exchange "refusal").bind fun _ _ => Yields.pure (Q := fun _ => True) trivial).safe

theorem verifyPresentation_returns {input : InputContext} {ctx : PresentationLocal}
    (hinput : (parseInput H exchange ctx).run = .ok (some input)) :
    Returns (verifyPresentation H input trustPack pin) (Presented H exchange ctx) := by
  refine Returns.bind pinned_ends fun e he => ?_
  cases e with
  | error r =>
    rw [returns_pure]
    rcases he with ⟨-, rfl⟩ | ⟨-, rfl⟩
    · exact .inr (.inl rfl)
    · exact .inl (refused_indeterminate (n := 0) (by decide) (by decide))
  | ok roots =>
    refine Returns.bind (evaluate_returns H { input with roots := roots }) fun res hres => ?_
    rw [returns_pure]
    rcases hres with hres | ⟨o, c, s, sel, head, hall, rfl⟩
    · exact .inl hres.1
    · exact .inr (.inr ⟨input, roots, o, c, s, sel, head, hinput, hall, rfl⟩)

theorem verifyRefusal_returns {input : RefusalContext} :
    Returns (verifyRefusal H input trustPack pin) RefusedPath := by
  refine Returns.bind pinned_ends fun e he => ?_
  cases e with
  | error r =>
    rw [returns_pure]
    rcases he with ⟨-, rfl⟩ | ⟨-, rfl⟩
    · exact .inr (.inl rfl)
    · exact .inl ⟨.inr rfl, by decide, rfl⟩
  | ok roots =>
    refine (evaluateRefusal_returns H input).mono fun r hr => ?_
    rcases hr with hr | hr
    · exact .inl hr
    · exact .inr (.inr hr)

end Paths

/-- What is reported, by the local context that is read. -/
def Reported (H : Host) (exchange localContext : Bytes) (r : ResultValue) : Prop :=
  match parseLocalContext H localContext with
  | .error _ => False
  | .ok (.error reason) => r = contextInvalid reason
  | .ok (.ok (.presentation ctx)) => Presented H exchange ctx r
  | .ok (.ok (.refusal _)) => RefusedPath r

theorem result_returns (H : Host) (exchange localContext trustPack pin : Bytes) :
    Returns (result H exchange localContext trustPack pin) (Reported H exchange localContext) := by
  obtain ⟨l, hl⟩ := parseLocalContext_safe H localContext
  unfold result Reported
  rw [hl, ok_bind]
  cases l with
  | error reason => exact returns_pure.mpr rfl
  | ok l =>
    cases l with
    | presentation ctx =>
      refine Returns.bind parseInput_safe.returns fun o ho => ?_
      cases o with
      | none => exact returns_pure.mpr (.inl (refused_indeterminate (n := 0) (by decide) (by decide)))
      | some input => exact verifyPresentation_returns ho
    | refusal ctx =>
      refine Returns.bind parseRefusal_safe.returns fun o ho => ?_
      cases o with
      | none => exact returns_pure.mpr (.inl ⟨.inr rfl, by decide, rfl⟩)
      | some input => exact verifyRefusal_returns

/-- **No panic.** Whatever the four byte strings are, every `unwrap`, index,
subtraction and slice on the way to a report is in range. -/
theorem verifyB28Cwt_never_panics (H : Host) (exchange localContext trustPack pin : Bytes) :
    ∃ out, verifyB28Cwt H exchange localContext trustPack pin = .ok out := by
  obtain ⟨r, hr, -⟩ := result_returns H exchange localContext trustPack pin
  exact ⟨r.json, by rw [verifyB28Cwt, hr]; rfl⟩

/-! ## The vector of a report -/

/-- The stage of the protocol in which a dimension is verified. -/
def stage : Dimension → Option Nat
  | .challenge => some 0
  | .rootChain | .delegation => some 1
  | .liveKeyControl | .passportIdentity => some 2
  | .binding => some 3
  | .templateAdminPop => some 4
  | .freshStatus => some 5
  | .grant => some 6
  | .asaReservation | .exactAction => some 7
  | .transcript => some 8
  | _ => none

/-- After some stages exactly their dimensions are verified. -/
theorem vectorAt_eq {n : Nat} (hn : n ≤ stages.length) (d : Dimension) :
    vectorAt n d = match stage d with
      | some i => if i < n then "VERIFIED" else "INDETERMINATE"
      | none => initialVector d := by
  have hall : ∀ n ∈ List.range 10, ∀ d ∈ Dimension.sorted, vectorAt n d = match stage d with
      | some i => if i < n then "VERIFIED" else "INDETERMINATE"
      | none => initialVector d := by decide +kernel
  refine hall n ?_ d ?_
  · rw [List.mem_range]
    exact Nat.lt_succ_of_le hn
  · cases d <;> decide

/-- The state of a dimension in a report. -/
def stateOf (out : Value) (d : Dimension) : Option String := (out.get "vector").bind fun v => v.getStr d.text

theorem stateOf_json (r : ResultValue) (d : Dimension) : stateOf r.json d = some (r.vector d) := by
  cases d <;> rfl

def hasReason (out : Value) (reason : String) : Prop := out.getArray "reasons" = some [.string reason]

/-- What a vector may say. -/
structure Honest (out : Value) : Prop where
  closed : ∀ d e i j, stage d = some i → stage e = some j → i ≤ j → stateOf out e = some "VERIFIED" →
    stateOf out d = some "VERIFIED"
  replay : stateOf out .replay ≠ some "VERIFIED"
  unevaluated : ∀ d ∈ Dimension.unevaluated, stateOf out d = some "NOT_EVALUATED_V1"
  states : ∀ d ∈ Dimension.verified, stateOf out d = some "VERIFIED" ∨ stateOf out d = some "INDETERMINATE"
  verdict : out.getStr "verdict" = some "FAIL" ∨ out.getStr "verdict" = some "INDETERMINATE"
  execute : out.get "should_execute" = some (.bool false)

/-- Every dimension but replay is verified, and the signed challenge requires
none that is not evaluated. -/
structure Complete (H : Host) (exchange : Bytes) (ctx : PresentationLocal) (out : Value) : Prop where
  verified : ∀ d ∈ Dimension.verified, d ≠ .replay → stateOf out d = some "VERIFIED"
  required : ∃ input challenge doc items, (parseInput H exchange ctx).run = .ok (some input) ∧
    signedCwt H input.challenge .challenge ctx.challengerKeys = .ok (some challenge) ∧
    plain challenge.core = some doc ∧ doc.lookup "required_dimensions" = some (.array items) ∧
    ∀ d ∈ Dimension.unevaluated, Cbor.Value.text d.text ∉ items

theorem honest_of_vector {r : ResultValue} {n : Nat} (hn : n ≤ stages.length) (hv : r.vector = vectorAt n)
    (hverdict : r.verdict = "FAIL" ∨ r.verdict = "INDETERMINATE") : Honest r.json := by
  have hstate : ∀ d, stateOf r.json d = some (vectorAt n d) := fun d => by rw [stateOf_json, hv]
  refine ⟨?_, ?_, ?_, ?_, ?_, rfl⟩
  · intro d e i j hd he hij hverified
    rw [hstate, vectorAt_eq hn, he] at hverified
    rw [hstate, vectorAt_eq hn, hd]
    dsimp only at hverified ⊢
    split at hverified
    · rw [if_pos (by omega)]
    · exact absurd hverified (by decide)
  · rw [hstate, vectorAt_eq hn]
    exact (by decide : some (initialVector .replay) ≠ some "VERIFIED")
  · intro d hd
    rw [hstate, vectorAt_eq hn]
    simp only [Dimension.unevaluated, List.mem_cons, List.not_mem_nil, or_false] at hd
    rcases hd with rfl | rfl | rfl | rfl | rfl <;> rfl
  · intro d hd
    rw [hstate, vectorAt_eq hn]
    split
    · split
      · exact .inl rfl
      · exact .inr rfl
    · rw [initialVector, if_pos hd]
      exact .inr rfl
  · rcases hverdict with h | h
    · exact .inl (congrArg some h)
    · exact .inr (congrArg some h)

theorem parseInput_keys {H : Host} {exchange : Bytes} {ctx : PresentationLocal} {input : InputContext}
    (h : (parseInput H exchange ctx).run = .ok (some input)) : input.challengerKeys = ctx.challengerKeys := by
  have hkeys : Yields (parseInput H exchange ctx) fun input => input.challengerKeys = ctx.challengerKeys :=
    (exchangeParts_yields H exchange "presentation").bind fun _ _ => Yields.pure rfl
  obtain ⟨o, ho, hall⟩ := hkeys
  rw [h] at ho
  exact hall input (Except.ok.inj ho).symm

theorem hasReason_json {r : ResultValue} {reason : String} (h : hasReason r.json reason) : r.reason = reason := by
  have heq : [Value.string r.reason] = [Value.string reason] := Option.some.inj h
  simpa using heq

/-- A required dimension that is not evaluated is found. -/
theorem not_required {items : List C} (h : unavailable items = []) :
    ∀ d ∈ Dimension.unevaluated, Cbor.Value.text d.text ∉ items := by
  intro d hd hmem
  have hfound : d.text ∈ unavailable items := by
    rw [unavailable, List.mem_filter, List.mem_filterMap]
    exact ⟨⟨_, hmem, rfl⟩, by simpa using ⟨d, hd, rfl⟩⟩
  rw [h] at hfound
  cases hfound

theorem complete_of_established {H : Host} {exchange : Bytes} {ctx : PresentationLocal} {input : InputContext} {roots : Roots}
    {o : Opening} {c : Chain} {s : Signers} {sel : Selection} {head : Head}
    (hinput : (parseInput H exchange ctx).run = .ok (some input))
    (h : Established H { input with roots := roots } o c s sel head) {r : ResultValue} (hr : r.vector = vectorAt 9) :
    Complete H exchange ctx r.json := by
  refine ⟨fun d hd hreplay => ?_, ?_⟩
  · rw [stateOf_json, hr, vectorAt_eq (by decide)]
    cases d <;> first | rfl | exact absurd rfl hreplay | exact absurd hd (by decide)
  · obtain ⟨items, hitems, hnone⟩ := h.finish.required
    have hindex := h.opening.challenge.index "required_dimensions" (by simp [Schema.shape, challengeShape])
    have hkeys : input.challengerKeys = ctx.challengerKeys := parseInput_keys hinput
    have hsigned : signedCwt H input.challenge .challenge input.challengerKeys = .ok (some o.challenge.cwt) :=
      h.opening.challengeSigned
    rw [hkeys] at hsigned
    rw [hitems] at hindex
    exact ⟨input, o.challenge.cwt, o.challenge.doc, items, hinput, hsigned, h.opening.challenge.plain,
      index_eq_ok.mp hindex, not_required hnone⟩

/-- **Honest vector.** On the path of a presentation the verified dimensions are
a prefix of the stages, whatever the verdict is, and a report that asks for the
durable store has them all. On the path of a refusal only an accepted refusal
verifies anything. -/
theorem vector_honest (H : Host) (exchange localContext trustPack pin : Bytes) :
    Returns (verifyB28Cwt H exchange localContext trustPack pin) fun out =>
      (∀ ctx, parseLocalContext H localContext = .ok (.ok (.presentation ctx)) →
        Honest out ∧ (hasReason out "DURABLE_REPLAY_REQUIRED" → Complete H exchange ctx out)) ∧
      ∀ ctx, parseLocalContext H localContext = .ok (.ok (.refusal ctx)) →
        (∀ d, stateOf out d = some "VERIFIED" → (d = .challenge ∨ d = .binding) ∧ hasReason out "SIGNED_REFUSAL") ∧
        (stateOf out .challenge = some "VERIFIED" ↔ stateOf out .binding = some "VERIFIED") := by
  refine Returns.bind (result_returns H exchange localContext trustPack pin) fun r hr => ?_
  rw [returns_pure]
  unfold Reported at hr
  refine ⟨fun ctx hctx => ?_, fun ctx hctx => ?_⟩
  · rw [hctx] at hr
    rcases hr with hr | rfl | ⟨input, roots, o, c, s, sel, head, hinput, hall, rfl⟩
    · obtain ⟨n, hn, hv⟩ := hr.vector
      refine ⟨honest_of_vector hn hv hr.verdict, fun hreason => ?_⟩
      exact absurd (by rw [hasReason_json hreason]; decide) hr.reason
    · refine ⟨honest_of_vector (n := 0) (by decide) rfl (.inl rfl), fun hreason => ?_⟩
      exact absurd (hasReason_json hreason) (by decide)
    · exact ⟨honest_of_vector (n := 9) (by decide) rfl (.inr rfl), fun _ => complete_of_established hinput hall rfl⟩
  · rw [hctx] at hr
    simp only [stateOf_json]
    rcases hr with hr | rfl | rfl
    · rw [hr.vector]
      exact ⟨fun d hd => absurd hd (by cases d <;> decide), by decide⟩
    · exact ⟨fun d hd => absurd hd (by cases d <;> decide), by decide⟩
    · refine ⟨fun d hd => ⟨?_, rfl⟩, by decide⟩
      cases d <;> first | exact .inl rfl | exact .inr rfl | exact absurd hd (by decide)

end SwarrmVerify.L5.HonestVector
