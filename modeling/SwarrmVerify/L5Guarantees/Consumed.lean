import SwarrmVerify.L4Handshake.Consumption
import SwarrmVerify.L5Guarantees.HonestVector

/-!
# Every reservation is consumed once

A relying party serves the exchanges that reach it one after the other, each
with whatever local context it has by then, and its store may fail to answer.
No reservation and no action is ever accepted for two different exchanges, and
nothing else is in the way of an exchange that passes its evaluation. The same
exchange may come again, and is answered as before.

A run (`L4Handshake.Consumption`) is a list of deliveries: the bytes of an
exchange, a local context, and whether the store answers. Deliveries may repeat
an exchange, interleave several, or change the context between two copies of
one. What is claimed of the store is a function of the two envelopes alone
(`context_of_exchange`), which is why a changed context cannot be used to claim
the same reservation under another name.

Nothing is assumed of the deliveries but that the envelopes among them do not
collide, and nothing of the contexts and the crates.

**Results.**
* `step_spec`: one exchange against a store.
* `serve_spec`: every exchange of a run is answered for what was consumed
  before it; by induction on the deliveries.
* `consumed_once`: the run returns an answer for each delivery, and a delivery
  is accepted exactly if the store answers, the evaluation has a candidate, and
  nothing accepted before that meets it was another exchange.
-/
namespace SwarrmVerify.L5.Consumed
open Panics SwarrmVerify.L3.Receipt SwarrmVerify.L4.Handshake SwarrmVerify.L4.Handshake.Evaluation

variable {H : Host}

/-! ## Candidates -/

/-- The evaluation hands the exchange over to the store. -/
def Candidate (H : Host) (input : InputContext) (ctx : ConsumeContext) : Prop :=
  ∃ r, evaluate H input = .ok (r, some ctx)

/-- The same two envelopes. -/
structure SameExchange (a b : InputContext) : Prop where
  challenge : a.challenge = b.challenge
  presentation : a.presentation = b.presentation

theorem candidate_unique {input : InputContext} {c d : ConsumeContext} (h : Candidate H input c)
    (h' : Candidate H input d) : c = d := by
  obtain ⟨r, hr⟩ := h
  obtain ⟨r', hr'⟩ := h'
  rw [hr] at hr'
  cases hr'
  rfl

theorem candidate_established {input : InputContext} {ctx : ConsumeContext} (h : Candidate H input ctx) :
    ∃ o c s sel head, Established H input o c s sel head ∧ ctx = contextFor H input o c := by
  obtain ⟨r, hr⟩ := h
  obtain ⟨res, hres, hcases⟩ := evaluate_returns H input
  rw [hr] at hres
  cases hres
  rcases hcases with ⟨-, hnone⟩ | ⟨o, c, s, sel, head, hall, hres⟩
  · cases hnone
  · cases hres
    exact ⟨o, c, s, sel, head, hall, rfl⟩

/-- The document of an envelope is a function of its bytes. -/
theorem paper_eq {X : Crates} {p q : Paper} {schema : Schema} (hp : p.Is X schema) (hq : q.Is X schema)
    (h : p.cwt = q.cwt) : p = q := by
  have hdoc := hp.docIn
  rw [h, hq.docIn] at hdoc
  cases p
  cases q
  cases h
  cases hdoc
  rfl

theorem opening_eq {a b : InputContext} {o o' : Opening} (h : o.Ok H a) (h' : o'.Ok H b) (hsame : SameExchange a b) :
    o = o' := by
  have hc := (signedCwt_spec h.challengeSigned).1
  rw [hsame.challenge, (signedCwt_spec h'.challengeSigned).1] at hc
  have hp := h.presented
  rw [hsame.presentation, h'.presented] at hp
  have hchallenge : o.challenge = o'.challenge :=
    paper_eq h.challenge h'.challenge (Option.some.inj (Except.ok.inj hc)).symm
  have hpresentation : o.presentation = o'.presentation :=
    paper_eq h.presentation h'.presentation (Option.some.inj (Except.ok.inj hp)).symm
  have haction := h.action
  rw [hchallenge, h'.action, Option.some.injEq] at haction
  have hactor := h.actor
  rw [← haction, h'.actor, Option.some.injEq] at hactor
  have hrecipient := h.recipient
  rw [← haction, h'.recipient, Option.some.injEq] at hrecipient
  have hbytes := h.actionBytes
  rw [hchallenge, h'.actionBytes, Option.some.injEq] at hbytes
  cases o
  cases o'
  cases hchallenge
  cases hpresentation
  cases haction
  cases hactor
  cases hrecipient
  cases hbytes
  rfl

theorem rootCwt_inspected {raw : Bytes} {schema : Schema} {roots : Roots} {cwt : Cwt}
    (h : rootCwt H raw schema roots = .ok (some cwt)) : inspectCwt H raw schema = .ok (some cwt) := by
  obtain ⟨o, ho, h⟩ := bind_eq_ok.mp h
  cases o with
  | none => cases h
  | some c =>
    obtain ⟨doc, hdoc⟩ := inspectCwt_spec ho
    dsimp only at h
    split at h
    · cases h
    split at h
    · cases h
    rw [hdoc.plain] at h
    obtain ⟨v, -, h⟩ := bind_eq_ok.mp h
    split at h <;> cases h
    exact ho

/-- The envelope that a root signed is a function of the value it is inlined in. -/
theorem rooted_eq {a b : InputContext} {v : C} {schema : Schema} {p q : Paper} (hp : Rooted H a v schema p)
    (hq : Rooted H b v schema q) : p = q := by
  have hcwt : ∀ {i : InputContext} {p : Paper}, Rooted H i v schema p → ∃ raw, bytes v = some raw ∧
      inspectCwt H raw schema = .ok (some p.cwt) := by
    intro i p h
    have hr := h.read
    unfold rootMember at hr
    cases hv : bytes v with
    | none => rw [hv] at hr; cases hr
    | some raw =>
      rw [hv] at hr
      exact ⟨raw, rfl, rootCwt_inspected hr⟩
  obtain ⟨raw, hraw, hi⟩ := hcwt hp
  obtain ⟨raw', hraw', hi'⟩ := hcwt hq
  rw [hraw, Option.some.injEq] at hraw'
  subst hraw'
  rw [hi] at hi'
  exact paper_eq hp.is hq.is (Option.some.inj (Except.ok.inj hi'))

/-- What is claimed of the store is a function of the two envelopes. -/
theorem context_of_exchange {a b : InputContext} {c d : ConsumeContext} (h : Candidate H a c) (h' : Candidate H b d)
    (hsame : SameExchange a b) : c = d := by
  obtain ⟨o, ch, _, _, _, hall, rfl⟩ := candidate_established h
  obtain ⟨o', ch', _, _, _, hall', rfl⟩ := candidate_established h'
  obtain rfl := opening_eq hall.opening hall'.opening hsame
  have hdelegation := rooted_eq hall.chain.read.delegation hall'.chain.read.delegation
  simp only [contextFor, hdelegation, hsame.presentation]

/-- One presentation is for one challenge. -/
theorem exchange_of_agrees {a b : InputContext} {c d : ConsumeContext} {L : List Bytes}
    (hc : CollisionFree H.toCrates L) (ha : [a.challenge, a.presentation] ⊆ L) (hb : [b.challenge, b.presentation] ⊆ L)
    (h : Candidate H a c) (h' : Candidate H b d) (hagrees : c.Agrees d) : SameExchange a b := by
  simp only [List.cons_subset, List.nil_subset, and_true] at ha hb
  obtain ⟨o, ch, _, _, _, hall, rfl⟩ := candidate_established h
  obtain ⟨o', ch', _, _, _, hall', rfl⟩ := candidate_established h'
  have hp : a.presentation = b.presentation := hc _ ha.2 _ hb.2 (Subtype.ext hagrees.2)
  have hpresented := hall.opening.presented
  rw [hp, hall'.opening.presented] at hpresented
  have hpaper : o.presentation = o'.presentation :=
    paper_eq hall.opening.presentation hall'.opening.presentation (Option.some.inj (Except.ok.inj hpresented)).symm
  have hhash := hall.opening.envelopeHash
  rw [hpaper, hall'.opening.envelopeHash, Option.some.injEq] at hhash
  exact ⟨hc _ ha.1 _ hb.1 (Subtype.ext hhash.symm), hp⟩

/-! ## One exchange -/

/-- An exchange that reaches the relying party, and whether its store answers. -/
structure Delivery where
  input : InputContext
  available : Bool

def storeFor (d : Delivery) : ReplayStore MemoryStore :=
  if d.available then memoryStore else unavailableStore MemoryStore

def deliver (H : Host) (store : MemoryStore) (d : Delivery) : Run (MemoryStore × ResultValue) :=
  evaluateAndConsume (storeFor d) H d.input store

/-- The result that a consumed exchange is answered with. -/
def acceptance : ResultValue := ⟨"INDETERMINATE", "PASS_NOT_ENABLED", mark (vectorAt 9) [.replay] "VERIFIED"⟩

/-- The result says that the exchange was consumed. -/
def Accepted (r : ResultValue) : Prop := r.reason = "PASS_NOT_ENABLED" ∧ r.vector .replay = "VERIFIED"

theorem accepted_acceptance : Accepted acceptance := ⟨rfl, rfl⟩

/-- An evaluation that refuses says nothing of the store. -/
theorem not_accepted_refused {r : ResultValue} (h : Refused r) : ¬ Accepted r := by
  rintro ⟨-, hreplay⟩
  obtain ⟨n, hn, hv⟩ := h.vector
  rw [hv, HonestVector.vectorAt_eq hn] at hreplay
  have hinitial : initialVector .replay ≠ "VERIFIED" := by decide
  exact hinitial hreplay

theorem not_accepted_outcome {vector : Vector} {outcome : ReplayOutcome} (h : ∀ r, outcome ≠ .stored r) :
    ¬ Accepted (outcome.result vector) := by
  rintro ⟨hreason, -⟩
  cases outcome with
  | stored r => exact h r rfl
  | _ => simp [ReplayOutcome.result] at hreason

/-- What is consumed after one more exchange. -/
def After (H : Host) (J : ConsumeContext → Prop) (d : Delivery) (r : ResultValue) (c : ConsumeContext) : Prop :=
  J c ∨ (Accepted r ∧ Candidate H d.input c)

theorem after_refused {J : ConsumeContext → Prop} {d : Delivery} {r : ResultValue} (h : ¬ Accepted r) :
    After H J d r = J := by
  funext c
  exact propext ⟨fun hc => hc.resolve_right fun hr => h hr.1, .inl⟩

/-- The answer to one exchange, after those of `J` were consumed. -/
structure Answered (H : Host) (J : ConsumeContext → Prop) (d : Delivery) (r : ResultValue) : Prop where
  sound : Accepted r → d.available = true ∧ ∃ c, Candidate H d.input c ∧ ∀ e, J e → e.Meets c → e.Agrees c
  complete : d.available = true → ∀ c, Candidate H d.input c → ¬ Accepted r → ∃ e, J e ∧ e.Meets c ∧ ¬ e.Retry c

theorem step_spec {J : ConsumeContext → Prop} {store : MemoryStore} (h : Holds acceptance J store) (d : Delivery) :
    Returns (deliver H store d) fun out => Answered H J d out.2 ∧ Holds acceptance (After H J d out.2) out.1 := by
  obtain ⟨res, hres, hcases⟩ := evaluate_returns H d.input
  unfold deliver evaluateAndConsume
  rw [hres, ok_bind]
  rcases hcases with ⟨hrefused, hnone⟩ | ⟨o, ch, s, sel, head, hall, rfl⟩
  · obtain ⟨r, ctx⟩ := res
    cases hnone
    have hno := not_accepted_refused hrefused
    refine returns_pure.mpr ⟨⟨fun hr => absurd hr hno, ?_⟩, by rw [after_refused hno]; exact h⟩
    rintro - c ⟨r', hr'⟩
    rw [hres] at hr'
    cases hr'
  · have hcand : Candidate H d.input (contextFor H d.input o ch) := ⟨_, hres⟩
    have hunique : ∀ c, Candidate H d.input c → c = contextFor H d.input o ch := fun c hc => candidate_unique hc hcand
    have hvector : (contextFor H d.input o ch).vector = vectorAt 9 := rfl
    generalize contextFor H d.input o ch = ctx at hcand hunique hvector
    refine returns_pure.mpr ?_
    dsimp only
    rw [hvector]
    cases hav : d.available with
    | false =>
      have hno : ¬ Accepted (ReplayOutcome.unavailable.result (mark (vectorAt 9) [.replay] "VERIFIED")) :=
        not_accepted_outcome fun r => by simp
      simp only [storeFor, hav, Bool.false_eq_true, if_false, unavailableStore]
      refine ⟨⟨fun hr => absurd hr hno, fun hav' => ?_⟩, by rw [after_refused hno]; exact h⟩
      rw [hav] at hav'
      cases hav'
    | true =>
      simp only [storeFor, hav, if_true, memoryStore]
      rcases consume_spec h ctx with ⟨hstored, hagrees, hholds⟩ | ⟨hsame, hrefused, e, he, hm, hretry⟩
      · have hafter : After H J d acceptance = fun c => J c ∨ c = ctx := by
          funext c
          refine propext (or_congr_right ⟨fun hc => hunique c hc.2, ?_⟩)
          rintro rfl
          exact ⟨accepted_acceptance, hcand⟩
        change Answered H J d ((store.consume ctx acceptance).2.result _) ∧ Holds acceptance (After H J d
          ((store.consume ctx acceptance).2.result _)) (store.consume ctx acceptance).1
        rw [hstored, ReplayOutcome.result, hafter]
        exact ⟨⟨fun _ => ⟨hav, ctx, hcand, hagrees⟩, fun _ c hc hno => absurd accepted_acceptance hno⟩, hholds⟩
      · have hno : ¬ Accepted ((store.consume ctx acceptance).2.result (mark (vectorAt 9) [.replay] "VERIFIED")) :=
          not_accepted_outcome hrefused
        change Answered H J d ((store.consume ctx acceptance).2.result _) ∧ Holds acceptance (After H J d
          ((store.consume ctx acceptance).2.result _)) (store.consume ctx acceptance).1
        rw [after_refused hno, hsame]
        refine ⟨⟨fun hr => absurd hr hno, fun _ c hc _ => ?_⟩, h⟩
        rw [hunique c hc]
        exact ⟨e, he, hm, hretry⟩

/-! ## Whole runs -/

/-- The exchanges served one after the other, and what each was answered. -/
def serve (H : Host) : MemoryStore → List Delivery → Run (MemoryStore × List ResultValue)
  | store, [] => return (store, [])
  | store, d :: ds => do
    let one ← deliver H store d
    let rest ← serve H one.1 ds
    return (rest.1, one.2 :: rest.2)

/-- What is consumed before the exchange at `j`. -/
def Before (H : Host) (J : ConsumeContext → Prop) (ds : List Delivery) (rs : List ResultValue) (j : Nat)
    (c : ConsumeContext) : Prop :=
  J c ∨ ∃ i < j, ∃ d r, ds[i]? = some d ∧ rs[i]? = some r ∧ Accepted r ∧ Candidate H d.input c

theorem before_cons {J : ConsumeContext → Prop} {d : Delivery} {ds : List Delivery} {r : ResultValue}
    {rs : List ResultValue} {j : Nat} :
    Before H J (d :: ds) (r :: rs) (j + 1) = Before H (After H J d r) ds rs j := by
  funext c
  refine propext ⟨?_, ?_⟩
  · rintro (h | ⟨i, hi, e, s, he, hs, hr, hc⟩)
    · exact .inl (.inl h)
    · cases i with
      | zero =>
        cases he
        cases hs
        exact .inl (.inr ⟨hr, hc⟩)
      | succ i => exact .inr ⟨i, by omega, e, s, by simpa using he, by simpa using hs, hr, hc⟩
  · rintro ((h | ⟨hr, hc⟩) | ⟨i, hi, e, s, he, hs, hr, hc⟩)
    · exact .inl h
    · exact .inr ⟨0, by omega, d, r, rfl, rfl, hr, hc⟩
    · exact .inr ⟨i + 1, by omega, e, s, by simpa using he, by simpa using hs, hr, hc⟩

/-- Every exchange of a run is answered for what was consumed before it. -/
theorem serve_spec (ds : List Delivery) : ∀ {J : ConsumeContext → Prop} {store : MemoryStore},
    Holds acceptance J store → Returns (serve H store ds) fun out => out.2.length = ds.length ∧
      ∀ j d r, ds[j]? = some d → out.2[j]? = some r → Answered H (Before H J ds out.2 j) d r := by
  induction ds with
  | nil =>
    intro J store _
    refine returns_pure.mpr ⟨rfl, fun j d r hd => ?_⟩
    cases hd
  | cons d ds ih =>
    intro J store h
    refine (step_spec h d).bind fun one hone => (ih hone.2).bind fun rest hrest => ?_
    refine returns_pure.mpr ⟨by simp [hrest.1], fun j e r he hr => ?_⟩
    cases j with
    | zero =>
      cases he
      cases hr
      have hnone : Before H J (d :: ds) (one.2 :: rest.2) 0 = J := by
        funext c
        refine propext ⟨?_, .inl⟩
        rintro (hc | ⟨i, hi, -⟩)
        · exact hc
        · omega
      rw [hnone]
      exact hone.1
    | succ j =>
      rw [before_cons]
      exact hrest.2 j e r (by simpa using he) (by simpa using hr)

/-- **Every reservation is consumed once.** Whatever exchanges reach a relying
party in whatever order, under whatever local contexts: it does not panic, and
an exchange is accepted exactly if its evaluation hands it over, the store
answers, and every earlier accepted exchange that claimed the same reservation
or the same action was the very same exchange. -/
theorem consumed_once (H : Host) (ds : List Delivery) :
    Returns (serve H ⟨∅, ∅⟩ ds) fun out => out.2.length = ds.length ∧
      (CollisionFree H.toCrates (ds.flatMap fun d => [d.input.challenge, d.input.presentation]) →
        ∀ (j : Nat) (d : Delivery) (r : ResultValue), ds[j]? = some d → out.2[j]? = some r →
          (Accepted r ↔ d.available = true ∧ ∃ c, Candidate H d.input c ∧
            ∀ (i : Nat) (e : Delivery) (s : ResultValue) (b : ConsumeContext), i < j → ds[i]? = some e →
              out.2[i]? = some s → Accepted s → Candidate H e.input b → b.Meets c → SameExchange e.input d.input)) := by
  refine (serve_spec ds (holds_empty acceptance)).mono fun out hout => ⟨hout.1, fun hc j d r hd hr => ?_⟩
  have hin : ∀ {i : Nat} {e : Delivery}, ds[i]? = some e →
      [e.input.challenge, e.input.presentation] ⊆ ds.flatMap fun d => [d.input.challenge, d.input.presentation] :=
    fun he b hb => List.mem_flatMap.mpr ⟨_, List.mem_of_getElem? he, hb⟩
  have hanswer := hout.2 j d r hd hr
  constructor
  · intro haccepted
    obtain ⟨hav, c, hcand, hagrees⟩ := hanswer.sound haccepted
    refine ⟨hav, c, hcand, fun i e s b hi he hs hacc hb hm => ?_⟩
    exact exchange_of_agrees hc (hin he) (hin hd) hb hcand (hagrees b (.inr ⟨i, hi, e, s, he, hs, hacc, hb⟩) hm)
  · rintro ⟨hav, c, hcand, hall⟩
    by_contra hno
    obtain ⟨b, hb, hm, hretry⟩ := hanswer.complete hav c hcand hno
    obtain ⟨i, hi, e, s, he, hs, hacc, hb⟩ := hb.resolve_left id
    have hsame := context_of_exchange hb hcand (hall i e s b hi he hs hacc hb hm)
    exact hretry ⟨congrArg _ hsame, congrArg _ hsame, congrArg _ hsame, congrArg _ hsame⟩

end SwarrmVerify.L5.Consumed
