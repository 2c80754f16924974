import Mathlib.Data.List.AList
import SwarrmVerify.L4Handshake.Phases

/-!
# Durable consumption (`b28_tests.rs`)

A relying party evaluates an exchange and then has a durable store claim its
reservation and its action. The repository has the interface and a reference
store, which the model follows: it keeps a record for each reservation and one
for each action, in one transaction, and answers a retry with the stored
result. A second exchange for either is refused.

Two tables under two keys could disagree. What a store has consumed is stated
once, as the requests that it holds (`Holds`): each has the records of both of
its keys, and every record is of a request that is held.

**Results.**
* `sameJson_iff`: the comparison of stored results is that of their JSON.
* `Holds.insert`, `Holds.repeated`: a request whose keys are both fresh is
  recorded, and one that the records of both keys are for is held already.
* `consume_spec`: the store accepts what agrees with all that it has consumed,
  and refuses what meets something consumed without agreeing.
-/
namespace SwarrmVerify.L4.Handshake
open Panics

/-! ## Stores -/

abbrev ReplayKey := String × Bytes × Bytes × Bytes

abbrev ActionKey := String × Bytes × Bytes

/-- What a store keeps of a consumption: what was consumed, by which
presentation, and what was answered.
mirrors verify-rs/tests/internal/b28_tests.rs:6 -/
structure ReplayRecord where
  actionDigest : Bytes
  presentationDigest : Bytes
  acceptance : ResultValue

/-- What a store answers. Two kinds of conflict are told apart: on the
reservation and on the action.
mirrors verify-rs/tests/internal/b28_tests.rs:33-39 -/
inductive ReplayOutcome where
  | stored (result : ResultValue)
  | asaConflict
  | actionConflict
  | corrupt
  | unavailable

/-- A store, by what it does with a candidate.
mirrors verify-rs/tests/internal/b28_tests.rs:41-43 -/
structure ReplayStore (σ : Type) where
  consume : σ → ConsumeContext → ResultValue → σ × ReplayOutcome

/-- A store of two tables, one under reservations and one under actions.
mirrors verify-rs/tests/internal/b28_tests.rs:27-31 -/
structure MemoryStore where
  asa : AList fun _ : ReplayKey => ReplayRecord
  action : AList fun _ : ActionKey => ReplayRecord

/-- The results have one JSON text. -/
def ResultValue.sameJson (r s : ResultValue) : Bool :=
  r.verdict == s.verdict && r.reason == s.reason && Dimension.sorted.all fun d => r.vector d == s.vector d

theorem sameJson_iff {r s : ResultValue} : r.sameJson s = true ↔ r.json = s.json := by
  simp only [ResultValue.sameJson, ResultValue.json, Dimension.sorted, Bool.and_eq_true, beq_iff_eq, List.all_cons,
    List.all_nil, and_true, Value.object.injEq, List.map_cons, List.map_nil, List.cons.injEq, Prod.mk.injEq, true_and,
    Value.array.injEq, Value.string.injEq]
  tauto

/-- The record is of this action and this presentation. -/
def ReplayRecord.isFor (record : ReplayRecord) (context : ConsumeContext) : Bool :=
  record.actionDigest == context.actionDigest && record.presentationDigest == context.presentationDigest

/-- A candidate is stored under both keys or under neither. One that is there
already is answered as it was before.
mirrors verify-rs/tests/internal/b28_tests.rs:67-84 -/
def MemoryStore.consume (store : MemoryStore) (context : ConsumeContext) (acceptance : ResultValue) :
    MemoryStore × ReplayOutcome :=
  match store.asa.lookup context.key, store.action.lookup context.actionKey with
  | none, none =>
    let record : ReplayRecord := ⟨context.actionDigest, context.presentationDigest, acceptance⟩
    (⟨store.asa.insert context.key record, store.action.insert context.actionKey record⟩, .stored acceptance)
  | none, some _ => (store, .actionConflict)
  | some _, none => (store, .corrupt)
  | some asa, some action =>
    if !asa.isFor context then (store, .asaConflict)
    else if !action.isFor context then (store, .actionConflict)
    else if asa.acceptance.sameJson action.acceptance then (store, .stored asa.acceptance)
    else (store, .corrupt)

def memoryStore : ReplayStore MemoryStore := ⟨MemoryStore.consume⟩

/-- A store that does not answer.
mirrors verify-rs/tests/internal/b28_tests.rs:100-106 -/
def unavailableStore (σ : Type) : ReplayStore σ := ⟨fun store _ _ => (store, .unavailable)⟩

/-! ## Evaluating and consuming -/

/-- What is reported of an outcome. -/
def ReplayOutcome.result (vector : Vector) : ReplayOutcome → ResultValue
  | .stored result => result
  | .asaConflict => ⟨"FAIL", "ASA_REPLAY_CONFLICT", mark vector [.replay] "FAIL"⟩
  | .actionConflict => ⟨"FAIL", "ACTION_ID_REPLAY_CONFLICT", mark vector [.replay] "FAIL"⟩
  | .corrupt => ⟨"INDETERMINATE", "DURABLE_REPLAY_STORE_CORRUPT", vector⟩
  | .unavailable => ⟨"INDETERMINATE", "DURABLE_REPLAY_STORE_UNAVAILABLE", vector⟩

/-- An evaluation, and if it hands over a candidate its consumption. Only this
makes a presentation verified.
mirrors verify-rs/tests/internal/b28_tests.rs:45-64 -/
def evaluateAndConsume {σ : Type} (S : ReplayStore σ) (H : Host) (input : InputContext) (store : σ) :
    Run (σ × ResultValue) := do
  match ← evaluate H input with
  | (result, none) => return (store, result)
  | (_, some context) =>
    let vector := mark context.vector [.replay] "VERIFIED"
    let consumed := S.consume store context ⟨"INDETERMINATE", "PASS_NOT_ENABLED", vector⟩
    return (consumed.1, consumed.2.result vector)

/-! ## What a store has consumed -/

/-- Two requests claim one reservation or one action. -/
def ConsumeContext.Meets (c d : ConsumeContext) : Prop := c.key = d.key ∨ c.actionKey = d.actionKey

/-- Two requests are for one action and one presentation. -/
def ConsumeContext.Agrees (c d : ConsumeContext) : Prop :=
  c.actionDigest = d.actionDigest ∧ c.presentationDigest = d.presentationDigest

/-- The second request is the first one again. -/
structure ConsumeContext.Retry (c d : ConsumeContext) : Prop where
  key : c.key = d.key
  actionKey : c.actionKey = d.actionKey
  agrees : c.Agrees d

theorem isFor_iff {r : ReplayRecord} {c : ConsumeContext} : r.isFor c = true ↔
    r.actionDigest = c.actionDigest ∧ r.presentationDigest = c.presentationDigest := by
  rw [ReplayRecord.isFor, Bool.and_eq_true, beq_iff_eq, beq_iff_eq]

theorem agrees_of_isFor {r : ReplayRecord} {c d : ConsumeContext} (hc : r.isFor c = true) (hd : r.isFor d = true) :
    c.Agrees d := by
  rw [isFor_iff] at hc hd
  exact ⟨hc.1.symm.trans hd.1, hc.2.symm.trans hd.2⟩

theorem isFor_of_agrees {r : ReplayRecord} {c d : ConsumeContext} (hc : r.isFor c = true) (h : c.Agrees d) :
    r.isFor d = true := by
  rw [isFor_iff] at hc ⊢
  exact ⟨hc.1.trans h.1, hc.2.trans h.2⟩

/-- The store holds what it has consumed, each with the result `accepted`. -/
structure Holds (accepted : ResultValue) (J : ConsumeContext → Prop) (store : MemoryStore) : Prop where
  asa : ∀ k r, store.asa.lookup k = some r → (∃ c, J c ∧ c.key = k) ∧ r.acceptance = accepted
  action : ∀ k r, store.action.lookup k = some r → (∃ c, J c ∧ c.actionKey = k) ∧ r.acceptance = accepted
  record : ∀ c, J c → ∃ r r', store.asa.lookup c.key = some r ∧ store.action.lookup c.actionKey = some r' ∧
    r.isFor c = true ∧ r'.isFor c = true

theorem holds_empty (accepted : ResultValue) : Holds accepted (fun _ => False) ⟨∅, ∅⟩ where
  asa k r h := by rw [AList.lookup_empty] at h; cases h
  action k r h := by rw [AList.lookup_empty] at h; cases h
  record c h := h.elim

section
variable {accepted : ResultValue} {J : ConsumeContext → Prop} {store : MemoryStore} {c : ConsumeContext}

/-- A request whose keys are both fresh is recorded. -/
theorem Holds.insert (h : Holds accepted J store) (hasa : store.asa.lookup c.key = none)
    (haction : store.action.lookup c.actionKey = none) :
    Holds accepted (fun d => J d ∨ d = c)
      ⟨store.asa.insert c.key ⟨c.actionDigest, c.presentationDigest, accepted⟩,
        store.action.insert c.actionKey ⟨c.actionDigest, c.presentationDigest, accepted⟩⟩ := by
  have hself : ReplayRecord.isFor ⟨c.actionDigest, c.presentationDigest, accepted⟩ c = true := isFor_iff.mpr ⟨rfl, rfl⟩
  refine ⟨?_, ?_, ?_⟩
  · intro k r hr
    by_cases hk : k = c.key
    · subst hk
      rw [AList.lookup_insert] at hr
      cases hr
      exact ⟨⟨c, .inr rfl, rfl⟩, rfl⟩
    · rw [AList.lookup_insert_ne hk] at hr
      obtain ⟨⟨d, hd, hkey⟩, hacc⟩ := h.asa k r hr
      exact ⟨⟨d, .inl hd, hkey⟩, hacc⟩
  · intro k r hr
    by_cases hk : k = c.actionKey
    · subst hk
      rw [AList.lookup_insert] at hr
      cases hr
      exact ⟨⟨c, .inr rfl, rfl⟩, rfl⟩
    · rw [AList.lookup_insert_ne hk] at hr
      obtain ⟨⟨d, hd, hkey⟩, hacc⟩ := h.action k r hr
      exact ⟨⟨d, .inl hd, hkey⟩, hacc⟩
  · rintro d (hd | rfl)
    · obtain ⟨r, r', hr, hr', hfor, hfor'⟩ := h.record d hd
      have hk : d.key ≠ c.key := by rintro he; rw [he, hasa] at hr; cases hr
      have hk' : d.actionKey ≠ c.actionKey := by rintro he; rw [he, haction] at hr'; cases hr'
      refine ⟨r, r', ?_, ?_, hfor, hfor'⟩
      · rw [AList.lookup_insert_ne hk]; exact hr
      · rw [AList.lookup_insert_ne hk']; exact hr'
    · exact ⟨_, _, AList.lookup_insert _, AList.lookup_insert _, hself, hself⟩

/-- A request that the records of both keys are for is held. -/
theorem Holds.repeated (h : Holds accepted J store) {r r' : ReplayRecord} (hasa : store.asa.lookup c.key = some r)
    (haction : store.action.lookup c.actionKey = some r') (hfor : r.isFor c = true) (hfor' : r'.isFor c = true) :
    Holds accepted (fun d => J d ∨ d = c) store := by
  refine ⟨?_, ?_, ?_⟩
  · intro k s hs
    obtain ⟨⟨d, hd, hk⟩, hacc⟩ := h.asa k s hs
    exact ⟨⟨d, .inl hd, hk⟩, hacc⟩
  · intro k s hs
    obtain ⟨⟨d, hd, hk⟩, hacc⟩ := h.action k s hs
    exact ⟨⟨d, .inl hd, hk⟩, hacc⟩
  · rintro d (hd | rfl)
    · exact h.record d hd
    · exact ⟨r, r', hasa, haction, hfor, hfor'⟩

/-- What meets a held request agrees with it. -/
theorem Holds.agrees (h : Holds accepted J store) {r r' : ReplayRecord} (hasa : store.asa.lookup c.key = some r)
    (haction : store.action.lookup c.actionKey = some r') (hfor : r.isFor c = true) (hfor' : r'.isFor c = true) :
    ∀ d, J d → d.Meets c → d.Agrees c := by
  rintro d hd (hm | hm) <;> obtain ⟨s, s', hs, hs', hf, hf'⟩ := h.record d hd
  · rw [hm, hasa] at hs
    cases hs
    exact agrees_of_isFor hf hfor
  · rw [hm, haction] at hs'
    cases hs'
    exact agrees_of_isFor hf' hfor'

/-- A store consumes a request that agrees with every consumed one that it
meets, and refuses one that meets another request. -/
theorem consume_spec (h : Holds accepted J store) (c : ConsumeContext) :
    ((store.consume c accepted).2 = .stored accepted ∧ (∀ d, J d → d.Meets c → d.Agrees c) ∧
      Holds accepted (fun d => J d ∨ d = c) (store.consume c accepted).1) ∨
    ((store.consume c accepted).1 = store ∧ (∀ r, (store.consume c accepted).2 ≠ .stored r) ∧
      ∃ d, J d ∧ d.Meets c ∧ ¬ d.Retry c) := by
  unfold MemoryStore.consume
  split
  · rename_i hasa haction
    refine .inl ⟨rfl, ?_, h.insert hasa haction⟩
    rintro d hd (hk | hk) <;> obtain ⟨r, r', hr, hr', -⟩ := h.record d hd
    · rw [hk, hasa] at hr; cases hr
    · rw [hk, haction] at hr'; cases hr'
  · rename_i hasa haction
    obtain ⟨⟨d, hd, hk⟩, -⟩ := h.action _ _ haction
    refine .inr ⟨rfl, fun r => by simp, d, hd, .inr hk, fun hretry => ?_⟩
    obtain ⟨r, _, hr, -⟩ := h.record d hd
    rw [hretry.key, hasa] at hr
    cases hr
  · rename_i hasa haction
    obtain ⟨⟨d, hd, hk⟩, -⟩ := h.asa _ _ hasa
    refine .inr ⟨rfl, fun r => by simp, d, hd, .inl hk, fun hretry => ?_⟩
    obtain ⟨_, r', _, hr', -⟩ := h.record d hd
    rw [hretry.actionKey, haction] at hr'
    cases hr'
  · rename_i asa action hasa haction
    obtain ⟨⟨d, hd, hk⟩, hacc⟩ := h.asa _ _ hasa
    obtain ⟨⟨d', hd', hk'⟩, hacc'⟩ := h.action _ _ haction
    obtain ⟨r, _, hr, -, hfor, -⟩ := h.record d hd
    obtain ⟨_, r', -, hr', -, hfor'⟩ := h.record d' hd'
    rw [hk, hasa] at hr
    rw [hk', haction] at hr'
    cases hr
    cases hr'
    split
    · rename_i hno
      refine .inr ⟨rfl, fun r => by simp, d, hd, .inl hk, fun hretry => ?_⟩
      simp [isFor_of_agrees hfor hretry.agrees] at hno
    rename_i hasaFor
    split
    · rename_i hno
      refine .inr ⟨rfl, fun r => by simp, d', hd', .inr hk', fun hretry => ?_⟩
      simp [isFor_of_agrees hfor' hretry.agrees] at hno
    rename_i hactionFor
    rw [Bool.not_eq_true, Bool.not_eq_false'] at hasaFor hactionFor
    rw [if_pos (sameJson_iff.mpr (by rw [hacc, hacc'])), hacc]
    exact .inl ⟨rfl, h.agrees hasa haction hasaFor hactionFor, h.repeated hasa haction hasaFor hactionFor⟩

end

end SwarrmVerify.L4.Handshake
