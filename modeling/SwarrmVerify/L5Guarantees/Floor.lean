import SwarrmVerify.L5Guarantees.Matching

/-!
# The material floor (`action.rs`)

The producer names material fields; the verifier compares them and a fixed
floor. A producer that names few fields could hide a disagreement in the
others, and one that names many could drown it. Neither works: naming fields
can accuse only. A disagreement that one list shows, every longer list shows
too, and one on the floor no list hides.

The comparison answers one of three words for each field, and the outcome
weighs a disagreement above everything else. With more fields there are more
words, and the ones that were there stay. What is said is about the only
candidate of an input; with several the outcome is about linkage.

Two inputs are compared that have the same evidence, the same events, matches
and claim, and differ in the named fields (`SameEvidence`).

* `mem_materialFields`: the fields that are compared are the floor and the named
  ones.
* `linkageOutcome_one`: the outcome of the only candidate is that of its
  comparison.
* `floor_final`: a disagreement on the floor is a contradiction whatever is
  named; more names keep a contradiction, and never make a match of one.
-/
namespace SwarrmVerify.L5.Floor
open SwarrmVerify.L4.Action SwarrmVerify.L5.Matching

variable {E : Engine} {vi vi' cand event : Value}

/-- A verdict input with a claim and one flagged match, whose key as a string
finds an event. -/
structure OneMatch (vi cand event : Value) : Prop where
  claim : (vi.index "claim").isObject = true
  candidates : matchCandidates vi = some [cand]
  key : (cand.getStr "event_key").isSome = true
  event : eventOf vi cand = some event

/-- The inputs may differ in everything but the claim, the events and their
matches. -/
def SameEvidence (vi vi' : Value) : Prop := ∀ k ∈ ["claim", "events", "event_matches"], vi'.get k = vi.get k

/-- The fields a producer names; a name that is no string is displayed. -/
def named (E : Engine) (vi : Value) : List String :=
  (arr (vi.index "source_manifest") "material_fields").map fun f => f.asStr.getD (E.display f)

def outcomeOf (E : Engine) (vi : Value) : Option Outcome := (linkageOutcome E vi).bind Prod.snd

theorem mem_materialFields {f : String} : f ∈ materialFields E vi ↔ f ∈ materialFloor ∨ f ∈ named E vi :=
  mem_foldl_addField _ _

theorem OneMatch.transfer (h : OneMatch vi cand event) (hsame : SameEvidence vi vi') : OneMatch vi' cand event := by
  have hclaim := hsame "claim" (by simp)
  have hevents := hsame "events" (by simp)
  have hmatches := hsame "event_matches" (by simp)
  refine ⟨?_, ?_, h.key, ?_⟩
  · rw [Value.index, hclaim]
    exact h.claim
  · rw [matchCandidates, hmatches]
    exact h.candidates
  · rw [eventOf, arr, Value.getArray, hevents]
    exact h.event

theorem obj_isSome {v : Value} {k : String} (h : (v.index k).isObject = true) : (obj v k).isSome = true := by
  unfold Value.index at h
  unfold obj
  cases hv : v.get k with
  | none =>
    rw [hv] at h
    cases h
  | some w =>
    rw [hv, Option.getD_some] at h
    simp [h]

/-- The outcome of the only candidate is that of its comparison. -/
theorem linkageOutcome_one (h : OneMatch vi cand event) :
    outcomeOf E vi = some (match materialAgreement E vi cand with
      | .mismatch => .contradicted
      | .agree => if flag cand "final" then .matched else .claimOnly
      | .uncomparable => .claimOnly) := by
  have hclaim := obj_isSome h.claim
  simp only [outcomeOf, linkageOutcome, h.candidates, Option.bind_eq_bind, Option.bind_some, hclaim, Bool.not_true,
    Bool.false_eq_true, if_false]
  cases materialAgreement E vi cand <;> rfl

theorem contradicted_iff_one (h : OneMatch vi cand event) : outcomeOf E vi = some .contradicted ↔
    flag cand "material_mismatch" = true ∨
      ∃ f ∈ materialFields E vi, Differs E (vi.index "claim") event f := by
  have hmismatch := @materialAgreement_mismatch E vi cand
  rw [h.event] at hmismatch
  simp only [Option.some.injEq, exists_eq_left'] at hmismatch
  rw [← hmismatch, linkageOutcome_one h]
  cases hm : materialAgreement E vi cand with
  | mismatch => simp
  | agree => cases flag cand "final" <;> simp
  | uncomparable => simp

theorem matched_agrees (h : OneMatch vi cand event) (hmatched : outcomeOf E vi = some .matched) :
    ∀ f ∈ materialFields E vi, ¬ Differs E (vi.index "claim") event f := by
  rw [linkageOutcome_one h] at hmatched
  cases hm : materialAgreement E vi cand with
  | mismatch =>
    rw [hm] at hmatched
    cases hmatched
  | uncomparable =>
    rw [hm] at hmatched
    cases hmatched
  | agree =>
    obtain ⟨e, he, hagree, -⟩ := materialAgreement_agree hm
    cases h.event.symm.trans he
    rintro f hf ⟨a, b, ha, hb, hne⟩
    have := hagree f hf
    rw [ha, hb, Option.some.injEq] at this
    exact hne this

/-- **The floor.** A disagreement on the floor is a contradiction whatever the
producer names. More names keep a contradiction, and a match under more names
is one in which the fewer agree. -/
theorem floor_final (E : Engine) (vi vi' cand event : Value) (h : OneMatch vi cand event)
    (hsame : SameEvidence vi vi') :
    ((∃ f ∈ materialFloor, Differs E (vi.index "claim") event f) →
      outcomeOf E vi = some .contradicted ∧ outcomeOf E vi' = some .contradicted) ∧
    (named E vi ⊆ named E vi' →
      (outcomeOf E vi = some .contradicted → outcomeOf E vi' = some .contradicted) ∧
      (outcomeOf E vi' = some .matched →
        ∀ f ∈ materialFloor ++ named E vi, ¬ Differs E (vi.index "claim") event f)) := by
  have h' := h.transfer hsame
  have hclaim : vi'.index "claim" = vi.index "claim" := by
    rw [Value.index, Value.index, hsame "claim" (by simp)]
  refine ⟨?_, fun hsub => ⟨?_, ?_⟩⟩
  · rintro ⟨f, hf, hdiffers⟩
    constructor
    · exact (contradicted_iff_one h).mpr (.inr ⟨f, floor_material hf, hdiffers⟩)
    · exact (contradicted_iff_one h').mpr (.inr ⟨f, floor_material hf, hclaim ▸ hdiffers⟩)
  · rw [contradicted_iff_one h, contradicted_iff_one h', hclaim]
    rintro (hflag | ⟨f, hf, hdiffers⟩)
    · exact .inl hflag
    · refine .inr ⟨f, ?_, hdiffers⟩
      rw [mem_materialFields] at hf ⊢
      exact hf.imp_right fun hn => hsub hn
  · intro hmatched f hf
    have hagrees := matched_agrees h' hmatched
    rw [hclaim] at hagrees
    refine hagrees f (mem_materialFields.mpr ?_)
    exact (List.mem_append.mp hf).imp_right fun hn => hsub hn

section
open SwarrmVerify.L1.Reference

/-- An input with one match and some named fields. -/
def paidOnce (fields : List String) : Value :=
  .object [("claim", .object [("currency", .string "EUR"), ("value", .string "10")]),
    ("event_matches", .array [.object [("echoed_action_id", .bool true), ("event_key", .string "e1"),
      ("final", .bool true)]]),
    ("events", .array [.object [("currency", .string "EUR"), ("event_key", .string "e1"), ("value", .string "12")]]),
    ("source_manifest", .object [("material_fields", .array (fields.map .string))])]

/-- The amounts differ; naming the currency alone hides nothing. -/
theorem floor_final_paid : outcomeOf (referenceEngine blank) (paidOnce []) = some .contradicted ∧
    outcomeOf (referenceEngine blank) (paidOnce ["currency"]) = some .contradicted := by
  have hone : OneMatch (paidOnce []) (.object [("echoed_action_id", .bool true), ("event_key", .string "e1"),
      ("final", .bool true)])
      (.object [("currency", .string "EUR"), ("event_key", .string "e1"), ("value", .string "12")]) :=
    ⟨rfl, rfl, rfl, rfl⟩
  refine (floor_final (referenceEngine blank) (paidOnce []) (paidOnce ["currency"]) _ _ hone ?_).1
    ⟨"value", by decide, "10", "12", rfl, rfl, by decide⟩
  intro k hk
  simp only [List.mem_cons, List.not_mem_nil, or_false] at hk
  rcases hk with rfl | rfl | rfl <;> rfl

end

end SwarrmVerify.L5.Floor
