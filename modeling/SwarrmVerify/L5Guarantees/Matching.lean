import SwarrmVerify.L4Certificate.CoreValues

/-!
# The linked event, in two layers (`certificate.rs`, `action.rs`)

The certificate layer finds the event of a match among the deduplicated events,
by its key as text; the verdict engine finds it again among all of them, by its
key as a string. The flags of the first are what the second reads. As long as
every key is a string and no key repeats, the two find one event.

The claim's own texts are those of its material fields, and an event agrees or
disagrees with them field by field. MATCHED should be about the linked event,
and a disagreement of the linked event should be reported. Both can fail, each
for a reason of its own: an event whose key is the number 5 is linked under the
text of an event whose key is the string `5`; and a disagreement is looked for
in this layer only where the certificate has a single match.

**Results.**
* `match_flags`: what a carried match says of its event.
* `matched_iff`: MATCHED is about the linked event, exactly if the event that
  the engine finds has the same texts.
* `contradicted_iff`: a contradiction of the linked event is reported, exactly
  if it is the only match or the engine's own comparison finds one.
-/
namespace SwarrmVerify.L5.Matching
open SwarrmVerify.L4.Action SwarrmVerify.L4.Certificate

/-! ## The echoed input -/

section Echo

variable {E : Engine} {c : Cbor.Value} {core : Value}

theorem gatedCore_floatless (h : gatedCore c = .ok core) : floatless core = true ∧ coreShapeOk core = true := by
  unfold gatedCore at h
  split at h
  · cases h
  · rename_i j hj
    obtain ⟨hjson, hshape⟩ := Option.filter_eq_some_iff.mp hj
    split at h
    · cases h
    · split at h
      · cases h
      · split at h
        · cases h
        · cases h
          exact ⟨cborToJson_floatless hjson, hshape⟩

/-- A list that is echoed is the one the engine iterates. An absent list and an
empty one are the same to both. -/
theorem listed_eq {v : Option Value} {xs : List Value}
    (h : (v.filter fun w => truthy (some w)).getD (.array []) = .array xs) :
    iterItems v = some xs ∧ (v.bind Value.asArray).getD [] = xs := by
  cases v with
  | none => cases h; exact ⟨rfl, rfl⟩
  | some w =>
    cases ht : truthy (some w) with
    | true =>
      simp only [Option.filter_some, ht, if_true, Option.getD_some] at h
      subst h
      exact ⟨rfl, rfl⟩
    | false =>
      simp only [Option.filter_some, ht, Bool.false_eq_true, if_false, Option.getD_none, Value.array.injEq] at h
      subst h
      -- what is not truthy iterates as nothing
      cases w <;> simp_all [truthy, iterItems, Value.asArray]

/-- What `check_input_echo` makes the same in both carriages: the events, the
candidates among the matches, and the claim. -/
structure Echoed (core : Value) : Prop where
  events : arr (core.index "verdict_input") "events" = arr core "events"
  candidates : matchCandidates (core.index "verdict_input") = some ((arr core "event_matches").filter candidate)
  claim : obj (core.index "verdict_input") "claim" = obj core "claim"

theorem eqvOpt_eq {a b : Option Value} (hf : ∀ x, a = some x → floatless x = true) (h : Value.eqvOpt a b = true) :
    a = b := by
  cases a <;> cases b
  · rfl
  · cases h
  · cases h
  · rw [eqv_eq (hf _ rfl) h]

theorem obj_getSome (v : Value) (k : String) : obj v k = (v.getSome k).filter Value.isObject := by
  unfold obj Value.getSome
  cases v.get k with
  | none => rfl
  | some x => cases x <;> rfl

theorem echoed (hgate : gatedCore c = .ok core) (h : checkInputEcho core = true) : Echoed core := by
  obtain ⟨hf, hshape⟩ := gatedCore_floatless hgate
  simp only [checkInputEcho, Bool.and_eq_true, List.all_cons, List.all_nil] at h
  obtain ⟨⟨hev, hms⟩, hclaim, -⟩ := h
  have harr : ∀ k, k ∈ ["events", "event_matches", "open_findings", "proof_digests", "limitations"] →
      core.index k = .array (arr core k) := by
    intro k hk
    simp only [coreShapeOk, Bool.and_eq_true, List.all_eq_true] at hshape
    obtain ⟨xs, hxs⟩ := Option.isSome_iff_exists.mp (hshape.2 k hk)
    obtain ⟨w, hw, hwx⟩ := Option.bind_eq_some_iff.mp hxs
    cases w <;> simp [Value.asArray] at hwx
    subst hwx
    simp [Value.index, arr, Value.getArray, hw, Value.asArray]
  have hev' := listed_eq ((eqv_eq (floatless_index hf) hev).symm.trans (harr "events" (by simp)))
  have hms' := listed_eq ((eqv_eq (floatless_index hf) hms).symm.trans (harr "event_matches" (by simp)))
  refine ⟨hev'.2, ?_, ?_⟩
  · rw [matchCandidates, hms'.1]
    rfl
  · rw [obj_getSome, obj_getSome, eqvOpt_eq _ hclaim]
    intro x hx
    exact floatless_get hf (Option.filter_eq_some_iff.mp hx).1

end Echo

/-! ## Matches -/

section Matches

variable {E : Engine} {core m : Value}

/-- The keys of the deduplicated events are distinct, and none of them was seen
before. By induction on the events. -/
theorem dedupLoop_keys (es : List Value) : ∀ seen : List String,
    ((dedupLoop E es seen).map Prod.fst).Nodup ∧ ∀ p ∈ dedupLoop E es seen, p.1 ∉ seen := by
  induction es with
  | nil => intro seen; exact ⟨List.nodup_nil, nofun⟩
  | cons e es ih =>
    intro seen
    unfold dedupLoop
    dsimp only
    split
    · rename_i h
      simp only [Bool.and_eq_true, Bool.not_eq_true', List.contains_eq_mem, decide_eq_false_iff_not] at h
      obtain ⟨hnd, hfresh⟩ := ih (pystr E (e.get "event_key") :: seen)
      refine ⟨List.nodup_cons.mpr ⟨?_, hnd⟩, ?_⟩
      · intro hmem
        obtain ⟨p, hp, hk⟩ := List.mem_map.mp hmem
        exact hfresh p hp (hk ▸ List.mem_cons_self)
      · intro p hp
        rcases List.mem_cons.mp hp with rfl | hp
        · exact h.2
        · exact fun hs => hfresh p hp (List.mem_cons_of_mem _ hs)
    · exact ih seen

theorem dedupedEvents_inj {p q : String × Value} (hp : p ∈ dedupedEvents E core) (hq : q ∈ dedupedEvents E core)
    (h : p.1 = q.1) : p = q :=
  List.inj_on_of_nodup_map (dedupLoop_keys (arr core "events") []).1 hp hq h

/-- The deduplicated events with a recomputed link flag: what is linked in fact,
whichever matches are carried. -/
def linked (E : Engine) (core : Value) : List (String × Value) :=
  (dedupedEvents E core).filter fun p => (linkFlags E (claimOf core) p.2 (core.index "coverage_doc")).any

/-- What a match that holds says of its event: the link and the finality are
recomputed from the event, and so is a mismatch if there is one match only. -/
structure MatchFlags (E : Engine) (core m ev : Value) : Prop where
  named : (matchKey E m, ev) ∈ dedupedEvents E core
  link : candidate m = (linkFlags E (claimOf core) ev (core.index "coverage_doc")).any
  final : flag m "final" = isFinal E ev ((core.index "coverage_doc").get "finality_rule")
  mismatch : flag m "material_mismatch" = ((arr core "event_matches").length == 1 &&
    materialMismatch E (claimOf core) ev (core.index "coverage_doc"))

theorem flag_of_eqv {k : String} {b : Bool} (h : ((m.get k).any fun v => v.eqv (.bool b)) = true) :
    flag m k = b ∧ m.isObject = true := by
  cases hg : m.get k with
  | none => rw [hg] at h; cases h
  | some x =>
    rw [hg] at h
    have hx : x = .bool b := by
      cases x <;> simp_all [Value.eqv]
    refine ⟨by simp [flag, hg, hx, asBool], ?_⟩
    cases m with
    | object => rfl
    | _ => cases hg

/-- A match holds of one deduplicated event, the one under its key, and all its
flags are those of that event. -/
theorem match_named (h : checkMatches E core = true) (hm : m ∈ arr core "event_matches") :
    ∃ ev, (matchKey E m, ev) ∈ dedupedEvents E core ∧
      flagsEqual m (linkFlags E (claimOf core) ev (core.index "coverage_doc"))
        (isFinal E ev ((core.index "coverage_doc").get "finality_rule"))
        ((arr core "event_matches").length == 1 && materialMismatch E (claimOf core) ev (core.index "coverage_doc")) =
          true := by
  simp only [checkMatches, Bool.and_eq_true, List.all_eq_true] at h
  have hok := h.1 m hm
  unfold matchOk at hok
  split at hok
  · cases hok
  · rename_i k ev hfind
    have hk : k = matchKey E m := by simpa using List.find?_some hfind
    exact ⟨ev, hk ▸ List.mem_of_find?_eq_some hfind, hok⟩

theorem match_flags (h : checkMatches E core = true) (hm : m ∈ arr core "event_matches") :
    ∃ ev, MatchFlags E core m ev := by
  obtain ⟨ev, hmem, hok⟩ := match_named h hm
  simp only [flagsEqual, List.all_cons, List.all_nil, Bool.and_true, Bool.and_eq_true] at hok
  obtain ⟨he, hi, hu, hfin, hmat⟩ := hok
  refine ⟨ev, hmem, ?_, (flag_of_eqv hfin).1, (flag_of_eqv hmat).1⟩
  rw [candidate, (flag_of_eqv he).2]
  simp only [List.any_cons, List.any_nil, (flag_of_eqv he).1, (flag_of_eqv hi).1, (flag_of_eqv hu).1,
    Bool.true_and, Bool.or_false, LinkFlags.any, Bool.or_assoc]

/-- A linked event is matched: a core that leaves out a match that the event
would have is refused. -/
theorem linked_matched (h : checkMatches E core = true) {p : String × Value} (hp : p ∈ linked E core) :
    ∃ m ∈ arr core "event_matches", matchKey E m = p.1 ∧ candidate m = true := by
  obtain ⟨hmem, hlink⟩ := List.mem_filter.mp hp
  have hall := h
  simp only [checkMatches, Bool.and_eq_true, List.all_eq_true] at hall
  have hnamed := hall.2 p hmem
  rw [hlink, Bool.not_true, Bool.false_or, List.contains_eq_mem, decide_eq_true_eq] at hnamed
  obtain ⟨m, hm, hk⟩ := List.mem_map.mp hnamed
  obtain ⟨ev, hf⟩ := match_flags h hm
  have : (matchKey E m, ev) = p := dedupedEvents_inj hf.named hmem hk
  exact ⟨m, hm, hk, by rw [hf.link, ← hlink, ← this]⟩

end Matches

/-! ## Comparing fields -/

section Fields

variable {E : Engine} {vi cand claim event : Value}

/-- Both state the field, with different texts. A field that one side leaves out
makes no difference. -/
def Differs (E : Engine) (a b : Value) (f : String) : Prop :=
  ∃ s t, fieldText E a f = some s ∧ fieldText E b f = some t ∧ s ≠ t

/-- Where one states the field, both do, with the same text. A field that
neither states is agreed on. -/
def Agrees (E : Engine) (a b : Value) (f : String) : Prop :=
  (a.getSome f).isSome = true ∨ (b.getSome f).isSome = true →
    ∃ t, fieldText E a f = some t ∧ fieldText E b f = some t

theorem fieldText_isSome (v : Value) (f : String) : (fieldText E v f).isSome = (v.getSome f).isSome := by
  unfold fieldText Value.getSome
  cases v.get f with
  | none => rfl
  | some x => cases x <;> rfl

theorem agrees_iff (a b : Value) (f : String) : Agrees E a b f ↔ fieldText E a f = fieldText E b f := by
  have ha := @fieldText_isSome E a f
  have hb := @fieldText_isSome E b f
  constructor
  · intro h
    cases hfa : fieldText E a f with
    | none =>
      cases hfb : fieldText E b f with
      | none => rfl
      | some t =>
        rw [hfb] at hb
        obtain ⟨s, hs, _⟩ := h (.inr hb.symm)
        rw [hfa] at hs
        cases hs
    | some s =>
      rw [hfa] at ha
      obtain ⟨t, ht, ht'⟩ := h (.inl ha.symm)
      rw [ht', ← hfa, ht]
  · intro h hor
    rw [← ha, ← hb, ← h, or_self] at hor
    obtain ⟨t, ht⟩ := Option.isSome_iff_exists.mp hor
    exact ⟨t, ht, h ▸ ht⟩

/-- Both state the field, with the same text, so that something has been
compared. -/
def Shares (E : Engine) (a b : Value) (f : String) : Prop :=
  ∃ t, fieldText E a f = some t ∧ fieldText E b f = some t

/-- A property that every step keeps or gains by its item holds after a fold
when it held before or some item gives it. -/
theorem foldl_gains {α β : Type} {step : α → β → α} {P : α → Prop} {Q : β → Prop}
    (h : ∀ a b, P (step a b) ↔ P a ∨ Q b) (bs : List β) : ∀ a, P (bs.foldl step a) ↔ P a ∨ ∃ b ∈ bs, Q b := by
  induction bs with
  | nil => intro a; simp
  | cons b bs ih =>
    intro a
    rw [List.foldl_cons, ih, h]
    simp only [List.mem_cons, exists_eq_or_imp, or_assoc]

theorem tallyStep_mismatch (t : Tally) (f : String) :
    (tallyStep E claim event t f).mismatch = true ↔ t.mismatch = true ∨ Differs E claim event f := by
  unfold tallyStep Differs
  cases fieldText E claim f <;> cases fieldText E event f
  · simp
  · simp
  · simp
  · rename_i a b
    dsimp only
    split <;> simp_all

theorem tallyStep_uncomparable (t : Tally) (f : String) :
    (tallyStep E claim event t f).uncomparable = true ↔
      t.uncomparable = true ∨ (fieldText E claim f).isSome ≠ (fieldText E event f).isSome := by
  unfold tallyStep
  cases fieldText E claim f <;> cases fieldText E event f
  · simp
  · simp
  · simp
  · rename_i a b
    dsimp only
    split <;> simp

theorem tallyStep_compared (t : Tally) (f : String) :
    (tallyStep E claim event t f).compared ≠ 0 ↔ t.compared ≠ 0 ∨ Shares E claim event f := by
  unfold tallyStep Shares
  cases fieldText E claim f <;> cases fieldText E event f
  · simp
  · simp
  · simp
  · rename_i a b
    dsimp only
    split <;> simp_all
    rename_i h
    exact fun hab => absurd hab.symm h

theorem declaredTally_mismatch (fields : List String) :
    (declaredTally E claim event fields).mismatch = true ↔ ∃ f ∈ fields, Differs E claim event f := by
  have h := foldl_gains (P := fun t : Tally => t.mismatch = true) (Q := Differs E claim event)
    tallyStep_mismatch fields {}
  simpa [declaredTally] using h

/-- A tally without mismatch and without a field of one side only compares equal
texts, field by field. -/
theorem declaredTally_agree {fields : List String} (hm : (declaredTally E claim event fields).mismatch = false)
    (hu : (declaredTally E claim event fields).uncomparable = false) {f : String} (hf : f ∈ fields) :
    fieldText E claim f = fieldText E event f := by
  have hd : ¬ Differs E claim event f := fun h => by
    have := declaredTally_mismatch fields |>.mpr ⟨f, hf, h⟩
    rw [hm] at this
    cases this
  have hs : (fieldText E claim f).isSome = (fieldText E event f).isSome := by
    by_contra h
    have hg := foldl_gains (P := fun t : Tally => t.uncomparable = true)
      (Q := fun f => (fieldText E claim f).isSome ≠ (fieldText E event f).isSome) tallyStep_uncomparable fields {}
    have := hg.mpr (.inr ⟨f, hf, h⟩)
    rw [← declaredTally, hu] at this
    cases this
  cases hc : fieldText E claim f with
  | none => rw [hc] at hs; exact (Option.isNone_iff_eq_none.mp (by simpa using hs.symm)).symm
  | some a =>
    rw [hc] at hs
    obtain ⟨b, hb⟩ := Option.isSome_iff_exists.mp hs.symm
    rw [hb]
    by_contra hne
    exact hd ⟨a, b, hc, hb, fun hab => hne (by rw [hab])⟩

theorem declaredTally_compared {fields : List String} (h : (declaredTally E claim event fields).compared ≠ 0) :
    ∃ f ∈ fields, Shares E claim event f := by
  have hg := foldl_gains (P := fun t : Tally => t.compared ≠ 0) (Q := Shares E claim event)
    tallyStep_compared fields {}
  exact (hg.mp h).resolve_left (by simp)

theorem mem_foldl_addField {f : String} (named : List String) : ∀ fields : List String,
    f ∈ named.foldl addField fields ↔ f ∈ fields ∨ f ∈ named := by
  intro fields
  rw [foldl_gains (P := fun l => f ∈ l) (Q := fun n => f = n)]
  · simp
  · intro l n
    unfold addField
    split
    · rename_i h
      simp only [List.contains_eq_mem, decide_eq_true_eq] at h
      exact ⟨.inl, fun h' => h'.elim id fun e => e ▸ h⟩
    · simp

theorem floor_material {f : String} (h : f ∈ materialFloor) : f ∈ materialFields E vi :=
  (mem_foldl_addField _ _).mpr (.inl h)

/-- The engine agrees: it found an event, and every declared field has one text
in the claim and in it, at least one of them stated. -/
theorem materialAgreement_agree (h : materialAgreement E vi cand = .agree) :
    ∃ e, eventOf vi cand = some e ∧
      (∀ f ∈ materialFields E vi, fieldText E (vi.index "claim") f = fieldText E e f) ∧
      ∃ f ∈ materialFields E vi, Shares E (vi.index "claim") e f := by
  unfold materialAgreement at h
  split at h
  · cases h
  · split at h
    · cases h
    · rename_i e he
      dsimp only at h
      split at h
      · cases h
      · rename_i hm
        split at h
        · cases h
        · rename_i hu
          simp only [Bool.or_eq_true, beq_iff_eq, not_or, Bool.not_eq_true] at hm hu
          exact ⟨e, he, fun f hf => declaredTally_agree hm hu.1.1 hf, declaredTally_compared hu.1.2⟩

/-- The engine sees a mismatch: the flag says so, or a declared field of the
event it finds does. -/
theorem materialAgreement_mismatch : materialAgreement E vi cand = .mismatch ↔
    flag cand "material_mismatch" = true ∨
      ∃ e, eventOf vi cand = some e ∧ ∃ f ∈ materialFields E vi, Differs E (vi.index "claim") e f := by
  unfold materialAgreement
  cases flag cand "material_mismatch" with
  | true => simp
  | false =>
    cases he : eventOf vi cand with
    | none => simp
    | some e =>
      simp only [Bool.false_eq_true, if_false, false_or, Option.some.injEq, exists_eq_left',
        ← declaredTally_mismatch]
      split
      · rename_i hm; simp [hm]
      · rename_i hm
        simp only [hm]
        split <;> simp

end Fields

/-! ## MATCHED -/

section Matched

variable {E : Engine} {c : Cbor.Value} {core : Value}

/-- MATCHED and CONTRADICTED come from one candidate: the outcome is read off
the agreement with it, and the first of the two asks for finality besides. -/
theorem linkageOutcome_cases {vi : Value} {l : Linkage} {o : Outcome} (h : linkageOutcome E vi = some (l, some o))
    (ho : o = .matched ∨ o = .contradicted) :
    ∃ cand, matchCandidates vi = some [cand] ∧ (obj vi "claim").isSome = true ∧
      (o = .matched ∧ materialAgreement E vi cand = .agree ∧ flag cand "final" = true ∨
        o = .contradicted ∧ materialAgreement E vi cand = .mismatch) := by
  simp only [linkageOutcome, Option.bind_eq_bind, Option.bind_eq_some_iff] at h
  obtain ⟨cands, hc, h⟩ := h
  -- without a candidate or with two, and without a claim, the outcome is a weak one
  have hweak : ∀ b : Bool, (if b then some Outcome.claimOnly else
      if truthy (vi.get "events") then some .orphan else none) ≠ some o := by
    intro b hb
    rcases ho with rfl | rfl <;> split at hb <;> first | cases hb | (split at hb <;> cases hb)
  split at h
  · simp only [Option.pure_def, Option.some.injEq, Prod.mk.injEq] at h
    exact absurd h.2 (hweak _)
  · rename_i cand
    split at h
    · simp only [Option.pure_def, Option.some.injEq, Prod.mk.injEq] at h
      exact absurd h.2 (hweak false)
    · rename_i hclaim
      simp only [Bool.not_eq_true', Bool.not_eq_false] at hclaim
      refine ⟨cand, hc, hclaim, ?_⟩
      split at h
      · rename_i hmis
        simp only [Option.pure_def, Option.some.injEq, Prod.mk.injEq] at h
        exact .inr ⟨h.2.symm, hmis⟩
      · rename_i hagree
        simp only [Option.pure_def, Option.some.injEq, Prod.mk.injEq] at h
        obtain ⟨-, h⟩ := h
        split at h
        · rename_i hfin
          exact .inl ⟨h.symm, hagree, hfin⟩
        · rcases ho with rfl | rfl <;> cases h
      · simp only [Option.pure_def, Option.some.injEq, Prod.mk.injEq] at h
        rcases ho with rfl | rfl <;> cases h.2
  · simp only [Option.pure_def, Option.some.injEq, Prod.mk.injEq] at h
    exact absurd h.2 (hweak _)

theorem nodup_singleton {α : Type} {l : List α} {a : α} (hn : l.Nodup) (ha : a ∈ l) (h : ∀ b ∈ l, b = a) : l = [a] := by
  cases l with
  | nil => cases ha
  | cons x xs =>
    have hx := h x List.mem_cons_self
    subst hx
    cases xs with
    | nil => rfl
    | cons y ys =>
      have hy := h y (by simp)
      subst hy
      simp at hn

/-- With one candidate there is one linked event: the one it names. A second
linked event would have a candidate of its own. -/
theorem linked_of_candidate (h : checkMatches E core = true) {cand : Value}
    (hc : (arr core "event_matches").filter candidate = [cand]) :
    ∃ ev, MatchFlags E core cand ev ∧ linked E core = [(matchKey E cand, ev)] := by
  have hmem : cand ∈ (arr core "event_matches").filter candidate := by rw [hc]; exact List.mem_cons_self
  obtain ⟨hcm, hcand⟩ := List.mem_filter.mp hmem
  obtain ⟨ev, hf⟩ := match_flags h hcm
  refine ⟨ev, hf, nodup_singleton ?_ ?_ ?_⟩
  · exact ((dedupLoop_keys (arr core "events") []).1.of_map _).filter _
  · exact List.mem_filter.mpr ⟨hf.named, by rw [← hf.link, hcand]⟩
  · intro q hq
    obtain ⟨m, hm, hk, hmc⟩ := linked_matched h hq
    have : m ∈ (arr core "event_matches").filter candidate := List.mem_filter.mpr ⟨hm, hmc⟩
    rw [hc, List.mem_singleton] at this
    subst this
    exact dedupedEvents_inj (List.mem_filter.mp hq).1 hf.named hk.symm

/-- MATCHED is about the linked event: there is one, it is final, the claim and
it agree on the floor, and a declared field was compared. It speaks of the
carried core and not of the match. -/
def MatchedLaw (E : Engine) (core : Value) : Prop :=
  ∃ k ev, linked E core = [(k, ev)] ∧ isFinal E ev ((core.index "coverage_doc").get "finality_rule") = true ∧
    (∀ f ∈ materialFloor, Agrees E (claimOf core) ev f) ∧
    ∃ f ∈ materialFields E (core.index "verdict_input"), Shares E (claimOf core) ev f

/-- The event the engine finds for the linked match has the linked event's texts
on the floor and on some declared field. It looks the key up as a text, in the
raw list, and may find another. -/
def SameTexts (E : Engine) (core : Value) : Prop :=
  ∀ p ∈ linked E core, ∀ m ∈ arr core "event_matches", candidate m = true →
    ∃ e, eventOf (core.index "verdict_input") m = some e ∧
      (∀ f ∈ materialFloor, fieldText E p.2 f = fieldText E e f) ∧
      ∃ f ∈ materialFields E (core.index "verdict_input"), Shares E p.2 e f

theorem matched_iff (E : Engine) (c : Cbor.Value) (core : Value) (trust : Option Value)
    (hgate : gatedCore c = .ok core) (hecho : checkInputEcho core = true) (hmatches : checkMatches E core = true)
    (hout : (deriveVectorWithTrust E (core.index "verdict_input") trust).outcome = some .matched) :
    MatchedLaw E core ↔ SameTexts E core := by
  have hech := echoed hgate hecho
  have hlink : linkageOutcome E (core.index "verdict_input") =
      some ((deriveVectorWithTrust E (core.index "verdict_input") trust).linkage, some .matched) := by
    rcases deriveVector_derived E (core.index "verdict_input") trust with hd | ⟨-, hw⟩
    · rw [hd.linkage, hout]
    · rw [hw, weakVector_eq] at hout
      cases hout
  obtain ⟨cand, hcands, hclaim, ⟨-, hagree, hfin⟩ | ⟨hno, -⟩⟩ := linkageOutcome_cases hlink (.inl rfl)
  case inr => cases hno
  have hone : (arr core "event_matches").filter candidate = [cand] :=
    Option.some.inj (hech.candidates.symm.trans hcands)
  obtain ⟨ev, hflags, hlinked⟩ := linked_of_candidate hmatches hone
  obtain ⟨e, hfind, hall, hsome⟩ := materialAgreement_agree hagree
  obtain ⟨cl, hcl⟩ := Option.isSome_iff_exists.mp hclaim
  rw [index_of_obj hcl, ← show claimOf core = cl by rw [claimOf, ← hech.claim, hcl]; rfl] at hall hsome
  constructor
  · rintro ⟨k, ev', hl, -, hfloor, f, hf, t, ht, ht'⟩
    rw [hlinked] at hl
    cases hl
    intro p hp m hm hmc
    rw [hlinked, List.mem_singleton] at hp
    subst hp
    have hmem : m ∈ (arr core "event_matches").filter candidate := List.mem_filter.mpr ⟨hm, hmc⟩
    rw [hone, List.mem_singleton] at hmem
    subst hmem
    refine ⟨e, hfind, fun g hg => ?_, f, hf, t, ht', by rw [← hall f hf, ht]⟩
    rw [← hall g (floor_material hg), (agrees_iff _ _ _).mp (hfloor g hg)]
  · intro hsame
    have hcm : cand ∈ (arr core "event_matches").filter candidate := by rw [hone]; exact List.mem_cons_self
    obtain ⟨e', hfind', hfloor, f, hf, t, ht, ht'⟩ :=
      hsame (matchKey E cand, ev) (by rw [hlinked]; exact List.mem_cons_self) cand (List.mem_filter.mp hcm).1
        (List.mem_filter.mp hcm).2
    cases hfind.symm.trans hfind'
    refine ⟨_, ev, hlinked, by rw [← hflags.final, hfin], fun g hg => ?_, f, hf, t, by rw [hall f hf, ht'], ht⟩
    rw [agrees_iff, hall g (floor_material hg), hfloor g hg]

end Matched

/-! A claim of one payment, and the source's events. -/

def members (l : List (String × Cbor.Value)) : Cbor.Value := .map (l.map fun p => (.text p.1, p.2))

/-- A core whose verdict input echoes its claim, its events and their matches,
and which has nothing else to check. -/
def linkCore (claim coverage : Cbor.Value) (events ms : List Cbor.Value) : Cbor.Value :=
  members [("bundle", members []), ("claim", claim), ("coverage_doc", coverage), ("event_matches", .array ms),
    ("events", .array events), ("limitations", .array []), ("open_findings", .array []),
    ("proof_digests", .array []), ("schema", .text coreSchema), ("subject", members []),
    ("verdict_input", members [("claim", claim), ("event_matches", .array ms), ("events", .array events)])]

def eventMatch (key : String) (echo mismatch : Bool) : Cbor.Value :=
  members [("echoed_action_id", .bool echo), ("event_key", .text key), ("final", .bool true),
    ("immutable_ref_match", .bool false), ("material_mismatch", .bool mismatch), ("unique_field_match", .bool false)]

def sourceEvent (key : Cbor.Value) (reference : String) (fields : List (String × Cbor.Value)) : Cbor.Value :=
  members ([("event_key", key), ("finality", .text "settled"), ("reference", .text reference)] ++ fields)

def settled : List (String × Cbor.Value) := [("finality_rule", .text "settled")]

def paymentClaim (field text : String) : Cbor.Value :=
  members [("action_class", .text "pay"), ("action_id", .text "act-1"), (field, .text text)]

def engine : Engine := referenceEngine L1.Reference.blank

/-- The JSON of a core that passes the gates, null otherwise, so that facts
about it can be evaluated. -/
def gatedValue (c : Cbor.Value) : Value :=
  match gatedCore c with
  | .ok j => j
  | .error _ => .null

theorem gatedCore_ok {c : Cbor.Value} (h : (gatedCore c).isOk = true) : gatedCore c = .ok (gatedValue c) := by
  unfold gatedValue
  cases hg : gatedCore c with
  | ok j => rfl
  | error code => rw [hg] at h; cases h

/-- What both laws above assume of a core, evaluated in one go. -/
def matchedCheck (c : Cbor.Value) : Bool :=
  (gatedCore c).isOk && checkInputEcho (gatedValue c) && checkMatches engine (gatedValue c) &&
    (deriveVectorWithTrust engine ((gatedValue c).index "verdict_input") none).outcome == some .matched

/-- One event, with the key `1`, which the claim repeats. -/
def honestCore : Cbor.Value :=
  linkCore (paymentClaim "value" "100") (members settled) [sourceEvent (.text "1") "act-1" [("value", .text "100")]]
    [eventMatch "1" true false]

theorem honest_checks : matchedCheck honestCore = true ∧
    ((linked engine (gatedValue honestCore)).map fun p =>
      (isFinal engine p.2 (((gatedValue honestCore).index "coverage_doc").get "finality_rule"),
        materialFloor.map (fieldText engine p.2))) = [(true, [some "100", none, none])] ∧
    materialFloor.map (fieldText engine (claimOf (gatedValue honestCore))) = [some "100", none, none] := by
  decide +kernel

/-- MATCHED about the one event there is: both sides of the condition are true
here. -/
theorem matched_honest : MatchedLaw engine (gatedValue honestCore) ∧ SameTexts engine (gatedValue honestCore) := by
  obtain ⟨hcheck, hlinked, hclaim⟩ := honest_checks
  simp only [matchedCheck, Bool.and_eq_true, beq_iff_eq] at hcheck
  obtain ⟨⟨k, ev⟩, hl, hev⟩ := List.map_eq_singleton_iff.mp hlinked
  simp only [Prod.mk.injEq, materialFloor, List.map_cons, List.map_nil, List.cons.injEq, and_true] at hev hclaim
  have hlaw : MatchedLaw engine (gatedValue honestCore) := by
    refine ⟨k, ev, hl, hev.1, fun f hf => ?_, "value", floor_material (by decide), "100", hclaim.1, hev.2.1⟩
    rw [agrees_iff]
    simp only [materialFloor, List.mem_cons, List.not_mem_nil, or_false] at hf
    rcases hf with rfl | rfl | rfl
    · rw [hclaim.1, hev.2.1]
    · rw [hclaim.2.1, hev.2.2.1]
    · rw [hclaim.2.2, hev.2.2.2]
  exact ⟨hlaw, (matched_iff engine honestCore (gatedValue honestCore) none (gatedCore_ok hcheck.1.1.1) hcheck.1.1.2
    hcheck.1.2 hcheck.2).mp hlaw⟩

/-- The linked event has the number 5 for a key and states no value; another
event has the text 5 and the value of the claim. -/
def twoKeysCore : Cbor.Value :=
  linkCore (paymentClaim "value" "100") (members settled)
    [sourceEvent (.integer 5) "act-1" [], sourceEvent (.text "5") "other" [("value", .text "100")]]
    [eventMatch "5" true false]

theorem twoKeys_checks : matchedCheck twoKeysCore = true ∧
    ((linked engine (gatedValue twoKeysCore)).map fun p => fieldText engine p.2 "value") = [none] ∧
    fieldText engine (claimOf (gatedValue twoKeysCore)) "value" = some "100" := by
  decide +kernel

/-- MATCHED, although the linked event states no value: the engine has compared
the claim with the other event. -/
theorem matched_other_event : gatedCore twoKeysCore = .ok (gatedValue twoKeysCore) ∧
    checkInputEcho (gatedValue twoKeysCore) = true ∧ checkMatches engine (gatedValue twoKeysCore) = true ∧
    (deriveVectorWithTrust engine ((gatedValue twoKeysCore).index "verdict_input") none).outcome = some .matched ∧
    ¬ MatchedLaw engine (gatedValue twoKeysCore) := by
  obtain ⟨hcheck, hlinked, hclaim⟩ := twoKeys_checks
  simp only [matchedCheck, Bool.and_eq_true, beq_iff_eq] at hcheck
  refine ⟨gatedCore_ok hcheck.1.1.1, hcheck.1.1.2, hcheck.1.2, hcheck.2, ?_⟩
  rintro ⟨k, ev, hl, -, hfloor, -⟩
  rw [hl] at hlinked
  have hagree := (agrees_iff _ _ _).mp (hfloor "value" (by decide))
  rw [hclaim, show fieldText engine ev "value" = none from List.head_eq_of_cons_eq hlinked] at hagree
  cases hagree

/-! ## CONTRADICTED -/

section Contradicted

variable {E : Engine} {core : Value}

/-- With one linked event, the candidates are the matches that name it. A match
of another key is no candidate, since its link flag is recomputed. -/
theorem candidate_iff_key (h : checkMatches E core = true) {k : String} {ev : Value}
    (hl : linked E core = [(k, ev)]) {m : Value} (hm : m ∈ arr core "event_matches") :
    candidate m = (matchKey E m == k) := by
  obtain ⟨ev', hf⟩ := match_flags h hm
  have hev : (k, ev) ∈ linked E core := by rw [hl]; exact List.mem_cons_self
  obtain ⟨hmem, hany⟩ := List.mem_filter.mp hev
  rw [Bool.eq_iff_iff, beq_iff_eq]
  constructor
  · intro hc
    have : (matchKey E m, ev') ∈ linked E core := List.mem_filter.mpr ⟨hf.named, by rw [← hf.link, hc]⟩
    rw [hl, List.mem_singleton] at this
    exact (Prod.mk.inj this).1
  · intro hk
    have := dedupedEvents_inj hf.named hmem hk
    cases this
    rw [hf.link, hany]

/-- The claim and the one linked event both state a material field, with
different texts. Which fields are material, the coverage document says. -/
structure Contradicts (E : Engine) (core claim : Value) (k : String) (ev : Value) (f : String) : Prop where
  hasClaim : obj core "claim" = some claim
  oneLinked : linked E core = [(k, ev)]
  material : f ∈ mismatchFields E claim (core.index "coverage_doc")
  stated : (claim.getSome f).isSome = true ∧ (ev.getSome f).isSome = true
  pyTexts : pystr E (claim.getSome f) ≠ pystr E (ev.getSome f)
  fieldTexts : fieldText E claim f ≠ fieldText E ev f

theorem Contradicts.mismatch {claim ev : Value} {k f : String} (h : Contradicts E core claim k ev f) :
    materialMismatch E claim ev (core.index "coverage_doc") = true := by
  obtain ⟨l, hl⟩ := Option.isSome_iff_exists.mp h.stated.1
  obtain ⟨r, hr⟩ := Option.isSome_iff_exists.mp h.stated.2
  have hpy := h.pyTexts
  rw [hl, hr] at hpy
  exact List.any_eq_true.mpr ⟨f, h.material, by simp [fieldMismatch, hl, hr, hpy]⟩

theorem linkageOutcome_contradicted {vi : Value} : (∃ l, linkageOutcome E vi = some (l, some .contradicted)) ↔
    ∃ cand, matchCandidates vi = some [cand] ∧ (obj vi "claim").isSome = true ∧
      materialAgreement E vi cand = .mismatch := by
  constructor
  · rintro ⟨l, h⟩
    obtain ⟨cand, hc, hclaim, ⟨hno, -⟩ | ⟨-, hmis⟩⟩ := linkageOutcome_cases h (.inr rfl)
    · cases hno
    · exact ⟨cand, hc, hclaim, hmis⟩
  · rintro ⟨cand, hc, hclaim, hmis⟩
    refine ⟨if flag cand "echoed_action_id" then .direct else .deterministic, ?_⟩
    simp [linkageOutcome, hc, hclaim, hmis]

/-- The match of the linked event is the only match; or it is the only one of
that event, and the event the engine finds for it differs from the claim in a
field of the floor or of the source manifest. In the first case the flag tells
the mismatch, in the second the engine sees it by itself. -/
def Unsoftened (E : Engine) (core : Value) (k : String) : Prop :=
  (arr core "event_matches").length = 1 ∨
    ∃ m e, (arr core "event_matches").filter (fun n => matchKey E n == k) = [m] ∧
      eventOf (core.index "verdict_input") m = some e ∧
      ∃ f ∈ materialFields E (core.index "verdict_input"), Differs E (claimOf core) e f

theorem contradicted_iff (E : Engine) (c : Cbor.Value) (core claim : Value) (k : String) (ev : Value) (f : String)
    (hgate : gatedCore c = .ok core) (hecho : checkInputEcho core = true) (hmatches : checkMatches E core = true)
    (h : Contradicts E core claim k ev f) :
    (∃ linkage, linkageOutcome E (core.index "verdict_input") = some (linkage, some .contradicted)) ↔
      Unsoftened E core k := by
  have hech := echoed hgate hecho
  have hlinked := h.oneLinked
  have hcl : claimOf core = claim := by rw [claimOf, h.hasClaim]; rfl
  have hidx : (core.index "verdict_input").index "claim" = claim := index_of_obj (hech.claim.trans h.hasClaim)
  have hfilter : (arr core "event_matches").filter candidate =
      (arr core "event_matches").filter fun n => matchKey E n == k :=
    List.filter_congr fun m hm => candidate_iff_key hmatches hlinked hm
  -- the flag of the linked event's match says whether it is the only one
  have hflag : ∀ m ∈ arr core "event_matches", matchKey E m = k →
      flag m "material_mismatch" = ((arr core "event_matches").length == 1) := by
    intro m hm hk
    obtain ⟨ev', hfl⟩ := match_flags hmatches hm
    have hev : (k, ev) ∈ linked E core := by rw [hlinked]; exact List.mem_cons_self
    have := dedupedEvents_inj hfl.named (List.mem_filter.mp hev).1 hk
    cases this
    rw [hfl.mismatch, hcl, h.mismatch, Bool.and_true]
  rw [linkageOutcome_contradicted, hech.candidates, hech.claim, h.hasClaim, hfilter]
  simp only [Option.some.injEq, Option.isSome_some, true_and, materialAgreement_mismatch, hidx]
  constructor
  · rintro ⟨cand, hone, hcase⟩
    have hmem : cand ∈ (arr core "event_matches").filter fun n => matchKey E n == k := by
      rw [hone]; exact List.mem_cons_self
    obtain ⟨hcm, hk⟩ := List.mem_filter.mp hmem
    rcases hcase with hc | ⟨e, he, hd⟩
    · rw [hflag cand hcm (beq_iff_eq.mp hk), beq_iff_eq] at hc
      exact .inl hc
    · exact .inr ⟨cand, e, hone, he, by rwa [hcl]⟩
  · rintro (hlen | ⟨m, e, hone, he, hd⟩)
    · obtain ⟨m, hm⟩ := List.length_eq_one_iff.mp hlen
      obtain ⟨n, hn, hk, -⟩ := linked_matched hmatches (p := (k, ev)) (by rw [hlinked]; exact List.mem_cons_self)
      have hnm : n = m := by rw [hm, List.mem_singleton] at hn; exact hn
      subst hnm
      refine ⟨n, by rw [hm]; simp [hk], .inl ?_⟩
      rw [hflag n hn hk, hlen]
      rfl
    · exact ⟨m, hone, .inr ⟨e, he, by rwa [hcl] at hd⟩⟩

end Contradicted

/-- What `Contradicts` says of a core, evaluated in one go. -/
def contradictsCheck (c : Cbor.Value) (f : String) : Bool :=
  (gatedCore c).isOk && checkInputEcho (gatedValue c) && checkMatches engine (gatedValue c) &&
    (obj (gatedValue c) "claim").any fun claim =>
      match linked engine (gatedValue c) with
      | [(_, ev)] => (mismatchFields engine claim ((gatedValue c).index "coverage_doc")).contains f &&
        (claim.getSome f).isSome && (ev.getSome f).isSome &&
        pystr engine (claim.getSome f) != pystr engine (ev.getSome f) && fieldText engine claim f != fieldText engine ev f
      | _ => false

theorem contradicts_of_check {c : Cbor.Value} {f : String} (h : contradictsCheck c f = true) :
    gatedCore c = .ok (gatedValue c) ∧ checkInputEcho (gatedValue c) = true ∧
      checkMatches engine (gatedValue c) = true ∧
      ∃ claim k ev, Contradicts engine (gatedValue c) claim k ev f := by
  simp only [contradictsCheck, Bool.and_eq_true, Option.any_eq_true] at h
  obtain ⟨⟨⟨hok, hecho⟩, hmatches⟩, claim, hclaim, h⟩ := h
  split at h
  · rename_i k ev hlinked
    simp only [Bool.and_eq_true, bne_iff_ne, List.contains_iff_mem] at h
    exact ⟨gatedCore_ok hok, hecho, hmatches, claim, k, ev,
      ⟨hclaim, hlinked, h.1.1.1.1, ⟨h.1.1.1.2, h.1.1.2⟩, h.1.2, h.2⟩⟩
  · cases h

/-- The event says 90 where the claim says 100. -/
def lyingCore : Cbor.Value :=
  linkCore (paymentClaim "value" "100") (members settled) [sourceEvent (.text "1") "act-1" [("value", .text "90")]]
    [eventMatch "1" true true]

/-- A contradiction with a single match is reported. -/
theorem contradicted_lying : ∃ linkage,
    linkageOutcome engine ((gatedValue lyingCore).index "verdict_input") = some (linkage, some .contradicted) := by
  have hcheck : contradictsCheck lyingCore "value" = true ∧
      (arr (gatedValue lyingCore) "event_matches").length = 1 := by decide +kernel
  obtain ⟨hok, hecho, hmatches, claim, k, ev, hc⟩ := contradicts_of_check hcheck.1
  exact (contradicted_iff engine lyingCore (gatedValue lyingCore) claim k ev "value" hok hecho hmatches hc).mpr
    (.inl hcheck.2)

/-- The account numbers differ, the coverage document makes them material, and a
match of an event that is not linked is carried beside. The flag is then not
computed, and the account number is no field of the floor. -/
def paddedCore : Cbor.Value :=
  linkCore (paymentClaim "iban" "A")
    (members (settled ++ [("material_fields", members [("pay", .array [.text "iban"])])]))
    [sourceEvent (.text "1") "act-1" [("iban", .text "B")], sourceEvent (.text "2") "other" []]
    [eventMatch "1" true false, eventMatch "2" false false]

/-- The padded contradiction is reported as an open claim, though the core
passes every check. -/
theorem contradicted_softened : gatedCore paddedCore = .ok (gatedValue paddedCore) ∧
    checkInputEcho (gatedValue paddedCore) = true ∧ checkMatches engine (gatedValue paddedCore) = true ∧
    (∃ claim k ev, Contradicts engine (gatedValue paddedCore) claim k ev "iban") ∧
    linkageOutcome engine ((gatedValue paddedCore).index "verdict_input") = some (.direct, some .claimOnly) := by
  have hcheck : contradictsCheck paddedCore "iban" = true ∧
      linkageOutcome engine ((gatedValue paddedCore).index "verdict_input") = some (.direct, some .claimOnly) := by
    decide +kernel
  obtain ⟨hok, hecho, hmatches, hc⟩ := contradicts_of_check hcheck.1
  exact ⟨hok, hecho, hmatches, hc, hcheck.2⟩

end SwarrmVerify.L5.Matching
