import SwarrmVerify.L5Guarantees.Matching

/-!
# Unique linkage (`certificate.rs`, `action.rs`)

The verdict engine counts the match objects of the verdict input that carry a
link flag, and calls the linkage unique if there is one. It never sees the
events themselves. The certificate layer recomputes those flags over the
deduplicated events, requires a match for every event that it links, and
compares the matches of the input with those of the core. So the count cannot
be lower than the number of linked events.

The comparison is the `==` of `serde_json`, under which equal values look up
equal members (`lookup_eqv`); the flags that the engine reads from the input
are those of the core, one match for one (`candidates_echoed`).

Nothing is assumed of the core or of the context: a core that fails a check has
no linkage to speak of.

**Results.**
* `match_echo`: an event whose flags a match carries, and that match's echo
  flag.
* `linked_single`, `linked_none`: with one match that carries a link flag there
  is one linked event, with none there is none.
* `linkage_unique`: DIRECT and DETERMINISTIC are about the only linked event,
  NONE about none, and DIRECT about one that echoes the action.
-/
namespace SwarrmVerify.L5.Linkage
open SwarrmVerify.L4.Action SwarrmVerify.L4.Certificate SwarrmVerify.L5.Matching

/-! ## Equal values -/

/-- Equal values look up equal members. -/
theorem lookup_eqv {m n : List (String × Value)} (h : Value.eqvMembers m n = true) (k : String) :
    Value.eqvOpt (m.lookup k) (n.lookup k) = true := by
  induction m generalizing n with
  | nil =>
    cases n with
    | nil => rfl
    | cons q n => cases h
  | cons p m ih =>
    cases n with
    | nil => cases h
    | cons q n =>
      obtain ⟨j, x⟩ := p
      obtain ⟨j', y⟩ := q
      simp only [Value.eqvMembers, Bool.and_eq_true, beq_iff_eq] at h
      obtain ⟨⟨rfl, hx⟩, hm⟩ := h
      simp only [List.lookup_cons]
      split
      · exact hx
      · exact ih hm

theorem isObject_eqv {v w : Value} (h : v.eqv w = true) : v.isObject = w.isObject := by
  cases v <;> cases w <;> first | rfl | cases h

theorem get_eqv {v w : Value} (h : v.eqv w = true) (k : String) : Value.eqvOpt (v.get k) (w.get k) = true := by
  cases v with
  | object m =>
    cases w with
    | object n => exact lookup_eqv (by simpa only [Value.eqv] using h) k
    | _ => cases h
  | _ => cases w <;> first | rfl | cases h

theorem flag_eqv {v w : Value} (h : v.eqv w = true) (k : String) : flag v k = flag w k := by
  have hget := get_eqv h k
  unfold flag
  cases hv : v.get k with
  | none =>
    rw [hv] at hget
    cases hw : w.get k with
    | none => rfl
    | some y => rw [hw] at hget; cases hget
  | some x =>
    rw [hv] at hget
    cases hw : w.get k with
    | none => rw [hw] at hget; cases hget
    | some y =>
      rw [hw] at hget
      cases x <;> cases y <;> simp_all [Value.eqvOpt, Value.eqv, asBool]

theorem candidate_eqv {v w : Value} (h : v.eqv w = true) : candidate v = candidate w := by
  simp only [candidate, isObject_eqv h, flag_eqv h]

theorem forall₂_eqv {xs : List Value} : ∀ {ys : List Value}, Value.eqvItems xs ys = true →
    List.Forall₂ (fun x y => x.eqv y = true) xs ys := by
  induction xs with
  | nil =>
    intro ys h
    cases ys with
    | nil => exact .nil
    | cons y ys => cases h
  | cons x xs ih =>
    intro ys h
    cases ys with
    | nil => cases h
    | cons y ys =>
      simp only [Value.eqvItems, Bool.and_eq_true] at h
      exact .cons h.1 (ih h.2)

/-! ## The matches the engine counts -/

section Count

variable {E : Engine} {core : Value}

/-- What is no list yields no match object. -/
theorem iterItems_scalar {v : Value} (h : ∀ xs, v ≠ .array xs) {items : List Value}
    (hi : iterItems (some v) = some items) : items.filter candidate = [] := by
  have hstr : ∀ s, candidate (.string s) = false := fun s => rfl
  cases v with
  | array xs => exact absurd rfl (h xs)
  | null => cases hi; rfl
  | bool b => cases b <;> simp_all [iterItems]
  | number n =>
    simp only [iterItems] at hi
    split at hi
    · cases hi; rfl
    · cases hi
  | string s => cases hi; simp [List.filter_eq_nil_iff, hstr]
  | object m =>
    cases hi
    refine List.filter_eq_nil_iff.mpr fun a ha => ?_
    obtain ⟨q, -, rfl⟩ := List.mem_map.mp ha
    simp [hstr]

/-- The engine's candidates are the core's, one for one. -/
theorem candidates_echoed (he : checkInputEcho core = true) {cands : List Value}
    (hc : matchCandidates (core.index "verdict_input") = some cands) :
    List.Forall₂ (fun x y => x.eqv y = true) ((arr core "event_matches").filter candidate) cands := by
  simp only [checkInputEcho, Bool.and_eq_true] at he
  have hms := he.1.2
  obtain ⟨items, hitems, rfl⟩ := Option.map_eq_some_iff.mp hc
  cases hcore : core.index "event_matches" with
  | array xs =>
    have harr : arr core "event_matches" = xs := by
      cases hget : core.get "event_matches" with
      | none => simp [Value.index, hget] at hcore
      | some w =>
        have : w = .array xs := by simpa [Value.index, hget] using hcore
        simp [arr, Value.getArray, hget, this, Value.asArray]
    rw [hcore] at hms
    obtain ⟨ys, hys⟩ : ∃ ys, (((core.index "verdict_input").get "event_matches").filter fun v =>
        truthy (some v)).getD (.array []) = .array ys := by
      generalize (((core.index "verdict_input").get "event_matches").filter fun v =>
        truthy (some v)).getD (.array []) = w at hms
      cases w with
      | array ys => exact ⟨ys, rfl⟩
      | _ => cases hms
    rw [hys] at hms
    rw [(listed_eq hys).1] at hitems
    cases hitems
    rw [harr]
    refine List.rel_filter (fun x y h => ?_) (forall₂_eqv (by simpa only [Value.eqv] using hms))
    show candidate x = true ↔ candidate y = true
    rw [candidate_eqv h]
  | _ =>
    -- a list in one carriage only is refused
    have hne : ∀ xs, core.index "event_matches" ≠ .array xs := by simp [hcore]
    have harr : arr core "event_matches" = [] := by
      cases hget : core.get "event_matches" with
      | none => simp [arr, Value.getArray, hget]
      | some w =>
        have hw : core.index "event_matches" = w := by simp [Value.index, hget]
        cases w with
        | array xs => exact absurd hw (hne xs)
        | _ => simp [arr, Value.getArray, hget, Value.asArray]
    rw [harr]
    suffices items.filter candidate = [] by rw [this]; exact .nil
    cases hv : (core.index "verdict_input").get "event_matches" with
    | none => rw [hv] at hitems; cases hitems; rfl
    | some v =>
      rw [hv] at hitems hms
      refine iterItems_scalar (fun xs hxs => ?_) hitems
      subst hxs
      have hnil : ((some (Value.array xs)).filter fun v => truthy (some v)).getD (.array []) = .array xs := by
        cases xs <;> rfl
      rw [hnil, hcore] at hms
      cases hms

theorem linked_nodup : (linked E core).Nodup :=
  (List.Nodup.of_map _ (dedupLoop_keys (arr core "events") []).1).filter _

/-- An event whose flags a match carries, and that match's echo flag. -/
theorem match_echo (h : checkMatches E core = true) {m : Value} (hm : m ∈ (arr core "event_matches").filter candidate) :
    ∃ p ∈ linked E core, p.1 = matchKey E m ∧
      flag m "echoed_action_id" = (linkFlags E (claimOf core) p.2 (core.index "coverage_doc")).echo := by
  obtain ⟨hmem, hcand⟩ := List.mem_filter.mp hm
  obtain ⟨ev, hf⟩ := match_flags h hmem
  obtain ⟨ev', hnamed, hflags⟩ := match_named h hmem
  cases dedupedEvents_inj hf.named hnamed rfl
  simp only [flagsEqual, List.all_cons, Bool.and_eq_true] at hflags
  exact ⟨(matchKey E m, ev), List.mem_filter.mpr ⟨hnamed, by rw [← hf.link, hcand]⟩, rfl,
    (flag_of_eqv hflags.1).1⟩

/-- With one match that carries a link flag there is one linked event. -/
theorem linked_single (h : checkMatches E core = true) {m : Value}
    (hm : (arr core "event_matches").filter candidate = [m]) :
    ∃ p, linked E core = [p] ∧
      flag m "echoed_action_id" = (linkFlags E (claimOf core) p.2 (core.index "coverage_doc")).echo := by
  obtain ⟨p, hp, hkey, hecho⟩ := match_echo h (m := m) (by rw [hm]; exact List.mem_cons_self)
  refine ⟨p, ?_, hecho⟩
  have hall : ∀ q ∈ linked E core, q = p := by
    intro q hq
    obtain ⟨m', hm', hkey', hcand⟩ := linked_matched h hq
    have hmem : m' ∈ (arr core "event_matches").filter candidate := List.mem_filter.mpr ⟨hm', hcand⟩
    rw [hm, List.mem_singleton] at hmem
    subst hmem
    exact dedupedEvents_inj (List.mem_filter.mp hq).1 (List.mem_filter.mp hp).1 (hkey'.symm.trans hkey.symm)
  have hrep : linked E core = List.replicate (linked E core).length p := List.eq_replicate_of_mem hall
  have hle : (linked E core).length ≤ 1 := by
    have hnd := @linked_nodup E core
    rw [hrep] at hnd
    exact List.nodup_replicate.mp hnd
  have hpos : 0 < (linked E core).length := List.length_pos_of_mem hp
  rw [hrep, show (linked E core).length = 1 by omega]
  rfl

theorem linked_none (h : checkMatches E core = true) (hm : (arr core "event_matches").filter candidate = []) :
    linked E core = [] := by
  refine List.eq_nil_iff_forall_not_mem.mpr fun p hp => ?_
  obtain ⟨m, hmem, -, hcand⟩ := linked_matched h hp
  have : m ∈ (arr core "event_matches").filter candidate := List.mem_filter.mpr ⟨hmem, hcand⟩
  rw [hm] at this
  cases this

end Count

/-! ## The linkage -/

/-- The event states the action of the claim: in its reference, or in the
field that the coverage document correlates by. -/
def Echoes (E : Engine) (claim ev man : Value) : Prop :=
  textOrEmpty E claim "action_id" ≠ "" ∧
    (pystr E (ev.get "reference") = textOrEmpty E claim "action_id" ∨
      ∃ field, man.getStr "correlation_field" = some field ∧ field ≠ "" ∧
        pystr E (ev.get field) = textOrEmpty E claim "action_id")

theorem echoes_of_flag {E : Engine} {claim ev man : Value} (h : (linkFlags E claim ev man).echo = true) :
    Echoes E claim ev man := by
  simp only [linkFlags, Bool.and_eq_true, bne_iff_ne, Bool.or_eq_true, beq_iff_eq] at h
  obtain ⟨htoken, ⟨hcorr, hfield⟩ | href⟩ := h
  · refine ⟨htoken, .inr ?_⟩
    cases hc : man.getStr "correlation_field" with
    | none => rw [hc] at hcorr; exact absurd rfl hcorr
    | some field =>
      rw [hc] at hcorr hfield
      exact ⟨field, rfl, hcorr, hfield⟩
  · exact ⟨htoken, .inl href⟩

/-- The number of candidates decides the linkage. -/
theorem linkageOutcome_linkage {E : Engine} {vi : Value} {l : Linkage} {o : Option Outcome}
    (h : linkageOutcome E vi = some (l, o)) :
    ∃ cands, matchCandidates vi = some cands ∧
      ((cands = [] ∧ l = .none) ∨
        (∃ c, cands = [c] ∧ l = if flag c "echoed_action_id" then .direct else .deterministic) ∨ l = .ambiguous) := by
  simp only [linkageOutcome, Option.bind_eq_bind, Option.bind_eq_some_iff] at h
  obtain ⟨cands, hc, h⟩ := h
  refine ⟨cands, hc, ?_⟩
  match cands, h with
  | [], h => cases h; exact .inl ⟨rfl, rfl⟩
  | [c], h =>
    refine .inr (.inl ⟨c, rfl, ?_⟩)
    dsimp only at h
    split at h
    · cases h; rfl
    · split at h <;> (cases h; rfl)
  | _ :: _ :: _, h => cases h; exact .inr (.inr rfl)

/-- A second linked event can be neither dropped nor hidden: whatever the core
carries, a unique linkage is about the only event that the certificate layer
links. -/
theorem linkage_unique (E : Engine) (core : Value) (hmatches : checkMatches E core = true)
    (hecho : checkInputEcho core = true) (l : Linkage) (o : Option Outcome)
    (h : linkageOutcome E (core.index "verdict_input") = some (l, o)) :
    (l = .direct ∨ l = .deterministic → ∃ p, linked E core = [p]) ∧ (l = .none → linked E core = []) ∧
      (l = .direct → ∃ p, linked E core = [p] ∧ Echoes E (claimOf core) p.2 (core.index "coverage_doc")) := by
  obtain ⟨cands, hc, hcases⟩ := linkageOutcome_linkage h
  have hrel := candidates_echoed hecho hc
  rcases hcases with ⟨rfl, rfl⟩ | ⟨c, rfl, hl⟩ | rfl
  · exact ⟨nofun, fun _ => linked_none hmatches (List.forall₂_nil_right_iff.mp hrel), nofun⟩
  · obtain ⟨m, t, hmc, hnil, hm⟩ := List.forall₂_cons_right_iff.mp hrel
    obtain rfl := List.forall₂_nil_right_iff.mp hnil
    obtain ⟨p, hp, hflag⟩ := linked_single hmatches hm
    refine ⟨fun _ => ⟨p, hp⟩, fun hnone => ?_, fun hdirect => ⟨p, hp, echoes_of_flag ?_⟩⟩
    · rw [hl] at hnone
      split at hnone <;> cases hnone
    · rw [← hflag, flag_eqv hmc]
      by_contra hno
      rw [hl, if_neg hno] at hdirect
      cases hdirect
  · exact ⟨fun h => (h.elim nofun nofun : False).elim, nofun, nofun⟩

/-- One of two events is linked, and its match is counted. -/
theorem linkage_unique_padded :
    ∃ p, linked engine (gatedValue paddedCore) = [p] ∧
      Echoes engine (claimOf (gatedValue paddedCore)) p.2 ((gatedValue paddedCore).index "coverage_doc") := by
  have hcheck : checkMatches engine (gatedValue paddedCore) = true ∧ checkInputEcho (gatedValue paddedCore) = true ∧
      linkageOutcome engine ((gatedValue paddedCore).index "verdict_input") = some (.direct, some .claimOnly) := by
    decide +kernel
  exact (linkage_unique engine (gatedValue paddedCore) hcheck.1 hcheck.2.1 .direct _ hcheck.2.2).2.2 rfl

end SwarrmVerify.L5.Linkage
