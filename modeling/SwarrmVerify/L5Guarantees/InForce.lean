import SwarrmVerify.Core.Effective
import SwarrmVerify.L5Guarantees.Roots

/-!
# Authority at every instant

What a verified authority stands for. The grant that the intent names was
issued under the root in force, its revisions are dense, it is not revoked, and
the documents that `docs_cover` looks at permit the action.

The law of the specification is about the document in force at each instant of
the interval in which the action happened: the revision that took effect last.
The loop keeps the highest version effective by the lower bound and every
version that takes effect inside. The highest version need not be the latest. A
revision may be numbered above another and take effect before it, and then the
loop looks at the wrong one of the two.

**Results.**
* `docsCover_iff`: the documents that the loop looks at all permit the action.
* `deriveAuthority_verified`: what a verified authority has been checked for,
  with the grant, its root and its revisions named.
* `covered_iff`: a verified authority covers every instant, exactly if what is
  in force at the lower bound permits the action where a higher version has
  displaced it.

On the bundle without revisions both sides hold, and on the granted one with a
narrow revision displaced by a broad one both fail.
-/
namespace SwarrmVerify.L5.InForce
open SwarrmVerify.L1.Jcs SwarrmVerify.L4.Checkpoint SwarrmVerify.L4.Action Effective

variable {X : Crates}

/-! ## The law -/

/-- The document permits the action class over the whole interval: by its
window, by its classes, and with limits of a known kind. -/
structure Permits (actionClass : Value) (lo up : String) (doc : Value) : Prop where
  window : ∃ vf vt, nts (doc.index "valid_from") = some vf ∧ nts (doc.index "valid_to") = some vt ∧
    vf ≤ lo ∧ up ≤ vt
  included : ∃ c ∈ arr doc "action_classes", c.eqv actionClass = true
  kind : ∃ k ∈ ["FLOW", "STOCK", "ONE_SHOT"], ((doc.get "limits").bind fun l => l.get "kind").bind Value.asStr = some k

/-- When a revision takes effect, as a text that compares like the time it
stands for. -/
def effective (g : GrantVersion) : String := (nts (g.ctx.index "effective_ts")).getD ""

/-- The document in force: the latest revision, the issued one before any. This
is what the authority means; the loop is compared with it. -/
def documentAt (issued : Rec) (revisions : List GrantVersion) (t : String) : Value :=
  ((inForce effective GrantVersion.version revisions t).map (·.ctx)).getD issued.ctx

/-- The revisions of the grant an intent names, one for each receipt, in the
order of their versions. -/
def revisions (X : Crates) (bundle : Value) (intent : Rec) : List GrantVersion :=
  let rows := entryRows X bundle
  (grantVersions (revisionsOf X rows (replayRoots X rows).timeline (intent.ctx.index "grant_id"))).getD []

def lowerBound (X : Crates) (bundle : Value) (intent : Rec) : Option String :=
  nts (intervalFor X bundle intent.leaf).lower

def upperBound (X : Crates) (bundle : Value) (intent : Rec) : Option String :=
  nts (intervalFor X bundle intent.leaf).upper

/-- A statement about the grant under the root in force at its leaf. -/
def Stated (X : Crates) (bundle : Value) (grantId actionType : String) (r : Rec) : Prop :=
  r ∈ entryRows X bundle ∧
    rootValid X (replayRoots X (entryRows X bundle)).timeline actionType r = true ∧
    r.ctx.index "grant_id" = .string grantId

/-- What the grant rests on, whatever its documents say: the receipts, the
roots, the lineage and the interval. -/
structure Founded (X : Crates) (bundle : Value) (intent issued : Rec) (lo up : String) : Prop where
  lower : lowerBound X bundle intent = some lo
  upper : upperBound X bundle intent = some up
  carried : issued ∈ entryRows X bundle
  rooted : rootValid X (replayRoots X (entryRows X bundle)).timeline "authority.grant.issued" issued = true
  named : intent.ctx.index "grant_id" = .string issued.rh
  /-- the subject is the agent's own establishment or what a verified passport imports -/
  subject : ∃ est ∈ entryRows X bundle, ∃ birthtag, est.agent = intent.agent ∧ isEst est = true ∧
    issued.ctx.index "subject_birthtag_id" = .string birthtag ∧
    (birthtag = est.rh ∨
      passportBirthtag X bundle est.ctx (replayRoots X (entryRows X bundle)).timeline = some birthtag)
  revision : ∀ g ∈ revisions X bundle intent,
    ∃ r, Stated X bundle issued.rh "authority.grant.revised" r ∧ grantVersion r = some g
  revised : ∀ r, Stated X bundle issued.rh "authority.grant.revised" r →
    ∃ g ∈ revisions X bundle intent, ∃ v, grantVersion r = some v ∧ g.sameKey v
  timed : ∀ g ∈ revisions X bundle intent, nts (g.ctx.index "effective_ts") = some (effective g)
  dense : (revisions X bundle intent).map (·.version) =
    (List.range (revisions X bundle intent).length).map fun i : Nat => (i : Int) + 2
  unrevoked : ∀ r, Stated X bundle issued.rh "authority.grant.revoked" r →
    ∃ eff, nts (r.ctx.index "effective_ts") = some eff ∧ up < eff

/-- The authority of the picked intent covers every instant of its interval: at
each the document in force permits the action. -/
def Covered (X : Crates) (bundle : Value) (actionId : Option String) : Prop :=
  ∃ intent dup issued lo up, pickIntent (entryRows X bundle) actionId = some (intent, dup) ∧
    Founded X bundle intent issued lo up ∧
    ∀ t, lo ≤ t → t ≤ up →
      Permits (intent.ctx.index "action_class") lo up (documentAt issued (revisions X bundle intent) t)

/-- A revision in force at the lower bound that a higher version, effective
before it, has displaced permits the action too. -/
def DisplacedPermits (X : Crates) (bundle : Value) (actionId : Option String) : Prop :=
  ∀ intent dup lo up g, pickIntent (entryRows X bundle) actionId = some (intent, dup) →
    lowerBound X bundle intent = some lo → upperBound X bundle intent = some up →
    inForce effective GrantVersion.version (revisions X bundle intent) lo = some g →
    (∃ p ∈ revisions X bundle intent, effective p ≤ lo ∧ g.version < p.version) →
    Permits (intent.ctx.index "action_class") lo up g.ctx

/-! ## Documents -/

theorem permits_iff {actionClass doc : Value} {lo up : String} :
    docOk actionClass lo up doc = true ↔ Permits actionClass lo up doc := by
  unfold docOk
  simp only [Bool.and_eq_true, Bool.or_eq_true, beq_iff_eq, List.any_eq_true]
  constructor
  · rintro ⟨⟨hwindow, hincluded⟩, hkind⟩
    refine ⟨?_, hincluded, ?_⟩
    · split at hwindow
      · rename_i vf vt hvf hvt
        simp only [Bool.and_eq_true, decide_eq_true_eq] at hwindow
        exact ⟨vf, vt, hvf, hvt, hwindow⟩
      · cases hwindow
    · rcases hkind with (h | h) | h
      · exact ⟨_, by simp, h⟩
      · exact ⟨_, by simp, h⟩
      · exact ⟨_, by simp, h⟩
  · rintro ⟨⟨vf, vt, hvf, hvt, hle⟩, hincluded, k, hk, hkind⟩
    refine ⟨⟨?_, hincluded⟩, ?_⟩
    · simp only [hvf, hvt, Bool.and_eq_true, decide_eq_true_eq]
      exact hle
    · simp only [List.mem_cons, List.not_mem_nil, or_false] at hk
      rcases hk with rfl | rfl | rfl
      · exact .inl (.inl hkind)
      · exact .inl (.inr hkind)
      · exact .inr hkind

/-- The slots after a revision. -/
def slotsStep (lo up : String) (docs : Value × List Value) (p : GrantVersion) : Value × List Value :=
  if effective p ≤ lo then (p.ctx, docs.2) else if effective p ≤ up then (docs.1, docs.2 ++ [p.ctx]) else docs

/-- The base slot goes to the last revision effective by the lower bound; those
effective later within the interval are appended. The loop in one equation. -/
def slots (lo up : String) (docs : Value × List Value) (pairs : List GrantVersion) : Value × List Value :=
  (((pairs.filter fun g => decide (effective g ≤ lo)).getLast?.map (·.ctx)).getD docs.1,
    docs.2 ++ (pairs.filter fun g => !decide (effective g ≤ lo) && decide (effective g ≤ up)).map (·.ctx))

theorem slots_cons (lo up : String) (docs : Value × List Value) (p : GrantVersion) (pairs : List GrantVersion) :
    slots lo up docs (p :: pairs) = slots lo up (slotsStep lo up docs p) pairs := by
  unfold slots slotsStep
  by_cases hlo : effective p ≤ lo
  · cases h : (pairs.filter fun g => decide (effective g ≤ lo)).getLast? <;> simp [hlo, h, List.getLast?_cons]
  · by_cases hup : effective p ≤ up
    · simp [hlo, hup]
    · simp [hlo, hup]

theorem docsStep_eq {lo up : String} {docs docs' : Value × List Value} {p : GrantVersion} :
    docsStep lo up docs p = some docs' ↔
      nts (p.ctx.index "effective_ts") = some (effective p) ∧ slotsStep lo up docs p = docs' := by
  unfold docsStep slotsStep effective
  cases hn : nts (p.ctx.index "effective_ts") with
  | none => simp
  | some eff => simp

theorem docsFold_eq {lo up : String} (pairs : List GrantVersion) :
    ∀ docs docs', pairs.foldlM (docsStep lo up) docs = some docs' ↔
      (∀ g ∈ pairs, nts (g.ctx.index "effective_ts") = some (effective g)) ∧ slots lo up docs pairs = docs' := by
  induction pairs with
  | nil => intro docs docs'; simp [slots]
  | cons p pairs ih =>
    intro docs docs'
    rw [List.foldlM_cons, Option.bind_eq_bind, Option.bind_eq_some_iff]
    simp only [docsStep_eq, ih, List.forall_mem_cons, slots_cons]
    constructor
    · rintro ⟨mid, ⟨hp, rfl⟩, hrest, hd⟩
      exact ⟨⟨hp, hrest⟩, hd⟩
    · rintro ⟨⟨hp, hrest⟩, hd⟩
      exact ⟨_, ⟨hp, rfl⟩, hrest, hd⟩

/-- The documents the loop looks at: the last revision effective by the lower
bound, or the issued document, and every revision effective later within the
interval. All of them must permit the action. -/
theorem docsCover_iff {issued : Rec} {pairs : List GrantVersion} {actionClass : Value} {lo up : String} :
    docsCover issued pairs actionClass lo up = true ↔
      (∀ g ∈ pairs, nts (g.ctx.index "effective_ts") = some (effective g)) ∧
        Permits actionClass lo up
          (((pairs.filter fun g => decide (effective g ≤ lo)).getLast?.map (·.ctx)).getD issued.ctx) ∧
        ∀ g ∈ pairs, lo < effective g → effective g ≤ up → Permits actionClass lo up g.ctx := by
  unfold docsCover
  rw [Option.any_eq_true]
  simp only [docsFold_eq, List.all_cons, Bool.and_eq_true, List.all_eq_true, permits_iff]
  constructor
  · rintro ⟨_, ⟨htimed, rfl⟩, hbase, hinner⟩
    refine ⟨htimed, hbase, fun g hg hlo hup => hinner _ ?_⟩
    simp only [slots, List.nil_append, List.mem_map, List.mem_filter]
    exact ⟨g, ⟨hg, by simp [not_le.mpr hlo, hup]⟩, rfl⟩
  · rintro ⟨htimed, hbase, hinner⟩
    refine ⟨_, ⟨htimed, rfl⟩, hbase, fun doc hdoc => ?_⟩
    simp only [slots, List.nil_append, List.mem_map, List.mem_filter] at hdoc
    obtain ⟨g, ⟨hg, hin⟩, rfl⟩ := hdoc
    simp only [Bool.and_eq_true, Bool.not_eq_true', decide_eq_false_iff_not, decide_eq_true_eq] at hin
    exact hinner g hg (not_le.mp hin.1) hin.2

/-! ## Revisions -/

theorem mem_insertVersion {l : List GrantVersion} {g x : GrantVersion} (h : x ∈ insertVersion l g) :
    x = g ∨ x ∈ l := by
  induction l with
  | nil => exact .inl (List.mem_singleton.mp h)
  | cons y l ih =>
    unfold insertVersion at h
    split at h
    · rcases List.mem_cons.mp h with h | h
      · exact .inl h
      · exact .inr (List.mem_cons_of_mem _ h)
    · split at h
      · exact List.mem_cons.mp h
      · rcases List.mem_cons.mp h with rfl | h
        · exact .inr List.mem_cons_self
        · exact (ih h).imp_right (List.mem_cons_of_mem _)

/-- An insertion loses no key: of two revisions of one key it keeps one. -/
theorem key_insertVersion {l : List GrantVersion} {g x : GrantVersion} (h : x = g ∨ ∃ y ∈ l, y.sameKey x) :
    ∃ y ∈ insertVersion l g, y.sameKey x := by
  induction l with
  | nil =>
    rcases h with rfl | ⟨y, hy, _⟩
    · exact ⟨x, List.mem_singleton.mpr rfl, rfl, rfl, rfl⟩
    · cases hy
  | cons z l ih =>
    unfold insertVersion
    split
    · rename_i hgz
      rcases h with rfl | ⟨y, hy, hyx⟩
      · exact ⟨x, List.mem_cons_self, rfl, rfl, rfl⟩
      · rcases List.mem_cons.mp hy with rfl | hy
        · exact ⟨g, List.mem_cons_self, hgz.1.trans hyx.1, hgz.2.1.trans hyx.2.1, hgz.2.2.trans hyx.2.2⟩
        · exact ⟨y, List.mem_cons_of_mem _ hy, hyx⟩
    · split
      · rcases h with rfl | ⟨y, hy, hyx⟩
        · exact ⟨x, List.mem_cons_self, rfl, rfl, rfl⟩
        · exact ⟨y, List.mem_cons_of_mem _ hy, hyx⟩
      · have hrest : (x = g ∨ ∃ y ∈ l, y.sameKey x) → ∃ y ∈ z :: insertVersion l g, y.sameKey x := by
          intro h
          obtain ⟨y, hy, hyx⟩ := ih h
          exact ⟨y, List.mem_cons_of_mem _ hy, hyx⟩
        rcases h with rfl | ⟨y, hy, hyx⟩
        · exact hrest (.inl rfl)
        · rcases List.mem_cons.mp hy with rfl | hy
          · exact ⟨y, List.mem_cons_self, hyx⟩
          · exact hrest (.inr ⟨y, hy, hyx⟩)

theorem insertVersions_spec (gs : List GrantVersion) :
    ∀ l, (∀ x ∈ gs.foldl insertVersion l, x ∈ gs ∨ x ∈ l) ∧
      ∀ x, (x ∈ gs ∨ ∃ y ∈ l, y.sameKey x) → ∃ y ∈ gs.foldl insertVersion l, y.sameKey x := by
  induction gs with
  | nil => intro l; exact ⟨fun x hx => .inr hx, fun x hx => hx.resolve_left (by simp)⟩
  | cons g gs ih =>
    intro l
    obtain ⟨hfrom, hkeep⟩ := ih (insertVersion l g)
    constructor
    · intro x hx
      rcases hfrom x hx with hx | hx
      · exact .inl (List.mem_cons_of_mem _ hx)
      · rcases mem_insertVersion hx with rfl | hx
        · exact .inl List.mem_cons_self
        · exact .inr hx
    · intro x hx
      refine hkeep x ?_
      rcases hx with hx | hx
      · rcases List.mem_cons.mp hx with rfl | hx
        · exact .inr (key_insertVersion (.inl rfl))
        · exact .inl hx
      · exact .inr (key_insertVersion (.inr hx))

/-- The versions are read off the receipts, and none is lost. -/
theorem grantVersions_spec {revs : List Rec} {pairs : List GrantVersion} (h : grantVersions revs = some pairs) :
    (∀ g ∈ pairs, ∃ r ∈ revs, grantVersion r = some g) ∧
      ∀ r ∈ revs, ∃ g ∈ pairs, ∃ v, grantVersion r = some v ∧ g.sameKey v := by
  unfold grantVersions at h
  obtain ⟨gs, hgs, rfl⟩ := Option.map_eq_some_iff.mp h
  have hmap := mapM_eq_some.mp hgs
  obtain ⟨hfrom, hkeep⟩ := insertVersions_spec gs []
  constructor
  · intro g hg
    have hin : some g ∈ revs.map grantVersion := by
      rw [hmap]
      exact List.mem_map_of_mem ((hfrom g hg).resolve_right (by simp))
    exact List.mem_map.mp hin
  · intro r hr
    have hin : grantVersion r ∈ gs.map some := hmap ▸ List.mem_map_of_mem hr
    obtain ⟨v, hv, hrv⟩ := List.mem_map.mp hin
    obtain ⟨g, hg, hkey⟩ := hkeep v (.inl hv)
    exact ⟨g, hg, v, hrv.symm, hkey⟩

theorem versionsDense_iff {pairs : List GrantVersion} (h : versionsDense pairs = true) :
    pairs.map (·.version) = (List.range pairs.length).map fun i : Nat => (i : Int) + 2 := by
  unfold versionsDense at h
  rw [List.all_eq_true] at h
  refine List.ext_getElem (by simp) fun i hi _ => ?_
  have hlen : i < pairs.length := by simpa using hi
  have hat := h (pairs.get ⟨i, hlen⟩, i) (List.mk_mem_zipIdx_iff_getElem?.mpr (by simp))
  simp only [Bool.and_eq_true, beq_iff_eq] at hat
  simpa using hat.1

theorem dense_pairwise {pairs : List GrantVersion}
    (h : pairs.map (·.version) = (List.range pairs.length).map fun i : Nat => (i : Int) + 2) :
    pairs.Pairwise fun a b => a.version < b.version := by
  rw [← List.pairwise_map (f := GrantVersion.version) (R := (· < ·)), h, List.pairwise_map]
  exact List.pairwise_lt_range.imp fun h => by omega

/-! ## A verified authority -/

theorem string_eqv {s : String} {v : Value} : (Value.string s).eqv v = true ↔ v = .string s := by
  cases v with
  | string t => simpa [Value.eqv] using eq_comm
  | _ => simp [Value.eqv]

theorem eqv_string {s : String} {v : Value} : v.eqv (.string s) = true ↔ v = .string s := by
  cases v <;> simp [Value.eqv]

theorem birthtag_of_lineage {bundle : Value} {rows : List Rec} {intent : Rec} {lineage : Option Lineage}
    {timeline : List RootEntry} {conflict : Bool} {interval : Interval} {birthtag : String}
    (h : (deriveIdentity X rows bundle intent lineage timeline conflict interval).birthtag = some birthtag) :
    ∃ l, lineage = some l ∧ birthtagOf X bundle l timeline = some birthtag := by
  unfold deriveIdentity at h
  dsimp only at h
  split at h
  · cases h
  cases lineage with
  | none => cases h
  | some l =>
    dsimp only at h
    cases hb : birthtagOf X bundle l timeline with
    | none => rw [hb] at h; cases h
    | some b =>
      rw [hb] at h
      refine ⟨l, rfl, hb.trans ?_⟩
      dsimp only at h
      split at h <;> exact h

theorem agentLineage_spec {rows : List Rec} {agent : String} {l : Lineage} (h : agentLineage rows agent = some l) :
    ∃ est ∈ rows, est.agent = agent ∧ isEst est = true ∧ l.birthtagId = est.rh ∧ l.estCtx = est.ctx := by
  unfold agentLineage at h
  dsimp only at h
  split at h
  · rename_i est hest
    cases h
    have hmem : est ∈ (rows.filter fun r => r.agent == agent).filter isEst := by simp [hest]
    simp only [List.mem_filter, beq_iff_eq] at hmem
    exact ⟨est, hmem.1.1, hmem.1.2, hmem.2, rfl, rfl⟩
  · cases h

/-- The birthtags a grant may name are the agent's. -/
theorem birthtags_spec {bundle : Value} {rows : List Rec} {intent : Rec} {timeline : List RootEntry}
    {conflict : Bool} {interval : Interval} {birthtag : String}
    (h : birthtag ∈ (deriveIdentity X rows bundle intent (agentLineage rows intent.agent) timeline conflict
        interval).birthtag.toList ++ ((agentLineage rows intent.agent).map (·.birthtagId)).toList) :
    ∃ est ∈ rows, est.agent = intent.agent ∧ isEst est = true ∧
      (birthtag = est.rh ∨ passportBirthtag X bundle est.ctx timeline = some birthtag) := by
  rw [List.mem_append, Option.mem_toList, Option.mem_toList] at h
  rcases h with h | h
  · obtain ⟨l, hl, hb⟩ := birthtag_of_lineage h
    obtain ⟨est, hmem, hagent, hest, hid, hctx⟩ := agentLineage_spec hl
    refine ⟨est, hmem, hagent, hest, ?_⟩
    unfold birthtagOf at hb
    split at hb
    · exact .inr (hctx ▸ hb)
    · exact .inl (hid ▸ (Option.some.inj hb).symm)
  · obtain ⟨l, hl, rfl⟩ := Option.map_eq_some_iff.mp h
    obtain ⟨est, hmem, hagent, hest, hid, -⟩ := agentLineage_spec hl
    exact ⟨est, hmem, hagent, hest, .inl hid⟩

theorem deriveAuthority_verified {rows : List Rec} {timeline : List RootEntry} {intent : Rec} {interval : Interval}
    {birthtags : List String} {bindingId : Option String}
    (h : (deriveAuthority X rows timeline intent interval birthtags bindingId).standing = .verified) :
    ∃ issued pairs, issuedFor (rootValidAuth X rows timeline "authority.grant.issued")
        (intent.ctx.index "grant_id") birthtags = some issued ∧
      grantVersions (revisionsOf X rows timeline (intent.ctx.index "grant_id")) = some pairs ∧
      grantChainVerified X rows timeline issued pairs intent interval = true := by
  unfold deriveAuthority at h
  dsimp only at h
  split at h
  · cases h
  split at h
  · cases h
  rename_i issued hissued
  split at h
  · cases h
  dsimp only at h
  split at h
  · rename_i hok
    obtain ⟨pairs, hpairs, hchain⟩ := (Option.any_eq_true _ _).mp hok
    exact ⟨issued, pairs, hissued, hpairs, hchain⟩
  · cases h

theorem issuedFor_spec {issuedAll : List Rec} {gid : Value} {birthtags : List String} {issued : Rec}
    (h : issuedFor issuedAll gid birthtags = some issued) :
    issued ∈ issuedAll ∧ gid = .string issued.rh ∧
      ∃ b ∈ birthtags, issued.ctx.index "subject_birthtag_id" = .string b := by
  obtain ⟨hfind, hsubject⟩ := Option.filter_eq_some_iff.mp h
  have hnamed := List.find?_some hfind
  refine ⟨List.mem_of_find?_eq_some hfind, string_eqv.mp hnamed, ?_⟩
  cases hs : issued.ctx.index "subject_birthtag_id" <;> simp [hs, Value.asStr] at hsubject ⊢
  exact hsubject

theorem authorityFacts_verified {bundle : Value} {actionId : Option String}
    (h : (authorityFacts X bundle actionId).authority = .verified) :
    ∃ intent dup, pickIntent (entryRows X bundle) actionId = some (intent, dup) ∧
      (intentFacts X bundle (entryRows X bundle) (replayRoots X (entryRows X bundle)) { valid := true } intent
        dup).authority = .verified := by
  unfold authorityFacts at h
  split at h
  · unfold facts at h
    dsimp only at h
    cases hp : pickIntent (entryRows X bundle) actionId with
    | none => rw [hp] at h; cases h
    | some p => rw [hp] at h; exact ⟨p.1, p.2, rfl, h⟩
  · cases h

/-- What a verified authority has been checked for, receipt by receipt, before
its documents. -/
theorem founded_of_verified {bundle : Value} {actionId : Option String}
    (h : (authorityFacts X bundle actionId).authority = .verified) :
    ∃ intent dup issued lo up, pickIntent (entryRows X bundle) actionId = some (intent, dup) ∧
      Founded X bundle intent issued lo up ∧
      docsCover issued (revisions X bundle intent) (intent.ctx.index "action_class") lo up = true := by
  obtain ⟨intent, dup, hpick, hauth⟩ := authorityFacts_verified h
  obtain ⟨issued, pairs, hissued, hpairs, hchain⟩ := deriveAuthority_verified hauth
  obtain ⟨hmem, hnamed, b, hb, hsubject⟩ := issuedFor_spec hissued
  obtain ⟨est, hest, hagent, hisEst, hown⟩ := birthtags_spec hb
  have hrevisions : revisions X bundle intent = pairs := by simp [revisions, hpairs]
  unfold grantChainVerified at hchain
  split at hchain
  case h_2 => cases hchain
  rename_i lo up hlo hup
  simp only [Bool.and_eq_true, Bool.not_eq_true'] at hchain
  obtain ⟨⟨hdense, hrevoked⟩, hcover⟩ := hchain
  obtain ⟨hcarried, hrooted⟩ := List.mem_filter.mp hmem
  have hstated : ∀ r, Stated X bundle issued.rh "authority.grant.revised" r ↔
      r ∈ revisionsOf X (entryRows X bundle) (replayRoots X (entryRows X bundle)).timeline
        (intent.ctx.index "grant_id") := by
    intro r
    simp only [Stated, revisionsOf, rootValidAuth, List.mem_filter, hnamed, eqv_string, and_assoc]
  obtain ⟨hfrom, hkeep⟩ := grantVersions_spec hpairs
  refine ⟨intent, dup, issued, lo, up, hpick, ⟨hlo, hup, hcarried, hrooted, hnamed, ?_, ?_, ?_, ?_, ?_, ?_⟩, ?_⟩
  · exact ⟨est, hest, b, hagent, hisEst, hsubject, hown⟩
  · intro g hg
    obtain ⟨r, hr, hg⟩ := hfrom g (hrevisions ▸ hg)
    exact ⟨r, (hstated r).mpr hr, hg⟩
  · intro r hr
    rw [hrevisions]
    exact hkeep r ((hstated r).mp hr)
  · rw [hrevisions]
    exact (docsCover_iff.mp hcover).1
  · rw [hrevisions]
    exact versionsDense_iff hdense
  · intro r hr
    by_contra hno
    have hany : revokedInInterval X (entryRows X bundle) (replayRoots X (entryRows X bundle)).timeline
        (.string issued.rh) up = true := by
      refine List.any_eq_true.mpr ⟨r, List.mem_filter.mpr ⟨hr.1, hr.2.1⟩, ?_⟩
      rw [Bool.and_eq_true, eqv_string]
      refine ⟨hr.2.2, ?_⟩
      cases heff : nts (r.ctx.index "effective_ts") with
      | none => rfl
      | some eff =>
        have : ¬ up < eff := fun hlt => hno ⟨eff, heff, hlt⟩
        simpa using not_lt.mp this
    rw [hrevoked] at hany
    cases hany
  · rw [hrevisions]
    exact hcover

/-! ## Every instant -/

/-- A verified authority covers every instant exactly when a revision that is
in force at the lower bound and displaced there permits the action too. The
loop looks at the highest version effective by the lower bound, not at the
latest. -/
theorem covered_iff (X : Crates) (bundle : Value) (actionId : Option String)
    (h : (authorityFacts X bundle actionId).authority = .verified) :
    Covered X bundle actionId ↔ DisplacedPermits X bundle actionId := by
  obtain ⟨intent, dup, issued, lo, up, hpick, hfounded, hcover⟩ := founded_of_verified h
  have hversions := dense_pairwise hfounded.dense
  obtain ⟨-, hbase, hinner⟩ := docsCover_iff.mp hcover
  constructor
  · rintro ⟨intent', dup', issued', lo', up', hpick', hfounded', hall⟩ i d l u g hi hl hu hg -
    rw [hpick'] at hi
    cases hi
    cases hfounded'.lower.symm.trans hl
    cases hfounded'.upper.symm.trans hu
    have hlo := hall _ le_rfl (intervalFor_ordered hl hu)
    rwa [documentAt, hg, Option.map_some, Option.getD_some] at hlo
  · intro hdisplaced
    refine ⟨intent, dup, issued, lo, up, hpick, hfounded, fun t hlo hup => ?_⟩
    unfold documentAt
    cases hg : inForce effective GrantVersion.version (revisions X bundle intent) t with
    | none =>
      -- nothing has taken effect, so the base slot still holds the issued document
      have hnone : (revisions X bundle intent).filter (fun g => decide (effective g ≤ lo)) = [] := by
        refine List.filter_eq_nil_iff.mpr fun g hgm => ?_
        simpa using lt_of_le_of_lt hlo (inForce_eq_none.mp hg g hgm)
      rwa [hnone] at hbase
    | some g =>
      obtain ⟨hmem, hle, -⟩ := inForce_spec hg
      rcases inForce_later hversions hlo hg with hlate | hg
      · exact hinner g hmem hlate (hle.trans hup)
      · rcases inForce_last hversions hg with hlast | hhigher
        · rwa [hlast] at hbase
        · exact hdisplaced intent dup lo up g hpick hfounded.lower hfounded.upper hg hhigher

/-! ## A displaced revision -/

section
open SwarrmVerify.L4.Granted SwarrmVerify.L4.Bundle

theorem granted_verified : (authorityFacts crates granted (some "pay-1")).authority = .verified := by
  obtain ⟨hok, hverified, -⟩ := granted_checked
  rw [authorityFacts, if_pos hok]
  exact hverified

theorem unrevised_verified : (authorityFacts crates unrevised (some "pay-1")).authority = .verified := by
  obtain ⟨-, -, -, -, -, -, -, -, -, -, hok, hverified, -⟩ := granted_checked
  rw [authorityFacts, if_pos hok]
  exact hverified

/-- Without its revisions nothing of the grant is displaced, so the condition
holds. -/
theorem unrevised_permits : DisplacedPermits crates unrevised (some "pay-1") := by
  intro intent dup lo up g hpick hlower hupper hforce
  obtain ⟨-, -, -, -, -, -, -, -, -, -, -, -, hread⟩ := granted_checked
  rw [hpick, Option.map_some, Option.some.injEq, intentRead] at hread
  dsimp only at hread
  obtain ⟨pairs, hpairs, hmap⟩ := Option.map_eq_some_iff.mp hread
  have hnil : pairs = [] := by simpa using hmap
  rw [revisions, hpairs, Option.getD_some, hnil] at hforce
  cases hforce

/-- Version 2 takes effect after version 3, both before the interval: the
narrower document is in force, and the wider one was looked at. -/
theorem granted_uncovered : ¬ Covered crates granted (some "pay-1") := by
  rintro ⟨intent, dup, issued, lo, up, hpick, hfounded, hpermits⟩
  have hread := granted_checked.2.2.1
  rw [hpick, Option.map_some, Option.some.injEq, intentRead, IntentRead.mk.injEq] at hread
  obtain ⟨hlower, hupper, hrevisions⟩ := hread
  obtain rfl : lower = lo := Option.some.inj (hlower.symm.trans hfounded.lower)
  obtain rfl : upper = up := Option.some.inj (hupper.symm.trans hfounded.upper)
  obtain ⟨pairs, hpairs, hmap⟩ := Option.map_eq_some_iff.mp hrevisions
  have hrev : revisions crates granted intent = pairs := by
    rw [revisions, hpairs, Option.getD_some]
  have hlength : pairs.length = 2 := by simpa using congrArg List.length hmap
  obtain ⟨g2, g3, rfl⟩ := List.length_eq_two.mp hlength
  simp only [List.map_cons, List.map_nil, List.cons.injEq, RevisionRead.mk.injEq, and_true] at hmap
  obtain ⟨⟨hv2, he2, hbad⟩, hv3, he3, -⟩ := hmap
  have heff2 : effective g2 = "2026-01-01T00:00:40.000000Z" := by rw [effective, he2, Option.getD_some]
  have heff3 : effective g3 = "2026-01-01T00:00:20.000000Z" := by rw [effective, he3, Option.getD_some]
  have hforce : inForce effective GrantVersion.version [g2, g3] lower = some g2 := by
    refine inForce_of (by simp [hv2, hv3]) (by simp) ?_ fun b hb _ => ?_
    · rw [heff2]
      decide
    · simp only [List.mem_cons, List.not_mem_nil, or_false] at hb
      rcases hb with rfl | rfl
      · exact .inr ⟨rfl, le_rfl⟩
      · left
        rw [heff2, heff3]
        decide
  have hdoc := hpermits lower le_rfl (intervalFor_ordered hlower hupper)
  rw [hrev, documentAt, hforce, Option.map_some, Option.getD_some, ← permits_iff, hbad] at hdoc
  cases hdoc

/-- Both sides hold of the log without the revisions, neither of the whole. -/
theorem covered_granted : (Covered crates unrevised (some "pay-1") ∧ DisplacedPermits crates unrevised (some "pay-1")) ∧
    ¬ Covered crates granted (some "pay-1") ∧ ¬ DisplacedPermits crates granted (some "pay-1") := by
  have hunrevised := covered_iff crates unrevised (some "pay-1") unrevised_verified
  have hgranted := covered_iff crates granted (some "pay-1") granted_verified
  refine ⟨⟨hunrevised.mpr unrevised_permits, unrevised_permits⟩, granted_uncovered, ?_⟩
  rw [← hgranted]
  exact granted_uncovered

theorem uncovered_granted : ¬ ∀ (X : Crates) (bundle : Value) (actionId : Option String),
    (authorityFacts X bundle actionId).authority = .verified → Covered X bundle actionId :=
  fun hall => granted_uncovered (hall crates granted _ granted_verified)

end

end SwarrmVerify.L5.InForce
