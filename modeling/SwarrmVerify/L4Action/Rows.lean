import SwarrmVerify.L4Action.Anchors
import SwarrmVerify.L4Bundle.Bundle

/-!
# Authority rows (`action.rs`)

`authority_facts` replays the receipts of a verified bundle. Here are the rows
that it reads off the entries, in leaf order, the replay of root enrolments,
the intervals between independently timed checkpoints, and the intent it picks.

A row has what the replays read of a receipt and nothing else; an entry that
lacks a member which is always there gives no row. The rows are sorted by their
leaves, stably, so that rows of one leaf keep the order of the export.

An intent happened between two checkpoints: after the last timed one that does
not contain its leaf, and before the first that does. Times are clamped from
the end of the chain beforehand, since a checkpoint that is contained in an
earlier one cannot be later.

* `clampedTimes_ordered`: the timed checkpoints are in order of size and of
  time, after the clamp, whatever their tokens say.
* `intervalFor_bounded`: a bound of an interval is the time of one of them.
* `intervalFor_ordered`: an interval is never inverted.
-/
namespace SwarrmVerify.L4.Action
open SwarrmVerify.L1.Jcs SwarrmVerify.L3.Receipt SwarrmVerify.L3.Keys SwarrmVerify.L4.Checkpoint

/-! ## Rows -/

/-- A receipt as the replays read it, with its leaf, its hash and the keys that
signed it.
mirrors verify-rs/src/action.rs:871-879 -/
structure Rec where
  leaf : Int
  agent : String
  action : String
  ctx : Value
  commitments : Value
  rh : String
  /-- a set; only membership is read -/
  signerKids : List String

/-- The row of an entry whose body reads. A missing leaf index reads as -1. -/
def entryRow (X : Crates) (e : Value) : Option Rec := do
  let env := e.index "envelope"
  let body ← bodyOf X env
  let rh ← receiptHashHex X env
  return { leaf := (e.getI64 "leaf_index").getD (-1), agent := (body.getStr "agent_id").getD ""
           action := (body.getStr "action_type").getD "", ctx := (obj body "context").getD (.object [])
           commitments := (obj body "commitments").getD (.object []), rh := rh
           signerKids := (arr env "signatures").filterMap fun sig => sig.getStr "keyid" }

/-- The receipts of a bundle in the order of their leaves; the sort is stable.
mirrors verify-rs/src/action.rs:881-892 -/
def entryRows (X : Crates) (bundle : Value) : List Rec :=
  ((arr bundle "entries").filterMap (entryRow X)).insertionSort fun a b => a.leaf ≤ b.leaf

/-! ## Detached signatures -/

/-- The domain of the detached signatures of an action type.
mirrors verify-rs/src/action.rs:894-899 -/
def dom (actionType : String) : Bytes := utf8 "evd/v1/authority/" ++ utf8 actionType ++ [0]

/-- A detached signature over a document without its signature members, under a
domain.
mirrors verify-rs/src/action.rs:902-913 -/
def dsigOk (X : Crates) (pubkey : Digest) (domain : Bytes) (doc : Value) (sig : Option Value) : Bool :=
  match sig.bind Value.asStr, doc.asObject with
  | some sigB64, some m =>
    match canonicalIntegerChecked X (.object (m.filter fun p => !endsWith p.1 "_sig")), X.b64Decode sigB64 with
    | some canon, some raw => ed25519Verify X pubkey (domain ++ canon) raw
    | _, _ => false
  | _, _ => false

/-! ## Roots -/

def isKeyRow (r : Rec) : Bool := r.agent == "_system" && startsWith r.action "evd.key."

/-- The kids and the key material the key log witnessed.
mirrors verify-rs/src/action.rs:916-930 -/
def witnessedKeys (X : Crates) (rows : List Rec) : List String × List Digest :=
  let jwks := (rows.filter isKeyRow).map fun r => r.ctx.index "jwk"
  (jwks.filterMap fun jwk => jwk.getStr "kid", jwks.filterMap fun jwk => (keyFromJwk X jwk).map Prod.fst)

/-- The root an enrolment introduces. mirrors verify-rs/src/action.rs:933-945 -/
def validEnrolment (X : Crates) (ctx : Value) (witnessed : List String × List Digest) :
    Option (String × Digest × Value) := do
  let (pubkey, derivedKid) ← keyFromJwk X (ctx.index "root_jwk")
  let kid ← ctx.getStr "root_kid"
  -- separation of duties: the root is never a key the log witnessed
  if kid != derivedKid || witnessed.1.contains kid || witnessed.2.contains pubkey then none
  else if !dsigOk X pubkey (dom "authority.root.enrolled") ctx (ctx.get "self_sig") then none
  else some (kid, pubkey, ctx.index "legal_entity")

/-- A root in office from a leaf on, by its key and its legal entity.
mirrors verify-rs/src/action.rs:947 -/
structure RootEntry where
  leaf : Int
  kid : String
  pubkey : Digest
  legalEntity : Value

structure Roots where
  orgId : Option String := none
  timeline : List RootEntry := []
  conflict : Bool := false

def isEnrolment (r : Rec) : Bool := r.agent == "_authority" && r.action == "authority.root.enrolled"

/-- The enrolment names the last root and is signed by it. -/
def linkedTo (X : Crates) (ctx : Value) (last : RootEntry) : Bool :=
  ctx.getStr "prev_root_kid" == some last.kid &&
    dsigOk X last.pubkey (dom "authority.root.enrolled") ctx (ctx.get "prev_root_sig")

/-- One turn of the root replay. mirrors verify-rs/src/action.rs:954-970 -/
def rootStep (X : Crates) (witnessed : List String × List Digest) (st : Roots) (r : Rec) : Roots :=
  if !isEnrolment r then st
  else match validEnrolment X r.ctx witnessed with
    | none => st
    | some (kid, pubkey, legal) =>
      match st.timeline.getLast? with
      | none => { st with orgId := some r.rh, timeline := st.timeline ++ [⟨r.leaf, kid, pubkey, legal⟩] }
      | some last =>
        if linkedTo X r.ctx last then { st with timeline := st.timeline ++ [⟨r.leaf, kid, pubkey, legal⟩] }
        else { st with conflict := true }

/-- The roots of a bundle, replayed over its receipts in the order of their
leaves.
mirrors verify-rs/src/action.rs:951-972 -/
def replayRoots (X : Crates) (rows : List Rec) : Roots :=
  rows.foldl (rootStep X (witnessedKeys X rows)) {}

/-- The root in office at a leaf: the last one enrolled by then.
mirrors verify-rs/src/action.rs:974-976 -/
def rootAt (timeline : List RootEntry) (leaf : Int) : Option RootEntry :=
  timeline.reverse.find? fun t => decide (t.leaf ≤ leaf)

/-- The row is a statement of this type signed by the root in force at its
leaf. -/
def rootValid (X : Crates) (timeline : List RootEntry) (actionType : String) (r : Rec) : Bool :=
  r.agent == "_authority" && r.action == actionType &&
    (rootAt timeline r.leaf).any fun root => dsigOk X root.pubkey (dom actionType) r.ctx (r.ctx.get "root_sig")

/-- The statements of a type that the root in office at their leaf has signed.
mirrors verify-rs/src/action.rs:980-982 -/
def rootValidAuth (X : Crates) (rows : List Rec) (timeline : List RootEntry) (actionType : String) : List Rec :=
  rows.filter (rootValid X timeline actionType)

/-! ## Intervals -/

/-- A time in normal form and as it was written. -/
abbrev Timed := String × String

/-- One record: the earlier time of its checkpoint is kept. -/
def timeStep (field : String) (times : Table Timed) (rec : Value) : Table Timed :=
  match rec.getStr "checkpoint_body_hash", nts (rec.index field) with
  | some h, some norm =>
    if (times.lookup h).all fun cur => decide (norm < cur.1) then
      times.insert h (norm, (rec.getStr field).getD "")
    else times
  | _, _ => times

/-- The times proven from outside for each checkpoint, the earliest of them,
with the text it was read from.
mirrors verify-rs/src/action.rs:990-1002 -/
def independentTsMap (bundle : Value) : Table Timed :=
  [("anchor_records", "block_ts"), ("tst_records", "gen_time")].foldl
    (fun times l => ((arr bundle l.1).filter Value.isObject).foldl (timeStep l.2) times) ∅

/-- The size and time of a timed checkpoint.
mirrors verify-rs/src/action.rs:1018-1026 -/
def timedCheckpoint (X : Crates) (times : Table Timed) (e : Value) : Option (Int × Timed) := do
  let cp ← e.get "checkpoint"
  let h ← checkpointBodyHash X cp
  let t ← times.lookup h
  let size ← ((cp.get "body").bind fun b => b.get "tree_size").bind Value.asI64
  return (size, t)

/-- One turn of the clamp from the last checkpoint back. -/
def clampStep (row : Int × Timed) (acc : Option Timed × List (Int × Timed)) : Option Timed × List (Int × Timed) :=
  let time := match acc.1 with
    | some e => if e.1 < row.2.1 then e else row.2
    | none => row.2
  (some time, (row.1, time) :: acc.2)

/-- The times of the chain in order of size, each clamped to the earliest that
follows it. The sort is stable in the order of the chain.
mirrors verify-rs/src/action.rs:1015-1039 -/
def clampedTimes (X : Crates) (bundle : Value) : List (Int × Timed) :=
  let rows := (arr bundle "checkpoint_chain").filterMap (timedCheckpoint X (independentTsMap bundle))
  ((rows.insertionSort fun a b => a.1 ≤ b.1).foldr clampStep (none, [])).2

/-- The bounds of an intent: `Null` when there is none. -/
structure Interval where
  lower : Value := .null
  upper : Value := .null

/-- Between the last time of a checkpoint that is no later than a leaf and the
first of one beyond it.
mirrors verify-rs/src/action.rs:1043-1053 -/
def intervalFor (X : Crates) (bundle : Value) (leaf : Int) : Interval :=
  (clampedTimes X bundle).foldl (fun i row =>
    if row.1 ≤ leaf then { i with lower := .string row.2.2 }
    else if i.upper.isNull then { i with upper := .string row.2.2 }
    else i) {}

/-- The normal form is that of the time as it was written. -/
def Timed.Normal (t : Timed) : Prop := nts (.string t.2) = some t.1

theorem nts_getStr {v : Value} {k norm : String} (h : nts (v.index k) = some norm) :
    nts (.string ((v.getStr k).getD "")) = some norm := by
  unfold Value.index at h
  unfold Value.getStr
  match hv : v.get k with
  | some (.string s) => simpa [hv, Value.asStr] using h
  | none => simp [hv, nts, Value.asStr] at h
  | some .null => simp [hv, nts, Value.asStr] at h
  | some (.bool _) => simp [hv, nts, Value.asStr] at h
  | some (.number _) => simp [hv, nts, Value.asStr] at h
  | some (.array _) => simp [hv, nts, Value.asStr] at h
  | some (.object _) => simp [hv, nts, Value.asStr] at h

theorem timeStep_normal {field : String} {times : Table Timed} {rec : Value}
    (h : ∀ k t, times.lookup k = some t → t.Normal) :
    ∀ k t, (timeStep field times rec).lookup k = some t → t.Normal := by
  intro k t ht
  unfold timeStep at ht
  split at ht
  · rename_i hash norm _ hnorm
    split at ht
    · by_cases hk : k = hash
      · subst hk
        rw [AList.lookup_insert] at ht
        cases ht
        exact nts_getStr hnorm
      · rw [AList.lookup_insert_ne hk] at ht
        exact h k t ht
    · exact h k t ht
  · exact h k t ht

theorem foldl_normal {field : String} (recs : List Value) :
    ∀ times : Table Timed, (∀ k t, times.lookup k = some t → t.Normal) →
      ∀ k t, (recs.foldl (timeStep field) times).lookup k = some t → t.Normal := by
  induction recs with
  | nil => intro times h; exact h
  | cons rec recs ih => intro times h; exact ih _ (timeStep_normal h)

theorem independentTsMap_normal (bundle : Value) :
    ∀ k t, (independentTsMap bundle).lookup k = some t → t.Normal := by
  refine foldl_normal _ _ (foldl_normal _ _ ?_)
  intro k t h
  cases h

/-- What the clamp keeps: the rows it has passed are in order of time, the
first at the time it holds, and the sizes are untouched. -/
structure Clamped (rows : List (Int × Timed)) (acc : Option Timed × List (Int × Timed)) : Prop where
  head : acc.1 = acc.2.head?.map Prod.snd
  times : acc.2.Pairwise fun a b => a.2.1 ≤ b.2.1
  sizes : acc.2.map Prod.fst = rows.map Prod.fst
  normal : ∀ r ∈ acc.2, r.2.Normal

theorem Clamped.step {rows : List (Int × Timed)} {acc : Option Timed × List (Int × Timed)} {row : Int × Timed}
    (h : Clamped rows acc) (hrow : row.2.Normal) : Clamped (row :: rows) (clampStep row acc) := by
  obtain ⟨held, passed⟩ := acc
  have hhead := h.head
  cases passed with
  | nil =>
    obtain rfl : held = none := hhead
    exact ⟨rfl, by simp [clampStep], by simpa [clampStep] using h.sizes, by simpa [clampStep] using hrow⟩
  | cons first passed =>
    obtain rfl : held = some first.2 := hhead
    have htimes := h.times
    have hnormal := h.normal
    dsimp only at htimes hnormal
    have hle : ∀ r ∈ first :: passed, first.2.1 ≤ r.2.1 := by
      intro r hr
      rcases List.mem_cons.mp hr with rfl | hr
      · exact le_refl _
      · exact List.rel_of_pairwise_cons htimes hr
    refine ⟨rfl, ?_, by simpa [clampStep] using h.sizes, ?_⟩
    · show List.Pairwise _ ((row.1, _) :: first :: passed)
      refine List.pairwise_cons.mpr ⟨fun r hr => ?_, htimes⟩
      dsimp only
      split
      · exact hle r hr
      · rename_i hlt
        exact le_trans (not_lt.mp hlt) (hle r hr)
    · intro r hr
      rcases List.mem_cons.mp hr with rfl | hr
      · dsimp only
        split
        · exact hnormal first List.mem_cons_self
        · exact hrow
      · exact hnormal r hr

theorem clamped_foldr (rows : List (Int × Timed)) (h : ∀ r ∈ rows, r.2.Normal) :
    Clamped rows (rows.foldr clampStep (none, [])) := by
  induction rows with
  | nil => exact ⟨rfl, .nil, rfl, by simp⟩
  | cons row rows ih =>
    exact (ih fun r hr => h r (List.mem_cons_of_mem _ hr)).step (h row List.mem_cons_self)

/-- The timed checkpoints are in order of size and of time. -/
theorem clampedTimes_ordered (X : Crates) (bundle : Value) :
    ((clampedTimes X bundle).Pairwise fun a b => a.1 ≤ b.1 ∧ a.2.1 ≤ b.2.1) ∧
      ∀ r ∈ clampedTimes X bundle, r.2.Normal := by
  let timed := (arr bundle "checkpoint_chain").filterMap (timedCheckpoint X (independentTsMap bundle))
  have hnormal : ∀ r ∈ timed.insertionSort fun a b => a.1 ≤ b.1, r.2.Normal := by
    intro r hr
    obtain ⟨e, _, he⟩ := List.mem_filterMap.mp ((List.mem_insertionSort _).mp hr)
    unfold timedCheckpoint at he
    simp only [Option.bind_eq_bind, Option.bind_eq_some_iff, Option.pure_def, Option.some.injEq] at he
    obtain ⟨_, _, h, _, t, ht, _, _, rfl⟩ := he
    exact independentTsMap_normal bundle h t ht
  have hc := clamped_foldr _ hnormal
  refine ⟨List.Pairwise.and ?_ hc.times, hc.normal⟩
  have hsorted : (timed.insertionSort fun a b => a.1 ≤ b.1).Pairwise fun a b => a.1 ≤ b.1 :=
    List.pairwise_insertionSort (fun a b : Int × Timed => a.1 ≤ b.1) _
  have hsizes := List.pairwise_map.mpr hsorted
  rw [← hc.sizes] at hsizes
  exact List.pairwise_map.mp hsizes

/-- One row of `intervalFor`. -/
def boundStep (leaf : Int) (i : Interval) (row : Int × Timed) : Interval :=
  if row.1 ≤ leaf then { i with lower := .string row.2.2 }
  else if i.upper.isNull then { i with upper := .string row.2.2 }
  else i

/-- A bound is null or the time of a row on its side of the leaf. -/
structure BoundedBy (rows : List (Int × Timed)) (leaf : Int) (i : Interval) : Prop where
  lower : i.lower = .null ∨ ∃ r ∈ rows, r.1 ≤ leaf ∧ i.lower = .string r.2.2
  upper : i.upper = .null ∨ ∃ r ∈ rows, leaf < r.1 ∧ i.upper = .string r.2.2

theorem intervalFor_bounded (X : Crates) (bundle : Value) (leaf : Int) :
    BoundedBy (clampedTimes X bundle) leaf (intervalFor X bundle leaf) := by
  have hfold : ∀ (l : List (Int × Timed)) (i : Interval), l ⊆ clampedTimes X bundle →
      BoundedBy (clampedTimes X bundle) leaf i → BoundedBy (clampedTimes X bundle) leaf (l.foldl (boundStep leaf) i) := by
    intro l
    induction l with
    | nil => intro i _ h; exact h
    | cons row l ih =>
      intro i hsub h
      have hrow := hsub List.mem_cons_self
      refine ih _ (fun r hr => hsub (List.mem_cons_of_mem _ hr)) ?_
      unfold boundStep
      split
      · rename_i hle
        exact ⟨.inr ⟨row, hrow, hle, rfl⟩, h.upper⟩
      · rename_i hlt
        split
        · exact ⟨h.lower, .inr ⟨row, hrow, not_le.mp hlt, rfl⟩⟩
        · exact h
  exact hfold _ {} (List.Subset.refl _) ⟨.inl rfl, .inl rfl⟩

/-- An interval is never inverted. -/
theorem intervalFor_ordered {X : Crates} {bundle : Value} {leaf : Int} {lo up : String}
    (hlo : nts (intervalFor X bundle leaf).lower = some lo) (hup : nts (intervalFor X bundle leaf).upper = some up) :
    lo ≤ up := by
  obtain ⟨hl, hu⟩ := intervalFor_bounded X bundle leaf
  obtain ⟨hordered, hnormal⟩ := clampedTimes_ordered X bundle
  rcases hl with hl | ⟨r, hr, hrl, hl⟩
  · rw [hl] at hlo; cases hlo
  rcases hu with hu | ⟨q, hq, hqu, hu⟩
  · rw [hu] at hup; cases hup
  have hr' := hnormal r hr
  have hq' := hnormal q hq
  rw [Timed.Normal, ← hl, hlo] at hr'
  rw [Timed.Normal, ← hu, hup] at hq'
  cases hr'; cases hq'
  -- by size the row of the lower bound stands before that of the upper one
  have hall : ∀ a ∈ clampedTimes X bundle, ∀ b ∈ clampedTimes X bundle, a.1 < b.1 → a.2.1 ≤ b.2.1 := by
    intro a ha b hb
    refine List.Pairwise.forall_of_forall_of_flip (R := fun a b : Int × Timed => a.1 < b.1 → a.2.1 ≤ b.2.1)
      (fun _ _ h => absurd h (lt_irrefl _)) (hordered.imp fun h _ => h.2) (hordered.imp fun h hlt => ?_) ha hb
    exact absurd h.1 (not_le.mpr hlt)
  exact hall r hr q hq (lt_of_le_of_lt hrl hqu)

/-! ## The intent -/

def isIntent (r : Rec) : Bool := r.action == "action.intent"

/-- The intents of an action, or of any. -/
def intentsOf (rows : List Rec) (actionId : Option String) : List Rec :=
  (rows.filter isIntent).filter fun r => actionId.all fun aid => r.ctx.getStr "action_id" == some aid

/-- The first intent, and whether its action has two different receipts.
mirrors verify-rs/src/action.rs:1057-1066 -/
def pickIntent (rows : List Rec) (actionId : Option String) : Option (Rec × Bool) := do
  let intents := intentsOf rows actionId
  let chosen ← intents.head?
  let same := intents.filter fun r => (r.ctx.index "action_id").eqv (chosen.ctx.index "action_id")
  return (chosen, decide (1 < (same.map (·.rh)).toFinset.card))

end SwarrmVerify.L4.Action
