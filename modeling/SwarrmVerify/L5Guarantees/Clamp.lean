import SwarrmVerify.Core.SuffixMin
import SwarrmVerify.L4Bundle.Reported
import SwarrmVerify.L5Guarantees.Rewrites

/-!
# The clamp of the independent times

A proof that a checkpoint existed by some time is one for every checkpoint it
contains. `clamped_times` lowers the times of the chain from its end, so that
each timed checkpoint has the earliest time of those behind it. A checkpoint of
the same size that stands before it holds the same log too, but the walk does
not go back to it. So the clamped time of a row may be later than what has been
proved of its log.

**Hypothesis.** The bundle verifies, so its chain is in order of size. Nothing
is assumed of the tokens: their times may be in any order.

The walk is `suffixMin` on the rows of the chain (`Core.SuffixMin`), with the
least of the independent times of a checkpoint for each row.

**Results.**
* `independentTsMap_min`: the map holds the earliest independent times.
* `clampedTimes_suffixMin`: in a verified bundle the clamp is `suffixMin`.
* `clamp_exact_iff`: each time is the least of all the checkpoints that contain
  its own, exactly if no timed checkpoint has an earlier one of its size before
  it with a smaller time.
* `rewritten_inexact`: a log with two checkpoints of one size.
-/
namespace SwarrmVerify.L5.Clamp
open SwarrmVerify.L1.Jcs SwarrmVerify.L3.Receipt SwarrmVerify.L3.Keys SwarrmVerify.L4.Checkpoint
open SwarrmVerify.L4.Bundle SwarrmVerify.L4.Action SuffixMin

variable {X : Crates} {bundle : Value}

/-! ## The independent times of a chain -/

/-- The checkpoint that a record is about and the time it proves, in normal
form. -/
def recordTime (field : String) (rec : Value) : Option (String × String) := do
  let h ← rec.getStr "checkpoint_body_hash"
  let t ← nts (rec.index field)
  return (h, t)

/-- What the anchors and the timestamp tokens of the bundle prove. -/
def provenTimes (bundle : Value) : List (String × String) :=
  ((arr bundle "anchor_records").filter Value.isObject).filterMap (recordTime "block_ts") ++
    ((arr bundle "tst_records").filter Value.isObject).filterMap (recordTime "gen_time")

/-- The times proven for a body hash. -/
def timesOf (proven : List (String × String)) (h : String) : List String :=
  (proven.filter fun p => p.1 == h).map Prod.snd

/-- The size of a checkpoint and its independent time, if it has one. -/
def timed (X : Crates) (bundle cp : Value) : Option (Int × String) := do
  let h ← checkpointBodyHash X cp
  let t ← (timesOf (provenTimes bundle) h).min?
  let size ← bodyU64 cp "tree_size"
  return (size.toNat, t)

/-- The independently timed checkpoints, in chain order. -/
def timedChain (X : Crates) (bundle : Value) : List (Int × String) := (chainOf bundle).filterMap (timed X bundle)

/-- The clamped times without the way they were written. -/
def clampedRows (X : Crates) (bundle : Value) : List (Int × String) :=
  (clampedTimes X bundle).map fun r => (r.1, r.2.1)

/-! ## The map of times -/

/-- The table holds the earliest of the times seen for each hash. -/
def Holds (times : Table Timed) (seen : List (String × String)) : Prop :=
  ∀ h, (times.lookup h).map Prod.fst = (timesOf seen h).min?

theorem timesOf_append_self {seen : List (String × String)} (h t : String) :
    timesOf (seen ++ [(h, t)]) h = timesOf seen h ++ [t] := by
  simp [timesOf, List.filter_append]

theorem timesOf_append_ne {seen : List (String × String)} {h k : String} (hk : k ≠ h) (t : String) :
    timesOf (seen ++ [(h, t)]) k = timesOf seen k := by
  simp [timesOf, List.filter_append, hk.symm]

theorem min?_append_singleton {l : List String} {t : String} : (l ++ [t]).min? =
    some (match l.min? with
      | none => t
      | some u => if t < u then t else u) := by
  rw [List.min?_eq_some_iff]
  cases hl : l.min? with
  | none =>
    obtain rfl := List.min?_eq_none_iff.mp hl
    simp
  | some u =>
    obtain ⟨hu, hleast⟩ := List.min?_eq_some_iff.mp hl
    dsimp only
    split
    · rename_i hlt
      refine ⟨List.mem_append_right _ (List.mem_singleton_self t), fun b hb => ?_⟩
      rcases List.mem_append.mp hb with hb | hb
      · exact le_trans (le_of_lt hlt) (hleast b hb)
      · rw [List.mem_singleton.mp hb]
    · rename_i hge
      refine ⟨List.mem_append_left _ hu, fun b hb => ?_⟩
      rcases List.mem_append.mp hb with hb | hb
      · exact hleast b hb
      · rw [List.mem_singleton.mp hb]
        exact not_lt.mp hge

theorem Holds.step {times : Table Timed} {seen : List (String × String)} (h : Holds times seen) (field : String)
    (rec : Value) : Holds (timeStep field times rec) (seen ++ (recordTime field rec).toList) := by
  unfold timeStep recordTime
  simp only [Option.bind_eq_bind]
  cases hhash : rec.getStr "checkpoint_body_hash" with
  | none => simpa using h
  | some hash =>
    cases htime : nts (rec.index field) with
    | none => simpa using h
    | some t =>
      intro k
      simp only [Option.bind_some, Option.pure_def, Option.toList_some]
      by_cases hk : k = hash
      · subst hk
        rw [timesOf_append_self, min?_append_singleton, ← h k]
        cases hlookup : times.lookup k with
        | none => simp [AList.lookup_insert]
        | some u =>
          simp only [Option.all_some, Option.map_some, decide_eq_true_eq]
          split
          · rw [AList.lookup_insert, Option.map_some]
          · rw [hlookup, Option.map_some]
      · rw [timesOf_append_ne hk, ← h k]
        split
        · rw [AList.lookup_insert_ne hk]
        · rfl

theorem Holds.foldl {field : String} (recs : List Value) : ∀ {times : Table Timed} {seen : List (String × String)},
    Holds times seen → Holds (recs.foldl (timeStep field) times) (seen ++ recs.filterMap (recordTime field)) := by
  induction recs with
  | nil => intro times seen h; simpa using h
  | cons rec recs ih =>
    intro times seen h
    have hnext := ih (h.step field rec)
    rw [List.foldl_cons]
    cases hrec : recordTime field rec with
    | none => simpa [hrec] using hnext
    | some p => simpa [hrec] using hnext

/-- The map of a bundle holds its earliest independent times. -/
theorem independentTsMap_min (bundle : Value) (h : String) :
    ((independentTsMap bundle).lookup h).map Prod.fst = (timesOf (provenTimes bundle) h).min? := by
  have hnil : Holds ∅ [] := fun _ => rfl
  have hanchors := @Holds.foldl "block_ts" ((arr bundle "anchor_records").filter Value.isObject) _ _ hnil
  exact @Holds.foldl "gen_time" ((arr bundle "tst_records").filter Value.isObject) _ _ hanchors h

/-! ## The rows -/

/-- A row without the way its time was written. -/
def bare (r : Int × Timed) : Int × String := (r.1, r.2.1)

theorem timedCheckpoint_bare {e cp body : Value} {canon : Bytes} {n : UInt64} (hcp : e.get "checkpoint" = some cp)
    (hbody : cp.get "body" = some body) (hcanon : canonicalChecked X body = some canon)
    (hn : bodyU64 cp "tree_size" = some n) :
    (timedCheckpoint X (independentTsMap bundle) e).map bare = timed X bundle cp := by
  have hread : body.getU64 "tree_size" = some n := by
    rwa [bodyU64, hbody, Option.bind_some] at hn
  have hsafe := canonical_u64 hcanon hread
  obtain ⟨v, hv, hu⟩ := Option.bind_eq_some_iff.mp hread
  obtain rfl := Value.asU64_eq_some hu
  -- an exact integer fits an `i64`
  have hi64 : Value.asI64 (.number (.posInt n)) = some (n.toNat : Int) := by
    simp only [maxSafeInteger] at hsafe
    rw [Value.asI64, Number.asI64, if_pos (by omega)]
  simp only [timedCheckpoint, timed, hcp, hbody, hv, hn, hi64, Option.bind_eq_bind, Option.bind_some]
  cases checkpointBodyHash X cp with
  | none => rfl
  | some h =>
    simp only [Option.bind_some]
    rw [← independentTsMap_min]
    cases (independentTsMap bundle).lookup h with
    | none => rfl
    | some t => rfl

/-- The clamp lowers the times from the end. -/
theorem clamp_suffixMin (rows : List (Int × Timed)) :
    ((rows.foldr clampStep (none, [])).2.map bare) = suffixMin (rows.map bare) ∧
      (rows.foldr clampStep (none, [])).1.map Prod.fst = (suffixMin (rows.map bare)).head?.map Prod.snd := by
  induction rows with
  | nil => exact ⟨rfl, rfl⟩
  | cons r rows ih =>
    obtain ⟨hrows, hheld⟩ := ih
    rw [List.foldr_cons, List.map_cons]
    unfold suffixMin
    cases hrest : suffixMin (rows.map bare) with
    | nil =>
      rw [hrest] at hrows hheld
      obtain hnone := Option.map_eq_none_iff.mp hheld
      simp [clampStep, hnone, hrows, bare]
    | cons q rest =>
      rw [hrest] at hrows hheld
      obtain ⟨held, hheld, hq⟩ := Option.map_eq_some_iff.mp hheld
      have hmin : (if held.1 < r.2.1 then held else r.2).1 = min r.2.1 q.2 := by
        rw [← hq]
        split
        · rename_i hlt
          exact (min_eq_right (le_of_lt hlt)).symm
        · rename_i hge
          exact (min_eq_left (not_lt.mp hge)).symm
      simp only [clampStep, hheld, List.map_cons, hrows, List.head?_cons, Option.map_some, bare]
      rw [hmin]
      exact ⟨rfl, rfl⟩

section
variable {trust : Option Value} (h : (verifyBundleFacts X bundle trust).ok = true)
include h

/-- Every checkpoint of a verified chain gives its own row. -/
theorem rows_bare : ((arr bundle "checkpoint_chain").filterMap (timedCheckpoint X (independentTsMap bundle))).map bare =
    timedChain X bundle := by
  obtain ⟨entries, kl, target, chainEntries, chain, root, sparse, haccepted, _⟩ := verified_facts h
  have hpresented := haccepted.hpresented
  simp only [presentedChain, Option.bind_eq_bind, Option.bind_eq_some_iff, Option.pure_def, Option.some.injEq,
    Prod.mk.injEq] at hpresented
  obtain ⟨es, hes, c, hc, rfl, rfl⟩ := hpresented
  have hchain := mapM_eq_some.mp hc
  have hrow : ∀ e ∈ es, (timedCheckpoint X (independentTsMap bundle) e).map bare =
      (e.get "checkpoint").bind (timed X bundle) := by
    intro e he
    obtain ⟨cp, hcp, hget⟩ := mem_of_mapM hc he
    obtain ⟨body, canon, hbody, hcanon⟩ := haccepted.chain_canonical cp hcp
    obtain ⟨n, hn⟩ := haccepted.chain_size cp hcp
    rw [hget, Option.bind_some]
    exact timedCheckpoint_bare hget hbody hcanon hn
  rw [timedChain, haccepted.chain_eq, arr, hes, Option.getD_some, List.map_filterMap, List.filterMap_congr hrow]
  have hmap := congrArg (List.filterMap fun o : Option Value => o.bind (timed X bundle)) hchain
  rw [List.filterMap_map, List.filterMap_map] at hmap
  exact hmap

theorem timedChain_sorted : (timedChain X bundle).Pairwise fun p q => p.1 ≤ q.1 := by
  obtain ⟨entries, kl, target, chainEntries, chain, root, sparse, haccepted, _⟩ := verified_facts h
  rw [timedChain, haccepted.chain_eq, List.pairwise_filterMap]
  refine haccepted.chain_sizes.imp fun {a b} hab p hp q hq => ?_
  simp only [timed, Option.bind_eq_bind, Option.bind_eq_some_iff, Option.pure_def, Option.some.injEq] at hp hq
  obtain ⟨_, _, _, _, m, hm, rfl⟩ := hp
  obtain ⟨_, _, _, _, n, hn, rfl⟩ := hq
  rw [hm, hn, Option.getD_some, Option.getD_some, UInt64.le_iff_toNat_le] at hab
  exact Int.ofNat_le.mpr hab

/-- In a verified bundle the clamp is the walk from the end of the chain. -/
theorem clampedTimes_suffixMin : clampedRows X bundle = suffixMin (timedChain X bundle) := by
  have hrows := rows_bare h
  have hsorted := timedChain_sorted h
  rw [← hrows] at hsorted
  have hsort := (List.pairwise_map.mp hsorted).insertionSort_eq (r := fun a b : Int × Timed => a.1 ≤ b.1)
  show (clampedTimes X bundle).map bare = _
  rw [clampedTimes, hsort, (clamp_suffixMin _).1, hrows]

end

/-! ## Main result -/

/-- Each timed checkpoint has one row, with its size and the least independent
time of the timed checkpoints that are as large. -/
def ClampExact (X : Crates) (bundle : Value) : Prop := Exact (timedChain X bundle) (clampedRows X bundle)

/-- **Clamp.** In a verified bundle the clamped times are exact if and only if
no timed checkpoint has an earlier time than all from a later one of its own
size on. -/
theorem clamp_exact_iff (X : Crates) (bundle : Value) (trust : Option Value)
    (h : (verifyBundleFacts X bundle trust).ok = true) : ClampExact X bundle ↔ TiesCovered (timedChain X bundle) := by
  rw [ClampExact, clampedTimes_suffixMin h]
  exact exact_iff (timedChain_sorted h)

section
open SwarrmVerify.L4.Rewritten

theorem rewritten_clamp : ClampExact crates rewritten ↔ TiesCovered (timedChain crates rewritten) :=
  clamp_exact_iff crates rewritten trust rewritten_checked.1

/-- The rewritten log has two checkpoints of size 8. The later one keeps the
time 00:02:00, although the earlier one is anchored at 00:01:00. -/
theorem rewritten_inexact : (verifyBundleFacts crates rewritten trust).ok = true ∧ ¬ ClampExact crates rewritten := by
  obtain ⟨hok, _, _, _, hrows, _⟩ := rewritten_checked
  refine ⟨hok, fun hexact => ?_⟩
  rw [ClampExact, clampedRows, hrows] at hexact
  unfold Exact at hexact
  generalize timedChain crates rewritten = chain at hexact
  cases hexact with
  | cons hfirst hrest =>
    cases hrest with
    | cons hsecond _ =>
      obtain ⟨hsize, hmem, _⟩ := hfirst
      obtain ⟨hsize', _, hleast⟩ := hsecond
      rw [← hsize] at hmem
      rw [← hsize'] at hleast
      exact absurd (hleast hmem) (by decide)

end

end SwarrmVerify.L5.Clamp
