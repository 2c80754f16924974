import SwarrmVerify.Core.Neighbours
import SwarrmVerify.L4Action.Facts

/-!
# Authority facts of a listing

A listing of rows may repeat some of them in place, and may differ from another
in who signed a row (`Lists`). A repeated receipt is no news, and the comments
of `authority_facts` call it harmless; but its five replays each meet a
repetition in their own way, and two of them take a row for a contradiction of
itself. Here is what each makes of it.

* `replayRoots_lists`: the same roots, with a conflict more if an enrolment
  that does not name itself as its predecessor stands twice.
* `bindingConflict_lists`: a clash more if a binding whose window overlaps
  itself stands twice.
* `agentLineage_lists`: the same lineage, unless an establishment stands twice.
* `deriveAuthority_lists`, `pickIntent_lists`: the same grant, and the same
  intent.

A row that was taken once has either become the last root or raised the
conflict it is going to raise (`Settled`), so taking it again is idempotent
from the second time on (`Settled.again`). With that, the fold over a listing
is the fold over its rows, block by block (`rootFold`).

* `facts_lists`: the facts of a listing, read off one row for each leaf
  (`factsWith`). All that is left of the repetitions is whether the rows
  conflict (`conflicted`), and the lineage of the agent.
-/
namespace SwarrmVerify.L4.Listings
open SwarrmVerify.L1.Jcs SwarrmVerify.L3.Receipt SwarrmVerify.L4.Action SwarrmVerify.L4.Bundle Neighbours

variable {X : Crates}

/-- The row, whoever signed it. -/
def unsigned (r : Rec) : Rec := { r with signerKids := [] }

/-! ## Listings -/

/-- The rows, whoever signed them, are those of the second list, repeated in
place. Two rows of one leaf may differ in their signers, since the hash of a
receipt does not cover these. -/
def Lists (l c : List Rec) : Prop := Repeats (l.map unsigned) c

namespace Lists

variable {l c : List Rec}

theorem filter (h : Lists l c) {p : Rec → Bool} (hp : ∀ r, p (unsigned r) = p r) :
    Lists (l.filter p) (c.filter p) := by
  have hf := Repeats.filter h p
  rwa [List.filter_map, show p ∘ unsigned = p from funext hp] at hf

theorem any_eq (h : Lists l c) {p : Rec → Bool} (hp : ∀ r, p (unsigned r) = p r) : l.any p = c.any p := by
  rw [← Repeats.any_eq h, List.any_map, show p ∘ unsigned = p from funext hp]

theorem find?_eq (h : Lists l c) {p : Rec → Bool} (hp : ∀ r, p (unsigned r) = p r) :
    (l.find? p).map unsigned = c.find? p := by
  rw [← Repeats.find?_eq h, List.find?_map, show p ∘ unsigned = p from funext hp]

theorem reverse_find?_eq (h : Lists l c) {p : Rec → Bool} (hp : ∀ r, p (unsigned r) = p r) :
    (l.reverse.find? p).map unsigned = c.reverse.find? p := by
  rw [← Repeats.reverse_find?_eq h, ← List.map_reverse, List.find?_map, show p ∘ unsigned = p from funext hp]

theorem head?_eq (h : Lists l c) : l.head?.map unsigned = c.head? := by
  rw [← Repeats.head?_eq h, List.head?_map]

theorem getLast?_eq (h : Lists l c) : l.getLast?.map unsigned = c.getLast? := by
  rw [← Repeats.getLast?_eq h, List.getLast?_map]

theorem map_mem_iff {β : Type} (h : Lists l c) {f : Rec → β} (hf : ∀ r, f (unsigned r) = f r) {x : β} :
    x ∈ l.map f ↔ x ∈ c.map f := by
  rw [← (Repeats.map h f).mem_iff, List.map_map, show f ∘ unsigned = f from funext hf]

end Lists

/-! ## Roots -/

theorem witnessedKeys_lists {l c : List Rec} (h : Lists l c) :
    (∀ k, (witnessedKeys X l).1.contains k = (witnessedKeys X c).1.contains k) ∧
      ∀ k, (witnessedKeys X l).2.contains k = (witnessedKeys X c).2.contains k := by
  have hjwks : ∀ v, v ∈ (l.filter isKeyRow).map (fun r => r.ctx.index "jwk") ↔
      v ∈ (c.filter isKeyRow).map fun r => r.ctx.index "jwk" := by
    intro v
    exact (h.filter fun _ => rfl).map_mem_iff fun _ => rfl
  constructor
  · intro k
    rw [Bool.eq_iff_iff, List.contains_iff_mem, List.contains_iff_mem]
    simp only [witnessedKeys, List.mem_filterMap, hjwks]
  · intro k
    rw [Bool.eq_iff_iff, List.contains_iff_mem, List.contains_iff_mem]
    simp only [witnessedKeys, List.mem_filterMap, hjwks]

theorem validEnrolment_lists {l c : List Rec} (h : Lists l c) (ctx : Value) :
    validEnrolment X ctx (witnessedKeys X l) = validEnrolment X ctx (witnessedKeys X c) := by
  obtain ⟨h1, h2⟩ := witnessedKeys_lists (X := X) h
  simp only [validEnrolment, h1, h2]

/-- Two replays that give every reader the same roots: at every leaf the same
root is in force, under the same organisation. -/
structure SameRoots (st st' : Roots) : Prop where
  org : st.orgId = st'.orgId
  last : st.timeline.getLast? = st'.timeline.getLast?
  at_ : ∀ leaf, rootAt st.timeline leaf = rootAt st'.timeline leaf

theorem rootAt_concat (timeline : List RootEntry) (t : RootEntry) (leaf : Int) :
    rootAt (timeline ++ [t]) leaf = if t.leaf ≤ leaf then some t else rootAt timeline leaf := by
  simp only [rootAt, List.reverse_append, List.reverse_singleton, List.singleton_append, List.find?_cons]
  split <;> simp_all

/-- The root a row enrols. -/
def enrols (X : Crates) (witnessed : List String × List Digest) (r : Rec) : Option RootEntry :=
  if isEnrolment r then (validEnrolment X r.ctx witnessed).map fun v => ⟨r.leaf, v.1, v.2.1, v.2.2⟩ else none

theorem rootStep_eq (witnessed : List String × List Digest) (st : Roots) (r : Rec) :
    rootStep X witnessed st r = match enrols X witnessed r with
      | none => st
      | some t => match st.timeline.getLast? with
        | none => { st with orgId := some r.rh, timeline := st.timeline ++ [t] }
        | some last => if linkedTo X r.ctx last then { st with timeline := st.timeline ++ [t] }
          else { st with conflict := true } := by
  unfold rootStep enrols
  cases isEnrolment r with
  | false => rfl
  | true =>
    cases validEnrolment X r.ctx witnessed with
    | none => rfl
    | some v => rfl

/-- The row contradicts its own repetition: the root it enrols does not name
itself as its predecessor, so taken twice it is not linked to the root in
office. -/
def SelfUnlinked (X : Crates) (witnessed : List String × List Digest) (r : Rec) : Prop :=
  ∃ t, enrols X witnessed r = some t ∧ linkedTo X r.ctx t = false

/-- The row enrols a root that is not linked to the last one. -/
def Raises (X : Crates) (witnessed : List String × List Digest) (last : Option RootEntry) (r : Rec) : Prop :=
  ∃ t l, enrols X witnessed r = some t ∧ last = some l ∧ linkedTo X r.ctx l = false

theorem rootStep_conflict {witnessed : List String × List Digest} {st : Roots} {r : Rec} :
    (rootStep X witnessed st r).conflict = true ↔
      st.conflict = true ∨ Raises X witnessed st.timeline.getLast? r := by
  rw [rootStep_eq]
  unfold Raises
  cases enrols X witnessed r with
  | none => simp
  | some t =>
    cases st.timeline.getLast? with
    | none => simp
    | some last =>
      cases hl : linkedTo X r.ctx last with
      | true => simp [hl]
      | false => simp [hl]

theorem SameRoots.step {witnessed : List String × List Digest} {st st' : Roots} (h : SameRoots st st') (r : Rec) :
    SameRoots (rootStep X witnessed st r) (rootStep X witnessed st' r) := by
  rw [rootStep_eq, rootStep_eq, ← h.last]
  cases enrols X witnessed r with
  | none => exact h
  | some t =>
    cases st.timeline.getLast? with
    | none => exact ⟨rfl, by simp, fun leaf => by simp only [rootAt_concat, h.at_]⟩
    | some last =>
      dsimp only
      split
      · exact ⟨h.org, by simp, fun leaf => by simp only [rootAt_concat, h.at_]⟩
      · exact ⟨h.org, h.last, h.at_⟩

theorem SameRoots.trans {a b c : Roots} (h : SameRoots a b) (h' : SameRoots b c) : SameRoots a c :=
  ⟨h.org.trans h'.org, h.last.trans h'.last, fun leaf => (h.at_ leaf).trans (h'.at_ leaf)⟩

/-- The replay has taken the row: the root it enrols is the last one, or the row
has raised a conflict. From then on taking it again changes nothing. -/
def Settled (X : Crates) (witnessed : List String × List Digest) (r : Rec) (st : Roots) : Prop :=
  ∀ t, enrols X witnessed r = some t → st.timeline.getLast? = some t ∨
    st.conflict = true ∧ ∃ l, st.timeline.getLast? = some l ∧ linkedTo X r.ctx l = false

theorem settled_step (witnessed : List String × List Digest) (st : Roots) (r : Rec) :
    Settled X witnessed r (rootStep X witnessed st r) := by
  intro t ht
  rw [rootStep_eq, ht]
  cases hl : st.timeline.getLast? with
  | none => exact .inl (by simp)
  | some last =>
    cases hk : linkedTo X r.ctx last with
    | true => exact .inl (by simp [hk])
    | false => exact .inr ⟨by simp [hk], last, by simp [hk, hl], hk⟩

/-- Taking a row again changes no root, and raises a conflict if the row
contradicts its own repetition. -/
theorem Settled.again {witnessed : List String × List Digest} {st : Roots} {r : Rec} (h : Settled X witnessed r st) :
    SameRoots (rootStep X witnessed st r) st ∧
      ((rootStep X witnessed st r).conflict = true ↔ st.conflict = true ∨ SelfUnlinked X witnessed r) := by
  rw [rootStep_conflict]
  cases ht : enrols X witnessed r with
  | none =>
    rw [rootStep_eq, ht]
    exact ⟨⟨rfl, rfl, fun _ => rfl⟩, by simp [Raises, SelfUnlinked, ht]⟩
  | some t =>
    rcases h t ht with hlast | ⟨hconflict, l, hl, hk⟩
    · refine ⟨?_, by simp [Raises, SelfUnlinked, ht, hlast]⟩
      rw [rootStep_eq, ht, hlast]
      dsimp only
      split
      · -- the root stands twice in a row, and a reader finds the later one
        refine ⟨rfl, by simp [hlast], fun leaf => ?_⟩
        obtain ⟨before, heq⟩ := List.getLast?_eq_some_iff.mp hlast
        simp only [heq, rootAt_concat]
        split <;> rfl
      · exact ⟨rfl, rfl, fun _ => rfl⟩
    · refine ⟨?_, by simp [hconflict]⟩
      rw [rootStep_eq, ht, hl]
      simp only [hk, Bool.false_eq_true, if_false]
      exact ⟨rfl, rfl, fun _ => rfl⟩

/-- A block of one row, repeated. The first turn settles it, and the second
raises a conflict if the row contradicts its own repetition. -/
theorem rootBlock (witnessed : List String × List Digest) (st : Roots) (r : Rec) (n : Nat) :
    SameRoots ((List.replicate (n + 1) r).foldl (rootStep X witnessed) st) (rootStep X witnessed st r) ∧
      Settled X witnessed r ((List.replicate (n + 1) r).foldl (rootStep X witnessed) st) ∧
      (((List.replicate (n + 1) r).foldl (rootStep X witnessed) st).conflict = true ↔
        (rootStep X witnessed st r).conflict = true ∨ 0 < n ∧ SelfUnlinked X witnessed r) := by
  induction n with
  | zero => exact ⟨⟨rfl, rfl, fun _ => rfl⟩, settled_step witnessed st r, by simp⟩
  | succ n ih =>
    obtain ⟨hsame, hsettled, hconflict⟩ := ih
    rw [List.replicate_succ' (n := n + 1), List.foldl_append, List.foldl_cons, List.foldl_nil]
    obtain ⟨hagain, hraise⟩ := hsettled.again
    refine ⟨hagain.trans hsame, settled_step witnessed _ r, ?_⟩
    rw [hraise, hconflict]
    constructor
    · rintro ((h | ⟨_, h⟩) | h)
      · exact .inl h
      · exact .inr ⟨Nat.succ_pos n, h⟩
      · exact .inr ⟨Nat.succ_pos n, h⟩
    · rintro (h | ⟨_, h⟩)
      · exact .inl (.inl h)
      · exact .inr h

/-- A listing replays to the roots of its rows, with a conflict more if a row
that contradicts its own repetition stands twice. By induction over the
blocks. -/
theorem rootFold (witnessed : List String × List Digest) {l c : List Rec} (h : Repeats l c) (hn : c.Nodup) :
    ∀ (st st' : Roots) (E : Prop), SameRoots st st' → (st.conflict = true ↔ st'.conflict = true ∨ E) →
      SameRoots (l.foldl (rootStep X witnessed) st) (c.foldl (rootStep X witnessed) st') ∧
        ((l.foldl (rootStep X witnessed) st).conflict = true ↔
          (c.foldl (rootStep X witnessed) st').conflict = true ∨ E ∨ ∃ r, List.Duplicate r l ∧ SelfUnlinked X witnessed r) := by
  induction h with
  | nil => intro st st' E hs he; exact ⟨hs, by simpa using he⟩
  | @cons a n l c h ih =>
    intro st st' E hs he
    rw [List.nodup_cons] at hn
    have ha := mt h.mem_iff.mp hn.1
    obtain ⟨hblock, -, hraise⟩ := rootBlock (X := X) witnessed st a n
    obtain ⟨hsame, hconflict⟩ := ih hn.2 _ (rootStep X witnessed st' a) (E ∨ 0 < n ∧ SelfUnlinked X witnessed a)
      (hblock.trans (hs.step a)) (by rw [hraise, rootStep_conflict, rootStep_conflict, hs.last, he]; tauto)
    rw [List.foldl_append]
    refine ⟨hsame, hconflict.trans ?_⟩
    rw [List.foldl_cons]
    have hdup : (∃ r, List.Duplicate r (List.replicate (n + 1) a ++ l) ∧ SelfUnlinked X witnessed r) ↔
        (0 < n ∧ SelfUnlinked X witnessed a) ∨ ∃ r, List.Duplicate r l ∧ SelfUnlinked X witnessed r := by
      simp only [Repeats.duplicate_block ha, or_and_right, exists_or, and_assoc, exists_eq_left]
    rw [hdup, or_assoc]

theorem replayRoots_lists {l c : List Rec} (h : Lists l c) (hn : c.Nodup) :
    SameRoots (replayRoots X l) (replayRoots X c) ∧
      ((replayRoots X l).conflict = true ↔ (replayRoots X c).conflict = true ∨
        ∃ r, List.Duplicate r (l.map unsigned) ∧ SelfUnlinked X (witnessedKeys X c) r) := by
  have hstep : rootStep X (witnessedKeys X l) = rootStep X (witnessedKeys X c) := by
    funext st r
    simp only [rootStep, validEnrolment_lists h]
  have hfold : replayRoots X l = (l.map unsigned).foldl (rootStep X (witnessedKeys X c)) {} := by
    rw [replayRoots, hstep, List.foldl_map]
    rfl
  rw [hfold]
  obtain ⟨hsame, hconflict⟩ := rootFold (X := X) (witnessedKeys X c) h hn {} {} False
    ⟨rfl, rfl, fun _ => rfl⟩ (by simp)
  rw [false_or] at hconflict
  exact ⟨hsame, hconflict⟩

theorem rootValid_same {st st' : Roots} (h : SameRoots st st') (actionType : String) :
    rootValid X st.timeline actionType = rootValid X st'.timeline actionType := by
  funext r
  simp only [rootValid, h.at_]

/-- The root-valid statements of a listing are those of its rows, repeated. -/
theorem rootValidAuth_lists {l c : List Rec} {st st' : Roots} (h : Lists l c) (hr : SameRoots st st')
    (actionType : String) :
    Lists (rootValidAuth X l st.timeline actionType) (rootValidAuth X c st'.timeline actionType) := by
  simp only [rootValidAuth, rootValid_same hr]
  exact h.filter fun _ => rfl

/-! ## Bindings -/

theorem bindingConflict_iff {l : List Rec} :
    bindingConflict l = true ↔ ∃ a b, [a, b].Sublist l ∧ bindingClash a b = true := by
  induction l with
  | nil => simp [bindingConflict]
  | cons x l ih =>
    rw [bindingConflict, Bool.or_eq_true, List.any_eq_true, ih]
    constructor
    · rintro (⟨b, hb, hclash⟩ | ⟨a, b, hab, hclash⟩)
      · exact ⟨x, b, .cons_cons x (List.singleton_sublist.mpr hb), hclash⟩
      · exact ⟨a, b, hab.cons x, hclash⟩
    · rintro ⟨a, b, hab, hclash⟩
      cases hab with
      | cons _ hab => exact .inr ⟨a, b, hab, hclash⟩
      | cons_cons _ hab => exact .inl ⟨b, List.singleton_sublist.mp hab, hclash⟩

theorem bindingConflict_unsigned (l : List Rec) : bindingConflict (l.map unsigned) = bindingConflict l := by
  induction l with
  | nil => rfl
  | cons x l ih =>
    rw [List.map_cons, bindingConflict, bindingConflict, ih, List.any_map]
    rfl

/-- Bindings of a listing clash when two of its rows do, or one that clashes
with itself stands twice: a window overlaps itself if it is not empty. -/
theorem bindingConflict_lists {l c : List Rec} (h : Lists l c) :
    bindingConflict l = true ↔
      bindingConflict c = true ∨ ∃ r, List.Duplicate r (l.map unsigned) ∧ bindingClash r r = true := by
  rw [← bindingConflict_unsigned, bindingConflict_iff, bindingConflict_iff]
  constructor
  · rintro ⟨a, b, hab, hclash⟩
    rcases Repeats.pair h hab with hc | rfl
    · exact .inl ⟨a, b, hc, hclash⟩
    · exact .inr ⟨a, List.duplicate_iff_sublist.mpr hab, hclash⟩
  · rintro (⟨a, b, hab, hclash⟩ | ⟨r, hr, hclash⟩)
    · exact ⟨a, b, hab.trans (Repeats.sublist h), hclash⟩
    · exact ⟨r, r, List.duplicate_iff_sublist.mp hr, hclash⟩

/-! ## Conflicts -/

def bindings (X : Crates) (rows : List Rec) : List Rec :=
  rootValidAuth X rows (replayRoots X rows).timeline "authority.principal.bound"

/-- The rows contradict each other: an unlinked root or clashing bindings. -/
def conflicted (X : Crates) (rows : List Rec) : Bool :=
  (replayRoots X rows).conflict || bindingConflict (bindings X rows)

/-- The row contradicts its own repetition: the root it enrols does not name
itself as its predecessor, or its window overlaps itself and it does not list
itself. -/
def SelfContradicting (X : Crates) (rows : List Rec) (r : Rec) : Prop :=
  SelfUnlinked X (witnessedKeys X rows) r ∨
    rootValid X (replayRoots X rows).timeline "authority.principal.bound" r = true ∧ bindingClash r r = true

/-- Whether the rows of a listing contradict each other, in roots or in
bindings. -/
theorem conflicted_lists {l c : List Rec} (h : Lists l c) (hn : c.Nodup) :
    conflicted X l = true ↔
      conflicted X c = true ∨ ∃ r, List.Duplicate r (l.map unsigned) ∧ SelfContradicting X c r := by
  obtain ⟨hroots, hconflict⟩ := replayRoots_lists (X := X) h hn
  have hbindings : (∃ r, List.Duplicate r ((bindings X l).map unsigned) ∧ bindingClash r r = true) ↔
      ∃ r, List.Duplicate r (l.map unsigned) ∧
        rootValid X (replayRoots X c).timeline "authority.principal.bound" r = true ∧ bindingClash r r = true := by
    have hmap : (bindings X l).map unsigned = (l.map unsigned).filter
        (rootValid X (replayRoots X c).timeline "authority.principal.bound") := by
      rw [List.filter_map, bindings, rootValidAuth, rootValid_same hroots]
      rfl
    simp only [hmap, Repeats.duplicate_filter, and_assoc]
  have hclash : bindingConflict (bindings X l) = true ↔ _ := bindingConflict_lists (rootValidAuth_lists h hroots _)
  have hself : (∃ r, List.Duplicate r (l.map unsigned) ∧ SelfContradicting X c r) ↔
      (∃ r, List.Duplicate r (l.map unsigned) ∧ SelfUnlinked X (witnessedKeys X c) r) ∨
        ∃ r, List.Duplicate r ((bindings X l).map unsigned) ∧ bindingClash r r = true := by
    rw [hbindings]
    simp only [SelfContradicting, and_or_left, exists_or]
  rw [conflicted, conflicted, Bool.or_eq_true, Bool.or_eq_true, hconflict, hclash, hself]
  exact or_or_or_comm

theorem matchBinding_lists {l c : List Rec} (h : Lists l c) (lineage : Lineage) (intent : Rec)
    (interval : Interval) :
    (matchBinding l lineage intent interval).map unsigned = matchBinding c lineage intent interval := by
  unfold matchBinding
  cases nts interval.lower with
  | none => rfl
  | some lo =>
    cases nts interval.upper with
    | none => rfl
    | some up => exact h.find?_eq fun _ => rfl

/-! ## Lineage -/

/-- An establishment of the agent stands twice. -/
def EstablishedTwice (rows : List Rec) (agent : String) : Prop :=
  ∃ r, List.Duplicate r (rows.map unsigned) ∧ r.agent = agent ∧ isEst r = true

theorem establishments_twice {l : List Rec} {agent : String} :
    EstablishedTwice l agent ↔
      ∃ r, List.Duplicate r (((l.filter fun r => r.agent == agent).filter isEst).map unsigned) := by
  have hmap : ((l.filter fun r => r.agent == agent).filter isEst).map unsigned =
      ((l.map unsigned).filter fun r => r.agent == agent).filter isEst := by
    rw [List.filter_map, List.filter_map]
    rfl
  simp only [EstablishedTwice, hmap, Repeats.duplicate_filter, beq_iff_eq, and_assoc]

/-- A listing has the lineage of its rows, unless an establishment stands twice:
then the agent has two and so no lineage at all. -/
theorem agentLineage_lists {l c : List Rec} (h : Lists l c) (agent : String) :
    (EstablishedTwice l agent → agentLineage l agent = none) ∧
      (¬ EstablishedTwice l agent → agentLineage l agent = agentLineage c agent) := by
  have hmine : Lists (l.filter fun r => r.agent == agent) (c.filter fun r => r.agent == agent) :=
    h.filter fun _ => rfl
  have hest : Lists ((l.filter fun r => r.agent == agent).filter isEst)
      ((c.filter fun r => r.agent == agent).filter isEst) := hmine.filter fun _ => rfl
  have hrevised := (hmine.filter (p := fun r => r.action == "lineage.revised") fun _ => rfl).getLast?_eq
  rw [establishments_twice]
  unfold agentLineage
  dsimp only
  rw [← hrevised]
  generalize (l.filter fun r => r.agent == agent).filter isEst = est at hest ⊢
  generalize (c.filter fun r => r.agent == agent).filter isEst = once at hest ⊢
  match est, hest with
  | [], hest =>
    obtain rfl := (Repeats.eq_nil_iff hest).mp rfl
    exact ⟨fun _ => rfl, fun _ => rfl⟩
  | [e], hest =>
    obtain rfl := Repeats.eq_singleton hest
    refine ⟨fun ⟨r, hr⟩ => absurd hr (by simp), fun _ => ?_⟩
    cases ((l.filter fun r => r.agent == agent).filter fun r => r.action == "lineage.revised").getLast? <;> rfl
  | e :: e' :: est, hest =>
    refine ⟨fun _ => rfl, fun hno => ?_⟩
    dsimp only
    match once, hest with
    | [], hest => cases (Repeats.eq_nil_iff hest).mpr rfl
    | [x], hest =>
      -- two rows that are one row repeated
      refine absurd ?_ hno
      have hall : ∀ y ∈ (e :: e' :: est).map unsigned, y = x := fun y hy =>
        List.mem_singleton.mp ((Repeats.mem_iff hest).mp hy)
      refine ⟨x, List.duplicate_iff_sublist.mpr ?_⟩
      rw [List.map_cons, List.map_cons, hall (unsigned e) (by simp), hall (unsigned e') (by simp)]
      exact .cons_cons x (.cons_cons x (List.nil_sublist _))
    | x :: y :: once, _ => rfl

/-! ## Grants -/

/-- A version inserted again changes nothing. -/
theorem insertVersion_again (l : List GrantVersion) (g : GrantVersion) :
    insertVersion (insertVersion l g) g = insertVersion l g := by
  have hself : g.sameKey g := ⟨rfl, rfl, rfl⟩
  induction l with
  | nil => simp [insertVersion, hself]
  | cons x l ih =>
    by_cases hkey : g.sameKey x
    · simp [insertVersion, hkey, hself]
    · by_cases hlt : g.lt x
      · simp [insertVersion, hkey, hlt, hself]
      · simp [insertVersion, hkey, hlt, ih]

/-- The table of versions keeps one receipt for each version and hash, so a
repeated row adds nothing. -/
theorem grantVersions_lists {l c : List Rec} (h : Lists l c) : grantVersions l = grantVersions c := by
  have hl : l.mapM grantVersion = (l.map unsigned).mapM grantVersion := by
    rw [List.mapM_map]
    rfl
  unfold grantVersions
  rw [hl]
  rcases Repeats.mapM h grantVersion with ⟨hl, hc⟩ | ⟨l', c', hl, hc, hrep⟩
  · rw [hl, hc]
  · rw [hl, hc, Option.map_some, Option.map_some, hrep.foldl_eq insertVersion_again]

theorem byHash_lists {l c : List Rec} (h : Lists l c) (key : String) :
    (byHash l key).map unsigned = byHash c key := h.reverse_find?_eq fun _ => rfl

theorem mandateLoop_eq (l : List Rec) (cur : Rec) (seen : List String) :
    mandateLoop l cur seen = match cur.ctx.getSome "transfers_grant_id" with
      | none => some cur.rh
      | some nxt => nxt.asStr.bind fun key =>
        if seen.contains key then none else (byHash l key).bind fun r => mandateLoop l r (key :: seen) := by
  rw [mandateLoop.eq_def]
  cases cur.ctx.getSome "transfers_grant_id" with
  | none => rfl
  | some nxt =>
    dsimp only
    cases nxt.asStr with
    | none => rfl
    | some key =>
      rw [Option.bind_some]
      dsimp only
      split
      · rfl
      · split
        · rename_i hby
          rw [hby, Option.bind_none]
        · rename_i hby
          rw [hby, Option.bind_some]

/-- The loop reads the context and the hash of a grant. -/
theorem mandateLoop_unsigned (l : List Rec) (cur : Rec) (seen : List String) :
    mandateLoop l (unsigned cur) seen = mandateLoop l cur seen := by
  rw [mandateLoop_eq, mandateLoop_eq l cur]
  rfl

/-- The same grants are followed. -/
theorem mandateLoop_lists {l c : List Rec} (h : Lists l c) (cur : Rec) (seen : List String) :
    mandateLoop l cur seen = mandateLoop c cur seen := by
  induction cur, seen using mandateLoop.induct l with
  | case1 cur seen hnone => rw [mandateLoop_eq, mandateLoop_eq c, hnone]
  | case2 cur seen nxt hnxt hstr =>
    rw [mandateLoop_eq, mandateLoop_eq c, hnxt]
    simp only [hstr, Option.bind_none]
  | case3 cur seen nxt hnxt key hstr hseen =>
    rw [mandateLoop_eq, mandateLoop_eq c, hnxt]
    simp only [hstr, Option.bind_some, if_pos hseen]
  | case4 cur seen nxt hnxt key hstr hseen hby =>
    rw [mandateLoop_eq, mandateLoop_eq c, hnxt]
    simp only [hstr, Option.bind_some, if_neg hseen, ← byHash_lists h key, hby, Option.map_none, Option.bind_none]
  | case5 cur seen nxt hnxt key hstr hseen r hby ih =>
    rw [mandateLoop_eq, mandateLoop_eq c, hnxt]
    simp only [hstr, Option.bind_some, if_neg hseen, ← byHash_lists h key, hby, Option.map_some,
      mandateLoop_unsigned, ih]

theorem issuedFor_lists {l c : List Rec} (h : Lists l c) (gid : Value) (birthtags : List String) :
    (issuedFor l gid birthtags).map unsigned = issuedFor c gid birthtags := by
  have hfind := h.find?_eq (p := fun r => (Value.string r.rh).eqv gid) fun _ => rfl
  unfold issuedFor
  rw [← hfind]
  cases l.find? fun r => (Value.string r.rh).eqv gid with
  | none => rfl
  | some r =>
    simp only [Option.filter, Option.map_some]
    split <;> simp_all [unsigned]

theorem grantChainVerified_lists {l c : List Rec} {st st' : Roots} (h : Lists l c) (hr : SameRoots st st')
    (issued : Rec) (pairs : List GrantVersion) (intent : Rec) (interval : Interval) :
    grantChainVerified X l st.timeline issued pairs intent interval =
      grantChainVerified X c st'.timeline (unsigned issued) pairs (unsigned intent) interval := by
  have hrevoked : ∀ gid up, revokedInInterval X l st.timeline gid up = revokedInInterval X c st'.timeline gid up := by
    intro gid up
    exact (rootValidAuth_lists h hr _).any_eq fun _ => rfl
  unfold grantChainVerified
  simp only [hrevoked]
  rfl

/-- The authority of a listing is that of its rows: its grant, the chain it
hangs on, its revisions and what they cover. -/
theorem deriveAuthority_lists {l c : List Rec} {st st' : Roots} (h : Lists l c) (hr : SameRoots st st')
    (intent : Rec) (interval : Interval) (birthtags : List String) (bindingId : Option String) :
    deriveAuthority X l st.timeline intent interval birthtags bindingId =
      deriveAuthority X c st'.timeline (unsigned intent) interval birthtags bindingId := by
  have hissued := rootValidAuth_lists (X := X) h hr "authority.grant.issued"
  have hrevised : Lists (revisionsOf X l st.timeline (intent.ctx.index "grant_id"))
      (revisionsOf X c st'.timeline (intent.ctx.index "grant_id")) :=
    (rootValidAuth_lists h hr _).filter fun _ => rfl
  have hfor := issuedFor_lists hissued (intent.ctx.index "grant_id") birthtags
  unfold deriveAuthority
  dsimp only [unsigned]
  rw [grantVersions_lists hrevised, ← hfor]
  split
  · rfl
  cases issuedFor (rootValidAuth X l st.timeline "authority.grant.issued") (intent.ctx.index "grant_id") birthtags with
  | none => rfl
  | some issued =>
    have hsubst : bindingSubstituted issued (revisionsOf X l st.timeline (intent.ctx.index "grant_id")) bindingId =
        bindingSubstituted (unsigned issued) (revisionsOf X c st'.timeline (intent.ctx.index "grant_id"))
          bindingId := by
      cases bindingId with
      | none => rfl
      | some bid =>
        simp only [bindingSubstituted, Option.any_some, List.any_cons]
        rw [hrevised.any_eq fun _ => rfl]
        rfl
    have hmandate : mandateId issued (rootValidAuth X l st.timeline "authority.grant.issued") =
        mandateId (unsigned issued) (rootValidAuth X c st'.timeline "authority.grant.issued") :=
      (mandateLoop_lists hissued issued []).trans (mandateLoop_unsigned _ issued []).symm
    simp only [Option.map_some, hsubst, hmandate, grantChainVerified_lists h hr]
    rfl

/-! ## Intents -/

theorem min?_any_le (l : List Int) (leaf : Int) :
    (l.min?.any fun m => decide (m ≤ leaf)) = l.any fun m => decide (m ≤ leaf) := by
  rw [Bool.eq_iff_iff, Option.any_eq_true, List.any_eq_true]
  constructor
  · rintro ⟨m, hm, hle⟩
    exact ⟨m, (List.min?_eq_some_iff.mp hm).1, hle⟩
  · rintro ⟨m, hm, hle⟩
    cases hmin : l.min? with
    | none =>
      rw [List.min?_eq_none_iff.mp hmin] at hm
      cases hm
    | some k =>
      have hk := (List.min?_eq_some_iff.mp hmin).2 m hm
      simp only [decide_eq_true_eq] at hle ⊢
      exact ⟨k, rfl, hk.trans hle⟩

theorem intentResult_lists {l c : List Rec} (h : Lists l c) (chosen : Rec) (dup : Bool) :
    intentResult l chosen dup = intentResult c (unsigned chosen) dup := by
  have hsub : ∀ aid, (submissions l aid).any (fun m => decide (m ≤ chosen.leaf)) =
      (submissions c aid).any fun m => decide (m ≤ chosen.leaf) := by
    intro aid
    rw [Bool.eq_iff_iff, List.any_eq_true, List.any_eq_true]
    have hmem := fun x => (h.filter (p := fun r => r.action == "action.submitted" &&
      (r.ctx.index "action_id").eqv aid) fun _ => rfl).map_mem_iff (f := (·.leaf)) (x := x) fun _ => rfl
    simp only [submissions, hmem]
  unfold intentResult
  simp only [min?_any_le, hsub]
  rfl

/-- The same intent is picked, and it is known whether the action has
another. -/
theorem pickIntent_lists {l c : List Rec} (h : Lists l c) (actionId : Option String) :
    (pickIntent l actionId).map (fun p => (unsigned p.1, p.2)) = pickIntent c actionId := by
  have hintents : Lists (intentsOf l actionId) (intentsOf c actionId) :=
    (h.filter fun _ => rfl).filter fun _ => rfl
  have hhead := hintents.head?_eq
  unfold pickIntent
  dsimp only
  rw [← hhead]
  cases (intentsOf l actionId).head? with
  | none => rfl
  | some chosen =>
    have hset : (((intentsOf l actionId).filter fun r =>
          (r.ctx.index "action_id").eqv (chosen.ctx.index "action_id")).map (·.rh)).toFinset =
        (((intentsOf c actionId).filter fun r =>
          (r.ctx.index "action_id").eqv (chosen.ctx.index "action_id")).map (·.rh)).toFinset := by
      ext x
      rw [List.mem_toFinset, List.mem_toFinset]
      exact (hintents.filter fun _ => rfl).map_mem_iff fun _ => rfl
    simp only [Option.map_some, Option.bind_eq_bind, Option.bind_some, Option.pure_def, hset]
    rfl

/-! ## The facts of a listing -/

/-- The identity, given whether the rows conflict, the lineage and the signers
of the intent. -/
def identityWith (X : Crates) (bundle : Value) (rows : List Rec) (conflict : Bool) (lineage : Option Lineage)
    (intent : Rec) (interval : Interval) : Identity :=
  if conflict then { standing := .conflict }
  else match lineage with
    | none => { standing := .notVerified }
    | some lineage =>
      match birthtagOf X bundle lineage (replayRoots X rows).timeline with
      | none => { standing := .notVerified }
      | some birthtag =>
        match (matchBinding (bindings X rows) lineage intent interval).map (·.rh) with
        | some bindingId => { standing := .verified, bindingId := some bindingId, birthtag := some birthtag }
        | none => { standing := .notVerified, birthtag := some birthtag }

/-- The facts of an intent over one row for each leaf, given what is left of the
repetitions: whether the rows conflict, and the lineage. -/
def factsWith (X : Crates) (bundle : Value) (rows : List Rec) (conflict : Bool) (lineage : Option Lineage)
    (intent : Rec) (dup : Bool) : Facts :=
  let roots := replayRoots X rows
  let interval := intervalFor X bundle intent.leaf
  let identity := identityWith X bundle rows conflict lineage intent interval
  let birthtags := identity.birthtag.toList ++ (lineage.map (·.birthtagId)).toList
  let grant := deriveAuthority X rows roots.timeline (unsigned intent) interval birthtags identity.bindingId
  { valid := true, orgId := roots.orgId
    operatorEntity := (roots.timeline.getLast?.map (·.legalEntity)).filter fun v => !v.isNull
    interval := interval, intent := intentResult rows (unsigned intent) dup
    intentId := if dup then none else some intent.rh
    identity := identity.standing, bindingId := identity.bindingId, birthtagId := identity.birthtag
    authority := grant.standing, grantId := grant.grantId, mandateId := grant.mandateId }

theorem birthtagOf_same {st st' : Roots} (h : SameRoots st st') (bundle : Value) (lineage : Lineage) :
    birthtagOf X bundle lineage st.timeline = birthtagOf X bundle lineage st'.timeline := by
  have hpassport : ∀ passport imported, passportBundleOk X passport imported st.timeline =
      passportBundleOk X passport imported st'.timeline := by
    intro passport imported
    unfold passportBundleOk
    rw [h.last]
  simp only [birthtagOf, passportBirthtag, hpassport]

theorem deriveIdentity_lists {l c : List Rec} (h : Lists l c) (hn : c.Nodup) (bundle : Value) (intent : Rec)
    (lineage : Option Lineage) (interval : Interval) :
    deriveIdentity X l bundle intent lineage (replayRoots X l).timeline (replayRoots X l).conflict interval =
      identityWith X bundle c (conflicted X l) lineage intent interval := by
  have hroots := (replayRoots_lists (X := X) h hn).1
  unfold deriveIdentity identityWith
  dsimp only
  have hconflict : ((replayRoots X l).conflict || bindingConflict (rootValidAuth X l (replayRoots X l).timeline
      "authority.principal.bound")) = conflicted X l := rfl
  rw [hconflict]
  split
  · rfl
  cases lineage with
  | none => rfl
  | some lineage =>
    simp only [birthtagOf_same hroots]
    cases birthtagOf X bundle lineage (replayRoots X c).timeline with
    | none => rfl
    | some birthtag =>
      have hmatch := matchBinding_lists (rootValidAuth_lists (X := X) h hroots "authority.principal.bound") lineage
        intent interval
      dsimp only
      rw [bindings, ← hmatch]
      cases matchBinding (rootValidAuth X l (replayRoots X l).timeline "authority.principal.bound") lineage intent
        interval <;> rfl

/-- The facts of a listing, read off its rows. Everything that a repetition can
change is in two of the arguments. -/
theorem facts_lists {bundle : Value} {c : List Rec} (h : Lists (entryRows X bundle) c) (hn : c.Nodup)
    {actionId : Option String} {intent : Rec} {dup : Bool}
    (hpick : pickIntent (entryRows X bundle) actionId = some (intent, dup)) :
    facts X bundle actionId = factsWith X bundle c (conflicted X (entryRows X bundle))
      (agentLineage (entryRows X bundle) intent.agent) intent dup := by
  have hroots := (replayRoots_lists (X := X) h hn).1
  unfold facts
  simp only [hpick, intentFacts, deriveIdentity_lists h hn, deriveAuthority_lists h hroots, intentResult_lists h,
    hroots.org, hroots.last]
  rfl

end SwarrmVerify.L4.Listings
