import Mathlib.Data.List.Basic
import Mathlib.Data.Nat.Log
import Mathlib.Tactic

/-!
# Merkle trees with largest-power-of-two splits

The tree hash, audit path and consistency proof of RFC 6962 / RFC 9162 over
an arbitrary type `H` of hashes with an interior-node function `node`, and
the bit walk that verifiers run on a pair `(fn, sn)` of shifted indices.

* `mth`, `path`, `proof`: the recursive definitions.
* `leafRoute`, `prefixRoute`: on which side the siblings sit, upwards from a
  leaf and from the end of an old tree, by the recursion; `walk`: the same list
  read off the bits of `(fn, sn)`. `walk_eq_leafRoute` and
  `walk_eq_prefixRoute` say they agree on every tree size.
* `climb_steps`, `climb_lefts`: folding the genuine siblings into what the
  route leads to gives the root, and the left siblings alone give the old root.
* `climb_inj`: along one list of sides, a root determines the leaf and the
  siblings, provided `node` has no collision among the pairs hashed.

`node` is never assumed injective on all of `H × H` (no function onto a
finite set of hashes is): `NoCollision` speaks about a given list of pairs.
-/
namespace Rfc6962

variable {H : Type}

/-! ## The recursion -/

/-- The largest power of two strictly below `n`, for `n ≥ 2`. -/
def split (n : Nat) : Nat := 2 ^ Nat.log2 (n - 1)

theorem split_pos (n : Nat) : 0 < split n := Nat.two_pow_pos _

theorem split_lt {n : Nat} (h : 2 ≤ n) : split n < n := by
  have := Nat.log2_self_le (n := n - 1) (by omega)
  unfold split; omega

theorem le_two_split (n : Nat) : n ≤ 2 * split n := by
  have := Nat.lt_log2_self (n := n - 1)
  unfold split
  rw [Nat.pow_succ] at this; omega

/-- The split of every size in `(2^j, 2^(j+1)]` is `2^j`, which is how it is
computed with below. -/
theorem split_eq {j n : Nat} (h1 : 2 ^ j < n) (h2 : n ≤ 2 * 2 ^ j) : split n = 2 ^ j := by
  unfold split
  rw [(Nat.log2_eq_iff (by have := Nat.two_pow_pos j; omega)).mpr]
  rw [Nat.pow_succ]; omega

/-- `MTH(D)`. `empty` is the hash of the empty tree; the leaves come hashed. -/
def mth (node : H → H → H) (empty : H) : List H → H
  | [] => empty
  | [d] => d
  | a :: b :: ds =>
    node (mth node empty ((a :: b :: ds).take (split (a :: b :: ds).length)))
      (mth node empty ((a :: b :: ds).drop (split (a :: b :: ds).length)))
termination_by D => D.length
decreasing_by
  · have := split_lt (n := (a :: b :: ds).length) (by simp)
    simp at this ⊢; omega
  · have := split_pos (a :: b :: ds).length
    simp at this ⊢; omega

theorem mth_split (node : H → H → H) (empty : H) (D : List H) (h : 2 ≤ D.length) :
    mth node empty D =
      node (mth node empty (D.take (split D.length))) (mth node empty (D.drop (split D.length))) := by
  match D, h with
  | a :: b :: ds, _ => rw [mth]

/-- Every pair hashed while computing `MTH(D)`: what must not collide for a root
to determine its leaves. -/
def mthPairs (node : H → H → H) (empty : H) (D : List H) : List (H × H) :=
  if D.length < 2 then []
  else
    (mth node empty (D.take (split D.length)), mth node empty (D.drop (split D.length))) ::
      (mthPairs node empty (D.take (split D.length)) ++ mthPairs node empty (D.drop (split D.length)))
termination_by D.length
decreasing_by
  all_goals
    have := split_pos D.length
    have := split_lt (n := D.length) (by omega)
    simp; omega

theorem mthPairs_split (node : H → H → H) (empty : H) {D : List H} (h : 2 ≤ D.length) :
    mthPairs node empty D =
      (mth node empty (D.take (split D.length)), mth node empty (D.drop (split D.length))) ::
        (mthPairs node empty (D.take (split D.length)) ++
          mthPairs node empty (D.drop (split D.length))) := by
  rw [mthPairs, if_neg (by omega)]

/-- `PATH(i, D)`, the lowest sibling first. -/
def path (node : H → H → H) (empty : H) (i : Nat) (D : List H) : List H :=
  if D.length < 2 then []
  else if i < split D.length then
    path node empty i (D.take (split D.length)) ++ [mth node empty (D.drop (split D.length))]
  else
    path node empty (i - split D.length) (D.drop (split D.length)) ++
      [mth node empty (D.take (split D.length))]
termination_by D.length
decreasing_by
  all_goals
    have := split_pos D.length
    have := split_lt (n := D.length) (by omega)
    simp; omega

/-- `SUBPROOF(m, D, b)`. The flag says whether the old root is known to the
verifier. -/
def subproof (node : H → H → H) (empty : H) (m : Nat) (D : List H) (b : Bool) : List H :=
  if m = D.length then if b then [] else [mth node empty D]
  else if D.length < 2 then []
  else if m ≤ split D.length then
    subproof node empty m (D.take (split D.length)) b ++ [mth node empty (D.drop (split D.length))]
  else
    subproof node empty (m - split D.length) (D.drop (split D.length)) false ++
      [mth node empty (D.take (split D.length))]
termination_by D.length
decreasing_by
  all_goals
    have := split_pos D.length
    have := split_lt (n := D.length) (by omega)
    simp; omega

/-- `PROOF(m, D)`, for an old tree of `m` leaves. -/
def proof (node : H → H → H) (empty : H) (m : Nat) (D : List H) : List H :=
  subproof node empty m D true

/-! ## Climbing from a node to the root -/

/-- Where the sibling sits, seen from the node. -/
inductive Side where
  | left
  | right
  deriving DecidableEq, Repr

/-- The pair hashed when `r` meets its sibling `p`, in the order of the
leaves. -/
def meet (r : H) : Side → H → H × H
  | .left, p => (p, r)
  | .right, p => (r, p)

/-- Fold the siblings into `r`, leaf upwards. Both verifiers are climbs along
the sides they read off. -/
def climb (node : H → H → H) (r : H) : List (Side × H) → H
  | [] => r
  | (d, p) :: xs => climb node (node (meet r d p).1 (meet r d p).2) xs

/-- Every pair hashed by `climb`, from the leaf upwards. -/
def climbPairs (node : H → H → H) (r : H) : List (Side × H) → List (H × H)
  | [] => []
  | (d, p) :: xs => meet r d p :: climbPairs node (node (meet r d p).1 (meet r d p).2) xs

/-- Only the left siblings: what the old root of a consistency proof sees, since
right of it there was nothing yet. -/
def lefts (xs : List (Side × H)) : List (Side × H) := xs.filter fun x => x.1 = .left

theorem climb_append (node : H → H → H) (r : H) (xs ys : List (Side × H)) :
    climb node r (xs ++ ys) = climb node (climb node r xs) ys := by
  induction xs generalizing r with
  | nil => rfl
  | cons x xs ih => simp only [List.cons_append, climb]; exact ih _

theorem climbPairs_append (node : H → H → H) (r : H) (xs ys : List (Side × H)) :
    climbPairs node r (xs ++ ys) = climbPairs node r xs ++ climbPairs node (climb node r xs) ys := by
  induction xs generalizing r with
  | nil => rfl
  | cons x xs ih => simp only [List.cons_append, climbPairs, climb, List.cons_append]; rw [ih]

/-- No two different pairs of the list hash to the same node. It is asked of the
pairs at hand only, not of the hash. -/
def NoCollision (node : H → H → H) (P : List (H × H)) : Prop :=
  ∀ a ∈ P, ∀ b ∈ P, node a.1 a.2 = node b.1 b.2 → a = b

theorem NoCollision.mono {node : H → H → H} {P Q : List (H × H)} (h : NoCollision node Q)
    (hs : P ⊆ Q) : NoCollision node P :=
  fun a ha b hb => h a (hs ha) b (hs hb)

theorem meet_inj {r r' p p' : H} {d : Side} (h : meet r d p = meet r' d p') : r = r' ∧ p = p' := by
  cases d <;> simp only [meet, Prod.mk.injEq] at h
  · exact ⟨h.2, h.1⟩
  · exact h

/-- Along one list of sides, the root determines leaf and siblings. By induction
on the sides. -/
theorem climb_inj (node : H → H → H) (ds : List Side) :
    ∀ (r r' : H) (ps ps' : List H), ps.length = ds.length → ps'.length = ds.length →
      NoCollision node (climbPairs node r (ds.zip ps) ++ climbPairs node r' (ds.zip ps')) →
      climb node r (ds.zip ps) = climb node r' (ds.zip ps') → r = r' ∧ ps = ps' := by
  induction ds with
  | nil =>
    intro r r' ps ps' h h' _ he
    rw [List.length_nil, List.length_eq_zero_iff] at h h'
    subst h; subst h'
    exact ⟨he, rfl⟩
  | cons d ds ih =>
    intro r r' ps ps' h h' hc he
    obtain ⟨p, qs, rfl⟩ := List.exists_cons_of_length_eq_add_one h
    obtain ⟨p', qs', rfl⟩ := List.exists_cons_of_length_eq_add_one h'
    simp only [List.zip_cons_cons, climb, climbPairs] at hc he
    -- the rest of the climb agrees, so this level hashes to the same node
    obtain ⟨hn, rfl⟩ := ih _ _ qs qs' (by simpa using h) (by simpa using h')
      (hc.mono (by intro x; simp only [List.mem_append, List.mem_cons]; tauto)) he
    have hm := hc (meet r d p) (by simp) (meet r' d p') (by simp) hn
    obtain ⟨rfl, rfl⟩ := meet_inj hm
    exact ⟨rfl, rfl⟩

/-- A climb of any length that ends at the root of a tree starts at a leaf of
it, where leaves, nodes and the empty tree are told apart. -/
theorem climb_mem (node : H → H → H) (empty : H) {r : H} (xs : List (Side × H)) :
    ∀ D : List H, NoCollision node (climbPairs node r xs ++ mthPairs node empty D) →
      (∀ p ∈ mthPairs node empty D, node p.1 p.2 ≠ r) →
      (∀ p ∈ climbPairs node r xs, node p.1 p.2 ∉ empty :: D) → r ≠ empty →
      climb node r xs = mth node empty D → r ∈ D := by
  -- the last sibling stands under the root
  induction xs using List.reverseRecOn with
  | nil =>
    intro D _ hleaf _ hempty h
    match D with
    | [] => rw [mth] at h; exact absurd h hempty
    | [d] =>
      rw [mth] at h
      exact List.mem_singleton.mpr h
    | a :: b :: ds =>
      have h2 : 2 ≤ (a :: b :: ds).length := by simp
      rw [climb, mth_split node empty _ h2] at h
      rw [mthPairs_split node empty h2] at hleaf
      exact absurd h.symm (hleaf _ List.mem_cons_self)
  | append_singleton xs x ih =>
    intro D hc hleaf hnode hempty h
    obtain ⟨d, p⟩ := x
    rw [climb_append] at h
    rw [climbPairs_append] at hc hnode
    have hlast : meet (climb node r xs) d p ∈ climbPairs node r xs ++ climbPairs node (climb node r xs) [(d, p)] :=
      List.mem_append_right _ List.mem_cons_self
    match D with
    | [] =>
      rw [mth] at h
      exact absurd (h ▸ List.mem_cons_self) (hnode _ hlast)
    | [e] =>
      rw [mth] at h
      exact absurd (by rw [← h]; simp [climb]) (hnode _ hlast)
    | a :: b :: ds =>
      have h2 : 2 ≤ (a :: b :: ds).length := by simp
      rw [mth_split node empty _ h2] at h
      rw [mthPairs_split node empty h2] at hc hleaf
      have hpair := hc _ (List.mem_append_left _ hlast) _ (List.mem_append_right _ List.mem_cons_self) h
      -- one half of the tree is the rest of the climb
      have hhalf : climb node r xs = mth node empty ((a :: b :: ds).take (split (a :: b :: ds).length)) ∨
          climb node r xs = mth node empty ((a :: b :: ds).drop (split (a :: b :: ds).length)) := by
        cases d <;> simp only [meet, Prod.mk.injEq] at hpair
        · exact .inr hpair.2
        · exact .inl hpair.1
      rcases hhalf with hhalf | hhalf
      · refine List.mem_of_mem_take (ih _ (hc.mono ?_) (fun q hq => hleaf q ?_) (fun q hq hmem => ?_) hempty hhalf)
        · intro q
          simp only [List.mem_append, List.mem_cons]
          tauto
        · exact List.mem_cons_of_mem _ (List.mem_append_left _ hq)
        · refine hnode q (List.mem_append_left _ hq) ?_
          rcases List.mem_cons.mp hmem with he | he
          · exact List.mem_cons.mpr (.inl he)
          · exact List.mem_cons_of_mem _ (List.mem_of_mem_take he)
      · refine List.mem_of_mem_drop (ih _ (hc.mono ?_) (fun q hq => hleaf q ?_) (fun q hq hmem => ?_) hempty hhalf)
        · intro q
          simp only [List.mem_append, List.mem_cons]
          tauto
        · exact List.mem_cons_of_mem _ (List.mem_append_right _ hq)
        · refine hnode q (List.mem_append_left _ hq) ?_
          rcases List.mem_cons.mp hmem with he | he
          · exact List.mem_cons.mpr (.inl he)
          · exact List.mem_cons_of_mem _ (List.mem_of_mem_drop he)

/-! ## Routes -/

/-- Induction along the split of a list: the way every function of the standard
recurs. -/
theorem split_induction {P : List H → Prop} (small : ∀ D, D.length < 2 → P D)
    (step : ∀ D, 2 ≤ D.length → P (D.take (split D.length)) → P (D.drop (split D.length)) → P D)
    (D : List H) : P D := by
  induction h : D.length using Nat.strongRecOn generalizing D with
  | ind n ih =>
    by_cases h2 : D.length < 2
    · exact small D h2
    · have h1 := split_pos D.length
      have h3 := split_lt (n := D.length) (by omega)
      exact step D (by omega) (ih _ (by simp; omega) _ rfl) (ih _ (by simp; omega) _ rfl)

theorem length_take_split {D : List H} (h : 2 ≤ D.length) :
    (D.take (split D.length)).length = split D.length := by
  have := split_lt h; simp; omega

/-- The leaves below the end of a route. A route is read from the root:
`.right` (the sibling is on the right) goes into the left part. -/
def sub (D : List H) : List Side → List H
  | [] => D
  | .right :: r => sub (D.take (split D.length)) r
  | .left :: r => sub (D.drop (split D.length)) r

/-- The siblings along a route, lowest first: the roots of the parts that the
route does not enter. -/
def sibs (node : H → H → H) (empty : H) (D : List H) : List Side → List H
  | [] => []
  | .right :: r =>
    sibs node empty (D.take (split D.length)) r ++ [mth node empty (D.drop (split D.length))]
  | .left :: r =>
    sibs node empty (D.drop (split D.length)) r ++ [mth node empty (D.take (split D.length))]

/-- The route never leaves a tree of `n` leaves through a leaf. -/
def Fits (n : Nat) : List Side → Prop
  | [] => True
  | .right :: r => 2 ≤ n ∧ Fits (split n) r
  | .left :: r => 2 ≤ n ∧ Fits (n - split n) r

/-- The siblings of a route with their sides, lowest first, as a climb takes
them. -/
def steps (node : H → H → H) (empty : H) (D : List H) (r : List Side) : List (Side × H) :=
  r.reverse.zip (sibs node empty D r)

theorem length_sibs (node : H → H → H) (empty : H) (r : List Side) :
    ∀ D : List H, (sibs node empty D r).length = r.length := by
  induction r with
  | nil => intro D; rfl
  | cons d r ih => intro D; cases d <;> simp [sibs, ih]

theorem zip_append_single (ds : List Side) (ps : List H) (d : Side) (p : H)
    (h : ps.length = ds.length) : (ds ++ [d]).zip (ps ++ [p]) = ds.zip ps ++ [(d, p)] := by
  rw [List.zip_append h.symm]; rfl

theorem steps_right (node : H → H → H) (empty : H) (D : List H) (r : List Side) :
    steps node empty D (.right :: r) = steps node empty (D.take (split D.length)) r ++
      [(.right, mth node empty (D.drop (split D.length)))] := by
  unfold steps
  rw [sibs, List.reverse_cons, zip_append_single _ _ _ _ (by simp [length_sibs])]

theorem steps_left (node : H → H → H) (empty : H) (D : List H) (r : List Side) :
    steps node empty D (.left :: r) = steps node empty (D.drop (split D.length)) r ++
      [(.left, mth node empty (D.take (split D.length)))] := by
  unfold steps
  rw [sibs, List.reverse_cons, zip_append_single _ _ _ _ (by simp [length_sibs])]

theorem fits_right {D : List H} {r : List Side} (h : Fits D.length (.right :: r)) :
    2 ≤ D.length ∧ Fits (D.take (split D.length)).length r := by
  rw [length_take_split h.1]; exact h

theorem fits_left {D : List H} {r : List Side} (h : Fits D.length (.left :: r)) :
    2 ≤ D.length ∧ Fits (D.drop (split D.length)).length r := by
  rw [List.length_drop]; exact h

/-- Climbing from the end of a route with the genuine siblings gives the root.
By induction on the route. -/
theorem climb_steps (node : H → H → H) (empty : H) (r : List Side) :
    ∀ D : List H, Fits D.length r →
      climb node (mth node empty (sub D r)) (steps node empty D r) = mth node empty D := by
  induction r with
  | nil => intro D _; rfl
  | cons d r ih =>
    intro D hf
    cases d with
    | right =>
      obtain ⟨h, hr⟩ := fits_right hf
      rw [sub, steps_right, climb_append, ih _ hr, mth_split node empty D h]; rfl
    | left =>
      obtain ⟨h, hr⟩ := fits_left hf
      rw [sub, steps_left, climb_append, ih _ hr, mth_split node empty D h]; rfl

/-- The pairs hashed on that climb are pairs of the tree, so nothing more is
asked not to collide. -/
theorem climbPairs_steps (node : H → H → H) (empty : H) (r : List Side) :
    ∀ D : List H, Fits D.length r →
      climbPairs node (mth node empty (sub D r)) (steps node empty D r) ⊆ mthPairs node empty D := by
  induction r with
  | nil => intro D _; simp [steps, sibs, climbPairs]
  | cons d r ih =>
    intro D hf x hx
    cases d with
    | right =>
      obtain ⟨h, hr⟩ := fits_right hf
      rw [sub, steps_right, climbPairs_append, climb_steps node empty r _ hr] at hx
      rw [mthPairs_split node empty h]
      simp only [climbPairs, meet, List.mem_append, List.mem_cons, List.not_mem_nil, or_false] at hx ⊢
      rcases hx with hx | rfl
      · exact Or.inr (Or.inl (ih _ hr hx))
      · exact Or.inl rfl
    | left =>
      obtain ⟨h, hr⟩ := fits_left hf
      rw [sub, steps_left, climbPairs_append, climb_steps node empty r _ hr] at hx
      rw [mthPairs_split node empty h]
      simp only [climbPairs, meet, List.mem_append, List.mem_cons, List.not_mem_nil, or_false] at hx ⊢
      rcases hx with hx | rfl
      · exact Or.inr (Or.inr (ih _ hr hx))
      · exact Or.inl rfl

/-- A climb along the sides of a route that reaches the tree's root started
at the tree's node and used the tree's siblings. -/
theorem climb_eq_mth (node : H → H → H) (empty : H) (D : List H) (r : List Side)
    (hf : Fits D.length r) (h : H) (ps : List H) (hl : ps.length = r.length)
    (hc : NoCollision node (climbPairs node h (r.reverse.zip ps) ++ mthPairs node empty D))
    (he : climb node h (r.reverse.zip ps) = mth node empty D) :
    h = mth node empty (sub D r) ∧ ps = sibs node empty D r := by
  refine climb_inj node r.reverse h _ ps _ (by simpa using hl) (by simp [length_sibs]) ?_
    (he.trans (climb_steps node empty r D hf).symm)
  refine hc.mono fun x hx => ?_
  rcases List.mem_append.mp hx with hx | hx
  · exact List.mem_append_left _ hx
  · exact List.mem_append_right _ (climbPairs_steps node empty r D hf hx)

/-! ## The route to a leaf -/

/-- The route from the root of an `n`-leaf tree to leaf `i`, left or right at
every split. -/
def leafRoute (i n : Nat) : List Side :=
  if n < 2 then []
  else if i < split n then .right :: leafRoute i (split n)
  else .left :: leafRoute (i - split n) (n - split n)
termination_by n
decreasing_by
  · exact split_lt (by omega)
  · have := split_pos n; omega

theorem leafRoute_small {i n : Nat} (h : n < 2) : leafRoute i n = [] := by rw [leafRoute, if_pos h]

theorem leafRoute_lt {i n : Nat} (h : 2 ≤ n) (hi : i < split n) :
    leafRoute i n = .right :: leafRoute i (split n) := by
  rw [leafRoute, if_neg (by omega), if_pos hi]

theorem leafRoute_ge {i n : Nat} (h : 2 ≤ n) (hi : split n ≤ i) :
    leafRoute i n = .left :: leafRoute (i - split n) (n - split n) := by
  rw [leafRoute, if_neg (by omega), if_neg (by omega)]

theorem fits_leafRoute (n : Nat) : ∀ i, Fits n (leafRoute i n) := by
  induction n using Nat.strongRecOn with
  | ind n ih =>
    intro i
    by_cases h : n < 2
    · rw [leafRoute_small h]; trivial
    have h1 := split_pos n
    have h2 := split_lt (n := n) (by omega)
    rcases Nat.lt_or_ge i (split n) with hi | hi
    · rw [leafRoute_lt (by omega) hi]; exact ⟨by omega, ih _ h2 i⟩
    · rw [leafRoute_ge (by omega) hi]; exact ⟨by omega, ih _ (by omega) _⟩

theorem path_eq_sibs (node : H → H → H) (empty : H) (D : List H) :
    ∀ i, path node empty i D = sibs node empty D (leafRoute i D.length) := by
  induction D using split_induction with
  | small D h => intro i; rw [path, if_pos h, leafRoute_small h]; rfl
  | step D h ih1 ih2 =>
    intro i
    rcases Nat.lt_or_ge i (split D.length) with hi | hi
    · rw [path, if_neg (by omega), if_pos hi, ih1, leafRoute_lt h hi, sibs, length_take_split h]
    · rw [path, if_neg (by omega), if_neg (by omega), ih2, leafRoute_ge h hi, sibs, List.length_drop]

theorem sub_leafRoute (D : List H) : ∀ i d, D[i]? = some d → sub D (leafRoute i D.length) = [d] := by
  induction D using split_induction with
  | small D h =>
    intro i d hi
    rw [leafRoute_small h]
    match D, h, hi with
    | [e], _, hi =>
      obtain ⟨_, rfl⟩ := List.getElem?_eq_some_iff.mp hi
      simp [sub]
  | step D h ih1 ih2 =>
    intro i d hd
    rcases Nat.lt_or_ge i (split D.length) with hi | hi
    · have := ih1 i d (by rw [List.getElem?_take, if_pos hi]; exact hd)
      rw [length_take_split h] at this
      rw [leafRoute_lt h hi, sub, this]
    · have := ih2 (i - split D.length) d (by
        rw [List.getElem?_drop, show split D.length + (i - split D.length) = i by omega]; exact hd)
      rw [List.length_drop] at this
      rw [leafRoute_ge h hi, sub, this]

/-! ## The bit walk -/

/-- Halve both while the first is even and not zero: the levels without a
sibling. -/
def stripZeros (f s : Nat) : Nat × Nat :=
  if f % 2 = 0 ∧ f ≠ 0 then stripZeros (f / 2) (s / 2) else (f, s)
termination_by f

theorem stripZeros_snd_le (f s : Nat) : (stripZeros f s).2 ≤ s := by
  induction f using Nat.strongRecOn generalizing s with
  | ind f ih =>
    rw [stripZeros]
    split
    · have := ih (f / 2) (by omega) (s / 2); omega
    · exact Nat.le_refl _

theorem stripZeros_odd {f s : Nat} (h : f % 2 = 1) : stripZeros f s = (f, s) := by
  rw [stripZeros, if_neg (by omega)]

/-- The sides a verifier reads off the shifted pair `(fn, sn)`, lowest first. -/
def walk (f s : Nat) : List Side :=
  if s = 0 then []
  else if f % 2 = 1 ∨ f = s then
    .left :: walk ((stripZeros f s).1 / 2) ((stripZeros f s).2 / 2)
  else .right :: walk (f / 2) (s / 2)
termination_by s
decreasing_by
  · have := stripZeros_snd_le f s; omega
  · omega

theorem walk_zero (f : Nat) : walk f 0 = [] := by rw [walk, if_pos rfl]

theorem walk_strip {f s : Nat} (hs : s ≠ 0) (hf : f % 2 = 1 ∨ f = s) :
    walk f s = .left :: walk ((stripZeros f s).1 / 2) ((stripZeros f s).2 / 2) := by
  rw [walk, if_neg hs, if_pos hf]

theorem walk_eq_nil {f s : Nat} : walk f s = [] ↔ s = 0 := by
  rw [walk]; split <;> [simp [*]; (split <;> simp [*])]

theorem walk_odd {f s : Nat} (hs : s ≠ 0) (hf : f % 2 = 1) :
    walk f s = .left :: walk (f / 2) (s / 2) := by
  rw [walk_strip hs (Or.inl hf), stripZeros_odd hf]

theorem walk_even {f s : Nat} (hs : s ≠ 0) (hf : f % 2 = 0) (hne : f ≠ s) :
    walk f s = .right :: walk (f / 2) (s / 2) := by
  rw [walk, if_neg hs, if_neg (by omega)]

/-- On the right edge the walk skips the levels without a sibling, so an even
pair walks like its half. -/
theorem walk_double (a : Nat) : walk (2 * a) (2 * a) = walk a a := by
  by_cases h : a = 0
  · subst h; rfl
  · rw [walk_strip (by omega) (Or.inr rfl), walk_strip h (Or.inr rfl), stripZeros, if_pos (by omega),
      Nat.mul_div_cancel_left a (by decide)]

/-- Below a complete left part the walk does not see the rest of the tree. -/
theorem walk_right (j : Nat) : ∀ f s, f < 2 ^ j → 2 ^ j ≤ s → s < 2 * 2 ^ j →
    walk f s = walk f (2 ^ j - 1) ++ [.right] := by
  induction j with
  | zero =>
    intro f s h1 h2 h3
    obtain rfl : f = 0 := by omega
    obtain rfl : s = 1 := by omega
    rw [walk_even (by omega) rfl (by omega)]
    simp [walk_zero]
  | succ j ih =>
    intro f s h1 h2 h3
    rw [Nat.pow_succ] at h1 h2 h3 ⊢
    have hp := Nat.two_pow_pos j
    have hrec := ih (f / 2) (s / 2) (by omega) (by omega) (by omega)
    have hhalf : (2 ^ j * 2 - 1) / 2 = 2 ^ j - 1 := by omega
    rcases Nat.mod_two_eq_zero_or_one f with hf | hf
    · rw [walk_even (by omega) hf (by omega), walk_even (by omega) hf (by omega), hhalf, hrec]; rfl
    · rw [walk_odd (by omega) hf, walk_odd (by omega) hf, hhalf, hrec]; rfl

/-- In the right part the walk is the walk of that part, then a left sibling. -/
theorem walk_left (j : Nat) : ∀ f s, 2 ^ j ≤ f → f ≤ s → s < 2 * 2 ^ j →
    walk f s = walk (f - 2 ^ j) (s - 2 ^ j) ++ [.left] := by
  induction j with
  | zero =>
    intro f s h1 h2 h3
    obtain rfl : f = 1 := by omega
    obtain rfl : s = 1 := by omega
    rw [walk_odd (by omega) rfl]
    simp [walk_zero]
  | succ j ih =>
    intro f s h1 h2 h3
    rw [Nat.pow_succ] at h1 h3 ⊢
    have hrec := ih (f / 2) (s / 2) (by omega) (by omega) (by omega)
    have hf' : (f - 2 ^ j * 2) / 2 = f / 2 - 2 ^ j := by omega
    have hs' : (s - 2 ^ j * 2) / 2 = s / 2 - 2 ^ j := by omega
    rcases Nat.mod_two_eq_zero_or_one f with hf | hf
    · by_cases he : f = s
      · -- the right edge: both sides skip the same levels
        subst he
        have e1 : f = 2 * (f / 2) := by omega
        have e2 : f - 2 ^ j * 2 = 2 * (f / 2 - 2 ^ j) := by omega
        rw [e2, walk_double, ← hrec, ← walk_double (f / 2), ← e1]
      · have e := walk_even (f := f - 2 ^ j * 2) (s := s - 2 ^ j * 2) (by omega) (by omega) (by omega)
        rw [walk_even (by omega) hf he, e, hf', hs', hrec]; rfl
    · have e := walk_odd (f := f - 2 ^ j * 2) (s := s - 2 ^ j * 2) (by omega) (by omega)
      rw [walk_odd (by omega) hf, e, hf', hs', hrec]; rfl

/-- The bit walk from `(i, n - 1)` reads off the route to leaf `i`. -/
theorem walk_eq_leafRoute (n : Nat) : ∀ i, i < n → walk i (n - 1) = (leafRoute i n).reverse := by
  induction n using Nat.strongRecOn with
  | ind n ih =>
    intro i hin
    by_cases h : n < 2
    · obtain rfl : n = 1 := by omega
      rw [leafRoute_small h, walk_zero]; rfl
    have h1 := split_pos n
    have h2 := split_lt (n := n) (by omega)
    have h3 := le_two_split n
    have hk : split n = 2 ^ Nat.log2 (n - 1) := rfl
    rcases Nat.lt_or_ge i (split n) with hi | hi
    · rw [leafRoute_lt (by omega) hi, List.reverse_cons, ← ih _ h2 i hi, hk]
      exact walk_right _ _ _ (by omega) (by omega) (by omega)
    · rw [leafRoute_ge (by omega) hi, List.reverse_cons, ← ih _ (by omega) _ (by omega), hk,
        show n - 2 ^ Nat.log2 (n - 1) - 1 = n - 1 - 2 ^ Nat.log2 (n - 1) by omega]
      exact walk_left _ _ _ (by omega) (by omega) (by omega)

/-- A walk without a left sibling starts at `0`: the leaf is the first one. -/
theorem walk_no_left (s : Nat) : ∀ f, f ≤ s → .left ∉ walk f s → f = 0 := by
  induction s using Nat.strongRecOn with
  | ind s ih =>
    intro f hf hn
    by_cases hs : s = 0
    · omega
    rcases Nat.mod_two_eq_zero_or_one f with h | h
    · by_cases he : f = s
      · rw [walk_strip hs (Or.inr he)] at hn; simp at hn
      · rw [walk_even hs h he] at hn
        have := ih (s / 2) (by omega) (f / 2) (by omega) (by simpa using hn)
        omega
    · rw [walk_odd hs h] at hn; simp at hn

theorem walk_zero_left (s : Nat) : .left ∉ walk 0 s := by
  induction s using Nat.strongRecOn with
  | ind s ih =>
    by_cases hs : s = 0
    · rw [hs, walk_zero]; simp
    · rw [walk_even hs rfl (by omega)]
      simpa using ih (s / 2) (by omega)

/-! ## The route to the old tree's last complete block -/

/-- The route from the root of an `n`-leaf tree towards the end of its first
`m` leaves, stopping where exactly `m` leaves remain. -/
def prefixRoute (m n : Nat) : List Side :=
  if m = n then []
  else if n < 2 then []
  else if m ≤ split n then .right :: prefixRoute m (split n)
  else .left :: prefixRoute (m - split n) (n - split n)
termination_by n
decreasing_by
  · exact split_lt (by omega)
  · have := split_pos n; omega

theorem prefixRoute_self (n : Nat) : prefixRoute n n = [] := by rw [prefixRoute, if_pos rfl]

theorem prefixRoute_le {m n : Nat} (hn : 2 ≤ n) (hmn : m ≠ n) (hk : m ≤ split n) :
    prefixRoute m n = .right :: prefixRoute m (split n) := by
  rw [prefixRoute, if_neg hmn, if_neg (by omega), if_pos hk]

theorem prefixRoute_gt {m n : Nat} (hn : 2 ≤ n) (hmn : m ≠ n) (hk : split n < m) :
    prefixRoute m n = .left :: prefixRoute (m - split n) (n - split n) := by
  rw [prefixRoute, if_neg hmn, if_neg (by omega), if_neg (by omega)]

theorem fits_prefixRoute (n : Nat) : ∀ m, Fits n (prefixRoute m n) := by
  induction n using Nat.strongRecOn with
  | ind n ih =>
    intro m
    by_cases hmn : m = n
    · rw [hmn, prefixRoute_self]; trivial
    by_cases h : n < 2
    · rw [prefixRoute, if_neg hmn, if_pos h]; trivial
    have h1 := split_pos n
    have h2 := split_lt (n := n) (by omega)
    rcases Nat.lt_or_ge (split n) m with hi | hi
    · rw [prefixRoute_gt (by omega) hmn hi]; exact ⟨by omega, ih _ (by omega) _⟩
    · rw [prefixRoute_le (by omega) hmn hi]; exact ⟨by omega, ih _ h2 m⟩

/-- The consistency proof is the block at the end of the route, unless the
old tree is that block, and the siblings along the route. -/
theorem subproof_eq (node : H → H → H) (empty : H) (D : List H) :
    ∀ m b, 0 < m → m ≤ D.length →
      subproof node empty m D b =
        (if b = true ∧ .left ∉ prefixRoute m D.length then []
          else [mth node empty (sub D (prefixRoute m D.length))]) ++
          sibs node empty D (prefixRoute m D.length) := by
  induction D using split_induction with
  | small D h =>
    intro m b h0 hm
    obtain rfl : m = D.length := by omega
    rw [subproof, if_pos rfl, prefixRoute_self]
    cases b <;> simp [sub, sibs]
  | step D h ih1 ih2 =>
    intro m b h0 hm
    have h1 := split_pos D.length
    by_cases hmn : m = D.length
    · subst hmn
      rw [subproof, if_pos rfl, prefixRoute_self]
      cases b <;> simp [sub, sibs]
    rcases Nat.lt_or_ge (split D.length) m with hk | hk
    · rw [subproof, if_neg hmn, if_neg (by omega), if_neg (by omega),
        ih2 _ false (by omega) (by rw [List.length_drop]; omega), prefixRoute_gt h hmn hk,
        List.length_drop]
      simp [sub, sibs]
    · rw [subproof, if_neg hmn, if_neg (by omega), if_pos hk,
        ih1 _ b h0 (by rw [length_take_split h]; exact hk), prefixRoute_le h hmn hk,
        length_take_split h]
      simp [sub, sibs]

/-- The left siblings alone rebuild the old root, as the old tree is what stands
left of the route. -/
theorem climb_lefts (node : H → H → H) (empty : H) (D : List H) :
    ∀ m, 0 < m → m ≤ D.length →
      climb node (mth node empty (sub D (prefixRoute m D.length)))
        (lefts (steps node empty D (prefixRoute m D.length))) = mth node empty (D.take m) := by
  induction D using split_induction with
  | small D h =>
    intro m h0 hm
    obtain rfl : m = D.length := by omega
    rw [prefixRoute_self, List.take_length]; rfl
  | step D h ih1 ih2 =>
    intro m h0 hm
    by_cases hmn : m = D.length
    · subst hmn; rw [prefixRoute_self, List.take_length]; rfl
    rcases Nat.lt_or_ge (split D.length) m with hk | hk
    · have ih := ih2 (m - split D.length) (by omega) (by rw [List.length_drop]; omega)
      rw [List.length_drop] at ih
      have hsm : split m = split D.length :=
        split_eq hk (Nat.le_trans hm (le_two_split D.length))
      have h1 := split_pos D.length
      have hlen : (D.take m).length = m := by simp; omega
      rw [prefixRoute_gt h hmn hk, sub, steps_left, lefts, List.filter_append, ← lefts, climb_append, ih,
        mth_split node empty (D.take m) (by omega), hlen, hsm, List.take_take,
        show min (split D.length) m = split D.length by omega, List.drop_take]
      rfl
    · have ih := ih1 m h0 (by rw [length_take_split h]; exact hk)
      rw [length_take_split h, List.take_take, show min m (split D.length) = m by omega] at ih
      rw [prefixRoute_le h hmn hk, sub, steps_right, lefts, List.filter_append, ← lefts, climb_append, ih]
      rfl

theorem lefts_eq_nil {r : List Side} (h : .left ∉ r) (ps : List H) : lefts (r.reverse.zip ps) = [] := by
  unfold lefts
  rw [List.filter_eq_nil_iff]
  rintro ⟨d, p⟩ hm
  have := (List.of_mem_zip hm).1
  rw [List.mem_reverse] at this
  simp only [decide_eq_true_eq]
  rintro rfl; exact h this

/-- Halve both while the first is odd: the levels at which the old tree is
complete. -/
def stripOnes (f s : Nat) : Nat × Nat :=
  if f % 2 = 1 then stripOnes (f / 2) (s / 2) else (f, s)
termination_by f

/-- `stripOnes` divides by the power of two in `f + 1`. -/
theorem stripOnes_spec (f : Nat) : ∀ s, ∃ t g, stripOnes f s = (g, s / 2 ^ t) ∧ g % 2 = 0 ∧
    f + 1 = 2 ^ t * (g + 1) := by
  induction f using Nat.strongRecOn with
  | ind f ih =>
    intro s
    by_cases h : f % 2 = 1
    · obtain ⟨t, g, h1, h2, h3⟩ := ih (f / 2) (by omega) (s / 2)
      refine ⟨t + 1, g, ?_, h2, ?_⟩
      · rw [stripOnes, if_pos h, h1, Nat.div_div_eq_div_mul, Nat.pow_succ, Nat.mul_comm]
      · rw [Nat.pow_succ, Nat.mul_right_comm, ← h3]; omega
    · exact ⟨0, f, by rw [stripOnes, if_neg h]; simp, by omega, by simp⟩

/-- The bit walk of a consistency proof reads off the route to the block. By
induction on the size. -/
theorem walk_eq_prefixRoute (n : Nat) : ∀ m t g, g % 2 = 0 → m = 2 ^ t * (g + 1) → m < n →
    walk g ((n - 1) / 2 ^ t) = (prefixRoute m n).reverse := by
  induction n using Nat.strongRecOn with
  | ind n ih =>
    intro m t g hg hm hmn
    have hpt := Nat.two_pow_pos t
    have hle : 2 ^ t ≤ m := by rw [hm]; exact Nat.le_mul_of_pos_right _ (by omega)
    have hn2 : 2 ≤ n := by omega
    have h2 := split_lt hn2
    have h3 := le_two_split n
    obtain ⟨j, hj⟩ : ∃ j, split n = 2 ^ j := ⟨_, rfl⟩
    rw [hj] at h2 h3
    rcases Nat.lt_or_ge (split n) m with hk | hk
    · -- the block lies in the right part; its size is below the split
      rw [hj] at hk
      have htj : t < j := by
        by_contra hge
        have hd : 2 ^ j ∣ 2 ^ t := Nat.pow_dvd_pow 2 (by omega)
        obtain ⟨c, hc⟩ : 2 ^ j ∣ m := hm ▸ Dvd.dvd.mul_right hd _
        have h1c : 1 < c := by
          by_contra hc1
          have : 2 ^ j * c ≤ 2 ^ j * 1 := Nat.mul_le_mul_left _ (by omega)
          omega
        have : 2 ^ j * 2 ≤ 2 ^ j * c := Nat.mul_le_mul_left _ h1c
        omega
      obtain ⟨d, rfl⟩ : ∃ d, j = t + (d + 1) := ⟨j - t - 1, by omega⟩
      have hpow : 2 ^ (t + (d + 1)) = 2 ^ t * 2 ^ (d + 1) := Nat.pow_add _ _ _
      have heven : 2 ^ (d + 1) % 2 = 0 := by rw [Nat.pow_succ]; omega
      rw [hpow] at h2 h3 hk hj
      have hg1 : 2 ^ (d + 1) ≤ g := by
        have := Nat.lt_of_mul_lt_mul_left (hm ▸ hk); omega
      have hs1 : g ≤ (n - 1) / 2 ^ t := by
        rw [Nat.le_div_iff_mul_le hpt, Nat.mul_comm]
        have : 2 ^ t * g + 2 ^ t = m := by rw [hm, Nat.mul_succ]
        omega
      have hs2 : (n - 1) / 2 ^ t < 2 * 2 ^ (d + 1) := by
        rw [Nat.div_lt_iff_lt_mul hpt, Nat.mul_assoc, Nat.mul_comm (2 ^ (d + 1))]; omega
      have hsub : (n - 1) / 2 ^ t - 2 ^ (d + 1) = (n - split n - 1) / 2 ^ t := by
        rw [hj, ← Nat.sub_mul_div, Nat.sub_right_comm]
      rw [prefixRoute_gt hn2 (by omega) (by omega), List.reverse_cons, walk_left (d + 1) _ _ hg1 hs1 hs2,
        hsub]
      refine congrArg (· ++ [Side.left]) (ih _ (by omega) _ t _ (by omega) ?_ (by omega))
      rw [hj, hm, ← Nat.mul_sub, show g - 2 ^ (d + 1) + 1 = g + 1 - 2 ^ (d + 1) by omega]
    · -- the block lies in the complete left part
      rw [hj] at hk
      have htj : t ≤ j := (Nat.pow_le_pow_iff_right (by decide)).mp (Nat.le_trans hle hk)
      obtain ⟨d, rfl⟩ : ∃ d, j = t + d := ⟨j - t, by omega⟩
      have hpow : 2 ^ (t + d) = 2 ^ t * 2 ^ d := Nat.pow_add _ _ _
      rw [hpow] at h2 h3 hk hj
      have hg1 : g < 2 ^ d := by
        have := Nat.le_of_mul_le_mul_left (hm ▸ hk) hpt; omega
      have hs1 : 2 ^ d ≤ (n - 1) / 2 ^ t := by
        rw [Nat.le_div_iff_mul_le hpt, Nat.mul_comm]; omega
      have hs2 : (n - 1) / 2 ^ t < 2 * 2 ^ d := by
        rw [Nat.div_lt_iff_lt_mul hpt, Nat.mul_assoc, Nat.mul_comm (2 ^ d)]; omega
      have hsub : 2 ^ d - 1 = (split n - 1) / 2 ^ t := by
        rw [hj]
        have := Nat.mul_sub_div 0 (2 ^ t) (2 ^ d) (Nat.mul_pos hpt (Nat.two_pow_pos d))
        simpa using this.symm
      rw [prefixRoute_le hn2 (by omega) (by omega), List.reverse_cons, walk_right d _ _ hg1 hs1 hs2, hsub]
      refine congrArg (· ++ [Side.right]) ?_
      rcases Nat.lt_or_ge m (split n) with hlt | hge
      · exact ih _ (by omega) m t g hg hm hlt
      · -- the old tree is the whole left part: `g = 0` and nothing is left to walk
        have hgd : g + 1 = 2 ^ d := by
          have : 2 ^ t * (g + 1) = 2 ^ t * 2 ^ d := by omega
          exact Nat.eq_of_mul_eq_mul_left hpt this
        have hd0 : d = 0 := by
          rcases Nat.eq_zero_or_pos d with h | h
          · exact h
          · obtain ⟨e, rfl⟩ : ∃ e, d = e + 1 := ⟨d - 1, by omega⟩
            rw [Nat.pow_succ] at hgd; omega
        subst hd0
        obtain rfl : m = split n := by rw [hj, hm]; omega
        rw [prefixRoute_self, ← hsub]
        exact walk_zero g

end Rfc6962
