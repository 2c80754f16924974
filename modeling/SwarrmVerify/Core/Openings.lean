import SwarrmVerify.Core.Rfc6962

/-!
# Merkle commitments without the tree

What inclusion and consistency proofs say about two roots when nobody shows
the leaves. A root opens at a leaf, or extends an older root, along pairs that
were really hashed (`P`); with no collision among those, the two relations
behave as leaves and prefixes of one list do, although there need be no list.

* `Opens.unique`: a root opens at one leaf in one way.
* `Extends.opens`, `Extends.opens_of`: below the older size, a root and an
  extension of it open alike.
* `Extends.trans`, `Extends.compare`: extension is transitive, and two older
  roots of one root extend each other.
* `opens_climb`, `extends_climb`: what the folds of RFC 9162 establish.
-/
namespace Rfc6962

variable {H : Type} {node : H → H → H} {P : Set (H × H)}

/-- The root `r` of `n` leaves opens at leaf `i` to `h`, hashing pairs of `P`. -/
inductive Opens (node : H → H → H) (P : Set (H × H)) : Nat → Nat → H → H → Prop
  | leaf {h : H} : Opens node P 1 0 h h
  | left {n i : Nat} {a b r h : H} (hi : i < split n) (hn : split n < n) (hp : (a, b) ∈ P)
      (hr : node a b = r) (ho : Opens node P (split n) i a h) : Opens node P n i r h
  | right {n i : Nat} {a b r h : H} (hi : split n ≤ i) (hn : split n < n) (hp : (a, b) ∈ P)
      (hr : node a b = r) (ho : Opens node P (n - split n) (i - split n) b h) : Opens node P n i r h

/-- The root `r'` of `n` leaves extends the root `r` of `m`, hashing pairs of `P`. -/
inductive Extends (node : H → H → H) (P : Set (H × H)) : Nat → Nat → H → H → Prop
  | refl {n : Nat} {r : H} : Extends node P n n r r
  | left {m n : Nat} {a b r r' : H} (hm : m ≤ split n) (hn : split n < n) (hp : (a, b) ∈ P)
      (hr : node a b = r') (he : Extends node P m (split n) r a) : Extends node P m n r r'
  | right {m n : Nat} {a b c r r' : H} (hm : split n < m) (hn : m < n) (hp : (a, b) ∈ P)
      (hq : (a, c) ∈ P) (hr : node a b = r') (hs : node a c = r)
      (he : Extends node P (m - split n) (n - split n) c b) : Extends node P m n r r'

/-- Sizes above the split of `n` split there too. -/
theorem split_of_between {m n : Nat} (h : split n < m) (hmn : m ≤ n) : split m = split n :=
  split_eq h (Nat.le_trans hmn (le_two_split n))

/-- No two different pairs of `P` hash to the same node. -/
def Separates (node : H → H → H) (P : Set (H × H)) : Prop := P.InjOn fun p => node p.1 p.2

theorem Separates.pair {a b c d : H} (hP : Separates node P) (h : (a, b) ∈ P) (h' : (c, d) ∈ P)
    (he : node a b = node c d) : a = c ∧ b = d :=
  Prod.mk.inj (hP h h' he)

theorem Extends.le {m n : Nat} {r r' : H} (h : Extends node P m n r r') : m ≤ n := by
  cases h with
  | refl => exact Nat.le_refl _
  | left hm hn => omega
  | right _ hn => omega

/-- Roots of one size that extend each other are the same. -/
theorem Extends.self {n : Nat} {r r' : H} (h : Extends node P n n r r') : r = r' := by
  cases h with
  | refl => rfl
  | left hm hn => omega
  | right _ hn => omega

/-- A root opens at one leaf in one way. -/
theorem Opens.unique {n i : Nat} {r h h' : H} (hP : Separates node P) (ho : Opens node P n i r h)
    (ho' : Opens node P n i r h') : h = h' := by
  induction ho with
  | leaf =>
    cases ho' with
    | leaf => rfl
    | left _ hn => have := split_pos 1; omega
    | right _ hn => have := split_pos 1; omega
  | left hi hn hp hr _ ih =>
    cases ho' with
    | leaf => have := split_pos 1; omega
    | left _ _ hp' hr' ho' =>
      obtain ⟨rfl, _⟩ := hP.pair hp hp' (hr.trans hr'.symm)
      exact ih ho'
    | right hi' => omega
  | right hi hn hp hr _ ih =>
    cases ho' with
    | leaf => have := split_pos 1; omega
    | left hi' => omega
    | right _ _ hp' hr' ho' =>
      obtain ⟨_, rfl⟩ := hP.pair hp hp' (hr.trans hr'.symm)
      exact ih ho'

/-- What the older root shows, its extension shows. -/
theorem Extends.opens {m n : Nat} {r r' : H} (hP : Separates node P) (he : Extends node P m n r r') :
    ∀ {i : Nat} {h : H}, i < m → Opens node P m i r h → Opens node P n i r' h := by
  induction he with
  | refl => exact fun _ ho => ho
  | left hm hn hp hr _ ih => exact fun hi ho => .left (by omega) hn hp hr (ih hi ho)
  | @right m n a b c r r' hm hn hp hq hr hs _ ih =>
    intro i h hi ho
    have hk := split_of_between hm (by omega)
    cases ho with
    | leaf => have := split_pos n; omega
    | left hi' _ hp' hr' ho =>
      obtain ⟨rfl, _⟩ := hP.pair hp' hq (hr'.trans hs.symm)
      rw [hk] at hi' ho
      exact .left hi' (by omega) hp hr ho
    | right hi' _ hp' hr' ho =>
      obtain ⟨_, rfl⟩ := hP.pair hp' hq (hr'.trans hs.symm)
      rw [hk] at hi' ho
      exact .right hi' (by omega) hp hr (ih (by omega) ho)

/-- What an extension shows below the older size, the older root shows. -/
theorem Extends.opens_of {m n : Nat} {r r' : H} (hP : Separates node P) (he : Extends node P m n r r') :
    ∀ {i : Nat} {h : H}, i < m → Opens node P n i r' h → Opens node P m i r h := by
  induction he with
  | refl => exact fun _ ho => ho
  | left hm hn hp hr _ ih =>
    intro i h hi ho
    cases ho with
    | leaf => have := split_pos 1; omega
    | left _ _ hp' hr' ho =>
      obtain ⟨rfl, _⟩ := hP.pair hp' hp (hr'.trans hr.symm)
      exact ih hi ho
    | right hi' => omega
  | @right m n a b c r r' hm hn hp hq hr hs _ ih =>
    intro i h hi ho
    have hk := split_of_between hm (by omega)
    cases ho with
    | leaf => have := split_pos 1; omega
    | left hi' _ hp' hr' ho =>
      obtain ⟨rfl, _⟩ := hP.pair hp' hp (hr'.trans hr.symm)
      rw [← hk] at hi' ho
      exact .left hi' (by omega) hq hs ho
    | right hi' _ hp' hr' ho =>
      obtain ⟨_, rfl⟩ := hP.pair hp' hp (hr'.trans hr.symm)
      have := ih (by omega) ho
      rw [← hk] at hi' this
      exact .right hi' (by omega) hq hs this

/-- **Extension is transitive.** The induction is on the later step. -/
theorem Extends.trans {n p : Nat} {s t : H} (hP : Separates node P) (he : Extends node P n p s t) :
    ∀ {m : Nat} {r : H}, Extends node P m n r s → Extends node P m p r t := by
  induction he with
  | refl => exact fun h => h
  | left hm hn hp hr _ ih => exact fun h => .left (Nat.le_trans h.le hm) hn hp hr (ih h)
  | @right n p a b c s t hm hn hp hq hr hs he ih =>
    intro m r h
    have hk := split_of_between hm (by omega)
    cases h with
    | refl => exact .right hm hn hp hq hr hs he
    | left hm' _ hp' hr' he' =>
      obtain ⟨rfl, _⟩ := hP.pair hp' hq (hr'.trans hs.symm)
      rw [hk] at hm' he'
      exact .left hm' (by omega) hp hr he'
    | right hm' hn' hp' hq' hr' hs' he' =>
      obtain ⟨rfl, rfl⟩ := hP.pair hp' hq (hr'.trans hs.symm)
      rw [hk] at hm' he'
      exact .right hm' (by omega) hp hq' hr hs' (ih he')

/-- **Two older roots of one root extend each other**: a log that has forked
never joins again. -/
theorem Extends.compare {n p : Nat} {s t : H} (hP : Separates node P) (he : Extends node P n p s t) :
    ∀ {m : Nat} {r : H}, m ≤ n → Extends node P m p r t → Extends node P m n r s := by
  induction he with
  | refl => exact fun _ h => h
  | left hm hn hp hr _ ih =>
    intro m r hmn h
    cases h with
    | refl => omega
    | left _ _ hp' hr' he' =>
      obtain ⟨rfl, _⟩ := hP.pair hp' hp (hr'.trans hr.symm)
      exact ih hmn he'
    | right hm' => omega
  | @right n p a b c s t hm hn hp hq hr hs _ ih =>
    intro m r hmn h
    have hk := split_of_between hm (by omega)
    cases h with
    | refl => omega
    | left hm' _ hp' hr' he' =>
      obtain ⟨rfl, _⟩ := hP.pair hp' hp (hr'.trans hr.symm)
      rw [← hk] at hm' he'
      exact .left hm' (by omega) hq hs he'
    | right hm' hn' hp' hq' hr' hs' he' =>
      obtain ⟨rfl, rfl⟩ := hP.pair hp' hp (hr'.trans hr.symm)
      have hback := ih (by omega) he'
      rcases Nat.lt_or_eq_of_le hmn with hlt | rfl
      · rw [← hk] at hm' hback
        exact .right hm' hlt hq hq' hs hs' hback
      · rw [hback.self, hs] at hs'
        rw [← hs']
        exact .refl

/-! ## What the folds establish -/

theorem climb_snoc (node : H → H → H) (r : H) (xs : List (Side × H)) (d : Side) (p : H) :
    climb node r (xs ++ [(d, p)]) = node (meet (climb node r xs) d p).1 (meet (climb node r xs) d p).2 := by
  rw [climb_append]; rfl

theorem climbPairs_snoc (node : H → H → H) (r : H) (xs : List (Side × H)) (d : Side) (p : H) :
    climbPairs node r (xs ++ [(d, p)]) = climbPairs node r xs ++ [meet (climb node r xs) d p] := by
  rw [climbPairs_append]; rfl

/-- The siblings of a route with one more step at the top. -/
theorem zip_cons_reverse {d : Side} {ds : List Side} {ps : List H} (h : ps.length = (d :: ds).length) :
    ∃ qs p, qs.length = ds.length ∧ ps = qs ++ [p] ∧
      (d :: ds).reverse.zip ps = ds.reverse.zip qs ++ [(d, p)] := by
  obtain ⟨qs, p, rfl⟩ : ∃ qs p, ps = qs ++ [p] := by
    rcases List.eq_nil_or_concat ps with rfl | ⟨qs, p, rfl⟩
    · cases h
    · exact ⟨qs, p, by simp⟩
  have hl : qs.length = ds.length := by simpa using h
  exact ⟨qs, p, hl, rfl, by rw [List.reverse_cons, zip_append_single _ _ _ _ (by simpa using hl)]⟩

/-- Folding siblings along the route of a leaf opens what it ends in. -/
theorem opens_climb (n : Nat) : ∀ (i : Nat) (h : H) (ps : List H), i < n →
    ps.length = (leafRoute i n).length → (∀ x ∈ climbPairs node h ((leafRoute i n).reverse.zip ps), x ∈ P) →
      Opens node P n i (climb node h ((leafRoute i n).reverse.zip ps)) h := by
  induction n using Nat.strongRecOn with
  | ind n ih =>
    intro i h ps hi hl hP
    by_cases hn : n < 2
    · obtain ⟨rfl, rfl⟩ : n = 1 ∧ i = 0 := by omega
      rw [leafRoute_small hn]
      exact .leaf
    have h1 := split_pos n
    have h2 := split_lt (n := n) (by omega)
    rcases Nat.lt_or_ge i (split n) with hk | hk
    · rw [leafRoute_lt (by omega) hk] at hl hP ⊢
      obtain ⟨qs, p, hq, rfl, hz⟩ := zip_cons_reverse hl
      rw [hz, climbPairs_snoc, List.forall_mem_append, List.forall_mem_singleton] at hP
      rw [hz, climb_snoc]
      exact .left hk h2 hP.2 rfl (ih _ h2 i h qs hk hq hP.1)
    · rw [leafRoute_ge (by omega) hk] at hl hP ⊢
      obtain ⟨qs, p, hq, rfl, hz⟩ := zip_cons_reverse hl
      rw [hz, climbPairs_snoc, List.forall_mem_append, List.forall_mem_singleton] at hP
      rw [hz, climb_snoc]
      exact .right hk h2 hP.2 rfl (ih _ (by omega) _ h qs (by omega) hq hP.1)

theorem lefts_snoc_right (xs : List (Side × H)) (p : H) : lefts (xs ++ [(.right, p)]) = lefts xs := by
  simp [lefts]

theorem lefts_snoc_left (xs : List (Side × H)) (p : H) :
    lefts (xs ++ [(.left, p)]) = lefts xs ++ [(.left, p)] := by
  simp [lefts]

/-- Folding a block along the route to the end of the old tree, once with the
left siblings and once with all, extends the first result to the second. -/
theorem extends_climb (n : Nat) : ∀ (m : Nat) (seed : H) (ps : List H), 0 < m → m ≤ n →
    ps.length = (prefixRoute m n).length →
    (∀ x ∈ climbPairs node seed (lefts ((prefixRoute m n).reverse.zip ps)), x ∈ P) →
    (∀ x ∈ climbPairs node seed ((prefixRoute m n).reverse.zip ps), x ∈ P) →
      Extends node P m n (climb node seed (lefts ((prefixRoute m n).reverse.zip ps)))
        (climb node seed ((prefixRoute m n).reverse.zip ps)) := by
  induction n using Nat.strongRecOn with
  | ind n ih =>
    intro m seed ps h0 hm hl hold hnew
    by_cases hmn : m = n
    · subst hmn
      rw [prefixRoute_self]
      exact .refl
    have h1 := split_pos n
    have h2 := split_lt (n := n) (by omega)
    rcases Nat.lt_or_ge (split n) m with hk | hk
    · rw [prefixRoute_gt (by omega) hmn hk] at hl hold hnew ⊢
      obtain ⟨qs, p, hq, rfl, hz⟩ := zip_cons_reverse hl
      rw [hz, lefts_snoc_left, climbPairs_snoc, List.forall_mem_append, List.forall_mem_singleton] at hold
      rw [hz, climbPairs_snoc, List.forall_mem_append, List.forall_mem_singleton] at hnew
      rw [hz, lefts_snoc_left, climb_snoc, climb_snoc]
      exact .right hk (by omega) hnew.2 hold.2 rfl rfl
        (ih _ (by omega) _ seed qs (by omega) (by omega) hq hold.1 hnew.1)
    · rw [prefixRoute_le (by omega) hmn hk] at hl hold hnew ⊢
      obtain ⟨qs, p, hq, rfl, hz⟩ := zip_cons_reverse hl
      rw [hz, lefts_snoc_right] at hold
      rw [hz, climbPairs_snoc, List.forall_mem_append, List.forall_mem_singleton] at hnew
      rw [hz, lefts_snoc_right, climb_snoc]
      exact .left hk h2 hnew.2 rfl (ih _ h2 m seed qs h0 hk hq hold hnew.1)

end Rfc6962
