import Mathlib.Order.Bounds.Basic
import Mathlib.Data.List.Forall2

/-!
# The least value from a position on

A list of pairs, each a key and a value, is read from its end; every value is
lowered to the least of those behind it. When the keys are in order this is
meant to give each pair the least value among all keys that are at least its
own. The two agree except on ties: a pair does not see the earlier pairs of its
own key, so a small value among them is missed.

Keys and values are of any linear orders. The keys of the list are in order;
nothing is assumed of the values.

* `suffixMin_get`: a value becomes the least from its position on. By induction
  along the list: the head of the result has the least value of all.
* `valuesFrom_subset`: what stands from a position on has a key as large as the
  one there.
* `isLeast_iff`, `exact_iff`: the lowering is exact if ties are covered, that
  is, no earlier pair of a key has a value below all those from there on, and
  only then.
-/
namespace SuffixMin

variable {κ τ : Type} {l : List (κ × τ)}

/-! ## Positions -/

/-- The values from a position on. -/
def valuesFrom (l : List (κ × τ)) (i : Nat) : Set τ := {t | ∃ k q, i ≤ k ∧ l[k]? = some q ∧ q.2 = t}

theorem valuesFrom_cons_zero (p : κ × τ) (l : List (κ × τ)) :
    valuesFrom (p :: l) 0 = insert p.2 (valuesFrom l 0) := by
  ext t
  constructor
  · intro ⟨k, q, _, hq, ht⟩
    cases k with
    | zero =>
      cases hq
      exact Or.inl ht.symm
    | succ k => exact Or.inr ⟨k, q, Nat.zero_le k, hq, ht⟩
  · rintro (rfl | ⟨k, q, _, hq, ht⟩)
    · exact ⟨0, p, Nat.le_refl 0, rfl, rfl⟩
    · exact ⟨k + 1, q, Nat.zero_le _, hq, ht⟩

theorem valuesFrom_cons_succ (p : κ × τ) (l : List (κ × τ)) (i : Nat) :
    valuesFrom (p :: l) (i + 1) = valuesFrom l i := by
  ext t
  constructor
  · intro ⟨k, q, hk, hq, ht⟩
    obtain ⟨k, rfl⟩ : ∃ j, k = j + 1 := ⟨k - 1, by omega⟩
    exact ⟨k, q, by omega, hq, ht⟩
  · intro ⟨k, q, hk, hq, ht⟩
    exact ⟨k + 1, q, by omega, hq, ht⟩

/-! ## Lowering -/

section
variable [LinearOrder τ]

def suffixMin : List (κ × τ) → List (κ × τ)
  | [] => []
  | p :: l =>
    match suffixMin l with
    | [] => [p]
    | q :: rest => (p.1, min p.2 q.2) :: q :: rest

theorem suffixMin_eq_nil : suffixMin l = [] ↔ l = [] := by
  cases l with
  | nil => simp [suffixMin]
  | cons p l =>
    unfold suffixMin
    split <;> simp

/-- By induction along the list: the head of the result has the least value of
all. -/
theorem suffixMin_get : ∀ {l : List (κ × τ)} {i : Nat} {p : κ × τ}, l[i]? = some p →
    ∃ t, (suffixMin l)[i]? = some (p.1, t) ∧ IsLeast (valuesFrom l i) t
  | p :: l, 0, _, h => by
    cases h
    rw [valuesFrom_cons_zero]
    cases hl : l with
    | nil =>
      refine ⟨p.2, rfl, Or.inl rfl, ?_⟩
      rintro t (rfl | ⟨k, q, _, hq, _⟩)
      · exact le_refl _
      · cases hq
    | cons q l' =>
      rw [← hl]
      obtain ⟨t, ht, hleast⟩ := suffixMin_get (l := l) (i := 0) (p := q) (by rw [hl]; rfl)
      unfold suffixMin
      cases hs : suffixMin l with
      | nil =>
        rw [suffixMin_eq_nil] at hs
        rw [hs] at hl
        cases hl
      | cons r rest =>
        rw [hs] at ht
        cases ht
        exact ⟨min p.2 t, rfl, hleast.insert p.2⟩
  | p :: l, i + 1, q, h => by
    obtain ⟨t, ht, hleast⟩ := suffixMin_get (l := l) (i := i) (p := q) h
    rw [valuesFrom_cons_succ]
    refine ⟨t, ?_, hleast⟩
    unfold suffixMin
    cases hs : suffixMin l with
    | nil =>
      rw [hs] at ht
      cases ht
    | cons r rest =>
      rw [hs] at ht
      exact ht

theorem suffixMin_length : ∀ l : List (κ × τ), (suffixMin l).length = l.length
  | [] => rfl
  | p :: l => by
    have ih := suffixMin_length l
    unfold suffixMin
    split
    · rename_i hs
      rw [hs] at ih
      simp [← ih]
    · rename_i hs
      rw [hs] at ih
      simp [← ih]

end

/-! ## Keys in order -/

section
variable [LinearOrder κ]

/-- The values of all keys that are at least this one. -/
def valuesAbove (l : List (κ × τ)) (key : κ) : Set τ := {t | ∃ q ∈ l, key ≤ q.1 ∧ q.2 = t}

variable (hsorted : l.Pairwise fun p q => p.1 ≤ q.1)
include hsorted

theorem key_le {i k : Nat} {p q : κ × τ} (hp : l[i]? = some p) (hq : l[k]? = some q) (h : i ≤ k) : p.1 ≤ q.1 := by
  obtain ⟨hi, rfl⟩ := List.getElem?_eq_some_iff.mp hp
  obtain ⟨hk, rfl⟩ := List.getElem?_eq_some_iff.mp hq
  rcases Nat.lt_or_eq_of_le h with hlt | rfl
  · exact List.pairwise_iff_getElem.mp hsorted i k hi hk hlt
  · exact le_refl _

/-- What stands from a position on has a key as large as the one there. -/
theorem valuesFrom_subset {i : Nat} {p : κ × τ} (hp : l[i]? = some p) : valuesFrom l i ⊆ valuesAbove l p.1 := by
  intro t ⟨k, q, hk, hq, ht⟩
  exact ⟨q, List.mem_of_getElem? hq, key_le hsorted hp hq hk, ht⟩

end

/-! ## Ties -/

section
variable [LinearOrder κ] [LinearOrder τ]

/-- Each pair has its key and the least value of all keys that are as large. -/
def Exact (l out : List (κ × τ)) : Prop :=
  List.Forall₂ (fun p r => r.1 = p.1 ∧ IsLeast (valuesAbove l p.1) r.2) l out

/-- A value before another one of the same key is not less than all from there
on. -/
def TiesCovered (l : List (κ × τ)) : Prop :=
  ∀ i j p q, i < j → l[i]? = some p → l[j]? = some q → p.1 = q.1 → ∃ t ∈ valuesFrom l j, t ≤ p.2

variable (hsorted : l.Pairwise fun p q => p.1 ≤ q.1)
include hsorted

/-- The least value from a position on is the least of all large keys when the
earlier pairs of the same key are covered. -/
theorem isLeast_iff {i : Nat} {p : κ × τ} {t : τ} (hp : l[i]? = some p) (ht : IsLeast (valuesFrom l i) t) :
    IsLeast (valuesAbove l p.1) t ↔
      ∀ j q, j < i → l[j]? = some q → q.1 = p.1 → ∃ u ∈ valuesFrom l i, u ≤ q.2 := by
  constructor
  · intro hleast j q _ hq hkey
    exact ⟨t, ht.1, hleast.2 ⟨q, List.mem_of_getElem? hq, hkey.ge, rfl⟩⟩
  · intro hcovered
    refine ⟨valuesFrom_subset hsorted hp ht.1, ?_⟩
    intro u ⟨q, hq, hkey, hu⟩
    obtain ⟨j, hj⟩ := List.mem_iff_getElem?.mp hq
    rcases Nat.lt_or_ge j i with hlt | hge
    · -- an earlier pair as large as this one has the same key
      have heq : q.1 = p.1 := le_antisymm (key_le hsorted hj hp (Nat.le_of_lt hlt)) hkey
      obtain ⟨v, hv, hle⟩ := hcovered j q hlt hj heq
      rw [← hu]
      exact le_trans (ht.2 hv) hle
    · exact ht.2 ⟨j, q, hge, hj, hu⟩

/-- **Ties.** Lowering from the end is exact when ties are covered, and only
then. -/
theorem exact_iff : Exact l (suffixMin l) ↔ TiesCovered l := by
  constructor
  · intro hexact i j p q hlt hp hq hkey
    obtain ⟨t, ht, hleast⟩ := suffixMin_get hq
    have hj : j < l.length := (List.getElem?_eq_some_iff.mp hq).1
    have hpair := (List.forall₂_iff_get.mp hexact).2 j hj (by rw [suffixMin_length]; exact hj)
    simp only [List.get_eq_getElem, (List.getElem?_eq_some_iff.mp hq).2, (List.getElem?_eq_some_iff.mp ht).2] at hpair
    exact (isLeast_iff hsorted hq hleast).mp hpair.2 i p hlt hp hkey
  · intro hcovered
    refine List.forall₂_iff_get.mpr ⟨(suffixMin_length l).symm, fun i hi hi' => ?_⟩
    have hp : l[i]? = some l[i] := List.getElem?_eq_getElem hi
    obtain ⟨t, ht, hleast⟩ := suffixMin_get hp
    simp only [List.get_eq_getElem, (List.getElem?_eq_some_iff.mp ht).2]
    exact ⟨trivial, (isLeast_iff hsorted hp hleast).mpr fun j q hlt hq hkey => hcovered j i q _ hlt hq hp hkey⟩

end

end SuffixMin
