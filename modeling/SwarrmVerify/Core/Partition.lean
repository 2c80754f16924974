import Mathlib.Tactic

/-!
# Partition points by binary search

The search of Rust's standard library (`slice::partition_point`) for the first
element of a slice that a predicate refuses. It halves the slice by comparing
at its middle, and its result means something only on a slice that is
partitioned: the elements that pass stand before the others. On any other slice
it still ends, within as many turns as the length has bits.

The loop keeps a range of candidates, of which all before pass and all behind
do not (`Candidates`); a turn narrows it and keeps that.

* `search_spec`: the loop ends with one candidate.
* `partitionPoint_eq`: on a partitioned slice it is the result of a linear
  scan.
* `getElem?_partitionPoint`: the element there is the first that does not pass.
-/
namespace Partition

variable {α : Type}

/-- The loop: `size` candidates from `base` on, half of them dropped in each
turn. The fuel is at least their number. -/
def search (p : α → Bool) (l : List α) : Nat → Nat → Nat → Nat
  | 0, base, _ => base
  | fuel + 1, base, size =>
    if 1 < size then
      let half := size / 2
      let mid := base + half
      search p l fuel (if l[mid]?.any p then mid else base) (size - half)
    else base

/-- `slice::partition_point`. -/
def partitionPoint (p : α → Bool) (l : List α) : Nat :=
  if l.isEmpty then 0
  else
    let base := search p l l.length 0 l.length
    if l[base]?.any p then base + 1 else base

/-- What passes stands before what does not. -/
def Partitioned (p : α → Bool) (l : List α) : Prop := l.Pairwise fun a b => p b = true → p a = true

theorem Partitioned.before {p : α → Bool} {l : List α} (h : Partitioned p l) {i j : Nat} (hij : i ≤ j)
    (hj : j < l.length) (hp : p l[j] = true) : p l[i] = true := by
  rcases Nat.lt_or_eq_of_le hij with hlt | rfl
  · exact List.pairwise_iff_getElem.mp h i j (by omega) hj hlt hp
  · exact hp

/-- The candidates of the loop: what is before them passes with the first, what
is after them does not pass. -/
structure Candidates (p : α → Bool) (l : List α) (base size : Nat) : Prop where
  pos : 0 < size
  fits : base + size ≤ l.length
  passed : 0 < base → l[base]?.any p = true
  refused : l[base + size]?.any p = false

theorem any_getElem {p : α → Bool} {l : List α} {i : Nat} (h : i < l.length) : l[i]?.any p = p l[i] := by
  rw [List.getElem?_eq_getElem h, Option.any_some]

theorem Candidates.step {p : α → Bool} {l : List α} {base size : Nat} (hl : Partitioned p l)
    (h : Candidates p l base size) (hsize : 1 < size) :
    Candidates p l (if l[base + size / 2]?.any p then base + size / 2 else base) (size - size / 2) := by
  obtain ⟨hpos, hfits, hpassed, hrefused⟩ := h
  have hmid : base + size / 2 < l.length := by omega
  split
  · rename_i hmidPasses
    refine ⟨by omega, by omega, fun _ => hmidPasses, ?_⟩
    rwa [show base + size / 2 + (size - size / 2) = base + size by omega]
  · rename_i hmidRefused
    refine ⟨by omega, by omega, hpassed, ?_⟩
    have hlast : base + (size - size / 2) < l.length := by omega
    rw [any_getElem hmid] at hmidRefused
    rw [any_getElem hlast, Bool.eq_false_iff]
    exact fun hpass => hmidRefused (hl.before (by omega) hlast hpass)

/-- The loop ends with one candidate. -/
theorem search_spec {p : α → Bool} {l : List α} (hl : Partitioned p l) :
    ∀ {fuel base size : Nat}, size ≤ fuel + 1 → Candidates p l base size →
      Candidates p l (search p l fuel base size) 1 := by
  intro fuel
  induction fuel with
  | zero =>
    intro base size hfuel h
    obtain rfl : size = 1 := by
      have := h.pos
      omega
    exact h
  | succ fuel ih =>
    intro base size hfuel h
    rw [search]
    split
    · rename_i hsize
      exact ih (by omega) (h.step hl hsize)
    · rename_i hsize
      obtain rfl : size = 1 := by
        have := h.pos
        omega
      exact h

theorem length_takeWhile {p : α → Bool} {l : List α} {r : Nat} (hpass : ∀ i (hl : i < l.length), i < r → p l[i] = true)
    (hr : r ≤ l.length) (hrefused : l[r]?.any p = false) : (l.takeWhile p).length = r := by
  induction l generalizing r with
  | nil =>
    rw [List.length_nil] at hr
    simp only [List.takeWhile_nil, List.length_nil]
    omega
  | cons a l ih =>
    cases r with
    | zero =>
      rw [List.getElem?_cons_zero, Option.any_some] at hrefused
      rw [List.takeWhile_cons, hrefused]
      rfl
    | succ r =>
      have ha : p a = true := hpass 0 (by simp) (by omega)
      rw [List.takeWhile_cons, ha]
      simp only [if_true, List.length_cons, Nat.add_right_cancel_iff]
      refine ih (fun i hl hi => ?_) (by simpa using hr) (by simpa using hrefused)
      exact hpass (i + 1) (by simpa using hl) (by omega)

/-- On a partitioned slice the search stops where a linear scan does. -/
theorem partitionPoint_eq {p : α → Bool} {l : List α} (hl : Partitioned p l) :
    partitionPoint p l = (l.takeWhile p).length := by
  unfold partitionPoint
  cases l with
  | nil => rfl
  | cons a l =>
    have hinit : Candidates p (a :: l) 0 (a :: l).length := by
      refine ⟨by simp, by omega, fun h => absurd h (lt_irrefl _), ?_⟩
      rw [List.getElem?_eq_none (by omega)]
      rfl
    obtain ⟨-, hfits, hpassed, hrefused⟩ := @search_spec _ _ _ hl (a :: l).length _ _ (by omega) hinit
    rw [List.isEmpty_cons, if_neg Bool.false_ne_true]
    generalize search p (a :: l) (a :: l).length 0 (a :: l).length = base at hfits hpassed hrefused
    have hbase : base < (a :: l).length := by omega
    simp only
    split
    · rename_i hpass
      rw [any_getElem hbase] at hpass
      exact (length_takeWhile (fun i _ hi => hl.before (by omega) hbase hpass) hfits hrefused).symm
    · rename_i hrefuse
      -- the first element itself is refused
      obtain rfl : base = 0 := by
        by_contra hne
        exact hrefuse (hpassed (by omega))
      exact (length_takeWhile (fun i _ hi => by omega) (by omega) (Bool.eq_false_iff.mpr hrefuse)).symm

/-- The element at the partition point is the first that does not pass. -/
theorem getElem?_partitionPoint {p : α → Bool} {l : List α} (hl : Partitioned p l) :
    l[partitionPoint p l]? = l.find? fun a => !p a := by
  rw [partitionPoint_eq hl]
  clear hl
  induction l with
  | nil => rfl
  | cons a l ih =>
    rw [List.takeWhile_cons, List.find?_cons]
    cases ha : p a with
    | false => rfl
    | true =>
      simp only [if_true, List.length_cons, List.getElem?_cons_succ, Bool.not_true]
      exact ih

end Partition
