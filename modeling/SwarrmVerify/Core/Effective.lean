import Mathlib.Data.List.MinMax
import Mathlib.Data.List.Nodup
import Mathlib.Data.Prod.Lex

/-!
# What is in force at an instant

Versions of a document take effect at times of their own. In force at an
instant is the version with the latest time that has passed, on equal times the
higher one. A replay in version order keeps the last version whose time has
passed instead. The two agree as long as times follow versions, and they differ
when a higher version takes effect before a lower one: the lower one is then in
force, and the replay has moved past it.

Versions are a list, the later the higher; a time is a value of any linear
order.

* `inForce_spec`, `inForce_eq_none`: what is in force, and when nothing is.
* `inForce_later`: between two instants only what takes effect between them
  comes into force, so an interval is covered by its lower bound and the
  versions that take effect inside.
* `inForce_last`: the last version whose time has passed is in force, or what
  is in force has been overtaken by a higher version.
-/
namespace Effective

variable {α τ ν : Type*} [LinearOrder τ] [LinearOrder ν] (time : α → τ) (version : α → ν)

def inForce (l : List α) (t : τ) : Option α :=
  (l.filter fun a => decide (time a ≤ t)).argmax fun a => toLex (time a, version a)

variable {time version} {l : List α} {t lo : τ} {a : α}

theorem inForce_eq_none : inForce time version l t = none ↔ ∀ a ∈ l, t < time a := by
  simp [inForce, List.argmax_eq_none, List.filter_eq_nil_iff]

theorem inForce_spec (h : inForce time version l t = some a) :
    a ∈ l ∧ time a ≤ t ∧ ∀ b ∈ l, time b ≤ t → time b < time a ∨ time b = time a ∧ version b ≤ version a := by
  have hmem := List.mem_filter.mp (List.argmax_mem h)
  refine ⟨hmem.1, by simpa using hmem.2, fun b hb hbt => ?_⟩
  have hle := List.le_of_mem_argmax (List.mem_filter.mpr ⟨hb, by simpa using hbt⟩) h
  simpa [Prod.Lex.le_iff] using hle

theorem inForce_of (hv : l.Pairwise fun a b => version a < version b) (hmem : a ∈ l) (hle : time a ≤ t)
    (hmax : ∀ b ∈ l, time b ≤ t → time b < time a ∨ time b = time a ∧ version b ≤ version a) :
    inForce time version l t = some a := by
  cases hb : inForce time version l t with
  | none => exact absurd hle (not_le.mpr (inForce_eq_none.mp hb a hmem))
  | some b =>
    obtain ⟨hbmem, hbt, hbmax⟩ := inForce_spec hb
    -- each is at least as late as the other, so they have one version
    have hver : version a = version b := by
      rcases hmax b hbmem hbt with h | ⟨h, h'⟩ <;> rcases hbmax a hmem hle with g | ⟨g, g'⟩
      · exact absurd (h.trans g) (lt_irrefl _)
      · exact absurd (g ▸ h) (lt_irrefl _)
      · exact absurd (h ▸ g) (lt_irrefl _)
      · exact le_antisymm g' h'
    have hnodup : (l.map version).Nodup := List.pairwise_map.mpr (hv.imp fun h => h.ne)
    rw [List.inj_on_of_nodup_map hnodup hmem hbmem hver]

/-- Between two instants only what takes effect between them comes into
force. -/
theorem inForce_later (hv : l.Pairwise fun a b => version a < version b) (hlo : lo ≤ t)
    (h : inForce time version l t = some a) : lo < time a ∨ inForce time version l lo = some a := by
  obtain ⟨hmem, hle, hmax⟩ := inForce_spec h
  by_cases hat : lo < time a
  · exact .inl hat
  · exact .inr (inForce_of hv hmem (not_lt.mp hat) fun b hb hbt => hmax b hb (hbt.trans hlo))

/-- The last version whose time has passed is in force, or a higher version has
overtaken what is. -/
theorem inForce_last (hv : l.Pairwise fun a b => version a < version b)
    (h : inForce time version l lo = some a) :
    (l.filter fun b => decide (time b ≤ lo)).getLast? = some a ∨ ∃ b ∈ l, time b ≤ lo ∧ version a < version b := by
  obtain ⟨hmem, hle, -⟩ := inForce_spec h
  have hin : a ∈ l.filter fun b => decide (time b ≤ lo) := List.mem_filter.mpr ⟨hmem, by simpa using hle⟩
  obtain ⟨ini, b, heq⟩ := List.eq_nil_or_concat _ |>.resolve_left (List.ne_nil_of_mem hin)
  rw [List.concat_eq_append] at heq
  have hb : b ∈ l ∧ time b ≤ lo := by
    have : b ∈ l.filter fun b => decide (time b ≤ lo) := by simp [heq]
    simpa using this
  rw [heq] at hin ⊢
  rcases List.mem_append.mp hin with hin | hin
  · have hp : (ini ++ [b]).Pairwise fun a b => version a < version b := heq ▸ hv.filter _
    exact .inr ⟨b, hb.1, hb.2, (List.pairwise_append.mp hp).2.2 a hin b (by simp)⟩
  · left
    simp [List.mem_singleton.mp hin]

end Effective
