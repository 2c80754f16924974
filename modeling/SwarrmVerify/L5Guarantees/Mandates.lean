import Mathlib.Logic.Relation
import SwarrmVerify.L4Action.Listings

/-!
# Mandate lineage (`action.rs`)

`mandateId` follows `transfers_grant_id` from a grant to the head of its chain
and remembers the references it has followed. Whoever wrote the bundle wrote
the references: they may run in a cycle, lead out of the bundle or be no text
at all. The starting grant is not among the remembered references, so a cycle
through it is walked once more before it is seen.

A reference is a step of a partial function on grants, so from one start there
is one way. It ends in a head, leads astray, or runs into a cycle, and these
exclude each other. What the loop has behind it (`Behind`) is a walk from the
start, whose last step is the next to be looked up.

No hypothesis is made about the references; the bundle is arbitrary.

**Results.**
* `cycle_ahead`: what is ahead of a cycle is on it.
* `mandateRounds_ends`: the loop ends within one round a grant and one more.
* `mandateLoop_cases`: what one round can do.
* `mandateLoop_walks`: what the loop finds is ahead of where it started.
* `mandate_lineage`: it finds the head, and nothing exactly where there is
  none.
-/
namespace SwarrmVerify.L5.Mandates
open SwarrmVerify.L1.Jcs SwarrmVerify.L4.Action SwarrmVerify.L4.Listings
open Relation

/-! ## Following one step at a time -/

section Functional

variable {α : Type} {r : α → α → Prop} (hr : Relator.RightUnique r) {a b c : α}

include hr

/-- A cycle has no way out. -/
theorem cycle_ahead (ha : TransGen r a a) (hab : ReflTransGen r a b) : TransGen r b b := by
  induction hab with
  | refl => exact ha
  | @tail b c _ hbc ih =>
    obtain ⟨d, hbd, hdb⟩ := TransGen.head'_iff.mp ih
    obtain rfl := hr hbc hbd
    exact TransGen.tail' hdb hbc

/-- From one start at most one end is reached. -/
theorem end_unique (hb : ∀ x, ¬ r b x) (hc : ∀ x, ¬ r c x) (hab : ReflTransGen r a b) (hac : ReflTransGen r a c) :
    b = c := by
  have hstuck : ∀ {x y : α}, (∀ z, ¬ r x z) → ReflTransGen r x y → x = y := by
    intro x y hx hxy
    rcases hxy.cases_head with rfl | ⟨z, hxz, -⟩
    · rfl
    · exact absurd hxz (hx z)
  rcases hab.total_of_right_unique hr hac with hbc | hcb
  · exact hstuck hb hbc
  · exact (hstuck hc hcb).symm

/-- No end is ahead of what leads to a cycle. -/
theorem end_not_cycle (hb : ∀ x, ¬ r b x) (hab : ReflTransGen r a b) (hac : ReflTransGen r a c) : ¬ TransGen r c c := by
  intro hcycle
  have hnext : ∀ {x : α}, TransGen r x x → ∃ y, r x y := fun hx =>
    (TransGen.head'_iff.mp hx).imp fun _ h => h.1
  rcases hab.total_of_right_unique hr hac with hbc | hcb
  · rcases hbc.cases_head with rfl | ⟨x, hbx, -⟩
    · exact (hnext hcycle).elim hb
    · exact hb x hbx
  · exact (hnext (cycle_ahead hr hcycle hcb)).elim hb

end Functional

/-! ## Grants -/

/-- A grant of the list that another names. -/
def Follows (l : List Rec) (r next : Rec) : Prop :=
  next ∈ l ∧ r.ctx.get "transfers_grant_id" = some (.string next.rh)

/-- A grant that transfers no other. -/
def Head (r : Rec) : Prop :=
  r.ctx.get "transfers_grant_id" = none ∨ r.ctx.get "transfers_grant_id" = some .null

/-- A grant whose reference is no text or the hash of no grant in the list. -/
def Astray (l : List Rec) (r : Rec) : Prop :=
  ∃ v, r.ctx.get "transfers_grant_id" = some v ∧ v ≠ .null ∧ ∀ g ∈ l, v ≠ .string g.rh

theorem head_ends {l : List Rec} {r : Rec} (h : Head r) (x : Rec) : ¬ Follows l r x := by
  rintro ⟨-, hx⟩
  rcases h with h | h
  · rw [h] at hx
    cases hx
  · rw [h] at hx
    cases hx

theorem astray_ends {l : List Rec} {r : Rec} (h : Astray l r) (x : Rec) : ¬ Follows l r x := by
  rintro ⟨hmem, hx⟩
  obtain ⟨v, hv, -, hno⟩ := h
  rw [hv, Option.some.injEq] at hx
  exact hno x hmem hx

theorem head_not_astray {l : List Rec} {r : Rec} (h : Head r) : ¬ Astray l r := by
  rintro ⟨v, hv, hnull, -⟩
  rcases h with h | h
  · rw [h] at hv
    cases hv
  · rw [h, Option.some.injEq] at hv
    exact hnull hv.symm

/-! ## Rounds -/

/-- One round of the loop: a result, or the next grant and what has been
followed.
mirrors verify-rs/src/action.rs:1292-1298 -/
def mandateRound (issuedAll : List Rec) (cur : Rec) (seen : List String) : Option String ⊕ Rec × List String :=
  match cur.ctx.getSome "transfers_grant_id" with
  | none => .inl (some cur.rh)
  | some nxt =>
    match nxt.asStr with
    | none => .inl none
    | some key =>
      if seen.contains key then .inl none
      else match byHash issuedAll key with
        | none => .inl none
        | some r => .inr (r, key :: seen)

/-- At most so many rounds; nothing when they do not suffice. -/
def mandateRounds (issuedAll : List Rec) : Nat → Rec → List String → Option (Option String)
  | 0, _, _ => none
  | n + 1, cur, seen =>
    match mandateRound issuedAll cur seen with
    | .inl result => some result
    | .inr (next, seen') => mandateRounds issuedAll n next seen'

theorem mandateLoop_round (l : List Rec) (cur : Rec) (seen : List String) :
    mandateLoop l cur seen = match mandateRound l cur seen with
      | .inl result => result
      | .inr (next, seen') => mandateLoop l next seen' := by
  rw [mandateLoop_eq, mandateRound]
  cases cur.ctx.getSome "transfers_grant_id" with
  | none => rfl
  | some nxt =>
    dsimp only
    cases nxt.asStr with
    | none => rfl
    | some key =>
      rw [Option.bind_some]
      dsimp only
      by_cases hseen : seen.contains key = true
      · rw [if_pos hseen, if_pos hseen]
      · rw [if_neg hseen, if_neg hseen]
        cases byHash l key with
        | none => rfl
        | some r => rfl

/-- A round that goes on has followed a grant for the first time. -/
theorem mandateRound_fresh {l : List Rec} {cur next : Rec} {seen seen' : List String}
    (h : mandateRound l cur seen = .inr (next, seen')) : unfollowed l seen' < unfollowed l seen := by
  unfold mandateRound at h
  split at h
  · cases h
  · split at h
    · cases h
    · split at h
      · cases h
      · rename_i hseen
        split at h
        · cases h
        · rename_i hby
          cases h
          exact unfollowed_lt hseen hby

theorem mandateRounds_enough (l : List Rec) : ∀ (n : Nat) (cur : Rec) (seen : List String),
    unfollowed l seen < n → mandateRounds l n cur seen = some (mandateLoop l cur seen) := by
  intro n
  induction n with
  | zero => exact fun _ _ h => absurd h (Nat.not_lt_zero _)
  | succ n ih =>
    intro cur seen hn
    rw [mandateRounds, mandateLoop_round]
    cases hround : mandateRound l cur seen with
    | inl result => rfl
    | inr again =>
      have hless := mandateRound_fresh hround
      exact ih again.1 again.2 (by omega)

theorem mandateRounds_ends (l : List Rec) (issued : Rec) :
    mandateRounds l (l.length + 1) issued [] = some (mandateId issued l) := by
  apply mandateRounds_enough
  have := List.length_filter_le (fun r : Rec => !([] : List String).contains r.rh) l
  exact Nat.lt_succ_of_le this

section Distinct

variable {l : List Rec} (hd : (l.map (·.rh)).Nodup)

include hd

theorem grant_unique {g r : Rec} (hg : g ∈ l) (hr : r ∈ l) (h : g.rh = r.rh) : g = r :=
  List.inj_on_of_nodup_map hd hg hr h

theorem byHash_of_mem {r : Rec} (hr : r ∈ l) : byHash l r.rh = some r := by
  cases hby : byHash l r.rh with
  | none =>
    have hno := List.find?_eq_none.mp hby r (List.mem_reverse.mpr hr)
    simp at hno
  | some g =>
    obtain ⟨hg, hrh⟩ := byHash_mem hby
    rw [grant_unique hd hg hr hrh]

theorem follows_unique : Relator.RightUnique (Follows l) := by
  rintro r a b ⟨ha, hra⟩ ⟨hb, hrb⟩
  rw [hra, Option.some.injEq, Value.string.injEq] at hrb
  exact grant_unique hd ha hb hrb

/-- What one round can do. -/
theorem mandateLoop_cases (cur : Rec) (seen : List String) :
    (Head cur ∧ mandateLoop l cur seen = some cur.rh) ∨ (Astray l cur ∧ mandateLoop l cur seen = none) ∨
    ∃ r, Follows l cur r ∧
      mandateLoop l cur seen = if seen.contains r.rh then none else mandateLoop l r (r.rh :: seen) := by
  rw [mandateLoop_eq, Value.getSome]
  cases hget : cur.ctx.get "transfers_grant_id" with
  | none => exact .inl ⟨.inl hget, rfl⟩
  | some v =>
    by_cases hnull : v = .null
    · refine .inl ⟨.inr (hnull ▸ hget), ?_⟩
      rw [hnull]
      rfl
    · have hsome : Option.filter (fun x => !Value.isNull x) (some v) = some v := by
        cases v <;> first | rfl | exact absurd rfl hnull
      rw [hsome]
      by_cases hin : ∃ g ∈ l, v = .string g.rh
      · obtain ⟨g, hg, rfl⟩ := hin
        refine .inr (.inr ⟨g, ⟨hg, hget⟩, ?_⟩)
        simp only [Value.asStr, Option.bind_some, byHash_of_mem hd hg]
      · refine .inr (.inl ⟨⟨v, hget, hnull, fun g hg he => hin ⟨g, hg, he⟩⟩, ?_⟩)
        simp only
        cases hstr : v.asStr with
        | none => rfl
        | some key =>
          have hby : byHash l key = none := by
            refine Option.eq_none_iff_forall_not_mem.mpr fun g hg => ?_
            obtain ⟨hmem, hrh⟩ := byHash_mem hg
            exact hin ⟨g, hmem, (Value.asStr_eq_some hstr).trans (by rw [hrh])⟩
          rw [Option.bind_some, hby, Option.bind_none, ite_self]

/-- The remembered references are of grants that lead to the current one. -/
def Behind (l : List Rec) (seen : List String) (cur : Rec) : Prop :=
  ∀ key ∈ seen, ∃ g ∈ l, g.rh = key ∧ ReflTransGen (Follows l) g cur

omit hd in
theorem Behind.step {seen : List String} {cur r : Rec} (h : Behind l seen cur) (hr : Follows l cur r) :
    Behind l (r.rh :: seen) r := by
  intro key hkey
  rcases List.mem_cons.mp hkey with rfl | hkey
  · exact ⟨r, hr.1, rfl, .refl⟩
  · obtain ⟨g, hg, hrh, hpath⟩ := h key hkey
    exact ⟨g, hg, hrh, hpath.tail hr⟩

/-- A reference that has been followed closes a cycle. -/
theorem Behind.cycle {seen : List String} {cur r : Rec} (h : Behind l seen cur) (hr : Follows l cur r)
    (hseen : r.rh ∈ seen) : TransGen (Follows l) cur cur := by
  obtain ⟨g, hg, hrh, hpath⟩ := h r.rh hseen
  obtain rfl := grant_unique hd hg hr.1 hrh
  exact TransGen.head' hr hpath

/-- What the loop finds is ahead. -/
def Walks (l : List Rec) (cur : Rec) : Option String → Prop
  | some h => ∃ r, ReflTransGen (Follows l) cur r ∧ Head r ∧ r.rh = h
  | none => ∃ r, ReflTransGen (Follows l) cur r ∧ (Astray l r ∨ TransGen (Follows l) r r)

omit hd in
theorem Walks.back {cur r : Rec} {result : Option String} (hr : Follows l cur r) (h : Walks l r result) :
    Walks l cur result := by
  cases result with
  | some hash =>
    obtain ⟨g, hpath, hg⟩ := h
    exact ⟨g, hpath.head hr, hg⟩
  | none =>
    obtain ⟨g, hpath, hg⟩ := h
    exact ⟨g, hpath.head hr, hg⟩

theorem mandateLoop_walks {cur : Rec} {seen : List String} (h : Behind l seen cur) :
    Walks l cur (mandateLoop l cur seen) := by
  -- each round follows a grant for the first time
  induction hn : unfollowed l seen using Nat.strong_induction_on generalizing cur seen with
  | _ n ih =>
    rcases mandateLoop_cases hd cur seen with ⟨hhead, heq⟩ | ⟨hastray, heq⟩ | ⟨r, hr, heq⟩
    · rw [heq]
      exact ⟨cur, .refl, hhead, rfl⟩
    · rw [heq]
      exact ⟨cur, .refl, .inl hastray⟩
    · rw [heq]
      by_cases hseen : seen.contains r.rh = true
      · rw [if_pos hseen]
        exact ⟨cur, .refl, .inr (h.cycle hd hr (List.contains_iff_mem.mp hseen))⟩
      · rw [if_neg hseen]
        have hless := unfollowed_lt hseen (byHash_of_mem hd hr.1)
        exact Walks.back hr (ih _ (hn ▸ hless) (h.step hr) rfl)

/-- References that lead to a head lead nowhere else. -/
theorem head_not_lost {issued r g : Rec} (hr : ReflTransGen (Follows l) issued r) (hhead : Head r)
    (hg : ReflTransGen (Follows l) issued g) : ¬(Astray l g ∨ TransGen (Follows l) g g) := by
  have hunique := follows_unique hd
  intro hlost
  rcases hlost with hastray | hcycle
  · obtain rfl := end_unique hunique (head_ends hhead) (astray_ends hastray) hr hg
    exact head_not_astray hhead hastray
  · exact end_not_cycle hunique (head_ends hhead) hr hg hcycle

theorem mandateId_walks (issued : Rec) : Walks l issued (mandateId issued l) :=
  mandateLoop_walks hd nofun

end Distinct

/-- **Mandate lineage.** The walk ends within one round a grant and one more.
It finds a hash exactly if references inside the list lead to a grant with this
hash that transfers no other, and nothing exactly if they lead into a cycle or
to a reference that resolves to no grant. -/
theorem mandate_lineage {l : List Rec} (hd : (l.map (·.rh)).Nodup) (issued : Rec) :
    mandateRounds l (l.length + 1) issued [] = some (mandateId issued l) ∧
    (∀ h, mandateId issued l = some h ↔ ∃ r, ReflTransGen (Follows l) issued r ∧ Head r ∧ r.rh = h) ∧
    (mandateId issued l = none ↔
      ∃ r, ReflTransGen (Follows l) issued r ∧ (Astray l r ∨ TransGen (Follows l) r r)) := by
  have hunique := follows_unique hd
  have hwalks := mandateId_walks hd issued
  refine ⟨mandateRounds_ends l issued, fun h => ?_, ?_⟩
  · constructor
    · intro hid
      rwa [hid] at hwalks
    · rintro ⟨r, hpath, hhead, hrh⟩
      cases hid : mandateId issued l with
      | none =>
        rw [hid] at hwalks
        obtain ⟨g, hg, hlost⟩ := hwalks
        exact absurd hlost (head_not_lost hd hpath hhead hg)
      | some h' =>
        rw [hid] at hwalks
        obtain ⟨g, hg, hhead', rfl⟩ := hwalks
        rw [← hrh, end_unique hunique (head_ends hhead) (head_ends hhead') hpath hg]
  · constructor
    · intro hid
      rwa [hid] at hwalks
    · rintro ⟨g, hg, hlost⟩
      cases hid : mandateId issued l with
      | none => rfl
      | some h =>
        rw [hid] at hwalks
        obtain ⟨r, hpath, hhead, -⟩ := hwalks
        exact absurd hlost (head_not_lost hd hpath hhead hg)

/-- A grant and what it transfers. -/
def grant (rh : String) (transfers : Value) : Rec :=
  { leaf := 0, agent := "agent", action := "authority.grant.issued",
    ctx := .object [("transfers_grant_id", transfers)], commitments := .object [], rh := rh, signerKids := [] }

/-- A head and its transfer, then two grants that name each other. -/
def grants : List Rec :=
  [grant "aa" .null, grant "bb" (.string "aa"), grant "cc" (.string "dd"), grant "dd" (.string "cc")]

theorem mandate_lineage_grants :
    mandateId (grant "bb" (.string "aa")) grants = some "aa" ∧
    mandateId (grant "cc" (.string "dd")) grants = none := by
  have hd : (grants.map (·.rh)).Nodup := by decide
  constructor
  · refine ((mandate_lineage hd _).2.1 "aa").mpr ⟨grant "aa" .null, .single ⟨?_, rfl⟩, .inr rfl, rfl⟩
    simp [grants]
  · refine (mandate_lineage hd _).2.2.mpr ⟨_, .refl, .inr (.head (b := grant "dd" (.string "cc")) ⟨?_, rfl⟩ ?_)⟩
    · simp [grants]
    · exact .single ⟨by simp [grants], rfl⟩

end SwarrmVerify.L5.Mandates
