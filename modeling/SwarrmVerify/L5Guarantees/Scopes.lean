import SwarrmVerify.Core.SortedMap
import SwarrmVerify.L4Action.Verdict

/-!
# Scopes and their relation

Two scopes are related where their lists of action classes and of every shared
selector key have a member in common. The code compares members by their texts,
and a string stands for itself: the string `1` meets the number 1, and the
zeros of the two signs do not meet.

A `Descriptor` is a scope whose lists hold scalars, which is all that a scope
is assumed to be. The text of a scalar that is no string is a parameter, the
engine's `display`; where it tells such scalars apart (`Told`), members collide
only if a string spells the other one, and equal members miss each other only
if they are zeros of different signs.

* `Alike`: members with one text that are not equal.
* `scopePair_eq`, `scopePair_symm`: what the comparison says, from either side.
* `right_iff`: the answers are right exactly where no texts decide against the
  values.
* `misspelt_iff`, `missigned_iff`: where that is, by the values.
* `scope_sound_iff`: all of this, and the aggregate over candidates.
-/
namespace SwarrmVerify.L5.Scopes
open SwarrmVerify.L4.Action

/-! ## Descriptors -/

def Scalar : Value → Prop
  | .array _ => False
  | .object _ => False
  | _ => True

def ScalarList (v : Value) : Prop := ∃ xs, v = .array xs ∧ ∀ x ∈ xs, Scalar x

/-- An object with lists of scalars. -/
structure Descriptor where
  value : Value
  object : value.isObject = true
  classes : List Value
  classes_eq : value.index "action_classes" = .array classes
  classes_scalar : ∀ x ∈ classes, Scalar x
  predicates : ∀ e ∈ predMap value, ScalarList e.2
  keys : ((predMap value).map Prod.fst).Nodup

/-- Two lists that are compared. -/
inductive Axis (p c : Descriptor) : List Value → List Value → Prop where
  | classes : Axis p c p.classes c.classes
  | selector (k : String) (a b : List Value) (hp : (predMap p.value).lookup k = some (.array a))
      (hc : (predMap c.value).lookup k = some (.array b)) : Axis p c a b

theorem Axis.symm {p c : Descriptor} {a b : List Value} (h : Axis p c a b) : Axis c p b a := by
  cases h with
  | classes => exact .classes
  | selector k _ _ hp hc => exact .selector k _ _ hc hp

theorem Axis.scalars {p c : Descriptor} {a b : List Value} (h : Axis p c a b) :
    (∀ x ∈ a, Scalar x) ∧ ∀ y ∈ b, Scalar y := by
  have hlist : ∀ (d : Descriptor) k xs, (predMap d.value).lookup k = some (.array xs) → ∀ x ∈ xs, Scalar x := by
    intro d k xs hk
    obtain ⟨ys, hys, hall⟩ := d.predicates _ ((SortedMap.lookup_iff_of_nodup d.keys).mp hk)
    cases hys
    exact hall
  cases h with
  | classes => exact ⟨p.classes_scalar, c.classes_scalar⟩
  | selector k _ _ hp hc => exact ⟨hlist p k _ hp, hlist c k _ hc⟩

/-- Both name one organisation and one kind of selector. -/
def Comparable (p c : Value) : Prop :=
  (p.index "org").eqv (c.index "org") = true ∧
    ((p.index "selector").index "kind").eqv ((c.index "selector").index "kind") = true

def SameAccount (p c : Value) : Prop :=
  (p.index "source_system").eqv (c.index "source_system") = true ∧ (p.index "account").eqv (c.index "account") = true

theorem comparable_comm {p c : Value} : Comparable p c ↔ Comparable c p := by
  rw [Comparable, Comparable, Value.eqv_comm (p.index "org"), Value.eqv_comm ((p.index "selector").index "kind")]

theorem sameAccount_comm {p c : Value} : SameAccount p c ↔ SameAccount c p := by
  rw [SameAccount, SameAccount, Value.eqv_comm (p.index "source_system"), Value.eqv_comm (p.index "account")]

/-! ## Texts and values -/

/-- The text a scalar is compared by. -/
def memberText (E : Engine) : Value → String
  | .string t => t
  | x => E.display x

/-- A value is in both lists. -/
def Shares (a b : List Value) : Prop := ∃ x ∈ a, ∃ y ∈ b, x.eqv y = true

/-- Two members that are equal have one text. -/
def SharesText (E : Engine) (a b : List Value) : Prop :=
  ∃ x ∈ a, ∃ y ∈ b, x.eqv y = true ∧ memberText E x = memberText E y

/-- Two members that are not equal have one text. -/
def Alike (E : Engine) (a b : List Value) : Prop :=
  ∃ x ∈ a, ∃ y ∈ b, x.eqv y = false ∧ memberText E x = memberText E y

variable {E : Engine}

theorem SharesText.shares {a b : List Value} (h : SharesText E a b) : Shares a b := by
  obtain ⟨x, hx, y, hy, heq, -⟩ := h
  exact ⟨x, hx, y, hy, heq⟩

theorem scalar_eqv_self {x : Value} (h : Scalar x) : x.eqv x = true := by
  cases x with
  | null => rfl
  | bool b => exact beq_self_eq_true b
  | number n => cases n <;> simp [Value.eqv, Number.eqv, F64.eqv]
  | string s => exact beq_self_eq_true s
  | array xs => exact h.elim
  | object m => exact h.elim

/-- A string that spells the other member. -/
def Spells (E : Engine) (x y : Value) : Prop := ∃ s, x = .string s ∧ y.isString = false ∧ E.display y = s

/-- A string of one list spells a member of the other. -/
def Spelt (E : Engine) (a b : List Value) : Prop := ∃ x ∈ a, ∃ y ∈ b, Spells E x y ∨ Spells E y x

/-- Zeros of different signs. -/
def Zeros (x y : Value) : Prop :=
  ∃ f g : F64, x = .number (.float f) ∧ y = .number (.float g) ∧ f ≠ g ∧ f.bits <<< 1 = 0 ∧ g.bits <<< 1 = 0

/-- Texts tell the members apart that are no strings. -/
def Told (E : Engine) (a b : List Value) : Prop :=
  ∀ x ∈ a, ∀ y ∈ b, x.isString = false → y.isString = false → E.display x = E.display y → x = y

theorem string_of_isString {x : Value} (h : x.isString = true) : ∃ s, x = .string s := by
  cases x <;> first | exact ⟨_, rfl⟩ | cases h

theorem memberText_plain {x : Value} (h : x.isString = false) : memberText E x = E.display x := by
  cases x <;> first | rfl | cases h

theorem spells_text {x y : Value} (h : Spells E x y) : memberText E x = memberText E y ∧ x.eqv y = false := by
  obtain ⟨s, rfl, hy, hs⟩ := h
  rw [memberText_plain hy, hs]
  refine ⟨rfl, ?_⟩
  cases y <;> first | rfl | cases hy

/-- Members of one text are one, or a string spells the other. -/
theorem eq_or_spells {a b : List Value} (htold : Told E a b) {x y : Value} (hx : x ∈ a) (hy : y ∈ b)
    (h : memberText E x = memberText E y) : x = y ∨ Spells E x y ∨ Spells E y x := by
  cases hsx : x.isString with
  | true =>
    obtain ⟨s, rfl⟩ := string_of_isString hsx
    cases hsy : y.isString with
    | true =>
      obtain ⟨t, rfl⟩ := string_of_isString hsy
      exact .inl (congrArg Value.string h)
    | false =>
      rw [memberText_plain hsy] at h
      exact .inr (.inl ⟨s, rfl, hsy, h.symm⟩)
  | false =>
    rw [memberText_plain hsx] at h
    cases hsy : y.isString with
    | true =>
      obtain ⟨t, rfl⟩ := string_of_isString hsy
      exact .inr (.inr ⟨t, rfl, hsx, h⟩)
    | false =>
      rw [memberText_plain hsy] at h
      exact .inl (htold x hx y hy hsx hsy h)

/-- Members collide exactly where a string spells the other one. -/
theorem alike_string {a b : List Value} (ha : ∀ x ∈ a, Scalar x) (htold : Told E a b) : Alike E a b ↔ Spelt E a b := by
  constructor
  · rintro ⟨x, hx, y, hy, hne, htext⟩
    rcases eq_or_spells htold hx hy htext with rfl | hspells
    · rw [scalar_eqv_self (ha x hx)] at hne
      cases hne
    · exact ⟨x, hx, y, hy, hspells⟩
  · rintro ⟨x, hx, y, hy, hspells | hspells⟩
    · obtain ⟨htext, hne⟩ := spells_text hspells
      exact ⟨x, hx, y, hy, hne, htext⟩
    · obtain ⟨htext, hne⟩ := spells_text hspells
      exact ⟨x, hx, y, hy, by rw [Value.eqv_comm, hne], htext.symm⟩

/-- Members that are equal and have one text are one member. -/
theorem sharesText_iff {a b : List Value} (ha : ∀ x ∈ a, Scalar x) (htold : Told E a b) :
    SharesText E a b ↔ ∃ x ∈ a, x ∈ b := by
  constructor
  · rintro ⟨x, hx, y, hy, heq, htext⟩
    rcases eq_or_spells htold hx hy htext with rfl | hspells | hspells
    · exact ⟨x, hx, hy⟩
    · rw [(spells_text hspells).2] at heq
      cases heq
    · rw [Value.eqv_comm, (spells_text hspells).2] at heq
      cases heq
  · rintro ⟨x, hx, hy⟩
    exact ⟨x, hx, x, hy, scalar_eqv_self (ha x hx), rfl⟩

/-- Equal scalars of different texts are zeros of different signs. -/
theorem unlike_zeros {x y : Value} (hx : Scalar x) (h : x.eqv y = true) (htext : memberText E x ≠ memberText E y) :
    Zeros x y := by
  have hne : x ≠ y := fun heq => htext (congrArg (memberText E) heq)
  cases x with
  | array xs => exact hx.elim
  | object m => exact hx.elim
  | number n =>
    cases y with
    | number n' =>
      cases n with
      | float f =>
        cases n' with
        | float g =>
          have hfg : f ≠ g := fun heq => hne (by rw [heq])
          have hbits : f.bits ≠ g.bits := fun heq => hfg (congrArg F64.mk heq)
          simp only [Value.eqv, Number.eqv, F64.eqv, Bool.or_eq_true, Bool.and_eq_true, beq_iff_eq, hbits, false_or] at h
          exact ⟨f, g, rfl, rfl, hfg, h⟩
        | _ => cases h
      | _ => cases n' <;> simp_all [Value.eqv, Number.eqv]
    | _ => cases h
  | _ => cases y <;> simp_all [Value.eqv]

/-! ## The comparison of two scopes -/

theorem valSet_array {a : List Value} (h : ∀ x ∈ a, Scalar x) : valSet E (.array a) = some (a.map (memberText E)) := by
  rw [valSet]
  induction a with
  | nil => rfl
  | cons x a ih =>
    rw [List.forall_mem_cons] at h
    have hx : scalarText E x = some (memberText E x) := by
      cases x <;> first | rfl | exact h.1.elim
    simp [hx, ih h.2]

theorem meets_iff (a b : List Value) :
    meets (a.map (memberText E)) (b.map (memberText E)) = true ↔ SharesText E a b ∨ Alike E a b := by
  simp only [meets, List.any_map, List.any_eq_true, Function.comp, List.contains_iff_mem, List.mem_map]
  constructor
  · rintro ⟨x, hx, y, hy, htext⟩
    cases heq : x.eqv y with
    | true => exact .inl ⟨x, hx, y, hy, heq, htext.symm⟩
    | false => exact .inr ⟨x, hx, y, hy, heq, htext.symm⟩
  · rintro (⟨x, hx, y, hy, -, htext⟩ | ⟨x, hx, y, hy, -, htext⟩)
    · exact ⟨x, hx, y, hy, htext.symm⟩
    · exact ⟨x, hx, y, hy, htext.symm⟩

/-- The loop walks the keys of one side. -/
theorem predicatesLoop_holds {cp : List (String × Value)} (hc : ∀ k v, cp.lookup k = some v → ScalarList v) :
    ∀ {pp : List (String × Value)}, (∀ e ∈ pp, ScalarList e.2) → ∃ r, predicatesLoop E cp pp = some r ∧
      (r = true ↔ ∀ k a b, (k, Value.array a) ∈ pp → cp.lookup k = some (.array b) → SharesText E a b ∨ Alike E a b)
  | [], _ => ⟨true, rfl, by simp⟩
  | (k, va) :: rest, h => by
    rw [List.forall_mem_cons] at h
    obtain ⟨⟨a, ha, hscalar⟩, hrest⟩ := h
    dsimp only at ha
    subst ha
    obtain ⟨r, hr, hall⟩ := predicatesLoop_holds hc hrest
    rw [predicatesLoop]
    cases hk : cp.lookup k with
    | none =>
      refine ⟨r, hr, hall.trans ?_⟩
      constructor
      · intro hrest j a' b hmem hj
        rcases List.mem_cons.mp hmem with heq | hmem
        · cases heq
          rw [hk] at hj
          cases hj
        · exact hrest j a' b hmem hj
      · intro hall j a' b hmem
        exact hall j a' b (List.mem_cons_of_mem _ hmem)
    | some vb =>
      obtain ⟨b, rfl, hscalar'⟩ := hc k vb hk
      simp only [valSet_array hscalar, valSet_array hscalar', Option.bind_eq_bind, Option.bind_some]
      have hmeets := meets_iff (E := E) a b
      cases hm : meets (a.map (memberText E)) (b.map (memberText E)) with
      | false =>
        rw [hm] at hmeets
        refine ⟨false, rfl, ?_⟩
        simp only [Bool.false_eq_true, false_iff] at hmeets ⊢
        exact fun hall => hmeets (hall k a b List.mem_cons_self hk)
      | true =>
        rw [hm] at hmeets
        refine ⟨r, hr, hall.trans ?_⟩
        constructor
        · intro hrest j a' b' hmem hj
          rcases List.mem_cons.mp hmem with heq | hmem
          · cases heq
            rw [hk] at hj
            cases hj
            exact hmeets.mp rfl
          · exact hrest j a' b' hmem hj
        · intro hall j a' b' hmem
          exact hall j a' b' (List.mem_cons_of_mem _ hmem)

/-- On every axis some text is on both sides. -/
def Meet (E : Engine) (p c : Descriptor) : Prop := ∀ a b, Axis p c a b → SharesText E a b ∨ Alike E a b

theorem predicatesIntersect_holds (p c : Descriptor) :
    ∃ r, predicatesIntersect E p.value c.value = some r ∧ (r = true ↔ Meet E p c) := by
  have hc : ∀ k v, (predMap c.value).lookup k = some v → ScalarList v := fun k v hk =>
    c.predicates _ ((SortedMap.lookup_iff_of_nodup c.keys).mp hk)
  obtain ⟨r, hr, hall⟩ := predicatesLoop_holds hc p.predicates
  have hmeets := meets_iff (E := E) p.classes c.classes
  rw [predicatesIntersect, p.classes_eq, c.classes_eq, valSet_array p.classes_scalar, valSet_array c.classes_scalar]
  simp only [Option.bind_eq_bind, Option.bind_some]
  cases hm : meets (p.classes.map (memberText E)) (c.classes.map (memberText E)) with
  | false =>
    rw [hm] at hmeets
    refine ⟨false, rfl, ?_⟩
    simp only [Bool.false_eq_true, false_iff] at hmeets ⊢
    exact fun hall => hmeets (hall _ _ .classes)
  | true =>
    rw [hm] at hmeets
    refine ⟨r, hr, hall.trans ?_⟩
    constructor
    · intro hloop a b haxis
      cases haxis with
      | classes => exact hmeets.mp rfl
      | selector k _ _ hp hc => exact hloop k a b ((SortedMap.lookup_iff_of_nodup p.keys).mp hp) hc
    · intro hmeet k a b hmem hk
      exact hmeet a b (.selector k a b ((SortedMap.lookup_iff_of_nodup p.keys).mpr hmem) hk)

section Pair

variable {p c : Descriptor} {cand : Value}

theorem meet_comm : Meet E p c ↔ Meet E c p := by
  have hsymm : ∀ {p c : Descriptor}, Meet E p c → Meet E c p := by
    intro p c h a b haxis
    rcases h b a haxis.symm with ⟨x, hx, y, hy, heq, htext⟩ | ⟨x, hx, y, hy, hne, htext⟩
    · exact .inl ⟨y, hy, x, hx, by rw [Value.eqv_comm, heq], htext.symm⟩
    · exact .inr ⟨y, hy, x, hx, by rw [Value.eqv_comm, hne], htext.symm⟩
  exact ⟨hsymm, hsymm⟩

/-- What the comparison says, of two descriptors. -/
theorem scopePair_eq (hc : cand.index "scope" = c.value) :
    (scopePair E p.value cand = .related ↔ flag cand "scope_digest_only" = false ∧ Comparable p.value c.value ∧
      SameAccount p.value c.value ∧ Meet E p c) ∧
    (scopePair E p.value cand = .unrelated ↔ flag cand "scope_digest_only" = false ∧ Comparable p.value c.value ∧
      ¬ (SameAccount p.value c.value ∧ Meet E p c)) := by
  obtain ⟨r, hr, hmeet⟩ := predicatesIntersect_holds (E := E) p c
  unfold scopePair
  simp only [hc, p.object, c.object, hr, Comparable, SameAccount, ← hmeet]
  cases flag cand "scope_digest_only" <;> cases (p.value.index "org").eqv (c.value.index "org") <;>
    cases ((p.value.index "selector").index "kind").eqv ((c.value.index "selector").index "kind") <;>
    cases (p.value.index "source_system").eqv (c.value.index "source_system") <;>
    cases (p.value.index "account").eqv (c.value.index "account") <;> cases r <;> simp

theorem scopePair_symm (hc : cand.index "scope" = c.value) {cand' : Value} (hp : cand'.index "scope" = p.value)
    (hflag : flag cand' "scope_digest_only" = flag cand "scope_digest_only") :
    scopePair E c.value cand' = scopePair E p.value cand := by
  obtain ⟨hrelated, hunrelated⟩ := scopePair_eq (E := E) (p := p) hc
  obtain ⟨hrelated', hunrelated'⟩ := scopePair_eq (E := E) (p := c) hp
  rw [hflag, comparable_comm, sameAccount_comm, meet_comm, ← hrelated] at hrelated'
  rw [hflag, comparable_comm, sameAccount_comm, meet_comm, ← hunrelated] at hunrelated'
  cases h : scopePair E p.value cand with
  | related => exact hrelated'.mpr h
  | unrelated => exact hunrelated'.mpr h
  | unknown =>
    cases h' : scopePair E c.value cand' with
    | related =>
      rw [hrelated'.mp h'] at h
      cases h
    | unrelated =>
      rw [hunrelated'.mp h'] at h
      cases h
    | unknown => rfl

/-- What the relation of two descriptors should say. -/
structure Right (E : Engine) (p c : Descriptor) (cand : Value) : Prop where
  related : scopePair E p.value cand = .related → Comparable p.value c.value ∧ SameAccount p.value c.value ∧
    ∀ a b, Axis p c a b → Shares a b
  unrelated : scopePair E p.value cand = .unrelated → flag cand "scope_digest_only" = false ∧
    Comparable p.value c.value ∧ (¬ SameAccount p.value c.value ∨ ∃ a b, Axis p c a b ∧ ¬ Shares a b)
  symm : ∀ cand', cand'.index "scope" = p.value → flag cand' "scope_digest_only" = flag cand "scope_digest_only" →
    scopePair E c.value cand' = scopePair E p.value cand

/-- Their lists are what the answer hangs on. -/
def ByLists (p c : Descriptor) (cand : Value) : Prop :=
  flag cand "scope_digest_only" = false ∧ Comparable p.value c.value ∧ SameAccount p.value c.value

/-- Every axis meets, and one only through members that are alike. -/
def Misspelt (E : Engine) (p c : Descriptor) : Prop :=
  (∀ a b, Axis p c a b → SharesText E a b ∨ Alike E a b) ∧ ∃ a b, Axis p c a b ∧ Alike E a b ∧ ¬ Shares a b

/-- Every axis shares a value, and one shares none under one text. -/
def Missigned (E : Engine) (p c : Descriptor) : Prop :=
  (∀ a b, Axis p c a b → Shares a b) ∧ ∃ a b, Axis p c a b ∧ ¬ SharesText E a b ∧ ¬ Alike E a b

/-- The lists that are compared hold members that texts tell apart. -/
def ToldApart (E : Engine) (p c : Descriptor) : Prop := ∀ a b, Axis p c a b → Told E a b

/-- Every axis has a member in common or a string that spells one, and one axis
shares no value but has such a string. -/
def MeetsBySpelling (E : Engine) (p c : Descriptor) : Prop :=
  (∀ a b, Axis p c a b → (∃ x ∈ a, x ∈ b) ∨ Spelt E a b) ∧ ∃ a b, Axis p c a b ∧ Spelt E a b ∧ ¬ Shares a b

/-- Every axis shares a value, and on one all equal members are zeros of
different signs, which no string spells. -/
def MissesBySign (E : Engine) (p c : Descriptor) : Prop :=
  (∀ a b, Axis p c a b → Shares a b) ∧
    ∃ a b, Axis p c a b ∧ ¬ Spelt E a b ∧ ∀ x ∈ a, ∀ y ∈ b, x.eqv y = true → Zeros x y

theorem misspelt_iff (htold : ToldApart E p c) : Misspelt E p c ↔ MeetsBySpelling E p c := by
  have hshares : ∀ a b, Axis p c a b → (SharesText E a b ↔ ∃ x ∈ a, x ∈ b) := fun a b haxis =>
    sharesText_iff haxis.scalars.1 (htold a b haxis)
  have halike : ∀ a b, Axis p c a b → (Alike E a b ↔ Spelt E a b) := fun a b haxis =>
    alike_string haxis.scalars.1 (htold a b haxis)
  constructor
  · rintro ⟨hmeet, a, b, haxis, hab, hnot⟩
    refine ⟨fun a b haxis => ?_, a, b, haxis, (halike a b haxis).mp hab, hnot⟩
    rw [← hshares a b haxis, ← halike a b haxis]
    exact hmeet a b haxis
  · rintro ⟨hmeet, a, b, haxis, hab, hnot⟩
    refine ⟨fun a b haxis => ?_, a, b, haxis, (halike a b haxis).mpr hab, hnot⟩
    rw [hshares a b haxis, halike a b haxis]
    exact hmeet a b haxis

theorem missigned_iff (htold : ToldApart E p c) : Missigned E p c ↔ MissesBySign E p c := by
  refine and_congr_right fun hall => exists_congr fun a => exists_congr fun b => and_congr_right fun haxis => ?_
  have hscalar := haxis.scalars.1
  rw [alike_string hscalar (htold a b haxis), and_comm]
  refine and_congr_right fun _ => ?_
  constructor
  · intro hnot x hx y hy heq
    exact unlike_zeros (E := E) (hscalar x hx) heq fun htext => hnot ⟨x, hx, y, hy, heq, htext⟩
  · intro hzeros hshares
    obtain ⟨x, hx, hy⟩ := (sharesText_iff hscalar (htold a b haxis)).mp hshares
    obtain ⟨f, g, hf, hg, hne, -⟩ := hzeros x hx x hy (scalar_eqv_self (hscalar x hx))
    cases hf.symm.trans hg
    exact hne rfl

theorem right_iff (hc : cand.index "scope" = c.value) :
    Right E p c cand ↔ (ByLists p c cand → ¬ Misspelt E p c ∧ ¬ Missigned E p c) := by
  obtain ⟨hrelated, hunrelated⟩ := scopePair_eq (E := E) (p := p) hc
  constructor
  · intro h hlists
    obtain ⟨hflag, hcomparable, haccount⟩ := hlists
    refine ⟨fun hmisspelt => ?_, fun hmissigned => ?_⟩
    · obtain ⟨hmeet, a, b, haxis, -, hnot⟩ := hmisspelt
      exact hnot ((h.related (hrelated.mpr ⟨hflag, hcomparable, haccount, hmeet⟩)).2.2 a b haxis)
    · obtain ⟨hshares, a, b, haxis, hnot, hnot'⟩ := hmissigned
      have hmeet : ¬ Meet E p c := fun hmeet => (hmeet a b haxis).elim hnot hnot'
      rcases (h.unrelated (hunrelated.mpr ⟨hflag, hcomparable, fun hboth => hmeet hboth.2⟩)).2.2 with hd | ⟨x, y, hxy, hd⟩
      · exact hd haccount
      · exact hd (hshares x y hxy)
  · intro h
    refine ⟨fun hr => ?_, fun hu => ?_, fun cand' hp hflag => scopePair_symm hc hp hflag⟩
    · obtain ⟨hflag, hcomparable, haccount, hmeet⟩ := hrelated.mp hr
      refine ⟨hcomparable, haccount, fun a b haxis => ?_⟩
      by_contra hnot
      have halike : Alike E a b := (hmeet a b haxis).resolve_left fun hshares => hnot (SharesText.shares hshares)
      exact (h ⟨hflag, hcomparable, haccount⟩).1 ⟨hmeet, a, b, haxis, halike, hnot⟩
    · obtain ⟨hflag, hcomparable, hnot⟩ := hunrelated.mp hu
      refine ⟨hflag, hcomparable, ?_⟩
      by_cases haccount : SameAccount p.value c.value
      · right
        by_contra hnone
        have hall : ∀ a b, Axis p c a b → Shares a b := fun a b haxis => by_contra fun hab => hnone ⟨a, b, haxis, hab⟩
        refine hnot ⟨haccount, fun a b haxis => by_contra fun hmeet => ?_⟩
        rw [not_or] at hmeet
        exact (h ⟨hflag, hcomparable, haccount⟩).2 ⟨hall, a, b, haxis, hmeet⟩
      · exact .inl haccount

end Pair

/-! ## The aggregate -/

/-- The answer over candidates. -/
structure Aggregates (E : Engine) (presented : Value) (cands : List Value) (r : ScopeRelation) : Prop where
  related : r = .related ↔ ∃ c ∈ cands, c.isObject = true ∧ scopePair E presented c = .related
  unknown : r = .unknown ↔ r ≠ .related ∧
    ((∃ c ∈ cands, c.isObject = true ∧ scopePair E presented c = .unknown) ∨ ∀ c ∈ cands, c.isObject = false)

theorem Aggregates.unique {presented : Value} {cands cands' : List Value} {r r' : ScopeRelation}
    (h : Aggregates E presented cands r) (h' : Aggregates E presented cands' r') (hperm : cands'.Perm cands) : r' = r := by
  have hrelated : r' = .related ↔ r = .related := by
    rw [h.related, h'.related]
    simp only [hperm.mem_iff]
  have hunknown : r' = .unknown ↔ r = .unknown := by
    rw [h.unknown, h'.unknown, ne_eq, ne_eq, hrelated]
    simp only [hperm.mem_iff]
  cases r <;> cases r' <;> simp_all

theorem scopeRelation_aggregates {vi m : Value} {cands : List Value} (hm : obj vi "mandates" = some m)
    (hcands : iterItems (m.get "candidates") = some cands) :
    ∃ r, scopeRelation E vi = some (some r) ∧ Aggregates E (m.index "presented_scope") cands r := by
  unfold scopeRelation
  simp only [hm, hcands, Option.bind_eq_bind, Option.bind_some]
  generalize m.index "presented_scope" = presented
  have hmem : ∀ r, (((cands.filter Value.isObject).map (scopePair E presented)).contains r = true ↔
      ∃ c ∈ cands, c.isObject = true ∧ scopePair E presented c = r) := by
    intro r
    simp [and_assoc]
  have hempty : ((cands.filter Value.isObject).map (scopePair E presented)).isEmpty = true ↔
      ∀ c ∈ cands, c.isObject = false := by
    simp
  have hrelated := hmem .related
  have hunknown := hmem .unknown
  refine ⟨_, rfl, ?_⟩
  cases hr : ((cands.filter Value.isObject).map (scopePair E presented)).contains .related with
  | true =>
    have hrelated := hrelated.mp hr
    exact ⟨by simp [hrelated], by simp⟩
  | false =>
    rw [hr, Bool.false_eq_true, false_iff] at hrelated
    rw [if_neg (by simp)]
    cases hu : (((cands.filter Value.isObject).map (scopePair E presented)).contains .unknown ||
        ((cands.filter Value.isObject).map (scopePair E presented)).isEmpty) with
    | true =>
      rw [if_pos rfl]
      rw [Bool.or_eq_true, hunknown, hempty] at hu
      exact ⟨by simpa using hrelated, by simp [hu]⟩
    | false =>
      rw [if_neg (by simp)]
      rw [← Bool.not_eq_true, Bool.or_eq_true, hunknown, hempty] at hu
      exact ⟨by simpa using hrelated, by simp [hu]⟩

/-- **Where the relation of scopes is right.** Two descriptors with lists of
scalars are told apart as they should be, and alike from both sides, exactly
where neither members of one text that are not equal, nor equal ones of
different texts, decide. Where texts tell apart the members that are no strings,
these are the scopes that meet by the spelling of a string alone, and the ones
that miss each other by the sign of a zero alone. The aggregate is right for any
candidates, in any order. -/
theorem scope_sound_iff (E : Engine) :
    (∀ (p c : Descriptor) (cand : Value), cand.index "scope" = c.value →
      (Right E p c cand ↔ (ByLists p c cand → ¬ Misspelt E p c ∧ ¬ Missigned E p c))) ∧
    (∀ p c : Descriptor, ToldApart E p c →
      (Misspelt E p c ↔ MeetsBySpelling E p c) ∧ (Missigned E p c ↔ MissesBySign E p c)) ∧
    ∀ vi m cands, obj vi "mandates" = some m → iterItems (m.get "candidates") = some cands →
      ∃ r, scopeRelation E vi = some (some r) ∧ Aggregates E (m.index "presented_scope") cands r ∧
        ∀ vi' m' cands', obj vi' "mandates" = some m' → m'.index "presented_scope" = m.index "presented_scope" →
          iterItems (m'.get "candidates") = some cands' → cands'.Perm cands →
          scopeRelation E vi' = scopeRelation E vi := by
  refine ⟨fun p c cand hc => right_iff hc, fun p c htold => ⟨misspelt_iff htold, missigned_iff htold⟩, ?_⟩
  intro vi m cands hm hcands
  obtain ⟨r, hr, hagg⟩ := scopeRelation_aggregates (E := E) hm hcands
  refine ⟨r, hr, hagg, ?_⟩
  intro vi' m' cands' hm' hsame hcands' hperm
  obtain ⟨r', hr', hagg'⟩ := scopeRelation_aggregates (E := E) hm' hcands'
  rw [hsame] at hagg'
  rw [hr, hr', hagg.unique hagg' hperm]

/-- A scope with these action classes and without selector keys. -/
def scopeOver (xs : List Value) (h : ∀ x ∈ xs, Scalar x) : Descriptor where
  value := .object [("action_classes", .array xs), ("org", .string "org"), ("selector", .object [("kind", .string "k")])]
  object := rfl
  classes := xs
  classes_eq := rfl
  classes_scalar := h
  predicates := nofun
  keys := .nil

def scopeOf (x : Value) (h : Scalar x) : Descriptor := scopeOver [x] (by simpa using h)

/-- The candidate with this scope. -/
def candidateOf (c : Descriptor) : Value := .object [("scope", c.value), ("scope_digest_only", .bool false)]

/-- There is one axis, that of the classes. -/
theorem axis_scopeOver {xs ys a b : List Value} {hx : ∀ x ∈ xs, Scalar x} {hy : ∀ y ∈ ys, Scalar y}
    (h : Axis (scopeOver xs hx) (scopeOver ys hy) a b) : a = xs ∧ b = ys := by
  cases h with
  | classes => exact ⟨rfl, rfl⟩
  | selector k a b hp => cases hp

theorem refunds_scalar : ∀ x ∈ [Value.string "refund", .string "1"], Scalar x := by
  simp [Scalar]

theorem counted_scalar : ∀ x ∈ [Value.number (.posInt 1), .string "refund"], Scalar x := by
  simp [Scalar]

/-- Two scopes with the class `refund` in common. The other class of one spells
that of the other, which decides nothing: the answer is right. -/
theorem scope_sound_refund : Right (referenceEngine L1.Reference.blank) (scopeOver _ refunds_scalar)
    (scopeOver _ counted_scalar) (candidateOf (scopeOver _ counted_scalar)) := by
  obtain ⟨hright, hvalues, -⟩ := scope_sound_iff (referenceEngine L1.Reference.blank)
  refine (hright _ _ _ rfl).mpr fun _ => ?_
  have htold : ToldApart (referenceEngine L1.Reference.blank) (scopeOver _ refunds_scalar) (scopeOver _ counted_scalar) := by
    intro a b haxis x hx y hy hplain
    obtain ⟨rfl, rfl⟩ := axis_scopeOver haxis
    simp only [List.mem_cons, List.not_mem_nil, or_false] at hx
    rcases hx with rfl | rfl <;> cases hplain
  have hcommon : Shares [Value.string "refund", .string "1"] [.number (.posInt 1), .string "refund"] :=
    ⟨.string "refund", by simp, .string "refund", by simp, by decide⟩
  obtain ⟨hmisspelt, hmissigned⟩ := hvalues _ _ htold
  rw [hmisspelt, hmissigned]
  constructor
  · rintro ⟨-, a, b, haxis, -, hnot⟩
    obtain ⟨rfl, rfl⟩ := axis_scopeOver haxis
    exact hnot hcommon
  · rintro ⟨-, a, b, haxis, -, hzeros⟩
    obtain ⟨rfl, rfl⟩ := axis_scopeOver haxis
    obtain ⟨f, -, hf, -⟩ := hzeros (.string "refund") (by simp) (.string "refund") (by simp) (by decide)
    cases hf

/-- The class `1` of one mandate is a text, that of the other a number. -/
theorem one_is_one : ¬ Right (referenceEngine L1.Reference.blank) (scopeOf (.string "1") trivial)
    (scopeOf (.number (.posInt 1)) trivial) (candidateOf (scopeOf (.number (.posInt 1)) trivial)) := by
  intro h
  obtain ⟨-, -, hshares⟩ := h.related (by decide)
  obtain ⟨x, hx, y, hy, heq⟩ := hshares _ _ .classes
  rw [List.mem_singleton.mp hx, List.mem_singleton.mp hy] at heq
  cases heq

end SwarrmVerify.L5.Scopes
