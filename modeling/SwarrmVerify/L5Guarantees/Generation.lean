import SwarrmVerify.L1Encoding.CborCodec
import SwarrmVerify.L1Encoding.Reference
import SwarrmVerify.L5Guarantees.HonestVector

/-!
# Generations of an exchange

A signer declares a generation by the schema names and the profile URIs of its
envelopes. The verifier does not read them for this: it searches the bytes of
the two outer envelopes for the two namespaces (`mixed_generation`). So an
exchange is refused that mentions the other namespace in a text of no meaning,
and one is let through whose second generation shows in a profile URI only,
where the namespace is not spelled.

`Declared` collects what the envelopes of an exchange declare, nested ones
included, by walking their values. `Spelled` says that a namespace is somewhere
in the bytes of the two outer ones. They are connected by the emitter: an
envelope that was decoded is emitted as it stood, and so a text that is a
member of it, however deep, is a part of its bytes (`labelled_inside`).

**Results.**
* `refusedMixed_iff`: the reason is given exactly if both namespaces are found.
* `spelled_of_named`: a generation that is named by a schema is found.
* `generation_exact`: the search refuses exactly the exchanges that declare two
  generations, if and only if nothing else spells both, and a profile URI
  beside the other generation is spelled.
* `generation_law_fails`: an exchange for each way in which it does not.
-/
namespace SwarrmVerify.L5.Generation
open Panics SwarrmVerify.L1.CborWire SwarrmVerify.L4.Handshake HonestVector

/-! ## Declarations -/

mutual
/-- The texts of a member of the given name, at any depth of a value. -/
def labelled (key : String) : C → List String
  | .array xs => labelledItems key xs
  | .map m => labelledMembers key m
  | _ => []
def labelledItems (key : String) : List C → List String
  | [] => []
  | x :: xs => labelled key x ++ labelledItems key xs
def labelledMembers (key : String) : List (C × C) → List String
  | [] => []
  | (k, x) :: m =>
    (if text k = some key then (text x).toList else []) ++ (labelled key x ++ labelledMembers key m)
end

/-- The claims of a tagged COSE_Sign1, as `inspect_cwt` takes it apart. -/
def claims (H : Host) : Bytes → List (C × C)
  | 0xd2 :: body =>
    match decode H body maxCwt with
    | some (.array [.bytes _, .map _, .bytes payload, .bytes _]) =>
      match decode H payload maxCwt with
      | some (.map claims) => claims
      | _ => []
    | _ => []
  | _ => []

/-- The core of an envelope. -/
def core (H : Host) (raw : Bytes) : C := (integer (claims H raw) (-65537)).getD .null

/-- The schema names that an envelope declares. -/
def schemaNames (H : Host) (raw : Bytes) : List String := labelled "schema" (core H raw)

/-- The profile URIs that an envelope declares. -/
def profileUris (H : Host) (raw : Bytes) : List String :=
  ((integer (claims H raw) 265).bind text).toList ++ labelled "profile" (core H raw)

/-- The byte strings that are members of a core. -/
def inlined (H : Host) (raw : Bytes) : List Bytes :=
  match core H raw with
  | .map m => m.filterMap fun e => bytes e.2
  | _ => []

inductive Gen where
  | v1
  | v2
  deriving DecidableEq

namespace Gen

def other : Gen → Gen
  | v1 => v2
  | v2 => v1

def ns : Gen → String
  | v1 => v1Ns
  | v2 => v2Ns

def uri : Gen → String
  | v1 => profile
  | v2 => profileV2

/-- A name is of the generation. -/
def spells (g : Gen) (name : String) : Bool := (utf8 g.ns).isPrefixOf (utf8 name)

end Gen

/-- Some envelope declares a schema name of the generation. -/
def Named (H : Host) (g : Gen) (envelopes : List Bytes) : Prop :=
  ∃ raw ∈ envelopes, ∃ name ∈ schemaNames H raw, g.spells name = true

/-- Some envelope declares the profile URI of the generation. -/
def Profiled (H : Host) (g : Gen) (envelopes : List Bytes) : Prop := ∃ raw ∈ envelopes, g.uri ∈ profileUris H raw

def Declared (H : Host) (g : Gen) (envelopes : List Bytes) : Prop := Named H g envelopes ∨ Profiled H g envelopes

instance (H : Host) (g : Gen) (envelopes : List Bytes) : Decidable (Named H g envelopes) :=
  inferInstanceAs (Decidable (∃ raw ∈ envelopes, ∃ name ∈ schemaNames H raw, g.spells name = true))

instance (H : Host) (g : Gen) (envelopes : List Bytes) : Decidable (Profiled H g envelopes) :=
  inferInstanceAs (Decidable (∃ raw ∈ envelopes, g.uri ∈ profileUris H raw))

instance (H : Host) (g : Gen) (envelopes : List Bytes) : Decidable (Declared H g envelopes) :=
  inferInstanceAs (Decidable (Named H g envelopes ∨ Profiled H g envelopes))

/-- The namespace of the generation is somewhere in the two outer envelopes. -/
def Spelled (g : Gen) (first second : Bytes) : Prop := utf8 g.ns <:+: first ∨ utf8 g.ns <:+: second

/-- An exchange that the verifier reads, with its envelopes. -/
def Parsed (H : Host) (exchange localContext first second : Bytes) (envelopes : List Bytes) : Prop :=
  (∃ ctx input, parseLocalContext H localContext = .ok (.ok (.presentation ctx)) ∧
    (parseInput H exchange ctx).run = .ok (some input) ∧ first = input.challenge ∧ second = input.presentation ∧
    envelopes = first :: second :: inlined H second) ∨
  ∃ ctx input, parseLocalContext H localContext = .ok (.ok (.refusal ctx)) ∧
    (parseRefusal H exchange ctx).run = .ok (some input) ∧ first = input.challenge ∧ second = input.refusal ∧
    envelopes = [first, second]

/-- The exchange is refused for its generations. -/
def RefusedMixed (H : Host) (exchange localContext trustPack pin : Bytes) : Prop :=
  ∃ out, verifyB28Cwt H exchange localContext trustPack pin = .ok out ∧ hasReason out "MIXED_PROFILE_GENERATION"

/-! ## The search -/

theorem occurs_iff {needle b : Bytes} : occurs needle b = true ↔ needle <:+: b := by
  rw [occurs, List.any_eq_true]
  constructor
  · rintro ⟨t, ht, hp⟩
    exact (List.isPrefixOf_iff_prefix.mp hp).isInfix.trans ((List.mem_tails _ _).mp ht).isInfix
  · intro h
    obtain ⟨t, hp, hs⟩ := List.infix_iff_prefix_suffix.mp h
    exact ⟨t, (List.mem_tails _ _).mpr hs, List.isPrefixOf_iff_prefix.mpr hp⟩

theorem mixedGeneration_iff {first second : Bytes} :
    mixedGeneration first second = true ↔ Spelled .v1 first second ∧ Spelled .v2 first second := by
  simp only [mixedGeneration, Bool.and_eq_true, Bool.or_eq_true, occurs_iff]
  rfl

section Refusal

variable {H : Host} {exchange localContext trustPack pin first second : Bytes} {envelopes : List Bytes}

/-- A run that ends before the roots are pinned. -/
theorem unpinned_mixed {mixed : Bool} {r : ResultValue}
    (h : mixed = true ∧ r = ⟨"FAIL", "MIXED_PROFILE_GENERATION", initialVector⟩ ∨
      mixed = false ∧ r = ⟨"INDETERMINATE", "NO_PINNED_TRUST_PACK", initialVector⟩) :
    r.reason = "MIXED_PROFILE_GENERATION" ↔ mixed = true := by
  rcases h with ⟨hmixed, rfl⟩ | ⟨hmixed, rfl⟩
  · exact iff_of_true rfl hmixed
  · exact iff_of_false (by decide) (by rw [hmixed]; decide)

theorem verifyPresentation_mixed {input : InputContext} : Returns (verifyPresentation H input trustPack pin) fun r =>
    (r.reason = "MIXED_PROFILE_GENERATION" ↔ mixedGeneration input.challenge input.presentation = true) := by
  refine Returns.bind pinned_ends fun e he => ?_
  cases e with
  | error r =>
    rw [returns_pure]
    exact unpinned_mixed he
  | ok roots =>
    refine Returns.bind (evaluate_returns H { input with roots := roots }) fun res hres => ?_
    have hmixed : mixedGeneration input.challenge input.presentation = false := he
    rw [returns_pure, hmixed]
    refine iff_of_false ?_ (by decide)
    rcases hres with hres | ⟨o, c, s, sel, head, -, rfl⟩
    · intro hreason
      exact hres.1.reason (by rw [hreason]; decide)
    · exact (by decide : "DURABLE_REPLAY_REQUIRED" ≠ "MIXED_PROFILE_GENERATION")

theorem verifyRefusal_mixed {input : RefusalContext} : Returns (verifyRefusal H input trustPack pin) fun r =>
    (r.reason = "MIXED_PROFILE_GENERATION" ↔ mixedGeneration input.challenge input.refusal = true) := by
  refine Returns.bind pinned_ends fun e he => ?_
  cases e with
  | error r =>
    rw [returns_pure]
    exact unpinned_mixed he
  | ok roots =>
    have hmixed : mixedGeneration input.challenge input.refusal = false := he
    refine (evaluateRefusal_returns H input).mono fun r hr => ?_
    rw [hmixed]
    refine iff_of_false ?_ (by decide)
    rcases hr with hr | rfl
    · intro hreason
      exact hr.reason.1 (by rw [hreason]; decide)
    · decide

/-- The reason is given exactly when both namespaces are found. -/
theorem refusedMixed_iff (h : Parsed H exchange localContext first second envelopes) :
    RefusedMixed H exchange localContext trustPack pin ↔ Spelled .v1 first second ∧ Spelled .v2 first second := by
  have hresult : Returns (result H exchange localContext trustPack pin) fun r =>
      (r.reason = "MIXED_PROFILE_GENERATION" ↔ mixedGeneration first second = true) := by
    unfold result
    rcases h with ⟨ctx, input, hctx, hinput, rfl, rfl, -⟩ | ⟨ctx, input, hctx, hinput, rfl, rfl, -⟩
    · rw [hctx, ok_bind]
      dsimp only
      rw [hinput, ok_bind]
      exact verifyPresentation_mixed
    · rw [hctx, ok_bind]
      dsimp only
      rw [hinput, ok_bind]
      exact verifyRefusal_mixed
  obtain ⟨r, hr, hreason⟩ := hresult
  have hout : verifyB28Cwt H exchange localContext trustPack pin = .ok r.json := by
    rw [verifyB28Cwt, hr]
    rfl
  rw [← mixedGeneration_iff, ← hreason]
  constructor
  · rintro ⟨out, hrun, hmixed⟩
    rw [hout] at hrun
    cases hrun
    exact hasReason_json hmixed
  · intro hmixed
    refine ⟨r.json, hout, ?_⟩
    show some [Value.string r.reason] = some [Value.string "MIXED_PROFILE_GENERATION"]
    rw [hmixed]

end Refusal

/-! ## Declarations are in the bytes -/

section Bytes

variable {H : Host} {p : Profile}

theorem text_inside {x : C} {s : String} {limit : Int} {b : Bytes} (hx : text x = some s)
    (hb : writeValue p x limit = some b) : utf8 s <:+: b := by
  rw [text_eq_some.mp hx, writeValue] at hb
  split at hb
  · cases hb
  · cases hb
    exact (List.suffix_append _ _).isInfix

theorem bytes_inside {x : C} {inner : Bytes} {limit : Int} {b : Bytes} (hx : x = .bytes inner)
    (hb : writeValue p x limit = some b) : inner <:+: b := by
  rw [hx, writeValue] at hb
  split at hb
  · cases hb
  · cases hb
    exact (List.suffix_append _ _).isInfix

/-- A labelled text is emitted with the value. -/
theorem labelled_inside (key : String) (v : C) : ∀ {limit : Int} {b : Bytes}, writeValue p v limit = some b →
    ∀ s ∈ labelled key v, utf8 s <:+: b := by
  match v with
  | .array xs =>
    intro limit b hb s hs
    have hitems := writeValue_item_inside hb
    have hlist : ∀ l : List C, (∀ x ∈ l, x ∈ xs) → s ∈ labelledItems key l → utf8 s <:+: b := by
      intro l
      induction l with
      | nil =>
        intro _ hs
        rw [labelledItems] at hs
        cases hs
      | cons x l ih =>
        intro hl hs
        have hx : x ∈ xs := hl x (by simp)
        rw [labelledItems, List.mem_append] at hs
        rcases hs with hs | hs
        · obtain ⟨bx, hbx, hin⟩ := hitems x hx
          exact (labelled_inside key x hbx s hs).trans hin
        · exact ih (fun y hy => hl y (List.mem_cons_of_mem _ hy)) hs
    rw [labelled] at hs
    exact hlist xs (fun _ hx => hx) hs
  | .map m =>
    intro limit b hb s hs
    have hmembers := writeValue_member_inside hb
    have hlist : ∀ l : List (C × C), (∀ q ∈ l, q ∈ m) → s ∈ labelledMembers key l → utf8 s <:+: b := by
      intro l
      induction l with
      | nil =>
        intro _ hs
        rw [labelledMembers] at hs
        cases hs
      | cons q l ih =>
        intro hl hs
        have hq : q ∈ m := hl q (by simp)
        obtain ⟨k, x⟩ := q
        obtain ⟨bx, hbx, hin⟩ := hmembers (k, x) hq
        rw [labelledMembers, List.mem_append, List.mem_append] at hs
        rcases hs with hs | hs | hs
        · split at hs
          · exact (text_inside (Option.mem_toList.mp hs) hbx).trans hin
          · cases hs
        · exact (labelled_inside key x hbx s hs).trans hin
        · exact ih (fun y hy => hl y (List.mem_cons_of_mem _ hy)) hs
    rw [labelled] at hs
    exact hlist m (fun _ hq => hq) hs
  | .null | .bool _ | .integer _ | .text _ | .bytes _ | .float _ | .tag _ _ =>
    intro limit b hb s hs
    rw [labelled] at hs
    · cases hs
    · simp
    · simp
termination_by sizeOf v
decreasing_by
  · have := List.sizeOf_lt_of_mem hx
    simp only [Cbor.Value.array.sizeOf_spec]
    omega
  · have := List.sizeOf_lt_of_mem hq
    simp only [Cbor.Value.map.sizeOf_spec]
    simp only [Prod.mk.sizeOf_spec] at this
    omega

theorem decode_writes {data : Bytes} {cap : Nat} {v : C} (h : decode H data cap = some v) :
    writeValue cwtProfile v 64 = some data := by
  unfold decode at h
  split at h
  · cases h
  · obtain ⟨scanned, -, h⟩ := Option.bind_eq_some_iff.mp h
    split at h
    · cases h
    · obtain ⟨⟨w, position⟩, -, h⟩ := Option.bind_eq_some_iff.mp h
      dsimp only at h
      split at h
      · cases h
      · obtain ⟨canon, hcanon, h⟩ := Option.bind_eq_some_iff.mp h
        split at h
        · rename_i heq
          cases h
          rw [← heq]
          exact hcanon
        · cases h

theorem integer_mem {m : List (C × C)} {key : Int} {v : C} (h : integer m key = some v) : ∃ k, (k, v) ∈ m := by
  obtain ⟨e, he, rfl⟩ := Option.map_eq_some_iff.mp h
  exact ⟨e.1, List.mem_of_find?_eq_some he⟩

/-- The claims of an envelope are emitted in it. -/
theorem claims_inside {raw : Bytes} : ∀ e ∈ claims H raw, ∃ b, writeValue cwtProfile e.2 63 = some b ∧ b <:+: raw := by
  intro e he
  unfold claims at he
  split at he
  · rename_i body
    split at he
    · rename_i protected_ unprotected payload signature hbody
      split at he
      · rename_i members hpayload
        obtain ⟨b, hb, hin⟩ := writeValue_member_inside (decode_writes hpayload) e he
        obtain ⟨bp, hbp, hinp⟩ := writeValue_item_inside (decode_writes hbody) (.bytes payload) (by simp)
        have houter : body <:+: 0xd2 :: body := (List.suffix_cons _ _).isInfix
        exact ⟨b, hb, ((hin.trans (bytes_inside rfl hbp)).trans hinp).trans houter⟩
      · cases he
    · cases he
  · cases he

/-- The core of an envelope is emitted in it. -/
theorem core_inside {raw : Bytes} (hcore : core H raw ≠ .null) :
    ∃ b, writeValue cwtProfile (core H raw) 63 = some b ∧ b <:+: raw := by
  unfold core at hcore ⊢
  cases hv : integer (claims H raw) (-65537) with
  | none =>
    rw [hv] at hcore
    exact absurd rfl hcore
  | some v =>
    obtain ⟨k, hk⟩ := integer_mem hv
    exact claims_inside (k, v) hk

theorem schemaNames_inside {raw : Bytes} : ∀ s ∈ schemaNames H raw, utf8 s <:+: raw := by
  intro s hs
  have hcore : core H raw ≠ .null := by
    intro hnull
    rw [schemaNames, hnull, labelled] at hs
    · cases hs
    · simp
    · simp
  obtain ⟨b, hb, hin⟩ := core_inside hcore
  exact (labelled_inside "schema" _ hb s hs).trans hin

theorem inlined_inside {raw : Bytes} : ∀ b ∈ inlined H raw, b <:+: raw := by
  intro inner hinner
  unfold inlined at hinner
  split at hinner
  · rename_i m hm
    obtain ⟨e, he, hbytes⟩ := List.mem_filterMap.mp hinner
    obtain ⟨b, hb, hin⟩ := core_inside (by rw [hm]; simp)
    rw [hm] at hb
    obtain ⟨bx, hbx, hinx⟩ := writeValue_member_inside hb e he
    exact ((bytes_inside (bytes_eq_some.mp hbytes) hbx).trans hinx).trans hin
  · cases hinner

end Bytes

/-! ## The law -/

section Law

variable {H : Host} {exchange localContext first second : Bytes} {envelopes : List Bytes}

theorem envelope_inside (h : Parsed H exchange localContext first second envelopes) :
    ∀ raw ∈ envelopes, raw <:+: first ∨ raw <:+: second := by
  intro raw hraw
  rcases h with ⟨ctx, input, -, -, -, -, rfl⟩ | ⟨ctx, input, -, -, -, -, rfl⟩
  · rcases List.mem_cons.mp hraw with rfl | hraw
    · exact .inl (List.infix_refl _)
    · rcases List.mem_cons.mp hraw with rfl | hraw
      · exact .inr (List.infix_refl _)
      · exact .inr (inlined_inside raw hraw)
  · simp only [List.mem_cons, List.not_mem_nil, or_false] at hraw
    rcases hraw with rfl | rfl
    · exact .inl (List.infix_refl _)
    · exact .inr (List.infix_refl _)

/-- A generation that is named is found. -/
theorem spelled_of_named (h : Parsed H exchange localContext first second envelopes) {g : Gen}
    (hg : Named H g envelopes) : Spelled g first second := by
  obtain ⟨raw, hraw, name, hname, hspells⟩ := hg
  have hin : utf8 g.ns <:+: raw :=
    (List.isPrefixOf_iff_prefix.mp hspells).isInfix.trans (schemaNames_inside name hname)
  rcases envelope_inside h raw hraw with houter | houter
  · exact .inl (hin.trans houter)
  · exact .inr (hin.trans houter)

end Law

/-- **Generations.** The search refuses exactly the exchanges that declare two
generations if and only if neither namespace is found undeclared beside the
other, and no URI of a generation that is not found stands beside a declaration
of the other. -/
theorem generation_exact (H : Host) (exchange localContext trustPack pin first second : Bytes) (envelopes : List Bytes)
    (h : Parsed H exchange localContext first second envelopes) :
    (RefusedMixed H exchange localContext trustPack pin ↔ Declared H .v1 envelopes ∧ Declared H .v2 envelopes) ↔
      (Spelled .v1 first second → Spelled .v2 first second → Declared H .v1 envelopes ∧ Declared H .v2 envelopes) ∧
      ∀ g : Gen, Profiled H g envelopes → Declared H g.other envelopes → Spelled g first second := by
  rw [refusedMixed_iff h]
  constructor
  · intro hlaw
    refine ⟨fun h1 h2 => hlaw.mp ⟨h1, h2⟩, ?_⟩
    intro g hprofiled hother
    cases g with
    | v1 => exact (hlaw.mpr ⟨.inr hprofiled, hother⟩).1
    | v2 => exact (hlaw.mpr ⟨hother, .inr hprofiled⟩).2
  · rintro ⟨hfound, huri⟩
    have hspelled : ∀ g : Gen, Declared H g envelopes → Declared H g.other envelopes → Spelled g first second := by
      intro g hg hother
      rcases hg with hnamed | hprofiled
      · exact spelled_of_named h hnamed
      · exact huri g hprofiled hother
    refine ⟨fun hspelled => hfound hspelled.1 hspelled.2, fun hdeclared => ?_⟩
    exact ⟨hspelled .v1 hdeclared.1 hdeclared.2, hspelled .v2 hdeclared.2 hdeclared.1⟩

/-! ## Two exchanges -/

/-- A host that reads definite-length CBOR and knows no key. -/
def reader : Host where
  toCrates := L1.Reference.blank
  ciborium b := (readItem b.length b).map fun q => (q.1, b.length - q.2.length)
  edKey _ := false
  p256Key _ := none
  p256Signature _ := none
  normalizeS b := b
  p256Verify _ _ _ := false

/-- An envelope around the members of a core. -/
def envelope (uri : String) (members : List (String × String)) : Bytes :=
  let payload := (canonical (.map [(.integer 265, .text uri),
    (.integer (-65537), .map (members.map fun e => (.text e.1, .text e.2)))])).getD []
  0xd2 :: (canonical (.array [.bytes [], .map [], .bytes payload, .bytes (List.replicate 64 0)])).getD []

/-- A relying party without keys, checkpoints and heads. -/
def localContext : Bytes :=
  (canonical (.map [(.text "schema", .text "swarrm-b28/local-verifier-context/v1"), (.text "challenger_keys", .array []),
    (.text "registered_checkpoints", .array []), (.text "authority_heads", .array []),
    (.text "expected_admin_origin", .text "https://example"), (.text "max_action_lifetime_s", .integer 60),
    (.text "now", .integer 1)])).getD []

def exchange (challenge presentation : Bytes) : Bytes :=
  (canonical (.map [(.text "challenge", .bytes challenge), (.text "presentation", .bytes presentation)])).getD []

/-- An answer of the first generation. -/
def answer : Bytes := envelope profile [("schema", "swarrm-b28/presentation-core/v1")]

/-- A challenge of the first generation that mentions another's namespace. -/
def mention : Bytes :=
  envelope profile [("schema", "swarrm-b28/challenge-core/v1"), ("unit", "swarrm/credit")]

/-- A challenge with a name of the first generation and the URI of the second. -/
def crossed : Bytes := envelope profileV2 [("schema", "swarrm-b28/challenge-core/v1")]

/-- The two parts of an exchange that is read under the context. -/
theorem parsed_presentation {challenge presentation : Bytes}
    (hparts : (exchangeParts reader (exchange challenge presentation) "presentation").run =
      .ok (some (challenge, presentation))) :
    Parsed reader (exchange challenge presentation) localContext challenge presentation
      (challenge :: presentation :: inlined reader presentation) := by
  have hcontext : (match parseLocalContext reader localContext with
      | .ok (.ok (.presentation _)) => true
      | _ => false) = true := by decide +kernel
  split at hcontext
  · rename_i ctx hctx
    refine .inl ⟨ctx, { ctx with challenge := challenge, presentation := presentation, roots := [] }, hctx, ?_, rfl, rfl,
      rfl⟩
    rw [parseInput, OptionT.run_bind, hparts]
    rfl
  · cases hcontext

theorem mention_parsed : Parsed reader (exchange mention answer) localContext mention answer
    (mention :: answer :: inlined reader answer) := parsed_presentation (by decide +kernel)

theorem crossed_parsed : Parsed reader (exchange crossed answer) localContext crossed answer
    (crossed :: answer :: inlined reader answer) := parsed_presentation (by decide +kernel)

/-- The law fails both ways: a mention of the other namespace in an exchange of
one generation is refused, and names of one generation under the URI of the
other are not. -/
theorem generation_law_fails :
    (Parsed reader (exchange mention answer) localContext mention answer (mention :: answer :: inlined reader answer) ∧
      RefusedMixed reader (exchange mention answer) localContext [] [] ∧
      ¬Declared reader .v2 (mention :: answer :: inlined reader answer)) ∧
    Parsed reader (exchange crossed answer) localContext crossed answer (crossed :: answer :: inlined reader answer) ∧
      ¬RefusedMixed reader (exchange crossed answer) localContext [] [] ∧
      Declared reader .v1 (crossed :: answer :: inlined reader answer) ∧
      Declared reader .v2 (crossed :: answer :: inlined reader answer) := by
  refine ⟨⟨mention_parsed, (refusedMixed_iff mention_parsed).mpr (mixedGeneration_iff.mp (by decide +kernel)),
    by decide +kernel⟩, crossed_parsed, ?_, by decide +kernel, by decide +kernel⟩
  intro hrefused
  have hmixed := mixedGeneration_iff.mpr ((refusedMixed_iff crossed_parsed).mp hrefused)
  revert hmixed
  decide +kernel

theorem generation_exact_crossed :
    Parsed reader (exchange crossed answer) localContext crossed answer (crossed :: answer :: inlined reader answer) ∧
    ((RefusedMixed reader (exchange crossed answer) localContext [] [] ↔
        Declared reader .v1 (crossed :: answer :: inlined reader answer) ∧
          Declared reader .v2 (crossed :: answer :: inlined reader answer)) ↔
      (Spelled .v1 crossed answer → Spelled .v2 crossed answer →
        Declared reader .v1 (crossed :: answer :: inlined reader answer) ∧
          Declared reader .v2 (crossed :: answer :: inlined reader answer)) ∧
      ∀ g : Gen, Profiled reader g (crossed :: answer :: inlined reader answer) →
        Declared reader g.other (crossed :: answer :: inlined reader answer) → Spelled g crossed answer) :=
  ⟨crossed_parsed, generation_exact _ _ _ _ _ _ _ _ crossed_parsed⟩

end SwarrmVerify.L5.Generation
