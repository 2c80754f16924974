import SwarrmVerify.L1Encoding.CborCodec
import SwarrmVerify.L4Handshake.Evaluation

/-!
# Reading validated documents

Every `unwrap` and every `doc[name]` of the evaluation (`verify-rs/src/b28.rs`)
is about a document that was validated before, mostly on another path: in
another function, against a shape, while it was still a value. A reader panics
where a member is missing or of another kind. So the readers are safe for a
reason that is stated here once for each schema, and not at each of the places
that read.

A document is `Clean` where each of its members can be emitted. That holds of
whatever was decoded from canonical bytes, and it is inherited by the documents
inside. On clean values `==` is equality, since nothing that is emitted holds a
float; this is what makes comparing two members as good as identifying them.

**Results.**
* `eq_of_eqv`: equal values of canonical documents are the same value.
* `delegation_reads`, `template_reads`, `challenge_reads` and the others: for a
  document that meets a shape, the readings of its members return, and return
  what `numberOf`, `rawOf` and `nameOf` say of them.
* `holds_of_read`: a document that was read against a shape meets it.
* `namedDigest_safe`, `selectedDigest_safe`, `actionScopeDigest_safe`: a choice
  of members of a canonical document is canonical again and has a digest.
* `transcript_canonical`: so is the transcript that the two sides sign.
-/
namespace SwarrmVerify.L4.Handshake
open Panics SwarrmVerify.L1.CborWire

/-! ## Canonical values -/

/-- `==` is equality on values that are emitted: they have no floats and no
tags, and on everything else the comparison of `ciborium` is structural. -/
theorem eq_of_eqv {p : Profile} (v : C) : ∀ {w : C} {limit : Int}, (writeValue p v limit).isSome = true →
    eqv v w = true → v = w := by
  match v with
  | .null | .integer _ | .bytes _ | .text _ | .bool _ =>
    intro w limit _ h
    cases w <;> simp only [eqv, beq_iff_eq, Bool.false_eq_true] at h
    all_goals first | rfl | rw [h]
  | .float _ | .tag _ _ =>
    intro w limit hb
    rw [writeValue] at hb
    cases hb
  | .array xs =>
    intro w limit hb h
    cases w with
    | array ys =>
      have hlist : ∀ l ys : List C, (∀ x ∈ l, x ∈ xs) → (writeItems p l (limit - 1)).isSome = true →
          eqvItems l ys = true → l = ys := by
        intro l
        induction l with
        | nil =>
          intro ys _ _ he
          cases ys with
          | nil => rfl
          | cons y ys => simp [eqvItems] at he
        | cons x l ih =>
          intro ys hl hw he
          have hx : x ∈ xs := hl x (by simp)
          cases ys with
          | nil => simp [eqvItems] at he
          | cons y ys =>
            rw [eqvItems, Bool.and_eq_true] at he
            obtain ⟨body, hbody⟩ := Option.isSome_iff_exists.mp hw
            simp only [writeItems, Option.bind_eq_bind, Option.bind_eq_some_iff] at hbody
            obtain ⟨first, hfirst, rest, hrest, -⟩ := hbody
            rw [eq_of_eqv x (Option.isSome_iff_exists.mpr ⟨_, hfirst⟩) he.1,
              ih ys (fun z hz => hl z (List.mem_cons_of_mem _ hz)) (Option.isSome_iff_exists.mpr ⟨_, hrest⟩) he.2]
      rw [writeValue] at hb
      split at hb
      · cases hb
      · rw [Option.isSome_map] at hb
        rw [eqv] at h
        rw [hlist xs ys (fun _ hx => hx) hb h]
    | _ => simp [eqv] at h
  | .map m =>
    intro w limit hb h
    cases w with
    | map n =>
      have hlist : ∀ l n : List (C × C), (∀ q ∈ l, q ∈ m) →
          (∀ q ∈ l, (writeKey p q.1).isSome = true ∧ (writeValue p q.2 (limit - 1)).isSome = true) →
          eqvMembers l n = true → l = n := by
        intro l
        induction l with
        | nil =>
          intro n _ _ he
          cases n with
          | nil => rfl
          | cons r n => simp [eqvMembers] at he
        | cons q l ih =>
          intro n hl hw he
          have hq : q ∈ m := hl q (by simp)
          cases n with
          | nil => simp [eqvMembers] at he
          | cons r n =>
            obtain ⟨k, x⟩ := q
            obtain ⟨j, y⟩ := r
            rw [eqvMembers, Bool.and_eq_true, Bool.and_eq_true] at he
            obtain ⟨hk, hx⟩ := hw (k, x) (by simp)
            have hkey : k = j := by
              cases k <;> simp [writeKey] at hk <;> cases j <;> simp [eqv] at he <;> simp [he]
            rw [hkey, eq_of_eqv x hx he.1.2, ih n (fun z hz => hl z (List.mem_cons_of_mem _ hz))
              (fun z hz => hw z (List.mem_cons_of_mem _ hz)) he.2]
      obtain ⟨b, hb⟩ := Option.isSome_iff_exists.mp hb
      rw [eqv] at h
      rw [hlist m n (fun _ hq => hq) (writeValue_members hb).2 h]
    | _ => simp [eqv] at h
termination_by sizeOf v
decreasing_by
  · have := List.sizeOf_lt_of_mem hx
    simp only [Cbor.Value.array.sizeOf_spec]
    omega
  · have := List.sizeOf_lt_of_mem hq
    simp only [Cbor.Value.map.sizeOf_spec]
    simp only [Prod.mk.sizeOf_spec] at this
    omega

/-- Every member of a document can be emitted. Whatever was decoded from
canonical bytes is clean, and so is each document inside. -/
def Clean (doc : Doc) : Prop := ∀ k, (canonical (get doc k)).isSome = true

theorem canonical_null : (canonical .null).isSome = true := by decide

/-- What is part of a canonical map is canonical one level down. -/
theorem canonical_member {v : C} {doc : Doc} {b : Bytes} (hv : canonical v = some b) (hplain : plain v = some doc) :
    ∀ e ∈ doc, (writeKey cwtProfile (.text e.1)).isSome = true ∧ (writeValue cwtProfile e.2 63).isSome = true := by
  obtain ⟨rfl, -⟩ := plain_eq_some.mp hplain
  intro e he
  have hw : writeValue cwtProfile (.map (doc.map entry)) 64 = some b := hv
  exact (writeValue_members hw).2 (entry e) (List.mem_map_of_mem he)

/-- A document from canonical bytes is clean: each of its members can be emitted
by itself. -/
theorem clean_of_canonical {v : C} {doc : Doc} {b : Bytes} (hv : canonical v = some b) (hplain : plain v = some doc) :
    Clean doc := by
  intro k
  cases hk : doc.lookup k with
  | none =>
    rw [get, hk]
    exact canonical_null
  | some x =>
    have hnodup := (plain_eq_some.mp hplain).2
    obtain ⟨b', hb'⟩ := Option.isSome_iff_exists.mp
      (canonical_member hv hplain _ ((lookup_eq_some_iff_mem hnodup).mp hk)).2
    rw [get_of_lookup hk]
    exact Option.isSome_iff_exists.mpr ⟨b', writeValue_mono x (by decide) hb'⟩

/-- A document that a member of a clean document holds is clean. -/
theorem Clean.inner {doc d : Doc} {k : String} (h : Clean doc) (hd : plain (get doc k) = some d) : Clean d := by
  obtain ⟨b, hb⟩ := Option.isSome_iff_exists.mp (h k)
  exact clean_of_canonical hb hd

/-- A clean member is what it compares equal to. -/
theorem Clean.eq {d : Doc} {v : C} {j : String} (h : Clean d) (he : eqv (get d j) v = true) : get d j = v :=
  eq_of_eqv _ (h j) he

/-! ## Readers -/

/-- The number of a member, 0 where there is none. -/
def numberOf (d : Doc) (k : String) : Nat := (uint (get d k)).getD 0

/-- The bytes of a member, empty where there are none. -/
def rawOf (d : Doc) (k : String) : Bytes := (bytes (get d k)).getD []

/-- The text of a member, empty where there is none. -/
def nameOf (d : Doc) (k : String) : String := (text (get d k)).getD ""

section Readers

variable {d : Doc} {k : String}

theorem unwrap_isSome {α : Type} {o : Option α} {a : α} (h : o.isSome = true) : unwrap o = .ok (o.getD a) := by
  obtain ⟨b, rfl⟩ := Option.isSome_iff_exists.mp h
  rfl

/-- Where a member says something other than null, it is there, and reading it
by name returns. -/
theorem index_of_get {v : C} (h : get d k = v) (hv : isNull v = false) : index d k = .ok (get d k) := by
  refine index_get ?_
  cases hl : d.lookup k with
  | none =>
    rw [get, hl] at h
    cases h
    cases hv
  | some x => rfl

/-- A number that a rule has found is read without a panic. -/
theorem number_eq (h : (uint (get d k)).isSome = true) : number d k = .ok (numberOf d k) := by
  have hidx : index d k = .ok (get d k) := by
    refine index_of_get rfl ?_
    cases hv : get d k <;> rw [hv] at h <;> first | rfl | cases h
  rw [number, hidx, ok_bind, unwrap_isSome h, numberOf]

/-- Bytes that a rule has found are read without a panic. -/
theorem raw_eq (h : (bytes (get d k)).isSome = true) : raw d k = .ok (rawOf d k) := by
  have hidx : index d k = .ok (get d k) := by
    refine index_of_get rfl ?_
    cases hv : get d k <;> rw [hv] at h <;> first | rfl | cases h
  rw [raw, hidx, ok_bind, unwrap_isSome h, rawOf]

/-- A text that a rule has found is read without a panic. -/
theorem name_eq (h : (text (get d k)).isSome = true) : name d k = .ok (nameOf d k) := by
  have hidx : index d k = .ok (get d k) := by
    refine index_of_get rfl ?_
    cases hv : get d k <;> rw [hv] at h <;> first | rfl | cases h
  rw [name, hidx, ok_bind, unwrap_isSome h, nameOf]

theorem isSome_of_filter {α : Type} {o : Option α} {f : α → Bool} (h : (o.filter f).isSome = true) : o.isSome = true := by
  cases o with
  | none => cases h
  | some a => rfl

/-- A member that meets the rule of numbers holds a number. -/
theorem number_of_number (h : (Rule.number k).run d = .ok true) : (uint (get d k)).isSome = true := Rule.on_holds h

theorem number_of_count (h : (Rule.count k).run d = .ok true) : (uint (get d k)).isSome = true :=
  isSome_of_filter (Rule.on_holds h)

/-- The rule for identifiers finds bytes. -/
theorem raw_of_identifier (h : (Rule.identifier k).run d = .ok true) : (bytes (get d k)).isSome = true :=
  isSome_of_filter (isSome_of_filter (Rule.on_holds h))

/-- A member that meets the rule of byte strings of a fixed length holds
bytes. -/
theorem raw_of_fixed {n : Nat} (h : (Rule.fixedBytes k n).run d = .ok true) : (bytes (get d k)).isSome = true :=
  isSome_of_filter (Rule.on_holds h)

theorem raw_of_sized {low high : Nat} (h : (Rule.sizedBytes k low high).run d = .ok true) :
    (bytes (get d k)).isSome = true := by
  have := Rule.on_holds h
  cases hb : bytes (get d k) with
  | none => rw [hb] at this; cases this
  | some b => rfl

/-- The rule for short texts finds a text. -/
theorem name_of_bounded {n : Nat} (h : (Rule.boundedText k n).run d = .ok true) : (text (get d k)).isSome = true :=
  isSome_of_filter (Rule.on_holds h)

/-- The rule for key ids finds the id and the key. -/
theorem name_of_kid {X : Crates} {kid key : String} (h : (Rule.kidOf X kid key).run d = .ok true) :
    (text (get d kid)).isSome = true ∧ (bytes (get d key)).isSome = true := by
  have h := Except.ok.inj (Rule.two_holds h)
  obtain ⟨raw, hraw, hkid⟩ := Option.any_eq_true _ _ |>.mp h
  refine ⟨isSome_of_filter (f := fun s => s != "" && (utf8 s).length ≤ 128 && !(utf8 s).contains 0) ?_, ?_⟩
  · have : bounded (get d kid) 128 = some (keyId X raw) := by simpa using hkid
    exact Option.isSome_iff_exists.mpr ⟨_, this⟩
  · exact Option.isSome_iff_exists.mpr ⟨_, hraw⟩

end Readers

/-! ## Schemas -/

section Schemas

variable {X : Crates} {d : Doc}

/-- What the evaluation reads of a delegation: tenant, organisation, its
identifier, and the kids and keys of the two authorities. The statements for the
other schemas are of the same form. -/
theorem delegation_reads (h : (delegationShape X).Holds d) :
    name d "tenant" = .ok (nameOf d "tenant") ∧ raw d "organisation_root" = .ok (rawOf d "organisation_root") ∧
    raw d "delegation_id" = .ok (rawOf d "delegation_id") ∧
    name d "passport_authority_kid" = .ok (nameOf d "passport_authority_kid") ∧
    raw d "passport_authority_key" = .ok (rawOf d "passport_authority_key") ∧
    name d "action_authority_kid" = .ok (nameOf d "action_authority_kid") ∧
    raw d "action_authority_key" = .ok (rawOf d "action_authority_key") := by
  have hr := h.rule
  simp only [delegationShape, Rule.tenantRoot, List.cons_append, List.nil_append, List.forall_mem_cons] at hr
  obtain ⟨-, htenant, hroot, hid, -, hpassport, haction, -⟩ := hr
  exact ⟨name_eq (name_of_bounded htenant), raw_eq (raw_of_identifier hroot), raw_eq (raw_of_identifier hid),
    name_eq (name_of_kid hpassport).1, raw_eq (name_of_kid hpassport).2, name_eq (name_of_kid haction).1,
    raw_eq (name_of_kid haction).2⟩

/-- What is read of a template can be read, by its rules. -/
theorem template_reads (h : templateShape.Holds d) :
    raw d "template_id" = .ok (rawOf d "template_id") ∧ raw d "mandate_digest" = .ok (rawOf d "mandate_digest") ∧
    raw d "config_digest" = .ok (rawOf d "config_digest") ∧ (rawOf d "mandate_digest").length = 32 ∧
    (rawOf d "config_digest").length = 32 := by
  have hr := h.rule
  simp only [templateShape, Rule.tenantRoot, List.cons_append, List.nil_append, List.forall_mem_cons] at hr
  obtain ⟨-, -, hid, -, -, -, hmandate, hconfig, -⟩ := hr
  have hlength : ∀ {k}, (Rule.fixedBytes k 32).run d = .ok true → (rawOf d k).length = 32 := by
    intro k hk
    have hk := Rule.on_holds hk
    obtain ⟨b, hb⟩ := Option.isSome_iff_exists.mp hk
    obtain ⟨hb, hlen⟩ := Option.filter_eq_some_iff.mp hb
    rw [rawOf, hb]
    simpa using hlen
  exact ⟨raw_eq (raw_of_identifier hid), raw_eq (raw_of_fixed hmandate), raw_eq (raw_of_fixed hconfig),
    hlength hmandate, hlength hconfig⟩

theorem adminBinding_reads (h : adminBindingShape.Holds d) : raw d "binding_id" = .ok (rawOf d "binding_id") := by
  have hr := h.rule
  simp only [adminBindingShape, Rule.tenantRoot, List.cons_append, List.nil_append, List.forall_mem_cons] at hr
  exact raw_eq (raw_of_identifier hr.2.2.1)

theorem selection_reads (h : selectionShape.Holds d) : raw d "challenge_id" = .ok (rawOf d "challenge_id") := by
  have hr := h.rule
  simp only [selectionShape, List.forall_mem_cons] at hr
  obtain ⟨-, -, -, -, -, -, hid, -⟩ := hr
  exact raw_eq (raw_of_identifier hid)

theorem adminChallenge_reads (h : adminChallengeShape.Holds d) :
    raw d "challenge_id" = .ok (rawOf d "challenge_id") := by
  have hr := h.rule
  simp only [adminChallengeShape, Rule.tenantRoot, List.cons_append, List.nil_append, List.forall_mem_cons] at hr
  exact raw_eq (raw_of_identifier hr.2.2.1)

/-- What is read of a consumption can be read, by its rules. -/
theorem consumption_reads (h : adminConsumptionShape.Holds d) :
    raw d "binding_id" = .ok (rawOf d "binding_id") ∧ raw d "challenge_id" = .ok (rawOf d "challenge_id") ∧
    number d "counter_version" = .ok (numberOf d "counter_version") ∧
    number d "sign_count_before" = .ok (numberOf d "sign_count_before") ∧
    number d "sign_count_after" = .ok (numberOf d "sign_count_after") ∧
    (∃ b, get d "backup_eligible" = .bool b) ∧ ∃ b, get d "backup_state" = .bool b := by
  have hr := h.rule
  simp only [adminConsumptionShape, Rule.tenantRoot, List.cons_append, List.nil_append, List.forall_mem_cons] at hr
  obtain ⟨hcounter, -, -, hbinding, hchallenge, -, -, -, hversion, -⟩ := hr
  have hcounter := Except.ok.inj (Rule.four_holds hcounter)
  split at hcounter
  · rename_i b a e s hb ha he hs
    exact ⟨raw_eq (raw_of_identifier hbinding), raw_eq (raw_of_identifier hchallenge),
      number_eq (number_of_count hversion), number_eq (by rw [hb]; rfl), number_eq (by rw [ha]; rfl), ⟨e, he⟩, ⟨s, hs⟩⟩
  · cases hcounter

theorem grant_reads (h : grantShape.Holds d) :
    raw d "grant_id" = .ok (rawOf d "grant_id") ∧ number d "grant_version" = .ok (numberOf d "grant_version") := by
  have hr := h.rule
  simp only [grantShape, Rule.tenantRoot, List.cons_append, List.nil_append, List.forall_mem_cons] at hr
  obtain ⟨-, -, hid, -, -, -, hversion, -⟩ := hr
  exact ⟨raw_eq (raw_of_identifier hid), number_eq (number_of_count hversion)⟩

/-- What is read of a checkpoint: whose it is, its sequence, its two roots, the
size of its log and its time. -/
theorem checkpoint_reads (h : checkpointShape.Holds d) :
    name d "tenant" = .ok (nameOf d "tenant") ∧ raw d "organisation_root" = .ok (rawOf d "organisation_root") ∧
    raw d "authority_root" = .ok (rawOf d "authority_root") ∧ raw d "log_root" = .ok (rawOf d "log_root") ∧
    number d "sequence" = .ok (numberOf d "sequence") ∧ number d "log_size" = .ok (numberOf d "log_size") ∧
    number d "issued_at" = .ok (numberOf d "issued_at") := by
  have hr := h.rule
  simp only [checkpointShape, Rule.tenantRoot, List.cons_append, List.nil_append, List.forall_mem_cons] at hr
  obtain ⟨htenant, hroot, hauthority, hlog, hsequence, hsize, hissued, -⟩ := hr
  exact ⟨name_eq (name_of_bounded htenant), raw_eq (raw_of_identifier hroot), raw_eq (raw_of_fixed hauthority),
    raw_eq (raw_of_fixed hlog), number_eq (number_of_number hsequence), number_eq (number_of_number hsize),
    number_eq (number_of_number hissued)⟩

/-- What is read of a credential can be read, by its rules. -/
theorem credential_reads (h : (credentialShape X).Holds d) :
    name d "agent_kid" = .ok (nameOf d "agent_kid") ∧ raw d "agent_key" = .ok (rawOf d "agent_key") ∧
    raw d "birthtag" = .ok (rawOf d "birthtag") ∧ number d "revision" = .ok (numberOf d "revision") ∧
    raw d "issuance_checkpoint" = .ok (rawOf d "issuance_checkpoint") := by
  have hr := h.rule
  simp only [credentialShape, Rule.tenantRoot, List.cons_append, List.nil_append, List.forall_mem_cons] at hr
  obtain ⟨-, -, -, -, hbirthtag, hkey, -, -, -, -, -, -, hissuance, -, hrevision, -, hkid, -⟩ := hr
  exact ⟨name_eq (name_of_kid hkid).1, raw_eq (raw_of_identifier hkey), raw_eq (raw_of_identifier hbirthtag),
    number_eq (number_of_count hrevision), raw_eq (raw_of_identifier hissuance)⟩

theorem successor_reads (h : successorShape.Holds d) :
    raw d "predecessor_birthtag" = .ok (rawOf d "predecessor_birthtag") ∧
    raw d "predecessor_credential_digest" = .ok (rawOf d "predecessor_credential_digest") := by
  have hr := h.rule
  simp only [successorShape, Rule.tenantRoot, List.cons_append, List.nil_append, List.forall_mem_cons] at hr
  obtain ⟨-, -, hbirthtag, hdigest, -⟩ := hr
  exact ⟨raw_eq (raw_of_identifier hbirthtag), raw_eq (raw_of_identifier hdigest)⟩

theorem snapshot_reads (h : snapshotShape.Holds d) : number d "expires_at" = .ok (numberOf d "expires_at") := by
  have hr := h.rule
  simp only [snapshotShape, Rule.tenantRoot, List.cons_append, List.nil_append, List.forall_mem_cons] at hr
  obtain ⟨-, -, -, -, -, hwindow, -⟩ := hr
  obtain ⟨-, r, -, hr, -⟩ := Rule.window_holds hwindow
  exact number_eq (by rw [hr]; rfl)

/-- What is read of a presentation itself: the selection, the assurance, its
time, and the map of state proofs, which has a member for each object. -/
theorem presentation_reads (h : presentationShape.Holds d) :
    raw d "admin_selection" = .ok (rawOf d "admin_selection") ∧ raw d "asa" = .ok (rawOf d "asa") ∧
    number d "created_at" = .ok (numberOf d "created_at") ∧
    ∃ proofs, plain (get d "state_proofs") = some proofs ∧
      ∀ k ∈ stateProofNames, index proofs k = .ok (get proofs k) := by
  have hr := h.rule
  simp only [presentationShape, List.forall_mem_cons] at hr
  obtain ⟨hproofs, -, -, -, -, -, -, -, -, -, -, -, -, -, -, -, -, -, hasa, -, hselection, -, -, hcreated, -⟩ := hr
  have hproofs := Rule.on_holds hproofs
  obtain ⟨proofs, hproofs⟩ := Option.isSome_iff_exists.mp hproofs
  obtain ⟨hplain, hhas, -⟩ := document_eq_some hproofs
  refine ⟨raw_eq ?_, raw_eq (raw_of_sized hasa), number_eq (number_of_number hcreated), proofs, hplain,
    fun k hk => index_get (hhas k hk)⟩
  have hselection := Rule.on_holds hselection
  cases hb : bytes (get d "admin_selection") with
  | none => rw [hb] at hselection; cases hselection
  | some b => rfl

/-- A document that a shape reads meets the shape. This is how what was
validated in one function is used in another. -/
theorem holds_of_read {s : Shape} {v : C} {doc : Doc} (h : s.read v = .ok (some doc)) :
    plain v = some doc ∧ s.Holds doc := by
  obtain ⟨hdoc, hrules⟩ := Shape.read_eq_some.mp h
  obtain ⟨hplain, hhas, -⟩ := document_eq_some hdoc
  exact ⟨hplain, hhas, hrules⟩

theorem holds_of_isSome {s : Shape} {v : C} (h : (do return (← s.read v).isSome : Run Bool) = .ok true) :
    ∃ doc, plain v = some doc ∧ s.Holds doc := by
  obtain ⟨o, ho, h⟩ := bind_eq_ok.mp h
  cases o with
  | none => cases h
  | some doc => exact ⟨doc, holds_of_read ho⟩

/-- What is read of a challenge can be read, its action and its challenger
included. -/
theorem challenge_reads (h : challengeShape.Holds d) :
    (∃ challenger, plain (get d "challenger") = some challenger ∧ agentShape.Holds challenger) ∧
    (∃ action, plain (get d "action") = some action ∧ actionShape.Holds action) ∧
    number d "issued_at" = .ok (numberOf d "issued_at") ∧
    number d "max_checkpoint_age" = .ok (numberOf d "max_checkpoint_age") ∧
    ∃ items, get d "required_dimensions" = .array items := by
  have hr := h.rule
  simp only [challengeShape, List.forall_mem_cons] at hr
  obtain ⟨hlists, -, -, hchallenger, hfits, -, -, -, hage, -⟩ := hr
  have hfits := Rule.three_holds hfits
  obtain ⟨o, ho, hfits⟩ := bind_eq_ok.mp hfits
  cases o with
  | none => cases hfits
  | some action =>
    have hall := allOf_eq_true.mp hfits
    simp only [List.forall_mem_cons] at hall
    obtain ⟨-, htimes, -⟩ := hall
    obtain ⟨w, -, htimes⟩ := bind_eq_ok.mp htimes
    have htimes := Except.ok.inj htimes
    refine ⟨holds_of_isSome (Rule.one_holds hchallenger), ⟨action, holds_of_read ho⟩, number_eq ?_,
      number_eq (number_of_count hage), ?_⟩
    · split at htimes
      · rename_i a b ha hb
        exact isSome_of_filter (Option.isSome_iff_exists.mpr ⟨_, ha⟩)
      · cases htimes
    · have hlists := Except.ok.inj (Rule.two_holds hlists)
      rw [Bool.and_eq_true] at hlists
      cases hv : get d "required_dimensions" with
      | array items => exact ⟨items, rfl⟩
      | _ => rw [hv] at hlists; cases hlists.2

/-- What is read of an action can be read, its actor and its recipient
included. -/
theorem action_reads (h : actionShape.Holds d) :
    (∃ actor, plain (get d "actor") = some actor ∧ agentShape.Holds actor) ∧
    (∃ recipient, plain (get d "recipient") = some recipient ∧ agentShape.Holds recipient) ∧
    raw d "action_id" = .ok (rawOf d "action_id") ∧ raw d "asa_id" = .ok (rawOf d "asa_id") ∧
    number d "expires_at" = .ok (numberOf d "expires_at") := by
  have hr := h.rule
  simp only [actionShape, List.forall_mem_cons] at hr
  obtain ⟨-, hrecipient, hid, hasa, -, -, -, -, hactor, -, -, -, -, -, -, -, -, hexpires, -⟩ := hr
  exact ⟨holds_of_isSome (Rule.one_holds hactor), holds_of_isSome (Rule.one_holds hrecipient),
    raw_eq (raw_of_identifier hid), raw_eq (raw_of_identifier hasa), number_eq (number_of_count hexpires)⟩

theorem agent_reads (h : agentShape.Holds d) :
    raw d "organisation_root" = .ok (rawOf d "organisation_root") := by
  have hr := h.rule
  simp only [agentShape, List.forall_mem_cons] at hr
  exact raw_eq (raw_of_identifier hr.1)

end Schemas

/-! ## Digests of some members -/

/-- Members that are all there are all read. -/
theorem mapM_index {doc : Doc} {names : List String} (h : ∀ k ∈ names, index doc k = .ok (get doc k)) :
    names.mapM (fun k => do return (k, ← index doc k)) = (.ok (names.map fun k => (k, get doc k)) : Run _) := by
  induction names with
  | nil => rfl
  | cons k names ih =>
    rw [List.forall_mem_cons] at h
    rw [List.mapM_cons, h.1, ih h.2]
    rfl

/-- Some members of a canonical document have canonical bytes: each can be
emitted, and their names are distinct, so the map of them can be emitted as
well. The `unwrap` behind it never fails. -/
theorem namedDigest_safe {X : Crates} {v : C} {doc : Doc} {b domain : Bytes} {names : List String}
    (hv : canonical v = some b) (hplain : plain v = some doc) (hnames : ∀ k ∈ names, (doc.lookup k).isSome = true)
    (hkeys : (names.map writeText).Nodup) : ∃ digest, namedDigest X doc names domain = .ok (some digest) := by
  have hmember := canonical_member hv hplain
  have hsome : (writeValue cwtProfile (mapValue (names.map fun k => (k, get doc k))) 64).isSome = true := by
    refine writeValue_map_isSome (by decide) ?_ ?_
    · intro q hq
      obtain ⟨e, he, rfl⟩ := List.mem_map.mp hq
      obtain ⟨k, hk, rfl⟩ := List.mem_map.mp he
      obtain ⟨x, hx⟩ := Option.isSome_iff_exists.mp (hnames k hk)
      have hin := (lookup_eq_some_iff_mem (plain_eq_some.mp hplain).2).mp hx
      rw [get_of_lookup hx]
      exact hmember _ hin
    · rw [List.map_map, List.map_map]
      exact hkeys
  obtain ⟨c, hc⟩ := Option.isSome_iff_exists.mp hsome
  refine ⟨(X.sha256 (domain ++ c)).val, ?_⟩
  rw [namedDigest, mapM_index fun k hk => index_get (hnames k hk), ok_bind]
  have : canonical (mapValue (names.map fun k => (k, get doc k))) = some c := hc
  rw [this]
  rfl

/-- The digest over the selected members of a credential, for every credential
of its shape. -/
theorem selectedDigest_safe {X : Crates} {v : C} {doc : Doc} {b : Bytes} (hv : canonical v = some b)
    (hplain : plain v = some doc) (h : (credentialShape X).Holds doc) :
    ∃ digest, selectedDigest X doc = .ok (some digest) := by
  refine namedDigest_safe hv hplain (fun k hk => h.has k ?_) (by decide)
  have hsub : ∀ k ∈ proposalFields, k ∈ (credentialShape X).fields := by simp [proposalFields, credentialShape]
  exact hsub k hk

/-- The digest of the scope of an action exists, as its members are
canonical. -/
theorem actionScopeDigest_safe {X : Crates} {v : C} {doc : Doc} {b : Bytes} (hv : canonical v = some b)
    (hplain : plain v = some doc) (h : actionShape.Holds doc) :
    ∃ digest, actionScopeDigest X doc = .ok (some digest) := by
  refine namedDigest_safe hv hplain (fun k hk => h.has k ?_) (by decide)
  revert k
  decide

/-- The transcript is built from byte strings under fixed names, so it can be
emitted whatever the bytes are. -/
theorem transcript_canonical (X : Crates) (challenge challengeBytes actionBytes asa asaBytes : Bytes) :
    ∃ b, canonical (Evaluation.transcript X challenge challengeBytes actionBytes asa asaBytes) = some b := by
  have hkeys : (["schema", "challenge_envelope_hash", "challenge_digest", "action_digest", "asa_envelope_hash",
      "asa_digest"].map writeText).Nodup := by decide
  have hsome : (writeValue cwtProfile (Evaluation.transcript X challenge challengeBytes actionBytes asa asaBytes)
      64).isSome = true := by
    unfold Evaluation.transcript mapValue
    refine @writeValue_map_isSome cwtProfile _ 64 (by decide) ?_ hkeys
    simp only [List.map_cons, List.map_nil, List.forall_mem_cons, entry]
    simp [writeKey, writeValue]
  obtain ⟨b, hb⟩ := Option.isSome_iff_exists.mp hsome
  exact ⟨b, hb⟩

end SwarrmVerify.L4.Handshake
