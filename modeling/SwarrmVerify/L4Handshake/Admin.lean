import SwarrmVerify.L4Handshake.Envelopes

/-!
# The administrator's assertion (`b28.rs`)

An administrator selects a template for an agent with a WebAuthn assertion. The
client data names the challenge and the origin, the authenticator data holds a
hash of the relying party's name, flags and a counter, and a P-256 signature
covers both. All three are bytes of somebody else's format, and the code takes
them apart by position.

Each function of the source has its own definition, with every index and slice
as an operation that can fail; the scanner for repeated keys is a loop on an
index with a depth. The counter must grow, or stay at zero for an authenticator
that does not count.

**Results.**
* `jsonStringEnd_safe`, `keysFrom_safe`, `strictClientJson_yields`: no client
  data makes the scanners panic.
* `adminContext_returns`, `adminFlags_spec`, `adminP256Key_yields`: the parts
  of the assertion.
* `verifyAdmin_spec`: the assertion is checked without a panic, and what an
  accepted one shows of its binding (`Asserted`): the challenge, the origin,
  the flags, the counter, and a signature under the key that is bound.
-/
namespace SwarrmVerify.L4.Handshake
open Panics

/-! ## Client data -/

/-- The quote that ends a string, from a place inside it. The result is no
earlier, so that the scan goes forward. -/
def closingQuote (raw : Bytes) (i : Nat) : Run { j : Nat // i ≤ j } :=
  if i < raw.length then do
    let b ← item raw i
    if b == 34 then return ⟨i, le_refl i⟩
    -- an escaped byte is passed over
    else if b == 92 then return ⟨_, le_trans (Nat.le_add_right i 2) (← closingQuote raw (i + 2)).property⟩
    else return ⟨_, le_trans (Nat.le_add_right i 1) (← closingQuote raw (i + 1)).property⟩
  else return ⟨i, le_refl i⟩
termination_by raw.length - i

/-- The place behind the closing quote, if there is one.
mirrors verify-rs/src/b28.rs:562-568 -/
def jsonStringEnd (raw : Bytes) (i : Nat) : Run (Option { j : Nat // i < j }) := do
  let j ← closingQuote raw (i + 1)
  return if j < raw.length then some ⟨j + 1, by have := j.property; omega⟩ else none

def asciiWhitespace (b : UInt8) : Bool := b == 9 || b == 10 || b == 12 || b == 13 || b == 32

/-- The first byte that is not white space, from a place on: a colon there makes
a string a key. -/
def lookAhead (raw : Bytes) (i : Nat) : Option UInt8 := (raw.drop i).dropWhile asciiWhitespace |>.head?

/-- A JSON string, unescaped, so that two spellings of one key are one key. -/
def jsonString (X : Crates) (raw : Bytes) : Option String :=
  match X.fromSlice raw with
  | some (.string s) => some s
  | _ => none

/-- The keys of the outermost object, from a place on at a depth. No key may
repeat.
mirrors verify-rs/src/b28.rs:569-599 -/
def keysFrom (X : Crates) (raw : Bytes) (i : Nat) (depth : Int) (keys : List String) : Run (Option (List String)) :=
  if i < raw.length then do
    let b ← item raw i
    if b == 123 || b == 91 then keysFrom X raw (i + 1) (depth + 1) keys
    else if b == 125 || b == 93 then keysFrom X raw (i + 1) (depth - 1) keys
    else if b == 34 then
      match ← jsonStringEnd raw i with
      | none => return none
      | some j =>
        if depth == 1 && lookAhead raw j == some 58 then
          match jsonString X ((raw.take j).drop i) with
          | none => return none
          | some key => if keys.contains key then return none else keysFrom X raw j depth (key :: keys)
        else keysFrom X raw j depth keys
    else keysFrom X raw (i + 1) depth keys
  else return some keys
termination_by raw.length - i

def topLevelJsonKeys (X : Crates) (raw : Bytes) : Run (Option (List String)) := keysFrom X raw 0 0 []

/-- The client data: exactly the members that are read, each once in the bytes.
mirrors verify-rs/src/b28.rs:600-604 -/
def strictClientJson (X : Crates) (raw : Bytes) : Attempt (List (String × Value)) := do
  match X.fromSlice raw with
  | some (.object object) =>
    if object.length == 4 && ["type", "challenge", "origin", "crossOrigin"].all fun k => (object.lookup k).isSome then
      let keys ← OptionT.mk (topLevelJsonKeys X raw)
      if keys.length == 4 then pure object else failure
    else failure
  | _ => failure

/-! ## The binding -/

/-- A label of a host name, in lower case. -/
def hostLabel (part : Bytes) : Bool :=
  !part.isEmpty && part.length ≤ 63 && part.head? != some 45 && part.getLast? != some 45 &&
    part.all fun b => asciiLower b || asciiDigit b || b == 45

/-- The origin of the relying party: its host under https, with at most a slash
behind it.
mirrors verify-rs/src/b28.rs:606-609 -/
def canonicalOrigin (origin rpId : String) : Bool :=
  rpId != "" && (utf8 rpId).all (· < 128) && ((utf8 rpId).splitOn 46).all hostLabel &&
    (stripPrefix origin "https://").any fun host => host == utf8 rpId || host == utf8 rpId ++ [47]

/-- `a ≤ now && now < b` for two numbers that are there. -/
def within (start stop : C) (now : Nat) : Bool :=
  match uint start, uint stop with
  | some a, some b => a ≤ now && now < b
  | _, _ => false

/-- Two members are equal. Either one missing is a panic, so it is asked of
documents whose schema has both. -/
def same (d : Doc) (j : String) (e : Doc) (k : String) : Run Bool := do return eqv (← index d j) (← index e k)

/-- The clock is in the window of two members. -/
def live (d : Doc) (start stop : String) (now : Nat) : Run Bool := do
  return within (← index d start) (← index d stop) now

/-- The binding is one of a registrar, is live, and is the one that the
selection names.
mirrors verify-rs/src/b28.rs:611-614 -/
def adminContext (admin picked : Doc) (now : Nat) : Run Bool :=
  eager [do return text (← index admin "role") == some "agent-registrar", live admin "valid_from" "valid_to" now,
    same picked "tenant" admin "tenant", same picked "binding_id" admin "binding_id",
    same picked "credential_id" admin "credential_id",
    do
      let selectedAt := uint (← index picked "selected_at")
      let validFrom := uint (← index admin "valid_from")
      -- nothing is before every time
      return selectedAt.any fun t => validFrom.all (· ≤ t) && decide (t ≤ now)]

def isString (v : Option Value) (s : String) : Bool :=
  match v with
  | some (.string t) => t == s
  | _ => false

def isFalse (v : Option Value) : Bool :=
  match v with
  | some (.bool b) => !b
  | _ => false

/-- The client data answers the challenge of the selection, at the origin of the
relying party.
mirrors verify-rs/src/b28.rs:615-623 -/
def clientBinding (X : Crates) (client : List (String × Value)) (auth : Bytes) (admin picked : Doc) (origin : String) :
    Run Bool :=
  if auth.length ≠ 37 then return false
  else do
    match bytes (← index picked "challenge"), text (← index admin "rp_id") with
    | some challenge, some rpId =>
      eager [pure (isString (client.lookup "type") "webauthn.get"),
        pure (isString (client.lookup "challenge") (X.b64urlEncode challenge)),
        pure (isString (client.lookup "origin") origin), pure (isFalse (client.lookup "crossOrigin")),
        do return (← sliceOf auth 0 32) == (X.sha256 (utf8 rpId)).val]
    | _, _ => return false

/-- What an authenticator says of its counter and its backup, before and after
the assertion.
mirrors verify-rs/src/b28.rs:448-453 -/
structure CounterState where
  before : Nat
  after : Nat
  backupEligible : Bool
  backupState : Bool
  deriving DecidableEq

/-- The flags of an authenticator and its counter, which must progress. Flags
that are not known are refused.
mirrors verify-rs/src/b28.rs:627-636 -/
def adminFlags (auth : Bytes) (previous : Nat) : Option (Bool × Bool × Nat) := do
  let flags ← auth[32]?
  let eligible := flags &&& 0x08 != 0
  let state := flags &&& 0x10 != 0
  if flags &&& ~~~ 0x1d != 0 || flags &&& 0x05 != 0x05 || (state && !eligible) then none
  else if auth.length < 37 then none
  else
    let counter := Cbor.beNat ((auth.take 37).drop 33)
    if counterProgresses previous counter then some (eligible, state, counter) else none

/-- The key of a binding, from its COSE map: a point on P-256, with no other
members.
mirrors verify-rs/src/b28.rs:637-648 -/
def adminP256Key (H : Host) (admin : Doc) : Attempt Bytes := do
  let raw ← member admin "cose_public_key" bytes
  let value ← OptionT.mk (pure (decode H raw 256))
  match value with
  | .map cose =>
    let x ← OptionT.mk (pure ((integer cose (-2)).bind bytes))
    let y ← OptionT.mk (pure ((integer cose (-3)).bind bytes))
    if cose.length == 5 && isInteger (integer cose 1) 2 && isInteger (integer cose 3) (-7) &&
        isInteger (integer cose (-1)) 1 && x.length == 32 && y.length == 32 then
      OptionT.mk (pure (H.p256Key (4 :: (x ++ y))))
    else failure
  | _ => failure

/-- An assertion of an administrator: the context, the client data, the flags
and last the signature.
mirrors verify-rs/src/b28.rs:649-668 -/
def verifyAdmin (H : Host) (admin : Doc) (selection : C) (origin : String) (previous now : Nat) :
    Attempt CounterState := do
  let picked ← OptionT.mk (pure (plain selection))
  let inContext ← adminContext admin picked now
  let rpId ← member admin "rp_id" fun v => some ((text v).getD "")
  if inContext && canonicalOrigin origin rpId then
    let clientRaw ← member picked "client_data_json" bytes
    let auth ← member picked "authenticator_data" bytes
    let signature ← member picked "signature" bytes
    let client ← strictClientJson H.toCrates clientRaw
    let bound ← clientBinding H.toCrates client auth admin picked origin
    if bound then
      let (eligible, state, counter) ← OptionT.mk (pure (adminFlags auth previous))
      let sig ← OptionT.mk (pure (H.p256Signature signature))
      if H.normalizeS sig == sig then
        let key ← adminP256Key H admin
        if H.p256Verify key (auth ++ (H.sha256 clientRaw).val) sig then pure ⟨previous, counter, eligible, state⟩
        else failure
      else failure
    else failure
  else failure

/-! ## No assertion panics -/

theorem closingQuote_safe (raw : Bytes) (i : Nat) : Safe (closingQuote raw i) := by
  induction hn : raw.length - i using Nat.strong_induction_on generalizing i with
  | _ n ih =>
    rw [closingQuote]
    split
    · rename_i hi
      refine (item_safe hi).bind fun b _ => ?_
      split
      · exact safe_pure _
      · split
        · exact (ih _ (by omega) (i + 2) rfl).bind fun _ _ => safe_pure _
        · exact (ih _ (by omega) (i + 1) rfl).bind fun _ _ => safe_pure _
    · exact safe_pure _

theorem jsonStringEnd_safe (raw : Bytes) (i : Nat) : Safe (jsonStringEnd raw i) :=
  (closingQuote_safe raw (i + 1)).bind fun _ _ => safe_pure _

theorem keysFrom_safe (X : Crates) (raw : Bytes) (i : Nat) (depth : Int) (keys : List String) :
    Safe (keysFrom X raw i depth keys) := by
  induction hn : raw.length - i using Nat.strong_induction_on generalizing i depth keys with
  | _ n ih =>
    rw [keysFrom]
    split
    · rename_i hi
      refine (item_safe hi).bind fun b _ => ?_
      have hnext : ∀ depth, Safe (keysFrom X raw (i + 1) depth keys) := fun depth =>
        ih _ (by omega) (i + 1) depth keys rfl
      split
      · exact hnext _
      · split
        · exact hnext _
        · split
          · refine (jsonStringEnd_safe raw i).bind fun o _ => ?_
            cases o with
            | none => exact safe_pure _
            | some j =>
              have hj := j.property
              have hrest : ∀ keys, Safe (keysFrom X raw j depth keys) := fun keys =>
                ih _ (by omega) j depth keys rfl
              dsimp only
              split
              · split
                · exact safe_pure _
                · split
                  · exact safe_pure _
                  · exact hrest _
              · exact hrest _
          · exact hnext _
    · exact safe_pure _

theorem strictClientJson_yields (X : Crates) (raw : Bytes) : Yields (strictClientJson X raw) fun _ => True := by
  unfold strictClientJson
  split
  · refine Yields.ite fun _ => ?_
    refine (Yields.mk ((keysFrom_safe X raw 0 0 []).returns.mono fun _ _ _ _ => trivial)).bind
      (P := fun _ => True) fun keys _ => ?_
    exact Yields.ite fun _ => Yields.pure trivial
  · exact Yields.none

theorem clientBinding_safe {X : Crates} {client : List (String × Value)} {auth : Bytes} {admin picked : Doc}
    {origin : String} (hchallenge : (picked.lookup "challenge").isSome = true)
    (hrp : (admin.lookup "rp_id").isSome = true) : Safe (clientBinding X client auth admin picked origin) := by
  unfold clientBinding
  split
  · exact safe_pure _
  · rename_i hlen
    refine (index_safe hchallenge).bind fun c _ => (index_safe hrp).bind fun r _ => ?_
    split
    · refine (eager_returns ?_).safe
      simp only [List.forall_mem_cons]
      refine ⟨safe_pure _, safe_pure _, safe_pure _, safe_pure _, ?_, List.forall_mem_nil _⟩
      rw [sliceOf_of_le (by omega) (by omega)]
      exact safe_pure _
    · exact safe_pure _

/-- What an accepted assertion shows, in terms of the two documents. -/
structure Asserted (H : Host) (admin picked : Doc) (origin : String) (now : Nat) (state : CounterState) : Prop where
  role : text (get admin "role") = some "agent-registrar"
  live : within (get admin "valid_from") (get admin "valid_to") now = true
  tenant : eqv (get picked "tenant") (get admin "tenant") = true
  binding : eqv (get picked "binding_id") (get admin "binding_id") = true
  credential : eqv (get picked "credential_id") (get admin "credential_id") = true
  origin : canonicalOrigin origin ((text (get admin "rp_id")).getD "") = true
  counter : counterProgresses state.before state.after = true
  signed : ∃ client auth raw sig key, bytes (get picked "client_data_json") = some client ∧
    bytes (get picked "authenticator_data") = some auth ∧ bytes (get picked "signature") = some raw ∧
    H.p256Signature raw = some sig ∧ (adminP256Key H admin).run = .ok (some key) ∧
    H.p256Verify key (auth ++ (H.sha256 client).val) sig = true

theorem adminContext_returns {admin picked : Doc} {now : Nat} (ha : adminBindingShape.Holds admin)
    (hp : selectionShape.Holds picked) :
    Returns (adminContext admin picked now) fun b => b = true → text (get admin "role") = some "agent-registrar" ∧
      within (get admin "valid_from") (get admin "valid_to") now = true ∧
      eqv (get picked "tenant") (get admin "tenant") = true ∧
      eqv (get picked "binding_id") (get admin "binding_id") = true ∧
      eqv (get picked "credential_id") (get admin "credential_id") = true := by
  have hadmin := ha.index
  have hpicked := hp.index
  simp only [adminBindingShape, List.forall_mem_cons] at hadmin
  simp only [selectionShape, List.forall_mem_cons] at hpicked
  simp only [adminContext, Handshake.live, same, hadmin, hpicked, eager, ok_bind, run_pure, returns_ok,
    Bool.and_eq_true, beq_iff_eq]
  intro h
  exact ⟨h.1, h.2.1, h.2.2.1, h.2.2.2.1, h.2.2.2.2.1⟩

theorem adminFlags_spec {auth : Bytes} {previous : Nat} {eligible state : Bool} {counter : Nat}
    (h : adminFlags auth previous = some (eligible, state, counter)) : counterProgresses previous counter = true := by
  simp only [adminFlags, Option.bind_eq_bind, Option.bind_eq_some_iff] at h
  obtain ⟨flags, -, h⟩ := h
  split at h
  · cases h
  · split at h
    · cases h
    · split at h
      · rename_i hc
        cases h
        exact hc
      · cases h

theorem adminP256Key_yields {H : Host} {admin : Doc} (h : (admin.lookup "cose_public_key").isSome = true) :
    Yields (adminP256Key H admin) fun key => (adminP256Key H admin).run = .ok (some key) := by
  have hsafe : Yields (adminP256Key H admin) fun _ => True := by
    refine (Yields.member h).bind fun raw _ => Yields.of.bind fun v _ => ?_
    cases v with
    | map cose =>
      refine Yields.of.bind fun x _ => Yields.of.bind fun y _ => Yields.ite fun _ => ?_
      exact Yields.of.mono fun _ _ => trivial
    | _ => exact Yields.none
  obtain ⟨o, ho, -⟩ := hsafe
  exact ⟨o, ho, fun key hkey => by rw [ho, hkey]⟩

theorem verifyAdmin_spec {H : Host} {admin picked : Doc} {selection : C} {origin : String} {previous now : Nat}
    (hplain : plain selection = some picked) (ha : adminBindingShape.Holds admin) (hp : selectionShape.Holds picked) :
    Yields (verifyAdmin H admin selection origin previous now) fun state =>
      state.before = previous ∧ Asserted H admin picked origin now state := by
  have hget : ∀ k ∈ selectionShape.fields, picked.lookup k = some (get picked k) := fun k hk =>
    index_eq_ok.mp (hp.index k hk)
  unfold verifyAdmin
  refine Yields.of.bind fun d hd => ?_
  cases hplain.symm.trans hd
  refine Yields.lift (adminContext_returns ha hp) fun inContext hcontext => ?_
  refine (Yields.member (ha.has "rp_id" (by decide))).bind fun rpId hrp => Yields.ite fun hok => ?_
  rw [Bool.and_eq_true] at hok
  obtain ⟨hrole, hlive, htenant, hbinding, hcredential⟩ := hcontext hok.1
  refine (Yields.member (hp.has "client_data_json" (by decide))).bind fun client hclient => ?_
  refine (Yields.member (hp.has "authenticator_data" (by decide))).bind fun auth hauth => ?_
  refine (Yields.member (hp.has "signature" (by decide))).bind fun raw hraw => ?_
  refine (strictClientJson_yields _ _).bind fun object _ => ?_
  refine Yields.lift (clientBinding_safe (hp.has "challenge" (by decide)) (ha.has "rp_id" (by decide))).returns
    fun bound _ => Yields.ite fun _ => ?_
  refine Yields.of.bind fun flags hflags => Yields.of.bind fun sig hsig => Yields.ite fun _ => ?_
  refine (adminP256Key_yields (ha.has "cose_public_key" (by decide))).bind fun key hkey => Yields.ite fun hverify => ?_
  refine Yields.pure ⟨rfl, ⟨hrole, hlive, htenant, hbinding, hcredential, ?_, adminFlags_spec hflags, ?_⟩⟩
  · rw [index_eq_ok.mp (ha.index "rp_id" (by decide)), Option.bind_some] at hrp
    rw [Option.some.inj hrp]
    exact hok.2
  · rw [hget _ (by decide), Option.bind_some] at hclient hauth hraw
    exact ⟨client, auth, raw, sig, key, hclient, hauth, hraw, hsig, hkey, hverify⟩

end SwarrmVerify.L4.Handshake
