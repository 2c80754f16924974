import SwarrmVerify.L1Encoding.Crates
import SwarrmVerify.L1Encoding.Text

/-!
# Trust anchors and timestamp tokens (`trust.rs`, `tsa.rs`)

What a relying party supplies out of band: keys by category and name, and PEM
roots for timestamp signers. A token must verify against the chain it carries
whatever the relying party trusts; supplied roots only decide whether it is
also trusted.

The path builder keeps a stack of certificates and, for each certificate, the
fewest CA certificates below it seen so far. It ends because a certificate is
either new or seen with a smaller count (`unseen_lt`, `counts_lt`): the pair of
these two measures decreases in lexicographic order. Whether it finds every
path is the subject of `L4Bundle.Paths`.

Here a token has been parsed, and which of its certificates verifies the
signature is given; `L4Bundle.Tokens` computes both from the bytes.

* `verifiedTst_time`: whether a token verifies, and its time, do not depend on
  the supplied roots.
-/
namespace SwarrmVerify.L4.Trust

/-! ## Anchors -/

def keyCategories : List String :=
  ["source_keys", "mac_keys", "evaluator_keys", "node_keys", "node_roots", "temporal_keys",
    "population_keys", "accountability_keys", "scitt_ts_keys", "log_keys", "recorder_keys", "tsa_roots"]

/-- Base64 that is the encoding of its bytes.
mirrors verify-rs/src/trust.rs:34-38 -/
def decodeB64 (X : Crates) (s : String) : Option Bytes :=
  (X.b64Decode s).filter fun raw => X.b64Encode raw == s

/-- Hex first, then base64. mirrors verify-rs/src/trust.rs:41-47 -/
def decodeMaterial (X : Crates) (v : Option Value) : Option Bytes := do
  let s ← v.bind Value.asStr
  if s == "" then none else hexToBytes s <|> decodeB64 X s

/-- The material of a key in a table of the trust context. Categories that are
not known have none.
mirrors verify-rs/src/trust.rs:51-57 -/
def keyFor (X : Crates) (trust : Option Value) (category : String) (name : Option String) : Option Bytes :=
  if !keyCategories.contains category then none
  else do
    let t ← trust
    let table ← t.get category
    let m ← table.asObject
    let n ← name
    decodeMaterial X (m.lookup n)

/-- `char::is_whitespace`: the Unicode property White_Space. -/
def whitespace (c : Char) : Bool :=
  let n := c.toNat
  (9 ≤ n && n ≤ 13) || n == 0x20 || n == 0x85 || n == 0xa0 || n == 0x1680 || (0x2000 ≤ n && n ≤ 0x200a) ||
    n == 0x2028 || n == 0x2029 || n == 0x202f || n == 0x205f || n == 0x3000

/-- The supplied PEM roots, joined; blank and non-string values are dropped.
mirrors verify-rs/src/trust.rs:62-66 -/
def tsaRootsPem (trust : Option Value) : Option String := do
  let t ← trust
  let table ← t.get "tsa_roots"
  let m ← table.asObject
  let pems := (m.filterMap fun e => e.2.asStr).filter fun s => !s.toList.all whitespace
  if pems.isEmpty then none else some ("\n".intercalate pems)

/-! ## Certificate paths -/

def oidSha256 : Oid := "2.16.840.1.101.3.4.2.1"
def oidKeyUsage : Oid := "2.5.29.15"
def oidSubjectAltName : Oid := "2.5.29.17"
def oidBasicConstraints : Oid := "2.5.29.19"
def oidNameConstraints : Oid := "2.5.29.30"
def oidExtendedKeyUsage : Oid := "2.5.29.37"
def oidIdKpTimeStamping : Oid := "1.3.6.1.5.5.7.3.8"

/-- The path length of a CA certificate; `none` if it is no CA.
mirrors verify-rs/src/tsa.rs:299-304 -/
def caConstraint (cert : Certificate) : Option (Option UInt8) :=
  match cert.basicConstraints, cert.keyCertSign with
  | some (ca, pathLen), some certSign => if ca && certSign then some pathLen else none
  | _, _ => none

/-- A certificate for time-stamping and nothing else, marked critical.
mirrors verify-rs/src/tsa.rs:308-311 -/
def isTimestampingSigner (cert : Certificate) : Bool :=
  cert.extendedKeyUsage == some (true, [oidIdKpTimeStamping])

/-- The time of a token is within the validity of a certificate.
mirrors verify-rs/src/tsa.rs:355-359 -/
def genTimeInValidity (genTime : GeneralizedTime) (cert : Certificate) : Bool :=
  decide (cert.notBefore ≤ genTime.unix) && decide (genTime.unix ≤ cert.notAfter)

/-- Only known critical extensions, and no name constraints. -/
def profileOk (cert : Certificate) : Bool :=
  cert.extensions.all fun exts => exts.all fun e =>
    e.1 != oidNameConstraints &&
      (!e.2 || e.1 == oidKeyUsage || e.1 == oidSubjectAltName || e.1 == oidBasicConstraints ||
        e.1 == oidExtendedKeyUsage)

/-- One step of a path: the issuer signs the subject and may do so, and with
roots of the trust context every limit is checked too.
mirrors verify-rs/src/tsa.rs:313-317 -/
def pathCandidateOk (X : Crates) (current issuer : Certificate) (tbs : Bytes) (supplied : Bool)
    (at_ : Option GeneralizedTime) (below : Nat) : Bool :=
  let constraint := if supplied then caConstraint issuer else some none
  (!supplied || profileOk current && profileOk issuer) && constraint.isSome &&
    (at_.all fun time => genTimeInValidity time issuer) &&
    (constraint.join.all fun limit => decide (below ≤ limit.toNat)) && X.certSigValid current issuer tbs

/-- Lexicographic `≤` on byte strings. -/
def bytesLe : Bytes → Bytes → Bool
  | [], _ => true
  | _ :: _, [] => false
  | a :: as, b :: bs => decide (a < b) || (a == b && bytesLe as bs)

/-- The certificates with a DER form, in increasing order of it. -/
def sortByDer {P : Certificate → Prop} (certs : List { c // P c }) : List { c // P c } :=
  (certs.filter fun c => c.1.der.isSome).insertionSort fun a b =>
    bytesLe (a.1.der.getD []) (b.1.der.getD []) = true

/-- How many of the certificates have not been seen. -/
def unseen (U : List Certificate) (seen : Bytes → Option Nat) : Nat :=
  (U.map fun c => if (seen (c.der.getD [])).isNone then 1 else 0).sum

/-- The counts recorded for the certificates, added up. -/
def counts (U : List Certificate) (seen : Bytes → Option Nat) : Nat :=
  (U.map fun c => (seen (c.der.getD [])).getD 0).sum

theorem unseen_lt {U : List Certificate} {seen : Bytes → Option Nat} {c : Certificate} {der : Bytes}
    (hc : c ∈ U) (hd : c.der = some der) (hs : seen der = none) (n : Nat) :
    unseen U (Function.update seen der (some n)) < unseen U seen := by
  unfold unseen
  refine List.sum_lt_sum _ _ ?_ ⟨c, hc, ?_⟩
  · intro x _
    by_cases hx : x.der.getD [] = der
    · simp [hx]
    · rw [Function.update_of_ne hx]
  · simp [hd, hs]

theorem counts_lt {U : List Certificate} {seen : Bytes → Option Nat} {c : Certificate} {der : Bytes}
    (hc : c ∈ U) (hd : c.der = some der) {b n : Nat} (hs : seen der = some b) (hn : n < b) :
    counts U (Function.update seen der (some n)) < counts U seen := by
  unfold counts
  refine List.sum_lt_sum _ _ ?_ ⟨c, hc, ?_⟩
  · intro x _
    by_cases hx : x.der.getD [] = der
    · simp [hx, hs]; omega
    · rw [Function.update_of_ne hx]
  · simp [hd, hs, hn]

theorem unseen_eq {U : List Certificate} {seen : Bytes → Option Nat} {der : Bytes} {b : Nat}
    (hs : seen der = some b) (n : Nat) : unseen U (Function.update seen der (some n)) = unseen U seen := by
  unfold unseen
  congr 1
  refine List.map_congr_left fun x _ => ?_
  by_cases hx : x.der.getD [] = der
  · simp [hx, hs]
  · rw [Function.update_of_ne hx]

/-- The loop of `walk_chain`; the head of the list is the top of the stack.
Issuers are tried in decreasing order of their DER form, so the smallest ends on
top.
mirrors verify-rs/src/tsa.rs:328-352 -/
def walkLoop (X : Crates) (U : List Certificate) (issuers : List { c // c ∈ U }) (supplied : Bool)
    (rootDers : List Bytes) (at_ : Option GeneralizedTime) :
    List ({ c // c ∈ U } × Nat) → (Bytes → Option Nat) → Bool
  | [], _ => false
  | (current, caBelow) :: rest, seen =>
    match _hd : current.1.der with
    | none => walkLoop X U issuers supplied rootDers at_ rest seen
    | some der =>
      if supplied && rootDers.contains der then true
      else if _hs : (seen der).any (fun best => decide (best ≤ caBelow)) = true then
        walkLoop X U issuers supplied rootDers at_ rest seen
      else
        let below := caBelow +
          if (caConstraint current.1).isSome && current.1.subject != current.1.issuer then 1 else 0
        match current.1.tbsDer with
        | none => false
        | some tbs =>
          let candidates := (sortByDer (issuers.filter fun c => c.1.subject == current.1.issuer)).reverse
          let accepted := candidates.filter fun c => pathCandidateOk X current.1 c.1 tbs supplied at_ below
          -- the carried chain ends at the first self-issued issuer
          if !supplied && accepted.any fun c => c.1.subject == c.1.issuer then true
          else
            walkLoop X U issuers supplied rootDers at_ (accepted.reverse.map (·, below) ++ rest)
              (Function.update seen der (some caBelow))
  termination_by stack seen => (unseen U seen, counts U seen, stack.length)
  decreasing_by
    · exact Prod.Lex.right _ (Prod.Lex.right _ (by simp))
    · exact Prod.Lex.right _ (Prod.Lex.right _ (by simp))
    · cases hb : seen der with
      | none => exact Prod.Lex.left _ _ (unseen_lt current.2 _hd hb caBelow)
      | some b =>
        rw [unseen_eq hb]
        have hlt : caBelow < b := by rw [hb] at _hs; simpa using _hs
        exact Prod.Lex.right _ (Prod.Lex.left _ _ (counts_lt current.2 _hd hb hlt))

/-- A search for a path from the signer to a root, over certificates that have
not been visited yet.
mirrors verify-rs/src/tsa.rs:323-353 -/
def walkChain (X : Crates) (signer : Certificate) (pool : List Certificate)
    (roots : Option (List Certificate)) (at_ : Option GeneralizedTime) : Bool :=
  let supplied := roots.isSome
  let rs := roots.getD []
  let U := signer :: (rs ++ pool)
  let issuers : List { c // c ∈ U } := (rs ++ pool).attach.map fun c => ⟨c.1, List.mem_cons_of_mem _ c.2⟩
  walkLoop X U issuers supplied (rs.filterMap (·.der)) at_ [(⟨signer, List.mem_cons_self⟩, 0)] fun _ => none

/-! ## Tokens -/

/-- The token's time, and whether a supplied root vouches for its signer.
mirrors verify-rs/src/tsa.rs:367-392 -/
def verifiedTst (X : Crates) (tokenDer : Bytes) (expectedDigestHex certChainPem : String)
    (rootsPem : Option String) : Option (GeneralizedTime × Bool) := do
  let tst ← X.parseToken tokenDer
  if tst.alg != oidSha256 || hex tst.digest != expectedDigestHex then none
  else
    let signer ← tst.signer
    let pool ← X.loadPemChain certChainPem
    let trusted := (rootsPem.bind X.loadPemChain).any fun roots =>
      isTimestampingSigner signer && walkChain X signer pool (some roots) (some tst.genTime)
    if !walkChain X signer pool none none then none
    else if genTimeInValidity tst.genTime signer then some (tst.genTime, trusted)
    else none

/-- Supplied roots decide only the trust bit. -/
theorem verifiedTst_time (X : Crates) (token : Bytes) (digest chain : String) (roots roots' : Option String) :
    (verifiedTst X token digest chain roots).map Prod.fst =
      (verifiedTst X token digest chain roots').map Prod.fst := by
  unfold verifiedTst
  cases X.parseToken token with
  | none => rfl
  | some tst =>
    simp only [Option.bind_eq_bind, Option.bind_some]
    split
    · rfl
    · cases tst.signer with
      | none => rfl
      | some signer =>
        cases X.loadPemChain chain with
        | none => rfl
        | some pool =>
          simp only [Option.bind_some]
          split
          · rfl
          · split <;> rfl

end SwarrmVerify.L4.Trust
