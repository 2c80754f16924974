import SwarrmVerify.Core.Search
import SwarrmVerify.L1Encoding.Reference
import SwarrmVerify.L4Bundle.Trust

/-!
# Certificate paths

The path builder of `tsa.rs` is a depth-first search over the certificates of a
token and the roots that are supplied. It skips a certificate that it expanded
before with no more CA certificates below, and it only answers whether a path
exists. Both are shortcuts: the second visit might have gone somewhere that the
first could not.

It could not have. An issuer's path length is an upper bound on the number of
intermediates below it, so fewer below allow the same issuers (`next_cheaper`).
The search is one over pairs of a certificate and that number, in which a
cheaper pair dominates, and `Core.Search` says that such a search is exact.

`Issues` says that one certificate may have issued another with so many
intermediates below: the names match, the signature verifies, the issuer is a
CA with room for them, and its validity has the time. `Path` is a list of such
links from the signer to a supplied root. Nothing is assumed of the pool, which
may hold cycles and cross-signed certificates, but that its certificates were
parsed (`Encodes`): they encode again, and are told apart by their encodings.

* `path_exact`: whatever the pool, the search ends, and it succeeds exactly if
  the signer is a root or a path leads from it to one.
* `crossSigned_walked`: a pool of two certificates that issued each other.
-/
namespace SwarrmVerify.L4.Paths
open Search Trust Relation

/-! ## Paths -/

/-- basicConstraints has cA and the given pathLen, and keyUsage has keyCertSign. -/
def IsCa (cert : Certificate) (pathLen : Option UInt8) : Prop :=
  cert.basicConstraints = some (true, pathLen) ∧ cert.keyCertSign = some true

/-- A CA certificate whose subject is not its issuer. -/
def Intermediate (cert : Certificate) : Prop := (∃ pathLen, IsCa cert pathLen) ∧ cert.subject ≠ cert.issuer

/-- `issuer` may have issued `cert`, with so many intermediates below it. -/
structure Issues (X : Crates) (supply : List Certificate) (time : GeneralizedTime) (cert issuer : Certificate)
    (below : Nat) : Prop where
  supplied : issuer ∈ supply
  subject : issuer.subject = cert.issuer
  signature : ∃ tbs, cert.tbsDer = some tbs ∧ X.certSigValid cert issuer tbs = true
  ca : ∃ pathLen, IsCa issuer pathLen ∧ ∀ n, pathLen = some n → below ≤ n.toNat
  profile : profileOk cert = true ∧ profileOk issuer = true
  validity : genTimeInValidity time issuer = true

theorem caConstraint_eq_some {cert : Certificate} {pathLen : Option UInt8} :
    caConstraint cert = some pathLen ↔ IsCa cert pathLen := by
  unfold caConstraint IsCa
  rcases cert.basicConstraints with _ | ⟨ca, limit⟩
  · simp
  cases cert.keyCertSign with
  | none => simp
  | some certSign => cases ca <;> cases certSign <;> simp

theorem caConstraint_isSome {cert : Certificate} :
    ((caConstraint cert).isSome && cert.subject != cert.issuer) = true ↔ Intermediate cert := by
  rw [Bool.and_eq_true, Option.isSome_iff_exists, bne_iff_ne]
  simp only [caConstraint_eq_some, Intermediate]

instance (cert : Certificate) : Decidable (Intermediate cert) := decidable_of_iff _ caConstraint_isSome

def intermediates (path : List Certificate) : Nat := path.countP fun c => decide (Intermediate c)

/-- Each certificate of a path may have issued the one before it, with the
intermediates before itself below. -/
def Links (X : Crates) (supply : List Certificate) (time : GeneralizedTime) (path : List Certificate) : Prop :=
  ∀ l c d r, path = l ++ c :: d :: r → Issues X supply time c d (intermediates (l ++ [c]))

/-- From the signer to a supplied root. -/
structure Path (X : Crates) (signer : Certificate) (pool roots : List Certificate) (time : GeneralizedTime)
    (path : List Certificate) : Prop where
  first : path.head? = some signer
  last : ∃ root ∈ roots, path.getLast? = some root
  links : Links X (roots ++ pool) time path

/-- Certificates that were parsed: they encode again, and are told apart by
their encodings. -/
structure Encodes (certs : List Certificate) : Prop where
  der : ∀ c ∈ certs, c.der.isSome = true
  tbs : ∀ c ∈ certs, c.tbsDer.isSome = true
  identity : ∀ c ∈ certs, ∀ d ∈ certs, c.der = d.der → c = d

/-! ## One step -/

theorem pathCandidateOk_iff {X : Crates} {cert issuer : Certificate} {tbs : Bytes} {time : GeneralizedTime}
    {below : Nat} :
    pathCandidateOk X cert issuer tbs true (some time) below = true ↔
      (profileOk cert = true ∧ profileOk issuer = true) ∧
        (∃ pathLen, IsCa issuer pathLen ∧ ∀ n, pathLen = some n → below ≤ n.toNat) ∧
        genTimeInValidity time issuer = true ∧ X.certSigValid cert issuer tbs = true := by
  unfold pathCandidateOk
  cases h : caConstraint issuer with
  | none =>
    have hno : ¬ ∃ pathLen, IsCa issuer pathLen ∧ ∀ n, pathLen = some n → below ≤ n.toNat := by
      intro ⟨pathLen, hca, _⟩
      rw [caConstraint_eq_some.mpr hca] at h
      cases h
    simp [hno]
  | some limit =>
    have hca := caConstraint_eq_some.mp h
    have hlimit : (∃ pathLen, IsCa issuer pathLen ∧ ∀ n, pathLen = some n → below ≤ n.toNat) ↔
        ∀ n, limit = some n → below ≤ n.toNat := by
      constructor
      · intro ⟨pathLen, hca', hle⟩
        rw [← caConstraint_eq_some, h, Option.some.injEq] at hca'
        rwa [hca']
      · exact fun hle => ⟨limit, hca, hle⟩
    rw [hlimit]
    cases limit <;> simp [and_assoc, and_left_comm, and_comm]

section
variable {X : Crates} {signer : Certificate} {pool roots : List Certificate} {time : GeneralizedTime}

/-- The certificates of a walk. -/
abbrev Supply (signer : Certificate) (pool roots : List Certificate) := { c // c ∈ signer :: (roots ++ pool) }

def key (c : Supply signer pool roots) : Bytes := c.1.der.getD []

/-- A certificate with the intermediates below it, and one that may have issued it. -/
def Next (X : Crates) (time : GeneralizedTime) (p q : Supply signer pool roots × Nat) : Prop :=
  Issues X (roots ++ pool) time p.1.1 q.1.1 q.2 ∧ q.2 = p.2 + if Intermediate p.1.1 then 1 else 0

def Supplied (c : Supply signer pool roots) : Prop := ∃ root ∈ roots, c.1.der = root.der

theorem Issues.mono {supply : List Certificate} {cert issuer : Certificate} {m n : Nat}
    (h : Issues X supply time cert issuer n) (hm : m ≤ n) : Issues X supply time cert issuer m := by
  obtain ⟨pathLen, hca, hle⟩ := h.ca
  exact { h with ca := ⟨pathLen, hca, fun k hk => le_trans hm (hle k hk)⟩ }

/-- Fewer intermediates below allow the same issuers. -/
theorem next_cheaper : Cheaper (@Next signer pool roots X time) := by
  intro x m n q hm h
  obtain ⟨hissues, hq⟩ := h
  dsimp only at hq
  have hle : (m + if Intermediate x.1 then 1 else 0) ≤ q.2 := by omega
  exact ⟨_, hle, hissues.mono hle, rfl⟩

theorem key_injective (h : Encodes (signer :: (roots ++ pool))) :
    Function.Injective (@key signer pool roots) := by
  intro c d hcd
  obtain ⟨der, hc⟩ := Option.isSome_iff_exists.mp (h.der c.1 c.2)
  obtain ⟨der', hd⟩ := Option.isSome_iff_exists.mp (h.der d.1 d.2)
  rw [key, key, hc, hd, Option.getD_some, Option.getD_some] at hcd
  exact Subtype.ext (h.identity c.1 c.2 d.1 d.2 (by rw [hc, hd, hcd]))

/-- The issuers of a walk, in the form `walkChain` gives them. -/
def issuers (signer : Certificate) (pool roots : List Certificate) : List (Supply signer pool roots) :=
  (roots ++ pool).attach.map fun c => ⟨c.1, List.mem_cons_of_mem _ c.2⟩

theorem mem_issuers {c : Supply signer pool roots} : c ∈ issuers signer pool roots ↔ c.1 ∈ roots ++ pool := by
  rw [issuers, List.mem_map]
  constructor
  · intro ⟨d, _, hd⟩
    rw [← hd]
    exact d.2
  · exact fun h => ⟨⟨c.1, h⟩, List.mem_attach _ _, rfl⟩

/-- What a turn pushes is what may come next. -/
theorem mem_pushed (h : Encodes (signer :: (roots ++ pool))) {c : Supply signer pool roots} {n below : Nat} {tbs : Bytes}
    (htbs : c.1.tbsDer = some tbs) (hbelow : below = n + if Intermediate c.1 then 1 else 0)
    (q : Supply signer pool roots × Nat) :
    q ∈ (((sortByDer ((issuers signer pool roots).filter fun d => d.1.subject == c.1.issuer)).reverse.filter fun d =>
      pathCandidateOk X c.1 d.1 tbs true (some time) below).reverse.map (·, below)) ↔ Next X time (c, n) q := by
  obtain ⟨d, m⟩ := q
  have hpushed : (∃ d' : Supply signer pool roots, (d' ∈ issuers signer pool roots ∧ d'.1.subject = c.1.issuer) ∧
      pathCandidateOk X c.1 d'.1 tbs true (some time) below = true ∧ (d', below) = (d, m)) ↔
      Next X time (c, n) (d, m) := by
    constructor
    · intro ⟨d', ⟨hd, hsubject⟩, hok, he⟩
      cases he
      obtain ⟨hprofile, hca, hvalid, hsig⟩ := pathCandidateOk_iff.mp hok
      exact ⟨⟨mem_issuers.mp hd, hsubject, ⟨tbs, htbs, hsig⟩, hca, hprofile, hvalid⟩, hbelow⟩
    · intro ⟨hissues, hm⟩
      obtain ⟨tbs', htbs', hsig⟩ := hissues.signature
      rw [htbs, Option.some.injEq] at htbs'
      subst htbs'
      have hmb : m = below := hm.trans hbelow.symm
      refine ⟨d, ⟨mem_issuers.mpr hissues.supplied, hissues.subject⟩, ?_, by rw [hmb]⟩
      exact pathCandidateOk_iff.mpr ⟨hissues.profile, hmb ▸ hissues.ca, hissues.validity, hsig⟩
  rw [← hpushed]
  simp only [List.mem_map, List.mem_reverse, List.mem_filter, sortByDer, List.mem_insertionSort, beq_iff_eq,
    h.der _ (Subtype.property _), and_true, and_assoc]

/-- The loop decides whether a supplied certificate can be reached. -/
theorem walkLoop_iff (h : Encodes (signer :: (roots ++ pool))) {start : Supply signer pool roots × Nat}
    (stack : List (Supply signer pool roots × Nat)) (seen : Bytes → Option Nat)
    (hclosed : Closed key (Next X time) Supplied start stack seen) :
    walkLoop X (signer :: (roots ++ pool)) (issuers signer pool roots) true (roots.filterMap (·.der)) (some time)
      stack seen = true ↔ ∃ q, ReflTransGen (Next X time) start q ∧ Supplied q.1 := by
  have hder : ∀ c : Supply signer pool roots, ∀ {der}, c.1.der = some der → key c = der := by
    intro c der hc
    rw [key, hc, Option.getD_some]
  have hsupplied : ∀ c : Supply signer pool roots, ∀ {der}, c.1.der = some der →
      ((true && (roots.filterMap (·.der)).contains der) = true ↔ Supplied c) := by
    intro c der hc
    rw [Bool.true_and, List.contains_iff_mem, List.mem_filterMap, Supplied, hc]
    exact exists_congr fun root => and_congr_right fun _ => eq_comm
  induction stack, seen using walkLoop.induct X (signer :: (roots ++ pool)) (issuers signer pool roots) true
    (roots.filterMap (·.der)) (some time) with
  | case1 seen =>
    rw [walkLoop]
    simp only [Bool.false_eq_true, false_iff, not_exists, not_and]
    exact fun q hq => hclosed.no_goal next_cheaper hq
  | case2 c n rest seen hnone =>
    have := h.der c.1 c.2
    rw [hnone] at this
    cases this
  | case3 c n rest seen der hc hgoal =>
    rw [walkLoop, hc]
    simp only [hgoal, if_true, true_iff]
    exact ⟨(c, n), hclosed.reached _ List.mem_cons_self, (hsupplied c hc).mp hgoal⟩
  | case4 c n rest seen der hc hgoal hseen ih =>
    rw [walkLoop, hc]
    simp only [hgoal, hseen, Bool.false_eq_true, if_false, dite_true]
    cases hb : seen der with
    | none =>
      rw [hb] at hseen
      cases hseen
    | some b =>
      rw [hb, Option.any_some, decide_eq_true_eq] at hseen
      exact ih (hclosed.skip (by rw [hder c hc, hb]) hseen)
  | case5 c n rest seen der hc hgoal hseen hnone =>
    have := h.tbs c.1 c.2
    rw [hnone] at this
    cases this
  | case6 c n rest seen der hc hgoal hseen below tbs htbs candidates accepted hself =>
    rw [Bool.not_true, Bool.false_and] at hself
    cases hself
  | case7 c n rest seen der hc hgoal hseen below tbs htbs candidates accepted hself ih =>
    have hcandidates : candidates =
        (sortByDer ((issuers signer pool roots).filter fun d => d.1.subject == c.1.issuer)).reverse := by
      simp only [candidates, List.unattach_filter, List.unattach_attach]
    have hbelow : below = n + if Intermediate c.1 then 1 else 0 := by
      simp only [below, dite_eq_ite, caConstraint_isSome]
    simp only [accepted, hcandidates] at ih
    have hbound : ∀ b, seen (key c) = some b → n ≤ b := by
      intro b hb
      rw [hder c hc] at hb
      rw [hb, Option.any_some, decide_eq_true_eq] at hseen
      omega
    have hnext := hclosed.expand (key_injective h) hbound (fun hs => hgoal ((hsupplied c hc).mpr hs))
      (mem_pushed h htbs hbelow)
    rw [hder c hc] at hnext
    refine Iff.trans ?_ (ih hnext)
    rw [walkLoop, hc]
    simp only [hgoal, hseen, htbs, Bool.not_true, Bool.false_and, Bool.false_eq_true, if_false, dite_false]
    simp only [caConstraint_isSome, ← hbelow]

/-! ## What is reached is a path -/

theorem intermediates_snoc (l : List Certificate) (c : Certificate) :
    intermediates (l ++ [c]) = intermediates l + if Intermediate c then 1 else 0 := by
  rw [intermediates, List.countP_append, List.countP_singleton, ← intermediates]
  simp only [decide_eq_true_eq]

theorem links_snoc {supply : List Certificate} {l : List Certificate} {c d : Certificate} :
    Links X supply time (l ++ [c, d]) ↔
      Links X supply time (l ++ [c]) ∧ Issues X supply time c d (intermediates (l ++ [c])) := by
  constructor
  · intro h
    refine ⟨?_, h l c d [] rfl⟩
    intro l' a b r hcut
    refine h l' a b (r ++ [d]) ?_
    rw [List.append_cons, hcut]
    simp
  · intro ⟨hlinks, hlast⟩ l' a b r hcut
    rcases List.eq_nil_or_concat r with rfl | ⟨r', x, rfl⟩
    · obtain ⟨rfl, hcd⟩ := List.append_inj' hcut rfl
      cases hcd
      exact hlast
    · have hcut' : (l ++ [c]) ++ [d] = (l' ++ a :: b :: r') ++ [x] := by simpa using hcut
      exact hlinks l' a b r' (List.append_inj' hcut' rfl).1

/-- The signer, before anything is below it. -/
def start (signer : Certificate) (pool roots : List Certificate) : Supply signer pool roots × Nat :=
  (⟨signer, List.mem_cons_self⟩, 0)

theorem reach_links {q : Supply signer pool roots × Nat}
    (h : ReflTransGen (Next X time) (start signer pool roots) q) :
    ∃ l, (l ++ [q.1.1]).head? = some signer ∧ Links X (roots ++ pool) time (l ++ [q.1.1]) ∧ q.2 = intermediates l := by
  induction h with
  | refl =>
    refine ⟨[], rfl, ?_, rfl⟩
    intro l c d r hcut
    have := congrArg List.length hcut
    simp only [List.length_append, List.length_cons, List.length_nil] at this
    omega
  | @tail p q _ hstep ih =>
    obtain ⟨l, hfirst, hlinks, hcount⟩ := ih
    obtain ⟨hissues, hq⟩ := hstep
    have hbelow : q.2 = intermediates (l ++ [p.1.1]) := by rw [hq, intermediates_snoc, hcount]
    refine ⟨l ++ [p.1.1], ?_, ?_, hbelow⟩
    · rw [List.head?_append, hfirst, Option.some_or]
    · rw [List.append_assoc]
      exact links_snoc.mpr ⟨hlinks, hbelow ▸ hissues⟩

theorem links_reach {l : List Certificate} : ∀ {c : Certificate}, (l ++ [c]).head? = some signer →
    Links X (roots ++ pool) time (l ++ [c]) → ∃ hc : c ∈ signer :: (roots ++ pool),
      ReflTransGen (Next X time) (start signer pool roots) (⟨c, hc⟩, intermediates l) := by
  induction l using List.reverseRecOn with
  | nil =>
    intro c hfirst _
    cases hfirst
    exact ⟨List.mem_cons_self, .refl⟩
  | append_singleton l b ih =>
    intro c hfirst hlinks
    rw [List.append_assoc] at hlinks
    obtain ⟨hbefore, hissues⟩ := links_snoc.mp hlinks
    have hsame : (l ++ [b]).head? = some signer := by
      rw [List.head?_append] at hfirst
      cases hl : (l ++ [b]).head? with
      | none => simp at hl
      | some a => rwa [hl, Option.some_or] at hfirst
    obtain ⟨hb, hreach⟩ := ih hsame hbefore
    exact ⟨List.mem_cons_of_mem _ hissues.supplied, hreach.tail ⟨hissues, intermediates_snoc l b⟩⟩

/-- **The path builder is exact**: whatever the pool, it ends, and finds a path
if there is one. -/
theorem path_exact (X : Crates) (signer : Certificate) (pool roots : List Certificate) (time : GeneralizedTime)
    (h : Encodes (signer :: (roots ++ pool))) :
    walkChain X signer pool (some roots) (some time) = true ↔
      (∃ root ∈ roots, signer.der = root.der) ∨ ∃ path, Path X signer pool roots time path := by
  have hwalk := @walkLoop_iff X signer pool roots time h _ [start signer pool roots] (fun _ => none) closed_init
  refine Iff.trans hwalk ?_
  constructor
  · intro ⟨q, hreach, root, hroot, hder⟩
    obtain ⟨l, hfirst, hlinks, -⟩ := reach_links hreach
    have hlast := h.identity q.1.1 q.1.2 root (List.mem_cons_of_mem _ (List.mem_append_left _ hroot)) hder
    exact .inr ⟨l ++ [q.1.1], hfirst, ⟨root, hroot, by rw [List.getLast?_concat, hlast]⟩, hlinks⟩
  · rintro (hroot | ⟨path, hpath⟩)
    · exact ⟨start signer pool roots, .refl, hroot⟩
    · obtain ⟨root, hroot, hlast⟩ := hpath.last
      obtain ⟨l, rfl⟩ := List.getLast?_eq_some_iff.mp hlast
      obtain ⟨hc, hreach⟩ := links_reach hpath.first hpath.links
      exact ⟨_, hreach, root, hroot, rfl⟩

end

/-! ## A cross-signed pool -/

/-- A CA certificate, or with `none` an end entity. -/
def issued (der : Bytes) (subject issuer : UInt8) (ca : Option (Option UInt8)) : Certificate where
  der := some der
  tbsDer := some der
  subject := [subject]
  issuer := [issuer]
  basicConstraints := ca.map fun pathLen => (true, pathLen)
  keyCertSign := ca.map fun _ => true
  extendedKeyUsage := none
  extensions := none
  notBefore := 0
  notAfter := 100

/-- 1 and 2 issued each other, and the root, which allows one certificate
below itself, issued 1 as well. -/
def crossSigned : List Certificate :=
  [issued [1, 2] 1 2 (some none), issued [2, 1] 2 1 (some none), issued [1, 3] 1 3 (some none)]

def ancestor : Certificate := issued [3, 3] 3 3 (some (some 1))

def signers : Crates := { L1.Reference.blank with certSigValid := fun cert issuer _ => cert.issuer == issuer.subject }

theorem crossSigned_walked :
    walkChain signers (issued [0, 1] 0 1 none) crossSigned (some [ancestor]) (some ⟨50, ""⟩) = true := by
  have hencodes : Encodes (issued [0, 1] 0 1 none :: ([ancestor] ++ crossSigned)) :=
    ⟨by decide, by decide, by decide⟩
  have hfirst : Issues signers ([ancestor] ++ crossSigned) ⟨50, ""⟩ (issued [0, 1] 0 1 none)
      (issued [1, 3] 1 3 (some none)) 0 :=
    ⟨by decide, rfl, ⟨_, rfl, rfl⟩, ⟨none, ⟨rfl, rfl⟩, nofun⟩, ⟨rfl, rfl⟩, rfl⟩
  have hsecond : Issues signers ([ancestor] ++ crossSigned) ⟨50, ""⟩ (issued [1, 3] 1 3 (some none)) ancestor 1 :=
    ⟨by decide, rfl, ⟨_, rfl, rfl⟩, ⟨some 1, ⟨rfl, rfl⟩, fun _ he => by cases he; decide⟩, ⟨rfl, rfl⟩, rfl⟩
  refine (path_exact signers _ crossSigned [ancestor] ⟨50, ""⟩ hencodes).mpr
    (.inr ⟨[issued [0, 1] 0 1 none, issued [1, 3] 1 3 (some none), ancestor], rfl, ⟨ancestor, by simp, rfl⟩, ?_⟩)
  have hone : Links signers ([ancestor] ++ crossSigned) ⟨50, ""⟩ ([] ++ [issued [0, 1] 0 1 none]) := by
    intro l c d r hcut
    have := congrArg List.length hcut
    simp only [List.length_append, List.length_cons, List.length_nil] at this
    omega
  exact @links_snoc _ _ _ [issued [0, 1] 0 1 none] _ _ |>.mpr ⟨links_snoc.mpr ⟨hone, hfirst⟩, hsecond⟩

end SwarrmVerify.L4.Paths
