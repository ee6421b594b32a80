import IriumConsensus.Settlement.ReleaseSound

namespace IriumConsensus

open ByteCodec Checks

/-- Two searches through one list end at the same element, or at two of which the one that stands first was passed
over by the other search. -/
theorem find?_find?_order {α : Type} {R : α → α → Prop} {xs : List α} {p q : α → Bool} {x y : α} (h : xs.Pairwise R)
    (hx : xs.find? p = some x) (hy : xs.find? q = some y) :
    x = y ∨ (R y x ∧ p y = false) ∨ (R x y ∧ q x = false) := by
  induction xs with
  | nil => exact absurd hx (by simp)
  | cons a xs ih =>
    obtain ⟨hall, hrest⟩ := List.pairwise_cons.mp h
    rw [List.find?_cons] at hx hy
    cases hp : p a with
    | true =>
      obtain rfl : a = x := by simpa [hp] using hx
      cases hq : q a with
      | true => exact .inl (by simpa [hq] using hy)
      | false =>
        rw [hq] at hy
        exact .inr (.inr ⟨hall y (List.mem_of_find?_eq_some hy), rfl⟩)
    | false =>
      rw [hp] at hx
      cases hq : q a with
      | true =>
        obtain rfl : a = y := by simpa [hq] using hy
        exact .inr (.inl ⟨hall x (List.mem_of_find?_eq_some hx), hp⟩)
      | false =>
        rw [hq] at hy
        exact ih hrest hx hy

section

variable {rules : List NoResponseRule} {r : NoResponseRule} {tipHeight deadline : Nat} {proofs : List SettlementProof}
  {ids : List String} {reqs : List ProofRequirement} {req : ProofRequirement}

def Leads (rules : List NoResponseRule) (r : NoResponseRule) : Prop :=
  ∃ earlier later, rules = earlier ++ r :: later ∧ ∀ e ∈ earlier, r.deadlineHeight < e.deadlineHeight

theorem firedRule_due (h : firedRule rules tipHeight = some r) : r.deadlineHeight ≤ tipHeight := by
  have hfired := List.find?_some h
  exact of_decide_eq_true hfired

theorem firedRule_leads (h : firedRule rules tipHeight = some r) : Leads rules r := by
  obtain ⟨-, earlier, later, heq, hlater⟩ := List.find?_eq_some_iff_append.mp h
  refine ⟨earlier, later, heq, fun e he => ?_⟩
  have hdue := firedRule_due h
  have hnot := hlater e he
  simp only [Bool.not_eq_true', decide_eq_false_iff_not] at hnot
  omega

theorem Leads.mem (h : Leads rules r) : r ∈ rules := by
  obtain ⟨earlier, later, rfl, -⟩ := h
  simp

theorem firedRule_eq_none : firedRule rules tipHeight = none ↔ ∀ r ∈ rules, tipHeight < r.deadlineHeight := by
  simp [firedRule]

theorem missedDeadline_due (h : missedDeadline proofs ids tipHeight reqs = some (req, deadline)) :
    req ∈ reqs ∧ req.requiredBy = some deadline ∧ deadline ≤ tipHeight := by
  induction reqs with
  | nil => exact absurd h (by simp [missedDeadline])
  | cons req' rest ih =>
    rw [missedDeadline] at h
    split at h
    next d hd =>
      split at h
      next hdue =>
        obtain ⟨rfl, rfl⟩ := Prod.mk.inj (Option.some.inj h)
        rw [Bool.and_eq_true, decide_eq_true_eq] at hdue
        exact ⟨List.mem_cons_self, hd, hdue.1⟩
      next =>
        obtain ⟨hmem, hrest⟩ := ih h
        exact ⟨List.mem_cons_of_mem _ hmem, hrest⟩
    next =>
      obtain ⟨hmem, hrest⟩ := ih h
      exact ⟨List.mem_cons_of_mem _ hmem, hrest⟩

theorem missedDeadline_eq_none (h : missedDeadline proofs ids tipHeight reqs = none) (hreq : req ∈ reqs)
    (hby : req.requiredBy = some deadline) (hdue : deadline ≤ tipHeight) :
    reqSatisfiedThreshold req proofs ids := by
  induction reqs with
  | nil => exact absurd hreq List.not_mem_nil
  | cons req' rest ih =>
    rw [missedDeadline] at h
    rcases List.mem_cons.mp hreq with rfl | hrest
    · by_contra hnot
      rw [Bool.not_eq_true] at hnot
      simp [hby, hdue, hnot] at h
    · refine ih ?_ hrest
      split at h
      next =>
        split at h
        next => exact absurd h (by simp)
        next => exact h
      next => exact h

end

section

variable (policy : ProofPolicy) (c c' : Clause)

/-- As many of the listed attestors are approved as the requirement asks for. -/
def ProofRequirement.Fillable (req : ProofRequirement) : Prop :=
  req.quota ≤ (req.requiredAttestorIds.filter fun id => policy.attestors.any fun a => a.attestorId = id).toFinset.card

def Clause.Fillable : Prop := c.releaseReqs ≠ [] ∧ ∀ req ∈ c.releaseReqs, req.Fillable policy

/-- A refund requirement that falls due before every rule. -/
structure Clause.Misses (req : ProofRequirement) (deadline : Nat) : Prop where
  mem : req ∈ c.refundReqs
  due : req.requiredBy = some deadline
  uncovered : ∀ r ∈ c.rules, deadline < r.deadlineHeight

def Clause.ReleasesAt (deadline : Nat) : Prop :=
  ∃ r, Leads c.rules r ∧ r.resolution.releases ∧ r.deadlineHeight = deadline

def Clause.RefundsAt (deadline : Nat) : Prop :=
  (∃ r, Leads c.rules r ∧ r.resolution.releases = false ∧ r.deadlineHeight = deadline) ∨ ∃ req, c.Misses req deadline

/-- A clause times out one way only, the refund of a rule cuts off late proofs where proofs can release, and no
requirement is missed before every rule where the proofs can release the whole policy. -/
structure Clause.Steady : Prop where
  oneWay : ∀ d d', c.RefundsAt d → ¬c.ReleasesAt d'
  guarded : c.Fillable policy → ∀ r, Leads c.rules r → r.resolution.releases = false →
    ∃ k ∈ c.cutoff, k ≤ r.deadlineHeight
  missed : (∀ c' ∈ policy.clauses, c'.Fillable policy) → ∀ req d, ¬c.Misses req d

/-- Of two clauses that time out differently the first does so no later than the second, and stays as it is: it does
not release on proofs, nor is a requirement that it missed met after all. -/
structure Clause.Precedes : Prop where
  released : ∀ d d', c.ReleasesAt d → c'.RefundsAt d' → d ≤ d' ∧ ¬c.Fillable policy
  refunded : ∀ d d', c.RefundsAt d → c'.ReleasesAt d' →
    d ≤ d' ∧ ∀ req, c.Misses req d → ¬c.Fillable policy ∧ ¬req.Fillable policy

structure ProofPolicy.Steady : Prop where
  clauses : ∀ c ∈ policy.clauses, c.Steady policy
  order : policy.clauses.Pairwise (Clause.Precedes policy)

end

/-- Proofs are added, all of them attested after `t`. -/
structure ProofsGrown (t : Nat) (proofs proofs' : List SettlementProof) : Prop where
  kept : ∀ p ∈ proofs, p ∈ proofs'
  late : ∀ p ∈ proofs', p ∉ proofs → t < p.attestationTime

section

variable {C : Crypto} {agreementHash : String} {policy : ProofPolicy} {proofs proofs' : List SettlementProof}
  {c : Clause} {t : Nat}

theorem satisfiedIds_grown (h : ∀ p ∈ proofs, p ∈ proofs') {id : String}
    (hid : id ∈ satisfiedIds C agreementHash policy proofs) : id ∈ satisfiedIds C agreementHash policy proofs' := by
  obtain ⟨p, hp, hver, rfl⟩ := mem_satisfiedIds.mp hid
  exact mem_satisfiedIds.mpr ⟨p, h p hp, hver, rfl⟩

theorem Clause.Met.grown (h : ∀ p ∈ proofs, p ∈ proofs')
    (hmet : c.Met proofs (satisfiedIds C agreementHash policy proofs)) :
    c.Met proofs' (satisfiedIds C agreementHash policy proofs') := by
  refine ⟨hmet.1, fun req hreq => reqSatisfiedThreshold_mono ?_ (hmet.2 req hreq)⟩
  intro p hp hid hnames
  obtain ⟨hmem, htime⟩ := mem_timelyIds.mp hid
  refine ⟨p, h p hp, mem_timelyIds.mpr ⟨satisfiedIds_grown h hmem, fun k hk => ?_⟩, hnames, rfl⟩
  obtain ⟨q, hq, hq'⟩ := htime k hk
  exact ⟨q, h q hq, hq'⟩

theorem Clause.Met.of_grown (h : ProofsGrown t proofs proofs')
    (hids : ∀ p ∈ proofs', ∀ q ∈ proofs', p.proofId = q.proofId → p = q) {k : Nat} (hk : k ∈ c.cutoff) (hkt : k ≤ t)
    (hmet : c.Met proofs' (satisfiedIds C agreementHash policy proofs')) :
    c.Met proofs (satisfiedIds C agreementHash policy proofs) := by
  refine ⟨hmet.1, fun req hreq => reqSatisfiedThreshold_mono ?_ (hmet.2 req hreq)⟩
  intro p hp hid hnames
  obtain ⟨hmem, htime⟩ := mem_timelyIds.mp hid
  obtain ⟨q, hq, hver, hqid⟩ := mem_satisfiedIds.mp hmem
  have hqp : q = p := hids q hq p hp hqid
  subst hqp
  have hold : q ∈ proofs ∧ q.attestationTime ≤ k := by
    obtain ⟨e, he, heid, hek⟩ := htime k hk
    have heq : e = q := hids e he q hp heid
    subst heq
    refine ⟨?_, hek⟩
    by_contra hnew
    have hlate := h.late e he hnew
    omega
  refine ⟨q, hold.1, mem_timelyIds.mpr ⟨mem_satisfiedIds.mpr ⟨q, hold.1, hver, rfl⟩, fun k' hk' => ?_⟩, hnames, rfl⟩
  obtain rfl : k' = k := Option.some.inj ((Option.mem_def.mp hk').symm.trans hk)
  exact ⟨q, hold.1, rfl, hold.2⟩

theorem Verified.approved {p : SettlementProof} (h : Verified C agreementHash policy p) :
    ∃ a ∈ policy.attestors, a.attestorId = p.attestedBy := by
  unfold Verified checkProof verifySettlementProof at h
  simp only [bind_eq_ok, exists_unit, failIf_eq_ok] at h
  have happroved := h.2.2.1
  push Not at happroved
  obtain ⟨a, ha, hid, -⟩ := happroved
  exact ⟨a, ha, hid⟩

theorem ProofRequirement.fillable_of_satisfied {req : ProofRequirement} {ids : List String}
    (hids : ∀ p ∈ proofs, ∀ q ∈ proofs, p.proofId = q.proofId → p = q)
    (hsub : ∀ id ∈ ids, id ∈ satisfiedIds C agreementHash policy proofs)
    (h : reqSatisfiedThreshold req proofs ids) : req.Fillable policy := by
  refine (reqSatisfiedThreshold_iff.mp h).trans (Finset.card_le_card fun v hv => ?_)
  obtain ⟨p, hp, hfit, rfl⟩ := mem_voters.mp hv
  obtain ⟨hid, hnames⟩ := proofFits_iff.mp hfit
  obtain ⟨q, hq, hver, hqid⟩ := mem_satisfiedIds.mp (hsub _ hid)
  obtain ⟨a, ha, hby⟩ := hver.approved
  rw [hids q hq p hp hqid] at hby
  simpa [hnames.attestor] using ⟨a, ha, hby⟩

theorem Clause.Met.fillable (hids : ∀ p ∈ proofs, ∀ q ∈ proofs, p.proofId = q.proofId → p = q)
    (h : c.Met proofs (satisfiedIds C agreementHash policy proofs)) : c.Fillable policy :=
  ⟨h.1, fun req hreq => ProofRequirement.fillable_of_satisfied hids (fun _ hid => (mem_timelyIds.mp hid).1)
    (h.2 req hreq)⟩

variable {ids : List String}

theorem Clause.verdict_timeout {release : Bool} (h : c.verdict proofs ids t = .timeout release) :
    ¬c.Met proofs ids ∧ ∃ d ≤ t, if release then c.ReleasesAt d else c.RefundsAt d := by
  unfold Clause.verdict at h
  split at h
  next => exact absurd h (by simp)
  next hmet =>
    refine ⟨hmet, ?_⟩
    split at h
    next r hfired =>
      refine ⟨_, firedRule_due hfired, ?_⟩
      obtain rfl : r.resolution.releases = release := by simpa using h
      cases hres : r.resolution.releases with
      | true => exact ⟨r, firedRule_leads hfired, hres, rfl⟩
      | false => exact .inl ⟨r, firedRule_leads hfired, hres, rfl⟩
    next hfired =>
      split at h
      next missed hmissed =>
        obtain ⟨req, deadline⟩ := missed
        obtain ⟨hreq, hby, hdue⟩ := missedDeadline_due hmissed
        obtain rfl : false = release := by simpa using h
        refine ⟨_, hdue, .inr ⟨_, hreq, hby, fun r hr => ?_⟩⟩
        exact Nat.lt_of_le_of_lt hdue (firedRule_eq_none.mp hfired r hr)
      next => exact absurd h (by simp)

theorem Clause.times_out (hmet : ¬c.Met proofs ids) {r : NoResponseRule} (hr : r ∈ c.rules)
    (hdue : r.deadlineHeight ≤ t) : (c.verdict proofs ids t).outcome = .timeout := by
  rw [Clause.verdict, if_neg hmet]
  split
  next => rfl
  next hfired => exact absurd (firedRule_eq_none.mp hfired r hr) (by omega)

theorem Clause.RefundsAt.times_out {d : Nat} (h : c.RefundsAt d) (hmet : ¬c.Met proofs ids) (hdue : d ≤ t)
    (hfirm : ∀ req, c.Misses req d → reqSatisfiedThreshold req proofs ids ≠ true) :
    (c.verdict proofs ids t).outcome = .timeout := by
  rcases h with ⟨r, hlead, -, rfl⟩ | ⟨req, hmiss⟩
  · exact Clause.times_out hmet hlead.mem hdue
  · rw [Clause.verdict, if_neg hmet]
    split
    next => rfl
    next =>
      split
      next => rfl
      next hnone => exact absurd (missedDeadline_eq_none hnone hmiss.mem hmiss.due hdue) (hfirm req hmiss)

end

theorem ProofPolicy.verdict_timeout {policy : ProofPolicy} {proofs : List SettlementProof} {ids : List String}
    {t : Nat} {release : Bool} (h : policy.verdict proofs ids t = .timeout release) :
    ∃ c, policy.clauses.find? (fun c => (c.verdict proofs ids t).outcome = .timeout) = some c ∧
      c.verdict proofs ids t = .timeout release := by
  have hfind := Verdict.all_eq_timeout.mp h
  rw [List.find?_map] at hfind
  obtain ⟨c, hc, hv⟩ := Option.map_eq_some_iff.mp hfind
  exact ⟨c, hc, hv⟩

section

variable {C : Crypto} {agreementHash : String} {policy : ProofPolicy} {proofs proofs' : List SettlementProof}
  {t t' : Nat}

theorem ProofPolicy.Steady.refund_stays (hs : policy.Steady) (hg : ProofsGrown t proofs proofs')
    (hids : ∀ p ∈ proofs', ∀ q ∈ proofs', p.proofId = q.proofId → p = q) (ht : t ≤ t')
    (h : policy.verdict proofs (satisfiedIds C agreementHash policy proofs) t = .timeout false) :
    (policy.verdict proofs' (satisfiedIds C agreementHash policy proofs') t').releases = false := by
  obtain ⟨c, hfind, hv⟩ := ProofPolicy.verdict_timeout h
  have hc := List.mem_of_find?_eq_some hfind
  have hsc := hs.clauses c hc
  obtain ⟨hnot, d, hdue, hrefund⟩ := Clause.verdict_timeout hv
  have hunmet : (∀ req, c.Misses req d → ¬c.Fillable policy) →
      ¬c.Met proofs' (satisfiedIds C agreementHash policy proofs') := by
    intro hmiss hmet
    rcases hrefund with ⟨r, hlead, hres, rfl⟩ | ⟨req, hreq⟩
    · obtain ⟨k, hk, hle⟩ := hsc.guarded (hmet.fillable hids) r hlead hres
      exact hnot (hmet.of_grown hg hids hk (hle.trans hdue))
    · exact hmiss req hreq (hmet.fillable hids)
  rw [← Bool.not_eq_true, Verdict.releases_eq_true]
  rintro (hsat | hrel)
  · have hmet : ∀ c' ∈ policy.clauses, c'.Met proofs' (satisfiedIds C agreementHash policy proofs') := fun c' hc' =>
      Clause.verdict_eq_satisfied.mp ((Verdict.all_eq_satisfied.mp hsat).2 _ (List.mem_map_of_mem hc'))
    refine hunmet (fun req hreq => ?_) (hmet c hc)
    exact absurd hreq (hsc.missed (fun c' hc' => (hmet c' hc').fillable hids) req d)
  · obtain ⟨c', hfind', hv'⟩ := ProofPolicy.verdict_timeout hrel
    obtain ⟨hnot', d', hdue', hrelease⟩ := Clause.verdict_timeout hv'
    rcases find?_find?_order hs.order hfind hfind' with rfl | ⟨hprec, hearly⟩ | ⟨hprec, hlater⟩
    · exact hsc.oneWay d d' hrefund hrelease
    · -- the releasing clause stands first and was due already
      obtain ⟨hle, -⟩ := hprec.released d' d hrelease hrefund
      obtain ⟨r', hlead, -, rfl⟩ := hrelease
      have hmet : ¬c'.Met proofs (satisfiedIds C agreementHash policy proofs) := fun hmet => hnot' (hmet.grown hg.kept)
      simp [Clause.times_out hmet hlead.mem (hle.trans hdue)] at hearly
    · -- the refunding clause stands first and still times out
      obtain ⟨-, hfirm⟩ := hprec.refunded d d' hrefund hrelease
      have hstill := hrefund.times_out (t := t') (hunmet fun req hreq => (hfirm req hreq).1) (hdue.trans ht)
        fun req hreq hmet => (hfirm req hreq).2 (ProofRequirement.fillable_of_satisfied hids (fun _ hid => hid) hmet)
      simp [hstill] at hlater

theorem ProofPolicy.Steady.release_stays (hs : policy.Steady) (hkept : ∀ p ∈ proofs, p ∈ proofs')
    (hids : ∀ p ∈ proofs', ∀ q ∈ proofs', p.proofId = q.proofId → p = q) (ht : t ≤ t')
    (h : (policy.verdict proofs (satisfiedIds C agreementHash policy proofs) t).releases) :
    (policy.verdict proofs' (satisfiedIds C agreementHash policy proofs') t').refunds = false := by
  rw [← Bool.not_eq_true, Verdict.refunds_eq_true]
  intro href
  obtain ⟨c', hfind', hv'⟩ := ProofPolicy.verdict_timeout href
  have hc' := List.mem_of_find?_eq_some hfind'
  obtain ⟨hnot', d', -, hrefund⟩ := Clause.verdict_timeout hv'
  have hnot : ¬c'.Met proofs (satisfiedIds C agreementHash policy proofs) := fun hmet => hnot' (hmet.grown hkept)
  rcases Verdict.releases_eq_true.mp h with hsat | hrel
  · exact hnot (Clause.verdict_eq_satisfied.mp ((Verdict.all_eq_satisfied.mp hsat).2 _ (List.mem_map_of_mem hc')))
  · obtain ⟨c, hfind, hv⟩ := ProofPolicy.verdict_timeout hrel
    obtain ⟨-, d, hdue, hrelease⟩ := Clause.verdict_timeout hv
    have hids' : ∀ p ∈ proofs, ∀ q ∈ proofs, p.proofId = q.proofId → p = q := fun p hp q hq =>
      hids p (hkept p hp) q (hkept q hq)
    rcases find?_find?_order hs.order hfind hfind' with rfl | ⟨hprec, hearly⟩ | ⟨hprec, hlater⟩
    · exact (hs.clauses c hc').oneWay d' d hrefund hrelease
    · -- the refunding clause stands first and was due already
      obtain ⟨hle, hfirm⟩ := hprec.refunded d' d hrefund hrelease
      have hthen := hrefund.times_out hnot (hle.trans hdue) fun req hreq hmet =>
        (hfirm req hreq).2 (ProofRequirement.fillable_of_satisfied hids' (fun _ hid => hid) hmet)
      simp [hthen] at hearly
    · -- the releasing clause stands first and still times out
      obtain ⟨-, hfill⟩ := hprec.released d d' hrelease hrefund
      obtain ⟨r, hlead, -, rfl⟩ := hrelease
      simp [Clause.times_out (fun hmet => hfill (hmet.fillable hids)) hlead.mem (hdue.trans ht)] at hlater

/-- Under a steady policy no later evaluation turns a refund into a release or a release into a refund. -/
theorem decisions_irrevocable {a : AgreementObject} {res res' : PolicyEvaluationResult} (hs : policy.Steady)
    (hg : ProofsGrown t proofs proofs') (hids : ∀ p ∈ proofs', ∀ q ∈ proofs', p.proofId = q.proofId → p = q)
    (ht : t ≤ t') (h : evaluatePolicy C a policy proofs t = .ok res) (h' : evaluatePolicy C a policy proofs' t' = .ok res') :
    (res.refundEligible → res'.releaseEligible = false) ∧
      (res.releaseEligible → res'.refundEligible = false) := by
  obtain ⟨-, hrel, href⟩ := evaluatePolicy_flags h
  obtain ⟨-, hrel', href'⟩ := evaluatePolicy_flags h'
  rw [hrel, href, hrel', href']
  exact ⟨fun hv => hs.refund_stays hg hids ht (Verdict.refunds_eq_true.mp hv), hs.release_stays hg.kept hids ht⟩

end

section

def deliveryPolicy : ProofPolicy :=
  singleDemand (encodeHex saleHash.bytes) [carrier] "delivered" "carrier" none 10

theorem deliveryPolicy_steady : deliveryPolicy.Steady := by
  have hlead : ∀ r, Leads deliveryPolicy.wholeClause.rules r →
      r = ⟨"deadline", 10, .fundedAndNoRelease, .refund, none⟩ := fun r h => List.mem_singleton.mp h.mem
  have hclause : deliveryPolicy.wholeClause.Steady deliveryPolicy := by
    refine ⟨fun d d' _ hrel => ?_, fun _ r h _ => ⟨10, rfl, ?_⟩, fun _ req d hmiss => absurd hmiss.mem ?_⟩
    · obtain ⟨r, hr, hreleases, -⟩ := hrel
      rw [hlead r hr] at hreleases
      exact absurd hreleases (by decide)
    · rw [hlead r h]
    · simp [deliveryPolicy, singleDemand, ProofPolicy.wholeClause, ProofPolicy.refundReqs]
  refine ⟨fun c hc => ?_, List.pairwise_singleton _ _⟩
  rw [List.mem_singleton.mp hc]
  exact hclause

theorem delivered_stays_released :
    ∃ res res', evaluatePolicy saleCrypto saleAgreement deliveryPolicy [deliveryProof] 7 = .ok res ∧
      evaluatePolicy saleCrypto saleAgreement deliveryPolicy [deliveryProof] 20 = .ok res' ∧
        res.releaseEligible ∧ res'.refundEligible = false := by
  have hmem : deliveryProof ∈ [deliveryProof] := List.mem_singleton_self _
  have hfilled : Filled saleCrypto (encodeHex saleHash.bytes) deliveryPolicy [deliveryProof] :=
    singleDemand_filled hmem hmem hmem rfl rfl (.inl rfl) (by decide)
      (deliveryProof_verified (List.mem_singleton_self _))
  rw [← saleAgreement_hash] at hfilled
  obtain ⟨res, hres, hsat⟩ := hfilled.satisfied 7
  obtain ⟨res', hres', -⟩ := hfilled.satisfied 20
  have hrelease := evaluatePolicy_released hres hsat
  refine ⟨res, res', hres, hres', hrelease, ?_⟩
  refine (decisions_irrevocable deliveryPolicy_steady ⟨fun _ h => h, fun p hp hnot => absurd hp hnot⟩ ?_ (by decide)
    hres hres').2 hrelease
  intro p hp q hq _
  rw [List.mem_singleton.mp hp, List.mem_singleton.mp hq]

/-- Refund at height 20 or release at height 10, with the refund listed first. -/
def reversedPolicy : ProofPolicy :=
  { deliveryPolicy with
    noResponseRules := [⟨"late", 20, .fundedAndNoRelease, .refund, none⟩, ⟨"early", 10, .fundedAndNoRelease, .release, none⟩] }

theorem released_then_refunded :
    ∃ res res', evaluatePolicy saleCrypto saleAgreement reversedPolicy [] 10 = .ok res ∧
      evaluatePolicy saleCrypto saleAgreement reversedPolicy [] 20 = .ok res' ∧
        res.releaseEligible ∧ res'.refundEligible := by
  have hhash : eqIgnoreAsciiCase reversedPolicy.agreementHash (canonicalHashHex saleCrypto saleAgreement) := by
    rw [saleAgreement_hash]
    exact beq_self_eq_true _
  exact ⟨_, _, evaluatePolicy_eq_ok.mpr ⟨hhash, rfl⟩, evaluatePolicy_eq_ok.mpr ⟨hhash, rfl⟩, rfl, rfl⟩

end

end IriumConsensus
