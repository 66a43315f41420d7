/-
What a prepared task rests on, and what its report says.

The loop over the requests keeps one invariant: each request that was read is supplied or left out,
evidence is numbered as it comes, and what is selected is in both reads.  A failure reports the
counts as they are then, with one request at most still in hand.

* `ReportAddsUp` — what is said of every report;
* `Progress` — the invariant of the loop;
* `prepared_from_snapshot` — a prepared task, and every report;
* `binding_not_planned` — an association that was replaced before the second read.
-/
import Cartograph.FlowTracer.Reachability
import Cartograph.TaskEvidence.Preparation

namespace TaskEvidence

open GraphStore Investigation Agents Checked Fallible
open Ingest (factRank)
open Sources (RegisteredSource)
open Spec (confidence)

/-! ### Reports -/

/-- The counts of a report fit each other and its limits. -/
structure ReportAddsUp (r : SelectionReport) : Prop where
  limits : r.limits = .standard
  read : r.acquisitionAttempts + r.metadataPreselectedNotRead = r.metadataLookahead
  supplied : r.suppliedEvidence + r.omissions.length ≤ r.acquisitionAttempts
  lookahead : r.metadataLookahead ≤ r.limits.metadataLookahead
  attempts : r.acquisitionAttempts ≤ r.limits.acquisitionAttempts
  evidence : r.suppliedEvidence ≤ r.limits.evidence
  candidates : r.suppliedCandidates ≤ r.limits.candidates
  bytes : r.capturedValidationBytes ≤ r.limits.capturedValidationBytes

/-- The report of a failure, if it has one. -/
def Reports (e : TaskPreparationError) : Prop := ∀ r, e.selection = some r → ReportAddsUp r

theorem reports_failure {r : SelectionReport} (h : ReportAddsUp r) (reason : String) :
    Reports (failure r reason) := by
  intro r' hr'
  obtain rfl := Option.some_inj.mp hr'
  exact { h with }

/-- The counts after some requests were read.  A request in hand is neither supplied nor left out
yet, and the requests that come after were not read. -/
structure Counts (plan : TaskPlan) (inHand rest : List EvidenceRequest) (st : Acquired) : Prop where
  lookahead : st.report.metadataLookahead = plan.requests.length
  limits : st.report.limits = .standard
  attempts : st.report.acquisitionAttempts + rest.length = plan.requests.length
  notRead : st.report.metadataPreselectedNotRead = rest.length
  settled : st.evidence.length + st.report.omissions.length + inHand.length
    = st.report.acquisitionAttempts
  suppliedEvidence : st.report.suppliedEvidence = st.evidence.length
  suppliedCandidates : st.report.suppliedCandidates = st.candidates.length
  members : st.evidence.length = st.candidates.length + st.sourceEvidenceIds.length
  candidates : st.candidates.length + inHand.length ≤ MAX_CANDIDATES
  bare : st.sourceEvidenceIds.length + ((inHand ++ rest).filter fun r => r.candidate.isNone).length ≤ 2
  bytes : st.report.capturedValidationBytes ≤ MAX_CAPTURED_VALIDATION_BYTES

/-- Evidence is numbered as it comes, each piece has one origin, and a candidate has the evidence
that was read for its node. -/
structure Attributed (evidence : List AgentEvidence) (origins : List TaskEvidenceOrigin)
    (candidates : List AgentCandidate) : Prop where
  numbered : evidence.map AgentEvidence.id = (List.range evidence.length).map Acquired.evidenceId
  sources : origins.map TaskEvidenceOrigin.evidenceId = evidence.map AgentEvidence.id
  cited : ∀ x ∈ candidates, ∃ o ∈ origins, x.evidenceIds = [o.evidenceId]
    ∧ o.fact = .node x.nodeId

/-- The invariant of the loop. -/
structure Progress (plan : TaskPlan) (S : TaskFactSelection → Prop)
    (inHand rest : List EvidenceRequest) (st : Acquired) : Prop where
  counts : Counts plan inHand rest st
  attributed : Attributed st.evidence st.origins st.candidates
  selected : ∀ r ∈ st.selected.rows, S r.2

section

variable {plan : TaskPlan} {S : TaskFactSelection → Prop} {inHand rest : List EvidenceRequest}
  {request : EvidenceRequest} {st : Acquired}

theorem Counts.addsUp (hplan : plan.requests.length ≤ MAX_REQUESTS) (h : Counts plan inHand rest st) :
    ReportAddsUp st.report := by
  have hlookahead := h.lookahead
  have hattempts := h.attempts
  have hnotRead := h.notRead
  have hsettled := h.settled
  have hevidence := h.suppliedEvidence
  have hcandidates := h.suppliedCandidates
  have hmembers := h.members
  have hfew := h.candidates
  have hbare := h.bare
  have hbytes := h.bytes
  simp only [MAX_REQUESTS, MAX_CANDIDATES] at hplan hfew
  refine ⟨h.limits, ?_, ?_, ?_, ?_, ?_, ?_, ?_⟩
  · omega
  · omega
  · rw [h.limits]
    show _ ≤ 64
    omega
  · rw [h.limits]
    show _ ≤ 64
    omega
  · rw [h.limits]
    show _ ≤ 12
    omega
  · rw [h.limits]
    show _ ≤ 8
    omega
  · rw [h.limits]
    exact hbytes

theorem Progress.reports (hplan : plan.requests.length ≤ MAX_REQUESTS)
    (h : Progress plan S inHand rest st) (reason : String) :
    Reports (failure st.report reason) :=
  reports_failure (h.counts.addsUp hplan) reason

/-! ### Steps of the loop -/

theorem Progress.stopped (h : Progress plan S inHand rest st) (stopReason : SelectionStopReason) :
    Progress plan S inHand rest (st.stopped stopReason) :=
  { h with counts := { h.counts with } }

theorem Progress.attempt (h : Progress plan S [] (request :: rest) st)
    (hroom : st.candidates.length ≠ MAX_CANDIDATES) : Progress plan S [request] rest st.attempt := by
  have hattempts := h.counts.attempts
  have hnotRead := h.counts.notRead
  have hsettled := h.counts.settled
  have hfew := h.counts.candidates
  rw [List.length_cons] at hattempts hnotRead
  refine { h with counts := { h.counts with
    attempts := ?_, notRead := ?_, settled := ?_, candidates := ?_ } }
  · show st.report.acquisitionAttempts + 1 + rest.length = plan.requests.length
    omega
  · show st.report.metadataPreselectedNotRead - 1 = rest.length
    omega
  · show st.evidence.length + st.report.omissions.length + 1 = st.report.acquisitionAttempts + 1
    rw [List.length_nil] at hsettled
    omega
  · show st.candidates.length + 1 ≤ MAX_CANDIDATES
    rw [List.length_nil] at hfew
    omega

theorem Progress.select (h : Progress plan S inHand rest st) {fact : FactKey}
    {entry : TaskFactSelection} (hentry : S entry) :
    Progress plan S inHand rest (st.select fact entry) := by
  refine { h with counts := { h.counts with }, selected := fun r hr => ?_ }
  rcases Table.find?_put_eq_some.mp (Table.find?_eq_some_iff.mpr hr) with ⟨-, heq⟩ | ⟨-, hold⟩
  · rwa [heq]
  · exact h.selected r (Table.find?_eq_some_iff.mp hold)

theorem Progress.leaveOut (h : Progress plan S [request] rest st) (omission : SelectionOmission) :
    Progress plan S [] rest (st.leaveOut omission) := by
  have hsettled := h.counts.settled
  have hfew := h.counts.candidates
  have hbare := h.counts.bare
  refine { h with counts := { h.counts with settled := ?_, candidates := ?_, bare := ?_ } }
  · show st.evidence.length + (st.report.omissions ++ [omission]).length + 0
      = st.report.acquisitionAttempts
    rw [List.length_append]
    exact hsettled
  · exact (Nat.le_add_right _ 1).trans hfew
  · refine le_trans (Nat.add_le_add_left ?_ _) hbare
    exact ((List.sublist_cons_self request rest).filter _).length_le

theorem Progress.charged (h : Progress plan S inHand rest st) {bytes : ℕ}
    (hbytes : st.report.capturedValidationBytes + bytes ≤ MAX_CAPTURED_VALIDATION_BYTES) :
    Progress plan S inHand rest (st.charged bytes) :=
  { h with counts := { h.counts with bytes := hbytes } }

theorem length_supply_candidates (reference : EvidenceRef) (text : String) (origin : TaskEvidenceKind) :
    (st.supply request reference text origin).candidates.length
      = st.candidates.length + if request.candidate.isNone = true then 0 else 1 := by
  cases hrequest : request.candidate with
  | none | some x => simp [Acquired.supply, hrequest]

theorem length_supply_sourceEvidenceIds (reference : EvidenceRef) (text : String)
    (origin : TaskEvidenceKind) :
    (st.supply request reference text origin).sourceEvidenceIds.length
      = st.sourceEvidenceIds.length + if request.candidate.isNone = true then 1 else 0 := by
  cases hrequest : request.candidate with
  | none | some x => simp [Acquired.supply, hrequest]

theorem Progress.supply (h : Progress plan S [request] rest st)
    (hcandidate : ∀ x, request.candidate = some x → request.fact = .node x.nodeId ∧ x.evidenceIds = [])
    (reference : EvidenceRef) (text : String) (origin : TaskEvidenceKind) :
    Progress plan S [] rest (st.supply request reference text origin) := by
  have hsettled := h.counts.settled
  have hmembers := h.counts.members
  have hfew := h.counts.candidates
  have hbare := h.counts.bare
  rw [List.length_singleton] at hsettled hfew
  rw [List.singleton_append, List.filter_cons] at hbare
  have hlength : (st.supply request reference text origin).evidence.length
      = st.evidence.length + 1 := List.length_append
  have hattributed : Attributed (st.supply request reference text origin).evidence
      (st.supply request reference text origin).origins
      (st.supply request reference text origin).candidates := by
    refine ⟨?_, ?_, fun x hx => ?_⟩
    · rw [hlength, List.range_succ, List.map_append, ← h.attributed.numbered]
      exact List.map_append
    · show (st.origins ++ [_]).map TaskEvidenceOrigin.evidenceId = (st.evidence ++ [_]).map _
      rw [List.map_append, List.map_append, h.attributed.sources]
      rfl
    · rcases List.mem_append.mp hx with hold | hnew
      · obtain ⟨o, ho, hx⟩ := h.attributed.cited x hold
        exact ⟨o, List.mem_append_left _ ho, hx⟩
      · obtain ⟨y, hy, rfl⟩ := Option.map_eq_some_iff.mp (Option.mem_toList.mp hnew)
        obtain ⟨hfact, hnone⟩ := hcandidate y hy
        refine ⟨_, List.mem_append_right _ (List.mem_singleton_self _), ?_, ?_⟩
        · show y.evidenceIds ++ [_] = [_]
          rw [hnone]
          rfl
        · show taskFact request.fact = .node y.nodeId
          rw [hfact]
          rfl
  -- the request is one of those without a candidate, or gives one candidate more
  have hcounts : (st.supply request reference text origin).evidence.length
        = (st.supply request reference text origin).candidates.length
          + (st.supply request reference text origin).sourceEvidenceIds.length
      ∧ (st.supply request reference text origin).candidates.length ≤ MAX_CANDIDATES
      ∧ (st.supply request reference text origin).sourceEvidenceIds.length
        + (rest.filter fun r => r.candidate.isNone).length ≤ 2 := by
    rw [hlength, length_supply_candidates, length_supply_sourceEvidenceIds]
    by_cases hbareRequest : request.candidate.isNone = true
    · rw [if_pos hbareRequest, List.length_cons] at hbare
      rw [if_pos hbareRequest, if_pos hbareRequest]
      omega
    · rw [if_neg hbareRequest] at hbare
      rw [if_neg hbareRequest, if_neg hbareRequest]
      omega
  refine ⟨{ h.counts with
    settled := ?_, suppliedEvidence := hlength.symm, suppliedCandidates := rfl
    members := hcounts.1, candidates := hcounts.2.1, bare := hcounts.2.2 }, hattributed, h.selected⟩
  show _ + st.report.omissions.length + 0 = st.report.acquisitionAttempts
  omega

end

/-! ### The loop -/

/-- Preparation fails with a report that adds up. -/
def Reported (e : TaskPreparationError) (_ : Acquired) : Prop := Reports e

section

variable {P : Acquired → Prop} {α : Type} {Q : α → Acquired → Prop}

theorem ends_orStop {r : Except String α}
    (hreport : ∀ st, P st → ∀ reason, Reports (failure st.report reason))
    (hok : ∀ a, r = .ok a → ∀ st, P st → Q a st) : Ends P (orStop r) Q Reported := by
  cases r with
  | ok a =>
    refine ends_of (fun st b st' hst heq => ?_) fun st e st' hst heq => ?_
    · obtain ⟨hb, rfl⟩ := Prod.mk.inj heq
      obtain rfl := Except.ok.inj hb
      exact hok a rfl st hst
    · cases heq
  | error reason =>
    refine ends_of (fun st b st' hst heq => ?_) fun st e st' hst heq => ?_
    · cases heq
    · obtain ⟨he, -⟩ := Prod.mk.inj heq
      obtain rfl := Except.error.inj he
      exact hreport st hst reason

theorem ends_stop {reason : String}
    (hreport : ∀ st, P st → ∀ reason, Reports (failure st.report reason)) :
    Ends P (stop reason : Preparing α) Q Reported :=
  ends_orStop hreport fun _ ha => nomatch ha

end

section

variable {Operation Guard : Type} {sources : TaskSources Operation Guard}
  {guards : SourceGuards Operation Guard} {preliminary authoritative : FactTable FactSourceSelection}
  {plan : TaskPlan} {S : TaskFactSelection → Prop} {inHand rest : List EvidenceRequest}
  {request : EvidenceRequest}

section

variable (hplan : plan.requests.length ≤ MAX_REQUESTS)
include hplan

theorem ends_includeFact {fact : FactKey}
    {digest : String}
    (hS : ∀ entry, includedFact preliminary authoritative fact digest = .ok entry → S entry) :
    Ends (Progress plan S inHand rest) (includeFact preliminary authoritative fact digest)
      (fun _ => Progress plan S inHand rest) Reported := by
  refine ends_bind (Q := fun entry st => S entry ∧ Progress plan S inHand rest st)
    (ends_orStop (fun st hst => hst.reports hplan) fun entry hentry st hst => ⟨hS entry hentry, hst⟩)
    fun entry => ?_
  refine ends_bind (Q := fun _ => Progress plan S inHand rest)
    (ends_change fun st hst => hst.2.select hst.1) fun _ => ?_
  exact ends_pure fun st hst => hst

theorem ends_chargeBytes (bytes : ℕ) :
    Ends (Progress plan S inHand rest) (chargeBytes bytes)
      (fun _ => Progress plan S inHand rest) Reported := by
  refine ends_bind ends_state fun st => ?_
  split_ifs with hroom
  · refine ends_change fun st' hst => ?_
    obtain ⟨hst, rfl⟩ := hst
    rw [hst.counts.limits] at hroom
    exact hst.charged hroom
  · refine ends_bind (Q := fun _ => Progress plan S inHand rest)
      (ends_change fun st' hst => hst.1.stopped .validationByteLimit) fun _ => ?_
    exact ends_stop fun st hst => hst.reports hplan

theorem ends_capturedText (factDigest : String)
    (binding : TaskSourceAssociation) (reference : EvidenceRef) :
    Ends (Progress plan S inHand rest)
      (capturedText sources guards request factDigest binding reference)
      (fun _ => Progress plan S inHand rest) Reported := by
  -- only the charge changes anything; the other steps go on or fail
  have hstep : ∀ {β : Type} {r : Except String β}, Ends (Progress plan S inHand rest) (orStop r)
      (fun _ => Progress plan S inHand rest) Reported := fun {_ _} =>
    ends_orStop (fun st hst => hst.reports hplan) fun _ _ st hst => hst
  refine ends_bind hstep fun held => ends_bind hstep fun receipt => ends_bind hstep fun found => ?_
  refine ends_bind ends_state fun st => ?_
  refine ends_bind (ends_orStop (fun st hst => hst.1.reports hplan) fun _ _ st hst => hst.1)
    fun bytes => ?_
  refine ends_bind (ends_chargeBytes hplan _) fun _ => ends_bind hstep fun text => ?_
  exact ends_bind hstep fun _ => ends_pure fun st hst => hst

theorem ends_includeSlot {slot : Option (FactKey × String)}
    (hS : ∀ x, slot = some x → ∀ entry,
      includedFact preliminary authoritative x.1 x.2 = .ok entry → S entry) :
    Ends (Progress plan S inHand rest) (includeSlot preliminary authoritative slot)
      (fun _ => Progress plan S inHand rest) Reported := by
  cases slot with
  | none => exact ends_pure fun st hst => hst
  | some x => exact ends_bind (ends_includeFact hplan (hS x rfl)) fun _ => ends_pure fun st hst => hst

/-- **One request.**  It is supplied or left out. -/
theorem ends_acquireRequest
    (hcandidate : ∀ x, request.candidate = some x → request.fact = .node x.nodeId ∧ x.evidenceIds = [])
    (hS : ∀ entry, includedFact preliminary authoritative request.fact request.factDigest = .ok entry →
      S entry) (place : ℕ) :
    Ends (fun st => Progress plan S [] (request :: rest) st ∧ st.candidates.length ≠ MAX_CANDIDATES)
      (acquireRequest sources guards preliminary authoritative request place)
      (fun _ => Progress plan S [] rest) Reported := by
  refine ends_bind (Q := fun _ => Progress plan S [request] rest)
    (ends_change fun st hst => hst.1.attempt hst.2) fun _ => ?_
  refine ends_bind (ends_includeFact hplan hS) fun entry => ?_
  cases request.reference with
  | none => exact ends_change fun st hst => hst.leaveOut _
  | some reference =>
    cases entry.binding with
    | some binding =>
      refine ends_bind (ends_capturedText hplan ..) fun read => ?_
      exact ends_change fun st hst => hst.supply hcandidate ..
    | none =>
      dsimp only
      cases guards.legacyText sources reference with
      | some text => exact ends_change fun st hst => hst.supply hcandidate ..
      | none => exact ends_change fun st hst => hst.leaveOut _

/-- **All requests**, by induction: the loop ends with some of them not read. -/
theorem ends_acquireRequests (requests : List EvidenceRequest)
    (hcandidates : ∀ r ∈ requests, ∀ x, r.candidate = some x →
      r.fact = .node x.nodeId ∧ x.evidenceIds = [])
    (hS : ∀ r ∈ requests, ∀ entry,
      includedFact preliminary authoritative r.fact r.factDigest = .ok entry → S entry)
    (place : ℕ) :
    Ends (Progress plan S [] requests)
      (acquireRequests sources guards preliminary authoritative requests place)
      (fun _ st => ∃ rest, Progress plan S [] rest st) Reported := by
  induction requests generalizing place with
  | nil => exact ends_pure fun st hst => ⟨[], hst⟩
  | cons request requests ih =>
    refine ends_bind ends_state fun st => ?_
    split_ifs with hfull
    · exact ends_change fun st' hst => ⟨_, hst.1.stopped .candidateLimit⟩
    · have hrequest : Ends _ (acquireRequest sources guards preliminary authoritative request place)
          (fun _ => Progress plan S [] requests) Reported :=
        ends_acquireRequest hplan (hcandidates request List.mem_cons_self)
          (hS request List.mem_cons_self) place
      refine ends_bind (hrequest.mono (fun st' hst => ⟨hst.1, ?_⟩) (fun _ _ h => h) fun _ _ h => h)
        fun _ => ih (fun r hr => hcandidates r (List.mem_cons_of_mem _ hr))
          (fun r hr => hS r (List.mem_cons_of_mem _ hr)) (place + 1)
      exact hst.2 ▸ hfull

end

/-! ### The two later reads -/

/-- What a table of selections was read from. -/
structure ReadAgain (c : Codec Json) (graph : List (Node Json) × List (Edge Json))
    (table : FactTable FactSourceSelection) (s : Store)
    (found : List (Node Json) × List (Edge Json)) : Prop where
  read : s.readSnapshot c = .ok found
  same : (found == graph) = true
  state : ∀ fact v, table.find? (factRank fact) = some v → v = ⟨fact, s.factState c found fact⟩

theorem ends_readAgain {P : Acquired → Prop} (c : Codec Json)
    (graph : List (Node Json) × List (Edge Json)) (lock : Option Store)
    (hreport : ∀ st, P st → ∀ reason, Reports (failure st.report reason)) :
    Ends P (readAgain c graph plan lock)
      (fun table st => P st ∧ ∃ s found, lock = some s ∧ ReadAgain c graph table s found)
      Reported := by
  refine ends_bind (Q := fun s st => lock = some s ∧ P st)
    (ends_orStop hreport fun s hs st hst => ⟨orFail_eq_ok.mp hs, hst⟩) fun s => ?_
  refine ends_bind (Q := fun read st => lock = some s
      ∧ s.readSourceSelectionSnapshot c (requestedFacts plan) = .ok read ∧ P st)
    (ends_orStop (fun st hst => hreport st hst.2) fun read hread st hst =>
      ⟨hst.1, mapError_eq_ok.mp hread, hst.2⟩) fun read => ?_
  refine ends_bind (Q := fun _ st => (lock = some s
      ∧ s.readSourceSelectionSnapshot c (requestedFacts plan) = .ok read ∧ P st)
        ∧ (read.graph == graph) = true)
    (ends_orStop (fun st hst => hreport st hst.2.2) fun _ hsame st hst =>
      ⟨hst, (ensure_eq_ok.mp hsame)⟩) fun _ => ?_
  refine ends_pure fun st hst => ?_
  obtain ⟨⟨hlock, hread, hP⟩, hsame⟩ := hst
  exact ⟨hP, s, read.graph, hlock, (readSelections_ok hread).1, hsame,
    fun fact v hv => state_of_read hread hv⟩

end

/-! ### Prepared tasks -/

theorem evidenceId_injective : Function.Injective Acquired.evidenceId := by
  intro m n h
  have hrepr : toString (m + 1) = toString (n + 1) := (String.append_right_inj _).mp h
  have := Nat.repr_injective hrepr
  omega

theorem Attributed.nodup {evidence : List AgentEvidence} {origins : List TaskEvidenceOrigin}
    {candidates : List AgentCandidate} (h : Attributed evidence origins candidates) :
    (evidence.map AgentEvidence.id).Nodup := by
  rw [h.numbered]
  exact List.nodup_range.map evidenceId_injective

/-- The association of a fact in a store. -/
def association (s : Store) (fact : FactKey) : Option TaskSourceAssociation :=
  (s.bindingRow fact).map fun row => ⟨row.repoKey, row.receiptId, row.emittedFactDigest⟩

/-- A selected fact as a store has it, whose graph this is. -/
structure Has (c : Codec Json) (s : Store) (graph : List (Node Json) × List (Edge Json))
    (fact : FactKey) (f : TaskFactSelection) : Prop where
  digest : snapshotDigest c graph fact = some f.factDigest
  binding : association s fact = f.binding

/-- A selected fact that was planned from this graph and is in both tables. -/
def Chosen (c : Codec Json) (graph : List (Node Json) × List (Edge Json))
    (preliminary authoritative : FactTable FactSourceSelection) (f : TaskFactSelection) : Prop :=
  ∃ fact v, snapshotDigest c graph fact = some f.factDigest
    ∧ preliminary.find? (factRank fact) = some v ∧ authoritative.find? (factRank fact) = some v
    ∧ selection v = .ok f

variable {preliminary authoritative : FactTable FactSourceSelection}

section

variable {c : Codec Json} {s : Store} {graph : List (Node Json) × List (Edge Json)}
  {fact : FactKey} {f : TaskFactSelection}

theorem loadSelectionBinding_cases (s : Store) (fact : FactKey) :
    (s.bindingRow fact = none ∧ s.loadSelectionBinding fact = .absent)
      ∨ (∃ row, s.bindingRow fact = some row ∧ s.loadSelectionBinding fact
          = .present ⟨fact, row.repoKey, row.receiptId, row.emittedFactDigest⟩)
      ∨ s.loadSelectionBinding fact = .invalid := by
  rw [Store.loadSelectionBinding]
  cases s.bindingRow fact with
  | none => exact .inl ⟨rfl, rfl⟩
  | some row =>
    dsimp only
    split
    · exact .inr (.inl ⟨row, rfl, rfl⟩)
    · exact .inr (.inr rfl)

theorem has_of_selection (h : selection ⟨fact, s.factState c graph fact⟩ = .ok f) :
    f.fact = taskFact fact ∧ Has c s graph fact f := by
  rw [selection, Store.factState] at h
  cases hdigest : snapshotDigest c graph fact with
  | none =>
    rw [hdigest] at h
    rcases loadSelectionBinding_cases s fact with ⟨-, hload⟩ | ⟨row, -, hload⟩ | hload <;>
      rw [hload] at h <;> cases h
  | some digest =>
    rw [hdigest] at h
    rcases loadSelectionBinding_cases s fact with ⟨hrow, hload⟩ | ⟨row, hrow, hload⟩ | hload
    · rw [hload] at h
      obtain rfl := Except.ok.inj h
      refine ⟨rfl, hdigest, ?_⟩
      rw [association, hrow]
      rfl
    · rw [hload, selectionState] at h
      split_ifs at h with hsame
      · obtain rfl := Except.ok.inj h
        refine ⟨rfl, hdigest, ?_⟩
        rw [association, hrow]
        rfl
    · rw [hload] at h
      cases h

theorem chosen_of_included {planned : String}
    (hplanned : snapshotDigest c graph fact = some planned)
    (h : includedFact preliminary authoritative fact planned = .ok f) :
    Chosen c graph preliminary authoritative f := by
  simp only [includedFact, bind_eq_ok, orFail_eq_ok, ensure_eq_ok, pure_eq_ok] at h
  obtain ⟨v, hauthoritative, -, hpreliminary, entry, hentry, -, rfl, rfl⟩ := h
  exact ⟨fact, v, hplanned, hpreliminary, hauthoritative, hentry⟩

end

/-- What a finished preparation gives. -/
structure Finished (contentHash : String → Hash)
    (graph : List (Node Json.Value) × List (Edge Json.Value)) (S : TaskFactSelection → Prop)
    (t : PreparedAgentTask contentHash) : Prop where
  id : ContextHub.snapshotId (fun text => (contentHash text).text) graph.1 graph.2
    = .ok t.sourceBasis.graphSnapshotId
  selected : ∀ f ∈ t.sourceBasis.selectedFacts, S f
  attributed : Attributed t.task.evidence t.sourceBasis.evidence t.task.candidates
  report : ReportAddsUp t.sourceBasis.selection
  supplied : t.sourceBasis.selection.suppliedEvidence = t.task.evidence.length
  settled : t.sourceBasis.selection.suppliedEvidence + t.sourceBasis.selection.omissions.length
    = t.sourceBasis.selection.acquisitionAttempts

theorem ends_finish {contentHash : String → Hash}
    {graph : List (Node Json.Value) × List (Edge Json.Value)} {plan : TaskPlan}
    {S : TaskFactSelection → Prop} (hplan : plan.requests.length ≤ MAX_REQUESTS) :
    Ends (fun st => ∃ rest, Progress plan S [] rest st) (finish contentHash graph plan)
      (fun t _ => Finished contentHash graph S t) Reported := by
  have hreport : ∀ st, (∃ rest, Progress plan S [] rest st) → ∀ reason,
      Reports (failure st.report reason) := fun st ⟨rest, hst⟩ => hst.reports hplan
  refine ends_bind (Q := fun _ st => ∃ rest, Progress plan S [] rest st)
    (ends_change fun st ⟨rest, hst⟩ => ⟨rest, hst.stopped _⟩) fun _ => ?_
  refine ends_bind ends_state fun st => ?_
  split_ifs with hempty
  · refine ends_bind (Q := fun _ st => ∃ rest, Progress plan S [] rest st)
      (ends_change fun st' ⟨⟨rest, hst⟩, _⟩ => ⟨rest, hst.stopped _⟩) fun _ => ?_
    exact ends_stop hreport
  · refine ends_bind (Q := fun id st' => (ContextHub.snapshotId (fun text => (contentHash text).text)
        graph.1 graph.2 = .ok id) ∧ (∃ rest, Progress plan S [] rest st') ∧ st = st')
      (ends_orStop (fun st' hst => hreport st' hst.1) fun id hid st' hst =>
        ⟨mapError_eq_ok.mp hid, hst⟩) fun id => ?_
    split
    next hvalid =>
      refine ends_pure fun st' hst => ?_
      obtain ⟨hid, ⟨rest, hst⟩, rfl⟩ := hst
      refine ⟨hid, fun f hf => ?_, hst.attributed, hst.counts.addsUp hplan,
        hst.counts.suppliedEvidence, ?_⟩
      · obtain ⟨r, hr, rfl⟩ := List.mem_map.mp hf
        exact hst.selected r hr
      · show st.report.suppliedEvidence + st.report.omissions.length = st.report.acquisitionAttempts
        have hsettled := hst.counts.settled
        rw [← hst.counts.suppliedEvidence] at hsettled
        exact hsettled
    next e herror =>
      refine ends_bind (Q := fun _ st => ∃ rest, Progress plan S [] rest st)
        (ends_change fun st' ⟨_, ⟨rest, hst⟩, _⟩ => ⟨rest, hst.stopped _⟩) fun _ => ?_
      exact ends_stop hreport

/-- A source basis is of one graph: the identity is that of the planned graph, both later reads found
it again, and a selected fact is as it was planned and as both reads have it. -/
structure OneSnapshot (c : Codec Json) (contentHash : String → Hash)
    (graph : List (Node Json.Value) × List (Edge Json.Value)) (second third : Option Store)
    (basis : TaskSourceBasisV2) : Prop where
  id : ContextHub.snapshotId (fun text => (contentHash text).text) graph.1 graph.2
    = .ok basis.graphSnapshotId
  reads : ∃ s₂ g₂ s₃ g₃, second = some s₂ ∧ s₂.readSnapshot c = .ok g₂ ∧ (g₂ == plain graph) = true
    ∧ third = some s₃ ∧ s₃.readSnapshot c = .ok g₃ ∧ (g₃ == plain graph) = true
    ∧ ∀ f ∈ basis.selectedFacts, ∃ fact, f.fact = taskFact fact
      ∧ snapshotDigest c (plain graph) fact = some f.factDigest
      ∧ Has c s₂ g₂ fact f ∧ Has c s₃ g₃ fact f

variable {p : TaskPlan}

section

variable {Operation Guard : Type} {sources : TaskSources Operation Guard} {c : Codec Json}
  {contentHash : String → Hash} {graph : List (Node Json.Value) × List (Edge Json.Value)}
  {gapId actionId : String} {first : Store} {second third : Option Store}

theorem progress_report (hp : Planned c (plain graph).1 p) (S : TaskFactSelection → Prop) :
    Progress p S [] p.requests ⟨report p, .empty, [], [], [], []⟩ where
  counts := {
    lookahead := rfl
    limits := rfl
    attempts := Nat.zero_add _
    notRead := rfl
    settled := rfl
    suppliedEvidence := rfl
    suppliedCandidates := rfl
    members := rfl
    candidates := Nat.zero_le _
    bare := by
      show 0 + (p.requests.filter fun r => r.candidate.isNone).length ≤ 2
      rw [hp.bare]
    bytes := Nat.zero_le _ }
  attributed := ⟨rfl, rfl, fun x hx => nomatch hx⟩
  selected := fun r hr => nomatch hr

theorem planned_digest (hread : first.readSnapshot c = .ok (plain graph))
    (hp : Planned c (plain graph).1 p) {r : EvidenceRequest} (hr : r ∈ p.requests) :
    snapshotDigest c (plain graph) r.fact = some r.factDigest := by
  obtain ⟨n, hn, hfact, hdigest⟩ := hp.facts r hr
  rw [hfact, hdigest]
  exact snapshotDigest_node hread hn

theorem slot_digest (hread : first.readSnapshot c = .ok (plain graph))
    (hslot : p.slot = (adjacentSlot (plain graph).2 gapId).map fun e => (edgeFact e, c.edgeDigest e))
    {x : FactKey × String} (hx : p.slot = some x) :
    snapshotDigest c (plain graph) x.1 = some x.2 := by
  rw [hslot] at hx
  obtain ⟨e, he, rfl⟩ := Option.map_eq_some_iff.mp hx
  refine snapshotDigest_edge hread ?_
  rw [adjacentSlot] at he
  rcases Option.or_eq_some_iff.mp he with he | ⟨-, he⟩
  · exact List.mem_of_find?_eq_some he
  · exact List.mem_of_find?_eq_some he

/-- What preparation gives, if it is finished. -/
structure Prepared (c : Codec Json) (contentHash : String → Hash)
    (graph : List (Node Json.Value) × List (Edge Json.Value)) (second third : Option Store)
    (t : PreparedAgentTask contentHash) : Prop where
  snapshot : OneSnapshot c contentHash graph second third t.sourceBasis
  distinct : (t.task.evidence.map AgentEvidence.id).Nodup
  attributed : Attributed t.task.evidence t.sourceBasis.evidence t.task.candidates
  report : ReportAddsUp t.sourceBasis.selection
  supplied : t.sourceBasis.selection.suppliedEvidence = t.task.evidence.length
  settled : t.sourceBasis.selection.suppliedEvidence + t.sourceBasis.selection.omissions.length
    = t.sourceBasis.selection.acquisitionAttempts

theorem prepared_of_finished {s2 s3 : Store} {g2 g3 : List (Node Json) × List (Edge Json)}
    (h2 : ReadAgain c (plain graph) preliminary s2 g2)
    (h3 : ReadAgain c (plain graph) authoritative s3 g3) {t : PreparedAgentTask contentHash}
    (h : Finished contentHash graph (Chosen c (plain graph) preliminary authoritative) t) :
    Prepared c contentHash graph (some s2) (some s3) t := by
  refine ⟨⟨h.id, s2, g2, s3, g3, rfl, h2.read, h2.same, rfl, h3.read, h3.same, fun f hf => ?_⟩,
    h.attributed.nodup, h.attributed, h.report, h.supplied, h.settled⟩
  obtain ⟨fact, v, hdigest, hpreliminary, hauthoritative, hselection⟩ := h.selected f hf
  have hsecond := hselection
  rw [h2.state fact v hpreliminary] at hsecond
  rw [h3.state fact v hauthoritative] at hselection
  exact ⟨fact, (has_of_selection hselection).1, hdigest, (has_of_selection hsecond).2,
    (has_of_selection hselection).2⟩

theorem ends_preparePlan (hread : first.readSnapshot c = .ok (plain graph))
    (hplan : plan c contentHash (plain graph).1 (plain graph).2 gapId actionId = .ok p) :
    Ends (fun st => st = ⟨report p, .empty, [], [], [], []⟩)
      (preparePlan c contentHash sources graph p second third)
      (fun t _ => Prepared c contentHash graph second third t) Reported := by
  obtain ⟨hp, hslot⟩ := plan_planned hplan
  have hreport : ∀ st : Acquired, st = ⟨report p, .empty, [], [], [], []⟩ → ∀ reason,
      Reports (failure st.report reason) := by
    rintro st rfl
    exact (progress_report hp fun _ => True).reports hp.length
  refine ends_bind (ends_readAgain c _ second hreport) fun preliminary => ?_
  refine ends_assume (fun st hst => hst.2) fun ⟨s2, g2, hsecond, h2⟩ => ?_
  refine ends_bind (ends_readAgain c _ third fun st hst => hreport st hst.1) fun authoritative => ?_
  refine ends_assume (fun st hst => hst.2) fun ⟨s3, g3, hthird, h3⟩ => ?_
  subst hsecond hthird
  refine ends_bind (Q := fun _ =>
    Progress p (Chosen c (plain graph) preliminary authoritative) [] p.requests) ?_ fun _ => ?_
  · refine Ends.mono (ends_includeSlot hp.length fun x hx entry hentry => ?_)
      (fun st hst => hst.1.1 ▸ progress_report hp _) (fun _ _ h => h) fun _ _ h => h
    exact chosen_of_included (slot_digest hread hslot hx) hentry
  refine ends_bind (ends_acquireRequests hp.length p.requests
    (fun r hr x hx => hp.candidates r hr x hx)
    (fun r hr entry hentry => chosen_of_included (planned_digest hread hp hr) hentry) 0) fun _ => ?_
  exact Ends.mono (ends_finish hp.length) (fun _ h => h)
    (fun t _ h => prepared_of_finished h2 h3 h) fun _ _ h => h

/-- **Prepared tasks.**  A task is prepared from the graph that it was planned from, with the
associations of both later reads; and every report adds up, that of a failure too. -/
theorem prepared_from_snapshot (hread : first.readSnapshot c = .ok (plain graph)) :
    (∀ t, prepareFromSnapshot c contentHash sources graph gapId actionId second third = .ok t →
      Prepared c contentHash graph second third t)
    ∧ ∀ e r, prepareFromSnapshot c contentHash sources graph gapId actionId second third = .error e →
      e.selection = some r → ReportAddsUp r := by
  rw [prepareFromSnapshot]
  cases hplan : plan c contentHash (plain graph).1 (plain graph).2 gapId actionId with
  | error message =>
    refine ⟨fun t ht => ?_, fun e r he hr => ?_⟩
    · cases ht
    obtain rfl := Except.error.inj he
    cases hr
  | ok p =>
    have hends : Ends _ (preparePlan c contentHash sources graph p second third)
        (fun t _ => Prepared c contentHash graph second third t) Reported :=
      ends_preparePlan hread hplan
    refine ⟨fun t ht => ?_, fun e r he hr => ?_⟩
    · exact hends.ok _ t _ rfl (Prod.ext ht rfl)
    · exact hends.error _ e _ rfl (Prod.ext he rfl) r hr

end

namespace Sample

def digits : String := "0000000000000000000000000000000000000000000000000000000000000000"

def noProps : Json.Value := ContextHub.Sample.none

/-- A fact with a place in a file. -/
def cited : Json.Value where
  json := .obj [("prov", Provenance.toJson
    { tier := .deterministic
      confidenceTier := .confirmed
      evidence := [⟨"o/r", "a.ts", 0, 9, "c"⟩]
      extractorId := "t0"
      contentHash := digits })]
  distinct := by
    simp [Json.Distinct, Json.fieldsDistinct, Json.itemsDistinct, Provenance.toJson,
      EvidenceRef.toJson, Json.nat]
  numeric := by
    simp [Json.Numeric, Json.fieldsNumeric, Json.itemsNumeric, Provenance.toJson,
      EvidenceRef.toJson, Json.numeric_nat]

/-- A symbol calls another, and something unresolved. -/
def planned : List (Node Json.Value) × List (Edge Json.Value) :=
  ([⟨"gap:1", "Gap", noProps⟩, ⟨"sym:a", "Symbol", cited⟩, ⟨"sym:b", "Symbol", cited⟩],
    [⟨"sym:a", "gap:1", "CALLS", noProps⟩, ⟨"sym:a", "sym:b", "CALLS", noProps⟩])

def plannedCodec : Codec Json where
  toText v := if confidence v = .confirmed then "cited" else "none"
  fromText text := some (if text = "cited" then cited.json else noProps.json)
  nodeDigest _ := "node-v1:" ++ digits
  edgeDigest _ := "edge-v1:" ++ digits

/-- The graph, with the association of one of its symbols. -/
def plannedStore (bindings : Table String BindingRow) : Store where
  nodes := ⟨[("gap:1", ⟨"Gap", "none"⟩), ("sym:a", ⟨"Symbol", "cited"⟩),
    ("sym:b", ⟨"Symbol", "cited"⟩)], by decide⟩
  edges := ⟨[(edgeKey "sym:a" "gap:1" "CALLS", "none"), (edgeKey "sym:a" "sym:b" "CALLS", "none")],
    by decide⟩
  nodeBindings := bindings
  edgeBindings := .empty

theorem plannedStore_read (bindings : Table String BindingRow) :
    (plannedStore bindings).readSnapshot plannedCodec = .ok (plain planned) := by
  rfl

def source : RegisteredSource := ⟨"source", "o/r", "o/r", "/repo", none, true⟩

/-- A registered checkout whose files can be read. -/
def checkout : TaskSources Unit Unit where
  getByRepo _ := .ok source
  acquire _ := .ok ()
  taskGuard _ := .error .operational
  readSpan _ _ := some "b(order);"
  taskReceipt _ _ _ _ _ := .error .unavailable
  taskText _ _ _ := .error .unavailable

/-- The preparation of the gap, with no association at either later read. -/
def preparation : Except TaskPreparationError (PreparedAgentTask FlowTracer.Sample.noHash) :=
  prepareFromSnapshot plannedCodec FlowTracer.Sample.noHash checkout planned "gap:1" "action"
    (some (plannedStore .empty)) (some (plannedStore .empty))

/-- A prepared task has selected a symbol without an association. -/
def selectsUnbound : Except TaskPreparationError (PreparedAgentTask FlowTracer.Sample.noHash) → Bool
  | .ok t => t.sourceBasis.selectedFacts.any fun f => f.fact == .node "sym:a" && f.binding == none
  | .error _ => false

theorem preparation_evaluated : selectsUnbound preparation = true := by
  decide +kernel

theorem preparation_ok : ∃ t, preparation = .ok t
    ∧ ∃ f ∈ t.sourceBasis.selectedFacts, f.fact = .node "sym:a" ∧ f.binding = none := by
  have hevaluated := preparation_evaluated
  cases h : preparation with
  | error e =>
    rw [h] at hevaluated
    cases hevaluated
  | ok t =>
    rw [h] at hevaluated
    obtain ⟨f, hf, hunbound⟩ := List.any_eq_true.mp hevaluated
    simp only [Bool.and_eq_true, beq_iff_eq] at hunbound
    exact ⟨t, rfl, f, hf, hunbound⟩

/-- The association that the symbol had when the task was planned. -/
def bound : Table String BindingRow :=
  Table.empty.put "sym:a" ⟨"o/r", "ts-primary-v1:" ++ digits, "node-v1:" ++ digits⟩

end Sample

theorem prepared_from_snapshot_sample : ∃ t, Sample.preparation = .ok t
    ∧ Prepared Sample.plannedCodec FlowTracer.Sample.noHash Sample.planned
      (some (Sample.plannedStore .empty)) (some (Sample.plannedStore .empty)) t := by
  obtain ⟨t, ht, -⟩ := Sample.preparation_ok
  exact ⟨t, ht, (prepared_from_snapshot (Sample.plannedStore_read .empty)).1 t ht⟩

/-- An association may be removed after the graph was read for planning. -/
theorem binding_not_planned : ¬∀ (Operation Guard : Type) (sources : TaskSources Operation Guard)
    (c : Codec Json) (contentHash : String → Hash)
    (graph : List (Node Json.Value) × List (Edge Json.Value)) (gapId actionId : String)
    (first : Store) (second third : Option Store), first.readSnapshot c = .ok (plain graph) →
    ∀ t, prepareFromSnapshot c contentHash sources graph gapId actionId second third = .ok t →
      ∀ f ∈ t.sourceBasis.selectedFacts, ∃ fact, f.fact = taskFact fact
        ∧ association first fact = f.binding := by
  intro hall
  obtain ⟨t, ht, f, hf, hfact, hbinding⟩ := Sample.preparation_ok
  obtain ⟨fact, hsame, hassociation⟩ := hall Unit Unit Sample.checkout Sample.plannedCodec
    FlowTracer.Sample.noHash Sample.planned "gap:1" "action" (Sample.plannedStore Sample.bound) _ _
    (Sample.plannedStore_read Sample.bound) t ht f hf
  rw [hfact] at hsame
  rw [hbinding] at hassociation
  cases fact with
  | node id =>
    obtain rfl := TaskFactKey.node.inj hsame
    cases hassociation
  | edge source label destination => cases hsame

end TaskEvidence
