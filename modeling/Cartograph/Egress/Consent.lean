/-
Consent to egress, over whole runs.

Callers preview, complete, prepare, authorize and send in any order, each call under its own
policy and with its own provider; a prepared or an authorized input is one the firewall made
before.  A grant is accepted by its hash, and the hashed text has everything a preview shows.

* `consentJson_injective`, `boundedConsentJson_injective` — what a hashed text determines;
* `Shown.sameAction` — a grant that is accepted was given for the same action;
* `egress_consent` — what is sent is what was shown, to a local provider, or under the policy and
  with a grant for it.
-/
import Cartograph.ContextHub.Identity
import Cartograph.Egress.Firewall

namespace Egress

open Checked Specialist Json
open ContextHub (CollisionFree)

/-! ### What a hashed text determines -/

theorem Locality.json_injective {a b : Locality} (h : Locality.json a = Locality.json b) :
    a = b := by
  cases a <;> cases b <;> first | rfl | exact absurd (Json.str.inj h) (by decide)

theorem AnalysisTier.json_injective {a b : AnalysisTier} (h : a.json = b.json) : a = b := by
  cases a <;> cases b <;> first | rfl | exact absurd (Json.str.inj h) (by decide)

theorem PayloadSpan.json_injective {a b : PayloadSpan} (h : a.json = b.json) : a = b := by
  simp only [PayloadSpan.json, Json.obj.injEq, List.cons.injEq, Prod.mk.injEq, true_and, and_true,
    Json.str.injEq] at h
  obtain ⟨hid, hrepo, hpath, hstart, hend, hcommit, htext⟩ := h
  have hstart := UInt64.toNat_inj.mp (nat_injective hstart)
  have hend := UInt64.toNat_inj.mp (nat_injective hend)
  cases a
  cases b
  simp_all

theorem CompletionPayload.json_injective {a b : CompletionPayload} (h : a.json = b.json) :
    a = b := by
  simp only [CompletionPayload.json, Json.obj.injEq, List.cons.injEq, Prod.mk.injEq, true_and,
    and_true, Json.str.injEq, Json.arr.injEq] at h
  obtain ⟨hsystem, hprompt, hspans⟩ := h
  have hspans := List.map_injective_iff.mpr (fun _ _ h => PayloadSpan.json_injective h) hspans
  cases a
  cases b
  simp_all

theorem profileJson_injective {a b : ProviderProfile} (h : profileJson a = profileJson b) :
    a = b := by
  simp only [profileJson, Json.obj.injEq, List.cons.injEq, Prod.mk.injEq, true_and, and_true,
    Json.str.injEq] at h
  obtain ⟨hversion, hid, hlocality, hendpoint, hmodel⟩ := h
  have hlocality := Locality.json_injective hlocality
  cases a
  cases b
  simp_all

theorem CompletionLimits.json_injective {a b : CompletionLimits} (h : a.json = b.json) :
    a = b := by
  simp only [CompletionLimits.json, Json.obj.injEq, List.cons.injEq, Prod.mk.injEq, true_and,
    and_true] at h
  obtain ⟨hinput, hrequest, hresponse, houtput, htokens, htimeout⟩ := h
  have hinput := nat_injective hinput
  have hrequest := nat_injective hrequest
  have hresponse := nat_injective hresponse
  have houtput := nat_injective houtput
  have htokens := nat_injective htokens
  have htimeout := nat_injective htimeout
  obtain ⟨⟨_, _, _, _, _, _⟩, _⟩ := a
  obtain ⟨⟨_, _, _, _, _, _⟩, _⟩ := b
  simp_all

variable {actionId actionId' : String} {p p' : CompletionPayload} {t t' : AnalysisTier}

theorem consentJson_injective {id id' : String} {l l' : Locality}
    (h : consentJson id l t actionId p = consentJson id' l' t' actionId' p') :
    id = id' ∧ l = l' ∧ t = t' ∧ actionId = actionId' ∧ p = p' := by
  simp only [consentJson, Json.arr.injEq, List.cons.injEq, Json.str.injEq, and_true] at h
  obtain ⟨hid, hlocality, htier, haction, hpayload⟩ := h
  exact ⟨hid, Locality.json_injective hlocality, AnalysisTier.json_injective htier, haction,
    CompletionPayload.json_injective hpayload⟩

theorem boundedConsentJson_injective {profile profile' : ProviderProfile}
    {limits limits' : CompletionLimits}
    (h : boundedConsentJson profile limits t actionId p
      = boundedConsentJson profile' limits' t' actionId' p') :
    profile = profile' ∧ limits = limits' ∧ t = t' ∧ actionId = actionId' ∧ p = p' := by
  simp only [boundedConsentJson, Json.arr.injEq, List.cons.injEq, Json.str.injEq, and_true,
    true_and] at h
  obtain ⟨hprofile, hlimits, htier, haction, hpayload⟩ := h
  exact ⟨profileJson_injective hprofile, CompletionLimits.json_injective hlimits,
    AnalysisTier.json_injective htier, haction, CompletionPayload.json_injective hpayload⟩

theorem consentJson_ne_boundedConsentJson (id : String) (l : Locality) (t t' : AnalysisTier)
    (actionId actionId' : String) (p p' : CompletionPayload) (profile : ProviderProfile)
    (limits : CompletionLimits) :
    consentJson id l t actionId p ≠ boundedConsentJson profile limits t' actionId' p' := by
  intro h
  have hlength := congrArg List.length (Json.arr.inj h)
  simp at hlength

/-! ### Texts of numbers -/

theorem Locality.numeric (l : Locality) : (Locality.json l).Numeric := by
  cases l <;> trivial

theorem AnalysisTier.numeric (t : AnalysisTier) : t.json.Numeric := by
  cases t <;> trivial

theorem PayloadSpan.numeric (span : PayloadSpan) : span.json.Numeric :=
  ⟨trivial, trivial, trivial, numeric_nat _, numeric_nat _, trivial, trivial, trivial⟩

theorem CompletionPayload.numeric (payload : CompletionPayload) : payload.json.Numeric := by
  refine ⟨trivial, trivial, itemsNumeric_iff.mpr fun j hj => ?_, trivial⟩
  obtain ⟨span, -, rfl⟩ := List.mem_map.mp hj
  exact span.numeric

theorem consentJson_numeric (id : String) (l : Locality) (t : AnalysisTier) (actionId : String)
    (p : CompletionPayload) : (consentJson id l t actionId p).Numeric :=
  ⟨trivial, Locality.numeric l, t.numeric, trivial, p.numeric, trivial⟩

theorem boundedConsentJson_numeric (profile : ProviderProfile) (limits : CompletionLimits)
    (t : AnalysisTier) (actionId : String) (p : CompletionPayload) :
    (boundedConsentJson profile limits t actionId p).Numeric := by
  refine ⟨trivial, ⟨trivial, trivial, Locality.numeric _, trivial, trivial, trivial⟩, ?_,
    t.numeric, trivial, p.numeric, trivial⟩
  exact ⟨numeric_nat _, numeric_nat _, numeric_nat _, numeric_nat _, numeric_nat _,
    numeric_nat _, trivial⟩

/-! ### What was shown -/

/-- A preview of either protocol. -/
inductive Shown
  | plain (preview : EgressPreview)
  | bounded (preview : BoundedEgressPreview)

def Shown.egress : Shown → EgressPreview
  | .plain preview => preview
  | .bounded preview => preview.egress

def Shown.content : Shown → Json
  | .plain preview => consentJson preview.providerId preview.locality preview.tier
      preview.actionId preview.payload
  | .bounded preview => boundedConsentJson preview.profile preview.limits preview.egress.tier
      preview.egress.actionId preview.egress.payload

/-- The two show the same redacted payload, for the same provider, tier and action, and in the
bounded protocol under the same profile and limits. -/
def Shown.SameAction : Shown → Shown → Prop
  | .plain p, .plain q => p.payload = q.payload ∧ p.providerId = q.providerId
      ∧ p.locality = q.locality ∧ p.tier = q.tier ∧ p.actionId = q.actionId
  | .bounded p, .bounded q => p.egress.payload = q.egress.payload
      ∧ p.egress.providerId = q.egress.providerId ∧ p.egress.locality = q.egress.locality
      ∧ p.egress.tier = q.egress.tier ∧ p.egress.actionId = q.egress.actionId
      ∧ p.profile = q.profile ∧ p.limits = q.limits
  | _, _ => False

section

variable {preview : EgressPreview} {firewall : EgressFirewall} {provider : LlmProvider}
  {action : CompletionAction} {consent : Option ConsentGrant} {prepared : PreparedBoundedCompletion}
  {request : AuthorizedBoundedCompletion} {s : State} {tr : List Event}

section Firewall

variable (env : Env)

/-- A preview the firewall made. -/
def Shown.Made : Shown → Prop
  | .plain p => p.payloadHash = env.hash (Shown.plain p).content.render
  | .bounded p => p.egress.payloadHash = env.hash (Shown.bounded p).content.render
      ∧ p.egress.providerId = p.profile.providerId ∧ p.egress.locality = p.profile.locality

theorem Shown.Made.hash {shown : Shown} (h : shown.Made env) :
    shown.egress.payloadHash = env.hash shown.content.render := by
  cases shown with
  | plain p => exact h
  | bounded p => exact h.1

theorem Shown.numeric (shown : Shown) : shown.content.Numeric := by
  cases shown with
  | plain p => exact consentJson_numeric ..
  | bounded p => exact boundedConsentJson_numeric ..

variable {env}

theorem matches_iff {grant : ConsentGrant} :
    grant.matches preview = true ↔ grant = .fromPreview preview := by
  cases grant
  simp [ConsentGrant.matches, ConsentGrant.fromPreview, and_assoc]

/-- **A grant is for one action**: two previews with one grant show the same action, unless their
texts collide. -/
theorem Shown.sameAction {p q : Shown} (hp : p.Made env) (hq : q.Made env)
    (hgrant : ConsentGrant.fromPreview p.egress = .fromPreview q.egress)
    (hfree : CollisionFree env.hash p.content.render q.content.render) : p.SameAction q := by
  have hhash : p.egress.payloadHash = q.egress.payloadHash :=
    congrArg ConsentGrant.payloadHash hgrant
  rw [hp.hash, hq.hash] at hhash
  have hcontent : p.content = q.content :=
    render_injective p.numeric q.numeric (hfree hhash)
  cases p with
  | plain p =>
    cases q with
    | plain q =>
      obtain ⟨hid, hlocality, htier, haction, hpayload⟩ := consentJson_injective hcontent
      exact ⟨hpayload, hid, hlocality, htier, haction⟩
    | bounded q => exact consentJson_ne_boundedConsentJson _ _ _ _ _ _ _ _ _ _ hcontent
  | bounded p =>
    cases q with
    | plain q => exact consentJson_ne_boundedConsentJson _ _ _ _ _ _ _ _ _ _ hcontent.symm
    | bounded q =>
      obtain ⟨hprofile, hlimits, htier, haction, hpayload⟩ := boundedConsentJson_injective hcontent
      refine ⟨hpayload, ?_, ?_, htier, haction, hprofile, hlimits⟩
      · exact hp.2.1.trans ((congrArg _ hprofile).trans hq.2.1.symm)
      · exact hp.2.2.trans ((congrArg _ hprofile).trans hq.2.2.symm)

/-! ### The calls -/

theorem preview_ok (h : firewall.preview env provider action = .ok preview) :
    (Shown.plain preview).Made env ∧ preview.providerId = provider.id
      ∧ preview.locality = provider.locality ∧ preview.tier = action.tier
      ∧ preview.actionId = action.actionId
      ∧ preview.payload = (redactPayload env.words action.payload).1
      ∧ (preview.locality = .cloud → firewall.policy.cloudAllowed preview.tier = true) := by
  simp only [EgressFirewall.preview, bind_eq_ok, ensure_eq_ok, pure_eq_ok] at h
  obtain ⟨-, -, -, hpolicy, rfl⟩ := h
  refine ⟨rfl, rfl, rfl, rfl, rfl, rfl, fun hcloud => ?_⟩
  by_contra hdenied
  exact hpolicy ⟨hcloud, by simpa using hdenied⟩

theorem checkConsent_ok {ε : Type} {locality : Locality} {required mismatch : ε} {u : Unit} :
    checkConsent locality consent preview required mismatch = .ok u
      ↔ (locality = .cloud → consent = some (.fromPreview preview)) := by
  by_cases hcloud : locality = .cloud
  · simp [checkConsent, hcloud, bind_eq_ok, orFail_eq_ok, ensure_eq_ok, matches_iff]
  · simp [checkConsent, hcloud, pure, Except.pure]

theorem request_ok {request : ProviderCompletionRequest} :
    firewall.request env provider action consent = .ok request ↔
      ∃ preview, firewall.preview env provider action = .ok preview
        ∧ (preview.locality = .cloud → consent = some (.fromPreview preview))
        ∧ request = ⟨preview.payload⟩ := by
  simp only [EgressFirewall.request, bind_eq_ok, checkConsent_ok, pure_eq_ok]
  constructor
  · rintro ⟨preview, hpreview, -, hconsent, rfl⟩
    exact ⟨preview, hpreview, hconsent, rfl⟩
  · rintro ⟨preview, hpreview, hconsent, rfl⟩
    exact ⟨preview, hpreview, (), hconsent, rfl⟩

theorem complete_handed {request : ProviderCompletionRequest} :
    (firewall.complete env provider action consent).1 = some request ↔
      firewall.request env provider action consent = .ok request := by
  unfold EgressFirewall.complete
  cases firewall.request env provider action consent with
  | error e => simp
  | ok request' => simp

theorem prepareBounded_ok {limits : CompletionLimits}
    (h : firewall.prepareBounded env provider action limits = .ok prepared) :
    (Shown.bounded prepared.preview).Made env
      ∧ provider.boundedProfile = .ok prepared.preview.profile
      ∧ prepared.preview.limits = limits ∧ prepared.preview.egress.tier = action.tier
      ∧ prepared.preview.egress.actionId = action.actionId
      ∧ prepared.preview.egress.payload = (redactBounded env.words action.payload).1 := by
  simp only [EgressFirewall.prepareBounded, encode, bind_eq_ok, pure_eq_ok] at h
  obtain ⟨profile, hprofile, -, -, -, -, -, -, -, -, -, -, -, -, -, -, -, -, _, ⟨-, -, rfl⟩, rfl⟩ := h
  exact ⟨⟨rfl, rfl, rfl⟩, hprofile, rfl, rfl, rfl, rfl⟩

theorem authorizeBounded_ok
    (h : firewall.authorizeBounded env provider prepared consent = .ok request) :
    request.preview = prepared.preview
      ∧ provider.boundedProfile = .ok prepared.preview.profile
      ∧ prepared.preview.profile.providerId = provider.id
      ∧ prepared.preview.profile.locality = provider.locality
      ∧ (prepared.preview.profile.locality = .cloud →
        firewall.policy.cloudAllowed prepared.preview.egress.tier = true
          ∧ consent = some (.fromPreview prepared.preview.egress)) := by
  simp only [EgressFirewall.authorizeBounded, validateProvider, checkPolicy, bind_eq_ok,
    ensure_eq_ok, checkConsent_ok, pure_eq_ok] at h
  obtain ⟨profile, hprofile, -, ⟨-, -, -, -, hid, hlocality⟩, -, rfl, -, hpolicy, -, hconsent, rfl⟩ := h
  refine ⟨rfl, hprofile, hid, hlocality, fun hcloud => ⟨?_, hconsent hcloud⟩⟩
  by_contra hdenied
  exact hpolicy ⟨hcloud, by simpa using hdenied⟩

variable {control : CompletionControl}

theorem completeBounded_handed {handed : AuthorizedBoundedCompletion}
    (h : (provider.completeBounded env request control).1 = some handed) :
    handed = request ∧ provider.boundedProfile = .ok request.preview.profile := by
  unfold LlmProvider.completeBounded at h
  simp only at h
  split at h
  · exact absurd h (by simp)
  · rename_i hchecked
    simp only [checkRequest, bind_eq_ok, ensure_eq_ok] at hchecked
    obtain ⟨profile, hprofile, -, -, -, hsame, -⟩ := hchecked
    exact ⟨(Option.some.inj h).symm, hsame ▸ hprofile⟩

/-! ### Runs of calls -/

/-- A call, with the policy and the provider it is made with.  Prepared and authorized input is
named by the order it was made in. -/
inductive Op
  | preview (firewall : EgressFirewall) (provider : LlmProvider) (action : CompletionAction)
  | complete (firewall : EgressFirewall) (provider : LlmProvider) (action : CompletionAction)
      (consent : Option ConsentGrant)
  | prepareBounded (firewall : EgressFirewall) (provider : LlmProvider)
      (action : CompletionAction) (limits : CompletionLimits)
  | authorizeBounded (firewall : EgressFirewall) (provider : LlmProvider) (prepared : ℕ)
      (consent : Option ConsentGrant)
  | completeBounded (provider : LlmProvider) (request : ℕ) (control : CompletionControl)

inductive Out
  | preview (result : Except ProviderError EgressPreview)
  | complete (handed : Option ProviderCompletionRequest)
      (result : Except ProviderError Completion)
  | prepareBounded (result : Bounded PreparedBoundedCompletion)
  | authorizeBounded (result : Bounded AuthorizedBoundedCompletion)
  | completeBounded (handed : Option AuthorizedBoundedCompletion)
      (result : Bounded BoundedCompletion)
  -- no such input was made
  | missing

/-- The inputs the firewall made so far. -/
structure State where
  prepared : List PreparedBoundedCompletion
  authorized : List AuthorizedBoundedCompletion

def State.step (env : Env) (s : State) : Op → State × Out
  | .preview firewall provider action => (s, .preview (firewall.preview env provider action))
  | .complete firewall provider action consent =>
    let (handed, result) := firewall.complete env provider action consent
    (s, .complete handed result)
  | .prepareBounded firewall provider action limits =>
    match firewall.prepareBounded env provider action limits with
    | .error error => (s, .prepareBounded (.error error))
    | .ok prepared =>
      ({ s with prepared := s.prepared ++ [prepared] }, .prepareBounded (.ok prepared))
  | .authorizeBounded firewall provider index consent =>
    match s.prepared[index]? with
    | none => (s, .missing)
    | some prepared =>
      match firewall.authorizeBounded env provider prepared consent with
      | .error error => (s, .authorizeBounded (.error error))
      | .ok request =>
        ({ s with authorized := s.authorized ++ [request] }, .authorizeBounded (.ok request))
  | .completeBounded provider index control =>
    match s.authorized[index]? with
    | none => (s, .missing)
    | some request =>
      let (handed, result) := provider.completeBounded env request control
      (s, .completeBounded handed result)

def machine (env : Env) : Machine State Op Out where
  init := fun s => s = ⟨[], []⟩
  enabled := fun _ _ => True
  step := State.step env

theorem machine_step (env : Env) : (machine env).step = State.step env := rfl

abbrev Event := Machine.Event State Op Out

/-- The preview a call showed.  An error of the provider itself shows nothing. -/
def Out.shown : Out → Option Shown
  | .preview (.ok shown) => some (.plain shown)
  | .complete none (.error (.consentRequired shown)) => some (.plain shown)
  | .prepareBounded (.ok prepared) => some (.bounded prepared.preview)
  | _ => none

/-- What is sent may be sent: the provider is local, or the policy allows the tier and the caller
has a grant, which was given for this action if it was given for a preview of the run. -/
def Consented (env : Env) (tr : List Event) (policy : EgressPolicy) (consent : Option ConsentGrant)
    (sent : Shown) : Prop :=
  sent.egress.locality = .onDevice ∨
    policy.cloudAllowed sent.egress.tier = true
      ∧ ∃ grant, consent = some grant ∧ grant.matches sent.egress = true
        ∧ ∀ e ∈ tr, ∀ shown, e.out.shown = some shown → grant = .fromPreview shown.egress →
          CollisionFree env.hash shown.content.render sent.content.render → shown.SameAction sent

/-! ### One call -/

theorem preview_of_consentRequired
    (h : firewall.request env provider action consent = .error (.consentRequired preview)) :
    firewall.preview env provider action = .ok preview := by
  simp only [EgressFirewall.request, bind_eq_error] at h
  rcases h with hpreview | ⟨preview', hpreview, hconsent | ⟨_, -, hpure⟩⟩
  · -- the checks of a preview fail otherwise
    simp only [EgressFirewall.preview, bind_eq_error, ensure_eq_error, pure_ne_error] at hpreview
    rcases hpreview with ⟨-, hother⟩ | ⟨_, -, ⟨-, hother⟩ | ⟨_, -, hnever⟩⟩
    · cases hother
    · cases hother
    · exact hnever.elim
  · by_cases hcloud : preview'.locality = .cloud
    · simp only [checkConsent, hcloud, if_true, bind_eq_error, orFail_eq_error, ensure_eq_error] at hconsent
      rcases hconsent with ⟨-, hsame⟩ | ⟨_, -, -, hmismatch⟩
      · rw [hpreview, ProviderError.consentRequired.inj hsame]
      · cases hmismatch
    · simp [checkConsent, hcloud, pure_ne_error] at hconsent
  · exact absurd hpure pure_ne_error

theorem step_shown {s : State} {op : Op} {shown : Shown}
    (hshown : (s.step env op).2.shown = some shown) : shown.Made env := by
  cases op with
  | preview firewall provider action =>
    cases hpreview : firewall.preview env provider action with
    | error e => simp [State.step, hpreview, Out.shown] at hshown
    | ok preview =>
      simp only [State.step, hpreview, Out.shown, Option.some.injEq] at hshown
      exact hshown ▸ (preview_ok hpreview).1
  | complete firewall provider action consent =>
    cases hrequest : firewall.request env provider action consent with
    | ok request =>
      simp [State.step, EgressFirewall.complete, hrequest, Out.shown] at hshown
    | error e =>
      cases e with
      | consentRequired preview =>
        simp only [State.step, EgressFirewall.complete, hrequest, Out.shown, Option.some.injEq] at hshown
        exact hshown ▸ (preview_ok (preview_of_consentRequired hrequest)).1
      | _ => simp [State.step, EgressFirewall.complete, hrequest, Out.shown] at hshown
  | prepareBounded firewall provider action limits =>
    cases hprepared : firewall.prepareBounded env provider action limits with
    | error e => simp [State.step, hprepared, Out.shown] at hshown
    | ok prepared =>
      simp only [State.step, hprepared, Out.shown, Option.some.injEq] at hshown
      exact hshown ▸ (prepareBounded_ok hprepared).1
  | authorizeBounded firewall provider index consent =>
    simp only [State.step] at hshown
    split at hshown
    · simp [Out.shown] at hshown
    · split at hshown <;> simp [Out.shown] at hshown
  | completeBounded provider index control =>
    simp only [State.step] at hshown
    split at hshown <;> simp [Out.shown] at hshown

theorem step_prepared {op : Op} (hmem : prepared ∈ (s.step env op).1.prepared) :
    prepared ∈ s.prepared ∨ ∃ firewall provider action limits,
      op = .prepareBounded firewall provider action limits
        ∧ (s.step env op).2 = .prepareBounded (.ok prepared)
        ∧ firewall.prepareBounded env provider action limits = .ok prepared := by
  cases op with
  | prepareBounded firewall provider action limits =>
    cases hprepared : firewall.prepareBounded env provider action limits with
    | error e =>
      simp only [State.step, hprepared] at hmem
      exact .inl hmem
    | ok made =>
      simp only [State.step, hprepared, List.mem_append, List.mem_singleton] at hmem
      rcases hmem with hmem | rfl
      · exact .inl hmem
      · exact .inr ⟨firewall, provider, action, limits, rfl, by simp [State.step, hprepared],
          hprepared⟩
  | authorizeBounded firewall provider index consent =>
    simp only [State.step] at hmem
    split at hmem
    · exact .inl hmem
    · split at hmem <;> exact .inl hmem
  | completeBounded provider index control =>
    simp only [State.step] at hmem
    split at hmem <;> exact .inl hmem
  | _ => exact .inl hmem

theorem step_authorized {op : Op} (hmem : request ∈ (s.step env op).1.authorized) :
    request ∈ s.authorized ∨ ∃ firewall provider index consent, ∃ prepared ∈ s.prepared,
      op = .authorizeBounded firewall provider index consent
        ∧ (s.step env op).2 = .authorizeBounded (.ok request)
        ∧ firewall.authorizeBounded env provider prepared consent = .ok request := by
  cases op with
  | prepareBounded firewall provider action limits | completeBounded provider index control =>
    simp only [State.step] at hmem
    split at hmem <;> exact .inl hmem
  | authorizeBounded firewall provider index consent =>
    cases hindex : s.prepared[index]? with
    | none =>
      simp only [State.step, hindex] at hmem
      exact .inl hmem
    | some prepared =>
      cases hrequest : firewall.authorizeBounded env provider prepared consent with
      | error e =>
        simp only [State.step, hindex, hrequest] at hmem
        exact .inl hmem
      | ok made =>
        simp only [State.step, hindex, hrequest, List.mem_append, List.mem_singleton] at hmem
        rcases hmem with hmem | rfl
        · exact .inl hmem
        · exact .inr ⟨firewall, provider, index, consent, prepared, List.mem_of_getElem? hindex,
            rfl, by simp [State.step, hindex, hrequest], hrequest⟩
  | _ => exact .inl hmem

theorem step_handed {s' : State} {index : ℕ}
    {result : Bounded BoundedCompletion} (h : s.step env (.completeBounded provider index control)
      = (s', .completeBounded (some request) result)) :
    request ∈ s.authorized ∧ provider.boundedProfile = .ok request.preview.profile := by
  simp only [State.step] at h
  split at h
  · exact absurd (Prod.mk.inj h).2 (by simp)
  · rename_i authorized hindex
    obtain ⟨hhanded, -⟩ := Out.completeBounded.inj (Prod.mk.inj h).2
    obtain ⟨rfl, hprofile⟩ := completeBounded_handed hhanded
    exact ⟨List.mem_of_getElem? hindex, hprofile⟩

/-! ### Runs -/

/-- Some call of the run made this input, and its payload is a redacted one. -/
def Prepared (env : Env) (tr : List Event) (prepared : PreparedBoundedCompletion) : Prop :=
  ∃ e ∈ tr, ∃ firewall provider action limits,
    e.op = .prepareBounded firewall provider action limits
      ∧ e.out = .prepareBounded (.ok prepared)
      ∧ prepared.preview.egress.payload = (redactBounded env.words action.payload).1

theorem Prepared.mono {tr' : List Event} (h : Prepared env tr prepared) (hsub : ∀ e ∈ tr, e ∈ tr') :
    Prepared env tr' prepared := by
  obtain ⟨e, he, hmade⟩ := h
  exact ⟨e, hsub e he, hmade⟩

/-- Some call of the run authorized this input, which was prepared before. -/
def Authorized (env : Env) (tr : List Event) (request : AuthorizedBoundedCompletion) : Prop :=
  ∃ e ∈ tr, ∃ firewall provider index consent prepared,
    e.op = .authorizeBounded firewall provider index consent
      ∧ e.out = .authorizeBounded (.ok request) ∧ Prepared env tr prepared
      ∧ firewall.authorizeBounded env provider prepared consent = .ok request

theorem Authorized.mono {tr' : List Event} (h : Authorized env tr request)
    (hsub : ∀ e ∈ tr, e ∈ tr') : Authorized env tr' request := by
  obtain ⟨e, he, firewall, provider, index, consent, prepared, hop, hout, hprepared, hmade⟩ := h
  exact ⟨e, hsub e he, firewall, provider, index, consent, prepared, hop, hout,
    hprepared.mono hsub, hmade⟩

theorem steps_made (h : (machine env).Steps ⟨[], []⟩ tr s) :
    (∀ prepared ∈ s.prepared, Prepared env tr prepared)
      ∧ ∀ request ∈ s.authorized, Authorized env tr request := by
  induction h with
  | refl => exact ⟨fun _ hmem => absurd hmem (by simp), fun _ hmem => absurd hmem (by simp)⟩
  | @snoc tr s1 s2 op out hs hen hstep ih =>
    obtain ⟨hprepared, hauthorized⟩ := ih
    have hsub : ∀ e ∈ tr, e ∈ tr ++ [⟨s1, op, out, s2⟩] := fun e he => List.mem_append_left _ he
    have hlast : (⟨s1, op, out, s2⟩ : Event) ∈ tr ++ [⟨s1, op, out, s2⟩] := by simp
    have hpost : (s1.step env op).1 = s2 := congrArg Prod.fst hstep
    have hresult : (s1.step env op).2 = out := congrArg Prod.snd hstep
    constructor
    · intro prepared hmem
      rcases step_prepared (hpost ▸ hmem) with
        hold | ⟨firewall, provider, action, limits, hop, hout, hok⟩
      · exact (hprepared prepared hold).mono hsub
      · exact ⟨_, hlast, firewall, provider, action, limits, hop, hresult.symm.trans hout,
          (prepareBounded_ok hok).2.2.2.2.2⟩
    · intro request hmem
      rcases step_authorized (hpost ▸ hmem) with
        hold | ⟨firewall, provider, index, consent, prepared, hmem, hop, hout, hok⟩
      · exact (hauthorized request hold).mono hsub
      · exact ⟨_, hlast, firewall, provider, index, consent, prepared, hop,
          hresult.symm.trans hout, (hprepared prepared hmem).mono hsub, hok⟩

theorem steps_shown {s s0 : State} {tr : List Event} (h : (machine env).Steps s0 tr s) {e : Event}
    (he : e ∈ tr) {shown : Shown} (hshown : e.out.shown = some shown) : shown.Made env := by
  obtain ⟨_, _, _, _, _, hstep, _⟩ := h.split he
  have hout : (e.pre.step env e.op).2 = e.out := congrArg Prod.snd hstep
  exact step_shown (hout ▸ hshown)

theorem consented {s s0 : State} {tr : List Event} (h : (machine env).Steps s0 tr s)
    {policy : EgressPolicy} {consent : Option ConsentGrant} {sent : Shown} (hsent : sent.Made env)
    (hcloud : sent.egress.locality = .cloud → policy.cloudAllowed sent.egress.tier = true
      ∧ consent = some (.fromPreview sent.egress)) :
    Consented env tr policy consent sent := by
  cases hlocality : sent.egress.locality with
  | onDevice => exact .inl hlocality
  | cloud =>
    obtain ⟨hallowed, hconsent⟩ := hcloud hlocality
    refine .inr ⟨hallowed, _, hconsent, matches_iff.mpr rfl, ?_⟩
    intro e he shown hshown hgrant hfree
    exact Shown.sameAction (steps_shown h he hshown) hsent hgrant.symm hfree

/-- **Egress needs consent.**  In every run of calls: a provider that is handed a payload is local,
or the policy of the call allows its tier and the grant of the call is for this very action; and
the payload is the redacted one that a preview shows. -/
theorem egress_consent {s : State} {tr tr₁ tr₂ : List Event} {e : Event}
    (h : (machine env).Steps ⟨[], []⟩ tr s) (htr : tr = tr₁ ++ e :: tr₂) :
    (∀ firewall provider action consent request result,
      e.op = .complete firewall provider action consent →
      e.out = .complete (some request) result →
      ∃ preview, firewall.preview env provider action = .ok preview
        ∧ request.payload = preview.payload
        ∧ preview.payload = (redactPayload env.words action.payload).1
        ∧ preview.providerId = provider.id ∧ preview.locality = provider.locality
        ∧ preview.tier = action.tier ∧ preview.actionId = action.actionId
        ∧ Consented env tr firewall.policy consent (.plain preview))
    ∧ (∀ provider index control request result,
      e.op = .completeBounded provider index control →
      e.out = .completeBounded (some request) result →
      provider.boundedProfile = .ok request.preview.profile
        ∧ ∃ e₁ ∈ tr₁, ∃ firewall provider₁ index₁ consent,
          e₁.op = .authorizeBounded firewall provider₁ index₁ consent
            ∧ e₁.out = .authorizeBounded (.ok request)
            ∧ Prepared env tr₁ ⟨request.preview⟩
            ∧ provider₁.boundedProfile = .ok request.preview.profile
            ∧ provider₁.id = request.preview.egress.providerId
            ∧ provider₁.locality = request.preview.egress.locality
            ∧ Consented env tr firewall.policy consent (.bounded request.preview)) := by
  obtain ⟨hbefore, -, hstep, -⟩ := h.around htr
  constructor
  · intro firewall provider action consent request result hop hout
    rw [hop, hout] at hstep
    have hhanded : (firewall.complete env provider action consent).1 = some request :=
      (Out.complete.inj (Prod.mk.inj hstep).2).1
    obtain ⟨preview, hpreview, hconsent, rfl⟩ := request_ok.mp (complete_handed.mp hhanded)
    obtain ⟨hmade, hid, hlocality, htier, haction, hpayload, hpolicy⟩ := preview_ok hpreview
    exact ⟨preview, hpreview, rfl, hpayload, hid, hlocality, htier, haction,
      consented h hmade fun hcloud => ⟨hpolicy hcloud, hconsent hcloud⟩⟩
  · intro provider index control request result hop hout
    rw [hop, hout] at hstep
    obtain ⟨hmem, hprofile⟩ := step_handed hstep
    obtain ⟨-, hauthorized⟩ := steps_made hbefore
    -- the request was made by a call before this one
    obtain ⟨e₁, he₁, firewall, provider₁, index₁, consent, ⟨preview⟩, hop₁, hout₁, hprepared, hok⟩ :=
      hauthorized request hmem
    obtain ⟨hsame, hprofile₁, hid, hlocality, hcloud⟩ := authorizeBounded_ok hok
    obtain ⟨shown⟩ := request
    obtain rfl : shown = preview := hsame
    -- the preview in prepared input is one the firewall showed
    have hmade : (Shown.bounded shown).Made env := by
      obtain ⟨e₀, he₀, -, -, -, -, -, hout₀, -⟩ := hprepared
      exact steps_shown hbefore he₀ (by rw [hout₀]; rfl)
    obtain ⟨-, hshownId, hshownLocality⟩ := id hmade
    refine ⟨hprofile, e₁, he₁, firewall, provider₁, index₁, consent, hop₁, hout₁, hprepared,
      hprofile₁, ?_, ?_, consented h hmade fun hlocal => ?_⟩
    · exact hid.symm.trans hshownId.symm
    · exact hlocality.symm.trans hshownLocality.symm
    · exact hcloud (hshownLocality.symm.trans hlocal)

end Firewall

end

namespace Sample

def payload : CompletionPayload := ⟨"s", "p", []⟩

/-- The hashes of the two texts below. -/
def hash (text : String) : String :=
  if text = (consentJson "cloud:test" .cloud .agentic "resolve-gap-1" payload).render then
    "60fe2672ec5369181cc3c9613b6ff86730a04c0fa3d426bcf4b94ef26c20772b"
  else "e9f27f37746a26a3684b10c70dc557d3d3f535ccae02f91f789cd9c26cd40243"

def sampleEnv : Env where
  words := Redaction.Words.plain
  hash := hash
  parseUrl := fun _ => some ⟨"https", "", none, some "models.test", none, none⟩

def profile : ProviderProfile :=
  ⟨PROTOCOL_VERSION, "cloud:test", .cloud, "https://models.test/", "model"⟩

def provider : LlmProvider where
  id := "cloud:test"
  locality := .cloud
  chat := true
  complete := fun _ => .ok ⟨"done"⟩
  boundedProfile := .ok profile
  exchange := fun _ => .error (notSent .transport)

def firewall : EgressFirewall := ⟨⟨[.agentic]⟩⟩

def action : CompletionAction := ⟨"resolve-gap-1", .agentic, payload⟩

def limits : CompletionLimits := ⟨{}, by decide⟩

def preview : EgressPreview where
  providerId := "cloud:test"
  locality := .cloud
  tier := .agentic
  actionId := "resolve-gap-1"
  payload := payload
  payloadHash := "60fe2672ec5369181cc3c9613b6ff86730a04c0fa3d426bcf4b94ef26c20772b"
  redactionCount := 0

def bounded : BoundedEgressPreview where
  egress := { preview with
    payloadHash := "e9f27f37746a26a3684b10c70dc557d3d3f535ccae02f91f789cd9c26cd40243" }
  profile := profile
  limits := limits

/-- A preview is accepted and its action sent; then the same in the bounded protocol. -/
def ops : List Op :=
  [.preview firewall provider action,
    .complete firewall provider action (some (.fromPreview preview)),
    .prepareBounded firewall provider action limits,
    .authorizeBounded firewall provider 0 (some (.fromPreview bounded.egress)),
    .completeBounded provider 0 ⟨.continue, false⟩]

theorem calls_ok :
    firewall.complete sampleEnv provider action (some (.fromPreview preview))
      = (some ⟨payload⟩, .ok ⟨"done"⟩)
    ∧ firewall.prepareBounded sampleEnv provider action limits = .ok ⟨bounded⟩
    ∧ firewall.authorizeBounded sampleEnv provider ⟨bounded⟩ (some (.fromPreview bounded.egress))
      = .ok ⟨bounded⟩
    ∧ (provider.completeBounded sampleEnv ⟨bounded⟩ ⟨.continue, false⟩).1 = some ⟨bounded⟩ :=
  ⟨by decide +kernel, by decide +kernel, by decide +kernel, by decide +kernel⟩

end Sample

theorem egress_consent_sample :
    (∃ preview, Sample.firewall.preview Sample.sampleEnv Sample.provider Sample.action = .ok preview
      ∧ Sample.payload = preview.payload
      ∧ Consented Sample.sampleEnv ((machine Sample.sampleEnv).trace ⟨[], []⟩ Sample.ops)
        Sample.firewall.policy (some (.fromPreview Sample.preview)) (.plain preview))
    ∧ Sample.provider.boundedProfile = .ok Sample.profile
    ∧ Prepared Sample.sampleEnv ((machine Sample.sampleEnv).trace ⟨[], []⟩ (Sample.ops.take 4))
        ⟨Sample.bounded⟩ := by
  have hsteps : (machine Sample.sampleEnv).Steps ⟨[], []⟩
      ((machine Sample.sampleEnv).trace ⟨[], []⟩ Sample.ops)
      ((machine Sample.sampleEnv).exec ⟨[], []⟩ Sample.ops) :=
    Machine.steps_exec fun _ _ _ => trivial
  obtain ⟨hcomplete, hpreparedOk, hauthorizedOk, hhandedOk⟩ := Sample.calls_ok
  constructor
  · have hsplit := Machine.trace_eventAfter (M := machine Sample.sampleEnv) ⟨[], []⟩
      (Sample.ops.take 1) (.complete Sample.firewall Sample.provider Sample.action
        (some (.fromPreview Sample.preview))) (Sample.ops.drop 2)
    obtain ⟨preview, hpreview, hpayload, -, -, -, -, -, hconsented⟩ :=
      (egress_consent hsteps hsplit).1 _ _ _ _ ⟨Sample.payload⟩ (.ok ⟨"done"⟩) rfl (by
        simp [Machine.eventAfter, machine, State.step, hcomplete])
    exact ⟨preview, hpreview, hpayload, hconsented⟩
  · have hsplit := Machine.trace_eventAfter (M := machine Sample.sampleEnv) ⟨[], []⟩
      (Sample.ops.take 4) (.completeBounded Sample.provider 0 ⟨.continue, false⟩) []
    have hauthorized : ((machine Sample.sampleEnv).exec ⟨[], []⟩ (Sample.ops.take 4)).authorized
        = [⟨Sample.bounded⟩] := by
      simp [Sample.ops, Machine.exec, machine, State.step, hpreparedOk, hauthorizedOk]
    have hhanded : ((machine Sample.sampleEnv).eventAfter ⟨[], []⟩ (Sample.ops.take 4)
        (.completeBounded Sample.provider 0 ⟨.continue, false⟩)).out
          = .completeBounded (some ⟨Sample.bounded⟩) (Sample.provider.completeBounded
            Sample.sampleEnv ⟨Sample.bounded⟩ ⟨.continue, false⟩).2 := by
      rw [Machine.eventAfter, machine_step]
      simp [State.step, hauthorized, hhandedOk]
    obtain ⟨hprofile, -, -, -, -, -, -, -, -, hprepared, -⟩ :=
      (egress_consent hsteps hsplit).2 _ _ _ _ _ rfl hhanded
    exact ⟨hprofile, hprepared⟩

end Egress
