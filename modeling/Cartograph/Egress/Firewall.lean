/-
The egress firewall (`EgressFirewall`).

Nothing is sent to a model but a redacted payload.  A cloud provider is refused unless the policy
allows the tier, and then it needs a grant: the identity of one preview, with a hash of everything
the preview shows.

* `preview`, `complete` — the plain completion: the payload is redacted and its hash computed
  again on every call;
* `prepareBounded`, `authorizeBounded`, `completeBounded` — the bounded completion: the redacted
  payload is computed once, and kept in values only the firewall can make.

A provider is what it tells of itself and how it answers.
-/
import Cartograph.Canonical
import Cartograph.Egress.Profile

namespace Egress

open Checked Specialist
open Investigation (isWhitespace)

/-! ### Records -/

deriving instance DecidableEq for BoundedCallError, CompletionLimitValues

inductive AnalysisTier
  | semantic | agentic
  deriving DecidableEq

structure PayloadSpan where
  id : String
  repo : String
  path : String
  byteStart : UInt64
  byteEnd : UInt64
  commitSha : String
  text : String
  deriving DecidableEq

structure CompletionPayload where
  system : String
  prompt : String
  spans : List PayloadSpan
  deriving DecidableEq

structure CompletionAction where
  actionId : String
  tier : AnalysisTier
  payload : CompletionPayload

structure EgressPreview where
  providerId : String
  locality : Locality
  tier : AnalysisTier
  actionId : String
  payload : CompletionPayload
  payloadHash : String
  redactionCount : ℕ
  deriving DecidableEq

/-- The acceptance of one preview. -/
structure ConsentGrant where
  providerId : String
  tier : AnalysisTier
  actionId : String
  payloadHash : String
  deriving DecidableEq

def ConsentGrant.fromPreview (preview : EgressPreview) : ConsentGrant where
  providerId := preview.providerId
  tier := preview.tier
  actionId := preview.actionId
  payloadHash := preview.payloadHash

def ConsentGrant.matches (grant : ConsentGrant) (preview : EgressPreview) : Bool :=
  grant.providerId == preview.providerId && grant.tier == preview.tier
    && grant.actionId == preview.actionId && grant.payloadHash == preview.payloadHash

structure EgressPolicy where
  cloudTiers : List AnalysisTier

def EgressPolicy.cloudAllowed (policy : EgressPolicy) (tier : AnalysisTier) : Bool :=
  policy.cloudTiers.contains tier

structure Completion where
  text : String
  deriving DecidableEq

inductive ProviderError
  | invalidUrl (detail : String)
  | nonLoopback (url : String)
  | request (detail : String)
  | payload (detail : String)
  | invalidEmbeddings (detail : String)
  | unsupported (operation : String)
  | egressDenied (provider : String) (tier : AnalysisTier)
  | consentRequired (preview : EgressPreview)
  | consentMismatch
  | emptyCompletion
  | refused (provider : String) (category : Option String)
  deriving DecidableEq

/-- What a provider is handed. -/
structure ProviderCompletionRequest where
  payload : CompletionPayload
  deriving DecidableEq

/-- The limits `CompletionLimits::new` accepts. -/
def CompletionLimitValues.within (values : CompletionLimitValues) : Prop :=
  let ceiling : CompletionLimitValues := {}
  (0 < values.inputBytes ∧ values.inputBytes ≤ ceiling.inputBytes)
    ∧ (0 < values.requestBytes ∧ values.requestBytes ≤ ceiling.requestBytes)
    ∧ (0 < values.responseBytes ∧ values.responseBytes ≤ ceiling.responseBytes)
    ∧ (0 < values.outputTextBytes ∧ values.outputTextBytes ≤ ceiling.outputTextBytes)
    ∧ (0 < values.maxOutputTokens ∧ values.maxOutputTokens ≤ ceiling.maxOutputTokens)
    ∧ (0 < values.requestTimeoutMs ∧ values.requestTimeoutMs ≤ ceiling.requestTimeoutMs)

instance (values : CompletionLimitValues) : Decidable (CompletionLimitValues.within values) := by
  unfold CompletionLimitValues.within
  infer_instance

structure CompletionLimits where
  values : CompletionLimitValues
  within : CompletionLimitValues.within values
  deriving DecidableEq

def CompletionLimits.new (values : CompletionLimitValues) : Bounded CompletionLimits :=
  if h : CompletionLimitValues.within values then .ok ⟨values, h⟩
  else .error (notSent .invalidLimits)

structure BoundedEgressPreview where
  egress : EgressPreview
  profile : ProviderProfile
  limits : CompletionLimits
  deriving DecidableEq

/-- Input that was validated and redacted. -/
structure PreparedBoundedCompletion where
  preview : BoundedEgressPreview
  deriving DecidableEq

/-- Input that may be sent. -/
structure AuthorizedBoundedCompletion where
  preview : BoundedEgressPreview
  deriving DecidableEq

structure BoundedCompletion where
  text : String
  requestedModel : String
  responseModel : Option String
  providerRequestId : Option String
  usage : Option ReportedUsage
  requestBytes : ℕ
  responseBytes : ℕ

/-- A provider by what the firewall asks of it.  The exchange with the model behind it is a
function of what it is handed. -/
structure LlmProvider where
  id : String
  locality : Locality
  chat : Bool
  complete : ProviderCompletionRequest → Except ProviderError Completion
  boundedProfile : Bounded ProviderProfile
  exchange : AuthorizedBoundedCompletion → Bounded BoundedCompletion

structure EgressFirewall where
  policy : EgressPolicy

/-! ### Encoding -/

def Locality.json : Locality → Json
  | .onDevice => .str "Local"
  | .cloud => .str "Cloud"

def AnalysisTier.json : AnalysisTier → Json
  | .semantic => .str "Semantic"
  | .agentic => .str "Agentic"

def PayloadSpan.json (span : PayloadSpan) : Json :=
  .obj [("id", .str span.id), ("repo", .str span.repo), ("path", .str span.path),
    ("byte_start", .nat span.byteStart.toNat), ("byte_end", .nat span.byteEnd.toNat),
    ("commit_sha", .str span.commitSha), ("text", .str span.text)]

def CompletionPayload.json (payload : CompletionPayload) : Json :=
  .obj [("system", .str payload.system), ("prompt", .str payload.prompt),
    ("spans", .arr (payload.spans.map PayloadSpan.json))]

def profileJson (profile : ProviderProfile) : Json :=
  .obj [("protocol_version", .str profile.protocolVersion),
    ("provider_id", .str profile.providerId), ("locality", Locality.json profile.locality),
    ("endpoint_id", .str profile.endpointId), ("requested_model", .str profile.requestedModel)]

def CompletionLimits.json (limits : CompletionLimits) : Json :=
  .obj [("input_bytes", .nat limits.values.inputBytes),
    ("request_bytes", .nat limits.values.requestBytes),
    ("response_bytes", .nat limits.values.responseBytes),
    ("output_text_bytes", .nat limits.values.outputTextBytes),
    ("max_output_tokens", .nat limits.values.maxOutputTokens),
    ("request_timeout_ms", .nat limits.values.requestTimeoutMs)]

/-- The bytes behind the consent hash of a plain action. -/
def consentJson (providerId : String) (locality : Locality) (tier : AnalysisTier)
    (actionId : String) (payload : CompletionPayload) : Json :=
  .arr [.str providerId, Locality.json locality, tier.json, .str actionId, payload.json]

/-- The bytes behind the consent hash of a bounded action. -/
def boundedConsentJson (profile : ProviderProfile) (limits : CompletionLimits)
    (tier : AnalysisTier) (actionId : String) (payload : CompletionPayload) : Json :=
  .arr [.str "cartograph-bounded-egress-v1", profileJson profile, limits.json, tier.json,
    .str actionId, payload.json]

/-- `encode`: the writer refuses the first byte above the limit. -/
def encode (value : Json) (limit : ℕ) (code : FailureCode) : Bounded String := do
  ensure (value.render.utf8ByteSize ≤ limit) (notSent code)
  pure value.render

/-! ### Redaction -/

def redactSpan (w : Redaction.Words) (span : PayloadSpan) : PayloadSpan × ℕ :=
  let (text, count) := Redaction.redactText w span.text
  ({ span with text := text }, count)

def redactPayload (w : Redaction.Words) (payload : CompletionPayload) : CompletionPayload × ℕ :=
  let (system, systemCount) := Redaction.redactText w payload.system
  let (prompt, promptCount) := Redaction.redactText w payload.prompt
  let spans := payload.spans.map (redactSpan w)
  (⟨system, prompt, spans.map Prod.fst⟩,
    systemCount + promptCount + (spans.map Prod.snd).sum)

/-- The metadata of a span, which only the bounded protocol redacts. -/
def redactMetadata (w : Redaction.Words) (span : PayloadSpan) : PayloadSpan × ℕ :=
  let (id, idCount) := Redaction.redactText w span.id
  let (repo, repoCount) := Redaction.redactText w span.repo
  let (path, pathCount) := Redaction.redactText w span.path
  let (commitSha, commitCount) := Redaction.redactText w span.commitSha
  ({ span with id := id, repo := repo, path := path, commitSha := commitSha },
    idCount + repoCount + pathCount + commitCount)

/-- The payload of a bounded action, as it is shown and sent. -/
def redactBounded (w : Redaction.Words) (payload : CompletionPayload) : CompletionPayload × ℕ :=
  let (payload, count) := redactPayload w payload
  let spans := payload.spans.map (redactMetadata w)
  ({ payload with spans := spans.map Prod.fst }, count + (spans.map Prod.snd).sum)

/-! ### The plain completion -/

variable (env : Env)

def EgressFirewall.preview (firewall : EgressFirewall) (provider : LlmProvider)
    (action : CompletionAction) : Except ProviderError EgressPreview := do
  ensure (provider.chat = true) (.unsupported "chat completion")
  ensure (¬(provider.locality = .cloud ∧ firewall.policy.cloudAllowed action.tier = false))
    (.egressDenied provider.id action.tier)
  let (payload, redactionCount) := redactPayload env.words action.payload
  let hashBytes :=
    (consentJson provider.id provider.locality action.tier action.actionId payload).render
  pure { providerId := provider.id, locality := provider.locality, tier := action.tier,
         actionId := action.actionId, payload := payload, payloadHash := env.hash hashBytes,
         redactionCount := redactionCount }

/-- A cloud provider needs the grant of this very preview. -/
def checkConsent {ε : Type} (locality : Locality) (consent : Option ConsentGrant)
    (preview : EgressPreview) (required mismatch : ε) : Except ε Unit :=
  if locality = .cloud then do
    let grant ← orFail consent required
    ensure (grant.matches preview = true) mismatch
  else pure ()

/-- `complete` up to the call of the provider. -/
def EgressFirewall.request (firewall : EgressFirewall) (provider : LlmProvider)
    (action : CompletionAction) (consent : Option ConsentGrant) :
    Except ProviderError ProviderCompletionRequest := do
  let preview ← firewall.preview env provider action
  checkConsent preview.locality consent preview (.consentRequired preview) .consentMismatch
  pure ⟨preview.payload⟩

/-- The request the provider was handed, if it was called, and what the caller gets. -/
def EgressFirewall.complete (firewall : EgressFirewall) (provider : LlmProvider)
    (action : CompletionAction) (consent : Option ConsentGrant) :
    Option ProviderCompletionRequest × Except ProviderError Completion :=
  match firewall.request env provider action consent with
  | .error error => (none, .error error)
  | .ok request =>
    (some request, do
      let completion ← provider.complete request
      ensure (completion.text.toList.all isWhitespace = false) .emptyCompletion
      pure completion)

/-! ### The bounded completion -/

def validateProvider (provider : LlmProvider) (profile : ProviderProfile) : Bounded Unit := do
  validateProfile env profile
  ensure (provider.chat = true) (notSent .unsupported)
  ensure (profile.providerId = provider.id ∧ profile.locality = provider.locality)
    (notSent .invalidProfile)

def checkPolicy (firewall : EgressFirewall) (profile : ProviderProfile) (tier : AnalysisTier) :
    Bounded Unit :=
  ensure (¬(profile.locality = .cloud ∧ firewall.policy.cloudAllowed tier = false))
    (notSent .egressDenied)

/-- One round of the check of the spans, with the identifiers before it. -/
def checkSpan (ids : List String) (span : PayloadSpan) : Bounded (List String) := do
  ensure (identifier span.id 1024 = true ∧ span.byteStart < span.byteEnd
    ∧ ids.contains span.id = false) (notSent .invalidInput)
  pure (span.id :: ids)

/-- Every text of a payload. -/
def CompletionPayload.strings (payload : CompletionPayload) : List String :=
  payload.system :: payload.prompt ::
    payload.spans.flatMap fun span => [span.id, span.repo, span.path, span.commitSha, span.text]

/-- One round of the count of input bytes; the sum stays below the limit, and so far below `2^64`. -/
def countBytes (limit total : ℕ) (value : String) : Bounded ℕ := do
  ensure (total + value.utf8ByteSize ≤ limit) (notSent .inputTooLarge)
  pure (total + value.utf8ByteSize)

def EgressFirewall.prepareBounded (firewall : EgressFirewall) (provider : LlmProvider)
    (action : CompletionAction) (limits : CompletionLimits) :
    Bounded PreparedBoundedCompletion := do
  let profile ← provider.boundedProfile
  validateProvider env provider profile
  checkPolicy firewall profile action.tier
  ensure (identifier action.actionId 1024 = true ∧ action.payload.spans.length ≤ 12)
    (notSent .invalidInput)
  let _ ← action.payload.spans.foldlM checkSpan []
  let _ ← action.payload.strings.foldlM (countBytes limits.values.inputBytes) 0
  let _ ← encode action.payload.json limits.values.inputBytes .inputTooLarge
  let (payload, redactionCount) := redactBounded env.words action.payload
  -- two identifiers may become one when they are redacted
  ensure ((payload.spans.map PayloadSpan.id).Nodup) (notSent .invalidInput)
  let _ ← encode payload.json limits.values.inputBytes .inputTooLarge
  let hashInput ← encode (boundedConsentJson profile limits action.tier action.actionId payload)
    (512 * 1024) .inputTooLarge
  pure ⟨⟨{ providerId := profile.providerId, locality := profile.locality, tier := action.tier,
           actionId := action.actionId, payload := payload, payloadHash := env.hash hashInput,
           redactionCount := redactionCount }, profile, limits⟩⟩

def EgressFirewall.authorizeBounded (firewall : EgressFirewall) (provider : LlmProvider)
    (prepared : PreparedBoundedCompletion) (consent : Option ConsentGrant) :
    Bounded AuthorizedBoundedCompletion := do
  let profile ← provider.boundedProfile
  validateProvider env provider profile
  ensure (profile = prepared.preview.profile) (notSent .profileChanged)
  checkPolicy firewall profile prepared.preview.egress.tier
  checkConsent profile.locality consent prepared.preview.egress (notSent .consentRequired)
    (notSent .consentMismatch)
  pure ⟨prepared.preview⟩

inductive CallDirective
  | continue | cancelled | ownershipLost
  deriving DecidableEq

/-- What the host answers when it is asked whether to go on, and whether time is up. -/
structure CompletionControl where
  directive : CallDirective
  late : Bool

def checkControl (control : CompletionControl) : Bounded Unit :=
  match control.directive with
  | .cancelled => .error (notSent .cancelled)
  | .ownershipLost => .error (notSent .ownershipLost)
  | .continue => ensure (control.late = false) (notSent .deadlineExceeded)

def checkRequest (profile : ProviderProfile) (request : AuthorizedBoundedCompletion)
    (control : CompletionControl) : Bounded Unit := do
  validateProfile env profile
  ensure (profile = request.preview.profile) (notSent .profileChanged)
  checkControl control

/-- `complete_bounded` of a provider: the request it went on with, if its checks passed, and what
the caller gets. -/
def LlmProvider.completeBounded (provider : LlmProvider) (request : AuthorizedBoundedCompletion)
    (control : CompletionControl) :
    Option AuthorizedBoundedCompletion × Bounded BoundedCompletion :=
  let checked := do
    let profile ← provider.boundedProfile
    checkRequest env profile request control
  match checked with
  | .error error => (none, .error error)
  | .ok () => (some request, provider.exchange request)

end Egress
