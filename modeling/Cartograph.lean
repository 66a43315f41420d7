import Cartograph.BoundedSnapshot
import Cartograph.StoreRuns
import Cartograph.Agents.Listing
import Cartograph.Jobs.Totals
import Cartograph.Jobs.EventBudget
import Cartograph.Jobs.Protocol
import Cartograph.Jobs.Texts
import Cartograph.Preflight.Register
import Cartograph.Sources.Readiness
import Cartograph.ContextHub.Neighborhood
import Cartograph.SourceWalk.Finishing
import Cartograph.Specialist.Settling
import Cartograph.FlowTracer.Determinism
import Cartograph.FlowTracer.Endpoints
import Cartograph.Placeholder.Reconcile
import Cartograph.Rules.Retarget
import Cartograph.Rules.Wire
import Cartograph.Rules.Links
import Cartograph.Egress.Consent
import Cartograph.Egress.Response
import Cartograph.SourceCapture.SpanReads
import Cartograph.Semantic.Packing
import Cartograph.Semantic.WellFormed
import Cartograph.Agents.Headroom
import Cartograph.Agents.BasisHash
import Cartograph.Investigation.Results
import Cartograph.Ingest.Bindings
import Cartograph.Dynamic.Secrets
import Cartograph.Dynamic.ApplyTrace
import Cartograph.Sources.Cloning
import Cartograph.TaskEvidence.Escalation
import Cartograph.TaskEvidence.Prepared
import Cartograph.Preflight.EvalSites
import Cartograph.Spec.GapCount
import Cartograph.Spec.FoundAdrs
import Cartograph.LangTs.Identity
import Cartograph.LangTs.Resolution
import Cartograph.Iac.Grants
import Cartograph.Iac.Expansion
import Cartograph.LangJava.Headers
import Cartograph.Fw.Tsconfig
import Cartograph.LangTs.StringDecoding
import Cartograph.Events.Stitch
import Cartograph.LangTs.Enumeration
