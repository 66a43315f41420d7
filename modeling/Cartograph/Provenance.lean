/-
Provenance and confidence (`crates/core-prov/src/lib.rs`).

The hash of a text is a parameter; what it is the hash of is part of the model.  The
derived deserializers read a struct from an object, members in any order and others
ignored, or from an array of its fields, and a unit variant from its name, or from an
object with that one member.
-/
import Cartograph.Investigation.Records

namespace Investigation

/-- The highest confidence a producer at this tier may assert. -/
def Tier.confidenceCeiling : Tier → ConfidenceTier
  | .deterministic | .dynamic => .confirmed
  | .semantic => .inferredStrong
  | .agentic => .inferredWeak

/-- Whether `producer` may write over a fact held at `existing`. -/
def mayOverwrite (producer : Tier) (existing : ConfidenceTier) : Bool :=
  match producer with
  | .deterministic | .dynamic => true
  | .semantic => existing == .inferredStrong || existing == .inferredWeak || existing == .gap
  | .agentic => existing == .inferredWeak || existing == .gap

def ConfidenceTier.rank : ConfidenceTier → ℕ
  | .confirmed => 3
  | .inferredStrong => 2
  | .inferredWeak => 1
  | .gap => 0

def confidenceAboveCeiling (tier : Tier) (confidence : ConfidenceTier) : Bool :=
  decide (tier.confidenceCeiling.rank < confidence.rank)

structure Provenance where
  tier : Tier
  confidenceTier : ConfidenceTier
  evidence : List EvidenceRef
  extractorId : String
  contentHash : String
  deriving DecidableEq

def Provenance.toJson (p : Provenance) : Json :=
  .obj [("tier", .str p.tier.text), ("confidence_tier", .str p.confidenceTier.text),
    ("evidence", .arr (p.evidence.map EvidenceRef.toJson)), ("extractor_id", .str p.extractorId),
    ("content_hash", .str p.contentHash)]

structure AboveCeiling where
  tier : Tier
  confidenceTier : ConfidenceTier
  deriving DecidableEq

/-- The message of an integrity error. -/
def AboveCeiling.text (e : AboveCeiling) : String :=
  e.tier.text ++ " may not assert " ++ e.confidenceTier.text ++ " (above ceiling)"

/-- `Provenance::new`. -/
def Provenance.make (contentHash : String → Hash) (tier : Tier) (confidenceTier : ConfidenceTier)
    (evidence : List EvidenceRef) (extractorId factBytes : String) :
    Except AboveCeiling Provenance :=
  if confidenceAboveCeiling tier confidenceTier then .error ⟨tier, confidenceTier⟩
  else .ok ⟨tier, confidenceTier, evidence, extractorId, (contentHash factBytes).text⟩

/-- `Provenance::validate`. -/
def Provenance.validate (p : Provenance) : Except AboveCeiling Unit :=
  if confidenceAboveCeiling p.tier p.confidenceTier then .error ⟨p.tier, p.confidenceTier⟩
  else .ok ()

/-! ### The derived deserializers -/

/-- The fields of a struct. -/
def structFields (names : List String) : Json → Option (List Json)
  | .obj members => names.mapM fun name => (members.find? fun m => m.1 == name).map Prod.snd
  | .arr items => if items.length = names.length then some items else none
  | _ => none

/-- The variant of an enumeration without data. -/
def unitVariant {α : Type} (text : α → String) (variants : List α) : Json → Option α
  | .str name => variants.find? fun a => text a == name
  | .obj [(name, .null)] => variants.find? fun a => text a == name
  | _ => none

def stringValue : Json → Option String
  | .str s => some s
  | _ => none

/-- An unsigned number of 64 bits. -/
def u64Value : Json → Option ℕ
  | .num text =>
    if text.toList ≠ [] ∧ text.toList.all Char.isDigit = true then
      let n := Nat.ofDigitChars 10 text.toList 0
      if n < 2 ^ 64 then some n else none
    else none
  | _ => none

def EvidenceRef.fromValue (j : Json) : Option EvidenceRef :=
  match structFields ["repo", "path", "byte_start", "byte_end", "commit_sha"] j with
  | some [repo, path, byteStart, byteEnd, commitSha] => do
    return ⟨← stringValue repo, ← stringValue path, ← u64Value byteStart, ← u64Value byteEnd,
      ← stringValue commitSha⟩
  | _ => none

def evidenceValue : Json → Option (List EvidenceRef)
  | .arr items => items.mapM EvidenceRef.fromValue
  | _ => none

/-- `serde_json::from_value::<Provenance>`. -/
def Provenance.fromValue (j : Json) : Option Provenance :=
  match structFields ["tier", "confidence_tier", "evidence", "extractor_id", "content_hash"] j with
  | some [tier, confidenceTier, evidence, extractorId, contentHash] => do
    return ⟨← unitVariant Tier.text [.deterministic, .dynamic, .semantic, .agentic] tier,
      ← unitVariant ConfidenceTier.text [.confirmed, .inferredStrong, .inferredWeak, .gap]
        confidenceTier,
      ← evidenceValue evidence, ← stringValue extractorId, ← stringValue contentHash⟩
  | _ => none

end Investigation
