/-
Sensitive values and observations (`crates/dynamic/src/lib.rs`).

* `sensitive_values_do_not_interfere` — Terraform values that are marked under their own key and
  keep their kind, and Pulumi secrets in property values;
* `sensitive_values_observed` — what else can be told from the observations.
-/
import Cartograph.Dynamic.Pulumi

namespace Dynamic

open FlowTracer (asStr)

/-- **Noninterference.**  Two Terraform states that are the same but for values that are marked
under their own key, each a scalar in both or in none, have the same observations.  So have Pulumi
documents that are the same but for secrets, up to where the evidence is. -/
theorem sensitive_values_do_not_interfere (read : List Char → Except String Json)
    (raw raw' : List Char) :
    (∀ document document', read raw = .ok document → read raw' = .ok document' →
      (rootModule document).map (maskModule ofKind underKeys)
        = (rootModule document').map (maskModule ofKind underKeys) →
      parseState read raw = parseState read raw')
    ∧ ∀ documents documents', pulumiDocuments read raw = .ok documents →
      pulumiDocuments read raw' = .ok documents' →
      List.Forall₂ (Alike false) documents documents' →
      (parsePulumiJson read raw).map (List.map ObservedPulumiResource.withoutSpan)
        = (parsePulumiJson read raw').map (List.map ObservedPulumiResource.withoutSpan) :=
  ⟨fun _ _ hread hread' hmask => parseState_eq_of_mask hread hread' hmask,
    fun _ _ hread hread' halike => parsePulumiJson_alike hread hread' halike⟩

variable {read : List Char → Except String Json} {raw : List Char}

namespace Sample

/-- The root module of a state with one database. -/
def databaseModule (password sensitive : Json) : Json :=
  .obj [("resources", .arr [.obj [
    ("address", .str "aws_db_instance.main"), ("type", .str "aws_db_instance"),
    ("values", .obj [("password", password)]), ("sensitive_values", sensitive)]])]

def stateDocument (password sensitive : Json) : Json :=
  .obj [("values", .obj [("root_module", databaseModule password sensitive)])]

/-- The password is marked. -/
def ownMark : Json := .obj [("password", .bool true)]

/-- A stack with one queue, in a record that has the shape of a secret. -/
def stackDocument (secure name : String) : Json :=
  .obj [("deployment", .obj [("resources", .arr [.obj [("secure", .str secure),
    ("urn", .str "urn:pulumi:dev::shop::aws:sqs/queue:Queue::orders"),
    ("type", .str "aws:sqs/queue:Queue"), ("inputs", .obj [("name", .str name)])]])])]

/-- A reader of two documents. -/
def readEither (d d' : Json) (t : List Char) : Except String Json :=
  if t = d.render.toList then .ok d
  else if t = d'.render.toList then .ok d' else .error "expected value"

theorem readEither_left (d d' : Json) : readEither d d' d.render.toList = .ok d := by
  simp [readEither]

theorem readEither_right {d d' : Json} (h : d'.render ≠ d.render) :
    readEither d d' d'.render.toList = .ok d' := by
  have hne : d'.render.toList ≠ d.render.toList := fun hsame => h (String.toList_injective hsame)
  rw [readEither, if_neg hne, if_pos rfl]

/-- The passwords that are observed. -/
def passwords (state : ObservedState) : List (Option (Option String)) :=
  state.resources.map fun r => (r.values.find? "password").map asStr

theorem parse_stateDocument {password sensitive : Json}
    (h : read raw = .ok (stateDocument password sensitive)) :
    parseState read raw
      = .ok (observeModule (databaseModule password sensitive) ⟨[], Table.empty⟩) := by
  rw [parseState, h]
  show Except.ok (walkModule _ _) = _
  rw [walkModule_eq]
  rfl

/-- The names of the queues that are observed. -/
def names : Except PulumiError (List ObservedPulumiResource) → List (Option String)
  | .ok resources => resources.map fun r => (r.inputs.field "name").bind asStr
  | .error _ => []

theorem names_stackDocument {secure name : String} (h : read raw = .ok (stackDocument secure name))
    :
    names ((parsePulumiJson read raw).map (List.map ObservedPulumiResource.withoutSpan))
      = [some name] := by
  rw [parsePulumiJson, pulumiDocuments, h]
  rfl

end Sample

/-- Two databases with different passwords. -/
theorem sensitive_values_do_not_interfere_password :
    let d := Sample.stateDocument (.str "hunter2") Sample.ownMark
    let d' := Sample.stateDocument (.str "swordfish") Sample.ownMark
    parseState (Sample.readEither d d') d.render.toList
      = parseState (Sample.readEither d d') d'.render.toList := by
  intro d d'
  exact (sensitive_values_do_not_interfere _ _ _).1 d d' (Sample.readEither_left d d')
    (Sample.readEither_right (by decide)) rfl

/-- States that are the same but for marked values, and are told apart by what is observed. -/
def StatesDiffer (d d' : Json) : Prop :=
  (rootModule d).map (maskModule (fun _ => .null) id)
      = (rootModule d').map (maskModule (fun _ => .null) id)
    ∧ ∀ (read : List Char → Except String Json) (raw raw' : List Char),
      read raw = .ok d → read raw' = .ok d' → parseState read raw ≠ parseState read raw'

/-- Stacks that are the same but for secrets, and are told apart by what is observed. -/
def StacksDiffer (d d' : Json) : Prop :=
  Alike true d d' ∧ ∀ (read : List Char → Except String Json) (raw raw' : List Char),
    read raw = .ok d → read raw' = .ok d' →
    (parsePulumiJson read raw).map (List.map ObservedPulumiResource.withoutSpan)
      ≠ (parsePulumiJson read raw').map (List.map ObservedPulumiResource.withoutSpan)

/-- Observations tell a password where the whole resource is marked, whether there is one where it
is marked itself, and what is in a resource record that has the shape of a secret. -/
theorem sensitive_values_observed :
    StatesDiffer (Sample.stateDocument (.str "hunter2") (.bool true))
        (Sample.stateDocument (.str "swordfish") (.bool true))
      ∧ StatesDiffer (Sample.stateDocument (.str "hunter2") Sample.ownMark)
        (Sample.stateDocument .null Sample.ownMark)
      ∧ StacksDiffer (Sample.stackDocument "v1" "orders") (Sample.stackDocument "v2" "payments") := by
  have hstates : ∀ {password password' sensitive : Json},
      Sample.passwords (observeModule (Sample.databaseModule password sensitive) ⟨[], Table.empty⟩)
        ≠ Sample.passwords
          (observeModule (Sample.databaseModule password' sensitive) ⟨[], Table.empty⟩) →
      ∀ (read : List Char → Except String Json) (raw raw' : List Char),
        read raw = .ok (Sample.stateDocument password sensitive) →
        read raw' = .ok (Sample.stateDocument password' sensitive) →
        parseState read raw ≠ parseState read raw' := by
    intro password password' sensitive hne read raw raw' h h' hsame
    rw [Sample.parse_stateDocument h, Sample.parse_stateDocument h', Except.ok.injEq] at hsame
    exact hne (congrArg Sample.passwords hsame)
  refine ⟨⟨rfl, hstates (by decide)⟩, ⟨rfl, hstates (by decide)⟩, ?_, ?_⟩
  · -- both records are secrets, the rest of the documents is the same
    refine .member [] [] "deployment" (.member [] [] "resources" (.item [] [] ?_))
    exact .secret (by decide) (by decide)
  · intro read raw raw' h h' hsame
    have hnames := congrArg Sample.names hsame
    rw [Sample.names_stackDocument h, Sample.names_stackDocument h'] at hnames
    exact absurd hnames (by decide)

end Dynamic
