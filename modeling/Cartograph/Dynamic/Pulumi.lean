/-
Observed state (`crates/dynamic/src/lib.rs`): Pulumi.

A stack export has its resources in a deployment, a preview in one event each.  The inputs and
outputs of a resource are kept, without the secrets in them: a secret is an object with a
signature or with an encrypted value.  The JSON reader is a parameter.

* `Alike` — the same value but for secrets; no secret stands where a resource is looked for;
* `redactPulumiValue_alike` — redaction forgets secrets at any depth;
* `parsePulumiJson_alike` — secrets do not interfere.
-/
import Cartograph.Dynamic.State
import Cartograph.Lib.Related

namespace Dynamic

open FlowTracer (asStr asArray)

def SIGNATURE_KEY : String := "4dabf18193072939515e22adb298388d"
def SECRET_SIGNATURE : String := "1b47061264138c4ac30d75fd1eb44270"

inductive PulumiError
  | json (reason : String)
  | shape
  deriving DecidableEq

/-- One resource. -/
structure ObservedPulumiResource where
  urn : String
  typeToken : String
  logicalName : String
  inputs : Json
  outputs : Json
  parent : Option String
  dependencies : List String
  evidenceSpan : ℕ × ℕ

/-! ### Secrets -/

/-- Whether an object with these members is a secret. -/
def isSecret (members : List (String × Json)) : Bool :=
  ((Json.obj members).field SIGNATURE_KEY).bind asStr == some SECRET_SIGNATURE
    || (members.any fun m => m.1 == "ciphertext") || members.any fun m => m.1 == "secure"

mutual

def redactPulumiValue : Json → Json
  | .obj members => if isSecret members then .str REDACTED else .obj (redactMembers members)
  | .arr items => .arr (redactItems items)
  | value => value

def redactMembers : List (String × Json) → List (String × Json)
  | [] => []
  | (k, value) :: rest => (k, redactPulumiValue value) :: redactMembers rest

def redactItems : List Json → List Json
  | [] => []
  | value :: rest => redactPulumiValue value :: redactItems rest

end

/-! ### Resources -/

/-- What follows the last `::`. -/
def afterLast : List Char → Option (List Char)
  | [] => none
  | c :: rest => (afterLast rest).or
    (match c, rest with
      | ':', ':' :: tail => some tail
      | _, _ => none)

def asBool : Json → Option Bool
  | .bool b => some b
  | _ => none

/-- A text of a resource, or of the metadata that it comes with. -/
def textOr (value : Json) (fallback : Option Json) (name : String) : Option String :=
  ((value.field name).bind asStr).or ((fallback.bind (·.field name)).bind asStr)

/-- The texts of an array. -/
def textsOf (value : Json) (name : String) : List String :=
  (((value.field name).bind asArray).getD []).filterMap asStr

def redactedField (value : Json) (name : String) : Json :=
  ((value.field name).map redactPulumiValue).getD (.obj [])

def pulumiResource (raw : List Char) (value : Json) (fallback : Option Json) :
    Option ObservedPulumiResource := do
  let deleted := (value.field "delete").bind asBool == some true
    || ((textOr value fallback "op").any fun op => "delete".toList.isPrefixOf op.toList)
  if deleted then none
  let urn ← textOr value fallback "urn"
  let typeToken ← textOr value fallback "type"
  if typeToken = "pulumi:pulumi:Stack"
    ∨ "pulumi:providers:".toList.isPrefixOf typeToken.toList = true then none
  let start := (Utf8.offsetOf urn.toList raw).getD 0
  pure
    { urn
      typeToken
      logicalName := String.ofList ((afterLast urn.toList).getD urn.toList)
      inputs := redactedField value "inputs"
      outputs := redactedField value "outputs"
      parent := (textOr value fallback "parent").filter (· ≠ "")
      dependencies := textsOf value "dependencies"
      evidenceSpan := (start, start + Utf8.bytes urn.toList) }

/-! ### Documents -/

abbrev Observations := Table String ObservedPulumiResource

def insertResource (resources : Observations) (r : Option ObservedPulumiResource) : Observations :=
  match r with
  | some r => resources.put r.urn r
  | none => resources

def deploymentOf (value : Json) : Json := (value.field "deployment").getD value

/-- The resources of a deployment, if it has any. -/
def collectDeployment (raw : List Char) (value : Json) (resources : Observations) :
    Bool × Observations :=
  match ((deploymentOf value).field "resources").bind asArray with
  | some values => (true, (values.map fun v => pulumiResource raw v none).foldl insertResource resources)
  | none => (false, resources)

/-- The resource of an event, if it is one. -/
def collectEvent (raw : List Char) (value : Json) (event : String)
    (collected : Bool × Observations) : Bool × Observations :=
  match (value.field event).bind (·.field "metadata") with
  | some metadata =>
    (true, insertResource collected.2
      (pulumiResource raw ((metadata.field "new").getD metadata) (some metadata)))
  | none => collected

def collectObject (raw : List Char) (value : Json) (resources : Observations) :
    Bool × Observations :=
  collectEvent raw value "resOutputsEvent"
    (collectEvent raw value "resourcePreEvent" (collectDeployment raw value resources))

mutual

/-- `collect_pulumi_resources`. -/
def collectPulumiResources (raw : List Char) : Json → Observations → Bool × Observations
  | .arr items, resources => collectItems raw items resources
  | value, resources => collectObject raw value resources

def collectItems (raw : List Char) : List Json → Observations → Bool × Observations
  | [], resources => (false, resources)
  | value :: rest, resources =>
    let first := collectPulumiResources raw value resources
    let later := collectItems raw rest first.2
    (first.1 || later.1, later.2)

end

/-- `str::lines`: without the ends of the lines. -/
def linesOf (raw : List Char) : List (List Char) :=
  (splitInclusive raw).map fun line =>
    if line.getLast? = some '\n' then
      (if line.dropLast.getLast? = some '\r' then line.dropLast.dropLast else line.dropLast)
    else line

/-- One document, or one a line. -/
def pulumiDocuments (read : List Char → Except String Json) (raw : List Char) :
    Except PulumiError (List Json) :=
  match read raw with
  | .ok document => .ok [document]
  | .error reason =>
    match ((linesOf raw).filter fun line => !(Sources.trim line).isEmpty).mapM
      fun line => (read line).toOption with
    | none => .error (.json reason)
    | some [] => .error (.json reason)
    | some documents => .ok documents

def parsePulumiJson (read : List Char → Except String Json) (raw : List Char) :
    Except PulumiError (List ObservedPulumiResource) :=
  match pulumiDocuments read raw with
  | .error e => .error e
  | .ok documents =>
    let collected := collectItems raw documents Table.empty
    if collected.1 then .ok (collected.2.rows.map Prod.snd) else .error .shape

/-! ### The same but for secrets -/

/-- The names under which resources are looked for. -/
def onPath (name : String) : Bool :=
  ["deployment", "resources", "resourcePreEvent", "resOutputsEvent", "metadata", "new"].contains name

/-- The same value but for secrets.  A secret counts where `inside` says so, and under every name
that is not on the path to a resource. -/
inductive Alike : Bool → Json → Json → Prop
  | refl (inside : Bool) (j : Json) : Alike inside j j
  | trans {inside : Bool} {j j₁ j₂ : Json} :
      Alike inside j j₁ → Alike inside j₁ j₂ → Alike inside j j₂
  | secret {members members' : List (String × Json)} : isSecret members = true →
      isSecret members' = true → Alike true (.obj members) (.obj members')
  | item {inside : Bool} (before after : List Json) {j j' : Json} : Alike inside j j' →
      Alike inside (.arr (before ++ j :: after)) (.arr (before ++ j' :: after))
  | member {inside : Bool} (before after : List (String × Json)) (name : String) {j j' : Json} :
      Alike (inside || !onPath name) j j' →
      Alike inside (.obj (before ++ (name, j) :: after)) (.obj (before ++ (name, j') :: after))

namespace Alike

variable {inside : Bool} {j j' : Json}

theorem asStr_eq (h : Alike inside j j') : asStr j = asStr j' := by
  induction h with
  | trans _ _ ih ih' => exact ih.trans ih'
  | _ => rfl

theorem asBool_eq (h : Alike inside j j') : asBool j = asBool j' := by
  induction h with
  | trans _ _ ih ih' => exact ih.trans ih'
  | _ => rfl

theorem forall₂_refl (inside : Bool) (l : List Json) : List.Forall₂ (Alike inside) l l :=
  List.forall₂_same.mpr fun j _ => .refl inside j

theorem asArray_both (h : Alike inside j j') :
    Both (List.Forall₂ (Alike inside)) (asArray j) (asArray j') := by
  induction h with
  | refl inside j =>
    cases j with
    | arr items => exact forall₂_refl inside items
    | _ => trivial
  | trans _ _ ih ih' => exact ih.trans ih' fun _ _ _ h h' => forall₂_trans h h' fun _ _ _ => Alike.trans
  | secret => trivial
  | @item inside before after j j' h =>
    exact List.rel_append (forall₂_refl inside before) (.cons h (forall₂_refl inside after))
  | member => trivial

theorem field_both (h : Alike inside j j') (houtside : inside = false) (name : String) :
    Both (Alike (!onPath name)) (j.field name) (j'.field name) := by
  have hrefl : ∀ o : Option Json, Both (Alike (!onPath name)) o o := by
    intro o
    cases o with
    | none => trivial
    | some v => exact .refl _ v
  induction h with
  | refl => exact hrefl _
  | trans _ _ ih ih' => exact (ih houtside).trans (ih' houtside) fun _ _ _ => Alike.trans
  | secret => cases houtside
  | item => trivial
  | @member inside before after name' v v' h =>
    subst houtside
    induction before with
    | nil =>
      rw [List.nil_append, List.nil_append, field_cons, field_cons]
      split_ifs with hname
      · rw [← hname]
        exact h
      · exact hrefl _
    | cons m rest ih =>
      obtain ⟨k, u⟩ := m
      rw [List.cons_append, List.cons_append, field_cons, field_cons]
      split_ifs with hname
      · exact .refl _ u
      · exact ih

theorem isSecret_congr {before after : List (String × Json)} {name : String}
    (h : asStr j = asStr j') : isSecret (before ++ (name, j) :: after)
      = isSecret (before ++ (name, j') :: after) := by
  have hsignature : ((Json.obj (before ++ (name, j) :: after)).field SIGNATURE_KEY).bind asStr
      = ((Json.obj (before ++ (name, j') :: after)).field SIGNATURE_KEY).bind asStr := by
    induction before with
    | nil =>
      rw [List.nil_append, List.nil_append, field_cons, field_cons]
      split_ifs
      · exact h
      · rfl
    | cons m rest ih =>
      obtain ⟨k, u⟩ := m
      rw [List.cons_append, List.cons_append, field_cons, field_cons]
      split_ifs
      · rfl
      · exact ih
  rw [isSecret, isSecret, hsignature]
  simp only [List.any_append, List.any_cons]

end Alike

theorem redactMembers_eq (members : List (String × Json)) :
    redactMembers members = members.map fun m => (m.1, redactPulumiValue m.2) := by
  induction members with
  | nil => rw [redactMembers, List.map_nil]
  | cons m rest ih => rw [redactMembers, ih, List.map_cons]

theorem redactItems_eq (items : List Json) : redactItems items = items.map redactPulumiValue := by
  induction items with
  | nil => rw [redactItems, List.map_nil]
  | cons j rest ih => rw [redactItems, ih, List.map_cons]

theorem redactPulumiValue_alike {inside : Bool} {j j' : Json} (h : Alike inside j j')
    (hinside : inside = true) : redactPulumiValue j = redactPulumiValue j' := by
  induction h with
  | refl => rfl
  | trans _ _ ih ih' => exact (ih hinside).trans (ih' hinside)
  | secret hsecret hsecret' =>
    rw [redactPulumiValue, redactPulumiValue, if_pos hsecret, if_pos hsecret']
  | item before after _ ih =>
    simp only [redactPulumiValue, redactItems_eq, List.map_append, List.map_cons, ih hinside]
  | member before after name h ih =>
    simp only [redactPulumiValue, redactMembers_eq, List.map_append, List.map_cons,
      Alike.isSecret_congr h.asStr_eq, ih (by rw [hinside, Bool.true_or])]

/-! ### Noninterference -/

def ObservedPulumiResource.withoutSpan (r : ObservedPulumiResource) : ObservedPulumiResource :=
  { r with evidenceSpan := (0, 0) }

variable {resources resources' : Observations}

section

variable {raw raw' : List Char} {value value' : Json} {fallback fallback' : Option Json}

section

variable (h : Alike false value value')
include h

theorem textOr_eq (hfallback : Both (Alike false) fallback fallback')
    (name : String) : textOr value fallback name = textOr value' fallback' name := by
  have hown := (h.field_both rfl name).bind_eq fun _ _ => Alike.asStr_eq
  have hother : Both (Alike (!onPath name)) (fallback.bind (·.field name))
      (fallback'.bind (·.field name)) := hfallback.bind fun _ _ h => h.field_both rfl name
  rw [textOr, textOr, hown, hother.bind_eq fun _ _ => Alike.asStr_eq]

theorem textsOf_eq (name : String) :
    textsOf value name = textsOf value' name := by
  have harray := (h.field_both rfl name).bind fun _ _ => Alike.asArray_both
  have hitems : ∀ {l l' : List Json}, List.Forall₂ (Alike (!onPath name)) l l' →
      l.filterMap asStr = l'.filterMap asStr := by
    intro l l' hall
    induction hall with
    | nil => rfl
    | cons hj _ ih => rw [List.filterMap_cons, List.filterMap_cons, hj.asStr_eq, ih]
  have htexts := harray.map_eq fun _ _ => hitems
  rw [textsOf, textsOf]
  cases hleft : (value.field name).bind asArray <;>
    cases hright : (value'.field name).bind asArray <;> simp_all

theorem redactedField_eq {name : String} (hname : onPath name = false) :
    redactedField value name = redactedField value' name := by
  have hfield := h.field_both rfl name
  rw [hname] at hfield
  rw [redactedField, redactedField, hfield.map_eq fun _ _ h => redactPulumiValue_alike h rfl]

theorem pulumiResource_eq (hfallback : Both (Alike false) fallback fallback') :
    (pulumiResource raw value fallback).map ObservedPulumiResource.withoutSpan
      = (pulumiResource raw' value' fallback').map ObservedPulumiResource.withoutSpan := by
  have hdelete := (h.field_both rfl "delete").bind_eq fun _ _ => Alike.asBool_eq
  simp only [pulumiResource, hdelete, textOr_eq h hfallback, textsOf_eq h,
    redactedField_eq h (show onPath "inputs" = false by decide),
    redactedField_eq h (show onPath "outputs" = false by decide)]
  split_ifs with hdeleted
  · rfl
  cases textOr value' fallback' "urn" with
  | none => rfl
  | some urn =>
    cases textOr value' fallback' "type" with
    | none => rfl
    | some typeToken =>
      simp only [Option.bind_eq_bind, Option.bind_some]
      split_ifs <;> rfl

end

/-! ### Documents -/

/-- The observations without their evidence. -/
def forget (resources : Observations) : Table String ObservedPulumiResource :=
  resources.mapValues ObservedPulumiResource.withoutSpan

theorem forget_put (resources : Observations) (r : ObservedPulumiResource) :
    forget (resources.put r.urn r) = (forget resources).put r.urn r.withoutSpan := by
  refine Table.ext_find? fun k => ?_
  rw [forget, Table.find?_mapValues, Table.find?_put, Table.find?_put, forget,
    Table.find?_mapValues]
  split_ifs <;> rfl

theorem forget_insertResource {r r' : Option ObservedPulumiResource}
    (h : forget resources = forget resources')
    (hr : r.map ObservedPulumiResource.withoutSpan = r'.map ObservedPulumiResource.withoutSpan) :
    forget (insertResource resources r) = forget (insertResource resources' r') := by
  cases r with
  | none =>
    obtain rfl := Option.map_eq_none_iff.mp hr.symm
    exact h
  | some r =>
    obtain ⟨r', rfl, hsame⟩ := Option.map_eq_some_iff.mp hr.symm
    have hurn : r'.withoutSpan.urn = r.withoutSpan.urn := by rw [hsame]
    have hurn : r'.urn = r.urn := hurn
    rw [insertResource, insertResource, forget_put, forget_put, h, hurn, hsame]

/-- Two collections that agree up to evidence. -/
def Agree (c c' : Bool × Observations) : Prop := c.1 = c'.1 ∧ forget c.2 = forget c'.2

section

variable (h : Alike false value value')
include h

theorem deploymentOf_alike :
    Alike false (deploymentOf value) (deploymentOf value') := by
  have hfield := h.field_both rfl "deployment"
  rw [deploymentOf, deploymentOf]
  cases hl : value.field "deployment" <;> cases hr : value'.field "deployment" <;>
    rw [hl, hr] at hfield
  · exact h
  · cases hfield
  · cases hfield
  · exact hfield

theorem collectDeployment_agree (hres : forget resources = forget resources') :
    Agree (collectDeployment raw value resources) (collectDeployment raw' value' resources') := by
  have hitems := ((deploymentOf_alike h).field_both rfl "resources").bind fun _ _ =>
    Alike.asArray_both
  rw [collectDeployment, collectDeployment]
  cases hl : ((deploymentOf value).field "resources").bind asArray <;>
    cases hr : ((deploymentOf value').field "resources").bind asArray <;> rw [hl, hr] at hitems
  · exact ⟨rfl, hres⟩
  · cases hitems
  · cases hitems
  · refine ⟨rfl, ?_⟩
    rename_i l l'
    have hfold : ∀ {l l' : List Json}, List.Forall₂ (Alike false) l l' →
        ∀ {resources resources' : Observations}, forget resources = forget resources' →
        forget ((l.map fun v => pulumiResource raw v none).foldl insertResource resources)
          = forget ((l'.map fun v => pulumiResource raw' v none).foldl insertResource resources') := by
      intro l l' hall
      induction hall with
      | nil => exact fun h => h
      | cons hv _ ih =>
        intro resources resources' h
        exact ih (forget_insertResource h (pulumiResource_eq hv trivial))
    exact hfold hitems hres

theorem collectEvent_agree {event : String}
    (hevent : onPath event = true) {c c' : Bool × Observations} (hc : Agree c c') :
    Agree (collectEvent raw value event c) (collectEvent raw' value' event c') := by
  have hfield := h.field_both rfl event
  rw [hevent] at hfield
  have hmetadata : Both (Alike false) ((value.field event).bind (·.field "metadata"))
      ((value'.field event).bind (·.field "metadata")) :=
    hfield.bind fun _ _ h => h.field_both rfl "metadata"
  rw [collectEvent, collectEvent]
  cases hl : (value.field event).bind (·.field "metadata") <;>
    cases hr : (value'.field event).bind (·.field "metadata") <;> rw [hl, hr] at hmetadata
  · exact hc
  · cases hmetadata
  · cases hmetadata
  · rename_i m m'
    have hstate : Alike false ((m.field "new").getD m) ((m'.field "new").getD m') := by
      have hnew := Alike.field_both hmetadata rfl "new"
      cases hl : m.field "new" <;> cases hr : m'.field "new" <;> rw [hl, hr] at hnew
      · exact hmetadata
      · cases hnew
      · cases hnew
      · exact hnew
    exact ⟨rfl, forget_insertResource hc.2 (pulumiResource_eq hstate hmetadata)⟩

theorem collectObject_agree (hres : forget resources = forget resources') :
    Agree (collectObject raw value resources) (collectObject raw' value' resources') :=
  collectEvent_agree h (by decide) (collectEvent_agree h (by decide) (collectDeployment_agree h hres))

end

theorem collectPulumiResources_eq (value : Json) (resources : Observations) :
    collectPulumiResources raw value resources
      = match asArray value with
        | some items => collectItems raw items resources
        | none => collectObject raw value resources := by
  cases value with
  | arr items => rw [collectPulumiResources]; rfl
  | _ => simp [collectPulumiResources, asArray]

mutual

theorem collectPulumiResources_agree (value : Json) {value' : Json} (h : Alike false value value')
    {resources resources' : Observations} (hres : forget resources = forget resources') :
    Agree (collectPulumiResources raw value resources)
      (collectPulumiResources raw' value' resources') := by
  have harray := h.asArray_both
  rw [collectPulumiResources_eq, collectPulumiResources_eq]
  cases value with
  | arr items =>
    cases hr : asArray value' with
    | none =>
      rw [hr] at harray
      cases harray
    | some items' =>
      rw [hr] at harray
      exact collectItems_agree items harray hres
  | _ =>
    cases hr : asArray value' with
    | none => exact collectObject_agree h hres
    | some items' =>
      rw [hr] at harray
      cases harray

theorem collectItems_agree (items : List Json) {items' : List Json}
    (h : List.Forall₂ (Alike false) items items') {resources resources' : Observations}
    (hres : forget resources = forget resources') :
    Agree (collectItems raw items resources) (collectItems raw' items' resources') := by
  cases items with
  | nil =>
    obtain rfl := List.forall₂_nil_left_iff.mp h
    exact ⟨rfl, hres⟩
  | cons value rest =>
    obtain ⟨value', rest', hvalue, hrest, rfl⟩ := List.forall₂_cons_left_iff.mp h
    have hfirst : Agree (collectPulumiResources raw value resources)
        (collectPulumiResources raw' value' resources') :=
      collectPulumiResources_agree value hvalue hres
    have hlater := collectItems_agree rest hrest hfirst.2
    exact ⟨congrArg₂ (· || ·) hfirst.1 hlater.1, hlater.2⟩

end

end

/-- **Secrets.**  Documents that are the same but for secrets have the same observations, up to
where the evidence is. -/
theorem parsePulumiJson_alike {read : List Char → Except String Json} {raw raw' : List Char}
    {documents documents' : List Json} (hread : pulumiDocuments read raw = .ok documents)
    (hread' : pulumiDocuments read raw' = .ok documents')
    (halike : List.Forall₂ (Alike false) documents documents') :
    (parsePulumiJson read raw).map (List.map ObservedPulumiResource.withoutSpan)
      = (parsePulumiJson read raw').map (List.map ObservedPulumiResource.withoutSpan) := by
  have hagree : Agree (collectItems raw documents Table.empty)
      (collectItems raw' documents' Table.empty) := collectItems_agree documents halike rfl
  obtain ⟨hsupported, hforget⟩ := hagree
  have hrows : ∀ t : Observations, (t.rows.map Prod.snd).map ObservedPulumiResource.withoutSpan
      = (forget t).rows.map Prod.snd := by
    intro t
    simp only [forget, Table.mapValues, List.map_map]
    rfl
  rw [parsePulumiJson, parsePulumiJson, hread, hread']
  simp only [hsupported]
  split_ifs
  · simp only [Except.map, hrows, hforget]
  · rfl

end Dynamic
