/-
Observed state (`crates/dynamic/src/lib.rs`): Terraform.

`terraform show -json` prints a tree of modules with resources.  Of a resource the scalar values
are observed, and a value that `sensitive_values` marks is replaced.  The JSON reader is a
parameter.

* `maskModule` — a module without the values that are marked, at any depth of the values;
* `walkModule_mask` — the observations of a module are those of the masked module;
* `parseState_eq_of_mask` — values that are marked under their own key do not interfere.
-/
import Cartograph.Dynamic.Trace
import Cartograph.FlowTracer.Trace
import Cartograph.Lib.JsonTree
import Cartograph.Lib.OrderedSet

namespace Dynamic

open FlowTracer (asStr asArray)

def REDACTED : String := "[redacted]"

inductive StateError
  | json (reason : String)
  | shape
  deriving DecidableEq

/-- One resource. -/
structure ObservedResource where
  address : String
  rtype : String
  values : Table String Json
  redacted : OrderedSet String

structure ObservedState where
  resources : List ObservedResource
  modules : Table String ℕ

/-! ### Resources -/

/-- Neither null nor a container. -/
def isScalar : Json → Bool
  | .bool _ | .num _ | .str _ => true
  | .null | .arr _ | .obj _ => false

/-- Whether the values of a resource are marked under a key. -/
def isMarked (sensitive : Option Json) (key : String) : Bool :=
  match sensitive.bind (·.field key) with
  | some (.bool true) => true
  | _ => false

/-- What is observed of a value: nothing of what is no scalar, and nothing but the key of what is
marked. -/
def observeValue (sensitive : Option Json) (m : String × Json) : Option (String × Json) :=
  if isScalar m.2 then
    some (m.1, if isMarked sensitive m.1 then .str REDACTED else m.2)
  else none

def valuesOf (resource : Json) : List (String × Json) :=
  match resource.field "values" with
  | some (.obj members) => members
  | _ => []

def observeResource (resource : Json) : Option ObservedResource := do
  let address ← (resource.field "address").bind asStr
  let rtype ← (resource.field "type").bind asStr
  let sensitive := resource.field "sensitive_values"
  let observed := (valuesOf resource).filterMap (observeValue sensitive)
  pure
    { address
      rtype
      values := observed.foldl (fun t m => t.put m.1 m.2) Table.empty
      redacted := OrderedSet.ofList ((observed.map Prod.fst).filter (isMarked sensitive)) }

/-! ### Modules -/

def itemsOf (m : Json) (name : String) : List Json := ((m.field name).bind asArray).getD []

theorem sizeOf_field {m v : Json} {name : String} (h : m.field name = some v) : sizeOf v < sizeOf m := by
  cases m with
  | obj members =>
    obtain ⟨member, hfind, rfl⟩ := Option.map_eq_some_iff.mp h
    have hmem := List.sizeOf_lt_of_mem (List.mem_of_find?_eq_some hfind)
    have hmember : sizeOf member.2 < sizeOf member := by
      cases member
      simp
    simp only [Json.obj.sizeOf_spec]
    omega
  | null => cases h
  | bool _ => cases h
  | num _ => cases h
  | str _ => cases h
  | arr _ => cases h

theorem sizeOf_itemsOf {m c : Json} {name : String} (h : c ∈ itemsOf m name) :
    sizeOf c < sizeOf m := by
  rw [itemsOf] at h
  cases hfield : m.field name with
  | none =>
    rw [hfield] at h
    cases h
  | some v =>
    have hv := sizeOf_field hfield
    rw [hfield] at h
    cases v with
    | arr items =>
      have hc := List.sizeOf_lt_of_mem (show c ∈ items from h)
      simp only [Json.arr.sizeOf_spec] at hv
      omega
    | null => cases h
    | bool _ => cases h
    | num _ => cases h
    | str _ => cases h
    | obj _ => cases h

/-- What a module adds itself. -/
def observeModule (m : Json) (out : ObservedState) : ObservedState where
  resources := out.resources ++ (itemsOf m "resources").filterMap observeResource
  modules :=
    match (m.field "address").bind asStr with
    | some address => out.modules.put address (itemsOf m "resources").length
    | none => out.modules

def walkModule (m : Json) (out : ObservedState) : ObservedState :=
  (itemsOf m "child_modules").attach.foldl (fun out c => walkModule c.1 out) (observeModule m out)
termination_by sizeOf m
decreasing_by exact sizeOf_itemsOf c.2

theorem walkModule_eq (m : Json) (out : ObservedState) : walkModule m out
    = (itemsOf m "child_modules").foldl (fun out c => walkModule c out) (observeModule m out) := by
  rw [walkModule]
  exact @List.foldl_attach _ _ _ (fun out c => walkModule c out) _

/-- The tree of modules of a state or of a plan. -/
def rootModule (document : Json) : Option Json :=
  ((document.field "values").or (document.field "planned_values")).bind (·.field "root_module")

def parseState (read : List Char → Except String Json) (raw : List Char) :
    Except StateError ObservedState :=
  match read raw with
  | .error reason => .error (.json reason)
  | .ok document =>
    match rootModule document with
    | none => .error .shape
    | some root => .ok (walkModule root ⟨[], Table.empty⟩)

/-! ### Marked values -/

section

variable (hide : Json → Json)

mutual

/-- A value without what a mark marks: all of it, or the members and items that are marked. -/
def maskBy : Json → Json → Json
  | v, .bool true => hide v
  | .obj members, .obj marks => .obj (maskMembers marks members)
  | .arr items, .arr marks => .arr (maskItems marks items)
  | v, _ => v

def maskMembers (marks : List (String × Json)) : List (String × Json) → List (String × Json)
  | [] => []
  | (k, v) :: rest => (k, maskBy v (((Json.obj marks).field k).getD .null)) :: maskMembers marks rest

def maskItems (marks : List Json) : List Json → List Json
  | [] => []
  | v :: rest => maskBy v (marks.headD .null) :: maskItems marks.tail rest

end

variable (marks : Json → Json)

/-- A resource without its marked values; `marks` is the part of the marks that counts. -/
def maskResource : Json → Json
  | .obj members => .obj (members.map fun m => (m.1,
      if m.1 = "values" then
        maskBy hide m.2 (marks (((Json.obj members).field "sensitive_values").getD .null))
      else m.2))
  | resource => resource

mutual

/-- A module without the marked values of its resources and of its child modules. -/
def maskModule : Json → Json
  | .obj members => .obj (maskParts members)
  | m => m

def maskParts : List (String × Json) → List (String × Json)
  | [] => []
  | (k, .arr items) :: rest =>
    (k, .arr (if k = "child_modules" then maskModules items
      else if k = "resources" then items.map (maskResource hide marks) else items)) :: maskParts rest
  | m :: rest => m :: maskParts rest

def maskModules : List Json → List Json
  | [] => []
  | m :: rest => maskModule m :: maskModules rest

end

end

/-! ### Noninterference -/

theorem field_cons (k name : String) (v : Json) (members : List (String × Json)) :
    (Json.obj ((k, v) :: members)).field name
      = if k = name then some v else (Json.obj members).field name := by
  rw [Json.field, List.find?_cons]
  by_cases h : k = name
  · rw [if_pos h, beq_iff_eq.mpr h]
    rfl
  · rw [if_neg h, beq_eq_false_iff_ne.mpr h]
    rfl

theorem field_map (f : String → Json → Json) (members : List (String × Json)) (name : String) :
    (Json.obj (members.map fun m => (m.1, f m.1 m.2))).field name
      = ((Json.obj members).field name).map (f name) := by
  induction members with
  | nil => rfl
  | cons m rest ih =>
    obtain ⟨k, v⟩ := m
    rw [List.map_cons, field_cons, field_cons, ih]
    split_ifs with hk
    · rw [hk, Option.map_some]
    · rfl

section

variable {hide : Json → Json} {marks : Json → Json}

theorem maskModules_eq (items : List Json) :
    maskModules hide marks items = items.map (maskModule hide marks) := by
  induction items with
  | nil => rw [maskModules, List.map_nil]
  | cons m rest ih => rw [maskModules, ih, List.map_cons]

/-- What becomes of the part of a module under a name. -/
def maskPart (hide : Json → Json) (marks : Json → Json) (name : String) : Json → Json
  | .arr items => .arr (if name = "child_modules" then items.map (maskModule hide marks)
      else if name = "resources" then items.map (maskResource hide marks) else items)
  | part => part

theorem maskParts_eq (members : List (String × Json)) :
    maskParts hide marks members = members.map fun m => (m.1, maskPart hide marks m.1 m.2) := by
  induction members with
  | nil => rw [maskParts, List.map_nil]
  | cons m rest ih =>
    obtain ⟨k, part⟩ := m
    cases part with
    | arr items => rw [maskParts, ih, List.map_cons, maskPart, maskModules_eq]
    | _ => simp [maskParts, maskPart, ih]

theorem field_maskModule (m : Json) (name : String) :
    (maskModule hide marks m).field name = (m.field name).map (maskPart hide marks name) := by
  cases m with
  | obj members => rw [maskModule, maskParts_eq, field_map]
  | _ => simp [maskModule, Json.field]

theorem asArray_maskPart (name : String) (part : Json) :
    asArray (maskPart hide marks name part) = (asArray part).map fun items =>
      if name = "child_modules" then items.map (maskModule hide marks)
      else if name = "resources" then items.map (maskResource hide marks) else items := by
  cases part <;> rfl

theorem itemsOf_mask (m : Json) (name : String) : itemsOf (maskModule hide marks m) name
    = if name = "child_modules" then (itemsOf m name).map (maskModule hide marks)
      else if name = "resources" then (itemsOf m name).map (maskResource hide marks)
      else itemsOf m name := by
  rw [itemsOf, itemsOf, field_maskModule]
  cases m.field name with
  | none => simp
  | some part =>
    rw [Option.map_some, Option.bind_some, Option.bind_some, asArray_maskPart]
    cases asArray part with
    | none => simp
    | some items => rfl

theorem address_maskModule (m : Json) :
    ((maskModule hide marks m).field "address").bind asStr = (m.field "address").bind asStr := by
  rw [field_maskModule]
  cases m.field "address" with
  | none => rfl
  | some part => cases part <;> rfl

theorem field_maskResource (r : Json) (name : String) : (maskResource hide marks r).field name
    = (r.field name).map fun v =>
      if name = "values" then maskBy hide v (marks ((r.field "sensitive_values").getD .null))
      else v := by
  cases r with
  | obj members =>
    rw [maskResource]
    exact field_map (fun k v => if k = "values" then
      maskBy hide v (marks (((Json.obj members).field "sensitive_values").getD .null)) else v)
      members name
  | _ => rfl

end

/-- The observations of a module are those of its masked version, if those of its resources are. -/
theorem walkModule_mask {hide : Json → Json} {marks : Json → Json}
    (hresource : ∀ r, observeResource (maskResource hide marks r) = observeResource r) (m : Json)
    (out : ObservedState) : walkModule (maskModule hide marks m) out = walkModule m out := by
  have hown : observeModule (maskModule hide marks m) out = observeModule m out := by
    rw [observeModule, observeModule, address_maskModule, itemsOf_mask, if_neg (by decide),
      if_pos rfl, List.filterMap_map, List.length_map]
    have hfun : observeResource ∘ maskResource hide marks = observeResource := funext hresource
    rw [hfun]
  rw [walkModule_eq, walkModule_eq, hown, itemsOf_mask, if_pos rfl, List.foldl_map]
  refine List.foldl_ext _ _ _ fun out c hc => ?_
  exact walkModule_mask hresource c out
termination_by sizeOf m
decreasing_by exact sizeOf_itemsOf hc

/-- A marked value may be replaced by a value of its kind. -/
def ofKind (v : Json) : Json := if isScalar v then .str "" else .null

/-- Marks under the keys of a resource. -/
def underKeys : Json → Json
  | .obj marks => .obj marks
  | _ => .null

section

variable {marks : List (String × Json)}

theorem isScalar_maskBy (v mark : Json) : isScalar (maskBy ofKind v mark) = isScalar v := by
  have hkind : isScalar (ofKind v) = isScalar v := by
    rw [ofKind]
    split_ifs with h
    · rw [h]
      rfl
    · rw [Bool.eq_false_of_not_eq_true h]
      rfl
  cases mark with
  | bool b =>
    cases b with
    | true => rw [maskBy, hkind]
    | false => cases v <;> simp [maskBy]
  | arr _ | obj _ => cases v <;> simp [maskBy, isScalar]
  | _ => cases v <;> simp [maskBy]

theorem maskBy_scalar {v mark : Json} (hscalar : isScalar v = true) (hmark : mark ≠ .bool true) :
    maskBy ofKind v mark = v := by
  cases v with
  | null | arr _ | obj _ => cases hscalar
  | _ =>
    cases mark with
    | bool b =>
      cases b with
      | true => exact absurd rfl hmark
      | false => simp [maskBy]
    | _ => simp [maskBy]

theorem isMarked_iff {sensitive : Option Json} {key : String} : isMarked sensitive key = true ↔
    sensitive.bind (·.field key) = some (.bool true) := by
  rw [isMarked]
  split <;> simp_all

theorem observeValue_mask (k : String) (v : Json) :
    observeValue (some (.obj marks))
        (k, maskBy ofKind v (((Json.obj marks).field k).getD .null))
      = observeValue (some (.obj marks)) (k, v) := by
  rw [observeValue, observeValue, isScalar_maskBy]
  split_ifs with hscalar hmarked
  · rfl
  · have hmark : ((Json.obj marks).field k).getD .null ≠ .bool true := by
      intro hmark
      refine hmarked (isMarked_iff.mpr ?_)
      cases hfield : (Json.obj marks).field k with
      | none =>
        rw [hfield] at hmark
        cases hmark
      | some mark =>
        rw [hfield] at hmark
        rw [Option.bind_some, hfield, ← hmark]
        rfl
    rw [maskBy_scalar hscalar hmark]
  · rfl

theorem maskMembers_eq (members : List (String × Json)) : maskMembers ofKind marks members
    = members.map fun m => (m.1, maskBy ofKind m.2 (((Json.obj marks).field m.1).getD .null)) := by
  induction members with
  | nil => rw [maskMembers, List.map_nil]
  | cons m rest ih => rw [maskMembers, ih, List.map_cons]

end

theorem observeResource_mask (r : Json) :
    observeResource (maskResource ofKind underKeys r) = observeResource r := by
  have hother : ∀ name, name ≠ "values" →
      (maskResource ofKind underKeys r).field name = r.field name := by
    intro name hne
    rw [field_maskResource]
    simp only [if_neg hne, Option.map_id']
  have hobserved : (valuesOf (maskResource ofKind underKeys r)).filterMap
      (observeValue (r.field "sensitive_values"))
      = (valuesOf r).filterMap (observeValue (r.field "sensitive_values")) := by
    rw [valuesOf, valuesOf, field_maskResource]
    cases hvalues : r.field "values" with
    | none => rfl
    | some values =>
      rw [Option.map_some]
      cases hsensitive : r.field "sensitive_values" with
      | none => cases values <;> simp [underKeys, maskBy]
      | some sensitive =>
        rw [Option.getD_some]
        cases sensitive with
        | obj marks =>
          cases values with
          | obj members =>
            simp only [underKeys, maskBy, maskMembers_eq, if_true]
            rw [List.filterMap_map]
            exact List.filterMap_congr fun m _ => observeValue_mask m.1 m.2
          | _ => simp [underKeys, maskBy]
        | _ => cases values <;> simp [underKeys, maskBy]
  rw [observeResource, observeResource, hother "address" (by decide), hother "type" (by decide),
    hother "sensitive_values" (by decide)]
  simp only [hobserved]

/-- **Marked values.**  States that differ in values that are marked under their own key, and keep
their kind, have the same observations. -/
theorem parseState_eq_of_mask {read : List Char → Except String Json} {raw raw' : List Char}
    {document document' : Json} (hread : read raw = .ok document)
    (hread' : read raw' = .ok document')
    (hmask : (rootModule document).map (maskModule ofKind underKeys)
      = (rootModule document').map (maskModule ofKind underKeys)) :
    parseState read raw = parseState read raw' := by
  rw [parseState, parseState, hread, hread']
  simp only
  cases hroot : rootModule document with
  | none =>
    rw [hroot] at hmask
    rw [Option.map_eq_none_iff.mp hmask.symm]
  | some root =>
    rw [hroot] at hmask
    obtain ⟨root', hroot', hsame⟩ := Option.map_eq_some_iff.mp hmask.symm
    rw [hroot']
    simp only [Except.ok.injEq]
    rw [← walkModule_mask observeResource_mask root, ← walkModule_mask observeResource_mask root',
      hsame]

end Dynamic
