/-
Operations on managed sources (`src-tauri/src/source_access.rs`,
`crates/ingest/src/managed.rs`, `finish_source_operation` of `src-tauri/src/main.rs`).

An operation plans the sources it reads and the sources it replaces, takes a lock on every
managed one, marks the replaced ones unavailable in one transaction, turns its reservations
into guards, clones, works, and marks what it replaced available again in one transaction.
`with_registered_read` is an operation that reads one source.

Any number of processes run operations at once.  A step is one access to what they share: a
lock attempt, a transaction of the registry, a rename in a slot, or a look at a checkout.  What
the file system answers is part of the step, and an action out of its turn does nothing.  An
operation that fails drops its guards; a process that crashes drops all of them, and leaves the
checkouts as they are.

The lock file and the slot of a source are found from its identity: the root of a managed row is
checked against the data directory whenever the row is read.
-/
import Cartograph.Sources.Registry

namespace Sources

open Checked

/-! ### Plans -/

/-- A planned source, and whether it is replaced. -/
structure Planned where
  source : RegisteredSource
  write : Bool
  deriving DecidableEq

/-- The lock a planned source needs: only a managed source has one, exclusive for a write. -/
def Planned.lock (p : Planned) : Option Bool :=
  if p.source.origin.isSome then some p.write else none

/-- The entry of `plan` for one more request. -/
def mergeRequest (found : Option Planned) (source : RegisteredSource) (write : Bool) : Planned :=
  match found with
  | some p => { p with write := p.write || write }
  | none => ⟨source, write⟩

/-- The first loop of `acquire`; a write of a local source is an error. -/
def planRequests : List (RegisteredSource × Bool) → Table String Planned →
    Option (Table String Planned)
  | [], plan => some plan
  | (source, write) :: rest, plan =>
    if write && !source.origin.isSome then none
    else planRequests rest
      (plan.put source.sourceId (mergeRequest (plan.find? source.sourceId) source write))

/-! ### Operations -/

/-- A checkout: the operation that cloned it, and the commit it cloned. -/
structure Tree where
  operation : ℕ
  commit : String
  deriving DecidableEq

/-- What an operation does next. -/
inductive Stage
  /-- Locks are taken in the order of the plan. -/
  | reserve (todo : List (String × Planned))
  /-- Every handle is held. -/
  | invalidate
  /-- Reservations become guards, and what is read is checked to be ready. -/
  | promote (todo : List (String × Planned))
  /-- `acquire` has returned; these sources have been replaced. -/
  | work (cloned : List String)
  /-- `clone_from` has a new checkout, not yet in place. -/
  | staged (cloned : List String) (id : String) (tree : Tree)
  /-- It has moved the old checkout away. -/
  | retired (cloned : List String) (id : String) (tree : Tree) (previous : Option Tree)
  /-- `set_writes_ready` has returned. -/
  | finished
  deriving DecidableEq

structure Operation where
  process : ℕ
  plan : Table String Planned
  stage : Stage

def Operation.lock (op : Operation) (id : String) : Option Bool :=
  (op.plan.find? id).bind Planned.lock

/-- The sources it replaces, in the order of the plan. -/
def Operation.writes (op : Operation) : List String :=
  (op.plan.rows.filter fun r => r.2.lock == some true).map Prod.fst

/-- The lock it holds on a source. -/
def Operation.holds (op : Operation) (id : String) : Option Bool :=
  match op.stage with
  | .reserve todo => if id ∈ todo.map Prod.fst then none else op.lock id
  | _ => op.lock id

/-- The registry, the checkouts in their places and the operations under way. -/
structure World where
  registry : Registry
  checkouts : Table String Tree
  ops : Table ℕ Operation
  next : ℕ

def World.setStage (w : World) (n : ℕ) (op : Operation) (stage : Stage) : World :=
  { w with ops := w.ops.put n { op with stage := stage } }

def World.drop (w : World) (n : ℕ) : World := { w with ops := w.ops.erase n }

/-- Whether the lock can be given: a shared one beside shared ones, an exclusive one alone. -/
def World.free (w : World) (n : ℕ) (id : String) (write : Bool) : Bool :=
  w.ops.rows.all fun r => r.1 == n || match r.2.holds id with
    | none => true
    | some held => !held && !write

/-! ### Steps -/

inductive Placement
  | placed
  | restored
  | lost
  deriving DecidableEq

inductive Action
  | call (call : Call)
  | acquire (process : ℕ) (requested : List (RegisteredSource × Bool))
  | reserve (n : ℕ) (ok : Bool)
  | invalidate (n : ℕ) (fault : Bool)
  | promote (n : ℕ) (ok : Bool)
  | observe (n : ℕ) (id : String)
  | fetch (n : ℕ) (id commit : String)
  | retire (n : ℕ)
  | place (n : ℕ) (placement : Placement)
  | finish (n : ℕ) (fault : Bool)
  | release (n : ℕ)
  | fail (n : ℕ)
  | crash (process : ℕ)

inductive Outcome
  | done
  | failed
  | observed (found : Option Tree)
  | idle
  deriving DecidableEq

def acquireStep (process : ℕ) (requested : List (RegisteredSource × Bool)) (w : World) :
    World × Outcome :=
  match planRequests requested .empty with
  | none => (w, .failed)
  | some plan =>
    ({ w with ops := w.ops.put w.next ⟨process, plan, .reserve plan.rows⟩, next := w.next + 1 },
      .done)

/-- The next turn of the loop over the plan: `try_reserve_write` or `try_reserve_read`. -/
def reserveStep (n : ℕ) (op : Operation) (ok : Bool) (w : World) : World × Outcome :=
  match op.stage with
  | .reserve [] => (w.setStage n op .invalidate, .done)
  | .reserve ((id, p) :: rest) =>
    match p.lock with
    | none => (w.setStage n op (.reserve rest), .done)
    | some write =>
      if ok && w.free n id write then (w.setStage n op (.reserve rest), .done)
      else (w.drop n, .failed)
  | _ => (w, .idle)

/-- `set_ready_batch`, unless there is nothing to set. -/
def setReady (url : UrlCrate) (ids : List String) (ready fault : Bool) (s : Registry) :
    Except RegistryError Registry :=
  if ids = [] then .ok s
  else do
    let (_, s') ← Call.run url ⟨.setReadyBatch ids ready, fault⟩ s
    return s'

def invalidateStep (url : UrlCrate) (n : ℕ) (op : Operation) (fault : Bool) (w : World) :
    World × Outcome :=
  match op.stage with
  | .invalidate =>
    match setReady url op.writes false fault w.registry with
    | .ok registry => ({ w with registry := registry }.setStage n op (.promote op.plan.rows), .done)
    | .error _ => (w.drop n, .failed)
  | _ => (w, .idle)

/-- `validate_ready`; the root of a ready source is a directory. -/
def validateReady (url : UrlCrate) (w : World) (source : RegisteredSource) : Bool :=
  match getById url w.registry source.sourceId with
  | .ok (some current) =>
    current.repoKey == source.repoKey && current.root == source.root
      && current.origin.isSome == source.origin.isSome && current.ready
      && (!current.origin.isSome || (w.checkouts.find? source.sourceId).isSome)
  | _ => false

/-- The next turn of the last loop of `acquire`; `ok` is what validating the slot and the
checkout, or initializing the slot, answers. -/
def promoteStep (url : UrlCrate) (n : ℕ) (op : Operation) (ok : Bool) (w : World) :
    World × Outcome :=
  match op.stage with
  | .promote [] => (w.setStage n op (.work []), .done)
  | .promote ((_, p) :: rest) =>
    if ok && (p.write || validateReady url w p.source) then
      (w.setStage n op (.promote rest), .done)
    else (w.drop n, .failed)
  | _ => (w, .idle)

/-- A look at a checkout through a guard. -/
def observeStep (op : Operation) (id : String) (w : World) : World × Outcome :=
  match op.stage with
  | .work _ => if op.lock id = none then (w, .idle) else (w, .observed (w.checkouts.find? id))
  | _ => (w, .idle)

/-- `clone_source` up to the staged checkout; each source is cloned once. -/
def fetchStep (n : ℕ) (op : Operation) (id commit : String) (w : World) : World × Outcome :=
  match op.stage with
  | .work cloned =>
    if op.lock id = some true ∧ id ∉ cloned then
      (w.setStage n op (.staged cloned id ⟨n, commit⟩), .done)
    else (w, .idle)
  | _ => (w, .idle)

/-- The old checkout, if there is one, moves into the attempt. -/
def retireStep (n : ℕ) (op : Operation) (w : World) : World × Outcome :=
  match op.stage with
  | .staged cloned id tree =>
    ({ w with checkouts := w.checkouts.erase id }.setStage n op
      (.retired cloned id tree (w.checkouts.find? id)), .done)
  | _ => (w, .idle)

/-- What stands in the place of a checkout that could not be put there. -/
def restore (checkouts : Table String Tree) (id : String) (previous : Option Tree) :
    Table String Tree :=
  match previous with
  | some tree => checkouts.put id tree
  | none => checkouts

/-- The new checkout moves to the root.  Where it cannot, the old one moves back, or is left in
the attempt. -/
def placeStep (n : ℕ) (op : Operation) (placement : Placement) (w : World) : World × Outcome :=
  match op.stage with
  | .retired cloned id tree previous =>
    match placement with
    | .placed =>
      ({ w with checkouts := w.checkouts.put id tree }.setStage n op (.work (id :: cloned)), .done)
    | .restored => ({ w with checkouts := restore w.checkouts id previous }.drop n, .failed)
    | .lost => (w.drop n, .failed)
  | _ => (w, .idle)

/-- `set_writes_ready(true)` of `finish_source_operation`, once every replacement is in place.
The guards are released whatever it returns. -/
def finishStep (url : UrlCrate) (n : ℕ) (op : Operation) (fault : Bool) (w : World) :
    World × Outcome :=
  match op.stage with
  | .work cloned =>
    if ∀ id ∈ op.writes, id ∈ cloned then
      match setReady url op.writes true fault w.registry with
      | .ok registry => ({ w with registry := registry }.setStage n op .finished, .done)
      | .error _ => (w.setStage n op .finished, .failed)
    else (w, .idle)
  | _ => (w, .idle)

def releaseStep (n : ℕ) (op : Operation) (w : World) : World × Outcome :=
  match op.stage with
  | .finished => (w.drop n, .done)
  | _ => (w, .idle)

/-- A step of an operation that is under way. -/
def World.onOperation (w : World) (n : ℕ) (step : Operation → World × Outcome) :
    World × Outcome :=
  match w.ops.find? n with
  | some op => step op
  | none => (w, .idle)

def callStep (url : UrlCrate) (call : Call) (w : World) : World × Outcome :=
  match call.run url w.registry with
  | .ok (_, registry) => ({ w with registry := registry }, .done)
  | .error _ => (w, .failed)

def World.step (url : UrlCrate) (w : World) (action : Action) : World × Outcome :=
  match action with
  | .call call => callStep url call w
  | .acquire process requested => acquireStep process requested w
  | .reserve n ok => w.onOperation n fun op => reserveStep n op ok w
  | .invalidate n fault => w.onOperation n fun op => invalidateStep url n op fault w
  | .promote n ok => w.onOperation n fun op => promoteStep url n op ok w
  | .observe n id => w.onOperation n fun op => observeStep op id w
  | .fetch n id commit => w.onOperation n fun op => fetchStep n op id commit w
  | .retire n => w.onOperation n fun op => retireStep n op w
  | .place n placement => w.onOperation n fun op => placeStep n op placement w
  | .finish n fault => w.onOperation n fun op => finishStep url n op fault w
  | .release n => w.onOperation n fun op => releaseStep n op w
  | .fail n => w.onOperation n fun _ => (w.drop n, .failed)
  | .crash process => ({ w with ops := w.ops.filter fun _ op => op.process != process }, .done)

/-- Readiness is written by operations only; the other calls of the registry come at any time. -/
def Action.allowed : Action → Bool
  | .call ⟨.setReadyBatch _ _, _⟩ => false
  | _ => true

/-- The operation an action is a step of. -/
def Action.operation : Action → Option ℕ
  | .reserve n _ | .invalidate n _ | .promote n _ | .observe n _ | .fetch n _ _ | .retire n
  | .place n _ | .finish n _ | .release n | .fail n => some n
  | .call _ | .acquire _ _ | .crash _ => none

/-- It starts with a fresh registry and whatever directories there are. -/
def World.machine (url : UrlCrate) : Machine World Action Outcome where
  init w := (∃ fs draw dir, create fs draw dir = .ok w.registry) ∧ w.ops = .empty
  enabled _ a := a.allowed = true
  step w a := w.step url a

end Sources
