/-
Parallel extraction with a merge in item order (`crates/source-walk/src/parallel.rs`).

`map_ordered` runs `work` on every item, on several threads, and hands each result to `merge`
on the calling thread, strictly in the order of the items.  A worker claims the next item
while it is less than a window ahead of the merge, runs `work`, puts the result among the
ready ones and notifies the merge.  The merge takes its next result when it is ready, and
notifies the workers.  However the merge ends, it stops the workers and waits for them.

A step is one critical section of the mutex, one notification, or one call of `merge`.  A
critical section that ends in a wait puts its thread to sleep, and a thread that is woken
enters the section again.  A sleeping thread may also wake by itself.
-/
import Cartograph.Lib.Runs
import Cartograph.Lib.Table

namespace SourceWalk

/-- How a call ends. -/
inductive Outcome (ε π α : Type)
  | ok (value : α)
  | error (e : ε)
  | panic (payload : π)

/-- The arguments of `map_ordered`; `merge` changes what it captured. -/
structure Extraction (τ ε π μ : Type) where
  items : List String
  work : String → Outcome ε π τ
  merge : μ → String → τ → μ × Outcome ε π Unit

variable {τ ε π μ : Type}

namespace Extraction

/-- The serial loop over `items`. -/
def serialFrom (E : Extraction τ ε π μ) : List String → μ → μ × Outcome ε π Unit
  | [], acc => (acc, .ok ())
  | item :: rest, acc =>
    match E.work item with
    | .ok value =>
      match E.merge acc item value with
      | (acc, .ok ()) => E.serialFrom rest acc
      | (acc, .error e) => (acc, .error e)
      | (acc, .panic payload) => (acc, .panic payload)
    | .error e => (acc, .error e)
    | .panic payload => (acc, .panic payload)

def serial (E : Extraction τ ε π μ) (acc : μ) : μ × Outcome ε π Unit := E.serialFrom E.items acc

end Extraction

/-- The threads of a parallel run, and how far they may be ahead. -/
structure Pool where
  threads : ℕ
  window : ℕ
  threads_pos : 0 < threads
  window_pos : 0 < window

/-! ### States -/

inductive Worker
  | claiming
  | asleep
  | working (index : ℕ) (item : String)
  | notifying
  | returned

/-- What the calling thread does; a result stands with its item until it is merged. -/
inductive Merger (τ ε π : Type)
  | taking (index : ℕ)
  | asleep (index : ℕ)
  | notifying (index : ℕ) (item : String) (outcome : Outcome ε π τ)
  | merging (index : ℕ) (item : String) (outcome : Outcome ε π τ)
  | stopping (times : ℕ) (result : Outcome ε π Unit)
  | releasing (times : ℕ) (result : Outcome ε π Unit)
  | joining (result : Outcome ε π Unit)
  | finished (result : Outcome ε π Unit)

structure State (P : Pool) (τ ε π μ : Type) where
  next : ℕ
  merged : ℕ
  stop : Bool
  ready : Table ℕ (Outcome ε π τ)
  workers : Fin P.threads → Worker
  merger : Merger τ ε π
  acc : μ

variable {P : Pool}

namespace State

def initial (P : Pool) (acc : μ) : State P τ ε π μ :=
  { next := 0, merged := 0, stop := false, ready := .empty, workers := fun _ => .claiming
    merger := .taking 0, acc := acc }

def setWorker (s : State P τ ε π μ) (w : Fin P.threads) (worker : Worker) : State P τ ε π μ :=
  { s with workers := Function.update s.workers w worker }

end State

/-- `claimable.notify_all`. -/
def Worker.woken : Worker → Worker
  | .asleep => .claiming
  | worker => worker

/-- `finished.notify_all`. -/
def Merger.woken : Merger τ ε π → Merger τ ε π
  | .asleep index => .taking index
  | merger => merger

def State.wakeWorkers (s : State P τ ε π μ) : State P τ ε π μ :=
  { s with workers := fun w => (s.workers w).woken }

/-! ### Steps -/

/-- Whose step it is; the last two are spontaneous. -/
inductive Op (P : Pool)
  | worker (w : Fin P.threads)
  | merger
  | wakeWorker (w : Fin P.threads)
  | wakeMerger

def Op.spontaneous : Op P → Bool
  | .wakeWorker _ => true
  | .wakeMerger => true
  | _ => false

namespace Extraction

variable (E : Extraction τ ε π μ)

/-- One step of a worker, and the index it claimed. -/
def workerStep (s : State P τ ε π μ) (w : Fin P.threads) : State P τ ε π μ × Option ℕ :=
  match s.workers w with
  | .claiming =>
    match s.stop, E.items[s.next]? with
    | false, some item =>
      if s.next < s.merged + P.window then
        ({ s.setWorker w (.working s.next item) with next := s.next + 1 }, some s.next)
      else (s.setWorker w .asleep, none)
    | _, _ => (s.setWorker w .returned, none)
  | .working index item =>
    ({ s.setWorker w .notifying with ready := s.ready.put index (E.work item) }, none)
  | .notifying => ({ s.setWorker w .claiming with merger := s.merger.woken }, none)
  | .asleep => (s, none)
  | .returned => (s, none)

/-- One step of the calling thread. -/
def mergerStep (s : State P τ ε π μ) : State P τ ε π μ :=
  match s.merger with
  | .taking index =>
    match E.items[index]? with
    | none => { s with merger := .stopping 1 (.ok ()) }
    | some item =>
      match s.ready.find? index with
      | some outcome =>
        { s with
          ready := s.ready.erase index
          merged := index + 1
          merger := .notifying index item outcome }
      | none => { s with merger := .asleep index }
  | .notifying index item outcome => { s.wakeWorkers with merger := .merging index item outcome }
  | .merging index item (.ok value) =>
    match E.merge s.acc item value with
    | (acc, .ok ()) => { s with acc := acc, merger := .taking (index + 1) }
    | (acc, .error e) => { s with acc := acc, merger := .stopping 1 (.error e) }
    | (acc, .panic payload) => { s with acc := acc, merger := .stopping 1 (.panic payload) }
  | .merging _ _ (.error e) => { s with merger := .stopping 1 (.error e) }
  -- `stop` is called before the panic resumes, and again when the guard is dropped
  | .merging _ _ (.panic payload) => { s with merger := .stopping 2 (.panic payload) }
  | .stopping times result => { s with stop := true, merger := .releasing times result }
  | .releasing times result =>
    { s.wakeWorkers with
      merger := if 1 < times then .stopping (times - 1) result else .joining result }
  | .joining result => { s with merger := .finished result }
  | .asleep _ => s
  | .finished _ => s

/-- Who can go on. -/
def Enabled (s : State P τ ε π μ) : Op P → Prop
  | .worker w => s.workers w ≠ .asleep ∧ s.workers w ≠ .returned
  | .merger =>
    match s.merger with
    | .asleep _ => False
    | .finished _ => False
    | .joining _ => ∀ w, s.workers w = .returned
    | _ => True
  | .wakeWorker w => s.workers w = .asleep
  | .wakeMerger => ∃ index, s.merger = .asleep index

def step (s : State P τ ε π μ) : Op P → State P τ ε π μ × Option ℕ
  | .worker w => E.workerStep s w
  | .merger => (E.mergerStep s, none)
  | .wakeWorker w => (s.setWorker w .claiming, none)
  | .wakeMerger => ({ s with merger := s.merger.woken }, none)

/-- The parallel loop; the output of a step is the index it claims. -/
def machine (P : Pool) (acc : μ) : Machine (State P τ ε π μ) (Op P) (Option ℕ) where
  init := fun s => s = .initial P acc
  enabled := Enabled
  step := E.step

/-- The threads of `map_ordered` when more than one is asked for. -/
def pool (threads : ℕ) (h : 1 < threads) : Pool where
  threads := threads
  window := threads * 4
  threads_pos := Nat.lt_trans Nat.zero_lt_one h
  window_pos := Nat.mul_pos (Nat.lt_trans Nat.zero_lt_one h) (by decide)

/-- `map_ordered` with so many workers may return this. -/
def MapOrdered (workers : ℕ) (acc : μ) (out : μ × Outcome ε π Unit) : Prop :=
  if h : 1 < min workers E.items.length then
    ∃ tr s, (E.machine (pool _ h) acc).Steps (.initial _ acc) tr s
      ∧ s.merger = .finished out.2 ∧ s.acc = out.1
  else out = E.serial acc

end Extraction

end SourceWalk
