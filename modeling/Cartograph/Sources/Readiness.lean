/-
Readiness of managed sources.

* `move_slot` — a source that is ready after a step was so before, with the same checkout, or the
  step completed an operation that replaced it;
* `Current` — a ready source has the checkout of the operation that last completed on it;
* `Reserving` — an operation that is still taking its locks has not written to the registry;
* `managed_readiness` — the result over runs.
-/
import Cartograph.Lib.Log
import Cartograph.Sources.Guarded

namespace Sources

open Machine

variable {url : UrlCrate} {w w' : World} {a : Action} {out : Outcome}

abbrev SourceEvent := Event World Action Outcome

/-- The event that completes an operation which replaces a source. -/
def completes (id : String) (e : SourceEvent) : Bool :=
  match e.op, e.out with
  | .finish n _, .done => (e.pre.ops.find? n).any fun op => op.lock id == some true
  | _, _ => false

variable {n k : ℕ} {op : Operation} {id : String} {registry : Registry}

theorem completes_finish {fault : Bool} (id : String) (hop : w.ops.find? n = some op) :
    completes id ⟨w, .finish n fault, .done, w'⟩ = (op.lock id == some true) := by
  simp [completes, hop]

theorem completes_of_ne (h : ∀ n fault, a = .finish n fault → out ≠ .done) :
    completes id ⟨w, a, out, w'⟩ = false := by
  cases a <;> try rfl
  rename_i n fault
  cases out <;> try rfl
  exact absurd rfl (h n fault rfl)

/-- A step that completes an operation which replaces this source. -/
def Completed (w w' : World) (a : Action) (out : Outcome) (id : String) : Prop :=
  ∃ n fault op tree, a = .finish n fault ∧ out = .done ∧ w.ops.find? n = some op
    ∧ op.lock id = some true ∧ w.checkouts.find? id = some tree ∧ tree.operation = n
    ∧ w'.checkouts = w.checkouts ∧ ∀ id', op.lock id' = some true → Ready w'.registry id'

/-- **How a source comes to be ready.** -/
theorem move_slot (h : Guarded w) (hmove : Move url w a out w') (hready : Ready w'.registry id) :
    Completed w w' a out id ∨ completes id ⟨w, a, out, w'⟩ = false ∧ SameSlot w w' id := by
  cases hmove with
  | skip hout => exact .inr ⟨completes_of_ne hout, .refl _ _⟩
  | call hiff => exact .inr ⟨rfl, hiff id, rfl⟩
  | begin | reserve | reserved | promote | promoted | fetch | unfinished | crash =>
    exact .inr ⟨rfl, Iff.rfl, rfl⟩
  | drop _ _ hfinish =>
    exact .inr ⟨completes_of_ne fun n fault heq => absurd heq (hfinish n fault), Iff.rfl, rfl⟩
  | invalidate _ _ hiff => exact .inr ⟨rfl, iff_of_true hready ((hiff id).mp hready).2, rfl⟩
  | @retire n op cloned id' tree hop hstage =>
    have hsound := h.sound n op hop
    rw [Sound, hstage] at hsound
    obtain ⟨⟨hdark, -⟩, hlock, -⟩ := hsound
    -- what is replaced is not ready until its operation ends
    have hne : id ≠ id' := fun heq => hdark id' hlock (heq ▸ hready)
    refine .inr ⟨rfl, Iff.rfl, ?_⟩
    show (w.checkouts.erase id').find? id = _
    rw [Table.find?_erase, if_neg hne]
  | @place n op cloned id' tree previous hop hstage =>
    have hsound := h.sound n op hop
    rw [Sound, hstage] at hsound
    obtain ⟨⟨hdark, -⟩, hlock, -⟩ := hsound
    have hne : id ≠ id' := fun heq => hdark id' hlock (heq ▸ hready)
    refine .inr ⟨rfl, Iff.rfl, ?_⟩
    show (w.checkouts.put id' tree).find? id = _
    rw [Table.find?_put, if_neg hne]
  | @restore n op cloned id' tree previous hop hstage =>
    have hsound := h.sound n op hop
    rw [Sound, hstage] at hsound
    obtain ⟨⟨hdark, -⟩, hlock, -⟩ := hsound
    have hne : id ≠ id' := fun heq => hdark id' hlock (heq ▸ hready)
    refine .inr ⟨rfl, Iff.rfl, ?_⟩
    show (restore w.checkouts id' previous).find? id = _
    cases previous with
    | none => rfl
    | some old => simp [restore, hne]
  | @finish n fault op cloned registry hop hstage hcloned hiff =>
    -- finishing makes ready what was placed, and only that
    by_cases hlock : op.lock id = some true
    · have hsound := h.sound n op hop
      rw [Sound, hstage] at hsound
      obtain ⟨-, tree, htree, hown⟩ := hsound.2.2 id (hcloned id hlock)
      exact .inl ⟨n, fault, op, tree, rfl, rfl, hop, hlock, htree, hown, rfl,
        fun id' hid' => (hiff id').mpr (.inl hid')⟩
    · refine .inr ⟨?_, ?_, rfl⟩
      · rw [completes_finish id hop]
        simpa using hlock
      · exact (hiff id).trans (or_iff_right hlock)

/-- A source that is ready has the checkout of the operation that last completed on it. -/
def Current (tr : List SourceEvent) (w : World) (id : String) : Prop :=
  ∃ e n fault tree, Log.last (completes id) tr = some e ∧ e.op = .finish n fault
    ∧ e.pre.checkouts.find? id = some tree ∧ tree.operation = n
    ∧ w.checkouts.find? id = some tree

variable {tr : List SourceEvent}

theorem step_current (h : Guarded w) (hmove : Move url w a out w')
    (hcurrent : Ready w.registry id → Current tr w id) (hready : Ready w'.registry id) :
    Current (tr ++ [⟨w, a, out, w'⟩]) w' id := by
  rcases move_slot h hmove hready with
    ⟨n, fault, op, tree, rfl, rfl, hop, hlock, htree, hown, hsame, -⟩ | ⟨hcompletes, hslot⟩
  · refine ⟨⟨w, .finish n fault, .done, w'⟩, n, fault, tree, ?_, rfl, htree, hown, by rw [hsame, htree]⟩
    rw [Log.last_concat, if_pos (by simp [completes_finish id hop, hlock])]
  · obtain ⟨e, n, fault, tree, hlast, hop, hpre, hown, htree⟩ := hcurrent (hslot.1.mp hready)
    refine ⟨e, n, fault, tree, ?_, hop, hpre, hown, hslot.2.trans htree⟩
    rw [Log.last_concat, if_neg (by simp [hcompletes]), hlast]

/-! ### Taking the locks -/

/-- The operation has not begun, or is still taking its locks. -/
def Reserving (w : World) (n : ℕ) : Prop :=
  w.next ≤ n ∨ ∃ op todo, w.ops.find? n = some op ∧ op.stage = .reserve todo

/-- No step of the operation wrote to the registry. -/
def Unwritten (tr : List SourceEvent) (n : ℕ) : Prop :=
  ∀ e ∈ tr, e.op.operation = some n → e.post.registry = e.pre.registry

theorem Unwritten.concat (h : Unwritten tr n)
    (hstep : a.operation = some n → w'.registry = w.registry) :
    Unwritten (tr ++ [⟨w, a, out, w'⟩]) n := by
  intro e he hop
  rcases List.mem_append.mp he with he | he
  · exact h e he hop
  · obtain rfl := List.mem_singleton.mp he
    exact hstep hop

variable {checkouts : Table String Tree} {stage : Stage}

theorem reserving_setStage (hk : k < w.next)
    (h : Reserving ({ w with registry := registry, checkouts := checkouts }.setStage k op stage) n)
    :
    (n = k ∧ ∃ todo, stage = .reserve todo) ∨ (n ≠ k ∧ Reserving w n) := by
  rcases h with hnext | ⟨op', todo, hop', hstage⟩
  · have hnext : w.next ≤ n := hnext
    exact .inr ⟨by omega, .inl hnext⟩
  · have hput : (w.ops.put k { op with stage := stage }).find? n = some op' := hop'
    rcases Table.find?_put_eq_some.mp hput with ⟨rfl, rfl⟩ | ⟨hn, hold⟩
    · exact .inl ⟨rfl, todo, hstage⟩
    · exact .inr ⟨hn, .inr ⟨op', todo, hold, hstage⟩⟩

theorem reserving_of_past (hk : k < w.next) (hpast : ∀ todo, stage ≠ .reserve todo)
    (ha : a.operation = some k)
    (h : Reserving ({ w with registry := registry, checkouts := checkouts }.setStage k op stage) n)
    :
    Reserving w n ∧ (a.operation = some n → registry = w.registry) := by
  rcases reserving_setStage hk h with ⟨-, todo, hstage⟩ | ⟨hne, hreserving⟩
  · exact absurd hstage (hpast todo)
  · refine ⟨hreserving, fun heq => ?_⟩
    exact absurd (Option.some.inj (heq.symm.trans ha)) hne

theorem reserving_fewer (h : Reserving w' n) (hnext : w'.next = w.next)
    (hops : ∀ m op, w'.ops.find? m = some op → w.ops.find? m = some op) : Reserving w n := by
  rcases h with hle | ⟨op, todo, hop, hstage⟩
  · exact .inl (hnext ▸ hle)
  · exact .inr ⟨op, todo, hops n op hop, hstage⟩

/-- **An operation that is still taking its locks has not written to the registry.** -/
theorem move_reserving (h : Guarded w) (hmove : Move url w a out w') (hreserving : Reserving w' n) :
    Reserving w n ∧ (a.operation = some n → w'.registry = w.registry) := by
  cases hmove with
  | skip => exact ⟨hreserving, fun _ => rfl⟩
  | call => exact ⟨hreserving, fun heq => by cases heq⟩
  | begin =>
    refine ⟨?_, fun heq => by cases heq⟩
    rcases hreserving with hnext | ⟨op, todo, hop, hstage⟩
    · have hnext : w.next + 1 ≤ n := hnext
      exact .inl (by omega)
    · have hput : (w.ops.put w.next _).find? n = some op := hop
      rcases Table.find?_put_eq_some.mp hput with ⟨rfl, -⟩ | ⟨-, hold⟩
      · exact .inl le_rfl
      · exact .inr ⟨op, todo, hold, hstage⟩
  | @reserve k ok op id p rest hop hstage hfree =>
    refine ⟨?_, fun _ => rfl⟩
    rcases reserving_setStage (h.fresh k op hop) hreserving with ⟨rfl, -⟩ | ⟨-, hreserving⟩
    · exact .inr ⟨op, _, hop, hstage⟩
    · exact hreserving
  | reserved hop | invalidate hop | promote hop | promoted hop | fetch hop | retire hop
  | place hop | finish hop | unfinished hop =>
    exact reserving_of_past (h.fresh _ _ hop) (by simp) rfl hreserving
  | restore =>
    exact ⟨reserving_fewer hreserving rfl fun _ _ hop => (find?_drop hop).2, fun _ => rfl⟩
  | drop => exact ⟨reserving_fewer hreserving rfl fun _ _ hop => (find?_drop hop).2, fun _ => rfl⟩
  | crash =>
    refine ⟨reserving_fewer hreserving rfl fun m op hop => ?_, fun heq => by cases heq⟩
    rw [Table.find?_filter] at hop
    exact (Option.filter_eq_some_iff.mp hop).1

/-- The operation has ended. -/
def Ended (w : World) (n : ℕ) : Prop := n < w.next ∧ w.ops.find? n = none

theorem ended_setStage {op op' : Operation} {checkouts : Table String Tree} {stage : Stage}
    (h : Ended w n) (hk : w.ops.find? k = some op') :
    Ended ({ w with registry := registry, checkouts := checkouts }.setStage k op stage) n ∧ n ≠ k := by
  have hne : n ≠ k := by
    rintro rfl
    rw [h.2] at hk
    cases hk
  refine ⟨⟨h.1, ?_⟩, hne⟩
  show (w.ops.put k _).find? n = none
  rw [Table.find?_put, if_neg hne, h.2]

theorem move_ended (h : Ended w n) (hmove : Move url w a out w') :
    Ended w' n ∧ (a.operation = some n → w'.registry = w.registry) := by
  have hother : ∀ {k : ℕ} {op : Operation}, a.operation = some k → w.ops.find? k = some op →
      a.operation ≠ some n := by
    intro k op ha hop hn
    obtain rfl := Option.some.inj (ha.symm.trans hn)
    rw [h.2] at hop
    cases hop
  cases hmove with
  | skip => exact ⟨h, fun _ => rfl⟩
  | call => exact ⟨h, fun heq => by cases heq⟩
  | begin =>
    refine ⟨⟨Nat.lt_succ_of_lt h.1, ?_⟩, fun heq => by cases heq⟩
    have hlt := h.1
    show (w.ops.put w.next _).find? n = none
    rw [Table.find?_put, if_neg (by omega), h.2]
  | reserve hop | reserved hop | invalidate hop | promote hop | promoted hop | fetch hop | retire hop
  | place hop | finish hop | unfinished hop =>
    exact ⟨(ended_setStage h hop).1, fun heq => absurd heq (hother rfl hop)⟩
  | restore hop | drop hop =>
    refine ⟨⟨h.1, ?_⟩, fun _ => rfl⟩
    show (w.ops.erase _).find? n = none
    rw [Table.find?_erase, h.2]
    split_ifs <;> rfl
  | crash =>
    refine ⟨⟨h.1, ?_⟩, fun heq => by cases heq⟩
    show (w.ops.filter _).find? n = none
    rw [Table.find?_filter, h.2]
    rfl

theorem reserve_failed {ok : Bool} (h : Guarded w) (hmove : Move url w (.reserve n ok) .failed w') :
    Reserving w n ∧ Ended w' n := by
  cases hmove with
  | skip _ hfail => exact absurd rfl (hfail n ok rfl)
  | @drop _ k _ op hop ha _ hreserve =>
    obtain rfl := Option.some.inj ha
    obtain ⟨todo, hstage⟩ := hreserve n ok rfl
    refine ⟨.inr ⟨op, todo, hop, hstage⟩, h.fresh n op hop, ?_⟩
    show (w.ops.erase n).find? n = none
    rw [Table.find?_erase, if_pos rfl]

/-! ### Runs -/

variable {w₀ : World}

theorem init_guarded (h : (World.machine url).init w) :
    Guarded w ∧ ∀ id, ¬ Ready w.registry id := by
  obtain ⟨⟨fs, draw, dir, hcreate⟩, hops⟩ := h
  refine ⟨⟨?_, ?_, ?_, ?_⟩, ?_⟩
  · simp [hops]
  · simp [hops]
  · intro n m op op' id hne hop
    simp [hops] at hop
  · simp [hops]
  · rintro id ⟨row, hrow, -⟩
    simp only [create, Checked.bind_eq_ok, Checked.pure_eq_ok] at hcreate
    obtain ⟨_, -, _, -, _, -, heq⟩ := hcreate
    rw [← heq] at hrow
    simp at hrow

section

variable (h0 : (World.machine url).init w₀)
include h0

section

variable (h : (World.machine url).Steps w₀ tr w)
include h

theorem steps_guarded :
    Guarded w :=
  h.invariant (fun _ _ _ _ hs ha hstep => step_guarded hs (step_move ha hstep)) (init_guarded h0).1

theorem steps_current (hready : Ready w.registry id) : Current tr w id := by
  induction h with
  | refl => exact absurd hready ((init_guarded h0).2 id)
  | snoc hs ha hstep ih => exact step_current (steps_guarded h0 hs) (step_move ha hstep) ih hready

theorem steps_unwritten (n : ℕ) :
    (Reserving w n → Unwritten tr n)
      ∧ ((∃ e ∈ tr, ∃ ok, e.op = .reserve n ok ∧ e.out = .failed) → Ended w n ∧ Unwritten tr n) := by
  induction h with
  | refl => exact ⟨fun _ e he => absurd he (by simp), fun ⟨e, he, _⟩ => absurd he (by simp)⟩
  | @snoc tr s1 s2 a out hs ha hstep ih =>
    have hguarded := steps_guarded h0 hs
    have hmove := step_move ha hstep
    refine ⟨?_, ?_⟩
    · intro hreserving
      obtain ⟨hbefore, hsame⟩ := move_reserving hguarded hmove hreserving
      exact (ih.1 hbefore).concat hsame
    · rintro ⟨e, he, ok, hop, hout⟩
      rcases List.mem_append.mp he with he | he
      · obtain ⟨hended, hunwritten⟩ := ih.2 ⟨e, he, ok, hop, hout⟩
        obtain ⟨hended', hsame⟩ := move_ended hended hmove
        exact ⟨hended', hunwritten.concat hsame⟩
      · -- the reservation fails in this step, which writes nothing
        obtain rfl := List.mem_singleton.mp he
        obtain rfl : a = .reserve n ok := hop
        obtain rfl : out = .failed := hout
        obtain ⟨hreserving, hended⟩ := reserve_failed hguarded hmove
        refine ⟨hended, (ih.1 hreserving).concat fun _ => ?_⟩
        cases hmove with
        | skip => rfl
        | drop => rfl

end

end

theorem observed_eq {w' : World} {found : Option Tree} (hop : w.ops.find? n = some op)
    (h : w.step url (.observe n id) = (w', .observed found)) :
    (∃ cloned, op.stage = .work cloned) ∧ found = w.checkouts.find? id := by
  have hobserve : observeStep op id w = (w', .observed found) := by
    simpa [World.step, World.onOperation, hop] using h
  unfold observeStep at hobserve
  split at hobserve
  · rename_i cloned hstage
    split_ifs at hobserve
    · cases (Prod.mk.inj hobserve).2
    · obtain ⟨-, hfound⟩ := Prod.mk.inj hobserve
      exact ⟨⟨cloned, hstage⟩, (Outcome.observed.inj hfound).symm⟩
  · cases (Prod.mk.inj hobserve).2

/-- **Readiness of managed sources.**  In every run of the processes, with failures and crashes at
any step: a managed source that is ready has the checkout of the operation that last completed on
it; what is seen through a read guard is that checkout, and nobody holds the source for
replacement then; an operation that failed to take a lock wrote nothing; and a source becomes
ready only with all the sources its operation replaced, which otherwise are all unavailable. -/
theorem managed_readiness (h₀ : (World.machine url).init w₀)
    (h : (World.machine url).Steps w₀ tr w) :
    (∀ id, Ready w.registry id → Current tr w id)
    ∧ (∀ tr₁ e tr₂ n id op found, tr = tr₁ ++ e :: tr₂ → e.op = .observe n id →
      e.pre.ops.find? n = some op → op.lock id = some false → e.out = .observed found →
      found = e.pre.checkouts.find? id ∧ Current tr₁ e.pre id
        ∧ ∀ m other, e.pre.ops.find? m = some other → other.holds id ≠ some true)
    ∧ (∀ n, (∃ e ∈ tr, ∃ ok, e.op = .reserve n ok ∧ e.out = .failed) → Unwritten tr n)
    ∧ (∀ e ∈ tr, ∀ id, ¬ Ready e.pre.registry id → Ready e.post.registry id →
      ∃ n fault op, e.op = .finish n fault ∧ e.pre.ops.find? n = some op
        ∧ op.lock id = some true ∧ ∀ id', op.lock id' = some true → Ready e.post.registry id')
    ∧ ∀ n op, w.ops.find? n = some op → (∀ todo, op.stage ≠ .reserve todo) →
      op.stage ≠ .invalidate → Together w op := by
  refine ⟨fun id => steps_current h₀ h, ?_, fun n hfailed => ((steps_unwritten h₀ h n).2 hfailed).2,
    ?_, ?_⟩
  · intro tr₁ e tr₂ n id op found htr haction hop hlock hout
    obtain ⟨hbefore, -, hstep, -⟩ := h.around htr
    rw [haction, hout] at hstep
    obtain ⟨⟨cloned, hstage⟩, rfl⟩ := observed_eq hop (show e.pre.step url _ = _ from hstep)
    have hguarded := steps_guarded h₀ hbefore
    have hsound := hguarded.sound n op hop
    rw [Sound, hstage] at hsound
    -- a reader at work has promoted everything it reads
    have hready : Ready e.pre.registry id := hsound.2.1 id hlock (by simp)
    have hholds : op.holds id = some false := by
      rw [holds_eq_lock (by simp [hstage]) id, hlock]
    refine ⟨rfl, steps_current h₀ hbefore hready, ?_⟩
    intro m other hother hwrite
    -- a lock for replacement excludes all others
    by_cases hm : m = n
    · subst hm
      obtain rfl := Option.some.inj (hop.symm.trans hother)
      rw [hholds] at hwrite
      cases hwrite
    · rw [hguarded.exclusive m n other op id hm hother hop hwrite] at hholds
      cases hholds
  · intro e he id hpre hpost
    obtain ⟨tr₁, tr₂, -, hbefore, ha, hstep, -⟩ := h.split he
    rcases move_slot (steps_guarded h₀ hbefore) (step_move ha hstep) hpost with
      ⟨n, fault, op, tree, haction, -, hop, hlock, -, -, -, hall⟩ | ⟨-, hslot⟩
    · exact ⟨n, fault, op, haction, hop, hlock, hall⟩
    · exact absurd (hslot.1.mp hpost) hpre
  · intro n op hop hreserve hinvalidate
    have hsound := (steps_guarded h₀ h).sound n op hop
    cases hstage : op.stage with
    | reserve todo => exact absurd hstage (hreserve todo)
    | invalidate => exact absurd hstage hinvalidate
    | promote todo =>
      rw [Sound, hstage] at hsound
      exact .inr hsound.2.1
    | work cloned =>
      rw [Sound, hstage] at hsound
      exact .inr hsound.1
    | staged cloned id tree =>
      rw [Sound, hstage] at hsound
      exact .inr hsound.1.1
    | retired cloned id tree previous =>
      rw [Sound, hstage] at hsound
      exact .inr hsound.1.1
    | finished =>
      rw [Sound, hstage] at hsound
      exact hsound

/-! ### A run -/

def sampleId : String := "src_00000000000000000000000000000002"

/-- A repository is added, up to where its checkout is away. -/
def sampleAdd : List Action :=
  [.call ⟨.reserveManaged sampleFs (sampleDraws 2) "Acme/Shop/", false⟩,
    .acquire 1 [(sampleSource, true)], .reserve 0 true, .reserve 0 true, .invalidate 0 false,
    .promote 0 true, .promote 0 true, .fetch 0 sampleId "c0ffee", .retire 0,
    .acquire 2 [(sampleSource, true)]]

/-- Another process fails to add it too; it is published, and then read. -/
def samplePublish : List Action :=
  sampleAdd ++ .reserve 1 true :: [.place 0 .placed, .finish 0 false, .release 0,
    .acquire 2 [(sampleSource, false)], .reserve 2 true, .reserve 2 true, .invalidate 2 false,
    .promote 2 true, .promote 2 true]

def sampleWorld : World := ⟨sampleStart, .empty, .empty, 0⟩

def sampleBusy : SourceEvent :=
  (World.machine sampleUrl).eventAfter sampleWorld sampleAdd (.reserve 1 true)

def sampleObserve : SourceEvent :=
  (World.machine sampleUrl).eventAfter sampleWorld samplePublish (.observe 2 sampleId)

def sampleTrace : List SourceEvent :=
  (World.machine sampleUrl).trace sampleWorld (samplePublish ++ [.observe 2 sampleId])

/-- The row it is given. -/
def sampleRow : SourceRow :=
  ⟨"acme/shop", "/data/sources/src_00000000000000000000000000000002/checkout", "shop", .managed,
    some "github:acme/shop", some "https://github.com/acme/shop.git", some "acme/shop", false⟩

/-- The world with this row, where nothing is under way. -/
def sampleQuiet (ready : Bool) (checkouts : Table String Tree) (next : ℕ) : World where
  registry := ⟨"reg_00000000000000000000000000000000", "/data",
    Table.empty.put sampleId { sampleRow with ready := ready }⟩
  checkouts := checkouts
  ops := .empty
  next := next

theorem eq_of_quiet {w w' : World} (hops' : w'.ops.rows = []) (h : w.ops.rows = []
    ∧ (w.registry.registryId, w.registry.appDataDir, w.registry.rows.rows, w.checkouts.rows, w.next)
      = (w'.registry.registryId, w'.registry.appDataDir, w'.registry.rows.rows, w'.checkouts.rows,
        w'.next)) : w = w' := by
  obtain ⟨⟨_, _, ⟨_, _⟩⟩, ⟨_, _⟩, ⟨_, _⟩, _⟩ := w
  obtain ⟨⟨_, _, ⟨_, _⟩⟩, ⟨_, _⟩, ⟨_, _⟩, _⟩ := w'
  obtain ⟨hops, h⟩ := h
  cases hops
  cases hops'
  cases h
  rfl

theorem sample_outcomes :
    (∀ a ∈ samplePublish ++ [.observe 2 sampleId], a.allowed = true) ∧ sampleBusy.out = .failed
      ∧ sampleObserve.out = .observed (some ⟨0, "c0ffee"⟩)
      ∧ (sampleObserve.pre.ops.find? 2).map (fun op => op.lock sampleId) = some (some false) := by
  have hadd : sampleAdd = sampleAdd.take 1 ++ sampleAdd.drop 1 := (List.take_append_drop 1 _).symm
  have hpublish : samplePublish
      = sampleAdd.take 1 ++ ((samplePublish.take 14).drop 1 ++ samplePublish.drop 14) := rfl
  -- the run goes on from the two worlds in which nothing is under way
  have hreserved : (World.machine sampleUrl).exec sampleWorld (sampleAdd.take 1)
      = sampleQuiet false .empty 0 := eq_of_quiet rfl (by decide +kernel)
  have hpublished : (World.machine sampleUrl).exec (sampleQuiet false .empty 0)
      ((samplePublish.take 14).drop 1)
      = sampleQuiet true (Table.empty.put sampleId ⟨0, "c0ffee"⟩) 2 :=
    eq_of_quiet rfl (by decide +kernel)
  refine ⟨by decide, ?_, ?_⟩
  · rw [sampleBusy, Machine.eventAfter, hadd, Machine.exec_append, hreserved]
    decide +kernel
  · rw [sampleObserve, Machine.eventAfter, hpublish, Machine.exec_append, hreserved,
      Machine.exec_append, hpublished]
    decide +kernel

theorem sample_created : (World.machine sampleUrl).init sampleWorld := by
  refine ⟨⟨sampleFs, sampleDraws 0 0, some "/data", ?_⟩, rfl⟩
  have hdir : canonicalDirectory sampleFs (some "/data") = .ok "/data" := by decide
  have hid : validId ("reg_" ++ sampleDraws 0 0) "reg_" = true := by decide
  have hstate : checkState sampleStart none = .ok ("reg_" ++ sampleDraws 0 0) := by decide
  simp only [create, Checked.bind_eq_ok, Checked.ensure_eq_ok, Checked.pure_eq_ok]
  exact ⟨_, hdir, (), hid, _, hstate, rfl⟩

theorem sampleTrace_eq :
    sampleTrace = (World.machine sampleUrl).trace sampleWorld samplePublish ++ [sampleObserve] :=
  trace_eventAfter sampleWorld samplePublish (.observe 2 sampleId) []

theorem sampleBusy_mem : sampleBusy ∈ sampleTrace := by
  rw [sampleTrace, samplePublish, List.append_assoc, List.cons_append, trace_eventAfter]
  exact List.mem_append_right _ List.mem_cons_self

/-- The reader sees what the first operation published, and the second has written nothing. -/
theorem managed_readiness_sample :
    sampleObserve.out = .observed (some ⟨0, "c0ffee"⟩)
      ∧ Current ((World.machine sampleUrl).trace sampleWorld samplePublish) sampleObserve.pre sampleId
      ∧ sampleBusy.out = .failed ∧ Unwritten sampleTrace 1 := by
  obtain ⟨hallowed, hbusy, hseen, hread⟩ := sample_outcomes
  have hrun : (World.machine sampleUrl).Steps sampleWorld sampleTrace
      ((World.machine sampleUrl).exec sampleWorld (samplePublish ++ [.observe 2 sampleId])) :=
    steps_exec fun _ a ha => hallowed a ha
  obtain ⟨-, hobserve, hfailed, -⟩ := managed_readiness sample_created hrun
  obtain ⟨op, hop, hlock⟩ := Option.map_eq_some_iff.mp hread
  have hreserve : sampleBusy.op = .reserve 1 true := rfl
  have hunwritten : Unwritten sampleTrace 1 :=
    hfailed 1 ⟨sampleBusy, sampleBusy_mem, true, hreserve, hbusy⟩
  have haction : sampleObserve.op = .observe 2 sampleId := rfl
  obtain ⟨-, hcurrent, -⟩ :=
    hobserve _ sampleObserve [] 2 sampleId op _ sampleTrace_eq haction hop hlock hseen
  exact ⟨hseen, hcurrent, hbusy, hunwritten⟩

end Sources
