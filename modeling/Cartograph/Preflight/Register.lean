/-
What the findings register holds, over runs.

* `writer_effect` — what a step of the writer can do, whatever its stage;
* `steps_stamps` — epochs are handed out in increasing order;
* `stamped` — the report a call returns is the one the register holds;
* `preflight_register_order` — the order of the register in every run that reads its commits
  back; `unread_commit_overwritten` is a run that does not, where it fails.
-/
import Cartograph.Preflight.Order

namespace Preflight

open Machine Log

variable {s₀ s s' : Runs} {op : Op} {out : Out} {log : List Commit} {c : Commit}

/-! ### Epochs and results -/

/-- A report that is returned. -/
def Out.result? : Out → Option Stamped
  | .persisted (.ok st) => some st
  | .reconciled (.ok (some st)) => some st
  | _ => none

/-- A step of the writer hands out no epoch, writes only by a commit, and returns the recorded
reconciliation or its own commit. -/
structure WriterStep (s s' : Runs) (out : Out) : Prop where
  epoch : s'.epoch = s.epoch
  stamp : out.stamp? = none
  findings : out.commit? = none → s'.findings = s.findings
  result : ∀ st, out.result? = some st → out.commit? = none ∧
    ((∃ token repo report r, s.writer = some (.persist .checkReconciled token repo report)
        ∧ s.reconciled.find? repo = some r ∧ token < r.epoch ∧ st = ⟨r.report, repo, r.epoch⟩)
      ∨ ∃ c, s.pending = some c ∧ st = ⟨c.report, c.repo, c.epoch⟩)

theorem WriterStep.silent (hepoch : s'.epoch = s.epoch) (hstamp : out.stamp? = none)
    (hfindings : out.commit? = none → s'.findings = s.findings) (hresult : out.result? = none) :
    WriterStep s s' out :=
  ⟨hepoch, hstamp, hfindings, fun st hst => absurd (hst.symm.trans hresult) (by simp)⟩

section Writer

variable {token fence : ℕ} {repo : String} {report : PreflightReport} {ok : Bool}

theorem persistStep_effect {stage : PersistStage}
    (hwriter : s.writer = some (.persist stage token repo report)) :
    WriterStep s (persistStep s stage token repo report ok).1
      (persistStep s stage token repo report ok).2 := by
  cases stage with
  | checkCancelled | stageBatch | claimCommit | readBack =>
    simp only [persistStep]
    split
    · exact .silent rfl rfl (fun _ => rfl) rfl
    · exact .silent rfl rfl (fun _ => rfl) rfl
  | checkReconciled =>
    simp only [persistStep]
    split
    · next r hr =>
      obtain ⟨hfind, hnewer⟩ := Option.filter_eq_some_iff.mp hr
      refine ⟨rfl, rfl, fun _ => rfl, ?_⟩
      intro st hst
      obtain rfl := Option.some_inj.mp hst
      exact ⟨rfl, .inl ⟨token, repo, report, r, hwriter, hfind, by simpa using hnewer, rfl⟩⟩
    · exact .silent rfl rfl (fun _ => rfl) rfl
  | commit =>
    simp only [persistStep]
    split
    · exact .silent rfl rfl (fun hnone => absurd hnone (by simp [Out.commit?])) rfl
    · exact .silent rfl rfl (fun _ => rfl) rfl
  | record =>
    refine ⟨rfl, rfl, fun _ => rfl, ?_⟩
    intro st hst
    obtain rfl := Option.some_inj.mp hst
    refine ⟨rfl, .inr ⟨⟨true, token, repo, report⟩, ?_, rfl⟩⟩
    rw [Runs.pending, hwriter]
    rfl

theorem reconcileStep_effect {stage : ReconcileStage}
    (hwriter : s.writer = some (.reconcile stage fence repo report)) :
    WriterStep s (reconcileStep s stage fence repo report ok).1
      (reconcileStep s stage fence repo report ok).2 := by
  cases stage with
  | checkNewer | readBack =>
    simp only [reconcileStep]
    split
    · exact .silent rfl rfl (fun _ => rfl) rfl
    · exact .silent rfl rfl (fun _ => rfl) rfl
  | write =>
    simp only [reconcileStep]
    split
    · exact .silent rfl rfl (fun hnone => absurd hnone (by simp [Out.commit?])) rfl
    · exact .silent rfl rfl (fun _ => rfl) rfl
  | record =>
    refine ⟨rfl, rfl, fun _ => rfl, ?_⟩
    intro st hst
    obtain rfl := Option.some_inj.mp hst
    refine ⟨rfl, .inr ⟨⟨false, fence, repo, report⟩, ?_, rfl⟩⟩
    rw [Runs.pending, hwriter]
    rfl

end Writer

theorem writer_effect {ok : Bool} (hstep : step s (.writer ok) = (s', out)) :
    WriterStep s s' out := by
  obtain ⟨rfl, rfl⟩ : (step s (.writer ok)).1 = s' ∧ (step s (.writer ok)).2 = out := by
    rw [hstep]
    exact ⟨rfl, rfl⟩
  simp only [step]
  split
  · next hwriter => exact persistStep_effect hwriter
  · next hwriter => exact reconcileStep_effect hwriter
  · exact .silent rfl rfl (fun _ => rfl) rfl

theorem cancel_out (s : Runs) : ∃ won, (cancel s).2 = .stopped won := by
  unfold cancel
  split
  · exact ⟨_, rfl⟩
  · exact ⟨_, rfl⟩

theorem step_epoch (hstep : step s op = (s', out)) :
    s.epoch ≤ s'.epoch ∧ ∀ n, out.stamp? = some n → s.epoch < n ∧ n ≤ s'.epoch := by
  by_cases hop : ∃ ok, op = .writer ok
  · obtain ⟨ok, rfl⟩ := hop
    have heffect := writer_effect hstep
    refine ⟨le_of_eq heffect.epoch.symm, ?_⟩
    intro n hn
    exact absurd (hn.symm.trans heffect.stamp) (by simp)
  obtain ⟨rfl, rfl⟩ : (step s op).1 = s' ∧ (step s op).2 = out := by
    rw [hstep]
    exact ⟨rfl, rfl⟩
  cases op with
  | begin | reserveReconcile =>
    refine ⟨Nat.le_succ _, ?_⟩
    intro n hn
    obtain rfl := Option.some_inj.mp hn
    exact ⟨Nat.lt_succ_self _, le_refl _⟩
  | cancel =>
    refine ⟨le_of_eq (congrArg Runs.epoch (cancel_frame s)).symm, ?_⟩
    intro n hn
    obtain ⟨won, hout⟩ := cancel_out s
    have hn : (cancel s).2.stamp? = some n := hn
    rw [hout] at hn
    exact absurd hn (by simp [Out.stamp?])
  | persistIfCurrent | reconcile =>
    exact ⟨le_refl _, fun n hn => absurd hn (by simp [step, Out.stamp?])⟩
  | writer ok => exact absurd ⟨ok, rfl⟩ hop

theorem steps_stamps {tr : List (Event Runs Op Out)} (h : machine.Steps s₀ tr s) :
    (stamps tr).Pairwise (· < ·) ∧ ∀ n ∈ stamps tr, n ≤ s.epoch := by
  induction h with
  | refl => exact ⟨List.Pairwise.nil, fun n hn => absurd hn (by simp [stamps])⟩
  | @snoc tr s₁ s₂ op out _ _ hstep ih =>
    obtain ⟨hle, hnew⟩ := step_epoch hstep
    obtain ⟨hsorted, hbound⟩ := ih
    have hconcat : stamps (tr ++ [⟨s₁, op, out, s₂⟩]) = stamps tr ++ out.stamp?.toList := by
      simp only [stamps, List.filterMap_append, List.filterMap_cons, List.filterMap_nil]
      cases out.stamp? <;> rfl
    rw [hconcat]
    refine ⟨List.pairwise_append.mpr ⟨hsorted, ?_, ?_⟩, ?_⟩
    · cases out.stamp? with
      | none => exact List.Pairwise.nil
      | some n => exact List.pairwise_singleton _ _
    · intro m hm n hn
      have hn := hnew n (Option.mem_toList.mp hn)
      exact lt_of_le_of_lt (hbound m hm) hn.1
    · intro n hn
      rcases List.mem_append.mp hn with hn | hn
      · exact le_trans (hbound n hn) hle
      · exact (hnew n (Option.mem_toList.mp hn)).2

theorem step_uncommitted (hstep : step s op = (s', out)) (hnone : out.commit? = none) :
    s'.findings = s.findings := by
  cases op with
  | writer ok => exact (writer_effect hstep).findings hnone
  | cancel =>
    obtain rfl : (cancel s).1 = s' := congrArg Prod.fst hstep
    rw [cancel_frame]
  | begin =>
    obtain rfl : (begin s).1 = s' := congrArg Prod.fst hstep
    rfl
  | reserveReconcile =>
    obtain rfl : (reserveReconcile s).1 = s' := congrArg Prod.fst hstep
    rfl
  | persistIfCurrent | reconcile =>
    obtain rfl := congrArg Prod.fst hstep
    rfl

theorem result_writer {st : Stamped} (hstep : step s op = (s', out)) (hst : out.result? = some st) :
    ∃ ok, op = .writer ok := by
  obtain rfl : (step s op).2 = out := by rw [hstep]
  cases op with
  | writer ok => exact ⟨ok, rfl⟩
  | cancel =>
    obtain ⟨won, hout⟩ := cancel_out s
    have hst : (cancel s).2.result? = some st := hst
    rw [hout] at hst
    exact absurd hst (by simp [Out.result?])
  | begin => exact absurd hst (by simp [step, begin, Out.result?])
  | reserveReconcile => exact absurd hst (by simp [step, reserveReconcile, Out.result?])
  | persistIfCurrent | reconcile => exact absurd hst (by simp [step, Out.result?])

theorem stamped {st : Stamped} (h : Ordered s₀ log s) (hstep : step s op = (s', out))
    (hst : out.result? = some st) :
    (∃ c, lastWrite log st.repo = some c ∧ st = ⟨c.report, c.repo, c.epoch⟩)
      ∧ register s' st.repo = batch st.repo st.report := by
  obtain ⟨ok, rfl⟩ := result_writer hstep hst
  have heffect := writer_effect hstep
  obtain ⟨hnone, hresult⟩ := heffect.result st hst
  have hlast : ∃ c, lastWrite log st.repo = some c ∧ st = ⟨c.report, c.repo, c.epoch⟩ := by
    rcases hresult with ⟨token, repo, report, r, hwriter, hfind, hnewer, rfl⟩ | ⟨c, hpending, rfl⟩
    · -- the last commit is a reconciliation, since every preflight is older than the token
      have hready := h.ready _ hwriter
      have hpending : s.pending = none := by
        rw [Runs.pending, hwriter]
        rfl
      have hrec := (h.all_recorded hpending).reconciled repo
      rw [hfind] at hrec
      obtain ⟨x, hx, hxr⟩ := Option.map_eq_some_iff.mp hrec.symm
      obtain ⟨hxmem, hxkind⟩ := last_eq_some hx
      have hxon : x.preflight = false ∧ x.repo = repo := by simpa [Commit.ofKind] using hxkind
      obtain ⟨c, hc⟩ := exists_last (p := Commit.onRepo repo) hxmem (by simp [Commit.onRepo, hxon.2])
      have hle := le_lastWrite h hc hxmem hxon.2
      have hcon : c.repo = repo := by simpa [Commit.onRepo] using (last_eq_some hc).2
      have hckind : c.preflight = false := by
        cases hkind : c.preflight with
        | false => rfl
        | true =>
          have := hready c (last_eq_some hc).1 hkind
          have hxe : x.epoch = r.epoch := congrArg Reconciled.epoch hxr
          omega
      -- the last of all is the last of its kind
      have hcx : last (Commit.ofKind false repo) log = some c := by
        refine last_of_last hc (by simp [Commit.ofKind, hckind, hcon]) ?_
        intro y hy
        have hy : y.preflight = false ∧ y.repo = repo := by simpa [Commit.ofKind] using hy
        simp [Commit.onRepo, hy.2]
      obtain rfl : c = x := Option.some_inj.mp (hcx.symm.trans hx)
      exact ⟨c, hc, by rw [← hxr, hxon.2]⟩
    · obtain ⟨old, rfl, -⟩ := h.pending_last hpending
      refine ⟨c, ?_, rfl⟩
      rw [lastWrite, last_concat, if_pos (by simp [Commit.onRepo])]
  refine ⟨hlast, ?_⟩
  obtain ⟨c, hc, hst⟩ := hlast
  have hreport : st.report = c.report := congrArg Stamped.report hst
  have hkept : register s' st.repo = register s st.repo := by
    unfold register
    rw [heffect.findings hnone]
  rw [hkept, h.held st.repo, written, hc, hreport]

/-! ### Cancelling and claiming -/

/-- The run `t` is cancelled: by `cancel`, which says so, or by a newer preflight. -/
def Stops (e : Event Runs Op Out) (t : ℕ) : Prop :=
  e.pre.run = some t ∧ ((e.op = .cancel ∧ e.out = .stopped true)
    ∨ (e.op = .begin ∧ e.pre.flags.find? t = some .running))

/-- The run `t` claims its commit. -/
def Claims (e : Event Runs Op Out) (t : ℕ) : Prop :=
  ∃ repo report, e.pre.writer = some (.persist .claimCommit t repo report)
    ∧ e.post.writer = some (.persist .commit t repo report)

variable {e : Event Runs Op Out} {t : ℕ}

theorem stops_flag (hf : Flags e.pre) (hstep : step e.pre e.op = (e.post, e.out)) (h : Stops e t) :
    e.post.flags.find? t = some .cancelled := by
  obtain ⟨pre, op, out, post⟩ := e
  obtain ⟨hrun, ⟨rfl, rfl⟩ | ⟨rfl, hrunning⟩⟩ := h
  · -- a cancel that says it won found the run running
    have hrun : pre.run = some t := hrun
    have hwon : (cancel pre).2 = .stopped true := congrArg Prod.snd hstep
    have hrunning : pre.flags.find? t = some .running := by
      unfold cancel at hwon
      rw [hrun] at hwon
      exact leaveRunning_won.mp (Out.stopped.inj hwon)
    obtain rfl : (cancel pre).1 = post := congrArg Prod.fst hstep
    show (cancel pre).1.flags.find? t = _
    rw [find?_cancel, if_pos ⟨hrun, hrunning⟩]
  · have hrunning : pre.flags.find? t = some .running := hrunning
    have hle := hf.le t _ hrunning
    have hle : t ≤ pre.epoch := hle
    obtain rfl : (begin pre).1 = post := congrArg Prod.fst hstep
    show (begin pre).1.flags.find? t = _
    rw [find?_begin, if_neg (by omega), if_pos ⟨hrun, hrunning⟩]

theorem claims_flag (hf : Flags e.post) (h : Claims e t) :
    e.post.flags.find? t = some .committing := by
  obtain ⟨repo, report, -, hcommit⟩ := h
  exact hf.claimed _ _ _ _ hcommit rfl

/-! ### Runs -/

/-- An event of one kind comes before an event of another. -/
def Precedes (tr : List (Event Runs Op Out)) (p q : Event Runs Op Out → Prop) : Prop :=
  ∃ e e', [e, e'].Sublist tr ∧ p e ∧ q e'

/-- A commit for the repository, by the preflight or the reconciliation of an epoch. -/
def Writes (preflight : Bool) (epoch : ℕ) (repo : String) (e : Event Runs Op Out) : Prop :=
  ∃ report, e.out = .committed ⟨preflight, epoch, repo, report⟩

/-- The order of the register, in a run from `s₀` to `s`. -/
structure RegisterOrder (s₀ : Runs) (tr : List (Event Runs Op Out)) (s : Runs) : Prop where
  /-- The register of a repository holds the last commit, and none has a higher epoch. -/
  highest : ∀ repo, register s repo = written s₀ (commits tr) repo
    ∧ ∀ c, lastWrite (commits tr) repo = some c →
      ∀ c' ∈ commits tr, c'.repo = repo → c'.epoch ≤ c.epoch
  /-- A run that was cancelled or superseded never commits. -/
  stopped : ∀ t, (∃ e ∈ tr, Stops e t) → ∀ c ∈ commits tr, c.preflight = true → c.epoch ≠ t
  /-- A run that claimed its commit is never cancelled. -/
  claimed : ∀ t, (∃ e ∈ tr, Claims e t) →
    ∀ e ∈ tr, ¬Stops e t ∧ e.post.flags.find? t ≠ some .cancelled
  /-- A preflight begun before the fence does not overwrite the reconciliation. -/
  before : ∀ t f repo, Precedes tr (·.out = .began t) (·.out = .fenced f) →
    ¬Precedes tr (Writes false f repo) (Writes true t repo)
  /-- A preflight begun after the fence is not overwritten by the reconciliation. -/
  after : ∀ t f repo, Precedes tr (·.out = .fenced f) (·.out = .began t) →
    ¬Precedes tr (Writes true t repo) (Writes false f repo)
  /-- What a call returns is a write, and the register holds it when the call returns. -/
  returned : ∀ tr₁ e tr₂ st, tr = tr₁ ++ e :: tr₂ → e.out.result? = some st →
    (∃ c, lastWrite (commits tr₁) st.repo = some c ∧ st = ⟨c.report, c.repo, c.epoch⟩)
      ∧ register e.post st.repo = batch st.repo st.report
  uncommitted : ∀ e ∈ tr, e.out.commit? = none → e.post.findings = e.pre.findings

section Run

variable {tr : List (Event Runs Op Out)}

theorem precedes_stamps {p q : Event Runs Op Out → Prop} {m n : ℕ}
    (hp : ∀ e, p e → e.out.stamp? = some m) (hq : ∀ e, q e → e.out.stamp? = some n)
    (h : machine.Steps s₀ tr s) (hpq : Precedes tr p q) : m < n := by
  obtain ⟨e, e', hsub, he, he'⟩ := hpq
  have hstamps : [m, n].Sublist (stamps tr) := by
    have hmap := hsub.filterMap fun e => e.out.stamp?
    simp only [List.filterMap_cons, hp e he, hq e' he', List.filterMap_nil] at hmap
    exact hmap
  exact List.pairwise_iff_forall_sublist.mp (steps_stamps h).1 hstamps

theorem precedes_commits {k k' : Bool} {m n : ℕ} {repo : String}
    (hsorted : (commits tr).Pairwise fun c c' => c.repo = c'.repo → c.epoch ≤ c'.epoch)
    (h : Precedes tr (Writes k m repo) (Writes k' n repo)) : m ≤ n := by
  obtain ⟨e, e', hsub, ⟨r, hr⟩, ⟨r', hr'⟩⟩ := h
  have hcommits : [⟨k, m, repo, r⟩, ⟨k', n, repo, r'⟩].Sublist (commits tr) := by
    have hmap := hsub.filterMap fun e => e.out.commit?
    have hfirst : e.out.commit? = some ⟨k, m, repo, r⟩ := by rw [hr, Out.commit?]
    have hsecond : e'.out.commit? = some ⟨k', n, repo, r'⟩ := by rw [hr', Out.commit?]
    simp only [List.filterMap_cons, hfirst, hsecond, List.filterMap_nil] at hmap
    exact hmap
  exact List.pairwise_iff_forall_sublist.mp hsorted hcommits rfl

theorem flag_at_end {f : RunFlag} (hinit : machine.init s₀) (h : machine.Steps s₀ tr s)
    (he : e ∈ tr) (hleft : f ≠ .running)
    (hflag : Flags e.pre → step e.pre e.op = (e.post, e.out) → Flags e.post →
      e.post.flags.find? t = some f) : s.flags.find? t = some f := by
  obtain ⟨tr1, tr2, rfl, hbefore, hen, hstep, hafter⟩ := h.split he
  have hpre : Flags e.pre :=
    hbefore.invariant (fun _ _ _ _ hf hen hstep => step_flags hf hen hstep) (init_flags hinit)
  have hpost : Flags e.post := step_flags hpre hen hstep
  exact steps_flag hafter hpost (hflag hpre hstep hpost) hleft

/-- **Register order**: in every run whose commits are read back, the register of a repository
holds its write with the highest epoch, cancelled runs never commit, and fences order
preflights and reconciliations. -/
theorem preflight_register_order (hinit : machine.init s₀) (hrun : machine.Steps s₀ tr s)
    (hread : ∀ e ∈ tr, ReadsBack e.pre e.op) : RegisterOrder s₀ tr s := by
  obtain ⟨hf, hordered⟩ := steps_ordered hinit hrun hread
  have hstopped : ∀ e ∈ tr, ∀ t, Stops e t → s.flags.find? t = some .cancelled := by
    intro e he t hstops
    refine flag_at_end hinit hrun he (by simp) ?_
    intro hpre hstep _
    exact stops_flag hpre hstep hstops
  refine ⟨?_, ?_, ?_, ?_, ?_, ?_, ?_⟩
  · intro repo
    refine ⟨hordered.held repo, ?_⟩
    intro c hc c' hc' hrepo
    exact le_lastWrite hordered hc hc' hrepo
  · rintro t ⟨e, he, hstops⟩ c hc hkind rfl
    -- a commit leaves its run claimed, and a stopped run is cancelled
    have hcommitting := hordered.claimed c hc hkind
    rw [hstopped e he _ hstops] at hcommitting
    exact absurd hcommitting (by simp)
  · rintro t ⟨e, he, hclaims⟩ e' he'
    have hcommitting : s.flags.find? t = some .committing := by
      refine flag_at_end hinit hrun he (by simp) ?_
      intro _ _ hpost
      exact claims_flag hpost hclaims
    refine ⟨?_, ?_⟩
    · intro hstops
      rw [hstopped e' he' t hstops] at hcommitting
      exact absurd hcommitting (by simp)
    · intro hcancelled
      have hlater : s.flags.find? t = some .cancelled :=
        flag_at_end hinit hrun he' (by simp) fun _ _ _ => hcancelled
      rw [hlater] at hcommitting
      exact absurd hcommitting (by simp)
  · intro t f repo hbegan hwrites
    -- epochs are handed out in order
    have hlt : t < f := by
      refine precedes_stamps ?_ ?_ hrun hbegan
      · intro e he
        rw [he, Out.stamp?]
      · intro e he
        rw [he, Out.stamp?]
    have hle := precedes_commits hordered.sorted hwrites
    omega
  · intro t f repo hfenced hwrites
    have hlt : f < t := by
      refine precedes_stamps ?_ ?_ hrun hfenced
      · intro e he
        rw [he, Out.stamp?]
      · intro e he
        rw [he, Out.stamp?]
    have hle := precedes_commits hordered.sorted hwrites
    omega
  · intro tr₁ e tr₂ st htr hst
    obtain ⟨hbefore, -, hstep, -⟩ := hrun.around htr
    have hread₁ : ∀ e' ∈ tr₁, ReadsBack e'.pre e'.op := by
      intro e' he'
      exact hread e' (htr ▸ List.mem_append_left _ he')
    exact stamped (steps_ordered hinit hbefore hread₁).2 hstep hst
  · intro e he hnone
    obtain ⟨_, _, _, _, _, hstep, _⟩ := hrun.split he
    exact step_uncommitted hstep hnone

end Run

/-! ### A preflight begun after a fence -/

def sampleReport (message : String) : PreflightReport :=
  ⟨[⟨DETECTOR_ID, "src/a.ts", 1, message⟩], [], by simp⟩

/-- A fence is reserved, and a preflight begun after it commits; `read` says whether its rows
can be read back. -/
def newerPreflight (read : Bool) : List Op :=
  [.reserveReconcile, .begin, .persistIfCurrent 2 "local/app" (sampleReport "inline eval()"),
    .writer true, .writer true, .writer true, .writer true, .writer true, .writer read]

def sampleStart : Runs := ⟨none, 0, .empty, .empty, .empty, [], [], none, []⟩

/-- The reconciliation finds that the preflight persisted. -/
def readBackOps : List Op :=
  newerPreflight true ++ [.writer true, .reconcile 1 "local/app" (sampleReport "proven"),
    .writer true]

theorem preflight_register_order_sample :
    commits (machine.trace sampleStart readBackOps)
        = [⟨true, 2, "local/app", sampleReport "inline eval()"⟩]
      ∧ RegisterOrder sampleStart (machine.trace sampleStart readBackOps)
          (machine.exec sampleStart readBackOps) := by
  have hen : ∀ e ∈ machine.trace sampleStart readBackOps, e.op.Enabled e.pre := by decide
  have hread : ∀ e ∈ machine.trace sampleStart readBackOps, ReadsBack e.pre e.op := by
    decide
  refine ⟨by decide, ?_⟩
  exact preflight_register_order ⟨[], rfl⟩ (steps_trace hen) hread

/-- The rows of the preflight cannot be read back, so it is not recorded and the older
reconciliation is written over it. -/
def unreadOps : List Op :=
  newerPreflight false ++ [.reconcile 1 "local/app" (sampleReport "proven"), .writer true,
    .writer true]

theorem unread_commit_overwritten :
    ¬∀ s₀ tr s, machine.init s₀ → machine.Steps s₀ tr s → RegisterOrder s₀ tr s := by
  intro h
  have hen : ∀ e ∈ machine.trace sampleStart unreadOps, e.op.Enabled e.pre := by decide
  have horder := h sampleStart _ _ ⟨[], rfl⟩ (steps_trace hen)
  have hlast : lastWrite (commits (machine.trace sampleStart unreadOps)) "local/app"
      = some ⟨false, 1, "local/app", sampleReport "proven"⟩ := by decide
  have hnewer : ⟨true, 2, "local/app", sampleReport "inline eval()"⟩
      ∈ commits (machine.trace sampleStart unreadOps) := by decide
  have hle := (horder.highest "local/app").2 _ hlast _ hnewer rfl
  exact absurd hle (by decide)

end Preflight
