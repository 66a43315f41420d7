/-
The order of the findings register.

`Ordered` ties a state to the commits of its history: the register of a repository holds its
last commit, the commits of a repository are in the order of their epochs, and what
`persisted` and `reconciled` hold is what was committed, less the commit the writer has not
recorded yet.  A writer that is `Ready` to commit is not older than any commit of its
repository.

* `Ordered.frame`, `Ordered.commit`, `Ordered.record` — what a step that commits nothing, a
  commit and the record of a commit do to the invariant;
* `persistStep_ordered`, `reconcileStep_ordered`, `step_ordered` — each step keeps it, as long
  as the rows of a commit are read back;
* `steps_ordered` — and so does a run.
-/
import Cartograph.Preflight.Flags
import Cartograph.Lib.Log

namespace Preflight

open Machine Log

variable {s₀ s s' : Runs} {op : Op} {out : Out} {log : List Commit} {c : Commit}

/-! ### Commits of a history -/

def Out.commit? : Out → Option Commit
  | .committed c => some c
  | _ => none

/-- The epoch an output hands out. -/
def Out.stamp? : Out → Option ℕ
  | .began t => some t
  | .fenced f => some f
  | _ => none

def commits (tr : List (Event Runs Op Out)) : List Commit := tr.filterMap fun e => e.out.commit?

def stamps (tr : List (Event Runs Op Out)) : List ℕ := tr.filterMap fun e => e.out.stamp?

theorem commits_concat (tr : List (Event Runs Op Out)) (e : Event Runs Op Out) :
    commits (tr ++ [e]) = commits tr ++ e.out.commit?.toList := by
  simp [commits, List.filterMap_append, List.filterMap_cons]
  cases e.out.commit? <;> rfl

def Commit.onRepo (repo : String) (c : Commit) : Bool := c.repo == repo

def Commit.ofKind (preflight : Bool) (repo : String) (c : Commit) : Bool :=
  c.preflight == preflight && c.repo == repo

/-- The last commit of a repository. -/
def lastWrite (log : List Commit) (repo : String) : Option Commit := last (Commit.onRepo repo) log

/-- What the register of a repository holds after the commits of a log. -/
def written (s₀ : Runs) (log : List Commit) (repo : String) : List FindingRow :=
  match lastWrite log repo with
  | some c => batch repo c.report
  | none => register s₀ repo

/-! ### The writer -/

/-- The commit a writer has made and not recorded. -/
def Writer.pending : Writer → Option Commit
  | .persist .readBack token repo report => some ⟨true, token, repo, report⟩
  | .persist .record token repo report => some ⟨true, token, repo, report⟩
  | .reconcile .readBack fence repo report => some ⟨false, fence, repo, report⟩
  | .reconcile .record fence repo report => some ⟨false, fence, repo, report⟩
  | _ => none

def Runs.pending (s : Runs) : Option Commit := s.writer.bind Writer.pending

/-- What the checks a writer has passed say of the commits before it. -/
def Writer.Ready (log : List Commit) : Writer → Prop
  | .persist .checkReconciled token _ _ => ∀ c ∈ log, c.preflight = true → c.epoch < token
  | .persist .stageBatch token repo _ => ∀ c ∈ log, c.repo = repo → c.epoch ≤ token
  | .persist .claimCommit token repo _ => ∀ c ∈ log, c.repo = repo → c.epoch ≤ token
  | .persist .commit token repo _ => ∀ c ∈ log, c.repo = repo → c.epoch ≤ token
  | .reconcile .write fence repo _ => ∀ c ∈ log, c.repo = repo → c.epoch ≤ fence
  | _ => True

/-- What was recorded of a log: `persisted` and `reconciled` hold the last preflight and the
last reconciliation of every repository. -/
structure Recorded (old : List Commit) (s : Runs) : Prop where
  persisted : ∀ repo, s.persisted.find? repo = (last (Commit.ofKind true repo) old).map (·.epoch)
  reconciled : ∀ repo, s.reconciled.find? repo
    = (last (Commit.ofKind false repo) old).map fun c => ⟨c.epoch, c.report⟩

structure Ordered (s₀ : Runs) (log : List Commit) (s : Runs) : Prop where
  sorted : log.Pairwise fun c c' => c.repo = c'.repo → c.epoch ≤ c'.epoch
  held : ∀ repo, register s repo = written s₀ log repo
  claimed : ∀ c ∈ log, c.preflight = true → s.flags.find? c.epoch = some .committing
  recorded : ∃ old, log = old ++ s.pending.toList ∧ Recorded old s
  ready : ∀ w, s.writer = some w → w.Ready log

variable {x : Commit} {w : Writer} {stage : PersistStage} {bound : ℕ}

theorem le_lastWrite {repo : String} (h : Ordered s₀ log s) (hc : lastWrite log repo = some c)
    (hx : x ∈ log) (hrepo : x.repo = repo) :
    x.epoch ≤ c.epoch := by
  refine le_last (p := Commit.onRepo repo) ?_ hc hx (by simp [Commit.onRepo, hrepo])
  refine h.sorted.imp ?_
  intro a b hab ha hb
  have ha : a.repo = repo := by simpa [Commit.onRepo] using ha
  have hb : b.repo = repo := by simpa [Commit.onRepo] using hb
  exact hab (ha.trans hb.symm)

theorem le_last_ofKind {kind : Bool} {repo : String} {old : List Commit}
    (hsorted : old.Pairwise fun c c' => c.repo = c'.repo → c.epoch ≤ c'.epoch)
    (hc : last (Commit.ofKind kind repo) old = some c) (hx : x ∈ old) (hkind : x.preflight = kind)
    (hrepo : x.repo = repo) : x.epoch ≤ c.epoch := by
  refine le_last (p := Commit.ofKind kind repo) ?_ hc hx (by simp [Commit.ofKind, hkind, hrepo])
  refine hsorted.imp ?_
  intro a b hab ha hb
  have ha : a.preflight = kind ∧ a.repo = repo := by simpa [Commit.ofKind] using ha
  have hb : b.preflight = kind ∧ b.repo = repo := by simpa [Commit.ofKind] using hb
  exact hab (ha.2.trans hb.2.symm)

/-! ### Replacing a batch -/

theorem register_replaceFor (findings : List FindingRow) (repo repo' : String)
    (report : PreflightReport) :
    (replaceFor findings repo DETECTOR_ID (batch repo report)).filter
        (fun row => row.repo == repo' && row.detector == DETECTOR_ID)
      = if repo' = repo then batch repo report
        else findings.filter fun row => row.repo == repo' && row.detector == DETECTOR_ID := by
  have hbatch : ∀ row ∈ batch repo report, row.repo = repo ∧ row.detector = DETECTOR_ID := by
    intro row hrow
    obtain ⟨f, hf, rfl⟩ := List.mem_map.mp hrow
    exact ⟨rfl, report.detectors f hf⟩
  unfold replaceFor
  rw [List.filter_append, List.filter_filter]
  by_cases hrepo : repo' = repo
  · subst hrepo
    rw [if_pos rfl]
    have hgone : findings.filter (fun row => (row.repo == repo' && row.detector == DETECTOR_ID)
        && !(row.repo == repo' && row.detector == DETECTOR_ID)) = [] := by
      rw [List.filter_eq_nil_iff]
      intro row _
      simp
    have hall : (batch repo' report).filter
        (fun row => row.repo == repo' && row.detector == DETECTOR_ID) = batch repo' report := by
      rw [List.filter_eq_self]
      intro row hrow
      simp [hbatch row hrow]
    rw [hgone, hall, List.nil_append]
  · rw [if_neg hrepo]
    have hnone : (batch repo report).filter
        (fun row => row.repo == repo' && row.detector == DETECTOR_ID) = [] := by
      rw [List.filter_eq_nil_iff]
      intro row hrow
      have hne : row.repo ≠ repo' := fun h => hrepo (h.symm.trans (hbatch row hrow).1)
      simp [hne]
    rw [hnone, List.append_nil]
    refine List.filter_congr ?_
    intro row _
    by_cases hrow : row.repo = repo'
    · have hne : row.repo ≠ repo := fun h => hrepo (hrow.symm.trans h)
      simp [hne]
    · simp [hrow]

/-! ### One step -/

section

variable (h : Ordered s₀ log s)
include h

theorem Ordered.frame
    (hflags : ∀ t, s.flags.find? t = some .committing → s'.flags.find? t = some .committing)
    (hfindings : s'.findings = s.findings) (hpersisted : s'.persisted = s.persisted)
    (hreconciled : s'.reconciled = s.reconciled) (hpending : s'.pending = s.pending)
    (hready : ∀ w, s'.writer = some w → w.Ready log) : Ordered s₀ log s' where
  sorted := h.sorted
  held := by
    intro repo
    rw [← h.held repo, register, hfindings]
    rfl
  claimed c hc hkind := hflags _ (h.claimed c hc hkind)
  recorded := by
    obtain ⟨old, hlog, hold⟩ := h.recorded
    refine ⟨old, by rw [hpending, hlog], ?_, ?_⟩
    · rw [hpersisted]
      exact hold.persisted
    · rw [hreconciled]
      exact hold.reconciled
  ready := hready

theorem Ordered.commit (hpending : s.pending = none)
    (hnewest : ∀ x ∈ log, x.repo = c.repo → x.epoch ≤ c.epoch)
    (hclaimed : c.preflight = true → s.flags.find? c.epoch = some .committing)
    (hw : w.pending = some c) (hready : w.Ready (log ++ [c])) :
    Ordered s₀ (log ++ [c]) { s with
      findings := replaceFor s.findings c.repo DETECTOR_ID (batch c.repo c.report)
      writer := some w } where
  sorted := by
    refine List.pairwise_append.mpr ⟨h.sorted, List.pairwise_singleton _ _, ?_⟩
    intro x hx y hy hrepo
    obtain rfl := List.mem_singleton.mp hy
    exact hnewest x hx hrepo
  held := by
    intro repo
    rw [register, register_replaceFor, written, lastWrite, last_concat]
    by_cases hrepo : repo = c.repo
    · rw [if_pos hrepo, if_pos (by simp [Commit.onRepo, hrepo]), hrepo]
    · have hother : Commit.onRepo repo c ≠ true := by
        simpa [Commit.onRepo] using fun h => hrepo h.symm
      rw [if_neg hrepo, if_neg hother]
      exact h.held repo
  claimed := by
    intro x hx hkind
    rcases List.mem_append.mp hx with hx | hx
    · exact h.claimed x hx hkind
    · obtain rfl := List.mem_singleton.mp hx
      exact hclaimed hkind
  recorded := by
    obtain ⟨old, hlog, hold⟩ := h.recorded
    have hold' : old = log := by rw [hlog, hpending, Option.toList_none, List.append_nil]
    refine ⟨log, ?_, ?_⟩
    · show log ++ [c] = log ++ (w.pending).toList
      rw [hw]
      rfl
    · rw [← hold']
      exact ⟨hold.persisted, hold.reconciled⟩
  ready := by
    intro w' hw'
    obtain rfl := Option.some_inj.mp hw'
    exact hready

theorem Ordered.pending_last (hpending : s.pending = some c) :
    ∃ old, log = old ++ [c] ∧ Recorded old s := by
  obtain ⟨old, hlog, hold⟩ := h.recorded
  rw [hpending] at hlog
  exact ⟨old, hlog, hold⟩

theorem Ordered.record {persisted : Table String ℕ} {reconciled : Table String Reconciled}
    (hrecorded : Recorded log { s with persisted := persisted, reconciled := reconciled }) :
    Ordered s₀ log (Runs.release { s with persisted := persisted, reconciled := reconciled }) where
  sorted := h.sorted
  held := h.held
  claimed := h.claimed
  recorded := ⟨log, by simp [Runs.pending, Runs.release], hrecorded.persisted, hrecorded.reconciled⟩
  ready w hw := absurd hw (by simp [Runs.release])

theorem Ordered.release (hpending : s.pending = none) :
    Ordered s₀ log s.release := by
  refine h.frame (fun _ ht => ht) rfl rfl rfl hpending.symm ?_
  intro w hw
  exact absurd hw (by simp [Runs.release])

theorem Ordered.goto (hpending : w.pending = s.pending)
    (hready : w.Ready log) : Ordered s₀ log { s with writer := some w } := by
  refine h.frame (fun _ ht => ht) rfl rfl rfl hpending ?_
  intro w' hw'
  obtain rfl := Option.some_inj.mp hw'
  exact hready

theorem Ordered.all_recorded (hpending : s.pending = none) :
    Recorded log s := by
  obtain ⟨old, hlog, hold⟩ := h.recorded
  rw [hpending, Option.toList_none, List.append_nil] at hlog
  exact hlog ▸ hold

end

section Writer

variable {token fence : ℕ} {repo : String} {report : PreflightReport} {ok : Bool}

section

variable (h : Ordered s₀ log s)
include h

theorem record_persisted (hpending : s.pending = some ⟨true, token, repo, report⟩) :
    Recorded log { s with
      persisted := s.persisted.put repo (max ((s.persisted.find? repo).getD 0) token) } := by
  obtain ⟨old, rfl, hold⟩ := h.pending_last hpending
  obtain ⟨hsorted, -, hnewest⟩ := List.pairwise_append.mp h.sorted
  -- the preflights of the repository before it are older, so its token is the maximum
  have hmax : (s.persisted.find? repo).getD 0 ≤ token := by
    rw [hold.persisted]
    cases hlast : last (Commit.ofKind true repo) old with
    | none => exact Nat.zero_le _
    | some x =>
      obtain ⟨hx, hkind⟩ := last_eq_some hlast
      have hrepo : x.preflight = true ∧ x.repo = repo := by simpa [Commit.ofKind] using hkind
      exact hnewest x hx _ (List.mem_singleton_self _) hrepo.2
  refine ⟨?_, ?_⟩
  · intro repo'
    show (s.persisted.put _ _).find? repo' = _
    rw [Table.find?_put, last_concat, Nat.max_eq_right hmax]
    by_cases hrepo : repo' = repo
    · rw [if_pos hrepo, if_pos (by simp [Commit.ofKind, hrepo])]
      rfl
    · have hother : repo ≠ repo' := fun h => hrepo h.symm
      rw [if_neg hrepo, if_neg (by simp [Commit.ofKind, hother])]
      exact hold.persisted repo'
  · intro repo'
    show s.reconciled.find? repo' = _
    rw [last_concat, if_neg (by simp [Commit.ofKind])]
    exact hold.reconciled repo'

theorem record_reconciled (hpending : s.pending = some ⟨false, fence, repo, report⟩) :
    Recorded log { s with reconciled := s.reconciled.put repo ⟨fence, report⟩ } := by
  obtain ⟨old, rfl, hold⟩ := h.pending_last hpending
  refine ⟨?_, ?_⟩
  · intro repo'
    show s.persisted.find? repo' = _
    rw [last_concat, if_neg (by simp [Commit.ofKind])]
    exact hold.persisted repo'
  · intro repo'
    show (s.reconciled.put _ _).find? repo' = _
    rw [Table.find?_put, last_concat]
    by_cases hrepo : repo' = repo
    · rw [if_pos hrepo, if_pos (by simp [Commit.ofKind, hrepo])]
      rfl
    · have hother : repo ≠ repo' := fun h => hrepo h.symm
      rw [if_neg hrepo, if_neg (by simp [Commit.ofKind, hother])]
      exact hold.reconciled repo'

/-- A run that is not cancelled when it takes `writes` is newer than every preflight that
committed. -/
theorem newest_of_live (hf : Flags s)
    (hwriter : s.writer = some (.persist stage token repo report)) (hstage : stage.claimed = false)
    (hlive : s.flags.find? token ≠ some .cancelled) :
    ∀ c ∈ log, c.preflight = true → c.epoch < token := by
  intro c hc hkind
  obtain ⟨f, hflag, hunclaimed⟩ :=
    hf.unclaimed token (.inr ⟨stage, repo, report, hwriter, hstage⟩)
  have hrunning : s.flags.find? token = some .running := by
    cases f with
    | running => exact hflag
    | cancelled => exact absurd hflag hlive
    | committing => exact absurd rfl hunclaimed
  have hcommitting := h.claimed c hc hkind
  have hle := hf.latest token (hf.running token hrunning) c.epoch _ hcommitting
  have hne : c.epoch ≠ token := by
    rintro heq
    rw [heq, hrunning] at hcommitting
    exact absurd hcommitting (by simp)
  omega

theorem reconciled_le (hpending : s.pending = none)
    (hbound : ∀ r, s.reconciled.find? repo = some r → r.epoch ≤ bound) (hc : c ∈ log)
    (hkind : c.preflight = false) (hrepo : c.repo = repo) : c.epoch ≤ bound := by
  have hrec := h.all_recorded hpending
  obtain ⟨x, hx⟩ := exists_last (p := Commit.ofKind false repo) hc
    (by simp [Commit.ofKind, hkind, hrepo])
  have hle := le_last_ofKind h.sorted hx hc hkind hrepo
  have hfind := hrec.reconciled repo
  rw [hx] at hfind
  have := hbound _ hfind
  exact le_trans hle this

theorem persisted_le (hpending : s.pending = none)
    (hbound : ∀ e, s.persisted.find? repo = some e → e ≤ bound) (hc : c ∈ log)
    (hkind : c.preflight = true) (hrepo : c.repo = repo) : c.epoch ≤ bound := by
  have hrec := h.all_recorded hpending
  obtain ⟨x, hx⟩ := exists_last (p := Commit.ofKind true repo) hc
    (by simp [Commit.ofKind, hkind, hrepo])
  have hle := le_last_ofKind h.sorted hx hc hkind hrepo
  have hfind := hrec.persisted repo
  rw [hx] at hfind
  have := hbound _ hfind
  exact le_trans hle this

theorem persistStep_ordered (hf : Flags s)
    (hwriter : s.writer = some (.persist stage token repo report))
    (hread : stage = .readBack → ok = true) :
    Ordered s₀ (log ++ (persistStep s stage token repo report ok).2.commit?.toList)
      (persistStep s stage token repo report ok).1 := by
  have hpending : s.pending = (Writer.persist stage token repo report).pending := by
    rw [Runs.pending, hwriter]
    rfl
  have hready := h.ready _ hwriter
  cases stage with
  | checkCancelled =>
    simp only [persistStep]
    split
    · simpa [Out.commit?] using h.release hpending
    · next hlive =>
      simp only [Out.commit?, Option.toList_none, List.append_nil]
      exact h.goto hpending.symm (newest_of_live h hf hwriter rfl hlive)
  | checkReconciled =>
    simp only [persistStep]
    split
    · simpa [Out.commit?] using h.release hpending
    · next hnone =>
      simp only [Out.commit?, Option.toList_none, List.append_nil]
      refine h.goto hpending.symm ?_
      intro c hc hrepo
      -- a preflight before this one, or a reconciliation that is not newer
      cases hkind : c.preflight with
      | true => exact le_of_lt (hready c hc hkind)
      | false =>
        refine reconciled_le h hpending ?_ hc hkind hrepo
        intro r hr
        rw [hr, Option.filter_some] at hnone
        by_cases hnewer : token < r.epoch
        · exact absurd hnone (by simp [hnewer])
        · omega
  | stageBatch =>
    simp only [persistStep]
    split
    · simp only [Out.commit?, Option.toList_none, List.append_nil]
      exact h.goto hpending.symm hready
    · simpa [Out.commit?] using h.release hpending
  | claimCommit =>
    simp only [persistStep]
    split
    · simp only [Out.commit?, Option.toList_none, List.append_nil]
      refine h.frame ?_ rfl rfl rfl hpending.symm ?_
      · intro t ht
        show (leaveRunning s.flags token .committing).1.find? t = some .committing
        rw [find?_leaveRunning]
        split_ifs with htoken
        · rfl
        · exact ht
      · intro w hw
        obtain rfl := Option.some_inj.mp hw
        exact hready
    · simpa [Out.commit?] using h.release hpending
  | commit =>
    simp only [persistStep]
    split
    · -- the flag of the claimed commit is what orders it
      have hclaimed := hf.claimed _ _ _ _ hwriter rfl
      exact h.commit (c := ⟨true, token, repo, report⟩) hpending hready (fun _ => hclaimed) rfl
        trivial
    · simpa [Out.commit?] using h.release hpending
  | readBack =>
    simp only [persistStep]
    rw [if_pos (hread rfl)]
    simp only [Out.commit?, Option.toList_none, List.append_nil]
    exact h.goto hpending.symm trivial
  | record =>
    simp only [persistStep, Out.commit?, Option.toList_none, List.append_nil]
    exact h.record (record_persisted h hpending)

theorem reconcileStep_ordered {stage : ReconcileStage}
    (hwriter : s.writer = some (.reconcile stage fence repo report))
    (hread : stage = .readBack → ok = true) :
    Ordered s₀ (log ++ (reconcileStep s stage fence repo report ok).2.commit?.toList)
      (reconcileStep s stage fence repo report ok).1 := by
  have hpending : s.pending = (Writer.reconcile stage fence repo report).pending := by
    rw [Runs.pending, hwriter]
    rfl
  have hready := h.ready _ hwriter
  cases stage with
  | checkNewer =>
    simp only [reconcileStep]
    split
    · simpa [Out.commit?] using h.release hpending
    · next hnewer =>
      simp only [Out.commit?, Option.toList_none, List.append_nil]
      refine h.goto hpending.symm ?_
      intro c hc hrepo
      simp only [newerWritten, Bool.or_eq_true, not_or, Bool.not_eq_true] at hnewer
      cases hkind : c.preflight with
      | true =>
        refine persisted_le h hpending ?_ hc hkind hrepo
        intro e he
        simpa [he] using hnewer.1
      | false =>
        refine reconciled_le h hpending ?_ hc hkind hrepo
        intro r hr
        simpa [hr] using hnewer.2
  | write =>
    simp only [reconcileStep]
    split
    · exact h.commit (c := ⟨false, fence, repo, report⟩) hpending hready (by simp) rfl trivial
    · simpa [Out.commit?] using h.release hpending
  | readBack =>
    simp only [reconcileStep]
    rw [if_pos (hread rfl)]
    simp only [Out.commit?, Option.toList_none, List.append_nil]
    exact h.goto hpending.symm trivial
  | record =>
    simp only [reconcileStep, Out.commit?, Option.toList_none, List.append_nil]
    exact h.record (record_reconciled h hpending)

end

end Writer

/-- The writer reads its commit back. -/
def Writer.reading : Writer → Bool
  | .persist .readBack _ _ _ => true
  | .reconcile .readBack _ _ _ => true
  | _ => false

/-- The rows of a commit that are read back are there. -/
def ReadsBack (s : Runs) (op : Op) : Prop := s.writer.any Writer.reading = true → op ≠ .writer false

instance (s : Runs) (op : Op) : Decidable (ReadsBack s op) :=
  inferInstanceAs (Decidable (_ = true → op ≠ .writer false))

theorem step_ordered (h : Ordered s₀ log s) (hf : Flags s) (hen : op.Enabled s)
    (hread : ReadsBack s op) (hstep : step s op = (s', out)) :
    Ordered s₀ (log ++ out.commit?.toList) s' := by
  -- no step takes back a claimed commit
  have hkept : ∀ t, s.flags.find? t = some .committing → s'.flags.find? t = some .committing := by
    intro t ht
    exact step_flag hf hstep ht (by simp)
  obtain ⟨rfl, rfl⟩ : (step s op).1 = s' ∧ (step s op).2 = out := by
    rw [hstep]
    exact ⟨rfl, rfl⟩
  cases op with
  | begin | reserveReconcile =>
    show Ordered s₀ (log ++ []) _
    rw [List.append_nil]
    exact h.frame hkept rfl rfl rfl rfl h.ready
  | cancel =>
    have hnothing : (cancel s).2.commit? = none := by
      unfold cancel
      split
      · rfl
      · rfl
    show Ordered s₀ (log ++ (cancel s).2.commit?.toList) (cancel s).1
    rw [hnothing, Option.toList_none, List.append_nil]
    have hframe := cancel_frame s
    refine h.frame hkept ?_ ?_ ?_ ?_ ?_
    · show (cancel s).1.findings = s.findings
      rw [hframe]
    · show (cancel s).1.persisted = s.persisted
      rw [hframe]
    · show (cancel s).1.reconciled = s.reconciled
      rw [hframe]
    · show (cancel s).1.pending = s.pending
      rw [hframe]
      rfl
    · intro w hw
      have hw : (cancel s).1.writer = some w := hw
      rw [hframe] at hw
      exact h.ready w hw
  | persistIfCurrent token repo report | reconcile fence repo report =>
    have hpending : s.pending = none := by
      rw [Runs.pending, hen.1]
      rfl
    show Ordered s₀ (log ++ []) _
    rw [List.append_nil]
    refine h.frame hkept rfl rfl rfl hpending.symm ?_
    intro w hw
    obtain rfl := Option.some_inj.mp hw
    trivial
  | writer ok =>
    have hok : ∀ w, s.writer = some w → w.reading = true → ok = true := by
      intro w hw hreading
      have hne := hread (by rw [hw]; exact hreading)
      cases ok with
      | true => rfl
      | false => exact absurd rfl hne
    simp only [step]
    split
    · next hwriter =>
      refine persistStep_ordered h hf hwriter ?_
      rintro rfl
      exact hok _ hwriter rfl
    · next hwriter =>
      refine reconcileStep_ordered h hwriter ?_
      rintro rfl
      exact hok _ hwriter rfl
    · simpa [Out.commit?] using h

theorem init_ordered (hinit : machine.init s) : Ordered s [] s := by
  obtain ⟨findings, rfl⟩ := hinit
  refine ⟨List.Pairwise.nil, ?_, ?_, ⟨[], rfl, ?_⟩, ?_⟩
  · intro repo
    rfl
  · intro c hc
    exact absurd hc (by simp)
  · exact ⟨fun repo => rfl, fun repo => rfl⟩
  · intro w hw
    exact absurd hw (by simp)

theorem steps_ordered {tr : List (Event Runs Op Out)} (hinit : machine.init s₀)
    (h : machine.Steps s₀ tr s) (hread : ∀ e ∈ tr, ReadsBack e.pre e.op) :
    Flags s ∧ Ordered s₀ (commits tr) s := by
  induction h with
  | refl => exact ⟨init_flags hinit, init_ordered hinit⟩
  | snoc _ hen hstep ih =>
    obtain ⟨hf, hordered⟩ := ih fun e he => hread e (List.mem_append_left _ he)
    have hlast := hread _ (List.mem_append_right _ (List.mem_singleton_self _))
    rw [commits_concat]
    exact ⟨step_flags hf hen hstep, step_ordered hordered hf hen hlast hstep⟩

end Preflight
