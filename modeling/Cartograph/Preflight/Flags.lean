/-
The flags of the runs.

A run leaves `running` once, by the compare-and-swap of `leave_running`.  `Flags` is what the
flags can be in any state of the system: only the newest preflight is running, a token that has
not claimed its commit is not committing, and the writer that has claimed it is.

* `find?_leaveRunning` — what a compare-and-swap does to every flag;
* `begin_flags`, `cancel_flags`, `persistStep_flags`, `step_flags` — each step keeps `Flags`;
* `step_flag` — a flag that is not `running` never changes again.
-/
import Cartograph.Preflight.Runs

namespace Preflight

open Machine

variable {s s' : Runs} {op : Op} {out : Out}

theorem find?_leaveRunning (flags : Table ℕ RunFlag) (run t : ℕ) (next : RunFlag) :
    (leaveRunning flags run next).1.find? t
      = if t = run ∧ flags.find? run = some .running then some next else flags.find? t := by
  by_cases hrun : flags.find? run = some .running
  · rw [leaveRunning, if_pos hrun, Table.find?_put]
    by_cases ht : t = run
    · rw [if_pos ht, if_pos ⟨ht, hrun⟩]
    · rw [if_neg ht, if_neg fun h => ht h.1]
  · rw [leaveRunning, if_neg hrun, if_neg fun h => hrun h.2]

theorem leaveRunning_won {flags : Table ℕ RunFlag} {run : ℕ} {next : RunFlag} :
    (leaveRunning flags run next).2 = true ↔ flags.find? run = some .running := by
  by_cases hrun : flags.find? run = some .running
  · simp [leaveRunning, hrun]
  · simp [leaveRunning, hrun]

/-- The stages of a preflight after it has claimed its commit. -/
def PersistStage.claimed : PersistStage → Bool
  | .commit | .readBack | .record => true
  | _ => false

/-- A preflight that has its token and has not claimed its commit. -/
def Unclaimed (s : Runs) (t : ℕ) : Prop :=
  t ∈ s.tokens ∨ ∃ stage repo report, s.writer = some (.persist stage t repo report)
    ∧ stage.claimed = false

structure Flags (s : Runs) : Prop where
  le : ∀ t f, s.flags.find? t = some f → t ≤ s.epoch
  running : ∀ t, s.flags.find? t = some .running → s.run = some t
  latest : ∀ t, s.run = some t → ∀ t' f, s.flags.find? t' = some f → t' ≤ t
  fence : ∀ f ∈ s.fences, f ≤ s.epoch
  unclaimed : ∀ t, Unclaimed s t → ∃ f, s.flags.find? t = some f ∧ f ≠ .committing
  once : ∀ t ∈ s.tokens, ∀ stage repo report, s.writer ≠ some (.persist stage t repo report)
  nodup : s.tokens.Nodup
  claimed : ∀ stage t repo report, s.writer = some (.persist stage t repo report) →
    stage.claimed = true → s.flags.find? t = some .committing

/-- A step of the writer that leaves the flags alone: the preflight that holds `writes`, if
there is one, held it before, on the same side of its claim. -/
theorem Flags.frame (h : Flags s) (hrun : s'.run = s.run) (hepoch : s'.epoch = s.epoch)
    (hflags : s'.flags = s.flags) (htokens : s'.tokens = s.tokens) (hfences : s'.fences = s.fences)
    (hw : ∀ stage t repo report, s'.writer = some (.persist stage t repo report) →
      ∃ stage0, s.writer = some (.persist stage0 t repo report)
        ∧ stage0.claimed = stage.claimed) : Flags s' where
  le := by
    rw [hflags, hepoch]
    exact h.le
  running := by
    rw [hflags, hrun]
    exact h.running
  latest := by
    rw [hflags, hrun]
    exact h.latest
  fence := by
    rw [hfences, hepoch]
    exact h.fence
  unclaimed := by
    intro t ht
    rw [hflags]
    refine h.unclaimed t ?_
    rcases ht with ht | ⟨stage, repo, report, hwriter, hstage⟩
    · exact .inl (htokens ▸ ht)
    · obtain ⟨stage0, hbefore, hside⟩ := hw _ _ _ _ hwriter
      exact .inr ⟨stage0, repo, report, hbefore, hside.trans hstage⟩
  once := by
    intro t ht stage repo report hwriter
    obtain ⟨stage0, hbefore, -⟩ := hw _ _ _ _ hwriter
    exact h.once t (htokens ▸ ht) stage0 repo report hbefore
  nodup := htokens ▸ h.nodup
  claimed := by
    intro stage t repo report hwriter hstage
    obtain ⟨stage0, hbefore, hside⟩ := hw _ _ _ _ hwriter
    rw [hflags]
    exact h.claimed stage0 t repo report hbefore (hside.trans hstage)

/-! ### One step -/

theorem find?_begin (s : Runs) (t : ℕ) :
    (begin s).1.flags.find? t
      = if t = s.epoch + 1 then some .running
        else if s.run = some t ∧ s.flags.find? t = some .running then some .cancelled
        else s.flags.find? t := by
  unfold begin
  rw [Table.find?_put]
  by_cases ht : t = s.epoch + 1
  · rw [if_pos ht, if_pos ht]
  rw [if_neg ht, if_neg ht]
  cases hrun : s.run with
  | none => simp
  | some previous =>
    rw [find?_leaveRunning]
    by_cases hprev : t = previous
    · subst hprev
      simp
    · have hne : previous ≠ t := fun h => hprev h.symm
      simp [hprev, hne]

theorem begin_flags (h : Flags s) : Flags (begin s).1 where
  le := by
    intro t f ht
    show t ≤ s.epoch + 1
    rw [find?_begin] at ht
    split_ifs at ht with hnew hprev
    · omega
    · have := h.le t _ hprev.2
      omega
    · have := h.le t f ht
      omega
  running := by
    intro t ht
    show some (s.epoch + 1) = some t
    rw [find?_begin] at ht
    split_ifs at ht with hnew hprev
    · rw [hnew]
    · exact absurd ht (by simp)
    · -- a run that was in flight is not running any more
      exact absurd ⟨h.running t ht, ht⟩ hprev
  latest := by
    intro t hrun t' f ht'
    have hrun : s.epoch + 1 = t := Option.some_inj.mp hrun
    rw [find?_begin] at ht'
    split_ifs at ht' with hnew hprev
    · omega
    · have := h.le t' _ hprev.2
      omega
    · have := h.le t' f ht'
      omega
  fence := by
    intro f hf
    show f ≤ s.epoch + 1
    have := h.fence f hf
    omega
  unclaimed := by
    intro t ht
    rw [find?_begin]
    by_cases hnew : t = s.epoch + 1
    · rw [if_pos hnew]
      exact ⟨_, rfl, by simp⟩
    rw [if_neg hnew]
    -- an older run keeps its flag, running or superseded
    have hold : Unclaimed s t := by
      rcases ht with ht | ht
      · exact .inl ((List.mem_cons.mp ht).resolve_left hnew)
      · exact .inr ht
    split_ifs with hprev
    · exact ⟨_, rfl, by simp⟩
    · exact h.unclaimed t hold
  once := by
    intro t ht stage repo report hwriter
    rcases List.mem_cons.mp ht with rfl | ht
    · -- the writer's token is an epoch handed out before
      have hwriter : s.writer = some (.persist stage (s.epoch + 1) repo report) := hwriter
      cases hstage : stage.claimed with
      | false =>
        obtain ⟨f, hf, -⟩ := h.unclaimed _ (.inr ⟨stage, repo, report, hwriter, hstage⟩)
        have := h.le _ f hf
        omega
      | true =>
        have := h.le _ _ (h.claimed _ _ _ _ hwriter hstage)
        omega
    · exact h.once t ht stage repo report hwriter
  nodup := by
    refine List.nodup_cons.mpr ⟨?_, h.nodup⟩
    -- an unclaimed token has a flag, and no flag is above the epoch
    intro hmem
    obtain ⟨f, hf, -⟩ := h.unclaimed _ (.inl hmem)
    have := h.le _ f hf
    omega
  claimed := by
    intro stage t repo report hwriter hstage
    have hold := h.claimed stage t repo report hwriter hstage
    have hle := h.le t _ hold
    rw [find?_begin, if_neg (by omega), if_neg (by simp [hold])]
    exact hold

theorem find?_cancel (s : Runs) (t : ℕ) :
    (cancel s).1.flags.find? t
      = if s.run = some t ∧ s.flags.find? t = some .running then some .cancelled
        else s.flags.find? t := by
  unfold cancel
  cases hrun : s.run with
  | none => simp
  | some run =>
    show (leaveRunning s.flags run .cancelled).1.find? t = _
    rw [find?_leaveRunning]
    by_cases ht : t = run
    · subst ht
      simp
    · have hne : run ≠ t := fun h => ht h.symm
      simp [ht, hne]

theorem cancel_frame (s : Runs) : (cancel s).1 = { s with flags := (cancel s).1.flags } := by
  unfold cancel
  split
  · rfl
  · rfl

theorem cancel_flags (h : Flags s) : Flags (cancel s).1 := by
  have hflag : ∀ t f, (cancel s).1.flags.find? t = some f → ∃ g, s.flags.find? t = some g := by
    intro t f ht
    rw [find?_cancel] at ht
    split_ifs at ht with hrun
    · exact ⟨_, hrun.2⟩
    · exact ⟨_, ht⟩
  rw [cancel_frame]
  refine ⟨?_, ?_, ?_, h.fence, ?_, h.once, h.nodup, ?_⟩
  · intro t f ht
    obtain ⟨g, hg⟩ := hflag t f ht
    exact h.le t g hg
  · intro t ht
    have ht : (cancel s).1.flags.find? t = some .running := ht
    rw [find?_cancel] at ht
    split_ifs at ht with hrun
    · exact absurd ht (by simp)
    · exact h.running t ht
  · intro t hrun t' f ht'
    obtain ⟨g, hg⟩ := hflag t' f ht'
    exact h.latest t hrun t' g hg
  · intro t ht
    show ∃ f, (cancel s).1.flags.find? t = some f ∧ f ≠ .committing
    rw [find?_cancel]
    split_ifs with hrun
    · exact ⟨_, rfl, by simp⟩
    · exact h.unclaimed t ht
  · intro stage t repo report hwriter hstage
    have hold := h.claimed stage t repo report hwriter hstage
    show (cancel s).1.flags.find? t = some .committing
    rw [find?_cancel, if_neg (by simp [hold])]
    exact hold

theorem reserveReconcile_flags (h : Flags s) : Flags (reserveReconcile s).1 where
  le t f ht := Nat.le_succ_of_le (h.le t f ht)
  running := h.running
  latest := h.latest
  fence := by
    intro f hf
    show f ≤ s.epoch + 1
    rcases List.mem_cons.mp hf with rfl | hf
    · omega
    · have := h.fence f hf
      omega
  unclaimed := h.unclaimed
  once := h.once
  nodup := h.nodup
  claimed := h.claimed

theorem persistIfCurrent_flags {token : ℕ} (h : Flags s) (htoken : token ∈ s.tokens)
    (repo : String) (report : PreflightReport) :
    Flags (step s (.persistIfCurrent token repo report)).1 where
  le := h.le
  running := h.running
  latest := h.latest
  fence := h.fence
  unclaimed := by
    intro t ht
    refine h.unclaimed t (.inl ?_)
    rcases ht with ht | ⟨_, _, _, hwriter, _⟩
    · exact List.mem_of_mem_erase ht
    · obtain ⟨-, rfl, -⟩ := Writer.persist.inj (Option.some_inj.mp hwriter)
      exact htoken
  once := by
    intro t ht stage repo' report' hwriter
    obtain ⟨-, rfl, -⟩ := Writer.persist.inj (Option.some_inj.mp hwriter)
    exact (h.nodup.mem_erase_iff.mp ht).1 rfl
  nodup := h.nodup.erase token
  claimed := by
    intro stage t repo' report' hwriter hstage
    obtain ⟨rfl, -⟩ := Writer.persist.inj (Option.some_inj.mp hwriter)
    exact absurd hstage (by simp [PersistStage.claimed])

theorem release_flags (h : Flags s) : Flags s.release :=
  h.frame rfl rfl rfl rfl rfl fun _ _ _ _ hwriter => absurd hwriter (by simp [Runs.release])

variable {stage : PersistStage} {t : ℕ} {f : RunFlag}

section Writer

variable {token : ℕ} {repo : String} {report : PreflightReport} {ok : Bool}

theorem goto_flags {stage0 : PersistStage} (stage : PersistStage) (h : Flags s)
    (hwriter : s.writer = some (.persist stage0 token repo report))
    (hside : stage0.claimed = stage.claimed) (findings : List FindingRow) :
    Flags { s with findings := findings, writer := some (.persist stage token repo report) } := by
  refine h.frame rfl rfl rfl rfl rfl ?_
  intro stage' t repo' report' hnow
  obtain ⟨rfl, rfl, rfl, rfl⟩ := Writer.persist.inj (Option.some_inj.mp hnow)
  exact ⟨stage0, hwriter, hside⟩

theorem claim_flags (h : Flags s)
    (hwriter : s.writer = some (.persist .claimCommit token repo report))
    (hrunning : s.flags.find? token = some .running) :
    Flags { s with
      flags := (leaveRunning s.flags token .committing).1
      writer := some (.persist .commit token repo report) } where
  le := by
    intro t f ht
    have ht : (leaveRunning s.flags token .committing).1.find? t = some f := ht
    rw [find?_leaveRunning] at ht
    -- only the flag of the claimed run changes
    split_ifs at ht with htoken
    · rw [htoken.1]
      exact h.le token _ hrunning
    · exact h.le t f ht
  running := by
    intro t ht
    have ht : (leaveRunning s.flags token .committing).1.find? t = some .running := ht
    rw [find?_leaveRunning] at ht
    split_ifs at ht with htoken
    · exact absurd ht (by simp)
    · exact h.running t ht
  latest := by
    intro t hrun t' f ht'
    have ht' : (leaveRunning s.flags token .committing).1.find? t' = some f := ht'
    rw [find?_leaveRunning] at ht'
    split_ifs at ht' with htoken
    · rw [htoken.1]
      exact h.latest t hrun token _ hrunning
    · exact h.latest t hrun t' f ht'
  fence := h.fence
  unclaimed := by
    intro t ht
    rcases ht with ht | ⟨stage, _, _, hnow, hstage⟩
    · -- no other preflight holds the token that was claimed
      have hne : t ≠ token := by
        rintro rfl
        exact h.once t ht _ _ _ hwriter
      show ∃ f, (leaveRunning s.flags token .committing).1.find? t = some f ∧ f ≠ .committing
      rw [find?_leaveRunning, if_neg fun heq => hne heq.1]
      exact h.unclaimed t (.inl ht)
    · obtain ⟨rfl, -⟩ := Writer.persist.inj (Option.some_inj.mp hnow)
      exact absurd hstage (by simp [PersistStage.claimed])
  once := by
    intro t ht stage repo' report' hnow
    obtain ⟨-, rfl, -⟩ := Writer.persist.inj (Option.some_inj.mp hnow)
    exact h.once _ ht _ _ _ hwriter
  nodup := h.nodup
  claimed := by
    intro stage t repo' report' hnow _
    obtain ⟨-, rfl, -⟩ := Writer.persist.inj (Option.some_inj.mp hnow)
    show (leaveRunning s.flags token .committing).1.find? token = some .committing
    rw [find?_leaveRunning, if_pos ⟨rfl, hrunning⟩]

theorem persistStep_flags (h : Flags s)
    (hwriter : s.writer = some (.persist stage token repo report)) :
    Flags (persistStep s stage token repo report ok).1 := by
  cases stage with
  | checkCancelled =>
    simp only [persistStep]
    split
    · exact release_flags h
    · exact goto_flags .checkReconciled h hwriter rfl s.findings
  | checkReconciled =>
    simp only [persistStep]
    split
    · exact release_flags h
    · exact goto_flags .stageBatch h hwriter rfl s.findings
  | stageBatch =>
    simp only [persistStep]
    split
    · exact goto_flags .claimCommit h hwriter rfl s.findings
    · exact release_flags h
  | claimCommit =>
    simp only [persistStep]
    split
    · next hwon => exact claim_flags h hwriter (leaveRunning_won.mp hwon)
    · exact release_flags h
  | commit =>
    simp only [persistStep]
    split
    · exact goto_flags .readBack h hwriter rfl _
    · exact release_flags h
  | readBack =>
    simp only [persistStep]
    split
    · exact goto_flags .record h hwriter rfl s.findings
    · exact release_flags h
  | record =>
    simp only [persistStep]
    exact h.frame rfl rfl rfl rfl rfl fun _ _ _ _ hnow => absurd hnow (by simp [Runs.release])

theorem reconcileStep_frame (s : Runs) (stage : ReconcileStage) (fence : ℕ) (repo : String)
    (report : PreflightReport) (ok : Bool) :
    let s' := (reconcileStep s stage fence repo report ok).1
    s'.run = s.run ∧ s'.epoch = s.epoch ∧ s'.flags = s.flags ∧ s'.tokens = s.tokens
      ∧ s'.fences = s.fences ∧ (s'.writer = none
        ∨ ∃ stage', s'.writer = some (.reconcile stage' fence repo report)) := by
  cases stage with
  | checkNewer =>
    simp only [reconcileStep]
    split
    · exact ⟨rfl, rfl, rfl, rfl, rfl, .inl rfl⟩
    · exact ⟨rfl, rfl, rfl, rfl, rfl, .inr ⟨_, rfl⟩⟩
  | write | readBack =>
    simp only [reconcileStep]
    split
    · exact ⟨rfl, rfl, rfl, rfl, rfl, .inr ⟨_, rfl⟩⟩
    · exact ⟨rfl, rfl, rfl, rfl, rfl, .inl rfl⟩
  | record => exact ⟨rfl, rfl, rfl, rfl, rfl, .inl rfl⟩

end Writer

theorem step_flags (h : Flags s) (hen : op.Enabled s) (hstep : step s op = (s', out)) :
    Flags s' := by
  obtain rfl : (step s op).1 = s' := by rw [hstep]
  cases op with
  | begin => exact begin_flags h
  | cancel => exact cancel_flags h
  | reserveReconcile => exact reserveReconcile_flags h
  | persistIfCurrent token repo report => exact persistIfCurrent_flags h hen.2 repo report
  | reconcile fence repo report =>
    exact h.frame rfl rfl rfl rfl rfl fun _ _ _ _ hnow => absurd hnow (by simp [step])
  | writer ok =>
    simp only [step]
    split
    · next hwriter => exact persistStep_flags h hwriter
    · next stage fence repo report hwriter =>
      obtain ⟨hrun, hepoch, hflags, htokens, hfences, hnow⟩ :=
        reconcileStep_frame s stage fence repo report ok
      refine h.frame hrun hepoch hflags htokens hfences ?_
      intro stage t repo' report' hpersist
      rcases hnow with hnow | ⟨_, hnow⟩
      · exact absurd (hpersist.symm.trans hnow) (by simp)
      · exact absurd (hpersist.symm.trans hnow) (by simp)
    · exact h

theorem init_flags (hinit : machine.init s) : Flags s := by
  obtain ⟨findings, rfl⟩ := hinit
  refine ⟨?_, ?_, ?_, ?_, ?_, ?_, List.nodup_nil, ?_⟩
  · simp
  · simp
  · simp
  · simp
  · simp [Unclaimed]
  · simp
  · simp

/-! ### A flag leaves `running` once -/

theorem persistStep_flag {token : ℕ} {repo : String} {report : PreflightReport} {ok : Bool}
    (hf : s.flags.find? t = some f) (hleft : f ≠ .running) :
    (persistStep s stage token repo report ok).1.flags.find? t = some f := by
  cases stage with
  | claimCommit =>
    have hclaim : (leaveRunning s.flags token .committing).1.find? t = some f := by
      rw [find?_leaveRunning, if_neg]
      · exact hf
      · rintro ⟨rfl, hrunning⟩
        exact hleft (Option.some_inj.mp (hf.symm.trans hrunning))
    simp only [persistStep]
    split
    · exact hclaim
    · exact hf
  | checkCancelled | checkReconciled | stageBatch | commit | readBack =>
    simp only [persistStep]
    split <;> exact hf
  | record => exact hf

theorem step_flag (h : Flags s) (hstep : step s op = (s', out)) (hf : s.flags.find? t = some f)
    (hleft : f ≠ .running) : s'.flags.find? t = some f := by
  obtain rfl : (step s op).1 = s' := by rw [hstep]
  have hnot : ¬(s.run = some t ∧ s.flags.find? t = some .running) := by
    rintro ⟨-, hrunning⟩
    exact hleft (Option.some_inj.mp (hf.symm.trans hrunning))
  cases op with
  | begin =>
    have hle := h.le t f hf
    show (begin s).1.flags.find? t = some f
    rw [find?_begin, if_neg (by omega), if_neg hnot]
    exact hf
  | cancel =>
    show (cancel s).1.flags.find? t = some f
    rw [find?_cancel, if_neg hnot]
    exact hf
  | reserveReconcile | persistIfCurrent | reconcile => exact hf
  | writer ok =>
    simp only [step]
    split
    · exact persistStep_flag hf hleft
    · next stage fence repo report _ =>
      rw [(reconcileStep_frame s stage fence repo report ok).2.2.1]
      exact hf
    · exact hf

theorem steps_flag {tr : List (Event Runs Op Out)} (h : machine.Steps s tr s') (hs : Flags s)
    (hf : s.flags.find? t = some f) (hleft : f ≠ .running) : s'.flags.find? t = some f := by
  have hboth : Flags s' ∧ s'.flags.find? t = some f := by
    refine h.invariant ?_ (P := fun s => Flags s ∧ s.flags.find? t = some f) ⟨hs, hf⟩
    rintro s op s' out ⟨hflags, hf⟩ hen hstep
    exact ⟨step_flags hflags hen hstep, step_flag hflags hstep hf hleft⟩
  exact hboth.2

end Preflight
