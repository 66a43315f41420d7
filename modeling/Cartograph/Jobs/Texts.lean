/-
The texts of a task.

The store keeps records, events and ledgers as text with a hash, and reads them with a strict
decoder; the rows of the model are the values.  In a run the two are the same: each value that is
stored has a text within its bound, and the text decodes to it (`stored_texts`).
-/
import Cartograph.Investigation.Results
import Cartograph.Jobs.Agreement
import Cartograph.Jobs.EventLog
import Cartograph.Jobs.Ledgers

namespace Jobs

open Investigation Checked

section

variable {α : Type} (contentHash : ByteArray → Hash) (read : String → GraphStore.Document)
  (S : Serde α)

/-- The text of the value is read as the document it is. -/
def Seen (v : α) : Prop := read (S.write v).render = ⟨raw (S.write v), true⟩

/-- A value that is written within a bound and read back. -/
def Kept (maximum : ℕ) (v : α) : Prop :=
  ∃ bytes, encodeBody S v maximum = .ok bytes
    ∧ decodeBody contentHash read S bytes (contentHash bytes).text = .ok v

variable {contentHash read S}

theorem Seen.kept {v : α} {maximum : ℕ} (h : Seen read S v) (hfits : S.Fits v)
    (hsize : (S.write v).size ≤ maximum) (hdecodable : decodable (S.write v) = true) :
    Kept contentHash read S maximum v :=
  ⟨_, encodeBody_eq_ok.mpr ⟨hsize, rfl⟩, (decodeBody_written hfits h).mpr hdecodable⟩

end

theorem ledger_size {l : InvestigationInputLedger} (h : l.validate = .ok ()) :
    l.toJson.size ≤ MAX_MANIFEST_BYTES := by
  simp only [InvestigationInputLedger.validate, bind_eq_ok, ensure_eq_ok] at h
  obtain ⟨-, -, -, -, -, -, -, -, -, -, -, -, -, -, -, -, hsize⟩ := h
  exact hsize

/-- **The texts of a task** are its rows: whatever a run has stored of a task, its record, its
events and its ledgers, was written within its bound, and its text decodes to it. -/
theorem stored_texts {env : Env} {s0 s : Store} {tr : List Event} {id : String} {row : TaskRow}
    (contentHash : ByteArray → Hash) (read : String → GraphStore.Document) (h0 : s0.Initial)
    (hs : (machine env).Steps s0 tr s) (hrow : s.tasks.find? id = some row) :
    (StoredTask.serde.Fits row.record → Seen read StoredTask.serde row.record →
      Kept contentHash read StoredTask.serde MAX_RECORD_BYTES row.record)
    ∧ (∀ k e, row.rows.events.find? k = some e → Seen read InvestigationEvent.serde e →
      Kept contentHash read InvestigationEvent.serde (16 * 1024) e)
    ∧ ∀ k l, row.rows.inputs.find? k = some l → InvestigationInputLedger.serde.Fits l →
      Seen read InvestigationInputLedger.serde l → Kept contentHash
        read InvestigationInputLedger.serde MAX_MANIFEST_BYTES l := by
  have hsound := steps_sound hs h0 id row hrow
  refine ⟨fun hfits hseen => hseen.kept hfits hsound.size hsound.decodable, fun k e he hseen => ?_,
    fun k l hl hfits hseen => ?_⟩
  · have hlog := steps_log hs h0 id row hrow
    have hlogged := hlog.logged k e he
    have hrevision := hsound.revision_le
    obtain ⟨-, -, hid, -, -, -, -, -, -, -, -, -, -, hsequence, -⟩ := hsound.valid.fields
    obtain ⟨-, hk⟩ := (hlog.keys k).mp (Option.isSome_of_eq_some he)
    have hword : ∀ n ≤ MAX_EVENTS, n < 2 ^ 64 := fun n hn => hn.trans_lt (by decide)
    have hfits : InvestigationEvent.serde.Fits e :=
      ⟨trivial, hword e.sequence (hlogged.sequence ▸ hk.trans hsequence),
        hword e.revision (hlogged.revision.trans hrevision), trivial, fun _ _ => trivial, fun _ _ => trivial,
        trivial, trivial⟩
    have hsize : e.toJson.size ≤ 16 * 1024 :=
      (hlogged.size hid (hk.trans hsequence) hrevision).trans (by omega)
    exact hseen.kept hfits hsize (decodable_event hsize)
  · have hindexed := (steps_indexed hs h0 id row hrow).1
    obtain ⟨-, hvalid, -⟩ := hindexed.stored (k, l) (Table.find?_eq_some_iff.mp hl)
    exact hseen.kept hfits (ledger_size hvalid) (decodable_ledger hvalid)

theorem stored_texts_created :
    ∃ row e, ((machine (Sample.env Sample.intent)).exec Sample.empty Sample.begun).tasks.find?
        Sample.taskId = some row ∧ row.rows.events.find? 1 = some e
      ∧ Kept Sample.zeroHash (Sample.readOnly e.toJson) InvestigationEvent.serde (16 * 1024) e := by
  have hevent : (((machine (Sample.env Sample.intent)).exec Sample.empty Sample.begun).tasks.find?
      Sample.taskId).bind (fun row => (row.rows.events.find? 1).map fun e => e.sequence)
      = some 1 := by decide +kernel
  obtain ⟨row, hrow, hevent⟩ := Option.bind_eq_some_iff.mp hevent
  obtain ⟨e, he, -⟩ := Option.map_eq_some_iff.mp hevent
  obtain ⟨-, hevents, -⟩ := stored_texts Sample.zeroHash (Sample.readOnly e.toJson)
    Sample.empty_initial
    (Machine.steps_exec (M := machine (Sample.env Sample.intent)) fun _ _ _ => trivial) hrow
  exact ⟨row, e, hrow, he, hevents 1 e he (if_pos rfl)⟩

end Jobs
