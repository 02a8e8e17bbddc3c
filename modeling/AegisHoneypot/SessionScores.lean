import AegisHoneypot.SessionArchive
import AegisHoneypot.SessionSilence

namespace AegisHoneypot.SessionScores
open DashboardStore SessionArchive GatewayHost SessionInput SessionSilence

structure NeverDown (before after : SessionRecord) : Prop where
  commands : before.commandCount ≤ after.commandCount
  payloads : before.payloadCount ≤ after.payloadCount
  score : before.threatScore ≤ after.threatScore
  username : before.username.isSome = true → after.username.isSome = true

def Uncounted (record : SessionRecord) : Prop :=
  record.commandCount = 0 ∧ record.payloadCount = 0 ∧ record.username = none

theorem NeverDown.refl (record : SessionRecord) : NeverDown record record :=
  ⟨Nat.le_refl _,Nat.le_refl _,Nat.le_refl _,id⟩

theorem fresh_neverDown (record : SessionRecord) (e : SessionStartEvent) :
    NeverDown record (freshRecord e) ↔ Uncounted record := by
  constructor
  · intro kept
    refine ⟨Nat.le_zero.mp kept.commands,Nat.le_zero.mp kept.payloads,?_⟩
    cases known : record.username with
    | none => rfl
    | some name =>
      have still := kept.username (by simp [known])
      cases still
  · intro blank
    obtain ⟨commands,payloads,unknown⟩ := blank
    refine ⟨by simp [commands],by simp [payloads],?_,by simp [unknown]⟩
    simp [SessionRecord.threatScore,commands,payloads,unknown]

-- Every event but a start only adds to the record of its session.
theorem update_neverDown (record : SessionRecord) (event : TelemetryEvent) (later : ∀ e, event ≠ .sessionStart e) :
    NeverDown record (recordUpdate event record) := by
  cases event with
  | sessionStart e => exact absurd rfl (later e)
  | sessionEnd e => exact ⟨Nat.le_refl _,Nat.le_refl _,Nat.le_refl _,id⟩
  | commandRun e =>
    refine ⟨Nat.le_succ _,Nat.le_refl _,?_,id⟩
    exact Nat.add_le_add_right (Nat.add_le_add_right (Nat.le_succ _) _) _
  | credentialHarvest e =>
    refine ⟨Nat.le_refl _,Nat.le_refl _,?_,fun _ => rfl⟩
    simp only [SessionRecord.threatScore,recordUpdate,Option.isSome_some,if_true]
    split <;> omega
  | payloadCaptured e =>
    refine ⟨Nat.le_refl _,Nat.le_succ _,?_,id⟩
    exact Nat.add_le_add_left (Nat.mul_le_mul_right 25 (Nat.le_succ _)) _
  | syscallExecve e => exact .refl record
  | syscallConnect e => exact .refl record
  | syscallMemfdCreate e => exact .refl record

theorem recordStep_neverDown (id : String) (record next : SessionRecord) (event : TelemetryEvent)
    (stepped : recordStep id (some record) event = some next) :
    NeverDown record next ↔ (startsSession id event = true → Uncounted record) := by
  by_cases own : event.sessionId = id
  · by_cases started : ∃ e, event = .sessionStart e
    · obtain ⟨e,rfl⟩ := started
      have named : startsSession id (.sessionStart e) = true := by simpa [startsSession,TelemetryEvent.sessionId] using own
      simp only [recordStep,if_pos own] at stepped
      cases stepped
      rw [fresh_neverDown]
      exact ⟨fun blank _ => blank,fun blank => blank named⟩
    · have later : ∀ e, event ≠ .sessionStart e := fun e same => started ⟨e,same⟩
      have updated : next = recordUpdate event record := by
        cases event with
        | sessionStart e => exact absurd rfl (later e)
        | _ => simpa [recordStep,own] using stepped.symm
      rw [updated]
      refine ⟨fun _ named => ?_,fun _ => update_neverDown record event later⟩
      cases event with
      | sessionStart e => exact absurd rfl (later e)
      | _ => cases named
  · simp only [recordStep,if_neg own] at stepped
    cases stepped
    refine ⟨fun _ named => ?_,fun _ => .refl record⟩
    cases event with
    | sessionStart e => exact absurd (by simpa [startsSession,TelemetryEvent.sessionId] using named) own
    | _ => cases named

-- In any state of the archive, reachable or not: a session that is there before
-- and after an event has the record that the event makes of its old one.
theorem step_kept (archive : Archive) (event : TelemetryEvent) (id : String)
    (before : archive.records.lookup id = some record) (after : (archive.step event).records.lookup id = some next) :
    recordStep id (some record) event = some next := by
  by_cases started : ∃ e, event = .sessionStart e
  · obtain ⟨e,rfl⟩ := started
    simp only [Archive.step] at after
    rw [start_record _ e id] at after
    by_cases own : e.sessionId = id
    · simp only [recordStep,TelemetryEvent.sessionId,own,if_true] at after ⊢
      exact after
    · simp only [recordStep,TelemetryEvent.sessionId,own,if_false] at after ⊢
      split at after
      · exact before.symm.trans after
      · exact before.symm.trans (evictOldest_kept _ _ id after)
  · rw [later_record archive event (fun e same => started ⟨e,same⟩) id,before] at after
    exact after

theorem scores_never_down_exact (store : Store) (now : DateTime) (event : TelemetryEvent) (id : String) :
    (∀ before after, store.sessions.lookup id = some before → (store.ingest now event).sessions.lookup id = some after →
      NeverDown before after) ↔
    (startsSession id event = true → ∀ record, store.sessions.lookup id = some record → Uncounted record) := by
  have archived : (store.ingest now event).sessions = ((archiveOf store).step event).records := by
    rw [← archiveOf_records,ingest_archive]
  rw [archived]
  constructor
  · intro kept started record found
    obtain ⟨e,rfl,fresh⟩ := start_step (some record) started
    have own : e.sessionId = id := by simpa [startsSession] using started
    have replaced : ((archiveOf store).step (.sessionStart e)).records.lookup id = some (freshRecord e) := by
      simp only [Archive.step]
      rw [start_record _ e id]
      simp [recordStep,TelemetryEvent.sessionId,own]
    exact (fresh_neverDown record e).mp (kept record _ found replaced)
  · intro blank before after found next
    have stepped := step_kept (archiveOf store) event id found next
    exact (recordStep_neverDown id before after event stepped).mpr (fun started => blank started before found)

-- One connection that asks for a shell, runs a command and asks for a shell
-- again: the gateway announces the same session twice.
def twoShells : List Callback :=
  [.shellRequest 0 (fun _ => true),.data [(0x69,plainIo),(0x64,plainIo),(0x0d,plainIo)],.shellRequest 1 (fun _ => true)]

def shellEvent (now : DateTime) : TelemetryEvent := .sessionStart ⟨now,"7",.v4 198 51 100 45,40022,none⟩
def idEvent : TelemetryEvent := .commandRun ⟨0,"7",.v4 198 51 100 45,"id"⟩

theorem second_shell_erases_score :
    emissions (run plainPlatform twoShells plainSession).host.log = [shellEvent 0,idEvent,shellEvent 1] ∧
    ∃ before after, (Store.default.ingestAll [(0,shellEvent 0),(0,idEvent)]).sessions.lookup "7" = some before ∧
      ((Store.default.ingestAll [(0,shellEvent 0),(0,idEvent)]).ingest 1 (shellEvent 1)).sessions.lookup "7" = some after ∧
      before.threatScore = 1 ∧ after.threatScore = 0 ∧ ¬ NeverDown before after := by
  refine ⟨rfl,_,_,rfl,rfl,rfl,rfl,?_⟩
  intro kept
  exact absurd kept.commands (by decide)

end AegisHoneypot.SessionScores
