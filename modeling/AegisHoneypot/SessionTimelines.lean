import AegisHoneypot.EventPipeline
import AegisHoneypot.BoundedStore
import AegisHoneypot.SessionAttribution

-- From the keystrokes of many connections at once to the record and the
-- timeline that the dashboard has of each of them.
namespace AegisHoneypot.SessionTimelines
open Utf8Text GatewayHost SessionHandler SessionInput SessionSilence DashboardStore SessionArchive EventInterleaving BoundedStore
open EventJson EventPipeline LogRotation Transition SessionAttribution

variable {formats : Formats} {clock : Nat → DateTime}

-- Going through a line changes neither the session nor the address of an event.
theorem reread_keeps (same : reread formats event = some back) :
    back.sessionId = event.sessionId ∧ eventIp back = eventIp event := by
  cases event with
  | sessionStart e =>
    obtain ⟨geo,_,rfl⟩ := Option.map_eq_some_iff.mp same
    exact ⟨rfl,rfl⟩
  | sessionEnd e =>
    obtain ⟨secs,_,rfl⟩ := Option.map_eq_some_iff.mp same
    exact ⟨rfl,rfl⟩
  | payloadCaptured e =>
    rw [reread,Option.ite_none_right_eq_some] at same
    cases same.2
    exact ⟨rfl,rfl⟩
  | _ =>
    cases same
    exact ⟨rfl,rfl⟩

theorem own_reread (id : String) (events : List TelemetryEvent) :
    own id (events.filterMap (reread formats)) = (own id events).filterMap (reread formats) := by
  induction events with
  | nil => rfl
  | cons event rest ih =>
    cases same : reread formats event with
    | none =>
      by_cases mine : event.sessionId = id
      · simpa [own,same,mine] using ih
      · simpa [own,same,mine] using ih
    | some back =>
      have kept := (reread_keeps same).1
      by_cases mine : event.sessionId = id
      · simpa [own,same,mine,kept] using ih
      · simpa [own,same,mine,kept] using ih

section Woven
variable {ι : Type} [DecidableEq ι] {connections : ι → Connection} {stream : List (ι × TelemetryEvent)}

-- The events of all connections in the order in which they come out of the
-- channel: those of one connection are in the order in which it told them.
def Woven (connections : ι → Connection) (stream : List (ι × TelemetryEvent)) : Prop :=
  ∀ i, (stream.filter (fun told => told.1 = i)).map Prod.snd = (connections i).told

theorem woven_names (woven : Woven connections stream) (told : ι × TelemetryEvent) (member : told ∈ stream) :
    Names (connections told.1).info told.2 := by
  refine Connection.told_names (connections told.1) told.2 ?_
  rw [← woven told.1]
  exact List.mem_map.mpr ⟨told,List.mem_filter.mpr ⟨member,by simp⟩,rfl⟩

theorem own_woven (woven : Woven connections stream)
    (distinct : Function.Injective (fun i => (connections i).info.sessionId)) (i : ι) :
    own (connections i).info.sessionId (stream.map Prod.snd) = (connections i).told := by
  rw [← woven i,own,List.filter_map]
  congr 1
  refine List.filter_congr fun told member => ?_
  have named := (woven_names woven told member).1
  rw [Function.comp_apply,decide_eq_decide,named]
  exact distinct.eq_iff

-- What the dashboard shows of a session after it has taken in `taken`.
theorem fed_timeline (taken : List TelemetryEvent) (id : String) :
    sessionEvents (fed clock taken).store id = own id (window taken) := by
  rw [sessionEvents,fed,recent_window,stamped_events]
  rfl

theorem window_suffix (taken : List TelemetryEvent) (id : String) : own id (window taken) <:+ own id taken :=
  (List.drop_suffix _ taken).filter _

theorem window_whole (taken : List TelemetryEvent) (few : taken.length ≤ recentCap) : window taken = taken := by
  rw [window,Nat.sub_eq_zero_of_le few,List.drop_zero]

theorem sessionsOf_reread (taken : List TelemetryEvent) :
    sessionsOf (taken.filterMap (reread formats)) ⊆ sessionsOf taken := by
  intro id member
  obtain ⟨back,present,rfl⟩ := List.mem_map.mp (List.mem_toFinset.mp member)
  obtain ⟨event,held,same⟩ := List.mem_filterMap.mp present
  rw [(reread_keeps same).1]
  exact List.mem_toFinset.mpr (List.mem_map.mpr ⟨event,held,rfl⟩)

-- Whatever many connections do at once: as long as no rotation overtakes the
-- tailer, what the dashboard has of a session was told by that session alone, in
-- its own order and with its own address.
theorem sessions_never_mix (woven : Woven connections stream)
    (distinct : Function.Injective (fun i => (connections i).info.sessionId))
    (path : Runs (TimelyMove formats clock) .initial moves system) (recorded : system.recorded = stream.map Prod.snd)
    (few : (sessionsOf (stream.map Prod.snd)).card ≤ sessionArchiveCap) (i : ι) :
    ∃ reached waiting, (connections i).told = reached ++ waiting ∧ (system.world.CaughtUp → waiting = []) ∧
      system.dashboard.store.sessions.lookup (connections i).info.sessionId =
        recordFold (connections i).info.sessionId (reached.filterMap (reread formats)) ∧
      sessionEvents system.dashboard.store (connections i).info.sessionId <:+ reached.filterMap (reread formats) ∧
      (stream.length ≤ recentCap →
        sessionEvents system.dashboard.store (connections i).info.sessionId = reached.filterMap (reread formats)) ∧
      ∀ event ∈ sessionEvents system.dashboard.store (connections i).info.sessionId,
        eventIp event = (connections i).info.clientIp := by
  obtain ⟨seen,pending,parts,dashboard,_,caught⟩ := events_reach_the_dashboard formats clock moves system path
  rw [recorded] at parts
  have told := own_woven woven distinct i
  rw [parts,own,List.filter_append,← own,← own] at told
  have mine : own (connections i).info.sessionId (seen.filterMap (reread formats)) =
      (own (connections i).info.sessionId seen).filterMap (reread formats) := own_reread _ _
  have shown : sessionEvents system.dashboard.store (connections i).info.sessionId =
      own (connections i).info.sessionId (window (seen.filterMap (reread formats))) := by
    rw [dashboard,fed_timeline]
  have suffix : sessionEvents system.dashboard.store (connections i).info.sessionId <:+
      (own (connections i).info.sessionId seen).filterMap (reread formats) := by
    rw [shown,← mine]
    exact window_suffix _ _
  refine ⟨own (connections i).info.sessionId seen,own (connections i).info.sessionId pending,told.symm,?_,?_,suffix,?_,?_⟩
  · intro current
    rw [caught current]
    rfl
  · have stored : (sessionsOf (Arrivals.events (stamped clock (seen.filterMap (reread formats))))).card ≤ sessionArchiveCap := by
      rw [stamped_events]
      refine (Finset.card_le_card ((sessionsOf_reread seen).trans ?_)).trans few
      rw [parts]
      intro id member
      simp only [sessionsOf,List.map_append,List.toFinset_append,Finset.mem_union] at member ⊢
      exact Or.inl member
    rw [dashboard,fed,(ingestAll_records _ stored).2,stamped_events,recordFold_own,mine]
  · intro short
    have length : (seen.filterMap (reread formats)).length ≤ recentCap := by
      have both := congrArg List.length parts
      rw [List.length_map,List.length_append] at both
      have filtered := List.length_filterMap_le (reread formats) seen
      omega
    rw [shown,window_whole _ length,mine]
  · intro event member
    obtain ⟨told_,held,same⟩ := List.mem_filterMap.mp (suffix.subset member)
    have mentioned : told_ ∈ (connections i).told := by
      rw [← told]
      exact List.mem_append_left _ held
    rw [(reread_keeps same).2]
    exact (Connection.told_names (connections i) told_ mentioned).2

end Woven

-- Clients that try one password again and again.
def login : Callback := .authPassword 0 "root".toList "x".toList

def visitor (info : SessionMeta) (logins : Nat) : Connection where
  platform := plainPlatform
  info := info
  config := ⟨"./quarantine".toList,false,0,0⟩
  forensics := ⟨"./quarantine".toList,6,33554432⟩
  sandbox := none
  rootfs := ["rootfs".toList]
  layer := ⟨∅,none⟩
  callbacks := List.replicate logins login
  dropped := none

def harvested (info : SessionMeta) : TelemetryEvent :=
  .credentialHarvest ⟨0,info.sessionId,info.clientIp,"root",some "x",.password⟩

theorem logins_told (info : SessionMeta) (logins : Nat) : (visitor info logins).told = List.replicate logins (harvested info) := by
  have ran : ∀ world, emissions (run plainPlatform (List.replicate logins login) world).host.log =
      emissions world.host.log ++ List.replicate logins (harvested world.session.info) := by
    induction logins with
    | zero => exact fun world => (List.append_nil _).symm
    | succ logins ih =>
      intro world
      have one : emissions (perform plainPlatform world login).host.log =
          emissions world.host.log ++ [harvested world.session.info] := emissions_append _ _
      have rest := ih (perform plainPlatform world login)
      rw [one,List.append_assoc] at rest
      exact rest
  exact ran _

def guest : SessionMeta := ⟨"7",.v4 198 51 100 45,40022⟩

def stranger : SessionMeta := ⟨"8",.v4 203 0 113 9,50311⟩

def visitors (logins : Nat) (second : Bool) : Connection := if second then visitor stranger 2 else visitor guest logins

def visits (logins : Nat) : List (Bool × TelemetryEvent) :=
  (true,harvested stranger) :: List.replicate logins (false,harvested guest) ++ [(true,harvested stranger)]

theorem visits_woven (logins : Nat) : Woven (visitors logins) (visits logins) := by
  intro second
  cases second with
  | false =>
    have told : (visitors logins false).told = List.replicate logins (harvested guest) := logins_told guest logins
    simp [told,visits]
  | true =>
    have told : (visitors logins true).told = List.replicate 2 (harvested stranger) := logins_told stranger 2
    simp [told,visits]

theorem harvested_fits (info : SessionMeta) (known : info = guest ∨ info = stranger) :
    (eventLine plainFormats (harvested info)).bytes.length ≤ LogTailer.maxTailChunkBytes := by
  have value : eventValue plainFormats (harvested info) = object (member "event" (stringValue "CREDENTIAL_HARVEST") :: [
      member "timestamp" (.string "1970-01-01T00:00:00Z".toList),member "session_id" (stringValue info.sessionId),
      member "ip" (addressValue info.clientIp),member "username" (stringValue "root"),
      member "password" (stringValue "x"),member "auth_method" (stringValue "password")]) := by
    rw [← plainTime_epoch]
    rfl
  have line : (eventLine plainFormats (harvested info)).bytes =
      encode (eventValue plainFormats (harvested info)).print ++ [newline] := rfl
  rw [line,value]
  rcases known with rfl | rfl
  · decide +kernel
  · decide +kernel

-- The guest's logins fill the log between the two of the stranger, of which the
-- second one is in the next file.
theorem visitors_do_not_mix : ∃ logins system,
    Runs (TimelyMove plainFormats fun _ => 0) .initial
      (steadyMoves (harvested stranger) (harvested guest) (harvested stranger) logins) system ∧
    ∃ reached waiting, (visitors logins true).told = reached ++ waiting ∧ (system.world.CaughtUp → waiting = []) ∧
      system.dashboard.store.sessions.lookup "8" = recordFold "8" (reached.filterMap (reread plainFormats)) ∧
      sessionEvents system.dashboard.store "8" <:+ reached.filterMap (reread plainFormats) ∧
      ∀ event ∈ sessionEvents system.dashboard.store "8", eventIp event = .v4 203 0 113 9 := by
  have early := harvested_fits stranger (.inr rfl)
  obtain ⟨logins,system,path,_,recorded⟩ := steady_system (fun _ => 0) early (harvested_fits guest (.inl rfl)) early
  have stream : system.recorded = (visits logins).map Prod.snd := by simp [recorded,visits]
  have distinct : Function.Injective (fun second => (visitors logins second).info.sessionId) := by
    have names : (fun second => (visitors logins second).info.sessionId) = fun second => if second then "8" else "7" := by
      funext second
      cases second <;> rfl
    rw [names]
    decide
  have few : (sessionsOf ((visits logins).map Prod.snd)).card ≤ sessionArchiveCap := by
    have both : sessionsOf ((visits logins).map Prod.snd) ⊆ {"7","8"} := by
      intro session member
      have named : session = (harvested stranger).sessionId ∨ logins ≠ 0 ∧ session = (harvested guest).sessionId := by
        simpa [sessionsOf,visits] using member
      rcases named with rfl | ⟨_,rfl⟩
      · decide
      · decide
    exact (Finset.card_le_card both).trans (by decide)
  obtain ⟨reached,waiting,told,caught,record,suffix,_,ip⟩ :=
    sessions_never_mix (visits_woven logins) distinct path stream few true
  exact ⟨logins,system,path,reached,waiting,told,caught,record,suffix,ip⟩

end AegisHoneypot.SessionTimelines
