import AegisHoneypot.SessionArchive
import Mathlib.Data.List.Perm.Basic

-- Concurrent sessions reach the dashboard as one stream. What the store counts
-- and archives depends on the events of each session, not on how the streams of
-- the sessions were merged.
namespace AegisHoneypot.EventInterleaving
open DashboardStore SessionArchive

def own (id : String) (events : List TelemetryEvent) : List TelemetryEvent :=
  events.filter (fun event => event.sessionId = id)

def SameBySession (left right : List TelemetryEvent) : Prop := ∀ id, own id left = own id right

theorem own_count (event : TelemetryEvent) (events : List TelemetryEvent) :
    (own event.sessionId events).count event = events.count event :=
  List.count_filter (by simp)

-- Two streams that agree session by session hold the same events.
theorem SameBySession.perm (same : SameBySession left right) : left.Perm right := by
  rw [List.perm_iff_count]
  intro event
  calc left.count event = (own event.sessionId left).count event := (own_count event left).symm
    _ = (own event.sessionId right).count event := by rw [same event.sessionId]
    _ = right.count event := own_count event right

section Tallies
variable {K : Type} [DecidableEq K]

def bump (cap : Nat) (table : KeyTable K Nat) (key : K) : KeyTable K Nat := bumpCapped table key cap

def remember (cap : Nat) (set : Finset K) (key : K) : Finset K :=
  if key ∈ set ∨ set.card < cap then insert key set else set

theorem len_of_keys (table : KeyTable K Nat) (keys : Finset K) (held : ∀ key, key ∈ table ↔ key ∈ keys) :
    table.len = keys.card := by
  have same : table.keys.toFinset = keys := by
    ext key
    rw [List.mem_toFinset,← AList.mem_keys]
    exact held key
  rw [AList.len_keys,← same,List.toFinset_card_of_nodup table.keys_nodup]

theorem bump_lookup (table : KeyTable K Nat) (last key : K) (cap : Nat) (room : last ∈ table ∨ table.len < cap) :
    (bump cap table last).lookup key =
      if key = last then some ((table.lookup last).getD 0 + 1) else table.lookup key := by
  unfold bump bumpCapped
  cases found : table.lookup last with
  | some count => simp [AList.lookup_insert_split]
  | none =>
    have fresh : last ∉ table := AList.lookup_eq_none.mp found
    simp [room.resolve_left fresh,AList.lookup_insert_split]

-- As long as the distinct keys fit, a capped map counts every key.
theorem bumps_count (keys : List K) (cap : Nat) (few : keys.toFinset.card ≤ cap) (key : K) :
    (keys.foldl (bump cap) ∅).lookup key =
      if key ∈ keys then some (keys.count key) else none := by
  induction keys using List.reverseRecOn generalizing key with
  | nil => rfl
  | append_singleton keys last ih =>
    have grown : (keys ++ [last]).toFinset = insert last keys.toFinset := by
      ext other
      simp
    rw [grown] at few
    have counted := ih ((Finset.card_le_card (Finset.subset_insert _ _)).trans few)
    rw [List.foldl_append,List.foldl_cons,List.foldl_nil]
    generalize keys.foldl (bump cap) ∅ = table at counted ⊢
    have held : ∀ other, other ∈ table ↔ other ∈ keys.toFinset := by
      intro other
      rw [← AList.lookup_isSome,counted other]
      by_cases member : other ∈ keys <;> simp [member]
    have room : last ∈ table ∨ table.len < cap := by
      by_cases member : last ∈ keys.toFinset
      · exact Or.inl ((held last).mpr member)
      · rw [Finset.card_insert_of_notMem member] at few
        rw [len_of_keys table _ held]
        exact Or.inr few
    rw [bump_lookup _ _ _ _ room,counted,counted]
    by_cases same : key = last
    · subst same
      by_cases member : key ∈ keys
      · simp [member]
      · simp [member,List.count_eq_zero_of_not_mem member]
    · simp [same,Ne.symm same]

theorem remembers_all (keys : List K) (cap : Nat) (few : keys.toFinset.card ≤ cap) :
    keys.foldl (remember cap) ∅ = keys.toFinset := by
  induction keys using List.reverseRecOn with
  | nil => rfl
  | append_singleton keys last ih =>
    have grown : (keys ++ [last]).toFinset = insert last keys.toFinset := by
      ext other
      simp
    rw [grown] at few ⊢
    rw [List.foldl_append,ih ((Finset.card_le_card (Finset.subset_insert _ _)).trans few)]
    change remember cap keys.toFinset last = _
    unfold remember
    by_cases member : last ∈ keys.toFinset
    · rw [if_pos (Or.inl member)]
    · rw [Finset.card_insert_of_notMem member] at few
      rw [if_pos (Or.inr (Nat.lt_of_succ_le few))]

end Tallies

-- The values an event adds to each of the tallies of the store.
def startsIn : TelemetryEvent → List Unit
  | .sessionStart _ => [()]
  | _ => []

def usernamesIn : TelemetryEvent → List String
  | .credentialHarvest e => [e.username]
  | _ => []

def passwordsIn : TelemetryEvent → List String
  | .credentialHarvest e => e.password.toList
  | _ => []

def commandsIn : TelemetryEvent → List String
  | .commandRun e => [e.command]
  | _ => []

def verbsIn : TelemetryEvent → List String
  | .commandRun e => [Store.commandVerb e.command]
  | _ => []

def payloadsIn : TelemetryEvent → List Unit
  | .payloadCaptured _ => [()]
  | _ => []

def iocsIn (kind : IocFindings → List String) : TelemetryEvent → List String
  | .payloadCaptured e => kind e.iocs
  | _ => []

def countriesIn : TelemetryEvent → List String
  | .sessionStart e => ((e.geo.bind (·.country)).filter (· ≠ "Local")).toList
  | _ => []

def addressesIn (event : TelemetryEvent) : List IpAddr := [eventIp event]

-- The part of the store that counts and collects, without the archive, the feed
-- of recent events, the clock and the map of the world.
structure Tallies where
  totalSessions : Nat
  totalCommands : Nat
  totalCredentials : Nat
  totalPayloads : Nat
  uniqueIps : Finset IpAddr
  ipCounts : KeyTable IpAddr Nat
  countryCounts : KeyTable String Nat
  usernameCounts : KeyTable String Nat
  passwordCounts : KeyTable String Nat
  commandCounts : KeyTable String Nat
  knownIpIocs : Finset String
  knownUrlIocs : Finset String
  knownWalletIocs : Finset String
  knownFullCommands : Finset String

def talliesOf (store : Store) : Tallies :=
  ⟨store.totalSessions,store.totalCommands,store.totalCredentials,store.totalPayloads,store.uniqueIps,store.ipCounts,
    store.countryCounts,store.usernameCounts,store.passwordCounts,store.commandCounts,store.knownIpIocs,
    store.knownUrlIocs,store.knownWalletIocs,store.knownFullCommands⟩

def Tallies.step (tallies : Tallies) (event : TelemetryEvent) : Tallies where
  totalSessions := tallies.totalSessions + (startsIn event).length
  totalCommands := tallies.totalCommands + (commandsIn event).length
  totalCredentials := tallies.totalCredentials + (usernamesIn event).length
  totalPayloads := tallies.totalPayloads + (payloadsIn event).length
  uniqueIps := (addressesIn event).foldl (remember counterCap) tallies.uniqueIps
  ipCounts := (addressesIn event).foldl (bump counterCap) tallies.ipCounts
  countryCounts := (countriesIn event).foldl (bump counterCap) tallies.countryCounts
  usernameCounts := (usernamesIn event).foldl (bump counterCap) tallies.usernameCounts
  passwordCounts := (passwordsIn event).foldl (bump counterCap) tallies.passwordCounts
  commandCounts := (verbsIn event).foldl (bump counterCap) tallies.commandCounts
  knownIpIocs := (iocsIn (·.ipAddresses) event).foldl (remember iocCap) tallies.knownIpIocs
  knownUrlIocs := (iocsIn (·.urls) event).foldl (remember iocCap) tallies.knownUrlIocs
  knownWalletIocs := (iocsIn (·.moneroWallets) event).foldl (remember iocCap) tallies.knownWalletIocs
  knownFullCommands := (commandsIn event).foldl (remember commandCap) tallies.knownFullCommands

theorem bumpGeoPoint_tallies (store : Store) (geo : Option GeoIpInfo) :
    talliesOf (store.bumpGeoPoint geo) = talliesOf store := by
  unfold Store.bumpGeoPoint
  split
  · rfl
  · split
    · rfl
    · rfl

theorem archiveSessionStart_tallies (store : Store) (id : String) (ip : IpAddr) (port : UInt16) (geo : Option GeoIpInfo)
    (startTime : DateTime) : talliesOf (store.archiveSessionStart id ip port geo startTime) = talliesOf store := rfl

def Tallies.kindStep (tallies : Tallies) (event : TelemetryEvent) : Tallies :=
  {tallies.step event with uniqueIps := tallies.uniqueIps,ipCounts := tallies.ipCounts}

theorem start_tallies (store : Store) (e : SessionStartEvent) :
    talliesOf (store.ingestKind (.sessionStart e)) = (talliesOf store).kindStep (.sessionStart e) := by
  simp only [Store.ingestKind,archiveSessionStart_tallies,bumpGeoPoint_tallies,Tallies.kindStep,Tallies.step,countriesIn]
  cases e.geo.bind (·.country) with
  | none => rfl
  | some name =>
    by_cases local_ : name = "Local"
    · simp only [local_,ne_eq,not_true_eq_false,if_false,Option.filter]
      rfl
    · simp only [local_,ne_eq,not_false_eq_true,if_true,Option.filter]
      rfl

theorem ingestKind_tallies (store : Store) (event : TelemetryEvent) :
    talliesOf (store.ingestKind event) = (talliesOf store).kindStep event := by
  cases event with
  | sessionStart e => exact start_tallies store e
  | credentialHarvest e =>
    simp only [Store.ingestKind,Tallies.kindStep,Tallies.step,passwordsIn]
    cases e.password with
    | none => rfl
    | some secret => rfl
  | sessionEnd e => rfl
  | commandRun e => rfl
  | payloadCaptured e => rfl
  | syscallExecve e => rfl
  | syscallConnect e => rfl
  | syscallMemfdCreate e => rfl

theorem ingest_tallies (store : Store) (now : DateTime) (event : TelemetryEvent) :
    talliesOf (store.ingest now event) = (talliesOf store).step event := by
  have recent : ∀ kind : Store, talliesOf (kind.pushRecent event) = talliesOf kind := by
    intro kind
    simp only [talliesOf,Store.pushRecent]
  simp only [Store.ingest,recent,ingestKind_tallies]
  rfl

-- What one tally has become, from the values of the whole stream.
theorem tally_run (field : Tallies → T) (values : TelemetryEvent → List V) (put : T → V → T)
    (step : ∀ tallies event, field (tallies.step event) = (values event).foldl put (field tallies))
    (store : Store) (arrivals : Arrivals) :
    field (talliesOf (store.ingestAll arrivals)) = (arrivals.events.flatMap values).foldl put (field (talliesOf store)) := by
  induction arrivals generalizing store with
  | nil => rfl
  | cons arrival rest ih =>
    have next := ih (store.ingest arrival.1 arrival.2)
    rw [ingest_tallies,step] at next
    simpa [Arrivals.events,Store.ingestAll,List.foldl_append] using next

theorem total_run (total : Tallies → Nat) (values : TelemetryEvent → List V)
    (step : ∀ tallies event, total (tallies.step event) = total tallies + (values event).length) (arrivals : Arrivals) :
    total (talliesOf (Store.default.ingestAll arrivals)) =
      total (talliesOf Store.default) + (arrivals.events.flatMap values).length := by
  have length : ∀ (taken : List V) (n : Nat), taken.foldl (fun total _ => total+1) n = n + taken.length := by
    intro taken
    induction taken with
    | nil => intro n; rfl
    | cons value rest ih =>
      intro n
      rw [List.foldl_cons,ih,List.length_cons]
      omega
  rw [tally_run total values (fun total _ => total+1) (fun tallies event => by rw [step,length]),length]

theorem total_same {left right : Arrivals} (values : TelemetryEvent → List V) (same : left.events.Perm right.events)
    (total : Tallies → Nat)
    (step : ∀ tallies event, total (tallies.step event) = total tallies + (values event).length) :
    total (talliesOf (Store.default.ingestAll left)) = total (talliesOf (Store.default.ingestAll right)) := by
  rw [total_run total values step,total_run total values step,(same.flatMap_right values).length_eq]

-- How many different values of a kind a stream holds.
def distinct [DecidableEq V] (values : TelemetryEvent → List V) (events : List TelemetryEvent) : Nat :=
  (events.flatMap values).toFinset.card

section Shuffled
variable {left right : Arrivals} [DecidableEq V] (values : TelemetryEvent → List V)

theorem distinct_perm (same : left.events.Perm right.events) : distinct values left.events = distinct values right.events :=
  congrArg Finset.card (List.toFinset_eq_of_perm _ _ (same.flatMap_right values))

theorem set_same (same : left.events.Perm right.events) (set : Tallies → Finset V) (cap : Nat)
    (step : ∀ tallies event, set (tallies.step event) = (values event).foldl (remember cap) (set tallies))
    (fresh : set (talliesOf Store.default) = ∅) (few : distinct values left.events ≤ cap) :
    set (talliesOf (Store.default.ingestAll left)) = set (talliesOf (Store.default.ingestAll right)) := by
  have others : distinct values right.events ≤ cap := distinct_perm values same ▸ few
  rw [tally_run set values _ step,tally_run set values _ step,fresh,remembers_all _ cap few,remembers_all _ cap others]
  exact List.toFinset_eq_of_perm _ _ (same.flatMap_right values)

theorem counts_same (same : left.events.Perm right.events) (counts : Tallies → KeyTable V Nat) (cap : Nat)
    (step : ∀ tallies event, counts (tallies.step event) = (values event).foldl (bump cap) (counts tallies))
    (fresh : counts (talliesOf Store.default) = ∅) (few : distinct values left.events ≤ cap) (value : V) :
    (counts (talliesOf (Store.default.ingestAll left))).lookup value =
      (counts (talliesOf (Store.default.ingestAll right))).lookup value := by
  have others : distinct values right.events ≤ cap := distinct_perm values same ▸ few
  have shuffled := same.flatMap_right values
  rw [tally_run counts values _ step,tally_run counts values _ step,fresh,bumps_count _ cap few,bumps_count _ cap others,
    shuffled.count_eq]
  simp only [shuffled.mem_iff]

end Shuffled

-- The cells of the map of the world. The place that names a cell is that of its
-- first session, so only the counts are the same for every merge.
def cellOf (geo : GeoIpInfo) : Option (Int32 × Int32) :=
  match geo.lat,geo.lon with
  | some lat,some lon => some ((lat*2.0).round.toInt32,(lon*2.0).round.toInt32)
  | _,_ => none

def cellsIn : TelemetryEvent → List (Int32 × Int32)
  | .sessionStart e => (e.geo.bind cellOf).toList
  | _ => []

def cellCount (store : Store) (cell : Int32 × Int32) : Nat := ((store.geoPoints.lookup cell).map GeoPoint.count).getD 0

theorem bumpGeoPoint_cells (store : Store) (geo : Option GeoIpInfo) (cell : Int32 × Int32) :
    cellCount (store.bumpGeoPoint geo) cell = cellCount store cell + (geo.bind cellOf).toList.count cell := by
  unfold Store.bumpGeoPoint cellOf
  cases geo with
  | none => rfl
  | some geo =>
    dsimp only [Option.bind_some]
    cases geo.lat with
    | none => rfl
    | some lat =>
      cases geo.lon with
      | none => rfl
      | some lon =>
        dsimp only
        generalize ((lat*2.0).round.toInt32,(lon*2.0).round.toInt32) = key
        simp only [cellCount,AList.lookup_insert_split]
        by_cases same : cell = key
        · subst same
          cases held : store.geoPoints.lookup cell <;> simp
        · simp [same,Ne.symm same]

theorem ingest_cells (store : Store) (now : DateTime) (event : TelemetryEvent) (cell : Int32 × Int32) :
    cellCount (store.ingest now event) cell = cellCount store cell + (cellsIn event).count cell := by
  have recent : ∀ kind : Store, cellCount (kind.pushRecent event) cell = cellCount kind cell := by
    intro kind
    simp only [cellCount,Store.pushRecent]
  simp only [Store.ingest,recent]
  cases event with
  | sessionStart e =>
    simp only [Store.ingestKind]
    refine (bumpGeoPoint_cells _ e.geo cell).trans ?_
    cases e.geo.bind (·.country) with
    | none => rfl
    | some name =>
      dsimp only
      split
      · rfl
      · rfl
  | _ => rfl

theorem cells_run (store : Store) (arrivals : Arrivals) (cell : Int32 × Int32) :
    cellCount (store.ingestAll arrivals) cell = cellCount store cell + (arrivals.events.flatMap cellsIn).count cell := by
  induction arrivals generalizing store with
  | nil => rfl
  | cons arrival rest ih =>
    have next := ih (store.ingest arrival.1 arrival.2)
    rw [ingest_cells] at next
    simpa [Arrivals.events,Store.ingestAll,Nat.add_assoc] using next

-- Two stores that have seen the same events. A capped collection is compared as
-- long as the values that were offered to it fit.
structure Agree (events : List TelemetryEvent) (left right : Store) : Prop where
  records : ∀ id, left.sessions.lookup id = right.sessions.lookup id
  totalSessions : left.totalSessions = right.totalSessions
  totalCommands : left.totalCommands = right.totalCommands
  totalCredentials : left.totalCredentials = right.totalCredentials
  totalPayloads : left.totalPayloads = right.totalPayloads
  uniqueIps : distinct addressesIn events ≤ counterCap → left.uniqueIps = right.uniqueIps
  ipCounts : distinct addressesIn events ≤ counterCap → ∀ ip, left.ipCounts.lookup ip = right.ipCounts.lookup ip
  countryCounts : distinct countriesIn events ≤ counterCap →
    ∀ country, left.countryCounts.lookup country = right.countryCounts.lookup country
  usernameCounts : distinct usernamesIn events ≤ counterCap →
    ∀ username, left.usernameCounts.lookup username = right.usernameCounts.lookup username
  passwordCounts : distinct passwordsIn events ≤ counterCap →
    ∀ password, left.passwordCounts.lookup password = right.passwordCounts.lookup password
  commandCounts : distinct verbsIn events ≤ counterCap →
    ∀ verb, left.commandCounts.lookup verb = right.commandCounts.lookup verb
  knownIpIocs : distinct (iocsIn (·.ipAddresses)) events ≤ iocCap → left.knownIpIocs = right.knownIpIocs
  knownUrlIocs : distinct (iocsIn (·.urls)) events ≤ iocCap → left.knownUrlIocs = right.knownUrlIocs
  knownWalletIocs : distinct (iocsIn (·.moneroWallets)) events ≤ iocCap → left.knownWalletIocs = right.knownWalletIocs
  knownFullCommands : distinct commandsIn events ≤ commandCap → left.knownFullCommands = right.knownFullCommands
  cells : ∀ cell, cellCount left cell = cellCount right cell

-- Events of other sessions pass a session's record by.
theorem recordFold_own (id : String) (events : List TelemetryEvent) :
    recordFold id events = recordFold id (own id events) := by
  have skipped : ∀ record, events.foldl (recordStep id) record = (own id events).foldl (recordStep id) record := by
    induction events with
    | nil => intro record; rfl
    | cons event rest ih =>
      intro record
      by_cases mine : event.sessionId = id
      · simp only [own,List.filter_cons,mine,decide_true,if_true,List.foldl_cons]
        exact ih _
      · simp only [own,List.filter_cons,mine,decide_false,List.foldl_cons,recordStep,if_false]
        exact ih _
  exact skipped none

theorem interleaving_independent (left right : Arrivals) (same : SameBySession left.events right.events)
    (few : (sessionsOf left.events).card ≤ sessionArchiveCap) :
    Agree left.events (Store.default.ingestAll left) (Store.default.ingestAll right) ∧
    ∀ id, (Store.default.ingestAll left).sessions.lookup id = recordFold id (own id left.events) := by
  have shuffled := same.perm
  have others : (sessionsOf right.events).card ≤ sessionArchiveCap := by
    have ids : sessionsOf left.events = sessionsOf right.events := List.toFinset_eq_of_perm _ _ (shuffled.map _)
    exact ids ▸ few
  have mine : ∀ id, (Store.default.ingestAll left).sessions.lookup id = recordFold id (own id left.events) := by
    intro id
    rw [(ingestAll_records left few).2 id,recordFold_own]
  refine ⟨?_,mine⟩
  constructor
  · intro id
    rw [mine id,same id,← recordFold_own,(ingestAll_records right others).2 id]
  · exact total_same startsIn shuffled Tallies.totalSessions (fun _ _ => rfl)
  · exact total_same commandsIn shuffled Tallies.totalCommands (fun _ _ => rfl)
  · exact total_same usernamesIn shuffled Tallies.totalCredentials (fun _ _ => rfl)
  · exact total_same payloadsIn shuffled Tallies.totalPayloads (fun _ _ => rfl)
  · exact set_same addressesIn shuffled Tallies.uniqueIps counterCap (fun _ _ => rfl) rfl
  · exact counts_same addressesIn shuffled Tallies.ipCounts counterCap (fun _ _ => rfl) rfl
  · exact counts_same countriesIn shuffled Tallies.countryCounts counterCap (fun _ _ => rfl) rfl
  · exact counts_same usernamesIn shuffled Tallies.usernameCounts counterCap (fun _ _ => rfl) rfl
  · exact counts_same passwordsIn shuffled Tallies.passwordCounts counterCap (fun _ _ => rfl) rfl
  · exact counts_same verbsIn shuffled Tallies.commandCounts counterCap (fun _ _ => rfl) rfl
  · exact set_same (iocsIn (·.ipAddresses)) shuffled Tallies.knownIpIocs iocCap (fun _ _ => rfl) rfl
  · exact set_same (iocsIn (·.urls)) shuffled Tallies.knownUrlIocs iocCap (fun _ _ => rfl) rfl
  · exact set_same (iocsIn (·.moneroWallets)) shuffled Tallies.knownWalletIocs iocCap (fun _ _ => rfl) rfl
  · exact set_same commandsIn shuffled Tallies.knownFullCommands commandCap (fun _ _ => rfl) rfl
  · intro cell
    rw [cells_run,cells_run,(shuffled.flatMap_right cellsIn).count_eq]

def otherStart : SessionStartEvent := ⟨1756319102000000000,"77b0",.v4 198 51 100 45,40022,none⟩
def otherCommand : CommandRunEvent := ⟨1756319103000000000,"77b0",.v4 198 51 100 45,"uname -a"⟩

def oneByOne : Arrivals :=
  [(0,.sessionStart startEvent),(1,.credentialHarvest harvestEvent),(2,.sessionStart otherStart),(3,.commandRun otherCommand)]
def merged : Arrivals :=
  [(7,.sessionStart otherStart),(8,.sessionStart startEvent),(8,.commandRun otherCommand),(9,.credentialHarvest harvestEvent)]

theorem merged_sessions_agree :
    Agree oneByOne.events (Store.default.ingestAll oneByOne) (Store.default.ingestAll merged) := by
  have same : SameBySession oneByOne.events merged.events := by
    intro id
    by_cases first : startEvent.sessionId = id
    · subst first
      rfl
    · by_cases second : otherStart.sessionId = id
      · subst second
        rfl
      · simp [own,oneByOne,merged,Arrivals.events,TelemetryEvent.sessionId,first,second,show harvestEvent.sessionId ≠ id from first,
          show otherCommand.sessionId ≠ id from second]
  exact (interleaving_independent oneByOne merged same (by decide)).1

end AegisHoneypot.EventInterleaving
