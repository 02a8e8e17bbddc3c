import AegisHoneypot.DashboardStore

namespace AegisHoneypot.SessionArchive
open DashboardStore

-- The archive is the part of the store that `sessions` and `session_order` make
-- up. No other field of the store is read when the two are updated.
structure Archive where
  order : List String
  records : KeyTable String SessionRecord

def archiveOf (store : Store) : Archive := ⟨store.sessionOrder,store.sessions⟩

theorem archiveOf_records (store : Store) : (archiveOf store).records = store.sessions := rfl

def freshRecord (e : SessionStartEvent) : SessionRecord :=
  ⟨e.sessionId,e.ip,e.port,e.geo,e.timestamp,none,none,none,none,0,0⟩

-- What an event does to the record of its own session, once that is archived.
def recordUpdate : TelemetryEvent → SessionRecord → SessionRecord
  | .sessionStart e,_ => freshRecord e
  | .sessionEnd e,record => {record with endTime := some e.timestamp,durationSecs := some e.durationSecs}
  | .commandRun _,record => {record with commandCount := record.commandCount+1}
  | .credentialHarvest e,record => {record with username := some e.username,password := e.password}
  | .payloadCaptured _,record => {record with payloadCount := record.payloadCount+1}
  | .syscallExecve _,record => record
  | .syscallConnect _,record => record
  | .syscallMemfdCreate _,record => record

def startsSession (id : String) : TelemetryEvent → Bool
  | .sessionStart e => e.sessionId == id
  | _ => false

-- The record of one session as a function of that session's own events: only a
-- start creates it, and a start replaces whatever was counted before.
def recordStep (id : String) (record : Option SessionRecord) (event : TelemetryEvent) : Option SessionRecord :=
  if event.sessionId = id then
    match event with
    | .sessionStart e => some (freshRecord e)
    | other => record.map (recordUpdate other)
  else record

def recordFold (id : String) (events : List TelemetryEvent) : Option SessionRecord :=
  events.foldl (recordStep id) none

def Archive.step (archive : Archive) : TelemetryEvent → Archive
  | .sessionStart e =>
    let next := if e.sessionId ∈ archive.records then (archive.order,archive.records)
      else Store.evictOldest (archive.order ++ [e.sessionId]) archive.records
    ⟨next.1,next.2.insert e.sessionId (freshRecord e)⟩
  | .syscallExecve _ => archive
  | .syscallConnect _ => archive
  | .syscallMemfdCreate _ => archive
  | event => ⟨archive.order,archive.records.modify event.sessionId (recordUpdate event)⟩

theorem bumpGeoPoint_archive (store : Store) (geo : Option GeoIpInfo) :
    archiveOf (store.bumpGeoPoint geo) = archiveOf store := by
  unfold Store.bumpGeoPoint
  split
  · rfl
  · split <;> rfl

theorem archiveSessionStart_archive (store : Store) (e : SessionStartEvent) :
    archiveOf (store.archiveSessionStart e.sessionId e.ip e.port e.geo e.timestamp) =
      (archiveOf store).step (.sessionStart e) := rfl

theorem ingestKind_archive (store : Store) (event : TelemetryEvent) :
    archiveOf (store.ingestKind event) = (archiveOf store).step event := by
  cases event with
  | sessionStart e =>
    simp only [Store.ingestKind]
    rw [archiveSessionStart_archive,bumpGeoPoint_archive]
    cases e.geo.bind (·.country) with
    | none => rfl
    | some country => dsimp only; split <;> rfl
  | sessionEnd e => rfl
  | commandRun e => rfl
  | credentialHarvest e => rfl
  | payloadCaptured e => rfl
  | syscallExecve e => rfl
  | syscallConnect e => rfl
  | syscallMemfdCreate e => rfl

theorem pushRecent_archive (store : Store) (event : TelemetryEvent) :
    archiveOf (store.pushRecent event) = archiveOf store := by
  simp only [archiveOf,Store.pushRecent]

theorem ingest_archive (store : Store) (now : DateTime) (event : TelemetryEvent) :
    archiveOf (store.ingest now event) = (archiveOf store).step event := by
  simp only [Store.ingest]
  rw [pushRecent_archive,ingestKind_archive]
  rfl

theorem evictOldest_within (order : List String) (records : KeyTable String SessionRecord)
    (fits : order.length ≤ sessionArchiveCap) : Store.evictOldest order records = (order,records) := by
  cases order with
  | nil => rfl
  | cons oldest rest => rw [Store.evictOldest,if_neg (Nat.not_lt.mpr fits)]

theorem evictOldest_kept (order : List String) (records : KeyTable String SessionRecord) (id : String)
    (held : (Store.evictOldest order records).2.lookup id = some record) : records.lookup id = some record := by
  induction order generalizing records with
  | nil => exact held
  | cons oldest rest ih =>
    rw [Store.evictOldest] at held
    split at held
    · have still := ih _ held
      rw [AList.lookup_erase_split] at still
      split at still
      · cases still
      · exact still
    · exact held

-- The order lists each archived id once. Ids that were ever archived are among
-- the ids of the events seen, which is what keeps a small run from evicting.
structure Archive.Valid (archive : Archive) (seen : Finset String) : Prop where
  nodup : archive.order.Nodup
  listed : ∀ id, id ∈ archive.records ↔ id ∈ archive.order
  known : ∀ id ∈ archive.order, id ∈ seen

theorem empty_valid : Archive.Valid (archiveOf Store.default) ∅ := by
  refine ⟨by simp [archiveOf,Store.default],?_,by simp [archiveOf,Store.default]⟩
  intro id
  simp [archiveOf,Store.default,AList.notMem_empty]

theorem start_fits {archive : Archive} {seen : Finset String} {id : String} (valid : archive.Valid seen)
    (fresh : id ∉ archive.records) (few : (insert id seen).card ≤ sessionArchiveCap) :
    (archive.order ++ [id]).length ≤ sessionArchiveCap := by
  have new : id ∉ archive.order := fun listed => fresh ((valid.listed id).mpr listed)
  have nodup : (archive.order ++ [id]).Nodup :=
    List.nodup_append.mpr ⟨valid.nodup,by simp,by
      intro old held other single same
      rw [List.mem_singleton.mp single] at same
      exact new (same ▸ held)⟩
  have inside : (archive.order ++ [id]).toFinset ⊆ insert id seen := by
    intro held member
    rcases List.mem_append.mp (List.mem_toFinset.mp member) with old | last
    · exact Finset.mem_insert_of_mem (valid.known held old)
    · rw [List.mem_singleton.mp last]; exact Finset.mem_insert_self _ _
  rw [← List.toFinset_card_of_nodup nodup]
  exact (Finset.card_le_card inside).trans few

theorem modify_valid {archive : Archive} {seen : Finset String} (valid : archive.Valid seen)
    (id : String) (update : SessionRecord → SessionRecord) :
    Archive.Valid ⟨archive.order,archive.records.modify id update⟩ (insert id seen) :=
  ⟨valid.nodup,fun other => (AList.mem_modify _ _ _ _).trans (valid.listed other),
    fun other held => Finset.mem_insert_of_mem (valid.known other held)⟩

theorem Archive.Valid.grow {archive : Archive} {seen : Finset String} (valid : archive.Valid seen)
    (id : String) : archive.Valid (insert id seen) :=
  ⟨valid.nodup,valid.listed,fun other held => Finset.mem_insert_of_mem (valid.known other held)⟩

theorem start_valid {archive : Archive} {seen : Finset String} (valid : archive.Valid seen)
    (e : SessionStartEvent) (few : (insert e.sessionId seen).card ≤ sessionArchiveCap) :
    (archive.step (.sessionStart e)).Valid (insert e.sessionId seen) := by
  simp only [Archive.step]
  by_cases held : e.sessionId ∈ archive.records
  · simp only [if_pos held]
    refine ⟨valid.nodup,?_,(valid.grow _).known⟩
    intro other
    rw [AList.mem_insert,valid.listed]
    constructor
    · intro either
      rcases either with rfl | old
      · exact (valid.listed _).mp held
      · exact old
    · exact Or.inr
  · have fits := start_fits valid held few
    simp only [if_neg held,evictOldest_within _ _ fits]
    have new : e.sessionId ∉ archive.order := fun listed => held ((valid.listed _).mpr listed)
    refine ⟨List.nodup_append.mpr ⟨valid.nodup,by simp,?_⟩,?_,?_⟩
    · intro old member other single same
      rw [List.mem_singleton.mp single] at same
      exact new (same ▸ member)
    · intro other
      rw [AList.mem_insert,valid.listed,List.mem_append,List.mem_singleton,or_comm]
    · intro other member
      rcases List.mem_append.mp member with old | last
      · exact Finset.mem_insert_of_mem (valid.known other old)
      · rw [List.mem_singleton.mp last]; exact Finset.mem_insert_self _ _

theorem step_valid {archive : Archive} {seen : Finset String} (valid : archive.Valid seen)
    (event : TelemetryEvent) (few : (insert event.sessionId seen).card ≤ sessionArchiveCap) :
    (archive.step event).Valid (insert event.sessionId seen) := by
  cases event with
  | sessionStart e => exact start_valid valid e few
  | sessionEnd e => exact modify_valid valid _ _
  | commandRun e => exact modify_valid valid _ _
  | credentialHarvest e => exact modify_valid valid _ _
  | payloadCaptured e => exact modify_valid valid _ _
  | syscallExecve e => exact valid.grow _
  | syscallConnect e => exact valid.grow _
  | syscallMemfdCreate e => exact valid.grow _

-- Only a start looks at the order; every other event works on the record of
-- its own session, in whatever state the archive is.
theorem later_record (archive : Archive) (event : TelemetryEvent) (later : ∀ e, event ≠ .sessionStart e) (id : String) :
    (archive.step event).records.lookup id = recordStep id (archive.records.lookup id) event := by
  have modified : ∀ update : SessionRecord → SessionRecord,
      (archive.records.modify event.sessionId update).lookup id =
        if event.sessionId = id then (archive.records.lookup id).map update else archive.records.lookup id := by
    intro update
    rw [AList.lookup_modify]
    by_cases own : event.sessionId = id
    · rw [if_pos own.symm,if_pos own,own]
    · rw [if_neg (Ne.symm own),if_neg own]
  cases event with
  | sessionStart e => exact absurd rfl (later e)
  | sessionEnd e => exact modified _
  | commandRun e => exact modified _
  | credentialHarvest e => exact modified _
  | payloadCaptured e => exact modified _
  | syscallExecve e | syscallConnect e | syscallMemfdCreate e =>
    simp only [recordStep,Archive.step]
    split
    · cases archive.records.lookup id <;> rfl
    · rfl

theorem start_record (records : KeyTable String SessionRecord) (e : SessionStartEvent) (id : String) :
    (records.insert e.sessionId (freshRecord e)).lookup id = recordStep id (records.lookup id) (.sessionStart e) := by
  rw [AList.lookup_insert_split]
  by_cases own : e.sessionId = id
  · simp [recordStep,TelemetryEvent.sessionId,own]
  · simp [recordStep,TelemetryEvent.sessionId,own,Ne.symm own]

theorem step_record {archive : Archive} {seen : Finset String} (valid : archive.Valid seen)
    (event : TelemetryEvent) (few : (insert event.sessionId seen).card ≤ sessionArchiveCap) (id : String) :
    (archive.step event).records.lookup id = recordStep id (archive.records.lookup id) event := by
  by_cases started : ∃ e, event = .sessionStart e
  · obtain ⟨e,rfl⟩ := started
    simp only [Archive.step]
    by_cases held : e.sessionId ∈ archive.records
    · simp only [if_pos held]
      exact start_record archive.records e id
    · simp only [if_neg held,evictOldest_within _ _ (start_fits valid held few)]
      exact start_record archive.records e id
  · exact later_record archive event (fun e same => started ⟨e,same⟩) id

def sessionsOf (events : List TelemetryEvent) : Finset String := (events.map TelemetryEvent.sessionId).toFinset

abbrev Arrivals := List (DateTime × TelemetryEvent)

def Arrivals.events (arrivals : Arrivals) : List TelemetryEvent := arrivals.map Prod.snd

theorem sessionsOf_append (events : List TelemetryEvent) (event : TelemetryEvent) :
    sessionsOf (events ++ [event]) = insert event.sessionId (sessionsOf events) := by
  ext id
  simp [sessionsOf]

theorem ingestAll_append (store : Store) (arrivals : Arrivals) (arrival : DateTime × TelemetryEvent) :
    store.ingestAll (arrivals ++ [arrival]) = (store.ingestAll arrivals).ingest arrival.1 arrival.2 := by
  simp [Store.ingestAll]

-- The induction is on the last event; the bound on the sessions of a sequence
-- holds for every shorter one.
theorem ingestAll_records (arrivals : Arrivals)
    (few : (sessionsOf arrivals.events).card ≤ sessionArchiveCap) :
    (archiveOf (Store.default.ingestAll arrivals)).Valid (sessionsOf arrivals.events) ∧
      ∀ id, (Store.default.ingestAll arrivals).sessions.lookup id = recordFold id arrivals.events := by
  induction arrivals using List.reverseRecOn with
  | nil => exact ⟨empty_valid,fun id => rfl⟩
  | append_singleton arrivals arrival ih =>
    have events : Arrivals.events (arrivals ++ [arrival]) = Arrivals.events arrivals ++ [arrival.2] := by
      simp [Arrivals.events]
    rw [events,sessionsOf_append] at few
    rw [events,sessionsOf_append,ingestAll_append]
    obtain ⟨valid,records⟩ := ih ((Finset.card_le_card (Finset.subset_insert _ _)).trans few)
    refine ⟨?_,?_⟩
    · rw [ingest_archive]
      exact step_valid valid arrival.2 few
    · intro id
      have one := step_record valid arrival.2 few id
      rw [← ingest_archive _ arrival.1,archiveOf_records,archiveOf_records,records id] at one
      rw [one,recordFold,recordFold,List.foldl_append,List.foldl_cons,List.foldl_nil]

def harvests (id : String) (events : List TelemetryEvent) : List CredentialHarvestEvent :=
  events.filterMap fun
    | .credentialHarvest e => if e.sessionId = id then some e else none
    | _ => none

def CredentialsArchived (arrivals : Arrivals) (id : String) : Prop :=
  ∃ record credential,
    (Store.default.ingestAll arrivals).sessions.lookup id = some record ∧
    (harvests id arrivals.events).getLast? = some credential ∧
    record.username = some credential.username ∧ record.password = credential.password ∧
    record.threatScore = record.commandCount + 5 + record.payloadCount * 25

def HarvestAfterStart (id : String) (events : List TelemetryEvent) : Prop :=
  ∃ before start after, events = before ++ start :: after ∧ startsSession id start = true ∧
    (∀ event ∈ after, startsSession id event = false) ∧ harvests id after ≠ []

variable {id : String}

theorem harvests_append (id : String) (before after : List TelemetryEvent) :
    harvests id (before ++ after) = harvests id before ++ harvests id after := by
  simp [harvests]

theorem start_step (record : Option SessionRecord) (started : startsSession id start = true) :
    ∃ e, start = .sessionStart e ∧ recordStep id record start = some (freshRecord e) := by
  cases start with
  | sessionStart e =>
    have own : e.sessionId = id := by simpa [startsSession] using started
    exact ⟨e,rfl,by simp [recordStep,TelemetryEvent.sessionId,own]⟩
  | _ => cases started

theorem start_harvests (started : startsSession id start = true) (after : List TelemetryEvent) :
    harvests id (start :: after) = harvests id after := by
  cases start with
  | sessionStart e => rfl
  | _ => cases started

-- One event that is no start of the session keeps its record, and sets the
-- credentials exactly when it is a harvest of the session.
theorem later_step (record : SessionRecord) (event : TelemetryEvent) (later : startsSession id event = false) :
    ∃ next, recordStep id (some record) event = some next ∧
      (next.username,next.password) = match (harvests id [event]).getLast? with
        | none => (record.username,record.password)
        | some credential => (some credential.username,credential.password) := by
  by_cases own : event.sessionId = id
  · refine ⟨recordUpdate event record,?_,?_⟩
    · cases event <;> simp only [recordStep,own,if_true,Option.map_some,recordUpdate]
    · cases event with
      | sessionStart e =>
        simp only [TelemetryEvent.sessionId] at own
        simp [startsSession,own] at later
      | credentialHarvest e =>
        simp only [TelemetryEvent.sessionId] at own
        simp [harvests,own,recordUpdate]
      | _ => simp [harvests,recordUpdate]
  · refine ⟨record,by simp [recordStep,own],?_⟩
    cases event with
    | credentialHarvest e =>
      simp only [TelemetryEvent.sessionId] at own
      simp [harvests,own]
    | _ => simp [harvests]

theorem later_steps (record : SessionRecord) (after : List TelemetryEvent)
    (later : ∀ event ∈ after, startsSession id event = false) :
    ∃ next, after.foldl (recordStep id) (some record) = some next ∧
      (next.username,next.password) = match (harvests id after).getLast? with
        | none => (record.username,record.password)
        | some credential => (some credential.username,credential.password) := by
  induction after using List.reverseRecOn with
  | nil => exact ⟨record,rfl,rfl⟩
  | append_singleton after event ih =>
    obtain ⟨middle,folded,kept⟩ := ih (fun other member => later other (List.mem_append_left _ member))
    obtain ⟨next,stepped,set⟩ := later_step middle event (later event (by simp))
    refine ⟨next,by rw [List.foldl_append,folded]; exact stepped,?_⟩
    rw [set,harvests_append,List.getLast?_append]
    cases last : (harvests id [event]).getLast? with
    | none => simpa using kept
    | some credential => simp

theorem last_start (events : List TelemetryEvent) (started : ∃ event ∈ events, startsSession id event = true) :
    ∃ before start after, events = before ++ start :: after ∧ startsSession id start = true ∧
      ∀ event ∈ after, startsSession id event = false := by
  induction events with
  | nil => obtain ⟨event,member,_⟩ := started; cases member
  | cons head rest ih =>
    by_cases again : ∃ event ∈ rest, startsSession id event = true
    · obtain ⟨before,start,after,rfl,own,later⟩ := ih again
      exact ⟨head :: before,start,after,rfl,own,later⟩
    · obtain ⟨event,member,own⟩ := started
      rcases List.mem_cons.mp member with rfl | old
      · refine ⟨[],event,rest,rfl,own,?_⟩
        intro other held
        exact Bool.eq_false_iff.mpr (fun other_own => again ⟨other,held,other_own⟩)
      · exact absurd ⟨event,old,own⟩ again

-- The record after the last start: its credentials are those of the last
-- harvest that follows the start, and none when no harvest does.
theorem record_after_start (before : List TelemetryEvent) {after : List TelemetryEvent} (started : startsSession id start = true)
    (later : ∀ event ∈ after, startsSession id event = false) :
    ∃ record, recordFold id (before ++ start :: after) = some record ∧
      (record.username,record.password) = match (harvests id after).getLast? with
        | none => (none,none)
        | some credential => (some credential.username,credential.password) := by
  obtain ⟨e,_,created⟩ := start_step (recordFold id before) started
  obtain ⟨record,folded,credentials⟩ := later_steps (freshRecord e) after later
  refine ⟨record,?_,credentials⟩
  rw [recordFold,List.foldl_append,List.foldl_cons]
  change after.foldl (recordStep id) (recordStep id (recordFold id before) start) = some record
  rw [created,folded]

theorem credentials_archived_exact (arrivals : Arrivals) (id : String)
    (few : (sessionsOf arrivals.events).card ≤ sessionArchiveCap)
    (started : ∃ event ∈ arrivals.events, startsSession id event = true) :
    CredentialsArchived arrivals id ↔ HarvestAfterStart id arrivals.events := by
  have records := (ingestAll_records arrivals few).2 id
  constructor
  · intro given
    obtain ⟨record,credential,found,_,username,_⟩ := given
    obtain ⟨before,start,after,split,own,later⟩ := last_start arrivals.events started
    refine ⟨before,start,after,split,own,later,?_⟩
    intro none
    obtain ⟨folded,equal,credentials⟩ := record_after_start before own later
    rw [records,split,equal] at found
    cases Option.some.inj found
    simp [none,username] at credentials
  · intro given
    obtain ⟨before,start,after,split,own,later,some⟩ := given
    obtain ⟨record,equal,credentials⟩ := record_after_start before own later
    obtain ⟨credential,last⟩ : ∃ credential, (harvests id after).getLast? = .some credential :=
      Option.ne_none_iff_exists'.mp (by simpa using some)
    rw [last] at credentials
    obtain ⟨username,password⟩ := Prod.mk.inj credentials
    refine ⟨record,credential,by rw [records,split,equal],?_,username,password,?_⟩
    · rw [split,harvests_append,start_harvests own,List.getLast?_append,last,Option.some_or]
    · simp [SessionRecord.threatScore,username]

-- The order the gateway emits: authentication runs before the shell request.
def harvestEvent : CredentialHarvestEvent :=
  ⟨1756319100000000000,"3f9a1c0be2d4",.v4 203 0 113 5,"root",some "toor",.password⟩
def startEvent : SessionStartEvent :=
  ⟨1756319101000000000,"3f9a1c0be2d4",.v4 203 0 113 5,5555,none⟩
def gatewayOrder : Arrivals :=
  [(1756319100000000000,.credentialHarvest harvestEvent),(1756319101000000000,.sessionStart startEvent)]

theorem gateway_order_forgets_credentials :
    (sessionsOf gatewayOrder.events).card ≤ sessionArchiveCap ∧
    (∃ event ∈ gatewayOrder.events, startsSession "3f9a1c0be2d4" event = true) ∧
    harvests "3f9a1c0be2d4" gatewayOrder.events ≠ [] ∧
    ¬ CredentialsArchived gatewayOrder "3f9a1c0be2d4" := by
  refine ⟨by decide,by decide,by decide,?_⟩
  intro given
  obtain ⟨record,credential,found,_,username,_⟩ := given
  have stored : (Store.default.ingestAll gatewayOrder).sessions.lookup "3f9a1c0be2d4" =
      some (freshRecord startEvent) := by decide
  rw [stored] at found
  cases Option.some.inj found
  cases username

theorem credentials_archived_after_start :
    CredentialsArchived gatewayOrder.reverse "3f9a1c0be2d4" := by
  refine (credentials_archived_exact gatewayOrder.reverse "3f9a1c0be2d4" (by decide) (by decide)).mpr ?_
  exact ⟨[],.sessionStart startEvent,[.credentialHarvest harvestEvent],rfl,by decide,by decide,by decide⟩

end AegisHoneypot.SessionArchive
