import AegisHoneypot.SessionArchive
import AegisHoneypot.Library.Recency
import Mathlib.Algebra.Ring.Nat

namespace AegisHoneypot.ArchiveListing
open DashboardStore SessionArchive Recency

-- The standard library's texts: `str::to_lowercase`, an address and an instant
-- as the dashboard prints them.
structure Rendering where
  toLowercase : Text → Text
  ipText : IpAddr → Text
  rfc3339 : DateTime → Text

structure SessionSummary where
  sessionId : String
  ip : Text
  port : UInt16
  geo : Option GeoIpInfo
  startTime : Text
  endTime : Option Text
  durationSecs : Option Float
  username : Option String
  password : Option String
  commandCount : Nat
  payloadCount : Nat
  threatScore : Nat

def toSummary (text : Rendering) (record : SessionRecord) : SessionSummary where
  sessionId := record.sessionId
  ip := text.ipText record.ip
  port := record.port
  geo := record.geo
  startTime := text.rfc3339 record.startTime
  endTime := record.endTime.map text.rfc3339
  durationSecs := record.durationSecs
  username := record.username
  password := record.password
  commandCount := record.commandCount
  payloadCount := record.payloadCount
  threatScore := record.threatScore

def contains (text needle : Text) : Bool := decide (needle <:+: text)

-- `needle` is the query, already in lower case; an address is compared as it is.
def matchesQuery (text : Rendering) (needle : Text) (record : SessionRecord) : Bool :=
  contains (text.toLowercase record.sessionId.toList) needle || contains (text.ipText record.ip) needle ||
    contains (text.toLowercase (record.username.getD "").toList) needle ||
    contains (text.toLowercase (record.password.getD "").toList) needle

def sessions (text : Rendering) (store : Store) (q : Option Text) (ip : Option IpAddr) (limit offset : Nat) :
    List SessionSummary × Nat :=
  let needle := q.map text.toLowercase
  let found := ((store.sessionOrder.reverse.filterMap store.sessions.lookup).filter
    (fun record => (ip.map (fun target => decide (record.ip = target))).getD true)).filter
    (fun record => (needle.map (fun needle => matchesQuery text needle record)).getD true)
  (((found.drop offset).take limit).map (toSummary text),found.length)

section Eviction

theorem evictOldest_order (order : List String) (records : KeyTable String SessionRecord) :
    (Store.evictOldest order records).1 = order.rtake sessionArchiveCap := by
  induction order generalizing records with
  | nil => simp [Store.evictOldest]
  | cons oldest rest ih =>
    rw [Store.evictOldest]
    split
    · rename_i long
      have enough : sessionArchiveCap ≤ rest.length := Nat.le_of_lt_succ long
      rw [ih]
      exact (rtake_append [oldest] rest _ enough).symm
    · rename_i short
      exact (rtake_whole _ _ (Nat.le_of_not_lt short)).symm

theorem evictOldest_mem (order : List String) (records : KeyTable String SessionRecord) (id : String) :
    id ∈ (Store.evictOldest order records).2 ↔ id ∈ records ∧ id ∉ order.rdrop sessionArchiveCap := by
  induction order generalizing records with
  | nil => simp [Store.evictOldest]
  | cons oldest rest ih =>
    rw [Store.evictOldest]
    split
    · rename_i long
      have enough : sessionArchiveCap ≤ rest.length := Nat.le_of_lt_succ long
      have dropped : (oldest :: rest).rdrop sessionArchiveCap = oldest :: rest.rdrop sessionArchiveCap := by
        have size : (oldest :: rest).length - sessionArchiveCap = rest.length - sessionArchiveCap + 1 := by
          rw [List.length_cons]
          omega
        rw [List.rdrop,size,List.take_succ_cons,List.rdrop]
      rw [ih,dropped,AList.mem_erase,List.mem_cons,not_or]
      constructor
      · rintro ⟨⟨other,held⟩,kept⟩
        exact ⟨held,other,kept⟩
      · rintro ⟨held,other,kept⟩
        exact ⟨⟨other,held⟩,kept⟩
    · rename_i short
      have none : (oldest :: rest).rdrop sessionArchiveCap = [] := by
        rw [List.rdrop,Nat.sub_eq_zero_of_le (Nat.le_of_not_lt short),List.take_zero]
      simp [none]

end Eviction

-- What a run has archived anew, one id for each time its session entered.
def newlyArchived (store : Store) : TelemetryEvent → List String
  | .sessionStart e => if e.sessionId ∈ store.sessions then [] else [e.sessionId]
  | _ => []

def archivings (store : Store) : Arrivals → List String
  | [] => []
  | arrival :: rest => newlyArchived store arrival.2 ++ archivings (store.ingest arrival.1 arrival.2) rest

structure Sound (archive : Archive) (archived : List String) : Prop where
  recent : archive.order = latest sessionArchiveCap archived
  listed : ∀ id, id ∈ archive.records ↔ id ∈ archive.order
  keyed : ∀ id record, archive.records.lookup id = some record → record.sessionId = id

theorem Sound.nodup (sound : Sound archive archived) : archive.order.Nodup := by
  rw [sound.recent]
  exact latest_nodup _ _

theorem Sound.bounded (sound : Sound archive archived) : archive.order.length ≤ sessionArchiveCap := by
  rw [sound.recent]
  exact latest_length _ _

theorem empty_sound : Sound (archiveOf Store.default) [] := by
  refine ⟨rfl,?_,?_⟩
  · intro id
    simp [archiveOf,Store.default,AList.notMem_empty]
  · intro id record found
    cases found

theorem update_keyed (event : TelemetryEvent) (record : SessionRecord) (later : ∀ e, event ≠ .sessionStart e) :
    (recordUpdate event record).sessionId = record.sessionId := by
  cases event with
  | sessionStart e => exact absurd rfl (later e)
  | _ => rfl

-- In whatever state the archive is, a record carries the id it is filed under.
theorem recordStep_keyed (id : String) (record : Option SessionRecord) (event : TelemetryEvent)
    (keyed : ∀ held, record = some held → held.sessionId = id) (next : SessionRecord)
    (stepped : recordStep id record event = some next) : next.sessionId = id := by
  by_cases own : event.sessionId = id
  · by_cases started : ∃ e, event = .sessionStart e
    · obtain ⟨e,rfl⟩ := started
      simp only [recordStep,if_pos own] at stepped
      cases stepped
      exact own
    · have later : ∀ e, event ≠ .sessionStart e := fun e same => started ⟨e,same⟩
      have updated : record.map (recordUpdate event) = some next := by
        cases event with
        | sessionStart e => exact absurd rfl (later e)
        | _ => simpa [recordStep,own] using stepped
      obtain ⟨held,rfl,rfl⟩ := Option.map_eq_some_iff.mp updated
      rw [update_keyed event held later]
      exact keyed held rfl
  · simp only [recordStep,if_neg own] at stepped
    exact keyed next stepped

theorem later_sound (sound : Sound archive archived) (event : TelemetryEvent) (later : ∀ e, event ≠ .sessionStart e) :
    Sound (archive.step event) archived := by
  have order : (archive.step event).order = archive.order := by
    cases event with
    | sessionStart e => exact absurd rfl (later e)
    | _ => rfl
  have present : ∀ id, id ∈ (archive.step event).records ↔ id ∈ archive.records := by
    intro id
    cases event with
    | sessionStart e => exact absurd rfl (later e)
    | syscallExecve e | syscallConnect e | syscallMemfdCreate e => rfl
    | _ => exact AList.mem_modify _ _ _ _
  refine ⟨order.trans sound.recent,?_,?_⟩
  · intro id
    rw [present,order]
    exact sound.listed id
  · intro id record found
    rw [later_record archive event later id] at found
    exact recordStep_keyed id _ event (fun held => sound.keyed id held) record found

theorem start_keyed (records : KeyTable String SessionRecord) (e : SessionStartEvent)
    (keyed : ∀ id record, records.lookup id = some record → record.sessionId = id) (id : String) (record : SessionRecord)
    (found : (records.insert e.sessionId (freshRecord e)).lookup id = some record) : record.sessionId = id := by
  rw [start_record] at found
  exact recordStep_keyed id _ _ (keyed id) record found

-- A session that is archived keeps its place when it starts again.
theorem restart_sound (sound : Sound archive archived) (e : SessionStartEvent) (held : e.sessionId ∈ archive.records) :
    Sound (archive.step (.sessionStart e)) archived := by
  simp only [Archive.step,if_pos held]
  refine ⟨sound.recent,?_,start_keyed _ e sound.keyed⟩
  intro id
  rw [AList.mem_insert,← sound.listed]
  constructor
  · intro either
    rcases either with rfl | old
    · exact held
    · exact old
  · exact Or.inr

theorem fresh_sound (sound : Sound archive archived) (e : SessionStartEvent) (fresh : e.sessionId ∉ archive.records) :
    Sound (archive.step (.sessionStart e)) (archived ++ [e.sessionId]) := by
  have new : e.sessionId ∉ archive.order := fun listed => fresh ((sound.listed _).mpr listed)
  have once : (archive.order ++ [e.sessionId]).Nodup := by
    refine List.nodup_append.mpr ⟨sound.nodup,by simp,?_⟩
    intro old member other single same
    rw [List.mem_singleton.mp single] at same
    exact new (same ▸ member)
  have room : 0 < sessionArchiveCap := by decide
  have unlisted : e.sessionId ∉ latest sessionArchiveCap archived := sound.recent ▸ new
  simp only [Archive.step,if_neg fresh]
  refine ⟨?_,?_,?_⟩
  · rw [evictOldest_order,latest_concat _ _ _ unlisted,sound.recent]
  · intro id
    rw [AList.mem_insert,evictOldest_mem,evictOldest_order,sound.listed,concat_mem _ _ _ _ room once]
  · refine start_keyed _ e ?_
    intro id record found
    exact sound.keyed id record (evictOldest_kept _ _ id found)

theorem ingest_sound (store : Store) (sound : Sound (archiveOf store) archived) (now : DateTime) (event : TelemetryEvent) :
    Sound (archiveOf (store.ingest now event)) (archived ++ newlyArchived store event) := by
  rw [ingest_archive]
  by_cases started : ∃ e, event = .sessionStart e
  · obtain ⟨e,rfl⟩ := started
    by_cases held : e.sessionId ∈ store.sessions
    · simp only [newlyArchived,if_pos held,List.append_nil]
      exact restart_sound sound e held
    · simp only [newlyArchived,if_neg held]
      exact fresh_sound sound e held
  · have later : ∀ e, event ≠ .sessionStart e := fun e same => started ⟨e,same⟩
    have none : newlyArchived store event = [] := by
      cases event with
      | sessionStart e => exact absurd rfl (later e)
      | _ => rfl
    rw [none,List.append_nil]
    exact later_sound sound event later

theorem ingestAll_sound (store : Store) (sound : Sound (archiveOf store) archived) (arrivals : Arrivals) :
    Sound (archiveOf (store.ingestAll arrivals)) (archived ++ archivings store arrivals) := by
  induction arrivals generalizing store archived with
  | nil => simpa [archivings,Store.ingestAll] using sound
  | cons arrival rest ih =>
    have next := ih _ (ingest_sound store sound arrival.1 arrival.2)
    rw [List.append_assoc] at next
    exact next

-- Without a query the listing is the archive, newest first.
def listing (store : Store) : List SessionRecord := store.sessionOrder.reverse.filterMap store.sessions.lookup

theorem sessions_unfiltered (text : Rendering) (store : Store) (limit offset : Nat) :
    sessions text store none none limit offset =
      ((((listing store).drop offset).take limit).map (toSummary text),(listing store).length) := by
  simp [sessions,listing]

-- The pages a client asks for one after the other, each where the last ended.
def pages (text : Rendering) (store : Store) : List Nat → Nat → List SessionSummary
  | [],_ => []
  | limit :: rest,offset => (sessions text store none none limit offset).1 ++ pages text store rest (offset+limit)

theorem pages_exact (text : Rendering) (store : Store) (limits : List Nat) (offset : Nat) :
    pages text store limits offset = (((listing store).drop offset).take limits.sum).map (toSummary text) := by
  induction limits generalizing offset with
  | nil => simp [pages]
  | cons limit rest ih =>
    rw [pages,ih,sessions_unfiltered,← List.map_append,List.sum_cons,← List.drop_drop,List.take_add]

theorem listing_ids (store : Store) (sound : Sound (archiveOf store) archived) :
    (listing store).map SessionRecord.sessionId = store.sessionOrder.reverse := by
  have found : ∀ ids : List String, (∀ id ∈ ids, id ∈ store.sessions) →
      (ids.filterMap store.sessions.lookup).map SessionRecord.sessionId = ids := by
    intro ids
    induction ids with
    | nil => intro _; rfl
    | cons id rest ih =>
      intro held
      rw [List.forall_mem_cons] at held
      obtain ⟨record,here⟩ := Option.isSome_iff_exists.mp (AList.lookup_isSome.mpr held.1)
      simp only [List.filterMap_cons,here,List.map_cons,ih held.2]
      rw [sound.keyed id record here]
  refine found _ ?_
  intro id member
  exact (sound.listed id).mpr (List.mem_reverse.mp member)

structure WellArchived (store : Store) (archived : List String) : Prop where
  nodup : store.sessionOrder.Nodup
  listed : ∀ id, id ∈ store.sessions ↔ id ∈ store.sessionOrder
  keyed : ∀ id record, store.sessions.lookup id = some record → record.sessionId = id
  bounded : store.sessions.len ≤ sessionArchiveCap
  recent : store.sessionOrder = latest sessionArchiveCap archived

-- Pages that reach the end of the archive hold each session once.
structure Listed (text : Rendering) (store : Store) : Prop where
  ids : ∀ limits : List Nat, store.sessionOrder.length ≤ limits.sum →
    (pages text store limits 0).map SessionSummary.sessionId = store.sessionOrder.reverse
  records : ∀ limits : List Nat, ∀ summary ∈ pages text store limits 0,
    ∃ record, store.sessions.lookup summary.sessionId = some record ∧ summary = toSummary text record
  total : ∀ limit offset, (sessions text store none none limit offset).2 = store.sessions.len

theorem len_order (store : Store) (sound : Sound (archiveOf store) archived) :
    store.sessions.len = store.sessionOrder.length := by
  have same : store.sessions.keys.Perm store.sessionOrder := by
    refine (List.perm_ext_iff_of_nodup store.sessions.keys_nodup sound.nodup).mpr ?_
    intro id
    rw [← AList.mem_keys]
    exact sound.listed id
  rw [AList.len_keys,same.length_eq]

theorem sound_listed (text : Rendering) (store : Store) (sound : Sound (archiveOf store) archived) : Listed text store := by
  have ids := listing_ids store sound
  have size : (listing store).length = store.sessionOrder.length := by
    rw [← List.length_map,ids,List.length_reverse]
  refine ⟨?_,?_,?_⟩
  · intro limits enough
    rw [pages_exact,List.drop_zero,List.take_of_length_le (size ▸ enough),List.map_map]
    exact ids
  · intro limits summary member
    rw [pages_exact,List.drop_zero] at member
    obtain ⟨record,taken,rfl⟩ := List.mem_map.mp member
    obtain ⟨id,_,found⟩ := List.mem_filterMap.mp (List.mem_of_mem_take taken)
    refine ⟨record,?_,rfl⟩
    change store.sessions.lookup record.sessionId = some record
    rw [sound.keyed id record found]
    exact found
  · intro limit offset
    rw [sessions_unfiltered,size,len_order store sound]

theorem archive_listed (text : Rendering) (arrivals : Arrivals) :
    WellArchived (Store.default.ingestAll arrivals) (archivings Store.default arrivals) ∧
    Listed text (Store.default.ingestAll arrivals) := by
  have sound := ingestAll_sound Store.default empty_sound arrivals
  rw [List.nil_append] at sound
  refine ⟨⟨sound.nodup,sound.listed,sound.keyed,?_,sound.recent⟩,sound_listed text _ sound⟩
  rw [len_order _ sound]
  exact sound.bounded

end AegisHoneypot.ArchiveListing
