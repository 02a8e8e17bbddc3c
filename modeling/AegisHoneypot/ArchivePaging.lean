import AegisHoneypot.ArchiveListing
import AegisHoneypot.Library.Paging
import AegisHoneypot.Library.Transition

-- The session table of the dashboard, filled page by page while the gateway's
-- events keep arriving at the store.
namespace AegisHoneypot.ArchivePaging
open DashboardStore SessionArchive ArchiveListing Paging Transition

def maxSessionsLimit : Nat := 200

structure SessionsQuery where
  q : Option Text
  ip : Option IpAddr
  limit : Option Nat
  offset : Option Nat

structure SessionsResponse where
  total : Nat
  sessions : List SessionSummary

-- The handler of `/api/sessions`; it reads the store under one lock.
def sessionsResponse (text : Rendering) (store : Store) (query : SessionsQuery) : SessionsResponse :=
  let limit := min (query.limit.getD 50) maxSessionsLimit
  let answer := sessions text store query.q query.ip limit (query.offset.getD 0)
  ⟨answer.2,answer.1⟩

-- `sessionArchive` of the page.
structure Client where
  q : Text
  offset : Nat
  limit : Nat
  total : Nat
  items : List SessionSummary

def Client.opened (q : Text) : Client := ⟨q,0,25,0,[]⟩

def Client.query (client : Client) : SessionsQuery :=
  ⟨if client.q = [] then none else some client.q,none,some client.limit,some client.offset⟩

-- A request that fails leaves the list as it is.
def loadSessions (text : Rendering) (store : Store) (arrives reset : Bool) (client : Client) : Client :=
  let begun := if reset then {client with offset := 0,items := []} else client
  if arrives then
    let data := sessionsResponse text store begun.query
    {begun with
      items := begun.items ++ data.sessions
      total := data.total
      offset := begun.offset + data.sessions.length}
  else begun

def Client.loadMoreHidden (client : Client) : Bool := decide (client.total ≤ client.items.length)

structure World where
  store : Store
  client : Client

inductive Move where
  | starts (now : DateTime) (event : SessionStartEvent)
  | loads (arrives : Bool)

def World.step (text : Rendering) (world : World) : Move → World
  | .starts now event => {world with store := world.store.ingest now (.sessionStart event)}
  | .loads arrives => {world with client := loadSessions text world.store arrives false world.client}

-- Whatever the store has seen before, the page is opened with an empty list.
def opened (q : Text) (arrivals : Arrivals) : World := ⟨Store.default.ingestAll arrivals,.opened q⟩

def shownIds (client : Client) : List String := client.items.map SessionSummary.sessionId

section Rows
variable (text : Rendering) (q : Text)

def finds (record : SessionRecord) : Bool :=
  if q = [] then true else matchesQuery text (text.toLowercase q) record

-- The ids the query finds in the archive, newest first.
def foundIds (archive : Archive) : List String :=
  archive.order.reverse.filter (fun id => (archive.records.lookup id).any (finds text q))

theorem found_records (records : KeyTable String SessionRecord) (found : SessionRecord → Bool)
    (keyed : ∀ id record, records.lookup id = some record → record.sessionId = id) (ids : List String) :
    ((ids.filterMap records.lookup).filter found).map SessionRecord.sessionId =
      ids.filter (fun id => (records.lookup id).any found) := by
  induction ids with
  | nil => rfl
  | cons id rest ih =>
    cases held : records.lookup id with
    | none => simp [held,ih]
    | some record =>
      cases shown : found record with
      | false => simp [held,shown,ih]
      | true => simp [held,shown,ih,keyed id record held]

theorem query_finds (client : Client) :
    (fun record => ((client.query.q.map text.toLowercase).map (fun needle => matchesQuery text needle record)).getD true) =
      finds text client.q := by
  funext record
  unfold Client.query finds
  by_cases all : client.q = []
  · simp [all]
  · simp [all]

theorem response_ids (store : Store) (sound : Sound (archiveOf store) archived) (client : Client) :
    ((sessionsResponse text store client.query).sessions).map SessionSummary.sessionId =
      page (min client.limit maxSessionsLimit) client.offset (foundIds text client.q (archiveOf store)) := by
  have rows := found_records store.sessions (finds text client.q) sound.keyed store.sessionOrder.reverse
  have every : ∀ records : List SessionRecord, records.filter (fun record =>
      (client.query.ip.map (fun target => decide (record.ip = target))).getD true) = records :=
    fun records => List.filter_eq_self.mpr (fun _ _ => rfl)
  have named : SessionSummary.sessionId ∘ toSummary text = SessionRecord.sessionId := rfl
  unfold sessionsResponse sessions
  dsimp only
  rw [every,query_finds,List.map_map,named,List.map_take,List.map_drop,rows]
  rfl

-- The query finds the session that starts, and found no record of it before.
def Adds (archive : Archive) (e : SessionStartEvent) : Prop :=
  finds text q (freshRecord e) = true ∧ (archive.records.lookup e.sessionId).any (finds text q) = false

variable {text q} {archive : Archive} {archived : List String} {e : SessionStartEvent}

theorem found_nodup (sound : Sound archive archived) : (foundIds text q archive).Nodup :=
  (List.nodup_reverse.mpr sound.nodup).filter _

theorem fresh_found (records : KeyTable String SessionRecord) (e : SessionStartEvent) (id : String) :
    ((records.insert e.sessionId (freshRecord e)).lookup id).any (finds text q) =
      if id = e.sessionId then finds text q (freshRecord e) else (records.lookup id).any (finds text q) := by
  rw [AList.lookup_insert_split]
  split <;> rfl

-- A session that is archived keeps its place; without one, room is made at the
-- other end of the list.
theorem start_thins (quiet : ¬ Adds text q archive e) :
    (foundIds text q (archive.step (.sessionStart e))).Sublist (foundIds text q archive) := by
  simp only [Archive.step,foundIds,fresh_found]
  by_cases held : e.sessionId ∈ archive.records
  · rw [if_pos held]
    apply List.monotone_filter_right
    intro id shown
    split at shown
    · rename_i own
      subst own
      by_contra hidden
      exact quiet ⟨shown,by simpa using hidden⟩
    · exact shown
  · rw [if_neg held]
    have absent : archive.records.lookup e.sessionId = none := AList.lookup_eq_none.mpr held
    have hidden : finds text q (freshRecord e) = false := by
      by_contra shown
      exact quiet ⟨by simpa using shown,by rw [absent]; rfl⟩
    have shorter : (Store.evictOldest (archive.order ++ [e.sessionId]) archive.records).1.reverse.Sublist
        (e.sessionId :: archive.order.reverse) := by
      have whole : ((archive.order ++ [e.sessionId]).rtake sessionArchiveCap).Sublist (archive.order ++ [e.sessionId]) :=
        List.drop_sublist _ _
      rw [evictOldest_order]
      simpa using whole.reverse
    refine (shorter.filter _).trans ?_
    rw [List.filter_cons_of_neg (by simp [hidden])]
    apply List.monotone_filter_right
    intro id shown
    split at shown
    · rw [hidden] at shown
      cases shown
    · cases kept : (Store.evictOldest (archive.order ++ [e.sessionId]) archive.records).2.lookup id with
      | none =>
        rw [kept] at shown
        cases shown
      | some record =>
        rw [kept] at shown
        rw [evictOldest_kept _ _ id kept]
        exact shown

theorem start_pushes (sound : Sound archive archived) (fresh : e.sessionId ∉ archive.records)
    (room : archive.order.length < sessionArchiveCap) (found : finds text q (freshRecord e) = true) :
    foundIds text q (archive.step (.sessionStart e)) = e.sessionId :: foundIds text q archive := by
  have new : e.sessionId ∉ archive.order := fun listed => fresh ((sound.listed _).mpr listed)
  have fits : (archive.order ++ [e.sessionId]).length ≤ sessionArchiveCap := by
    rw [List.length_append]
    exact room
  simp only [Archive.step,foundIds,if_neg fresh,evictOldest_within _ _ fits,fresh_found]
  rw [List.reverse_append,List.reverse_singleton,List.singleton_append,List.filter_cons_of_pos (by simpa using found)]
  refine congrArg (e.sessionId :: ·) (List.filter_congr ?_)
  intro id member
  have other : id ≠ e.sessionId := fun same => new (same ▸ List.mem_reverse.mp member)
  rw [if_neg other]

end Rows

section Run
variable {text : Rendering} {world : World}

structure Paged (text : Rendering) (world : World) : Prop where
  sound : ∃ archived, Sound (archiveOf world.store) archived
  apart : Apart (shownIds world.client) (foundIds text world.client.q (archiveOf world.store)) world.client.offset
  counted : (shownIds world.client).length = world.client.offset

-- Once the client has rows, no session may start that the query finds anew.
def Quiet (text : Rendering) (world : World) : Move → Prop
  | .starts _ e => world.client.offset = 0 ∨ ¬ Adds text world.client.q (archiveOf world.store) e
  | .loads _ => True

def QuietStep (text : Rendering) (world : World) (move : Move) (next : World) : Prop :=
  Quiet text world move ∧ next = world.step text move

theorem opened_sound (arrivals : Arrivals) : ∃ archived, Sound (archiveOf (Store.default.ingestAll arrivals)) archived :=
  ⟨_,ingestAll_sound Store.default empty_sound arrivals⟩

theorem opened_paged (text : Rendering) (q : Text) (arrivals : Arrivals) : Paged text (opened q arrivals) :=
  ⟨opened_sound arrivals,apart_empty _ _,rfl⟩

theorem loaded_ids (text : Rendering) (sound : Sound (archiveOf store) archived) (client : Client) :
    shownIds (loadSessions text store true false client) = shownIds client ++
      page (min client.limit maxSessionsLimit) client.offset (foundIds text client.q (archiveOf store)) := by
  rw [← response_ids text store sound client]
  exact List.map_append

theorem loaded_offset (text : Rendering) (sound : Sound (archiveOf store) archived) (client : Client) :
    (loadSessions text store true false client).offset = client.offset +
      (page (min client.limit maxSessionsLimit) client.offset (foundIds text client.q (archiveOf store))).length := by
  rw [← response_ids text store sound client,List.length_map]
  rfl

theorem step_paged (paged : Paged text world) (move : Move) (quiet : Quiet text world move) :
    Paged text (world.step text move) := by
  obtain ⟨archived,sound⟩ := paged.sound
  cases move with
  | starts now e =>
    refine ⟨⟨_,ingest_sound world.store sound now (.sessionStart e)⟩,?_,paged.counted⟩
    change Apart (shownIds world.client) (foundIds text world.client.q (archiveOf (world.store.ingest now (.sessionStart e))))
      world.client.offset
    rw [ingest_archive]
    rcases quiet with early | known
    · have none : shownIds world.client = [] := List.length_eq_zero_iff.mp (paged.counted.trans early)
      rw [none]
      exact apart_empty _ _
    · exact paged.apart.thin (start_thins known)
  | loads arrives =>
    cases arrives with
    | false => exact paged
    | true =>
      have rows := loaded_ids text sound world.client
      have offset := loaded_offset text sound world.client
      refine ⟨paged.sound,?_,?_⟩
      · change Apart (shownIds (loadSessions text world.store true false world.client))
          (foundIds text world.client.q (archiveOf world.store)) (loadSessions text world.store true false world.client).offset
        rw [rows,offset]
        exact paged.apart.turn (found_nodup sound) _
      · change (shownIds (loadSessions text world.store true false world.client)).length =
          (loadSessions text world.store true false world.client).offset
        rw [rows,offset,List.length_append,paged.counted]

theorem run_paged (paged : Paged text world) (path : Runs (QuietStep text) world moves next) : Paged text next := by
  refine Runs.preserves paged ?_ path
  intro before move after paged taken
  obtain ⟨quiet,rfl⟩ := taken
  exact step_paged paged move quiet

-- As long as no session starts behind its back, the client holds the front of
-- the listing.
structure Front (text : Rendering) (world : World) : Prop where
  paged : Paged text world
  rows : shownIds world.client = (foundIds text world.client.q (archiveOf world.store)).take world.client.offset
  limit : world.client.limit = 25

def StillStep (text : Rendering) (world : World) (move : Move) (next : World) : Prop :=
  (∀ now e, move = .starts now e → world.client.offset = 0) ∧ next = world.step text move

theorem opened_front (text : Rendering) (q : Text) (arrivals : Arrivals) : Front text (opened q arrivals) :=
  ⟨opened_paged text q arrivals,rfl,rfl⟩

theorem step_front (front : Front text world) (move : Move) (still : ∀ now e, move = .starts now e → world.client.offset = 0) :
    Front text (world.step text move) := by
  obtain ⟨archived,sound⟩ := front.paged.sound
  cases move with
  | starts now e =>
    have early := still now e rfl
    refine ⟨step_paged front.paged _ (Or.inl early),?_,front.limit⟩
    have none : shownIds world.client = [] := List.length_eq_zero_iff.mp (front.paged.counted.trans early)
    change shownIds world.client = (foundIds _ _ _).take world.client.offset
    rw [none,early,List.take_zero]
  | loads arrives =>
    refine ⟨step_paged front.paged _ trivial,?_,?_⟩
    · cases arrives with
      | false => exact front.rows
      | true =>
        change shownIds (loadSessions text world.store true false world.client) =
          (foundIds text world.client.q (archiveOf world.store)).take (loadSessions text world.store true false world.client).offset
        rw [loaded_ids text sound,loaded_offset text sound,front.rows,page_front]
    · cases arrives <;> exact front.limit

theorem run_front (front : Front text world) (path : Runs (StillStep text) world moves next) : Front text next := by
  refine Runs.preserves front ?_ path
  intro before move after front taken
  obtain ⟨still,rfl⟩ := taken
  exact step_front front move still

-- The session pushes the last row the client holds to where its next page begins.
theorem front_repeats (front : Front text world) (some_ : 0 < world.client.offset) (now : DateTime) (e : SessionStartEvent)
    (fresh : e.sessionId ∉ world.store.sessions) (room : world.store.sessionOrder.length < sessionArchiveCap)
    (found : finds text world.client.q (freshRecord e) = true) :
    ¬ (shownIds ((world.step text (.starts now e)).step text (.loads true)).client).Nodup := by
  obtain ⟨archived,sound⟩ := front.paged.sound
  have later := ingest_sound world.store sound now (.sessionStart e)
  have inside : world.client.offset ≤ (foundIds text world.client.q (archiveOf world.store)).length := by
    have count := front.paged.counted
    rw [front.rows,List.length_take] at count
    omega
  change ¬ (shownIds (loadSessions text (world.store.ingest now (.sessionStart e)) true false world.client)).Nodup
  rw [loaded_ids text later,ingest_archive,start_pushes sound fresh room found,front.rows,front.limit]
  exact pushed_repeats e.sessionId _ some_ inside (by decide)

end Run

-- A session table never shows a session twice while none starts that the query
-- finds anew, and the first that does is enough for the next request to show one twice.
theorem paging_exact (text : Rendering) (q : Text) (arrivals : Arrivals) :
    (∀ moves world, Runs (QuietStep text) (opened q arrivals) moves world → (shownIds world.client).Nodup) ∧
    ∀ moves world, Runs (StillStep text) (opened q arrivals) moves world →
      ∀ now e, ¬ Quiet text world (.starts now e) → e.sessionId ∉ world.store.sessions →
        world.store.sessionOrder.length < sessionArchiveCap →
        ¬ (shownIds ((world.step text (.starts now e)).step text (.loads true)).client).Nodup := by
  constructor
  · intro moves world path
    exact (run_paged (opened_paged text q arrivals) path).apart.once
  · intro moves world path now e loud fresh room
    obtain ⟨begun,adds⟩ := not_or.mp loud
    have front := run_front (opened_front text q arrivals) path
    exact front_repeats front (Nat.pos_of_ne_zero begun) now e fresh room (not_not.mp adds).1

-- One session more than a page holds, so that the button for the rest is shown.
def visit (id : String) : SessionStartEvent := ⟨1785456000000000000,id,.v4 203 0 113 7,50022,none⟩

def visits : Arrivals := "abcdefghijklmnopqrstuvwxyz".toList.map
  (fun letter => (1785456000000000000,.sessionStart (visit (String.ofList [letter]))))

def rendering : Rendering := ⟨id,fun _ => "203.0.113.7".toList,fun _ => "2026-07-31T00:00:00+00:00".toList⟩

def firstPage : World := (opened [] visits).step rendering (.loads true)

-- Both pages, with a session that is in the archive starting again in between.
theorem two_pages_apart : ∃ world,
    Runs (QuietStep rendering) (opened [] visits) [.loads true,.starts 1785456060000000000 (visit "c"),.loads true] world ∧
    (shownIds world.client).length = 26 ∧ (shownIds world.client).Nodup := by
  have quiet : Quiet rendering firstPage (.starts 1785456060000000000 (visit "c")) :=
    Or.inr fun adds => absurd adds.2 (by decide +kernel)
  have path : Runs (QuietStep rendering) (opened [] visits) [.loads true,.starts 1785456060000000000 (visit "c"),.loads true] _ :=
    ((Runs.one ⟨trivial,rfl⟩).snoc ⟨quiet,rfl⟩).snoc ⟨trivial,rfl⟩
  exact ⟨_,path,by decide +kernel,(paging_exact rendering [] visits).1 _ _ path⟩

def late : Move := .starts 1785456060000000000 (visit "late")

def nextPage : World := (firstPage.step rendering late).step rendering (.loads true)

theorem late_session_repeats : firstPage.client.loadMoreHidden = false ∧
    Runs (fun world move next => next = world.step rendering move) (opened [] visits) [.loads true,late,.loads true] nextPage ∧
    (shownIds nextPage.client).count "b" = 2 ∧ ¬ (shownIds nextPage.client).Nodup :=
  ⟨by decide +kernel,((Runs.one rfl).snoc rfl).snoc rfl,by decide +kernel,by decide +kernel⟩

end AegisHoneypot.ArchivePaging
