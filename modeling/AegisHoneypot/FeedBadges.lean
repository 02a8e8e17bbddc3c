import AegisHoneypot.LiveFeed

-- The NEW badges of the feed: which values the page has already come across.
namespace AegisHoneypot.FeedBadges
open DashboardStore SessionArchive EventInterleaving BoundedStore FeedMarkup LiveFeed Broadcast Transition
open EventPipeline (Dashboard fed stamped)
open FeedPage (Page Known Marked markNovelty markAll typed)

section Protocol
variable {channel : Channel TelemetryEvent broadcastCapacity} {toLowerCase : Text → Text} {clock : Nat → DateTime}

-- A kind of value the page keeps an eye on: where it stands in an event, in what
-- is known and in the marks, and how many of them the store remembers.
structure Category where
  values : TelemetryEvent → List String
  known : Known → Finset String
  flag : Novelty → Bool
  cap : Nat
  flagged : ∀ seen event, flag (markNovelty seen event).1 = true ↔ ∃ value ∈ values event, value ∉ known seen
  grown : ∀ seen event value, value ∈ known (markNovelty seen event).2 ↔ value ∈ known seen ∨ value ∈ values event
  nothing : known .empty = ∅
  served : ∀ arrivals : Arrivals, known (knownValues (Store.default.ingestAll arrivals)) =
    (arrivals.events.flatMap values).foldl (remember cap) ∅

theorem counted_served (counts : Tallies → KeyTable String Nat) (values : TelemetryEvent → List String)
    (step : ∀ tallies event, counts (tallies.step event) = (values event).foldl (bump counterCap) (counts tallies))
    (fresh : counts (talliesOf Store.default) = ∅) (arrivals : Arrivals) :
    (counts (talliesOf (Store.default.ingestAll arrivals))).keys.toFinset =
      (arrivals.events.flatMap values).foldl (remember counterCap) ∅ := by
  ext value
  rw [tally_run counts values _ step,fresh,List.mem_toFinset,← AList.mem_keys]
  exact bump_remember _ counterCap value

-- `markNovelty` by the kind of event, and for a login by its password.
theorem by_kind {P : TelemetryEvent → Prop} (command : ∀ e, P (.commandRun e))
    (key : ∀ timestamp id ip user method, P (.credentialHarvest ⟨timestamp,id,ip,user,none,method⟩))
    (login : ∀ timestamp id ip user password method, P (.credentialHarvest ⟨timestamp,id,ip,user,some password,method⟩))
    (other : ∀ event, commandsIn event = [] → usernamesIn event = [] → passwordsIn event = [] →
      (∀ seen, markNovelty seen event = (⟨false,false,false⟩,seen)) → P event) (event : TelemetryEvent) : P event := by
  cases event with
  | commandRun e => exact command e
  | credentialHarvest e =>
    obtain ⟨timestamp,id,ip,user,password,method⟩ := e
    cases password with
    | none => exact key _ _ _ _ _
    | some password => exact login _ _ _ _ _ _
  | _ => exact other _ rfl rfl rfl (fun _ => rfl)

def commands : Category where
  values := commandsIn
  known := Known.commands
  flag := Novelty.newCommand
  cap := commandCap
  flagged seen := by
    refine by_kind ?_ ?_ ?_ ?_
    · simp [markNovelty,commandsIn]
    · simp [markNovelty,commandsIn]
    · simp [markNovelty,commandsIn]
    · simp +contextual
  grown seen := by
    refine by_kind ?_ ?_ ?_ ?_
    · simp [markNovelty,commandsIn,or_comm]
    · simp [markNovelty,commandsIn]
    · simp [markNovelty,commandsIn]
    · simp +contextual
  nothing := rfl
  served arrivals := by
    have run := tally_run Tallies.knownFullCommands commandsIn (remember commandCap) (fun _ _ => rfl) Store.default arrivals
    exact run

def usernames : Category where
  values := usernamesIn
  known := Known.usernames
  flag := Novelty.newUsername
  cap := counterCap
  flagged seen := by
    refine by_kind ?_ ?_ ?_ ?_
    · simp [markNovelty,usernamesIn]
    · simp [markNovelty,usernamesIn]
    · simp [markNovelty,usernamesIn]
    · simp +contextual
  grown seen := by
    refine by_kind ?_ ?_ ?_ ?_
    · simp [markNovelty,usernamesIn]
    · simp [markNovelty,usernamesIn,or_comm]
    · simp [markNovelty,usernamesIn,or_comm]
    · simp +contextual
  nothing := rfl
  served := counted_served Tallies.usernameCounts usernamesIn (fun _ _ => rfl) rfl

def passwords : Category where
  values := passwordsIn
  known := Known.passwords
  flag := Novelty.newPassword
  cap := counterCap
  flagged seen := by
    refine by_kind ?_ ?_ ?_ ?_
    · simp [markNovelty,passwordsIn]
    · simp [markNovelty,passwordsIn]
    · simp [markNovelty,passwordsIn]
    · simp +contextual
  grown seen := by
    refine by_kind ?_ ?_ ?_ ?_
    · simp [markNovelty,passwordsIn]
    · simp [markNovelty,passwordsIn]
    · simp [markNovelty,passwordsIn,or_comm]
    · simp +contextual
  nothing := rfl
  served := counted_served Tallies.passwordCounts passwordsIn (fun _ _ => rfl) rfl

section Badges
variable (category : Category)

-- A mark is set for a value that was neither known nor in an event before.
theorem markAll_flags (seen : Known) (list : List TelemetryEvent) (before : List Marked) (marked : Marked) (after : List Marked)
    (split : (markAll seen list).1 = before ++ marked :: after) :
    category.flag marked.novelty = true ↔ ∃ value ∈ category.values marked.event,
      value ∉ category.known seen ∧ ∀ earlier ∈ before, value ∉ category.values earlier.event := by
  induction list generalizing seen before with
  | nil => simp [markAll] at split
  | cons event rest ih =>
    rw [markAll] at split
    dsimp only at split
    cases before with
    | nil =>
      rw [List.nil_append,List.cons.injEq] at split
      obtain ⟨rfl,_⟩ := split
      simpa using category.flagged seen event
    | cons first before =>
      rw [List.cons_append,List.cons.injEq] at split
      obtain ⟨rfl,later⟩ := split
      rw [ih _ _ later]
      simp only [category.grown,List.forall_mem_cons,not_or,and_assoc]

theorem markAll_append (seen : Known) (one two : List TelemetryEvent) : markAll seen (one ++ two) =
    ((markAll seen one).1 ++ (markAll (markAll seen one).2 two).1,(markAll (markAll seen one).2 two).2) := by
  induction one generalizing seen with
  | nil => rfl
  | cons event rest ih => simp only [List.cons_append,markAll,ih]

structure Badged (clock : Nat → DateTime) (system : System) : Prop where
  marks : markAll system.client.loaded (system.client.marked.map Marked.event) = (system.client.marked,system.client.page.known)
  shown : ∀ marked ∈ system.client.page.feed, marked ∈ system.client.marked
  unknown : system.client.phase = .loadKnown → system.client.page.known = .empty ∧ system.client.loaded = .empty ∧
    system.client.loadedAt = none ∧ system.client.marked = []
  absent : system.client.loadedAt = none → system.client.loaded = .empty
  read : ∀ count, system.client.loadedAt = some count → count ≤ system.dashboard.live.length ∧
    system.client.loaded = knownValues (fed clock (system.dashboard.live.take count)).store

theorem push_known (page : Page) (list : List TelemetryEvent) (fresh : Bool) :
    (page.pushEvents list fresh).known = (markAll page.known list).2 ∧
      ∀ marked ∈ (page.pushEvents list fresh).feed, marked ∈ page.feed ∨ marked ∈ (markAll page.known list).1 := by
  have scheduled : ∀ page : Page, page.schedule.feed = page.feed ∧ page.schedule.known = page.known := by
    intro page
    unfold Page.schedule
    split
    · exact ⟨rfl,rfl⟩
    · split <;> exact ⟨rfl,rfl⟩
  unfold Page.pushEvents
  split
  · rename_i none
    subst none
    exact ⟨rfl,fun marked member => .inl member⟩
  · refine ⟨(scheduled _).2,fun marked member => ?_⟩
    rw [(scheduled _).1] at member
    exact (List.mem_append.mp (List.mem_of_mem_take member)).symm

theorem push_marks {client : Client} (list : List TelemetryEvent) (fresh : Bool)
    (marks : markAll client.loaded (client.marked.map Marked.event) = (client.marked,client.page.known))
    (shown : ∀ marked ∈ client.page.feed, marked ∈ client.marked) :
    markAll client.loaded ((client.push list fresh).marked.map Marked.event) =
        ((client.push list fresh).marked,(client.push list fresh).page.known) ∧
      ∀ marked ∈ (client.push list fresh).page.feed, marked ∈ (client.push list fresh).marked := by
  obtain ⟨known,feed⟩ := push_known client.page list fresh
  constructor
  · dsimp only [Client.push]
    rw [known,List.map_append,markAll_events,markAll_append,marks]
  · intro marked member
    rcases feed marked member with before | new
    · exact List.mem_append_left _ (shown marked before)
    · exact List.mem_append_right _ new

theorem initial_badged (clock : Nat → DateTime) (hidden : Bool) : Badged clock (.initial hidden) where
  marks := rfl
  shown _ member := absurd member List.not_mem_nil
  unknown := fun _ => ⟨rfl,rfl,rfl,rfl⟩
  absent := fun _ => rfl
  read := nofun

theorem add_empty (more : Known) : Known.empty.add more = more := by simp [Known.add,Known.empty]

theorem step_badged (followed : Followed clock before) (valid : Badged clock before)
    (taken : Step channel toLowerCase clock before action after) : Badged clock after := by
  cases taken with
  | ingest =>
    refine ⟨valid.marks,valid.shown,valid.unknown,valid.absent,fun count loaded => ?_⟩
    obtain ⟨within,read⟩ := valid.read count loaded
    dsimp only
    rw [List.take_append_of_le_length within,List.length_append]
    exact ⟨Nat.le_add_right_of_le within,read⟩
  | @loadKnown _ answered phase =>
    obtain ⟨known,loaded,absent,marked⟩ := valid.unknown phase
    cases answered with
    | false => exact ⟨valid.marks,valid.shown,(by intro later; cases later),valid.absent,valid.read⟩
    | true =>
      have served : before.client.page.known.add (knownValues before.dashboard.store) = knownValues before.dashboard.store := by
        rw [known,add_empty]
      refine ⟨?_,valid.shown,?_,?_,?_⟩
      · simp [Client.loadKnown,marked,markAll]
      · intro later
        cases later
      · intro absent
        cases absent
      · intro count same
        cases same
        refine ⟨Nat.le_refl _,?_⟩
        rw [List.take_length,← followed.dashboard]
        exact served
  | @loadFeed _ answered phase =>
    cases answered with
    | false => exact ⟨valid.marks,valid.shown,(by intro later; cases later),valid.absent,valid.read⟩
    | true =>
      obtain ⟨marks,shown⟩ := push_marks (events before.dashboard.store (some initialLimit) none none) false valid.marks valid.shown
      exact ⟨marks,shown,(by intro later; cases later),valid.absent,valid.read⟩
  | connect phase => exact ⟨valid.marks,valid.shown,(by intro later; cases later),valid.absent,valid.read⟩
  | send phase =>
    unfold Client.send
    split <;> exact ⟨valid.marks,valid.shown,(by intro later; cases later),valid.absent,valid.read⟩
  | @deliver frame _ _ front =>
    obtain ⟨marks,shown⟩ := push_marks [frame.event] true valid.marks valid.shown
    refine ⟨marks,shown,?_,valid.absent,valid.read⟩
    intro phase
    cases followed.stage with
    | loading _ _ _ _ none => cases front.symm.trans none
    | waiting _ _ none => cases front.symm.trans none
    | streaming other _ _ _ _ => cases phase.symm.trans other
  | disconnect phase => exact ⟨valid.marks,valid.shown,(by intro later; cases later),valid.absent,valid.read⟩
  | page other drawn =>
    obtain ⟨feed,known⟩ := page_keeps other drawn
    refine ⟨?_,?_,?_,valid.absent,valid.read⟩
    · dsimp only
      rw [known]
      exact valid.marks
    · dsimp only
      rw [feed]
      exact valid.shown
    · intro phase
      dsimp only
      rw [known]
      exact valid.unknown phase

-- A NEW badge stands on the first event with a value that the page marks, unless
-- the value was known when it loaded: what is known then are values ingested
-- before, and all of them while the store has room.
theorem badges_mark_first_sights (hidden : Bool) (actions : List Action) (system : System)
    (path : Runs (Step channel toLowerCase clock) (.initial hidden) actions system) :
    (∀ before marked after, system.client.marked = before ++ marked :: after →
      (category.flag marked.novelty = true ↔ ∃ value ∈ category.values marked.event,
        value ∉ category.known system.client.loaded ∧ ∀ earlier ∈ before, value ∉ category.values earlier.event)) ∧
      (∀ marked ∈ system.client.page.feed, marked ∈ system.client.marked) ∧
      (system.client.loadedAt = none → category.known system.client.loaded = ∅) ∧
      ∀ count, system.client.loadedAt = some count →
        category.known system.client.loaded ⊆ ((system.dashboard.live.take count).flatMap category.values).toFinset ∧
        (((system.dashboard.live.take count).flatMap category.values).toFinset.card ≤ category.cap →
          category.known system.client.loaded = ((system.dashboard.live.take count).flatMap category.values).toFinset) := by
  have preserved : ∀ before action after, (Followed clock before ∧ Badged clock before) →
      Step channel toLowerCase clock before action after → Followed clock after ∧ Badged clock after :=
    fun _ _ _ valid taken => ⟨step_followed valid.1 taken,step_badged valid.1 valid.2 taken⟩
  obtain ⟨_,valid⟩ := Runs.preserves ⟨initial_followed clock hidden,initial_badged clock hidden⟩ preserved path
  refine ⟨?_,valid.shown,?_,?_⟩
  · intro before marked after split
    have flags := markAll_flags category system.client.loaded (system.client.marked.map Marked.event) before marked after
    rw [valid.marks] at flags
    exact flags split
  · intro absent
    rw [valid.absent absent,category.nothing]
  · intro count loaded
    obtain ⟨_,read⟩ := valid.read count loaded
    have served := category.served (stamped clock (system.dashboard.live.take count))
    rw [EventPipeline.stamped_events] at served
    have known : category.known system.client.loaded = ((system.dashboard.live.take count).flatMap category.values).foldl
        (remember category.cap) ∅ := (congrArg category.known read).trans served
    rw [known]
    exact ⟨remember_occurred _ _,remembers_all _ _⟩

end Badges

end Protocol

theorem late_connection_badges : ∃ system,
    Runs (Step (ringChannel broadcastCapacity) id fun _ => 0) (.initial false) lateConnection system ∧
    (∀ before marked after, system.client.marked = before ++ marked :: after →
      (marked.novelty.newCommand = true ↔ ∃ value ∈ commandsIn marked.event,
        value ∉ system.client.loaded.commands ∧ ∀ earlier ∈ before, value ∉ commandsIn earlier.event)) := by
  obtain ⟨system,path,_⟩ := late_connection_run
  exact ⟨system,path,(badges_mark_first_sights commands false _ system path).1⟩

end AegisHoneypot.FeedBadges
