import AegisHoneypot.FeedPage
import AegisHoneypot.EventPipeline
import AegisHoneypot.Library.Broadcast

-- A page of the dashboard from its first load on: what is known, the feed so
-- far, then the stream, with any number of events coming in between.
namespace AegisHoneypot.LiveFeed
open DashboardStore SessionArchive EventInterleaving BoundedStore EventPipeline FeedMarkup FeedPage Broadcast Transition

def broadcastCapacity : Nat := 1024
def maxEventsLimit : Nat := 500
def initialLimit : Nat := 200

-- The page puts these lists into sets, so their order is not kept here.
def knownValues (store : Store) : Known :=
  ⟨store.usernameCounts.keys.toFinset,store.passwordCounts.keys.toFinset,store.knownFullCommands⟩

-- `/api/events`
def events (store : Store) (limit : Option Nat) (kind : Option String) (ip : Option IpAddr) : List TelemetryEvent :=
  recentEvents store (min (limit.getD 50) maxEventsLimit) kind ip

-- `loadKnownValues().then(loadInitialFeed).then(connectStream)`, and the
-- reconnecting of an `EventSource`. A stream is at `next` and began at `start`.
inductive Phase where
  | loadKnown
  | loadFeed
  | connect
  | streaming (start next : Nat)

-- An event on its way to the page, with its position in the log.
structure Frame where
  position : Nat
  event : TelemetryEvent

-- From `loadedAt` on nothing reads the fields: how much had been ingested when
-- the page loaded what is known and the feed, and when it first connected, what
-- it marked, the positions of the feed it loaded and of what it took from streams
-- that ended, those it took from this one, and how often this one has lagged.
structure Client where
  phase : Phase
  page : Page
  wire : List Frame
  loadedAt : Option Nat
  loaded : Known
  snapshot : Nat
  first : Option Nat
  marked : List Marked
  earlier : List Nat
  current : List Nat
  lags : Nat

def Client.initial (hidden : Bool) : Client := ⟨.loadKnown,.initial hidden,[],none,.empty,0,none,[],[],[],0⟩

structure System where
  dashboard : Dashboard
  client : Client

def System.initial (hidden : Bool) : System := ⟨.default,.initial hidden⟩

inductive Action where
  | ingest (event : TelemetryEvent)
  | loadKnown (answered : Bool)
  | loadFeed (answered : Bool)
  | connect
  | send
  | deliver
  | disconnect
  | page (action : FeedPage.Action)

def Client.push (client : Client) (events : List TelemetryEvent) (fresh : Bool) : Client :=
  {client with
    page := client.page.pushEvents events fresh
    marked := client.marked ++ (markAll client.page.known events).1}

def Client.loadKnown (client : Client) (store : Store) (count : Nat) (answered : Bool) : Client :=
  if answered then {client with
    phase := .loadFeed
    page := {client.page with known := client.page.known.add (knownValues store)}
    loadedAt := some count
    loaded := client.page.known.add (knownValues store)}
  else {client with phase := .loadFeed}

def Client.loadFeed (client : Client) (store : Store) (count : Nat) (answered : Bool) : Client :=
  if answered then {client.push (events store (some initialLimit) none none) false with
    phase := .connect
    snapshot := count
    earlier := List.range' (count-initialLimit) (min count initialLimit)}
  else {client with phase := .connect}

def Client.connect (client : Client) (sent : List TelemetryEvent) : Client :=
  {client with
    phase := .streaming (subscribe sent) (subscribe sent)
    first := client.first.or (some sent.length)
    lags := 0}

-- A receiver that has lagged goes on without what it missed.
def Client.send (channel : Channel TelemetryEvent broadcastCapacity) (client : Client) (sent : List TelemetryEvent)
    (start next : Nat) : Client :=
  match channel.recv sent next with
  | (.value event,after) => {client with phase := .streaming start after,wire := client.wire ++ [⟨next,event⟩]}
  | (.lagged _,after) => {client with phase := .streaming start after,lags := client.lags+1}
  | (.empty,after) => {client with phase := .streaming start after}

def Client.deliver (client : Client) (frame : Frame) (rest : List Frame) : Client :=
  {client.push [frame.event] true with wire := rest,current := client.current ++ [frame.position]}

def Client.disconnect (client : Client) : Client :=
  {client with phase := .connect,wire := [],earlier := client.earlier ++ client.current,current := []}

section Protocol
variable (channel : Channel TelemetryEvent broadcastCapacity) (toLowerCase : Text → Text) (clock : Nat → DateTime)

-- A reader of the store waits for the end of a poll; here it may come between
-- any two events of one.
inductive Step : System → Action → System → Prop where
  | ingest : Step system (.ingest event) {system with
      dashboard := ⟨system.dashboard.store.ingest (clock system.dashboard.live.length) event,system.dashboard.live ++ [event]⟩}
  | loadKnown : system.client.phase = .loadKnown → Step system (.loadKnown answered)
      {system with client := system.client.loadKnown system.dashboard.store system.dashboard.live.length answered}
  | loadFeed : system.client.phase = .loadFeed → Step system (.loadFeed answered)
      {system with client := system.client.loadFeed system.dashboard.store system.dashboard.live.length answered}
  | connect : system.client.phase = .connect → Step system .connect
      {system with client := system.client.connect system.dashboard.live}
  | send : system.client.phase = .streaming start next → Step system .send
      {system with client := system.client.send channel system.dashboard.live start next}
  | deliver : system.client.wire = frame :: rest → Step system .deliver
      {system with client := system.client.deliver frame rest}
  | disconnect : system.client.phase = .streaming start next → Step system .disconnect
      {system with client := system.client.disconnect}
  | page : drawn.isPush = false → FeedPage.Step toLowerCase system.client.page drawn page → Step system (.page drawn)
      {system with client := {system.client with page := page}}

variable {channel} {toLowerCase} {clock}

theorem newest_part (live : List TelemetryEvent) (fits : limit ≤ cap) : ((live.drop (live.length-cap)).reverse).take limit =
    ((live.drop (live.length-limit)).take (min live.length limit)).reverse := by
  have whole : (live.drop (live.length-limit)).take (min live.length limit) = live.drop (live.length-limit) := by
    apply List.take_of_length_le
    rw [List.length_drop]
    omega
  rw [whole,List.take_reverse,List.drop_drop,List.length_drop]
  congr 2
  omega

-- The first page of the feed: the newest events, newest first.
theorem initial_events (clock : Nat → DateTime) (live : List TelemetryEvent) :
    events (fed clock live).store (some initialLimit) none none =
      (valuesAt live (List.range' (live.length-initialLimit) (min live.length initialLimit))).reverse := by
  have every : (window live).filter (fun event => decide (Matches none none event)) = window live :=
    List.filter_eq_self.mpr (fun event _ => by simp [Matches])
  rw [events,recentEvents_exact,fed,recent_window,stamped_events,valuesAt_range',every]
  exact newest_part live (by decide)

theorem page_keeps (other : FeedPage.Action.isPush action = false) (taken : FeedPage.Step toLowerCase before action after) :
    after.feed = before.feed ∧ after.known = before.known := by
  have flushed : ∀ page : Page, (page.flushRender toLowerCase).feed = page.feed ∧
      (page.flushRender toLowerCase).known = page.known := by
    intro page
    unfold Page.flushRender
    dsimp only
    split <;> exact ⟨rfl,rfl⟩
  cases taken with
  | push => cases other
  | frame _ _ => exact flushed _
  | timer _ => exact flushed _
  | refocus _ => exact flushed _
  | visibility _ => exact ⟨rfl,rfl⟩
  | filter =>
    unfold Page.renderFeed
    split <;> exact ⟨rfl,rfl⟩

theorem markAll_events (known : Known) (list : List TelemetryEvent) : (markAll known list).1.map Marked.event = list := by
  induction list generalizing known with
  | nil => rfl
  | cons event rest ih => rw [markAll,List.map_cons,ih]

theorem push_feed (page : Page) (list : List TelemetryEvent) (fresh : Bool) (shown : page.feed.map Marked.event = older.take feedCap) :
    (page.pushEvents list fresh).feed.map Marked.event = (list ++ older).take feedCap := by
  have scheduled : ∀ page : Page, page.schedule.feed = page.feed := by
    intro page
    unfold Page.schedule
    split
    · rfl
    · split <;> rfl
  unfold Page.pushEvents
  split
  · rename_i none
    rw [shown,none,List.nil_append]
  · rw [scheduled,List.map_take,List.map_append,markAll_events,shown,List.take_append,List.take_append,List.take_take]
    congr 2
    omega

-- Where the page is on its way to the stream, and what it has taken from it.
inductive Stage (live : List TelemetryEvent) (client : Client) : Prop where
  | loading : client.phase = .loadKnown ∨ client.phase = .loadFeed → client.earlier = [] → client.first = none →
      client.current = [] → client.wire = [] → Stage live client
  | waiting : client.phase = .connect → client.current = [] → client.wire = [] → Stage live client
  | streaming : client.phase = .streaming start next → client.first = some first → first ≤ start →
      (∀ i ∈ client.earlier, i < start) →
      Heard live start next client.lags (client.current ++ client.wire.map Frame.position) → Stage live client

structure Followed (clock : Nat → DateTime) (system : System) : Prop where
  dashboard : system.dashboard = fed clock system.dashboard.live
  feed : system.client.page.feed.map Marked.event =
    (valuesAt system.dashboard.live (system.client.earlier ++ system.client.current)).reverse.take feedCap
  wire : ∀ frame ∈ system.client.wire, system.dashboard.live[frame.position]? = some frame.event
  shown : List.range' (system.client.snapshot-initialLimit) (min system.client.snapshot initialLimit) <+: system.client.earlier
  ascending : system.client.earlier.Pairwise (· < ·)
  within : ∀ i ∈ system.client.earlier, i < system.dashboard.live.length
  loaded : system.client.snapshot ≤ system.dashboard.live.length
  begun : ∀ first, system.client.first = some first → first ≤ system.dashboard.live.length
  seam : ∀ i ∈ system.client.earlier, i < system.client.snapshot ∨ ∃ first, system.client.first = some first ∧ first ≤ i
  stage : Stage system.dashboard.live system.client

theorem initial_followed (clock : Nat → DateTime) (hidden : Bool) : Followed clock (.initial hidden) where
  dashboard := rfl
  feed := rfl
  wire := nofun
  shown := List.prefix_rfl
  ascending := .nil
  within := nofun
  loaded := Nat.le_refl _
  begun := nofun
  seam := nofun
  stage := .loading (.inl rfl) rfl rfl rfl rfl

theorem current_within (stage : Stage live client) : ∀ i ∈ client.current, i < live.length := by
  intro i member
  cases stage with
  | loading _ _ _ none _ =>
    rw [none] at member
    cases member
  | waiting _ none _ =>
    rw [none] at member
    cases member
  | streaming _ _ _ _ heard =>
    have bounds := heard.bounds i (List.mem_append_left _ member)
    have within := heard.within
    omega

theorem ingest_followed (valid : Followed clock system) (event : TelemetryEvent) : Followed clock {system with
    dashboard := ⟨system.dashboard.store.ingest (clock system.dashboard.live.length) event,system.dashboard.live ++ [event]⟩} where
  dashboard := by
    have grown := fed_next clock system.dashboard.live event
    rw [← valid.dashboard] at grown
    exact grown.symm
  feed := by
    have within : ∀ i ∈ system.client.earlier ++ system.client.current, i < system.dashboard.live.length :=
      List.forall_mem_append.mpr ⟨valid.within,current_within valid.stage⟩
    dsimp only
    rw [valuesAt_grow _ _ within]
    exact valid.feed
  wire := by
    intro frame member
    have found := valid.wire frame member
    obtain ⟨present,_⟩ := List.getElem?_eq_some_iff.mp found
    dsimp only
    rw [List.getElem?_append_left present]
    exact found
  shown := valid.shown
  ascending := valid.ascending
  within := by
    intro i member
    have within := valid.within i member
    simp only [List.length_append,List.length_singleton]
    exact Nat.lt_succ_of_lt within
  loaded := by
    have loaded := valid.loaded
    simp only [List.length_append,List.length_singleton]
    exact Nat.le_succ_of_le loaded
  begun := by
    intro first connected
    have begun := valid.begun first connected
    simp only [List.length_append,List.length_singleton]
    exact Nat.le_succ_of_le begun
  seam := valid.seam
  stage := by
    cases valid.stage with
    | loading early earlier first current wire => exact .loading early earlier first current wire
    | waiting phase current wire => exact .waiting phase current wire
    | streaming phase first order earlier heard => exact .streaming phase first order earlier (heard_send heard event)

theorem loadKnown_followed (valid : Followed clock system) (phase : system.client.phase = .loadKnown) (answered : Bool) :
    Followed clock {system with
      client := system.client.loadKnown system.dashboard.store system.dashboard.live.length answered} := by
  obtain ⟨earlier,first,current,wire⟩ : system.client.earlier = [] ∧ system.client.first = none ∧
      system.client.current = [] ∧ system.client.wire = [] := by
    cases valid.stage with
    | loading _ earlier first current wire => exact ⟨earlier,first,current,wire⟩
    | waiting other _ _ => cases phase.symm.trans other
    | streaming other _ _ _ _ => cases phase.symm.trans other
  cases answered with
  | true =>
    exact ⟨valid.dashboard,valid.feed,valid.wire,valid.shown,valid.ascending,valid.within,valid.loaded,valid.begun,valid.seam,
      .loading (.inr rfl) earlier first current wire⟩
  | false =>
    exact ⟨valid.dashboard,valid.feed,valid.wire,valid.shown,valid.ascending,valid.within,valid.loaded,valid.begun,valid.seam,
      .loading (.inr rfl) earlier first current wire⟩

theorem loadFeed_followed (valid : Followed clock system) (phase : system.client.phase = .loadFeed) (answered : Bool) :
    Followed clock {system with
      client := system.client.loadFeed system.dashboard.store system.dashboard.live.length answered} := by
  obtain ⟨earlier,current,wire⟩ : system.client.earlier = [] ∧ system.client.current = [] ∧ system.client.wire = [] := by
    cases valid.stage with
    | loading _ earlier _ current wire => exact ⟨earlier,current,wire⟩
    | waiting other _ _ => cases phase.symm.trans other
    | streaming other _ _ _ _ => cases phase.symm.trans other
  cases answered with
  | false =>
    exact ⟨valid.dashboard,valid.feed,valid.wire,valid.shown,valid.ascending,valid.within,valid.loaded,valid.begun,valid.seam,.waiting rfl current wire⟩
  | true =>
    have bounds : ∀ i ∈ List.range' (system.dashboard.live.length-initialLimit) (min system.dashboard.live.length initialLimit),
        i < system.dashboard.live.length := by
      intro i member
      rw [List.mem_range'_1] at member
      omega
    refine ⟨valid.dashboard,?_,valid.wire,List.prefix_rfl,List.pairwise_lt_range',bounds,Nat.le_refl _,valid.begun,fun i member => .inl (bounds i member),
      .waiting rfl current wire⟩
    have nothing : system.client.page.feed.map Marked.event = List.take feedCap [] := by
      rw [valid.feed,earlier,current]
      rfl
    have store : system.dashboard.store = (fed clock system.dashboard.live).store := congrArg Dashboard.store valid.dashboard
    dsimp only [Client.loadFeed,Client.push]
    rw [if_pos rfl]
    dsimp only
    rw [push_feed _ _ _ nothing,store,initial_events,current,List.append_nil,List.append_nil]

theorem connect_followed (valid : Followed clock system) (phase : system.client.phase = .connect) :
    Followed clock {system with client := system.client.connect system.dashboard.live} := by
  obtain ⟨current,wire⟩ : system.client.current = [] ∧ system.client.wire = [] := by
    cases valid.stage with
    | loading early _ _ _ _ => rcases early with other | other <;> cases phase.symm.trans other
    | waiting _ current wire => exact ⟨current,wire⟩
    | streaming other _ _ _ _ => cases phase.symm.trans other
  have heard := heard_subscribe system.dashboard.live
  have began : ∃ first, (system.client.connect system.dashboard.live).first = some first ∧
      first ≤ system.dashboard.live.length ∧ ∀ old, system.client.first = some old → old = first := by
    cases connected : system.client.first with
    | none => exact ⟨_,by simp [Client.connect,connected],Nat.le_refl _,nofun⟩
    | some first => exact ⟨first,by simp [Client.connect,connected],valid.begun first connected,fun _ same => (Option.some.inj same).symm⟩
  obtain ⟨first,connected,order,kept⟩ := began
  refine ⟨valid.dashboard,valid.feed,valid.wire,valid.shown,valid.ascending,valid.within,valid.loaded,?_,?_,?_⟩
  · intro other same
    cases connected.symm.trans same
    exact order
  · intro i member
    rcases valid.seam i member with before | ⟨old,same,after⟩
    · exact .inl before
    · refine .inr ⟨first,connected,?_⟩
      rw [← kept old same]
      exact after
  · refine .streaming rfl connected order valid.within ?_
    simpa [Client.connect,current,wire] using heard

theorem send_followed (valid : Followed clock system) (phase : system.client.phase = .streaming start next) :
    Followed clock {system with client := system.client.send channel system.dashboard.live start next} := by
  obtain ⟨first,connected,order,behind,heard⟩ : ∃ first, system.client.first = some first ∧ first ≤ start ∧
      (∀ i ∈ system.client.earlier, i < start) ∧
      Heard system.dashboard.live start next system.client.lags
        (system.client.current ++ system.client.wire.map Frame.position) := by
    cases valid.stage with
    | loading early _ _ _ _ => rcases early with other | other <;> cases phase.symm.trans other
    | waiting other _ _ => cases phase.symm.trans other
    | streaming same connected order behind heard =>
      cases phase.symm.trans same
      exact ⟨_,connected,order,behind,heard⟩
  unfold Client.send
  split
  · rename_i event after given
    obtain ⟨found,heard⟩ := heard_value channel heard given
    refine ⟨valid.dashboard,valid.feed,?_,valid.shown,valid.ascending,valid.within,valid.loaded,valid.begun,valid.seam,
      .streaming rfl connected order behind ?_⟩
    · dsimp only
      rw [List.forall_mem_append]
      exact ⟨valid.wire,by simpa using found⟩
    · simpa using heard
  · rename_i given
    have heard := heard_lagged channel heard given
    exact ⟨valid.dashboard,valid.feed,valid.wire,valid.shown,valid.ascending,valid.within,valid.loaded,valid.begun,valid.seam,
      .streaming rfl connected order behind heard⟩
  · rename_i given
    have heard := heard_empty channel heard given
    exact ⟨valid.dashboard,valid.feed,valid.wire,valid.shown,valid.ascending,valid.within,valid.loaded,valid.begun,valid.seam,
      .streaming rfl connected order behind heard⟩

-- A stream within the channel does not lag.
theorem send_prompt (channel : Channel TelemetryEvent broadcastCapacity) (client : Client) {live : List TelemetryEvent}
    (within : live.length ≤ next+broadcastCapacity) : (client.send channel live start next).lags = client.lags := by
  unfold Client.send
  split
  · rfl
  · rename_i given
    exact absurd given (channel.prompt _ _ _ _ within)
  · rfl

theorem deliver_followed (valid : Followed clock system) (front : system.client.wire = frame :: rest) :
    Followed clock {system with client := system.client.deliver frame rest} := by
  have found := valid.wire
  rw [front,List.forall_mem_cons] at found
  have here : valuesAt system.dashboard.live [frame.position] = [frame.event] := by simp [valuesAt,found.1]
  refine ⟨valid.dashboard,?_,found.2,valid.shown,valid.ascending,valid.within,valid.loaded,valid.begun,valid.seam,?_⟩
  · have pushed := push_feed system.client.page [frame.event] true valid.feed
    dsimp only [Client.deliver,Client.push]
    rw [pushed,← List.append_assoc,valuesAt_append _ (_ ++ _),here,List.reverse_append]
    rfl
  · cases valid.stage with
    | loading _ _ _ _ none => cases front.symm.trans none
    | waiting _ _ none => cases front.symm.trans none
    | streaming phase connected order behind heard =>
      refine .streaming phase connected order behind ?_
      rw [front] at heard
      simpa [Client.deliver,Client.push] using heard

theorem disconnect_followed (valid : Followed clock system) (phase : system.client.phase = .streaming start next) :
    Followed clock {system with client := system.client.disconnect} := by
  cases valid.stage with
  | loading early _ _ _ _ => rcases early with other | other <;> cases phase.symm.trans other
  | waiting other _ _ => cases phase.symm.trans other
  | streaming same connected order behind heard =>
    have bounds := fun i member => heard.bounds i (List.mem_append_left _ member)
    refine ⟨valid.dashboard,?_,nofun,valid.shown.trans (List.prefix_append _ _),?_,?_,valid.loaded,valid.begun,?_,
      .waiting rfl rfl rfl⟩
    · dsimp only [Client.disconnect]
      rw [List.append_nil]
      exact valid.feed
    · refine List.pairwise_append.mpr ⟨valid.ascending,(List.pairwise_append.mp heard.ascending).1,?_⟩
      intro i before j after
      exact (behind i before).trans_le (bounds j after).1
    · exact List.forall_mem_append.mpr ⟨valid.within,current_within valid.stage⟩
    · refine List.forall_mem_append.mpr ⟨valid.seam,?_⟩
      intro i member
      exact .inr ⟨_,connected,order.trans (bounds i member).1⟩

theorem step_followed (valid : Followed clock before) (taken : Step channel toLowerCase clock before action after) :
    Followed clock after := by
  cases taken with
  | ingest => exact ingest_followed valid _
  | loadKnown phase => exact loadKnown_followed valid phase _
  | loadFeed phase => exact loadFeed_followed valid phase _
  | connect phase => exact connect_followed valid phase
  | send phase => exact send_followed valid phase
  | deliver front => exact deliver_followed valid front
  | disconnect phase => exact disconnect_followed valid phase
  | page other drawn =>
    obtain ⟨feed,_⟩ := page_keeps other drawn
    refine ⟨valid.dashboard,?_,valid.wire,valid.shown,valid.ascending,valid.within,valid.loaded,valid.begun,valid.seam,?_⟩
    · dsimp only
      rw [feed]
      exact valid.feed
    · cases valid.stage with
      | loading early earlier first current wire => exact .loading early earlier first current wire
      | waiting phase current wire => exact .waiting phase current wire
      | streaming phase first order earlier heard => exact .streaming phase first order earlier heard

theorem Followed.inOrder (valid : Followed clock system) :
    (system.client.earlier ++ system.client.current).Pairwise (· < ·) := by
  cases valid.stage with
  | loading _ _ _ none _ =>
    rw [none,List.append_nil]
    exact valid.ascending
  | waiting _ none _ =>
    rw [none,List.append_nil]
    exact valid.ascending
  | streaming _ _ _ behind heard =>
    refine List.pairwise_append.mpr ⟨valid.ascending,(List.pairwise_append.mp heard.ascending).1,?_⟩
    intro i before j after
    exact (behind i before).trans_le (heard.bounds j (List.mem_append_left _ after)).1

theorem Followed.sinceConnected (valid : Followed clock system) (connected : system.client.first = some first) :
    ∀ i ∈ system.client.earlier ++ system.client.current, i < system.client.snapshot ∨ first ≤ i := by
  refine List.forall_mem_append.mpr ⟨?_,?_⟩
  · intro i member
    rcases valid.seam i member with before | ⟨other,same,after⟩
    · exact .inl before
    · cases connected.symm.trans same
      exact .inr after
  · intro i member
    cases valid.stage with
    | loading _ _ _ none _ => simp [none] at member
    | waiting _ none _ => simp [none] at member
    | streaming _ same order _ heard =>
      cases connected.symm.trans same
      exact .inr (order.trans (heard.bounds i (List.mem_append_left _ member)).1)

theorem Followed.stream (valid : Followed clock system) (phase : system.client.phase = .streaming start next) :
    (∀ i ∈ system.client.earlier, i < start) ∧ (system.client.lags = 0 →
      system.client.current ++ system.client.wire.map Frame.position = List.range' start (next-start)) := by
  cases valid.stage with
  | loading early _ _ _ _ => rcases early with other | other <;> cases phase.symm.trans other
  | waiting other _ _ => cases phase.symm.trans other
  | streaming same _ _ behind heard =>
    cases phase.symm.trans same
    exact ⟨behind,heard.whole⟩

-- The feed is the newest of the events the page has been given, newest first,
-- each once and in the order of the log: the feed it loaded, then what it took
-- from its streams. What was ingested between that load and the first connection
-- is never among them. A stream that has not lagged has left nothing out, and it
-- does not lag while it is within the channel.
theorem feed_follows_the_log (hidden : Bool) (actions : List Action) (system : System)
    (path : Runs (Step channel toLowerCase clock) (.initial hidden) actions system) :
    (system.client.earlier ++ system.client.current).Pairwise (· < ·) ∧
      (∀ i ∈ system.client.earlier ++ system.client.current, i < system.dashboard.live.length) ∧
      system.client.page.feed.map Marked.event =
        (valuesAt system.dashboard.live (system.client.earlier ++ system.client.current)).reverse.take feedCap ∧
      List.range' (system.client.snapshot-initialLimit) (min system.client.snapshot initialLimit) <+: system.client.earlier ∧
      (∀ first, system.client.first = some first → ∀ i ∈ system.client.earlier ++ system.client.current,
        i < system.client.snapshot ∨ first ≤ i) ∧
      ∀ start next, system.client.phase = .streaming start next → (∀ i ∈ system.client.earlier, i < start) ∧
        (system.client.lags = 0 →
          system.client.current ++ system.client.wire.map Frame.position = List.range' start (next-start)) ∧
        (system.dashboard.live.length ≤ next+broadcastCapacity →
          (system.client.send channel system.dashboard.live start next).lags = system.client.lags) := by
  have valid : Followed clock system :=
    Runs.preserves (initial_followed clock hidden) (fun _ _ _ valid taken => step_followed valid taken) path
  refine ⟨valid.inOrder,List.forall_mem_append.mpr ⟨valid.within,current_within valid.stage⟩,valid.feed,valid.shown,
    fun _ connected => valid.sinceConnected connected,?_⟩
  intro start next phase
  obtain ⟨behind,whole⟩ := valid.stream phase
  exact ⟨behind,whole,send_prompt channel system.client⟩

end Protocol

-- An event before the stream is connected and one after: the first is missed.
def lateConnection : List Action :=
  [.ingest typed,.loadKnown true,.loadFeed true,.ingest typed,.connect,.ingest typed,.send,.deliver]

theorem late_connection_run : ∃ system,
    Runs (Step (ringChannel broadcastCapacity) id fun _ => 0) (.initial false) lateConnection system ∧
    system.client.snapshot = 1 ∧ system.client.first = some 2 ∧ system.dashboard.live = [typed,typed,typed] ∧
    system.client.phase = .streaming 2 3 ∧ system.client.wire = [] ∧ system.client.lags = 0 := by
  have typing : Step (ringChannel broadcastCapacity) id (fun _ => 0) (.initial false) (.ingest typed) _ := .ingest
  have loaded := (Runs.one typing |>.snoc (.loadKnown rfl) |>.snoc (.loadFeed rfl) :
    Runs (Step (ringChannel broadcastCapacity) id fun _ => 0) (.initial false) [.ingest typed,.loadKnown true,.loadFeed true] _)
  have connected := (loaded.snoc (.ingest : Step _ id (fun _ => 0) _ (.ingest typed) _)).snoc (.connect rfl)
  have streamed := (connected.snoc (.ingest : Step _ id (fun _ => 0) _ (.ingest typed) _)).snoc (.send rfl)
  exact ⟨_,streamed.snoc (.deliver rfl),rfl,rfl,rfl,rfl,rfl,rfl⟩

theorem late_connection_misses : ∃ system,
    Runs (Step (ringChannel broadcastCapacity) id fun _ => 0) (.initial false) lateConnection system ∧
    system.dashboard.live = [typed,typed,typed] ∧ [0] <+: system.client.earlier ∧ system.client.current = [2] ∧
    1 ∉ system.client.earlier := by
  obtain ⟨system,path,snapshot,first,live,phase,wire,lags⟩ := late_connection_run
  obtain ⟨_,_,_,shown,seam,streams⟩ := feed_follows_the_log false _ system path
  obtain ⟨_,whole,_⟩ := streams 2 3 phase
  have taken := whole lags
  rw [wire,List.map_nil,List.append_nil] at taken
  rw [snapshot] at shown
  refine ⟨system,path,live,shown,taken,fun member => ?_⟩
  have missed := seam 2 first 1 (List.mem_append_left _ member)
  rw [snapshot] at missed
  omega

end AegisHoneypot.LiveFeed
