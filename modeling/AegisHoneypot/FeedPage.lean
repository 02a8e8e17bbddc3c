import AegisHoneypot.FeedMarkup
import AegisHoneypot.EventJson
import AegisHoneypot.DashboardStore
import AegisHoneypot.Library.Transition

-- The live feed of the page: what `pushEvents` does with events that arrive,
-- and the one render it schedules for any number of them.
namespace AegisHoneypot.FeedPage
open DashboardStore FeedMarkup Utf16Text Transition

def feedCap : Nat := 500
def shownRows : Nat := 200
def shownPayloads : Nat := 50

structure Known where
  usernames : Finset String
  passwords : Finset String
  commands : Finset String

def Known.empty : Known := ⟨∅,∅,∅⟩

def Known.add (known more : Known) : Known :=
  ⟨known.usernames ∪ more.usernames,known.passwords ∪ more.passwords,known.commands ∪ more.commands⟩

-- An event object with the marks the page has put on it.
structure Marked where
  event : TelemetryEvent
  novelty : Novelty

def markNovelty (known : Known) : TelemetryEvent → Novelty × Known
  | .commandRun e =>
    (⟨decide (e.command ∉ known.commands),false,false⟩,{known with commands := insert e.command known.commands})
  | .credentialHarvest e =>
    let named := {known with usernames := insert e.username known.usernames}
    match e.password with
    | none => (⟨false,decide (e.username ∉ known.usernames),false⟩,named)
    | some password =>
      (⟨false,decide (e.username ∉ known.usernames),decide (password ∉ known.passwords)⟩,
        {named with passwords := insert password known.passwords})
  | _ => (⟨false,false,false⟩,known)

-- `events.forEach(markNovelty)`
def markAll (known : Known) : List TelemetryEvent → List Marked × Known
  | [] => ([],known)
  | event :: rest =>
    let marked := markNovelty known event
    let later := markAll marked.2 rest
    (⟨event,marked.1⟩ :: later.1,later.2)

structure Filter where
  kind : String
  ip : Option Text
  search : Text

def Filter.none : Filter := ⟨"",Option.none,[]⟩

-- `[...].filter(Boolean).join(' ')`, of the fields an event has.
def searched (event : TelemetryEvent) : List Text :=
  let own : List (Option String) := match event with
    | .commandRun e => [some e.command]
    | .credentialHarvest e => [some e.username,e.password]
    | _ => []
  let url : Option String := match event with
    | .payloadCaptured e => e.sourceUrl
    | _ => none
  (own.map (fun text => (text.getD "").toList) ++
    [AddressText.toText (eventIp event),event.sessionId.toList,(url.getD "").toList]).filter (fun text => !text.isEmpty)

def matchesSearch (toLowerCase : Text → Text) (event : TelemetryEvent) (needle : Text) : Bool :=
  needle.isEmpty || decide (needle <:+: toLowerCase (List.intercalate [' '] (searched event)))

def Filter.keeps (toLowerCase : Text → Text) (filter : Filter) (event : TelemetryEvent) : Bool :=
  (filter.kind == "" || EventJson.tag event == filter.kind) &&
    filter.ip.all (fun ip => AddressText.toText (eventIp event) == ip) &&
    matchesSearch toLowerCase event (toLowerCase filter.search)

abbrev Place := Option String × Option String

structure Row where
  event : TelemetryEvent
  geo : Text
  detail : Units

-- What the tables on the page were last drawn as.
structure Screen where
  rows : List Row
  freshRows : Nat
  payloads : List Marked

-- `frames` and `timers` are the callbacks of `flushRender` the browser holds;
-- `renderTimer` tells whether the variable of that name is set.
structure Page where
  known : Known
  feed : List Marked
  sessionGeo : KeyTable String Place
  filter : Filter
  hidden : Bool
  renderScheduled : Bool
  renderTimer : Bool
  pendingFreshCount : Nat
  frames : Nat
  timers : Nat
  screen : Screen

def Page.initial (hidden : Bool) : Page := ⟨.empty,[],∅,.none,hidden,false,false,0,0,0,⟨[],0,[]⟩⟩

def geoLabel (sessionGeo : KeyTable String Place) (sessionId : String) : Text :=
  match sessionGeo.lookup sessionId with
  | some (some country,city) =>
    if country = "" then [] else match city with
    | some city => if city = "" then country.toList else city.toList ++ ", ".toList ++ country.toList
    | none => country.toList
  | _ => []

def placed (sessionGeo : KeyTable String Place) : TelemetryEvent → KeyTable String Place
  | .sessionStart e => match e.geo with
    | some geo => sessionGeo.insert e.sessionId (geo.country,geo.city)
    | none => sessionGeo
  | _ => sessionGeo

def isPayload : TelemetryEvent → Bool
  | .payloadCaptured _ => true
  | _ => false

section Page
variable (toLowerCase : Text → Text)

def Page.row (page : Page) (marked : Marked) : Option Row :=
  (eventDetail marked.novelty marked.event).map (⟨marked.event,geoLabel page.sessionGeo marked.event.sessionId,·⟩)

-- The rows of `renderFeed`, or nothing where a detail throws.
def Page.table (page : Page) : Option (List Row) :=
  ((page.feed.filter (fun marked => page.filter.keeps toLowerCase marked.event)).take shownRows).mapM page.row

def Page.payloadItems (page : Page) : List Marked :=
  (page.feed.filter (fun marked => isPayload marked.event)).take shownPayloads

def Page.renderFeed (page : Page) (freshCount : Nat) : Page :=
  match page.table toLowerCase with
  | some rows => {page with screen := {page.screen with rows := rows,freshRows := freshCount}}
  | none => page

-- `renderPayloads` is not reached when `renderFeed` throws.
def Page.flushRender (page : Page) : Page :=
  let idle := {page with renderScheduled := false,renderTimer := false,pendingFreshCount := 0}
  match idle.table toLowerCase with
  | some rows => {idle with screen := ⟨rows,page.pendingFreshCount,idle.payloadItems⟩}
  | none => idle

def Page.schedule (page : Page) : Page :=
  if page.renderScheduled then page
  else if page.hidden then {page with renderScheduled := true,renderTimer := true,timers := page.timers+1}
  else {page with renderScheduled := true,frames := page.frames+1}

def Page.pushEvents (page : Page) (events : List TelemetryEvent) (fresh : Bool) : Page :=
  if events = [] then page else
  let marked := markAll page.known events
  Page.schedule {page with
    known := marked.2
    feed := (marked.1 ++ page.feed).take feedCap
    sessionGeo := events.foldl placed page.sessionGeo
    pendingFreshCount := if fresh then page.pendingFreshCount+events.length else page.pendingFreshCount}

inductive Action where
  | push (events : List TelemetryEvent) (fresh : Bool)
  | frame
  | timer
  | visibility (hidden : Bool)
  | filter (filter : Filter)

-- A hidden page gets no frames.
inductive Step : Page → Action → Page → Prop where
  | push : Step page (.push events fresh) (page.pushEvents events fresh)
  | frame : page.hidden = false → 0 < page.frames → Step page .frame (Page.flushRender toLowerCase {page with frames := page.frames-1})
  | timer : 0 < page.timers → Step page .timer (Page.flushRender toLowerCase {page with timers := page.timers-1})
  | refocus : page.renderTimer = true → Step page (.visibility false)
      (Page.flushRender toLowerCase {page with hidden := false,timers := page.timers-1})
  | visibility : unseen = true ∨ page.renderTimer = false → Step page (.visibility unseen) {page with hidden := unseen}
  | filter : Step page (.filter filter) (Page.renderFeed toLowerCase {page with filter := filter} 0)

def Page.Drawable (page : Page) : Prop := ∀ marked ∈ page.feed, (eventDetail marked.novelty marked.event).isSome = true

-- Only a session's duration can stop a drawing, where it is no number that JSON
-- can write.
theorem drawable_iff (page : Page) : page.Drawable ↔
    ∀ marked ∈ page.feed, ∀ ended, marked.event = .sessionEnd ended → ended.durationSecs.isFinite = true := by
  refine forall₂_congr ?_
  intro marked _
  cases marked.event with
  | sessionEnd ended =>
    cases finite : ended.durationSecs.isFinite with
    | true => simp [eventDetail,finite]
    | false => simp [eventDetail,finite]
  | _ => simp [eventDetail]

-- The tables show the feed as it is.
def Page.UpToDate (page : Page) : Prop := page.table toLowerCase = some page.screen.rows ∧ page.screen.payloads = page.payloadItems

structure Page.Sound (page : Page) : Prop where
  pending : page.renderScheduled = true → page.frames + page.timers = 1
  idle : page.renderScheduled = false → page.frames + page.timers = 0 ∧ (page.Drawable → page.UpToDate toLowerCase)
  timer : page.renderTimer = true ↔ page.timers = 1

variable {toLowerCase}

theorem initial_sound (hidden : Bool) : (Page.initial hidden).Sound toLowerCase where
  pending := nofun
  idle := fun _ => ⟨rfl,fun _ => ⟨rfl,rfl⟩⟩
  timer := by simp [Page.initial]

theorem table_drawn (toLowerCase : Text → Text) (drawable : Page.Drawable page) : ∃ rows, page.table toLowerCase = some rows := by
  have every : ∀ list : List Marked, (∀ marked ∈ list, (eventDetail marked.novelty marked.event).isSome = true) →
      ∃ rows, list.mapM page.row = some rows := by
    intro list
    induction list with
    | nil => exact fun _ => ⟨[],rfl⟩
    | cons marked rest ih =>
      intro drawn
      rw [List.forall_mem_cons] at drawn
      obtain ⟨detail,found⟩ := Option.isSome_iff_exists.mp drawn.1
      obtain ⟨rows,drawnRest⟩ := ih drawn.2
      refine ⟨⟨marked.event,geoLabel page.sessionGeo marked.event.sessionId,detail⟩ :: rows,?_⟩
      simp [List.mapM_cons,Page.row,found,drawnRest]
  exact every _ (fun marked member => drawable marked (List.mem_of_mem_filter (List.mem_of_mem_take member)))

theorem flush_upToDate (toLowerCase : Text → Text) (page : Page) (drawable : (page.flushRender toLowerCase).Drawable) :
    (page.flushRender toLowerCase).UpToDate toLowerCase := by
  have kept : page.Drawable := by
    unfold Page.flushRender at drawable
    dsimp only at drawable
    split at drawable
    · exact drawable
    · exact drawable
  obtain ⟨rows,drawn⟩ := table_drawn toLowerCase kept
  have same : Page.table toLowerCase {page with renderScheduled := false,renderTimer := false,pendingFreshCount := 0} = some rows := drawn
  unfold Page.flushRender
  dsimp only
  rw [same]
  exact ⟨drawn,rfl⟩

theorem flush_sound (page : Page) (last : page.frames + page.timers = 0) : (page.flushRender toLowerCase).Sound toLowerCase := by
  have drawn := flush_upToDate toLowerCase page
  have calm : (page.flushRender toLowerCase).renderScheduled = false ∧ (page.flushRender toLowerCase).renderTimer = false ∧
      (page.flushRender toLowerCase).frames = page.frames ∧ (page.flushRender toLowerCase).timers = page.timers := by
    unfold Page.flushRender
    dsimp only
    split
    · exact ⟨rfl,rfl,rfl,rfl⟩
    · exact ⟨rfl,rfl,rfl,rfl⟩
  obtain ⟨unscheduled,unset,frames,timers⟩ := calm
  refine ⟨?_,?_,?_⟩
  · rw [unscheduled]
    nofun
  · rw [frames,timers]
    exact fun _ => ⟨last,drawn⟩
  · rw [unset,timers]
    exact ⟨nofun,fun one => by omega⟩

theorem schedule_sound (page : Page) (pending : page.renderScheduled = true → page.frames + page.timers = 1)
    (idle : page.renderScheduled = false → page.frames + page.timers = 0) (timer : page.renderTimer = true ↔ page.timers = 1) :
    page.schedule.Sound toLowerCase := by
  unfold Page.schedule
  split
  · rename_i scheduled
    refine ⟨fun _ => pending scheduled,?_,timer⟩
    rw [scheduled]
    nofun
  · rename_i free
    rw [Bool.not_eq_true] at free
    have none := idle free
    split
    · refine ⟨fun _ => ?_,nofun,fun _ => ?_,fun _ => rfl⟩
      · dsimp only
        omega
      · dsimp only
        omega
    · refine ⟨fun _ => by dsimp only; omega,nofun,?_⟩
      dsimp only
      exact timer

theorem push_sound (valid : Page.Sound toLowerCase page) (events : List TelemetryEvent) (fresh : Bool) :
    (page.pushEvents events fresh).Sound toLowerCase := by
  unfold Page.pushEvents
  split
  · exact valid
  · exact schedule_sound _ valid.pending (fun free => (valid.idle free).1) valid.timer

theorem filter_sound (valid : Page.Sound toLowerCase page) (filter : Filter) :
    (Page.renderFeed toLowerCase {page with filter := filter} 0).Sound toLowerCase := by
  have redrawn : page.renderScheduled = false → Page.Drawable page → page.screen.payloads = page.payloadItems :=
    fun free drawable => ((valid.idle free).2 drawable).2
  unfold Page.renderFeed
  split
  · rename_i rows drawn
    exact ⟨valid.pending,fun free => ⟨(valid.idle free).1,fun drawable => ⟨drawn,redrawn free drawable⟩⟩,valid.timer⟩
  · rename_i thrown
    refine ⟨valid.pending,fun free => ⟨(valid.idle free).1,?_⟩,valid.timer⟩
    intro drawable
    obtain ⟨rows,drawn⟩ := table_drawn toLowerCase drawable
    cases thrown.symm.trans drawn

theorem step_sound (valid : Page.Sound toLowerCase before) (taken : Step toLowerCase before action after) :
    after.Sound toLowerCase := by
  have scheduled : 0 < before.frames + before.timers → before.frames + before.timers = 1 := by
    intro some
    cases free : before.renderScheduled with
    | true => exact valid.pending free
    | false =>
      have none := (valid.idle free).1
      omega
  cases taken with
  | push => exact push_sound valid _ _
  | frame _ held =>
    refine flush_sound _ ?_
    have one := scheduled (by omega)
    dsimp only
    omega
  | timer held =>
    refine flush_sound _ ?_
    have one := scheduled (by omega)
    dsimp only
    omega
  | refocus set =>
    refine flush_sound _ ?_
    have held := valid.timer.mp set
    have one := scheduled (by omega)
    dsimp only
    omega
  | visibility _ => exact ⟨valid.pending,valid.idle,valid.timer⟩
  | filter => exact filter_sound valid _

-- While a frame is waiting and the page is hidden, nothing but a filter draws.
structure Page.Frozen (page : Page) : Prop where
  hidden : page.hidden = true
  scheduled : page.renderScheduled = true
  noTimer : page.timers = 0 ∧ page.renderTimer = false

def Action.isPush : Action → Bool
  | .push _ _ => true
  | _ => false

def Action.isUser : Action → Bool
  | .visibility hidden => !hidden
  | .filter _ => true
  | _ => false

theorem step_frozen (frozen : Page.Frozen before) (taken : Step toLowerCase before action after)
    (left : action.isUser = false) : after.Frozen ∧ after.screen = before.screen := by
  obtain ⟨hidden,scheduled,timers,unset⟩ := frozen
  cases taken with
  | push =>
    unfold Page.pushEvents
    split
    · exact ⟨⟨hidden,scheduled,timers,unset⟩,rfl⟩
    · unfold Page.schedule
      dsimp only
      rw [if_pos scheduled]
      exact ⟨⟨hidden,scheduled,timers,unset⟩,rfl⟩
  | frame visible _ => cases hidden.symm.trans visible
  | timer held => omega
  | refocus _ => cases left
  | visibility change =>
    rw [Action.isUser,Bool.not_eq_false'] at left
    exact ⟨⟨left,scheduled,timers,unset⟩,rfl⟩
  | filter => cases left

-- Any number of pushes waits for one callback, and when none is waiting the
-- tables show the feed. A callback always draws it. A frame that was asked for
-- before the page was hidden does not come, and holds up every push until the
-- operator looks again.
theorem pushes_share_one_render (hidden : Bool) (actions : List Action) (page : Page)
    (path : Runs (Step toLowerCase) (.initial hidden) actions page) :
    (page.renderScheduled = true → page.frames + page.timers = 1) ∧
      (page.renderScheduled = false → page.frames + page.timers = 0 ∧ (page.Drawable → page.UpToDate toLowerCase)) ∧
      (∀ action next, action = .frame ∨ action = .timer → Step toLowerCase page action next → next.Drawable →
        next.UpToDate toLowerCase ∧ next.frames + next.timers = 0) ∧
      (page.hidden = true → page.frames = 1 → ∀ later next, (∀ action ∈ later, action.isUser = false) →
        Runs (Step toLowerCase) page later next → next.screen = page.screen) := by
  have valid : page.Sound toLowerCase :=
    Runs.preserves (initial_sound hidden) (fun _ _ _ valid taken => step_sound valid taken) path
  refine ⟨valid.pending,valid.idle,?_,?_⟩
  · intro action next callback taken drawable
    have after := step_sound valid taken
    have drawn : next.renderScheduled = false := by
      rcases callback with rfl | rfl
      · cases taken
        unfold Page.flushRender
        dsimp only
        split <;> rfl
      · cases taken
        unfold Page.flushRender
        dsimp only
        split <;> rfl
    exact ⟨(after.idle drawn).2 drawable,(after.idle drawn).1⟩
  · intro unseen waiting later next unattended path
    have scheduled : page.renderScheduled = true := by
      by_contra free
      rw [Bool.not_eq_true] at free
      have none := (valid.idle free).1
      omega
    have alone := valid.pending scheduled
    have noTimer : page.timers = 0 := by omega
    have unset : page.renderTimer = false := by
      by_contra set
      rw [Bool.not_eq_false] at set
      have held := valid.timer.mp set
      omega
    have still : next.Frozen ∧ next.screen = page.screen := by
      induction path with
      | nil => exact ⟨⟨unseen,scheduled,noTimer,unset⟩,rfl⟩
      | snoc _ taken ih =>
        rw [List.forall_mem_append] at unattended
        obtain ⟨frozen,same⟩ := ih unattended.1
        obtain ⟨frozenNext,sameNext⟩ := step_frozen frozen taken (unattended.2 _ (by simp))
        exact ⟨frozenNext,sameNext.trans same⟩
    exact still.2

end Page

def typed : TelemetryEvent := .commandRun ⟨0,"a1b2c3d4e5f6",.v4 192 0 2 7,"uname -a"⟩

theorem hidden_page_freezes : ∃ page, Runs (Step id) (.initial false) [.push [typed] true,.visibility true] page ∧
    page.hidden = true ∧ page.frames = 1 ∧ ∀ later next, (∀ action ∈ later, action.isUser = false) →
      Runs (Step id) page later next → next.screen = page.screen := by
  have path : Runs (Step id) (.initial false) [.push [typed] true,.visibility true]
      {(Page.initial false).pushEvents [typed] true with hidden := true} :=
    (Runs.one .push).snoc (.visibility (.inl rfl))
  exact ⟨_,path,rfl,rfl,(pushes_share_one_render false _ _ path).2.2.2 rfl rfl⟩

end AegisHoneypot.FeedPage
