import AegisHoneypot.ReplayFidelity
import AegisHoneypot.Library.Transition

-- The player behind the session window: buttons, the timer of the next record,
-- and recordings that arrive when they arrive.
namespace AegisHoneypot.ReplayPlayer
open Utf16Text SessionRecording TerminalReplay ReplayScreen Transition

-- The times and the speed decide only when a timer fires, and are left out.
structure Replay where
  events : List Units
  idx : Nat
  timer : Option Nat
  playing : Bool
  buf : TerminalBuffer

-- `pending` are the timers the browser holds, `nextId` the id of the next one.
structure Player where
  replayState : Option Replay
  screen : Units
  pending : List Nat
  nextId : Nat

def Player.initial : Player := ⟨none,[],[],1⟩

def render (buffer : TerminalBuffer) : Units := List.intercalate [0x0a] buffer.lines

def clearTimeout (timer : Option Nat) (pending : List Nat) : List Nat :=
  pending.filter (fun due => decide (timer ≠ some due))

def pauseReplay (player : Player) : Player :=
  match player.replayState with
  | none => player
  | some rs => {player with
      replayState := some {rs with playing := false}
      pending := clearTimeout rs.timer player.pending}

def stepReplay (player : Player) : Player :=
  match player.replayState with
  | none => player
  | some rs => match rs.events[rs.idx]? with
    | none => pauseReplay player
    | some ev =>
      let buf := rs.buf.write ev
      let shown := {player with replayState := some {rs with buf := buf,idx := rs.idx+1},screen := render buf}
      if rs.idx+1 < rs.events.length then {shown with
        replayState := some {rs with buf := buf,idx := rs.idx+1,timer := some player.nextId}
        pending := player.pending ++ [player.nextId]
        nextId := player.nextId+1}
      else pauseReplay shown

def playReplay (player : Player) : Player :=
  match player.replayState with
  | none => player
  | some rs => stepReplay {player with replayState := some {rs with playing := true}}

def playPause (player : Player) : Player :=
  match player.replayState with
  | none => player
  | some rs => if rs.playing then pauseReplay player else playReplay player

def restart (player : Player) : Player :=
  match (pauseReplay player).replayState with
  | none => player
  | some rs => {pauseReplay player with
      replayState := some {rs with idx := 0,buf := makeTerminalBuffer}
      screen := []}

def closeModal (player : Player) : Player :=
  match player.replayState with
  | none => player
  | some rs => {player with replayState := none,pending := clearTimeout rs.timer player.pending}

def noVisualOutput : Units := ofText "(recording has no visual output to replay)".toList

def setupReplay (castText : Text) (player : Player) : Player :=
  let events := parseCast castText
  if events = [] then {player with screen := noVisualOutput}
  else {player with replayState := some ⟨events,0,none,false,makeTerminalBuffer⟩,screen := []}

-- `message` is what the window shows for a recording that could not be fetched.
inductive Action where
  | openModal
  | closeModal
  | load (castText : Text)
  | unavailable (message : Units)
  | playPause
  | restart
  | timer

inductive Step : Player → Action → Player → Prop where
  | openModal : Step player .openModal {player with screen := []}
  | closeModal : Step player .closeModal (ReplayPlayer.closeModal player)
  | load : Step player (.load castText) (setupReplay castText player)
  | unavailable : Step player (.unavailable message) {player with screen := message}
  | playPause : Step player .playPause (ReplayPlayer.playPause player)
  | restart : Step player .restart (ReplayPlayer.restart player)
  | timer : due ∈ player.pending → Step player .timer (stepReplay {player with pending := player.pending.erase due})

-- No recording comes in over one that is playing.
def OneAtATime (before : Player) (action : Action) (after : Player) : Prop :=
  Step before action after ∧ ∀ castText, action = .load castText → before.pending = []

structure Replay.Sound (rs : Replay) : Prop where
  within : rs.idx ≤ rs.events.length
  written : rs.buf = play (rs.events.take rs.idx)

-- What is playing has one timer, and it is the one the player knows.
inductive Player.Sound (player : Player) : Prop where
  | closed : player.replayState = none → player.pending = [] → Player.Sound player
  | paused : player.replayState = some rs → rs.Sound → rs.playing = false → player.pending = [] → Player.Sound player
  | playing : player.replayState = some rs → rs.Sound → rs.playing = true → rs.timer = some due → player.pending = [due] →
      rs.idx < rs.events.length → Player.Sound player

theorem initial_sound : Player.initial.Sound := .closed rfl rfl

theorem clear_none (timer : Option Nat) : clearTimeout timer [] = [] := rfl

theorem clear_own (due : Nat) : clearTimeout (some due) [due] = [] := by simp [clearTimeout]

theorem next_sound {rs : Replay} (valid : rs.Sound) (present : rs.events[rs.idx]? = some ev) :
    rs.idx < rs.events.length ∧ rs.buf.write ev = play (rs.events.take (rs.idx+1)) := by
  obtain ⟨inside,same⟩ := List.getElem?_eq_some_iff.mp present
  refine ⟨inside,?_⟩
  rw [List.take_succ_eq_append_getElem inside,play_append,same,valid.written]

-- A step of a replay with no timer left: it writes the next record and asks for
-- one timer, unless that was the last.
theorem stepReplay_spec {rs : Replay} (state : player.replayState = some rs) (valid : rs.Sound) (idle : player.pending = [])
    (playing : rs.playing = true) : (stepReplay player).Sound ∧
      (rs.idx < rs.events.length → ∃ after, (stepReplay player).replayState = some after ∧ after.events = rs.events ∧
        after.idx = rs.idx+1 ∧ (stepReplay player).screen = render (play (rs.events.take (rs.idx+1))) ∧
        (after.playing = true ↔ rs.idx+1 < rs.events.length)) := by
  unfold stepReplay
  rw [state]
  dsimp only
  cases present : rs.events[rs.idx]? with
  | none =>
    have ended : rs.events.length ≤ rs.idx := List.getElem?_eq_none_iff.mp present
    refine ⟨?_,fun inside => absurd inside (Nat.not_lt.mpr ended)⟩
    dsimp only [pauseReplay]
    rw [state]
    exact .paused rfl ⟨valid.within,valid.written⟩ rfl (by dsimp only; rw [idle,clear_none])
  | some ev =>
    obtain ⟨inside,written⟩ := next_sound valid present
    dsimp only
    split
    · rename_i more
      refine ⟨.playing rfl ⟨inside,written⟩ playing rfl (by dsimp only; rw [idle]; rfl) more,fun _ => ?_⟩
      exact ⟨_,rfl,rfl,rfl,congrArg render written,⟨fun _ => more,fun _ => playing⟩⟩
    · rename_i last
      refine ⟨.paused rfl ⟨inside,written⟩ rfl (by dsimp only [pauseReplay]; rw [idle,clear_none]),fun _ => ?_⟩
      exact ⟨_,rfl,rfl,rfl,congrArg render written,⟨nofun,fun more => absurd more last⟩⟩

theorem pause_sound (valid : Player.Sound player) : (pauseReplay player).Sound := by
  cases valid with
  | closed state idle =>
    rw [pauseReplay,state]
    exact .closed state idle
  | paused state sound _ idle =>
    rw [pauseReplay,state]
    exact .paused rfl ⟨sound.within,sound.written⟩ rfl (by dsimp only; rw [idle,clear_none])
  | playing state sound _ timer pending _ =>
    rw [pauseReplay,state]
    exact .paused rfl ⟨sound.within,sound.written⟩ rfl (by dsimp only; rw [pending,timer,clear_own])

theorem close_sound (valid : Player.Sound player) : (closeModal player).Sound := by
  cases valid with
  | closed state idle =>
    rw [closeModal,state]
    exact .closed state idle
  | paused state _ _ idle =>
    rw [closeModal,state]
    exact .closed rfl (by dsimp only; rw [idle,clear_none])
  | playing state _ _ timer pending _ =>
    rw [closeModal,state]
    exact .closed rfl (by dsimp only; rw [pending,timer,clear_own])

-- Pressing play with no timer set shows a record at once.
theorem play_sound {rs : Replay} (state : player.replayState = some rs) (valid : rs.Sound) (idle : player.pending = []) :
    (playReplay player).Sound := by
  rw [playReplay,state]
  have on : {rs with playing := true}.Sound := ⟨valid.within,valid.written⟩
  exact (@stepReplay_spec {player with replayState := some {rs with playing := true}} _ rfl on idle rfl).1

theorem restart_sound (valid : Player.Sound player) : (restart player).Sound := by
  unfold restart
  cases valid with
  | closed state idle =>
    have same : pauseReplay player = player := by rw [pauseReplay,state]
    rw [same,state]
    exact .closed state idle
  | paused state sound off idle =>
    simp only [pauseReplay,state]
    exact .paused rfl ⟨Nat.zero_le _,rfl⟩ rfl (by dsimp only; rw [idle,clear_none])
  | playing state sound _ timer pending _ =>
    simp only [pauseReplay,state]
    exact .paused rfl ⟨Nat.zero_le _,rfl⟩ rfl (by dsimp only; rw [pending,timer,clear_own])

-- What only changes the screen leaves the player as sound as it was.
theorem Player.Sound.shows (valid : Player.Sound player) (screen : Units) : Player.Sound {player with screen := screen} := by
  cases valid with
  | closed state idle => exact .closed state idle
  | paused state sound off idle => exact .paused state sound off idle
  | playing state sound on timer pending more => exact .playing state sound on timer pending more

theorem setup_sound (valid : Player.Sound player) (idle : player.pending = []) : (setupReplay castText player).Sound := by
  unfold setupReplay
  dsimp only
  split
  · exact valid.shows _
  · exact .paused rfl ⟨Nat.zero_le _,rfl⟩ rfl idle

-- The timer that fires is the only one, so the step it makes sets one again.
theorem timer_sound (valid : Player.Sound player) (due : Nat) (fires : due ∈ player.pending) :
    (stepReplay {player with pending := player.pending.erase due}).Sound := by
  cases valid with
  | closed _ idle => rw [idle] at fires; cases fires
  | paused _ _ _ idle => rw [idle] at fires; cases fires
  | playing state sound on _ pending _ =>
    rw [pending,List.mem_singleton] at fires
    subst fires
    have none : player.pending.erase due = [] := by rw [pending,List.erase_cons_head]
    exact (@stepReplay_spec {player with pending := player.pending.erase due} _ state sound none on).1

theorem step_sound (valid : Player.Sound before) (step : OneAtATime before action after) : after.Sound := by
  obtain ⟨taken,alone⟩ := step
  cases taken with
  | openModal => exact valid.shows _
  | closeModal => exact close_sound valid
  | load => exact setup_sound valid (alone _ rfl)
  | unavailable => exact valid.shows _
  | playPause =>
    unfold ReplayPlayer.playPause
    cases valid with
    | closed state idle =>
      rw [state]
      exact .closed state idle
    | paused state sound off idle =>
      simp only [state,off]
      exact play_sound state sound idle
    | playing state sound on timer pending more =>
      have valid : Player.Sound before := .playing state sound on timer pending more
      simp only [state,on]
      exact pause_sound valid
  | restart => exact restart_sound valid
  | timer fires => exact timer_sound valid _ fires

theorem run_sound (run : Runs OneAtATime .initial actions player) : player.Sound :=
  run.preserves initial_sound (fun _ _ _ valid step => step_sound valid step)

theorem Player.Sound.replay {rs : Replay} (valid : Player.Sound player) (state : player.replayState = some rs) :
    rs.Sound ∧ (rs.playing = true → ∃ due, player.pending = [due] ∧ rs.idx < rs.events.length) ∧
      (rs.playing = false → player.pending = []) := by
  cases valid with
  | closed none _ => cases state.symm.trans none
  | paused same sound off idle =>
    cases state.symm.trans same
    exact ⟨sound,fun on => (by rw [off] at on; cases on),fun _ => idle⟩
  | playing same sound on _ pending more =>
    cases state.symm.trans same
    exact ⟨sound,fun _ => ⟨_,pending,more⟩,fun off => (by rw [on] at off; cases off)⟩

-- After `n` timers in a row.
structure Played (rs : Replay) (n : Nat) (player : Player) (after : Replay) : Prop where
  state : player.replayState = some after
  sound : player.Sound
  events : after.events = rs.events
  idx : after.idx = rs.idx+n
  within : rs.idx+n ≤ rs.events.length
  playing : after.playing = true ↔ rs.idx+n < rs.events.length
  screen : 0 < n → player.screen = render (play (rs.events.take (rs.idx+n)))

-- A timer can only fire while records are left, and shows the next one.
theorem played_next {rs : Replay} (played : Played rs n player after) (fires : due ∈ player.pending) :
    ∃ next, Played rs (n+1) (stepReplay {player with pending := player.pending.erase due}) next := by
  obtain ⟨state,valid,events,idx,within,playing,_⟩ := played
  obtain ⟨sound,on,off⟩ := valid.replay state
  cases turned : after.playing with
  | false =>
    rw [off turned] at fires
    cases fires
  | true =>
    obtain ⟨only,pending,more⟩ := on turned
    rw [pending,List.mem_singleton] at fires
    subst fires
    have none : player.pending.erase due = [] := by rw [pending,List.erase_cons_head]
    obtain ⟨still,spec⟩ := @stepReplay_spec {player with pending := player.pending.erase due} _ state sound none turned
    obtain ⟨next,same,kept,moved,shown,goesOn⟩ := spec more
    have place : after.idx+1 = rs.idx+(n+1) := by omega
    rw [events,place] at shown goesOn
    rw [events,idx] at more
    exact ⟨next,same,still,kept.trans events,moved.trans place,more,goesOn,fun _ => shown⟩

theorem played_run {rs : Replay} (valid : Player.Sound player) (state : player.replayState = some rs) (on : rs.playing = true)
    (run : Runs Step player (List.replicate n .timer) later) : ∃ after, Played rs n later after := by
  induction n generalizing later with
  | zero =>
    obtain rfl := run.stays
    obtain ⟨_,_,more⟩ := (valid.replay state).2.1 on
    exact ⟨rs,state,valid,rfl,rfl,Nat.le_of_lt more,⟨fun _ => more,fun _ => on⟩,fun positive => absurd positive (Nat.lt_irrefl 0)⟩
  | succ n ih =>
    rw [List.replicate_succ'] at run
    obtain ⟨middle,earlier,step⟩ := run.last
    obtain ⟨after,played⟩ := ih earlier
    cases step with
    | timer fires => exact played_next played fires

theorem timers_fire {rs : Replay} (valid : Player.Sound player) (state : player.replayState = some rs) (on : rs.playing = true)
    (within : rs.idx+n ≤ rs.events.length) : ∃ later, Runs Step player (List.replicate n .timer) later := by
  induction n with
  | zero => exact ⟨player,.nil⟩
  | succ n ih =>
    obtain ⟨middle,run⟩ := ih (by omega)
    obtain ⟨after,played⟩ := played_run valid state on run
    have going : after.playing = true := played.playing.mpr (by omega)
    obtain ⟨due,pending,_⟩ := (played.sound.replay played.state).2.1 going
    rw [List.replicate_succ']
    have fires : due ∈ middle.pending := by
      rw [pending]
      exact List.mem_singleton_self due
    exact ⟨_,run.snoc (.timer fires)⟩

-- However the buttons are pressed: the buffer holds the records shown so far,
-- what is paused or closed has no timer left, and what is playing shows one
-- record more at each timer until it has shown them all.
theorem replay_plays_through (run : Runs OneAtATime .initial actions player) :
    (player.replayState = none → player.pending = []) ∧
    ∀ rs, player.replayState = some rs →
      rs.idx ≤ rs.events.length ∧ rs.buf = play (rs.events.take rs.idx) ∧
      (rs.playing = false → player.pending = []) ∧
      (rs.playing = true → ∀ n, (rs.idx+n ≤ rs.events.length ↔ ∃ later, Runs Step player (List.replicate n .timer) later) ∧
        ∀ later, Runs Step player (List.replicate n .timer) later → 0 < n →
          later.screen = render (play (rs.events.take (rs.idx+n))) ∧ (later.pending = [] ↔ rs.idx+n = rs.events.length)) := by
  have valid := run_sound run
  constructor
  · intro closed
    cases valid with
    | closed _ idle => exact idle
    | paused state => cases closed.symm.trans state
    | playing state => cases closed.symm.trans state
  · intro rs state
    obtain ⟨sound,_,off⟩ := valid.replay state
    refine ⟨sound.within,sound.written,off,fun on n => ⟨⟨timers_fire valid state on,?_⟩,?_⟩⟩
    · rintro ⟨later,fired⟩
      obtain ⟨after,played⟩ := played_run valid state on fired
      exact played.within
    · intro later fired positive
      obtain ⟨after,played⟩ := played_run valid state on fired
      obtain ⟨_,going,ended⟩ := played.sound.replay played.state
      refine ⟨played.screen positive,fun idle => ?_,fun all => ended ?_⟩
      · by_contra more
        obtain ⟨_,pending,_⟩ := going (played.playing.mpr (Nat.lt_of_le_of_ne played.within more))
        rw [pending] at idle
        cases idle
      · rw [Bool.eq_false_iff]
        exact fun on => absurd (played.playing.mp on) (by omega)

def twoRecords : Text := "\x7b\x7d\n[0.1,\"o\",\"a\"]\n[0.2,\"o\",\"b\"]\n".toList

def twoLoaded : Player := setupReplay twoRecords {Player.initial with screen := []}

theorem two_parsed : parseCast twoRecords = [[0x61],[0x62]] := by decide +kernel

theorem two_playing : (playPause twoLoaded).replayState = some ⟨[[0x61],[0x62]],1,some 1,true,play [[0x61]]⟩ := by
  rw [twoLoaded,setupReplay,two_parsed]
  rfl

theorem two_run : Runs OneAtATime .initial [.openModal,.load twoRecords,.playPause] (playPause twoLoaded) := by
  have opened : OneAtATime .initial .openModal {Player.initial with screen := []} := ⟨.openModal,nofun⟩
  have loaded : OneAtATime {Player.initial with screen := []} (.load twoRecords) twoLoaded := ⟨.load,fun _ _ => rfl⟩
  exact ((Runs.one opened).snoc loaded).snoc ⟨.playPause,nofun⟩

-- One press of play shows the first record, and one timer later all is shown.
theorem two_records_play : ∃ later, Runs Step (playPause twoLoaded) [.timer] later ∧
    later.screen = [0x61,0x62] ∧ later.pending = [] := by
  obtain ⟨_,_,_,on⟩ := (replay_plays_through two_run).2 _ two_playing
  obtain ⟨fires,shown⟩ := on rfl 1
  obtain ⟨later,fired⟩ := fires.mp (by decide)
  obtain ⟨screen,ended⟩ := shown later fired (by decide)
  exact ⟨later,fired,screen,ended.mpr rfl⟩

end AegisHoneypot.ReplayPlayer
