import AegisHoneypot.GoldenRootfs
import AegisHoneypot.MergedView
import AegisHoneypot.SessionIsolation
import AegisHoneypot.Library.SharedProvisioning

-- What the sessions of a gateway see of its image, whatever they do, on a host that
-- refuses the overlay mount. Every visitor has the image laid again first, call by
-- call, while others use it.
namespace AegisHoneypot.GoldenSessions
open FileTree Utf8Text OverlaySandbox Provisioning Vfs MergedView SessionIsolation GoldenRootfs

-- What is open on one disk, by the ids of the sessions: how far the image has been
-- laid for those that come, and the shells of those that are there.
structure House where
  tree : Tree
  crew : Text → Option Progress
  vfs : Text → Option VirtualFileSystem

def House.opened (tree : Tree) : House := ⟨tree,fun _ => none,fun _ => none⟩

def House.session (house : House) (vfs : VirtualFileSystem) : VfsState Disk := ⟨vfs,house.tree.disk⟩

section Steps
variable (world : Provisioning.World) (base overlayBase : Path)

-- `spawn_sandbox`, an act of a session as one step, and what is done below the
-- overlay directory when one ends. A provisioning that fails goes no further. The
-- modes of what sessions make are not followed.
inductive Step (house : House) : House → Prop where
  | arrive (sessionId : Text) : house.crew sessionId = none →
      Step house {house with crew := Function.update house.crew sessionId (some (.calls (golden.at base).calls))}
  | provision (sessionId : Text) : house.crew sessionId = some before → Advance world before house.tree after next →
      Step house {house with tree := next,crew := Function.update house.crew sessionId (some after)}
  | setUp (sessionId : Text) (createFails : Path → Bool) : house.crew sessionId = some (.calls []) →
      OverlayMount.setup sessionId base overlayBase ⟨createFails,false⟩ house.tree.disk = (.ok overlay,layer) →
      Step house ⟨{house.tree with disk := layer.disk},Function.update house.crew sessionId none,
        Function.update house.vfs sessionId (some (.withRoots (some overlay.upperDir) (some base)))⟩
  | act (sessionId : Text) (action : SessionAction) : house.vfs sessionId = some vfs →
      action.perform plain (house.session vfs) = after →
      Step house ⟨{house.tree with disk := after.host},house.crew,Function.update house.vfs sessionId (some after.vfs)⟩
  | leave (sessionId : Text) : Step house {house with vfs := Function.update house.vfs sessionId none}
  | tidy (op : DiskOp) : overlayBase <+: op.target →
      Step house {house with tree := {house.tree with disk := apply house.tree.disk op}}

end Steps

-- A session in the directory fallback.
structure Rooted (base overlayBase : Path) (sessionId : Text) (vfs : VirtualFileSystem) : Prop where
  placed : Plain vfs.currentPath
  mounted : vfs.mountRoot = some (overlayAt overlayBase sessionId false).upperDir
  lowered : vfs.lowerRoot = some base

structure Housed (world : Provisioning.World) (base overlayBase : Path) (house : House) : Prop where
  manned : (golden.at base).Manned world house.tree house.crew
  sessions : ∀ sessionId vfs, house.vfs sessionId = some vfs → Rooted base overlayBase sessionId vfs

theorem createDirs_frame {dirs : List Path} (outside : ∀ dir ∈ dirs, ¬ path <+: dir) (createFails : Path → Bool) (disk : Disk) :
    entry (createDirs createFails dirs disk).2 path = entry disk path := by
  induction dirs generalizing disk with
  | nil => rfl
  | cons dir rest ih =>
    have first := createDirAll_frame disk dir (.inl (outside dir List.mem_cons_self))
    rw [createDirs]
    split
    · rfl
    · dsimp only
      split
      · exact (ih (fun other inside => outside other (List.mem_cons_of_mem _ inside)) _).trans first
      · exact first

theorem createDirs_shaped {disk : Disk} (shaped : Shaped disk) (createFails : Path → Bool) (dirs : List Path) :
    Shaped (createDirs createFails dirs disk).2 := by
  induction dirs generalizing disk with
  | nil => exact shaped
  | cons dir rest ih =>
    have first := createDirAll_shaped shaped dir
    rw [createDirs]
    split
    · exact shaped
    · dsimp only
      split
      · exact ih first
      · exact first

theorem createDirs_completes {disk : Disk} {dirs : List Path} (passable : ∀ dir ∈ dirs, Passable disk dir) :
    (createDirs (fun _ => false) dirs disk).1 = .ok () := by
  induction dirs generalizing disk with
  | nil => rfl
  | cons dir rest ih =>
    rw [createDirs,if_neg Bool.false_ne_true]
    dsimp only
    rw [if_pos (createDirAll_made (passable dir List.mem_cons_self))]
    refine ih ?_
    intro other inside ancestor content above held
    rw [createDirAll_entry] at held
    split at held
    · cases held
    · exact passable other (List.mem_cons_of_mem _ inside) ancestor content above held

def sessionDirs (overlay : OverlayMount) : List Path := [overlay.sessionDir,overlay.upperDir,overlay.workDir,overlay.mountPoint]

theorem setup_made {world : SetupWorld} {sessionId : Text}
    (went : OverlayMount.setup sessionId base overlayBase world disk = (.ok overlay,layer)) :
    overlay = overlayAt overlayBase sessionId world.mountAccepted ∧
      layer.disk = (createDirs world.createFails (sessionDirs (overlayAt overlayBase sessionId world.mountAccepted)) disk).2 := by
  unfold OverlayMount.setup at went
  dsimp only at went
  split at went
  · cases went
  · rename_i made
    cases went
    rw [sessionDirs,made]
    exact ⟨rfl,rfl⟩

theorem setup_completes (lowerDir : Path) (passable : ∀ dir ∈ sessionDirs (overlayAt overlayBase sessionId false), Passable disk dir) :
    ∃ layer, OverlayMount.setup sessionId lowerDir overlayBase ⟨fun _ => false,false⟩ disk =
      (.ok (overlayAt overlayBase sessionId false),layer) := by
  have completes := createDirs_completes passable
  unfold sessionDirs at completes
  unfold OverlayMount.setup
  dsimp only
  split
  · rename_i refused
    rw [refused] at completes
    cases completes
  · exact ⟨_,rfl⟩

theorem sessionDirs_under (overlayBase : Path) (sessionId : Text) (mounted : Bool) :
    ∀ dir ∈ sessionDirs (overlayAt overlayBase sessionId mounted), overlayBase <+: dir := by
  intro dir inside
  simp only [sessionDirs,overlayAt,sessionDirOf,List.mem_cons,List.not_mem_nil,or_false] at inside
  rcases inside with rfl | rfl | rfl | rfl <;> simp only [List.append_assoc,List.prefix_append]

section Run
variable {world : Provisioning.World} {base overlayBase : Path}

theorem rooted_update {sessionId : Text} {shells : Text → Option VirtualFileSystem}
    (sessions : ∀ sessionId vfs, shells sessionId = some vfs → Rooted base overlayBase sessionId vfs)
    (own : ∀ vfs, new = some vfs → Rooted base overlayBase sessionId vfs) :
    ∀ other vfs, Function.update shells sessionId new other = some vfs → Rooted base overlayBase other vfs := by
  intro other vfs held
  by_cases same : other = sessionId
  · subst same
    rw [Function.update_self] at held
    exact own vfs held
  · rw [Function.update_of_ne same] at held
    exact sessions other vfs held

theorem perform_roots {σ : Type} (fs : HostFs σ) (state : VfsState σ) (action : SessionAction) :
    (action.perform fs state).vfs.mountRoot = state.vfs.mountRoot ∧ (action.perform fs state).vfs.lowerRoot = state.vfs.lowerRoot := by
  cases action with
  | command typed => exact run_roots fs state typed
  | savePayload segment body =>
    simp only [SessionAction.perform,SessionIsolation.savePayload]
    split <;> exact ⟨rfl,rfl⟩

-- A layer apart from the image.
theorem layer_keeps (apart : Apart root base) (disk : Disk) :
    Keeps plain root (fun now : Disk => Shaped now ∧ ∀ path, base <+: path → now.lookup path = disk.lookup path) := by
  rintro now op inside ⟨shaped,same⟩
  refine ⟨apply_shaped shaped op,?_⟩
  intro path under
  rw [← same path under]
  exact apply_apart now op apart inside under

theorem base_way (base : Path) : (golden.at base).OnWay base := by
  have root : golden.OnWay [] := .inl ⟨["bin".toList],by decide +kernel,List.nil_prefix⟩
  have way := root.under base
  rwa [List.append_nil] at way

-- A disk that has the same below the image's directory has the same of the image.
theorem placed_same {tree : Tree} {crew : Text → Option Progress} (manned : (golden.at base).Manned world tree crew)
    (shaped : Shaped disk) (same : ∀ path, base <+: path → entry disk path = entry tree.disk path) :
    ∀ path, (golden.at base).OnWay path ∨ (golden.at base).IsFile path → entry disk path = entry tree.disk path := by
  rintro path (way | isFile)
  · obtain ⟨rest,_,above⟩ := Image.way_under way
    rcases List.prefix_or_prefix_of_prefix above (List.prefix_append base rest) with higher | below
    · by_cases here : path = base
      · exact same path (here ▸ List.prefix_refl _)
      · have root : entry disk base = some .dir := (same base (List.prefix_refl _)).trans (manned.ways base (base_way base))
        rw [manned.ways path way]
        exact shaped _ _ (by rw [root]; rfl) higher here
    · exact same path below
  · obtain ⟨file,_,rfl⟩ := file_found isFile
    exact same _ (List.prefix_append _ _)

theorem upper_apart (apart : Apart base overlayBase) (sessionId : Text) : Apart (overlayAt overlayBase sessionId false).upperDir base := by
  refine apart.symm.extend ?_
  exact sessionDirs_under overlayBase sessionId false _ (by simp [sessionDirs])

theorem tidied (apart : Apart base overlayBase) {disk : Disk} (op : DiskOp) (inside : overlayBase <+: op.target)
    (under : base <+: path) : entry (apply disk op) path = entry disk path := by
  unfold entry
  split
  · rfl
  · exact apply_apart disk op apart.symm inside under

theorem Housed.step (apart : Apart base overlayBase) (housed : Housed world base overlayBase house)
    (step : Step world base overlayBase house after) : Housed world base overlayBase after := by
  have manned := housed.manned
  cases step with
  | arrive sessionId free => exact ⟨manned.joined free,housed.sessions⟩
  | provision sessionId here taken => exact ⟨manned.advance here taken,housed.sessions⟩
  | @setUp layer overlay sessionId createFails through made =>
    obtain ⟨rfl,created⟩ := setup_made made
    have shaped : Shaped layer.disk := created ▸ createDirs_shaped manned.shaped _ _
    have same : ∀ path, base <+: path → entry layer.disk path = entry house.tree.disk path := by
      intro path under
      rw [created]
      refine createDirs_frame ?_ _ _
      intro dir inside above
      have below := sessionDirs_under overlayBase sessionId false dir inside
      exact (apart.below (under.trans above)).1 below
    refine ⟨(manned.left through).beside shaped (placed_same manned shaped same),rooted_update housed.sessions ?_⟩
    rintro _ ⟨⟩
    exact ⟨home_plain,rfl,rfl⟩
  | @act vfs state sessionId action here went =>
    subst went
    have own := housed.sessions sessionId vfs here
    have held : Held (overlayAt overlayBase sessionId false).upperDir _ (action.perform plain (house.session vfs)) :=
      perform_held (layer_keeps (upper_apart apart sessionId) house.tree.disk) ⟨⟨manned.shaped,fun _ _ => rfl⟩,own.placed,
        fun root mounted => Option.some.inj (mounted.symm.trans own.mounted)⟩ action
    obtain ⟨mount,lower⟩ := perform_roots plain (house.session vfs) action
    refine ⟨manned.beside held.kept.1 (placed_same manned held.kept.1 ?_),rooted_update housed.sessions ?_⟩
    · intro path under
      unfold entry
      split
      · rfl
      · exact held.kept.2 path under
    · rintro _ ⟨⟩
      exact ⟨held.plain,mount.trans own.mounted,lower.trans own.lowered⟩
  | leave sessionId => exact ⟨manned,rooted_update housed.sessions (by rintro _ ⟨⟩)⟩
  | tidy op inside =>
    have shaped := apply_shaped manned.shaped op
    exact ⟨manned.beside shaped (placed_same manned shaped fun _ under => tidied apart op inside under),housed.sessions⟩

theorem Housed.run (apart : Apart base overlayBase) (housed : Housed world base overlayBase house)
    (run : Relation.ReflTransGen (Step world base overlayBase) house after) : Housed world base overlayBase after := by
  induction run with
  | refl => exact housed
  | tail _ step ih => exact ih.step apart step

end Run

-- `cat` and `cd`, where the session's own layer holds nothing.
theorem cat_beneath {state : VfsState Disk} (free : upperAt state (state.vfs.resolve target) = none)
    (held : lowerAt state (state.vfs.resolve target) = some (.file (encode text))) (open_ : target.containsText "shadow" = false) :
    state.vfs.catTarget (plain.view state.host) target = VirtualFileSystem.catContent text := by
  unfold VirtualFileSystem.catTarget VirtualFileSystem.catLayer
  unfold upperAt upper at free
  unfold lowerAt lower at held
  rw [open_,if_neg Bool.false_ne_true,free,held]
  dsimp only
  rw [fromUtf8_iff.mpr rfl]
  rfl

theorem cd_beneath {state : VfsState Disk} (free : upperAt state (state.vfs.resolve arg.trim) = none)
    (held : lowerAt state (state.vfs.resolve arg.trim) = some .dir) (named : arg.trim ≠ []) :
    state.vfs.cd (plain.view state.host) arg = ([],{state.vfs with currentPath := state.vfs.resolve arg.trim}) := by
  unfold VirtualFileSystem.cd
  unfold upperAt upper at free
  unfold lowerAt lower at held
  dsimp only
  rw [if_neg named]
  by_cases root : state.vfs.resolve arg.trim = []
  · rw [if_pos root]
  · rw [if_neg root,free,held]

theorem Housed.lower {world : Provisioning.World} {base overlayBase : Path} {sessionId : Text}
    (housed : Housed world base overlayBase house) (here : house.vfs sessionId = some vfs) (target : Text) :
    lowerAt (house.session vfs) (vfs.resolve target) = entry house.tree.disk (base ++ vfs.resolve target) := by
  unfold lowerAt MergedView.lower
  rw [House.session,VirtualFileSystem.resolveLowerPath,(housed.sessions sessionId vfs here).lowered,Option.map_some,
    diskPath_plain (resolve_plain _ ((housed.sessions sessionId vfs here).placed) target)]
  rfl

theorem Housed.held {world : Provisioning.World} {base overlayBase : Path} (housed : Housed world base overlayBase house)
    (inside : file ∈ rootFiles) : ∃ held, entry house.tree.disk (base ++ file.path) = some (.file held) ∧
      Part (encode file.text) held ∧ (¬ Rewritten house.crew (base ++ file.path) → held = encode file.text) := by
  obtain ⟨held,there,part,whole⟩ := housed.manned.files _ (file_listed inside base)
  refine ⟨held,there,part,fun still => whole.resolve_right ?_⟩
  rintro ⟨one,count,rest,busy,_⟩
  exact still ⟨one,_,count,rest,busy⟩

-- Once provisioning has gone through, however often it was cut short before, and
-- in every run of sessions and of the provisionings for new ones: the next one
-- goes through if it is left to itself, a file of the image that none is inside of
-- holds its text, and one that is being written no wrong byte but zeros. So does
-- each session read it and enter the directories, but for what its own layer hides.
theorem sessions_see_the_image (world : Provisioning.World) (base overlayBase : Path) (origin tree done : Tree) (house : House)
    (fits : (golden.at base).Fits origin.disk) (open_ : (golden.at base).Open world origin)
    (attempts : Attempts world (golden.at base).calls origin tree)
    (provisioned : ensureGoldenRootfs world base tree = some done) (apart : Apart base overlayBase)
    (run : Relation.ReflTransGen (Step world base overlayBase) (.opened done) house) :
    (ensureGoldenRootfs world base house.tree).isSome ∧
    (∀ file ∈ rootFiles, ∃ held, entry house.tree.disk (base ++ file.path) = some (.file held) ∧
      Part (encode file.text) held ∧ (¬ Rewritten house.crew (base ++ file.path) → held = encode file.text)) ∧
    ∀ sessionId vfs, house.vfs sessionId = some vfs →
      (∀ file ∈ rootFiles, ∀ target, vfs.resolve target = file.path → target.containsText "shadow" = false →
        upperAt (house.session vfs) file.path = none → ¬ Rewritten house.crew (base ++ file.path) →
          vfs.catTarget (plain.view house.tree.disk) target = VirtualFileSystem.catContent file.text) ∧
      ∀ arg, arg.trim ≠ [] → golden.OnWay (vfs.resolve arg.trim) → upperAt (house.session vfs) (vfs.resolve arg.trim) = none →
        vfs.cd (plain.view house.tree.disk) arg = ([],{vfs with currentPath := vfs.resolve arg.trim}) := by
  obtain ⟨last,went,laid,opened⟩ := Image.converges world fits open_ attempts
  obtain rfl : last = done := Option.some.inj (went.symm.trans provisioned)
  have begun : Housed world base overlayBase (.opened last) := ⟨Image.laid_manned laid opened,nofun⟩
  have housed := begun.run apart run
  refine ⟨?_,fun file inside => housed.held inside,?_⟩
  · obtain ⟨next,again,_⟩ := housed.manned.completes
    rw [ensureGoldenRootfs,again]
    rfl
  · intro sessionId vfs here
    constructor
    · intro file inside target same open_ free still
      obtain ⟨held,there,_,whole⟩ := housed.held inside
      rw [whole still] at there
      have below := (housed.lower here target).trans (same ▸ there)
      have shown : (house.session vfs).vfs.catTarget (plain.view (house.session vfs).host) target =
          VirtualFileSystem.catContent file.text := cat_beneath (same ▸ free) below open_
      exact shown
    · intro arg named way free
      have held := (housed.lower here arg.trim).trans (housed.manned.ways _ (way.under base))
      have entered : (house.session vfs).vfs.cd (plain.view (house.session vfs).host) arg =
          ([],{vfs with currentPath := vfs.resolve arg.trim}) := cd_beneath free held named
      exact entered

theorem provisions {world : Provisioning.World} {base overlayBase : Path} {sessionId : Text} {house : House}
    (here : house.crew sessionId = some before) (run : Relation.ReflTransGen (Alone world) (before,house.tree) (after,tree)) :
    Relation.ReflTransGen (Step world base overlayBase) house
      ⟨tree,Function.update house.crew sessionId (some after),house.vfs⟩ := by
  generalize last : (after,tree) = progress at run
  induction run generalizing after tree with
  | refl =>
    cases last
    rw [← here,Function.update_eq_self]
  | @tail middle _ _ taken ih =>
    cases last
    have onward : Step world base overlayBase ⟨middle.2,Function.update house.crew sessionId (some middle.1),house.vfs⟩ _ :=
      .provision sessionId (Function.update_self ..) taken
    dsimp only at onward
    rw [Function.update_idem] at onward
    exact (ih rfl).tail onward

theorem image_named {base : Path} : ∀ path content, .write path content ∈ (golden.at base).calls → path ≠ [] := by
  intro path content inside
  obtain ⟨file,listed,rfl,_⟩ := Image.call_write inside
  exact (golden.at base).named file listed

theorem comes {world : Provisioning.World} {base overlayBase : Path} {sessionId : Text} {house : House}
    (idle : house.crew sessionId = none)
    (alone : Relation.ReflTransGen (Alone world) (.calls (golden.at base).calls,house.tree) (after,tree)) :
    Relation.ReflTransGen (Step world base overlayBase) house
      ⟨tree,Function.update house.crew sessionId (some after),house.vfs⟩ := by
  have arrived : Step world base overlayBase house _ := .arrive sessionId idle
  have laying : Relation.ReflTransGen (Step world base overlayBase)
      {house with crew := Function.update house.crew sessionId (some (.calls (golden.at base).calls))} _ :=
    provisions (Function.update_self ..) alone
  dsimp only at laying
  rw [Function.update_idem] at laying
  exact (Relation.ReflTransGen.single arrived).trans laying

-- A visitor comes, and the image is laid for it up to the opening of one file.
theorem relays {world : Provisioning.World} {base overlayBase : Path} {sessionId : Text}
    (housed : Housed world base overlayBase house) (idle : house.crew sessionId = none) (listed : file ∈ (golden.at base).files) :
    ∃ after tree, Relation.ReflTransGen (Step world base overlayBase) house
      ⟨tree,Function.update house.crew sessionId (some (.writing file.path file.content 0 after)),house.vfs⟩ ∧
      (golden.at base).Within house.tree tree := by
  obtain ⟨last,went,_⟩ := housed.manned.completes
  obtain ⟨before,after,same⟩ := List.append_of_mem (Image.write_listed listed)
  have named : ∀ path content, .write path content ∈ (golden.at base).calls → path ≠ [] := image_named
  rw [same] at named
  rw [same,Image.performAll_append,Option.bind_eq_some_iff] at went
  obtain ⟨middle,earlier,later⟩ := went
  obtain ⟨written,wrote,_⟩ := Option.bind_eq_some_iff.mp later
  obtain ⟨emptied,empties,_⟩ := write_pieces ((golden.at base).named file listed) wrote
  have earlierAlone := alone_completes (fun path content inside => named path content (List.mem_append_left _ inside)) earlier
    (.write file.path file.content :: after)
  have entered : Alone world (.calls (.write file.path file.content :: after),middle)
      (.writing file.path file.content 0 after,emptied) := .empty empties
  have alone := earlierAlone.tail entered
  rw [← same] at alone
  have allowed : ∀ call ∈ before, Image.Allows (golden.at base) call := fun call inside =>
    Image.calls_allowed _ call (same ▸ List.mem_append_left _ inside)
  have halfway := (Image.origin_within _ housed.manned.fits).performAll allowed earlier
  exact ⟨after,emptied,comes idle alone,halfway.perform (.write ⟨file,listed,rfl⟩) empties⟩

theorem busy_there {crew : Text → Option Progress} {sessionId : Text} :
    Rewritten (Function.update crew sessionId (some (.writing path content count rest))) path :=
  ⟨sessionId,content,count,rest,Function.update_self ..⟩

theorem still_elsewhere {crew : Text → Option Progress} {sessionId : Text} (idle : ∀ one, crew one = none) (apart : other ≠ path) :
    ¬ Rewritten (Function.update crew sessionId (some (.writing path content count rest))) other := by
  rintro ⟨one,_,_,_,busy⟩
  by_cases same : one = sessionId
  · rw [same,Function.update_self,Option.some.injEq,Progress.writing.injEq] at busy
    exact apart busy.1.symm
  · rw [Function.update_of_ne same,idle] at busy
    cases busy

def visits : Path := ["overlay".toList]

theorem visits_apart (parts : Path) : Apart (visits ++ parts) place := by
  constructor <;> simp [visits,place]

def upperOf (sessionId : Text) : Path := (overlayAt visits sessionId false).upperDir

theorem upper_visits (sessionId : Text) (parts : Path) : ∃ rest, upperOf sessionId ++ parts = visits ++ rest :=
  ⟨["session_".toList ++ sessionId] ++ ["upper".toList] ++ parts,by simp [upperOf,overlayAt,sessionDirOf]⟩

theorem visits_passable {disk : Disk} (free : ∀ parts, entry disk (visits ++ parts) = none) (sessionId : Text) :
    ∀ dir ∈ sessionDirs (overlayAt visits sessionId false), Passable disk dir := by
  intro dir inside ancestor content above held
  obtain ⟨below,rfl⟩ := sessionDirs_under visits sessionId false dir inside
  rcases List.prefix_or_prefix_of_prefix above (List.prefix_append visits below) with higher | ⟨rest,rfl⟩
  · rcases List.prefix_cons_iff.mp higher with rfl | ⟨rest,rfl,last⟩
    · cases held
    · rw [List.prefix_nil.mp last] at held
      cases held.symm.trans (free [])
  · cases held.symm.trans (free rest)

def shellOf (sessionId : Text) : VirtualFileSystem := .withRoots (some (upperOf sessionId)) (some place)

-- A session whose own layer is empty.
structure Settled (sessionId : Text) (house : House) : Prop where
  there : house.vfs sessionId = some (shellOf sessionId)
  empty : ∀ parts, 1 ≤ parts.length → entry house.tree.disk (upperOf sessionId ++ parts) = none

theorem visitor_settles (sessionId : Text) {house : House} (housed : Housed unprivileged place visits house)
    (idle : house.crew sessionId = none) (free : ∀ parts, entry house.tree.disk (visits ++ parts) = none) :
    ∃ next, Relation.ReflTransGen (Step unprivileged place visits) house next ∧ next.crew = house.crew ∧
      Settled sessionId next := by
  obtain ⟨laid,went,_⟩ := housed.manned.completes
  have within := (Image.origin_within _ housed.manned.fits).performAll (Image.calls_allowed (golden.at place)) went
  have still : ∀ parts, entry laid.disk (visits ++ parts) = none :=
    fun parts => (within.apart (visits_apart parts)).trans (free parts)
  have alone := alone_completes image_named went []
  rw [List.append_nil] at alone
  have provisioned : Relation.ReflTransGen (Step unprivileged place visits) house _ := comes idle alone
  obtain ⟨layer,made⟩ := setup_completes place (visits_passable still sessionId)
  have settled : Step unprivileged place visits ⟨laid,Function.update house.crew sessionId (some (.calls [])),house.vfs⟩
      ⟨{laid with disk := layer.disk},Function.update (Function.update house.crew sessionId (some (.calls []))) sessionId none,
        Function.update house.vfs sessionId (some (shellOf sessionId))⟩ :=
    .setUp sessionId (fun _ => false) (Function.update_self ..) made
  have path := provisioned.tail settled
  have same : Function.update (Function.update house.crew sessionId (some (.calls []))) sessionId none = house.crew := by
    rw [Function.update_idem,← idle,Function.update_eq_self]
  refine ⟨_,path,same,Function.update_self ..,?_⟩
  · intro parts long
    obtain ⟨rest,same⟩ := upper_visits sessionId parts
    rw [(setup_made made).2,createDirs_frame,same]
    · exact still rest
    · intro dir inside above
      have short : dir.length ≤ 3 := by
        simp only [sessionDirs,overlayAt,sessionDirOf,visits,List.mem_cons,List.not_mem_nil,or_false] at inside
        rcases inside with rfl | rfl | rfl | rfl <;> simp
      have reach := above.length_le
      simp [upperOf,overlayAt,sessionDirOf,visits] at reach
      omega

theorem Settled.kept {sessionId : Text} {house : House} (settled : Settled sessionId house)
    (within : (golden.at place).Within house.tree tree) (parts : Path) (long : 1 ≤ parts.length) :
    entry tree.disk (upperOf sessionId ++ parts) = none := by
  have old := settled.empty parts long
  obtain ⟨rest,beside⟩ := upper_visits sessionId parts
  rw [beside] at old ⊢
  rw [within.apart (visits_apart rest)]
  exact old

def passwd : Path := partsOf ["etc","passwd"]

-- The first visitor of a new gateway reads and walks while the image is laid for
-- the second, which has just emptied another file.
theorem relaying_spares_the_others : ∃ done house, ensureGoldenRootfs unprivileged place blank = some done ∧
    Relation.ReflTransGen (Step unprivileged place visits) (.opened done) house ∧ Rewritten house.crew (place ++ passwd) ∧
    house.vfs "3f9a".toList = some (shellOf "3f9a".toList) ∧
    (shellOf "3f9a".toList).catTarget (plain.view house.tree.disk) "/etc/hostname".toList =
      VirtualFileSystem.catContent "ubuntu-server-01\n".toList ∧
    (shellOf "3f9a".toList).cd (plain.view house.tree.disk) "/var/www".toList =
      ([],{shellOf "3f9a".toList with currentPath := ["var".toList,"www".toList]}) := by
  have apart : Apart place visits := List.append_nil visits ▸ (visits_apart []).symm
  obtain ⟨done,provisioned,laid,opened⟩ := Image.converges unprivileged blank_fits blank_open Attempts.none
  have begun : Housed unprivileged place visits (.opened done) := ⟨Image.laid_manned laid opened,nofun⟩
  have laidOut := (Image.origin_within _ blank_fits).performAll (Image.calls_allowed (golden.at place)) provisioned
  obtain ⟨house,came,crew,settled⟩ := visitor_settles "3f9a".toList begun rfl (fun parts => laidOut.apart (visits_apart parts))
  have housed := begun.run apart came
  obtain ⟨file,listed,named⟩ : ∃ file ∈ (golden.at place).files, file.path = place ++ passwd := by
    obtain ⟨file,listed,named⟩ : ∃ file ∈ files, file.path = passwd := by decide +kernel
    exact ⟨_,file_listed (List.mem_append_left _ listed) place,congrArg (place ++ ·) named⟩
  have idle : ∀ one, house.crew one = none := by
    intro one
    rw [crew]
    rfl
  obtain ⟨after,tree,relaid,within⟩ := relays housed (idle "77b0".toList) listed
  have run := came.trans relaid
  obtain ⟨_,_,seen⟩ := sessions_see_the_image unprivileged place visits blank blank done _ blank_fits blank_open .none provisioned
    apart run
  have own := seen "3f9a".toList (shellOf "3f9a".toList) settled.there
  have hostname : (⟨partsOf ["etc","hostname"],0o644,"ubuntu-server-01\n".toList⟩ : RootFile) ∈ rootFiles :=
    List.mem_append_left _ (by decide +kernel)
  have directory : golden.OnWay ["var".toList,"www".toList] := .inl ⟨["var".toList,"www".toList],by decide +kernel,List.prefix_refl _⟩
  have beside : place ++ partsOf ["etc","hostname"] ≠ file.path := by
    rw [named]
    decide
  have read := own.1 _ hostname "/etc/hostname".toList (by decide) (by decide)
    (settled.kept within (partsOf ["etc","hostname"]) (by decide)) (still_elsewhere idle beside)
  have walked := own.2 "/var/www".toList (by decide) directory (settled.kept within ["var".toList,"www".toList] (by decide))
  exact ⟨done,_,provisioned,run,named ▸ busy_there,settled.there,read,walked⟩

end AegisHoneypot.GoldenSessions
