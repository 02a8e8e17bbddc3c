import AegisHoneypot.EgressSafety

namespace AegisHoneypot.FetchOutcomes
open FileTree Utf8Text GatewayHost OverlaySandbox PayloadFetch SessionInput SessionSilence Chronicle EgressSafety

-- Every step of a fetch up to the first byte of its body succeeds.
structure Delivery (platform : Platform) (io : FetchIo) (job : FetchJob) (parsed : Url) (target : IpAddr × UInt16)
    (response : Response) : Prop where
  parses : platform.parseUrl job.url = some parsed
  vetted : vetTarget io.toSocketAddrs parsed = .ok target
  built : io.builds = true
  answered : io.answer parsed target = some response
  short : response.contentLength.any (fun length => decide (job.maxBytes < length)) = false

def Delivers (platform : Platform) (io : FetchIo) (job : FetchJob) : Prop :=
  ∃ parsed target response, Delivery platform io job parsed target response

def fetchedBytes (job : FetchJob) (response : Response) : Bytes := readBody job.maxBytes response.reads []

def quarantinePath (platform : Platform) (job : FetchJob) (response : Response) : Text :=
  job.quarantineDir ++ ['/'] ++ platform.sha256 (fetchedBytes job response)

-- What a fetch does besides its copy in quarantine.
def IsErrand : Effect → Prop
  | .lookedUp _ _ _ => True
  | .dialled _ _ => True
  | .payloadSaved _ _ => True
  | _ => False

def fetch (platform : Platform) (io : FetchIo) (job : FetchJob) (host : Host) : (Text × Option PayloadInfo) × Host :=
  fetchPayloadBlocking platform io job.url job.quarantineDir job.mountRoot job.maxBytes host

theorem lookUp_errands (io : FetchIo) (url : Url) (host : Host) : Grows IsErrand host.log (lookUp io url host).log := by
  unfold lookUp
  split
  · exact Grows.refl _ _
  · exact Grows.one _ trivial

theorem dial_errands (io : FetchIo) (url : Url) (target : IpAddr × UInt16) (host : Host) :
    Grows IsErrand host.log (dial io url target host).log := by
  refine ⟨_,dial_log io url target host,?_⟩
  intro effect member
  obtain ⟨address,_,rfl⟩ := List.mem_map.mp member
  trivial

def quarantined (io : FetchIo) (target : Text) (body : Bytes) : List Effect :=
  if io.quarantines then [.quarantined none target body] else []

theorem keepPayload_errands (platform : Platform) (io : FetchIo) (target : Text) (mountRoot : Option Path) (url : Url)
    (body : Bytes) (host : Host) :
    Grows IsErrand (host.log ++ quarantined io target body) (keepPayload platform io target mountRoot url body host).log := by
  unfold keepPayload quarantined
  cases io.quarantines with
  | false =>
    simp only [Bool.false_eq_true,if_false,List.append_nil]
    cases mountRoot with
    | none => exact Grows.refl _ _
    | some mount =>
      dsimp only
      split
      · exact Grows.one _ trivial
      · exact Grows.refl _ _
  | true =>
    simp only [if_true]
    cases mountRoot with
    | none => exact Grows.refl _ _
    | some mount =>
      dsimp only
      split
      · exact Grows.one _ trivial
      · exact Grows.refl _ _

-- What a fetch tells the session.
inductive Told (platform : Platform) (io : FetchIo) (job : FetchJob) (host : Host) :
    Option PayloadInfo → List Effect → Prop where
  | nothing : ¬ Delivers platform io job → Grows IsErrand host.log log → Told platform io job host none log
  | payload : Delivery platform io job parsed target response → Grows IsErrand host.log asked →
      Grows IsErrand (asked ++ quarantined io (quarantinePath platform job response) (fetchedBytes job response)) log →
      Told platform io job host (some ⟨platform.sha256 (fetchedBytes job response),(fetchedBytes job response).length,
        quarantinePath platform job response,extractIocsFromBytes (fetchedBytes job response)⟩) log

theorem fetch_told (platform : Platform) (io : FetchIo) (job : FetchJob) (host : Host) :
    Told platform io job host (fetch platform io job host).1.2 (fetch platform io job host).2.log := by
  unfold fetch fetchPayloadBlocking
  cases parses : platform.parseUrl job.url with
  | none =>
    refine .nothing ?_ (Grows.refl _ _)
    intro delivers
    obtain ⟨_,_,_,delivery⟩ := delivers
    cases parses.symm.trans delivery.parses
  | some parsed =>
    have asked := lookUp_errands io parsed host
    dsimp only
    cases vetted : vetTarget io.toSocketAddrs parsed with
    | error refusal =>
      refine .nothing ?_ asked
      intro delivers
      obtain ⟨other,_,_,delivery⟩ := delivers
      cases parses.symm.trans delivery.parses
      cases vetted.symm.trans delivery.vetted
    | ok target =>
      have connected := asked.trans (dial_errands io parsed target _)
      dsimp only
      split
      · rename_i unbuilt
        refine .nothing ?_ asked
        intro delivers
        obtain ⟨_,_,_,delivery⟩ := delivers
        cases unbuilt.symm.trans delivery.built
      · rename_i built
        cases answered : io.answer parsed target with
        | none =>
          refine .nothing ?_ connected
          intro delivers
          obtain ⟨_,_,_,delivery⟩ := delivers
          cases parses.symm.trans delivery.parses
          cases vetted.symm.trans delivery.vetted
          cases answered.symm.trans delivery.answered
        | some response =>
          dsimp only
          split
          · rename_i long
            refine .nothing ?_ connected
            intro delivers
            obtain ⟨_,_,_,delivery⟩ := delivers
            cases parses.symm.trans delivery.parses
            cases vetted.symm.trans delivery.vetted
            cases answered.symm.trans delivery.answered
            cases long.symm.trans delivery.short
          · rename_i short
            have delivery : Delivery platform io job parsed target response :=
              ⟨parses,vetted,by simpa using built,answered,by simpa using short⟩
            exact .payload delivery connected (keepPayload_errands platform io _ job.mountRoot parsed _ _)

def newEffects (before after : List Effect) : List Effect := after.drop before.length

-- Everything a fetch does: in time it ends while the session waits, late it
-- lands in whatever the session has become by then.
def effectsOf (platform : Platform) (io : ByteIo) (job : FetchJob) (isPipe : Bool) (world later : World) : List Effect :=
  newEffects world.host.log (awaitFetch platform io job isPipe world).2.host.log ++
    if io.inTime then [] else
      newEffects later.host.log (SessionInput.fetchLands platform io.fetch {later with pending := job :: later.pending}).host.log

def Announces (effects : List Effect) (path : Text) : Prop :=
  ∃ event, .emitted (.payloadCaptured event) ∈ effects ∧ event.quarantinePath = String.ofList path

def Stores (platform : Platform) (io : FetchIo) (job : FetchJob) (effects : List Effect) (path : Text) : Prop :=
  ∃ parsed target response, Delivery platform io job parsed target response ∧
    .quarantined none path (fetchedBytes job response) ∈ effects

def Agree (platform : Platform) (io : ByteIo) (job : FetchJob) (isPipe : Bool) (world later : World) : Prop :=
  ∀ path, Announces (effectsOf platform io job isPipe world later) path ↔
    Stores platform io.fetch job (effectsOf platform io job isPipe world later) path

theorem newEffects_append (before new : List Effect) : newEffects before (before ++ new) = new := List.drop_left

theorem Delivery.unique (one : Delivery platform io job parsed target response)
    (two : Delivery platform io job url address other) : response = other := by
  cases one.parses.symm.trans two.parses
  cases one.vetted.symm.trans two.vetted
  exact Option.some.inj (one.answered.symm.trans two.answered)

-- The copy among what the fetch itself does.
theorem fetch_stores (platform : Platform) (io : FetchIo) (job : FetchJob) (host : Host) :
    ∃ new, (fetch platform io job host).2.log = host.log ++ new ∧
      (∀ event, .emitted event ∉ new) ∧
      ((¬ Delivers platform io job ∧ (fetch platform io job host).1.2 = none) ∨
        ∃ parsed target response, Delivery platform io job parsed target response ∧
          (∃ payload, (fetch platform io job host).1.2 = some payload ∧
            payload.quarantinePath = quarantinePath platform job response) ∧
          ∀ path body, .quarantined none path body ∈ new ↔ io.quarantines = true ∧
            path = quarantinePath platform job response ∧ body = fetchedBytes job response) := by
  have quiet : ∀ {errands : List Effect} (event : TelemetryEvent), (∀ effect ∈ errands, IsErrand effect) → .emitted event ∉ errands :=
    fun event others member => others _ member
  have unstored : ∀ {errands : List Effect} (path body), (∀ effect ∈ errands, IsErrand effect) →
      .quarantined none path body ∉ errands := fun path body others member => others _ member
  generalize shape : (fetch platform io job host).1.2 = answer
  generalize logged : (fetch platform io job host).2.log = log
  have told := fetch_told platform io job host
  rw [shape,logged] at told
  cases told with
  | nothing undelivered grows =>
    obtain ⟨new,same,others⟩ := grows
    exact ⟨new,same,fun event => quiet event others,.inl ⟨undelivered,rfl⟩⟩
  | payload delivery before after =>
    rename_i parsed target response asked
    obtain ⟨first,rfl,firsts⟩ := before
    obtain ⟨second,same,seconds⟩ := after
    refine ⟨first ++ quarantined io (quarantinePath platform job response) (fetchedBytes job response) ++ second,
      by simpa using same,?_,.inr ⟨parsed,target,response,delivery,⟨_,rfl,rfl⟩,?_⟩⟩
    · intro event
      simp [quiet event firsts,quiet event seconds,quarantined]
    · intro path body
      simp [unstored path body firsts,unstored path body seconds,quarantined]

-- The host on which the bytes arrive, and what the session says of them.
def landing (io : ByteIo) (world later : World) : Host := if io.inTime then world.host else later.host

def announcement (platform : Platform) (io : ByteIo) (job : FetchJob) (world : World) : List Effect :=
  if io.inTime then ((fetch platform io.fetch job world.host).1.2.map
    (fun payload => .emitted (payloadEvent io world.session.info job.url payload))).toList else []

theorem effectsOf_split (platform : Platform) (io : ByteIo) (job : FetchJob) (isPipe : Bool) (world later : World)
    (same : (fetch platform io.fetch job (landing io world later)).2.log = (landing io world later).log ++ new) :
    effectsOf platform io job isPipe world later = new ++ announcement platform io job world := by
  unfold landing fetch at same
  unfold effectsOf awaitFetch announcement fetch
  cases inTime : io.inTime with
  | false =>
    rw [inTime] at same
    simp only [Bool.false_eq_true,if_false] at same ⊢
    change newEffects _ (world.host.log) ++ newEffects _ (fetchPayloadBlocking _ _ _ _ _ _ later.host).2.log = _
    rw [same,newEffects_append]
    simp [newEffects]
  | true =>
    rw [inTime] at same
    simp only [if_true] at same ⊢
    revert same
    generalize fetchPayloadBlocking platform io.fetch job.url job.quarantineDir job.mountRoot job.maxBytes world.host = done
    intro same
    obtain ⟨⟨text,payload⟩,fetched⟩ := done
    change fetched.log = _ at same
    cases payload with
    | none => simp [same,newEffects_append]
    | some payload => simp [World.note,same,newEffects_append]

-- What is there to name: the place of the fetched bytes in quarantine.
def Names (platform : Platform) (io : FetchIo) (job : FetchJob) (path : Text) : Prop :=
  ∃ parsed target response, Delivery platform io job parsed target response ∧ path = quarantinePath platform job response

theorem names_delivered (delivery : Delivery platform io job parsed target response) :
    Names platform io job path ↔ path = quarantinePath platform job response := by
  constructor
  · intro names
    obtain ⟨_,_,other,also,same⟩ := names
    rw [same,also.unique delivery]
  · intro same
    exact ⟨parsed,target,response,delivery,same⟩

theorem names_nothing (undelivered : ¬ Delivers platform io job) : ¬ Names platform io job path := by
  intro names
  obtain ⟨parsed,target,response,delivery,_⟩ := names
  exact undelivered ⟨parsed,target,response,delivery⟩

theorem announces_exact (platform : Platform) (io : ByteIo) (job : FetchJob) (isPipe : Bool) (world later : World)
    (path : Text) : Announces (effectsOf platform io job isPipe world later) path ↔
      io.inTime = true ∧ Names platform io.fetch job path := by
  obtain ⟨new,same,quiet,_⟩ := fetch_stores platform io.fetch job (landing io world later)
  obtain ⟨_,_,_,told⟩ := fetch_stores platform io.fetch job world.host
  rw [effectsOf_split platform io job isPipe world later same]
  unfold announcement
  cases io.inTime with
  | false => simp [Announces,quiet]
  | true =>
    rcases told with ⟨undelivered,nothing⟩ | ⟨parsed,target,response,delivery,⟨payload,answer,named⟩,_⟩
    · simp [Announces,nothing,quiet,names_nothing undelivered]
    · rw [names_delivered delivery,← named]
      simp [Announces,answer,quiet,payloadEvent,String.ofList_inj,eq_comm]

theorem stores_exact (platform : Platform) (io : ByteIo) (job : FetchJob) (isPipe : Bool) (world later : World)
    (path : Text) : Stores platform io.fetch job (effectsOf platform io job isPipe world later) path ↔
      io.fetch.quarantines = true ∧ Names platform io.fetch job path := by
  obtain ⟨new,same,_,told⟩ := fetch_stores platform io.fetch job (landing io world later)
  rw [effectsOf_split platform io job isPipe world later same]
  have spoken : ∀ body, .quarantined none path body ∉ announcement platform io job world := by
    intro body
    unfold announcement
    split
    · simp
    · simp
  rcases told with ⟨undelivered,_⟩ | ⟨parsed,target,response,delivery,_,copied⟩
  · constructor
    · intro stores
      obtain ⟨parsed,target,response,delivery,_⟩ := stores
      exact absurd ⟨parsed,target,response,delivery⟩ undelivered
    · intro given
      exact absurd given.2 (names_nothing undelivered)
  · rw [names_delivered delivery]
    constructor
    · intro stores
      obtain ⟨_,_,other,_,member⟩ := stores
      rcases List.mem_append.mp member with written | said
      · exact ⟨((copied _ _).mp written).1,((copied _ _).mp written).2.1⟩
      · exact absurd said (spoken _)
    · intro given
      exact ⟨parsed,target,response,delivery,List.mem_append_left _ ((copied _ _).mpr ⟨given.1,given.2,rfl⟩)⟩

theorem payload_events_agree_exactly (platform : Platform) (io : ByteIo) (job : FetchJob) (isPipe : Bool)
    (world later : World) :
    Agree platform io job isPipe world later ↔ (Delivers platform io.fetch job → io.inTime = io.fetch.quarantines) := by
  unfold Agree
  simp only [announces_exact,stores_exact]
  constructor
  · intro agree delivers
    obtain ⟨parsed,target,response,delivery⟩ := delivers
    have same := agree (quarantinePath platform job response)
    have names : Names platform io.fetch job (quarantinePath platform job response) :=
      ⟨parsed,target,response,delivery,rfl⟩
    rw [Bool.eq_iff_iff]
    simpa [names] using same
  · intro equal path
    constructor
    · intro given
      obtain ⟨parsed,target,response,delivery,_⟩ := given.2
      exact ⟨by rw [← equal ⟨parsed,target,response,delivery⟩]; exact given.1,given.2⟩
    · intro given
      obtain ⟨parsed,target,response,delivery,_⟩ := given.2
      exact ⟨by rw [equal ⟨parsed,target,response,delivery⟩]; exact given.1,given.2⟩

-- The quarantine directory cannot be written to.
def fullDisk : ByteIo := {webIo with fetch := {webFetch with quarantines := false}}

def hashingPlatform : Platform :=
  {webPlatform with sha256 := fun _ => "620bfdaa346b088fb49998d92f19a7eaf6bfc2fb0aee015753966da1028cb731".toList}

def webJob : FetchJob := ⟨"http://c2.example.com/x".toList,"./quarantine".toList,none,1024⟩

def webWorld : World := admitted ⟨"7",webAddress,40022⟩ ⟨"./quarantine".toList,true,2,1024⟩
  ⟨"./quarantine".toList,6,1024⟩ none ["rootfs".toList] ⟨scriptDirs,none⟩

theorem web_delivered : Delivery hashingPlatform fullDisk.fetch webJob
    ⟨"http".toList,some "c2.example.com".toList,none,some 80,some ['x']⟩ (webAddress,80) ⟨none,[some [0x7f],some []]⟩ where
  parses := rfl
  vetted := rfl
  built := rfl
  answered := rfl
  short := rfl

theorem unwritten_payload_is_announced : ¬ Agree hashingPlatform fullDisk webJob false webWorld webWorld := by
  intro agree
  have names : Names hashingPlatform fullDisk.fetch webJob (quarantinePath hashingPlatform webJob ⟨none,[some [0x7f],some []]⟩) :=
    ⟨_,_,_,web_delivered,rfl⟩
  have announced := (announces_exact hashingPlatform fullDisk webJob false webWorld webWorld _).mpr ⟨rfl,names⟩
  have stored := (stores_exact hashingPlatform fullDisk webJob false webWorld webWorld _).mp ((agree _).mp announced)
  cases stored.1

end AegisHoneypot.FetchOutcomes
