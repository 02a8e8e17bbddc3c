import AegisHoneypot.AdmissionHistory
import AegisHoneypot.Library.Transition

namespace AegisHoneypot.AdmissionServer
open AdmissionGuard AdmissionHistory Transition

structure SocketAddr where
  ip : IpAddr
  port : UInt16
  deriving DecidableEq, Repr

-- What admission needs of a session: its address and whether it got a sandbox.
-- A failed sandbox does not end the session, it runs without one.
structure ActiveSession where
  about : SessionMeta
  sandboxed : Bool
  deriving DecidableEq, Repr

inductive SessionHandler where
  | active (session : ActiveSession)
  | rejected
  deriving DecidableEq, Repr

structure GatewayConfig where
  limits : Limits
  maxSessions : Nat
  deriving DecidableEq, Repr

-- `saturated` is set by a release that finds nothing to give back; the source
-- has no such field.
structure AegisServer where
  guard : GuardState
  permits : Nat
  live : List ActiveSession
  saturated : Bool

def AegisServer.new (config : GatewayConfig) (now : Instant) : AegisServer :=
  ⟨.new now,max config.maxSessions 1,[],false⟩

structure Provisioning where
  now : Instant
  sessionId : String
  recorderOpens : Bool
  sandboxSpawns : Bool
  deriving DecidableEq, Repr

namespace AegisServer

def release (server : AegisServer) (ip : IpAddr) : AegisServer :=
  {server with
    guard := AdmissionGuard.release server.guard ip
    saturated := server.saturated || (server.guard.view (admissionKey ip)).active == 0}

-- An address the listener could not read counts as `0.0.0.0:0`.
def peerAddr (peer : Option SocketAddr) : SocketAddr := peer.getD ⟨.v4 0 0 0 0,0⟩

def provision (server : AegisServer) (addr : SocketAddr) (world : Provisioning) : SessionHandler × AegisServer :=
  if world.recorderOpens then
    let session : ActiveSession := ⟨⟨world.sessionId,addr.ip,addr.port⟩,world.sandboxSpawns⟩
    (.active session,{server with live := server.live ++ [session]})
  else (.rejected,{server with permits := server.permits+1}.release addr.ip)

def newClient (config : GatewayConfig) (server : AegisServer) (peer : Option SocketAddr)
    (world : Provisioning) : SessionHandler × AegisServer :=
  let addr := peerAddr peer
  match tryAdmit config.limits server.guard world.now addr.ip with
  | (false,guard) => (.rejected,{server with guard := guard})
  | (true,guard) =>
    match server.permits with
    | 0 => (.rejected,{server with guard := guard}.release addr.ip)
    | permits+1 => provision {server with guard := guard,permits := permits} addr world

-- `Drop` runs its body first and gives the permit back with the fields.
def dropSession (server : AegisServer) (position : Nat) (session : ActiveSession) : AegisServer :=
  let released := server.release session.about.clientIp
  {released with permits := released.permits+1,live := released.live.eraseIdx position}

end AegisServer

inductive Action where
  | newClient (peer : Option SocketAddr) (world : Provisioning)
  | drop (position : Nat)

inductive Step (config : GatewayConfig) : AegisServer → Action → AegisServer → Prop where
  | newClient : Step config server (.newClient peer world) (server.newClient config peer world).2
  | drop : server.live[position]? = some session →
      Step config server (.drop position) (server.dropSession position session)

def liveOf (key : IpAddr) (live : List ActiveSession) : Nat :=
  live.countP (fun session => decide (admissionKey session.about.clientIp = key))

structure Conserved (config : GatewayConfig) (server : AegisServer) : Prop where
  counts : ∀ key, (server.guard.view key).active = liveOf key server.live
  permits : server.permits + server.live.length = max config.maxSessions 1
  capped : 0 < config.limits.maxPerIp.toNat → ∀ key, liveOf key server.live ≤ config.limits.maxPerIp.toNat
  exact_ : server.saturated = false

theorem sweep_active (state : GuardState) (now : Instant) (key : IpAddr) :
    ((state.sweep now).view key).active = (state.view key).active := by
  unfold GuardState.sweep
  split
  · simp only [GuardState.view]
    rw [AList.lookup_retain]
    cases found : state.entries.lookup key with
    | none => rfl
    | some entry =>
      by_cases stale : entry.isStale now = true
      · have idle : entry.active = 0 := by
          simp only [IpEntry.isStale,Bool.and_eq_true,beq_iff_eq] at stale
          exact stale.1
        simp [Option.filter,stale,idle,IpEntry.empty]
      · simp [Option.filter,stale]
  · rfl

-- The count of a key goes up by one exactly where `try_admit` answers true, and
-- only below the limit.
theorem tryAdmit_active (limits : Limits) (state : GuardState) (now : Instant) (ip : IpAddr) :
    ((tryAdmit limits state now ip).1 = true ∧
      (0 < limits.maxPerIp.toNat → (state.view (admissionKey ip)).active < limits.maxPerIp.toNat) ∧
      ∀ key, ((tryAdmit limits state now ip).2.view key).active =
        (state.view key).active + if key = admissionKey ip then 1 else 0) ∨
    ((tryAdmit limits state now ip).1 = false ∧
      ∀ key, ((tryAdmit limits state now ip).2.view key).active = (state.view key).active) := by
  have own := sweep_active state now (admissionKey ip)
  rcases tryAdmit_cases limits state now ip with ⟨_,same⟩ | ⟨_,fits,same⟩ | ⟨_,_,same⟩
  · exact Or.inr ⟨by rw [same],fun key => by rw [same]; exact sweep_active state now key⟩
  · refine Or.inl ⟨by rw [same],?_,?_⟩
    · intro limited
      have below : ¬ limits.maxPerIp.toNat ≤ ((state.sweep now).view (admissionKey ip)).active := by
        intro reached
        simp [IpEntry.admissible,IpEntry.prune,limited,reached] at fits
      omega
    · intro key
      rw [same,view_insert]
      split
      · rename_i equal; subst key; simp [IpEntry.prune,own]
      · exact sweep_active state now key
  · refine Or.inr ⟨by rw [same],?_⟩
    intro key
    rw [same,view_insert]
    split
    · rename_i equal; subst key; exact own
    · exact sweep_active state now key

theorem release_active (server : AegisServer) (ip key : IpAddr) :
    ((server.release ip).guard.view key).active =
      (server.guard.view key).active - if key = admissionKey ip then 1 else 0 := by
  simp only [AegisServer.release,release_view]
  split <;> simp

theorem release_taken (server : AegisServer) {ip : IpAddr} {before : IpAddr → Nat}
    (taken : ∀ key, (server.guard.view key).active = before key + if key = admissionKey ip then 1 else 0)
    (clean : server.saturated = false) :
    (∀ key, ((server.release ip).guard.view key).active = before key) ∧
      (server.release ip).saturated = false := by
  constructor
  · intro key
    rw [release_active,taken key,Nat.add_sub_cancel]
  · have own := taken (admissionKey ip)
    simp [AegisServer.release,clean,own]

theorem liveOf_append (key : IpAddr) (live : List ActiveSession) (session : ActiveSession) :
    liveOf key (live ++ [session]) = liveOf key live +
      if key = admissionKey session.about.clientIp then 1 else 0 := by
  simp [liveOf,List.countP_cons,eq_comm]

theorem liveOf_erase (key : IpAddr) (live : List ActiveSession) (found : live[position]? = some session) :
    liveOf key live = liveOf key (live.eraseIdx position) +
      if key = admissionKey session.about.clientIp then 1 else 0 := by
  induction live generalizing position with
  | nil => cases found
  | cons first rest ih =>
    cases position with
    | zero =>
      cases found
      simp [liveOf,List.countP_cons,eq_comm]
    | succ position =>
      have inner := ih (by simpa using found)
      simp only [liveOf,List.eraseIdx_cons_succ,List.countP_cons] at inner ⊢
      omega

-- The four exits of `new_client`: refused by the guard, refused by the
-- semaphore, refused by the recorder, and taken in.
theorem newClient_conserved {config : GatewayConfig} {server : AegisServer} (valid : Conserved config server)
    (peer : Option SocketAddr) (world : Provisioning) :
    Conserved config (server.newClient config peer world).2 := by
  unfold AegisServer.newClient
  generalize AegisServer.peerAddr peer = addr
  have outcome := tryAdmit_active config.limits server.guard world.now addr.ip
  cases result : tryAdmit config.limits server.guard world.now addr.ip with
  | mk admitted guard =>
    simp only [result] at outcome
    rcases outcome with ⟨rfl,below,taken⟩ | ⟨rfl,kept⟩
    · have taken : ∀ key, (guard.view key).active = liveOf key server.live + if key = admissionKey addr.ip then 1 else 0 :=
        fun key => by rw [taken key,valid.counts key]
      have total := valid.permits
      cases free : server.permits with
      | zero =>
        obtain ⟨counts,clean⟩ := release_taken {server with guard := guard} taken valid.exact_
        rw [free] at total
        simp only [result]
        exact ⟨counts,total,valid.capped,clean⟩
      | succ permits =>
        simp only [result,AegisServer.provision]
        split
        · refine ⟨?_,?_,?_,valid.exact_⟩
          · intro key
            rw [liveOf_append]
            exact taken key
          · simp only [List.length_append,List.length_singleton]
            omega
          · intro limited key
            have room := below limited
            have before := valid.capped limited key
            rw [valid.counts] at room
            rw [liveOf_append]
            split
            · rename_i own; subst key; exact room
            · exact before
        · obtain ⟨counts,clean⟩ := release_taken {server with guard := guard,permits := permits+1} taken valid.exact_
          exact ⟨counts,by simpa [AegisServer.release,free] using total,valid.capped,clean⟩
    · simp only [result]
      exact ⟨fun key => (kept key).trans (valid.counts key),valid.permits,valid.capped,valid.exact_⟩

theorem drop_conserved {config : GatewayConfig} {server : AegisServer} (valid : Conserved config server)
    (found : server.live[position]? = some session) :
    Conserved config (server.dropSession position session) := by
  have counted : ∀ key, (server.guard.view key).active = liveOf key (server.live.eraseIdx position) +
      if key = admissionKey session.about.clientIp then 1 else 0 := fun key => by
    rw [valid.counts key]
    exact liveOf_erase key server.live found
  obtain ⟨counts,clean⟩ := release_taken server counted valid.exact_
  obtain ⟨bound,_⟩ := List.getElem?_eq_some_iff.mp found
  refine ⟨counts,?_,?_,clean⟩
  · have total := valid.permits
    simp only [AegisServer.dropSession,AegisServer.release,List.length_eraseIdx_of_lt bound]
    omega
  · intro limited key
    have before := valid.capped limited key
    rw [liveOf_erase key server.live found] at before
    exact (Nat.le_add_right _ _).trans before

theorem step_conserved (valid : Conserved config server) (taken : Step config server action next) :
    Conserved config next := by
  cases taken with
  | newClient => exact newClient_conserved valid _ _
  | drop found => exact drop_conserved valid found

theorem new_conserved (config : GatewayConfig) (now : Instant) : Conserved config (.new config now) :=
  ⟨fun _ => rfl,rfl,fun _ _ => Nat.zero_le _,rfl⟩

theorem admission_conserved (config : GatewayConfig) (start : Instant) (actions : List Action) (server : AegisServer)
    (path : Runs (Step config) (.new config start) actions server) :
    (∀ key, (server.guard.view key).active = liveOf key server.live) ∧
    server.live.length ≤ max config.maxSessions 1 ∧
    server.permits = max config.maxSessions 1 - server.live.length ∧
    (0 < config.limits.maxPerIp → ∀ key, liveOf key server.live ≤ config.limits.maxPerIp.toNat) ∧
    server.saturated = false := by
  have valid : Conserved config server := Runs.preserves (new_conserved config start)
    (fun _ _ _ valid taken => step_conserved valid taken) path
  have total := valid.permits
  exact ⟨valid.counts,by omega,by omega,fun limited => valid.capped (UInt32.lt_iff_toNat_lt.mp limited),valid.exact_⟩

-- One client is taken in, a second one is refused by its recorder, and the
-- first one leaves.
def smallConfig : GatewayConfig := ⟨⟨1,0⟩,2⟩
def firstClient : ActiveSession := ⟨⟨"3f9a1c0be2d4",.v4 203 0 113 7,50022⟩,false⟩
def taking : Action := .newClient (some ⟨.v4 203 0 113 7,50022⟩) ⟨0,"3f9a1c0be2d4",true,false⟩
def refusing : Action := .newClient none ⟨5,"77b0c4e1d29a",false,true⟩
def oneTaken : AegisServer := ((AegisServer.new smallConfig 0).newClient smallConfig
  (some ⟨.v4 203 0 113 7,50022⟩) ⟨0,"3f9a1c0be2d4",true,false⟩).2
def oneRefused : AegisServer := (oneTaken.newClient smallConfig none ⟨5,"77b0c4e1d29a",false,true⟩).2

theorem admission_conserved_after_drop :
    (oneRefused.dropSession 0 firstClient).permits = 2 ∧
    (oneRefused.dropSession 0 firstClient).permits =
      max smallConfig.maxSessions 1 - (oneRefused.dropSession 0 firstClient).live.length ∧
    (oneRefused.dropSession 0 firstClient).saturated = false := by
  have path : Runs (Step smallConfig) (.new smallConfig 0) [taking,refusing,.drop 0]
      (oneRefused.dropSession 0 firstClient) :=
    ((Runs.one Step.newClient).append (Runs.one Step.newClient)).append (Runs.one (Step.drop (by decide)))
  have conserved := admission_conserved smallConfig 0 [taking,refusing,.drop 0] _ path
  exact ⟨by decide,conserved.2.2.1,conserved.2.2.2.2⟩

end AegisHoneypot.AdmissionServer
