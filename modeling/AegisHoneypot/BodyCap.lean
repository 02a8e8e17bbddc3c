import AegisHoneypot.FetchOutcomes

namespace AegisHoneypot.BodyCap
open FileTree Utf8Text GatewayHost PayloadFetch SessionInput FetchOutcomes

-- What the server sends before its stream ends or breaks, without the borders
-- that the single reads happen to have.
def streamed : List (Option Bytes) → Bytes
  | some (byte :: chunk) :: rest => byte :: chunk ++ streamed rest
  | _ => []

theorem ended_whole {body : Bytes} (room : body.length ≤ cap) : body = (body ++ []).take cap := by
  rw [List.append_nil,List.take_of_length_le room]

-- The loop keeps its room: what it holds is always a beginning of the stream
-- that fits, and it stops at the read that fills the cap.
theorem readBody_take (cap : Nat) (reads : List (Option Bytes)) (body : Bytes) (room : body.length ≤ cap) :
    readBody cap reads body = (body ++ streamed reads).take cap := by
  induction reads generalizing body with
  | nil => exact ended_whole room
  | cons read rest ih =>
    match read with
    | none => exact ended_whole room
    | some [] => exact ended_whole room
    | some (byte :: chunk) =>
      simp only [readBody,streamed]
      by_cases filled : cap - body.length ≤ (byte :: chunk).length
      · rw [if_pos filled,List.take_append,List.take_of_length_le room,List.take_append_of_le_length filled]
      · have short : (body ++ byte :: chunk).length ≤ cap := by
          rw [List.length_append]
          omega
        rw [if_neg filled,ih _ short,List.append_assoc]

theorem body_front (cap : Nat) (reads : List (Option Bytes)) : readBody cap reads [] = (streamed reads).take cap :=
  readBody_take cap reads [] (Nat.zero_le cap)

-- The same answer with all its bytes in a single read.
def joined (response : Response) : Response := {response with reads := [some (streamed response.reads)]}

def joinedIo (io : FetchIo) : FetchIo := {io with answer := fun url target => (io.answer url target).map joined}

theorem streamed_single (body : Bytes) : streamed [some body] = body := by
  cases body with
  | nil => rfl
  | cons byte rest => exact List.append_nil _

theorem joined_body (cap : Nat) (response : Response) : readBody cap (joined response).reads [] = readBody cap response.reads [] := by
  rw [body_front,body_front,joined,streamed_single]

theorem fetch_joined (platform : Platform) (io : FetchIo) (job : FetchJob) (host : Host) :
    fetch platform (joinedIo io) job host = fetch platform io job host := by
  have asked : (joinedIo io).toSocketAddrs = io.toSocketAddrs := rfl
  have looked : ∀ url, lookUp (joinedIo io) url host = lookUp io url host := fun _ => rfl
  unfold fetch fetchPayloadBlocking
  cases platform.parseUrl job.url with
  | none => rfl
  | some parsed =>
    dsimp only
    rw [asked,looked]
    cases vetTarget io.toSocketAddrs parsed with
    | error refusal => rfl
    | ok target =>
      dsimp only [joinedIo]
      cases io.answer parsed target with
      | none => rfl
      | some response =>
        simp only [Option.map_some,joined_body]
        rfl

-- What is left to do once the body is there.
def delivered (platform : Platform) (io : FetchIo) (job : FetchJob) (parsed : Url) (target : IpAddr × UInt16) (body : Bytes)
    (host : Host) : (Text × Option PayloadInfo) × Host :=
  let qpath := job.quarantineDir ++ ['/'] ++ platform.sha256 body
  ((fakeWgetProgress job.url (body.length/1024),some ⟨platform.sha256 body,body.length,qpath,extractIocsFromBytes body⟩),
    keepPayload platform io qpath job.mountRoot parsed body (dial io parsed target (lookUp io parsed host)))

theorem fetch_delivered (delivery : Delivery platform io job parsed target response) (host : Host) :
    fetch platform io job host = delivered platform io job parsed target (readBody job.maxBytes response.reads []) host := by
  unfold fetch fetchPayloadBlocking delivered
  simp [delivery.parses,delivery.vetted,delivery.built,delivery.answered,delivery.short]

theorem body_capped (platform : Platform) (io : FetchIo) (job : FetchJob) (host : Host) :
    (∀ reads, readBody job.maxBytes reads [] = (streamed reads).take job.maxBytes ∧
      (readBody job.maxBytes reads []).length = min (streamed reads).length job.maxBytes) ∧
    (∀ parsed target response, Delivery platform io job parsed target response →
      fetch platform io job host =
        delivered platform io job parsed target ((streamed response.reads).take job.maxBytes) host) ∧
    ∀ other, joinedIo other = joinedIo io → fetch platform other job host = fetch platform io job host := by
  refine ⟨?_,?_,?_⟩
  · intro reads
    rw [body_front]
    exact ⟨rfl,by rw [List.length_take,Nat.min_comm]⟩
  · intro parsed target response delivery
    rw [← body_front]
    exact fetch_delivered delivery host
  · intro other same
    rw [← fetch_joined platform other,same,fetch_joined]

example : readBody 5 [some [1,2,3],some [4,5,6],some [7]] [] = readBody 5 [some [1],some [2,3,4,5],none] [] := by decide

end AegisHoneypot.BodyCap
