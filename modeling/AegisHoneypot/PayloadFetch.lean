import AegisHoneypot.Forensics
import AegisHoneypot.SocketAddresses

namespace AegisHoneypot.PayloadFetch
open FileTree Utf8Text GatewayHost OverlaySandbox Forensics Chronicle

def isBlockedV4 (a b c d : UInt8) : Bool :=
  a == 127 ||
  (a == 10 || (a == 172 && 16 ≤ b && b ≤ 31) || (a == 192 && b == 168)) ||
  (a == 169 && b == 254) ||
  (a == 0 && b == 0 && c == 0 && d == 0) ||
  (a == 255 && b == 255 && c == 255 && d == 255) ||
  (224 ≤ a && a ≤ 239) ||
  a == 0 ||
  (a == 100 && 64 ≤ b && b < 128) ||
  (a == 192 && b == 0 && c == 2) ||
  (a == 198 && 18 ≤ b && b < 20) ||
  (a == 198 && b == 51 && c == 100) ||
  (a == 203 && b == 0 && c == 113) ||
  240 ≤ a

-- `::ffff:a.b.c.d` falls under the rules for `a.b.c.d`.
def isBlockedIp : IpAddr → Bool
  | .v4 a b c d => isBlockedV4 a b c d
  | .v6 high low =>
    if high == 0 && low >>> 32 == 0xffff then
      isBlockedV4 (low >>> 24).toUInt8 (low >>> 16).toUInt8 (low >>> 8).toUInt8 low.toUInt8
    else
      (high == 0 && low == 1) || (high == 0 && low == 0) || high >>> 56 == 0xff ||
      (high >>> 48) &&& 0xfe00 == 0xfc00 || (high >>> 48) &&& 0xffc0 == 0xfe80

-- The parts of a URL as the URL library reads it: `literal` is the address of a
-- host that is an IP address and no name, `lastSegment` the last of the path
-- segments, if there are any.
structure Url where
  scheme : Text
  hostStr : Option Text
  literal : Option IpAddr
  portOrKnownDefault : Option UInt16
  lastSegment : Option Text
  deriving DecidableEq, Repr

inductive Refusal where
  | schemeNotAllowed (scheme : Text)
  | noHost
  | noPort
  | unresolved (host : Text) (reason : Text)
  | noAddresses (host : Text)
  | blocked (host : Text) (ip : IpAddr)
  deriving DecidableEq, Repr

def vetTarget (resolve : Text → UInt16 → Except Text (List IpAddr)) (url : Url) : Except Refusal (IpAddr × UInt16) :=
  if url.scheme ≠ "http".toList ∧ url.scheme ≠ "https".toList then .error (.schemeNotAllowed url.scheme) else
  match url.hostStr with
  | none => .error .noHost
  | some host =>
    match url.portOrKnownDefault with
    | none => .error .noPort
    | some port =>
      match resolve host port with
      | .error reason => .error (.unresolved host reason)
      | .ok addrs =>
        match addrs with
        | [] => .error (.noAddresses host)
        | first :: _ => match addrs.find? isBlockedIp with
          | some bad => .error (.blocked host bad)
          | none => .ok (first,port)

def safeFilename (candidate : Text) : Text :=
  if candidate = [] ∨ candidate = ".".toList ∨ candidate = "..".toList ∨ '/' ∈ candidate ∨ '\\' ∈ candidate ∨
    candidate.startsWith "." = true then "index.html".toList
  else candidate.take 128

def fakeWgetProgress (url : Text) (sizeKb : Nat) : Text :=
  let last := (url.split '/').getLast?.getD "payload".toList
  let filename := if last = [] then "index.html".toList else last
  let kilobytes := if sizeKb = 0 then 64 else sizeKb
  let host := (url.split '/')[2]?.getD "example.com".toList
  let sizeBytes := (toString (kilobytes*1024)).toList
  let size := (toString kilobytes).toList
  "--2026-08-27 18:25:00--  ".toList ++ url ++
  "\r\nResolving ".toList ++ host ++ " (".toList ++ host ++ ")... 192.0.2.1\r\nConnecting to ".toList ++ host ++
  "|192.0.2.1|:80... connected.\r\nHTTP request sent, awaiting response... 200 OK\r\nLength: ".toList ++ sizeBytes ++
  " (".toList ++ size ++ "K) [application/octet-stream]\r\nSaving to: '".toList ++ filename ++ "'\r\n\r\n".toList ++
  filename ++ "   100%[===================>]  ".toList ++ size ++ ".00K  --.-KB/s    in 0.1s\r\n\r\n".toList ++
  "2026-08-27 18:25:01 (512 KB/s) - '".toList ++ filename ++ "' saved [".toList ++ sizeBytes ++ "]\r\n".toList

def extractIocsFromBytes (data : Bytes) : IocFindings :=
  let text : Text := data.map (fun byte => if isPrintable byte then Char.ofNat byte.toNat else ' ')
  { stringsPreview := []
    ipAddresses := distinct (reIpv4.findIter text)
    urls := distinct (reUrl.findIter text)
    base64Blobs := []
    moneroWallets := [] }

-- The body arrives in the chunks that `read` returns, an empty one at the end
-- of the stream and none when a read fails.
structure Response where
  contentLength : Option Nat
  reads : List (Option Bytes)

def readBody (cap : Nat) : List (Option Bytes) → Bytes → Bytes
  | [],body => body
  | none :: _,body => body
  | some [] :: _,body => body
  | some chunk :: rest,body =>
    let remaining := cap-body.length
    if remaining ≤ chunk.length then body ++ chunk.take remaining else readBody cap rest (body ++ chunk)

-- One fetch as the libraries see it: `resolve` is the system's resolver, and
-- `dials` are the connections that the HTTP client opens for a request when it
-- follows no redirect and has the host pinned to an address.
structure FetchIo where
  resolve : Text → UInt16 → Except Text (List IpAddr)
  builds : Bool
  dials : Url → IpAddr × UInt16 → List (IpAddr × UInt16)
  answer : Url → IpAddr × UInt16 → Option Response
  quarantines : Bool
  saves : Bool

def FetchIo.toSocketAddrs (io : FetchIo) : Text → UInt16 → Except Text (List IpAddr) :=
  SocketAddresses.toSocketAddrs io.resolve

structure PayloadInfo where
  sha256 : Text
  sizeBytes : Nat
  quarantinePath : Text
  iocs : IocFindings

-- Libraries and services the gateway calls; `overlay` names the directories of
-- the session's sandbox, whether or not the kernel has them mounted.
structure Platform where
  kernel : OverlayKernel
  overlay : OverlayMount
  sha256 : Bytes → Text
  parseUrl : Text → Option Url
  geoip : IpAddr → Option GeoIpInfo

def Platform.fs (platform : Platform) : HostFs Layer := layerFs platform.kernel platform.overlay

-- The two copies of a fetched body: one in quarantine, one for the attacker to
-- find. Both writes may fail without changing the answer.
def keepPayload (platform : Platform) (io : FetchIo) (target : Text) (mountRoot : Option Path) (url : Url) (body : Bytes)
    (host : Host) : Host :=
  let quarantined := if io.quarantines then host.note (.quarantined none target body) else host
  match mountRoot with
  | none => quarantined
  | some mount =>
    let path := mount ++ ["root".toList,safeFilename (url.lastSegment.getD [])]
    if io.saves then
      {quarantined with layer := platform.fs.apply quarantined.layer (.write path body)}.note (.payloadSaved path body)
    else quarantined

-- What `vet_target` looks up, once scheme, host and port are there.
def lookupOf (url : Url) : Option (Text × UInt16) :=
  if url.scheme ≠ "http".toList ∧ url.scheme ≠ "https".toList then none else
  match url.hostStr,url.portOrKnownDefault with
  | some host,some port => some (host,port)
  | _,_ => none

def lookUp (io : FetchIo) (url : Url) (host : Host) : Host :=
  match lookupOf url with
  | none => host
  | some (name,port) => host.note (.lookedUp name port (io.toSocketAddrs name port))

def dial (io : FetchIo) (url : Url) (target : IpAddr × UInt16) (host : Host) : Host :=
  (io.dials url target).foldl (fun host address => host.note (.dialled address.1 address.2)) host

def fetchPayloadBlocking (platform : Platform) (io : FetchIo) (url quarantineDir : Text) (mountRoot : Option Path)
    (maxBytes : Nat) (host : Host) : (Text × Option PayloadInfo) × Host :=
  let decoy := (fakeWgetProgress url 64,none)
  match platform.parseUrl url with
  | none => (decoy,host)
  | some parsed =>
    let asked := lookUp io parsed host
    match vetTarget io.toSocketAddrs parsed with
    | .error _ => (decoy,asked)
    | .ok target =>
      if io.builds = false then (decoy,asked) else
      let connected := dial io parsed target asked
      match io.answer parsed target with
      | none => (decoy,connected)
      | some response =>
        if response.contentLength.any (fun length => decide (maxBytes < length)) then (decoy,connected) else
        let body := readBody maxBytes response.reads []
        let digest := platform.sha256 body
        let qpath := quarantineDir ++ ['/'] ++ digest
        ((fakeWgetProgress url (body.length/1024),some ⟨digest,body.length,qpath,extractIocsFromBytes body⟩),
          keepPayload platform io qpath mountRoot parsed body connected)

def IsFetch : Effect → Prop
  | .lookedUp _ _ _ => True
  | .dialled _ _ => True
  | .quarantined none _ _ => True
  | .payloadSaved _ _ => True
  | _ => False

def IsKept : Effect → Prop
  | .quarantined none _ _ => True
  | .payloadSaved _ _ => True
  | _ => False

theorem kept_fetch (effect : Effect) (kept : IsKept effect) : IsFetch effect := by
  unfold IsKept at kept
  split at kept
  · trivial
  · trivial
  · exact kept.elim

theorem keepPayload_grows (platform : Platform) (io : FetchIo) (target : Text) (mountRoot : Option Path) (url : Url)
    (body : Bytes) (host : Host) : Grows IsKept host.log (keepPayload platform io target mountRoot url body host).log := by
  have quarantined : Grows IsKept host.log
      (if io.quarantines then host.note (.quarantined none target body) else host).log := by
    split
    · exact Grows.one _ trivial
    · exact Grows.refl _ _
  unfold keepPayload
  cases mountRoot with
  | none => exact quarantined
  | some mount =>
    dsimp only
    split
    · exact quarantined.trans (Grows.one _ trivial)
    · exact quarantined

theorem lookUp_grows (io : FetchIo) (url : Url) (host : Host) : Grows IsFetch host.log (lookUp io url host).log := by
  unfold lookUp
  split
  · exact Grows.refl _ _
  · exact Grows.one _ trivial

theorem dial_log (io : FetchIo) (url : Url) (target : IpAddr × UInt16) (host : Host) :
    (dial io url target host).log = host.log ++ (io.dials url target).map (fun address => .dialled address.1 address.2) := by
  unfold dial
  induction io.dials url target generalizing host with
  | nil => simp
  | cons address rest ih =>
    rw [List.foldl_cons,ih]
    simp

theorem dial_grows (io : FetchIo) (url : Url) (target : IpAddr × UInt16) (host : Host) :
    Grows IsFetch host.log (dial io url target host).log := by
  refine ⟨_,dial_log io url target host,?_⟩
  intro effect member
  obtain ⟨address,_,rfl⟩ := List.mem_map.mp member
  trivial

theorem fetch_grows (platform : Platform) (io : FetchIo) (url quarantineDir : Text) (mountRoot : Option Path)
    (maxBytes : Nat) (host : Host) :
    Grows IsFetch host.log (fetchPayloadBlocking platform io url quarantineDir mountRoot maxBytes host).2.log := by
  unfold fetchPayloadBlocking
  cases platform.parseUrl url with
  | none => exact Grows.refl _ _
  | some parsed =>
    have asked := lookUp_grows io parsed host
    dsimp only
    cases vetTarget io.toSocketAddrs parsed with
    | error refusal => exact asked
    | ok target =>
      have connected := asked.trans (dial_grows io parsed target _)
      dsimp only
      split
      · exact asked
      · cases io.answer parsed target with
        | none => exact connected
        | some response =>
          dsimp only
          split
          · exact connected
          · exact connected.trans ((keepPayload_grows platform io _ mountRoot parsed _ _).weaken kept_fetch)

end AegisHoneypot.PayloadFetch
