import Mathlib.Data.Int.Basic

namespace AegisHoneypot

-- `aegis-common`: addresses, session identity and the telemetry schema shared
-- by every crate. An IPv6 address is kept as its two 64-bit halves, octets 0 to
-- 7 and 8 to 15; instants of `chrono` are nanoseconds since the Unix epoch.
inductive IpAddr where
  | v4 (a b c d : UInt8)
  | v6 (high low : UInt64)
  deriving DecidableEq, Repr

abbrev DateTime := Int

def timestamp (instant : DateTime) : Int := instant / 1000000000

-- Nothing reads the start time of a session from here.
structure SessionMeta where
  sessionId : String
  clientIp : IpAddr
  clientPort : UInt16
  deriving DecidableEq, Repr

structure GeoIpInfo where
  country : Option String
  city : Option String
  asn : Option String
  lat : Option Float
  lon : Option Float
  deriving DecidableEq, Repr

structure SessionStartEvent where
  timestamp : DateTime
  sessionId : String
  ip : IpAddr
  port : UInt16
  geo : Option GeoIpInfo
  deriving DecidableEq, Repr

structure SessionEndEvent where
  timestamp : DateTime
  sessionId : String
  ip : IpAddr
  durationSecs : Float
  deriving DecidableEq, Repr

inductive AuthMethod where
  | password | publicKey
  deriving DecidableEq, Repr

structure CredentialHarvestEvent where
  timestamp : DateTime
  sessionId : String
  ip : IpAddr
  username : String
  password : Option String
  authMethod : AuthMethod
  deriving DecidableEq, Repr

structure CommandRunEvent where
  timestamp : DateTime
  sessionId : String
  ip : IpAddr
  command : String
  deriving DecidableEq, Repr

structure SyscallExecveEvent where
  timestamp : DateTime
  sessionId : String
  ip : IpAddr
  pid : UInt32
  filename : String
  argv : List String
  deriving DecidableEq, Repr

structure SyscallConnectEvent where
  timestamp : DateTime
  sessionId : String
  ip : IpAddr
  pid : UInt32
  destIp : IpAddr
  destPort : UInt16
  deriving DecidableEq, Repr

structure SyscallMemfdCreateEvent where
  timestamp : DateTime
  sessionId : String
  ip : IpAddr
  pid : UInt32
  name : String
  deriving DecidableEq, Repr

inductive PayloadFileType where
  | elf | shell | pe | unknown
  deriving DecidableEq, Repr

structure IocFindings where
  stringsPreview : List String
  ipAddresses : List String
  urls : List String
  base64Blobs : List String
  moneroWallets : List String
  deriving DecidableEq, Repr

structure PayloadCapturedEvent where
  timestamp : DateTime
  sessionId : String
  ip : IpAddr
  sourceUrl : Option String
  sha256 : String
  sizeBytes : Nat
  quarantinePath : String
  fileType : PayloadFileType
  iocs : IocFindings
  deriving DecidableEq, Repr

inductive TelemetryEvent where
  | sessionStart (event : SessionStartEvent)
  | sessionEnd (event : SessionEndEvent)
  | credentialHarvest (event : CredentialHarvestEvent)
  | commandRun (event : CommandRunEvent)
  | syscallExecve (event : SyscallExecveEvent)
  | syscallConnect (event : SyscallConnectEvent)
  | syscallMemfdCreate (event : SyscallMemfdCreateEvent)
  | payloadCaptured (event : PayloadCapturedEvent)
  deriving DecidableEq, Repr

-- The source returns an `Option` here; every kind of event carries an id.
def TelemetryEvent.sessionId : TelemetryEvent → String
  | .sessionStart e => e.sessionId
  | .sessionEnd e => e.sessionId
  | .credentialHarvest e => e.sessionId
  | .commandRun e => e.sessionId
  | .syscallExecve e => e.sessionId
  | .syscallConnect e => e.sessionId
  | .syscallMemfdCreate e => e.sessionId
  | .payloadCaptured e => e.sessionId

end AegisHoneypot
