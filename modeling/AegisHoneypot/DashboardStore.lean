import AegisHoneypot.Telemetry
import AegisHoneypot.Library.KeyTable
import AegisHoneypot.Library.Text
import Mathlib.Data.Finset.Card

namespace AegisHoneypot.DashboardStore

def recentCap : Nat := 500
def hourlyWindowHours : Int := 48
def sessionArchiveCap : Nat := 5000
def iocCap : Nat := 500
def commandCap : Nat := 3000
def counterCap : Nat := 10000

structure SessionRecord where
  sessionId : String
  ip : IpAddr
  port : UInt16
  geo : Option GeoIpInfo
  startTime : DateTime
  endTime : Option DateTime
  durationSecs : Option Float
  username : Option String
  password : Option String
  commandCount : Nat
  payloadCount : Nat
  deriving DecidableEq, Repr

def SessionRecord.threatScore (record : SessionRecord) : Nat :=
  record.commandCount + (if record.username.isSome then 5 else 0) + record.payloadCount * 25

structure GeoPoint where
  lat : Float
  lon : Float
  country : Option String
  city : Option String
  count : Nat
  deriving DecidableEq, Repr

structure Store where
  totalSessions : Nat
  totalCommands : Nat
  totalCredentials : Nat
  totalPayloads : Nat
  uniqueIps : Finset IpAddr
  ipCounts : KeyTable IpAddr Nat
  countryCounts : KeyTable String Nat
  usernameCounts : KeyTable String Nat
  passwordCounts : KeyTable String Nat
  commandCounts : KeyTable String Nat
  hourlyActivity : KeyTable Int Nat
  recent : List TelemetryEvent
  sessions : KeyTable String SessionRecord
  sessionOrder : List String
  geoPoints : KeyTable (Int32 × Int32) GeoPoint
  knownIpIocs : Finset String
  knownUrlIocs : Finset String
  knownWalletIocs : Finset String
  knownFullCommands : Finset String

def Store.default : Store :=
  ⟨0,0,0,0,∅,∅,∅,∅,∅,∅,∅,[],∅,[],∅,∅,∅,∅,∅⟩

def insertCapped (set : Finset String) (value : String) (cap : Nat) : Finset String :=
  if value ∈ set ∨ set.card < cap then insert value set else set

def bumpCapped {K : Type} [DecidableEq K] (map : KeyTable K Nat) (key : K) (cap : Nat) : KeyTable K Nat :=
  match map.lookup key with
  | some count => map.insert key (count+1)
  | none => if map.len < cap then map.insert key 1 else map

def eventTimestamp : TelemetryEvent → DateTime
  | .sessionStart e => e.timestamp
  | .sessionEnd e => e.timestamp
  | .credentialHarvest e => e.timestamp
  | .commandRun e => e.timestamp
  | .syscallExecve e => e.timestamp
  | .syscallConnect e => e.timestamp
  | .syscallMemfdCreate e => e.timestamp
  | .payloadCaptured e => e.timestamp

def eventIp : TelemetryEvent → IpAddr
  | .sessionStart e => e.ip
  | .sessionEnd e => e.ip
  | .credentialHarvest e => e.ip
  | .commandRun e => e.ip
  | .syscallExecve e => e.ip
  | .syscallConnect e => e.ip
  | .syscallMemfdCreate e => e.ip
  | .payloadCaptured e => e.ip

namespace Store

-- `now` is the wall clock the source reads while it folds the event in.
def bumpHour (store : Store) (now : DateTime) (instant : DateTime) : Store :=
  let hour := timestamp instant / 3600
  let bumped := store.hourlyActivity.insert hour (((store.hourlyActivity.lookup hour).getD 0)+1)
  let cutoff := timestamp now / 3600 - hourlyWindowHours
  {store with hourlyActivity := bumped.retain (fun h _ => decide (cutoff ≤ h))}

def bumpGeoPoint (store : Store) (geo : Option GeoIpInfo) : Store :=
  match geo with
  | none => store
  | some geo =>
    match geo.lat,geo.lon with
    | some lat,some lon =>
      let key := ((lat*2.0).round.toInt32,(lon*2.0).round.toInt32)
      let fresh : GeoPoint := ⟨key.1.toFloat/2.0,key.2.toFloat/2.0,geo.country,geo.city,0⟩
      let point := (store.geoPoints.lookup key).getD fresh
      {store with geoPoints := store.geoPoints.insert key {point with count := point.count+1}}
    | _,_ => store

-- The eviction loop of `archive_session_start`: the oldest id is popped, and
-- its record removed, while the order is longer than the archive.
def evictOldest : List String → KeyTable String SessionRecord → List String × KeyTable String SessionRecord
  | [],sessions => ([],sessions)
  | oldest :: rest,sessions =>
    if sessionArchiveCap < (oldest :: rest).length then evictOldest rest (sessions.erase oldest)
    else (oldest :: rest,sessions)

def archiveSessionStart (store : Store) (id : String) (ip : IpAddr) (port : UInt16)
    (geo : Option GeoIpInfo) (startTime : DateTime) : Store :=
  let (order,sessions) :=
    if id ∈ store.sessions then (store.sessionOrder,store.sessions)
    else evictOldest (store.sessionOrder ++ [id]) store.sessions
  {store with
    sessionOrder := order
    sessions := sessions.insert id ⟨id,ip,port,geo,startTime,none,none,none,none,0,0⟩}

def commandVerb (command : String) : String :=
  match Text.splitWhitespace command.toList with
  | [] => command
  | verb :: _ => String.ofList verb

def ingestKind (store : Store) : TelemetryEvent → Store
  | .sessionStart e =>
    let counted := {store with totalSessions := store.totalSessions+1}
    let ranked := match e.geo.bind (·.country) with
      | some country =>
        if country ≠ "Local" then
          {counted with countryCounts := bumpCapped counted.countryCounts country counterCap}
        else counted
      | none => counted
    (ranked.bumpGeoPoint e.geo).archiveSessionStart e.sessionId e.ip e.port e.geo e.timestamp
  | .sessionEnd e =>
    {store with sessions := store.sessions.modify e.sessionId fun record =>
      {record with endTime := some e.timestamp,durationSecs := some e.durationSecs}}
  | .commandRun e =>
    {store with
      totalCommands := store.totalCommands+1
      commandCounts := bumpCapped store.commandCounts (commandVerb e.command) counterCap
      knownFullCommands := insertCapped store.knownFullCommands e.command commandCap
      sessions := store.sessions.modify e.sessionId fun record =>
        {record with commandCount := record.commandCount+1}}
  | .credentialHarvest e =>
    {store with
      totalCredentials := store.totalCredentials+1
      usernameCounts := bumpCapped store.usernameCounts e.username counterCap
      passwordCounts := match e.password with
        | some password => bumpCapped store.passwordCounts password counterCap
        | none => store.passwordCounts
      sessions := store.sessions.modify e.sessionId fun record =>
        {record with username := some e.username,password := e.password}}
  | .payloadCaptured e =>
    {store with
      totalPayloads := store.totalPayloads+1
      sessions := store.sessions.modify e.sessionId fun record =>
        {record with payloadCount := record.payloadCount+1}
      knownIpIocs := e.iocs.ipAddresses.foldl (insertCapped · · iocCap) store.knownIpIocs
      knownUrlIocs := e.iocs.urls.foldl (insertCapped · · iocCap) store.knownUrlIocs
      knownWalletIocs := e.iocs.moneroWallets.foldl (insertCapped · · iocCap) store.knownWalletIocs}
  | .syscallExecve _ => store
  | .syscallConnect _ => store
  | .syscallMemfdCreate _ => store

def pushRecent (store : Store) (event : TelemetryEvent) : Store :=
  let recent := store.recent ++ [event]
  {store with recent := recent.drop (recent.length - recentCap)}

def ingest (store : Store) (now : DateTime) (event : TelemetryEvent) : Store :=
  let bumped := store.bumpHour now (eventTimestamp event)
  let ip := eventIp event
  let counted := {bumped with
    uniqueIps := if ip ∈ bumped.uniqueIps ∨ bumped.uniqueIps.card < counterCap then
      insert ip bumped.uniqueIps else bumped.uniqueIps
    ipCounts := bumpCapped bumped.ipCounts ip counterCap}
  (counted.ingestKind event).pushRecent event

def ingestAll (store : Store) (events : List (DateTime × TelemetryEvent)) : Store :=
  events.foldl (fun store arrival => store.ingest arrival.1 arrival.2) store

end Store
end AegisHoneypot.DashboardStore
