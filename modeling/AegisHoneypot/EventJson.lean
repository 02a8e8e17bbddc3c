import AegisHoneypot.Telemetry
import AegisHoneypot.AddressText
import AegisHoneypot.Library.JsonValue
import AegisHoneypot.Library.Utf8Text

-- `TelemetryEvent` as a line of `attacks.json`: what `serde_json::to_string`
-- makes of it and what `serde_json::from_str` reads there.
namespace AegisHoneypot.EventJson
open Json Utf8Text

-- The texts of other crates: instants of `chrono`, addresses of the standard
-- library and floats of `serde_json`. It prints `null` for a float that is not
-- finite, reads a number back with a rounding of its own, and takes a number too
-- large for a float as an error.
structure Formats where
  time : DateTime → Text
  readTime : Text → Option DateTime
  readTime_time : ∀ instant, readTime (time instant) = some instant
  readAddress : Text → Option IpAddr
  readAddress_text : ∀ ip, readAddress (AddressText.toText ip) = some ip
  float : Float → Option Literal
  readFloat : Literal → Option Float
  float_finite : ∀ x, (float x).isSome = x.isFinite
  readFloat_finite : ∀ literal x, readFloat literal = some x → x.isFinite = true

abbrev Fields := List (Text × Value)

def member (name : String) (value : Value) : Text × Value := (name.toList,value)

def object (fields : Fields) : Value := .object (Members.ofList fields)

def stringValue (text : String) : Value := .string text.toList

def stringsValue (texts : List String) : Value := .array (Items.ofList (texts.map stringValue))

def optionValue {α : Type} (value : α → Value) : Option α → Value
  | none => .null
  | some given => value given

def floatValue (formats : Formats) (x : Float) : Value := optionValue .number (formats.float x)

def timeValue (formats : Formats) (instant : DateTime) : Value := .string (formats.time instant)

def addressValue (ip : IpAddr) : Value := .string (AddressText.toText ip)

def naturalValue (n : Nat) : Value := .number (natural n)

def geoValue (formats : Formats) (geo : GeoIpInfo) : Value := object [
  member "country" (optionValue stringValue geo.country),
  member "city" (optionValue stringValue geo.city),
  member "asn" (optionValue stringValue geo.asn),
  member "lat" (optionValue (floatValue formats) geo.lat),
  member "lon" (optionValue (floatValue formats) geo.lon)]

def iocsValue (iocs : IocFindings) : Value := object [
  member "strings_preview" (stringsValue iocs.stringsPreview),
  member "ip_addresses" (stringsValue iocs.ipAddresses),
  member "urls" (stringsValue iocs.urls),
  member "base64_blobs" (stringsValue iocs.base64Blobs),
  member "monero_wallets" (stringsValue iocs.moneroWallets)]

-- `rename_all = "snake_case"`
def authMethodText : AuthMethod → String
  | .password => "password"
  | .publicKey => "public_key"

def fileTypeText : PayloadFileType → String
  | .elf => "elf"
  | .shell => "shell"
  | .pe => "pe"
  | .unknown => "unknown"

-- `tag = "event", rename_all = "SCREAMING_SNAKE_CASE"`
def tag : TelemetryEvent → String
  | .sessionStart _ => "SESSION_START"
  | .sessionEnd _ => "SESSION_END"
  | .credentialHarvest _ => "CREDENTIAL_HARVEST"
  | .commandRun _ => "COMMAND_RUN"
  | .syscallExecve _ => "SYSCALL_EXECVE"
  | .syscallConnect _ => "SYSCALL_CONNECT"
  | .syscallMemfdCreate _ => "SYSCALL_MEMFD_CREATE"
  | .payloadCaptured _ => "PAYLOAD_CAPTURED"

-- The three fields every event begins with.
def common (formats : Formats) (timestamp : DateTime) (sessionId : String) (ip : IpAddr) : Fields := [
  member "timestamp" (timeValue formats timestamp),
  member "session_id" (stringValue sessionId),
  member "ip" (addressValue ip)]

def eventFields (formats : Formats) : TelemetryEvent → Fields
  | .sessionStart e => common formats e.timestamp e.sessionId e.ip ++ [
    member "port" (naturalValue e.port.toNat),
    member "geo" (optionValue (geoValue formats) e.geo)]
  | .sessionEnd e => common formats e.timestamp e.sessionId e.ip ++ [
    member "duration_secs" (floatValue formats e.durationSecs)]
  | .credentialHarvest e => common formats e.timestamp e.sessionId e.ip ++ [
    member "username" (stringValue e.username),
    member "password" (optionValue stringValue e.password),
    member "auth_method" (stringValue (authMethodText e.authMethod))]
  | .commandRun e => common formats e.timestamp e.sessionId e.ip ++ [
    member "command" (stringValue e.command)]
  | .syscallExecve e => common formats e.timestamp e.sessionId e.ip ++ [
    member "pid" (naturalValue e.pid.toNat),
    member "filename" (stringValue e.filename),
    member "argv" (stringsValue e.argv)]
  | .syscallConnect e => common formats e.timestamp e.sessionId e.ip ++ [
    member "pid" (naturalValue e.pid.toNat),
    member "dest_ip" (addressValue e.destIp),
    member "dest_port" (naturalValue e.destPort.toNat)]
  | .syscallMemfdCreate e => common formats e.timestamp e.sessionId e.ip ++ [
    member "pid" (naturalValue e.pid.toNat),
    member "name" (stringValue e.name)]
  | .payloadCaptured e => common formats e.timestamp e.sessionId e.ip ++ [
    member "source_url" (optionValue stringValue e.sourceUrl),
    member "sha256" (stringValue e.sha256),
    member "size_bytes" (naturalValue e.sizeBytes),
    member "quarantine_path" (stringValue e.quarantinePath),
    member "file_type" (stringValue (fileTypeText e.fileType)),
    member "iocs" (iocsValue e.iocs)]

def eventValue (formats : Formats) (event : TelemetryEvent) : Value :=
  object (member "event" (stringValue (tag event)) :: eventFields formats event)

def readStringValue : Value → Option String
  | .string text => some (String.ofList text)
  | _ => none

def readStrings : Value → Option (List String)
  | .array items => items.toList.mapM readStringValue
  | _ => none

def readTimeValue (formats : Formats) : Value → Option DateTime
  | .string text => formats.readTime text
  | _ => none

def readAddressValue (formats : Formats) : Value → Option IpAddr
  | .string text => formats.readAddress text
  | _ => none

def readFloatValue (formats : Formats) : Value → Option Float
  | .number literal => formats.readFloat literal
  | _ => none

def readNaturalValue (bound : Nat) : Value → Option Nat
  | .number literal => readNatural bound literal
  | _ => none

def readPort (value : Value) : Option UInt16 := (readNaturalValue (2^16) value).map UInt16.ofNat

def readPid (value : Value) : Option UInt32 := (readNaturalValue (2^32) value).map UInt32.ofNat

def readSize (value : Value) : Option Nat := readNaturalValue (2^64) value

def readAuthMethod (value : Value) : Option AuthMethod :=
  (readStringValue value).bind fun text =>
    if text = "password" then some .password else if text = "public_key" then some .publicKey else none

def readFileType (value : Value) : Option PayloadFileType :=
  (readStringValue value).bind fun text =>
    if text = "elf" then some .elf else if text = "shell" then some .shell else if text = "pe" then some .pe
    else if text = "unknown" then some .unknown else none

def readGeo (formats : Formats) : Value → Option GeoIpInfo
  | .object members => do
    let country ← optionalField readStringValue "country" members.toList
    let city ← optionalField readStringValue "city" members.toList
    let asn ← optionalField readStringValue "asn" members.toList
    let lat ← optionalField (readFloatValue formats) "lat" members.toList
    let lon ← optionalField (readFloatValue formats) "lon" members.toList
    some ⟨country,city,asn,lat,lon⟩
  | _ => none

def readIocs : Value → Option IocFindings
  | .object members => do
    let stringsPreview ← requiredField readStrings "strings_preview" members.toList
    let ipAddresses ← requiredField readStrings "ip_addresses" members.toList
    let urls ← requiredField readStrings "urls" members.toList
    let base64Blobs ← requiredField readStrings "base64_blobs" members.toList
    let moneroWallets ← requiredField readStrings "monero_wallets" members.toList
    some ⟨stringsPreview,ipAddresses,urls,base64Blobs,moneroWallets⟩
  | _ => none

def readFields (formats : Formats) (fields : Fields) (tag : String) : Option TelemetryEvent := do
  let timestamp ← requiredField (readTimeValue formats) "timestamp" fields
  let sessionId ← requiredField readStringValue "session_id" fields
  let ip ← requiredField (readAddressValue formats) "ip" fields
  match tag with
  | "SESSION_START" => do
    let port ← requiredField readPort "port" fields
    let geo ← optionalField (readGeo formats) "geo" fields
    some (.sessionStart ⟨timestamp,sessionId,ip,port,geo⟩)
  | "SESSION_END" => do
    let durationSecs ← requiredField (readFloatValue formats) "duration_secs" fields
    some (.sessionEnd ⟨timestamp,sessionId,ip,durationSecs⟩)
  | "CREDENTIAL_HARVEST" => do
    let username ← requiredField readStringValue "username" fields
    let password ← optionalField readStringValue "password" fields
    let authMethod ← requiredField readAuthMethod "auth_method" fields
    some (.credentialHarvest ⟨timestamp,sessionId,ip,username,password,authMethod⟩)
  | "COMMAND_RUN" => do
    let command ← requiredField readStringValue "command" fields
    some (.commandRun ⟨timestamp,sessionId,ip,command⟩)
  | "SYSCALL_EXECVE" => do
    let pid ← requiredField readPid "pid" fields
    let filename ← requiredField readStringValue "filename" fields
    let argv ← requiredField readStrings "argv" fields
    some (.syscallExecve ⟨timestamp,sessionId,ip,pid,filename,argv⟩)
  | "SYSCALL_CONNECT" => do
    let pid ← requiredField readPid "pid" fields
    let destIp ← requiredField (readAddressValue formats) "dest_ip" fields
    let destPort ← requiredField readPort "dest_port" fields
    some (.syscallConnect ⟨timestamp,sessionId,ip,pid,destIp,destPort⟩)
  | "SYSCALL_MEMFD_CREATE" => do
    let pid ← requiredField readPid "pid" fields
    let name ← requiredField readStringValue "name" fields
    some (.syscallMemfdCreate ⟨timestamp,sessionId,ip,pid,name⟩)
  | "PAYLOAD_CAPTURED" => do
    let sourceUrl ← optionalField readStringValue "source_url" fields
    let sha256 ← requiredField readStringValue "sha256" fields
    let sizeBytes ← requiredField readSize "size_bytes" fields
    let quarantinePath ← requiredField readStringValue "quarantine_path" fields
    let fileType ← requiredField readFileType "file_type" fields
    let iocs ← requiredField readIocs "iocs" fields
    some (.payloadCaptured ⟨timestamp,sessionId,ip,sourceUrl,sha256,sizeBytes,quarantinePath,fileType,iocs⟩)
  | _ => none

def readEvent (formats : Formats) : Value → Option TelemetryEvent
  | .object members => (requiredField readStringValue "event" members.toList).bind (readFields formats members.toList)
  | _ => none

-- `serde_json::from_str::<TelemetryEvent>`
def fromStr (formats : Formats) (text : Text) : Option TelemetryEvent := (parse text).bind (readEvent formats)

-- `serde_json::to_string`
def toString (formats : Formats) (event : TelemetryEvent) : Text := (eventValue formats event).print

-- A float that is printed and read again, and one that may be missing: where it
-- is not finite the field is `null`.
def rereadFloat (formats : Formats) (x : Float) : Option Float := (formats.float x).bind formats.readFloat

def rereadOptional (formats : Formats) : Option Float → Option (Option Float)
  | none => some none
  | some x => match formats.float x with
    | none => some none
    | some literal => (formats.readFloat literal).map some

def rereadGeo (formats : Formats) : Option GeoIpInfo → Option (Option GeoIpInfo)
  | none => some none
  | some geo => do
    let lat ← rereadOptional formats geo.lat
    let lon ← rereadOptional formats geo.lon
    some (some {geo with lat := lat,lon := lon})

-- What an event is after it has been through a line: its floats are reread, a
-- size is a 64-bit integer, everything else is as it was.
def reread (formats : Formats) : TelemetryEvent → Option TelemetryEvent
  | .sessionStart e => (rereadGeo formats e.geo).map fun geo => .sessionStart {e with geo := geo}
  | .sessionEnd e => (rereadFloat formats e.durationSecs).map fun secs => .sessionEnd {e with durationSecs := secs}
  | .payloadCaptured e => if e.sizeBytes < 2^64 then some (.payloadCaptured e) else none
  | event => some event

@[simp] theorem readTimeValue_timeValue (formats : Formats) (instant : DateTime) :
    readTimeValue formats (timeValue formats instant) = some instant := formats.readTime_time instant

@[simp] theorem readAddressValue_addressValue (formats : Formats) (ip : IpAddr) :
    readAddressValue formats (addressValue ip) = some ip := formats.readAddress_text ip

@[simp] theorem readStringValue_stringValue (text : String) : readStringValue (stringValue text) = some text := by
  simp [readStringValue,stringValue]

@[simp] theorem readStrings_stringsValue (texts : List String) : readStrings (stringsValue texts) = some texts := by
  simp only [readStrings,stringsValue,Items.toList_ofList]
  induction texts with
  | nil => rfl
  | cons text rest ih => simp [readStringValue_stringValue,ih]

@[simp] theorem readPort_naturalValue (port : UInt16) : readPort (naturalValue port.toNat) = some port := by
  have small : port.toNat < 2^16 := port.toNat_lt
  simp only [readPort,readNaturalValue,naturalValue,readNatural_natural,small,if_true,Option.map_some,UInt16.ofNat_toNat]

@[simp] theorem readPid_naturalValue (pid : UInt32) : readPid (naturalValue pid.toNat) = some pid := by
  have small : pid.toNat < 2^32 := pid.toNat_lt
  simp only [readPid,readNaturalValue,naturalValue,readNatural_natural,small,if_true,Option.map_some,UInt32.ofNat_toNat]

@[simp] theorem readAuthMethod_text (method : AuthMethod) : readAuthMethod (stringValue (authMethodText method)) = some method := by
  cases method <;> rfl

@[simp] theorem readFileType_text (kind : PayloadFileType) : readFileType (stringValue (fileTypeText kind)) = some kind := by
  cases kind <;> rfl

theorem optionalField_text (text : Option String) (found : field name members = some (some (optionValue stringValue text))) :
    optionalField readStringValue name members = some text := by
  rw [optionalField,found,Option.bind_some]
  cases text with
  | none => rfl
  | some text => exact congrArg (Option.map some) (readStringValue_stringValue text)

theorem optionalField_float (formats : Formats) (x : Option Float)
    (found : field name members = some (some (optionValue (floatValue formats) x))) :
    optionalField (readFloatValue formats) name members = rereadOptional formats x := by
  rw [optionalField,found,Option.bind_some]
  cases x with
  | none => rfl
  | some x =>
    simp only [optionValue,floatValue,rereadOptional]
    cases formats.float x <;> rfl

theorem readGeo_geoValue (formats : Formats) (geo : GeoIpInfo) :
    (readGeo formats (geoValue formats geo)).map some = rereadGeo formats (some geo) := by
  simp only [readGeo,geoValue,object,Members.toList_ofList]
  rw [optionalField_text geo.country (by simp [member]),optionalField_text geo.city (by simp [member]),
    optionalField_text geo.asn (by simp [member]),optionalField_float formats geo.lat (by simp [member]),
    optionalField_float formats geo.lon (by simp [member])]
  simp only [rereadGeo,Option.bind_eq_bind,Option.bind_some]
  cases rereadOptional formats geo.lat with
  | none => rfl
  | some lat => cases rereadOptional formats geo.lon <;> rfl

theorem optionalField_geo (formats : Formats) (geo : Option GeoIpInfo)
    (found : field name members = some (some (optionValue (geoValue formats) geo))) :
    optionalField (readGeo formats) name members = rereadGeo formats geo := by
  rw [optionalField,found,Option.bind_some]
  cases geo with
  | none => rfl
  | some geo => exact readGeo_geoValue formats geo

@[simp] theorem readIocs_iocsValue (iocs : IocFindings) : readIocs (iocsValue iocs) = some iocs := by
  simp only [readIocs,iocsValue,object,Members.toList_ofList]
  simp [requiredField,member]

theorem readFloatValue_floatValue (formats : Formats) (x : Float) :
    readFloatValue formats (floatValue formats x) = rereadFloat formats x := by
  rw [floatValue,rereadFloat]
  cases formats.float x <;> rfl

-- Every field is found under its name, and none twice.
theorem readFields_eventFields (formats : Formats) (event : TelemetryEvent) (value : Value) :
    readFields formats (member "event" value :: eventFields formats event) (tag event) = reread formats event := by
  cases event with
  | sessionStart e =>
    have geo : optionalField (readGeo formats) "geo" (member "event" value :: eventFields formats (.sessionStart e)) =
        rereadGeo formats e.geo := optionalField_geo formats e.geo (by simp [eventFields,common,member])
    simp only [readFields,tag,geo]
    simp [requiredField,eventFields,common,member]
    exact Option.map_eq_bind.symm
  | sessionEnd e =>
    simp [readFields,tag,requiredField,eventFields,common,member,readFloatValue_floatValue]
    exact Option.map_eq_bind.symm
  | credentialHarvest e =>
    have password : optionalField readStringValue "password"
        (member "event" value :: eventFields formats (.credentialHarvest e)) = some e.password :=
      optionalField_text e.password (by simp [eventFields,common,member])
    simp only [readFields,tag,password]
    simp [requiredField,eventFields,common,member,reread]
  | commandRun e => simp [readFields,tag,requiredField,eventFields,common,member,reread]
  | syscallExecve e => simp [readFields,tag,requiredField,eventFields,common,member,reread]
  | syscallConnect e => simp [readFields,tag,requiredField,eventFields,common,member,reread]
  | syscallMemfdCreate e => simp [readFields,tag,requiredField,eventFields,common,member,reread]
  | payloadCaptured e =>
    have sourceUrl : optionalField readStringValue "source_url"
        (member "event" value :: eventFields formats (.payloadCaptured e)) = some e.sourceUrl :=
      optionalField_text e.sourceUrl (by simp [eventFields,common,member])
    have size : readSize (naturalValue e.sizeBytes) = if e.sizeBytes < 2^64 then some e.sizeBytes else none :=
      readNatural_natural _ _
    simp only [readFields,tag,sourceUrl,reread]
    split at size
    · rename_i small
      rw [if_pos small]
      simp [requiredField,eventFields,common,member,size]
    · rename_i large
      rw [if_neg large]
      simp [requiredField,eventFields,common,member,size]

theorem readEvent_eventValue (formats : Formats) (event : TelemetryEvent) :
    readEvent formats (eventValue formats event) = reread formats event := by
  have kind : requiredField readStringValue "event"
      (member "event" (stringValue (tag event)) :: eventFields formats event) = some (tag event) := by
    cases event <;> simp [requiredField,eventFields,common,member]
  simp only [readEvent,eventValue,object,Members.toList_ofList,kind,Option.bind_some]
  exact readFields_eventFields formats event _

theorem texts_nesting (texts : List String) : (stringsValue texts).nesting ≤ 1 := by
  have flat : (Items.ofList (texts.map stringValue)).nesting ≤ 0 :=
    items_nesting (texts.map stringValue) (by simp [stringValue,Value.nesting])
  simp only [stringsValue,Value.nesting]
  omega

theorem option_nesting {α : Type} (value : α → Value) (flat : ∀ x, (value x).nesting ≤ depth) (given : Option α) :
    (optionValue value given).nesting ≤ depth := by
  cases given with
  | none => exact Nat.zero_le _
  | some x => exact flat x

theorem float_nesting (formats : Formats) (x : Float) : (floatValue formats x).nesting ≤ 0 :=
  option_nesting Value.number (fun _ => Nat.le_refl 0) _

theorem object_nesting (fields : Fields) (flat : ∀ field ∈ fields, field.2.nesting ≤ depth) : (object fields).nesting ≤ depth+1 :=
  Nat.succ_le_succ (members_nesting fields flat)

theorem geo_nesting (formats : Formats) (geo : GeoIpInfo) : (geoValue formats geo).nesting ≤ 1 := by
  have text : ∀ given : Option String, (optionValue stringValue given).nesting ≤ 0 :=
    option_nesting stringValue (fun _ => Nat.le_refl 0)
  have number : ∀ given : Option Float, (optionValue (floatValue formats) given).nesting ≤ 0 :=
    option_nesting (floatValue formats) (float_nesting formats)
  apply object_nesting
  simp only [List.forall_mem_cons,member]
  exact ⟨text _,text _,text _,number _,number _,by simp⟩

theorem iocs_nesting (iocs : IocFindings) : (iocsValue iocs).nesting ≤ 2 := by
  apply object_nesting
  simp only [List.forall_mem_cons,member]
  exact ⟨texts_nesting _,texts_nesting _,texts_nesting _,texts_nesting _,texts_nesting _,by simp⟩

theorem common_nesting (formats : Formats) (timestamp : DateTime) (sessionId : String) (ip : IpAddr) :
    ∀ field ∈ common formats timestamp sessionId ip, field.2.nesting ≤ 2 := by
  simp [common,member,timeValue,stringValue,addressValue,Value.nesting]

theorem eventFields_nesting (formats : Formats) (event : TelemetryEvent) :
    ∀ field ∈ eventFields formats event, field.2.nesting ≤ 2 := by
  have text : ∀ given : Option String, (optionValue stringValue given).nesting ≤ 2 :=
    option_nesting stringValue (fun _ => Nat.zero_le 2)
  cases event with
  | sessionStart e =>
    have geo := option_nesting (geoValue formats) (geo_nesting formats) e.geo
    simp only [eventFields,List.forall_mem_append,List.forall_mem_cons,member]
    exact ⟨common_nesting _ _ _ _,Nat.zero_le _,by omega,by simp⟩
  | sessionEnd e =>
    have secs := float_nesting formats e.durationSecs
    simp only [eventFields,List.forall_mem_append,List.forall_mem_cons,member]
    exact ⟨common_nesting _ _ _ _,by omega,by simp⟩
  | credentialHarvest e =>
    simp only [eventFields,List.forall_mem_append,List.forall_mem_cons,member]
    exact ⟨common_nesting _ _ _ _,Nat.zero_le _,text _,Nat.zero_le _,by simp⟩
  | commandRun e =>
    simp only [eventFields,List.forall_mem_append,List.forall_mem_cons,member]
    exact ⟨common_nesting _ _ _ _,Nat.zero_le _,by simp⟩
  | syscallExecve e =>
    have argv := texts_nesting e.argv
    simp only [eventFields,List.forall_mem_append,List.forall_mem_cons,member]
    exact ⟨common_nesting _ _ _ _,Nat.zero_le _,Nat.zero_le _,by omega,by simp⟩
  | syscallConnect e =>
    simp only [eventFields,List.forall_mem_append,List.forall_mem_cons,member]
    exact ⟨common_nesting _ _ _ _,Nat.zero_le _,Nat.zero_le _,Nat.zero_le _,by simp⟩
  | syscallMemfdCreate e =>
    simp only [eventFields,List.forall_mem_append,List.forall_mem_cons,member]
    exact ⟨common_nesting _ _ _ _,Nat.zero_le _,Nat.zero_le _,by simp⟩
  | payloadCaptured e =>
    simp only [eventFields,List.forall_mem_append,List.forall_mem_cons,member]
    exact ⟨common_nesting _ _ _ _,text _,Nat.zero_le _,Nat.zero_le _,Nat.zero_le _,Nat.zero_le _,iocs_nesting _,by simp⟩

theorem fromStr_toString (formats : Formats) (event : TelemetryEvent) :
    fromStr formats (toString formats event) = reread formats event := by
  have shallow : (eventValue formats event).nesting ≤ 3 := by
    apply object_nesting
    rw [List.forall_mem_cons]
    exact ⟨Nat.zero_le _,eventFields_nesting formats event⟩
  have back := parse_print (eventValue formats event) (by unfold recursionLimit; omega)
  rw [fromStr,toString,back,Option.bind_some,readEvent_eventValue]

-- The text of an event with the line feed the collector puts behind it.
def eventLine (formats : Formats) (event : TelemetryEvent) : Line where
  text := toString formats event
  oneLine := print_line _
  bare := by
    rw [toString,eventValue,object,object_last]
    decide

-- When an event comes back as it was.
def Survives (formats : Formats) : TelemetryEvent → Prop
  | .sessionStart e => ∀ geo, e.geo = some geo →
    (∀ x, geo.lat = some x → rereadFloat formats x = some x) ∧ ∀ x, geo.lon = some x → rereadFloat formats x = some x
  | .sessionEnd e => rereadFloat formats e.durationSecs = some e.durationSecs
  | .payloadCaptured e => e.sizeBytes < 2^64
  | _ => True

theorem rereadOptional_self (formats : Formats) (given : Option Float) :
    rereadOptional formats given = some given ↔ ∀ x, given = some x → rereadFloat formats x = some x := by
  cases given with
  | none => simp [rereadOptional]
  | some x =>
    simp only [rereadOptional,rereadFloat,Option.some.injEq,forall_eq']
    cases formats.float x with
    | none => simp
    | some literal => cases formats.readFloat literal <;> simp

theorem rereadGeo_self (formats : Formats) (geo : Option GeoIpInfo) : rereadGeo formats geo = some geo ↔
    ∀ info, geo = some info →
      (∀ x, info.lat = some x → rereadFloat formats x = some x) ∧ ∀ x, info.lon = some x → rereadFloat formats x = some x := by
  cases geo with
  | none => simp [rereadGeo]
  | some info =>
    simp only [Option.some.injEq,forall_eq',← rereadOptional_self]
    obtain ⟨country,city,asn,lat,lon⟩ := info
    simp only [rereadGeo,Option.bind_eq_bind]
    cases rereadOptional formats lat with
    | none => simp
    | some again => cases rereadOptional formats lon <;> simp

theorem reread_self (formats : Formats) (event : TelemetryEvent) : reread formats event = some event ↔ Survives formats event := by
  cases event with
  | sessionStart e =>
    have geo := rereadGeo_self formats e.geo
    obtain ⟨timestamp,sessionId,ip,port,given⟩ := e
    simp only [Survives,← geo,reread]
    cases rereadGeo formats given <;> simp
  | sessionEnd e =>
    obtain ⟨timestamp,sessionId,ip,secs⟩ := e
    simp only [Survives,reread]
    cases rereadFloat formats secs <;> simp
  | payloadCaptured e => simp [reread,Survives]
  | _ => simp [reread,Survives]

def floats : TelemetryEvent → List Float
  | .sessionStart e => e.geo.elim [] fun geo => geo.lat.toList ++ geo.lon.toList
  | .sessionEnd e => [e.durationSecs]
  | _ => []

theorem rereadFloat_finite (formats : Formats) (same : rereadFloat formats x = some y) :
    x.isFinite = true ∧ y.isFinite = true := by
  obtain ⟨literal,printed,read⟩ := Option.bind_eq_some_iff.mp same
  exact ⟨(formats.float_finite x).symm.trans (Option.isSome_of_eq_some printed),formats.readFloat_finite literal y read⟩

theorem survives_floats (survives : Survives formats event) : ∀ x ∈ floats event, rereadFloat formats x = some x := by
  intro x member
  cases event with
  | sessionStart e =>
    cases given : e.geo with
    | none => simp [floats,given] at member
    | some geo =>
      have both := survives geo given
      simp only [floats,given,Option.elim_some,List.mem_append,Option.mem_toList] at member
      exact member.elim (both.1 x) (both.2 x)
  | sessionEnd e =>
    cases List.mem_singleton.mp member
    exact survives
  | _ => cases member

-- The line of an event is one line, it is read again, and what comes back is
-- the event itself unless a float or a size does not survive. A float that does
-- is finite.
theorem event_line_round_trip (formats : Formats) (event : TelemetryEvent) :
    '\n' ∉ toString formats event ∧ fromStr formats (toString formats event) = reread formats event ∧
      (fromStr formats (toString formats event) = some event ↔ Survives formats event) ∧
      (Survives formats event → ∀ x ∈ floats event, x.isFinite = true) := by
  have back := fromStr_toString formats event
  refine ⟨(eventLine formats event).oneLine,back,?_,?_⟩
  · rw [back]
    exact reread_self formats event
  · intro survives x member
    exact (rereadFloat_finite formats (survives_floats survives x member)).1

end AegisHoneypot.EventJson
