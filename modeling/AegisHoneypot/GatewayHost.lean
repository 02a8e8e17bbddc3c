import AegisHoneypot.Telemetry
import AegisHoneypot.OverlaySandbox
import AegisHoneypot.VirtualFileSystem
import AegisHoneypot.Library.Chronicle

namespace AegisHoneypot.GatewayHost
open FileTree Utf8Text OverlaySandbox Vfs Chronicle

inductive CastStream where
  | output
  | input
  deriving DecidableEq, Repr

-- What the gateway does outside its own memory, in the order in which it does
-- it. `quarantined` is a completed write into the quarantine directory, with
-- the file it copies when there is one; `dispatched` has the virtual file
-- system before and after a shell command, and `removed` the disk as it was
-- when a session directory went.
inductive Effect where
  | emitted (event : TelemetryEvent)
  | sent (data : Bytes)
  | recorded (stream : CastStream) (data : Text)
  | recorderFlushed
  | recorderClosed
  | channelClosed
  | fetchStarted (url : Text)
  | lookedUp (name : Text) (port : UInt16) (answer : Except Text (List IpAddr))
  | dialled (ip : IpAddr) (port : UInt16)
  | quarantined (source : Option Path) (target : Text) (data : Bytes)
  | payloadSaved (path : Path) (data : Bytes)
  | diskChanged (op : DiskOp)
  | dispatched (before after : VirtualFileSystem)
  | removed (upperDir : Path) (disk : Disk)

structure Host where
  layer : Layer
  log : List Effect

-- The telemetry and the terminal output among the effects.
def emissions (log : List Effect) : List TelemetryEvent := log.filterMap fun
  | .emitted event => some event
  | _ => none

def outputs (log : List Effect) : Bytes := log.flatMap fun
  | .sent data => data
  | _ => []

theorem emissions_append (log new : List Effect) : emissions (log ++ new) = emissions log ++ emissions new :=
  List.filterMap_append ..

theorem outputs_append (log new : List Effect) : outputs (log ++ new) = outputs log ++ outputs new :=
  List.flatMap_append ..

namespace Host

def note (host : Host) (effect : Effect) : Host := {host with log := host.log ++ [effect]}

@[simp] theorem note_log (host : Host) (effect : Effect) : (host.note effect).log = host.log ++ [effect] := rfl

@[simp] theorem note_layer (host : Host) (effect : Effect) : (host.note effect).layer = host.layer := rfl

end Host

-- `PathBuf::join` with a plain file name
def joinPath (dir name : Text) : Text :=
  if dir = [] ∨ dir.getLast? = some '/' then dir ++ name else dir ++ ['/'] ++ name

def Copied (log : List Effect) (path : Path) (content : Bytes) : Prop :=
  ∃ target, .quarantined (some path) target content ∈ log

theorem copied_note (log : List Effect) (effect : Effect) (path : Path) (content : Bytes) :
    Copied (log ++ [effect]) path content ↔
      Copied log path content ∨ ∃ target, effect = .quarantined (some path) target content := by
  unfold Copied
  constructor
  · intro given
    obtain ⟨target,member⟩ := given
    rcases List.mem_append.mp member with old | new
    · exact Or.inl ⟨target,old⟩
    · exact Or.inr ⟨target,(List.mem_singleton.mp new).symm⟩
  · intro either
    rcases either with ⟨target,old⟩ | ⟨target,rfl⟩
    · exact ⟨target,List.mem_append_left _ old⟩
    · exact ⟨target,by simp⟩

end AegisHoneypot.GatewayHost
