import AegisHoneypot.GatewayHost
import AegisHoneypot.Library.Pattern
import Mathlib.Data.List.Dedup

namespace AegisHoneypot.Forensics
open FileTree Utf8Text GatewayHost Chronicle Pattern

def elfMagic : Bytes := [0x7f,0x45,0x4c,0x46]
def mzMagic : Bytes := [0x4d,0x5a]
def shebang : Bytes := [0x23,0x21]

def detectFileType (data : Bytes) : PayloadFileType :=
  if 4 ≤ data.length ∧ data.take 4 = elfMagic then .elf
  else if 2 ≤ data.length ∧ data.take 2 = mzMagic then .pe
  else if 2 ≤ data.length ∧ data.take 2 = shebang then .shell
  else .unknown

-- `is_ascii_graphic` or a blank
def isPrintable (byte : UInt8) : Bool := (0x21 ≤ byte && byte ≤ 0x7e) || byte == 0x20

def keepRun (minLen : Nat) (results : List Text) (current : Bytes) : List Text :=
  if minLen ≤ current.length then results ++ (fromUtf8 current).toList else results

def extractStep (minLen : Nat) (state : List Text × Bytes) (byte : UInt8) : List Text × Bytes :=
  if isPrintable byte then (state.1,state.2 ++ [byte]) else (keepRun minLen state.1 state.2,[])

def extractStrings (data : Bytes) (minLen : Nat) : List Text :=
  let scanned := data.foldl (extractStep minLen) ([],[])
  keepRun minLen scanned.1 scanned.2

-- Both extractors search text of printable ASCII only, so the character classes
-- of the expressions are those of ASCII.
def reIpv4 : Pattern :=
  inOrder [boundary,times 3 (seq (between 1 3 digit) (one (· == '.'))),between 1 3 digit,boundary]

def reUrl : Pattern := inOrder [word "http",upTo 1 (one (· == 's')),word "://",many1 (noneOf "'<>")]

def reBase64 : Pattern :=
  seq (atLeast 32 (one (fun c => c.isAlphanum || c == '+' || c == '/'))) (upTo 2 (one (· == '=')))

def reMonero : Pattern :=
  inOrder [one (· == '4'),oneOf "0123456789AB",
    times 93 (oneOf "123456789ABCDEFGHJKLMNPQRSTUVWXYZabcdefghijkmnopqrstuvwxyz")]

-- Through a `HashSet`: each match once, in no particular order.
def distinct (found : List Text) : List String := found.dedup.map String.ofList

def extractIocs (strings : List Text) : IocFindings :=
  let haystack := Text.join " " strings
  { stringsPreview := (strings.take 20).map String.ofList
    ipAddresses := distinct (reIpv4.findIter haystack)
    urls := distinct (reUrl.findIter haystack)
    base64Blobs := ((reBase64.findIter haystack).take 10).map String.ofList
    moneroWallets := (reMonero.findIter haystack).map String.ofList }

structure ForensicsEngine where
  quarantineDir : Text
  stringMinLen : Nat
  maxAnalysisBytes : Nat

inductive AegisError where
  | io
  | channelClosed
  deriving DecidableEq, Repr

structure FileIo where
  stats : Bool
  reads : Bool
  writes : Bool
  restricts : Bool
  sends : Bool
  now : DateTime

structure ForensicsIo where
  createsQuarantine : Bool
  lists : Path → Bool
  file : Path → FileIo

section Engine
variable (sha256 : Bytes → Text) (engine : ForensicsEngine) (info : SessionMeta)

def capturedEvent (now : DateTime) (data : Bytes) : PayloadCapturedEvent where
  timestamp := now
  sessionId := info.sessionId
  ip := info.clientIp
  sourceUrl := none
  sha256 := String.ofList (sha256 data)
  sizeBytes := data.length
  quarantinePath := String.ofList (joinPath engine.quarantineDir (sha256 data))
  fileType := detectFileType data
  iocs := extractIocs (extractStrings data engine.stringMinLen)

-- A write that fails may leave part of a file behind, which is no copy.
def quarantine (io : FileIo) (path : Path) (data : Bytes) (host : Host) : Except AegisError Bool × Host :=
  if io.writes = false then (.error .io,host) else
  let kept := host.note (.quarantined (some path) (joinPath engine.quarantineDir (sha256 data)) data)
  if io.restricts = false then (.error .io,kept)
  else if io.sends = false then (.error .channelClosed,kept)
  else (.ok true,kept.note (.emitted (.payloadCaptured (capturedEvent sha256 engine info io.now data))))

-- A file without metadata counts as one of size 0.
def declaredSize (io : FileIo) (data : Bytes) : Nat := if io.stats then data.length else 0

def analyzeFile (io : FileIo) (path : Path) (data : Bytes) (host : Host) : Except AegisError Bool × Host :=
  if engine.maxAnalysisBytes < declaredSize io data then (.ok false,host)
  else if io.reads = false then (.error .io,host)
  else if data = [] then (.ok false,host)
  else if detectFileType data = .unknown then (.ok false,host)
  else quarantine sha256 engine info io path data host

-- Entries that `WalkDir` cannot list are skipped, and a file's error ends in a
-- warning.
def analyzeEntry (io : ForensicsIo) (disk : Disk) (host : Host) (path : Path) : Host :=
  if io.lists path then
    match disk.lookup path with
    | some (.file data) => (analyzeFile sha256 engine info (io.file path) path data host).2
    | _ => host
  else host

def walk (disk : Disk) (upperDir : Path) : List Path := disk.keys.filter (fun path => decide (upperDir <+: path))

def analyzeUpperdir (io : ForensicsIo) (upperDir : Path) (host : Host) : Except AegisError Unit × Host :=
  if io.createsQuarantine then
    (.ok (),(walk host.layer.disk upperDir).foldl (analyzeEntry sha256 engine info io host.layer.disk) host)
  else (.error .io,host)

end Engine

def Magic (data : Bytes) : Prop := elfMagic <+: data ∨ mzMagic <+: data ∨ shebang <+: data

structure IsEvidence (engine : ForensicsEngine) (disk : Disk) (upperDir path : Path) (data : Bytes) : Prop where
  inside : upperDir <+: path
  held : disk.lookup path = some (.file data)
  some_ : data ≠ []
  small : data.length ≤ engine.maxAnalysisBytes
  magic : Magic data

theorem take_magic (magic data : Bytes) :
    (magic.length ≤ data.length ∧ data.take magic.length = magic) ↔ magic <+: data := by
  rw [List.prefix_iff_eq_take]
  constructor
  · intro given
    obtain ⟨_,same⟩ := given
    exact same.symm
  · intro same
    refine ⟨?_,same.symm⟩
    have bounded := congrArg List.length same
    rw [List.length_take] at bounded
    omega

theorem detectFileType_exact (data : Bytes) : detectFileType data = .unknown ↔ ¬ Magic data := by
  have elf : 4 ≤ data.length ∧ data.take 4 = elfMagic ↔ elfMagic <+: data := take_magic elfMagic data
  have mz : 2 ≤ data.length ∧ data.take 2 = mzMagic ↔ mzMagic <+: data := take_magic mzMagic data
  have script : 2 ≤ data.length ∧ data.take 2 = shebang ↔ shebang <+: data := take_magic shebang data
  unfold detectFileType Magic
  simp only [elf,mz,script]
  split
  · simp_all
  · split
    · simp_all
    · split
      · simp_all
      · simp_all

def IsCapture : Effect → Prop
  | .quarantined (some _) _ _ => True
  | .emitted (.payloadCaptured _) => True
  | _ => False

theorem walk_mem (evidence : IsEvidence engine disk upperDir path data) : path ∈ walk disk upperDir := by
  have present : path ∈ disk := AList.lookup_isSome.mp (by simp [evidence.held])
  simp only [walk,List.mem_filter,decide_eq_true_eq]
  exact ⟨AList.mem_keys.mp present,evidence.inside⟩

section Pass
variable (sha256 : Bytes → Text) (engine : ForensicsEngine) (info : SessionMeta)

-- Neither a refused `chmod` nor a closed channel takes the copy back.
theorem quarantine_copied (io : FileIo) (path : Path) (data : Bytes) (host : Host) (other : Path) (content : Bytes) :
    Copied (quarantine sha256 engine info io path data host).2.log other content ↔
      Copied host.log other content ∨ (io.writes = true ∧ other = path ∧ content = data) := by
  unfold quarantine
  dsimp only
  split
  · simp_all
  · rename_i written
    have done : io.writes = true := by simpa using written
    have kept : Copied (host.log ++ [.quarantined (some path) (joinPath engine.quarantineDir (sha256 data)) data])
        other content ↔ Copied host.log other content ∨ (io.writes = true ∧ other = path ∧ content = data) := by
      rw [copied_note]
      simp [done,eq_comm]
    split
    · exact kept
    · split
      · exact kept
      · simp only [Host.note_log]
        rw [copied_note,kept]
        simp

theorem quarantine_grows (io : FileIo) (path : Path) (data : Bytes) (host : Host) :
    Grows IsCapture host.log (quarantine sha256 engine info io path data host).2.log := by
  unfold quarantine
  dsimp only
  split
  · exact Grows.refl _ _
  · have kept : Grows IsCapture host.log
        (host.note (.quarantined (some path) (joinPath engine.quarantineDir (sha256 data)) data)).log :=
      Grows.one _ trivial
    split
    · exact kept
    · split
      · exact kept
      · exact kept.trans (Grows.one _ trivial)

theorem quarantine_layer (io : FileIo) (path : Path) (data : Bytes) (host : Host) :
    (quarantine sha256 engine info io path data host).2.layer = host.layer := by
  unfold quarantine
  dsimp only
  split
  · rfl
  · split
    · rfl
    · split <;> rfl

theorem analyzeFile_host (io : FileIo) (path : Path) (data : Bytes) (host : Host) :
    (analyzeFile sha256 engine info io path data host).2 = host ∨
      (analyzeFile sha256 engine info io path data host).2 = (quarantine sha256 engine info io path data host).2 := by
  unfold analyzeFile
  split
  · exact Or.inl rfl
  · split
    · exact Or.inl rfl
    · split
      · exact Or.inl rfl
      · split
        · exact Or.inl rfl
        · exact Or.inr rfl

theorem analyzeFile_evidence (io : FileIo) (path : Path) (data : Bytes) (host : Host)
    (evidence : IsEvidence engine disk upperDir path data) :
    (analyzeFile sha256 engine info io path data host).2 =
      if io.reads then (quarantine sha256 engine info io path data host).2 else host := by
  have declared : ¬ engine.maxAnalysisBytes < declaredSize io data := by
    have := evidence.small
    unfold declaredSize
    split <;> omega
  have known : ¬ detectFileType data = .unknown := by
    rw [detectFileType_exact]
    exact not_not_intro evidence.magic
  unfold analyzeFile
  rw [if_neg declared]
  cases read : io.reads with
  | false => simp
  | true => simp [evidence.some_,known]

theorem analyzeEntry_host (io : ForensicsIo) (disk : Disk) (host : Host) (visited : Path) :
    analyzeEntry sha256 engine info io disk host visited = host ∨ ∃ data,
      analyzeEntry sha256 engine info io disk host visited =
        (quarantine sha256 engine info (io.file visited) visited data host).2 := by
  unfold analyzeEntry
  split
  · split
    · rename_i data _
      rcases analyzeFile_host sha256 engine info (io.file visited) visited data host with same | same
      · exact Or.inl same
      · exact Or.inr ⟨data,same⟩
    · exact Or.inl rfl
  · exact Or.inl rfl

theorem analyzeEntry_other (io : ForensicsIo) (disk : Disk) (host : Host) (differ : path ≠ visited) (data : Bytes) :
    Copied (analyzeEntry sha256 engine info io disk host visited).log path data ↔ Copied host.log path data := by
  rcases analyzeEntry_host sha256 engine info io disk host visited with same | ⟨found,same⟩
  · rw [same]
  · rw [same,quarantine_copied]
    simp [differ]

-- One entry of the walk copies the file it names, when each step up to the
-- write succeeds, and no other.
theorem analyzeEntry_copied (io : ForensicsIo) (host : Host) (evidence : IsEvidence engine disk upperDir path data)
    (visited : Path) :
    Copied (analyzeEntry sha256 engine info io disk host visited).log path data ↔ Copied host.log path data ∨
      (visited = path ∧ io.lists path = true ∧ (io.file path).reads = true ∧ (io.file path).writes = true) := by
  by_cases same : visited = path
  · subst visited
    unfold analyzeEntry
    rw [evidence.held]
    dsimp only
    rw [analyzeFile_evidence sha256 engine info _ path data host evidence]
    cases listed : io.lists path with
    | false => simp
    | true =>
      cases read : (io.file path).reads with
      | false => simp
      | true => simp [quarantine_copied]
  · rw [analyzeEntry_other sha256 engine info io disk host (Ne.symm same)]
    simp [same]

theorem analyzeEntry_grows (io : ForensicsIo) (disk : Disk) (host : Host) (visited : Path) :
    Grows IsCapture host.log (analyzeEntry sha256 engine info io disk host visited).log := by
  rcases analyzeEntry_host sha256 engine info io disk host visited with same | ⟨found,same⟩
  · rw [same]
    exact Grows.refl _ _
  · rw [same]
    exact quarantine_grows sha256 engine info _ visited found host

theorem analyzeEntry_layer (io : ForensicsIo) (disk : Disk) (host : Host) (visited : Path) :
    (analyzeEntry sha256 engine info io disk host visited).layer = host.layer := by
  rcases analyzeEntry_host sha256 engine info io disk host visited with same | ⟨found,same⟩
  · rw [same]
  · rw [same,quarantine_layer]

theorem walked_copied (io : ForensicsIo) (evidence : IsEvidence engine disk upperDir path data) (paths : List Path)
    (host : Host) :
    Copied (paths.foldl (analyzeEntry sha256 engine info io disk) host).log path data ↔ Copied host.log path data ∨
      (path ∈ paths ∧ io.lists path = true ∧ (io.file path).reads = true ∧ (io.file path).writes = true) := by
  induction paths generalizing host with
  | nil => simp
  | cons visited rest ih =>
    rw [List.foldl_cons,ih,analyzeEntry_copied sha256 engine info io host evidence,List.mem_cons]
    constructor
    · intro either
      rcases either with (old | ⟨rfl,done⟩) | ⟨later,done⟩
      · exact Or.inl old
      · exact Or.inr ⟨Or.inl rfl,done⟩
      · exact Or.inr ⟨Or.inr later,done⟩
    · intro either
      rcases either with old | ⟨rfl | later,done⟩
      · exact Or.inl (Or.inl old)
      · exact Or.inl (Or.inr ⟨rfl,done⟩)
      · exact Or.inr ⟨later,done⟩

def Kept (io : ForensicsIo) (path : Path) : Prop :=
  io.createsQuarantine = true ∧ io.lists path = true ∧ (io.file path).reads = true ∧ (io.file path).writes = true

theorem analyzeUpperdir_copied (io : ForensicsIo) (upperDir : Path) (host : Host)
    (evidence : IsEvidence engine host.layer.disk upperDir path data) :
    Copied (analyzeUpperdir sha256 engine info io upperDir host).2.log path data ↔
      Copied host.log path data ∨ Kept io path := by
  unfold analyzeUpperdir Kept
  split
  · rename_i created
    dsimp only
    rw [walked_copied sha256 engine info io evidence]
    simp [created,walk_mem evidence]
  · rename_i refused
    simp [refused]

theorem analyzeUpperdir_other (io : ForensicsIo) (upperDir : Path) (host : Host) (outside : ¬ upperDir <+: path)
    (data : Bytes) :
    Copied (analyzeUpperdir sha256 engine info io upperDir host).2.log path data ↔ Copied host.log path data := by
  unfold analyzeUpperdir
  split
  · have apart : path ∉ walk host.layer.disk upperDir := by simp [walk,outside]
    revert apart
    generalize walk host.layer.disk upperDir = paths
    generalize host.layer.disk = disk
    intro apart
    induction paths generalizing host with
    | nil => rfl
    | cons visited rest ih =>
      rw [List.mem_cons,not_or] at apart
      exact (ih _ apart.2).trans (analyzeEntry_other sha256 engine info io disk host apart.1 data)
  · rfl

theorem analyzeUpperdir_grows (io : ForensicsIo) (upperDir : Path) (host : Host) :
    Grows IsCapture host.log (analyzeUpperdir sha256 engine info io upperDir host).2.log := by
  unfold analyzeUpperdir
  split
  · generalize walk host.layer.disk upperDir = paths
    generalize host.layer.disk = disk
    induction paths generalizing host with
    | nil => exact Grows.refl _ _
    | cons visited rest ih => exact (analyzeEntry_grows sha256 engine info io disk host visited).trans (ih _)
  · exact Grows.refl _ _

theorem analyzeUpperdir_layer (io : ForensicsIo) (upperDir : Path) (host : Host) :
    (analyzeUpperdir sha256 engine info io upperDir host).2.layer = host.layer := by
  unfold analyzeUpperdir
  split
  · generalize walk host.layer.disk upperDir = paths
    generalize host.layer.disk = disk
    induction paths generalizing host with
    | nil => rfl
    | cons visited rest ih => exact (ih _).trans (analyzeEntry_layer sha256 engine info io disk host visited)
  · rfl

end Pass
end AegisHoneypot.Forensics
