import AegisHoneypot.Forensics

namespace AegisHoneypot.Forensics
open FileTree Utf8Text GatewayHost

instance (data : Bytes) : Decidable (Magic data) := inferInstanceAs (Decidable (_ ∨ _ ∨ _))

-- A pass in which every step of every file succeeds.
def ForensicsIo.working (now : Path → DateTime) : ForensicsIo :=
  ⟨true,fun _ => true,fun path => ⟨true,true,true,true,true,now path⟩⟩

def captures (log : List Effect) : List PayloadCapturedEvent := log.filterMap fun
  | .emitted (.payloadCaptured event) => some event
  | _ => none

-- The files that must be recorded, whatever their size.
def artifactAt (disk : Disk) (path : Path) : Option (Path × Bytes) :=
  match disk.lookup path with
  | some (.file data) => if Magic data then some (path,data) else none
  | _ => none

def artifacts (disk : Disk) (upperDir : Path) : List (Path × Bytes) := (walk disk upperDir).filterMap (artifactAt disk)

theorem magic_nonempty (magic : Magic data) : data ≠ [] := by
  intro empty
  subst empty
  revert magic
  decide

theorem artifactAt_some : artifactAt disk visited = some (path,data) ↔
    visited = path ∧ disk.lookup path = some (.file data) ∧ Magic data := by
  unfold artifactAt
  split
  · rename_i content held
    by_cases magic : Magic content
    · rw [if_pos magic]
      constructor
      · intro same
        cases same
        exact ⟨rfl,held,magic⟩
      · intro given
        obtain ⟨rfl,other,_⟩ := given
        rw [held] at other
        cases other
        rfl
    · rw [if_neg magic]
      constructor
      · intro same
        cases same
      · intro given
        obtain ⟨rfl,other,marked⟩ := given
        rw [held] at other
        cases other
        exact absurd marked magic
  · rename_i other
    constructor
    · intro same
      cases same
    · intro given
      obtain ⟨rfl,held,_⟩ := given
      exact absurd held (other data)

theorem artifacts_mem : (path,data) ∈ artifacts disk upperDir ↔
    upperDir <+: path ∧ disk.lookup path = some (.file data) ∧ Magic data := by
  unfold artifacts walk
  rw [List.mem_filterMap]
  constructor
  · intro given
    obtain ⟨visited,member,found⟩ := given
    obtain ⟨rfl,held,magic⟩ := artifactAt_some.mp found
    exact ⟨by simpa using (List.mem_filter.mp member).2,held,magic⟩
  · intro given
    obtain ⟨inside,held,magic⟩ := given
    have present : path ∈ disk := AList.lookup_isSome.mp (by simp [held])
    exact ⟨path,List.mem_filter.mpr ⟨AList.mem_keys.mp present,by simpa using inside⟩,artifactAt_some.mpr ⟨rfl,held,magic⟩⟩

section Pass
variable (sha256 : Bytes → Text) (engine : ForensicsEngine) (info : SessionMeta) (now : Path → DateTime)

def fits (artifact : Path × Bytes) : Bool := decide (artifact.2.length ≤ engine.maxAnalysisBytes)

def recordOf (artifact : Path × Bytes) : PayloadCapturedEvent :=
  capturedEvent sha256 engine info (now artifact.1) artifact.2

theorem analyzeFile_working (path : Path) (data : Bytes) (host : Host) :
    captures (analyzeFile sha256 engine info ((ForensicsIo.working now).file path) path data host).2.log =
      captures host.log ++ if Magic data ∧ data.length ≤ engine.maxAnalysisBytes then
        [recordOf sha256 engine info now (path,data)] else [] := by
  have declared : declaredSize ((ForensicsIo.working now).file path) data = data.length := rfl
  unfold analyzeFile
  rw [declared]
  by_cases large : engine.maxAnalysisBytes < data.length
  · rw [if_pos large,if_neg (by omega)]
    simp
  · rw [if_neg large,if_neg (by simp [ForensicsIo.working])]
    by_cases magic : Magic data
    · have known : ¬ detectFileType data = .unknown := by
        rw [detectFileType_exact]
        exact not_not_intro magic
      rw [if_neg (magic_nonempty magic),if_neg known,if_pos ⟨magic,by omega⟩]
      simp [quarantine,ForensicsIo.working,captures,recordOf]
    · have unknown := (detectFileType_exact data).mpr magic
      simp [unknown,magic]

theorem analyzeEntry_working (disk : Disk) (host : Host) (visited : Path) :
    captures (analyzeEntry sha256 engine info (.working now) disk host visited).log =
      captures host.log ++ (((artifactAt disk visited).toList.filter (fits engine)).map (recordOf sha256 engine info now)) := by
  have listed : (ForensicsIo.working now).lists visited = true := rfl
  unfold analyzeEntry artifactAt
  rw [if_pos listed]
  rcases held : disk.lookup visited with _ | _ | data
  · simp
  · simp
  · dsimp only
    rw [analyzeFile_working]
    by_cases magic : Magic data
    · by_cases small : data.length ≤ engine.maxAnalysisBytes
      · simp [magic,small,fits]
      · simp [magic,small,fits]
    · simp [magic]

theorem walk_working (disk : Disk) (paths : List Path) (host : Host) :
    captures (paths.foldl (analyzeEntry sha256 engine info (.working now) disk) host).log =
      captures host.log ++ (((paths.filterMap (artifactAt disk)).filter (fits engine)).map (recordOf sha256 engine info now)) := by
  induction paths generalizing host with
  | nil => simp
  | cons visited rest ih =>
    rw [List.foldl_cons,ih,analyzeEntry_working,List.append_assoc,← List.map_append,← List.filter_append]
    cases found : artifactAt disk visited with
    | none => simp [found]
    | some artifact => simp [found]

-- What the pass over a directory records: one event for each artifact within
-- the limit.
theorem analyzeUpperdir_working (upperDir : Path) (host : Host) :
    captures (analyzeUpperdir sha256 engine info (.working now) upperDir host).2.log = captures host.log ++
      ((artifacts host.layer.disk upperDir).filter (fits engine)).map (recordOf sha256 engine info now) := by
  have created : (ForensicsIo.working now).createsQuarantine = true := rfl
  unfold analyzeUpperdir
  rw [if_pos created]
  exact walk_working sha256 engine info now host.layer.disk _ host

-- The pass adds one event with the right hash and size for each artifact. The
-- order of the walk does not matter.
def RecordsEveryArtifact (upperDir : Path) (host : Host) : Prop :=
  ∃ events, captures (analyzeUpperdir sha256 engine info (.working now) upperDir host).2.log = captures host.log ++ events ∧
    (events.map (fun event => (event.sha256,event.sizeBytes))).Perm
      ((artifacts host.layer.disk upperDir).map (fun artifact => (String.ofList (sha256 artifact.2),artifact.2.length)))

theorem records_exactly_small (upperDir : Path) (host : Host) :
    RecordsEveryArtifact sha256 engine info now upperDir host ↔
      ∀ artifact ∈ artifacts host.layer.disk upperDir, fits engine artifact = true := by
  have added := analyzeUpperdir_working sha256 engine info now upperDir host
  constructor
  · intro records
    obtain ⟨events,same,perm⟩ := records
    rw [added] at same
    have recorded := List.append_cancel_left same
    have count := perm.length_eq
    rw [← recorded,List.length_map,List.length_map,List.length_map] at count
    exact List.length_filter_eq_length_iff.mp count
  · intro small
    refine ⟨_,added,?_⟩
    rw [List.filter_eq_self.mpr small,List.map_map]
    exact List.Perm.refl _

theorem artifacts_recorded_iff_small (upperDir : Path) (host : Host) :
    RecordsEveryArtifact sha256 engine info now upperDir host ↔
      ∀ path data, upperDir <+: path → host.layer.disk.lookup path = some (.file data) → data ≠ [] → Magic data →
        data.length ≤ engine.maxAnalysisBytes := by
  rw [records_exactly_small]
  constructor
  · intro small path data inside held _ magic
    simpa [fits] using small (path,data) (artifacts_mem.mpr ⟨inside,held,magic⟩)
  · intro small artifact member
    obtain ⟨inside,held,magic⟩ := artifacts_mem.mp member
    simpa [fits] using small artifact.1 artifact.2 inside held (magic_nonempty magic) magic

end Pass

-- Ten bytes under a limit of nine.
def dropper : Bytes := [0x23,0x21,0x2f,0x62,0x69,0x6e,0x2f,0x73,0x68,0x0a]

def dropperHash : Bytes → Text := fun _ => "a8076d3d28d21e02012b20eaf7dbf75409a6277134439025f282e368e3305abf".toList

def dropperHost : Host :=
  ⟨⟨(∅ : Disk).insert ["upper".toList,"run.sh".toList] (.file dropper),none⟩,[]⟩

theorem oversized_dropper_unrecorded :
    ¬ RecordsEveryArtifact dropperHash ⟨"./quarantine".toList,4,9⟩ ⟨"7",.v4 198 51 100 45,40022⟩ (fun _ => 0)
      ["upper".toList] dropperHost := by
  rw [records_exactly_small]
  intro small
  have held : dropperHost.layer.disk.lookup ["upper".toList,"run.sh".toList] = some (.file dropper) := AList.lookup_insert _
  have member := artifacts_mem.mpr ⟨show ["upper".toList] <+: ["upper".toList,"run.sh".toList] by decide,held,
    Or.inr (Or.inr (by decide))⟩
  exact absurd (small _ member) (by decide)

end AegisHoneypot.Forensics
