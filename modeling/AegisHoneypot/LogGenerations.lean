import AegisHoneypot.LogRotation

namespace AegisHoneypot.LogGenerations
open Utf8Text EventCollector LogRotation

-- `EventCollector::run` at the head of its loop.
structure Collector where
  dir : LogDir
  written : Nat

def Collector.start (dir : LogDir) : Collector := ⟨(openLog dir).1,(openLog dir).2⟩

-- One turn of the loop, where every write, rename and open succeeds.
def Collector.log (collector : Collector) (line : Line) : Collector :=
  let appended := appendLine collector.dir line
  match afterAppend collector.written line with
  | .logging written => ⟨appended,written⟩
  | _ => .start (rotateLog .never appended).2

inductive CollectorStep where
  | event (line : Line)
  | restart

def Collector.step (collector : Collector) : CollectorStep → Collector
  | .event line => collector.log line
  | .restart => .start collector.dir

def Collector.run (steps : List CollectorStep) : Collector := steps.foldl Collector.step (.start .empty)

def linesOf (steps : List CollectorStep) : List Line := steps.filterMap fun
  | .event line => some line
  | .restart => none

-- A file that was rotated: its last line took it to the limit.
def Rotated (content : Bytes) (held : List Line) : Prop :=
  content = bytesOf held ∧ ∃ earlier last, held = earlier ++ [last] ∧ maxLogBytes ≤ content.length ∧
    content.length < maxLogBytes + last.bytes.length

-- `kept n` are the lines in generation n, number 0 being the current file.
structure Stored (collector : Collector) (logged : List Line) (kept : Nat → List Line) : Prop where
  suffix : ∃ dropped, logged = dropped ++ (kept 4 ++ kept 3 ++ kept 2 ++ kept 1 ++ kept 0)
  current : collector.dir 0 = some (bytesOf (kept 0))
  written : collector.written = (bytesOf (kept 0)).length
  room : collector.written < maxLogBytes
  absent : ∀ n, collector.dir (n+1) = none → kept (n+1) = []
  rotated : ∀ n content, collector.dir (n+1) = some content → n+1 ≤ logGenerations ∧ Rotated content (kept (n+1))

theorem start_current (dir : LogDir) (content : Bytes) (present : dir 0 = some content) : (openLog dir).1 = dir := by
  have same : (openLog dir).1 = Function.update dir 0 (dir 0) := by simp [openLog,present]
  rw [same,Function.update_eq_self]

theorem empty_stored : Stored (.start .empty) [] (fun _ => []) where
  suffix := ⟨[],rfl⟩
  current := rfl
  written := rfl
  room := by decide
  absent := fun _ _ => rfl
  rotated := by
    intro n content present
    simp [Collector.start,openLog,LogDir.empty] at present

-- A restart takes the size of the file for the count, which it was already.
theorem restart_stored (stored : Stored collector logged kept) : Stored (.start collector.dir) logged kept := by
  have same : Collector.start collector.dir = collector := by
    have count : (openLog collector.dir).2 = collector.written := by
      simp [openLog,stored.current,stored.written]
    rw [Collector.start,start_current collector.dir _ stored.current,count]
  rw [same]
  exact stored

theorem append_current (stored : Stored collector logged kept) (line : Line) :
    appendLine collector.dir line = Function.update collector.dir 0 (some (bytesOf (kept 0 ++ [line]))) := by
  have one : bytesOf [line] = line.bytes := by simp [bytesOf]
  rw [appendLine,stored.current,Option.getD_some,bytesOf_append,one]

theorem append_stored (stored : Stored collector logged kept) (line : Line)
    (short : collector.written + line.bytes.length < maxLogBytes) :
    Stored ⟨appendLine collector.dir line,collector.written + line.bytes.length⟩ (logged ++ [line])
      (Function.update kept 0 (kept 0 ++ [line])) := by
  have one : bytesOf [line] = line.bytes := by simp [bytesOf]
  rw [append_current stored]
  constructor
  · obtain ⟨dropped,same⟩ := stored.suffix
    exact ⟨dropped,by simp [same]⟩
  · simp
  · simp [stored.written,bytesOf_append,one]
  · exact short
  · intro n none
    exact stored.absent n (by simpa using none)
  · intro n content present
    exact stored.rotated n content (by simpa using present)

-- The lines after a rotation, generation by generation.
def shiftedLines (kept : Nat → List Line) (line : Line) : Nat → List Line
  | 0 => []
  | 1 => kept 0 ++ [line]
  | n+2 => if n+2 ≤ logGenerations then kept (n+1) else kept (n+2)

theorem rotate_stored (stored : Stored collector logged kept) (line : Line)
    (full : maxLogBytes ≤ collector.written + line.bytes.length) :
    Stored (.start (rotateLog .never (appendLine collector.dir line)).2) (logged ++ [line]) (shiftedLines kept line) := by
  have one : bytesOf [line] = line.bytes := by simp [bytesOf]
  have size : (bytesOf (kept 0 ++ [line])).length = collector.written + line.bytes.length := by
    rw [bytesOf_append,one,List.length_append,stored.written]
  have present : appendLine collector.dir line 0 = some (bytesOf (kept 0 ++ [line])) := by simp [append_current stored]
  have older : ∀ n, appendLine collector.dir line (n+1) = collector.dir (n+1) := by
    intro n
    simp [append_current stored]
  have moved := rotateLog_exact (appendLine collector.dir line) present
  have opened : (openLog (rotateLog .never (appendLine collector.dir line)).2) =
      (Function.update (rotateLog .never (appendLine collector.dir line)).2 0 (some []),0) := by
    simp [openLog,moved 0]
  have first : (Collector.start (rotateLog .never (appendLine collector.dir line)).2).dir 1 =
      some (bytesOf (kept 0 ++ [line])) := by
    simp only [Collector.start,opened]
    rw [Function.update_of_ne (by omega),moved]
    rfl
  have later : ∀ n, (Collector.start (rotateLog .never (appendLine collector.dir line)).2).dir (n+2) =
      if n+2 ≤ logGenerations then collector.dir (n+1) else collector.dir (n+2) := by
    intro n
    simp only [Collector.start,opened]
    rw [Function.update_of_ne (by omega),moved,if_neg (by omega),if_neg (by omega),show n+2-1 = n+1 from rfl,older,older]
  constructor
  · obtain ⟨dropped,same⟩ := stored.suffix
    refine ⟨dropped ++ kept 4,?_⟩
    simp [same,shiftedLines,logGenerations]
  · simp [Collector.start,opened,shiftedLines,bytesOf]
  · simp [Collector.start,opened,shiftedLines,bytesOf]
  · simp only [Collector.start,opened]
    decide
  · intro n none
    cases n with
    | zero => rw [first] at none; cases none
    | succ n =>
      rw [later] at none
      simp only [shiftedLines]
      split at none
      · rename_i inside
        rw [if_pos inside]
        exact stored.absent n none
      · rename_i outside
        rw [if_neg outside]
        exact stored.absent (n+1) none
  · intro n content held
    cases n with
    | zero =>
      rw [first] at held
      obtain rfl := Option.some.inj held
      refine ⟨by decide,rfl,kept 0,line,rfl,?_,?_⟩
      · rw [size]
        exact full
      · have room := stored.room
        rw [size]
        omega
    | succ n =>
      rw [later] at held
      simp only [shiftedLines]
      split at held
      · rename_i inside
        rw [if_pos inside]
        exact ⟨inside,(stored.rotated n content held).2⟩
      · rename_i outside
        exact absurd (stored.rotated (n+1) content held).1 outside

theorem log_stored (stored : Stored collector logged kept) (line : Line) :
    ∃ next, Stored (collector.log line) (logged ++ [line]) next := by
  unfold Collector.log afterAppend
  by_cases full : maxLogBytes ≤ collector.written + line.bytes.length
  · rw [if_pos full]
    exact ⟨_,rotate_stored stored line full⟩
  · rw [if_neg full]
    exact ⟨_,append_stored stored line (Nat.not_le.mp full)⟩

theorem run_stored (steps : List CollectorStep) : ∃ kept, Stored (Collector.run steps) (linesOf steps) kept := by
  induction steps using List.reverseRecOn with
  | nil => exact ⟨_,empty_stored⟩
  | append_singleton steps step ih =>
    obtain ⟨kept,stored⟩ := ih
    rw [Collector.run,List.foldl_append,List.foldl_cons,List.foldl_nil]
    cases step with
    | event line =>
      have logged : linesOf (steps ++ [.event line]) = linesOf steps ++ [line] := by simp [linesOf]
      rw [logged]
      exact log_stored stored line
    | restart =>
      have same : linesOf (steps ++ [.restart]) = linesOf steps := by simp [linesOf]
      rw [same]
      exact ⟨kept,restart_stored stored⟩

def readOldestFirst (dir : LogDir) : Bytes :=
  (dir 4).getD [] ++ (dir 3).getD [] ++ (dir 2).getD [] ++ (dir 1).getD [] ++ (dir 0).getD []

theorem Stored.content (stored : Stored collector logged kept) (n : Nat) : (collector.dir n).getD [] = bytesOf (kept n) := by
  cases n with
  | zero => rw [stored.current,Option.getD_some]
  | succ n =>
    cases held : collector.dir (n+1) with
    | none => simp [stored.absent n held,bytesOf]
    | some content => exact (stored.rotated n content held).2.1

-- Whole lines in every file, a suffix of what was logged over all files, and
-- every rotated file just at the limit.
theorem generations_keep_suffix (steps : List CollectorStep) :
    ∃ (dropped : List Line) (kept : Nat → List Line),
      linesOf steps = dropped ++ (kept 4 ++ kept 3 ++ kept 2 ++ kept 1 ++ kept 0) ∧
      (∀ n, ((Collector.run steps).dir n).getD [] = bytesOf (kept n)) ∧
      readOldestFirst (Collector.run steps).dir = bytesOf (kept 4 ++ kept 3 ++ kept 2 ++ kept 1 ++ kept 0) ∧
      ∀ n content, 1 ≤ n → (Collector.run steps).dir n = some content → n ≤ logGenerations ∧
        ∃ earlier last, kept n = earlier ++ [last] ∧ maxLogBytes ≤ content.length ∧
          content.length < maxLogBytes + last.bytes.length := by
  obtain ⟨kept,stored⟩ := run_stored steps
  obtain ⟨dropped,same⟩ := stored.suffix
  refine ⟨dropped,kept,same,stored.content,?_,?_⟩
  · simp only [readOldestFirst,stored.content,bytesOf_append]
  · intro n content some_ held
    obtain ⟨m,rfl⟩ := Nat.exists_eq_add_of_le' some_
    obtain ⟨within,_,edge⟩ := stored.rotated m content held
    exact ⟨within,edge⟩

end AegisHoneypot.LogGenerations
