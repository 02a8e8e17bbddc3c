import AegisHoneypot.Library.Transition

-- A secret that a program makes once and keeps in a file: a start reads the file
-- or, where there is none, makes a new secret and stores it. The storing can end
-- anywhere, with an error or with the process.
namespace KeptFile
open Transition

structure File (B : Type) where
  content : List B
  ownerOnly : Bool
  deriving DecidableEq, Repr

-- How far the storing of a new secret gets: the file is written before its mode
-- is set.
inductive Reach where
  | nothing
  | part (count : Nat)
  | all
  deriving DecidableEq, Repr

def stored {B : Type} (content : List B) : Reach → Option (File B)
  | .nothing => none
  | .part count => some ⟨content.take count,false⟩
  | .all => some ⟨content,true⟩

-- What one start meets: a new secret if it can make one, and what the disk allows.
structure Start (S : Type) where
  fresh : Option S
  readable : Bool
  reach : Reach
  deriving DecidableEq, Repr

structure Scheme (S T B : Type) where
  secret : S → T
  render : S → List B
  read : List B → Option T
  read_render : ∀ fresh, read (render fresh) = some (secret fresh)

variable {S T B : Type} (scheme : Scheme S T B)

def Scheme.start (file : Option (File B)) (start : Start S) : Option T × Option (File B) :=
  if start.readable then
    match file,start.fresh with
    | some held,_ => (scheme.read held.content,file)
    | none,none => (none,none)
    | none,some fresh =>
      (if start.reach = .all then some (scheme.secret fresh) else none,stored (scheme.render fresh) start.reach)
  else (none,file)

theorem start_held (held : File B) (start : Start S) :
    scheme.start (some held) start = (if start.readable then scheme.read held.content else none,some held) := by
  unfold Scheme.start
  split <;> rfl

-- The file is never touched again.
theorem held_stays (held : File B) (starts : List (Start S)) : (answers scheme.start (some held) starts).2 = some held := by
  induction starts with
  | nil => rfl
  | cons start rest ih =>
    rw [answers,start_held]
    exact ih

theorem served_held {scheme : Scheme S T B} {file : Option (File B)} {start : Start S}
    (served : (scheme.start file start).1 = some known) :
    ∃ held, (scheme.start file start).2 = some held ∧ scheme.read held.content = some known := by
  cases file with
  | some held =>
    rw [start_held] at served ⊢
    split at served
    · exact ⟨held,rfl,served⟩
    · cases served
  | none =>
    obtain ⟨fresh,readable,reach⟩ := start
    cases readable with
    | false => cases served
    | true =>
      cases fresh with
      | none => cases served
      | some fresh =>
        cases reach with
        | nothing => cases served
        | part count => cases served
        | all =>
          cases served
          exact ⟨⟨scheme.render fresh,true⟩,rfl,scheme.read_render fresh⟩

-- A secret that has been served once is the one that every later start serves.
theorem serves_on {scheme : Scheme S T B} {file : Option (File B)} {start : Start S}
    (served : (scheme.start file start).1 = some known) (between : List (Start S)) (next : Start S) :
    (scheme.start (answers scheme.start (scheme.start file start).2 between).2 next).1 =
      if next.readable then some known else none := by
  obtain ⟨held,kept,read⟩ := served_held served
  rw [kept,held_stays,start_held,read]

-- A file comes from the storing of one of the starts.
theorem file_origin {scheme : Scheme S T B} {starts : List (Start S)} {held : File B}
    (kept : (answers scheme.start none starts).2 = some held) :
    ∃ first ∈ starts, ∃ fresh, first.fresh = some fresh ∧ stored (scheme.render fresh) first.reach = some held := by
  induction starts with
  | nil => cases kept
  | cons start rest ih =>
    rw [answers] at kept
    have later : ∀ after : Option (File B), after = none → (answers scheme.start after rest).2 = some held →
        ∃ first ∈ start :: rest, ∃ fresh, first.fresh = some fresh ∧ stored (scheme.render fresh) first.reach = some held := by
      rintro _ rfl kept
      obtain ⟨first,inside,made⟩ := ih kept
      exact ⟨first,List.mem_cons_of_mem _ inside,made⟩
    obtain ⟨fresh,readable,reach⟩ := start
    cases readable with
    | false => exact later _ rfl kept
    | true =>
      cases fresh with
      | none => exact later _ rfl kept
      | some fresh =>
        cases written : stored (scheme.render fresh) reach with
        | none => exact later _ written kept
        | some file =>
          have after : (scheme.start none ⟨some fresh,true,reach⟩).2 = some file := written
          rw [after,held_stays] at kept
          exact ⟨_,List.mem_cons_self,fresh,rfl,written.trans kept⟩

-- What a start serves is a new secret, of its own or of an earlier start, or what
-- can be read from the part of one that was stored.
theorem served_origin {scheme : Scheme S T B} {earlier : List (Start S)} {start : Start S}
    (served : (scheme.start (answers scheme.start none earlier).2 start).1 = some known) :
    ∃ first ∈ earlier ++ [start], ∃ fresh, first.fresh = some fresh ∧
      (known = scheme.secret fresh ∨
        ∃ count, first.reach = .part count ∧ scheme.read ((scheme.render fresh).take count) = some known) := by
  obtain ⟨held,kept,read⟩ := served_held served
  have whole : (answers scheme.start none (earlier ++ [start])).2 = some held := by
    rw [answers_append]
    exact kept
  obtain ⟨first,inside,fresh,made,written⟩ := file_origin whole
  refine ⟨first,inside,fresh,made,?_⟩
  cases reach : first.reach with
  | nothing =>
    rw [reach] at written
    cases written
  | part count =>
    rw [reach] at written
    cases written
    exact .inr ⟨count,rfl,read⟩
  | all =>
    rw [reach] at written
    cases written
    exact .inl (Option.some.inj (read.symm.trans (scheme.read_render fresh)))

end KeptFile
