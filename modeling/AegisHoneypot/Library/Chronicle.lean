import Mathlib.Data.List.Basic

-- What a program has done, as a log that only grows at its end, and rules that
-- say of each entry what must or must not have been logged before it.
namespace Chronicle
variable {ε : Type} {rule : List ε → ε → Prop}

def CleanAfter (rule : List ε → ε → Prop) (past : List ε) : List ε → Prop
  | [] => True
  | entry :: later => rule past entry ∧ CleanAfter rule (past ++ [entry]) later

def Clean (rule : List ε → ε → Prop) (log : List ε) : Prop := CleanAfter rule [] log

theorem cleanAfter_append (past first second : List ε) :
    CleanAfter rule past (first ++ second) ↔ CleanAfter rule past first ∧ CleanAfter rule (past ++ first) second := by
  induction first generalizing past with
  | nil => simp [CleanAfter]
  | cons entry later ih => simp [CleanAfter,ih,and_assoc]

theorem clean_append (log new : List ε) : Clean rule (log ++ new) ↔ Clean rule log ∧ CleanAfter rule log new :=
  cleanAfter_append [] log new

theorem cleanAfter_free (past new : List ε) (free : ∀ entry ∈ new, ∀ earlier, rule earlier entry) :
    CleanAfter rule past new := by
  induction new generalizing past with
  | nil => trivial
  | cons entry later ih =>
    rw [List.forall_mem_cons] at free
    exact ⟨free.1 past,ih _ free.2⟩

def Grows (kind : ε → Prop) (before after : List ε) : Prop := ∃ new, after = before ++ new ∧ ∀ entry ∈ new, kind entry

theorem Grows.refl (kind : ε → Prop) (log : List ε) : Grows kind log log := ⟨[],by simp⟩

theorem Grows.one {kind : ε → Prop} (log : List ε) (holds : kind entry) : Grows kind log (log ++ [entry]) :=
  ⟨[entry],by simpa using holds⟩

theorem Grows.trans {kind : ε → Prop} (first : Grows kind before middle) (second : Grows kind middle after) :
    Grows kind before after := by
  obtain ⟨early,rfl,earlyKind⟩ := first
  obtain ⟨late,rfl,lateKind⟩ := second
  refine ⟨early ++ late,List.append_assoc ..,?_⟩
  intro entry member
  rcases List.mem_append.mp member with old | new
  · exact earlyKind entry old
  · exact lateKind entry new

theorem Grows.weaken {kind wider : ε → Prop} (grows : Grows kind before after) (includes : ∀ entry, kind entry → wider entry) :
    Grows wider before after := by
  obtain ⟨new,same,kinds⟩ := grows
  exact ⟨new,same,fun entry member => includes entry (kinds entry member)⟩

end Chronicle
