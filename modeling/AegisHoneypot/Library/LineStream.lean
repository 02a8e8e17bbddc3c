import Mathlib.Data.List.Basic

-- Streams cut into records by a terminator. A record is a run of ordinary
-- elements closed by one terminator; what follows the last terminator is a tail.
namespace LineStream
variable {α : Type}

-- `slice::rposition`: the position of the last element that meets the test.
def rposition (stop : α → Bool) : List α → Option Nat
  | [] => none
  | x :: rest => match rposition stop rest with
    | some i => some (i+1)
    | none => if stop x then some 0 else none

-- `str::split_inclusive`: the pieces keep their terminator, a last piece
-- without one is kept when it is not empty.
def splitInclusive (stop : α → Bool) : List α → List (List α)
  | [] => []
  | x :: rest => if stop x then [x] :: splitInclusive stop rest else
    match splitInclusive stop rest with
    | [] => [[x]]
    | first :: more => (x :: first) :: more

-- How much of a stream a reader takes that looks at `cap` elements and stops
-- behind the last terminator among them.
def closedLength (stop : α → Bool) (cap : Nat) (stream : List α) : Nat :=
  match rposition stop (stream.take cap) with
  | none => 0
  | some i => i+1

def IsRecord (stop : α → Bool) (record : List α) : Prop :=
  ∃ body last, record = body ++ [last] ∧ stop last = true ∧ ∀ x ∈ body, stop x = false

structure IsStream (stop : α → Bool) (records : List (List α)) (tail : List α) : Prop where
  closed : ∀ record ∈ records, IsRecord stop record
  silent : ∀ x ∈ tail, stop x = false

variable {stop : α → Bool}

theorem IsRecord.length_pos (valid : IsRecord stop record) : 0 < record.length := by
  obtain ⟨body,last,rfl,_,_⟩ := valid
  simp

theorem IsStream.rest (valid : IsStream stop (record :: records) tail) : IsStream stop records tail :=
  ⟨fun other member => valid.closed other (by simp [member]),valid.silent⟩

theorem IsStream.later (valid : IsStream stop (taken ++ remaining) tail) : IsStream stop remaining tail :=
  ⟨fun other member => valid.closed other (by simp [member]),valid.silent⟩

theorem IsRecord.last (valid : IsRecord stop record) : ∃ x, record.getLast? = some x ∧ stop x = true := by
  obtain ⟨body,last,rfl,closes,_⟩ := valid
  exact ⟨last,by simp,closes⟩

theorem records_last {records : List (List α)} (valid : ∀ record ∈ records, IsRecord stop record)
    (last : records.flatten.getLast? = some x) :
    stop x = true := by
  rcases List.eq_nil_or_concat records with rfl | ⟨earlier,record,rfl⟩
  · cases last
  · obtain ⟨y,same,closes⟩ := (valid record (by simp)).last
    rw [List.concat_eq_append,List.flatten_append,List.flatten_singleton,List.getLast?_append,same] at last
    cases last
    exact closes

theorem rposition_none (l : List α) : rposition stop l = none ↔ ∀ x ∈ l, stop x = false := by
  induction l with
  | nil => simp [rposition]
  | cons x rest ih =>
    simp only [rposition,List.forall_mem_cons]
    cases found : rposition stop rest with
    | some i =>
      have open_ := mt ih.mpr (by simp [found])
      simp [open_]
    | none => simpa using fun _ => ih.mp found

theorem rposition_some (l : List α) (found : rposition stop l = some i) :
    ∃ before last after, l = before ++ last :: after ∧ before.length = i ∧ stop last = true ∧
      ∀ x ∈ after, stop x = false := by
  induction l generalizing i with
  | nil => cases found
  | cons x rest ih =>
    simp only [rposition] at found
    cases later : rposition stop rest with
    | some j =>
      rw [later] at found
      cases found
      obtain ⟨before,last,after,rfl,rfl,closes,silent⟩ := ih later
      exact ⟨x :: before,last,after,rfl,rfl,closes,silent⟩
    | none =>
      rw [later] at found
      by_cases closes : stop x = true
      · simp only [closes,if_true] at found
        cases found
        exact ⟨[],x,rest,rfl,rfl,closes,(rposition_none rest).mp later⟩
      · simp [closes] at found

theorem stream_exists (stop : α → Bool) (l : List α) :
    ∃ records tail, IsStream stop records tail ∧ l = records.flatten ++ tail := by
  induction l with
  | nil => exact ⟨[],[],⟨by simp,by simp⟩,rfl⟩
  | cons x rest ih =>
    obtain ⟨records,tail,valid,rfl⟩ := ih
    by_cases closes : stop x = true
    · refine ⟨[x] :: records,tail,⟨?_,valid.silent⟩,rfl⟩
      rw [List.forall_mem_cons]
      exact ⟨⟨[],x,rfl,closes,by simp⟩,valid.closed⟩
    · rw [Bool.not_eq_true] at closes
      cases records with
      | nil =>
        refine ⟨[],x :: tail,⟨by simp,?_⟩,rfl⟩
        rw [List.forall_mem_cons]
        exact ⟨closes,valid.silent⟩
      | cons first more =>
        obtain ⟨body,last,rfl,ends,silent⟩ := valid.closed first (by simp)
        refine ⟨(x :: body ++ [last]) :: more,tail,⟨?_,valid.silent⟩,by simp⟩
        rw [List.forall_mem_cons]
        refine ⟨⟨x :: body,last,rfl,ends,?_⟩,valid.rest.closed⟩
        rw [List.forall_mem_cons]
        exact ⟨closes,silent⟩

theorem splitInclusive_record (valid : IsRecord stop record) (rest : List α) :
    splitInclusive stop (record ++ rest) = record :: splitInclusive stop rest := by
  obtain ⟨body,last,rfl,closes,silent⟩ := valid
  induction body with
  | nil => simp [splitInclusive,closes]
  | cons x body ih =>
    rw [List.forall_mem_cons] at silent
    have inner := ih silent.2
    simp only [List.cons_append,splitInclusive,silent.1,Bool.false_eq_true,if_false]
    rw [inner]

theorem splitInclusive_tail (silent : ∀ x ∈ tail, stop x = false) :
    splitInclusive stop tail = if tail = [] then [] else [tail] := by
  induction tail with
  | nil => rfl
  | cons x rest ih =>
    rw [List.forall_mem_cons] at silent
    simp only [splitInclusive,silent.1,Bool.false_eq_true,if_false,ih silent.2]
    split
    · rename_i empty; split at empty <;> simp_all
    · rename_i full; split at full <;> simp_all

theorem splitInclusive_stream (valid : IsStream stop records tail) :
    splitInclusive stop (records.flatten ++ tail) = records ++ if tail = [] then [] else [tail] := by
  induction records with
  | nil => exact splitInclusive_tail valid.silent
  | cons record records ih =>
    rw [List.flatten_cons,List.append_assoc,splitInclusive_record (valid.closed record (by simp)),ih valid.rest]
    rfl

theorem splitInclusive_records {records : List (List α)} (closed : ∀ record ∈ records, IsRecord stop record)
    (rest : List α) : splitInclusive stop (records.flatten ++ rest) = records ++ splitInclusive stop rest := by
  induction records with
  | nil => rfl
  | cons record more ih =>
    rw [List.forall_mem_cons] at closed
    rw [List.flatten_cons,List.append_assoc,splitInclusive_record closed.1,ih closed.2,List.cons_append]

-- Two ways to begin the same stream with records begin with the same ones.
theorem records_front {records lines : List (List α)} (closed : ∀ record ∈ records, IsRecord stop record)
    (whole : ∀ line ∈ lines, IsRecord stop line) (front : records.flatten ++ rest = lines.flatten) :
    ∃ later, lines = records ++ later := by
  have pieces := splitInclusive_records whole []
  rw [List.append_nil,← front,splitInclusive_records closed] at pieces
  exact ⟨_,(List.append_nil lines).symm.trans pieces.symm⟩

-- A reading that ends behind a terminator has taken whole records. The
-- induction is on the records: the first one is either inside or not reached.
theorem closed_reading (valid : IsStream stop records tail)
    (split : records.flatten ++ tail = before ++ last :: after) (closes : stop last = true) :
    ∃ taken remaining, records = taken ++ remaining ∧ taken ≠ [] ∧ taken.flatten = before ++ [last] := by
  induction records generalizing before with
  | nil =>
    have member : last ∈ tail := by
      rw [List.flatten_nil,List.nil_append] at split
      simp [split]
    have silent := valid.silent last member
    rw [closes] at silent
    cases silent
  | cons record records ih =>
    obtain ⟨body,stopper,rfl,ends,silent⟩ := valid.closed record (by simp)
    have split : body ++ stopper :: (records.flatten ++ tail) = before ++ last :: after := by
      simpa using split
    rcases List.append_eq_append_iff.mp split with ⟨middle,inside,rest⟩ | ⟨middle,outside,rest⟩
    · cases middle with
      | nil =>
        simp only [List.nil_append,List.cons.injEq] at rest
        refine ⟨[body ++ [stopper]],records,rfl,by simp,?_⟩
        rw [inside,← rest.1]
        simp
      | cons first middle =>
        simp only [List.cons_append,List.cons.injEq] at rest
        obtain ⟨taken,remaining,rfl,_,same⟩ := ih valid.rest rest.2
        refine ⟨(body ++ [stopper]) :: taken,remaining,rfl,by simp,?_⟩
        rw [List.flatten_cons,same,inside,rest.1]
        simp
    · cases middle with
      | nil =>
        simp only [List.nil_append,List.cons.injEq] at rest
        refine ⟨[body ++ [stopper]],records,rfl,by simp,?_⟩
        rw [outside,rest.1]
        simp
      | cons first middle =>
        simp only [List.cons_append,List.cons.injEq] at rest
        have inner := silent last (by rw [outside,rest.1]; simp)
        rw [closes] at inner
        cases inner

theorem closedLength_taken (valid : IsStream stop records tail) (cap : Nat) :
    ∃ taken remaining, records = taken ++ remaining ∧
      closedLength stop cap (records.flatten ++ tail) = taken.flatten.length ∧ taken.flatten.length ≤ cap ∧
      (taken = [] → ∀ first, records.head? = some first → cap < first.length) := by
  unfold closedLength
  cases found : rposition stop ((records.flatten ++ tail).take cap) with
  | none =>
    refine ⟨[],records,rfl,rfl,Nat.zero_le _,?_⟩
    intro _ first head
    obtain ⟨more,rfl⟩ := List.head?_eq_some_iff.mp head
    obtain ⟨body,last,rfl,closes,_⟩ := valid.closed first (by simp)
    by_contra short
    have member : last ∈ (((body ++ [last]) :: more).flatten ++ tail).take cap := by
      have front : (body ++ [last]).take cap = body ++ [last] := List.take_of_length_le (by omega)
      rw [List.flatten_cons,List.append_assoc,List.take_append,front]
      simp
    have silent := (rposition_none _).mp found last member
    rw [closes] at silent
    cases silent
  | some i =>
    obtain ⟨before,last,after,split,rfl,closes,_⟩ := rposition_some _ found
    have whole : records.flatten ++ tail = before ++ last :: (after ++ (records.flatten ++ tail).drop cap) := by
      conv_lhs => rw [← List.take_append_drop cap (records.flatten ++ tail),split]
      simp
    obtain ⟨taken,remaining,rfl,some_,same⟩ := closed_reading valid whole closes
    have bound : (before ++ last :: after).length ≤ cap := by
      rw [← split]
      exact List.length_take_le _ _
    refine ⟨taken,remaining,rfl,by simp [same],?_,fun none => absurd none some_⟩
    rw [same]
    simp at bound ⊢
    omega

end LineStream
