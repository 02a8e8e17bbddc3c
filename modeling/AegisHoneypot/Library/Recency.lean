import Mathlib.Data.List.Dedup
import Mathlib.Data.List.DropRight

-- A queue of bounded length that lists each element once, in the order in which
-- it was last put in. The history of such a queue is a list; `dedup` keeps the
-- last occurrence of each element, `rtake` the end of the list.
namespace Recency

def latest [DecidableEq α] (size : Nat) (history : List α) : List α := history.dedup.rtake size

section Ends

theorem rtake_rtake (list : List α) (less more : Nat) (fits : less ≤ more) : (list.rtake more).rtake less = list.rtake less := by
  simp only [List.rtake_eq_reverse_take_reverse,List.reverse_reverse,List.take_take,Nat.min_eq_left fits]

theorem rtake_length (list : List α) (size : Nat) : (list.rtake size).length = min size list.length := by
  simp [List.rtake_eq_reverse_take_reverse]

theorem rdrop_rtake (list : List α) (size : Nat) : list.rdrop size ++ list.rtake size = list :=
  List.take_append_drop _ _

theorem rtake_whole (list : List α) (size : Nat) (fits : list.length ≤ size) : list.rtake size = list := by
  rw [List.rtake,Nat.sub_eq_zero_of_le fits,List.drop_zero]

theorem rtake_concat (list : List α) (last : α) (size : Nat) :
    (list ++ [last]).rtake size = (list.rtake size ++ [last]).rtake size := by
  cases size with
  | zero => simp
  | succ size => rw [List.rtake_concat_succ,List.rtake_concat_succ,rtake_rtake _ _ _ (Nat.le_succ _)]

theorem rtake_append (front back : List α) (size : Nat) (long : size ≤ back.length) :
    (front ++ back).rtake size = back.rtake size := by
  simp only [List.rtake_eq_reverse_take_reverse,List.reverse_append]
  rw [List.take_append_of_le_length (by simpa using long)]

-- What stays listed when one more is put in.
theorem concat_mem (order : List α) (last element : α) (size : Nat) (some_ : 0 < size) (once : (order ++ [last]).Nodup) :
    element ∈ (order ++ [last]).rtake size ↔ element = last ∨ (element ∈ order ∧ element ∉ (order ++ [last]).rdrop size) := by
  have whole := rdrop_rtake (order ++ [last]) size
  have apart : ∀ kept ∈ (order ++ [last]).rtake size, kept ∉ (order ++ [last]).rdrop size := by
    intro kept member dropped
    rw [← whole] at once
    exact (List.nodup_append.mp once).2.2 kept dropped kept member rfl
  constructor
  · intro kept
    have among : element ∈ order ++ [last] := by
      rw [← whole]
      exact List.mem_append_right _ kept
    rcases List.mem_append.mp among with old | new
    · exact Or.inr ⟨old,apart element kept⟩
    · exact Or.inl (List.mem_singleton.mp new)
  · intro either
    rcases either with rfl | ⟨old,stays⟩
    · obtain ⟨less,rfl⟩ : ∃ less, size = less+1 := ⟨size-1,by omega⟩
      rw [List.rtake_concat_succ]
      simp
    · have among : element ∈ order ++ [last] := List.mem_append_left _ old
      rw [← whole] at among
      exact (List.mem_append.mp among).resolve_left stays

end Ends

variable [DecidableEq α]

theorem dedup_concat (history : List α) (last : α) :
    (history ++ [last]).dedup = history.dedup.filter (· ≠ last) ++ [last] := by
  induction history with
  | nil => rfl
  | cons first rest ih =>
    by_cases same : first = last
    · subst same
      rw [List.cons_append,List.dedup_cons_of_mem (by simp),ih]
      by_cases again : first ∈ rest
      · rw [List.dedup_cons_of_mem again]
      · rw [List.dedup_cons_of_notMem again]
        simp
    · by_cases again : first ∈ rest
      · rw [List.cons_append,List.dedup_cons_of_mem (List.mem_append_left _ again),ih,List.dedup_cons_of_mem again]
      · have fresh : first ∉ rest ++ [last] := by simp [again,same]
        rw [List.cons_append,List.dedup_cons_of_notMem fresh,ih,List.dedup_cons_of_notMem again]
        simp [same]

-- Taking an element out of what is too old to be listed changes nothing.
theorem filter_rtake (list : List α) (gone : α) (size : Nat) (absent : gone ∉ list.rtake size) :
    (list.filter (· ≠ gone)).rtake size = list.rtake size := by
  have kept : (list.rtake size).filter (· ≠ gone) = list.rtake size := by
    apply List.filter_eq_self.mpr
    intro element member
    simpa using fun same : element = gone => absent (same ▸ member)
  by_cases short : list.length ≤ size
  · rw [rtake_whole list size short] at kept ⊢
    rw [kept,rtake_whole list size short]
  · have full : (list.rtake size).length = size := by
      rw [rtake_length]
      omega
    conv_lhs => rw [← rdrop_rtake list size,List.filter_append,kept]
    rw [rtake_append _ _ _ (Nat.le_of_eq full.symm),rtake_rtake _ _ _ (Nat.le_refl _)]

theorem latest_concat (size : Nat) (history : List α) (last : α) (fresh : last ∉ latest size history) :
    latest size (history ++ [last]) = (latest size history ++ [last]).rtake size := by
  unfold latest at fresh ⊢
  rw [dedup_concat,rtake_concat,filter_rtake _ _ _ fresh]

theorem latest_nodup (size : Nat) (history : List α) : (latest size history).Nodup :=
  (List.nodup_dedup history).sublist (List.drop_sublist _ _)

theorem latest_length (size : Nat) (history : List α) : (latest size history).length ≤ size := by
  unfold latest
  rw [rtake_length]
  exact Nat.min_le_left _ _

end Recency
