import Mathlib.Data.List.Sort
import Mathlib.Data.List.Perm.Basic

-- The first few of a collection under a total order. The order in which the
-- collection is given does not show.
namespace Ranking
variable {α : Type} {le : α → α → Bool} {left right items : List α} {item : α}

structure IsOrder (le : α → α → Bool) : Prop where
  total : ∀ a b, (le a b || le b a) = true
  trans : ∀ a b c, le a b = true → le b c = true → le a c = true
  antisymm : ∀ a b, le a b = true → le b a = true → a = b

def top (le : α → α → Bool) (size : Nat) (items : List α) : List α := (items.mergeSort le).take size

theorem sorted_unique (order : IsOrder le) (same : left.Perm right) (sorted : left.Pairwise (fun a b => le a b = true))
    (also : right.Pairwise (fun a b => le a b = true)) : left = right :=
  same.eq_of_pairwise (fun a b _ _ before after => order.antisymm a b before after) sorted also

theorem mergeSort_sorted (order : IsOrder le) (items : List α) :
    (items.mergeSort le).Pairwise (fun a b => le a b = true) :=
  List.pairwise_mergeSort order.trans order.total items

theorem top_perm (order : IsOrder le) (same : left.Perm right) : top le size left = top le size right := by
  have sorted : left.mergeSort le = right.mergeSort le :=
    sorted_unique order ((List.mergeSort_perm left le).trans (same.trans (List.mergeSort_perm right le).symm))
      (mergeSort_sorted order left) (mergeSort_sorted order right)
  rw [top,top,sorted]

variable [DecidableEq α]

-- An item with few others in front of it is among the first.
theorem mem_top (order : IsOrder le) (member : item ∈ items)
    (few : (items.filter (fun other => decide (other ≠ item) && le other item)).length < size) : item ∈ top le size items := by
  have sorted := mergeSort_sorted order items
  have perm := List.mergeSort_perm items le
  obtain ⟨before,after,split,fresh⟩ := List.eq_append_cons_of_mem (List.mem_mergeSort.mpr member : item ∈ items.mergeSort le)
  have ahead : before.filter (fun other => decide (other ≠ item) && le other item) = before := by
    rw [List.filter_eq_self]
    intro other inside
    have different : other ≠ item := fun same => fresh (same ▸ inside)
    rw [split] at sorted
    have ordered := (List.pairwise_append.mp sorted).2.2 other inside item List.mem_cons_self
    simp [different,ordered]
  have bound : before.length < size := by
    have count := (perm.filter (fun other => decide (other ≠ item) && le other item)).length_eq
    rw [split,List.filter_append,ahead,List.length_append] at count
    omega
  rw [top,split,List.take_append]
  refine List.mem_append_right _ ?_
  obtain ⟨spare,equal⟩ : ∃ spare, size-before.length = spare+1 := ⟨size-before.length-1,by omega⟩
  rw [equal]
  exact List.mem_cons_self

end Ranking
