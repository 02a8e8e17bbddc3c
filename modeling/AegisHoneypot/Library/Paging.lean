import Mathlib.Data.List.Infix
import Mathlib.Data.List.Nodup

-- A list read in pages by a client that asks for what lies behind a number of
-- rows, while the list changes between two requests.
namespace Paging
variable {α : Type}

def page (limit offset : Nat) (rows : List α) : List α := (rows.drop offset).take limit

-- What the client holds lies apart from all that it can still be given.
structure Apart (held rows : List α) (offset : Nat) : Prop where
  once : held.Nodup
  ahead : ∀ row ∈ held, row ∉ rows.drop offset

theorem apart_empty (rows : List α) (offset : Nat) : Apart [] rows offset := ⟨List.nodup_nil,by simp⟩

theorem page_leads (limit offset : Nat) (rows : List α) : page limit offset rows <+: rows.drop offset := List.take_prefix _ _

theorem page_rest (limit offset : Nat) (rows : List α) :
    page limit offset rows ++ rows.drop (offset + (page limit offset rows).length) = rows.drop offset := by
  rw [← List.drop_drop]
  exact (List.prefix_append_drop (page_leads limit offset rows)).symm

theorem Apart.turn (apart : Apart held rows offset) (distinct : rows.Nodup) (limit : Nat) :
    Apart (held ++ page limit offset rows) rows (offset + (page limit offset rows).length) := by
  have taken := page_rest limit offset rows
  have rest : (rows.drop offset).Nodup := distinct.sublist (List.drop_sublist _ _)
  rw [← taken] at rest
  obtain ⟨given,_,between⟩ := List.nodup_append.mp rest
  constructor
  · refine List.nodup_append.mpr ⟨apart.once,given,?_⟩
    intro row old other new same
    exact apart.ahead row old (same ▸ List.mem_of_mem_take new)
  · intro row member later
    rcases List.mem_append.mp member with old | new
    · exact apart.ahead row old (taken ▸ List.mem_append_right _ later)
    · exact between row new row later rfl

-- Rows may go from the list between two requests.
theorem Apart.thin (apart : Apart held rows offset) (fewer : after.Sublist rows) : Apart held after offset :=
  ⟨apart.once,fun row member inside => apart.ahead row member ((fewer.drop offset).subset inside)⟩

-- The client holds the rows in front, no more and no less.
theorem page_front (limit offset : Nat) (rows : List α) :
    rows.take offset ++ page limit offset rows = rows.take (offset + (page limit offset rows).length) := by
  rw [List.take_add]
  exact congrArg (rows.take offset ++ ·) (List.prefix_iff_eq_take.mp (page_leads limit offset rows))

-- A row put in front moves the last row held to where the next page begins.
theorem pushed_repeats (new : α) (rows : List α) (some_ : 0 < offset) (inside : offset ≤ rows.length) (asked : 0 < limit) :
    ¬ (rows.take offset ++ page limit offset (new :: rows)).Nodup := by
  obtain ⟨before,rfl⟩ : ∃ before, offset = before+1 := ⟨offset-1,by omega⟩
  obtain ⟨fewer,rfl⟩ : ∃ fewer, limit = fewer+1 := ⟨limit-1,by omega⟩
  have last : before < rows.length := inside
  have given : page (fewer+1) (before+1) (new :: rows) = rows[before] :: (rows.drop (before+1)).take fewer := by
    rw [page,List.drop_succ_cons,List.drop_eq_getElem_cons last,List.take_succ_cons]
  have held : rows[before] ∈ rows.take (before+1) := by
    rw [List.take_succ_eq_append_getElem last]
    exact List.mem_append_right _ (List.mem_singleton_self _)
  intro distinct
  rw [given] at distinct
  exact (List.nodup_append.mp distinct).2.2 _ held _ List.mem_cons_self rfl

end Paging
