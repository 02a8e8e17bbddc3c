-- A list cut at every separator, said without the loop that does it.
namespace Splitting

variable {α : Type} {p : α → Bool}

-- No piece holds a separator, and one stands between each two.
inductive Cut (p : α → Bool) : List α → List (List α) → Prop where
  | last : (∀ c ∈ piece, p c = false) → Cut p piece [piece]
  | next : (∀ c ∈ piece, p c = false) → p separator = true → Cut p rest pieces →
      Cut p (piece ++ separator :: rest) (piece :: pieces)

theorem Cut.extend (cut : Cut p text pieces) (solid : p c = false) : Cut p (c :: text) (pieces.modifyHead (c :: ·)) := by
  cases cut with
  | last free => exact .last (List.forall_mem_cons.mpr ⟨solid,free⟩)
  | next free apart later => exact .next (List.forall_mem_cons.mpr ⟨solid,free⟩) apart later

theorem cut_splitOnP (p : α → Bool) (text : List α) : Cut p text (text.splitOnP p) := by
  induction text with
  | nil => exact .last (List.forall_mem_nil _)
  | cons c rest ih =>
    rw [List.splitOnP_cons_eq_if_modifyHead]
    cases apart : p c with
    | true => exact (Cut.next (List.forall_mem_nil _) apart ih : Cut p ([] ++ c :: rest) _)
    | false => exact ih.extend apart

-- There is one way only to cut a list.
theorem Cut.unique (cut : Cut p text pieces) : pieces = text.splitOnP p := by
  induction cut with
  | last free => exact (List.splitOnP_eq_singleton free).symm
  | next free apart _ ih => rw [List.splitOnP_append_cons_of_forall_mem free _ apart,← ih]

theorem Cut.solid (cut : Cut p text pieces) (member : piece ∈ pieces) : ∀ c ∈ piece, p c = false := by
  induction cut with
  | last free =>
    rw [List.mem_singleton.mp member]
    exact free
  | next free _ _ ih =>
    rcases List.mem_cons.mp member with rfl | later
    · exact free
    · exact ih later

end Splitting
