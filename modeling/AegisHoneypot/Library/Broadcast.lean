import Mathlib.Data.List.Basic
import Mathlib.Data.List.Range

-- A channel on which each receiver gets what is sent while it listens. One that
-- has fallen behind may be told how many values it missed, and goes on after them.
namespace Broadcast
variable {α : Type}

inductive Received (α : Type) where
  | value (x : α)
  | lagged (missed : Nat)
  | empty

-- What a channel of this capacity promises its receivers. `sent` is everything
-- sent so far and `next` the position the receiver is at.
structure Channel (α : Type) (capacity : Nat) where
  recv : List α → Nat → Received α × Nat
  value : ∀ sent next x after, recv sent next = (.value x,after) → sent[next]? = some x ∧ after = next+1
  lagged : ∀ sent next missed after, recv sent next = (.lagged missed,after) → after = next+missed ∧ after ≤ sent.length
  empty : ∀ sent next after, recv sent next = (.empty,after) → sent.length ≤ next ∧ after = next
  prompt : ∀ sent next missed after, sent.length ≤ next+capacity → recv sent next ≠ (.lagged missed,after)

def subscribe (sent : List α) : Nat := sent.length

-- A ring of the last `capacity` values.
def ringRecv (capacity : Nat) (sent : List α) (next : Nat) : Received α × Nat :=
  if next + capacity < sent.length then (.lagged (sent.length-capacity-next),sent.length-capacity)
  else match sent[next]? with
    | some x => (.value x,next+1)
    | none => (.empty,next)

theorem ringRecv_cases (capacity : Nat) (sent : List α) (next : Nat) :
    (next + capacity < sent.length ∧
      ringRecv capacity sent next = (.lagged (sent.length-capacity-next),sent.length-capacity)) ∨
    (∃ x, sent[next]? = some x ∧ sent.length ≤ next + capacity ∧ ringRecv capacity sent next = (.value x,next+1)) ∨
    (sent.length ≤ next ∧ ringRecv capacity sent next = (.empty,next)) := by
  unfold ringRecv
  by_cases behind : next + capacity < sent.length
  · exact .inl ⟨behind,if_pos behind⟩
  · rw [if_neg behind]
    cases found : sent[next]? with
    | some x => exact .inr (.inl ⟨x,rfl,Nat.le_of_not_lt behind,rfl⟩)
    | none => exact .inr (.inr ⟨List.getElem?_eq_none_iff.mp found,rfl⟩)

section Ring
variable (capacity : Nat)

theorem ring_value (sent : List α) (next : Nat) (x : α) (after : Nat)
    (given : ringRecv capacity sent next = (.value x,after)) : sent[next]? = some x ∧ after = next+1 := by
  obtain ⟨_,told⟩ | ⟨y,found,_,told⟩ | ⟨_,told⟩ := ringRecv_cases capacity sent next
  · cases given.symm.trans told
  · cases given.symm.trans told
    exact ⟨found,rfl⟩
  · cases given.symm.trans told

theorem ring_lagged (sent : List α) (next missed after : Nat)
    (given : ringRecv capacity sent next = (.lagged missed,after)) : after = next+missed ∧ after ≤ sent.length := by
  obtain ⟨behind,told⟩ | ⟨_,_,_,told⟩ | ⟨_,told⟩ := ringRecv_cases capacity sent next
  · cases given.symm.trans told
    omega
  · cases given.symm.trans told
  · cases given.symm.trans told

theorem ring_empty (sent : List α) (next after : Nat)
    (given : ringRecv capacity sent next = (.empty,after)) : sent.length ≤ next ∧ after = next := by
  obtain ⟨_,told⟩ | ⟨_,_,_,told⟩ | ⟨past,told⟩ := ringRecv_cases capacity sent next
  · cases given.symm.trans told
  · cases given.symm.trans told
  · cases given.symm.trans told
    exact ⟨past,rfl⟩

theorem ring_prompt (sent : List α) (next missed after : Nat) (held : sent.length ≤ next+capacity) :
    ringRecv capacity sent next ≠ (.lagged missed,after) := by
  intro given
  obtain ⟨behind,_⟩ | ⟨_,_,_,told⟩ | ⟨_,told⟩ := ringRecv_cases capacity sent next
  · omega
  · cases given.symm.trans told
  · cases given.symm.trans told

def ringChannel : Channel α capacity where
  recv := ringRecv capacity
  value := ring_value capacity
  lagged := ring_lagged capacity
  empty := ring_empty capacity
  prompt := ring_prompt capacity

end Ring

-- What was sent at these positions.
def valuesAt (sent : List α) (positions : List Nat) : List α := positions.filterMap (sent[·]?)

theorem valuesAt_append (sent : List α) (earlier later : List Nat) :
    valuesAt sent (earlier ++ later) = valuesAt sent earlier ++ valuesAt sent later := List.filterMap_append

theorem valuesAt_grow {positions : List Nat} (sent more : List α) (within : ∀ i ∈ positions, i < sent.length) :
    valuesAt (sent ++ more) positions = valuesAt sent positions :=
  List.filterMap_congr (fun i member => List.getElem?_append_left (within i member))

theorem valuesAt_range' (sent : List α) (start count : Nat) :
    valuesAt sent (List.range' start count) = (sent.drop start).take count := by
  induction count generalizing start with
  | zero => simp [valuesAt]
  | succ count ih =>
    rw [List.range'_succ]
    cases found : sent[start]? with
    | none =>
      have past : sent.length ≤ start := List.getElem?_eq_none_iff.mp found
      have rest := ih (start+1)
      rw [List.drop_eq_nil_of_le (by omega),List.take_nil] at rest
      rw [List.drop_eq_nil_of_le past,List.take_nil,← rest]
      exact List.filterMap_cons_none found
    | some x =>
      obtain ⟨present,same⟩ := List.getElem?_eq_some_iff.mp found
      rw [List.drop_eq_getElem_cons present,List.take_succ_cons,same,← ih (start+1)]
      exact List.filterMap_cons_some found

-- The positions a receiver has been given since it began to listen at `start`:
-- in order, each once, and without a gap as long as it has not lagged.
structure Heard (sent : List α) (start next lags : Nat) (taken : List Nat) : Prop where
  ascending : taken.Pairwise (· < ·)
  bounds : ∀ i ∈ taken, start ≤ i ∧ i < next
  begun : start ≤ next
  within : next ≤ sent.length
  whole : lags = 0 → taken = List.range' start (next-start)

theorem heard_subscribe (sent : List α) : Heard sent (subscribe sent) (subscribe sent) 0 [] where
  ascending := .nil
  bounds := by simp
  begun := Nat.le_refl _
  within := Nat.le_refl _
  whole := by simp

variable {capacity : Nat} {sent : List α}

theorem heard_send (heard : Heard sent start next lags taken) (x : α) : Heard (sent ++ [x]) start next lags taken where
  ascending := heard.ascending
  bounds := heard.bounds
  begun := heard.begun
  within := by
    have within := heard.within
    simp
    omega
  whole := heard.whole

theorem heard_value (channel : Channel α capacity) (heard : Heard sent start next lags taken)
    (given : channel.recv sent next = (.value x,after)) :
    sent[next]? = some x ∧ Heard sent start after lags (taken ++ [next]) := by
  obtain ⟨found,rfl⟩ := channel.value _ _ _ _ given
  obtain ⟨present,_⟩ := List.getElem?_eq_some_iff.mp found
  refine ⟨found,?_,?_,?_,present,?_⟩
  · rw [List.pairwise_append]
    refine ⟨heard.ascending,List.pairwise_singleton _ _,?_⟩
    intro i member j last
    rw [List.mem_singleton.mp last]
    exact (heard.bounds i member).2
  · intro i member
    rw [List.mem_append,List.mem_singleton] at member
    rcases member with before | rfl
    · exact ⟨(heard.bounds i before).1,Nat.lt_succ_of_lt (heard.bounds i before).2⟩
    · exact ⟨heard.begun,Nat.lt_succ_self _⟩
  · exact heard.begun.trans (Nat.le_succ next)
  · intro steady
    have begun := heard.begun
    rw [heard.whole steady,Nat.succ_sub begun,List.range'_concat,Nat.one_mul,Nat.add_sub_cancel' begun]

theorem heard_lagged (channel : Channel α capacity) (heard : Heard sent start next lags taken)
    (given : channel.recv sent next = (.lagged missed,after)) : Heard sent start after (lags+1) taken := by
  obtain ⟨rfl,within⟩ := channel.lagged _ _ _ _ given
  refine ⟨heard.ascending,?_,heard.begun.trans (Nat.le_add_right next missed),within,nofun⟩
  intro i member
  exact ⟨(heard.bounds i member).1,Nat.lt_add_right missed (heard.bounds i member).2⟩

theorem heard_empty (channel : Channel α capacity) (heard : Heard sent start next lags taken)
    (given : channel.recv sent next = (.empty,after)) : Heard sent start after lags taken := by
  obtain ⟨_,rfl⟩ := channel.empty _ _ _ given
  exact heard

end Broadcast
