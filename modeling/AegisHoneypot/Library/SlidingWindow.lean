import Mathlib.Algebra.Order.Sub.Basic
import Mathlib.Data.List.Basic

-- Sliding windows over a non-decreasing list of instants. An instant is live at
-- `now` while it is at most one window old; the front of the list ages first.
namespace SlidingWindow
variable {T : Type} [LinearOrder T] [Sub T] {window now later : T}

def live (window now : T) (times : List T) : List T :=
  times.filter (fun t => decide (now - t ≤ window))

theorem live_append (left right : List T) :
    live window now (left ++ right) = live window now left ++ live window now right := by
  simp [live]

theorem live_eq_nil (times : List T) (expired : ∀ t ∈ times, window < now - t) : live window now times = [] := by
  unfold live
  rw [List.filter_eq_nil_iff]
  intro t member
  rw [decide_eq_true_eq]
  exact not_le.mpr (expired t member)

variable [AddCommMonoid T] [OrderedSub T]

theorem expired_later {t : T} (expired : window < now - t) (order : now ≤ later) : window < later - t :=
  lt_of_lt_of_le expired (tsub_le_tsub_right order t)

variable [IsOrderedAddMonoid T]

-- Popping the expired front of a non-decreasing list leaves what is live.
theorem dropWhile_expired (times : List T) (sorted : times.Pairwise (· ≤ ·)) :
    times.dropWhile (fun t => decide (window < now - t)) = live window now times := by
  induction times with
  | nil => rfl
  | cons t rest ih =>
    obtain ⟨first,ordered⟩ := List.pairwise_cons.mp sorted
    by_cases expired : window < now - t
    · have dead : ¬ now - t ≤ window := not_le.mpr expired
      simp only [live,List.dropWhile_cons,List.filter_cons,expired,dead,decide_true,decide_false,if_true]
      exact ih ordered
    · have all : ∀ u ∈ t :: rest, now - u ≤ window := by
        intro u member
        rcases List.mem_cons.mp member with rfl | old
        · exact not_lt.mp expired
        · exact (tsub_le_tsub_left (first u old) now).trans (not_lt.mp expired)
      rw [List.dropWhile_cons,if_neg (by rw [decide_eq_true_eq]; exact expired)]
      symm
      exact List.filter_eq_self.mpr (fun u member => decide_eq_true (all u member))

-- Each instant was appended while fewer than `limit` of the earlier ones were
-- still live.
inductive Throttled (window : T) (limit : Nat) : List T → Prop where
  | nil : Throttled window limit []
  | snoc : Throttled window limit times → (∀ u ∈ times, u ≤ t) →
      (live window t times).length < limit → Throttled window limit (times ++ [t])

-- The bound is checked at the instants themselves only, and still holds for a
-- closed interval of one window wherever it starts: its last instant saw all others.
theorem Throttled.interval {limit : Nat} {times : List T} (throttled : Throttled window limit times) (start : T) :
    (times.filter (fun t => decide (start ≤ t ∧ t ≤ start + window))).length ≤ limit := by
  induction throttled with
  | nil => simp
  | @snoc times t prior newest below ih =>
    rw [List.filter_append,List.length_append]
    by_cases inside : start ≤ t ∧ t ≤ start + window
    · have seen : (times.filter (fun t => decide (start ≤ t ∧ t ≤ start + window))).length ≤
          (live window t times).length := by
        apply List.Sublist.length_le
        apply List.monotone_filter_right
        intro u member
        have from_start : start ≤ u := (of_decide_eq_true member).1
        apply decide_eq_true
        calc t - u ≤ t - start := tsub_le_tsub_left from_start t
          _ ≤ window := tsub_le_iff_left.mpr inside.2
      simp only [List.filter_cons,List.filter_nil,inside]
      simp only [and_self,decide_true,if_true,List.length_singleton]
      omega
    · simp only [List.filter_cons,List.filter_nil,inside,decide_false]
      simpa using ih

end SlidingWindow
