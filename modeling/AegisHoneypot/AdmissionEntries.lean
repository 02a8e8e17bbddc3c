import AegisHoneypot.AdmissionHistory
import Mathlib.Algebra.Order.BigOperators.Group.List

-- What the guard's table looks like inside, after any calls whatever. Nothing is
-- assumed of the releases: they may come twice, or for a source never admitted.
namespace AegisHoneypot.AdmissionEntries
open AdmissionGuard AdmissionHistory

variable {limits : Limits} {now later : Instant} {state : GuardState}

-- `active += 1` on a `u32` wraps in a release build. A source without a session
-- limit could get there, so the table is followed for either way of counting.
def wrapping (active : Nat) : Nat := (active+1) % 4294967296

def tryAdmitCounting (advance : Nat → Nat) (limits : Limits) (state : GuardState) (now : Instant) (ip : IpAddr) : Bool × GuardState :=
  let key := admissionKey ip
  let swept := state.sweep now
  if maxTrackedPrefixes ≤ swept.entries.len ∧ key ∉ swept.entries then (false,swept)
  else
    let entry := ((swept.entries.lookup key).getD .empty).prune now
    if entry.admissible limits then
      let admitted : IpEntry := ⟨advance entry.active,entry.recentConnects ++ [now]⟩
      (true,{swept with entries := swept.entries.insert key admitted})
    else (false,{swept with entries := swept.entries.insert key entry})

def actCounting (advance : Nat → Nat) (limits : Limits) (state : GuardState) (timed : TimedCall) : GuardState :=
  match timed.call with
  | .tryAdmit ip => (tryAdmitCounting advance limits state timed.time ip).2
  | .release ip => release state ip

def finalCounting (advance : Nat → Nat) (limits : Limits) (state : GuardState) (calls : List TimedCall) : GuardState :=
  calls.foldl (actCounting advance limits) state

theorem final_counting (limits : Limits) (state : GuardState) (calls : List TimedCall) :
    finalCounting (· + 1) limits state calls = final limits state calls := by
  have same : actCounting (· + 1) limits = fun state timed => (act limits state timed).2 := by
    funext state timed
    obtain ⟨time,call⟩ := timed
    cases call <;> rfl
  rw [finalCounting,same,final]

-- One entry, as the table may hold it at an instant.
structure Sound (limits : Limits) (now : Instant) (entry : IpEntry) : Prop where
  sorted : entry.recentConnects.Pairwise (· ≤ ·)
  past : ∀ t ∈ entry.recentConnects, t ≤ now
  bounded : 0 < limits.maxPerMinute.toNat → entry.recentConnects.length ≤ limits.maxPerMinute.toNat

def Informative (entry : IpEntry) : Prop := 0 < entry.active ∨ entry.recentConnects ≠ []

theorem empty_sound (limits : Limits) (now : Instant) : Sound limits now .empty :=
  ⟨List.Pairwise.nil,by simp [IpEntry.empty],by simp [IpEntry.empty]⟩

theorem Sound.wait (sound : Sound limits now entry) (order : now ≤ later) : Sound limits later entry :=
  ⟨sound.sorted,fun t member => (sound.past t member).trans order,sound.bounded⟩

theorem Sound.prune (sound : Sound limits now entry) (instant : Instant) : Sound limits now (entry.prune instant) := by
  have kept : (entry.prune instant).recentConnects.Sublist entry.recentConnects := List.dropWhile_sublist _
  exact ⟨sound.sorted.sublist kept,fun t member => sound.past t (kept.subset member),
    fun limited => kept.length_le.trans (sound.bounded limited)⟩

-- The cast loses nothing while the limit, itself a `u32`, bounds the deque.
theorem Sound.exact (sound : Sound limits now entry) (limited : 0 < limits.maxPerMinute.toNat) :
    entry.recentConnects.length % 4294967296 = entry.recentConnects.length := by
  have bounded := sound.bounded limited
  have range := limits.maxPerMinute.toNat_lt
  exact Nat.mod_eq_of_lt (by omega)

theorem Sound.grant (sound : Sound limits now entry) (active : Nat) (fits : entry.admissible limits = true) :
    Sound limits now ⟨active,entry.recentConnects ++ [now]⟩ := by
  refine ⟨?_,?_,?_⟩
  · refine List.pairwise_append.mpr ⟨sound.sorted,List.pairwise_singleton _ _,?_⟩
    intro t member last single
    rw [List.mem_singleton.mp single]
    exact sound.past t member
  · intro t member
    rcases List.mem_append.mp member with before | last
    · exact sound.past t before
    · exact (List.mem_singleton.mp last).le
  · intro limited
    simp only [IpEntry.admissible,sound.exact limited,limited,decide_true,Bool.true_and,Bool.and_eq_true,
      Bool.not_eq_true',decide_eq_false_iff_not] at fits
    rw [List.length_append,List.length_singleton]
    exact Nat.lt_of_not_le fits.2

-- Pruning may empty a deque, but whoever is refused then still has a session:
-- neither check refuses an entry that holds nothing.
theorem refused_informative (refused : entry.admissible limits = false) : Informative entry := by
  rw [Informative]
  by_contra idle
  obtain ⟨inactive,drained⟩ := not_or.mp idle
  have none : entry.active = 0 := Nat.eq_zero_of_not_pos inactive
  have empty : entry.recentConnects = [] := not_not.mp drained
  simp only [IpEntry.admissible,none,empty,List.length_nil] at refused
  revert refused
  cases limits.maxPerIp.toNat <;> cases limits.maxPerMinute.toNat <;> simp

structure TableSound (limits : Limits) (now : Instant) (state : GuardState) : Prop where
  small : state.entries.len ≤ maxTrackedPrefixes
  sound : ∀ key entry, state.entries.lookup key = some entry → Sound limits now entry
  informative : ∀ key entry, state.entries.lookup key = some entry → Informative entry

theorem new_table (limits : Limits) (start now : Instant) : TableSound limits now (.new start) := by
  refine ⟨Nat.zero_le _,?_,?_⟩
  · intro key entry found
    cases found
  · intro key entry found
    cases found

theorem TableSound.wait (table : TableSound limits now state) (order : now ≤ later) : TableSound limits later state :=
  ⟨table.small,fun key entry found => (table.sound key entry found).wait order,table.informative⟩

theorem TableSound.held (table : TableSound limits now state) (key : IpAddr) : Sound limits now (state.view key) := by
  unfold GuardState.view
  cases found : state.entries.lookup key with
  | none => exact empty_sound limits now
  | some entry => exact table.sound key entry found

theorem TableSound.sweep (table : TableSound limits now state) (instant : Instant) : TableSound limits now (state.sweep instant) := by
  unfold GuardState.sweep
  split
  · have before : ∀ key entry, (state.entries.retain (fun _ entry => !entry.isStale instant)).lookup key = some entry →
        state.entries.lookup key = some entry := by
      intro key entry found
      rw [AList.lookup_retain] at found
      exact (Option.filter_eq_some_iff.mp found).1
    exact ⟨(List.length_filter_le _ _).trans table.small,fun key entry found => table.sound key entry (before key entry found),
      fun key entry found => table.informative key entry (before key entry found)⟩
  · exact table

theorem TableSound.insert (table : TableSound limits now state) (key : IpAddr) (entry : IpEntry)
    (room : key ∈ state.entries ∨ state.entries.len < maxTrackedPrefixes)
    (sound : Sound limits now entry) (informative : Informative entry) :
    TableSound limits now {state with entries := state.entries.insert key entry} := by
  refine ⟨?_,?_,?_⟩
  · by_cases present : key ∈ state.entries
    · exact (AList.len_insert_present _ _ _ present).le.trans table.small
    · exact (AList.len_insert_fresh _ _ _ present).le.trans (room.resolve_left present)
  · intro other held found
    rw [AList.lookup_insert_split] at found
    split at found
    · cases found
      exact sound
    · exact table.sound other held found
  · intro other held found
    rw [AList.lookup_insert_split] at found
    split at found
    · cases found
      exact informative
    · exact table.informative other held found

theorem TableSound.erase (table : TableSound limits now state) (key : IpAddr) (present : key ∈ state.entries) :
    TableSound limits now {state with entries := state.entries.erase key} := by
  have before : ∀ other entry, (state.entries.erase key).lookup other = some entry → state.entries.lookup other = some entry := by
    intro other entry found
    rw [AList.lookup_erase_split] at found
    split at found
    · cases found
    · exact found
  refine ⟨?_,fun other entry found => table.sound other entry (before other entry found),
    fun other entry found => table.informative other entry (before other entry found)⟩
  exact (AList.len_erase_present _ _ present).le.trans ((Nat.sub_le _ _).trans table.small)

-- An entry made for the request is judged before it can stay: what is refused
-- was in the table already.
theorem tryAdmit_sound (advance : Nat → Nat) (table : TableSound limits now state) (ip : IpAddr) :
    TableSound limits now (tryAdmitCounting advance limits state now ip).2 := by
  have swept := table.sweep now
  have pruned := (swept.held (admissionKey ip)).prune now
  unfold tryAdmitCounting
  dsimp only
  split
  · exact swept
  · rename_i open_
    have room : admissionKey ip ∈ (state.sweep now).entries ∨ (state.sweep now).entries.len < maxTrackedPrefixes := by
      by_cases present : admissionKey ip ∈ (state.sweep now).entries
      · exact Or.inl present
      · exact Or.inr (Nat.lt_of_not_le (fun full => open_ ⟨full,present⟩))
    split
    · rename_i fits
      exact swept.insert _ _ room (pruned.grant _ fits) (Or.inr (by simp))
    · rename_i refused
      exact swept.insert _ _ room pruned (refused_informative (by simpa using refused))

theorem release_sound (table : TableSound limits now state) (ip : IpAddr) : TableSound limits now (release state ip) := by
  unfold release
  dsimp only
  split
  · exact table
  · rename_i entry found
    have present : admissionKey ip ∈ state.entries := AList.lookup_isSome.mp (by simp [found])
    have sound := table.sound _ entry found
    split
    · exact table.erase _ present
    · rename_i busy
      refine table.insert _ _ (Or.inl present) ⟨sound.sorted,sound.past,sound.bounded⟩ ?_
      by_cases idle : entry.active - 1 = 0
      · exact Or.inr (fun drained => busy ⟨idle,drained⟩)
      · exact Or.inl (Nat.pos_of_ne_zero idle)

theorem act_sound (advance : Nat → Nat) (timed : TimedCall) (table : TableSound limits timed.time state) :
    TableSound limits timed.time (actCounting advance limits state timed) := by
  obtain ⟨time,call⟩ := timed
  cases call with
  | tryAdmit ip => exact tryAdmit_sound advance table ip
  | release ip => exact release_sound table ip

theorem run_sound (advance : Nat → Nat) (limits : Limits) (start : Instant) (calls : List TimedCall)
    (ordered : (calls.map TimedCall.time).Pairwise (· ≤ ·)) (now : Instant) (bound : ∀ timed ∈ calls, timed.time ≤ now) :
    TableSound limits now (finalCounting advance limits (.new start) calls) := by
  induction calls using List.reverseRecOn generalizing now with
  | nil => exact new_table limits start now
  | append_singleton calls timed ih =>
    obtain ⟨earlier,before⟩ := @ordered_before calls [] timed ordered
    rw [finalCounting,List.foldl_append]
    exact (act_sound advance timed (ih earlier timed.time before)).wait (bound timed (by simp))

-- The invariant as the code relies on it.
structure TableInvariant (limits : Limits) (state : GuardState) : Prop where
  small : state.entries.len ≤ maxTrackedPrefixes
  sorted : ∀ key entry, state.entries.lookup key = some entry → entry.recentConnects.Pairwise (· ≤ ·)
  informative : ∀ key entry, state.entries.lookup key = some entry → 0 < entry.active ∨ entry.recentConnects ≠ []
  bounded : 0 < limits.maxPerMinute.toNat → ∀ key entry, state.entries.lookup key = some entry →
    entry.recentConnects.length ≤ limits.maxPerMinute.toNat
  cast : 0 < limits.maxPerMinute.toNat → ∀ now key,
    (((state.sweep now).view key).prune now).recentConnects.length % 4294967296 =
      (((state.sweep now).view key).prune now).recentConnects.length

theorem TableSound.invariant (table : TableSound limits now state) : TableInvariant limits state where
  small := table.small
  sorted := fun key entry found => (table.sound key entry found).sorted
  informative := table.informative
  bounded := fun limited key entry found => (table.sound key entry found).bounded limited
  cast := fun limited instant key => (((table.sweep instant).held key).prune instant).exact limited

theorem admission_entries (limits : Limits) (start : Instant) (calls : List TimedCall)
    (ordered : (calls.map TimedCall.time).Pairwise (· ≤ ·)) :
    TableInvariant limits (final limits (.new start) calls) ∧
    TableInvariant limits (finalCounting wrapping limits (.new start) calls) := by
  have bound : ∀ timed ∈ calls, timed.time ≤ (calls.map TimedCall.time).sum :=
    fun timed member => List.le_sum_of_mem (List.mem_map_of_mem member)
  rw [← final_counting]
  exact ⟨(run_sound (· + 1) limits start calls ordered _ bound).invariant,
    (run_sound wrapping limits start calls ordered _ bound).invariant⟩

-- Two releases of one admission, and a request after the window has passed.
def releasedTwice : List TimedCall :=
  [⟨0,.tryAdmit (.v4 203 0 113 7)⟩,⟨5,.release (.v4 203 0 113 7)⟩,⟨5,.release (.v4 203 0 113 7)⟩,
    ⟨rateWindow+6,.tryAdmit (.v4 203 0 113 7)⟩]

theorem admission_entries_twice : (releasedTwice.map TimedCall.time).Pairwise (· ≤ ·) ∧
    TableInvariant ⟨2,2⟩ (final ⟨2,2⟩ (.new 0) releasedTwice) ∧
    TableInvariant ⟨2,2⟩ (finalCounting wrapping ⟨2,2⟩ (.new 0) releasedTwice) :=
  have ordered : (releasedTwice.map TimedCall.time).Pairwise (· ≤ ·) := by decide
  ⟨ordered,admission_entries ⟨2,2⟩ 0 releasedTwice ordered⟩

end AegisHoneypot.AdmissionEntries
