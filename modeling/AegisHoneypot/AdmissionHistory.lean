import AegisHoneypot.AdmissionGuard
import AegisHoneypot.Library.SlidingWindow
import Mathlib.Algebra.Order.Group.Nat
import Mathlib.Data.List.Induction
import Mathlib.Data.List.TakeWhile

namespace AegisHoneypot.AdmissionHistory
open AdmissionGuard

-- What the limiter is for, said of one key alone and without forgetting: how
-- many of its admissions are outstanding, and when every one of them happened.
structure Ledger where
  outstanding : Nat
  admissions : List Instant
  deriving DecidableEq, Repr

def Ledger.empty : Ledger := ⟨0,[]⟩

def Ledger.recent (ledger : Ledger) (now : Instant) : Nat :=
  (SlidingWindow.live rateWindow now ledger.admissions).length

def Ledger.Allows (limits : Limits) (ledger : Ledger) (now : Instant) : Prop :=
  (limits.maxPerIp = 0 ∨ ledger.outstanding < limits.maxPerIp.toNat) ∧
  (limits.maxPerMinute = 0 ∨ ledger.recent now < limits.maxPerMinute.toNat)

-- The entry the table keeps for a key stands for the ledger of that key: the
-- admissions it has forgotten had all left the window by `now`. The bound makes
-- the truncating cast of the deque's length harmless.
structure Refines (limits : Limits) (now : Instant) (entry : IpEntry) (ledger : Ledger) : Prop where
  active : entry.active = ledger.outstanding
  kept : ∃ expired, ledger.admissions = expired ++ entry.recentConnects ∧
    ∀ t ∈ expired, rateWindow < now - t
  sorted : ledger.admissions.Pairwise (· ≤ ·)
  past : ∀ t ∈ ledger.admissions, t ≤ now
  bounded : 0 < limits.maxPerMinute.toNat → entry.recentConnects.length ≤ limits.maxPerMinute.toNat

variable {limits : Limits} {now : Instant} {entry : IpEntry} {ledger : Ledger}

theorem empty_refines (limits : Limits) (now : Instant) : Refines limits now .empty .empty :=
  ⟨rfl,⟨[],rfl,by simp⟩,List.Pairwise.nil,by simp [Ledger.empty],by simp [IpEntry.empty]⟩

theorem Refines.wait {later : Instant} (valid : Refines limits now entry ledger) (order : now ≤ later) :
    Refines limits later entry ledger := by
  obtain ⟨expired,split,old⟩ := valid.kept
  exact ⟨valid.active,⟨expired,split,fun t member => SlidingWindow.expired_later (old t member) order⟩,
    valid.sorted,fun t member => (valid.past t member).trans order,valid.bounded⟩

theorem Refines.live (valid : Refines limits now entry ledger) :
    SlidingWindow.live rateWindow now ledger.admissions =
      SlidingWindow.live rateWindow now entry.recentConnects := by
  obtain ⟨expired,split,old⟩ := valid.kept
  rw [split,SlidingWindow.live_append,SlidingWindow.live_eq_nil expired old,List.nil_append]

theorem Refines.prune (valid : Refines limits now entry ledger) : Refines limits now (entry.prune now) ledger := by
  obtain ⟨expired,split,old⟩ := valid.kept
  let aged := entry.recentConnects.takeWhile (fun t => decide (rateWindow < now - t))
  refine ⟨valid.active,⟨expired ++ aged,?_,?_⟩,valid.sorted,valid.past,?_⟩
  · rw [split,List.append_assoc]
    exact congrArg (expired ++ ·) (List.takeWhile_append_dropWhile).symm
  · intro t member
    rcases List.mem_append.mp member with before | front
    · exact old t before
    · have aging := List.mem_takeWhile_imp front
      exact of_decide_eq_true aging
  · intro positive
    exact (List.dropWhile_sublist _).length_le.trans (valid.bounded positive)

theorem Refines.prune_recent (valid : Refines limits now entry ledger) :
    (entry.prune now).recentConnects = SlidingWindow.live rateWindow now ledger.admissions := by
  obtain ⟨expired,split,_⟩ := valid.kept
  have sorted : entry.recentConnects.Pairwise (· ≤ ·) := by
    have all := valid.sorted
    rw [split] at all
    exact (List.pairwise_append.mp all).2.1
  rw [valid.live]
  exact SlidingWindow.dropWhile_expired _ sorted

-- A stale entry carries no information: an absent one stands for the same ledger.
theorem Refines.stale (valid : Refines limits now entry ledger) (stale : entry.isStale now = true) :
    Refines limits now .empty ledger := by
  have parts : entry.active = 0 ∧ ∀ t ∈ entry.recentConnects, ¬ now - t ≤ rateWindow := by
    simpa [IpEntry.isStale] using stale
  obtain ⟨expired,split,old⟩ := valid.kept
  refine ⟨parts.1.symm.trans valid.active,⟨ledger.admissions,by simp [IpEntry.empty],?_⟩,
    valid.sorted,valid.past,by simp [IpEntry.empty]⟩
  intro t member
  rw [split] at member
  rcases List.mem_append.mp member with before | held
  · exact old t before
  · exact Nat.lt_of_not_le (parts.2 t held)

theorem Refines.sweep {state : GuardState} {key : IpAddr} (valid : Refines limits now (state.view key) ledger) :
    Refines limits now ((state.sweep now).view key) ledger := by
  unfold GuardState.sweep
  split
  · simp only [GuardState.view] at valid ⊢
    rw [AList.lookup_retain]
    cases found : state.entries.lookup key with
    | none => simpa [found] using valid
    | some entry =>
      simp only [found,Option.getD_some] at valid
      by_cases stale : entry.isStale now = true
      · simpa [Option.filter,stale] using valid.stale stale
      · simpa [Option.filter,stale] using valid
  · exact valid

theorem admissible_exact (valid : Refines limits now entry ledger)
    (pruned : entry.recentConnects = SlidingWindow.live rateWindow now ledger.admissions) :
    entry.admissible limits = true ↔ ledger.Allows limits now := by
  have ipZero : limits.maxPerIp = 0 ↔ limits.maxPerIp.toNat = 0 := by
    rw [← UInt32.toNat_inj]; rfl
  have minuteZero : limits.maxPerMinute = 0 ↔ limits.maxPerMinute.toNat = 0 := by
    rw [← UInt32.toNat_inj]; rfl
  have recent : entry.recentConnects.length = ledger.recent now := by rw [pruned]; rfl
  have range := limits.maxPerMinute.toNat_lt
  have bounded := valid.bounded
  rw [recent] at bounded
  simp only [IpEntry.admissible,Ledger.Allows,ipZero,minuteZero,valid.active,recent,
    Bool.and_eq_true,Bool.not_eq_true',Bool.and_eq_false_iff,decide_eq_false_iff_not]
  constructor
  · intro given
    obtain ⟨ip,minute⟩ := given
    refine ⟨by omega,?_⟩
    by_cases positive : 0 < limits.maxPerMinute.toNat
    · have small : ledger.recent now % 4294967296 = ledger.recent now := Nat.mod_eq_of_lt (by have := bounded positive; omega)
      rw [small] at minute
      omega
    · exact Or.inl (by omega)
  · intro given
    obtain ⟨ip,minute⟩ := given
    refine ⟨by omega,?_⟩
    by_cases positive : 0 < limits.maxPerMinute.toNat
    · have small : ledger.recent now % 4294967296 = ledger.recent now := Nat.mod_eq_of_lt (by have := bounded positive; omega)
      rw [small]
      omega
    · exact Or.inl positive

def Ledger.grant (ledger : Ledger) (now : Instant) : Ledger :=
  ⟨ledger.outstanding+1,ledger.admissions ++ [now]⟩

def Ledger.release (ledger : Ledger) : Ledger := ⟨ledger.outstanding-1,ledger.admissions⟩

theorem Refines.grant (valid : Refines limits now entry ledger)
    (pruned : entry.recentConnects = SlidingWindow.live rateWindow now ledger.admissions)
    (allowed : ledger.Allows limits now) :
    Refines limits now ⟨entry.active+1,entry.recentConnects ++ [now]⟩ (ledger.grant now) := by
  obtain ⟨expired,split,old⟩ := valid.kept
  refine ⟨congrArg (· + 1) valid.active,⟨expired,?_,old⟩,?_,?_,?_⟩
  · simp only [Ledger.grant]
    rw [split,List.append_assoc]
  · exact List.pairwise_append.mpr ⟨valid.sorted,List.pairwise_singleton _ _,by
      intro t member last single
      rw [List.mem_singleton.mp single]
      exact valid.past t member⟩
  · intro t member
    rcases List.mem_append.mp member with before | last
    · exact valid.past t before
    · exact (List.mem_singleton.mp last).le
  · intro positive
    rw [List.length_append,List.length_singleton,pruned]
    rcases allowed.2 with zero | below
    · rw [zero] at positive; cases positive
    · exact below

theorem Refines.release (valid : Refines limits now entry ledger) :
    Refines limits now {entry with active := entry.active-1} ledger.release :=
  ⟨congrArg (· - 1) valid.active,valid.kept,valid.sorted,valid.past,valid.bounded⟩

theorem view_insert (state : GuardState) (key other : IpAddr) (entry : IpEntry) :
    GuardState.view {state with entries := state.entries.insert key entry} other =
      if other = key then entry else state.view other := by
  simp only [GuardState.view,AList.lookup_insert_split]
  split <;> rfl

theorem view_erase (state : GuardState) (key other : IpAddr) :
    GuardState.view {state with entries := state.entries.erase key} other =
      if other = key then .empty else state.view other := by
  simp only [GuardState.view,AList.lookup_erase_split]
  split <;> rfl

theorem release_view (state : GuardState) (ip other : IpAddr) :
    (release state ip).view other = if other = admissionKey ip then
      {state.view other with active := (state.view other).active-1} else state.view other := by
  cases found : state.entries.lookup (admissionKey ip) with
  | none =>
    simp only [AdmissionGuard.release,found]
    split
    · rename_i same; subst other; simp [GuardState.view,found,IpEntry.empty]
    · rfl
  | some entry =>
    have held : state.view (admissionKey ip) = entry := by simp [GuardState.view,found]
    simp only [AdmissionGuard.release,found]
    split
    · rename_i drained
      rw [view_erase]
      split
      · rename_i same; subst other; rw [held]; simp [IpEntry.empty,drained]
      · rfl
    · rw [view_insert]
      split
      · rename_i same; subst other; rw [held]
      · rfl

-- Everything `try_admit` can do, seen through the entries: the table is full
-- and nothing happens, or the key's pruned entry decides and is written back.
theorem tryAdmit_cases (limits : Limits) (state : GuardState) (now : Instant) (ip : IpAddr) :
    let entry := ((state.sweep now).view (admissionKey ip)).prune now
    (state.tableFull now (admissionKey ip) = true ∧ tryAdmit limits state now ip = (false,state.sweep now)) ∨
    (state.tableFull now (admissionKey ip) = false ∧ entry.admissible limits = true ∧
      tryAdmit limits state now ip = (true,{state.sweep now with
        entries := (state.sweep now).entries.insert (admissionKey ip)
          ⟨entry.active+1,entry.recentConnects ++ [now]⟩})) ∨
    (state.tableFull now (admissionKey ip) = false ∧ entry.admissible limits = false ∧
      tryAdmit limits state now ip = (false,{state.sweep now with
        entries := (state.sweep now).entries.insert (admissionKey ip) entry})) := by
  intro entry
  unfold AdmissionGuard.tryAdmit GuardState.tableFull
  by_cases full : maxTrackedPrefixes ≤ (state.sweep now).entries.len ∧
      admissionKey ip ∉ (state.sweep now).entries
  · exact Or.inl ⟨decide_eq_true full,by simp only [if_pos full]⟩
  · right
    simp only [if_neg full,decide_eq_false full,true_and]
    cases fits : entry.admissible limits with
    | true => exact Or.inl ⟨rfl,if_pos fits⟩
    | false => exact Or.inr ⟨rfl,if_neg (by rw [← Bool.not_eq_true] at fits; exact fits)⟩

inductive GuardCall where
  | tryAdmit (ip : IpAddr)
  | release (ip : IpAddr)
  deriving DecidableEq, Repr

def GuardCall.key : GuardCall → IpAddr
  | .tryAdmit ip => admissionKey ip
  | .release ip => admissionKey ip

structure TimedCall where
  time : Instant
  call : GuardCall
  deriving DecidableEq, Repr

-- One call as an outside observer records it; `full` marks the refusals for a
-- full table. A release is answered by nothing, recorded here as `false`.
structure Observed where
  timed : TimedCall
  full : Bool
  answer : Bool
  deriving DecidableEq, Repr

def Observed.admits (observed : Observed) (key : IpAddr) : Bool :=
  decide (observed.timed.call.key = key) && observed.answer

def Observed.concerns (key : IpAddr) (observed : Observed) : Bool :=
  decide (observed.timed.call.key = key) && !observed.full

def act (limits : Limits) (state : GuardState) (timed : TimedCall) : Observed × GuardState :=
  match timed.call with
  | .tryAdmit ip =>
    let result := tryAdmit limits state timed.time ip
    (⟨timed,state.tableFull timed.time (admissionKey ip),result.1⟩,result.2)
  | .release ip => (⟨timed,false,false⟩,release state ip)

def observe (limits : Limits) : GuardState → List TimedCall → List Observed
  | _,[] => []
  | state,timed :: rest => (act limits state timed).1 :: observe limits (act limits state timed).2 rest

def final (limits : Limits) (state : GuardState) (calls : List TimedCall) : GuardState :=
  calls.foldl (fun state timed => (act limits state timed).2) state

def Ledger.record (key : IpAddr) (ledger : Ledger) (observed : Observed) : Ledger :=
  if observed.timed.call.key = key then
    match observed.timed.call with
    | .tryAdmit _ => if observed.answer then ledger.grant observed.timed.time else ledger
    | .release _ => ledger.release
  else ledger

def ledgerOf (key : IpAddr) (history : List Observed) : Ledger :=
  history.foldl (Ledger.record key) .empty

theorem act_timed (limits : Limits) (state : GuardState) (timed : TimedCall) :
    (act limits state timed).1.timed = timed := by
  unfold act; split <;> rfl

theorem observe_append (limits : Limits) (state : GuardState) (left right : List TimedCall) :
    observe limits state (left ++ right) =
      observe limits state left ++ observe limits (final limits state left) right := by
  induction left generalizing state with
  | nil => rfl
  | cons timed rest ih => simp only [List.cons_append,observe,final,List.foldl_cons,ih]

theorem observe_timed (limits : Limits) (state : GuardState) (calls : List TimedCall) :
    (observe limits state calls).map Observed.timed = calls := by
  induction calls generalizing state with
  | nil => rfl
  | cons timed rest ih => simp only [observe,List.map_cons,act_timed,ih]

theorem ledgerOf_append (key : IpAddr) (history : List Observed) (observed : Observed) :
    ledgerOf key (history ++ [observed]) = (ledgerOf key history).record key observed := by
  simp [ledgerOf]

-- One call moves the entry of its key as it moves the key's ledger, answers by
-- what the ledger allows, and leaves every other key's entry standing for its own.
theorem act_refines {state : GuardState} (timed : TimedCall) (key : IpAddr)
    (valid : Refines limits timed.time (state.view key) ledger) :
    Refines limits timed.time ((act limits state timed).2.view key)
      (ledger.record key (act limits state timed).1) := by
  obtain ⟨time,call⟩ := timed
  cases call with
  | release ip =>
    simp only [act,Ledger.record,GuardCall.key]
    rw [release_view]
    by_cases own : admissionKey ip = key
    · subst key; simpa using valid.release
    · simpa [own,Ne.symm own] using valid
  | tryAdmit ip =>
    have swept := valid.sweep
    by_cases own : admissionKey ip = key
    · subst key
      have pruned := swept.prune
      rcases tryAdmit_cases limits state time ip with ⟨_,same⟩ | ⟨_,fits,same⟩ | ⟨_,_,same⟩
      · simpa only [act,same,Ledger.record,GuardCall.key,if_true,Bool.false_eq_true,if_false] using swept
      · simp only [act,same,Ledger.record,GuardCall.key,if_true,view_insert]
        exact pruned.grant swept.prune_recent ((admissible_exact pruned swept.prune_recent).mp fits)
      · simpa only [act,same,Ledger.record,GuardCall.key,if_true,view_insert,Bool.false_eq_true,if_false] using pruned
    · rcases tryAdmit_cases limits state time ip with ⟨_,same⟩ | ⟨_,_,same⟩ | ⟨_,_,same⟩ <;>
        simpa [act,same,Ledger.record,GuardCall.key,own,view_insert,Ne.symm own] using swept

theorem act_answer {state : GuardState} {time : Instant} {ip : IpAddr}
    (valid : Refines limits time (state.view (admissionKey ip)) ledger)
    (room : (act limits state ⟨time,.tryAdmit ip⟩).1.full = false) :
    (act limits state ⟨time,.tryAdmit ip⟩).1.answer = true ↔ ledger.Allows limits time := by
  have swept := valid.sweep
  rw [← admissible_exact swept.prune swept.prune_recent]
  simp only [act] at room ⊢
  rcases tryAdmit_cases limits state time ip with ⟨full,_⟩ | ⟨_,fits,same⟩ | ⟨_,fits,same⟩
  · rw [full] at room; cases room
  · rw [same]; simp [fits]
  · rw [same]; simp [fits]

-- The induction is on the last call: the instant of the last call bounds every
-- earlier one, so an entry that stood for a ledger then still does.
theorem final_refines (limits : Limits) (start : Instant) (calls : List TimedCall) (key : IpAddr)
    (ordered : (calls.map TimedCall.time).Pairwise (· ≤ ·)) (now : Instant)
    (bound : ∀ timed ∈ calls, timed.time ≤ now) :
    Refines limits now ((final limits (.new start) calls).view key)
      (ledgerOf key (observe limits (.new start) calls)) := by
  induction calls using List.reverseRecOn generalizing now with
  | nil => exact empty_refines limits now
  | append_singleton calls timed ih =>
    rw [List.map_append,List.pairwise_append] at ordered
    have before : ∀ other ∈ calls, other.time ≤ timed.time := fun other member =>
      ordered.2.2 _ (List.mem_map_of_mem member) _ (by simp)
    have prior := ih ordered.1 timed.time before
    rw [observe_append]
    simp only [observe]
    rw [ledgerOf_append,final,List.foldl_append]
    exact (act_refines timed key prior).wait (bound timed (by simp))

theorem observed_split {limits : Limits} {state : GuardState} {calls : List TimedCall}
    {before after : List Observed} {observed : Observed}
    (split : observe limits state calls = before ++ observed :: after) :
    ∃ earlier timed later, calls = earlier ++ timed :: later ∧ before = observe limits state earlier ∧
      observed = (act limits (final limits state earlier) timed).1 := by
  induction before generalizing state calls with
  | nil =>
    cases calls with
    | nil => cases split
    | cons timed rest =>
      simp only [observe,List.nil_append,List.cons.injEq] at split
      exact ⟨[],timed,rest,rfl,rfl,split.1.symm⟩
  | cons first before ih =>
    cases calls with
    | nil => cases split
    | cons timed rest =>
      simp only [observe,List.cons_append,List.cons.injEq] at split
      obtain ⟨earlier,middle,later,rfl,same,result⟩ := ih split.2
      exact ⟨timed :: earlier,middle,later,rfl,by rw [← split.1,same]; rfl,result⟩

theorem ordered_before {earlier later : List TimedCall} {timed : TimedCall}
    (ordered : ((earlier ++ timed :: later).map TimedCall.time).Pairwise (· ≤ ·)) :
    (earlier.map TimedCall.time).Pairwise (· ≤ ·) ∧ ∀ other ∈ earlier, other.time ≤ timed.time := by
  rw [List.map_append,List.pairwise_append] at ordered
  exact ⟨ordered.1,fun other member => ordered.2.2 _ (List.mem_map_of_mem member) _ (by simp)⟩

theorem answer_exact (limits : Limits) (start : Instant) (calls : List TimedCall)
    (ordered : (calls.map TimedCall.time).Pairwise (· ≤ ·)) {before after : List Observed}
    {observed : Observed} {ip : IpAddr}
    (split : observe limits (.new start) calls = before ++ observed :: after)
    (request : observed.timed.call = .tryAdmit ip) (room : observed.full = false) :
    observed.answer = true ↔ (ledgerOf (admissionKey ip) before).Allows limits observed.timed.time := by
  obtain ⟨earlier,⟨time,call⟩,later,rfl,rfl,rfl⟩ := observed_split split
  obtain ⟨sorted,bound⟩ := ordered_before ordered
  rw [act_timed] at request
  cases request
  rw [act_timed]
  exact act_answer (final_refines limits start earlier (admissionKey ip) sorted time bound) room

theorem ledgerOf_admissions (key : IpAddr) (limits : Limits) (state : GuardState) (calls : List TimedCall) :
    (ledgerOf key (observe limits state calls)).admissions =
      ((observe limits state calls).filter (·.admits key)).map (·.timed.time) := by
  induction calls using List.reverseRecOn with
  | nil => rfl
  | append_singleton calls timed ih =>
    rw [observe_append]
    simp only [observe]
    rw [ledgerOf_append,List.filter_append,List.map_append,← ih]
    generalize (ledgerOf key (observe limits state calls)) = ledger
    generalize (final limits state calls) = state
    obtain ⟨time,call⟩ := timed
    by_cases own : call.key = key
    · cases call with
      | release ip => simp [act,Ledger.record,own,Observed.admits,Ledger.release]
      | tryAdmit ip =>
        cases answered : (tryAdmit limits state time ip).1 <;>
          simp [act,Ledger.record,own,Observed.admits,answered,Ledger.grant]
    · have foreign : (act limits state ⟨time,call⟩).1.timed.call.key ≠ key := by rw [act_timed]; exact own
      simp [Ledger.record,Observed.admits,foreign]

theorem final_throttled (limits : Limits) (start : Instant) (calls : List TimedCall) (key : IpAddr)
    (ordered : (calls.map TimedCall.time).Pairwise (· ≤ ·)) (limited : 0 < limits.maxPerMinute.toNat) :
    SlidingWindow.Throttled rateWindow limits.maxPerMinute.toNat
      (ledgerOf key (observe limits (.new start) calls)).admissions := by
  induction calls using List.reverseRecOn with
  | nil => exact .nil
  | append_singleton calls timed ih =>
    obtain ⟨sorted,bound⟩ := @ordered_before calls [] timed ordered
    have prior := ih sorted
    have valid := final_refines limits start calls key sorted timed.time bound
    rw [observe_append]
    simp only [observe]
    rw [ledgerOf_append]
    generalize ledgerOf key (observe limits (.new start) calls) = ledger at prior valid ⊢
    generalize final limits (.new start) calls = state at valid ⊢
    obtain ⟨time,call⟩ := timed
    unfold Ledger.record
    rw [act_timed]
    split
    · rename_i own
      cases call with
      | release ip => exact prior
      | tryAdmit ip =>
        dsimp only
        split
        · rename_i answered
          cases own
          have room : (act limits state ⟨time,.tryAdmit ip⟩).1.full = false := by
            simp only [act] at answered ⊢
            rcases tryAdmit_cases limits state time ip with ⟨_,same⟩ | ⟨open_,_⟩ | ⟨open_,_⟩
            · rw [same] at answered; cases answered
            · exact open_
            · exact open_
          rcases ((act_answer valid room).mp answered).2 with zero | below
          · rw [zero] at limited; cases limited
          · exact .snoc prior valid.past below
        · exact prior
    · exact prior

theorem admissions_in_every_window (limits : Limits) (start : Instant) (calls : List TimedCall)
    (ordered : (calls.map TimedCall.time).Pairwise (· ≤ ·)) (limited : 0 < limits.maxPerMinute)
    (key : IpAddr) (opening : Instant) :
    ((observe limits (.new start) calls).filter fun observed => observed.admits key &&
      decide (opening ≤ observed.timed.time ∧ observed.timed.time ≤ opening + rateWindow)).length ≤
        limits.maxPerMinute.toNat := by
  have throttled := final_throttled limits start calls key ordered (by simpa using UInt32.lt_iff_toNat_lt.mp limited)
  have bounded := throttled.interval opening
  rw [ledgerOf_admissions,List.filter_map,List.length_map,List.filter_filter] at bounded
  refine le_trans (le_of_eq ?_) bounded
  congr 1
  apply List.filter_congr
  intro observed _
  rw [Bool.and_comm]
  rfl

-- Three requests of one source against a limit of two a minute: the third
-- comes one nanosecond after the first has left the window.
def thirdAfterWindow : List TimedCall :=
  [⟨0,.tryAdmit (.v4 203 0 113 7)⟩,⟨30,.tryAdmit (.v4 203 0 113 7)⟩,⟨40,.tryAdmit (.v4 203 0 113 7)⟩,
    ⟨rateWindow+1,.tryAdmit (.v4 203 0 113 7)⟩]

theorem admissions_third_after_window :
    ((observe ⟨0,2⟩ (.new 0) thirdAfterWindow).filter fun observed => observed.admits (.v4 203 0 113 7) &&
      decide (1 ≤ observed.timed.time ∧ observed.timed.time ≤ 1 + rateWindow)).length ≤ 2 :=
  admissions_in_every_window ⟨0,2⟩ 0 thirdAfterWindow (by decide) (by decide) (.v4 203 0 113 7) 1

end AegisHoneypot.AdmissionHistory
