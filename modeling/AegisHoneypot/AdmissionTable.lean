import AegisHoneypot.AdmissionEntries
import AegisHoneypot.AdmissionIndependence

-- The table of the guard: which sources it holds, for how long, and whom a full
-- one turns away.
namespace AegisHoneypot.AdmissionTable
open AdmissionGuard AdmissionHistory AdmissionEntries AdmissionIndependence

variable {limits : Limits} {state : GuardState} {history : List Observed} {key : IpAddr}

def Releases (key : IpAddr) (observed : Observed) : Prop := ∃ ip, observed.timed.call = .release ip ∧ admissionKey ip = key

-- Why the table holds a key, reckoned from the latest sweep.
def Accounts (state : GuardState) (history : List Observed) (key : IpAddr) : Prop :=
  0 < (state.view key).active ∨
  (∃ observed ∈ history, observed.admits key = true ∧ state.lastSweep - observed.timed.time ≤ rateWindow) ∨
  ∃ observed ∈ history, Releases key observed ∧ state.lastSweep ≤ observed.timed.time

def Accounted (state : GuardState) (history : List Observed) : Prop := ∀ key ∈ state.entries, Accounts state history key

theorem Accounts.later (held : Accounts state history key) (observed : Observed) : Accounts state (history ++ [observed]) key := by
  rcases held with active | ⟨seen,member,admits,recent⟩ | ⟨seen,member,releases,recent⟩
  · exact Or.inl active
  · exact Or.inr (Or.inl ⟨seen,List.mem_append_left _ member,admits,recent⟩)
  · exact Or.inr (Or.inr ⟨seen,List.mem_append_left _ member,releases,recent⟩)

theorem admission_observed (limits : Limits) (start : GuardState) (calls : List TimedCall)
    (member : t ∈ (ledgerOf key (observe limits start calls)).admissions) :
    ∃ observed ∈ observe limits start calls, observed.admits key = true ∧ observed.timed.time = t := by
  rw [ledgerOf_admissions] at member
  obtain ⟨observed,chosen,same⟩ := List.mem_map.mp member
  obtain ⟨seen,admits⟩ := List.mem_filter.mp chosen
  exact ⟨observed,seen,admits,same⟩

theorem view_held (member : key ∈ state.entries) : state.entries.lookup key = some (state.view key) := by
  cases found : state.entries.lookup key with
  | none => exact absurd member (AList.lookup_eq_none.mp found)
  | some entry => simp [GuardState.view,found]

-- What a sweep keeps is in use, or admitted within the window that ends with it.
theorem retained (now : Instant) (member : key ∈ state.entries.retain (fun _ entry => !entry.isStale now)) :
    key ∈ state.entries ∧ (state.view key).isStale now = false := by
  rw [← AList.lookup_isSome,AList.lookup_retain] at member
  have held : key ∈ state.entries := by
    rw [← AList.lookup_isSome]
    cases found : state.entries.lookup key with
    | none => simp [found] at member
    | some entry => rfl
  rw [view_held held] at member
  refine ⟨held,?_⟩
  cases stale : (state.view key).isStale now with
  | false => rfl
  | true => simp [Option.filter,stale] at member

theorem sweep_keys (member : key ∈ (state.sweep now).entries) : key ∈ state.entries := by
  unfold GuardState.sweep at member
  split at member
  · exact (retained now member).1
  · exact member

theorem sweep_view (member : key ∈ (state.sweep now).entries) : (state.sweep now).view key = state.view key := by
  have swept := view_held member
  have before := view_held (sweep_keys member)
  unfold GuardState.sweep at swept ⊢
  split
  · rename_i due
    rw [if_pos due] at swept
    change (state.entries.retain _).lookup key = some _ at swept
    rw [AList.lookup_retain,before] at swept
    have same := (Option.filter_eq_some_iff.mp swept).1
    exact (Option.some.inj same).symm
  · rfl

section Run
variable (start : Instant) (calls : List TimedCall)

def historyOf (limits : Limits) (start : Instant) (calls : List TimedCall) : List Observed := observe limits (.new start) calls

def tableAfter (limits : Limits) (start : Instant) (calls : List TimedCall) : GuardState := final limits (.new start) calls

def InOrder (start : Instant) (calls : List TimedCall) : Prop := (start :: calls.map TimedCall.time).Pairwise (· ≤ ·)

theorem InOrder.split (ordered : InOrder start (calls ++ [timed])) :
    InOrder start calls ∧ start ≤ timed.time ∧ ∀ other ∈ calls, other.time ≤ timed.time := by
  unfold InOrder at ordered ⊢
  rw [List.map_append,← List.cons_append,List.pairwise_append] at ordered
  refine ⟨ordered.1,ordered.2.2 start (by simp) _ (by simp),?_⟩
  intro other member
  exact ordered.2.2 _ (List.mem_cons_of_mem _ (List.mem_map_of_mem member)) _ (by simp)

theorem sweep_clock (state : GuardState) (now : Instant) (past : state.lastSweep ≤ now) : (state.sweep now).lastSweep ≤ now := by
  unfold GuardState.sweep
  split
  · exact Nat.le_refl now
  · exact past

theorem act_clock (state : GuardState) (timed : TimedCall) (past : state.lastSweep ≤ timed.time) :
    (act limits state timed).2.lastSweep ≤ timed.time := by
  obtain ⟨time,call⟩ := timed
  cases call with
  | release ip =>
    simp only [act,release]
    split
    · exact past
    · split
      · exact past
      · exact past
  | tryAdmit ip =>
    have swept := sweep_clock state time past
    simp only [act]
    rcases tryAdmit_cases limits state time ip with ⟨_,same⟩ | ⟨_,_,same⟩ | ⟨_,_,same⟩
    · rwa [same]
    · rwa [same]
    · rwa [same]

theorem clock_past (ordered : InOrder start calls) (now : Instant) (begun : start ≤ now)
    (bound : ∀ timed ∈ calls, timed.time ≤ now) : (tableAfter limits start calls).lastSweep ≤ now := by
  induction calls using List.reverseRecOn generalizing now with
  | nil => exact begun
  | append_singleton calls timed ih =>
    obtain ⟨earlier,since,before⟩ := ordered.split
    rw [tableAfter,final,List.foldl_append]
    exact (act_clock _ timed (ih earlier timed.time since before)).trans (bound timed (by simp))

theorem sweep_accounted (ordered : InOrder start calls) (now : Instant) (bound : ∀ timed ∈ calls, timed.time ≤ now)
    (accounted : Accounted (tableAfter limits start calls) (historyOf limits start calls)) :
    Accounted ((tableAfter limits start calls).sweep now) (historyOf limits start calls) := by
  intro key member
  have held := sweep_keys member
  have view := sweep_view member
  unfold Accounts
  rw [view]
  unfold GuardState.sweep at member ⊢
  split at member
  · rename_i due
    rw [if_pos due]
    have fresh := (retained now member).2
    have parts : (tableAfter limits start calls |>.view key).active = 0 →
        ∃ t ∈ (tableAfter limits start calls |>.view key).recentConnects, now - t ≤ rateWindow := by
      simpa [IpEntry.isStale] using fresh
    by_cases idle : ((tableAfter limits start calls).view key).active = 0
    · obtain ⟨t,recent,window⟩ := parts idle
      obtain ⟨expired,split,_⟩ := (final_refines limits start calls key (List.pairwise_cons.mp ordered).2 now bound).kept
      have admitted : t ∈ (ledgerOf key (observe limits (.new start) calls)).admissions := by
        rw [split]
        exact List.mem_append_right _ recent
      obtain ⟨observed,seen,admits,rfl⟩ := admission_observed limits (.new start) calls admitted
      exact Or.inr (Or.inl ⟨observed,seen,admits,window⟩)
    · exact Or.inl (Nat.pos_of_ne_zero idle)
  · rename_i notDue
    rw [if_neg notDue]
    exact accounted key held

theorem release_clock (state : GuardState) (ip : IpAddr) : (release state ip).lastSweep = state.lastSweep := by
  unfold release
  dsimp only
  split
  · rfl
  · split
    · rfl
    · rfl

theorem release_keys {ip : IpAddr} (member : key ∈ (release state ip).entries) : key ∈ state.entries := by
  unfold release at member
  dsimp only at member
  split at member
  · exact member
  · rename_i entry found
    have present : admissionKey ip ∈ state.entries := AList.lookup_isSome.mp (by simp [found])
    split at member
    · exact (AList.mem_erase.mp member).2
    · rcases (AList.mem_insert _).mp member with same | old
      · exact same ▸ present
      · exact old

theorem release_accounted (time : Instant) (ip : IpAddr) (observed : Observed) (request : observed.timed = ⟨time,.release ip⟩)
    (past : state.lastSweep ≤ time) (accounted : Accounted state history) :
    Accounted (release state ip) (history ++ [observed]) := by
  intro key member
  have held := accounted key (release_keys member)
  by_cases own : admissionKey ip = key
  · refine Or.inr (Or.inr ⟨observed,by simp,⟨ip,by rw [request],own⟩,?_⟩)
    rw [release_clock,request]
    exact past
  · have view : (release state ip).view key = state.view key := by
      rw [release_view,if_neg (Ne.symm own)]
    have later := held.later observed
    unfold Accounts at later ⊢
    rwa [view,release_clock]

-- A refused request leaves its key's entry as it was but for the pruning, and an
-- absent key is never refused by the two checks.
theorem absent_admissible (limits : Limits) (now : Instant) : (IpEntry.empty.prune now).admissible limits = true := by
  by_contra refused
  have held := refused_informative (Bool.eq_false_of_not_eq_true refused)
  simp [Informative,IpEntry.prune,IpEntry.empty] at held

theorem insert_accounted {own : IpAddr} {entry : IpEntry} (observed : Observed) (accounted : Accounted state history)
    (mine : Accounts {state with entries := state.entries.insert own entry} (history ++ [observed]) own) :
    Accounted {state with entries := state.entries.insert own entry} (history ++ [observed]) := by
  intro key member
  by_cases same : key = own
  · exact same ▸ mine
  · have old := ((AList.mem_insert _).mp member).resolve_left same
    have later := (accounted key old).later observed
    unfold Accounts at later ⊢
    rwa [view_insert,if_neg same]

theorem admit_accounted (time : Instant) (ip : IpAddr) (observed : Observed)
    (accounted : Accounted (state.sweep time) history) :
    Accounted (tryAdmit limits state time ip).2 (history ++ [observed]) := by
  rcases tryAdmit_cases limits state time ip with ⟨_,same⟩ | ⟨_,_,same⟩ | ⟨_,refused,same⟩
  · rw [same]
    exact fun key member => (accounted key member).later observed
  · rw [same]
    refine insert_accounted observed accounted (Or.inl ?_)
    rw [view_insert,if_pos rfl]
    exact Nat.succ_pos _
  · rw [same]
    apply insert_accounted observed accounted
    have present : admissionKey ip ∈ (state.sweep time).entries := by
      by_contra absent
      have empty : (state.sweep time).view (admissionKey ip) = .empty := by
        simp [GuardState.view,AList.lookup_eq_none.mpr absent]
      rw [empty,absent_admissible] at refused
      cases refused
    have later := (accounted _ present).later observed
    unfold Accounts at later ⊢
    rwa [view_insert,if_pos rfl]

theorem run_accounted (ordered : InOrder start calls) :
    Accounted (tableAfter limits start calls) (historyOf limits start calls) := by
  induction calls using List.reverseRecOn with
  | nil => exact fun key member => absurd member (AList.notMem_empty key)
  | append_singleton calls timed ih =>
    obtain ⟨earlier,since,before⟩ := ordered.split
    have accounted := ih earlier
    have past : (tableAfter limits start calls).lastSweep ≤ timed.time := clock_past start calls earlier timed.time since before
    have swept := sweep_accounted start calls earlier timed.time before accounted
    rw [historyOf,observe_append,tableAfter,final,List.foldl_append]
    obtain ⟨time,call⟩ := timed
    cases call with
    | release ip => exact release_accounted time ip _ rfl past accounted
    | tryAdmit ip => exact admit_accounted time ip _ swept

-- The table that turns a new source away was swept less than a window ago.
theorem full_swept (full : state.tableFull now key = true) :
    now - (state.sweep now).lastSweep ≤ rateWindow := by
  have crowded := (of_decide_eq_true full).1
  unfold GuardState.sweep at crowded ⊢
  split
  · exact (Nat.sub_self now).le.trans (Nat.zero_le _)
  · rename_i notDue
    rw [if_neg notDue] at crowded
    have half : maxTrackedPrefixes / 2 ≤ state.entries.len := (Nat.div_le_self _ _).trans crowded
    by_contra overdue
    exact notDue ⟨half,Nat.le_of_lt (Nat.lt_of_not_le overdue)⟩

theorem age_bound {now swept time window : Nat} (fresh : now - swept ≤ window) (recent : swept - time ≤ window) :
    now - time ≤ 2*window := by omega

theorem full_table_for_cause (limits : Limits) (start : Instant) (calls : List TimedCall) (now : Instant) (ip : IpAddr)
    (ordered : InOrder start (calls ++ [⟨now,.tryAdmit ip⟩]))
    (full : (tableAfter limits start calls).tableFull now (admissionKey ip) = true) :
    ∀ key ∈ (tryAdmit limits (tableAfter limits start calls) now ip).2.entries,
      0 < (ledgerOf key (historyOf limits start calls)).outstanding ∨
      (∃ observed ∈ historyOf limits start calls, observed.admits key = true ∧ now - observed.timed.time ≤ 2*rateWindow) ∨
      ∃ observed ∈ historyOf limits start calls, Releases key observed ∧ now - observed.timed.time ≤ rateWindow := by
  intro key member
  obtain ⟨earlier,since,before⟩ := ordered.split
  have refused : (tryAdmit limits (tableAfter limits start calls) now ip).2 = (tableAfter limits start calls).sweep now := by
    rcases tryAdmit_cases limits (tableAfter limits start calls) now ip with ⟨_,same⟩ | ⟨room,_⟩ | ⟨room,_⟩
    · rw [same]
    · rw [full] at room
      cases room
    · rw [full] at room
      cases room
  rw [refused] at member
  have fresh := full_swept full
  have stands := final_refines limits start calls key (List.pairwise_cons.mp earlier).2 now before
  have accounts := sweep_accounted start calls earlier now before (run_accounted start calls earlier) key member
  rcases accounts with active | ⟨observed,seen,admits,window⟩ | ⟨observed,seen,releases,window⟩
  · rw [sweep_view member] at active
    exact Or.inl (active.trans_le stands.active.le)
  · exact Or.inr (Or.inl ⟨observed,seen,admits,age_bound fresh window⟩)
  · exact Or.inr (Or.inr ⟨observed,seen,releases,(Nat.sub_le_sub_left window now).trans fresh⟩)

end Run

theorem act_full (limits : Limits) (state : GuardState) (now : Instant) (ip : IpAddr) :
    (act limits state ⟨now,.tryAdmit ip⟩).1.full = state.tableFull now (admissionKey ip) := rfl

theorem crowd_full : InOrder 0 (crowd maxTrackedPrefixes ++ [⟨0,.tryAdmit visitor⟩]) ∧
    (tableAfter oneSession 0 (crowd maxTrackedPrefixes)).tableFull 0 (admissionKey visitor) = true := by
  constructor
  · have instants : ∀ timed ∈ crowd maxTrackedPrefixes ++ [⟨0,.tryAdmit visitor⟩], timed.time = 0 := by
      intro timed member
      rcases List.mem_append.mp member with early | last
      · obtain ⟨i,_,rfl⟩ := List.mem_map.mp early
        rfl
      · rw [List.mem_singleton.mp last]
    refine List.pairwise_cons.mpr ⟨fun _ _ => Nat.zero_le _,List.pairwise_map.mpr ?_⟩
    refine List.pairwise_of_forall_mem_list ?_
    intro early first late second
    exact (instants early first).le.trans (Nat.zero_le _)
  · rw [← act_full,tableAfter,(crowd_crowded maxTrackedPrefixes le_rfl).visitor_refused]

theorem full_table_for_cause_crowd :
    (tableAfter oneSession 0 (crowd maxTrackedPrefixes)).tableFull 0 (admissionKey visitor) = true ∧
    ∀ key ∈ (tryAdmit oneSession (tableAfter oneSession 0 (crowd maxTrackedPrefixes)) 0 visitor).2.entries,
      0 < (ledgerOf key (historyOf oneSession 0 (crowd maxTrackedPrefixes))).outstanding ∨
      (∃ observed ∈ historyOf oneSession 0 (crowd maxTrackedPrefixes),
        observed.admits key = true ∧ 0 - observed.timed.time ≤ 2*rateWindow) ∨
      ∃ observed ∈ historyOf oneSession 0 (crowd maxTrackedPrefixes),
        Releases key observed ∧ 0 - observed.timed.time ≤ rateWindow :=
  ⟨crowd_full.2,full_table_for_cause oneSession 0 (crowd maxTrackedPrefixes) 0 visitor crowd_full.1 crowd_full.2⟩

end AegisHoneypot.AdmissionTable
