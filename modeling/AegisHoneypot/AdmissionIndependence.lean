import AegisHoneypot.AdmissionHistory

namespace AegisHoneypot.AdmissionIndependence
open AdmissionGuard AdmissionHistory

variable {limits : Limits} {now : Instant} {ledger : Ledger}

def OnlyKey (key : IpAddr) (state : GuardState) : Prop := ∀ other, other ∈ state.entries → other = key

theorem OnlyKey.len {key : IpAddr} {state : GuardState} (only : OnlyKey key state) : state.entries.len ≤ 1 := by
  rw [AList.len_keys]
  have nodup := state.entries.keys_nodup
  have all : ∀ other ∈ state.entries.keys, other = key := fun other member => only other (AList.mem_keys.mpr member)
  generalize state.entries.keys = keys at nodup all ⊢
  match keys with
  | [] => simp
  | [_] => simp
  | first :: second :: rest =>
    have same : first = second := (all first (by simp)).trans (all second (by simp)).symm
    simp [same] at nodup

theorem OnlyKey.sweep {key : IpAddr} {state : GuardState} (only : OnlyKey key state) (now : Instant) :
    OnlyKey key (state.sweep now) := by
  unfold GuardState.sweep
  split
  · intro other member
    apply only
    rw [← AList.lookup_isSome] at member ⊢
    rw [AList.lookup_retain] at member
    cases found : state.entries.lookup other with
    | none => simp [found] at member
    | some entry => rfl
  · exact only

theorem OnlyKey.room {key : IpAddr} {state : GuardState} (only : OnlyKey key state) (now : Instant)
    (other : IpAddr) : state.tableFull now other = false := by
  have few := (only.sweep now).len
  apply decide_eq_false
  intro given
  obtain ⟨full,_⟩ := given
  have cap : maxTrackedPrefixes = 65536 := rfl
  omega

theorem OnlyKey.act {key : IpAddr} {state : GuardState} (only : OnlyKey key state) (timed : TimedCall)
    (own : timed.call.key = key) : OnlyKey key (act limits state timed).2 := by
  obtain ⟨time,call⟩ := timed
  have inserted : ∀ (state : GuardState) (entry : IpEntry), OnlyKey key state →
      OnlyKey key {state with entries := state.entries.insert key entry} := by
    intro state entry only other member
    rcases (AList.mem_insert _).mp member with same | old
    · exact same
    · exact only other old
  cases call with
  | release ip =>
    cases own
    simp only [AdmissionHistory.act,AdmissionGuard.release]
    split
    · exact only
    · split
      · intro other member
        exact only other (AList.mem_erase.mp member).2
      · exact inserted _ _ only
  | tryAdmit ip =>
    cases own
    have swept := only.sweep time
    simp only [AdmissionHistory.act]
    rcases tryAdmit_cases limits state time ip with ⟨_,same⟩ | ⟨_,_,same⟩ | ⟨_,_,same⟩
    · rw [same]; exact swept
    · rw [same]; exact inserted _ _ swept
    · rw [same]; exact inserted _ _ swept

theorem record_unconcerned {key : IpAddr} {state : GuardState} {timed : TimedCall} (ledger : Ledger)
    (apart : (act limits state timed).1.concerns key = false) :
    ledger.record key (act limits state timed).1 = ledger := by
  obtain ⟨time,call⟩ := timed
  unfold Ledger.record
  split
  · rename_i own
    have full : (act limits state ⟨time,call⟩).1.full = true := by
      simpa [Observed.concerns,own] using apart
    cases call with
    | release ip => cases full
    | tryAdmit ip =>
      simp only [act] at full ⊢
      rcases tryAdmit_cases limits state time ip with ⟨_,same⟩ | ⟨room,_⟩ | ⟨room,_⟩
      · simp [same]
      · rw [room] at full; cases full
      · rw [room] at full; cases full
  · rfl

-- Two tables that stand for the same ledger of the key observe its next call
-- alike, as long as neither refuses it for want of room.
theorem act_agrees {key : IpAddr} {state solo : GuardState} (timed : TimedCall)
    (valid : Refines limits timed.time (state.view key) ledger)
    (alone : Refines limits timed.time (solo.view key) ledger) (only : OnlyKey key solo)
    (concerns : (act limits state timed).1.concerns key = true) :
    (act limits solo timed).1 = (act limits state timed).1 := by
  obtain ⟨time,call⟩ := timed
  have parts : (act limits state ⟨time,call⟩).1.timed.call.key = key ∧
      (act limits state ⟨time,call⟩).1.full = false := by simpa [Observed.concerns] using concerns
  rw [act_timed] at parts
  cases call with
  | release ip => rfl
  | tryAdmit ip =>
    obtain ⟨own,room⟩ := parts
    cases own
    have empty : (act limits solo ⟨time,.tryAdmit ip⟩).1.full = false := only.room time _
    have same := (act_answer alone empty).trans (act_answer valid room).symm
    have answers := Bool.eq_iff_iff.mpr same
    simp only [act] at answers empty room ⊢
    rw [answers,empty,room]

theorem solo_observes {key : IpAddr} (calls : List TimedCall) {state solo : GuardState}
    (ordered : (calls.map TimedCall.time).Pairwise (· ≤ ·)) (bound : ∀ timed ∈ calls, now ≤ timed.time)
    (valid : Refines limits now (state.view key) ledger) (alone : Refines limits now (solo.view key) ledger)
    (only : OnlyKey key solo) :
    observe limits solo (((observe limits state calls).filter (·.concerns key)).map Observed.timed) =
      (observe limits state calls).filter (·.concerns key) := by
  induction calls generalizing state solo ledger now with
  | nil => rfl
  | cons timed rest ih =>
    rw [List.map_cons,List.pairwise_cons] at ordered
    have reached := bound timed (by simp)
    have next : ∀ other ∈ rest, timed.time ≤ other.time := fun other member =>
      ordered.1 _ (List.mem_map_of_mem member)
    have moved := act_refines timed key (valid.wait reached)
    simp only [observe]
    cases concerns : (act limits state timed).1.concerns key with
    | false =>
      rw [record_unconcerned ledger concerns] at moved
      simp only [List.filter_cons,concerns]
      exact ih ordered.2 next moved (alone.wait reached) only
    | true =>
      have agrees := act_agrees timed (valid.wait reached) (alone.wait reached) only concerns
      have soloMoved := act_refines timed key (alone.wait reached)
      rw [agrees] at soloMoved
      have own : timed.call.key = key := by
        have parts : (act limits state timed).1.timed.call.key = key ∧
            (act limits state timed).1.full = false := by
          simpa [Observed.concerns] using concerns
        rw [act_timed] at parts
        exact parts.1
      simp only [List.filter_cons,concerns,if_true,List.map_cons,observe,act_timed,agrees,List.cons.injEq,true_and]
      exact ih ordered.2 next moved soloMoved (only.act timed own)

theorem concerns_of_room {key : IpAddr} (history : List Observed)
    (room : ∀ observed ∈ history, observed.timed.call.key = key → observed.full = false) :
    history.filter (·.concerns key) = history.filter (fun observed => decide (observed.timed.call.key = key)) := by
  apply List.filter_congr
  intro observed member
  by_cases own : observed.timed.call.key = key
  · simp [Observed.concerns,own,room observed member own]
  · simp [Observed.concerns,own]

theorem observe_own (limits : Limits) (state : GuardState) (calls : List TimedCall) (key : IpAddr) :
    ((observe limits state calls).filter (fun observed => decide (observed.timed.call.key = key))).map
      Observed.timed = calls.filter (fun timed => decide (timed.call.key = key)) := by
  conv_rhs => rw [← observe_timed limits state calls]
  rw [List.filter_map]
  rfl

theorem own_solo (limits : Limits) (start : Instant) (calls : List TimedCall) (key : IpAddr)
    (ordered : (calls.map TimedCall.time).Pairwise (· ≤ ·)) : observe limits (.new start)
      (((observe limits (.new start) calls).filter (·.concerns key)).map Observed.timed) =
        (observe limits (.new start) calls).filter (·.concerns key) :=
  solo_observes calls ordered (fun _ _ => Nat.zero_le _) (empty_refines limits 0) (empty_refines limits 0)
    (fun other member => absurd member (AList.notMem_empty other))

theorem own_answers (limits : Limits) (start : Instant) (calls : List TimedCall) (key : IpAddr)
    (ordered : (calls.map TimedCall.time).Pairwise (· ≤ ·))
    (room : ∀ observed ∈ observe limits (.new start) calls, observed.timed.call.key = key → observed.full = false) :
    observe limits (.new start) (calls.filter (fun timed => decide (timed.call.key = key))) =
      (observe limits (.new start) calls).filter (fun observed => decide (observed.timed.call.key = key)) := by
  have own := own_solo limits start calls key ordered
  rw [concerns_of_room _ room] at own
  rwa [observe_own] at own

theorem admission_by_own_history (limits : Limits) (start : Instant) (calls : List TimedCall)
    (ordered : (calls.map TimedCall.time).Pairwise (· ≤ ·)) :
    (∀ before observed after ip, observe limits (.new start) calls = before ++ observed :: after →
      observed.timed.call = .tryAdmit ip → observed.full = false →
      (observed.answer = true ↔ (ledgerOf (admissionKey ip) before).Allows limits observed.timed.time)) ∧
    (∀ key, observe limits (.new start)
        (((observe limits (.new start) calls).filter (·.concerns key)).map Observed.timed) =
      (observe limits (.new start) calls).filter (·.concerns key)) ∧
    ∀ key, (∀ observed ∈ observe limits (.new start) calls,
        observed.timed.call.key = key → observed.full = false) →
      observe limits (.new start) (calls.filter (fun timed => decide (timed.call.key = key))) =
        (observe limits (.new start) calls).filter (fun observed => decide (observed.timed.call.key = key)) :=
  ⟨fun _ _ _ _ split request room => answer_exact limits start calls ordered split request room,
    fun key => own_solo limits start calls key ordered,fun key room => own_answers limits start calls key ordered room⟩

-- 65,536 keys fill the table when `visitor` asks for room; one of them then
-- leaves, and `visitor` asks again.
def host (i : Nat) : IpAddr := .v6 (UInt64.ofNat i) 0
def visitor : IpAddr := .v4 203 0 113 7
def oneSession : Limits := ⟨1,0⟩
def oneMinuteLater : Instant := rateWindow + 1

def crowd (count : Nat) : List TimedCall := (List.range count).map fun i => ⟨0,.tryAdmit (host i)⟩

def crowdedRun : List TimedCall := crowd maxTrackedPrefixes ++
  [⟨0,.tryAdmit visitor⟩,⟨oneMinuteLater,.tryAdmit (host 0)⟩,⟨oneMinuteLater,.release (host 0)⟩,
    ⟨oneMinuteLater,.tryAdmit visitor⟩]

structure Crowded (count : Nat) (state : GuardState) : Prop where
  clock : state.lastSweep = 0
  len : state.entries.len = count
  held : ∀ i < count, state.entries.lookup (host i) = some ⟨1,[0]⟩
  only : ∀ key ∈ state.entries, ∃ i < count, key = host i

theorem host_inj {i j : Nat} (left : i < maxTrackedPrefixes) (right : j < maxTrackedPrefixes)
    (same : host i = host j) : i = j := by
  have cap : maxTrackedPrefixes = 65536 := rfl
  have words : UInt64.ofNat i = UInt64.ofNat j := by simpa [host] using same
  have numbers := congrArg UInt64.toNat words
  rw [UInt64.toNat_ofNat_of_lt' (by simp [UInt64.size]; omega),UInt64.toNat_ofNat_of_lt' (by simp [UInt64.size]; omega)] at numbers
  exact numbers

theorem Crowded.unswept {state : GuardState} (crowded : Crowded count state) : state.sweep 0 = state := by
  unfold GuardState.sweep
  rw [crowded.clock,if_neg]
  intro given
  obtain ⟨_,window⟩ := given
  cases window

theorem Crowded.next {state : GuardState} (crowded : Crowded count state) (room : count < maxTrackedPrefixes) :
    Crowded (count+1) (act oneSession state ⟨0,.tryAdmit (host count)⟩).2 := by
  have fresh : host count ∉ state.entries := by
    intro member
    obtain ⟨i,below,same⟩ := crowded.only _ member
    have := host_inj room (below.trans room) same
    omega
  have absent : state.view (host count) = .empty := by
    simp [GuardState.view,AList.lookup_eq_none.mpr fresh]
  have open_ : state.tableFull 0 (admissionKey (host count)) = false := by
    simp only [GuardState.tableFull,crowded.unswept,crowded.len]
    exact decide_eq_false (fun full => by omega)
  have pruned : ((state.sweep 0).view (admissionKey (host count))).prune 0 = .empty := by
    rw [crowded.unswept]
    change (state.view (host count)).prune 0 = _
    rw [absent]
    rfl
  have moved : (act oneSession state ⟨0,.tryAdmit (host count)⟩).2 =
      {state with entries := state.entries.insert (host count) ⟨1,[0]⟩} := by
    simp only [act]
    have cases_ := tryAdmit_cases oneSession state 0 (host count)
    simp only [pruned] at cases_
    rcases cases_ with ⟨full,_⟩ | ⟨_,_,same⟩ | ⟨_,refused,_⟩
    · rw [full] at open_; cases open_
    · rw [same,crowded.unswept]; rfl
    · cases refused
  rw [moved]
  refine ⟨crowded.clock,?_,?_,?_⟩
  · exact (AList.len_insert_fresh _ _ _ fresh).trans (congrArg (· + 1) crowded.len)
  · intro i below
    simp only [AList.lookup_insert_split]
    split
    · rfl
    · rename_i other
      refine crowded.held i (Nat.lt_of_le_of_ne (Nat.le_of_lt_succ below) ?_)
      rintro rfl
      exact other rfl
  · intro key member
    rcases (AList.mem_insert _).mp member with rfl | old
    · exact ⟨count,Nat.lt_succ_self count,rfl⟩
    · obtain ⟨i,below,same⟩ := crowded.only key old
      exact ⟨i,below.trans (Nat.lt_succ_self count),same⟩

theorem crowd_crowded (count : Nat) (bound : count ≤ maxTrackedPrefixes) :
    Crowded count (final oneSession (.new 0) (crowd count)) := by
  induction count with
  | zero => exact ⟨rfl,rfl,by simp,fun key member => absurd member (AList.notMem_empty key)⟩
  | succ count ih =>
    have grown : crowd (count+1) = crowd count ++ [⟨0,.tryAdmit (host count)⟩] := by
      simp [crowd,List.range_succ]
    rw [grown,final,List.foldl_append]
    exact (ih (Nat.le_of_succ_le bound)).next bound

theorem Crowded.visitor_absent {state : GuardState} (crowded : Crowded count state) : visitor ∉ state.entries := by
  intro member
  obtain ⟨i,_,same⟩ := crowded.only _ member
  cases same

theorem Crowded.visitor_refused {state : GuardState} (crowded : Crowded maxTrackedPrefixes state) :
    act oneSession state ⟨0,.tryAdmit visitor⟩ = (⟨⟨0,.tryAdmit visitor⟩,true,false⟩,state) := by
  have full : state.tableFull 0 (admissionKey visitor) = true := by
    simp only [GuardState.tableFull,crowded.unswept,crowded.len]
    exact decide_eq_true ⟨le_rfl,crowded.visitor_absent⟩
  simp only [act]
  rcases tryAdmit_cases oneSession state 0 visitor with ⟨_,same⟩ | ⟨open_,_⟩ | ⟨open_,_⟩
  · rw [same,full,crowded.unswept]
  · rw [full] at open_; cases open_
  · rw [full] at open_; cases open_

theorem Crowded.swept {state : GuardState} (crowded : Crowded maxTrackedPrefixes state) :
    state.sweep oneMinuteLater = ⟨state.entries,oneMinuteLater⟩ := by
  unfold GuardState.sweep
  rw [crowded.clock,crowded.len,if_pos (by decide),AList.retain_all]
  rintro ⟨key,entry⟩ member
  have found : state.entries.lookup key = some entry := AList.mem_lookup_iff.mpr member
  obtain ⟨i,below,rfl⟩ := crowded.only key (AList.lookup_isSome.mp (by simp [found]))
  rw [crowded.held i below] at found
  cases found
  rfl

theorem Crowded.host_retries {state : GuardState} (crowded : Crowded maxTrackedPrefixes state) :
    (act oneSession state ⟨oneMinuteLater,.tryAdmit (host 0)⟩).2 =
      ⟨state.entries.insert (host 0) ⟨1,[]⟩,oneMinuteLater⟩ := by
  have found := crowded.held 0 (by decide)
  have pruned : ((state.sweep oneMinuteLater).view (admissionKey (host 0))).prune oneMinuteLater = ⟨1,[]⟩ := by
    rw [crowded.swept]
    change ((state.entries.lookup (host 0)).getD .empty).prune oneMinuteLater = _
    rw [found]
    decide
  have open_ : state.tableFull oneMinuteLater (admissionKey (host 0)) = false := by
    simp only [GuardState.tableFull,crowded.swept]
    exact decide_eq_false (fun full => full.2 (AList.lookup_isSome.mp (by
      change (state.entries.lookup (host 0)).isSome = true
      rw [found]
      rfl)))
  simp only [act]
  have outcomes := tryAdmit_cases oneSession state oneMinuteLater (host 0)
  simp only [pruned] at outcomes
  rcases outcomes with ⟨full,_⟩ | ⟨_,fits,_⟩ | ⟨_,_,same⟩
  · rw [open_] at full; cases full
  · cases fits
  · rw [same,crowded.swept]; rfl

theorem Crowded.visitor_admitted {state : GuardState} (crowded : Crowded maxTrackedPrefixes state) :
    (act oneSession ⟨(state.entries.insert (host 0) ⟨1,[]⟩).erase (host 0),oneMinuteLater⟩
      ⟨oneMinuteLater,.tryAdmit visitor⟩).1 = ⟨⟨oneMinuteLater,.tryAdmit visitor⟩,false,true⟩ := by
  generalize table : (state.entries.insert (host 0) ⟨1,[]⟩).erase (host 0) = entries
  have held : host 0 ∈ state.entries := AList.lookup_isSome.mp (by rw [crowded.held 0 (by decide)]; rfl)
  have len : entries.len = maxTrackedPrefixes - 1 := by
    rw [← table,AList.len_erase_present _ _ ((AList.mem_insert _).mpr (Or.inl rfl)),
      AList.len_insert_present _ _ _ held,crowded.len]
  have absent : entries.lookup visitor = none := by
    have other : visitor ≠ host 0 := by decide
    rw [← table,AList.lookup_erase_ne other,AList.lookup_insert_ne other]
    exact AList.lookup_eq_none.mpr crowded.visitor_absent
  have unswept : GuardState.sweep ⟨entries,oneMinuteLater⟩ oneMinuteLater = ⟨entries,oneMinuteLater⟩ := by
    unfold GuardState.sweep
    rw [if_neg (by rintro ⟨_,window⟩; simp [rateWindow] at window)]
  have room : GuardState.tableFull ⟨entries,oneMinuteLater⟩ oneMinuteLater (admissionKey visitor) = false := by
    simp only [GuardState.tableFull,unswept,len]
    exact decide_eq_false (fun full => absurd full.1 (by decide))
  have pruned : ((GuardState.sweep ⟨entries,oneMinuteLater⟩ oneMinuteLater).view
      (admissionKey visitor)).prune oneMinuteLater = .empty := by
    rw [unswept]
    change ((entries.lookup visitor).getD .empty).prune oneMinuteLater = _
    rw [absent]
    rfl
  have outcomes := tryAdmit_cases oneSession ⟨entries,oneMinuteLater⟩ oneMinuteLater visitor
  simp only [pruned] at outcomes
  simp only [act]
  rcases outcomes with ⟨full,_⟩ | ⟨_,_,same⟩ | ⟨_,refused,_⟩
  · rw [room] at full; cases full
  · rw [same,room]
  · cases refused

theorem host_leaves (entries : KeyTable IpAddr IpEntry) :
    (act oneSession ⟨entries.insert (host 0) ⟨1,[]⟩,oneMinuteLater⟩ ⟨oneMinuteLater,.release (host 0)⟩).2 =
      ⟨(entries.insert (host 0) ⟨1,[]⟩).erase (host 0),oneMinuteLater⟩ := by
  have key : admissionKey (host 0) = host 0 := rfl
  simp only [act,release,key]
  rfl

theorem crowd_foreign (count : Nat) :
    (crowd count).filter (fun timed => decide (timed.call.key = visitor)) = [] := by
  apply List.filter_eq_nil_iff.mpr
  intro timed member
  obtain ⟨i,_,rfl⟩ := List.mem_map.mp member
  simp [GuardCall.key,admissionKey,host,visitor]

-- The refusal for a full table enters the visitor's own history: without the
-- other sources its first request is granted and the second one refused.
theorem full_table_changes_answer :
    (crowdedRun.map TimedCall.time).Pairwise (· ≤ ·) ∧
    (observe oneSession (.new 0) crowdedRun).filter
        (fun observed => decide (observed.timed.call.key = visitor)) =
      [⟨⟨0,.tryAdmit visitor⟩,true,false⟩,⟨⟨oneMinuteLater,.tryAdmit visitor⟩,false,true⟩] ∧
    observe oneSession (.new 0) (crowdedRun.filter (fun timed => decide (timed.call.key = visitor))) =
      [⟨⟨0,.tryAdmit visitor⟩,false,true⟩,⟨⟨oneMinuteLater,.tryAdmit visitor⟩,false,false⟩] := by
  have crowded := crowd_crowded maxTrackedPrefixes le_rfl
  refine ⟨?_,?_,?_⟩
  · rw [crowdedRun,List.map_append,List.pairwise_append,crowd,List.map_map]
    refine ⟨List.pairwise_map.mpr (List.pairwise_of_forall (fun _ _ => le_rfl)),by decide,?_⟩
    intro time member _ _
    obtain ⟨_,_,rfl⟩ := List.mem_map.mp member
    exact Nat.zero_le _
  · have foreign : (observe oneSession (.new 0) (crowd maxTrackedPrefixes)).filter
        (fun observed => decide (observed.timed.call.key = visitor)) = [] :=
      List.map_eq_nil_iff.mp ((observe_own _ _ _ _).trans (crowd_foreign _))
    rw [crowdedRun,observe_append,List.filter_append,foreign,List.nil_append]
    simp only [observe,crowded.visitor_refused]
    rw [List.filter_cons_of_pos (by decide),List.filter_cons_of_neg (by rw [act_timed]; decide),
      crowded.host_retries,List.filter_cons_of_neg (by rw [act_timed]; decide)]
    rw [host_leaves,crowded.visitor_admitted,List.filter_cons_of_pos (by decide),List.filter_nil]
  · rw [crowdedRun,List.filter_append,crowd_foreign,List.nil_append]
    decide

-- Two sources share the gateway; the second one is refused its second session
-- whatever the first does.
def twoSources : List TimedCall :=
  [⟨0,.tryAdmit visitor⟩,⟨5,.tryAdmit (host 1)⟩,⟨9,.tryAdmit visitor⟩,⟨9,.release visitor⟩]

theorem two_sources_by_own_history :
    (twoSources.map TimedCall.time).Pairwise (· ≤ ·) ∧
    observe oneSession (.new 0) (twoSources.filter (fun timed => decide (timed.call.key = visitor))) =
      (observe oneSession (.new 0) twoSources).filter
        (fun observed => decide (observed.timed.call.key = visitor)) :=
  ⟨by decide,(admission_by_own_history oneSession 0 twoSources (by decide)).2.2 visitor (by decide)⟩

end AegisHoneypot.AdmissionIndependence
