import AegisHoneypot.AdmissionTable

-- Which sources share the limits of one admission key, and which should.
namespace AegisHoneypot.AdmissionBudget
open AdmissionGuard AdmissionHistory AdmissionIndependence AdmissionTable

-- The address `a.b.c.d` that `::ffff:a.b.c.d` stands for.
def toIpv4Mapped : IpAddr → Option IpAddr
  | .v4 _ _ _ _ => none
  | .v6 high low =>
    if high == 0 && low >>> 32 == 0xffff then
      some (.v4 (low >>> 24).toUInt8 (low >>> 16).toUInt8 (low >>> 8).toUInt8 low.toUInt8)
    else none

def counted (ip : IpAddr) : IpAddr := (toIpv4Mapped ip).getD ip

def SameSource (a b : IpAddr) : Prop :=
  match counted a,counted b with
  | .v4 p q r s,.v4 p' q' r' s' => p = p' ∧ q = q' ∧ r = r' ∧ s = s'
  | .v6 high _,.v6 high' _ => high = high'
  | _,_ => False

def lastAnswer (limits : Limits) (start : Instant) (calls : List TimedCall) : Option Bool :=
  (historyOf limits start calls).getLast?.map Observed.answer

-- Every request of the key finds room in the table, whoever else fills it.
def RoomFor (limits : Limits) (start : Instant) (calls : List TimedCall) (key : IpAddr) : Prop :=
  ∀ observed ∈ historyOf limits start calls, observed.timed.call.key = key → observed.full = false

def request (now : Instant) (ip : IpAddr) : TimedCall := ⟨now,.tryAdmit ip⟩

-- A run in which `a` asks at `asked`, and one that differs in nothing else; both
-- end with the request of `b` at `now`.
def asking (before : List TimedCall) (asked : Instant) (between : List TimedCall) (now : Instant) (a b : IpAddr) :
    List TimedCall := (before ++ request asked a :: between) ++ [request now b]

def absent (before between : List TimedCall) (now : Instant) (b : IpAddr) : List TimedCall :=
  (before ++ between) ++ [request now b]

structure Affects (limits : Limits) (start : Instant) (before : List TimedCall) (asked : Instant) (between : List TimedCall)
    (now : Instant) (a b : IpAddr) : Prop where
  ordered : InOrder start (asking before asked between now a b)
  granted : (tryAdmit limits (tableAfter limits start before) asked a).1 = true
  room : RoomFor limits start (asking before asked between now a b) (admissionKey b)
  roomWithout : RoomFor limits start (absent before between now b) (admissionKey b)
  differs : lastAnswer limits start (asking before asked between now a b) ≠ lastAnswer limits start (absent before between now b)

def SharesBudget (a b : IpAddr) : Prop :=
  ∃ limits start before asked between now, Affects limits start before asked between now a b

-- The answer to the last request is that of the run of its own key alone.
theorem lastAnswer_own (limits : Limits) (start : Instant) (calls : List TimedCall) (now : Instant) (ip : IpAddr)
    (ordered : ((calls ++ [request now ip]).map TimedCall.time).Pairwise (· ≤ ·))
    (room : RoomFor limits start (calls ++ [request now ip]) (admissionKey ip)) :
    lastAnswer limits start (calls ++ [request now ip]) =
      lastAnswer limits start ((calls ++ [request now ip]).filter (fun timed => decide (timed.call.key = admissionKey ip))) := by
  have own := own_answers limits start _ (admissionKey ip) ordered room
  have mine : (act limits (final limits (.new start) calls) (request now ip)).1.timed.call.key = admissionKey ip := by
    rw [act_timed]
    rfl
  unfold lastAnswer historyOf
  rw [own,observe_append,List.filter_append]
  simp only [observe]
  rw [List.filter_cons_of_pos (by simpa using mine),List.filter_nil,List.getLast?_concat,List.getLast?_concat]

theorem foreign_unaffected (foreign : admissionKey a ≠ admissionKey b) : ¬ SharesBudget a b := by
  rintro ⟨limits,start,before,asked,between,now,affects⟩
  have sorted := (List.pairwise_cons.mp affects.ordered).2
  have shorter : (absent before between now b).Sublist (asking before asked between now a b) :=
    ((List.Sublist.refl before).append (List.sublist_cons_self _ _)).append (List.Sublist.refl _)
  have sortedWithout := sorted.sublist (shorter.map TimedCall.time)
  apply affects.differs
  unfold asking absent at *
  rw [lastAnswer_own limits start _ now b sorted affects.room,
    lastAnswer_own limits start _ now b sortedWithout affects.roomWithout]
  congr 1
  have skipped : (request asked a :: between).filter (fun timed => decide (timed.call.key = admissionKey b)) =
      between.filter (fun timed => decide (timed.call.key = admissionKey b)) :=
    List.filter_cons_of_neg (fun held => foreign (of_decide_eq_true held))
  rw [List.filter_append,List.filter_append,List.filter_append,List.filter_append,skipped]

theorem first_allowed : Ledger.empty.Allows oneSession 0 := ⟨Or.inr (by decide),Or.inl rfl⟩

theorem second_refused : ¬ (⟨1,[0]⟩ : Ledger).Allows oneSession 0 := by
  rintro ⟨sessions,_⟩
  revert sessions
  decide

-- Against a limit of one session the second request is refused for the first.
theorem own_affected (own : admissionKey a = admissionKey b) : Affects oneSession 0 [] 0 [] 0 a b := by
  have empty : OnlyKey (admissionKey b) (.new 0) := fun other member => absurd member (AList.notMem_empty other)
  have taken : OnlyKey (admissionKey b) (act oneSession (.new 0) (request 0 a)).2 := empty.act (request 0 a) own
  have firstRoom : ∀ ip, (act oneSession (.new 0) (request 0 ip)).1.full = false := fun ip =>
    empty.room 0 (admissionKey ip)
  have secondRoom : (act oneSession (act oneSession (.new 0) (request 0 a)).2 (request 0 b)).1.full = false :=
    taken.room 0 (admissionKey b)
  have unused : ∀ key, Refines oneSession 0 ((GuardState.new 0).view key) .empty := fun key => empty_refines oneSession 0
  have first : ∀ ip, (act oneSession (.new 0) (request 0 ip)).1.answer = true := fun ip =>
    (act_answer (unused _) (firstRoom ip)).mpr first_allowed
  have used : Refines oneSession 0 ((act oneSession (.new 0) (request 0 a)).2.view (admissionKey b)) _ :=
    act_refines (request 0 a) (admissionKey b) (unused _)
  have charged : Ledger.record (admissionKey b) .empty (act oneSession (.new 0) (request 0 a)).1 = ⟨1,[0]⟩ := by
    have mine : (request 0 a).call.key = admissionKey b := own
    unfold Ledger.record
    rw [act_timed,first,if_pos mine]
    rfl
  rw [charged] at used
  have second : (act oneSession (act oneSession (.new 0) (request 0 a)).2 (request 0 b)).1.answer = false := by
    rw [← Bool.not_eq_true]
    exact fun granted => second_refused ((act_answer used secondRoom).mp granted)
  refine ⟨by simp [InOrder,asking,request],first a,?_,?_,?_⟩
  · intro observed member _
    rcases List.mem_cons.mp member with rfl | later
    · exact firstRoom a
    · rw [List.mem_singleton.mp later]
      exact secondRoom
  · intro observed member _
    rw [List.mem_singleton.mp member]
    exact firstRoom b
  · change some (act oneSession (act oneSession (.new 0) (request 0 a)).2 (request 0 b)).1.answer ≠
      some (act oneSession (.new 0) (request 0 b)).1.answer
    rw [second,first]
    decide

theorem shares_exact (a b : IpAddr) : SharesBudget a b ↔ admissionKey a = admissionKey b := by
  constructor
  · intro shared
    by_contra foreign
    exact foreign_unaffected foreign shared
  · intro own
    exact ⟨oneSession,0,[],0,[],0,own_affected own⟩

-- Neither address is mapped, or both are and stand for one address, or one is and
-- the other is neither that address nor in the /64 of all the mapped ones.
def Regular (a b : IpAddr) : Prop :=
  match toIpv4Mapped a,toIpv4Mapped b with
  | none,none => True
  | some v,some w => v = w
  | some v,none => b ≠ v ∧ admissionKey b ≠ .v6 0 0
  | none,some w => a ≠ w ∧ admissionKey a ≠ .v6 0 0

theorem mapped_parts (mapped : toIpv4Mapped ip = some v) : admissionKey ip = .v6 0 0 ∧ ∃ p q r s, v = .v4 p q r s := by
  cases ip with
  | v4 => cases mapped
  | v6 high low =>
    by_cases shape : (high == 0 && low >>> 32 == 0xffff) = true
    · rw [toIpv4Mapped,if_pos shape] at mapped
      have zero : high = 0 := eq_of_beq (Bool.and_eq_true_iff.mp shape).1
      exact ⟨by rw [zero]; rfl,_,_,_,_,(Option.some.inj mapped).symm⟩
    · rw [toIpv4Mapped,if_neg shape] at mapped
      cases mapped

theorem sameSource_exact (a b : IpAddr) : SameSource a b ↔ admissionKey (counted a) = admissionKey (counted b) := by
  unfold SameSource
  generalize counted a = source
  generalize counted b = other
  cases source <;> cases other <;> simp [admissionKey]

theorem v4_key (p q r s : UInt8) (ip : IpAddr) : admissionKey ip = .v4 p q r s ↔ ip = .v4 p q r s := by
  cases ip <;> simp [admissionKey]

theorem budget_exact (a b : IpAddr) : (SameSource a b ↔ SharesBudget a b) ↔ Regular a b := by
  rw [sameSource_exact,shares_exact]
  unfold Regular counted
  cases left : toIpv4Mapped a with
  | none =>
    cases right : toIpv4Mapped b with
    | none => simp
    | some w =>
      obtain ⟨key,p,q,r,s,rfl⟩ := mapped_parts right
      have plain : admissionKey (.v4 p q r s) = .v4 p q r s := rfl
      simp only [Option.getD_none,Option.getD_some,key,plain,v4_key]
      constructor
      · intro agree
        refine ⟨?_,?_⟩
        · rintro rfl
          cases agree.mp rfl
        · intro shared
          have same := agree.mpr shared
          rw [same] at shared
          cases shared
      · intro apart
        exact ⟨fun same => absurd same apart.1,fun shared => absurd shared apart.2⟩
  | some v =>
    obtain ⟨key,p,q,r,s,rfl⟩ := mapped_parts left
    have plain : admissionKey (.v4 p q r s) = .v4 p q r s := rfl
    cases right : toIpv4Mapped b with
    | none =>
      simp only [Option.getD_none,Option.getD_some,key,plain]
      rw [eq_comm,v4_key,eq_comm (a := IpAddr.v6 0 0)]
      constructor
      · intro agree
        refine ⟨?_,?_⟩
        · rintro rfl
          cases agree.mp rfl
        · intro shared
          have same := agree.mpr shared
          rw [same] at shared
          cases shared
      · intro apart
        exact ⟨fun same => absurd same apart.1,fun shared => absurd shared apart.2⟩
    | some w =>
      obtain ⟨other,p',q',r',s',rfl⟩ := mapped_parts right
      have plain' : admissionKey (.v4 p' q' r' s') = .v4 p' q' r' s' := rfl
      simp only [Option.getD_some,key,other,plain,plain',iff_true]

-- `::ffff:203.0.113.7` and `::ffff:198.51.100.9`.
def mappedVisitor : IpAddr := .v6 0 0xffffcb007107
def mappedStranger : IpAddr := .v6 0 0xffffc6336409

theorem mapped_sources_share : ¬ (SameSource mappedVisitor mappedStranger ↔ SharesBudget mappedVisitor mappedStranger) ∧
    Affects oneSession 0 [] 0 [] 0 mappedVisitor mappedStranger ∧
    ¬ (SameSource visitor mappedVisitor ↔ SharesBudget visitor mappedVisitor) := by
  have shared : Affects oneSession 0 [] 0 [] 0 mappedVisitor mappedStranger := own_affected rfl
  have strangers : ¬ SameSource mappedVisitor mappedStranger := by
    rw [sameSource_exact]
    decide
  have apart : ¬ SharesBudget visitor mappedVisitor := foreign_unaffected (by decide)
  have same : SameSource visitor mappedVisitor := by
    rw [sameSource_exact]
    decide
  exact ⟨fun agree => strangers (agree.mpr ⟨_,_,_,_,_,_,shared⟩),shared,fun agree => apart (agree.mp same)⟩

end AegisHoneypot.AdmissionBudget
