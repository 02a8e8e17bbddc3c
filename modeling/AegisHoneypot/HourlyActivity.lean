import AegisHoneypot.DashboardSummary
import Mathlib.Data.Int.Interval
import Mathlib.Data.Finset.Max

-- The buckets of the activity chart. A bucket is made when an event of its hour
-- arrives and goes when a later arrival finds it older than the window, so what
-- a store holds is decided by the clock readings as well as by the events.
namespace AegisHoneypot.HourlyActivity
open DashboardStore SessionArchive EventInterleaving DashboardSummary

def hourOf (instant : DateTime) : Int := timestamp instant / 3600

def eventHour (event : TelemetryEvent) : Int := hourOf (eventTimestamp event)

def cutoff (now : DateTime) : Int := hourOf now - hourlyWindowHours

theorem hourOf_mono {early late : DateTime} (ordered : early ≤ late) : hourOf early ≤ hourOf late :=
  Int.ediv_le_ediv (by omega) (Int.ediv_le_ediv (by omega) ordered)

-- The hours of the events that no arrival, their own included, has pruned.
def keptHours : Arrivals → List Int
  | [] => []
  | arrival :: rest =>
    if ∀ later ∈ arrival :: rest, cutoff later.1 ≤ eventHour arrival.2 then eventHour arrival.2 :: keptHours rest
    else keptHours rest

theorem keptHours_next (arrivals : Arrivals) (last : DateTime × TelemetryEvent) :
    keptHours (arrivals ++ [last]) =
      (keptHours arrivals ++ [eventHour last.2]).filter (fun hour => decide (cutoff last.1 ≤ hour)) := by
  induction arrivals with
  | nil =>
    by_cases inTime : cutoff last.1 ≤ eventHour last.2 <;> simp [keptHours,inTime]
  | cons arrival rest ih =>
    have parted : (∀ later ∈ arrival :: (rest ++ [last]), cutoff later.1 ≤ eventHour arrival.2) ↔
        (∀ later ∈ arrival :: rest, cutoff later.1 ≤ eventHour arrival.2) ∧ cutoff last.1 ≤ eventHour arrival.2 := by
      rw [← List.cons_append,List.forall_mem_append,List.forall_mem_singleton]
    rw [List.cons_append,keptHours,keptHours,ih]
    by_cases before : ∀ later ∈ arrival :: rest, cutoff later.1 ≤ eventHour arrival.2
    · by_cases after : cutoff last.1 ≤ eventHour arrival.2
      · rw [if_pos (parted.mpr ⟨before,after⟩),if_pos before,List.cons_append,List.filter_cons_of_pos (by simpa using after)]
      · rw [if_neg (fun all => after (parted.mp all).2),if_pos before,List.cons_append,
          List.filter_cons_of_neg (by simpa using after)]
    · rw [if_neg (fun all => before (parted.mp all).1),if_neg before]

theorem keptHours_recent (arrivals : Arrivals) (last : DateTime × TelemetryEvent)
    (kept : hour ∈ keptHours (arrivals ++ [last])) : cutoff last.1 ≤ hour := by
  rw [keptHours_next] at kept
  simpa using (List.mem_filter.mp kept).2

theorem keptHours_sublist (arrivals : Arrivals) : (keptHours arrivals).Sublist (arrivals.events.map eventHour) := by
  induction arrivals with
  | nil => exact List.Sublist.refl _
  | cons arrival rest ih =>
    rw [keptHours]
    split
    · exact ih.cons_cons _
    · exact ih.cons _

theorem keptHours_bound (arrivals : Arrivals) (bound : Int) (latest : ∀ arrival ∈ arrivals, cutoff arrival.1 ≤ bound) :
    (keptHours arrivals).filter (fun hour => decide (bound ≤ hour)) =
      (arrivals.events.map eventHour).filter (fun hour => decide (bound ≤ hour)) := by
  induction arrivals with
  | nil => rfl
  | cons arrival rest ih =>
    have tail := ih (fun later member => latest later (List.mem_cons_of_mem _ member))
    have hours : Arrivals.events (arrival :: rest) = arrival.2 :: Arrivals.events rest := rfl
    rw [hours,List.map_cons,List.filter_cons,keptHours]
    by_cases inTime : ∀ later ∈ arrival :: rest, cutoff later.1 ≤ eventHour arrival.2
    · rw [if_pos inTime,List.filter_cons,tail]
    · have old : ¬ bound ≤ eventHour arrival.2 :=
        fun recent => inTime (fun later member => (latest later member).trans recent)
      rw [if_neg inTime,tail,if_neg (by simpa using old)]

-- A clock that is never set back prunes by its last reading alone.
theorem keptHours_forward (arrivals : Arrivals) (last : DateTime × TelemetryEvent)
    (forward : ((arrivals ++ [last]).map Prod.fst).Pairwise (· ≤ ·)) : keptHours (arrivals ++ [last]) =
      ((Arrivals.events (arrivals ++ [last])).map eventHour).filter (fun hour => decide (cutoff last.1 ≤ hour)) := by
  have latest : ∀ arrival ∈ arrivals ++ [last], cutoff arrival.1 ≤ cutoff last.1 := by
    rw [List.map_append,List.pairwise_append] at forward
    intro arrival member
    rcases List.mem_append.mp member with earlier | same
    · have ordered := hourOf_mono (forward.2.2 arrival.1 (List.mem_map_of_mem earlier) last.1 (by simp))
      unfold cutoff
      omega
    · rw [List.mem_singleton.mp same]
  rw [← keptHours_bound _ _ latest]
  symm
  apply List.filter_eq_self.mpr
  intro hour kept
  simpa using keptHours_recent arrivals last kept

section Frame
variable (store : Store)

theorem bumpGeoPoint_hours (geo : Option GeoIpInfo) : (store.bumpGeoPoint geo).hourlyActivity = store.hourlyActivity := by
  unfold Store.bumpGeoPoint
  split
  · rfl
  · split
    · rfl
    · rfl

theorem ingestKind_hours (event : TelemetryEvent) :
    (store.ingestKind event).hourlyActivity = store.hourlyActivity := by
  cases event with
  | sessionStart e =>
    change (Store.bumpGeoPoint _ e.geo).hourlyActivity = _
    rw [bumpGeoPoint_hours]
    cases e.geo.bind (·.country) with
    | none => rfl
    | some country =>
      dsimp only
      split
      · rfl
      · rfl
  | _ => rfl

theorem ingest_hours (now : DateTime) (event : TelemetryEvent) :
    (store.ingest now event).hourlyActivity = (store.bumpHour now (eventTimestamp event)).hourlyActivity := by
  unfold Store.ingest Store.pushRecent
  dsimp only
  rw [ingestKind_hours]

end Frame

def Counts (table : KeyTable Int Nat) (hours : List Int) : Prop :=
  ∀ hour, table.lookup hour = if hour ∈ hours then some (hours.count hour) else none

theorem Counts.bump (counts : Counts table hours) (last : Int) :
    Counts (table.insert last ((table.lookup last).getD 0 + 1)) (hours ++ [last]) := by
  intro hour
  rw [AList.lookup_insert_split,counts last,counts hour]
  by_cases same : hour = last
  · subst same
    by_cases seen : hour ∈ hours
    · simp [seen]
    · simp [seen,List.count_eq_zero_of_not_mem seen]
  · simp [same,Ne.symm same]

theorem Counts.prune (counts : Counts table hours) (bound : Int) :
    Counts (table.retain (fun hour _ => decide (bound ≤ hour))) (hours.filter (fun hour => decide (bound ≤ hour))) := by
  intro hour
  rw [AList.lookup_retain,counts hour]
  by_cases recent : bound ≤ hour
  · have same : (hours.filter (fun hour => decide (bound ≤ hour))).count hour = hours.count hour :=
      List.count_filter (by simpa using recent)
    by_cases seen : hour ∈ hours <;> simp [seen,recent,same]
  · by_cases seen : hour ∈ hours <;> simp [seen,recent]

-- What the buckets hold, whatever the clock does.
theorem hours_counted (arrivals : Arrivals) :
    Counts (Store.default.ingestAll arrivals).hourlyActivity (keptHours arrivals) := by
  induction arrivals using List.reverseRecOn with
  | nil => exact fun hour => rfl
  | append_singleton arrivals last ih =>
    rw [ingestAll_append,ingest_hours,keptHours_next]
    exact (ih.bump (eventHour last.2)).prune (cutoff last.1)

theorem kept_bucket (counts : Counts table hours) : hour ∈ table.keys ↔ hour ∈ hours := by
  rw [← AList.mem_keys,← AList.lookup_isSome,counts hour]
  by_cases seen : hour ∈ hours <;> simp [seen]

theorem kept_count (counts : Counts table hours) (hour : Int) : (table.lookup hour).getD 0 = hours.count hour := by
  rw [counts hour]
  by_cases seen : hour ∈ hours
  · rw [if_pos seen,Option.getD_some]
  · rw [if_neg seen,Option.getD_none,List.count_eq_zero_of_not_mem seen]

section Shown

-- The hours that `summary` takes, before it writes them as text.
def shownHours (table : KeyTable Int Nat) : List Int :=
  ((table.keys.mergeSort (fun a b => decide (a ≤ b))).reverse.take 24).reverse

theorem hourlyActivity_shown (label : Int → Text) (store : Store) : hourlyActivity label store =
    (shownHours store.hourlyActivity).map (fun hour => ⟨label (hour*3600),(store.hourlyActivity.lookup hour).getD 0⟩) := rfl

theorem sorted_hours (table : KeyTable Int Nat) :
    (table.keys.mergeSort (fun a b => decide (a ≤ b))).Pairwise (· < ·) := by
  have sorted : (table.keys.mergeSort (fun a b => decide (a ≤ b))).Pairwise (fun a b => decide (a ≤ b) = true) :=
    List.pairwise_mergeSort
    (fun a b c first second => by simp only [decide_eq_true_eq] at *; omega)
    (fun a b => by simp only [Bool.or_eq_true,decide_eq_true_eq]; omega) table.keys
  have distinct : (table.keys.mergeSort (fun a b => decide (a ≤ b))).Nodup :=
    (List.mergeSort_perm _ _).nodup_iff.mpr table.keys_nodup
  refine (sorted.and distinct).imp ?_
  intro a b both
  have ordered : a ≤ b := by simpa using both.1
  have different : a ≠ b := both.2
  omega

theorem shown_increasing (table : KeyTable Int Nat) : (shownHours table).Pairwise (· < ·) := by
  rw [shownHours,List.pairwise_reverse]
  exact (List.pairwise_reverse.mpr (sorted_hours table)).sublist (List.take_sublist _ _)

-- An element is among the first `n` of a falling list if fewer than `n` precede it.
theorem take_falling (hours : List Int) (falling : hours.Pairwise (· > ·)) (n : Nat) (hour : Int) :
    hour ∈ hours.take n ↔ hour ∈ hours ∧ (hours.filter (fun other => decide (hour < other))).length < n := by
  induction hours generalizing n with
  | nil => simp
  | cons first rest ih =>
    obtain ⟨below,tail⟩ := List.pairwise_cons.mp falling
    cases n with
    | zero => simp
    | succ n =>
      rw [List.take_succ_cons,List.mem_cons,List.mem_cons,ih tail,List.filter_cons]
      by_cases same : hour = first
      · have none_ : rest.filter (fun other => decide (hour < other)) = [] := by
          apply List.filter_eq_nil_iff.mpr
          intro other member
          have := below other member
          simp only [decide_eq_true_eq]
          omega
        simp [same ▸ none_,same]
      · by_cases member : hour ∈ rest
        · have later : hour < first := below hour member
          simp [member,later,same]
        · simp [same,member]

-- A bucket is shown if fewer than 24 later hours have one.
theorem shown_exact (counts : Counts table hours) :
    hour ∈ shownHours table ↔ hour ∈ hours.toFinset ∧ (hours.toFinset.filter (hour < ·)).card < 24 := by
  have perm := List.mergeSort_perm table.keys (fun a b => decide (a ≤ b))
  have same : table.keys.toFinset = hours.toFinset := by
    ext other
    rw [List.mem_toFinset,List.mem_toFinset,kept_bucket counts]
  have size : (table.keys.filter (fun other => decide (hour < other))).length = (hours.toFinset.filter (hour < ·)).card := by
    rw [← List.toFinset_card_of_nodup (table.keys_nodup.filter _),← same]
    congr 1
    ext other
    simp
  rw [shownHours,List.mem_reverse,take_falling _ (List.pairwise_reverse.mpr (sorted_hours table)),List.mem_reverse,
    List.filter_reverse,List.length_reverse,(perm.filter _).length_eq,perm.mem_iff,size,kept_bucket counts,
    List.mem_toFinset]

end Shown

section Chart

-- What the panel promises of the summary taken right after the ingest at `now`.
structure LastDay (label : Int → Text) (arrivals : Arrivals) (now : DateTime) : Prop where
  rendered : (summary label (Store.default.ingestAll arrivals)).hourlyActivity =
    (shownHours (Store.default.ingestAll arrivals).hourlyActivity).map (fun hour =>
      ⟨label (hour*3600),((Store.default.ingestAll arrivals).hourlyActivity.lookup hour).getD 0⟩)
  within : ∀ hour ∈ shownHours (Store.default.ingestAll arrivals).hourlyActivity, hourOf now - 24 < hour ∧ hour ≤ hourOf now
  increasing : (shownHours (Store.default.ingestAll arrivals).hourlyActivity).Pairwise (· < ·)
  counted : ∀ hour ∈ shownHours (Store.default.ingestAll arrivals).hourlyActivity,
    ((Store.default.ingestAll arrivals).hourlyActivity.lookup hour).getD 0 =
      arrivals.events.countP (fun event => decide (eventHour event = hour))

-- Either each of the last 24 hours has an event, or no hour before them is kept.
-- The other two parts can fail only under a clock that has been set back.
structure NoGap (arrivals : Arrivals) (now : DateTime) : Prop where
  past : ∀ hour ∈ keptHours arrivals, hour ≤ hourOf now
  filled : (∀ hour, hourOf now - 24 < hour → hour ≤ hourOf now → hour ∈ keptHours arrivals) ∨
    ∀ hour ∈ keptHours arrivals, hourOf now - 24 < hour
  whole : ∀ hour ∈ keptHours arrivals, hourOf now - 24 < hour →
    (keptHours arrivals).count hour = (arrivals.events.map eventHour).count hour

theorem hour_events (events : List TelemetryEvent) (hour : Int) :
    (events.map eventHour).count hour = events.countP (fun event => decide (eventHour event = hour)) := by
  rw [List.count_eq_countP,List.countP_map]
  rfl

-- Fewer than 24 hours come after an hour of the last day.
theorem day_room (hours : Finset Int) (past : ∀ other ∈ hours, other ≤ now) (recent : now - 24 < hour) :
    (hours.filter (hour < ·)).card < 24 := by
  have inside : hours.filter (hour < ·) ⊆ Finset.Ioc hour now := by
    intro other member
    obtain ⟨kept,later⟩ := Finset.mem_filter.mp member
    exact Finset.mem_Ioc.mpr ⟨later,past other kept⟩
  have few := Finset.card_le_card inside
  rw [Int.card_Ioc] at few
  omega

-- The last kept hour before a day with a missing hour still has a place.
theorem gap_shows (hours : Finset Int) (past : ∀ other ∈ hours, other ≤ now) (missing : gap ∉ hours)
    (since : now - 24 < gap) (until_ : gap ≤ now) (kept : old ∈ hours) (early : old ≤ now - 24) :
    ∃ hour ∈ hours, hour ≤ now - 24 ∧ (hours.filter (hour < ·)).card < 24 := by
  obtain ⟨last,member,highest⟩ := (hours.filter (· ≤ now - 24)).exists_max_image id
    ⟨old,Finset.mem_filter.mpr ⟨kept,early⟩⟩
  obtain ⟨held,before⟩ := Finset.mem_filter.mp member
  refine ⟨last,held,before,?_⟩
  have inside : hours.filter (last < ·) ⊆ (Finset.Ioc (now - 24) now).erase gap := by
    intro other later
    obtain ⟨mine,after⟩ := Finset.mem_filter.mp later
    have inDay : now - 24 < other := by
      by_contra older
      have below : other ≤ last := highest other (Finset.mem_filter.mpr ⟨mine,by omega⟩)
      omega
    exact Finset.mem_erase.mpr ⟨fun same => missing (same ▸ mine),Finset.mem_Ioc.mpr ⟨inDay,past other mine⟩⟩
  have few := Finset.card_le_card inside
  rw [Finset.card_erase_of_mem (Finset.mem_Ioc.mpr ⟨since,until_⟩),Int.card_Ioc] at few
  omega

theorem lastDay_noGap (label : Int → Text) (arrivals : Arrivals) (now : DateTime) (shown : LastDay label arrivals now) :
    NoGap arrivals now := by
  have counts := hours_counted arrivals
  have past : ∀ hour ∈ (keptHours arrivals).toFinset, hour ≤ hourOf now := by
    intro hour kept
    obtain ⟨last,held,highest⟩ := (keptHours arrivals).toFinset.exists_max_image id ⟨hour,kept⟩
    have nothing : (keptHours arrivals).toFinset.filter (last < ·) = ∅ := by
      apply Finset.filter_eq_empty_iff.mpr
      intro other member
      exact not_lt.mpr (highest other member)
    have latest := (shown.within last ((shown_exact counts).mpr ⟨held,by rw [nothing]; simp⟩)).2
    exact le_trans (highest hour kept) latest
  refine ⟨fun hour kept => past hour (List.mem_toFinset.mpr kept),?_,?_⟩
  · by_contra neither
    rw [not_or] at neither
    obtain ⟨holed,late⟩ := neither
    push Not at holed late
    obtain ⟨gap,since,until_,missing⟩ := holed
    obtain ⟨old,kept,early⟩ := late
    obtain ⟨hour,held,before,room⟩ := gap_shows _ past (fun member => missing (List.mem_toFinset.mp member)) since until_
      (List.mem_toFinset.mpr kept) early
    have inDay := (shown.within hour ((shown_exact counts).mpr ⟨held,room⟩)).1
    omega
  · intro hour kept recent
    have displayed := (shown_exact counts).mpr ⟨List.mem_toFinset.mpr kept,day_room _ past recent⟩
    rw [hour_events,← shown.counted hour displayed,kept_count counts]

theorem noGap_lastDay (label : Int → Text) (arrivals : Arrivals) (now : DateTime) (steady : NoGap arrivals now) :
    LastDay label arrivals now := by
  have counts := hours_counted arrivals
  have within : ∀ hour ∈ shownHours (Store.default.ingestAll arrivals).hourlyActivity,
      hourOf now - 24 < hour ∧ hour ≤ hourOf now := by
    intro hour displayed
    obtain ⟨held,room⟩ := (shown_exact counts).mp displayed
    have kept := List.mem_toFinset.mp held
    refine ⟨?_,steady.past hour kept⟩
    rcases steady.filled with full | none_
    · by_contra older
      have day : Finset.Ioc (hourOf now - 24) (hourOf now) ⊆ (keptHours arrivals).toFinset.filter (hour < ·) := by
        intro other member
        obtain ⟨since,until_⟩ := Finset.mem_Ioc.mp member
        exact Finset.mem_filter.mpr ⟨List.mem_toFinset.mpr (full other since until_),by omega⟩
      have many := Finset.card_le_card day
      rw [Int.card_Ioc] at many
      omega
    · exact none_ hour kept
  refine ⟨hourlyActivity_shown label _,within,shown_increasing _,?_⟩
  intro hour displayed
  have kept := List.mem_toFinset.mp ((shown_exact counts).mp displayed).1
  rw [kept_count counts,steady.whole hour kept (within hour displayed).1,hour_events]

def OnTime (arrivals : Arrivals) : Prop := ∀ arrival ∈ arrivals, eventTimestamp arrival.2 ≤ arrival.1

instance (arrivals : Arrivals) : Decidable (OnTime arrivals) :=
  inferInstanceAs (Decidable (∀ arrival ∈ arrivals, eventTimestamp arrival.2 ≤ arrival.1))

-- Under a clock that is never set back what matters is the traffic alone: a busy
-- day, or nothing in the part of the window that precedes it.
theorem noGap_forward (before : Arrivals) (now : DateTime) (event : TelemetryEvent)
    (forward : ((before ++ [(now,event)]).map Prod.fst).Pairwise (· ≤ ·)) (onTime : OnTime (before ++ [(now,event)])) :
    NoGap (before ++ [(now,event)]) now ↔
      (∀ hour, hourOf now - 24 < hour → hour ≤ hourOf now →
        ∃ seen ∈ Arrivals.events (before ++ [(now,event)]), eventHour seen = hour) ∨
      ∀ seen ∈ Arrivals.events (before ++ [(now,event)]), eventHour seen < cutoff now ∨ hourOf now - 24 < eventHour seen := by
  have exact_ := keptHours_forward before (now,event) forward
  have kept : ∀ hour, hour ∈ keptHours (before ++ [(now,event)]) ↔
      (∃ seen ∈ Arrivals.events (before ++ [(now,event)]), eventHour seen = hour) ∧ cutoff now ≤ hour := by
    intro hour
    rw [exact_,List.mem_filter,List.mem_map,decide_eq_true_eq]
  have window : cutoff now ≤ hourOf now - 24 := by
    unfold cutoff hourlyWindowHours
    omega
  have latest : ∀ arrival ∈ before ++ [(now,event)], hourOf arrival.1 ≤ hourOf now := by
    rw [List.map_append,List.pairwise_append] at forward
    intro arrival member
    rcases List.mem_append.mp member with earlier | same
    · exact hourOf_mono (forward.2.2 arrival.1 (List.mem_map_of_mem earlier) now (by simp))
    · rw [List.mem_singleton.mp same]
  constructor
  · intro steady
    rcases steady.filled with full | none_
    · exact Or.inl (fun hour since until_ => ((kept hour).mp (full hour since until_)).1)
    · refine Or.inr (fun seen member => ?_)
      by_cases old : cutoff now ≤ eventHour seen
      · exact Or.inr (none_ _ ((kept _).mpr ⟨⟨seen,member,rfl⟩,old⟩))
      · exact Or.inl (by omega)
  · intro traffic
    refine ⟨?_,?_,?_⟩
    · intro hour held
      obtain ⟨⟨seen,member,rfl⟩,_⟩ := (kept hour).mp held
      obtain ⟨arrival,came,rfl⟩ := List.mem_map.mp member
      exact (hourOf_mono (onTime arrival came)).trans (latest arrival came)
    · rcases traffic with full | none_
      · exact Or.inl (fun hour since until_ => (kept hour).mpr ⟨full hour since until_,by omega⟩)
      · refine Or.inr (fun hour held => ?_)
        obtain ⟨⟨seen,member,rfl⟩,recent⟩ := (kept hour).mp held
        rcases none_ seen member with old | inDay
        · omega
        · exact inDay
    · intro hour held _
      rw [exact_,List.count_filter (by simpa using ((kept hour).mp held).2)]

theorem chart_last_day (label : Int → Text) (before : Arrivals) (now : DateTime) (event : TelemetryEvent) :
    LastDay label (before ++ [(now,event)]) now ↔ NoGap (before ++ [(now,event)]) now :=
  ⟨lastDay_noGap label _ now,noGap_lastDay label _ now⟩

def hourly (hour : Int) : DateTime := hour*3600000000000

-- One command at midnight and the next at six in the morning of the day after.
def quietDay : Arrivals :=
  [(hourly 0,.commandRun ⟨hourly 0,"ab12",.v4 203 0 113 5,"uname -a"⟩)] ++
    [(hourly 30,.commandRun ⟨hourly 30,"cd34",.v4 203 0 113 9,"id"⟩)]

theorem quiet_day_chart : (quietDay.map Prod.fst).Pairwise (· ≤ ·) ∧ OnTime quietDay ∧
    ∀ label, ¬ LastDay label quietDay (hourly 30) := by
  refine ⟨by decide,by decide,?_⟩
  intro label shown
  have kept : keptHours quietDay = [0,30] := by decide
  have now : hourOf (hourly 30) = 30 := by decide
  rcases (lastDay_noGap label _ _ shown).filled with full | none_
  · have missing := full 29 (by rw [now]; decide) (by rw [now]; decide)
    rw [kept] at missing
    revert missing
    decide
  · have old := none_ 0 (by rw [kept]; decide)
    rw [now] at old
    revert old
    decide

end Chart

end AegisHoneypot.HourlyActivity
