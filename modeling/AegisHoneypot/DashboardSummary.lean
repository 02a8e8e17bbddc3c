import AegisHoneypot.EventInterleaving
import AegisHoneypot.AddressText
import AegisHoneypot.Library.Ranking
import Mathlib.Data.String.Basic

namespace AegisHoneypot.DashboardSummary
open DashboardStore SessionArchive EventInterleaving Ranking

def topSize : Nat := 10

structure Ranked where
  value : String
  count : Nat
  deriving DecidableEq, Repr

-- Count descending, then value ascending. Strings are ordered as their bytes
-- are, which for UTF-8 is the order of their scalar values.
def before (a b : Ranked) : Bool := decide (b.count < a.count) || (a.count == b.count && decide (a.value ≤ b.value))

section TopN
variable {K : Type}

def ranked (text : K → String) (entry : Σ _ : K, Nat) : Ranked := ⟨text entry.1,entry.2⟩

-- `order` is the order in which the hash map iterates.
def topOf (text : K → String) (order : List (Σ _ : K, Nat)) : List Ranked := top before topSize (order.map (ranked text))

end TopN

def addressText (ip : IpAddr) : String := String.ofList (AddressText.toText ip)

def topN (counts : KeyTable String Nat) : List Ranked := topOf id counts.entries

def topNIp (counts : KeyTable IpAddr Nat) : List Ranked := topOf addressText counts.entries

structure HourBucket where
  hour : Text
  count : Nat

structure Summary where
  totalSessions : Nat
  totalCommands : Nat
  totalCredentials : Nat
  totalPayloads : Nat
  uniqueIps : Nat
  topUsernames : List Ranked
  topPasswords : List Ranked
  topCommands : List Ranked
  topIps : List Ranked
  topCountries : List Ranked
  topThreatIps : List Ranked
  hourlyActivity : List HourBucket

def threatByIp (store : Store) : KeyTable IpAddr Nat :=
  store.sessions.entries.foldl (fun agg entry =>
    agg.insert entry.2.ip ((agg.lookup entry.2.ip).getD 0 + entry.2.threatScore)) ∅

def topThreatIps (store : Store) : List Ranked := topNIp (threatByIp store)

-- `label` is chrono's text of the instant at which an hour begins.
def hourlyActivity (label : Int → Text) (store : Store) : List HourBucket :=
  let hours := store.hourlyActivity.keys.mergeSort (fun a b => decide (a ≤ b))
  (hours.reverse.take 24).reverse.map (fun hour => ⟨label (hour*3600),(store.hourlyActivity.lookup hour).getD 0⟩)

def summary (label : Int → Text) (store : Store) : Summary where
  totalSessions := store.totalSessions
  totalCommands := store.totalCommands
  totalCredentials := store.totalCredentials
  totalPayloads := store.totalPayloads
  uniqueIps := store.uniqueIps.card
  topUsernames := topN store.usernameCounts
  topPasswords := topN store.passwordCounts
  topCommands := topN store.commandCounts
  topIps := topNIp store.ipCounts
  topCountries := topN store.countryCounts
  topThreatIps := topThreatIps store
  hourlyActivity := hourlyActivity label store

theorem before_exact (a b : Ranked) :
    before a b = true ↔ b.count < a.count ∨ (a.count = b.count ∧ a.value ≤ b.value) := by
  simp [before]

theorem before_order : IsOrder before where
  total a b := by
    rw [Bool.or_eq_true,before_exact,before_exact]
    rcases Nat.lt_trichotomy a.count b.count with less | same | more
    · exact Or.inr (Or.inl less)
    · rcases le_total a.value b.value with first | second
      · exact Or.inl (Or.inr ⟨same,first⟩)
      · exact Or.inr (Or.inr ⟨same.symm,second⟩)
    · exact Or.inl (Or.inl more)
  trans a b c first second := by
    rw [before_exact] at first second ⊢
    rcases first with more | ⟨same,ordered⟩
    · rcases second with further | ⟨equal,_⟩
      · exact Or.inl (by omega)
      · exact Or.inl (by omega)
    · rcases second with further | ⟨equal,follows⟩
      · exact Or.inl (by omega)
      · exact Or.inr ⟨by omega,le_trans ordered follows⟩
  antisymm a b first second := by
    rw [before_exact] at first second
    obtain ⟨value,count⟩ := a
    obtain ⟨other,number⟩ := b
    rcases first with more | ⟨same,ordered⟩
    · rcases second with less | ⟨equal,_⟩
      · omega
      · omega
    · rcases second with less | ⟨_,follows⟩
      · omega
      · change count = number at same
        change value ≤ other at ordered
        rw [same,le_antisymm ordered follows]

section Ranks
variable {K : Type}

-- The first ten of the entries in the order of the ranking, from whatever order
-- the entries come in.
def IsTop (text : K → String) (table : KeyTable K Nat) (list : List Ranked) : Prop :=
  ∀ order, order.Perm table.entries → topOf text order = list ∧ ∃ sorted : List Ranked, sorted.Perm (table.entries.map (ranked text)) ∧
    sorted.Pairwise (fun a b => b.count < a.count ∨ (a.count = b.count ∧ a.value ≤ b.value)) ∧ list = sorted.take topSize

theorem topOf_isTop (text : K → String) (table : KeyTable K Nat) : IsTop text table (topOf text table.entries) := by
  intro order same
  refine ⟨top_perm before_order (same.map _),(table.entries.map (ranked text)).mergeSort before,
    List.mergeSort_perm _ _,?_,rfl⟩
  refine (mergeSort_sorted before_order _).imp ?_
  intro a b ordered
  exact (before_exact a b).mp ordered

end Ranks

section Tracking
variable {K : Type} [DecidableEq K]

-- A value gets a counter if fewer than `cap` others came before it.
def Early (cap : Nat) (keys : List K) (key : K) : Prop := (keys.takeWhile (fun other => decide (other ≠ key))).toFinset.card < cap

instance : Decidable (Early cap keys (key : K)) := inferInstanceAs (Decidable (_ < _))

def tracked (cap : Nat) (keys : List K) (key : K) : Option Nat :=
  if key ∈ keys ∧ Early cap keys key then some (keys.count key) else none

structure Tracks (cap : Nat) (keys : List K) (table : KeyTable K Nat) : Prop where
  held : ∀ key, table.lookup key = tracked cap keys key
  full : table.len = min cap keys.toFinset.card

theorem takeWhile_seen (seen : key ∈ keys) (rest : List K) :
    (keys ++ rest).takeWhile (fun other => decide (other ≠ key)) = keys.takeWhile (fun other => decide (other ≠ key)) := by
  induction keys with
  | nil => cases seen
  | cons first keys ih =>
    by_cases same : first = key
    · simp [same]
    · have later : key ∈ keys := (List.mem_cons.mp seen).resolve_left (Ne.symm same)
      rw [List.cons_append,List.takeWhile_cons,List.takeWhile_cons,ih later]

theorem takeWhile_fresh (fresh : key ∉ keys) (rest : List K) :
    (keys ++ rest).takeWhile (fun other => decide (other ≠ key)) =
      keys ++ rest.takeWhile (fun other => decide (other ≠ key)) := by
  apply List.takeWhile_append_of_pos
  intro other member
  have different : other ≠ key := fun same => fresh (same ▸ member)
  simpa using different

theorem early_seen (seen : key ∈ keys) (last : K) : Early cap (keys ++ [last]) key ↔ Early cap keys key := by
  unfold Early
  rw [takeWhile_seen seen]

theorem early_fresh (fresh : last ∉ keys) : Early cap (keys ++ [last]) (last : K) ↔ keys.toFinset.card < cap := by
  unfold Early
  rw [takeWhile_fresh fresh]
  simp

-- A value without a counter came when all were taken.
theorem late_full (late : ¬ Early cap keys (key : K)) : cap ≤ keys.toFinset.card := by
  unfold Early at late
  refine (Nat.le_of_not_lt late).trans (Finset.card_le_card ?_)
  intro other member
  rw [List.mem_toFinset] at member ⊢
  exact (List.takeWhile_prefix _).subset member

theorem tracked_other (different : key ≠ last) (cap : Nat) (keys : List K) :
    tracked cap (keys ++ [last]) key = tracked cap keys key := by
  unfold tracked
  by_cases seen : key ∈ keys
  · simp [seen,early_seen seen,different.symm]
  · simp [seen,different]

theorem tracked_next (cap : Nat) (keys : List K) (last : K) : tracked cap (keys ++ [last]) last =
    if last ∈ keys then (tracked cap keys last).map (· + 1) else if keys.toFinset.card < cap then some 1 else none := by
  unfold tracked
  by_cases seen : last ∈ keys
  · by_cases early : Early cap keys last
    · simp [seen,early_seen seen,early]
    · simp [seen,early_seen seen,early]
  · simp [seen,early_fresh seen,List.count_eq_zero_of_not_mem seen]

theorem bump_tracks (tracks : Tracks cap keys table) (last : K) : Tracks cap (keys ++ [last]) (bump cap table last) := by
  have grown : (keys ++ [last]).toFinset = insert last keys.toFinset := by
    ext other
    simp
  have known := tracks.held last
  have size := tracks.full
  unfold bump bumpCapped
  cases found : table.lookup last with
  | some count =>
    rw [found] at known
    have seen : last ∈ keys := by
      by_contra fresh
      simp [tracked,fresh] at known
    have present : last ∈ table := AList.lookup_isSome.mp (by simp [found])
    constructor
    · intro key
      rw [AList.lookup_insert_split]
      by_cases same : key = last
      · subst same
        rw [if_pos rfl,tracked_next,if_pos seen,← known]
        rfl
      · rw [if_neg same,tracks.held,tracked_other same]
    · rw [AList.len_insert_present _ _ _ present,size,grown,Finset.insert_eq_of_mem (List.mem_toFinset.mpr seen)]
  | none =>
    rw [found] at known
    dsimp only
    have absent : last ∉ table := AList.lookup_eq_none.mp found
    split
    · rename_i room
      have few : keys.toFinset.card < cap := by omega
      have fresh : last ∉ keys := by
        intro seen
        have late : ¬ Early cap keys last := by
          intro early
          simp [tracked,seen,early] at known
        exact absurd (late_full late) (by omega)
      constructor
      · intro key
        rw [AList.lookup_insert_split]
        by_cases same : key = last
        · subst same
          rw [if_pos rfl,tracked_next,if_neg fresh,if_pos few]
        · rw [if_neg same,tracks.held,tracked_other same]
      · rw [AList.len_insert_fresh _ _ _ absent,size,grown,Finset.card_insert_of_notMem (by simpa using fresh)]
        omega
    · rename_i crowded
      have most : cap ≤ keys.toFinset.card := by omega
      constructor
      · intro key
        by_cases same : key = last
        · subst same
          rw [tracked_next,← known,found,if_neg (show ¬ keys.toFinset.card < cap by omega)]
          simp
        · rw [tracks.held,tracked_other same]
      · have wider : keys.toFinset.card ≤ (insert last keys.toFinset).card := Finset.card_le_card (Finset.subset_insert _ _)
        rw [size,grown]
        omega

theorem bumps_track (cap : Nat) (keys : List K) : Tracks cap keys (keys.foldl (bump cap) ∅) := by
  induction keys using List.reverseRecOn with
  | nil => exact ⟨fun key => by simp [tracked],by simp [AList.len]⟩
  | append_singleton keys last ih =>
    rw [List.foldl_append]
    exact bump_tracks ih last

-- Refused once, refused for good: what a table holds of a key is its count over
-- the whole stream.
theorem tracked_exact (counted : tracked cap keys key = some count) : count = keys.count (key : K) := by
  unfold tracked at counted
  split at counted
  · exact (Option.some.inj counted).symm
  · cases counted

-- No event carries a value twice.
theorem count_carried (values : TelemetryEvent → List K) (once : ∀ event, (values event).Nodup) (events : List TelemetryEvent)
    (key : K) : (events.flatMap values).count key = events.countP (fun event => decide (key ∈ values event)) := by
  induction events with
  | nil => rfl
  | cons event rest ih =>
    rw [List.flatMap_cons,List.count_append,ih,List.countP_cons,(once event).count,Nat.add_comm]
    simp

end Tracking

section Whole
variable {K : Type} [DecidableEq K]

-- Each counter of a table stands at the number of events that carry its key.
def ExactCounts (values : TelemetryEvent → List K) (events : List TelemetryEvent) (table : KeyTable K Nat) : Prop :=
  ∀ key count, table.lookup key = some count → count = events.countP (fun event => decide (key ∈ values event))

theorem table_tracks (counts : Tallies → KeyTable K Nat) (values : TelemetryEvent → List K)
    (step : ∀ tallies event, counts (tallies.step event) = (values event).foldl (bump counterCap) (counts tallies))
    (fresh : counts (talliesOf Store.default) = ∅) (arrivals : Arrivals) :
    Tracks counterCap (arrivals.events.flatMap values) (counts (talliesOf (Store.default.ingestAll arrivals))) := by
  rw [tally_run counts values _ step,fresh]
  exact bumps_track counterCap _

theorem exact_counts (values : TelemetryEvent → List K) (once : ∀ event, (values event).Nodup)
    (tracks : Tracks counterCap (events.flatMap values) table) : ExactCounts values events table := by
  intro key count held
  rw [tracks.held] at held
  rw [tracked_exact held,count_carried values once]

end Whole

theorem addressesIn_once (event : TelemetryEvent) : (addressesIn event).Nodup := List.nodup_singleton _

theorem usernamesIn_once (event : TelemetryEvent) : (usernamesIn event).Nodup := by
  cases event with
  | credentialHarvest e => exact List.nodup_singleton _
  | _ => exact List.nodup_nil

theorem verbsIn_once (event : TelemetryEvent) : (verbsIn event).Nodup := by
  cases event with
  | commandRun e => exact List.nodup_singleton _
  | _ => exact List.nodup_nil

theorem optional_once (value : Option String) : value.toList.Nodup := by
  cases value with
  | none => exact List.nodup_nil
  | some value => exact List.nodup_singleton _

theorem passwordsIn_once (event : TelemetryEvent) : (passwordsIn event).Nodup := by
  cases event with
  | credentialHarvest e => exact optional_once e.password
  | _ => exact List.nodup_nil

theorem countriesIn_once (event : TelemetryEvent) : (countriesIn event).Nodup := by
  cases event with
  | sessionStart e => exact optional_once _
  | _ => exact List.nodup_nil

structure Exact (events : List TelemetryEvent) (store : Store) (shown : Summary) : Prop where
  ips : ExactCounts addressesIn events store.ipCounts
  usernames : ExactCounts usernamesIn events store.usernameCounts
  passwords : ExactCounts passwordsIn events store.passwordCounts
  commands : ExactCounts verbsIn events store.commandCounts
  countries : ExactCounts countriesIn events store.countryCounts
  topIps : IsTop addressText store.ipCounts shown.topIps
  topUsernames : IsTop id store.usernameCounts shown.topUsernames
  topPasswords : IsTop id store.passwordCounts shown.topPasswords
  topCommands : IsTop id store.commandCounts shown.topCommands
  topCountries : IsTop id store.countryCounts shown.topCountries

theorem ips_track (arrivals : Arrivals) : Tracks counterCap (arrivals.events.flatMap addressesIn)
    (Store.default.ingestAll arrivals).ipCounts := table_tracks Tallies.ipCounts _ (fun _ _ => rfl) rfl arrivals

theorem usernames_track (arrivals : Arrivals) : Tracks counterCap (arrivals.events.flatMap usernamesIn)
    (Store.default.ingestAll arrivals).usernameCounts := table_tracks Tallies.usernameCounts _ (fun _ _ => rfl) rfl arrivals

theorem passwords_track (arrivals : Arrivals) : Tracks counterCap (arrivals.events.flatMap passwordsIn)
    (Store.default.ingestAll arrivals).passwordCounts := table_tracks Tallies.passwordCounts _ (fun _ _ => rfl) rfl arrivals

theorem verbs_track (arrivals : Arrivals) : Tracks counterCap (arrivals.events.flatMap verbsIn)
    (Store.default.ingestAll arrivals).commandCounts := table_tracks Tallies.commandCounts _ (fun _ _ => rfl) rfl arrivals

theorem countries_track (arrivals : Arrivals) : Tracks counterCap (arrivals.events.flatMap countriesIn)
    (Store.default.ingestAll arrivals).countryCounts := table_tracks Tallies.countryCounts _ (fun _ _ => rfl) rfl arrivals

theorem tracked_counts_exact (label : Int → Text) (arrivals : Arrivals) :
    Exact arrivals.events (Store.default.ingestAll arrivals) (summary label (Store.default.ingestAll arrivals)) where
  ips := exact_counts addressesIn addressesIn_once (ips_track arrivals)
  usernames := exact_counts usernamesIn usernamesIn_once (usernames_track arrivals)
  passwords := exact_counts passwordsIn passwordsIn_once (passwords_track arrivals)
  commands := exact_counts verbsIn verbsIn_once (verbs_track arrivals)
  countries := exact_counts countriesIn countriesIn_once (countries_track arrivals)
  topIps := topOf_isTop addressText _
  topUsernames := topOf_isTop id _
  topPasswords := topOf_isTop id _
  topCommands := topOf_isTop id _
  topCountries := topOf_isTop id _

end AegisHoneypot.DashboardSummary
