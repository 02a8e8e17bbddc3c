import AegisHoneypot.HourlyActivity

-- The store is fed by the attacker for as long as it runs. Each of its
-- collections but the archive and the map of the world is bounded here.
namespace AegisHoneypot.BoundedStore
open DashboardStore SessionArchive EventInterleaving DashboardSummary HourlyActivity

def eventKind : TelemetryEvent → String
  | .sessionStart _ => "SESSION_START"
  | .sessionEnd _ => "SESSION_END"
  | .credentialHarvest _ => "CREDENTIAL_HARVEST"
  | .commandRun _ => "COMMAND_RUN"
  | .syscallExecve _ => "SYSCALL_EXECVE"
  | .syscallConnect _ => "SYSCALL_CONNECT"
  | .syscallMemfdCreate _ => "SYSCALL_MEMFD_CREATE"
  | .payloadCaptured _ => "PAYLOAD_CAPTURED"

def eqIgnoreAsciiCase (left right : String) : Bool := left.toList.map Char.toLower == right.toList.map Char.toLower

def recentEvents (store : Store) (limit : Nat) (kind : Option String) (ip : Option IpAddr) : List TelemetryEvent :=
  ((store.recent.reverse.filter (fun e => (kind.map (fun k => eqIgnoreAsciiCase (eventKind e) k)).getD true)).filter
    (fun e => (ip.map (fun target => decide (eventIp e = target))).getD true)).take limit

def sessionEvents (store : Store) (sessionId : String) : List TelemetryEvent :=
  store.recent.filter (fun e => decide (e.sessionId = sessionId))

section Feed

-- The last events of a stream that the feed has room for.
def window (events : List TelemetryEvent) : List TelemetryEvent := events.drop (events.length - recentCap)

def Matches (kind : Option String) (ip : Option IpAddr) (event : TelemetryEvent) : Prop :=
  (∀ k ∈ kind, eqIgnoreAsciiCase (eventKind event) k = true) ∧ ∀ target ∈ ip, eventIp event = target

instance (kind : Option String) (ip : Option IpAddr) (event : TelemetryEvent) : Decidable (Matches kind ip event) :=
  inferInstanceAs (Decidable (_ ∧ _))

theorem window_length (events : List TelemetryEvent) : (window events).length = min events.length recentCap := by
  rw [window,List.length_drop]
  omega

theorem window_next (events : List TelemetryEvent) (last : TelemetryEvent) :
    (window events ++ [last]).drop ((window events ++ [last]).length - recentCap) = window (events ++ [last]) := by
  have within : events.length - recentCap ≤ events.length := Nat.sub_le _ _
  rw [List.length_append,window_length,window,window,← List.drop_append_of_le_length within,List.drop_drop,
    List.length_append,List.length_singleton]
  generalize recentCap = cap
  congr 1
  omega

theorem bumpGeoPoint_recent (store : Store) (geo : Option GeoIpInfo) : (store.bumpGeoPoint geo).recent = store.recent := by
  unfold Store.bumpGeoPoint
  split
  · rfl
  · split
    · rfl
    · rfl

theorem ingestKind_recent (store : Store) (event : TelemetryEvent) : (store.ingestKind event).recent = store.recent := by
  cases event with
  | sessionStart e =>
    change (Store.bumpGeoPoint _ e.geo).recent = _
    rw [bumpGeoPoint_recent]
    cases e.geo.bind (·.country) with
    | none => rfl
    | some country =>
      dsimp only
      split
      · rfl
      · rfl
  | _ => rfl

theorem ingest_recent (store : Store) (now : DateTime) (event : TelemetryEvent) : (store.ingest now event).recent =
    (store.recent ++ [event]).drop ((store.recent ++ [event]).length - recentCap) := by
  unfold Store.ingest Store.pushRecent
  dsimp only
  rw [ingestKind_recent]
  rfl

theorem recent_window (arrivals : Arrivals) : (Store.default.ingestAll arrivals).recent = window arrivals.events := by
  induction arrivals using List.reverseRecOn with
  | nil => rfl
  | append_singleton arrivals last ih =>
    have events : Arrivals.events (arrivals ++ [last]) = Arrivals.events arrivals ++ [last.2] := by
      simp [Arrivals.events]
    rw [ingestAll_append,ingest_recent,ih,window_next,events]

theorem recentEvents_exact (store : Store) (limit : Nat) (kind : Option String) (ip : Option IpAddr) :
    recentEvents store limit kind ip = (store.recent.filter (fun e => decide (Matches kind ip e))).reverse.take limit := by
  rw [recentEvents,List.filter_filter,← List.filter_reverse]
  congr 2
  funext event
  cases kind <;> cases ip <;> simp [Matches,Bool.and_comm]

end Feed

section Caps
variable {K : Type} [DecidableEq K]

theorem remember_bounded (keys : List K) (cap : Nat) : (keys.foldl (remember cap) ∅).card ≤ cap := by
  induction keys using List.reverseRecOn with
  | nil => exact Nat.zero_le _
  | append_singleton keys last ih =>
    rw [List.foldl_append,List.foldl_cons,List.foldl_nil]
    generalize keys.foldl (remember cap) ∅ = set at ih ⊢
    unfold remember
    split
    · rename_i room
      rcases room with seen | few
      · rwa [Finset.insert_eq_of_mem seen]
      · exact (Finset.card_insert_le _ _).trans few
    · exact ih

theorem remember_occurred (keys : List K) (cap : Nat) : keys.foldl (remember cap) ∅ ⊆ keys.toFinset := by
  induction keys using List.reverseRecOn with
  | nil => exact Finset.empty_subset _
  | append_singleton keys last ih =>
    have before : keys.foldl (remember cap) ∅ ⊆ (keys ++ [last]).toFinset := by
      intro key held
      have occurred := List.mem_toFinset.mp (ih held)
      exact List.mem_toFinset.mpr (List.mem_append_left _ occurred)
    rw [List.foldl_append,List.foldl_cons,List.foldl_nil]
    unfold remember
    split
    · exact Finset.insert_subset (by simp) before
    · exact before

theorem mem_bump (table : KeyTable K Nat) (cap : Nat) (last key : K) :
    key ∈ bump cap table last ↔ key ∈ table ∨ key = last ∧ table.len < cap := by
  unfold bump bumpCapped
  cases found : table.lookup last with
  | some count =>
    have present : last ∈ table := AList.lookup_isSome.mp (by simp [found])
    dsimp only
    rw [AList.mem_insert]
    constructor
    · rintro (rfl | held)
      · exact Or.inl present
      · exact Or.inl held
    · rintro (held | ⟨rfl,_⟩)
      · exact Or.inr held
      · exact Or.inl rfl
  | none =>
    dsimp only
    split
    · rename_i room
      rw [AList.mem_insert]
      constructor
      · rintro (rfl | held)
        · exact Or.inr ⟨rfl,room⟩
        · exact Or.inl held
      · rintro (held | ⟨rfl,_⟩)
        · exact Or.inr held
        · exact Or.inl rfl
    · rename_i full
      exact ⟨Or.inl,fun either => either.resolve_right (fun fresh => full fresh.2)⟩

-- A set and a map that are offered the same keys take the same keys.
theorem bump_remember (keys : List K) (cap : Nat) (key : K) :
    key ∈ keys.foldl (bump cap) ∅ ↔ key ∈ keys.foldl (remember cap) ∅ := by
  induction keys using List.reverseRecOn generalizing key with
  | nil => simp
  | append_singleton keys last ih =>
    have size := len_of_keys _ _ ih
    rw [List.foldl_append,List.foldl_append,List.foldl_cons,List.foldl_cons,List.foldl_nil,List.foldl_nil,mem_bump,ih key,
      size]
    generalize keys.foldl (remember cap) ∅ = set
    unfold remember
    split
    · rename_i room
      rw [Finset.mem_insert]
      constructor
      · rintro (held | ⟨rfl,_⟩)
        · exact Or.inr held
        · exact Or.inl rfl
      · rintro (rfl | held)
        · exact room.imp_right (fun few => ⟨rfl,few⟩)
        · exact Or.inl held
    · rename_i full
      rw [not_or] at full
      exact ⟨fun either => either.resolve_right (fun fresh => full.2 fresh.2),Or.inl⟩

end Caps

theorem len_kept (counts : Counts table hours) : table.len = hours.toFinset.card :=
  len_of_keys table _ (fun hour => by rw [AList.mem_keys,kept_bucket counts,List.mem_toFinset])

-- No event is dated after the latest reading of the clock.
def Settled (arrivals : Arrivals) : Prop := ∀ last ∈ arrivals.getLast?, ∀ arrival ∈ arrivals, eventTimestamp arrival.2 ≤ last.1

theorem settled_forward (forward : (arrivals.map Prod.fst).Pairwise (· ≤ ·)) (onTime : OnTime arrivals) :
    Settled arrivals := by
  intro last isLast arrival member
  obtain ⟨before,rfl⟩ := List.getLast?_eq_some_iff.mp isLast
  rw [List.map_append,List.pairwise_append] at forward
  refine (onTime arrival member).trans ?_
  rcases List.mem_append.mp member with earlier | same
  · exact forward.2.2 arrival.1 (List.mem_map_of_mem earlier) last.1 (by simp)
  · rw [List.mem_singleton.mp same]

theorem hours_bounded (arrivals : Arrivals) (settled : Settled arrivals) :
    ((Store.default.ingestAll arrivals).hourlyActivity.len : Int) ≤ hourlyWindowHours + 1 := by
  rw [len_kept (hours_counted arrivals)]
  rcases List.eq_nil_or_concat arrivals with rfl | ⟨before,last,rfl⟩
  · decide
  · rw [List.concat_eq_append] at settled ⊢
    have inside : (keptHours (before ++ [last])).toFinset ⊆ Finset.Icc (cutoff last.1) (hourOf last.1) := by
      intro hour member
      have kept := List.mem_toFinset.mp member
      refine Finset.mem_Icc.mpr ⟨keptHours_recent before last kept,?_⟩
      obtain ⟨event,came,rfl⟩ := List.mem_map.mp ((keptHours_sublist _).subset kept)
      obtain ⟨arrival,arrived,rfl⟩ := List.mem_map.mp came
      exact hourOf_mono (settled last (by simp) arrival arrived)
    have few := Finset.card_le_card inside
    rw [Int.card_Icc] at few
    unfold cutoff at few
    unfold hourlyWindowHours at *
    omega

-- The bounds of a store that has ingested `arrivals`, with what its sets hold and
-- what its feed answers.
structure Bounded (arrivals : Arrivals) (store : Store) : Prop where
  ips : store.uniqueIps.card ≤ counterCap ∧ store.ipCounts.len ≤ counterCap
  sameIps : ∀ ip, ip ∈ store.uniqueIps ↔ ip ∈ store.ipCounts
  usernames : store.usernameCounts.len ≤ counterCap
  passwords : store.passwordCounts.len ≤ counterCap
  commands : store.commandCounts.len ≤ counterCap
  countries : store.countryCounts.len ≤ counterCap
  iocs : store.knownIpIocs.card ≤ iocCap ∧ store.knownUrlIocs.card ≤ iocCap ∧ store.knownWalletIocs.card ≤ iocCap
  fullCommands : store.knownFullCommands.card ≤ commandCap
  ipIocsOccurred : ∀ value ∈ store.knownIpIocs, ∃ event ∈ arrivals.events, value ∈ iocsIn (·.ipAddresses) event
  urlIocsOccurred : ∀ value ∈ store.knownUrlIocs, ∃ event ∈ arrivals.events, value ∈ iocsIn (·.urls) event
  walletIocsOccurred : ∀ value ∈ store.knownWalletIocs, ∃ event ∈ arrivals.events, value ∈ iocsIn (·.moneroWallets) event
  commandsOccurred : ∀ value ∈ store.knownFullCommands, ∃ event ∈ arrivals.events, value ∈ commandsIn event
  recent : store.recent = window arrivals.events ∧ store.recent <:+ arrivals.events ∧
    store.recent.length = min arrivals.events.length recentCap
  newestFirst : ∀ limit kind ip, recentEvents store limit kind ip =
    ((window arrivals.events).filter (fun event => decide (Matches kind ip event))).reverse.take limit
  timeline : ∀ id, sessionEvents store id = (window arrivals.events).filter (fun event => decide (event.sessionId = id))
  hours : Settled arrivals → (store.hourlyActivity.len : Int) ≤ hourlyWindowHours + 1

section Sets
variable (set : Tallies → Finset V) (values : TelemetryEvent → List V) (cap : Nat) [DecidableEq V]
  (step : ∀ tallies event, set (tallies.step event) = (values event).foldl (remember cap) (set tallies))
  (fresh : set (talliesOf Store.default) = ∅) (arrivals : Arrivals)
include step fresh

theorem set_bounded : (set (talliesOf (Store.default.ingestAll arrivals))).card ≤ cap := by
  rw [tally_run set values _ step,fresh]
  exact remember_bounded _ cap

theorem set_occurred : ∀ value ∈ set (talliesOf (Store.default.ingestAll arrivals)),
    ∃ event ∈ arrivals.events, value ∈ values event := by
  intro value held
  rw [tally_run set values _ step,fresh] at held
  exact List.mem_flatMap.mp (List.mem_toFinset.mp (remember_occurred _ cap held))

end Sets

theorem tracks_bounded {K : Type} [DecidableEq K] {keys : List K} {table : KeyTable K Nat} (tracks : Tracks cap keys table) :
    table.len ≤ cap := by
  rw [tracks.full]
  exact Nat.min_le_left _ _

theorem same_ips (arrivals : Arrivals) (ip : IpAddr) :
    ip ∈ (Store.default.ingestAll arrivals).uniqueIps ↔ ip ∈ (Store.default.ingestAll arrivals).ipCounts := by
  have counted := tally_run Tallies.ipCounts addressesIn (bump counterCap) (fun _ _ => rfl) Store.default arrivals
  have remembered := tally_run Tallies.uniqueIps addressesIn (remember counterCap) (fun _ _ => rfl) Store.default arrivals
  change ip ∈ (talliesOf (Store.default.ingestAll arrivals)).uniqueIps ↔
    ip ∈ (talliesOf (Store.default.ingestAll arrivals)).ipCounts
  rw [counted,remembered]
  exact (bump_remember _ counterCap ip).symm

theorem store_bounded (arrivals : Arrivals) : Bounded arrivals (Store.default.ingestAll arrivals) where
  ips := ⟨set_bounded Tallies.uniqueIps addressesIn counterCap (fun _ _ => rfl) rfl arrivals,
    tracks_bounded (ips_track arrivals)⟩
  sameIps := same_ips arrivals
  usernames := tracks_bounded (usernames_track arrivals)
  passwords := tracks_bounded (passwords_track arrivals)
  commands := tracks_bounded (verbs_track arrivals)
  countries := tracks_bounded (countries_track arrivals)
  iocs := ⟨set_bounded Tallies.knownIpIocs (iocsIn (·.ipAddresses)) iocCap (fun _ _ => rfl) rfl arrivals,
    set_bounded Tallies.knownUrlIocs (iocsIn (·.urls)) iocCap (fun _ _ => rfl) rfl arrivals,
    set_bounded Tallies.knownWalletIocs (iocsIn (·.moneroWallets)) iocCap (fun _ _ => rfl) rfl arrivals⟩
  fullCommands := set_bounded Tallies.knownFullCommands commandsIn commandCap (fun _ _ => rfl) rfl arrivals
  ipIocsOccurred := set_occurred Tallies.knownIpIocs (iocsIn (·.ipAddresses)) iocCap (fun _ _ => rfl) rfl arrivals
  urlIocsOccurred := set_occurred Tallies.knownUrlIocs (iocsIn (·.urls)) iocCap (fun _ _ => rfl) rfl arrivals
  walletIocsOccurred := set_occurred Tallies.knownWalletIocs (iocsIn (·.moneroWallets)) iocCap (fun _ _ => rfl) rfl arrivals
  commandsOccurred := set_occurred Tallies.knownFullCommands commandsIn commandCap (fun _ _ => rfl) rfl arrivals
  recent := by
    rw [recent_window]
    exact ⟨rfl,List.drop_suffix _ _,window_length _⟩
  newestFirst := by
    intro limit kind ip
    rw [recentEvents_exact,recent_window]
  timeline := by
    intro id
    rw [sessionEvents,recent_window]
  hours := hours_bounded arrivals

theorem store_bounded_quiet : Settled quietDay ∧ Bounded quietDay (Store.default.ingestAll quietDay) :=
  ⟨settled_forward (by decide) (by decide),store_bounded quietDay⟩

-- Two days of one command an hour, and then a late one that is read after the
-- clock has been set back by an hour.
def setBack : Arrivals :=
  (List.range 49).map (fun hour => (hourly hour,.commandRun ⟨hourly hour,"ab12",.v4 203 0 113 5,"uptime"⟩)) ++
    [(hourly 47,.commandRun ⟨hourly (-1),"cd34",.v4 203 0 113 9,"id"⟩)]

theorem set_back_overflows : OnTime setBack ∧
    ¬ ((Store.default.ingestAll setBack).hourlyActivity.len : Int) ≤ hourlyWindowHours + 1 := by
  refine ⟨by decide +kernel,?_⟩
  have held : (keptHours setBack).toFinset.card = 50 := by decide +kernel
  rw [len_kept (hours_counted setBack),held]
  decide

end AegisHoneypot.BoundedStore
