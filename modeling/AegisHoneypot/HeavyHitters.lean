import AegisHoneypot.DashboardSummary

-- The rankings against the cap: a frequent value is shown if it came before the
-- counters ran out, and only then.
namespace AegisHoneypot.HeavyHitters
open DashboardStore SessionArchive EventInterleaving DashboardSummary Ranking

section Ranks
variable {K : Type} [DecidableEq K]

-- Fewer than ten other values come as often.
def Heavy (keys : List K) (value : K) : Prop :=
  ∃ rivals : Finset K, rivals.card < topSize ∧ ∀ other, other ≠ value → other ∉ rivals → keys.count other < keys.count value

def Plenty (K : Type) : Prop := ∃ sample : Finset K, topSize < sample.card

theorem heavy_occurs (plenty : Plenty K) (heavy : Heavy keys (value : K)) : value ∈ keys := by
  obtain ⟨rivals,few,rare⟩ := heavy
  obtain ⟨sample,many⟩ := plenty
  have spare : (insert value rivals).card < sample.card := by
    have bound := Finset.card_insert_le value rivals
    omega
  obtain ⟨other,_,outside⟩ := Finset.exists_mem_notMem_of_card_lt_card spare
  rw [Finset.mem_insert,not_or] at outside
  have less := rare other outside.1 outside.2
  exact List.count_pos_iff.mp (by omega)

theorem entries_exact (tracks : Tracks cap keys table) (entry : Σ _ : K, Nat) (member : entry ∈ table.entries) :
    entry.2 = keys.count entry.1 ∧ Early cap keys entry.1 := by
  have held : table.lookup entry.1 = some entry.2 := AList.mem_lookup_iff.mpr member
  rw [tracks.held] at held
  refine ⟨tracked_exact held,?_⟩
  unfold tracked at held
  split at held
  · rename_i given
    exact given.2
  · cases held

-- At most the rivals stand in front of a value that has a counter.
theorem rivals_bound {text : K → String} (tracks : Tracks cap keys table) (rivals : Finset K)
    (rare : ∀ other, other ≠ value → other ∉ rivals → keys.count other < keys.count value) :
    ((table.entries.map (ranked text)).filter (fun other =>
      decide (other ≠ ⟨text value,keys.count value⟩) && before other ⟨text value,keys.count value⟩)).length ≤ rivals.card := by
  rw [List.filter_map,List.length_map]
  have distinct : ((table.entries.filter ((fun other => decide (other ≠ (⟨text value,keys.count value⟩ : Ranked)) &&
      before other ⟨text value,keys.count value⟩) ∘ ranked text)).map Sigma.fst).Nodup :=
    (List.filter_sublist.map Sigma.fst).nodup table.keys_nodup
  rw [← List.length_map (f := Sigma.fst),← List.toFinset_card_of_nodup distinct]
  refine Finset.card_le_card ?_
  intro other member
  rw [List.mem_toFinset,List.mem_map] at member
  obtain ⟨entry,inside,rfl⟩ := member
  obtain ⟨present,ahead⟩ := List.mem_filter.mp inside
  simp only [Function.comp_apply,Bool.and_eq_true,decide_eq_true_eq,before_exact] at ahead
  obtain ⟨counted,_⟩ := entries_exact tracks entry present
  have different : entry.1 ≠ value := by
    intro same
    apply ahead.1
    simp only [ranked,counted,same]
  by_contra outside
  have less := rare entry.1 different outside
  rw [← counted] at less
  rcases ahead.2 with more | ⟨equal,_⟩
  · exact absurd more (Nat.not_lt.mpr (Nat.le_of_lt less))
  · exact absurd equal (Nat.ne_of_lt less)

theorem heavy_listed {text : K → String} (injective : Function.Injective text) (plenty : Plenty K)
    (tracks : Tracks cap keys table) (heavy : Heavy keys value) :
    ⟨text value,keys.count value⟩ ∈ topOf text table.entries ↔ Early cap keys value := by
  have occurs := heavy_occurs plenty heavy
  obtain ⟨rivals,few,rare⟩ := heavy
  constructor
  · intro listed
    have ranks := List.mem_mergeSort.mp ((List.take_sublist _ _).subset listed)
    obtain ⟨entry,present,same⟩ := List.mem_map.mp ranks
    have named : entry.1 = value := injective (congrArg Ranked.value same)
    rw [← named]
    exact (entries_exact tracks entry present).2
  · intro early
    have held : table.lookup value = some (keys.count value) := by
      rw [tracks.held,tracked,if_pos ⟨occurs,early⟩]
    refine mem_top before_order ?_ (Nat.lt_of_le_of_lt (rivals_bound tracks rivals rare) few)
    exact List.mem_map.mpr ⟨⟨value,keys.count value⟩,AList.mem_lookup_iff.mp held,rfl⟩

end Ranks

theorem plenty_names : Plenty String :=
  ⟨((List.range 11).map toString).toFinset,by decide⟩

theorem plenty_addresses : Plenty IpAddr :=
  ⟨((List.range 11).map (fun n => IpAddr.v4 0 0 0 (UInt8.ofNat n))).toFinset,by decide⟩

theorem addressText_injective : Function.Injective addressText := by
  intro ip other same
  exact AddressText.toText_injective (String.ofList_inj.mp same)

def occurrences [DecidableEq K] (values : TelemetryEvent → List K) (events : List TelemetryEvent) (value : K) : Nat :=
  (events.flatMap values).count value

-- Every heavy value is in the list that belongs to it, with its true count.
structure Surfaces (events : List TelemetryEvent) (shown : Summary) : Prop where
  usernames : ∀ value, Heavy (events.flatMap usernamesIn) value →
    ⟨value,occurrences usernamesIn events value⟩ ∈ shown.topUsernames
  passwords : ∀ value, Heavy (events.flatMap passwordsIn) value →
    ⟨value,occurrences passwordsIn events value⟩ ∈ shown.topPasswords
  commands : ∀ value, Heavy (events.flatMap verbsIn) value → ⟨value,occurrences verbsIn events value⟩ ∈ shown.topCommands
  ips : ∀ value, Heavy (events.flatMap addressesIn) value →
    ⟨addressText value,occurrences addressesIn events value⟩ ∈ shown.topIps

-- Every heavy value first comes while counters are left.
structure Prompt (events : List TelemetryEvent) : Prop where
  usernames : ∀ value, Heavy (events.flatMap usernamesIn) value → Early counterCap (events.flatMap usernamesIn) value
  passwords : ∀ value, Heavy (events.flatMap passwordsIn) value → Early counterCap (events.flatMap passwordsIn) value
  commands : ∀ value, Heavy (events.flatMap verbsIn) value → Early counterCap (events.flatMap verbsIn) value
  ips : ∀ value, Heavy (events.flatMap addressesIn) value → Early counterCap (events.flatMap addressesIn) value

theorem heavy_hitters_survive_iff (label : Int → Text) (arrivals : Arrivals) :
    Surfaces arrivals.events (summary label (Store.default.ingestAll arrivals)) ↔ Prompt arrivals.events := by
  have usernames := fun value => @heavy_listed _ _ _ _ _ value id Function.injective_id plenty_names (usernames_track arrivals)
  have passwords := fun value => @heavy_listed _ _ _ _ _ value id Function.injective_id plenty_names (passwords_track arrivals)
  have commands := fun value => @heavy_listed _ _ _ _ _ value id Function.injective_id plenty_names (verbs_track arrivals)
  have ips := fun value =>
    @heavy_listed _ _ _ _ _ value addressText addressText_injective plenty_addresses (ips_track arrivals)
  constructor
  · intro surfaces
    exact ⟨fun value heavy => (usernames value heavy).mp (surfaces.usernames value heavy),
      fun value heavy => (passwords value heavy).mp (surfaces.passwords value heavy),
      fun value heavy => (commands value heavy).mp (surfaces.commands value heavy),
      fun value heavy => (ips value heavy).mp (surfaces.ips value heavy)⟩
  · intro prompt
    exact ⟨fun value heavy => (usernames value heavy).mpr (prompt.usernames value heavy),
      fun value heavy => (passwords value heavy).mpr (prompt.passwords value heavy),
      fun value heavy => (commands value heavy).mpr (prompt.commands value heavy),
      fun value heavy => (ips value heavy).mpr (prompt.ips value heavy)⟩

-- A dictionary attack with as many names as there are counters, and then two
-- tries of one more.
def crowd (size : Nat) : List String := (List.range size).map toString

def attempt (username : String) : DateTime × TelemetryEvent :=
  (0,.credentialHarvest ⟨0,"7",.v4 198 51 100 45,username,none,.password⟩)

def lateRoot : Arrivals := (crowd counterCap ++ ["root","root"]).map attempt

theorem attempts_usernames (names : List String) :
    (Arrivals.events (names.map attempt)).flatMap usernamesIn = names := by
  induction names with
  | nil => rfl
  | cons name rest ih =>
    simp only [Arrivals.events,List.map_cons,List.flatMap_cons] at ih ⊢
    rw [ih]
    rfl

theorem number_digits (n : Nat) : (toString n).toList = Nat.toDigits 10 n := Nat.toList_repr

theorem crowd_distinct (size : Nat) : (crowd size).Nodup := by
  refine List.Nodup.map ?_ List.nodup_range
  intro one other same
  have digits := congrArg String.toList same
  rw [number_digits,number_digits] at digits
  exact AddressText.decimal_injective digits

theorem crowd_root (size : Nat) : "root" ∉ crowd size := by
  intro member
  obtain ⟨n,_,same⟩ := List.mem_map.mp member
  have letters := congrArg String.toList same
  rw [number_digits] at letters
  have letter : 'r' ∈ Nat.toDigits 10 n := by
    rw [letters]
    decide
  exact absurd (Nat.isDigit_of_mem_toDigits (by decide) (by decide) letter) (by decide)

theorem late_heavy (size : Nat) : Heavy (crowd size ++ ["root","root"]) "root" := by
  refine ⟨∅,by decide,?_⟩
  intro other different _
  have once := List.nodup_iff_count_le_one.mp (crowd_distinct size) other
  rw [List.count_append,List.count_append,List.count_eq_zero_of_not_mem (crowd_root size)]
  have none : ["root","root"].count other = 0 := by
    apply List.count_eq_zero_of_not_mem
    simpa using different
  have twice : ["root","root"].count "root" = 2 := by decide
  omega

theorem late_crowded (size : Nat) : ¬ Early size (crowd size ++ ["root","root"]) "root" := by
  unfold Early
  rw [takeWhile_fresh (crowd_root size)]
  have stops : ["root","root"].takeWhile (fun other => decide (other ≠ "root")) = [] := by decide
  rw [stops,List.append_nil,List.toFinset_card_of_nodup (crowd_distinct size)]
  simp [crowd]

theorem late_root_crowded_out :
    ¬ Surfaces lateRoot.events (summary (fun _ => []) (Store.default.ingestAll lateRoot)) := by
  intro surfaces
  have names : lateRoot.events.flatMap usernamesIn = crowd counterCap ++ ["root","root"] := attempts_usernames _
  have heavy : Heavy (lateRoot.events.flatMap usernamesIn) "root" := names ▸ late_heavy counterCap
  have listed := (heavy_listed Function.injective_id plenty_names (usernames_track lateRoot) heavy).mp
    (surfaces.usernames "root" heavy)
  rw [names] at listed
  exact late_crowded counterCap listed

end AegisHoneypot.HeavyHitters
