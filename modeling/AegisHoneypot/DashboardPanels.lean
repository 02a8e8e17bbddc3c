import AegisHoneypot.BoundedStore
import AegisHoneypot.Library.Grouping
import Mathlib.Data.Finset.Sort

-- The map of the world and the panel of indicators, against the events the store
-- has taken in.
namespace AegisHoneypot.DashboardPanels
open DashboardStore SessionArchive EventInterleaving DashboardSummary BoundedStore Grouping

-- Strings are ordered by their bytes, which is the order of their scalar values.
def sortedVec (set : Finset String) : List String := set.sort (· ≤ ·)

structure IocRollup where
  ipAddresses : List String
  urls : List String
  moneroWallets : List String

def iocRollup (store : Store) : IocRollup where
  ipAddresses := sortedVec store.knownIpIocs
  urls := sortedVec store.knownUrlIocs
  moneroWallets := sortedVec store.knownWalletIocs

-- Points with the same count stay in the order of the hash map.
def geoPoints (store : Store) : List GeoPoint :=
  (store.geoPoints.entries.map Sigma.snd).mergeSort (fun one other => decide (other.count ≤ one.count))

abbrev Cell := Int32 × Int32

-- The cell of half a degree that a place falls into.
def cellOf (geo : GeoIpInfo) : Option Cell :=
  match geo.lat,geo.lon with
  | some lat,some lon => some ((lat*2.0).round.toInt32,(lon*2.0).round.toInt32)
  | _,_ => none

def placed (geo : Option GeoIpInfo) : List (Cell × GeoIpInfo) := (geo.bind fun geo => (cellOf geo).map (·,geo)).toList

def placesIn : TelemetryEvent → List (Cell × GeoIpInfo)
  | .sessionStart e => placed e.geo
  | _ => []

def freshPoint (cell : Cell) (geo : GeoIpInfo) : GeoPoint := ⟨cell.1.toFloat/2.0,cell.2.toFloat/2.0,geo.country,geo.city,0⟩

def countedPoint (point : GeoPoint) : GeoPoint := {point with count := point.count+1}

theorem bumpGeoPoint_collects (store : Store) (geo : Option GeoIpInfo) :
    (store.bumpGeoPoint geo).geoPoints = (placed geo).foldl (add freshPoint countedPoint) store.geoPoints := by
  unfold Store.bumpGeoPoint placed cellOf
  cases geo with
  | none => rfl
  | some geo =>
    obtain ⟨country,city,asn,lat,lon⟩ := geo
    cases lat <;> cases lon <;> rfl

theorem ingestKind_collects (store : Store) (event : TelemetryEvent) :
    (store.ingestKind event).geoPoints = (placesIn event).foldl (add freshPoint countedPoint) store.geoPoints := by
  cases event with
  | sessionStart e =>
    change (Store.bumpGeoPoint _ e.geo).geoPoints = _
    rw [bumpGeoPoint_collects]
    refine congrArg (fun points => (placed e.geo).foldl (add freshPoint countedPoint) points) ?_
    cases e.geo.bind (·.country) with
    | none => rfl
    | some country =>
      dsimp only
      split <;> rfl
  | _ => rfl

theorem ingest_collects (store : Store) (now : DateTime) (event : TelemetryEvent) :
    (store.ingest now event).geoPoints = (placesIn event).foldl (add freshPoint countedPoint) store.geoPoints := by
  unfold Store.ingest Store.pushRecent
  dsimp only
  rw [ingestKind_collects]
  rfl

theorem points_collected (arrivals : Arrivals) :
    (Store.default.ingestAll arrivals).geoPoints = collect freshPoint countedPoint (arrivals.events.flatMap placesIn) := by
  have general : ∀ store : Store, (store.ingestAll arrivals).geoPoints =
      (arrivals.events.flatMap placesIn).foldl (add freshPoint countedPoint) store.geoPoints := by
    induction arrivals with
    | nil => exact fun store => rfl
    | cons arrival rest ih =>
      intro store
      refine (ih (store.ingest arrival.1 arrival.2)).trans ?_
      rw [ingest_collects,← List.foldl_append]
      rfl
  exact general Store.default

-- What the map shows of some events: a point for each cell a session came from,
-- named after the first of them, with their number; the points with most first.
structure Mapped (events : List TelemetryEvent) (shown : List GeoPoint) : Prop where
  points : shown.Perm (((events.flatMap placesIn).map Prod.fst).dedup.filterMap fun cell =>
    entryOf freshPoint countedPoint cell (under cell (events.flatMap placesIn)))
  largest : shown.Pairwise (fun one other => other.count ≤ one.count)
  total : (shown.map GeoPoint.count).sum = (events.flatMap placesIn).length

theorem geoPoints_mapped (arrivals : Arrivals) : Mapped arrivals.events (geoPoints (Store.default.ingestAll arrivals)) := by
  have collected := points_collected arrivals
  have sorted := List.mergeSort_perm ((Store.default.ingestAll arrivals).geoPoints.entries.map Sigma.snd)
    (fun one other : GeoPoint => decide (other.count ≤ one.count))
  refine ⟨sorted.trans ?_,?_,?_⟩
  · rw [collected]
    exact collect_values _ _ _
  · have ordered := @List.pairwise_mergeSort GeoPoint (fun one other => decide (other.count ≤ one.count))
      (by
        intro a b c one other
        simp only [decide_eq_true_eq] at one other ⊢
        omega)
      (by
        intro a b
        simp only [Bool.or_eq_true,decide_eq_true_eq]
        omega)
      ((Store.default.ingestAll arrivals).geoPoints.entries.map Sigma.snd)
    exact ordered.imp (fun held => by simpa using held)
  · rw [geoPoints,(sorted.map GeoPoint.count).sum_eq,collected]
    exact collect_total freshPoint countedPoint (fun _ _ => rfl) (fun _ => rfl) _

-- What is shown of values of one kind: those with fewer than `cap` others before
-- them, each once and in order.
structure Rolled (cap : Nat) (values shown : List String) : Prop where
  early : ∀ value, value ∈ shown ↔ value ∈ values ∧ Early cap values value
  sorted : shown.Pairwise (· < ·)
  full : shown.length = min cap values.toFinset.card

theorem mem_remember {K : Type} [DecidableEq K] (keys : List K) (cap : Nat) (key : K) :
    key ∈ keys.foldl (remember cap) ∅ ↔ key ∈ keys ∧ Early cap keys key := by
  rw [← bump_remember,← AList.lookup_isSome,(bumps_track cap keys).held,tracked]
  split <;> simp_all

theorem remembered_rolled {set : Finset String} (held : set = values.foldl (remember cap) ∅) : Rolled cap values (sortedVec set) where
  early value := by rw [sortedVec,Finset.mem_sort,held,mem_remember]
  sorted := (Finset.sortedLT_sort _).pairwise
  full := by
    have tracks := bumps_track cap values
    have same := len_of_keys _ _ (bump_remember values cap)
    rw [sortedVec,Finset.length_sort,held,← same,tracks.full]

-- The panels show exactly what has been taken in, up to their caps.
theorem panels_follow_the_log (arrivals : Arrivals) :
    let store := Store.default.ingestAll arrivals
    Mapped arrivals.events (geoPoints store) ∧
      Rolled iocCap (arrivals.events.flatMap (iocsIn (·.ipAddresses))) (iocRollup store).ipAddresses ∧
      Rolled iocCap (arrivals.events.flatMap (iocsIn (·.urls))) (iocRollup store).urls ∧
      Rolled iocCap (arrivals.events.flatMap (iocsIn (·.moneroWallets))) (iocRollup store).moneroWallets := by
  refine ⟨geoPoints_mapped arrivals,remembered_rolled ?_,remembered_rolled ?_,remembered_rolled ?_⟩
  · exact tally_run Tallies.knownIpIocs _ (remember iocCap) (fun _ _ => rfl) Store.default arrivals
  · exact tally_run Tallies.knownUrlIocs _ (remember iocCap) (fun _ _ => rfl) Store.default arrivals
  · exact tally_run Tallies.knownWalletIocs _ (remember iocCap) (fun _ _ => rfl) Store.default arrivals

end AegisHoneypot.DashboardPanels
