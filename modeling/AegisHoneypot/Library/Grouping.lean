import AegisHoneypot.Library.KeyTable
import Mathlib.Algebra.BigOperators.Group.List.Lemmas
import Mathlib.Algebra.GroupWithZero.Nat
import Mathlib.Data.List.Dedup
import Mathlib.Logic.Function.Iterate

-- A table that collects items under keys: the first item of a key makes its entry,
-- and every one of them changes it.
namespace Grouping
variable {K A V : Type} (fresh : K → A → V) (next : V → V)

-- What the items of one key come to.
def entryOf (key : K) : List A → Option V
  | [] => none
  | first :: rest => some (next^[rest.length+1] (fresh key first))

theorem entryOf_next (key : K) (items : List A) (last : A) :
    entryOf fresh next key (items ++ [last]) = some (next ((entryOf fresh next key items).getD (fresh key last))) := by
  cases items with
  | nil => rfl
  | cons first rest =>
    rw [List.cons_append,entryOf,entryOf,Option.getD_some,List.length_append,List.length_singleton,
      Function.iterate_succ_apply' next (rest.length+1)]

variable [DecidableEq K]

def add (table : KeyTable K V) (item : K × A) : KeyTable K V :=
  table.insert item.1 (next ((table.lookup item.1).getD (fresh item.1 item.2)))

def collect (items : List (K × A)) : KeyTable K V := items.foldl (add fresh next) ∅

def under (key : K) (items : List (K × A)) : List A := (items.filter (fun item => item.1 = key)).map Prod.snd

theorem collect_lookup (items : List (K × A)) (key : K) :
    (collect fresh next items).lookup key = entryOf fresh next key (under key items) := by
  induction items using List.reverseRecOn with
  | nil => rfl
  | append_singleton items last ih =>
    rw [collect,List.foldl_append,List.foldl_cons,List.foldl_nil,add,AList.lookup_insert_split,under,List.filter_append,
      List.map_append]
    by_cases same : key = last.1
    · subst same
      have here : [last].filter (fun item => item.1 = last.1) = [last] := by simp
      rw [if_pos rfl,here,List.map_singleton,entryOf_next]
      exact congrArg (fun held : Option V => some (next (held.getD (fresh last.1 last.2)))) ih
    · have apart : [last].filter (fun item => item.1 = key) = [] := by simp [Ne.symm same]
      rw [if_neg same,apart,List.map_nil,List.append_nil]
      exact ih

theorem under_nil (key : K) (items : List (K × A)) : under key items = [] ↔ key ∉ items.map Prod.fst := by
  rw [under,List.map_eq_nil_iff,List.filter_eq_nil_iff]
  constructor
  · intro none inside
    obtain ⟨item,held,rfl⟩ := List.mem_map.mp inside
    exact none item held (by simp)
  · intro absent item held same
    exact absent (List.mem_map.mpr ⟨item,held,by simpa using same⟩)

theorem under_length (key : K) (items : List (K × A)) : (under key items).length = (items.map Prod.fst).count key := by
  rw [under,List.length_map,List.count,List.countP_map,List.countP_eq_length_filter]
  rfl

theorem collect_keys (items : List (K × A)) : (collect fresh next items).keys.Perm (items.map Prod.fst).dedup := by
  rw [List.perm_ext_iff_of_nodup (collect fresh next items).keys_nodup (List.nodup_dedup _)]
  intro key
  rw [← AList.mem_keys,← AList.lookup_isSome,collect_lookup,List.mem_dedup]
  have none := under_nil key items
  cases held : under key items with
  | nil => simp [entryOf,none.mp held]
  | cons first rest =>
    have present : key ∈ items.map Prod.fst := by
      by_contra absent
      rw [none.mpr absent] at held
      cases held
    simp [entryOf,present]

theorem values_lookup (table : KeyTable K V) : table.entries.map Sigma.snd = table.keys.filterMap table.lookup := by
  rw [AList.keys,List.keys,List.filterMap_map]
  have found : ∀ entry ∈ table.entries, (table.lookup ∘ Sigma.fst) entry = some entry.2 :=
    fun entry inside => AList.mem_lookup_iff.mpr inside
  rw [List.filterMap_congr found]
  exact (congrFun List.filterMap_eq_map _).symm

-- The values of the table, one for each key that occurs.
theorem collect_values (items : List (K × A)) : ((collect fresh next items).entries.map Sigma.snd).Perm
    ((items.map Prod.fst).dedup.filterMap (fun key => entryOf fresh next key (under key items))) := by
  rw [values_lookup]
  refine ((collect_keys fresh next items).filterMap _).trans (List.Perm.of_eq ?_)
  exact List.filterMap_congr fun key _ => collect_lookup fresh next items key

-- A number that each item adds one to adds up to the number of items.
theorem collect_total {size : V → Nat} (starts : ∀ key item, size (fresh key item) = 0) (grows : ∀ value, size (next value) = size value + 1)
    (items : List (K × A)) : (((collect fresh next items).entries.map Sigma.snd).map size).sum = items.length := by
  have iterated : ∀ (n : Nat) (value : V), size (next^[n] value) = size value + n := by
    intro n value
    induction n with
    | zero => rfl
    | succ n ih => rw [Function.iterate_succ_apply',grows,ih,Nat.add_assoc]
  have each : ((items.map Prod.fst).dedup.filterMap (fun key => entryOf fresh next key (under key items))).map size =
      (items.map Prod.fst).dedup.map (fun key => (items.map Prod.fst).count key) := by
    refine List.map_filterMap.trans ((List.filterMap_congr fun key inside => ?_).trans (congrFun List.filterMap_eq_map _))
    rw [List.mem_dedup] at inside
    rw [Function.comp_apply,← under_length]
    cases held : under key items with
    | nil => exact absurd inside ((under_nil key items).mp held)
    | cons first rest =>
      rw [entryOf,Option.map_some,iterated,starts,Nat.zero_add]
      rfl
  rw [((collect_values fresh next items).map size).sum_eq,each,List.sum_map_count_dedup_eq_length,List.length_map]

end Grouping
