import Mathlib.Data.List.AList

-- Hash maps and ordered maps, as finite tables with one entry for each key.
-- The iteration order of a table carries no meaning: a result about a table
-- speaks of its lookups, its keys and its length only.
abbrev KeyTable (K V : Type) := AList (fun _ : K => V)

namespace AList

def len (table : KeyTable K V) : Nat := table.entries.length

def retain (table : KeyTable K V) (keep : K → V → Bool) : KeyTable K V :=
  ⟨table.entries.filter (fun entry => keep entry.1 entry.2),table.nodupKeys.sublist List.filter_sublist⟩

theorem len_keys (table : KeyTable K V) : table.len = table.keys.length := by
  simp [len,AList.keys,List.keys]

theorem retain_all (table : KeyTable K V) (keep : K → V → Bool)
    (all : ∀ entry ∈ table.entries, keep entry.1 entry.2 = true) : table.retain keep = table := by
  apply AList.ext
  exact List.filter_eq_self.mpr all

variable [DecidableEq K]

-- An in-place update through a mutable reference: an absent key stays absent.
def modify (table : KeyTable K V) (key : K) (update : V → V) : KeyTable K V :=
  match table.lookup key with
  | none => table
  | some value => table.insert key (update value)

theorem lookup_retain (table : KeyTable K V) (keep : K → V → Bool) (key : K) :
    (table.retain keep).lookup key = (table.lookup key).filter (keep key) := by
  apply Option.ext
  intro value
  change value ∈ (table.retain keep).lookup key ↔ _
  rw [mem_lookup_iff,Option.filter_eq_some_iff]
  change _ ↔ value ∈ table.lookup key ∧ _
  rw [mem_lookup_iff]
  simp [retain]

theorem lookup_insert_split (table : KeyTable K V) (key other : K) (value : V) :
    (table.insert key value).lookup other = if other = key then some value else table.lookup other := by
  by_cases same : other = key
  · subst other; simp
  · simp [same,lookup_insert_ne same]

theorem lookup_erase_split (table : KeyTable K V) (key other : K) :
    (table.erase key).lookup other = if other = key then none else table.lookup other := by
  by_cases same : other = key
  · subst other; simp
  · simp [same,lookup_erase_ne same]

theorem lookup_modify (table : KeyTable K V) (key other : K) (update : V → V) :
    (table.modify key update).lookup other =
      if other = key then (table.lookup key).map update else table.lookup other := by
  unfold modify
  cases found : table.lookup key with
  | none =>
    by_cases same : other = key
    · subst other; simp [found]
    · simp [same]
  | some value => simp [lookup_insert_split]

theorem mem_modify (table : KeyTable K V) (key other : K) (update : V → V) :
    other ∈ table.modify key update ↔ other ∈ table := by
  unfold modify
  cases found : table.lookup key with
  | none => rfl
  | some value =>
    have present : key ∈ table := lookup_isSome.mp (by simp [found])
    rw [mem_insert]
    constructor
    · intro either
      rcases either with rfl | old
      · exact present
      · exact old
    · exact Or.inr

theorem len_insert_present (table : KeyTable K V) (key : K) (value : V) (present : key ∈ table) :
    (table.insert key value).len = table.len := by
  have held : key ∈ table.keys := mem_keys.mp present
  rw [len_keys,len_keys,keys_insert,List.length_cons,List.length_erase_of_mem held]
  have := List.length_pos_of_mem held
  omega

theorem len_insert_fresh (table : KeyTable K V) (key : K) (value : V) (fresh : key ∉ table) :
    (table.insert key value).len = table.len + 1 := by
  simp [len,insert_of_notMem fresh]

theorem len_erase_present (table : KeyTable K V) (key : K) (present : key ∈ table) :
    (table.erase key).len = table.len - 1 := by
  rw [len_keys,len_keys,keys_erase,List.length_erase_of_mem (mem_keys.mp present)]

end AList
