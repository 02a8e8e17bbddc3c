import AegisHoneypot.Telemetry
import AegisHoneypot.Library.Text
import Mathlib.Algebra.Ring.Nat

-- `IpAddr::to_string`: four decimal octets, or eight groups of hexadecimal
-- digits of which the longest run of zeros is left out.
namespace AegisHoneypot.AddressText

def decimal (n : Nat) : Text := Nat.toDigits 10 n
def hexadecimal (n : Nat) : Text := Nat.toDigits 16 n

def v4Text (a b c d : UInt8) : Text :=
  Text.join "." [decimal a.toNat,decimal b.toNat,decimal c.toNat,decimal d.toNat]

def groups (half : UInt64) : List Nat :=
  [half.toNat/2^48,half.toNat/2^32 % 2^16,half.toNat/2^16 % 2^16,half.toNat % 2^16]

structure Span where
  start : Nat
  length : Nat
  deriving DecidableEq, Repr

-- One turn of the search for the longest run: the run that is open and the
-- longest so far.
def zeroStep (spans : Span × Span) (segment : Nat × Nat) : Span × Span :=
  if segment.1 = 0 then
    let current : Span := ⟨if spans.1.length = 0 then segment.2 else spans.1.start,spans.1.length+1⟩
    (current,if spans.2.length < current.length then current else spans.2)
  else (⟨0,0⟩,spans.2)

def longestZeros (segments : List Nat) : Span := (segments.zipIdx.foldl zeroStep (⟨0,0⟩,⟨0,0⟩)).2

def subslice (segments : List Nat) : Text := Text.join ":" (segments.map hexadecimal)

def segmentsText (segments : List Nat) : Text :=
  let zeroes := longestZeros segments
  if 1 < zeroes.length then
    subslice (segments.take zeroes.start) ++ "::".toList ++ subslice (segments.drop (zeroes.start+zeroes.length))
  else subslice segments

def isMapped (high low : UInt64) : Bool := high == 0 && low.toNat/2^32 == 0xffff

def toText : IpAddr → Text
  | .v4 a b c d => v4Text a b c d
  | .v6 high low =>
    if isMapped high low then "::ffff:".toList ++
      v4Text (UInt8.ofNat (low.toNat/2^24)) (UInt8.ofNat (low.toNat/2^16)) (UInt8.ofNat (low.toNat/2^8)) (UInt8.ofNat low.toNat)
    else segmentsText (groups high ++ groups low)

example : toText (.v6 0x20010db800000000 0x0000000000000001) = "2001:db8::1".toList := by decide
example : toText (.v6 0 0) = "::".toList := by decide
example : toText (.v6 0 0xffffc0000201) = "::ffff:192.0.2.1".toList := by decide

section Digits

theorem digitChar_injective (small : m < 16) (also : n < 16) (same : m.digitChar = n.digitChar) : m = n := by
  have all : ∀ i j : Fin 16, i.val.digitChar = j.val.digitChar → i = j := by decide
  exact congrArg Fin.val (all ⟨m,small⟩ ⟨n,also⟩ same)

-- Both bases at once: a numeral is that of the leading digits and the last one.
theorem toDigits_injective (two : 1 < base) (most : base ≤ 16) (same : Nat.toDigits base m = Nat.toDigits base n) : m = n := by
  induction m using Nat.strongRecOn generalizing n with
  | ind m ih =>
    have least : ∀ k, 0 < (Nat.toDigits base k).length := fun k => Nat.length_toDigits_pos
    by_cases small : m < base
    · by_cases also : n < base
      · rw [Nat.toDigits_of_lt_base small,Nat.toDigits_of_lt_base also] at same
        exact digitChar_injective (by omega) (by omega) (List.singleton_inj.mp same)
      · rw [Nat.toDigits_of_lt_base small,Nat.toDigits_of_base_le two (by omega)] at same
        have count := congrArg List.length same
        have positive := least (n/base)
        simp only [List.length_append,List.length_singleton] at count
        omega
    · by_cases also : n < base
      · rw [Nat.toDigits_of_lt_base also,Nat.toDigits_of_base_le two (by omega)] at same
        have count := congrArg List.length same
        have positive := least (m/base)
        simp only [List.length_append,List.length_singleton] at count
        omega
      · rw [Nat.toDigits_of_base_le two (show base ≤ m by omega),Nat.toDigits_of_base_le two (show base ≤ n by omega)] at same
        obtain ⟨leading,last⟩ := List.append_inj' same rfl
        have quotient := ih (m/base) (Nat.div_lt_self (by omega) two) leading
        have first := Nat.mod_lt m (show 0 < base by omega)
        have second := Nat.mod_lt n (show 0 < base by omega)
        have remainder := digitChar_injective (by omega) (by omega) (List.singleton_inj.mp last)
        rw [← Nat.div_add_mod m base,← Nat.div_add_mod n base,quotient,remainder]

theorem toDigits_digit (two : 1 < base) (member : c ∈ Nat.toDigits base n) : ∃ d, d < base ∧ c = d.digitChar := by
  induction n using Nat.strongRecOn with
  | ind n ih =>
    rw [Nat.toDigits_eq_if two] at member
    by_cases small : n < base
    · rw [if_pos small] at member
      exact ⟨n,small,List.mem_singleton.mp member⟩
    · rw [if_neg small] at member
      rcases List.mem_append.mp member with leading | last
      · exact ih (n/base) (Nat.div_lt_self (by omega) two) leading
      · exact ⟨n % base,Nat.mod_lt n (by omega),List.mem_singleton.mp last⟩

theorem digit_plain (small : d < 16) : d.digitChar ≠ ':' ∧ d.digitChar ≠ '.' := by
  have all : ∀ i : Fin 16, i.val.digitChar ≠ ':' ∧ i.val.digitChar ≠ '.' := by decide
  exact all ⟨d,small⟩

theorem numeral_plain (two : 1 < base) (most : base ≤ 16) : ':' ∉ Nat.toDigits base n ∧ '.' ∉ Nat.toDigits base n := by
  constructor
  · intro member
    obtain ⟨d,small,same⟩ := toDigits_digit two member
    exact (digit_plain (by omega)).1 same.symm
  · intro member
    obtain ⟨d,small,same⟩ := toDigits_digit two member
    exact (digit_plain (by omega)).2 same.symm

theorem decimal_plain : ':' ∉ decimal n ∧ '.' ∉ decimal n := numeral_plain (by decide) (by decide)

theorem hexadecimal_plain : ':' ∉ hexadecimal n ∧ '.' ∉ hexadecimal n := numeral_plain (by decide) (by decide)

theorem hexadecimal_injective (same : hexadecimal m = hexadecimal n) : m = n :=
  toDigits_injective (by decide) (by decide) same

theorem decimal_injective (same : decimal m = decimal n) : m = n := toDigits_injective (by decide) (by decide) same

end Digits

section Groups

def ZeroAt (segments : List Nat) (span : Span) : Prop :=
  ∀ place, span.start ≤ place → place < span.start+span.length → segments[place]? = some 0

def scan (segments : List Nat) : Span × Span := segments.zipIdx.foldl zeroStep (⟨0,0⟩,⟨0,0⟩)

structure Scanned (segments : List Nat) (spans : Span × Span) : Prop where
  current : ZeroAt segments spans.1
  longest : ZeroAt segments spans.2
  reaches : spans.1.length = 0 ∨ spans.1.start+spans.1.length = segments.length

theorem ZeroAt.append (zeros : ZeroAt segments span) (last : Nat) : ZeroAt (segments ++ [last]) span := by
  intro place from_ below
  have held := zeros place from_ below
  obtain ⟨bound,_⟩ := List.getElem?_eq_some_iff.mp held
  rw [List.getElem?_append_left bound]
  exact held

theorem scan_scanned (segments : List Nat) : Scanned segments (scan segments) := by
  induction segments using List.reverseRecOn with
  | nil => exact ⟨fun place from_ below => absurd below (by simp [scan]),fun place from_ below => absurd below (by simp [scan]),Or.inl rfl⟩
  | append_singleton segments last ih =>
    have next : scan (segments ++ [last]) = zeroStep (scan segments) (last,segments.length) := by
      simp [scan,List.zipIdx_append]
    rw [next]
    obtain ⟨current,longest,reaches⟩ := ih
    generalize scan segments = spans at current longest reaches ⊢
    unfold zeroStep
    by_cases zero : last = 0
    · subst zero
      have open_ : ZeroAt (segments ++ [0])
          ⟨if spans.1.length = 0 then segments.length else spans.1.start,spans.1.length+1⟩ := by
        intro place from_ below
        by_cases end_ : place = segments.length
        · subst end_
          simp
        · refine current.append 0 place ?_ ?_
          · dsimp only at from_ below
            split at from_ <;> split at below <;> omega
          · dsimp only at from_ below
            split at from_ <;> split at below <;> omega
      rw [if_pos rfl]
      refine ⟨open_,?_,?_⟩
      · dsimp only
        split
        · exact open_
        · exact longest.append 0
      · right
        simp only [List.length_append,List.length_singleton]
        split <;> omega
    · simp only [zero,if_false]
      exact ⟨fun place from_ below => absurd below (by simp),longest.append last,Or.inl rfl⟩

theorem longestZeros_zero (segments : List Nat) : ZeroAt segments (longestZeros segments) := (scan_scanned segments).longest

def side (segments : List Nat) : List Text := if segments = [] then [[]] else segments.map hexadecimal

theorem subslice_split (segments : List Nat) : Text.split ':' (subslice segments) = side segments := by
  unfold side
  split
  · rename_i empty
    subst empty
    rfl
  · rename_i some_
    refine Text.split_join rfl _ (by simpa using some_) ?_
    intro piece member
    obtain ⟨n,_,rfl⟩ := List.mem_map.mp member
    exact hexadecimal_plain.1

theorem hexadecimal_nonempty : [] ∉ List.map hexadecimal segments := by
  intro member
  obtain ⟨n,_,same⟩ := List.mem_map.mp member
  exact Nat.toDigits_ne_nil same

theorem side_injective (same : side left = side right) : left = right := by
  unfold side at same
  split at same
  · rename_i empty
    split at same
    · rename_i also
      rw [empty,also]
    · exact absurd (same ▸ List.mem_singleton.mpr rfl) hexadecimal_nonempty
  · split at same
    · exact absurd (same ▸ List.mem_singleton.mpr rfl) hexadecimal_nonempty
    · exact List.map_injective_iff.mpr (fun _ _ => hexadecimal_injective) same

-- The gap is behind the first empty piece, or between the first two.
theorem sides_injective (same : side left ++ [] :: side right = side other ++ [] :: side another) :
    left = other ∧ right = another := by
  have opened : ∀ {segments : List Nat} {rest : List Text}, segments ≠ [] → ∃ n more,
      side segments ++ rest = hexadecimal n :: more := by
    intro segments rest some_
    cases segments with
    | nil => exact absurd rfl some_
    | cons n more => exact ⟨n,more.map hexadecimal ++ rest,by simp [side]⟩
  by_cases empty : left = []
  · by_cases also : other = []
    · subst empty also
      exact ⟨rfl,side_injective (by simpa [side] using same)⟩
    · obtain ⟨n,more,shape⟩ := @opened other ([] :: side another) also
      rw [shape,empty] at same
      exact absurd (List.cons.inj same).1.symm Nat.toDigits_ne_nil
  · by_cases also : other = []
    · obtain ⟨n,more,shape⟩ := @opened left ([] :: side right) empty
      rw [shape,also] at same
      exact absurd (List.cons.inj same).1 Nat.toDigits_ne_nil
    · have ahead : ∀ {segments : List Nat} {rest : List Text}, segments ≠ [] →
          (side segments ++ [] :: rest).takeWhile (· ≠ []) = side segments := by
        intro segments rest some_
        rw [side,if_neg some_,List.takeWhile_append_of_pos]
        · simp
        · intro piece member
          have named : piece ≠ [] := fun blank => hexadecimal_nonempty (blank ▸ member)
          simpa using named
      have front := congrArg (List.takeWhile (· ≠ [])) same
      rw [ahead empty,ahead also] at front
      rw [front] at same
      exact ⟨side_injective front,side_injective (List.cons.inj (List.append_cancel_left same)).2⟩

theorem segmentsText_split (segments : List Nat) (some_ : segments ≠ []) : Text.split ':' (segmentsText segments) =
    if 1 < (longestZeros segments).length then side (segments.take (longestZeros segments).start) ++
      [] :: side (segments.drop ((longestZeros segments).start+(longestZeros segments).length))
    else segments.map hexadecimal := by
  unfold segmentsText
  dsimp only
  split
  · have pair : "::".toList = [':',':'] := rfl
    rw [List.append_assoc,pair,List.cons_append,List.singleton_append,Text.split,List.splitOn_append_cons_self]
    have behind : List.splitOn ':' (':' :: subslice (segments.drop ((longestZeros segments).start+(longestZeros segments).length))) =
        [] :: side (segments.drop ((longestZeros segments).start+(longestZeros segments).length)) := by
      rw [← subslice_split]
      exact List.splitOn_append_cons_self [] _
    have front := subslice_split (segments.take (longestZeros segments).start)
    rw [Text.split] at front
    rw [behind,front]
  · rw [subslice_split,side,if_neg some_]

-- What is left out is known again from how much of eight groups is there.
theorem segmentsText_injective (eight : left.length = 8) (also : right.length = 8)
    (same : segmentsText left = segmentsText right) : left = right := by
  have pieces := congrArg (Text.split ':') same
  have one : left ≠ [] := by
    intro empty
    simp [empty] at eight
  have two : right ≠ [] := by
    intro empty
    simp [empty] at also
  rw [segmentsText_split left one,segmentsText_split right two] at pieces
  have zeros := longestZeros_zero left
  have others := longestZeros_zero right
  generalize longestZeros left = gap at pieces zeros
  generalize longestZeros right = hole at pieces others
  split at pieces
  · rename_i long
    split at pieces
    · rename_i wide
      obtain ⟨front,back⟩ := sides_injective pieces
      have inside : gap.start+gap.length ≤ 8 := by
        obtain ⟨bound,_⟩ := List.getElem?_eq_some_iff.mp (zeros (gap.start+gap.length-1) (by omega) (by omega))
        omega
      have within : hole.start+hole.length ≤ 8 := by
        obtain ⟨bound,_⟩ := List.getElem?_eq_some_iff.mp (others (hole.start+hole.length-1) (by omega) (by omega))
        omega
      have start : gap.start = hole.start := by
        have count := congrArg List.length front
        rw [List.length_take,List.length_take] at count
        omega
      have length : gap.length = hole.length := by
        have count := congrArg List.length back
        rw [List.length_drop,List.length_drop] at count
        omega
      apply List.ext_getElem?
      intro place
      by_cases early : place < gap.start
      · have here := congrArg (fun taken => taken[place]?) front
        simpa [List.getElem?_take,early,← start] using here
      · by_cases inner : place < gap.start+gap.length
        · rw [zeros place (by omega) inner,others place (by omega) (by omega)]
        · have here := congrArg (fun dropped => dropped[place-(gap.start+gap.length)]?) back
          simp only [List.getElem?_drop] at here
          have first : gap.start+gap.length+(place-(gap.start+gap.length)) = place := by omega
          have second : hole.start+hole.length+(place-(gap.start+gap.length)) = place := by omega
          rwa [first,second] at here
    · exact absurd (pieces ▸ List.mem_append_right _ List.mem_cons_self) hexadecimal_nonempty
  · split at pieces
    · exact absurd (pieces ▸ List.mem_append_right _ List.mem_cons_self) hexadecimal_nonempty
    · exact List.map_injective_iff.mpr (fun _ _ => hexadecimal_injective) pieces

end Groups

theorem v4Text_injective (same : v4Text a b c d = v4Text e f g h) : a = e ∧ b = f ∧ c = g ∧ d = h := by
  have free : ∀ octets : List Nat, ∀ piece ∈ octets.map decimal, '.' ∉ piece := by
    intro octets piece member
    obtain ⟨n,_,rfl⟩ := List.mem_map.mp member
    exact decimal_plain.2
  have left := Text.split_join (show ".".toList = ['.'] from rfl) _ (by simp) (free [a.toNat,b.toNat,c.toNat,d.toNat])
  have right := Text.split_join (show ".".toList = ['.'] from rfl) _ (by simp) (free [e.toNat,f.toNat,g.toNat,h.toNat])
  have pieces := left.symm.trans ((congrArg (Text.split '.') same).trans right)
  simp only [List.map_cons,List.map_nil,List.cons.injEq,and_true] at pieces
  obtain ⟨first,second,third,fourth⟩ := pieces
  exact ⟨UInt8.toNat_inj.mp (decimal_injective first),UInt8.toNat_inj.mp (decimal_injective second),
    UInt8.toNat_inj.mp (decimal_injective third),UInt8.toNat_inj.mp (decimal_injective fourth)⟩

theorem v4Text_colon : ':' ∉ v4Text a b c d := by
  intro member
  rcases Text.join_mem _ member with between | ⟨piece,held,inside⟩
  · exact absurd between (by decide)
  · simp only [List.mem_cons,List.not_mem_nil,or_false] at held
    rcases held with rfl | rfl | rfl | rfl
    · exact decimal_plain.1 inside
    · exact decimal_plain.1 inside
    · exact decimal_plain.1 inside
    · exact decimal_plain.1 inside

theorem v4Text_dot : '.' ∈ v4Text a b c d := by
  simp [v4Text,Text.join]

theorem subslice_dot : '.' ∉ subslice segments := by
  intro member
  rcases Text.join_mem _ member with between | ⟨piece,held,inside⟩
  · exact absurd between (by decide)
  · obtain ⟨n,_,rfl⟩ := List.mem_map.mp held
    exact hexadecimal_plain.2 inside

theorem segmentsText_dot : '.' ∉ segmentsText segments := by
  unfold segmentsText
  dsimp only
  split
  · simp [subslice_dot]
  · exact subslice_dot

theorem segmentsText_colon (eight : segments.length = 8) : ':' ∈ segmentsText segments := by
  by_contra plain
  have single := List.splitOn_eq_singleton plain
  have some_ : segments ≠ [] := by
    intro empty
    simp [empty] at eight
  have pieces := (segmentsText_split segments some_).symm.trans single
  have count := congrArg List.length pieces
  split at count
  · have solid : ∀ part, 0 < (side part).length := by
      intro part
      unfold side
      split
      · simp
      · rename_i some_
        simpa [List.length_pos_iff] using some_
    have positive := solid (segments.drop ((longestZeros segments).start+(longestZeros segments).length))
    simp at count
    omega
  · simp [eight] at count

theorem groups_injective (same : groups left = groups right) : left = right := by
  simp only [groups,List.cons.injEq,and_true] at same
  obtain ⟨first,second,third,fourth⟩ := same
  apply UInt64.toNat_inj.mp
  omega

theorem mapped_injective (mapped : isMapped high low = true) (also : isMapped top bottom = true)
    (same : UInt8.ofNat (low.toNat/2^24) = UInt8.ofNat (bottom.toNat/2^24) ∧ UInt8.ofNat (low.toNat/2^16) = UInt8.ofNat (bottom.toNat/2^16) ∧
      UInt8.ofNat (low.toNat/2^8) = UInt8.ofNat (bottom.toNat/2^8) ∧ UInt8.ofNat low.toNat = UInt8.ofNat bottom.toNat) :
    high = top ∧ low = bottom := by
  simp only [isMapped,Bool.and_eq_true,beq_iff_eq] at mapped also
  refine ⟨mapped.1.trans also.1.symm,?_⟩
  obtain ⟨first,second,third,fourth⟩ := same
  have one := congrArg UInt8.toNat first
  have two := congrArg UInt8.toNat second
  have three := congrArg UInt8.toNat third
  have four := congrArg UInt8.toNat fourth
  simp only [UInt8.toNat_ofNat'] at one two three four
  have upper := mapped.2
  have lower := also.2
  apply UInt64.toNat_inj.mp
  omega

theorem toText_v6_colon (high low : UInt64) : ':' ∈ toText (.v6 high low) := by
  simp only [toText]
  split
  · exact List.mem_append_left _ (by decide)
  · exact segmentsText_colon rfl

theorem toText_injective (same : toText ip = toText other) : ip = other := by
  cases ip with
  | v4 a b c d =>
    cases other with
    | v4 e f g h =>
      obtain ⟨rfl,rfl,rfl,rfl⟩ := v4Text_injective same
      rfl
    | v6 high low => exact absurd (same ▸ toText_v6_colon high low) v4Text_colon
  | v6 high low =>
    cases other with
    | v4 a b c d => exact absurd (same ▸ toText_v6_colon high low) v4Text_colon
    | v6 top bottom =>
      simp only [toText] at same
      split at same
      · rename_i mapped
        split at same
        · rename_i also
          obtain ⟨rfl,rfl⟩ := mapped_injective mapped also (v4Text_injective (List.append_cancel_left same))
          rfl
        · exact absurd (same ▸ List.mem_append_right _ v4Text_dot) segmentsText_dot
      · split at same
        · exact absurd (same ▸ List.mem_append_right _ v4Text_dot) segmentsText_dot
        · have all := segmentsText_injective rfl rfl same
          obtain ⟨front,back⟩ := List.append_inj all rfl
          rw [groups_injective front,groups_injective back]

end AegisHoneypot.AddressText
