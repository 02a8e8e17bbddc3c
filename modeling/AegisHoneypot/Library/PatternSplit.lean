import AegisHoneypot.Library.Pattern
import Mathlib.Data.List.Forall2

-- Searching a text in pieces. A pattern that takes no separator finds in a text
-- what it finds in the parts between the separators.
namespace Pattern

-- The fewest characters that a match has.
def least : Pattern → Nat
  | one _ => 1
  | seq first second => first.least+second.least
  | alt left right => min left.least right.least
  | times count body => count*body.least
  | upTo _ _ => 0
  | many _ => 0
  | boundary => 0

-- No match has the separator in it, and a word ends at one as at the end of text.
def Avoids (separator : Char) : Pattern → Prop
  | one accepts => accepts separator = false
  | seq first second => first.Avoids separator ∧ second.Avoids separator
  | alt left right => left.Avoids separator ∧ right.Avoids separator
  | times _ body => body.Avoids separator
  | upTo _ body => body.Avoids separator
  | many body => body.Avoids separator ∧ 0 < body.least
  | boundary => isWord separator = false

theorem inOrder_avoids (plain : isWord separator = false) (parts : List Pattern)
    (every : ∀ part ∈ parts, part.Avoids separator) : (inOrder parts).Avoids separator := by
  induction parts with
  | nil => exact plain
  | cons part rest ih =>
    obtain ⟨first,later⟩ := List.forall_mem_cons.mp every
    exact ⟨first,ih later⟩

theorem word_avoids (plain : isWord separator = false) (text : String) (absent : separator ∉ text.toList) :
    (word text).Avoids separator := by
  unfold word
  generalize text.toList = characters at absent ⊢
  induction characters with
  | nil => exact plain
  | cons c rest ih =>
    obtain ⟨other,later⟩ := not_or.mp (mt List.mem_cons.mpr absent)
    exact ⟨beq_eq_false_iff_ne.mpr other,ih later⟩

theorem exactly_least (turn : Cursor → List Cursor) (k : Nat)
    (step : ∀ cursor, ∀ stop ∈ turn cursor, stop.rest.length+k ≤ cursor.rest.length) (count : Nat) (cursor : Cursor) :
    ∀ stop ∈ exactly turn count cursor, stop.rest.length+count*k ≤ cursor.rest.length := by
  induction count generalizing cursor with
  | zero =>
    intro stop member
    rw [List.mem_singleton.mp member]
    omega
  | succ count ih =>
    intro stop member
    obtain ⟨middle,taken,later⟩ := List.mem_flatMap.mp member
    have first := step cursor middle taken
    have rest := ih middle stop later
    rw [Nat.succ_mul]
    omega

theorem atMost_shrinks (turn : Cursor → List Cursor)
    (step : ∀ cursor, ∀ stop ∈ turn cursor, stop.rest.length ≤ cursor.rest.length) (limit : Nat) (cursor : Cursor) :
    ∀ stop ∈ atMost turn limit cursor, stop.rest.length ≤ cursor.rest.length := by
  induction limit generalizing cursor with
  | zero =>
    intro stop member
    rw [List.mem_singleton.mp member]
  | succ limit ih =>
    intro stop member
    rcases List.mem_append.mp member with taken | last
    · obtain ⟨middle,first,later⟩ := List.mem_flatMap.mp taken
      exact (ih middle stop later).trans (step cursor middle first)
    · rw [List.mem_singleton.mp last]

theorem ends_least (pattern : Pattern) (cursor : Cursor) :
    ∀ stop ∈ pattern.ends cursor, stop.rest.length+pattern.least ≤ cursor.rest.length := by
  induction pattern generalizing cursor with
  | one accepts =>
    intro stop member
    unfold ends at member
    cases rest : cursor.rest with
    | nil =>
      rw [rest] at member
      cases member
    | cons c text =>
      rw [rest] at member
      dsimp only at member
      split at member
      · rw [List.mem_singleton.mp member]
        exact Nat.le_refl _
      · cases member
  | seq first second left right =>
    intro stop member
    obtain ⟨middle,taken,later⟩ := List.mem_flatMap.mp member
    have before := left cursor middle taken
    have after := right middle stop later
    unfold least
    omega
  | alt first second left right =>
    intro stop member
    unfold least
    rcases List.mem_append.mp member with taken | taken
    · have bound := left cursor stop taken
      omega
    · have bound := right cursor stop taken
      omega
  | times count body ih => exact exactly_least body.ends body.least ih count cursor
  | upTo limit body ih =>
    exact atMost_shrinks body.ends (fun cursor stop member => (Nat.le_add_right _ _).trans (ih cursor stop member)) limit cursor
  | many body ih =>
    exact atMost_shrinks body.ends (fun cursor stop member => (Nat.le_add_right _ _).trans (ih cursor stop member)) _ cursor
  | boundary =>
    intro stop member
    unfold ends at member
    split at member
    · rw [List.mem_singleton.mp member]
      exact Nat.le_refl _
    · cases member

-- More turns than there are characters change nothing.
theorem atMost_enough (turn : Cursor → List Cursor)
    (step : ∀ cursor, ∀ stop ∈ turn cursor, stop.rest.length < cursor.rest.length) (cursor : Cursor) (limit : Nat)
    (enough : cursor.rest.length ≤ limit) : atMost turn limit cursor = atMost turn cursor.rest.length cursor := by
  generalize size : cursor.rest.length = n at enough
  induction n using Nat.strongRecOn generalizing cursor limit with
  | _ n ih =>
    cases n with
    | zero =>
      have stuck : turn cursor = [] := List.eq_nil_iff_forall_not_mem.mpr (fun stop member => by
        have shorter := step cursor stop member
        omega)
      cases limit with
      | zero => rfl
      | succ limit =>
        change (turn cursor).flatMap _ ++ [cursor] = [cursor]
        rw [stuck]
        rfl
    | succ n =>
      cases limit with
      | zero => omega
      | succ limit =>
        rw [atMost,atMost]
        congr 1
        refine List.flatMap_congr (fun stop member => ?_)
        have shorter := step cursor stop member
        have fewer := ih stop.rest.length (by omega) stop limit rfl (by omega)
        have fewest := ih stop.rest.length (by omega) stop n rfl (by omega)
        exact fewer.trans fewest.symm

-- The same place in a text and in a longer one.
structure Continues (tail : Text) (short long : Cursor) : Prop where
  rest : long.rest = short.rest ++ tail
  side : long.before.any isWord = short.before.any isWord

-- What follows the text is nothing, or starts with the separator.
def Starts (separator : Char) (tail : Text) : Prop := ∀ c, tail.head? = some c → c = separator

section Continued
variable {separator : Char} {tail : Text}

theorem exactly_continues (turn : Cursor → List Cursor)
    (step : ∀ short long, Continues tail short long → List.Forall₂ (Continues tail) (turn short) (turn long)) (count : Nat) :
    ∀ short long, Continues tail short long → List.Forall₂ (Continues tail) (exactly turn count short) (exactly turn count long) := by
  induction count with
  | zero => exact fun short long same => .cons same .nil
  | succ count ih =>
    intro short long same
    exact List.rel_flatMap (step short long same) (fun short long same => ih short long same)

theorem atMost_continues (turn : Cursor → List Cursor)
    (step : ∀ short long, Continues tail short long → List.Forall₂ (Continues tail) (turn short) (turn long)) (limit : Nat) :
    ∀ short long, Continues tail short long → List.Forall₂ (Continues tail) (atMost turn limit short) (atMost turn limit long) := by
  induction limit with
  | zero => exact fun short long same => .cons same .nil
  | succ limit ih =>
    intro short long same
    exact List.rel_append (List.rel_flatMap (step short long same) (fun short long same => ih short long same)) (.cons same .nil)

theorem one_continues (accepts : Char → Bool) (avoids : accepts separator = false) (starts : Starts separator tail)
    (same : Continues tail short long) : List.Forall₂ (Continues tail) ((one accepts).ends short) ((one accepts).ends long) := by
  obtain ⟨before,rest⟩ := short
  obtain ⟨after,whole⟩ := long
  obtain ⟨text,_⟩ := same
  dsimp only at text
  subst text
  cases rest with
  | nil =>
    cases tail with
    | nil => exact .nil
    | cons c more =>
      have stop : c = separator := starts c rfl
      subst stop
      simp only [ends,List.nil_append,avoids]
      exact .nil
  | cons c rest =>
    simp only [ends,List.cons_append]
    split
    · exact .cons ⟨rfl,rfl⟩ .nil
    · exact .nil

theorem boundary_continues (avoids : isWord separator = false) (starts : Starts separator tail)
    (same : Continues tail short long) : List.Forall₂ (Continues tail) (boundary.ends short) (boundary.ends long) := by
  have next : long.rest.head?.any isWord = short.rest.head?.any isWord := by
    rw [same.rest]
    cases short.rest with
    | nil =>
      cases found : tail.head? with
      | none => simp [found]
      | some c => simp [found,starts c found,avoids]
    | cons c rest => rfl
  have agree : long.atBoundary = short.atBoundary := by
    unfold Cursor.atBoundary
    rw [same.side,next]
  unfold ends
  rw [agree]
  split
  · exact .cons same .nil
  · exact .nil

theorem ends_continues (pattern : Pattern) (avoids : pattern.Avoids separator) (starts : Starts separator tail) :
    ∀ short long, Continues tail short long → List.Forall₂ (Continues tail) (pattern.ends short) (pattern.ends long) := by
  induction pattern with
  | one accepts => exact fun short long same => one_continues accepts avoids starts same
  | seq first second left right =>
    intro short long same
    exact List.rel_flatMap (left avoids.1 short long same) (fun short long same => right avoids.2 short long same)
  | alt first second left right =>
    intro short long same
    exact List.rel_append (left avoids.1 short long same) (right avoids.2 short long same)
  | times count body ih => exact exactly_continues body.ends (ih avoids) count
  | upTo limit body ih => exact atMost_continues body.ends (ih avoids) limit
  | many body ih =>
    intro short long same
    have shrinks : ∀ cursor, ∀ stop ∈ body.ends cursor, stop.rest.length < cursor.rest.length := fun cursor stop member => by
      have bound := ends_least body cursor stop member
      have some_ := avoids.2
      omega
    have longer : short.rest.length ≤ long.rest.length := by
      rw [same.rest,List.length_append]
      omega
    have turns := atMost_continues body.ends (ih avoids.1) long.rest.length short long same
    rwa [atMost_enough body.ends shrinks short _ longer] at turns
  | boundary => exact fun short long same => boundary_continues avoids starts same

end Continued

theorem scan_next (pattern : Pattern) (before : Option Char) (c : Char) (rest : Text)
    (none_ : pattern.ends ⟨before,c :: rest⟩ = []) : scan pattern before 0 (c :: rest) = scan pattern (some c) 0 rest := by
  rw [scan,none_]

section Search
variable {separator : Char} (pattern : Pattern) (avoids : pattern.Avoids separator) (solid : 0 < pattern.least)
include avoids

-- What the search does at one place, in a text and in a longer one.
theorem first_continues (starts : Starts separator tail) (same : Continues tail short long) :
    (pattern.ends short = [] ∧ pattern.ends long = []) ∨ ∃ stop others stop' others',
      pattern.ends short = stop :: others ∧ pattern.ends long = stop' :: others' ∧ stop'.rest = stop.rest ++ tail := by
  have related := ends_continues pattern avoids starts short long same
  cases left : pattern.ends short with
  | nil =>
    rw [left,List.forall₂_nil_left_iff] at related
    exact Or.inl ⟨rfl,related⟩
  | cons stop others =>
    rw [left,List.forall₂_cons_left_iff] at related
    obtain ⟨stop',others',agree,_,right⟩ := related
    exact Or.inr ⟨stop,others,stop',others',rfl,right,agree.rest⟩

theorem scan_side (text : Text) (before after : Option Char) (skip : Nat) (side : after.any isWord = before.any isWord) :
    scan pattern after skip text = scan pattern before skip text := by
  cases text with
  | nil => rfl
  | cons c rest =>
    cases skip with
    | succ skip => rfl
    | zero =>
      have same : Continues [] ⟨before,c :: rest⟩ ⟨after,c :: rest⟩ := ⟨(List.append_nil _).symm,side⟩
      have starts : Starts separator [] := fun c found => by cases found
      unfold scan
      rcases first_continues pattern avoids starts same with ⟨left,right⟩ | ⟨stop,others,stop',others',left,right,agree⟩
      · rw [left,right]
      · rw [left,right]
        dsimp only
        rw [agree,List.append_nil]

include solid

omit avoids in
theorem ends_none (before : Option Char) : pattern.ends ⟨before,[]⟩ = [] := by
  apply List.eq_nil_iff_forall_not_mem.mpr
  intro stop member
  have bound := ends_least pattern ⟨before,[]⟩ stop member
  simp only [List.length_nil] at bound
  omega

-- The search starts afresh behind a separator.
theorem scan_separated (text rest : Text) (before : Option Char) (skip : Nat) (within : skip ≤ text.length) :
    scan pattern before skip (text ++ separator :: rest) =
      scan pattern before skip text ++ scan pattern (some separator) 0 rest := by
  have starts : Starts separator (separator :: rest) := fun c found => (Option.some.inj found).symm
  induction text generalizing before skip with
  | nil =>
    have zero : skip = 0 := Nat.le_zero.mp within
    subst zero
    have same : Continues (separator :: rest) ⟨before,[]⟩ ⟨before,separator :: rest⟩ := ⟨rfl,rfl⟩
    rcases first_continues pattern avoids starts same with ⟨_,none_⟩ | ⟨stop,others,_,_,found,_,_⟩
    · exact scan_next pattern before separator rest none_
    · rw [ends_none pattern solid] at found
      cases found
  | cons c text ih =>
    cases skip with
    | succ skip => exact ih (some c) skip (Nat.le_of_succ_le_succ within)
    | zero =>
      have same : Continues (separator :: rest) ⟨before,c :: text⟩ ⟨before,c :: (text ++ separator :: rest)⟩ := ⟨rfl,rfl⟩
      rw [List.cons_append]
      rcases first_continues pattern avoids starts same with ⟨left,right⟩ | ⟨stop,others,stop',others',left,right,agree⟩
      · rw [scan_next pattern before c _ left,scan_next pattern before c _ right]
        exact ih (some c) 0 (Nat.zero_le _)
      · have bound := ends_least pattern ⟨before,c :: text⟩ stop (by rw [left]; exact List.mem_cons_self)
        rw [List.length_cons] at bound
        have length : (text ++ separator :: rest).length+1-stop'.rest.length = text.length+1-stop.rest.length := by
          rw [agree,List.length_append,List.length_append]
          omega
        have taken : (c :: (text ++ separator :: rest)).take (text.length+1-stop.rest.length) =
            (c :: text).take (text.length+1-stop.rest.length) := by
          rw [← List.cons_append,List.take_append_of_le_length]
          rw [List.length_cons]
          omega
        rw [scan,scan,left,right]
        dsimp only
        rw [length,taken,ih (some c) _ (by omega)]
        rfl

theorem findIter_separated (plain : isWord separator = false) (text rest : Text) :
    findIter pattern (text ++ separator :: rest) = findIter pattern text ++ findIter pattern rest := by
  unfold findIter
  rw [scan_separated pattern avoids solid text rest none 0 (Nat.zero_le _),
    scan_side pattern avoids rest none (some separator) 0 (by simpa using plain)]

theorem findIter_join (plain : isWord separator = false) {mark : String} (single : mark.toList = [separator])
    (pieces : List Text) : findIter pattern (Text.join mark pieces) = pieces.flatMap (findIter pattern) := by
  induction pieces with
  | nil => rfl
  | cons first rest ih =>
    cases rest with
    | nil => exact (List.append_nil _).symm
    | cons second later =>
      rw [Text.join,single,List.append_assoc,List.singleton_append,findIter_separated pattern avoids solid plain,ih]
      · rfl
      · exact fun none_ => List.cons_ne_nil _ _ none_

omit avoids solid

-- A match does not fit in a text shorter than the shortest one.
theorem scan_short (text : Text) (short : text.length < pattern.least) (before : Option Char) (skip : Nat) :
    scan pattern before skip text = [] := by
  induction text generalizing before skip with
  | nil => rfl
  | cons c rest ih =>
    rw [List.length_cons] at short
    cases skip with
    | succ skip => exact ih (by omega) (some c) skip
    | zero =>
      have none_ : pattern.ends ⟨before,c :: rest⟩ = [] := by
        apply List.eq_nil_iff_forall_not_mem.mpr
        intro stop member
        have bound := ends_least pattern ⟨before,c :: rest⟩ stop member
        rw [List.length_cons] at bound
        omega
      rw [scan_next pattern before c rest none_]
      exact ih (by omega) (some c) 0

end Search
end Pattern
