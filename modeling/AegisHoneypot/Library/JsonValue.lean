import AegisHoneypot.Library.Json

-- JSON values as `serde_json` prints them, without blanks, and reads them: text
-- in Rust strings, numbers as they stand, a limit on the nesting.
namespace Json
open Utf16Text

structure Literal where
  text : Text
  valid : isNumber text = true

mutual
inductive Value where
  | null
  | bool (value : Bool)
  | number (literal : Literal)
  | string (text : Text)
  | array (items : Items)
  | object (members : Members)
inductive Items where
  | nil
  | cons (item : Value) (rest : Items)
inductive Members where
  | nil
  | cons (key : Text) (value : Value) (rest : Members)
end

-- What stands behind the first item or member is printed with the bracket that
-- closes it.
mutual
def Value.print : Value → Text
  | .null => "null".toList
  | .bool true => "true".toList
  | .bool false => "false".toList
  | .number literal => literal.text
  | .string text => quote text
  | .array .nil => ['[',']']
  | .array (.cons item rest) => '[' :: (item.print ++ rest.print)
  | .object .nil => ['\x7b','\x7d']
  | .object (.cons key value rest) => '\x7b' :: (quote key ++ ':' :: (value.print ++ rest.print))
def Items.print : Items → Text
  | .nil => [']']
  | .cons item rest => ',' :: (item.print ++ rest.print)
def Members.print : Members → Text
  | .nil => ['\x7d']
  | .cons key value rest => ',' :: (quote key ++ ':' :: (value.print ++ rest.print))
end

mutual
def Value.nesting : Value → Nat
  | .array items => items.nesting+1
  | .object members => members.nesting+1
  | _ => 0
def Items.nesting : Items → Nat
  | .nil => 0
  | .cons item rest => max item.nesting rest.nesting
def Members.nesting : Members → Nat
  | .nil => 0
  | .cons _ value rest => max value.nesting rest.nesting
end

def isBlank (c : Char) : Bool := c == ' ' || c == '\n' || c == '\t' || c == '\r'

def skip (text : Text) : Text := text.dropWhile isBlank

-- A string literal as a Rust string: a surrogate that stands alone is an error.
def readText (text : Text) : Option (Text × Text) :=
  (readString text).bind fun read => (fromUtf16 read.1).map fun decoded => (decoded,read.2)

def readWord : Text → Text → Option Text
  | [],text => some text
  | letter :: word,c :: rest => if c = letter then readWord word rest else none
  | _ :: _,[] => none

def readLiteral (text : Text) : Option (Literal × Text) :=
  if valid : isNumber (text.takeWhile isNumberChar) = true then some (⟨_,valid⟩,text.dropWhile isNumberChar) else none

def readKey (text : Text) : Option (Text × Text) :=
  (readMark '"' (skip text)).bind fun rest => (readText rest).bind fun key =>
  (readMark ':' (skip key.2)).map fun rest => (key.1,rest)

-- `depth` is what is left of the nesting; `fuel` bounds the calls, each of which
-- reads a character.
mutual
def readValue : Nat → Nat → Text → Option (Value × Text)
  | 0,_,_ => none
  | fuel+1,depth,text => match skip text with
    | [] => none
    | c :: rest =>
      if c = 'n' then (readWord "ull".toList rest).map fun rest => (.null,rest)
      else if c = 't' then (readWord "rue".toList rest).map fun rest => (.bool true,rest)
      else if c = 'f' then (readWord "alse".toList rest).map fun rest => (.bool false,rest)
      else if c = '"' then (readText rest).map fun read => (.string read.1,read.2)
      else if c = '[' then
        if depth ≤ 1 then none else match readMark ']' (skip rest) with
        | some rest => some (.array .nil,rest)
        | none => (readValue fuel (depth-1) rest).bind fun item =>
          (readItems fuel (depth-1) item.2).map fun more => (.array (.cons item.1 more.1),more.2)
      else if c = '\x7b' then
        if depth ≤ 1 then none else match readMark '\x7d' (skip rest) with
        | some rest => some (.object .nil,rest)
        | none => (readKey rest).bind fun key => (readValue fuel (depth-1) key.2).bind fun value =>
          (readMembers fuel (depth-1) value.2).map fun more => (.object (.cons key.1 value.1 more.1),more.2)
      else (readLiteral (c :: rest)).map fun read => (.number read.1,read.2)
def readItems : Nat → Nat → Text → Option (Items × Text)
  | 0,_,_ => none
  | fuel+1,depth,text => match skip text with
    | [] => none
    | c :: rest =>
      if c = ']' then some (.nil,rest)
      else if c = ',' then (readValue fuel depth rest).bind fun item =>
        (readItems fuel depth item.2).map fun more => (.cons item.1 more.1,more.2)
      else none
def readMembers : Nat → Nat → Text → Option (Members × Text)
  | 0,_,_ => none
  | fuel+1,depth,text => match skip text with
    | [] => none
    | c :: rest =>
      if c = '\x7d' then some (.nil,rest)
      else if c = ',' then (readKey rest).bind fun key => (readValue fuel depth key.2).bind fun value =>
        (readMembers fuel depth value.2).map fun more => (.cons key.1 value.1 more.1,more.2)
      else none
end

-- `remaining_depth` of a fresh `Deserializer`
def recursionLimit : Nat := 128

def parse (text : Text) : Option Value :=
  (readValue (text.length+1) recursionLimit text).bind fun read => if skip read.2 = [] then some read.1 else none

theorem readText_quoted (text rest : Text) : readText (escape text ++ '"' :: rest) = some (text,rest) := by
  rw [readText,readString_escape,Option.bind_some,fromUtf16_ofText]
  rfl

theorem skip_plain (rest : Text) (plain : isBlank c = false) : skip (c :: rest) = c :: rest := by
  rw [skip,List.dropWhile_cons_of_neg (by simp [plain])]

theorem readKey_quoted (key rest : Text) : readKey (quote key ++ ':' :: rest) = some (key,rest) := by
  have mark : skip (quote key ++ ':' :: rest) = '"' :: (escape key ++ '"' :: (':' :: rest)) := by
    simp only [quote,List.cons_append,List.append_assoc,List.nil_append]
    exact skip_plain _ (by decide)
  rw [readKey,mark]
  simp only [readMark,if_true,Option.bind_some,readText_quoted,skip_plain rest (show isBlank ':' = false by decide),
    Option.map_some]

-- What may stand behind a number.
def Closes (rest : Text) : Prop := ∀ c later, rest = c :: later → isNumberChar c = false

theorem closes_cons (closing : isNumberChar c = false) : Closes (c :: rest) := by
  intro d later same
  rw [← (List.cons.inj same).1]
  exact closing

theorem readLiteral_print (literal : Literal) (rest : Text) (closes : Closes rest) :
    readLiteral (literal.text ++ rest) = some (literal,rest) := by
  have taken : (literal.text ++ rest).takeWhile isNumberChar = literal.text ∧
      (literal.text ++ rest).dropWhile isNumberChar = rest := by
    have chars := isNumber_chars literal.text literal.valid
    cases rest with
    | nil =>
      rw [List.append_nil]
      have all := List.all_eq_true.mp chars
      exact ⟨List.takeWhile_eq_self_iff.mpr all,List.dropWhile_eq_nil_iff.mpr all⟩
    | cons c later => exact takeWhile_stops isNumberChar literal.text later chars (closes c later rfl)
  have valid : isNumber ((literal.text ++ rest).takeWhile isNumberChar) = true := by
    rw [taken.1]
    exact literal.valid
  rw [readLiteral,dif_pos valid,taken.2]
  congr 2
  obtain ⟨text,_⟩ := literal
  simp only [taken.1]

theorem literal_head (literal : Literal) : ∃ c rest, literal.text = c :: rest ∧ isNumberChar c = true := by
  have chars := isNumber_chars literal.text literal.valid
  cases same : literal.text with
  | nil =>
    have valid := literal.valid
    rw [same] at valid
    cases valid
  | cons c rest =>
    rw [same,List.all_cons,Bool.and_eq_true] at chars
    exact ⟨c,rest,rfl,chars.1⟩

theorem numberChar_plain (number : isNumberChar c = true) :
    isBlank c = false ∧ c ≠ 'n' ∧ c ≠ 't' ∧ c ≠ 'f' ∧ c ≠ '"' ∧ c ≠ '[' ∧ c ≠ '\x7b' := by
  refine ⟨?_,?_,?_,?_,?_,?_,?_⟩
  · cases blank : isBlank c with
    | false => rfl
    | true =>
      simp only [isBlank,Bool.or_eq_true,beq_iff_eq] at blank
      rcases blank with ((rfl | rfl) | rfl) | rfl <;> exact absurd number (by decide)
  all_goals
    rintro rfl
    exact absurd number (by decide)

-- The first character of a value tells it from a closing bracket.
theorem print_head (value : Value) : ∃ c rest, value.print = c :: rest ∧ isBlank c = false ∧ c ≠ ']' := by
  cases value with
  | null => exact ⟨_,_,rfl,by decide,by decide⟩
  | bool value => cases value <;> exact ⟨_,_,rfl,by decide,by decide⟩
  | number literal =>
    obtain ⟨c,rest,same,number⟩ := literal_head literal
    refine ⟨c,rest,same,(numberChar_plain number).1,?_⟩
    rintro rfl
    exact absurd number (by decide)
  | string text => exact ⟨_,_,rfl,by decide,by decide⟩
  | array items => cases items <;> exact ⟨_,_,rfl,by decide,by decide⟩
  | object members => cases members <;> exact ⟨_,_,rfl,by decide,by decide⟩

theorem items_close (items : Items) (rest : Text) : 0 < items.print.length ∧ Closes (items.print ++ rest) := by
  cases items <;> exact ⟨Nat.succ_pos _,closes_cons (by decide)⟩

theorem members_close (members : Members) (rest : Text) : 0 < members.print.length ∧ Closes (members.print ++ rest) := by
  cases members <;> exact ⟨Nat.succ_pos _,closes_cons (by decide)⟩

theorem skip_value (value : Value) (rest : Text) : skip (value.print ++ rest) = value.print ++ rest := by
  obtain ⟨c,later,same,plain,_⟩ := print_head value
  rw [same,List.cons_append,skip_plain _ plain]

theorem skip_key (key rest : Text) : skip (quote key ++ rest) = quote key ++ rest := skip_plain _ (by decide)

-- What a value printed stands for is read back, and what follows it is left.
-- The recursion is that of the value; each part of it is shorter as text.
mutual
theorem readValue_print (value : Value) (fuel depth : Nat) (rest : Text) (fuelled : value.print.length < fuel)
    (room : value.nesting < depth) (closes : Closes rest) :
    readValue fuel depth (value.print ++ rest) = some (value,rest) := by
  cases fuel with
  | zero => exact absurd fuelled (Nat.not_lt_zero _)
  | succ fuel =>
    rw [readValue,skip_value]
    cases value with
    | null => rfl
    | bool value => cases value <;> rfl
    | number literal =>
      obtain ⟨c,later,same,number⟩ := literal_head literal
      obtain ⟨_,n,t,f,mark,bracket,brace⟩ := numberChar_plain number
      have read := readLiteral_print literal rest closes
      simp only [Value.print,same,List.cons_append] at read ⊢
      rw [if_neg n,if_neg t,if_neg f,if_neg mark,if_neg bracket,if_neg brace,read]
      rfl
    | string text =>
      have read := readText_quoted text rest
      simp only [Value.print,quote,List.cons_append,List.append_assoc,List.nil_append] at read ⊢
      simp [read]
    | array items =>
      have deep : ¬ depth ≤ 1 := by
        simp only [Value.nesting] at room
        omega
      cases items with
      | nil => simp [Value.print,deep,skip,isBlank,readMark]
      | cons item more =>
        obtain ⟨some_,behind⟩ := items_close more rest
        obtain ⟨c,later,same,plain,other⟩ := print_head item
        simp only [Value.nesting,Items.nesting,Value.print,List.length_cons,List.length_append] at room fuelled
        have first := readValue_print item fuel (depth-1) (more.print ++ rest) (by omega) (by omega) behind
        have later_ := readItems_print more fuel (depth-1) rest (by omega) (by omega)
        have open_ : readMark ']' (skip (item.print ++ (more.print ++ rest))) = none := by
          rw [skip_value,same,List.cons_append,readMark,if_neg other]
        simp only [Value.print,List.cons_append,List.append_assoc]
        simp [deep,open_,first,later_]
    | object members =>
      have deep : ¬ depth ≤ 1 := by
        simp only [Value.nesting] at room
        omega
      cases members with
      | nil => simp [Value.print,deep,skip,isBlank,readMark]
      | cons key value more =>
        obtain ⟨some_,behind⟩ := members_close more rest
        simp only [Value.nesting,Members.nesting,Value.print,List.length_cons,List.length_append] at room fuelled
        have first := readValue_print value fuel (depth-1) (more.print ++ rest) (by omega) (by omega) behind
        have later_ := readMembers_print more fuel (depth-1) rest (by omega) (by omega)
        have named := readKey_quoted key (value.print ++ (more.print ++ rest))
        have open_ : readMark '\x7d' (skip (quote key ++ ':' :: (value.print ++ (more.print ++ rest)))) = none := by
          rw [skip_key]
          rfl
        simp only [Value.print,List.cons_append,List.append_assoc]
        simp [deep,open_,named,first,later_]
theorem readItems_print (items : Items) (fuel depth : Nat) (rest : Text) (fuelled : items.print.length ≤ fuel)
    (room : items.nesting < depth) : readItems fuel depth (items.print ++ rest) = some (items,rest) := by
  cases fuel with
  | zero =>
    have positive := (items_close items rest).1
    omega
  | succ fuel =>
    cases items with
    | nil => rfl
    | cons item more =>
      obtain ⟨some_,behind⟩ := items_close more rest
      simp only [Items.nesting,Items.print,List.length_cons,List.length_append] at room fuelled
      have first := readValue_print item fuel depth (more.print ++ rest) (by omega) (by omega) behind
      have later := readItems_print more fuel depth rest (by omega) (by omega)
      simp only [Items.print,List.cons_append,List.append_assoc]
      rw [readItems,skip_plain _ (by decide)]
      simp [first,later]
theorem readMembers_print (members : Members) (fuel depth : Nat) (rest : Text) (fuelled : members.print.length ≤ fuel)
    (room : members.nesting < depth) : readMembers fuel depth (members.print ++ rest) = some (members,rest) := by
  cases fuel with
  | zero =>
    have positive := (members_close members rest).1
    omega
  | succ fuel =>
    cases members with
    | nil => rfl
    | cons key value more =>
      obtain ⟨some_,behind⟩ := members_close more rest
      simp only [Members.nesting,Members.print,List.length_cons,List.length_append] at room fuelled
      have first := readValue_print value fuel depth (more.print ++ rest) (by omega) (by omega) behind
      have later := readMembers_print more fuel depth rest (by omega) (by omega)
      have named := readKey_quoted key (value.print ++ (more.print ++ rest))
      simp only [Members.print,List.cons_append,List.append_assoc]
      rw [readMembers,skip_plain _ (by decide)]
      simp [named,first,later]
end

theorem parse_print (value : Value) (room : value.nesting < recursionLimit) : parse value.print = some value := by
  have read := readValue_print value (value.print.length+1) recursionLimit [] (Nat.lt_succ_self _) room
    (fun _ _ same => by cases same)
  rw [List.append_nil] at read
  rw [parse,read]
  rfl

theorem literal_line (literal : Literal) : '\n' ∉ literal.text := by
  intro held
  have number := List.all_eq_true.mp (isNumber_chars literal.text literal.valid) '\n' held
  exact absurd number (by decide)

-- A value is printed on one line, whatever its texts hold.
mutual
theorem print_line (value : Value) : '\n' ∉ value.print := by
  cases value with
  | null => decide
  | bool value => cases value <;> decide
  | number literal => exact literal_line literal
  | string text => exact quote_line text
  | array items =>
    cases items with
    | nil => decide
    | cons item more => simp [Value.print,print_line item,items_line more]
  | object members =>
    cases members with
    | nil => decide
    | cons key value more => simp [Value.print,quote_line key,print_line value,members_line more]
theorem items_line (items : Items) : '\n' ∉ items.print := by
  cases items with
  | nil => decide
  | cons item more => simp [Items.print,print_line item,items_line more]
theorem members_line (members : Members) : '\n' ∉ members.print := by
  cases members with
  | nil => decide
  | cons key value more => simp [Members.print,quote_line key,print_line value,members_line more]
end

def Items.ofList : List Value → Items
  | [] => .nil
  | item :: rest => .cons item (ofList rest)

def Items.toList : Items → List Value
  | .nil => []
  | .cons item rest => item :: rest.toList

def Members.ofList : List (Text × Value) → Members
  | [] => .nil
  | member :: rest => .cons member.1 member.2 (ofList rest)

def Members.toList : Members → List (Text × Value)
  | .nil => []
  | .cons key value rest => (key,value) :: rest.toList

@[simp] theorem Items.toList_ofList (items : List Value) : (Items.ofList items).toList = items := by
  induction items with
  | nil => rfl
  | cons item rest ih => rw [Items.ofList,Items.toList,ih]

@[simp] theorem Members.toList_ofList (members : List (Text × Value)) : (Members.ofList members).toList = members := by
  induction members with
  | nil => rfl
  | cons member rest ih => rw [Members.ofList,Members.toList,ih]

theorem items_nesting (items : List Value) (flat : ∀ item ∈ items, item.nesting ≤ depth) :
    (Items.ofList items).nesting ≤ depth := by
  induction items with
  | nil => exact Nat.zero_le _
  | cons item rest ih =>
    rw [List.forall_mem_cons] at flat
    exact Nat.max_le.mpr ⟨flat.1,ih flat.2⟩

theorem members_nesting (members : List (Text × Value)) (flat : ∀ member ∈ members, member.2.nesting ≤ depth) :
    (Members.ofList members).nesting ≤ depth := by
  induction members with
  | nil => exact Nat.zero_le _
  | cons member rest ih =>
    rw [List.forall_mem_cons] at flat
    exact Nat.max_le.mpr ⟨flat.1,ih flat.2⟩

theorem last_append (front : Text) (some_ : back ≠ []) : (front ++ back).getLast? = back.getLast? := by
  rw [List.getLast?_append,Option.or_of_isSome]
  simpa using some_

theorem members_last (members : Members) : members.print.getLast? = some '\x7d' := by
  match members with
  | .nil => rfl
  | .cons key value more =>
    have some_ : more.print ≠ [] := List.ne_nil_of_length_pos (members_close more []).1
    rw [Members.print,← List.cons_append,← List.cons_append,← List.append_assoc,last_append _ some_,members_last more]

theorem object_last (members : Members) : (Value.object members).print.getLast? = some '\x7d' := by
  cases members with
  | nil => rfl
  | cons key value more =>
    have some_ : more.print ≠ [] := List.ne_nil_of_length_pos (members_close more []).1
    rw [Value.print,← List.cons_append,← List.cons_append,← List.append_assoc,last_append _ some_,members_last]

theorem toDigits_digits (n : Nat) : (Nat.toDigits 10 n).all isDigit = true := by
  rw [List.all_eq_true]
  intro c member
  have digit := Nat.isDigit_of_mem_toDigits (by decide) (by decide) member
  simp only [Char.isDigit,Bool.and_eq_true,decide_eq_true_eq] at digit
  simp only [isDigit,Bool.and_eq_true,decide_eq_true_eq]
  exact digit

theorem toDigits_leading (n : Nat) (positive : 0 < n) : ∃ c rest, Nat.toDigits 10 n = c :: rest ∧ c ≠ '0' := by
  induction n using Nat.strongRecOn with
  | ind n ih =>
    by_cases small : n < 10
    · refine ⟨n.digitChar,[],Nat.toDigits_of_lt_base small,?_⟩
      have all : ∀ i : Fin 10, 0 < i.val → i.val.digitChar ≠ '0' := by decide
      exact all ⟨n,small⟩ positive
    · obtain ⟨c,rest,same,leading⟩ := ih (n/10) (by omega) (by omega)
      refine ⟨c,rest ++ [(n%10).digitChar],?_,leading⟩
      rw [Nat.toDigits_of_base_le (by decide) (by omega),same,List.cons_append]

theorem toDigits_integer (n : Nat) : isInteger (Nat.toDigits 10 n) = true := by
  rcases Nat.eq_zero_or_pos n with rfl | positive
  · rfl
  · have digits := toDigits_digits n
    obtain ⟨c,rest,same,leading⟩ := toDigits_leading n positive
    rw [same] at digits ⊢
    have plain : isInteger (c :: rest) = isDigits (c :: rest) := by
      rw [isInteger.eq_3]
      · intro one
        exact leading (List.cons.inj one).1
      · intro later many
        exact leading (List.cons.inj many).1
    rw [plain,isDigits,digits]
    rfl

theorem natural_valid (n : Nat) : isNumber (Nat.toDigits 10 n) = true := by
  have digits := List.all_eq_true.mp (toDigits_digits n)
  have unsigned : isUnsigned (Nat.toDigits 10 n) = true := by
    rw [isUnsigned,List.takeWhile_eq_self_iff.mpr digits,List.dropWhile_eq_nil_iff.mpr digits,toDigits_integer]
    rfl
  have chars : (Nat.toDigits 10 n).all isNumberChar = true := by
    rw [List.all_eq_true]
    intro c member
    rw [isNumberChar,digits c member]
    rfl
  have plain : isNumber (Nat.toDigits 10 n) = ((Nat.toDigits 10 n).all isNumberChar && isUnsigned (Nat.toDigits 10 n)) := by
    rw [isNumber.eq_2]
    intro rest signed
    have minus := digits '-' (by rw [signed]; exact List.mem_cons_self)
    cases minus
  rw [plain,chars,unsigned]
  rfl

-- An integer as it is printed, and as a machine integer below `bound` reads it:
-- a fraction, an exponent or a sign makes it a float.
def natural (n : Nat) : Literal where
  text := Nat.toDigits 10 n
  valid := natural_valid n

def readNatural (bound : Nat) (literal : Literal) : Option Nat :=
  if isDigits literal.text ∧ Nat.ofDigitChars 10 literal.text 0 < bound then some (Nat.ofDigitChars 10 literal.text 0) else none

theorem readNatural_natural (bound n : Nat) : readNatural bound (natural n) = if n < bound then some n else none := by
  have digits : isDigits (natural n).text = true := by
    have some_ : (Nat.toDigits 10 n).isEmpty = false := by simp
    rw [natural,isDigits,toDigits_digits,some_]
    rfl
  have value : Nat.ofDigitChars 10 (natural n).text 0 = n := Nat.ofDigitChars_ten_toDigits
  simp only [readNatural,digits,value,true_and]

-- The fields of an object as a derived `Deserialize` takes them: in any order,
-- others ignored, none of them twice.
def field (name : String) (members : List (Text × Value)) : Option (Option Value) :=
  match members.filter (fun member => member.1 = name.toList) with
  | [] => some none
  | [member] => some (some member.2)
  | _ => none

@[simp] theorem field_nil (name : String) : field name [] = some none := rfl

@[simp] theorem field_cons (name : String) (key : Text) (value : Value) (rest : List (Text × Value)) :
    field name ((key,value) :: rest) =
      if key = name.toList then (field name rest).bind fun found => if found.isNone then some (some value) else none
      else field name rest := by
  by_cases same : key = name.toList
  · rw [if_pos same]
    simp only [field,List.filter_cons,same,decide_true,if_true]
    generalize List.filter (fun member => decide (member.1 = name.toList)) rest = found
    match found with
    | [] => rfl
    | [_] => rfl
    | _ :: _ :: _ => rfl
  · rw [if_neg same]
    simp only [field,List.filter_cons,same,decide_false,Bool.false_eq_true,if_false]

def requiredField {α : Type} (read : Value → Option α) (name : String) (members : List (Text × Value)) : Option α :=
  (field name members).bind fun found => found.bind read

-- An `Option` field may be missing, and `null` is none.
def optionalField {α : Type} (read : Value → Option α) (name : String) (members : List (Text × Value)) : Option (Option α) :=
  (field name members).bind fun found => match found with
    | none => some none
    | some .null => some none
    | some value => (read value).map some

end Json
