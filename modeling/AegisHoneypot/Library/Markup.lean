import AegisHoneypot.Library.Utf16Text
import Mathlib.Data.List.TakeWhile

-- HTML as a browser reads it: the tokenizer from the data state on, by code
-- units since every unit it looks for is ASCII, and the character references.
-- What a browser does with carriage returns before it tokenizes, and with NUL
-- units where it meets them, is left out: no tag, boundary or reference depends on
-- either.
namespace Markup
open Utf16Text

def isSpace (unit : UInt16) : Bool := unit == 0x09 || unit == 0x0a || unit == 0x0c || unit == 0x20

def isDigit (unit : UInt16) : Bool := 0x30 ≤ unit && unit ≤ 0x39

def isUpper (unit : UInt16) : Bool := 0x41 ≤ unit && unit ≤ 0x5a

def isLetter (unit : UInt16) : Bool := isUpper unit || (0x61 ≤ unit && unit ≤ 0x7a)

def lower (unit : UInt16) : UInt16 := if isUpper unit then unit+0x20 else unit

structure Tag where
  closing : Bool
  name : Units
  attributes : List (Units × Units)
  deriving DecidableEq, Repr

-- Of two attributes of one name the first stays.
def Tag.attribute (tag : Tag) (name value : Units) : Tag :=
  if tag.attributes.any (fun pair => pair.1 == name) then tag else {tag with attributes := tag.attributes ++ [(name,value)]}

def Tag.letter (tag : Tag) (unit : UInt16) : Tag := {tag with name := tag.name ++ [lower unit]}

inductive Token where
  | character (unit : UInt16)
  | tag (tag : Tag)
  deriving DecidableEq, Repr

-- The states that text and tags go through. Comments, declarations and what else
-- opens with `<!`, `<?` or a bad end tag are beyond them.
inductive State where
  | data
  | tagOpen
  | endTagOpen
  | tagName (tag : Tag)
  | beforeAttributeName (tag : Tag)
  | attributeName (tag : Tag) (name : Units)
  | afterAttributeName (tag : Tag) (name : Units)
  | beforeAttributeValue (tag : Tag) (name : Units)
  | quotedValue (quote : UInt16) (tag : Tag) (name value : Units)
  | unquotedValue (tag : Tag) (name value : Units)
  | afterQuotedValue (tag : Tag)
  | selfClosing (tag : Tag)
  | beyond
  deriving DecidableEq, Repr

def stepData (unit : UInt16) : State × List Token :=
  if unit = 0x3c then (.tagOpen,[]) else (.data,[.character unit])

def stepBeforeName (tag : Tag) (unit : UInt16) : State × List Token :=
  if isSpace unit then (.beforeAttributeName tag,[])
  else if unit = 0x2f then (.selfClosing tag,[])
  else if unit = 0x3e then (.data,[.tag tag])
  else (.attributeName tag [lower unit],[])

def step : State → UInt16 → State × List Token
  | .data,unit => stepData unit
  | .tagOpen,unit =>
    if unit = 0x2f then (.endTagOpen,[])
    else if isLetter unit then (.tagName ⟨false,[lower unit],[]⟩,[])
    else if unit = 0x21 ∨ unit = 0x3f then (.beyond,[])
    else ((stepData unit).1,.character 0x3c :: (stepData unit).2)
  | .endTagOpen,unit =>
    if isLetter unit then (.tagName ⟨true,[lower unit],[]⟩,[])
    else if unit = 0x3e then (.data,[])
    else (.beyond,[])
  | .tagName tag,unit =>
    if isSpace unit then (.beforeAttributeName tag,[])
    else if unit = 0x2f then (.selfClosing tag,[])
    else if unit = 0x3e then (.data,[.tag tag])
    else (.tagName (tag.letter unit),[])
  | .beforeAttributeName tag,unit => stepBeforeName tag unit
  | .attributeName tag name,unit =>
    if isSpace unit then (.afterAttributeName tag name,[])
    else if unit = 0x2f then (.selfClosing (tag.attribute name []),[])
    else if unit = 0x3e then (.data,[.tag (tag.attribute name [])])
    else if unit = 0x3d then (.beforeAttributeValue tag name,[])
    else (.attributeName tag (name ++ [lower unit]),[])
  | .afterAttributeName tag name,unit =>
    if isSpace unit then (.afterAttributeName tag name,[])
    else if unit = 0x2f then (.selfClosing (tag.attribute name []),[])
    else if unit = 0x3d then (.beforeAttributeValue tag name,[])
    else if unit = 0x3e then (.data,[.tag (tag.attribute name [])])
    else (.attributeName (tag.attribute name []) [lower unit],[])
  | .beforeAttributeValue tag name,unit =>
    if isSpace unit then (.beforeAttributeValue tag name,[])
    else if unit = 0x22 ∨ unit = 0x27 then (.quotedValue unit tag name [],[])
    else if unit = 0x3e then (.data,[.tag (tag.attribute name [])])
    else (.unquotedValue tag name [unit],[])
  | .quotedValue quote tag name value,unit =>
    if unit = quote then (.afterQuotedValue (tag.attribute name value),[])
    else (.quotedValue quote tag name (value ++ [unit]),[])
  | .unquotedValue tag name value,unit =>
    if isSpace unit then (.beforeAttributeName (tag.attribute name value),[])
    else if unit = 0x3e then (.data,[.tag (tag.attribute name value)])
    else (.unquotedValue tag name (value ++ [unit]),[])
  | .afterQuotedValue tag,unit => stepBeforeName tag unit
  | .selfClosing tag,unit => if unit = 0x3e then (.data,[.tag tag]) else stepBeforeName tag unit
  | .beyond,_ => (.beyond,[])

def run : State → Units → State × List Token
  | state,[] => (state,[])
  | state,unit :: rest => ((run (step state unit).1 rest).1,(step state unit).2 ++ (run (step state unit).1 rest).2)

-- The named references of the standard, of which a semicolon can only be the end.
-- Those of the letters that markup is made of are used by name.
structure NamedReferences where
  value : Units → Option Units
  ends : ∀ name found, value name = some found → 0x3b ∉ name.dropLast
  ampersand : value (ofText "amp;".toList) = some [0x26]
  less : value (ofText "lt;".toList) = some [0x3c]
  greater : value (ofText "gt;".toList) = some [0x3e]
  quotation : value (ofText "quot;".toList) = some [0x22]
  arrow : value (ofText "rarr;".toList) = some [0x2192]

-- The longest name that the text starts with, and its length.
def longest (value : Units → Option Units) (text : Units) : Nat → Option (Units × Nat)
  | 0 => none
  | n+1 => match value (text.take (n+1)) with
    | some found => some (found,n+1)
    | none => longest value text n

-- In an attribute a name without its semicolon is left alone where a letter, a
-- digit or `=` follows.
def named (references : NamedReferences) (inAttribute : Bool) (text : Units) : Option (Units × Nat) := do
  let (found,length) ← longest references.value text text.length
  let open_ := (text.take length).getLast? != some 0x3b
  let goesOn := (text[length]?).any (fun unit => unit == 0x3d || isLetter unit || isDigit unit)
  if inAttribute && open_ && goesOn then none else some (found,length)

def windows1252 : List Nat :=
  [0x20ac,0x81,0x201a,0x192,0x201e,0x2026,0x2020,0x2021,0x2c6,0x2030,0x160,0x2039,0x152,0x8d,0x17d,0x8f,
   0x90,0x2018,0x2019,0x201c,0x201d,0x2022,0x2013,0x2014,0x2dc,0x2122,0x161,0x203a,0x153,0x9d,0x17e,0x178]

def codePoint (code : Nat) : Units :=
  if code = 0 ∨ 0x10ffff < code ∨ (0xd800 ≤ code ∧ code < 0xe000) then [0xfffd]
  else if 0x80 ≤ code ∧ code < 0xa0 then [UInt16.ofNat (windows1252.getD (code-0x80) 0xfffd)]
  else ofChar (Char.ofNat code)

def hexValue (unit : UInt16) : Option Nat :=
  if isDigit unit then some (unit.toNat-0x30)
  else if isLetter unit ∧ (lower unit).toNat < 0x67 then some ((lower unit).toNat-0x57)
  else none

def digitsOf (base : Nat) : Units → List Nat
  | [] => []
  | unit :: rest => match (hexValue unit).filter (· < base) with
    | some digit => digit :: digitsOf base rest
    | none => []

def numeric (base skipped : Nat) (text : Units) : Option (Units × Nat) :=
  let digits := digitsOf base text
  if digits = [] then none
  else
    let semicolon := if text[digits.length]? = some 0x3b then 1 else 0
    some (codePoint (digits.foldl (fun code digit => code*base+digit) 0),skipped+digits.length+semicolon)

-- What an ampersand and the text behind it stand for.
def reference (references : NamedReferences) (inAttribute : Bool) : Units → Option (Units × Nat)
  | 0x23 :: 0x78 :: rest => numeric 16 2 rest
  | 0x23 :: 0x58 :: rest => numeric 16 2 rest
  | 0x23 :: rest => numeric 10 1 rest
  | text => named references inAttribute text

def decode (references : NamedReferences) (inAttribute : Bool) : Nat → Units → Units
  | _,[] => []
  | skip+1,_ :: rest => decode references inAttribute skip rest
  | 0,unit :: rest =>
    if unit = 0x26 then match reference references inAttribute rest with
      | some (value,length) => value ++ decode references inAttribute length rest
      | none => unit :: decode references inAttribute 0 rest
    else unit :: decode references inAttribute 0 rest

def characters (text : Units) : List Token := text.map .character

section Parse
variable (references : NamedReferences)

def decodeTag (tag : Tag) : Tag :=
  {tag with attributes := tag.attributes.map (fun pair => (pair.1,decode references true 0 pair.2))}

-- The tokens with their references decoded; no reference goes on past a tag.
def gather : Units → List Token → List Token
  | source,[] => characters (decode references false 0 source)
  | source,.character unit :: rest => gather (source ++ [unit]) rest
  | source,.tag tag :: rest => characters (decode references false 0 source) ++ .tag (decodeTag references tag) :: gather [] rest

-- A whole text, where it ends outside of tags.
def parse (source : Units) : Option (List Token) :=
  if (run .data source).1 = .data then some (gather references [] (run .data source).2) else none

end Parse

-- A tag without the values: its name and where its attributes are.
structure Shape where
  closing : Bool
  name : Units
  attributes : List Units
  deriving DecidableEq, Repr

def Tag.shape (tag : Tag) : Shape := ⟨tag.closing,tag.name,tag.attributes.map Prod.fst⟩

def shapes (tokens : List Token) : List Shape := tokens.filterMap fun
  | .character _ => none
  | .tag tag => some tag.shape

section Tokens

def Reads (state : State) (source : Units) (next : State) (tokens : List Token) : Prop := run state source = (next,tokens)

theorem run_append (state : State) (left right : Units) : run state (left ++ right) =
    ((run (run state left).1 right).1,(run state left).2 ++ (run (run state left).1 right).2) := by
  induction left generalizing state with
  | nil => rfl
  | cons unit rest ih =>
    rw [List.cons_append,run,ih,run]
    simp only [List.append_assoc]

theorem Reads.append (first : Reads state left middle tokens) (second : Reads middle right next later) :
    Reads state (left ++ right) next (tokens ++ later) := by
  unfold Reads at first second ⊢
  rw [run_append,first,second]

theorem reads_text (source : Units) (plain : 0x3c ∉ source) : Reads .data source .data (source.map .character) := by
  induction source with
  | nil => rfl
  | cons unit rest ih =>
    obtain ⟨other,later⟩ := not_or.mp (mt List.mem_cons.mpr plain)
    have head : step .data unit = (.data,[.character unit]) := if_neg (Ne.symm other)
    unfold Reads at ih ⊢
    rw [run,head,ih later]
    rfl

theorem reads_value (source : Units) (quote : UInt16) (plain : quote ∉ source) (tag : Tag) (name value : Units) :
    Reads (.quotedValue quote tag name value) source (.quotedValue quote tag name (value ++ source)) [] := by
  induction source generalizing value with
  | nil => rw [List.append_nil]; rfl
  | cons unit rest ih =>
    obtain ⟨other,later⟩ := not_or.mp (mt List.mem_cons.mpr plain)
    have head : step (.quotedValue quote tag name value) unit = (.quotedValue quote tag name (value ++ [unit]),[]) :=
      if_neg (Ne.symm other)
    unfold Reads at ih ⊢
    rw [run,head,ih later,List.append_assoc]
    rfl

end Tokens

section References
variable (references : NamedReferences) (inAttribute : Bool)

-- What a piece of a source stands for wherever it is.
def Means (source value : Units) : Prop :=
  ∀ rest, decode references inAttribute 0 (source ++ rest) = value ++ decode references inAttribute 0 rest

variable {references inAttribute}

theorem Means.append (first : Means references inAttribute left value) (second : Means references inAttribute right other) :
    Means references inAttribute (left ++ right) (value ++ other) := by
  intro rest
  rw [List.append_assoc,first,second,List.append_assoc]

theorem Means.whole (means : Means references inAttribute source value) : decode references inAttribute 0 source = value := by
  have ended := means []
  rw [List.append_nil] at ended
  exact ended.trans (List.append_nil value)

theorem means_plain (source : Units) (plain : 0x26 ∉ source) : Means references inAttribute source source := by
  intro rest
  induction source with
  | nil => rfl
  | cons unit later ih =>
    obtain ⟨other,tail⟩ := not_or.mp (mt List.mem_cons.mpr plain)
    rw [List.cons_append,decode,if_neg (Ne.symm other),ih tail]
    rfl

theorem decode_skip (source rest : Units) :
    decode references inAttribute source.length (source ++ rest) = decode references inAttribute 0 rest := by
  induction source with
  | nil => rfl
  | cons unit later ih => exact ih

theorem means_reference (source value : Units)
    (read : ∀ rest, reference references inAttribute (source ++ rest) = some (value,source.length)) :
    Means references inAttribute (0x26 :: source) value := by
  intro rest
  rw [List.cons_append,decode,if_pos rfl,read rest]
  exact congrArg (value ++ ·) (decode_skip source rest)

-- No longer name can start with one that a semicolon ends.
theorem longest_exact (stem value rest : Units) (known : references.value (stem ++ [0x3b]) = some value) (n : Nat)
    (enough : stem.length < n) (most : n ≤ (stem ++ [0x3b] ++ rest).length) :
    longest references.value (stem ++ [0x3b] ++ rest) n = some (value,stem.length+1) := by
  induction n with
  | zero => omega
  | succ n ih =>
    have size : (stem ++ [0x3b]).length = stem.length+1 := List.length_append
    rw [longest]
    by_cases exact_ : n = stem.length
    · rw [exact_,List.take_left' size,known]
    · have longer : (stem ++ [0x3b] ++ rest).take (n+1) = stem ++ 0x3b :: rest.take (n-stem.length) := by
        have front : (stem ++ [0x3b]).take (n+1) = stem ++ [0x3b] := List.take_of_length_le (by omega)
        rw [List.take_append,front,size,Nat.add_sub_add_right,List.append_assoc]
        rfl
      have unknown : references.value ((stem ++ [0x3b] ++ rest).take (n+1)) = none := by
        cases found : references.value ((stem ++ [0x3b] ++ rest).take (n+1)) with
        | none => rfl
        | some other =>
          have inside := references.ends _ other found
          rw [longer] at inside
          have more : rest.take (n-stem.length) ≠ [] := by
            intro none_
            rw [List.take_eq_nil_iff] at none_
            rw [List.length_append,size] at most
            rcases none_ with zero | empty
            · omega
            · rw [empty] at most
              simp only [List.length_nil] at most
              omega
          rw [List.dropLast_append_of_ne_nil (List.cons_ne_nil _ _),List.dropLast_cons_of_ne_nil more] at inside
          simp at inside
      rw [unknown]
      exact ih (by omega) (by omega)

theorem means_named (stem value : Units) (known : references.value (stem ++ [0x3b]) = some value)
    (letter : ∀ rest, reference references inAttribute (stem ++ [0x3b] ++ rest) =
      named references inAttribute (stem ++ [0x3b] ++ rest)) :
    Means references inAttribute (0x26 :: (stem ++ [0x3b])) value := by
  refine means_reference _ value (fun rest => ?_)
  have size : (stem ++ [0x3b]).length = stem.length+1 := List.length_append
  have found := longest_exact stem value rest known (stem ++ [0x3b] ++ rest).length (by
    rw [List.length_append,size]
    omega) (Nat.le_refl _)
  have closed : ((stem ++ [0x3b] ++ rest).take (stem.length+1)).getLast? = some 0x3b := by
    rw [List.take_left' size]
    exact List.getLast?_concat
  rw [letter,named,found,size]
  simp only [Option.bind_eq_bind,Option.bind_some,closed,bne_self_eq_false,Bool.and_false,Bool.false_and,Bool.false_eq_true,
    if_false]

end References

section Shown
variable {references : NamedReferences}

theorem characters_append (left right : Units) : characters (left ++ right) = characters left ++ characters right :=
  List.map_append

theorem shapes_append (left right : List Token) : shapes (left ++ right) = shapes left ++ shapes right :=
  List.filterMap_append

theorem shapes_characters (text : Units) : shapes (characters text) = [] := by
  induction text with
  | nil => rfl
  | cons unit rest ih => exact ih

theorem decodeTag_shape (references : NamedReferences) (tag : Tag) : (decodeTag references tag).shape = tag.shape := by
  unfold decodeTag Tag.shape
  rw [List.map_map]
  rfl

theorem gather_shapes (references : NamedReferences) (source : Units) (tokens : List Token) : shapes (gather references source tokens) = shapes tokens := by
  induction tokens generalizing source with
  | nil => exact shapes_characters _
  | cons token rest ih =>
    cases token with
    | character unit => exact ih (source ++ [unit])
    | tag tag =>
      rw [gather,shapes_append,shapes_characters]
      change (decodeTag references tag).shape :: shapes (gather references [] rest) = tag.shape :: shapes rest
      rw [decodeTag_shape,ih]

theorem gather_characters (source text : Units) (rest : List Token) :
    gather references source (characters text ++ rest) = gather references (source ++ text) rest := by
  induction text generalizing source with
  | nil => rw [List.append_nil]; rfl
  | cons unit later ih =>
    change gather references (source ++ [unit]) (characters later ++ rest) = _
    rw [ih,List.append_assoc]
    rfl

theorem gather_means (means : Means references false before value) (source : Units) (tokens : List Token) :
    gather references (before ++ source) tokens = characters value ++ gather references source tokens := by
  induction tokens generalizing source with
  | nil =>
    rw [gather,gather,means source,characters_append]
  | cons token rest ih =>
    cases token with
    | character unit =>
      rw [gather,gather,List.append_assoc]
      exact ih (source ++ [unit])
    | tag tag =>
      rw [gather,gather,means source,characters_append,List.append_assoc]

-- A piece of markup, from outside of tags to outside of tags, and what it shows.
def Shows (references : NamedReferences) (source : Units) (tokens : List Token) : Prop :=
  ∃ raw, Reads .data source .data raw ∧
    ∀ rest, gather references [] (raw ++ rest) = tokens ++ gather references [] rest

theorem Shows.append (first : Shows references left tokens) (second : Shows references right later) :
    Shows references (left ++ right) (tokens ++ later) := by
  obtain ⟨raw,read,shown⟩ := first
  obtain ⟨other,also,next⟩ := second
  refine ⟨raw ++ other,read.append also,fun rest => ?_⟩
  rw [List.append_assoc,shown,next,List.append_assoc]

theorem shows_text (plain : 0x3c ∉ source) (means : Means references false source value) :
    Shows references source (characters value) := by
  refine ⟨characters source,reads_text source plain,fun rest => ?_⟩
  have opened := gather_means means [] rest
  rw [List.append_nil] at opened
  exact (gather_characters [] source rest).trans opened

theorem shows_tag (read : Reads .data source .data [.tag tag]) :
    Shows references source [.tag (decodeTag references tag)] := ⟨[.tag tag],read,fun _ => rfl⟩

theorem Shows.parse (shows_ : Shows references source tokens) : parse references source = some tokens := by
  obtain ⟨raw,read,shown⟩ := shows_
  unfold Reads at read
  have whole := shown []
  rw [List.append_nil] at whole
  rw [Markup.parse,read,if_pos rfl,whole]
  exact congrArg some (List.append_nil tokens)

end Shown
end Markup
