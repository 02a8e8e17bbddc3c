import AegisHoneypot.Library.Text

-- Regular expressions with the search order of the `regex` crate: the leftmost
-- match, alternatives tried from the left, repetitions greedy. A repeated
-- expression consumes at least one character on each turn.
inductive Pattern where
  | one (accepts : Char → Bool)
  | seq (first second : Pattern)
  | alt (left right : Pattern)
  | times (count : Nat) (body : Pattern)
  | upTo (limit : Nat) (body : Pattern)
  | many (body : Pattern)
  | boundary

namespace Pattern

structure Cursor where
  before : Option Char
  rest : Text
  deriving DecidableEq, Repr

def isWord (c : Char) : Bool := c.isAlphanum || c == '_'

def Cursor.atBoundary (cursor : Cursor) : Bool := cursor.before.any isWord != cursor.rest.head?.any isWord

def exactly (turn : Cursor → List Cursor) : Nat → Cursor → List Cursor
  | 0,cursor => [cursor]
  | count+1,cursor => (turn cursor).flatMap (exactly turn count)

def atMost (turn : Cursor → List Cursor) : Nat → Cursor → List Cursor
  | 0,cursor => [cursor]
  | limit+1,cursor => (turn cursor).flatMap (atMost turn limit) ++ [cursor]

-- The places where a match from the cursor can end, the preferred one first.
def ends : Pattern → Cursor → List Cursor
  | one accepts,cursor => match cursor.rest with
    | [] => []
    | c :: rest => if accepts c then [⟨some c,rest⟩] else []
  | seq first second,cursor => (first.ends cursor).flatMap second.ends
  | alt left right,cursor => left.ends cursor ++ right.ends cursor
  | times count body,cursor => exactly body.ends count cursor
  | upTo limit body,cursor => atMost body.ends limit cursor
  | many body,cursor => atMost body.ends cursor.rest.length cursor
  | boundary,cursor => if cursor.atBoundary then [cursor] else []

def nothing : Pattern := times 0 boundary

def word (text : String) : Pattern := text.toList.foldr (fun c rest => seq (one (· == c)) rest) nothing

def anyOf (choices : List Pattern) : Pattern := choices.foldr alt (one (fun _ => false))

def inOrder (parts : List Pattern) : Pattern := parts.foldr seq nothing

def many1 (body : Pattern) : Pattern := seq body (many body)

def between (least most : Nat) (body : Pattern) : Pattern := seq (times least body) (upTo (most-least) body)

def atLeast (least : Nat) (body : Pattern) : Pattern := seq (times least body) (many body)

-- `\s`, `\d`, `.`, a class of characters, and a class that excludes white space
-- and some characters more.
def space : Pattern := one Text.isWhitespace
def digit : Pattern := one Char.isDigit
def visible : Pattern := one (· != '\n')
def oneOf (characters : String) : Pattern := one (fun c => characters.toList.contains c)
def noneOf (characters : String) : Pattern := one (fun c => !Text.isWhitespace c && !characters.toList.contains c)

-- The matches from the cursor on, none overlapping another; `skip` counts the
-- characters that the last match has already taken.
def scan (pattern : Pattern) (before : Option Char) (skip : Nat) : Text → List Text
  | [] => []
  | c :: rest => match skip with
    | skipped+1 => scan pattern (some c) skipped rest
    | 0 => match pattern.ends ⟨before,c :: rest⟩ with
      | [] => scan pattern (some c) 0 rest
      | stop :: _ =>
        let length := rest.length+1-stop.rest.length
        (c :: rest).take length :: scan pattern (some c) (length-1) rest

def findIter (pattern : Pattern) (text : Text) : List Text := scan pattern none 0 text

def isMatch (pattern : Pattern) (text : Text) : Bool := pattern.findIter text != []

end Pattern
