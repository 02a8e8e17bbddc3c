import AegisHoneypot.Library.Text
import Mathlib.Algebra.Ring.Nat

-- Numbers of binary64 as text: with one decimal, as Rust and as JavaScript write
-- them, and an integer as JavaScript writes it.
namespace FloatText
open Float.Model.UnpackedFloat (Sign)

def digits (n : Nat) : Text := Nat.toDigits 10 n

-- The integer next to a fraction; `up` says which one on a tie.
def nearest (up : Nat → Bool) (numerator denominator : Nat) : Nat :=
  let below := numerator/denominator
  let rest := 2*(numerator%denominator)
  if denominator < rest ∨ (rest = denominator ∧ up below = true) then below+1 else below

def odd (n : Nat) : Bool := n%2 == 1

-- Ten times a magnitude of this mantissa and exponent, as an integer.
def tenths (up : Nat → Bool) (mantissa : Nat) : Int → Nat
  | .ofNat exponent => 10*mantissa*2^exponent
  | .negSucc exponent => nearest up (10*mantissa) (2^(exponent+1))

def oneDecimal (tenths : Nat) : Text := digits (tenths/10) ++ '.' :: digits (tenths%10)

def signText : Sign → Text
  | .positive => []
  | .negative => ['-']

-- `format!("{:.1}")`: to even on a tie, and zero keeps its sign.
def formatOne (x : Float) : Text :=
  match x.toModel.unpack with
  | .notANumber => "NaN".toList
  | .infinity sign => signText sign ++ "inf".toList
  | .zero sign => signText sign ++ "0.0".toList
  | .finite sign mantissa exponent _ => signText sign ++ oneDecimal (tenths odd mantissa exponent)

-- An integer as the double next to it.
def toDouble (n : Nat) : Nat :=
  if n < 2^53 then n
  else
    let ulp := 2^(n.log2-52)
    nearest odd n ulp*ulp

-- `Number::toString` of an integer: the fewest digits that read back as the same
-- double, with zeros behind them or, from 10^21 on, an exponent.
def shortens (value dropped : Nat) : Option Nat :=
  let below := value/10^dropped
  [nearest odd value (10^dropped),below,below+1].find? (fun scaled => toDouble (scaled*10^dropped) == value)

def significand (value : Nat) : Nat → Nat × Nat
  | 0 => (value,0)
  | dropped+1 => match shortens value (dropped+1) with
    | some scaled => (scaled,dropped+1)
    | none => significand value dropped

def pointed : Text → Text
  | first :: second :: rest => first :: '.' :: second :: rest
  | short => short

def scientific (shown : Text) (exponent : Nat) : Text := pointed shown ++ "e+".toList ++ digits exponent

def numberText (n : Nat) : Text :=
  let value := toDouble n
  let found := significand value (if value = 0 then 0 else (digits value).length)
  let shown := digits found.1
  if value < 10^21 then shown ++ List.replicate found.2 '0' else scientific shown (shown.length+found.2-1)

-- `Number.prototype.toFixed` with one digit: upwards on a tie, without the sign
-- of zero.
def toFixedOne (x : Float) : Text :=
  match x.toModel.unpack with
  | .notANumber => "NaN".toList
  | .infinity sign => signText sign ++ "Infinity".toList
  | .zero _ => "0.0".toList
  | .finite sign mantissa exponent _ =>
    let scaled := tenths (fun _ => true) mantissa exponent
    signText sign ++ if scaled < 10^22 then oneDecimal scaled else numberText (scaled/10)

-- What the numbers above are written with.
def isNumeral (c : Char) : Bool :=
  (0x30 ≤ c.toNat && c.toNat ≤ 0x39) || (0x41 ≤ c.toNat && c.toNat ≤ 0x5a) || (0x61 ≤ c.toNat && c.toNat ≤ 0x7a) ||
    c == '-' || c == '.' || c == '+'

def Numeral (text : Text) : Prop := ∀ c ∈ text, isNumeral c = true

theorem numeral_range (c : Char) (plain : isNumeral c = true) :
    (0x2b ≤ c.toNat ∧ c.toNat ≤ 0x39) ∨ (0x41 ≤ c.toNat ∧ c.toNat ≤ 0x7a) := by
  simp only [isNumeral,Bool.or_eq_true,Bool.and_eq_true,decide_eq_true_eq,beq_iff_eq] at plain
  rcases plain with ((((digit | upper) | lower) | rfl) | rfl) | rfl
  · omega
  · omega
  · omega
  · decide
  · decide
  · decide

theorem numeral_literal (text : Text) (all : text.all isNumeral = true) : Numeral text :=
  List.all_eq_true.mp all

theorem Numeral.append (left : Numeral first) (right : Numeral second) : Numeral (first ++ second) := by
  intro c member
  rcases List.mem_append.mp member with inFirst | inSecond
  · exact left c inFirst
  · exact right c inSecond

theorem Numeral.cons (head : isNumeral c = true) (tail : Numeral rest) : Numeral (c :: rest) :=
  List.forall_mem_cons.mpr ⟨head,tail⟩

theorem toDigits_numeral (two : 1 < base) (most : base ≤ 16) (n : Nat) : Numeral (Nat.toDigits base n) := by
  have digit : ∀ d : Fin 16, isNumeral d.val.digitChar = true := by decide
  induction n using Nat.strongRecOn with
  | ind n ih =>
    rw [Nat.toDigits_eq_if two]
    split
    · rename_i small
      exact .cons (digit ⟨n,by omega⟩) (fun _ member => by cases member)
    · have last := Nat.mod_lt n (show 0 < base by omega)
      exact (ih (n/base) (Nat.div_lt_self (by omega) two)).append
        (.cons (digit ⟨n%base,by omega⟩) (fun _ member => by cases member))

theorem digits_numeral (n : Nat) : Numeral (digits n) := toDigits_numeral (by omega) (by omega) n

theorem oneDecimal_numeral (n : Nat) : Numeral (oneDecimal n) := (digits_numeral _).append (.cons rfl (digits_numeral _))

theorem signText_numeral (sign : Sign) : Numeral (signText sign) := by
  cases sign with
  | positive => exact numeral_literal _ rfl
  | negative => exact numeral_literal _ rfl

theorem formatOne_numeral (x : Float) : Numeral (formatOne x) := by
  unfold formatOne
  cases x.toModel.unpack with
  | notANumber => exact numeral_literal _ rfl
  | infinity sign => exact (signText_numeral sign).append (numeral_literal _ rfl)
  | zero sign => exact (signText_numeral sign).append (numeral_literal _ rfl)
  | finite sign mantissa exponent positive => exact (signText_numeral sign).append (oneDecimal_numeral _)

theorem pointed_numeral (plain : Numeral shown) : Numeral (pointed shown) := by
  unfold pointed
  split
  · obtain ⟨first,rest⟩ := List.forall_mem_cons.mp plain
    exact .cons first (.cons rfl rest)
  · exact plain

theorem scientific_numeral (plain : Numeral shown) (exponent : Nat) : Numeral (scientific shown exponent) :=
  ((pointed_numeral plain).append (numeral_literal _ rfl)).append (digits_numeral exponent)

theorem numberText_numeral (n : Nat) : Numeral (numberText n) := by
  unfold numberText
  dsimp only
  split
  · refine (digits_numeral _).append (fun c member => ?_)
    rw [List.eq_of_mem_replicate member]
    rfl
  · exact scientific_numeral (digits_numeral _) _

theorem toFixedOne_numeral (x : Float) : Numeral (toFixedOne x) := by
  unfold toFixedOne
  cases x.toModel.unpack with
  | notANumber => exact numeral_literal _ rfl
  | infinity sign => exact (signText_numeral sign).append (numeral_literal _ rfl)
  | zero sign => exact numeral_literal _ rfl
  | finite sign mantissa exponent positive =>
    refine (signText_numeral sign).append ?_
    split
    · exact oneDecimal_numeral _
    · exact numberText_numeral _

end FloatText
