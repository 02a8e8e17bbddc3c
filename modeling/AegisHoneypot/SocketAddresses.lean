import AegisHoneypot.AddressText

-- `to_socket_addrs` of the standard library: a host that is the text of an
-- address is that address, and any other is asked of the system's resolver.
namespace AegisHoneypot.SocketAddresses
open AddressText

def digitOf (base : Nat) (c : Char) : Option Nat :=
  let digit := if '0' ≤ c ∧ c ≤ '9' then some (c.toNat-48)
    else if 'a' ≤ c ∧ c ≤ 'z' then some (c.toNat-87)
    else if 'A' ≤ c ∧ c ≤ 'Z' then some (c.toNat-55)
    else none
  digit.filter (fun digit => digit < base)

def isDigitOf (base : Nat) (c : Char) : Bool := (digitOf base c).isSome

def numberOf (base : Nat) (digits : Text) : Nat :=
  digits.foldl (fun number c => number*base + (digitOf base c).getD 0) 0

-- A number of at most `most` digits below `limit`, with what stands behind it.
-- Only hexadecimal groups may begin with zeros.
def readNumber (base most limit : Nat) (zeros : Bool) (text : Text) : Option (Nat × Text) :=
  let digits := text.takeWhile (isDigitOf base)
  if digits = [] ∨ most < digits.length ∨ (zeros = false ∧ digits.head? = some '0' ∧ 1 < digits.length) ∨
    limit ≤ numberOf base digits then none
  else some (numberOf base digits,text.drop digits.length)

def readGiven (given : Char) : Text → Option Text
  | [] => none
  | c :: rest => if c = given then some rest else none

def readOctet (text : Text) : Option (Nat × Text) := readNumber 10 3 256 false text

def readIpv4 (text : Text) : Option ((Nat × Nat × Nat × Nat) × Text) := do
  let (a,text) ← readOctet text
  let (b,text) ← (readGiven '.' text).bind readOctet
  let (c,text) ← (readGiven '.' text).bind readOctet
  let (d,text) ← (readGiven '.' text).bind readOctet
  some ((a,b,c,d),text)

-- As many groups as there are, up to `limit`: with a colon before each but the
-- first, and an IPv4 address in place of the last two, if it is one.
def readGroups : Nat → Bool → Text → List Nat × Bool × Text
  | 0,_,text => ([],false,text)
  | limit+1,first,text =>
    let ahead := if first then some text else readGiven ':' text
    match if limit = 0 then none else ahead.bind readIpv4 with
    | some ((a,b,c,d),rest) => ([a*256+b,c*256+d],true,rest)
    | none =>
      match ahead.bind (readNumber 16 4 65536 true) with
      | some (group,rest) =>
        let others := readGroups limit false rest
        (group :: others.1,others.2)
      | none => ([],false,text)

def ofGroups (segments : List Nat) : IpAddr :=
  let half (four : List Nat) : UInt64 := UInt64.ofNat (four.foldl (fun number group => number*65536+group) 0)
  .v6 (half (segments.take 4)) (half (segments.drop 4))

-- Eight groups, or fewer around `::`, before which no IPv4 address may stand.
def readIpv6 (text : Text) : Option (List Nat × Text) :=
  let head := readGroups 8 true text
  if head.1.length = 8 then some (head.1,head.2.2)
  else if head.2.1 then none
  else do
    let rest ← (readGiven ':' head.2.2).bind (readGiven ':')
    let tail := readGroups (8-(head.1.length+1)) true rest
    some (head.1 ++ List.replicate (8-head.1.length-tail.1.length) 0 ++ tail.1,tail.2.2)

-- Nothing may stand behind an address.
def whole {α : Type} : Option (α × Text) → Option α
  | some (value,[]) => some value
  | _ => none

def parseIp (text : Text) : Option IpAddr :=
  match whole (readIpv4 text) with
  | some (a,b,c,d) => some (.v4 (UInt8.ofNat a) (UInt8.ofNat b) (UInt8.ofNat c) (UInt8.ofNat d))
  | none => (whole (readIpv6 text)).map ofGroups

def toSocketAddrs (resolver : Text → UInt16 → Except Text (List IpAddr)) (host : Text) (port : UInt16) :
    Except Text (List IpAddr) :=
  match parseIp host with
  | some ip => .ok [ip]
  | none => resolver host port

example : parseIp "::ffff:192.0.2.1".toList = some (.v6 0 0xffffc0000201) := by decide
example : parseIp "2001:db8::1".toList = some (.v6 0x20010db800000000 1) := by decide
example : parseIp "1.2.3.04".toList = none := by decide

theorem decimal_digits (small : n < 256) : (decimal n).all (isDigitOf 10) = true ∧ decimal n ≠ [] ∧ (decimal n).length ≤ 3 ∧
    numberOf 10 (decimal n) = n ∧ ¬ ((decimal n).head? = some '0' ∧ 1 < (decimal n).length) := by
  have all : ∀ i : Fin 256, (decimal i.val).all (isDigitOf 10) = true ∧ decimal i.val ≠ [] ∧ (decimal i.val).length ≤ 3 ∧
      numberOf 10 (decimal i.val) = i.val ∧ ¬ ((decimal i.val).head? = some '0' ∧ 1 < (decimal i.val).length) := by decide +kernel
  exact all ⟨n,small⟩

theorem readOctet_decimal (small : n < 256) (rest : Text) (stops : ∀ c, rest.head? = some c → isDigitOf 10 c = false) :
    readOctet (decimal n ++ rest) = some (n,rest) := by
  obtain ⟨digits,named,short,value,zero⟩ := decimal_digits small
  have silent : rest.takeWhile (isDigitOf 10) = [] := by
    cases rest with
    | nil => rfl
    | cons c rest => rw [List.takeWhile_cons_of_neg (by simp [stops c rfl])]
  have taken : (decimal n ++ rest).takeWhile (isDigitOf 10) = decimal n := by
    rw [List.takeWhile_append_of_pos (by simpa using digits),silent,List.append_nil]
  have fits : ¬ (decimal n = [] ∨ 3 < (decimal n).length ∨
      (false = false ∧ (decimal n).head? = some '0' ∧ 1 < (decimal n).length) ∨ 256 ≤ numberOf 10 (decimal n)) := by
    rintro (none | long | padded | large)
    · exact named none
    · omega
    · exact zero padded.2
    · omega
  rw [readOctet,readNumber,taken,if_neg fits,value,List.drop_left]

-- What the standard library prints for an IPv4 address it reads as that address.
theorem parseIp_v4Text (a b c d : UInt8) : parseIp (v4Text a b c d) = some (.v4 a b c d) := by
  have dot : ∀ rest : Text, ∀ c, ('.' :: rest).head? = some c → isDigitOf 10 c = false := by
    rintro rest c same
    cases same
    decide
  have text : v4Text a b c d = decimal a.toNat ++ '.' :: (decimal b.toNat ++ '.' :: (decimal c.toNat ++ '.' :: (decimal d.toNat ++ []))) := by
    simp [v4Text,Text.join]
  have read : readIpv4 (v4Text a b c d) = some ((a.toNat,b.toNat,c.toNat,d.toNat),[]) := by
    rw [text,readIpv4,readOctet_decimal a.toNat_lt _ (dot _)]
    simp only [Option.bind_eq_bind,Option.bind_some,readGiven,if_true]
    rw [readOctet_decimal b.toNat_lt _ (dot _)]
    simp only [Option.bind_some,if_true]
    rw [readOctet_decimal c.toNat_lt _ (dot _)]
    simp only [Option.bind_some,if_true]
    rw [readOctet_decimal d.toNat_lt _ (fun _ none => by cases none)]
    rfl
  rw [parseIp,read]
  simp [whole]

-- A host in brackets is the text of no address.
theorem parseIp_bracket (rest : Text) : parseIp ('[' :: rest) = none := by
  have groups : readGroups 8 true ('[' :: rest) = ([],false,'[' :: rest) := rfl
  have v6 : readIpv6 ('[' :: rest) = none := by
    rw [readIpv6,groups]
    rfl
  rw [parseIp,show readIpv4 ('[' :: rest) = none from rfl,v6]
  rfl

end AegisHoneypot.SocketAddresses
