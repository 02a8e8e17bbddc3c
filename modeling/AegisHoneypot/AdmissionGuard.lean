import AegisHoneypot.Telemetry
import AegisHoneypot.Library.KeyTable

namespace AegisHoneypot.AdmissionGuard

-- Instants are nanoseconds of the monotonic clock. `Instant::duration_since`
-- answers zero for a later instant, as the truncated subtraction does.
abbrev Instant := Nat

def rateWindow : Nat := 60 * 1000000000
def maxTrackedPrefixes : Nat := 65536

-- Only the /64 of an IPv6 address identifies its operator; the octets 8 to 15,
-- the low half, are cleared.
def admissionKey : IpAddr → IpAddr
  | .v4 a b c d => .v4 a b c d
  | .v6 high _ => .v6 high 0

-- `active` is a `u32` in the source. It never exceeds the larger of the per-key
-- limit and the number of sessions alive at once, so it is kept as a number.
structure IpEntry where
  active : Nat
  recentConnects : List Instant
  deriving DecidableEq, Repr

def IpEntry.empty : IpEntry := ⟨0,[]⟩

def IpEntry.isStale (entry : IpEntry) (now : Instant) : Bool :=
  entry.active == 0 && !entry.recentConnects.any (fun t => decide (now - t ≤ rateWindow))

structure GuardState where
  entries : KeyTable IpAddr IpEntry
  lastSweep : Instant

structure Limits where
  maxPerIp : UInt32
  maxPerMinute : UInt32
  deriving DecidableEq, Repr

def GuardState.new (now : Instant) : GuardState := ⟨∅,now⟩

namespace GuardState

def sweep (state : GuardState) (now : Instant) : GuardState :=
  if maxTrackedPrefixes / 2 ≤ state.entries.len ∧ rateWindow ≤ now - state.lastSweep then
    ⟨state.entries.retain (fun _ entry => !entry.isStale now),now⟩
  else state

def tableFull (state : GuardState) (now : Instant) (key : IpAddr) : Bool :=
  decide (maxTrackedPrefixes ≤ (state.sweep now).entries.len ∧ key ∉ (state.sweep now).entries)

end GuardState

def IpEntry.prune (entry : IpEntry) (now : Instant) : IpEntry :=
  {entry with recentConnects := entry.recentConnects.dropWhile (fun t => decide (rateWindow < now - t))}

-- The two checks of `try_admit` on the pruned entry; `len() as u32` truncates.
def IpEntry.admissible (limits : Limits) (entry : IpEntry) : Bool :=
  !(decide (0 < limits.maxPerIp.toNat) && decide (limits.maxPerIp.toNat ≤ entry.active)) &&
  !(decide (0 < limits.maxPerMinute.toNat) &&
    decide (limits.maxPerMinute.toNat ≤ entry.recentConnects.length % 4294967296))

def tryAdmit (limits : Limits) (state : GuardState) (now : Instant) (ip : IpAddr) : Bool × GuardState :=
  let key := admissionKey ip
  let swept := state.sweep now
  if maxTrackedPrefixes ≤ swept.entries.len ∧ key ∉ swept.entries then (false,swept)
  else
    let entry := ((swept.entries.lookup key).getD .empty).prune now
    if entry.admissible limits then
      let admitted : IpEntry := ⟨entry.active+1,entry.recentConnects ++ [now]⟩
      (true,{swept with entries := swept.entries.insert key admitted})
    else (false,{swept with entries := swept.entries.insert key entry})

def release (state : GuardState) (ip : IpAddr) : GuardState :=
  let key := admissionKey ip
  match state.entries.lookup key with
  | none => state
  | some entry =>
    let active := entry.active - 1
    if active = 0 ∧ entry.recentConnects = [] then {state with entries := state.entries.erase key}
    else {state with entries := state.entries.insert key {entry with active := active}}

-- What the table knows of a key: an absent key counts as an empty entry.
def GuardState.view (state : GuardState) (key : IpAddr) : IpEntry :=
  (state.entries.lookup key).getD .empty

end AegisHoneypot.AdmissionGuard
