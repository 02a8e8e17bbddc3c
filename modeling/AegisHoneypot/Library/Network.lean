import Mathlib.Data.Nat.Bitwise

-- Networks of addresses: those that share their leading bits with a base
-- address, out of addresses of `size` bits.
namespace Network

structure Net where
  base : Nat
  bits : Nat

def Net.Holds (size : Nat) (net : Net) (address : Nat) : Prop :=
  address / 2^(size-net.bits) = net.base / 2^(size-net.bits)

def Among (size : Nat) (nets : List Net) (address : Nat) : Prop := ∃ net ∈ nets, net.Holds size address

theorem among_cons (size : Nat) (net : Net) (nets : List Net) (address : Nat) :
    Among size (net :: nets) address ↔ net.Holds size address ∨ Among size nets address := by
  simp [Among]

theorem among_nil (size address : Nat) : ¬ Among size [] address := by
  intro given
  obtain ⟨net,member,_⟩ := given
  cases member

-- A mask of leading ones clears the bits behind it.
theorem mask_leading (value : Nat) (small : value < 2^(low+high)) :
    value &&& (2^high-1)*2^low = value / 2^low * 2^low := by
  apply Nat.eq_of_testBit_eq
  intro place
  rw [Nat.testBit_and,Nat.testBit_mul_two_pow,Nat.testBit_mul_two_pow,Nat.testBit_div_two_pow,Nat.testBit_two_pow_sub_one]
  by_cases behind : low ≤ place
  · have same : place-low+low = place := Nat.sub_add_cancel behind
    simp only [behind,decide_true,Bool.true_and,same]
    by_cases leading : place-low < high
    · simp [leading]
    · have beyond : value < 2^place := lt_of_lt_of_le small (Nat.pow_le_pow_right (by decide) (by omega))
      simp [Nat.testBit_lt_two_pow beyond]
  · simp [behind]

end Network
