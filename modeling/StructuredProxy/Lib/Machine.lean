import Mathlib.Algebra.Ring.Nat

/-!
# Machine arithmetic

Durations count nanoseconds and panic when they overflow. A sum or a difference of two `u64` panics when
integer overflow is checked, and wraps when it is not. A byte is one of 256.
-/

namespace StructuredProxy.Lib

def nanosPerSec : Nat := 1000000000

/-- `Duration::MAX`: `u64::MAX` seconds and 999999999 nanoseconds. -/
def maxDuration : Nat := 2 ^ 64 * nanosPerSec - 1

def duration (nanos : Nat) : Option Nat := if nanos ≤ maxDuration then some nanos else none

/-- Whether a sum that overflows panics or wraps. -/
inductive Overflow where
  | panics
  | wraps
deriving DecidableEq

def addU64 (overflow : Overflow) (a b : Nat) : Option Nat :=
  if a + b < 2 ^ 64 then some (a + b)
  else
    match overflow with
    | .panics => none
    | .wraps => some ((a + b) % 2 ^ 64)

def subU64 (overflow : Overflow) (a b : Nat) : Option Nat :=
  if b ≤ a then some (a - b)
  else
    match overflow with
    | .panics => none
    | .wraps => some (a + 2 ^ 64 - b)

/-- `fetch_sub` of a 64-bit counter wraps. -/
def wrappingSub (a b : Nat) : Nat := (a + 2 ^ 64 - b % 2 ^ 64) % 2 ^ 64

theorem wrappingSub_of_le {a b : Nat} (hle : b ≤ a) (ha : a < 2 ^ 64) : wrappingSub a b = a - b := by
  rw [wrappingSub]
  omega

theorem duration_eq_some {nanos d : Nat} : duration nanos = some d ↔ nanos ≤ maxDuration ∧ nanos = d := by
  unfold duration
  split
  · rename_i hle
    simp [hle]
  · rename_i hle
    simp [hle]

theorem addU64_of_lt (overflow : Overflow) {a b : Nat} (h : a + b < 2 ^ 64) :
    addU64 overflow a b = some (a + b) := if_pos h

theorem byte_forall {holds : UInt8 → Prop} (h : ∀ n : Fin 256, holds (UInt8.ofNat n.val))
    (byte : UInt8) : holds byte := by
  have hbyte := h ⟨byte.toNat, byte.toNat_lt⟩
  rwa [show UInt8.ofNat byte.toNat = byte from UInt8.ofNat_toNat] at hbyte

end StructuredProxy.Lib
