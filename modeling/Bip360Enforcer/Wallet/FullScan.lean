import Mathlib.Order.Bounds.Basic

/-!
# The full scan for used addresses
-/

namespace Bip360Enforcer.Wallet

inductive KeychainKind where
  | external
  | internal
  deriving DecidableEq, Repr

inductive FullScanError where
  | checkAddressTransactions (index : Nat)
  /-- The search for an unused address does not come to its end. -/
  | diverged
  deriving DecidableEq, Repr

def step : Nat := 1000

section

variable (addressHasTxs : Nat → Except FullScanError Bool)

/-- First find an upper bound, incrementing by `step` until an address is unused. -/
def findUpperBound : Nat → Nat → Except FullScanError Nat
  | 0, _ => .error .diverged
  | fuel + 1, lastUsedIndex => do
      if ← addressHasTxs lastUsedIndex then findUpperBound fuel (lastUsedIndex + step)
      else pure lastUsedIndex

/-- Now binary search between `low` and `high`. -/
def binarySearch (low high : Nat) : Except FullScanError Nat :=
  if h : low < high then do
    let mid := low + (high - low) / 2
    if ← addressHasTxs mid then binarySearch (mid + 1) high else binarySearch low mid
  else pure low
termination_by high - low

/-- The index up to which the addresses of a keychain are revealed. -/
def scanKeychain (fuel : Nat) : Except FullScanError Nat := do
  let lastUsedIndex ← findUpperBound addressHasTxs fuel 0
  binarySearch addressHasTxs (lastUsedIndex - step) lastUsedIndex

end

/-- The indices passed to `reveal_addresses_to`, one for each keychain. -/
def fullScan {κ : Type} (keychains : List κ) (addressHasTxs : κ → Nat → Except FullScanError Bool)
    (fuel : Nat) : Except FullScanError (List (κ × Nat)) :=
  keychains.mapM fun keychain => do
    let low ← scanKeychain (addressHasTxs keychain) fuel
    pure (keychain, low)

end Bip360Enforcer.Wallet
