import Quark.Base.Efi
import Quark.Machine.Memory

/-!
# The divider of the SD clock

`DividedClockModeBits` of `SDController.c`: the frequency select bits for a target frequency. The message with the
frequency it comes to is left out.
-/

namespace Quark.SdMedia

open Machine

abbrev vMmioClkctlMax8BitFreqSel : Nat := 0x80
abbrev vMmioClkctlMax10BitFreqSel : Nat := 0x3FF

/-- Why a search does not return: the processor faults on a division by zero, or the loop of the model ends before
the one of the code. -/
inductive DividerFault where
  | divideError
  | unfinished
  deriving DecidableEq

/-- `a / b` on `UINTN`. -/
def divide (a b : Nat) : Except DividerFault Nat := if b = 0 then .error .divideError else .ok (a / b)

/-- The loop for 8 bits. `N` is doubled at most eight times. -/
def search8Bit (baseClockFreq targetFreq : Nat) : Nat → Nat → Except DividerFault (Except EfiStatus Nat)
  | 0, _ => .error .unfinished
  | fuel + 1, n => do
    let currFreq ← divide baseClockFreq (u32 (2 * n))
    if targetFreq ≥ currFreq then
      pure (.ok n)
    else
      let n := u32 (n * 2)
      if n > vMmioClkctlMax8BitFreqSel then pure (.error .unsupported)
      else search8Bit baseClockFreq targetFreq fuel n

/-- The value for 10 bits when the base clock divided by two is still too fast: "can only be N or N+1". -/
def calculate10Bit (baseClockFreq targetFreq : Nat) : Except DividerFault Nat := do
  let n := (← divide baseClockFreq targetFreq) / 2
  let currFreq ← divide baseClockFreq (u32 (2 * n))
  if targetFreq < currFreq then
    let n := u32 (n + 1)
    let _ ← divide baseClockFreq (u32 (2 * n))
    pure n
  else
    pure n

/-- Bits 7:6, from bits 9:8 of `N`. -/
def upperFreqSel (n : Nat) : BitVec 16 := BitVec.ofNat 16 ((n >>> 2) &&& 0xC0)

/-- Bits 15:8, from bits 7:0 of `N`. -/
def lowerFreqSel (n : Nat) : BitVec 16 := BitVec.ofNat 16 (n % 256) <<< 8

/-- `DividedClockModeBits`. When it is not successful, `*Bits` is 0. -/
def dividedClockModeBits (baseClockFreq targetFreq : BitVec 32) (is8BitMode : Bool) :
    Except DividerFault (Except EfiStatus (BitVec 16)) :=
  if targetFreq.toNat < baseClockFreq.toNat then
    if is8BitMode then do
      match ← search8Bit baseClockFreq.toNat targetFreq.toNat 8 1 with
      | .ok n => pure (.ok (lowerFreqSel n))
      | .error status => pure (.error status)
    else do
      let currFreq ← divide baseClockFreq.toNat (u32 (2 * 1))
      if targetFreq.toNat < currFreq then do
        let n ← calculate10Bit baseClockFreq.toNat targetFreq.toNat
        if n > vMmioClkctlMax10BitFreqSel then pure (.error .unsupported)
        else pure (.ok (upperFreqSel n ||| lowerFreqSel n))
      else
        pure (.ok (lowerFreqSel 1))
  else
    pure (.ok (lowerFreqSel 0))

/-! ## The fastest clock that is not above the target -/

/-- `N` as the controller reads it from the bits. -/
def freqSel (bits : BitVec 16) : Nat := (bits >>> 8).toNat + 256 * ((bits >>> 6) &&& 3).toNat

def divider (n : Nat) : Nat := if n = 0 then 1 else 2 * n

/-- The values of `N` in a mode. -/
def Admissible (is8BitMode : Bool) (n : Nat) : Prop :=
  if is8BitMode then n = 0 ∨ ∃ k ≤ 7, n = 2 ^ k else n ≤ vMmioClkctlMax10BitFreqSel

def AboveWhole (base target n : Nat) : Prop := target < base / divider n

def AboveExact (base target n : Nat) : Prop := target * divider n < base

/-- The bits are for an admissible divider whose clock is at most the target in whole hertz, and smaller dividers
are above it; or all admissible dividers are. -/
def Fastest (base target : Nat) (is8BitMode : Bool) (above : Nat → Prop) : Except EfiStatus (BitVec 16) → Prop
  | .ok bits => Admissible is8BitMode (freqSel bits) ∧ base / divider (freqSel bits) ≤ target ∧
      ∀ n, Admissible is8BitMode n → divider n < divider (freqSel bits) → above n
  | .error status => status = .unsupported ∧ ∀ n, Admissible is8BitMode n → above n

end Quark.SdMedia
