import Mathlib

/-!
# Native definitions the modelled code shares

`NTSTATUS` codes are 32-bit words and success is the sign bit being clear.
The codes are those the modelled functions name. `ULONG` and `USHORT`
arithmetic is natural-number arithmetic reduced modulo the width wherever the
source can leave the range; the checked additions of `ntintsafe.h` compare the
reduced sum with the augend, exactly as the header does.
-/

namespace SystemInformer

abbrev NtStatus := UInt32

/-- `NT_SUCCESS`: the status, read as a signed word, is not negative. -/
def ntSuccess (status : NtStatus) : Bool := status.toNat < 2 ^ 31

def statusSuccess : NtStatus := 0x00000000
def statusTimeout : NtStatus := 0x00000102
def statusBufferOverflow : NtStatus := 0x80000005
def statusDatatypeMisalignment : NtStatus := 0x80000002
def statusUnsuccessful : NtStatus := 0xC0000001
def statusInfoLengthMismatch : NtStatus := 0xC0000004
def statusAccessViolation : NtStatus := 0xC0000005
def statusNoMemory : NtStatus := 0xC0000017
def statusInvalidParameter : NtStatus := 0xC000000D
def statusAccessDenied : NtStatus := 0xC0000022
def statusInvalidParameterMix : NtStatus := 0xC0000030
def statusAlreadyCommitted : NtStatus := 0xC0000021
def statusBufferTooSmall : NtStatus := 0xC0000023
def statusRevisionMismatch : NtStatus := 0xC0000059
def statusIntegerOverflow : NtStatus := 0xC0000095
def statusInvalidImageFormat : NtStatus := 0xC000007B
def statusInvalidSid : NtStatus := 0xC0000078
def statusInsufficientResources : NtStatus := 0xC000009A
def statusIoTimeout : NtStatus := 0xC00000B5
def statusNotSupported : NtStatus := 0xC00000BB
def statusUnexpectedIoError : NtStatus := 0xC00000E9
def statusInvalidParameter1 : NtStatus := 0xC00000EF
def statusInvalidParameter2 : NtStatus := 0xC00000F0
def statusInvalidParameter3 : NtStatus := 0xC00000F1
def statusResourceNotOwned : NtStatus := 0xC0000264
def statusConnectionDisconnected : NtStatus := 0xC000020C
def statusInvalidBufferSize : NtStatus := 0xC0000206
def statusReplyMessageMismatch : NtStatus := 0xC000021F
def statusNotFound : NtStatus := 0xC0000225
def statusNoInterface : NtStatus := 0xC00002B9
def statusMessageNotFound : NtStatus := 0xC0000109
def statusInvalidStateTransition : NtStatus := 0xC000A003
def statusHeapCorruption : NtStatus := 0xC0000374
def statusInvalidMessage : NtStatus := 0xC0000702
def statusContextMismatch : NtStatus := 0xC0000719

/-- The range of a `USHORT`. -/
def ushortRange : Nat := 2 ^ 16

/-- The range of a `ULONG`. -/
def ulongRange : Nat := 2 ^ 32

def ulongMax : Nat := 2 ^ 32 - 1

def rtlULongSub (minuend subtrahend : Nat) : Except NtStatus Nat :=
  if minuend ≥ subtrahend then .ok (minuend - subtrahend) else .error statusIntegerOverflow

/-- `RtlULongMult`: the product as a 64-bit number, if it is a `ULONG`. -/
def rtlULongMult (multiplicand multiplier : Nat) : Except NtStatus Nat :=
  if multiplicand * multiplier ≤ ulongMax then .ok (multiplicand * multiplier)
  else .error statusIntegerOverflow

/-- `RtlUShortAdd`: the sum, or an overflow status when the reduced sum falls
below the augend. -/
def rtlUShortAdd (augend addend : Nat) : Except NtStatus Nat :=
  if (augend + addend) % ushortRange ≥ augend then
    .ok ((augend + addend) % ushortRange)
  else
    .error statusIntegerOverflow

def rtlULongAdd (augend addend : Nat) : Except NtStatus Nat :=
  if (augend + addend) % ulongRange ≥ augend then
    .ok ((augend + addend) % ulongRange)
  else
    .error statusIntegerOverflow

theorem rtlUShortAdd_eq {a b : Nat} (ha : a < 2 ^ 16) (hb : b < 2 ^ 16) :
    rtlUShortAdd a b =
      if a + b < 2 ^ 16 then .ok (a + b) else .error statusIntegerOverflow := by
  unfold rtlUShortAdd ushortRange
  by_cases h : a + b < 2 ^ 16
  · rw [if_pos h, Nat.mod_eq_of_lt h, if_pos (by omega)]
  · rw [if_neg h, if_neg (by omega)]

theorem rtlULongAdd_eq {a b : Nat} (ha : a < 2 ^ 32) (hb : b < 2 ^ 32) :
    rtlULongAdd a b =
      if a + b < 2 ^ 32 then .ok (a + b) else .error statusIntegerOverflow := by
  unfold rtlULongAdd ulongRange
  by_cases h : a + b < 2 ^ 32
  · rw [if_pos h, Nat.mod_eq_of_lt h, if_pos (by omega)]
  · rw [if_neg h, if_neg (by omega)]

end SystemInformer
