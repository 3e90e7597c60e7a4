import Mathlib.Algebra.Group.Nat.Defs
import Mathlib.Tactic.Common

/-!
# Exceptions and results

The error codes of `exception.h` and the result records every fallible
function returns.  A result carries a value next to the exception, and a caller
that does not look at the exception goes on with that value.  The release
build is modelled, in which an exception is its error code alone.
-/

namespace Sable

/-- The error enumeration.  `tpm` holds the value `ERROR_TPM | error` that
`TPM_ERROR` stores for a nonzero TPM result. -/
inductive Error
  | none
  | badElfHeader
  | sha1DataSize
  | noModule
  | badModule
  | badMbi
  | noMbi
  | badTpmVendor
  | tisTransmit
  | tisLocalityRegisterInvalid
  | tisLocalityAccessTimeout
  | tisLocalityAlreadyAccessed
  | tisLocalityDeactivate
  | pci
  | apic
  | dev
  | svmEnable
  | noExt
  | noApic
  | noSvm
  | bufferOverflow
  | tpmBadOutputParam
  | tpmBadOutputAuth
  | tpm (code : UInt32)
  deriving DecidableEq, Repr

/-- Ways in which the boot loader stops without returning to its caller.
`exit` covers failed assertions, which end in a reboot; `fault` is an access
through a null pointer; `blocked` waits for a key that never comes and `spin`
is a loop that never ends.  `overrun` is a write behind the end of an object:
what the code does then depends on what lies there, and no run goes on. -/
inductive Halt
  | exit
  | reboot
  | fault
  | blocked
  | spin
  | overrun
  deriving DecidableEq, Repr

/-- The records generated by `RESULT_GEN`. -/
structure Result (α : Type) where
  exception : Error
  value : α
  deriving DecidableEq

namespace Result

def ok {α : Type} (value : α) : Result α :=
  ⟨.none, value⟩

def error {α : Type} (exception : Error) (value : α) : Result α :=
  ⟨exception, value⟩

@[simp]
theorem exception_ok {α : Type} (value : α) : (ok value).exception = .none :=
  rfl

@[simp]
theorem value_ok {α : Type} (value : α) : (ok value).value = value :=
  rfl

@[simp]
theorem exception_error {α : Type} (exception : Error) (value : α) :
    (error exception value).exception = exception :=
  rfl

/-- A result without an exception is its value. -/
theorem eq_ok {α : Type} {result : Result α} (none : result.exception = .none) :
    result = ok result.value := by
  rw [ok, ← none]

end Result

end Sable
