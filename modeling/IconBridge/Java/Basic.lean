import Mathlib.Data.Int.Notation
import IconBridge.Lib.Digits
import IconBridge.Lib.Outcome

/-!
# Contracts on the Java virtual machine of ICON

Addresses, exceptions and the conversions of `BigInteger` that contracts
use. An exception that leaves a call undoes what the call has written; one that
is caught in the method that threw it does not.
-/

namespace IconBridge.Java

open Lib

/-- `cx…` names a contract and `hx…` an account. -/
structure Address where
  isContract : Bool
  body : BitVec 160
  deriving DecidableEq, Repr

def Address.toString (a : Address) : String :=
  (if a.isContract then "cx" else "hx") ++
    String.ofList ((toDigits 16 40 a.body.toNat).map Nat.digitChar)

/-- The exceptions that handlers tell apart: `BTPException`, the
`UserRevertedException` of a called contract, and any other. -/
inductive Exc
  | btp (code : ℤ) (message : String)
  | reverted (code : ℤ) (message : String)
  | other (message : String)
  deriving DecidableEq, Repr

abbrev Outcome := Except Exc

/-- Access to a reference that may be `null`. -/
def nonNull : Option α → Outcome α
  | some a => .ok a
  | none => .error (.other "NullPointerException")

theorem nonNull_ok : nonNull x = .ok a ↔ x = some a := by
  cases x <;> simp [nonNull]

theorem nonNull_ne_btp : nonNull x ≠ .error (.btp code m) := by
  cases x <;> simp [nonNull]

/-- `BigInteger.longValue` keeps the low 64 bits. -/
def longValue (n : ℤ) : ℤ := Int.bmod n (2 ^ 64)

structure BTPAddress where
  protocol : String
  net : String
  contract : String
  deriving DecidableEq, Repr

def BTPAddress.toString (a : BTPAddress) : String :=
  a.protocol ++ "://" ++ a.net ++ "/" ++ a.contract

end IconBridge.Java
