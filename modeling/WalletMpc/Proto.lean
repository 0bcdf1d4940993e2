import Mathlib.Data.Finmap

namespace WalletMpc.Proto
set_option autoImplicit true

abbrev Bytes := List UInt8

/-- A map keyed by account id, `HashMap<String, _>`. -/
abbrev Accounts (V : Type) : Type := Finmap fun _ : String => V

inductive Chain where
  | ethereum
  | bitcoin
  deriving DecidableEq

def Chain.toInt32 : Chain → Int32
  | .ethereum => 0
  | .bitcoin => 1

def Chain.tryFrom (n : Int32) : Option Chain :=
  if n = 0 then some .ethereum else if n = 1 then some .bitcoin else none

theorem Chain.tryFrom_toInt32 (c : Chain) : Chain.tryFrom c.toInt32 = some c := by
  cases c with
  | ethereum => rfl
  | bitcoin => rfl

structure SignMessage where
  txId : Int32
  executionId : Bytes
  chain : Int32
  data : Bytes
  accountId : String

structure SignatureMessage where
  r : Bytes
  s : Bytes
  v : UInt32
  deriving DecidableEq

inductive Code where
  | ok
  | cancelled
  | unknown
  | invalidArgument
  | deadlineExceeded
  | notFound
  | alreadyExists
  | permissionDenied
  | resourceExhausted
  | failedPrecondition
  | aborted
  | outOfRange
  | unimplemented
  | internal
  | unavailable
  | dataLoss
  | unauthenticated
  deriving DecidableEq

structure Status where
  code : Code
  message : String
  deriving DecidableEq

abbrev Reply := Except Status SignatureMessage

end WalletMpc.Proto
