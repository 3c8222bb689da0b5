import IconBridge.Java.IRC2
import IconBridge.Java.Token.Payload

/-!
# `WrappedToken`

The token that stands for an Algorand asset on ICON: a message from Algorand
mints it, and `burn` sends a message back.
-/

namespace IconBridge.Java.Token.WrappedToken

open Lib

structure Config where
  self : Address
  target : String
  bmc : Address
  asaId : ℤ

def service : String := "wtt"

structure St where
  sn : ℤ := 0
  lastReceivedErrorMessage : String := "BTP Error Message"
  token : IRC2 := {}
  sent : List Sent := []

/-- The payload is `null` when the message has none. -/
def handleBTPMessage (c : Config) (s : St) (caller : Address) (msg : Option Bytes) : Outcome St := do
  require (caller = c.bmc) (.reverted 0 "Only BMC")
  let msg ← nonNull msg
  let (amount, dst) ← readMessage msg
  let token ← s.token.mint dst amount
  return { s with token, sn := s.sn + 1 }

def handleBTPError (s : St) (msg : String) : St := { s with lastReceivedErrorMessage := msg }

def burn (c : Config) (s : St) (linked : Bool) (caller : Address) (algoPubKey : Bytes) (amount : ℤ) :
    Outcome St := do
  require (amount ≤ maxUint64) (.reverted 0 "Amount too big")
  require (0 < amount) (.reverted 0 "Amount should be positive")
  let token ← s.token.burn caller amount
  let sn := s.sn + 1
  let message := transferMessage c.asaId algoPubKey amount
  require linked (.reverted 21 "Unreachable")
  return { s with token, sn, sent := s.sent ++ [{ target := c.target, svc := service, sn, message }] }

/-- The amount is minted to the address in the message, unless that is the zero
address. -/
theorem handleBTPMessage_of_read (hread : readMessage msg = .ok (amount, dst)) :
    handleBTPMessage c s c.bmc (some msg) =
      if dst = zeroAddress then .error (.reverted 0 "Owner address cannot be zero address")
      else .ok { s with token := s.token.minted dst amount, sn := s.sn + 1 } := by
  simp only [handleBTPMessage, decide_true, require_true, ok_bind, nonNull, hread, IRC2.mint_natCast]
  split <;> rfl

end IconBridge.Java.Token.WrappedToken
