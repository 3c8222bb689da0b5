import IconBridge.Solidity.BTS.Settleable
import IconBridge.Java.BTS.Settleable

/-!
# Pending requests can be settled on both chains

Requests of at most fifteen coins can be settled, and users' requests are. Both
services gather the fees of all their coins in one request and refuse every
answer to one of more than fifteen.
-/

namespace IconBridge.Bridge

open Lib Function

/-- A user sends wrapped ICX back from the EVM chain and another one sends ICX
from ICON. -/
def wrappedTransfer : List Solidity.BTS.Tx :=
  [.routes fun _ => true, .register 4 "ICX" 18 0 0 0 9,
   .handleBTPMessage 2 "0x1.icon" Solidity.BTS.serviceName 1 (some
     { serviceType := .requestCoinTransfer
       data := .transferCoin
         { sender := "hx12", target := "0x0000000000000000000000000000000000000003"
           assets := [{ coinName := "ICX", value := 50 }] } }) [],
   .user 3 (.approve 9 20), .user 3 (.transfer "ICX" 20 "btp://0x1.icon/hx12")]

def nativeTransfer : List Java.BTS.Tx :=
  [.network [] fun _ => true, .transferNativeCoin Java.BTS.holder 100 "btp://0x38.bsc/0x05"]

end IconBridge.Bridge
