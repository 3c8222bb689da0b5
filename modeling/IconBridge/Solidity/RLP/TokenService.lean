import IconBridge.Solidity.RLP.Struct

/-!
# Service messages in memory

What `RLPDecodeStruct` of the token service reads of a request.
-/

namespace IconBridge.Solidity.RLP

open Lib

structure ServiceMessage where
  serviceType : ℕ
  data : Bytes
  deriving DecidableEq, Repr

structure Asset where
  coinName : Bytes
  value : ℕ
  deriving DecidableEq, Repr

structure TransferCoin where
  sender : Bytes
  target : Bytes
  assets : List Asset
  deriving DecidableEq, Repr

structure TokenLimitMessage where
  coinName : List Bytes
  tokenLimit : List ℕ
  net : Bytes
  deriving DecidableEq, Repr

section Decode

variable (behind : Bytes → Bytes)

/-- `Types.ServiceType` has six values. -/
def decodeServiceMessage (_rlp : Bytes) : Outcome ServiceMessage := do
  let ls ← toList (toRlpItem behind _rlp)
  let serviceType ← toUint (← elem ls 0)
  require (serviceType < 6) (.panic 0x21)
  return { serviceType, data := ← toBytes (← elem ls 1) }

def toAsset (item : RLPItem) : Outcome Asset := do
  return { coinName := ← toBytes (← elem (← toList item) 0)
           value := ← toUint (← elem (← toList item) 1) }

def decodeTransferCoinMsg (_rlp : Bytes) : Outcome TransferCoin := do
  let ls ← toList (toRlpItem behind _rlp)
  let rlpAssets ← toList (← elem ls 2)
  let assets ← rlpAssets.mapM toAsset
  return { sender := ← toBytes (← elem ls 0), target := ← toBytes (← elem ls 1), assets }

def decodeTokenLimitMsg (_rlp : Bytes) : Outcome TokenLimitMessage := do
  let ls ← toList (toRlpItem behind _rlp)
  let subList1 ← toList (← elem ls 0)
  let coinName ← subList1.mapM toBytes
  let subList2 ← toList (← elem ls 1)
  let tokenLimit ← subList2.mapM toUint
  return { coinName, tokenLimit, net := ← toBytes (← elem ls 2) }

end Decode

end IconBridge.Solidity.RLP
