import IconBridge.Lib.RLP
import IconBridge.Java.Token.Payload
import IconBridge.Java.BTS.State

/-!
# Service messages in bytes

The requests that `BTPTokenService` sends, as the `RLPn` codec writes them. An
integer is written in two's complement. The number of items that a writer
announces for a list is not written.
-/

namespace IconBridge.Java.BTS

open Lib

def writeList (items : List Bytes) : Bytes := RLP.head 0xc0 items.flatten.length ++ items.flatten

def writeString (str : String) : Bytes := RLP.encodeString (utf8 str)

def writeInteger (n : ℤ) : Bytes := RLP.encodeString (Token.toByteArray n)

def Asset.write (a : Asset) : Bytes := writeList [writeString a.coinName, writeInteger a.amount]

/-- `TransferRequest.toBytes` -/
def TransferRequest.toBytes (r : TransferRequest) : Bytes :=
  writeList [writeString r.sender, writeString r.target, writeList (r.assets.map Asset.write)]

/-- `TokenLimitRequest.toBytes` -/
def TokenLimitRequest.toBytes (r : TokenLimitRequest) : Bytes :=
  writeList [writeList (r.coinName.map writeString), writeList (r.tokenLimit.map writeInteger),
    writeString r.net]

def ServiceType.code : ServiceType → ℤ
  | .requestCoinTransfer => 0
  | .requestCoinRegister => 1
  | .responseHandleService => 2
  | .blacklistMessage => 3
  | .changeTokenLimit => 4
  | .unknownType => 5
  | .other n => n

/-- `BTSMessage.toBytes` -/
def writeBTSMessage (serviceType : ServiceType) (data : Bytes) : Bytes :=
  writeList [writeInteger serviceType.code, RLP.encodeString data]

end IconBridge.Java.BTS
