import IconBridge.Bridge.Moves
import IconBridge.Java.BTS.Fees
import IconBridge.Solidity.BTS.Pending

/-!
# Transfers between two chains are atomic

How a request ends at its source says what became of it at its destination, as
long as no response fails to be handled. One that fails is answered with an
error under the same serial number, and the chain that sent the response takes
that for an answer to a request of its own.
-/

namespace IconBridge.Bridge

open Lib

/-- A request of either chain is on its way, or one answer to it is, or it has ended, once; and
nothing is said about numbers that no request has. -/
theorem requests_answered_once (p : Parties) (g : Genesis) (acts : List Act)
    (happlies : Along (step p) (Applies p) (start p g) acts) :
    let s := run (step p) (start p g) acts
    let toIcon := (s.toIcon p).map Wire.note
    let toEvm := (s.toEvm p).map Wire.note
    let ofEvm := underway toIcon toEvm
      ((Solidity.BTS.ended s.evm.world.bts).map fun e => ((e.1 : ℤ), e.2))
    let ofIcon := underway toEvm toIcon (Java.BTS.ended s.icon.world.bts)
    (ofEvm.Nodup ∧ ∀ k ∈ ofEvm, k ≤ s.evm.world.bts.serialNo) ∧
    ofIcon.Nodup ∧ ∀ k ∈ ofIcon, k ≤ s.icon.world.bts.sn := by
  intro s
  have hs : Sound p s := run_along (fun _ _ _ hs ha h => step_sound hs ha h) start_sound happlies
  exact ⟨hs.talk.underway, hs.talk.symm.underway⟩

def readBTPAddress (str : String) : Java.Outcome Java.BTPAddress :=
  match Solidity.splitBTPAddress str with
  | .ok (net, contract) => .ok { protocol := "btp", net, contract }
  | .error _ => .error unreadable

def sample : Parties where
  evm := Solidity.BTS.sample
  btsPeriphery := 5
  bmcManagement := 6
  evmAddr := { protocol := "btp", net := "0x38.bsc", contract := "0xb0" }
  icon := { Java.BTS.sample with valueOf := readBTPAddress }
  iconAddr := { protocol := "btp", net := "0x1.icon", contract := "cx02" }
  isOwner a := a = ⟨false, 4⟩
  parse str := { protocol := "btp", net := str, contract := "" }
  isAlphaNumeric _ := true
  btpExceptionOf code message := (code, message)
  share _ _ _ := 0
  periphery_ne := by decide
  valueOf_evm := by decide
  valueOf_icon := by decide
  iconName_ne := by decide
  split_icon := ⟨"cx02", by decide⟩

def sampleGenesis : Genesis where
  evmRelays := [7]
  nativeCoinName := "ETH"
  evmFeeNumerator := 0
  evmFixedFee := 0
  native := Solidity.BTS.sampleAccounts
  evmCode _ := none
  erc20 _ _ := 0
  iconRelays := Dict.empty.put ⟨false, 7⟩ {}
  properties := {}
  iconFeeNumerator := 0
  iconFixedFee := 0
  icx a := if a = Java.BTS.holder then 1000 else 0
  iconCode _ := none
  irc2 _ := {}

def deliverToIcon : Act := .toIcon ⟨false, 7⟩ 1 1 Java.BTS.noReceivers
def deliverToEvm : Act := .toEvm 7 1 []

def evmUser : String := "btp://0x38.bsc/0x0000000000000000000000000000000000000003"
def iconUser : String := "btp://0x1.icon/hx03"

/-- ETH goes to ICON, where it is registered, and ICX to the EVM chain, where it
is not. -/
def exchange : List Act :=
  [.icon (.register ⟨false, 4⟩ "ETH" "ETH" 18 0 0 none ⟨true, 9⟩),
   .evm (.user 3 (.transferNativeCoin iconUser 100)), deliverToIcon, deliverToEvm,
   .icon (.transferNativeCoin Java.BTS.holder 10 evmUser), deliverToEvm, deliverToIcon]

theorem exchange_answered_once :
    let s := run (step sample) (start sample sampleGenesis) exchange
    (1, true) ∈ Solidity.BTS.ended s.evm.world.bts ∧
    (underway ((s.toIcon sample).map Wire.note) ((s.toEvm sample).map Wire.note)
      ((Solidity.BTS.ended s.evm.world.bts).map fun e => ((e.1 : ℤ), e.2))).Nodup :=
  ⟨by decide +kernel, (requests_answered_once sample sampleGenesis exchange (by decide +kernel)).1.1⟩

/-- The holder takes back the tokens of a request that is not yet answered, so
that burning them fails when the answer comes. -/
def crossing : List Act :=
  exchange ++
  [.icon (.tokenApprove ⟨true, 9⟩ Java.BTS.holder sample.icon.bts 60),
   .icon (.transfer Java.BTS.noReceivers Java.BTS.holder "ETH" 60 evmUser),
   .icon (.reclaim Java.BTS.noReceivers Java.BTS.holder "ETH" 60), deliverToEvm,
   .evm (.user 3 (.transferNativeCoin iconUser 50)),
   deliverToIcon, deliverToIcon, deliverToEvm]

end IconBridge.Bridge
