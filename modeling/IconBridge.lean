import IconBridge.Algorand.Inbound
import IconBridge.Algorand.Segments
import IconBridge.Algorand.StatusFile
import IconBridge.Bridge.Blacklist
import IconBridge.Bridge.Encoding
import IconBridge.Bridge.NearWire
import IconBridge.Bridge.Provenance
import IconBridge.Bridge.Settleable
import IconBridge.Bridge.TokenLimits
import IconBridge.Go.Algo.Backing
import IconBridge.Go.Algo.Numbering
import IconBridge.Go.Bsc.Finality
import IconBridge.Go.Hmny.Receiver
import IconBridge.Go.Icon.Authenticity
import IconBridge.Go.Near.Receiver
import IconBridge.Go.Senders
import IconBridge.Java.BMC.Acceptance
import IconBridge.Java.BMC.Fragments
import IconBridge.Java.BMC.Ranking
import IconBridge.Java.BMC.RewardTerm
import IconBridge.Java.BTS.Acknowledgements
import IconBridge.Near.BMC.LinkState
import IconBridge.Near.BTS.Custody
import IconBridge.Near.BTS.Ledger
import IconBridge.Near.BTS.Locked
import IconBridge.Near.BTS.Minting
import IconBridge.Solidity.BMC.Reachable
import IconBridge.Solidity.BMC.Reentrancy
import IconBridge.Solidity.BTS.Senders
import IconBridge.Solidity.Split
