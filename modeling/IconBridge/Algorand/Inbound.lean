import IconBridge.Java.BMC.MessageCenter
import IconBridge.Java.BMC.Wire
import IconBridge.Java.Token.WrappedToken
import IconBridge.Algorand.Chain

/-!
# From Algorand to ICON

The relay numbers a message with an unsigned integer, the message center of
ICON reads a signed one. A number that fills its bytes to the last bit arrives
as a negative number, which marks an error.
-/

namespace IconBridge.Algorand

open Lib Java List

/-- The message center reads RLP, and its contracts include a wrapped token. -/
structure Center (c : BMC.Config Token.WrappedToken.St Bytes) (k : Token.WrappedToken.Config) :
    Prop where
  reads : c.codec.btpMessage = BMC.readBTPMessage c.valueOf
  calls : ∀ reach w src svc sn msg, c.contracts.handleBTPMessage k.self reach w src svc sn msg = do
    return (← Token.WrappedToken.handleBTPMessage k w k.bmc msg, [])

def minted (w : Token.WrappedToken.St) (target : Address) (amount : ℕ) : Token.WrappedToken.St :=
  { w with token := w.token.minted target amount, sn := w.sn + 1 }

/-- An event is read with a serial number, and all it does is to mint. -/
def Mints (c : BMC.Config Token.WrappedToken.St Bytes) (prev : BTPAddress)
    (st : BMC.St Token.WrappedToken.St Bytes) (ev : BMC.EventDataBTPMessage Bytes) (sn : ℕ)
    (target : Address) (amount : ℕ) : Prop :=
  (∃ m, c.codec.btpMessage ev.msg = .ok m ∧ m.sn = some (sn : ℤ)) ∧
  BMC.processEvent c prev st ev =
    .ok { st with world := minted st.world target amount, received := st.received ++ [(prev, ev)] }

theorem readMessage_depositMessage (isContract : Bool) (hamount : amount < 2 ^ 64) (hdst : dst.length = 20) :
    Token.readMessage (depositMessage amount isContract dst) =
      .ok (amount, ⟨isContract, BitVec.ofNat 160 (ofBytes dst)⟩) := by
  obtain ⟨flag, hflag⟩ : ∃ flag : UInt8, flag = if isContract then 0x80 else 0x00 := ⟨_, rfl⟩
  have hmsg : depositMessage amount isContract dst = toBytes 8 amount ++ flag :: dst := by
    rw [depositMessage, hflag]
  have hlen : (toBytes 8 amount ++ flag :: dst).length = 29 := by simp [hdst]
  have htake : (toBytes 8 amount ++ flag :: dst).take 8 = toBytes 8 amount :=
    take_left' length_toBytes
  have hget : (toBytes 8 amount ++ flag :: dst).getD 8 0 = flag := by
    rw [getD_eq_getElem?_getD, getElem?_append_right (by simp)]
    simp
  have hdrop : (toBytes 8 amount ++ flag :: dst).drop 9 = dst := by
    rw [show toBytes 8 amount ++ flag :: dst = (toBytes 8 amount ++ [flag]) ++ dst by simp]
    exact drop_left' (by simp)
  have hcontract : (flag != 0) = isContract := by cases isContract <;> simp [hflag]
  have hvalue : ofBytes (toBytes 8 amount) = amount := by
    rw [ofBytes_toBytes, Nat.mod_eq_of_lt (by simpa using hamount)]
  rw [hmsg, Token.readMessage_ok hlen, htake, hget, hdrop, hcontract, hvalue]

theorem minBytes_ne_nil (h : 1 ≤ n) : minBytes n ≠ [] := by
  intro hnil
  have hval := ofBytes_minBytes n
  rw [hnil, ofBytes_nil] at hval
  omega

theorem btpMessage_relayed {event : Event} (hc : Center c k) (hs : 1 ≤ s)
    (hevent : getEventFromMsg src d s svc args = .ok event) (hlen : event.message.length < 2 ^ 64)
    (hsrc : c.valueOf src = .ok srcAddr) (hd : c.valueOf d = .ok dstAddr) :
    c.codec.btpMessage event.message =
      .ok { src := some srcAddr, dst := some dstAddr, svc := some svc, sn := some (signed (minBytes s)),
            payload := some args.msg } := by
  simp only [getEventFromMsg, bind_ok, pure_ok] at hevent
  obtain ⟨_, -, rfl⟩ := hevent
  rw [hc.reads, encodeBMCMessage]
  refine BMC.readBTPMessage_encodeList (minBytes_ne_nil hs) ?_ hsrc hd
  simp only [encodeBMCMessage, RLP.encodeList, length_append] at hlen
  omega

variable {c : BMC.Config Token.WrappedToken.St Bytes} {st st' : BMC.St Token.WrappedToken.St Bytes}
  {prev : BTPAddress}

theorem deliverMessage_token {m : BMC.BTPMessage Bytes} (sn : ℤ) (hc : Center c k)
    (hservice : st.services.val svc = some k.self) (hsrc : m.src = some srcAddr)
    (hpayload : m.payload = some msg) (hread : Token.readMessage msg = .ok (amount, target)) :
    BMC.deliverMessage c st m svc sn =
      if target = zeroAddress then .error (.reverted 0 "Owner address cannot be zero address")
      else .ok { st with world := minted st.world target amount } := by
  simp only [BMC.deliverMessage, BMC.getService, hservice, ok_bind, hsrc, nonNull, BMC.callService,
    hc.calls, hpayload, Token.WrappedToken.handleBTPMessage_of_read hread]
  split <;> rfl

theorem sendError_world {m : BMC.BTPMessage Bytes}
    (h : BMC.sendError c st prev m code message = .ok st') : st'.world = st.world := by
  simp only [BMC.sendError, bind_ok] at h
  obtain ⟨sn, -, h⟩ := h
  split at h
  · simp only [BMC.emitMessage, bind_ok, pure_ok] at h
    obtain ⟨l, -, rfl⟩ := h
    rfl
  · cases h; rfl

theorem handleService_token {m : BMC.BTPMessage Bytes} (hc : Center c k)
    (hservice : st.services.val svc = some k.self) (hsrc : m.src = some srcAddr)
    (hsn : m.sn = some sn) (hpos : 0 ≤ sn) (hpayload : m.payload = some msg)
    (hread : Token.readMessage msg = .ok (amount, target)) :
    BMC.handleService c st prev m svc = .ok { st with world := minted st.world target amount } ↔
      target ≠ zeroAddress := by
  have hdeliver := deliverMessage_token sn hc hservice hsrc hpayload hread
  simp only [BMC.handleService, hsn, nonNull, ok_bind, if_pos hpos, hdeliver]
  by_cases hzero : target = zeroAddress
  · -- the error goes back, and the token has not changed
    rw [if_pos hzero]
    simp only [hzero, ne_eq, not_true, iff_false]
    intro h
    have hworld := congrArg Token.WrappedToken.St.sn (sendError_world h)
    simp [minted] at hworld
  · rw [if_neg hzero]
    simp only [ne_eq, hzero, not_false_iff, iff_true]
    rfl

def sampleWrapped : Token.WrappedToken.Config where
  self := ⟨true, 9⟩
  target := "btp://algorand/0x2"
  bmc := ⟨true, 2⟩
  asaId := 7

def sampleCenter : BMC.Config Token.WrappedToken.St Bytes where
  btpAddr := ⟨"btp", "0x1.icon", "cx2"⟩
  isOwner _ := false
  valueOf str := .ok (if str = "btp://0x1.icon/cx2" then ⟨"btp", "0x1.icon", "cx2"⟩
    else ⟨"btp", "algorand", "0x2"⟩)
  parse _ := ⟨"btp", "algorand", "0x2"⟩
  isAlphaNumeric _ := true
  btpExceptionOf code message := (code, message)
  share _ _ _ := 0
  codec :=
    { relayMessage := fun _ => .error BMC.illegalState
      btpMessage := BMC.readBTPMessage fun str => .ok (if str = "btp://0x1.icon/cx2" then
        ⟨"btp", "0x1.icon", "cx2"⟩ else ⟨"btp", "algorand", "0x2"⟩)
      bmcMessage := fun _ => .error BMC.illegalState
      initMessage := fun _ => .error BMC.illegalState
      linkMessage := fun _ => .error BMC.illegalState
      unlinkMessage := fun _ => .error BMC.illegalState
      sackMessage := fun _ => .error BMC.illegalState
      feeGatheringMessage := fun _ => .error BMC.illegalState
      errorMessage := fun _ => .error BMC.illegalState
      ofBTPMessage := BMC.writeBTPMessage
      ofBMCMessage := fun _ => []
      ofInitMessage := fun _ => []
      ofLinkMessage := fun _ => []
      ofUnlinkMessage := fun _ => []
      ofFeeGatheringMessage := fun _ => []
      ofErrorMessage := fun _ => [] }
  contracts :=
    { handleBTPMessage := fun _ _ w _ _ _ msg => do
        return (← Token.WrappedToken.handleBTPMessage sampleWrapped w sampleWrapped.bmc msg, [])
      handleBTPError := fun _ _ w _ _ _ _ msg => .ok (Token.WrappedToken.handleBTPError w msg, [])
      handleFeeGathering := fun _ _ w _ _ => .ok (w, []) }

def sampleCenterState : BMC.St Token.WrappedToken.St Bytes :=
  { world := {}, services := Dict.empty.put "wtt" sampleWrapped.self }

def sampleApp : App where
  initialized := true
  bmcId := 3
  receiverAddress := "btp://0x1.icon/cx2"
  assetId := 7
  address := [1]

def sampleGroup (amount : ℕ) : Group where
  groupIndex := 0
  sender := [2]
  payment :=
    { sender := [2], isAssetTransfer := true, xferAsset := 7, assetReceiver := [1], assetAmount := amount }

def sampleArgs (amount : ℕ) : SendArgs where
  target := toBytes 2 18 ++ utf8 "btp://0x1.icon/cx2"
  sn := toBytes 8 1
  msg := depositMessage amount false (toBytes 20 5)

def sampleEvent (amount s : ℕ) : Event where
  next := "btp://0x1.icon/cx2"
  sequence := s
  message := encodeBMCMessage (utf8 "btp://algorand/0x2") (utf8 "btp://0x1.icon/cx2") (utf8 "wtt") s
    (depositMessage amount false (toBytes 20 5))

end IconBridge.Algorand
