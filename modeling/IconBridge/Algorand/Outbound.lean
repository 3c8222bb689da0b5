import IconBridge.Java.BMC.Wire
import IconBridge.Java.Token.Escrow
import IconBridge.Java.Token.WrappedToken
import IconBridge.Algorand.Chain

/-!
# From ICON to Algorand

`Escrow` and `WrappedToken` write a message for any key, `Segment` takes 32
bytes for an account and the contract on Algorand the 32 bytes behind the
amount.
-/

namespace IconBridge.Algorand

open Lib Java List

/-- The contracts of a deployment on Algorand, and the services that the relay
knows. -/
structure Network where
  services : String → Option ℕ
  relayer : ℕ
  bmcId : ℕ
  apps : ℕ → Option App

def Network.Serves (n : Network) (svc : String) (asset : ℕ) : Prop :=
  ∃ appID app, n.services svc = some appID ∧ n.apps appID = some app ∧ app.initialized = true ∧
    app.bmcId = n.bmcId ∧ app.assetId = asset

def wrapped (src dst : BTPAddress) (m : Token.Sent) : Bytes :=
  BMC.writeBTPMessage
    { src := some src, dst := some dst, svc := some m.svc, sn := some m.sn, payload := some m.message }

def execute (n : Network) (params : CallParams) (tx : RelayTx) : List (Option Transfer) :=
  tx.svcs.map fun f => handleRelayMessage n.relayer n.bmcId n.apps n.relayer params.foreignAssets
    params.foreignAccounts f.appID f.msg

/-- The sender can take a receipt apart and lists the asset and the account
alone, and the amount of the asset goes to the account. -/
def Intact (n : Network) (params : CallParams) (receipt : Receipt) (asset amount : ℕ) (key : Key) :
    Prop :=
  ∃ params' tx left, segment n.services params [receipt] = .ok (params', some (tx, left)) ∧
    params' = { foreignAssets := [asset], foreignAccounts := [key] } ∧
    execute n params' tx =
      [some { xferAsset := asset, assetReceiver := key, assetAmount := amount }]

theorem decodeRelayMessage_encodeList {src dst svc sn msg : Bytes}
    (h : (RLP.encodeList [src, dst, svc, sn, msg]).length < 2 ^ 64) :
    decodeRelayMessage (RLP.encodeList [src, dst, svc, sn, msg]) =
      (ofUtf8 svc).elim (.error (.error "Unrecognized service")) fun svc => .ok (svc, msg) := by
  obtain ⟨items, hitems⟩ : ∃ items, items = [src, dst, svc, sn, msg] := ⟨_, rfl⟩
  rw [← hitems] at h ⊢
  have hlen : (items.flatMap RLP.encodeString).length < 2 ^ 64 := by
    rw [RLP.encodeList, length_append] at h
    omega
  have hread := RLP.readStrings_flatMap [] fun bs hbs => RLP.length_lt_of_mem hbs hlen
  rw [append_nil] at hread
  have hfive : items.length = 5 := by simp [hitems]
  rw [decodeRelayMessage, RLP.readList_encodeList hlen]
  simp only
  rw [← hfive, hread, hitems]

theorem decodeRelayMessage_wrapped (h : (wrapped src dst m).length < 2 ^ 64) :
    decodeRelayMessage (wrapped src dst m) = .ok (m.svc, m.message) := by
  have hwrapped : wrapped src dst m = RLP.encodeList
      [utf8 src.toString, utf8 dst.toString, utf8 m.svc, Token.toByteArray m.sn, m.message] := by
    simp [wrapped, BMC.writeBTPMessage, BMC.writeNullable, RLP.encodeList]
  rw [hwrapped] at h ⊢
  rw [decodeRelayMessage_encodeList h, ofUtf8_utf8]
  rfl

theorem slice_append {pre rest : Bytes} (hpre : pre.length = k) :
    slice (pre ++ rest) k (k + n) = if n ≤ rest.length then .ok (rest.take n) else .error .panic := by
  subst hpre
  rw [slice, length_append]
  by_cases hn : n ≤ rest.length
  · rw [if_pos (by omega), if_pos hn, take_length_add_append, drop_left]
  · rw [if_neg (by omega), if_neg hn]

theorem byteAt_append (pre rest : Bytes) (hpre : pre.length = k) :
    byteAt (pre ++ b :: rest) k = .ok b.toNat := by
  subst hpre
  simp [byteAt]

/-- The parts of a message: 42 bytes in front of what goes to the contract when
the key is long enough. -/
theorem segmentEvent_transferMessage {asset v : ℕ} {key : Key} (event : Event)
    (hasset : asset < 2 ^ 64) (hsvc : services svc = some appID)
    (hdecode : decodeRelayMessage event.message = .ok (svc, Token.transferMessage asset key v)) :
    segmentEvent services x event =
      if key.length < 12 then .error .panic
      else .ok ({ foreignAssets := x.1.foreignAssets ++ [asset]
                  foreignAccounts := x.1.foreignAccounts ++ [(key ++ toBytes 8 v ++ key).take 32] },
        x.2 ++ [{ appID, svcName := svc, msg := (key ++ toBytes 8 v ++ key).drop 32 }]) := by
  obtain ⟨tail, htail⟩ : ∃ tail, tail = key ++ toBytes 8 v ++ key := ⟨_, rfl⟩
  obtain ⟨bytes, hbytes⟩ : ∃ bytes, bytes = Token.transferMessage asset key v := ⟨_, rfl⟩
  have hassetAt : bytes = [1] ++ (toBytes 8 asset ++ 1 :: tail) := by
    simp [hbytes, Token.transferMessage, Token.bigIntToByteArray_natCast, htail]
  have hcountAt : bytes = ([1] ++ toBytes 8 asset) ++ 1 :: tail := by simp [hassetAt]
  have htailAt : bytes = ([1] ++ toBytes 8 asset ++ [1]) ++ tail := by simp [hassetAt]
  have htlen : tail.length = 8 + 2 * key.length := by
    simp [htail]
    omega
  have hassets : readAssets bytes 1 = .ok [asset] := by
    have hslice : slice bytes 1 (1 + 8 * 0 + 8) = .ok (toBytes 8 asset) := by
      rw [hassetAt, Nat.mul_zero, Nat.add_zero, slice_append (length_singleton), if_pos (by simp),
        take_left' length_toBytes]
    have hvalue : ofBytes ((toBytes 8 asset).take 8) = asset := by
      rw [take_of_length_le (by simp), ofBytes_toBytes, Nat.mod_eq_of_lt (by simpa using hasset)]
    simp [readAssets, range_succ, hslice, hvalue]
  have hfirst : byteAt bytes 0 = .ok 1 := by
    rw [hassetAt]
    exact byteAt_append [] _ rfl
  have hsecond : byteAt bytes (1 + 8 * 1) = .ok 1 := by
    rw [hcountAt]
    exact byteAt_append _ _ (by simp)
  have haddress : slice bytes (1 + 8 * 1 + 1 + 32 * 0) (1 + 8 * 1 + 1 + 32 * 0 + 32) =
      if 32 ≤ tail.length then .ok (tail.take 32) else .error .panic := by
    rw [htailAt]
    exact slice_append (by simp)
  rw [segmentEvent, hdecode, ← hbytes, ← htail]
  simp only [ok_bind, hsvc, hfirst, hassets, hsecond, readAddresses, range_succ, range_zero,
    nil_append, mapM_cons, mapM_nil, haddress]
  by_cases hshort : key.length < 12
  · rw [if_neg (by omega), if_pos hshort]
    rfl
  · have hlast : slice bytes (1 + 8 * 1 + 1 + 32 * 1) bytes.length = .ok (tail.drop 32) := by
      have hsplit : bytes = ([1] ++ toBytes 8 asset ++ [1] ++ tail.take 32) ++ tail.drop 32 := by
        rw [append_assoc _ (tail.take 32), take_append_drop, htailAt]
      have hlen : bytes.length = 1 + 8 * 1 + 1 + 32 * 1 + (tail.drop 32).length := by
        rw [htailAt]
        simp
        omega
      rw [hlen, hsplit, slice_append (by simp; omega), if_pos le_rfl, take_length]
    rw [if_pos (by omega), if_neg hshort]
    simp only [ok_bind, pure_bind, hlast]
    rfl

variable {n : Network} {params : CallParams} {app : App}

theorem segment_event (h : segmentEvent services (params, []) event = .ok (params', svcs)) :
    segment services params [{ index, events := [event], height }] =
      .ok (params', some ({ svcs, height }, [{ index, events := [event], height }])) := by
  simp [segment, segmentLoop, atomicTxnLimit, h]

theorem segment_event_error (h : segmentEvent services (params, []) event = .error e) :
    segment services params [{ index, events := [event], height }] = .error e := by
  simp [segment, segmentLoop, atomicTxnLimit, h]
  rfl

theorem handleRelayMessage_transfer {v : ℕ} {key : Key} (hv : v < 2 ^ 64) (hkey : key.length = 32)
    (happ : n.apps appID = some app) (hinit : app.initialized = true) (hbmc : app.bmcId = n.bmcId)
    (hasset : app.assetId ∈ assets) (haccount : key ∈ accounts) :
    handleRelayMessage n.relayer n.bmcId n.apps n.relayer assets accounts appID (toBytes 8 v ++ key) =
      some { xferAsset := app.assetId, assetReceiver := key, assetAmount := v } := by
  have hamount : substring (toBytes 8 v ++ key) 0 8 = some (toBytes 8 v) := by
    rw [substring, if_pos (by simp), drop_zero, take_left' length_toBytes]
  have hreceiver : substring (toBytes 8 v ++ key) 8 40 = some key := by
    rw [substring, if_pos (by simp [hkey]), take_of_length_le (by simp [hkey]),
      drop_left' length_toBytes]
  have hvalue : ofBytes (toBytes 8 v) = v := by
    rw [ofBytes_toBytes, Nat.mod_eq_of_lt (by simpa using hv)]
  simp [handleRelayMessage, happ, handleBTPMessage, hinit, hbmc, hamount, hreceiver, hasset, haccount,
    hvalue, guard]

/-- A message arrives as it was meant for keys of 32 bytes, if the sender has
not listed anything else before. -/
theorem intact_iff {asset v : ℕ} {key : Key} {event : Event} (hserves : n.Serves svc asset)
    (hasset : asset < 2 ^ 64) (hv : v < 2 ^ 64)
    (hdecode : decodeRelayMessage event.message = .ok (svc, Token.transferMessage asset key v)) :
    Intact n params { index, events := [event], height } asset v key ↔
      key.length = 32 ∧ params = {} := by
  obtain ⟨appID, app, hsvc, happ, hinit, hbmc, rfl⟩ := hserves
  have hevent := segmentEvent_transferMessage (x := (params, [])) event hasset hsvc hdecode
  constructor
  · rintro ⟨params', tx, left, hsegment, rfl, -⟩
    split at hevent
    · rw [segment_event_error hevent] at hsegment
      contradiction
    · next hlong =>
      -- the account is 32 bytes long, whatever the key is
      rw [segment_event hevent] at hsegment
      simp only [Except.ok.injEq, Prod.mk.injEq, CallParams.mk.injEq] at hsegment
      obtain ⟨⟨hassets, haccounts⟩, -⟩ := hsegment
      have hnoAssets : params.foreignAssets = [] := by
        simpa using congrArg List.length hassets
      have hnoAccounts : params.foreignAccounts = [] := by
        simpa using congrArg List.length haccounts
      rw [hnoAccounts, nil_append, singleton_inj] at haccounts
      refine ⟨?_, ?_⟩
      · rw [← haccounts, length_take]
        simp only [length_append, length_toBytes]
        omega
      · cases params
        simp_all
  · rintro ⟨hkey, rfl⟩
    have htail : (key ++ toBytes 8 v ++ key).take 32 = key := by
      rw [append_assoc, take_left' hkey]
    have hrest : (key ++ toBytes 8 v ++ key).drop 32 = toBytes 8 v ++ key := by
      rw [append_assoc, drop_left' hkey]
    rw [if_neg (by omega), htail, hrest] at hevent
    refine ⟨_, _, _, segment_event hevent, rfl, ?_⟩
    simp only [execute, nil_append, map_cons, map_nil]
    rw [handleRelayMessage_transfer hv hkey happ hinit hbmc (by simp) (by simp)]

def sampleNetwork : Network where
  services _ := some 1
  relayer := 2
  bmcId := 3
  apps _ := some { initialized := true, bmcId := 3, receiverAddress := "", assetId := 7, address := [] }

theorem sampleNetwork_serves (svc : String) : sampleNetwork.Serves svc 7 :=
  ⟨1, _, rfl, rfl, rfl, rfl, rfl⟩

def sampleEscrow : Token.Escrow.St := { token := {}, linked := true }

def sampleSent (key : Key) (value : ℤ) : Token.Sent :=
  { target := Token.Escrow.sample.target, svc := Token.Escrow.service, sn := 1
    message := Token.transferMessage 7 key value }

def sampleReceipt (key : Key) (value : ℤ) : Receipt :=
  { index := 0, height := 1
    events := [{ next := "", sequence := 1
                 message := wrapped ⟨"btp", "0x1.icon", "cx2"⟩ ⟨"btp", "algorand", "0x2"⟩
                   (sampleSent key value) }] }

end IconBridge.Algorand
