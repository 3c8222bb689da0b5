import IconBridge.Solidity.BTS.Periphery

/-!
# What the periphery and the owners write

Of the senders, of each kind of message and of the transactions of the owners it
is said once what they write.
-/

namespace IconBridge.Solidity.BTS

open Lib Function

variable {d : Deployment} {s s' : St}

theorem sendResponseMessage_eq (h : sendResponseMessage s ty target sn message code = .ok s') :
    s' = { s with sent := s.sent ++ [⟨target, sn, ⟨ty, .response ⟨code, message⟩⟩⟩] } := by
  simp only [sendResponseMessage, sendMessage, bind_ok, pure_ok] at h
  obtain ⟨_, -, rfl⟩ := h
  rfl

/-- A request is filed under the next serial number and sent. -/
theorem sendServiceMessage_eq (h : sendServiceMessage d s u target es = .ok s') :
    ∃ net account, splitBTPAddress target = .ok (net, account) ∧ s' = { s with
      serialNo := s.serialNo + 1
      numOfPendingRequests := s.numOfPendingRequests + 1
      requests := update s.requests (s.serialNo + 1)
        (some { sender := toString d.caps u, target, details := es })
      sent := s.sent ++ [⟨net, s.serialNo + 1, ⟨.requestCoinTransfer, .transferCoin
        { sender := toString d.caps u, target := account,
          assets := es.map fun e => ⟨e.coinName, e.value⟩ }⟩⟩]
      events := s.events ++ [.transferStart u target (s.serialNo + 1) es] } := by
  simp only [sendServiceMessage, sendMessage, bind_ok, add_ok, pure_ok, Prod.exists] at h
  obtain ⟨net, account, hsplit, _, ⟨-, rfl⟩, _, ⟨_, -, rfl⟩, _, ⟨-, rfl⟩, rfl⟩ := h
  exact ⟨net, account, hsplit, rfl⟩

def BlacklistMessage.change (bm : BlacklistMessage) (s : St) : Outcome St :=
  match bm.serviceType with
  | .addToBlacklist => addToBlacklist s bm.addrs
  | .removeFromBlacklist => removeFromBlacklist s bm.addrs

def Named (addrs : List String) (a : Address) : Prop := ∃ x ∈ addrs, parseAddress x = .ok a

/-- A loop that writes `v` for every address it can read. -/
theorem foldlM_blacklist {f : St → String → Outcome St} {v : Bool}
    (hf : ∀ s x t, f s x = .ok t → ∃ a, parseAddress x = .ok a ∧
      t = { s with blacklist := update s.blacklist a v })
    (h : addrs.foldlM f s = .ok s') : ∃ blacklist, s' = { s with blacklist } ∧
      (∀ x ∈ addrs, ∃ a, parseAddress x = .ok a) ∧
      ∀ a, (Named addrs a → blacklist a = v) ∧ (¬ Named addrs a → blacklist a = s.blacklist a) := by
  induction addrs generalizing s with
  | nil =>
    cases h
    exact ⟨_, rfl, by simp [Named]⟩
  | cons x addrs ih =>
    simp only [List.foldlM_cons, bind_ok] at h
    obtain ⟨t, ht, h⟩ := h
    obtain ⟨b, hb, rfl⟩ := hf s x t ht
    obtain ⟨blacklist, rfl, hread, hlist⟩ := ih h
    refine ⟨blacklist, rfl, List.forall_mem_cons.2 ⟨⟨b, hb⟩, hread⟩, fun a => ?_⟩
    have hnamed : Named (x :: addrs) a ↔ b = a ∨ Named addrs a := by simp [Named, hb]
    rw [hnamed]
    by_cases hmore : Named addrs a
    · exact ⟨fun _ => (hlist a).1 hmore, fun hnot => absurd (.inr hmore) hnot⟩
    · rw [(hlist a).2 hmore]
      rcases eq_or_ne b a with rfl | hne
      · simp
      · simp [hne, hmore, update_of_ne hne.symm]

theorem BlacklistMessage.change_eq {bm : BlacklistMessage} (h : bm.change s = .ok s') :
    ∃ blacklist, s' = { s with blacklist } ∧ (∀ x ∈ bm.addrs, ∃ a, parseAddress x = .ok a) ∧
      ∀ a, (Named bm.addrs a → blacklist a = decide (bm.serviceType = .addToBlacklist)) ∧
        (¬ Named bm.addrs a → blacklist a = s.blacklist a) := by
  unfold BlacklistMessage.change at h
  split at h
  · next hty =>
    simp only [addToBlacklist, bind_ok] at h
    obtain ⟨_, -, h⟩ := h
    refine foldlM_blacklist (fun t x t' h => ?_) h
    split at h
    · next b hb =>
      cases h
      exact ⟨b, hb, by rw [hty]; rfl⟩
    · contradiction
  · next hty =>
    simp only [removeFromBlacklist, bind_ok] at h
    obtain ⟨_, -, h⟩ := h
    refine foldlM_blacklist (fun t x t' h => ?_) h
    split at h
    · next b hb =>
      simp only [bind_ok, Except.ok.injEq] at h
      obtain ⟨_, -, rfl⟩ := h
      exact ⟨b, hb, by rw [hty]; rfl⟩
    · contradiction

inductive Reports (s : St) (attempt : Outcome St) (ty : ServiceType) (src : String) (sn : Nat)
    (s' : St) : Prop
  | confirms (t : St) (message : String) (ht : attempt = .ok t)
      (h : s' = { t with sent := t.sent ++ [⟨src, sn, ⟨ty, .response ⟨rcOk, message⟩⟩⟩] })
  | refuses (message : String)
      (h : s' = { s with sent := s.sent ++ [⟨src, sn, ⟨ty, .response ⟨rcErr, message⟩⟩⟩] })

theorem answer_reports (h : answer s attempt ty src sn okMsg errMsg = .ok s') :
    Reports s attempt ty src sn s' := by
  unfold answer at h
  split at h
  · next t => exact .confirms t okMsg rfl (sendResponseMessage_eq h)
  · exact .refuses errMsg (sendResponseMessage_eq h)

inductive Receives (d : Deployment) (s : St) (src : String) (sn : Nat) (rs : List Reaction)
    (s' : St) : ServiceMessage → Prop
  | accepts (tc : TransferCoin) (t : St) (receiver : Address)
      (ht : handleRequestService d s tc.target tc.assets rs = .ok t)
      (h : s' = { t with
        sent := t.sent ++ [⟨src, sn, ⟨.responseHandleService, .response ⟨rcOk, ""⟩⟩⟩]
        events := t.events ++ [.transferReceived src receiver sn tc.assets] }) :
      Receives d s src sn rs s' ⟨.requestCoinTransfer, .transferCoin tc⟩
  | refuses (tc : TransferCoin) (reason : String)
      (h : s' = { s with
        sent := s.sent ++ [⟨src, sn, ⟨.responseHandleService, .response ⟨rcErr, reason⟩⟩⟩] }) :
      Receives d s src sn rs s' ⟨.requestCoinTransfer, .transferCoin tc⟩
  | blacklist (bm : BlacklistMessage) (h : Reports s (bm.change s) .blacklistMessage src sn s') :
      Receives d s src sn rs s' ⟨.blacklistMessage, .blacklist bm⟩
  | limit (tl : TokenLimitMessage)
      (h : Reports s (setTokenLimit s tl.coinName tl.tokenLimit) .changeTokenLimit src sn s') :
      Receives d s src sn rs s' ⟨.changeTokenLimit, .tokenLimit tl⟩
  | response (r : Response) (h : settle d s sn r.code r.message rs = .ok s') :
      Receives d s src sn rs s' ⟨.responseHandleService, .response r⟩
  | unknown (data : Data) (h : s' = { s with events := s.events ++ [.unknownResponse src sn] }) :
      Receives d s src sn rs s' ⟨.unknownType, data⟩
  | disowned (data : Data) (r : Response)
      (h : s' = { s with sent := s.sent ++ [⟨src, sn, ⟨.unknownType, .response r⟩⟩] }) :
      Receives d s src sn rs s' ⟨.requestCoinRegister, data⟩

theorem handleTransferCoin_receives (h : handleTransferCoin d s src sn tc rs = .ok s') :
    Receives d s src sn rs s' ⟨.requestCoinTransfer, .transferCoin tc⟩ := by
  unfold handleTransferCoin at h
  split at h
  · exact .refuses tc _ (sendResponseMessage_eq h)
  · next receiver _ =>
    split at h
    · next t ht =>
      simp only [bind_ok, pure_ok] at h
      obtain ⟨u, hu, rfl⟩ := h
      obtain rfl := sendResponseMessage_eq hu
      exact .accepts tc t receiver ht rfl
    · exact .refuses tc _ (sendResponseMessage_eq h)
    · contradiction

theorem handleBTPMessage_receives
    (h : handleBTPMessage d s sender src svc sn (some m) rs = .ok s') :
    sender = d.bmc ∧ Receives d s src sn rs s' m := by
  simp only [handleBTPMessage, decodeServiceMessage, bind_ok, require_ok, decide_eq_true_eq,
    Except.ok.injEq] at h
  obtain ⟨_, hsender, _, -, _, rfl, h⟩ := h
  refine ⟨hsender, ?_⟩
  obtain ⟨ty, data⟩ := m
  -- the decoders reject all data but one kind
  cases ty <;> simp only [bind_ok] at h
  case requestCoinTransfer =>
    obtain ⟨_, htc, h⟩ := h
    cases data with
    | transferCoin tc =>
      simp only [decodeTransferCoinMsg, bind_ok, pure_ok] at htc
      obtain ⟨_, -, rfl⟩ := htc
      exact handleTransferCoin_receives h
    | _ => contradiction
  case blacklistMessage =>
    obtain ⟨_, hbm, h⟩ := h
    cases data with
    | blacklist bm =>
      obtain rfl := Except.ok.inj hbm
      refine .blacklist bm ?_
      unfold BlacklistMessage.change
      cases hty : bm.serviceType
      all_goals
        rw [hty] at h
        exact answer_reports h
    | _ => contradiction
  case changeTokenLimit =>
    obtain ⟨_, htl, h⟩ := h
    cases data with
    | tokenLimit tl =>
      simp only [decodeTokenLimitMsg, bind_ok, pure_ok] at htl
      obtain ⟨_, -, rfl⟩ := htl
      exact .limit tl (answer_reports h)
    | _ => contradiction
  case responseHandleService =>
    obtain ⟨_, -, _, hr, h⟩ := h
    cases data with
    | response r =>
      simp only [decodeResponse, bind_ok, pure_ok] at hr
      obtain ⟨_, -, rfl⟩ := hr
      exact .response r h
    | _ => contradiction
  case unknownType => exact .unknown data (pure_ok.1 h).symm
  case requestCoinRegister => exact .disowned data _ (sendResponseMessage_eq h)

theorem handleBTPMessage_some (h : handleBTPMessage d s sender src svc sn msg rs = .ok s') :
    ∃ m, msg = some m := by
  simp only [handleBTPMessage, bind_ok] at h
  obtain ⟨_, -, _, -, _, hm, -⟩ := h
  cases msg with
  | none => contradiction
  | some m => exact ⟨m, rfl⟩

theorem settle_ok (h : settle d s sn code message rs = .ok s') :
    ∃ p u t, s.requests sn = some p ∧ parseAddress p.sender = .ok u ∧
      p.details.length ≤ maxBatchSize ∧
      settleLoop d s sn u code rs p.details.length = .ok t ∧ 1 ≤ t.numOfPendingRequests ∧
      s' = { t with
        numOfPendingRequests := t.numOfPendingRequests - 1
        requests := update t.requests sn none
        events := t.events ++ [.transferEnd u sn code message] } := by
  unfold settle at h
  split at h
  · contradiction
  · next p hp =>
    simp only [bind_ok, require_ok, decide_eq_true_eq, sub_ok, pure_ok] at h
    obtain ⟨u, hu, -, hlen, t, ht, _, ⟨hle, rfl⟩, rfl⟩ := h
    exact ⟨p, u, t, hp, hu, hlen, ht, hle, rfl⟩

/-- The transactions of the owners, which write the registry. -/
def Tx.Registers : Tx → Prop
  | .register .. | .setFeeRatio .. | .updateCoinDb .. => True
  | _ => False

/-- A contract may be deployed; apart from that the registry is written. -/
theorem step_registers_eq (hr : tx.Registers) (h : step d s tx = .ok s') :
    ∃ t coins coinsName coinsAddress coinDetails tokenLimit,
      (t = s ∨ ∃ deployed decimals, deployTradable s deployed decimals = .ok t) ∧
      s' = { t with coins, coinsName, coinsAddress, coinDetails, tokenLimit } := by
  cases tx with
  | register sender name decimals feeNumerator fixedFee addr deployed =>
    simp only [step, register, bind_ok] at h
    obtain ⟨_, -, _, -, _, -, _, -, _, -, h⟩ := h
    split at h
    · simp only [bind_ok, pure_ok] at h
      obtain ⟨t, ht, rfl⟩ := h
      exact ⟨t, _, _, _, _, _, .inr ⟨deployed, decimals, ht⟩, rfl⟩
    · cases pure_ok.1 h
      exact ⟨s, _, _, _, _, _, .inl rfl, rfl⟩
  | setFeeRatio =>
    simp only [step, setFeeRatio, bind_ok, pure_ok] at h
    obtain ⟨_, -, _, -, _, -, _, -, rfl⟩ := h
    exact ⟨s, _, _, _, _, _, .inl rfl, rfl⟩
  | updateCoinDb =>
    simp only [step, updateCoinDb, bind_ok, pure_ok] at h
    obtain ⟨_, -, rfl⟩ := h
    exact ⟨s, _, _, _, _, _, .inl rfl, rfl⟩
  | user | handleBTPMessage | handleBTPError | handleFeeGathering | routes => exact hr.elim

end IconBridge.Solidity.BTS
