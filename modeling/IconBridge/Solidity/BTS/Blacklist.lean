import IconBridge.Solidity.BTS.Traffic

/-!
# The blacklist of the EVM chain

A blacklist message changes the list as a whole or not at all, and is answered
accordingly. Nothing else changes it.
-/

namespace IconBridge.Solidity.BTS

open Lib

variable {d : Deployment} {s s' t : St}

theorem blacklist_calls : Calls d fun s s' => s'.blacklist = s.blacklist where
  trans h1 h2 := h2.trans h1
  keeps _ _ _ h := h
  moves h := by
    obtain ⟨_, _, _, rfl⟩ := h.eq
    rfl
  files _ _ h := by
    obtain ⟨_, _, -, rfl⟩ := sendServiceMessage_eq h
    rfl

theorem step_blacklist (htx : tx.outside) (h : step d s tx = .ok s') :
    s'.blacklist = s.blacklist := by
  obtain ⟨sender, c, rfl⟩ | hr := Tx.registers_of_outside htx
  · exact blacklist_calls.call s s' sender c h
  · obtain ⟨_, _, _, _, _, _, rfl | ⟨_, _, ht⟩, rfl⟩ := step_registers_eq hr h
    · rfl
    · simp only [deployTradable, bind_ok, pure_ok] at ht
      obtain ⟨_, -, _, -, rfl⟩ := ht
      rfl

theorem handleFeeGathering_blacklist (h : handleFeeGathering d s sender fa svc = .ok s') :
    s'.blacklist = s.blacklist := by
  simp only [handleFeeGathering, bind_ok] at h
  obtain ⟨_, -, _, -, _, -, h⟩ := h
  obtain ⟨_, _, -, rfl⟩ := sendServiceMessage_eq h
  rfl

theorem settle_blacklist (h : settle d s sn code message rs = .ok s') :
    s'.blacklist = s.blacklist := by
  obtain ⟨_, _, _, -, -, -, ht, -, rfl⟩ := settle_ok h
  have hloop := blacklist_calls.settleLoop ht
  exact hloop

theorem handleBTPError_blacklist (h : handleBTPError d s sender svc sn code message rs = .ok s') :
    s'.blacklist = s.blacklist := by
  simp only [handleBTPError, bind_ok] at h
  obtain ⟨_, -, _, -, _, -, h⟩ := h
  exact settle_blacklist h

theorem Receives.blacklist_eq (hty : m.serviceType ≠ .blacklistMessage)
    (h : Receives d s src sn rs s' m) : s'.blacklist = s.blacklist := by
  cases h with
  | accepts tc t receiver ht h =>
    simp only [handleRequestService, bind_ok] at ht
    obtain ⟨_, -, ht⟩ := ht
    have hloop := blacklist_calls.requestLoop ht
    rw [h]
    exact hloop
  | refuses _ _ h => rw [h]
  | blacklist => exact absurd rfl hty
  | limit tl h =>
    cases h with
    | confirms t _ ht h =>
      simp only [setTokenLimit, bind_ok, pure_ok] at ht
      obtain ⟨_, -, _, -, rfl⟩ := ht
      rw [h]
    | refuses _ h => rw [h]
  | response r h => exact settle_blacklist h
  | unknown _ h => rw [h]
  | disowned _ _ h => rw [h]

theorem handleBTPMessage_blacklist (hty : m.serviceType ≠ .blacklistMessage)
    (h : handleBTPMessage d s sender src svc sn (some m) rs = .ok s') :
    s'.blacklist = s.blacklist := (handleBTPMessage_receives h).2.blacklist_eq hty

theorem handleBTPMessage_change (bm : BlacklistMessage)
    (h : handleBTPMessage d s sender src svc sn (some ⟨.blacklistMessage, .blacklist bm⟩) rs = .ok s') :
    ∃ code message, s'.sent = s.sent ++ [⟨src, sn, ⟨.blacklistMessage, .response ⟨code, message⟩⟩⟩] ∧
      ((code = rcOk ∧ ∃ t, bm.change s = .ok t ∧ s'.blacklist = t.blacklist) ∨
        code = rcErr ∧ s'.blacklist = s.blacklist) := by
  cases (handleBTPMessage_receives h).2 with
  | blacklist _ h =>
    cases h with
    | confirms t message ht h =>
      obtain ⟨_, rfl, -⟩ := BlacklistMessage.change_eq ht
      subst h
      exact ⟨rcOk, message, rfl, .inl ⟨rfl, _, ht, rfl⟩⟩
    | refuses message h =>
      subst h
      exact ⟨rcErr, message, rfl, .inr ⟨rfl, rfl⟩⟩

end IconBridge.Solidity.BTS
