import IconBridge.Java.BTS.Requests

/-!
# What the token service says and does with messages

A transaction from outside sends a request that it records, or a change of the
blacklist or of the limits. A message that is handled is answered, settles a
request, or is noted.
-/

namespace IconBridge.Java.BTS

open Lib List

variable {d : Deployment} {r : Receivers} {s s' t : St}

def Event.received? : Event → Option ℤ
  | .transferReceived _ _ sn _ => some sn
  | _ => none

def Event.ended? : Event → Option (ℤ × Bool)
  | .transferEnd _ sn code _ => some (sn, decide (code = rcOk))
  | _ => none

def received (s : St) : List ℤ := s.events.filterMap Event.received?

def ended (s : St) : List (ℤ × Bool) := s.events.filterMap Event.ended?

/-- Nothing is sent, and `ends` have been settled. -/
structure Closes (ends : List (ℤ × Bool)) (s s' : St) : Prop where
  serial : s'.sn = s.sn
  sent : s'.sent = s.sent
  received : received s' = received s
  ended : ended s' = ended s ++ ends

theorem Closes.of_eq (hserial : s'.sn = s.sn) (hsent : s'.sent = s.sent)
    (hevents : s'.events = s.events) : Closes [] s s' :=
  ⟨hserial, hsent, by simp only [BTS.received, hevents], by simp [BTS.ended, hevents]⟩

theorem Closes.event (hserial : s'.sn = s.sn) (hsent : s'.sent = s.sent)
    (hevents : s'.events = s.events ++ [e]) (hr : e.received? = none) (he : e.ended? = none) :
    Closes [] s s' := by
  refine ⟨hserial, hsent, ?_, ?_⟩
  · simp [BTS.received, hevents, hr]
  · simp [BTS.ended, hevents, he]

theorem Lists.closes (h : Lists s s') : Closes [] s s' := by
  obtain ⟨_, rfl⟩ := h
  exact .of_eq rfl rfl rfl

inductive BTSMessage.IsChange : BTSMessage → Prop
  | blacklist (b : BlacklistTransaction) : IsChange ⟨.blacklistMessage, .blacklist b⟩
  | tokenLimit (l : TokenLimitRequest) : IsChange ⟨.changeTokenLimit, .tokenLimit l⟩

/-- What is sent has the next serial number: a request, or a change, which every
linked network gets. -/
structure Asks (s s' : St) (out : List Outgoing) : Prop where
  sent : s'.sent = s.sent ++ out
  serial : s.sn ≤ s'.sn
  numbers : ∀ o ∈ out, s.sn < o.sn ∧ o.sn = s'.sn
  length : out.length ≤ max 1 s.links.length
  kinds : ∀ o ∈ out, (∃ r, o.msg = ⟨.requestCoinTransfer, .transferRequest r⟩) ∨ o.msg.IsChange
  listed : ∀ o ∈ out, ∀ b, o.msg = ⟨.blacklistMessage, .blacklist b⟩ → s'.blacklistTxn o.sn = some b
  received : received s' = received s
  ended : ended s' = ended s

theorem Closes.asks (h : Closes [] s s') : Asks s s' [] :=
  ⟨by simp [h.sent], h.serial.ge, by simp, by simp, by simp, by simp, h.received, by simp [h.ended]⟩

theorem Asks.of_closes (h : Asks t s' out) (hcloses : Closes [] s t) (hlinks : t.links = s.links) :
    Asks s s' out :=
  ⟨hcloses.sent ▸ h.sent, hcloses.serial ▸ h.serial, hcloses.serial ▸ h.numbers, hlinks ▸ h.length,
    h.kinds, h.listed, h.received.trans hcloses.received,
    h.ended.trans (hcloses.ended.trans (append_nil _))⟩

theorem sendRequest_asks (hmoves : Moves s t) (h : sendRequest d t owner target coins = .ok s') :
    ∃ o, Asks s s' [o] := by
  obtain ⟨_, details, ⟨_, _, _, rfl⟩, -, -, rfl⟩ := sendRequest_eq h
  obtain ⟨_, _, _, rfl⟩ := hmoves
  refine ⟨_, rfl, Int.le_add_one le_rfl, ?_, le_max_left 1 _, ?_, ?_, ?_, ?_⟩
  · intro o ho
    obtain rfl := mem_singleton.1 ho
    exact ⟨Int.lt_add_one_of_le le_rfl, rfl⟩
  · intro o ho
    obtain rfl := mem_singleton.1 ho
    exact .inl ⟨_, rfl⟩
  · intro o ho b hb
    obtain rfl := mem_singleton.1 ho
    cases hb
  · simp [received, Event.received?]
  · simp [ended, Event.ended?]

theorem sendBlacklist_asks (hlists : Lists s t) (h : sendBlacklist d t ty net address = .ok s') :
    ∃ out, Asks s s' out := by
  obtain ⟨_, rfl⟩ := hlists
  obtain ⟨-, rfl⟩ | rfl := sendBlacklist_eq h
  · exact ⟨[], Closes.asks (.of_eq rfl rfl rfl)⟩
  · refine ⟨_, rfl, Int.le_add_one le_rfl, ?_, le_max_left 1 _, ?_, ?_, rfl, rfl⟩
    · intro o ho
      obtain rfl := mem_singleton.1 ho
      exact ⟨Int.lt_add_one_of_le le_rfl, rfl⟩
    · intro o ho
      obtain rfl := mem_singleton.1 ho
      exact .inr (.blacklist _)
    · intro o ho b hb
      obtain rfl := mem_singleton.1 ho
      cases hb
      exact Function.update_self ..

theorem mapM_length {f : α → Outcome β} {xs : List α} (h : xs.mapM f = .ok ys) :
    ys.length = xs.length := by
  induction xs generalizing ys with
  | nil =>
    cases h
    rfl
  | cons x xs ih =>
    simp only [mapM_cons, bind_ok, pure_ok] at h
    obtain ⟨y, -, zs, hzs, rfl⟩ := h
    rw [length_cons, ih hzs, length_cons]

theorem Sets.asks (h : Sets d coinNames tokenLimits nets s s') : ∃ out, Asks s s' out := by
  have hlength : nets.length = s.links.length := mapM_length h.links
  obtain ⟨_, _, rfl⟩ := h.writes
  refine ⟨_, rfl, Int.le_add_one le_rfl, ?_, ?_, ?_, ?_, rfl, rfl⟩
  · intro o ho
    obtain ⟨_, -, rfl⟩ := mem_map.1 ho
    exact ⟨Int.lt_add_one_of_le le_rfl, rfl⟩
  · rw [length_map, hlength]
    exact le_max_right 1 _
  · intro o ho
    obtain ⟨_, -, rfl⟩ := mem_map.1 ho
    exact .inr (.tokenLimit _)
  · intro o ho b hb
    obtain ⟨_, -, rfl⟩ := mem_map.1 ho
    cases hb

structure Replies (got : List ℤ) (s s' : St) (target : String) (sn : ℤ) (ty : ServiceType)
    (r : TransferResponse) : Prop where
  sent : s'.sent = s.sent ++ [⟨target, sn, ⟨ty, .response r⟩⟩]
  serial : s'.sn = s.sn
  received : received s' = received s ++ got
  ended : ended s' = ended s

inductive Handles (s : St) (src : String) (sn : ℤ) (s' : St) : BTSMessage → Prop
  | accepts (request : TransferRequest) (message : Option String)
      (hreplies : Replies [sn] s s' src sn .responseHandleService ⟨rcOk, message⟩) :
      Handles s src sn s' ⟨.requestCoinTransfer, .transferRequest request⟩
  | settles (response : TransferResponse)
      (hcloses : Closes [(sn, decide (response.code = rcOk))] s s') :
      Handles s src sn s' ⟨.responseHandleService, .response response⟩
  | ignores (response : TransferResponse) (hcloses : Closes [] s s') :
      Handles s src sn s' ⟨.responseHandleService, .response response⟩
  | notes (m : BTSMessage) (hm : m.serviceType ≠ .requestCoinTransfer ∧
      m.serviceType ≠ .responseHandleService) (hcloses : Closes [] s s') : Handles s src sn s' m
  | disowns (m : BTSMessage) (hm : m.serviceType ≠ .requestCoinTransfer ∧
      m.serviceType ≠ .responseHandleService ∧ m.serviceType ≠ .blacklistMessage ∧
      m.serviceType ≠ .changeTokenLimit) (response : TransferResponse)
      (hreplies : Replies [] s s' src sn .unknownType response) : Handles s src sn s' m

theorem handleResponse_closes (h : handleResponse d r s sn response = .ok s') :
    Closes [] s s' ∨ Closes [(sn, decide (response.code = rcOk))] s s' := by
  obtain ⟨-, rfl⟩ | ⟨t, _, ht, -, ⟨_, _, _, _, rfl, -⟩, rfl⟩ := handleResponse_eq h
  · exact .inl (.of_eq rfl rfl rfl)
  · refine .inr ⟨rfl, rfl, ?_, ?_⟩
    · simp [received, Event.received?]
    · simp [ended, Event.ended?]

theorem Receives.handles (h : Receives d r s src sn s' m) : Handles s src sn s' m := by
  cases h with
  | request request h =>
    obtain ⟨_, _, ⟨_, _, _, rfl⟩, rfl⟩ := handleRequest_eq h
    refine .accepts request _ ⟨rfl, rfl, ?_, ?_⟩
    · simp [received, Event.received?]
    · simp [ended, Event.ended?]
  | response response h =>
    exact (handleResponse_closes h).elim (.ignores response) (.settles response)
  | blacklist response h =>
    subst h
    refine .notes _ (by simp) ?_
    obtain hlists | ⟨_, _, rfl | rfl, heq⟩ := handleBlacklist_eq d s sn response
    · exact hlists.closes
    · rw [heq]
      exact .event rfl rfl rfl rfl rfl
    · rw [heq]
      exact .event rfl rfl rfl rfl rfl
  | limit response h =>
    refine .notes _ (by simp) ?_
    cases handleChangeTokenLimit_acks h with
    | closed _ h => exact h ▸ .of_eq rfl rfl rfl
    | opened _ _ _ _ _ _ h => exact h ▸ .event rfl rfl rfl rfl rfl
  | unknown _ h =>
    subst h
    exact .notes _ (by simp) (.event rfl rfl rfl rfl rfl)
  | disowned _ _ response hty h =>
    subst h
    exact .disowns _ hty response ⟨rfl, rfl, (append_nil _).symm, rfl⟩

theorem handleBTPMessage_handles
    (h : handleBTPMessage d r s caller src svc sn (some m) = .ok s') : Handles s src sn s' m :=
  (handleBTPMessage_receives h).handles

theorem Handles.posts (h : Handles s src sn s' m) : s'.sn = s.sn ∧ ∃ out, s'.sent = s.sent ++ out := by
  cases h with
  | accepts _ _ hreplies | disowns _ _ _ hreplies => exact ⟨hreplies.serial, _, hreplies.sent⟩
  | settles _ hcloses | ignores _ hcloses | notes _ _ hcloses =>
    exact ⟨hcloses.serial, [], by rw [hcloses.sent, append_nil]⟩

/-- A BTP error settles a pending request, as a response with an error does. -/
theorem handleBTPError_closes {src : String} (h : handleBTPError d r s caller src sn code msg = .ok s') :
    Closes [] s s' ∨ Closes [(sn, false)] s s' := by
  cases handleBTPError_fails h with
  | request response hcode _ h =>
    have hcloses := handleResponse_closes h
    rwa [hcode] at hcloses
  | limit t _ _ h =>
    obtain ⟨_, hfold, -⟩ := setTokenLimitStatus_eq s src false t.coinName
    exact .inl (h ▸ hfold ▸ .of_eq rfl rfl rfl)
  | blacklist _ _ _ h => exact .inl (h ▸ undoBlacklist_lists.closes)
  | nothing _ h => exact .inl (h ▸ .of_eq rfl rfl rfl)

theorem handleFeeGathering_asks (h : handleFeeGathering d r s caller fa = .ok s') :
    ∃ out, out.length ≤ 1 ∧ Asks s s' out := by
  cases handleFeeGathering_gathers h with
  | pays _ _ _ h =>
    obtain ⟨_, _, _, rfl⟩ := h
    exact ⟨[], Nat.zero_le 1, Closes.asks (.of_eq rfl rfl rfl)⟩
  | sends _ _ _ h =>
    obtain ⟨o, ho⟩ := sendRequest_asks .refl h
    exact ⟨[o], le_rfl, ho.of_closes (.of_eq rfl rfl rfl) rfl⟩

def Tx.outside : Tx → Bool
  | .handleBTPMessage .. | .handleBTPError .. | .handleFeeGathering .. | .network .. => false
  | _ => true

theorem step_asks (htx : tx.outside) (h : step d s tx = .ok s') : ∃ out, Asks s s' out := by
  cases step_does h with
  | moves _ _ _ _ h =>
    obtain ⟨_, _, _, rfl⟩ := h
    exact ⟨[], Closes.asks (.of_eq rfl rfl rfl)⟩
  | asks _ _ _ _ _ _ _ _ hmoves h =>
    obtain ⟨o, ho⟩ := sendRequest_asks hmoves h
    exact ⟨[o], ho⟩
  | prices _ _ _ _ h =>
    obtain ⟨_, _, _, _, _, _, _, -, -, rfl⟩ := h
    exact ⟨[], Closes.asks (.of_eq rfl rfl rfl)⟩
  | limits _ _ _ _ _ h => exact h.asks
  | adds _ _ _ _ _ _ hlists h | removes _ _ _ _ _ _ hlists h => exact sendBlacklist_asks hlists h
  | configures => exact ⟨[], Closes.asks (.of_eq rfl rfl rfl)⟩
  | receives | fails | gathers => contradiction

end IconBridge.Java.BTS
