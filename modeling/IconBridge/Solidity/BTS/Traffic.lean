import IconBridge.Solidity.BTS.Requests

/-!
# What the token service says and does with messages

A call sends the requests that it files, and nothing else. A message that is
handled is answered, settles a request, or is noted.
-/

namespace IconBridge.Solidity.BTS

open Lib List

variable {d : Deployment} {s s' t : St}

def Event.received? : Event → Option Nat
  | .transferReceived _ _ sn _ => some sn
  | _ => none

def Event.ended? : Event → Option (Nat × Bool)
  | .transferEnd _ sn code _ => some (sn, decide (code = rcOk))
  | _ => none

def received (s : St) : List Nat := s.events.filterMap Event.received?

def ended (s : St) : List (Nat × Bool) := s.events.filterMap Event.ended?

/-- Requests are filed under the next serial numbers and sent, and `ends` have
been settled. -/
structure Files (ends : List (Nat × Bool)) (s s' : St) (out : List Outgoing) : Prop where
  sent : s'.sent = s.sent ++ out
  numbers : out.map Outgoing.sn = List.range' (s.serialNo + 1) out.length
  serial : s'.serialNo = s.serialNo + out.length
  kinds : ∀ o ∈ out, ∃ tc, o.msg = ⟨.requestCoinTransfer, .transferCoin tc⟩
  received : received s' = received s
  ended : ended s' = ended s ++ ends

theorem Files.sn_le (h : Files ends s s' out) (ho : o ∈ out) :
    s.serialNo < o.sn ∧ o.sn ≤ s'.serialNo := by
  have hmem : o.sn ∈ out.map Outgoing.sn := mem_map_of_mem ho
  rw [h.numbers, mem_range'_1] at hmem
  rw [h.serial]
  omega

theorem Files.serial_le (h : Files ends s s' out) : s.serialNo ≤ s'.serialNo := by
  rw [h.serial]
  exact Nat.le_add_right _ _

theorem Files.nil (hdesk : desk s' = desk s) (hevents : s'.events = s.events) : Files [] s s' [] := by
  simp only [desk, Prod.mk.injEq] at hdesk
  obtain ⟨-, hserial, hsent⟩ := hdesk
  exact ⟨by simp [hsent], rfl, by simp [hserial], by simp, by simp only [BTS.received, hevents],
    by simp [BTS.ended, hevents]⟩

theorem Files.trans (h1 : Files ends1 s t out1) (h2 : Files ends2 t s' out2) :
    Files (ends1 ++ ends2) s s' (out1 ++ out2) where
  sent := by rw [h2.sent, h1.sent, append_assoc]
  numbers := by
    rw [map_append, h1.numbers, h2.numbers, h1.serial, length_append,
      Nat.add_right_comm, range'_append_1]
  serial := by rw [h2.serial, h1.serial, length_append, Nat.add_assoc]
  kinds o ho := (mem_append.1 ho).elim (h1.kinds o) (h2.kinds o)
  received := h2.received.trans h1.received
  ended := by rw [h2.ended, h1.ended, append_assoc]

theorem sendServiceMessage_files (h : sendServiceMessage d s u target es = .ok s') :
    ∃ out, Files [] s s' out := by
  obtain ⟨_, _, -, rfl⟩ := sendServiceMessage_eq h
  refine ⟨_, rfl, rfl, rfl, ?_, ?_, ?_⟩
  · intro o ho
    obtain rfl := mem_singleton.1 ho
    exact ⟨_, rfl⟩
  · simp [received, Event.received?]
  · simp [ended, Event.ended?]

theorem files_calls : Calls d fun s s' => ∃ out, Files [] s s' out where
  trans := fun ⟨_, h1⟩ ⟨_, h2⟩ => ⟨_, h1.trans h2⟩
  keeps hdesk _ hevents _ := ⟨[], .nil hdesk hevents⟩
  moves h := by
    obtain ⟨_, _, _, rfl⟩ := h.eq
    exact ⟨[], .nil rfl rfl⟩
  files _ _ h := sendServiceMessage_files h

structure Replies (got : List Nat) (s s' : St) (target : String) (sn : Nat) (ty : ServiceType)
    (r : Response) : Prop where
  sent : s'.sent = s.sent ++ [⟨target, sn, ⟨ty, .response r⟩⟩]
  serial : s'.serialNo = s.serialNo
  received : received s' = received s ++ got
  ended : ended s' = ended s

inductive Handles (s : St) (src : String) (sn : Nat) (s' : St) : ServiceMessage → Prop
  | accepts (tc : TransferCoin) (t : St) (out : List Outgoing) (hfiles : Files [] s t out)
      (hreplies : Replies [sn] t s' src sn .responseHandleService ⟨rcOk, ""⟩) :
      Handles s src sn s' ⟨.requestCoinTransfer, .transferCoin tc⟩
  | refuses (tc : TransferCoin) (reason : String)
      (hreplies : Replies [] s s' src sn .responseHandleService ⟨rcErr, reason⟩) :
      Handles s src sn s' ⟨.requestCoinTransfer, .transferCoin tc⟩
  | changes (m : ServiceMessage) (hm : m.serviceType = .blacklistMessage ∨
      m.serviceType = .changeTokenLimit) (r : Response)
      (hreplies : Replies [] s s' src sn m.serviceType r) : Handles s src sn s' m
  | settles (r : Response) (out : List Outgoing)
      (hfiles : Files [(sn, decide (r.code = rcOk))] s s' out) :
      Handles s src sn s' ⟨.responseHandleService, .response r⟩
  | notes (data : Data) (hfiles : Files [] s s' []) : Handles s src sn s' ⟨.unknownType, data⟩
  | disowns (data : Data) (r : Response) (hreplies : Replies [] s s' src sn .unknownType r) :
      Handles s src sn s' ⟨.requestCoinRegister, data⟩

theorem settle_files (h : settle d s sn code message rs = .ok s') :
    ∃ out, Files [(sn, decide (code = rcOk))] s s' out := by
  obtain ⟨p, u, t, -, -, -, ht, -, rfl⟩ := settle_ok h
  obtain ⟨out, hfiles⟩ := files_calls.settleLoop ht
  refine ⟨out, hfiles.sent, hfiles.numbers, hfiles.serial, hfiles.kinds, ?_, ?_⟩
  · rw [← hfiles.received]
    simp [received, Event.received?]
  · have hended := hfiles.ended
    rw [append_nil] at hended
    rw [← hended]
    simp [ended, Event.ended?]

theorem handleBTPError_files (h : handleBTPError d s sender svc sn code message rs = .ok s') :
    ∃ out, Files [(sn, false)] s s' out := by
  simp only [handleBTPError, bind_ok] at h
  obtain ⟨_, -, _, -, _, -, h⟩ := h
  exact settle_files h

theorem Reports.handles {m : ServiceMessage}
    (hm : m.serviceType = .blacklistMessage ∨ m.serviceType = .changeTokenLimit)
    (hattempt : ∀ t, attempt = .ok t → desk t = desk s ∧ t.events = s.events)
    (h : Reports s attempt m.serviceType src sn s') : Handles s src sn s' m := by
  cases h with
  | confirms t message ht h =>
    obtain ⟨hdesk, hevents⟩ := hattempt t ht
    simp only [desk, Prod.mk.injEq] at hdesk
    obtain ⟨-, hserial, hsent⟩ := hdesk
    subst h
    refine .changes m hm _ ⟨congrArg (· ++ _) hsent, hserial, ?_, ?_⟩
    · simp [received, hevents]
    · simp [ended, hevents]
  | refuses message h =>
    subst h
    exact .changes m hm _ ⟨rfl, rfl, (append_nil _).symm, rfl⟩

theorem Receives.handles (h : Receives d s src sn rs s' m) : Handles s src sn s' m := by
  cases h with
  | accepts tc t receiver ht h =>
    simp only [handleRequestService, bind_ok] at ht
    obtain ⟨_, -, ht⟩ := ht
    obtain ⟨out, hfiles⟩ := files_calls.requestLoop ht
    subst h
    exact .accepts tc t out hfiles ⟨rfl, rfl, by simp [received, Event.received?],
      by simp [ended, Event.ended?]⟩
  | refuses tc reason h =>
    subst h
    exact .refuses tc reason ⟨rfl, rfl, (append_nil _).symm, rfl⟩
  | blacklist bm h =>
    refine h.handles (.inl rfl) fun t ht => ?_
    obtain ⟨_, rfl, -⟩ := BlacklistMessage.change_eq ht
    exact ⟨rfl, rfl⟩
  | limit tl h =>
    refine h.handles (.inr rfl) fun t ht => ?_
    simp only [setTokenLimit, bind_ok, pure_ok] at ht
    obtain ⟨_, -, _, -, rfl⟩ := ht
    exact ⟨rfl, rfl⟩
  | response r h =>
    obtain ⟨out, hfiles⟩ := settle_files h
    exact .settles r out hfiles
  | unknown data h =>
    subst h
    exact .notes data ⟨by simp, rfl, rfl, by simp, by simp [received, Event.received?],
      by simp [ended, Event.ended?]⟩
  | disowned data r h =>
    subst h
    exact .disowns data r ⟨rfl, rfl, (append_nil _).symm, rfl⟩

theorem handleBTPMessage_handles
    (h : handleBTPMessage d s sender src svc sn (some m) rs = .ok s') : Handles s src sn s' m :=
  (handleBTPMessage_receives h).2.handles

theorem Handles.posts (h : Handles s src sn s' m) :
    s.serialNo ≤ s'.serialNo ∧ ∃ out, s'.sent = s.sent ++ out := by
  cases h with
  | accepts tc t out hfiles hreplies =>
    exact ⟨hreplies.serial ▸ hfiles.serial_le, _, by rw [hreplies.sent, hfiles.sent, append_assoc]⟩
  | refuses _ _ hreplies | changes _ _ _ hreplies | disowns _ _ hreplies =>
    exact ⟨hreplies.serial.ge, _, hreplies.sent⟩
  | settles _ _ hfiles | notes _ hfiles => exact ⟨hfiles.serial_le, _, hfiles.sent⟩

theorem handleFeeGathering_files (h : handleFeeGathering d s sender fa svc = .ok s') :
    ∃ out, Files [] s s' out := by
  simp only [handleFeeGathering, bind_ok] at h
  obtain ⟨_, -, _, -, _, -, h⟩ := h
  obtain ⟨out, hfiles⟩ := sendServiceMessage_files h
  exact ⟨out, hfiles.sent, hfiles.numbers, hfiles.serial, hfiles.kinds, hfiles.received, hfiles.ended⟩

def Tx.outside : Tx → Bool
  | .user .. | .register .. | .setFeeRatio .. | .updateCoinDb .. => true
  | _ => false

theorem Tx.registers_of_outside {tx : Tx} (htx : tx.outside) :
    (∃ sender c, tx = .user sender c) ∨ tx.Registers := by
  cases tx with
  | user sender c => exact .inl ⟨sender, c, rfl⟩
  | register | setFeeRatio | updateCoinDb => exact .inr trivial
  | _ => contradiction

theorem step_files (htx : tx.outside) (h : step d s tx = .ok s') : ∃ out, Files [] s s' out := by
  obtain ⟨sender, c, rfl⟩ | hr := Tx.registers_of_outside htx
  · exact files_calls.call s s' sender c h
  · obtain ⟨_, _, _, _, _, _, rfl | ⟨_, _, ht⟩, rfl⟩ := step_registers_eq hr h
    · exact ⟨[], .nil rfl rfl⟩
    · simp only [deployTradable, bind_ok, pure_ok] at ht
      obtain ⟨_, -, _, -, rfl⟩ := ht
      exact ⟨[], .nil rfl rfl⟩

end IconBridge.Solidity.BTS
