import IconBridge.Lib.Runs
import IconBridge.Go.Icon.Receiver

/-!
# The loop of the ICON receiver

`receiveLoop` of `chain/icon/receiver.go` as the steps of its goroutines. A step
reads or changes one channel at most; what the main loop does between two such
steps is not seen by the others.
-/

namespace IconBridge.Go.Icon

open Lib

/-- Where a goroutine is in the loop of `reconnect`: it reads the length of a channel,
or waits for an element of either one. -/
inductive Drain
  | lenResp
  | lenNotif
  | select
  deriving DecidableEq

/-- Where the main loop is. -/
inductive Main
  /-- At the outer select. -/
  | idle
  /-- With a notification, and the requests made of those before it. -/
  | collecting (bn : BlockNotification) (requests : List BtpBlockRequest)
  /-- Waiting for another notification. -/
  | receiving (requests : List BtpBlockRequest)
  | fetching (requests : List BtpBlockRequest)
  | forwarding (brs : List BtpBlockResponse)
  | handling (blockResponse : BtpBlockResponse)
  /-- Waiting for another response. -/
  | taking
  /-- In its own call of `reconnect`, after a notification of an unexpected height or
  after a failed verification. -/
  | draining (at_ : Drain) (verifying : Bool)
  /-- At the removal of unprocessed responses. -/
  | clearing
  /-- Waiting for a response to be removed. -/
  | removing
  | ended
  deriving DecidableEq

/-- What decides about the blocks that are delivered. -/
structure Core where
  next : ℤ
  vr : Option Verifier
  btpBlockRespCh : List BtpBlockResponse
  main : Main
  /-- The headers that the verifier was updated with. -/
  accepted : List BlockHeader
  /-- The responses whose receipts were passed to the callback. -/
  delivered : List BtpBlockResponse
  /-- Whether a monitor goroutine has taken a response since the main loop began to
  forward the last ones. -/
  stolen : Bool

structure State extends Core where
  reconnectCh : Bool
  btpBlockNotifCh : List BlockNotification
  /-- The monitor goroutines that are in `reconnect`. -/
  drains : List Drain

inductive Act
  /-- The context is done. -/
  | stop
  | notify (v : BlockNotification)
  /-- `MonitorBlock` returns an error. -/
  | monitorError
  | drain (i : ℕ) (resp : Bool)
  | reconnect (rounds : List (ℤ → ℕ → Answers))
  | takeResponse
  | takeNotification
  | collect
  | receive
  | fetch (answers : ℤ → ℕ → Answers)
  | forward
  | handle (callback : Bool)
  | take
  | drainMain (resp : Bool)
  | clear

/-- One step in the loop of `reconnect`. There is no place after it if it is done. -/
def State.drain (s : State) (resp : Bool) : Drain → Except Unit (State × Option Drain)
  | .lenResp => return (s, some (if s.btpBlockRespCh.isEmpty then .lenNotif else .select))
  | .lenNotif => return (s, if s.btpBlockNotifCh.isEmpty then none else some .select)
  | .select =>
    if resp then
      match s.btpBlockRespCh with
      | [] => throw ()
      | _ :: brs => return ({ s with btpBlockRespCh := brs }, some .lenResp)
    else
      match s.btpBlockNotifCh with
      | [] => throw ()
      | _ :: bns => return ({ s with btpBlockNotifCh := bns }, some .lenResp)

/-- A step of the `i`-th monitor goroutine in `reconnect`. -/
def State.drainMonitor (s : State) (i : ℕ) (resp : Bool) : Except Unit State :=
  match s.drains[i]? with
  | none => throw ()
  | some d => do
    let (t, after) ← s.drain resp d
    return { t with
      stolen := t.stolen || (d = .select && resp)
      drains := match after with
        | none => t.drains.eraseIdx i
        | some d => t.drains.set i d }

/-- A step of the main loop in `reconnect`. -/
def State.drainMain (s : State) (resp : Bool) : Except Unit State :=
  match s.main with
  | .draining at_ verifying => do
    let (t, after) ← s.drain resp at_
    return { t with main := match after with
      | some d => .draining d verifying
      | none => if verifying then .clearing else .idle }
  | _ => throw ()

/-- `reconnect` in the main loop. -/
def State.reconnecting (s : State) (verifying : Bool) : State :=
  { s with reconnectCh := true, main := .draining .lenResp verifying }

/-- The case of the reconnect channel: a new monitor goroutine is started and the
verifier is synchronised. -/
def State.reconnect (C : Codec) (concurrency : ℕ) (s : State) (rounds : List (ℤ → ℕ → Answers)) :
    Except Unit State :=
  if s.main = .idle ∧ s.reconnectCh then
    match s.vr with
    | none => return { s with reconnectCh := false }
    | some vr =>
      match syncVerifier C concurrency vr s.next rounds with
      | .ok synced =>
        let accepted := s.accepted ++ synced.accepted.map VerifierBlockResponse.header
        return { s with reconnectCh := false, vr := some synced.vr, accepted }
      | .error .pending => throw ()
      | .error _ => return { s with main := .ended }
  else throw ()

def State.takeResponse (s : State) : Except Unit State :=
  match s.main, s.btpBlockRespCh with
  | .idle, br :: brs => return { s with main := .handling br, btpBlockRespCh := brs }
  | _, _ => throw ()

/-- The default case of the select, which is taken if no other one is ready. -/
def State.takeNotification (s : State) : Except Unit State :=
  match s.main, s.reconnectCh, s.btpBlockRespCh, s.btpBlockNotifCh with
  | .idle, false, [], bn :: bns => return { s with main := .collecting bn [], btpBlockNotifCh := bns }
  | _, _, _, _ => throw ()

/-- Another notification is taken if there is one, and room for a request. -/
def State.collect (C : Codec) (concurrency : ℕ) (s : State) : Except Unit State :=
  match s.main with
  | .collecting bn requests =>
    match C.hexInt bn.height with
    | none => return { s with main := .ended }
    | some height =>
      if height = s.next + requests.length then
        let requests := requests ++
          [{ height, hash := bn.hash, indexes := bn.indexes, events := bn.events }]
        return { s with main :=
          if !s.btpBlockNotifCh.isEmpty && requests.length < concurrency then .receiving requests
          else .fetching requests }
      else return s.reconnecting false
  | _ => throw ()

def State.receive (s : State) : Except Unit State :=
  match s.main, s.btpBlockNotifCh with
  | .receiving requests, bn :: bns =>
    return { s with main := .collecting bn requests, btpBlockNotifCh := bns }
  | _, _ => throw ()

def State.fetch (C : Codec) (logFilter : EventLogRawFilter) (s : State)
    (answers : ℤ → ℕ → Answers) : Except Unit State :=
  match s.main with
  | .fetching requests =>
    match handleBTPBlockRequests C logFilter s.vr requests answers with
    | .error _ => return { s with main := .ended }
    | .ok brs => return { s with main := .forwarding (forwarded s.next brs), stolen := false }
  | _ => throw ()

def State.forward (concurrency : ℕ) (s : State) : Except Unit State :=
  match s.main with
  | .forwarding [] => return { s with main := .idle }
  | .forwarding (d :: ds) => do
    require (s.btpBlockRespCh.length < concurrency) ()
    return { s with main := .forwarding ds, btpBlockRespCh := s.btpBlockRespCh ++ [d] }
  | _ => throw ()

/-- The verifier after a response, if there is one. -/
def verified (G : Goloop) (vr : Option Verifier) (br : BtpBlockResponse) :
    Except Failure (Option Verifier) :=
  match vr with
  | none => return none
  | some vr => do
    verify G vr br.header br.votes
    return some (update vr br.header br.nextValidators)

def State.deliver (s : State) (vr : Option Verifier) (br : BtpBlockResponse) (callback : Bool) :
    State :=
  let s := { s with
    vr
    accepted := if vr.isSome then s.accepted ++ [br.header] else s.accepted
    delivered := s.delivered ++ [br] }
  if !callback then { s with main := .ended }
  else if s.btpBlockRespCh.isEmpty then { s with main := .clearing, next := s.next + 1 }
  else { s with main := .taking }

/-- One round of `handleBTPBlockResponse`. -/
def State.handle (C : Codec) (s : State) (callback : Bool) : Except Unit State :=
  match s.main with
  | .handling br =>
    match verified C.toGoloop s.vr br with
    | .error .crash => return { s with main := .ended }
    | .error _ => return s.reconnecting true
    | .ok vr => return (s.deliver vr br callback)
  | _ => throw ()

def State.take (s : State) : Except Unit State :=
  match s.main, s.btpBlockRespCh with
  | .taking, br :: brs =>
    return { s with main := .handling br, btpBlockRespCh := brs, next := s.next + 1 }
  | _, _ => throw ()

def State.clear (s : State) : Except Unit State :=
  match s.main, s.btpBlockRespCh with
  | .clearing, [] => return { s with main := .idle }
  | .clearing, _ :: _ => return { s with main := .removing }
  | .removing, _ :: brs => return { s with main := .clearing, btpBlockRespCh := brs }
  | _, _ => throw ()

def step (C : Codec) (logFilter : EventLogRawFilter) (concurrency : ℕ) (s : State) :
    Act → Except Unit State
  | .stop => do
    require (s.main = .idle) ()
    return { s with main := .ended }
  | .notify v => do
    require (s.btpBlockNotifCh.length < concurrency) ()
    return { s with btpBlockNotifCh := s.btpBlockNotifCh ++ [v] }
  | .monitorError => return { s with reconnectCh := true, drains := s.drains ++ [.lenResp] }
  | .drain i resp => s.drainMonitor i resp
  | .reconnect rounds => s.reconnect C concurrency rounds
  | .takeResponse => s.takeResponse
  | .takeNotification => s.takeNotification
  | .collect => s.collect C concurrency
  | .receive => s.receive
  | .fetch answers => s.fetch C logFilter answers
  | .forward => s.forward concurrency
  | .handle callback => s.handle C callback
  | .take => s.take
  | .drainMain resp => s.drainMain resp
  | .clear => s.clear

/-- The state in which the loop starts. -/
def start (startHeight : UInt64) (vr : Option Verifier) : State where
  next := int64 startHeight.toNat
  vr
  btpBlockRespCh := []
  main := .idle
  accepted := []
  delivered := []
  stolen := false
  reconnectCh := true
  btpBlockNotifCh := []
  drains := []

section

variable (C : Codec) (logFilter : EventLogRawFilter) (concurrency : ℕ)

/-- The steps as they change what decides about the blocks. -/
inductive Moves : Core → Act → Core → Prop
  | quiet : Moves s act s
  | stop : Moves s act { s with main := .ended }
  | steal (hresp : s.btpBlockRespCh = br :: brs) :
      Moves s (.drain i true) { s with btpBlockRespCh := brs, stolen := true }
  | sync (hmain : s.main = .idle) (hvr : s.vr = some vr)
      (hsync : syncVerifier C concurrency vr s.next rounds = .ok synced) :
      Moves s (.reconnect rounds) { s with
        vr := some synced.vr
        accepted := s.accepted ++ synced.accepted.map VerifierBlockResponse.header }
  | takeResponse (hmain : s.main = .idle) (hresp : s.btpBlockRespCh = br :: brs) :
      Moves s .takeResponse { s with main := .handling br, btpBlockRespCh := brs }
  | takeNotification (hmain : s.main = .idle) (hresp : s.btpBlockRespCh = []) :
      Moves s .takeNotification { s with main := .collecting bn [] }
  | collect {requests : List BtpBlockRequest} {request : BtpBlockRequest}
      (hmain : s.main = .collecting bn requests)
      (hheight : request.height = s.next + requests.length)
      (hmain' : main = .receiving (requests ++ [request]) ∨ main = .fetching (requests ++ [request])) :
      Moves s .collect { s with main }
  | unexpected (hmain : s.main = .collecting bn requests) :
      Moves s .collect { s with main := .draining .lenResp false }
  | receive (hmain : s.main = .receiving requests) :
      Moves s .receive { s with main := .collecting bn requests }
  | fetch (hmain : s.main = .fetching requests)
      (hfetch : handleBTPBlockRequests C logFilter s.vr requests answers = .ok brs) :
      Moves s (.fetch answers) { s with main := .forwarding (forwarded s.next brs), stolen := false }
  | forward (hmain : s.main = .forwarding (d :: ds)) :
      Moves s .forward { s with main := .forwarding ds, btpBlockRespCh := s.btpBlockRespCh ++ [d] }
  | forwarded (hmain : s.main = .forwarding []) : Moves s .forward { s with main := .idle }
  | reject (hmain : s.main = .handling br) :
      Moves s (.handle callback) { s with main := .draining .lenResp true }
  | deliver (hmain : s.main = .handling br) (hvr : verified C.toGoloop s.vr br = .ok vr)
      (hmain' : main = .ended ∧ next = s.next ∨ main = .taking ∧ next = s.next ∨
        main = .clearing ∧ next = s.next + 1) :
      Moves s (.handle callback) { s with
        vr
        main
        next
        accepted := if vr.isSome then s.accepted ++ [br.header] else s.accepted
        delivered := s.delivered ++ [br] }
  | take (hmain : s.main = .taking) (hresp : s.btpBlockRespCh = br :: brs) :
      Moves s .take { s with main := .handling br, btpBlockRespCh := brs, next := s.next + 1 }
  | drain {d d' : Drain} (hmain : s.main = .draining d verifying)
      (hresp : d' = .lenNotif → s.btpBlockRespCh = []) :
      Moves s (.drainMain resp) { s with main := .draining d' verifying }
  | drainResp (hmain : s.main = .draining d verifying) (hresp : s.btpBlockRespCh = br :: brs) :
      Moves s (.drainMain resp) { s with main := .draining .lenResp verifying, btpBlockRespCh := brs }
  | drained (hmain : s.main = .draining .lenNotif verifying)
      (hmain' : main = .clearing ∨ main = .idle) :
      Moves s (.drainMain resp) { s with main }
  | cleared (hmain : s.main = .clearing) (hresp : s.btpBlockRespCh = []) :
      Moves s .clear { s with main := .idle }
  | clear (hmain : s.main = .clearing) : Moves s .clear { s with main := .removing }
  | remove (hmain : s.main = .removing) (hresp : s.btpBlockRespCh = br :: brs) :
      Moves s .clear { s with main := .clearing, btpBlockRespCh := brs }

end

variable {C : Codec} {logFilter : EventLogRawFilter} {concurrency : ℕ} {s s' : State}

theorem drain_cases (h : s.drain resp d = .ok (t, after)) :
    (t.toCore = s.toCore ∧ (d = .select && resp) = false ∧
      (after = some .lenNotif → s.btpBlockRespCh = []) ∧ (after = none → d = .lenNotif)) ∨
    ∃ br brs, s.btpBlockRespCh = br :: brs ∧ t.toCore = { s.toCore with btpBlockRespCh := brs } ∧
      d = .select ∧ resp = true ∧ after = some .lenResp := by
  cases d with
  | lenResp =>
    simp only [State.drain, pure_ok, Prod.mk.injEq] at h
    obtain ⟨rfl, rfl⟩ := h
    refine .inl ⟨rfl, rfl, fun hlen => ?_, by simp⟩
    by_contra hne
    simp [hne] at hlen
  | lenNotif =>
    simp only [State.drain, pure_ok, Prod.mk.injEq] at h
    obtain ⟨rfl, rfl⟩ := h
    refine .inl ⟨rfl, rfl, fun hlen => ?_, fun _ => rfl⟩
    by_cases hempty : s.btpBlockNotifCh.isEmpty <;> simp [hempty] at hlen
  | select =>
    cases resp with
    | true =>
      simp only [State.drain, if_true] at h
      cases hresp : s.btpBlockRespCh with
      | nil => simp [hresp] at h
      | cons br brs =>
        simp only [hresp, pure_ok, Prod.mk.injEq] at h
        obtain ⟨rfl, rfl⟩ := h
        exact .inr ⟨br, brs, rfl, rfl, rfl, rfl, rfl⟩
    | false =>
      simp only [State.drain, Bool.false_eq_true, if_false] at h
      cases hnotif : s.btpBlockNotifCh with
      | nil => simp [hnotif] at h
      | cons bn bns =>
        simp only [hnotif, pure_ok, Prod.mk.injEq] at h
        obtain ⟨rfl, rfl⟩ := h
        exact .inl ⟨rfl, rfl, by simp, by simp⟩

theorem drainMonitor_moves (h : s.drainMonitor i resp = .ok s') :
    Moves C logFilter concurrency s.toCore (.drain i resp) s'.toCore := by
  unfold State.drainMonitor at h
  split at h
  · simp at h
  · simp only [bind_ok, pure_ok] at h
    obtain ⟨⟨t, after⟩, hdrain, rfl⟩ := h
    rcases drain_cases hdrain with ⟨hcore, hselect, -⟩ | ⟨br, brs, hresp, hcore, rfl, rfl, -⟩
    · simpa only [hselect, Bool.or_false, hcore] using Moves.quiet
    · simpa only [hcore, decide_true, Bool.and_self, Bool.or_true] using Moves.steal hresp

theorem drainMain_moves (h : s.drainMain resp = .ok s') :
    Moves C logFilter concurrency s.toCore (.drainMain resp) s'.toCore := by
  unfold State.drainMain at h
  split at h
  · next d verifying hmain =>
    simp only [bind_ok, pure_ok] at h
    obtain ⟨⟨t, after⟩, hdrain, rfl⟩ := h
    rcases drain_cases hdrain with ⟨hcore, -, hlen, hdone⟩ | ⟨br, brs, hresp, hcore, -, -, rfl⟩
    · rw [hcore]
      cases after with
      | some d' => exact .drain hmain fun hd => hlen (congrArg some hd)
      | none =>
        cases hdone rfl
        refine .drained hmain ?_
        cases verifying with
        | true => exact .inl rfl
        | false => exact .inr rfl
    · rw [hcore]
      exact .drainResp hmain hresp
  · simp at h

theorem reconnect_moves (h : s.reconnect C concurrency rounds = .ok s') :
    Moves C logFilter concurrency s.toCore (.reconnect rounds) s'.toCore := by
  unfold State.reconnect at h
  split at h
  · next hready =>
    split at h
    · obtain rfl := pure_ok.1 h
      exact .quiet
    · next vr hvr =>
      split at h
      · next synced hsync =>
        obtain rfl := pure_ok.1 h
        exact .sync hready.1 hvr hsync
      · simp at h
      · obtain rfl := pure_ok.1 h
        exact .stop
  · simp at h

theorem collect_moves (h : s.collect C concurrency = .ok s') :
    Moves C logFilter concurrency s.toCore .collect s'.toCore := by
  unfold State.collect at h
  split at h
  · next bn requests hmain =>
    split at h
    · obtain rfl := pure_ok.1 h
      exact .stop
    · next height _ =>
      split at h
      · next hheight =>
        obtain rfl := pure_ok.1 h
        let request : BtpBlockRequest :=
          { height, hash := bn.hash, indexes := bn.indexes, events := bn.events }
        have hrequest : request.height = s.next + requests.length := hheight
        refine .collect hmain hrequest ?_
        split
        · exact .inl rfl
        · exact .inr rfl
      · obtain rfl := pure_ok.1 h
        exact .unexpected hmain
  · simp at h

theorem handle_moves (h : s.handle C callback = .ok s') :
    Moves C logFilter concurrency s.toCore (.handle callback) s'.toCore := by
  unfold State.handle at h
  split at h
  · next br hmain =>
    split at h
    · obtain rfl := pure_ok.1 h
      exact .stop
    · obtain rfl := pure_ok.1 h
      exact .reject hmain
    · next vr hvr =>
      obtain rfl := pure_ok.1 h
      simp only [State.deliver]
      split
      · exact .deliver hmain hvr (.inl ⟨rfl, rfl⟩)
      · split
        · exact .deliver hmain hvr (.inr (.inr ⟨rfl, rfl⟩))
        · exact .deliver hmain hvr (.inr (.inl ⟨rfl, rfl⟩))
  · simp at h

theorem step_moves (h : step C logFilter concurrency s act = .ok s') :
    Moves C logFilter concurrency s.toCore act s'.toCore := by
  cases act with
  | stop =>
    simp only [step, bind_ok, pure_ok] at h
    obtain ⟨_, -, rfl⟩ := h
    exact .stop
  | notify v =>
    simp only [step, bind_ok, pure_ok] at h
    obtain ⟨_, -, rfl⟩ := h
    exact .quiet
  | monitorError =>
    simp only [step, pure_ok] at h
    subst h
    exact .quiet
  | drain i resp => exact drainMonitor_moves h
  | reconnect rounds => exact reconnect_moves h
  | takeResponse =>
    simp only [step, State.takeResponse] at h
    split at h
    · next hmain hresp =>
      obtain rfl := pure_ok.1 h
      exact .takeResponse hmain hresp
    · simp at h
  | takeNotification =>
    simp only [step, State.takeNotification] at h
    split at h
    · next hmain _ hresp _ =>
      obtain rfl := pure_ok.1 h
      exact .takeNotification hmain hresp
    · simp at h
  | collect => exact collect_moves h
  | receive =>
    simp only [step, State.receive] at h
    split at h
    · next hmain _ =>
      obtain rfl := pure_ok.1 h
      exact .receive hmain
    · simp at h
  | fetch answers =>
    simp only [step, State.fetch] at h
    split at h
    · next hmain =>
      split at h
      · obtain rfl := pure_ok.1 h
        exact .stop
      · next hfetch =>
        obtain rfl := pure_ok.1 h
        exact .fetch hmain hfetch
    · simp at h
  | forward =>
    simp only [step, State.forward] at h
    split at h
    · next hmain =>
      obtain rfl := pure_ok.1 h
      exact .forwarded hmain
    · next hmain =>
      simp only [bind_ok, pure_ok] at h
      obtain ⟨_, -, rfl⟩ := h
      exact .forward hmain
    · simp at h
  | handle callback => exact handle_moves h
  | take =>
    simp only [step, State.take] at h
    split at h
    · next hmain hresp =>
      obtain rfl := pure_ok.1 h
      exact .take hmain hresp
    · simp at h
  | drainMain resp => exact drainMain_moves h
  | clear =>
    simp only [step, State.clear] at h
    split at h
    · next hmain hresp =>
      obtain rfl := pure_ok.1 h
      exact .cleared hmain hresp
    · next hmain _ =>
      obtain rfl := pure_ok.1 h
      exact .clear hmain
    · next hmain hresp =>
      obtain rfl := pure_ok.1 h
      exact .remove hmain hresp
    · simp at h

end IconBridge.Go.Icon
