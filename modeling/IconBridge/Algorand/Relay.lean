import Mathlib.Data.List.Range
import Mathlib.Logic.Function.Basic
import IconBridge.Lib.Runs
import IconBridge.Algorand.Outbound

/-!
# The relay loop with Algorand as destination

What Algorand has received is counted in a status file alone: a confirmed group
of calls counts as one event, however many calls it holds.
-/

namespace IconBridge.Algorand.Relay

open Lib Function Option

inductive Field
  | txSeq
  | rxSeq
  | rxHeight
  | txHeight
  deriving DecidableEq, Repr

abbrev LinkStatus := Field → ℕ

/-- A number that is read as a `float64` and written again, as it is or
incremented. The mantissa has 53 bits. -/
structure Float64 where
  rewrite : ℕ → ℕ
  increment : ℕ → ℕ
  rewrite_of_le : ∀ n ≤ 2 ^ 53, rewrite n = n
  increment_of_lt : ∀ n < 2 ^ 53, increment n = n + 1

/-- The other fields are written with the one that changes. -/
def incrementSeq (f : Float64) (field : Field) (l : LinkStatus) : LinkStatus :=
  update (fun x => f.rewrite (l x)) field (f.increment (l field))

def updateHeight (f : Float64) (field : Field) (value : ℕ) (l : LinkStatus) : LinkStatus :=
  update (fun x => f.rewrite (l x)) field value

/-- The file, the variables of `Start` and of the sender, and the events whose
calls Algorand has executed. -/
structure St where
  status : LinkStatus
  running : Bool := false
  receipts : List Receipt := []
  txBlockHeight : ℕ := 0
  params : CallParams := {}
  executed : List Event := []

/-- The events beyond `rxSeq` and the last number, or nothing when one is
missing. -/
def filterEvents : ℕ → List Event → Option (List Event × ℕ)
  | rxSeq, [] => some ([], rxSeq)
  | rxSeq, event :: events =>
    if rxSeq < event.sequence then
      if event.sequence = rxSeq + 1 then do
        let (events, last) ← filterEvents (rxSeq + 1) events
        return (event :: events, last)
      else none
    else filterEvents rxSeq events

def filterSrcMsg (rxHeight : ℕ) : ℕ → List Receipt → Option (List Receipt)
  | _, [] => some []
  | rxSeq, receipt :: receipts =>
    if receipt.height < rxHeight then filterSrcMsg rxHeight rxSeq receipts
    else do
      let (events, last) ← filterEvents rxSeq receipt.events
      let receipts ← filterSrcMsg rxHeight last receipts
      return if events = [] then receipts else { receipt with events } :: receipts

def packed : ℕ → List Receipt → List Event
  | _, [] => []
  | k, receipt :: receipts =>
    if atomicTxnLimit ≤ k + receipt.events.length then []
    else receipt.events ++ packed (k + receipt.events.length) receipts

inductive Tx
  /-- `Start`, with a new sender or with the one there is. -/
  | start (newProcess : Bool)
  /-- Receipts come from the source. -/
  | receive (receipts : List Receipt)
  /-- One iteration; `confirmed` when `Send` has succeeded in the end, and not
  when it was cancelled. -/
  | relay (confirmed : Bool)
  /-- The receiver of the other direction counts a message. -/
  | transmit (round : ℕ)

def stop (s : St) : St := { s with running := false }

/-- A group without calls is never sent. `Send` keeps the confirmed round in a
copy, so `Receipt` returns round zero. -/
def relay (services : String → Option ℕ) (f : Float64) (s : St) (confirmed : Bool) : St :=
  if s.status .txHeight < s.txBlockHeight then s
  else
    match filterSrcMsg (s.status .rxHeight) (s.status .rxSeq) s.receipts with
    | none => stop s
    | some receipts =>
      match segment services s.params receipts with
      | .error _ => stop s
      | .ok (params, none) => { s with receipts, params }
      | .ok (params, some (tx, left)) =>
        if tx.svcs ≠ [] ∧ confirmed then
          { s with
            status := updateHeight f .rxHeight tx.height (incrementSeq f .rxSeq s.status)
            receipts := left
            txBlockHeight := 0
            params
            executed := s.executed ++ packed 0 receipts }
        else stop { s with receipts, params }

def step (services : String → Option ℕ) (f : Float64) (s : St) : Tx → Outcome St
  | .start newProcess => .ok
    { s with
      running := true
      receipts := []
      txBlockHeight := s.status .txHeight
      params := if newProcess then {} else s.params }
  | .receive receipts => do
    require s.running (.error "")
    return { s with receipts := s.receipts ++ receipts.filter fun r => r.events ≠ [] }
  | .relay confirmed => do
    require s.running (.error "")
    return relay services f s confirmed
  | .transmit round => .ok
    { s with status := updateHeight f .txHeight round (incrementSeq f .txSeq s.status) }

variable {services : String → Option ℕ} {f : Float64} {s s' : St}

theorem segmentEvent_length (h : segmentEvent services x event = .ok y) :
    y.2.length = x.2.length + 1 := by
  simp only [segmentEvent, bind_ok] at h
  obtain ⟨_, -, h⟩ := h
  split at h
  · contradiction
  · simp only [bind_ok, pure_ok] at h
    obtain ⟨_, -, _, -, _, -, _, -, _, -, rfl⟩ := h
    simp

theorem segmentEvents_length {events : List Event} (h : events.foldlM (segmentEvent services) x = .ok y) :
    y.2.length = x.2.length + events.length := by
  induction events generalizing x with
  | nil => cases h; rfl
  | cons event events ih =>
    simp only [List.foldlM_cons, bind_ok] at h
    obtain ⟨z, hz, h⟩ := h
    rw [ih h, segmentEvent_length hz, List.length_cons]
    omega

theorem segmentLoop_ok {receipts : List Receipt}
    (h : segmentLoop services all receipts x = .ok (y, left)) :
    (packed x.2.length receipts).foldlM (segmentEvent services) x = .ok y := by
  induction receipts generalizing x with
  | nil => cases h; rfl
  | cons receipt receipts ih =>
    rw [segmentLoop] at h
    rw [packed]
    split at h
    · next hfull =>
      cases h
      rw [if_pos hfull]
      rfl
    · next hfits =>
      simp only [bind_ok] at h
      obtain ⟨z, hz, h⟩ := h
      rw [if_neg hfits, List.foldlM_append, hz, ← segmentEvents_length hz]
      exact ih h

theorem segment_ok {receipts : List Receipt}
    (h : segment services params receipts = .ok (params', some (tx, left))) :
    (packed 0 receipts).foldlM (segmentEvent services) (params, []) = .ok (params', tx.svcs) := by
  cases receipts with
  | nil => cases h
  | cons receipt receipts =>
    simp only [segment, bind_ok, pure_ok, Prod.exists] at h
    obtain ⟨params', svcs, left, hloop, h⟩ := h
    cases h
    exact segmentLoop_ok hloop

theorem packed_isPrefix (k : ℕ) (receipts : List Receipt) :
    packed k receipts <+: receipts.flatMap Receipt.events := by
  induction receipts generalizing k with
  | nil => exact List.prefix_rfl
  | cons receipt receipts ih =>
    rw [packed, List.flatMap_cons]
    split
    · exact List.nil_prefix
    · exact (List.prefix_append_right_inj _).2 (ih _)

/-- The events have the numbers behind `n`, one after the other. -/
def Consecutive (n : ℕ) (events : List Event) : Prop :=
  events.map Event.sequence = List.range' (n + 1) events.length

theorem Consecutive.append (h : Consecutive n es) (h' : Consecutive (n + es.length) es') :
    Consecutive n (es ++ es') := by
  unfold Consecutive at *
  rw [List.map_append, h, h', List.length_append, ← List.range'_append]
  congr 2
  omega

theorem Consecutive.of_isPrefix (h : Consecutive n es) (hp : es' <+: es) : Consecutive n es' := by
  obtain ⟨rest, rfl⟩ := hp
  unfold Consecutive at *
  rw [List.map_append, List.length_append, ← List.range'_append] at h
  exact (List.append_inj h (by simp)).1

theorem filterEvents_some {events : List Event} (h : filterEvents n events = some (es, last)) :
    Consecutive n es ∧ last = n + es.length := by
  induction events generalizing n es with
  | nil =>
    cases h
    exact ⟨rfl, rfl⟩
  | cons event events ih =>
    rw [filterEvents] at h
    split at h
    · split at h
      · next hnext =>
        simp only [bind_eq_bind, bind_eq_some_iff, Prod.exists, pure_def,
          Option.some.injEq, Prod.mk.injEq] at h
        obtain ⟨es, last, hrest, rfl, rfl⟩ := h
        obtain ⟨hes, hlast⟩ := ih hrest
        refine ⟨?_, by rw [hlast, List.length_cons]; omega⟩
        rw [Consecutive, List.map_cons, hes, List.length_cons, List.range'_succ, hnext]
      · contradiction
    · exact ih h

theorem filterSrcMsg_some {receipts : List Receipt}
    (h : filterSrcMsg rxHeight n receipts = some rs) :
    Consecutive n (rs.flatMap Receipt.events) := by
  induction receipts generalizing n rs with
  | nil =>
    cases h
    exact rfl
  | cons receipt receipts ih =>
    rw [filterSrcMsg] at h
    split at h
    · exact ih h
    · simp only [bind_eq_bind, bind_eq_some_iff, Prod.exists, pure_def,
        Option.some.injEq] at h
      obtain ⟨es, last, hes, rs, hrs, rfl⟩ := h
      obtain ⟨hconsecutive, rfl⟩ := filterEvents_some hes
      have hrest := ih hrs
      split
      · next hnil => simpa [hnil] using hrest
      · rw [List.flatMap_cons]
        exact hconsecutive.append hrest

def group (s : St) : List Event :=
  ((filterSrcMsg (s.status .rxHeight) (s.status .rxSeq) s.receipts).map (packed 0)).getD []

/-- A group that is sent holds one event, and its number is not too large for
the file. -/
def Tx.Single (s : St) : Tx → Prop
  | .relay true => (group s).length ≤ 1 ∧ s.status .rxSeq < 2 ^ 53
  | _ => True

/-- The events behind `n` were executed in order, and the file counts them. -/
structure Delivered (n : ℕ) (s : St) : Prop where
  consecutive : Consecutive n s.executed
  rxSeq : s.status .rxSeq = n + s.executed.length
  small : s.status .rxSeq ≤ 2 ^ 53

theorem Delivered.of_status (h : Delivered n s) (he : s'.executed = s.executed)
    (hr : s'.status .rxSeq = s.status .rxSeq) : Delivered n s' :=
  ⟨he ▸ h.consecutive, by rw [hr, he]; exact h.rxSeq, hr ▸ h.small⟩

theorem relay_delivered (h : Delivered n s) (hsingle : (Tx.relay confirmed).Single s) :
    Delivered n (relay services f s confirmed) := by
  unfold relay
  split
  · exact h
  · split
    · exact h.of_status rfl rfl
    · next receipts hfilter =>
      split
      · exact h.of_status rfl rfl
      · exact h.of_status rfl rfl
      · next params tx left hsegment =>
        split
        · next hsent =>
          obtain ⟨hcalls, rfl⟩ := hsent
          obtain ⟨hlength, hsmall⟩ := hsingle
          have hgroup : group s = packed 0 receipts := by simp [group, hfilter]
          have hnumbers : Consecutive (s.status .rxSeq) (packed 0 receipts) :=
            (filterSrcMsg_some hfilter).of_isPrefix (packed_isPrefix 0 receipts)
          have hone : (packed 0 receipts).length = 1 := by
            have hlen := segmentEvents_length (segment_ok hsegment)
            have hpos := List.length_pos_iff.2 hcalls
            rw [hgroup] at hlength
            simp only [List.length_nil] at hlen
            omega
          have hcount : updateHeight f .rxHeight tx.height (incrementSeq f .rxSeq s.status) .rxSeq =
              s.status .rxSeq + 1 := by
            simp only [updateHeight, incrementSeq, update_self, ne_eq, reduceCtorEq,
              not_false_iff, update_of_ne, f.increment_of_lt _ hsmall]
            exact f.rewrite_of_le _ hsmall
          refine ⟨h.consecutive.append (h.rxSeq ▸ hnumbers), ?_, ?_⟩
          · simp only [hcount, h.rxSeq, List.length_append, hone]
            omega
          · simp only [hcount]
            omega
        · exact h.of_status rfl rfl

theorem step_delivered (h : Delivered n s) (hsingle : tx.Single s)
    (hs : step services f s tx = .ok s') : Delivered n s' := by
  cases tx with
  | start =>
    cases hs
    exact h.of_status rfl rfl
  | receive =>
    simp only [step, bind_ok, pure_ok] at hs
    obtain ⟨_, -, rfl⟩ := hs
    exact h.of_status rfl rfl
  | relay =>
    simp only [step, bind_ok, pure_ok] at hs
    obtain ⟨_, -, rfl⟩ := hs
    exact relay_delivered h hsingle
  | transmit =>
    cases hs
    refine h.of_status rfl ?_
    have hsmall := f.rewrite_of_le _ h.small
    simp [updateHeight, incrementSeq, hsmall]

def smallNumbers : Float64 := ⟨id, (· + 1), fun _ _ => rfl, fun _ _ => rfl⟩

def deposited (sequence : ℕ) : Event :=
  { next := "", sequence
    message := wrapped ⟨"btp", "0x1.icon", "cx2"⟩ ⟨"btp", "algorand", "0x2"⟩
      (sampleSent (toBytes 32 5) 100) }

/-- Two events one by one, with a restart that brings the first a second time. -/
def oneByOne : List Tx :=
  [.start true, .receive [{ index := 0, events := [deposited 1], height := 5 }], .relay true,
   .start true, .receive [{ index := 0, events := [deposited 1], height := 5 },
     { index := 0, events := [deposited 2], height := 6 }], .relay true]

end IconBridge.Algorand.Relay
