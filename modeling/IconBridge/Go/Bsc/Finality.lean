import IconBridge.Go.Bsc.Delivery

/-!
# The finality margin of the BSC receiver

The loop against the head of the chain, which never goes down. `latest` is set by
a poll and counted up by a ticker, whether or not there was a block.
-/

namespace IconBridge.Go.Bsc

open Lib

variable {R : Type} {E : Ethereum R}

/-- The loop and the head of the chain. Every height that is fetched or delivered is
noted, with the head at that moment. -/
structure Watched (R : Type) where
  head : UInt64
  loop : State R
  noted : List (ℕ × ℕ)

inductive HeadEvent (R : Type)
  | grow (head : UInt64)
  | loop (e : Event R)

def sees (head : UInt64) : Event R → Bool
  | .poll (some blockNumber) => blockNumber = head
  | _ => true

/-- The heights that are fetched by an event, or delivered. -/
def touched (concurrency : ℕ) (s s' : State R) : Event R → List ℕ
  | .fetch _ => window s.next s.latest concurrency
  | .take _ => (s'.delivered.drop s.delivered.length).map Notification.height
  | _ => []

def watch (E : Ethereum R) (concurrency : ℕ) (s : Watched R) : HeadEvent R → Except Unit (Watched R)
  | .grow head => do
    require (s.head ≤ head) ()
    return { s with head }
  | .loop e => do
    require (sees s.head e) ()
    let loop ← step E concurrency s.loop e
    let heights := touched concurrency s.loop loop e
    return { s with loop, noted := s.noted ++ heights.map fun h => (h, s.head.toNat) }

def watchStart (startHeight head : UInt64) (answered : Bool) (vr : Option Verifier) : Watched R where
  head
  loop := loopStart startHeight (latestHeight (if answered then some head else none)) vr
  noted := []

/-- The ticker ticks only while `latest` is not ahead of the head, and no poll sees a head
below the margin. -/
def InTime (s : Watched R) : HeadEvent R → Prop
  | .loop .tick => s.loop.latest + blockFinalityConfirmations.toNat ≤ s.head.toNat
  | .loop (.poll (some blockNumber)) => blockFinalityConfirmations ≤ blockNumber
  | _ => True

instance {s : Watched R} : ∀ e, Decidable (InTime s e)
  | .loop .tick => inferInstanceAs (Decidable (_ ≤ _))
  | .loop (.poll (some _)) => inferInstanceAs (Decidable (_ ≤ _))
  | .loop (.poll none) | .loop (.fetch _) | .loop (.take _) | .grow _ => .isTrue trivial

def Final (head h : ℕ) : Prop := h + blockFinalityConfirmations.toNat ≤ head

instance : Decidable (Final head h) := inferInstanceAs (Decidable (_ ≤ _))

theorem Final.mono (h : Final head k) (hle : head ≤ head') : Final head' k := le_trans h hle

/-- The heights below `latest` are final, and those that were fetched. -/
structure Margin (s : Watched R) : Prop where
  queued : Queued s.loop
  latest : ∀ h < s.loop.latest, Final s.head.toNat h
  bnch : ∀ bn ∈ s.loop.bnch, Final s.head.toNat bn.height
  lbn : ∀ lbn, s.loop.lbn = some lbn → Final s.head.toNat lbn.height
  noted : ∀ x ∈ s.noted, Final x.2 x.1

theorem latestHeight_final (hhead : blockFinalityConfirmations ≤ head)
    (hh : h < (latestHeight (some head)).toNat) : Final head.toNat h := by
  have hsub : (head - blockFinalityConfirmations).toNat =
      head.toNat - blockFinalityConfirmations.toNat := UInt64.toNat_sub_of_le _ _ hhead
  rw [latestHeight, hsub] at hh
  unfold Final
  omega

theorem process_final (callback : Notification (Block R) → Bool) {s : State R} (hq : Queued s)
    (hrun : s.running) (hbnch : ∀ bn ∈ s.bnch, Final head bn.height)
    (hlbn : ∀ lbn, s.lbn = some lbn → Final head lbn.height) :
    let s' := process (judge E) callback s s.bnch
    s'.latest = s.latest ∧ (∀ lbn, s'.lbn = some lbn → Final head lbn.height) ∧
      ∃ new, s'.delivered = s.delivered ++ new ∧ ∀ bn ∈ new, Final head bn.height := by
  have hsnoc {t : State R} {lbn : Notification (Block R)} (hlbn : Final head lbn.height)
      (ht : ∃ new, t.delivered = s.delivered ++ new ∧ ∀ bn ∈ new, Final head bn.height) :
      ∃ new, t.delivered ++ [lbn] = s.delivered ++ new ∧ ∀ bn ∈ new, Final head bn.height := by
    obtain ⟨new, hnew, hfinal⟩ := ht
    refine ⟨new ++ [lbn], by rw [hnew, List.append_assoc], fun bn hbn => ?_⟩
    rcases List.mem_append.1 hbn with hbn | hbn
    · exact hfinal bn hbn
    · obtain rfl := List.mem_singleton.1 hbn
      exact hlbn
  refine process_induct (Q := fun bn => Final head bn.height)
    (P := fun t => t.latest = s.latest ∧ (∀ lbn, t.lbn = some lbn → Final head lbn.height) ∧
      ∃ new, t.delivered = s.delivered ++ new ∧ ∀ bn ∈ new, Final head bn.height)
    (R := fun t => t.latest = s.latest ∧ (∀ lbn, t.lbn = some lbn → Final head lbn.height) ∧
      ∃ new, t.delivered = s.delivered ++ new ∧ ∀ bn ∈ new, Final head bn.height)
    (fun t t' _ _ ht hround => ?_) (fun t t' _ _ ht hhalt => ?_) (fun _ ht => ht) hbnch hq.bnch hrun
    ⟨rfl, hlbn, [], by simp⟩
  · obtain ⟨hlatest, hlbn, hnew⟩ := ht
    cases hround with
    | first hbn => exact ⟨hlatest, fun _ heq => by cases heq; exact hbn, hnew⟩
    | replace hbn => exact ⟨hlatest, fun _ heq => by cases heq; exact hbn, hnew⟩
    | deliver hbn _ hsome =>
      exact ⟨hlatest, fun _ heq => by cases heq; exact hbn, hsnoc (hlbn _ hsome) hnew⟩
  · obtain ⟨hlatest, hlbn, hnew⟩ := ht
    cases hhalt with
    | drop | fail => exact ⟨hlatest, hlbn, hnew⟩
    | last _ _ hsome => exact ⟨hlatest, hlbn, hsnoc (hlbn _ hsome) hnew⟩

theorem Margin.note {s : Watched R} {heights : List ℕ} (hs : Margin s)
    (hfinal : ∀ h ∈ heights, Final s.head.toNat h) :
    ∀ x ∈ s.noted ++ heights.map fun h => (h, s.head.toNat), Final x.2 x.1 := by
  intro x hx
  rcases List.mem_append.1 hx with hx | hx
  · exact hs.noted x hx
  · obtain ⟨h, hh, rfl⟩ := List.mem_map.1 hx
    exact hfinal h hh

theorem Margin.turn {s : Watched R} {loop : State R} (hs : Margin s) (htime : InTime s (.loop e))
    (hsees : sees s.head e) (h : step E concurrency s.loop e = .ok loop) :
    Margin { s with
      loop
      noted := s.noted ++ (touched concurrency s.loop loop e).map fun h => (h, s.head.toNat) } := by
  have hhappens := loopStep_happens h
  have hqueued : Queued loop := hhappens.queued hs.queued
  cases e with
  | tick =>
    cases hhappens
    have htime : s.loop.latest + blockFinalityConfirmations.toNat ≤ s.head.toNat := htime
    have hlt := s.head.toNat_lt
    have hlatest : uint64 (s.loop.latest + 1) = s.loop.latest + 1 := by
      rw [← Nat.cast_succ, uint64_of_lt]
      rw [show blockFinalityConfirmations.toNat = 10 from rfl] at htime
      omega
    refine ⟨hqueued, fun h hh => ?_, hs.bnch, hs.lbn, hs.note (by simp [touched])⟩
    simp only [hlatest] at hh
    exact le_trans (Nat.add_le_add_right (Nat.le_of_lt_succ hh) _) htime
  | poll blockNumber =>
    cases hhappens with
    | idle => exact ⟨hqueued, hs.latest, hs.bnch, hs.lbn, hs.note (by simp [touched])⟩
    | poll _ hpos =>
      cases blockNumber with
      | none => simp [latestHeight] at hpos
      | some blockNumber =>
        obtain rfl : blockNumber = s.head := of_decide_eq_true hsees
        refine ⟨hqueued, fun h hh => ?_, hs.bnch, hs.lbn, hs.note (by simp [touched])⟩
        exact latestHeight_final htime hh
  | fetch answers =>
    cases hhappens
    have hfinal (h : ℕ) (hh : h ∈ window s.loop.next s.loop.latest concurrency) :
        Final s.head.toNat h := hs.latest h (mem_window hh).2
    refine ⟨hqueued, fun h hh => hs.latest h ?_, fun bn hbn => ?_, hs.lbn, hs.note hfinal⟩
    · have hlatest := UInt64.toNat_ofNat_of_lt' hs.queued.latest
      simpa only [hlatest] using hh
    · exact hfinal bn.height (mem_fetched.1 (mem_forward hbn)).1
  | take callback =>
    cases hhappens with
    | take _ hrun =>
      obtain ⟨hlatest, hlbn, new, hnew, hfinal⟩ := process_final (E := E) callback
        hs.queued hrun hs.bnch hs.lbn
      refine ⟨hqueued, hlatest ▸ hs.latest, by simp [process_bnch], hlbn, hs.note fun h hh => ?_⟩
      simp only [touched, hnew, List.drop_left, List.mem_map] at hh
      obtain ⟨bn, hbn, rfl⟩ := hh
      exact hfinal bn hbn

theorem watch_margin {s s' : Watched R} (hs : Margin s) (htime : InTime s e)
    (h : watch E concurrency s e = .ok s') : Margin s' := by
  cases e with
  | grow head =>
    simp only [watch, bind_ok, require_ok, decide_eq_true_eq, pure_ok] at h
    obtain ⟨_, hle, rfl⟩ := h
    have hle : s.head.toNat ≤ head.toNat := hle
    exact ⟨hs.queued, fun h hh => (hs.latest h hh).mono hle, fun bn hbn => (hs.bnch bn hbn).mono hle,
      fun lbn hlbn => (hs.lbn lbn hlbn).mono hle, hs.noted⟩
  | loop e =>
    simp only [watch, bind_ok, require_ok, pure_ok] at h
    obtain ⟨_, hsees, loop, hloop, rfl⟩ := h
    exact hs.turn htime hsees hloop

/-- What is fetched or delivered is final at that moment, as long as the ticker does not
run ahead of the chain and the chain is long enough. -/
theorem touched_final (E : Ethereum R) (concurrency : ℕ) (startHeight head : UInt64) (answered : Bool)
    (vr : Option Verifier) (es : List (HeadEvent R))
    (hhead : answered = true → blockFinalityConfirmations ≤ head)
    (hes : Along (watch E concurrency) InTime (watchStart startHeight head answered vr) es) :
    ∀ x ∈ (run (watch E concurrency) (watchStart startHeight head answered vr) es).noted,
      x.1 + blockFinalityConfirmations.toNat ≤ x.2 := by
  have hstart : Margin (watchStart startHeight head answered vr : Watched R) := by
    refine ⟨loopStart_queued, fun h hh => ?_, by simp [watchStart, loopStart],
      by simp [watchStart, loopStart], by simp [watchStart]⟩
    cases answered with
    | false => simp [watchStart, loopStart, latestHeight] at hh
    | true => exact latestHeight_final (hhead rfl) hh
  exact (run_along (fun _ _ _ hs ha h => watch_margin hs ha h) hstart hes).noted

/-- The head is at 20 at first. There is a block between the two ticks. -/
def steadily : List (HeadEvent ℕ) :=
  [.loop .tick, .grow 21, .loop .tick, .loop (.fetch sampleAnswers), .loop (.poll none), .grow 25,
   .loop (.poll (some 25)), .loop (.take fun _ => true)]

theorem steadily_final :
    (11, 21) ∈ (run (watch sample 3) (watchStart 10 20 true none) steadily).noted ∧ 11 + 10 ≤ 21 := by
  have hmem : (11, 21) ∈ (run (watch sample 3) (watchStart 10 20 true none) steadily).noted := by
    decide +kernel
  exact ⟨hmem, touched_final sample 3 10 20 true none steadily (by decide) (by decide +kernel) _ hmem⟩

def impatiently : List (HeadEvent ℕ) :=
  [.loop .tick, .loop .tick, .loop (.fetch sampleAnswers)]

/-- The ticker runs ahead of the chain, and with five blocks the margin wraps around. -/
theorem ticker_ahead :
    (11, 20) ∈ (run (watch sample 3) (watchStart 10 20 true none) impatiently).noted ∧ ¬ Final 20 11 ∧
    (7, 5) ∈ (run (watch sample 3) (watchStart 7 5 true none)
      [.loop (.fetch sampleAnswers)]).noted ∧ ¬ Final 5 7 := by
  decide +kernel

end IconBridge.Go.Bsc
