import Mathlib.Data.Fintype.Defs
import Mathlib.Data.Finset.Insert
import IconBridge.Lib.SharedRecord
import IconBridge.Algorand.Relay

/-!
# The status file under two goroutines

The sender counts what Algorand receives, the receiver of the other direction
what it sends. Both rewrite the whole file: `incrementSeq` and `updateHeight`
read it, change one field of the copy and write the copy back, and there is no
lock around them.
-/

namespace IconBridge.Algorand.Relay

open Lib Function List

inductive Party
  | sender
  | receiver
  deriving DecidableEq

instance : Fintype Party where
  elems := {.sender, .receiver}
  complete p := by cases p <;> decide

def Party.seq : Party → Field
  | .sender => .rxSeq
  | .receiver => .txSeq

def Party.height : Party → Field
  | .sender => .rxHeight
  | .receiver => .txHeight

inductive StatusCall
  | incrementSeq
  | updateHeight (value : ℕ)
  deriving DecidableEq

def StatusCall.apply (f : Float64) (p : Party) : StatusCall → LinkStatus → LinkStatus
  | .incrementSeq, l => Relay.incrementSeq f p.seq l
  | .updateHeight value, l => Relay.updateHeight f p.height value l

def StatusCall.height? : StatusCall → Option ℕ
  | .incrementSeq => none
  | .updateHeight value => some value

def counted (n : ℕ) (calls : List StatusCall) : ℕ := n + calls.count .incrementSeq

def lastHeight (h : ℕ) (calls : List StatusCall) : ℕ := (calls.filterMap (·.height?)).getLastD h

/-- Every increment counts, and every height is the last one given. -/
def expected (l : LinkStatus) (calls : Party → List StatusCall) : LinkStatus
  | .txSeq => counted (l .txSeq) (calls .receiver)
  | .rxSeq => counted (l .rxSeq) (calls .sender)
  | .rxHeight => lastHeight (l .rxHeight) (calls .sender)
  | .txHeight => lastHeight (l .txHeight) (calls .receiver)

/-- All values stay below the first integer a `float64` cannot hold. -/
structure Small (l : LinkStatus) (calls : Party → List StatusCall) : Prop where
  seq : ∀ p : Party, counted (l p.seq) (calls p) < 2 ^ 53
  height : ∀ p : Party, l p.height < 2 ^ 53
  values : ∀ p, ∀ call ∈ calls p, ∀ value ∈ call.height?, value < 2 ^ 53

variable {f : Float64} {l : LinkStatus} {calls : Party → List StatusCall}

theorem lastHeight_lt (hl : h < 2 ^ 53) {calls : List StatusCall}
    (hcalls : ∀ call ∈ calls, ∀ value ∈ call.height?, value < 2 ^ 53) :
    lastHeight h calls < 2 ^ 53 := by
  have hmem : lastHeight h calls ∈ h :: calls.filterMap (·.height?) := getLastD_mem_cons
  rcases mem_cons.1 hmem with heq | hmem
  · rwa [heq]
  · obtain ⟨call, hcall, hvalue⟩ := mem_filterMap.1 hmem
    exact hcalls call hcall _ hvalue

theorem expected_lt (h : Small l calls) (x : Field) : expected l calls x < 2 ^ 53 := by
  cases x with
  | txSeq => exact h.seq .receiver
  | rxSeq => exact h.seq .sender
  | rxHeight => exact lastHeight_lt (h.height .sender) (h.values .sender)
  | txHeight => exact lastHeight_lt (h.height .receiver) (h.values .receiver)

theorem counted_snoc (n : ℕ) (calls : List StatusCall) (call : StatusCall) :
    counted n (calls ++ [call]) =
      if call = .incrementSeq then counted n calls + 1 else counted n calls := by
  rw [counted, count_append, count_singleton, counted]
  split <;> simp_all [add_assoc]

theorem lastHeight_snoc (h : ℕ) (calls : List StatusCall) (call : StatusCall) :
    lastHeight h (calls ++ [call]) = call.height?.getD (lastHeight h calls) := by
  rw [lastHeight, filterMap_append]
  cases call with
  | incrementSeq => simp [StatusCall.height?, lastHeight]
  | updateHeight value => simp [StatusCall.height?]

theorem apply_of_lt (h : ∀ x, l x < 2 ^ 53) (p : Party) (call : StatusCall) :
    call.apply f p l =
      match call with
      | .incrementSeq => update l p.seq (l p.seq + 1)
      | .updateHeight value => update l p.height value := by
  have hrewrite : (fun x => f.rewrite (l x)) = l := funext fun x => f.rewrite_of_le _ (h x).le
  cases call with
  | incrementSeq =>
    rw [StatusCall.apply, Relay.incrementSeq, hrewrite, f.increment_of_lt _ (h p.seq)]
  | updateHeight value => rw [StatusCall.apply, Relay.updateHeight, hrewrite]

theorem apply_expected (h : Small l calls) (p : Party) (call : StatusCall) :
    call.apply f p (expected l calls) =
      expected l (update calls p (calls p ++ [call])) := by
  rw [apply_of_lt (expected_lt h)]
  funext x
  cases p <;> cases call <;> cases x <;>
    simp [Party.seq, Party.height, expected, counted_snoc, lastHeight_snoc, StatusCall.height?]

theorem Small.of_append {more : Party → List StatusCall}
    (h : Small l fun p => calls p ++ more p) : Small l calls where
  seq p := by
    have hp := h.seq p
    simp only [counted, count_append] at hp ⊢
    omega
  height := h.height
  values p call hcall := h.values p call (mem_append_left _ hcall)

theorem serial_expected {done : List (Party × StatusCall)}
    (h : Small l fun p => Shared.callsOf p done) :
    Shared.serial (fun p call => call.apply f p) l done =
      expected l fun p => Shared.callsOf p done := by
  induction done using List.reverseRecOn with
  | nil =>
    funext x
    cases x <;> rfl
  | append_singleton done e ih =>
    obtain ⟨q, call⟩ := e
    simp only [Shared.callsOf_snoc] at h ⊢
    have hbefore := h.of_append
    rw [Shared.serial_snoc, ih hbefore, apply_expected hbefore]
    congr 1
    funext p
    rw [update_apply]
    by_cases hp : q = p
    · rw [if_pos hp.symm, if_pos hp, hp]
    · rw [if_neg (Ne.symm hp), if_neg hp, append_nil]

abbrev StatusFile := Shared Party StatusCall LinkStatus

def move (f : Float64) : StatusFile → Party → Except Unit StatusFile :=
  Shared.step fun p call => call.apply f p

instance (s : StatusFile) (p : Party) : Decidable (s.Exclusive p) :=
  inferInstanceAs (Decidable (s.held p ≠ none → ∀ q, q ≠ p → s.held q = none))

/-- If neither goroutine writes the file while the other one is between its
read and its write, nothing is lost once all calls have returned. -/
theorem status_not_corrupted (f : Float64) (l : LinkStatus) (calls : Party → List StatusCall)
    (schedule : List Party) (hsmall : Small l calls)
    (hx : Along (move f) Shared.Exclusive { value := l, left := calls } schedule)
    (hdone : ∀ p, (run (move f) { value := l, left := calls } schedule).left p = []) :
    (run (move f) { value := l, left := calls } schedule).value = expected l calls := by
  have hcalls : calls = fun p => Shared.callsOf p
      (run (move f) { value := l, left := calls } schedule).written := by
    funext p
    have horder := (Shared.run_sequential (fun p call => call.apply f p) l calls schedule).order p
    rw [horder]
    exact (congrArg _ (hdone p)).trans (append_nil _)
  have hserial := (Shared.run_serialised hx).value
  rw [hcalls] at hsmall
  calc (run (move f) { value := l, left := calls } schedule).value
      = Shared.serial (fun p call => call.apply f p) l
          (run (move f) { value := l, left := calls } schedule).written := hserial
    _ = expected l calls := by rw [serial_expected hsmall, ← hcalls]

def sampleCalls : Party → List StatusCall
  | .sender => [.incrementSeq, .updateHeight 7]
  | .receiver => [.incrementSeq, .updateHeight 9]

theorem sampleCalls_counted :
    let s := run (move smallNumbers) { value := fun _ => 4, left := sampleCalls }
      [.sender, .sender, .receiver, .receiver, .sender, .sender, .receiver, .receiver]
    s.value .rxSeq = 5 ∧ s.value .txSeq = 5 ∧ s.value .rxHeight = 7 ∧ s.value .txHeight = 9 := by
  have hsmall : Small (fun _ => 4) sampleCalls := by
    refine ⟨?_, ?_, ?_⟩
    · intro p
      cases p <;> decide
    · intro p
      decide
    · intro p
      cases p <;> decide
  have hvalue := status_not_corrupted smallNumbers (fun _ => 4) sampleCalls
    [.sender, .sender, .receiver, .receiver, .sender, .sender, .receiver, .receiver] hsmall
    (by decide +kernel) (by decide +kernel)
  dsimp only
  rw [hvalue]
  decide

/-- The receiver reads the file before the sender writes it, and writes its
copy back afterwards: the increment of the sender is lost. -/
theorem increment_lost :
    let calls : Party → List StatusCall := fun _ => [.incrementSeq]
    let s := run (move smallNumbers) { value := fun _ => 4, left := calls }
      [.sender, .receiver, .sender, .receiver]
    Small (fun _ => 4) calls ∧ (∀ p, s.left p = []) ∧
    s.value .rxSeq = 4 ∧ expected (fun _ => 4) calls .rxSeq = 5 := by
  refine ⟨⟨?_, ?_, ?_⟩, by decide +kernel, by decide +kernel, by decide⟩
  · intro p
    decide
  · intro p
    decide
  · intro p
    decide

end IconBridge.Algorand.Relay
