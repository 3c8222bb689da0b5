import Mathlib.Algebra.Order.Ring.Int
import Mathlib.Data.List.Range
import Mathlib.Logic.Relation
import IconBridge.Lib.Runs

/-!
# Receive loops

`receiveLoop` of the receivers for BSC and for Harmony. Blocks are fetched in
batches and put into a channel; a block is delivered once the block behind it
was judged. What a judgement consists of is up to the receiver.
-/

namespace IconBridge.Go

open Lib

def uint64 (n : ℤ) : ℕ := (n % 2 ^ 64).toNat

def int64 (n : ℤ) : ℤ := n.bmod (2 ^ 64)

theorem uint64_lt : uint64 n < 2 ^ 64 := by
  unfold uint64
  omega

theorem uint64_of_lt {n : ℕ} (h : n < 2 ^ 64) : uint64 n = n := by
  unfold uint64
  omega

variable {B V : Type*}

structure Notification (B : Type*) where
  height : ℕ
  block : B
  deriving DecidableEq

/-- What the loop does with the last notification, `lbn`, and the one that
follows it. -/
inductive Verdict (V : Type*)
  /-- The new one takes the place of the last one. -/
  | replace
  /-- The notifications are dropped, and `next` is counted down or not. -/
  | drop (back : Bool)
  /-- The last one is delivered, with what became of the verifier. -/
  | deliver (vr : V)
  /-- The loop ends with an error. -/
  | fail

structure LoopState (B V : Type*) where
  next : ℕ
  latest : ℕ
  lbn : Option (Notification B)
  bnch : List (Notification B)
  vr : V
  /-- What was passed to the callback. -/
  delivered : List (Notification B)
  running : Bool
  deriving DecidableEq

/-- The loop over the notifications in the channel. Those behind a notification
that is dropped are removed as well. -/
def process (judge : V → Notification B → Notification B → Verdict V)
    (callback : Notification B → Bool) (s : LoopState B V) :
    List (Notification B) → LoopState B V
  | [] => { s with bnch := [] }
  | bn :: bns =>
    match s.lbn with
    | none => process judge callback { s with next := uint64 (s.next + 1), lbn := some bn } bns
    | some lbn =>
      match judge s.vr lbn bn with
      | .replace => process judge callback { s with next := uint64 (s.next + 1), lbn := some bn } bns
      | .drop back =>
        { s with
          next := if back then uint64 (s.next - 1) else s.next
          bnch := [] }
      | .fail => { s with bnch := [], running := false }
      | .deliver vr =>
        if callback lbn then
          process judge callback
            { s with
              next := uint64 (s.next + 1)
              lbn := some bn
              vr
              delivered := s.delivered ++ [lbn] } bns
        else
          { s with
            bnch := []
            vr
            delivered := s.delivered ++ [lbn]
            running := false }

def window (next latest concurrency : ℕ) : List ℕ :=
  List.range' next (min concurrency (latest - next))

def retried (retry : ℕ) (answers : ℕ → Option B) : Option B :=
  (List.range (retry + 1)).findSome? answers

/-- The loop that puts the blocks into the channel, which are sorted by height. -/
def forward : ℕ → List (Notification B) → List (Notification B)
  | _, [] => []
  | h, v :: vs => if v.height = h then v :: forward (uint64 (h + 1)) vs else forward (uint64 (h + 1)) vs

/-- The answers arrive in any order; sorted by height they are in the order of the
requests. -/
def fetched (heights : List ℕ) (answers : ℕ → Option B) : List (Notification B) :=
  heights.filterMap fun h => (answers h).map fun b => { height := h, block := b }

inductive LoopEvent (B : Type*)
  | tick
  /-- What `latestHeight` returns. -/
  | poll (height : UInt64)
  /-- The answers for the heights of the window, and what `latest` is then. -/
  | fetch (answers : ℕ → Option B) (latest : UInt64)
  | take (callback : Notification B → Bool)

/-- One round of `select`; the last branch is taken only if the channel is empty. -/
def loopStep (judge : V → Notification B → Notification B → Verdict V) (concurrency : ℕ)
    (s : LoopState B V) (e : LoopEvent B) : Except Unit (LoopState B V) :=
  if s.running then
    match e with
    | .tick => .ok { s with latest := uint64 (s.latest + 1) }
    | .poll height => .ok (if 0 < height then { s with latest := height.toNat } else s)
    | .take callback =>
      if s.bnch.isEmpty then .error () else .ok (process judge callback s s.bnch)
    | .fetch answers latest =>
      if s.bnch.isEmpty ∧ s.next < s.latest then
        .ok { s with
          latest := latest.toNat
          bnch := forward s.next (fetched (window s.next s.latest concurrency) answers) }
      else .error ()
  else .error ()

def loopStart (next latest : UInt64) (vr : V) : LoopState B V where
  next := next.toNat
  latest := latest.toNat
  lbn := none
  bnch := []
  vr
  delivered := []
  running := true

variable {judge : V → Notification B → Notification B → Verdict V} {s s' t : LoopState B V}
  {callback : Notification B → Bool}

/-- What a round of `process` that is not the last one does with a notification of
which `Q` holds. -/
inductive Round (judge : V → Notification B → Notification B → Verdict V)
    (Q : Notification B → Prop) (s : LoopState B V) : LoopState B V → Prop
  | first (hbn : Q bn) (hheight : bn.height = s.next) (hlbn : s.lbn = none) :
      Round judge Q s { s with next := uint64 (s.next + 1), lbn := some bn }
  | replace (hbn : Q bn) (hheight : bn.height = s.next) (hlbn : s.lbn = some lbn)
      (hjudge : judge s.vr lbn bn = .replace) :
      Round judge Q s { s with next := uint64 (s.next + 1), lbn := some bn }
  | deliver (hbn : Q bn) (hheight : bn.height = s.next) (hlbn : s.lbn = some lbn)
      (hjudge : judge s.vr lbn bn = .deliver vr) :
      Round judge Q s
        { s with
          next := uint64 (s.next + 1)
          lbn := some bn
          vr
          delivered := s.delivered ++ [lbn] }

/-- What a round does behind which no notification is looked at. -/
inductive Halt (judge : V → Notification B → Notification B → Verdict V)
    (Q : Notification B → Prop) (s : LoopState B V) : LoopState B V → Prop
  | drop (hbn : Q bn) (hheight : bn.height = s.next) (hlbn : s.lbn = some lbn)
      (hjudge : judge s.vr lbn bn = .drop back) :
      Halt judge Q s { s with next := if back then uint64 (s.next - 1) else s.next }
  | fail (hbn : Q bn) (hheight : bn.height = s.next) (hlbn : s.lbn = some lbn)
      (hjudge : judge s.vr lbn bn = .fail) : Halt judge Q s { s with running := false }
  | last (hbn : Q bn) (hheight : bn.height = s.next) (hlbn : s.lbn = some lbn)
      (hjudge : judge s.vr lbn bn = .deliver vr) :
      Halt judge Q s { s with vr, delivered := s.delivered ++ [lbn], running := false }

def Consecutive (next : ℕ) (bns : List (Notification B)) : Prop :=
  bns.map Notification.height = List.range' next bns.length ∧ next + bns.length < 2 ^ 64

theorem Consecutive.cons_iff {bn : Notification B} :
    Consecutive next (bn :: bns) ↔
      bn.height = next ∧ next + 1 < 2 ^ 64 ∧ Consecutive (next + 1) bns := by
  simp only [Consecutive, List.map_cons, List.length_cons, List.range'_succ, List.cons.injEq]
  constructor
  · rintro ⟨⟨hbn, hbns⟩, hlt⟩
    exact ⟨hbn, by omega, hbns, by omega⟩
  · rintro ⟨hbn, -, hbns, hlt⟩
    exact ⟨⟨hbn, hbns⟩, by omega⟩

/-- What every round preserves holds in the last one, and says what holds behind the
loop. -/
theorem process_induct {P R : LoopState B V → Prop} {Q : Notification B → Prop}
    (hround : ∀ s s', s.next + 1 < 2 ^ 64 → s.running → P s → Round judge Q s s' → P s')
    (hhalt : ∀ s s', s.next + 1 < 2 ^ 64 → s.running → P s → Halt judge Q s s' →
      R { s' with bnch := [] })
    (hend : ∀ s, P s → R { s with bnch := [] })
    (hQ : ∀ bn ∈ bns, Q bn) (hbns : Consecutive s.next bns) (hrun : s.running) (hs : P s) :
    R (process judge callback s bns) := by
  induction bns generalizing s with
  | nil => exact hend s hs
  | cons bn bns ih =>
    obtain ⟨hbn, hQ⟩ := List.forall_mem_cons.1 hQ
    obtain ⟨hheight, hlt, hbns⟩ := Consecutive.cons_iff.1 hbns
    -- the notifications behind this one are taken in the state that it leads to
    have hrest (t : LoopState B V) (hnext : t.next = uint64 (s.next + 1)) (hrun' : t.running)
        (ht : Round judge Q s t) : R (process judge callback t bns) := by
      refine ih hQ ?_ hrun' (hround s t hlt hrun hs ht)
      rw [hnext, ← Nat.cast_succ, uint64_of_lt hlt]
      exact hbns
    unfold process
    split
    · next hlbn => exact hrest _ rfl hrun (.first hbn hheight hlbn)
    · next lbn hlbn =>
      split
      · next hjudge => exact hrest _ rfl hrun (.replace hbn hheight hlbn hjudge)
      · next back hjudge => exact hhalt s _ hlt hrun hs (.drop hbn hheight hlbn hjudge)
      · next hjudge => exact hhalt s _ hlt hrun hs (.fail hbn hheight hlbn hjudge)
      · next vr hjudge =>
        split
        · exact hrest _ rfl hrun (.deliver hbn hheight hlbn hjudge)
        · exact hhalt s _ hlt hrun hs (.last hbn hheight hlbn hjudge)

theorem forward_eq_nil {bns : List (Notification B)}
    (hsorted : bns.Pairwise fun v w => v.height < w.height) (hlt : ∀ v ∈ bns, v.height < 2 ^ 64)
    (hbns : ∀ v ∈ bns, h < v.height) : forward h bns = [] := by
  induction bns generalizing h with
  | nil => rfl
  | cons v bns ih =>
    obtain ⟨hv, hbns⟩ := List.forall_mem_cons.1 hbns
    obtain ⟨hvlt, hlt⟩ := List.forall_mem_cons.1 hlt
    obtain ⟨hfirst, hsorted⟩ := List.pairwise_cons.1 hsorted
    rw [forward, if_neg hv.ne', ← Nat.cast_succ, uint64_of_lt (by omega)]
    exact ih hsorted hlt fun w hw => (hfirst w hw).trans_le' hv

theorem forward_consecutive {bns : List (Notification B)}
    (hsorted : bns.Pairwise fun v w => v.height < w.height) (hlt : ∀ v ∈ bns, v.height + 1 < 2 ^ 64)
    (hbns : ∀ v ∈ bns, h ≤ v.height) (hh : h < 2 ^ 64) : Consecutive h (forward h bns) := by
  induction bns generalizing h with
  | nil => exact ⟨rfl, hh⟩
  | cons v bns ih =>
    obtain ⟨hv, hbns⟩ := List.forall_mem_cons.1 hbns
    obtain ⟨hvlt, hlt⟩ := List.forall_mem_cons.1 hlt
    obtain ⟨hfirst, hsorted⟩ := List.pairwise_cons.1 hsorted
    rw [forward]
    split
    · next heq =>
      have hsucc : h + 1 < 2 ^ 64 := by omega
      rw [← Nat.cast_succ, uint64_of_lt hsucc]
      refine Consecutive.cons_iff.2 ⟨heq, hsucc, ih hsorted hlt (fun w hw => ?_) hsucc⟩
      exact heq ▸ hfirst w hw
    · next hne =>
      have hgap : h + 1 ≤ v.height := by omega
      rw [← Nat.cast_succ, uint64_of_lt (by omega), forward_eq_nil hsorted]
      · exact ⟨rfl, hh⟩
      · exact fun w hw => (Nat.lt_succ_self _).trans (hlt w hw)
      · exact fun w hw => hgap.trans_lt (hfirst w hw)

theorem mem_forward {bns : List (Notification B)} (hv : v ∈ forward h bns) : v ∈ bns := by
  induction bns generalizing h with
  | nil => exact hv
  | cons w bns ih =>
    rw [forward] at hv
    split at hv
    · rcases List.mem_cons.1 hv with rfl | hv
      · exact List.mem_cons_self
      · exact List.mem_cons_of_mem _ (ih hv)
    · exact List.mem_cons_of_mem _ (ih hv)

theorem mem_fetched : v ∈ fetched heights answers ↔
    v.height ∈ heights ∧ answers v.height = some v.block := by
  simp only [fetched, List.mem_filterMap, Option.map_eq_some_iff]
  constructor
  · rintro ⟨h, hh, b, hb, rfl⟩
    exact ⟨hh, hb⟩
  · rintro ⟨hh, hb⟩
    exact ⟨v.height, hh, v.block, hb, rfl⟩

theorem fetched_sorted (hsorted : heights.Pairwise (· < ·)) :
    (fetched heights answers).Pairwise fun (v w : Notification B) => v.height < w.height := by
  refine List.Pairwise.filterMap _ (fun h h' hlt v hv w hw => ?_) hsorted
  obtain ⟨b, -, rfl⟩ := Option.map_eq_some_iff.1 hv
  obtain ⟨b', -, rfl⟩ := Option.map_eq_some_iff.1 hw
  exact hlt

theorem mem_window : h ∈ window next latest concurrency → next ≤ h ∧ h < latest := by
  simp only [window, List.mem_range'_1]
  omega

/-- Counters are `uint64`, and the channel has the heights from `next` on. -/
structure Queued (s : LoopState B V) : Prop where
  latest : s.latest < 2 ^ 64
  bnch : Consecutive s.next s.bnch

theorem Queued.next (hs : Queued s) : s.next < 2 ^ 64 := (Nat.le_add_right _ _).trans_lt hs.bnch.2

theorem loopStart_queued : Queued (loopStart next latest vr : LoopState B V) :=
  ⟨latest.toNat_lt, rfl, next.toNat_lt⟩

theorem process_bnch : (process judge callback s bns).bnch = [] := by
  induction bns generalizing s with
  | nil => rfl
  | cons bn bns ih =>
    unfold process
    split
    · exact ih
    · split
      · exact ih
      · rfl
      · rfl
      · split
        · exact ih
        · rfl

theorem Round.counters {Q : Notification B → Prop} (hlatest : s.latest < 2 ^ 64)
    (h : Round judge Q s s') : s'.latest < 2 ^ 64 ∧ s'.next < 2 ^ 64 := by
  refine ⟨?_, ?_⟩
  · cases h <;> exact hlatest
  · cases h <;>
    · simp only
      exact uint64_lt

theorem Halt.counters {Q : Notification B → Prop} (hlatest : s.latest < 2 ^ 64)
    (hnext : s.next < 2 ^ 64) (h : Halt judge Q s s') : s'.latest < 2 ^ 64 ∧ s'.next < 2 ^ 64 := by
  cases h with
  | @drop _ _ back =>
    refine ⟨hlatest, ?_⟩
    cases back
    · exact hnext
    · simp only [if_true]
      exact uint64_lt
  | fail | last => exact ⟨hlatest, hnext⟩

theorem process_queued (hrun : s.running) (hs : Queued s) : Queued (process judge callback s s.bnch) := by
  have hcounters : (process judge callback s s.bnch).latest < 2 ^ 64 ∧
      (process judge callback s s.bnch).next < 2 ^ 64 :=
    process_induct (P := fun t => t.latest < 2 ^ 64 ∧ t.next < 2 ^ 64)
      (R := fun t => t.latest < 2 ^ 64 ∧ t.next < 2 ^ 64) (Q := fun _ => True)
      (fun _ _ _ _ ht hround => hround.counters ht.1)
      (fun _ _ _ _ ht hhalt => ⟨(hhalt.counters ht.1 ht.2).1, (hhalt.counters ht.1 ht.2).2⟩)
      (fun _ ht => ht) (fun _ _ => trivial) hs.bnch hrun ⟨hs.latest, hs.next⟩
  refine ⟨hcounters.1, ?_⟩
  rw [process_bnch]
  exact ⟨rfl, hcounters.2⟩

theorem fetched_consecutive {latest : ℕ} (hlatest : latest < 2 ^ 64) (hnext : next < 2 ^ 64) :
    Consecutive next (forward next
      (fetched (window next latest concurrency) answers : List (Notification B))) := by
  have hmem (v : Notification B) (hv : v ∈ fetched (window next latest concurrency) answers) :
      next ≤ v.height ∧ v.height < latest := mem_window (mem_fetched.1 hv).1
  refine forward_consecutive (fetched_sorted List.pairwise_lt_range') ?_ (fun v hv => (hmem v hv).1)
    hnext
  exact fun v hv => lt_of_le_of_lt (hmem v hv).2 hlatest

/-- What one event does: the notifications are processed, or only `latest` and the
channel change. -/
inductive Happens (judge : V → Notification B → Notification B → Verdict V) (concurrency : ℕ)
    (s : LoopState B V) : LoopEvent B → LoopState B V → Prop
  | take (callback : Notification B → Bool) (hrun : s.running) :
      Happens judge concurrency s (.take callback) (process judge callback s s.bnch)
  | tick : Happens judge concurrency s .tick { s with latest := uint64 (s.latest + 1) }
  | poll (height : UInt64) (hheight : 0 < height) :
      Happens judge concurrency s (.poll height) { s with latest := height.toNat }
  | idle (height : UInt64) (hheight : height = 0) : Happens judge concurrency s (.poll height) s
  | fetch (answers : ℕ → Option B) (latest : UInt64) (hnext : s.next < s.latest) :
      Happens judge concurrency s (.fetch answers latest)
        { s with
          latest := latest.toNat
          bnch := forward s.next (fetched (window s.next s.latest concurrency) answers) }

theorem loopStep_happens (h : loopStep judge concurrency s e = .ok s') :
    Happens judge concurrency s e s' := by
  unfold loopStep at h
  split at h
  · next hrun =>
    split at h
    · cases h
      exact .tick
    · next height =>
      split at h
      · next hheight =>
        cases h
        exact .poll height hheight
      · next hheight =>
        cases h
        refine .idle height ?_
        simpa using hheight
    · next callback =>
      split at h
      · contradiction
      · cases h
        exact .take callback hrun
    · next answers latest =>
      split at h
      · next hnext =>
        cases h
        exact .fetch answers latest hnext.2
      · contradiction
  · contradiction

theorem Happens.queued (hs : Queued s) (h : Happens judge concurrency s e s') : Queued s' := by
  cases h with
  | take callback hrun => exact process_queued hrun hs
  | tick =>
    refine ⟨?_, hs.bnch⟩
    simp only
    exact uint64_lt
  | poll height => exact ⟨height.toNat_lt, hs.bnch⟩
  | idle => exact hs
  | fetch answers latest =>
    refine ⟨latest.toNat_lt, ?_⟩
    exact fetched_consecutive hs.latest hs.next

/-- What every round preserves, every event preserves, if it is not about `latest`
and the channel. -/
theorem loopStep_preserves {P : LoopState B V → Prop}
    (hround : ∀ s s', s.next + 1 < 2 ^ 64 → s.running → P s →
      Round judge (fun _ => True) s s' → P s')
    (hhalt : ∀ s s', s.next + 1 < 2 ^ 64 → s.running → P s →
      Halt judge (fun _ => True) s s' → P s')
    (hkeep : ∀ s latest bnch, P s → P { s with latest, bnch }) (hq : Queued s) (hs : P s)
    (h : loopStep judge concurrency s e = .ok s') : P s' := by
  cases loopStep_happens h with
  | take callback hrun =>
    refine process_induct hround (fun s s' hlt hrun hs hstop => ?_) (fun s hs => hkeep s s.latest [] hs)
      (fun _ _ => trivial) hq.bnch hrun hs
    exact hkeep s' s'.latest [] (hhalt s s' hlt hrun hs hstop)
  | tick | poll | fetch => exact hkeep s _ _ hs
  | idle => exact hs

/-- The judgements on which `process` delivers a block: the verifier, the block and the one
behind it. -/
def rulings (judge : V → Notification B → Notification B → Verdict V)
    (callback : Notification B → Bool) (s : LoopState B V) :
    List (Notification B) → List (V × Notification B × Notification B)
  | [] => []
  | bn :: bns =>
    match s.lbn with
    | none => rulings judge callback { s with next := uint64 (s.next + 1), lbn := some bn } bns
    | some lbn =>
      match judge s.vr lbn bn with
      | .replace => rulings judge callback { s with next := uint64 (s.next + 1), lbn := some bn } bns
      | .drop _ | .fail => []
      | .deliver vr =>
        (s.vr, lbn, bn) ::
          if callback lbn then
            rulings judge callback
              { s with
                next := uint64 (s.next + 1)
                lbn := some bn
                vr
                delivered := s.delivered ++ [lbn] } bns
          else []

section

variable {J : V → Notification B → Notification B → Prop} [∀ vr lbn bn, Decidable (J vr lbn bn)]

/-- A judge that delivers no block unless the condition is met. -/
def guarded (J : V → Notification B → Notification B → Prop) [∀ vr lbn bn, Decidable (J vr lbn bn)]
    (judge : V → Notification B → Notification B → Verdict V) (vr : V) (lbn bn : Notification B) :
    Verdict V :=
  match judge vr lbn bn with
  | .deliver vr' => if J vr lbn bn then .deliver vr' else .fail
  | .replace => .replace
  | .drop back => .drop back
  | .fail => .fail

theorem guarded_deliver (h : guarded J judge vr lbn bn = .deliver vr') :
    judge vr lbn bn = .deliver vr' ∧ J vr lbn bn := by
  unfold guarded at h
  split at h
  · next hjudge =>
    split at h
    · next hJ =>
      cases h
      exact ⟨hjudge, hJ⟩
    · contradiction
  all_goals contradiction

/-- If all judgements meet the condition, the guard makes no difference. -/
theorem process_guarded (h : ∀ x ∈ rulings judge callback s bns, J x.1 x.2.1 x.2.2) :
    process (guarded J judge) callback s bns = process judge callback s bns := by
  induction bns generalizing s with
  | nil => rfl
  | cons bn bns ih =>
    unfold process
    unfold rulings at h
    cases hlbn : s.lbn with
    | none =>
      simp only [hlbn] at h ⊢
      exact ih h
    | some lbn =>
      simp only [hlbn, guarded] at h ⊢
      cases hjudge : judge s.vr lbn bn with
      | replace =>
        simp only [hjudge] at h ⊢
        exact ih h
      | drop => rfl
      | fail => rfl
      | deliver vr =>
        simp only [hjudge, List.forall_mem_cons] at h ⊢
        obtain ⟨hJ, h⟩ := h
        simp only [if_pos hJ]
        by_cases hcallback : callback lbn
        · simp only [hcallback, if_true] at h ⊢
          exact ih h
        · simp only [hcallback, Bool.false_eq_true, if_false]

def Ruled (J : V → Notification B → Notification B → Prop)
    (judge : V → Notification B → Notification B → Verdict V) (s : LoopState B V) :
    LoopEvent B → Prop
  | .take callback => ∀ x ∈ rulings judge callback s s.bnch, J x.1 x.2.1 x.2.2
  | _ => True

instance : ∀ e, Decidable (Ruled J judge s e)
  | .take _ => inferInstanceAs (Decidable (∀ x ∈ rulings judge _ s s.bnch, _))
  | .tick | .poll _ | .fetch _ _ => .isTrue trivial

theorem loopStep_guarded (h : Ruled J judge s e) :
    loopStep (guarded J judge) concurrency s e = loopStep judge concurrency s e := by
  cases e with
  | take callback => simp only [loopStep, process_guarded h]
  | tick | poll | fetch => rfl

end

end IconBridge.Go
