import Mathlib.Data.Int.ModEq
import IconBridge.Lib.Runs
import IconBridge.Java.BMC.MessageCenter

/-!
# When rewards are distributed

`distributeRelayerReward` moves the height of the next distribution on by the
term, and then, if that is not enough, as long as it is below the current
height. Heights and terms are `long`s, and their sums wrap.
-/

namespace IconBridge.Java

abbrev IsLong (n : ℤ) : Prop := -2 ^ 63 ≤ n ∧ n < 2 ^ 63

structure Long where
  val : ℤ
  isLong : IsLong val

theorem longValue_isLong (n : ℤ) : IsLong (longValue n) := by
  have hlow := Int.le_bmod (x := n) (m := 2 ^ 64) (by decide)
  have hhigh := Int.bmod_lt (x := n) (m := 2 ^ 64) (by decide)
  exact ⟨by simpa [longValue] using hlow, by simpa [longValue] using hhigh⟩

theorem longValue_of_isLong (h : IsLong n) : longValue n = n :=
  Int.bmod_eq_of_le (by simpa using h.1) (by simpa using h.2)

instance : Add Long := ⟨fun a b => ⟨longValue (a.val + b.val), longValue_isLong _⟩⟩

theorem Long.val_add {a b : Long} (h : IsLong (a.val + b.val)) : (a + b).val = a.val + b.val :=
  longValue_of_isLong h

end IconBridge.Java

namespace IconBridge.Java.BMC

open Lib List

variable {W B : Type}

/-- The two of the `RelayersProperties` that say when rewards are due. The term
is never set to less than 1. -/
structure Schedule where
  next : Long
  term : Long
  positive : 1 ≤ term.val

/-- `while (nextRewardDistribution < currentHeight)` with so many tests of the
condition at most. -/
def skip (term height : Long) : ℕ → Long → Option Long
  | 0, _ => none
  | fuel + 1, next =>
    if next.val < height.val then skip term height fuel (next + term) else some next

def Schedule.advance (x : Schedule) (height : Long) (fuel : ℕ) : Option Long :=
  if (x.next + x.term).val ≤ height.val then skip x.term height fuel (x.next + x.term)
  else some (x.next + x.term)

def Schedule.distribute (x : Schedule) (height : Long) (fuel : ℕ) : Option Schedule :=
  if x.next.val ≤ height.val then (x.advance height fuel).map fun next => { x with next }
  else some x

def Schedule.following (x : Schedule) (height : Long) : ℤ :=
  x.next.val + x.term.val * ((height.val - x.next.val) / x.term.val + 1)

/-- The current height is not due itself, unless it is the one that was waited
for, and the next one that is due is a `long`. -/
def Schedule.Regular (x : Schedule) (height : Long) : Prop :=
  (x.term.val ∣ height.val - x.next.val → height.val = x.next.val) ∧ x.following height < 2 ^ 63

instance (x : Schedule) (height : Long) : Decidable (x.Regular height) :=
  inferInstanceAs (Decidable ((x.term.val ∣ height.val - x.next.val → height.val = x.next.val) ∧
    x.following height < 2 ^ 63))

theorem Schedule.lt_following (x : Schedule) (height : Long) : height.val < x.following height := by
  have hpos := x.positive
  have hlt := Int.lt_mul_ediv_self_add (x := height.val - x.next.val) (k := x.term.val) (by omega)
  rw [following, mul_add, mul_one]
  omega

theorem Schedule.following_le (x : Schedule) {height : Long} (hy : x.term.val ∣ y - x.next.val)
    (hlt : height.val < y) : x.following height ≤ y := by
  have hpos : 0 < x.term.val := x.positive
  obtain ⟨m, hm⟩ := hy
  have hquotient : (height.val - x.next.val) / x.term.val < m := by
    refine Int.ediv_lt_of_lt_mul hpos ?_
    rw [mul_comm, ← hm]
    omega
  have hsteps : x.term.val * ((height.val - x.next.val) / x.term.val + 1) ≤ x.term.val * m :=
    Int.mul_le_mul_of_nonneg_left hquotient hpos.le
  rw [following]
  omega

theorem Schedule.dvd_following (x : Schedule) (height : Long) :
    x.term.val ∣ x.following height - x.next.val := by
  rw [following, add_sub_cancel_left]
  exact dvd_mul_right ..

section

variable {term height next : Long} {v : ℤ}

/-- The first value at or above the current height that the loop comes to
without wrapping. -/
structure Reaches (term height next : Long) (v : ℤ) : Prop where
  positive : 1 ≤ term.val
  ahead : next.val ≤ v
  due : term.val ∣ v - next.val
  high : height.val ≤ v
  first : v - term.val < height.val
  fits : v < 2 ^ 63

theorem Reaches.step (h : Reaches term height next v) (hlt : next.val < height.val) :
    (next + term).val = next.val + term.val ∧ Reaches term height (next + term) v := by
  have hle : term.val ≤ v - next.val := Int.le_of_dvd (by have := h.high; omega) h.due
  have hval : (next + term).val = next.val + term.val := by
    have hpos := h.positive
    have hlow := next.isLong.1
    have hfits := h.fits
    exact Long.val_add ⟨by omega, by omega⟩
  refine ⟨hval, h.positive, by omega, ?_, h.high, h.first, h.fits⟩
  rw [hval, ← sub_sub]
  exact Int.dvd_sub h.due (Int.dvd_refl _)

theorem Reaches.stop (h : Reaches term height next v) (hge : ¬next.val < height.val) :
    next.val = v := by
  have hsmall : v - next.val < term.val := by
    have hfirst := h.first
    omega
  have hzero : v - next.val = 0 := by
    refine Int.eq_zero_of_dvd_of_nonneg_of_lt ?_ hsmall h.due
    exact Int.sub_nonneg.2 h.ahead
  omega

theorem Reaches.skip_eq (h : Reaches term height next v)
    (hskip : skip term height fuel next = some y) : y.val = v := by
  induction fuel generalizing next with
  | zero => contradiction
  | succ fuel ih =>
    rw [skip] at hskip
    split at hskip
    · next hlt => exact ih (h.step hlt).2 hskip
    · next hge =>
      cases hskip
      exact h.stop hge

theorem Reaches.skip_succeeds (h : Reaches term height next v) :
    ∃ fuel y, skip term height fuel next = some y := by
  -- by the distance to the value that is reached
  obtain ⟨n, hn⟩ : ∃ n : ℕ, v - next.val ≤ n := ⟨(v - next.val).toNat, Int.self_le_toNat _⟩
  induction n generalizing next with
  | zero =>
    refine ⟨1, next, ?_⟩
    have hge : ¬next.val < height.val := by
      have hhigh := h.high
      omega
    rw [skip, if_neg hge]
  | succ n ih =>
    by_cases hlt : next.val < height.val
    · obtain ⟨hval, hnext⟩ := h.step hlt
      have hpos := h.positive
      obtain ⟨fuel, y, hskip⟩ := ih hnext (by omega)
      exact ⟨fuel + 1, y, by rw [skip, if_pos hlt, hskip]⟩
    · exact ⟨1, next, by rw [skip, if_neg hlt]⟩

end

section

variable {x y : Schedule} {height later : Long}

theorem Schedule.add_term (hdue : x.next.val ≤ height.val) (hfits : x.following height < 2 ^ 63) :
    (x.next + x.term).val = x.next.val + x.term.val ∧
      x.next.val + x.term.val ≤ x.following height := by
  have hpos := x.positive
  have hlow := x.next.isLong.1
  have hle : x.term.val ≤ x.following height - x.next.val := by
    refine Int.le_of_dvd ?_ (x.dvd_following height)
    have hlt := x.lt_following height
    omega
  exact ⟨Long.val_add ⟨by omega, by omega⟩, by omega⟩

theorem Schedule.Regular.reaches (h : x.Regular height) (hdue : x.next.val ≤ height.val)
    (hle : (x.next + x.term).val ≤ height.val) :
    Reaches x.term height (x.next + x.term) (x.following height) := by
  obtain ⟨hdvd, hfits⟩ := h
  obtain ⟨hval, hahead⟩ := add_term hdue hfits
  have hpos := x.positive
  rw [hval] at hle
  refine ⟨hpos, hval ▸ hahead, ?_, (x.lt_following height).le, ?_, hfits⟩
  · rw [hval, ← sub_sub]
    exact Int.dvd_sub (x.dvd_following height) (Int.dvd_refl _)
  · -- the one before is below the current height, which is not due
    by_contra hge
    have heq : x.following height - x.term.val = height.val := by
      have hmul : x.following height - x.term.val =
          x.next.val + x.term.val * ((height.val - x.next.val) / x.term.val) := by
        rw [following, mul_add, mul_one]
        omega
      have hdiv := Int.mul_ediv_self_le (x := height.val - x.next.val) (k := x.term.val) (by omega)
      omega
    have hsame : height.val = x.next.val := by
      refine hdvd ?_
      rw [← heq, sub_right_comm]
      exact Int.dvd_sub (x.dvd_following height) (Int.dvd_refl _)
    omega

/-- The next distribution is at the first height behind this one that is due. -/
theorem Schedule.Regular.advance_eq (h : x.Regular height) (hdue : x.next.val ≤ height.val)
    (hnext : x.advance height fuel = some later) : later.val = x.following height := by
  unfold advance at hnext
  split at hnext
  · next hle => exact (h.reaches hdue hle).skip_eq hnext
  · next hgt =>
    cases hnext
    obtain ⟨hval, hahead⟩ := add_term hdue h.2
    refine le_antisymm (hval ▸ hahead) (x.following_le ?_ (by omega))
    rw [hval, add_sub_cancel_left]

theorem Schedule.Regular.advances (h : x.Regular height) (hdue : x.next.val ≤ height.val) :
    ∃ fuel later, x.advance height fuel = some later := by
  unfold advance
  split
  · next hle => exact (h.reaches hdue hle).skip_succeeds
  · exact ⟨0, _, rfl⟩

theorem Schedule.advance_due (hlt : x.next.val < height.val)
    (hdvd : x.term.val ∣ height.val - x.next.val) (hnext : x.advance height fuel = some later) :
    later.val = height.val := by
  have hpos := x.positive
  have hle : x.term.val ≤ height.val - x.next.val := Int.le_of_dvd (by omega) hdvd
  have hval : (x.next + x.term).val = x.next.val + x.term.val := by
    have hlow := x.next.isLong.1
    have hhigh := height.isLong.2
    exact Long.val_add ⟨by omega, by omega⟩
  rw [Schedule.advance, if_pos (by omega)] at hnext
  refine Reaches.skip_eq ⟨hpos, by omega, ?_, le_rfl, by omega, height.isLong.2⟩ hnext
  rw [hval, ← sub_sub]
  exact Int.dvd_sub hdvd (Int.dvd_refl _)

theorem Schedule.distribute_due (hdue : x.next.val ≤ height.val) :
    x.distribute height fuel = some y ↔
      ∃ later, x.advance height fuel = some later ∧ y = { x with next := later } := by
  rw [distribute, if_pos hdue, Option.map_eq_some_iff]
  exact exists_congr fun later => and_congr_right fun _ => eq_comm

/-- A call that is due ends with a later height that is due in the same terms,
if and only if the schedule is regular. -/
theorem Schedule.distribute_later_iff (hdue : x.next.val ≤ height.val) :
    (∃ fuel y, x.distribute height fuel = some y ∧ height.val < y.next.val ∧
      y.next.val ≡ x.next.val [ZMOD x.term.val]) ↔ x.Regular height := by
  constructor
  · rintro ⟨fuel, y, hy, hlater, hmod⟩
    obtain ⟨later, hnext, rfl⟩ := (distribute_due hdue).1 hy
    refine ⟨fun hdvd => ?_, ?_⟩
    · by_contra hne
      have hstays := advance_due (by omega) hdvd hnext
      exact hlater.ne' hstays
    · have hle := x.following_le (Int.modEq_iff_dvd.1 hmod.symm) hlater
      exact hle.trans_lt later.isLong.2
  · intro hregular
    obtain ⟨fuel, later, hnext⟩ := hregular.advances hdue
    have hval := hregular.advance_eq hdue hnext
    refine ⟨fuel, { x with next := later }, (distribute_due hdue).2 ⟨later, hnext, rfl⟩, ?_, ?_⟩
    · exact hval ▸ x.lt_following height
    · refine (Int.modEq_iff_dvd.2 ?_).symm
      exact hval ▸ x.dvd_following height

end

theorem Reaches.skipTerms_eq {term height next : Long} (h : Reaches term height next v)
    (hn : height.val - next.val ≤ (n : ℕ)) : skipTerms term.val height.val n next.val = v := by
  induction n generalizing next with
  | zero => exact h.stop (by omega)
  | succ n ih =>
    rw [skipTerms]
    split
    · next hlt =>
      obtain ⟨hval, hnext⟩ := h.step hlt
      have hpos := h.positive
      rw [← hval]
      exact ih hnext (by omega)
    · next hge => exact h.stop hge

/-- As long as nothing wraps, `distributeRelayerReward` moves the schedule as
the loop with `long`s does. -/
theorem distributeRelayerReward_schedule (c : Config W B) (s : St W B) (x y : Schedule)
    (height : Long) (hnext : s.relayersProperties.nextRewardDistribution = x.next.val)
    (hterm : s.relayersProperties.relayerTerm = x.term.val)
    (hregular : x.next.val ≤ height.val → x.Regular height)
    (hy : x.distribute height fuel = some y) :
    (distributeRelayerReward c s height.val).relayersProperties.nextRewardDistribution =
        y.next.val ∧
      (distributeRelayerReward c s height.val).relayersProperties.relayerTerm = y.term.val := by
  by_cases hdue : x.next.val ≤ height.val
  · obtain ⟨later, hlater, rfl⟩ := (Schedule.distribute_due hdue).1 hy
    have hval := (hregular hdue).advance_eq hdue hlater
    obtain ⟨hsum, -⟩ := Schedule.add_term hdue (hregular hdue).2
    have hmodel : (if x.next.val + x.term.val ≤ height.val then
        skipTerms x.term.val height.val (height.val - (x.next.val + x.term.val)).toNat
          (x.next.val + x.term.val) else x.next.val + x.term.val) = later.val := by
      rw [← hsum, hval]
      split
      · next hle =>
        exact ((hregular hdue).reaches hdue hle).skipTerms_eq (Int.self_le_toNat _)
      · next hgt =>
        rw [Schedule.advance, if_neg hgt, Option.some.injEq] at hlater
        rw [← hval, hlater]
    simp only [distributeRelayerReward, hnext, hterm, if_pos hdue, hmodel]
    split
    · exact ⟨rfl, rfl⟩
    · exact ⟨rfl, rfl⟩
  · rw [Schedule.distribute, if_neg hdue, Option.some.injEq] at hy
    subst hy
    rw [distributeRelayerReward, if_neg (by rwa [hnext])]
    exact ⟨hnext, hterm⟩

inductive ScheduleOp
  | distributeRelayerReward (height : Long) (fuel : ℕ)
  | setRelayerTerm (value : Long)

def scheduleStep (x : Schedule) : ScheduleOp → Outcome Schedule
  | .distributeRelayerReward height fuel =>
    match x.distribute height fuel with
    | some y => .ok y
    | none => .error (.other "OutOfStep")
  | .setRelayerTerm value =>
    if h : 1 ≤ value.val then .ok { x with term := value, positive := h }
    else .error (unknown "term must be positive")

def distributedAt (x : Schedule) : ScheduleOp → Option Long
  | .distributeRelayerReward height fuel =>
    if x.next.val ≤ height.val ∧ (x.advance height fuel).isSome then some height else none
  | .setRelayerTerm _ => none

def distributions : Schedule → List ScheduleOp → List Long
  | _, [] => []
  | x, op :: ops => (distributedAt x op).toList ++ distributions (exec scheduleStep x op) ops

def OnTime (x : Schedule) : ScheduleOp → Prop
  | .distributeRelayerReward height _ => x.next.val ≤ height.val → x.Regular height
  | .setRelayerTerm _ => True

theorem exec_onTime (h : OnTime x op) :
    x.next.val ≤ (exec scheduleStep x op).next.val ∧
      ∀ height ∈ distributedAt x op, x.next.val ≤ height.val ∧
        height.val < (exec scheduleStep x op).next.val := by
  cases op with
  | setRelayerTerm value =>
    refine ⟨?_, fun _ hheight => by cases hheight⟩
    refine exec_induct (P := fun y : Schedule => x.next.val ≤ y.next.val) (fun y hy => ?_) le_rfl
    rw [scheduleStep] at hy
    split at hy
    · cases hy
      exact le_rfl
    · contradiction
  | distributeRelayerReward height fuel =>
    by_cases hdue : x.next.val ≤ height.val
    · cases hadvance : x.advance height fuel with
      | none =>
        have hstuck : exec scheduleStep x (.distributeRelayerReward height fuel) = x := by
          simp [exec, scheduleStep, Schedule.distribute, hdue, hadvance]
        rw [hstuck]
        exact ⟨le_rfl, by simp [distributedAt, hadvance]⟩
      | some later =>
        have hmoved :
            (exec scheduleStep x (.distributeRelayerReward height fuel)).next = later := by
          simp [exec, scheduleStep, Schedule.distribute, hdue, hadvance]
        have hlater : height.val < later.val := by
          rw [(h hdue).advance_eq hdue hadvance]
          exact x.lt_following height
        rw [hmoved]
        refine ⟨hdue.trans hlater.le, fun height' hheight' => ?_⟩
        rw [distributedAt, if_pos ⟨hdue, by rw [hadvance, Option.isSome_some]⟩] at hheight'
        cases hheight'
        exact ⟨hdue, hlater⟩
    · have hidle : exec scheduleStep x (.distributeRelayerReward height fuel) = x := by
        simp [exec, scheduleStep, Schedule.distribute, hdue]
      rw [hidle]
      exact ⟨le_rfl, by simp [distributedAt, hdue]⟩

theorem distributions_ge (h : Along scheduleStep OnTime x ops) :
    ∀ height ∈ distributions x ops, x.next.val ≤ height.val := by
  induction ops generalizing x with
  | nil => simp [distributions]
  | cons op ops ih =>
    obtain ⟨hop, hops⟩ := h
    obtain ⟨hnext, hpaid⟩ := exec_onTime hop
    intro height hheight
    rcases mem_append.1 hheight with hfirst | hrest
    · exact (hpaid height (by simpa using hfirst)).1
    · exact hnext.trans (ih hops height hrest)

theorem distributions_pairwise (h : Along scheduleStep OnTime x ops) :
    (distributions x ops).Pairwise fun a b => a.val < b.val := by
  induction ops generalizing x with
  | nil => exact .nil
  | cons op ops ih =>
    obtain ⟨hop, hops⟩ := h
    obtain ⟨-, hpaid⟩ := exec_onTime hop
    refine pairwise_append.2 ⟨?_, ih hops, fun a ha b hb => ?_⟩
    · cases distributedAt x op with
      | none => exact .nil
      | some a => exact pairwise_singleton ..
    · exact (hpaid a (by simpa using ha)).2.trans_le (distributions_ge hops b hb)

/-- A call that is due ends with a later height that is due in the same terms if
and only if the schedule is regular; and in every run in which it is so for each
call that is due, no two distributions are in one block. -/
theorem reward_once_per_term (x : Schedule) :
    (∀ height : Long, x.next.val ≤ height.val →
      ((∃ fuel y, x.distribute height fuel = some y ∧ height.val < y.next.val ∧
        y.next.val ≡ x.next.val [ZMOD x.term.val]) ↔ x.Regular height)) ∧
    ∀ ops : List ScheduleOp, Along scheduleStep OnTime x ops →
      (distributions x ops).Pairwise fun a b => a.val < b.val :=
  ⟨fun _ => Schedule.distribute_later_iff, fun _ => distributions_pairwise⟩

def everyTen : Schedule := ⟨⟨100, by decide⟩, ⟨10, by decide⟩, by decide⟩

def twiceAt (height : ℤ) (h : IsLong height) : List ScheduleOp :=
  [.distributeRelayerReward ⟨height, h⟩ 10, .distributeRelayerReward ⟨height, h⟩ 10]

theorem everyTen_at_123 :
    (∃ fuel y, everyTen.distribute ⟨123, by decide⟩ fuel = some y ∧ 123 < y.next.val ∧
      y.next.val ≡ 100 [ZMOD 10]) ∧
    (distributions everyTen (twiceAt 123 (by decide))).Pairwise fun a b => a.val < b.val := by
  refine ⟨((reward_once_per_term everyTen).1 ⟨123, by decide⟩ (by decide)).2 (by decide +kernel), ?_⟩
  refine (reward_once_per_term everyTen).2 (twiceAt 123 (by decide)) ⟨?_, ?_, trivial⟩
  · intro _
    decide +kernel
  · intro hdue
    exact absurd hdue (by decide +kernel)

/-- At the height of a later distribution, the next one is at the same height,
and a second call in the block distributes again. -/
theorem everyTen_at_120 :
    (everyTen.distribute ⟨120, by decide⟩ 10).map (fun y => y.next.val) = some 120 ∧
      (distributions everyTen (twiceAt 120 (by decide))).map Long.val = [120, 120] := by
  decide +kernel

end IconBridge.Java.BMC
