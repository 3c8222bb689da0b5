import Mathlib.Algebra.Order.Interval.Finset.SuccPred
import Mathlib.Data.Int.ConditionallyCompleteOrder
import Mathlib.Data.Int.Interval
import Mathlib.Data.Int.SuccPred
import IconBridge.Near.BTS.Turns

/-!
# Locked balances and stored requests

In a run without astray steps the locked balances are what the stored requests
lock, and every request ends once.
-/

namespace IconBridge.Near.BTS

open Lib Function List

variable {d : Deployment} {s s' : St} {ms : List Movement} {up down : Key → ℕ}

noncomputable def St.awaiting (s : St) (k : Key) : ℕ :=
  sumOver (fun r => r.weight s.tokenIds k) (Finset.Icc 1 s.serialNo) s.requests

structure Matched (s : St) : Prop where
  nonneg : 0 ≤ s.serialNo
  numbered : ∀ n r, s.requests n = some r → n ∈ Finset.Icc 1 s.serialNo
  known : ∀ n r, s.requests n = some r → ∀ x ∈ r.assets, (s.tokenIds x.name).isSome
  locked : ∀ k, s.locked k = s.awaiting k

theorem initialState_matched : Matched (initialState d) where
  nonneg := le_refl 0
  numbered := by simp [initialState]
  known := by simp [initialState]
  locked k := by
    rw [St.awaiting, initialState, sumOver_empty, St.locked, St.amount, amount_update]
    split <;> rfl

/-- A token that is known keeps its id, so old requests keep their weight. -/
theorem awaiting_eq (hids : ∀ name t, s.tokenIds name = some t → s'.tokenIds name = some t)
    (hknown : ∀ n r, s'.requests n = some r → ∀ x ∈ r.assets, (s.tokenIds x.name).isSome) (k : Key) :
    s'.awaiting k =
      sumOver (fun r => r.weight s.tokenIds k) (Finset.Icc 1 s'.serialNo) s'.requests := by
  rw [St.awaiting]
  refine Finset.sum_congr rfl fun n _ => ?_
  cases hr : s'.requests n with
  | none => rfl
  | some r =>
    refine congrFun (weigh_congr fun x hx => ?_) k
    obtain ⟨t, ht⟩ := Option.isSome_iff_exists.1 (hknown n r hr x hx)
    rw [ht, hids x.name t ht]

theorem known_of_ids (hids : ∀ name t, s.tokenIds name = some t → s'.tokenIds name = some t)
    (h : (s.tokenIds name).isSome) : (s'.tokenIds name).isSome := by
  obtain ⟨t, ht⟩ := Option.isSome_iff_exists.1 h
  simp [hids name t ht]

theorem Matched.quiet (hs : Matched s) (h : Shifts 0 0 [] s s') (hrequests : s'.requests = s.requests)
    (hserial : s'.serialNo = s.serialNo) : Matched s' where
  nonneg := hserial ▸ hs.nonneg
  numbered := by rw [hrequests, hserial]; exact hs.numbered
  known n r hr x hx := known_of_ids h.ids (hs.known n r (hrequests ▸ hr) x hx)
  locked k := by
    have hlocked : s'.locked k = s.locked k := h.locked k
    rw [hlocked, hs.locked, awaiting_eq h.ids (hrequests ▸ hs.known), hrequests, hserial]
    rfl

theorem Matched.filed (hs : Matched s) (hknown : ∀ x ∈ r.assets, (s.tokenIds x.name).isSome)
    (h : Shifts (r.weight s.tokenIds) 0 [] s s')
    (hrequests : s'.requests = update s.requests (s.serialNo + 1) (some r))
    (hserial : s'.serialNo = s.serialNo + 1) : Matched s' := by
  have hentries : ∀ n r', s'.requests n = some r' →
      (n = s.serialNo + 1 ∧ r' = r) ∨ s.requests n = some r' := by
    intro n r' hr
    rw [hrequests] at hr
    exact update_some_or hr
  have hall : ∀ n r', s'.requests n = some r' → ∀ x ∈ r'.assets, (s.tokenIds x.name).isSome := by
    intro n r' hr
    rcases hentries n r' hr with ⟨-, rfl⟩ | hr
    · exact hknown
    · exact hs.known n r' hr
  have hnonneg := hs.nonneg
  refine ⟨by omega, fun n r' hr => ?_, fun n r' hr x hx => known_of_ids h.ids (hall n r' hr x hx),
    fun k => ?_⟩
  · rw [hserial, Finset.mem_Icc]
    rcases hentries n r' hr with ⟨rfl, -⟩ | hr
    · omega
    · have := Finset.mem_Icc.1 (hs.numbered n r' hr)
      omega
  · have hlocked : s'.locked k = s.locked k + r.weight s.tokenIds k := h.locked k
    have hfresh : s.serialNo + 1 ∉ Finset.Icc 1 s.serialNo := by simp
    rw [hlocked, hs.locked, awaiting_eq h.ids hall, hserial, hrequests,
      ← Finset.insert_Icc_right_eq_Icc_add_one (by omega), sumOver_insert _ hfresh]
    rfl

theorem Matched.settled (hs : Matched s) (hr : s.requests n = some r)
    (h : Shifts 0 (r.weight s.tokenIds) ms s s')
    (hrequests : s'.requests = update s.requests n none)
    (hserial : s'.serialNo = s.serialNo) : Matched s' := by
  have hentries : ∀ m r', s'.requests m = some r' → s.requests m = some r' := by
    intro m r' hm
    rw [hrequests, update_apply] at hm
    split at hm
    · contradiction
    · exact hm
  refine ⟨hserial ▸ hs.nonneg, fun m r' hm => hserial ▸ hs.numbered m r' (hentries m r' hm),
    fun m r' hm x hx => known_of_ids h.ids (hs.known m r' (hentries m r' hm) x hx), fun k => ?_⟩
  have hlocked : s'.locked k + r.weight s.tokenIds k = s.locked k := h.locked k
  have hremove : s'.awaiting k + (s.requests n).elim 0 (·.weight s.tokenIds k) = s.awaiting k := by
    rw [awaiting_eq h.ids fun m r' hm => hs.known m r' (hentries m r' hm), hserial, hrequests]
    exact sumOver_remove _ (hs.numbered n r hr)
  have hawaiting := hs.locked k
  rw [hr, Option.elim_some] at hremove
  omega

theorem Matched.turn (hs : Matched s) (horderly : orderly) (h : Turn d orderly s s') :
    Matched s' := by
  cases h with
  | quiet h hrequests hserial => exact hs.quiet h hrequests hserial
  | filed r hknown h hrequests hserial => exact hs.filed hknown h hrequests hserial
  | settled n r e hr h hrequests hserial => exact hs.settled hr h hrequests hserial
  | stray h => exact absurd horderly h

structure Closed where
  serialNo : ℤ
  request : Request
  ending : Ending
  deriving DecidableEq, Repr

def Closed.movements (d : Deployment) (x : Closed) : List Movement := x.request.settlement d x.ending

/-- `log` are the requests among `ever` that are over. -/
structure Accounted (d : Deployment) (ever : ℤ → Request → Prop) (s : St) (log : List Closed) :
    Prop where
  nodup : (log.map Closed.serialNo).Nodup
  settlements : s.settlements = log.flatMap (Closed.movements d)
  stored : ∀ n r, s.requests n = some r → ever n r
  fate : ∀ n r, ever n r → s.requests n = some r ∨ ∃ e, ⟨n, r, e⟩ ∈ log
  closed : ∀ x ∈ log, ever x.serialNo x.request ∧ x.serialNo ≤ s.serialNo ∧ s.requests x.serialNo = none

variable {ever : ℤ → Request → Prop} {log : List Closed}

theorem initialState_accounted (h : ∀ n r, ¬ever n r) : Accounted d ever (initialState d) [] where
  nodup := nodup_nil
  settlements := rfl
  stored n r hr := by simp [initialState] at hr
  fate n r hr := absurd hr (h n r)
  closed := by simp

def orStored (ever : ℤ → Request → Prop) (s : St) (n : ℤ) (r : Request) : Prop :=
  ever n r ∨ s.requests n = some r

theorem Accounted.quiet (hs : Accounted d ever s log) (hsettlements : s'.settlements = s.settlements)
    (hrequests : s'.requests = s.requests) (hserial : s'.serialNo = s.serialNo) :
    Accounted d (orStored ever s') s' log where
  nodup := hs.nodup
  settlements := hsettlements.trans hs.settlements
  stored n r hr := .inr hr
  fate n r hr := by
    rw [orStored, hrequests] at hr
    rw [hrequests]
    exact hr.elim (hs.fate n r) .inl
  closed x hx := by
    obtain ⟨hever, hle, hnone⟩ := hs.closed x hx
    exact ⟨.inl hever, hserial ▸ hle, hrequests ▸ hnone⟩

theorem Accounted.filed (hs : Accounted d ever s log) (hm : Matched s) (h : Shifts up 0 [] s s')
    (hrequests : s'.requests = update s.requests (s.serialNo + 1) (some r))
    (hserial : s'.serialNo = s.serialNo + 1) : Accounted d (orStored ever s') s' log := by
  -- no request was stored under the new number before
  have hold : ∀ n r', s.requests n = some r' → s'.requests n = some r' := by
    intro n r' hr
    have := Finset.mem_Icc.1 (hm.numbered n r' hr)
    rw [hrequests, update_of_ne (by omega), hr]
  refine ⟨hs.nodup, ?_, fun _ _ => .inr, fun n r' hr => ?_, fun x hx => ?_⟩
  · rw [h.settlements, append_nil, hs.settlements]
  · rcases hr with hr | hr
    · exact (hs.fate n r' hr).imp_left (hold n r')
    · exact .inl hr
  · obtain ⟨hever, hle, hnone⟩ := hs.closed x hx
    rw [hserial, hrequests, update_of_ne (by omega)]
    exact ⟨.inl hever, by omega, hnone⟩

theorem Accounted.settled (hs : Accounted d ever s log) (hm : Matched s)
    (hr : s.requests n = some r) (h : Shifts 0 down (r.settlement d e) s s')
    (hrequests : s'.requests = update s.requests n none)
    (hserial : s'.serialNo = s.serialNo) :
    Accounted d (orStored ever s') s' (log ++ [⟨n, r, e⟩]) := by
  refine ⟨?_, ?_, fun _ _ => .inr, fun m r' hr' => ?_, fun x hx => ?_⟩
  · rw [map_append, nodup_append]
    refine ⟨hs.nodup, by simp, ?_⟩
    rintro _ hmem _ hn rfl
    -- a request that is over is not stored
    obtain ⟨x, hx, rfl⟩ := mem_map.1 hmem
    obtain rfl := mem_singleton.1 hn
    rw [(hs.closed x hx).2.2] at hr
    contradiction
  · rw [h.settlements, hs.settlements, flatMap_append, flatMap_singleton]
    rfl
  · have hfate : s.requests m = some r' ∨ ∃ e, ⟨m, r', e⟩ ∈ log := by
      rcases hr' with hr' | hr'
      · exact hs.fate m r' hr'
      · rw [hrequests, update_apply] at hr'
        split at hr'
        · contradiction
        · exact .inl hr'
    rcases hfate with hstored | ⟨e', he'⟩
    · by_cases heq : m = n
      · subst heq
        rw [hr] at hstored
        cases hstored
        exact .inr ⟨e, by simp⟩
      · rw [hrequests, update_of_ne heq]
        exact .inl hstored
    · exact .inr ⟨e', mem_append_left _ he'⟩
  · rw [hserial, hrequests]
    rcases mem_append.1 hx with hx | hx
    · obtain ⟨hever, hle, hnone⟩ := hs.closed x hx
      refine ⟨.inl hever, hle, ?_⟩
      rw [update_apply, hnone, ite_self]
    · obtain rfl := mem_singleton.1 hx
      exact ⟨.inl (hs.stored n r hr), (Finset.mem_Icc.1 (hm.numbered n r hr)).2, update_self ..⟩

theorem Accounted.turn (hs : Accounted d ever s log) (hm : Matched s) (horderly : orderly)
    (h : Turn d orderly s s') : ∃ log', Accounted d (orStored ever s') s' log' := by
  cases h with
  | quiet h hrequests hserial =>
    exact ⟨log, hs.quiet (h.settlements.trans (append_nil _)) hrequests hserial⟩
  | filed r _ h hrequests hserial => exact ⟨log, hs.filed hm h hrequests hserial⟩
  | settled n r e hr h hrequests hserial => exact ⟨_, hs.settled hm hr h hrequests hserial⟩
  | stray h => exact absurd horderly h

def EverStored (d : Deployment) (acts : List Act) (n : ℤ) (r : Request) : Prop :=
  ∃ pre, pre <+: acts ∧ (run (step d) (initialState d) pre).requests n = some r

theorem everStored_nil : ¬EverStored d [] n r := by
  rintro ⟨pre, hpre, hr⟩
  rw [prefix_nil.1 hpre] at hr
  contradiction

theorem everStored_concat : EverStored d (acts ++ [act]) =
    orStored (EverStored d acts) (run (step d) (initialState d) (acts ++ [act])) := by
  funext n r
  refine propext ⟨?_, ?_⟩
  · rintro ⟨pre, hpre, hr⟩
    rcases prefix_concat_iff.1 hpre with rfl | hpre
    · exact .inr hr
    · exact .inl ⟨pre, hpre, hr⟩
  · rintro (⟨pre, hpre, hr⟩ | hr)
    · exact ⟨pre, hpre.trans (prefix_append ..), hr⟩
    · exact ⟨_, prefix_rfl, hr⟩

theorem run_accounted
    (horderly : Along (step d) (fun s act => act.Orderly s) (initialState d) acts) :
    let s := run (step d) (initialState d) acts
    Matched s ∧ ∃ log, Accounted d (EverStored d acts) s log := by
  induction acts using List.reverseRecOn with
  | nil =>
    exact ⟨initialState_matched, [], initialState_accounted fun _ _ => everStored_nil⟩
  | append_singleton acts act ih =>
    obtain ⟨horderly, hact, -⟩ := horderly.append
    obtain ⟨hm, log, hlog⟩ := ih horderly
    simp only [everStored_concat, run_append, run_cons, run_nil]
    cases h : step d (run (step d) (initialState d) acts) act with
    | error e =>
      rw [exec_of_error h]
      exact ⟨hm, log, hlog.quiet rfl rfl rfl⟩
    | ok s' =>
      rw [exec_of_ok h]
      have hturn := (step_does (run_sound acts) h).turn (run_sound acts) hm.known
      exact ⟨hm.turn hact hturn, hlog.turn hm hact hturn⟩

/-- In every run in which each request reaches the message center and each answer
says how its request ends, the locked balances are what the stored requests
lock. Every request that was ever stored is still stored, or it was finalized or
rolled back; no request is settled twice, and nothing else is settled. -/
theorem locked_eq_awaiting (d : Deployment) (acts : List Act)
    (horderly : Along (step d) (fun s act => act.Orderly s) (initialState d) acts) :
    let s := run (step d) (initialState d) acts
    (∀ n r, s.requests n = some r → n ∈ Finset.Icc 1 s.serialNo) ∧
      (∀ a tokenId, s.locked (a, tokenId) = s.awaiting (a, tokenId)) ∧
      ∃ log : List Closed,
        (log.map Closed.serialNo).Nodup ∧
        s.settlements = log.flatMap (Closed.movements d) ∧
        (∀ n r, EverStored d acts n r → s.requests n = some r ∨ ∃ e, ⟨n, r, e⟩ ∈ log) ∧
        ∀ x ∈ log, EverStored d acts x.serialNo x.request ∧ s.requests x.serialNo = none := by
  obtain ⟨hm, log, hlog⟩ := run_accounted horderly
  refine ⟨hm.numbered, fun a tokenId => hm.locked _, log, hlog.nodup, hlog.settlements, hlog.fate,
    fun x hx => ?_⟩
  obtain ⟨hever, -, hnone⟩ := hlog.closed x hx
  exact ⟨hever, hnone⟩

def aliceTransfers (v : ℕ) : Act := .call alice (.transfer near.name ⟨"0x1.icon", "hx12"⟩ v)

def answered (n : ℤ) (code : ℕ) : Act :=
  .call { predecessor := "bmc.near" }
    (.handleBtpMessage ⟨"0x1.icon", "cx12"⟩ "bts" n (.ok (.responseHandleService code "")))

def oneAnswered : List Act := [aliceDeposits, aliceTransfers 60, aliceTransfers 40, answered 1 rcOk]

theorem oneAnswered_locked :
    let s := run (step sample) (initialState sample) oneAnswered
    s.locked ("alice.near", 17) = 40 ∧ s.locked ("alice.near", 17) = s.awaiting ("alice.near", 17) := by
  refine ⟨by decide +kernel, ?_⟩
  exact (locked_eq_awaiting sample oneAnswered ⟨trivial, trivial, trivial, .inl rfl, trivial⟩).2.1 _ _

def sendFailed : St := run (step sample) (initialState sample)
  [aliceDeposits, aliceTransfers 100, .execute 0 .failed, .callback 0 { predecessor := "bts.near" }]

/-- The answer has a code that is neither success nor failure. -/
def oddlyAnswered : St :=
  run (step sample) (initialState sample) [aliceDeposits, aliceTransfers 100, answered 1 2]

/-- A request whose send fails is rolled back and stays; one that is answered
with another code is removed and its amount stays locked. -/
theorem unmatched_requests :
    (sendFailed.locked ("alice.near", 17) = 0 ∧ sendFailed.awaiting ("alice.near", 17) = 100 ∧
      sendFailed.settlements = [.rollback ("alice.near", 17) 99 1] ∧
      (sendFailed.requests 1).isSome) ∧
    oddlyAnswered.locked ("alice.near", 17) = 100 ∧ oddlyAnswered.awaiting ("alice.near", 17) = 0 ∧
      oddlyAnswered.settlements = [] ∧ oddlyAnswered.requests 1 = none := by
  decide +kernel

end IconBridge.Near.BTS
