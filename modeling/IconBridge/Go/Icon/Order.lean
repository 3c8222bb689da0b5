import IconBridge.Go.Icon.Loop

/-!
# The order of the ICON receiver

Blocks are delivered in the order of their heights, none is left out and none is
delivered twice, as long as the main loop takes no response of a batch from which
a monitor goroutine has taken one.
-/

namespace IconBridge.Go.Icon

open Lib List

def Rising (h : ℤ) : List ℤ → Prop
  | [] => True
  | k :: ks => k = h ∧ Rising (h + 1) ks

theorem rising_append : Rising h (ks ++ ls) ↔ Rising h ks ∧ Rising (h + ks.length) ls := by
  induction ks generalizing h with
  | nil => simp [Rising]
  | cons k ks ih =>
    rw [cons_append, Rising, Rising, ih, and_assoc, length_cons, Nat.cast_succ,
      add_assoc, add_comm 1]

theorem rising_snoc : Rising h (ks ++ [k]) ↔ Rising h ks ∧ k = h + ks.length := by
  rw [rising_append, Rising, Rising, and_true]

theorem Rising.eq_range (hks : Rising h ks) : ks = (List.range ks.length).map fun i : ℕ => h + i := by
  induction ks generalizing h with
  | nil => rfl
  | cons k ks ih =>
    obtain ⟨rfl, hks⟩ := hks
    rw [length_cons, range_succ_eq_map, map_cons, map_map]
    congr 1
    · simp
    · conv_lhs => rw [ih hks]
      refine map_congr_left fun i _ => ?_
      simp only [Function.comp_apply, Nat.cast_succ]
      omega

theorem Rising.ascending (hks : Rising h ks) : (∀ k ∈ ks, h ≤ k) ∧ ks.Pairwise (· < ·) := by
  induction ks generalizing h with
  | nil => simp
  | cons k ks ih =>
    obtain ⟨rfl, hks⟩ := hks
    obtain ⟨hle, hpairwise⟩ := ih hks
    refine ⟨forall_mem_cons.2 ⟨le_rfl, fun l hl => ?_⟩, pairwise_cons.2 ⟨hle, hpairwise⟩⟩
    exact (Int.lt_of_add_one_le (hle l hl)).le

abbrev heights (brs : List BtpBlockResponse) : List ℤ := brs.map BtpBlockResponse.height

theorem forwarded_eq_nil (hlt : ∀ d ∈ ds, h < d.height)
    (hpairwise : (heights ds).Pairwise (· < ·)) : forwarded h ds = [] := by
  induction ds generalizing h with
  | nil => rfl
  | cons d ds ih =>
    obtain ⟨hd, hds⟩ := forall_mem_cons.1 hlt
    obtain ⟨hhead, hpairwise⟩ := pairwise_cons.1 hpairwise
    rw [forwarded, if_neg hd.ne']
    refine ih (fun e he => ?_) hpairwise
    have hlt := hhead e.height (mem_map_of_mem he)
    omega

theorem forwarded_rising (hle : ∀ d ∈ ds, h ≤ d.height)
    (hpairwise : (heights ds).Pairwise (· < ·)) : Rising h (heights (forwarded h ds)) := by
  induction ds generalizing h with
  | nil => trivial
  | cons d ds ih =>
    obtain ⟨hd, hds⟩ := forall_mem_cons.1 hle
    obtain ⟨hhead, hpairwise⟩ := pairwise_cons.1 hpairwise
    have hafter (e) (he : e ∈ ds) : d.height + 1 ≤ e.height :=
      hhead e.height (mem_map_of_mem he)
    rw [forwarded]
    split
    · next heq =>
      subst heq
      exact ⟨rfl, ih hafter hpairwise⟩
    · next hne =>
      rw [forwarded_eq_nil (fun e he => ?_) hpairwise]
      · trivial
      · have := hafter e he
        omega

variable {C : Codec} {logFilter : EventLogRawFilter} {concurrency : ℕ}

theorem requested_ok {attempt : ℕ → Except Failure α} (h : requested attempt retry = .ok (some a)) :
    ∃ k, attempt k = .ok a := by
  induction retry with
  | zero =>
    unfold requested at h
    split at h
    · next ha =>
      cases pure_ok.1 h
      exact ⟨0, ha⟩
    · simp at h
    · simp [pure_ok] at h
  | succ retry ih =>
    unfold requested at h
    split at h
    · next ha =>
      cases pure_ok.1 h
      exact ⟨retry + 1, ha⟩
    · simp at h
    · exact ih h

theorem handleBTPBlockRequests_ok
    (h : handleBTPBlockRequests C logFilter vr requests answers = .ok brs) :
    ∃ answered, answered.Sublist requests ∧ List.Forall₂ (fun request br =>
      ∃ k, handleBTPBlockRequest C logFilter vr request (answers request.height k) = .ok br)
      answered brs := by
  simp only [handleBTPBlockRequests, bind_ok, pure_ok] at h
  obtain ⟨results, hresults, rfl⟩ := h
  have hforall := forall₂_of_mapM hresults
  clear hresults
  induction hforall with
  | nil => exact ⟨[], .slnil, .nil⟩
  | @cons request result requests results hrequest _ ih =>
    obtain ⟨answered, hsublist, hanswered⟩ := ih
    cases result with
    | none => exact ⟨answered, hsublist.cons _, hanswered⟩
    | some br => exact ⟨request :: answered, hsublist.cons_cons _, .cons (requested_ok hrequest) hanswered⟩

theorem handleBTPBlockRequest_height
    (h : handleBTPBlockRequest C logFilter vr request a = .ok br) : br.height = request.height := by
  simp only [handleBTPBlockRequest, bind_ok, pure_ok] at h
  obtain ⟨hash, -, header, -, ⟨votes, nextValidators⟩, -, receipts, -, rfl⟩ := h
  rfl

theorem handleBTPBlockRequests_heights
    (h : handleBTPBlockRequests C logFilter vr requests answers = .ok brs) :
    (heights brs).Sublist (requests.map BtpBlockRequest.height) := by
  obtain ⟨answered, hsublist, hanswered⟩ := handleBTPBlockRequests_ok h
  have heq : heights brs = answered.map BtpBlockRequest.height := by
    clear h hsublist
    induction hanswered with
    | nil => rfl
    | cons hbr _ ih =>
      obtain ⟨k, hbr⟩ := hbr
      rw [heights, map_cons, map_cons, handleBTPBlockRequest_height hbr]
      exact congrArg _ ih
  exact heq ▸ hsublist.map _

/-- The responses at hand and in the channel are those that come next, unless some of
them were stolen. -/
def Due (s : Core) : Prop :=
  match s.main with
  | .idle => s.stolen = false → Rising s.next (heights s.btpBlockRespCh)
  | .collecting _ requests | .receiving requests | .fetching requests =>
    s.btpBlockRespCh = [] ∧ Rising s.next (requests.map BtpBlockRequest.height)
  | .forwarding brs => s.stolen = false → Rising s.next (heights (s.btpBlockRespCh ++ brs))
  | .handling br =>
    br.height = s.next ∧ (s.stolen = false → Rising (s.next + 1) (heights s.btpBlockRespCh))
  | .taking => s.stolen = false → Rising (s.next + 1) (heights s.btpBlockRespCh)
  | .draining .lenNotif _ => s.btpBlockRespCh = []
  | .draining _ _ | .clearing | .removing | .ended => True

def Core.reached (s : Core) : ℤ := if s.main = .taking then s.next + 1 else s.next

structure Ordered (startHeight : ℤ) (s : Core) : Prop where
  delivered : Rising startHeight (heights s.delivered)
  reached : s.main ≠ .ended → s.reached = startHeight + s.delivered.length
  due : Due s

/-- The main loop takes no response of a batch that was robbed. -/
def Unrobbed (s : Core) : Act → Prop
  | .takeResponse | .take => s.stolen = false
  | _ => True

instance : ∀ act, Decidable (Unrobbed s act)
  | .takeResponse | .take => inferInstanceAs (Decidable (_ = _))
  | .stop | .notify _ | .monitorError | .drain _ _ | .reconnect _ | .takeNotification | .collect
  | .receive | .fetch _ | .forward | .handle _ | .drainMain _ | .clear => .isTrue trivial

section

variable {s : Core}

theorem Ordered.goto (hs : Ordered startHeight s) (hmain : s.main ≠ .ended)
    (htaking : s.main ≠ .taking) (htaking' : main ≠ .taking)
    (hdue : Due { s with main, vr, btpBlockRespCh, stolen }) :
    Ordered startHeight { s with main, vr, btpBlockRespCh, stolen } := by
  refine ⟨hs.delivered, fun _ => ?_, hdue⟩
  have hreached := hs.reached hmain
  simp only [Core.reached, htaking, htaking', if_false] at hreached ⊢
  exact hreached

theorem Due.steal (h : Due s) (hresp : s.btpBlockRespCh = br :: brs) :
    Due { s with btpBlockRespCh := brs, stolen := true } := by
  unfold Due at h ⊢
  cases hmain : s.main with
  | handling br => exact ⟨by simp only [hmain] at h; exact h.1, by simp⟩
  | collecting bn requests | receiving requests | fetching requests => simp [hmain, hresp] at h
  | draining d verifying => cases d <;> simp [hmain, hresp] at h ⊢
  | _ => simp

theorem moves_ordered (hs : Ordered startHeight s) (hunrobbed : Unrobbed s act)
    (h : Moves C logFilter concurrency s act s') : Ordered startHeight s' := by
  have hdue := hs.due
  cases h with
  | quiet => exact hs
  | stop => exact ⟨hs.delivered, fun h => absurd rfl h, trivial⟩
  | steal hresp => exact ⟨hs.delivered, hs.reached, hdue.steal hresp⟩
  | sync hmain => exact ⟨hs.delivered, hs.reached, hdue⟩
  | takeResponse hmain hresp =>
    rw [Due, hmain] at hdue
    have hrising := hdue hunrobbed
    rw [hresp] at hrising
    exact hs.goto (by simp [hmain]) (by simp [hmain]) (by simp) ⟨hrising.1, fun _ => hrising.2⟩
  | takeNotification hmain hresp =>
    exact hs.goto (by simp [hmain]) (by simp [hmain]) (by simp) ⟨hresp, trivial⟩
  | @collect _ _ _ requests request hmain hheight hmain' =>
    rw [Due, hmain] at hdue
    obtain ⟨hresp, hrequests⟩ := hdue
    have hrising : Rising s.next ((requests ++ [request]).map BtpBlockRequest.height) := by
      rw [map_append, map_cons, map_nil, rising_snoc, length_map]
      exact ⟨hrequests, hheight⟩
    rcases hmain' with rfl | rfl
    all_goals exact hs.goto (by simp [hmain]) (by simp [hmain]) (by simp) ⟨hresp, hrising⟩
  | unexpected hmain => exact hs.goto (by simp [hmain]) (by simp [hmain]) (by simp) trivial
  | receive hmain =>
    rw [Due, hmain] at hdue
    exact hs.goto (by simp [hmain]) (by simp [hmain]) (by simp) hdue
  | @fetch requests answers brs _ hmain hfetch =>
    rw [Due, hmain] at hdue
    obtain ⟨hresp, hrequests⟩ := hdue
    obtain ⟨hle, hpairwise⟩ := hrequests.ascending
    have hsublist := handleBTPBlockRequests_heights hfetch
    refine hs.goto (by simp [hmain]) (by simp [hmain]) (by simp) fun _ => ?_
    rw [hresp, nil_append]
    refine forwarded_rising (fun d hd => hle _ (hsublist.subset ?_)) (hpairwise.sublist hsublist)
    exact mem_map_of_mem hd
  | forward hmain =>
    rw [Due, hmain] at hdue
    refine hs.goto (by simp [hmain]) (by simp [hmain]) (by simp) fun hstolen => ?_
    rw [append_assoc]
    exact hdue hstolen
  | forwarded hmain =>
    rw [Due, hmain] at hdue
    refine hs.goto (by simp [hmain]) (by simp [hmain]) (by simp) fun hstolen => ?_
    have hrising := hdue hstolen
    rwa [append_nil] at hrising
  | reject hmain => exact hs.goto (by simp [hmain]) (by simp [hmain]) (by simp) trivial
  | @deliver br vr main next _ _ hmain hvr hmain' =>
    rw [Due, hmain] at hdue
    obtain ⟨hheight, hresp⟩ := hdue
    have hreached := hs.reached (by simp [hmain])
    simp only [Core.reached, hmain, reduceCtorEq, if_false] at hreached
    refine ⟨?_, ?_, ?_⟩
    · rw [heights, map_append, map_cons, map_nil, rising_snoc, length_map]
      exact ⟨hs.delivered, hheight.trans hreached⟩
    · rcases hmain' with ⟨rfl, rfl⟩ | ⟨rfl, rfl⟩ | ⟨rfl, rfl⟩
      all_goals simp [Core.reached, hreached, add_assoc]
    · rcases hmain' with ⟨rfl, rfl⟩ | ⟨rfl, rfl⟩ | ⟨rfl, rfl⟩
      · trivial
      · exact hresp
      · trivial
  | take hmain hresp =>
    rw [Due, hmain] at hdue
    have hrising := hdue hunrobbed
    rw [hresp] at hrising
    refine ⟨hs.delivered, fun _ => ?_, hrising.1, fun _ => hrising.2⟩
    have hreached := hs.reached (by simp [hmain])
    simpa only [Core.reached, hmain, if_true, reduceCtorEq, if_false] using hreached
  | @drain _ _ _ d d' hmain hresp =>
    refine hs.goto (by simp [hmain]) (by simp [hmain]) (by simp) ?_
    cases d' with
    | lenNotif => exact hresp rfl
    | lenResp | select => trivial
  | drainResp hmain => exact hs.goto (by simp [hmain]) (by simp [hmain]) (by simp) trivial
  | drained hmain hmain' =>
    rw [Due, hmain] at hdue
    rcases hmain' with rfl | rfl
    · exact hs.goto (by simp [hmain]) (by simp [hmain]) (by simp) trivial
    · refine hs.goto (by simp [hmain]) (by simp [hmain]) (by simp) fun _ => ?_
      rw [hdue]
      trivial
  | cleared hmain hresp =>
    refine hs.goto (by simp [hmain]) (by simp [hmain]) (by simp) fun _ => ?_
    rw [hresp]
    trivial
  | clear hmain => exact hs.goto (by simp [hmain]) (by simp [hmain]) (by simp) trivial
  | remove hmain => exact hs.goto (by simp [hmain]) (by simp [hmain]) (by simp) trivial

end

theorem start_ordered : Ordered (int64 startHeight.toNat) (start startHeight vr).toCore :=
  ⟨trivial, fun _ => by simp [Core.reached, start], fun _ => trivial⟩

/-- The heights of the blocks that are delivered count up from the start height, in every
interleaving in which the main loop takes no response of a batch that a monitor goroutine
has taken one of. -/
theorem delivers_in_order (C : Codec) (logFilter : EventLogRawFilter) (concurrency : ℕ)
    (startHeight : UInt64) (vr : Option Verifier) (acts : List Act)
    (hunrobbed : Along (step C logFilter concurrency) (fun s => Unrobbed s.toCore)
      (start startHeight vr) acts) :
    let delivered := (run (step C logFilter concurrency) (start startHeight vr) acts).delivered
    delivered.map BtpBlockResponse.height =
      (List.range delivered.length).map fun i : ℕ => int64 startHeight.toNat + i := by
  have hordered := run_along (P := fun s : State => Ordered (int64 startHeight.toNat) s.toCore)
    (fun s act s' hs hact h => moves_ordered hs hact (step_moves h)) start_ordered hunrobbed
  have hrange := hordered.delivered.eq_range
  rwa [heights, length_map] at hrange

def sampleCodec : Codec where
  toGoloop := sample
  hexInt s := (["0x3", "0x4", "0x5", "0x6"].idxOf? s).map fun i => 3 + i
  hexBytes _ := some []
  sha3 _ := [9]
  decodeValidators data := some (data.map fun b => BitVec.ofNat 168 b.toNat)
  decodeResult result := some result
  decodeReceipt receipt := some receipt
  decodeEventLog el := some { addr := [1], indexed := [[2], [3], el], data := [el] }
  mptProve _ proof hash := if proof = [hash] then some hash else none
  uint64 bs := UInt64.ofNat (ofBytes bs)

def sampleFilter : EventLogRawFilter where
  addr := [1]
  signature := [2]
  next := [3]

def sampleNotification (height : HexInt) : BlockNotification where
  hash := ""
  height
  indexes := [["0x3"]]
  events := [[["0x3"]]]

def sampleAnswers (h : ℤ) (_ : ℕ) : Answers where
  header := some (sampleHeader h (UInt8.ofNat h.toNat))
  votes := some [UInt8.ofNat h.toNat, 1, 2, 3]
  data := some [1, 2, 3, 4]
  proofs _ := some [[[UInt8.ofNat h.toNat]], [[UInt8.ofNat h.toNat]]]

def fetching : List Act :=
  [.notify (sampleNotification "0x5"), .notify (sampleNotification "0x6"), .takeNotification, .collect,
   .receive, .collect, .fetch sampleAnswers]

/-- The first time, a monitor goroutine takes both responses. -/
def drainedOnce : List Act :=
  [.reconnect []] ++ fetching ++ [.forward, .forward, .forward, .monitorError] ++
    [.drain 0 true, .drain 0 true, .drain 0 true, .drain 0 true, .drain 0 true, .drain 0 true] ++
    [.reconnect []] ++ fetching ++ [.forward, .forward, .forward] ++
    [.takeResponse, .handle true, .take, .handle true, .clear]

theorem drainedOnce_in_order :
    (run (step sampleCodec sampleFilter 3) (start 5 (some sampleVerifier)) drainedOnce).delivered.map
      BtpBlockResponse.height = [5, 6] := by
  have hlength : (run (step sampleCodec sampleFilter 3) (start 5 (some sampleVerifier))
      drainedOnce).delivered.length = 2 := by decide +kernel
  have h := delivers_in_order sampleCodec sampleFilter 3 5 (some sampleVerifier) drainedOnce
    (by decide +kernel)
  simp only [hlength] at h
  exact h.trans (by decide +kernel)

/-- A monitor goroutine takes block 5 before block 6 is forwarded. -/
def robbed : List Act :=
  [.reconnect []] ++ fetching ++ [.forward, .monitorError, .drain 0 true, .drain 0 true] ++
    [.forward, .forward, .takeResponse, .handle true]

theorem robbed_skips :
    (run (step sampleCodec sampleFilter 3) (start 5 (some sampleVerifier)) robbed).delivered.map
      BtpBlockResponse.height = [6] := by
  decide +kernel

end IconBridge.Go.Icon
