import Mathlib.Data.List.Dedup
import IconBridge.Java.BTS.Limits
import IconBridge.Java.BTS.Solvency
import IconBridge.Java.BTS.Traffic

/-!
# Who has answered a change of limits

A call of `setTokenLimit` is recorded with the networks of the links. A network
that answers is taken out of the record, and the record goes with the last one.
The array of networks gets shorter by one with each answer, so this works as
long as the links are of different networks.
-/

namespace IconBridge.Java.BTS

open Lib Function List

variable {d : Deployment} {s s' : St}

theorem removeFromArray_distinct {nets : List String} (hnodup : nets.Nodup) (net : String) :
    removeFromArray (nets.map some) net = .ok ((nets.filter (· ≠ net)).map some) := by
  have hrest : (nets.map some).filter (· ≠ some net) = (nets.filter (· ≠ net)).map some := by
    rw [filter_map]
    congr 2
    funext n
    simp
  have hnull : none ∉ nets.map some := by simp
  unfold removeFromArray
  by_cases hmem : net ∈ nets
  · have hlength : (nets.filter (· ≠ net)).length = nets.length - 1 := by
      rw [← length_erase_of_mem hmem, hnodup.erase_eq_filter]
      refine congrArg List.length (filter_congr fun n _ => ?_)
      rw [Bool.eq_iff_iff, decide_eq_true_iff, bne_iff_ne]
    rw [if_pos (mem_map_of_mem hmem), if_neg hnull]
    simp only [hrest, length_map, hlength, Nat.sub_self, replicate_zero, append_nil]
  · have hfilter : nets.filter (· ≠ net) = nets :=
      filter_eq_self.2 fun n hn => decide_eq_true fun heq => hmem (heq ▸ hn)
    rw [if_neg (by simpa using hmem), hfilter]

theorem length_removeFromArray (h : removeFromArray arr net = .ok arr') :
    arr.length ≤ arr'.length + 1 := by
  unfold removeFromArray at h
  split at h
  · split at h
    · contradiction
    · cases h
      rw [length_append, length_replicate]
      omega
  · cases h
    exact Nat.le_succ _

theorem handleChangeTokenLimit_succeeds
    (h : ∀ t, s.tokenLimitTxn sn = some t → ∃ nets, removeFromArray t.net net = .ok nets) :
    ∃ s', handleChangeTokenLimit s net sn { code := rcOk, message } = .ok s' := by
  unfold handleChangeTokenLimit
  cases hrecord : s.tokenLimitTxn sn with
  | none => exact ⟨s, rfl⟩
  | some t =>
    obtain ⟨nets, hnets⟩ := h t hrecord
    simp only [hnets, decide_true, require_true, ok_bind]
    exact ⟨_, rfl⟩

def answer (d : Deployment) (sn : ℤ) (r : Receivers) (net : String) (message : Option String) : Tx :=
  .handleBTPMessage r d.bmc net "bts" sn
    (some ⟨.changeTokenLimit, .response { code := rcOk, message }⟩)

def answerFrom? (d : Deployment) (sn : ℤ) : Tx → Option String
  | .handleBTPMessage _ caller net svc sn' (some ⟨.changeTokenLimit, .response response⟩) =>
    if caller = d.bmc ∧ svc = "bts" ∧ sn' = sn ∧ response.code = rcOk then some net else none
  | _ => none

theorem answerFrom?_answer : answerFrom? d sn (answer d sn r net message) = some net := by
  simp [answerFrom?, answer]

theorem answerFrom?_eq_some (h : answerFrom? d sn tx = some net) :
    ∃ r message, tx = answer d sn r net message := by
  unfold answerFrom? at h
  split at h
  · next r caller net' svc sn' response =>
    split at h
    · next hanswer =>
      obtain ⟨rfl, rfl, rfl, hcode⟩ := hanswer
      cases h
      refine ⟨r, response.message, ?_⟩
      rw [answer, ← hcode]
    · contradiction
  · contradiction

theorem step_answer : step d s (answer d sn r net message) =
    handleChangeTokenLimit s net sn { code := rcOk, message } := by
  simp [step, answer, handleBTPMessage]

def answerers (d : Deployment) (sn : ℤ) (txs : List Tx) : List String :=
  txs.filterMap (answerFrom? d sn)

def OtherCoins (coins : List String) (s : St) (sn : ℤ) : Prop :=
  ∀ t, s.tokenLimitTxn sn = some t → ∀ c ∈ t.coinName, c ∉ coins

def LeavesLimits (coins : List String) (s : St) : Tx → Prop
  | .setTokenLimit _ coinNames _ => ∀ c ∈ coinNames, c ∉ coins
  | .handleBTPMessage _ _ _ _ sn (some ⟨.changeTokenLimit, _⟩) => OtherCoins coins s sn
  | .handleBTPError _ _ _ sn _ _ => OtherCoins coins s sn
  | _ => True

/-- A network consents to the call, or something else happens. -/
def Awaits (d : Deployment) (sn : ℤ) (coins : List String) (s : St) (tx : Tx) : Prop :=
  (answerFrom? d sn tx).isSome ∨ LeavesLimits coins s tx

structure Tracks (sn : ℤ) (coins : List String) (limits : List ℤ) (nets : List String)
    (ns : List String) (s : St) : Prop where
  named : coins ≠ []
  serial : sn ≤ s.sn
  record : s.tokenLimitTxn sn =
    if nets.filter (· ∉ ns) = [] then none
    else some { coinName := coins, tokenLimit := limits, net := (nets.filter (· ∉ ns)).map some }
  status : ∀ n ∈ nets, ∀ c ∈ coins, s.tokenLimitStatus n c = decide (n ∈ ns)

section

variable {coins nets ns : List String} {limits : List ℤ} {sn : ℤ}

theorem Tracks.done_iff (hs : Tracks sn coins limits nets ns s) :
    s.tokenLimitTxn sn = none ↔ ∀ n ∈ nets, n ∈ ns := by
  rw [hs.record]
  split
  · next hempty => simpa [filter_eq_nil_iff] using hempty
  · next hopen => simpa [filter_eq_nil_iff] using hopen

theorem filter_answer (net : String) :
    (nets.filter (· ∉ ns)).filter (· ≠ net) = nets.filter (· ∉ ns ++ [net]) := by
  rw [filter_filter]
  refine filter_congr fun n _ => ?_
  simp [Bool.and_comm, not_or]

theorem Tracks.succeeds (hs : Tracks sn coins limits nets ns s) (hnodup : nets.Nodup)
    (r : Receivers) (net : String) (message : Option String) :
    ∃ s', step d s (answer d sn r net message) = .ok s' := by
  rw [step_answer]
  refine handleChangeTokenLimit_succeeds fun t ht => ?_
  rw [hs.record] at ht
  split at ht
  · contradiction
  · cases ht
    exact ⟨_, removeFromArray_distinct (hnodup.filter _) net⟩

theorem Tracks.acks (hs : Tracks sn coins limits nets ns s) (hnodup : nets.Nodup)
    (h : Acks net sn response s s') : Tracks sn coins limits nets (ns ++ [net]) s' := by
  cases h with
  | closed hrecord h =>
    subst h
    have hall : ∀ n ∈ nets, n ∈ ns := hs.done_iff.1 hrecord
    refine ⟨hs.named, hs.serial, ?_, fun n hn c hc => ?_⟩
    · rw [hrecord, if_pos]
      simpa [filter_eq_nil_iff] using fun n hn hnot => absurd (hall n hn) hnot
    · rw [hs.status n hn c hc]
      simp [hall n hn]
  | opened t arr _ hrecord hnets hstatus h =>
    subst h
    rw [hs.record] at hrecord
    split at hrecord
    · contradiction
    · cases hrecord
      rw [removeFromArray_distinct (hnodup.filter _), filter_answer] at hnets
      cases hnets
      refine ⟨hs.named, hs.serial, ?_, fun n hn c hc => ?_⟩
      · simp only [update_self, map_eq_nil_iff]
      · refine (hstatus n c).trans ?_
        rw [hs.status n hn c hc]
        by_cases hnet : n = net <;> simp [hnet, hc]

theorem Tracks.closed_of_elsewhere (hs : Tracks sn coins limits nets ns s)
    (h : OtherCoins coins s sn) : s.tokenLimitTxn sn = none := by
  rw [hs.record]
  split
  · rfl
  · next hopen =>
    have hrecord := hs.record
    rw [if_neg hopen] at hrecord
    obtain ⟨c, hc⟩ := exists_mem_of_ne_nil _ hs.named
    exact absurd hc (h _ hrecord c hc)

theorem Tracks.congr (hs : Tracks sn coins limits nets ns s) (hserial : sn ≤ s'.sn)
    (hrecord : s'.tokenLimitTxn sn = s.tokenLimitTxn sn)
    (hstatus : ∀ n, ∀ c ∈ coins, s'.tokenLimitStatus n c = s.tokenLimitStatus n c) :
    Tracks sn coins limits nets ns s' :=
  ⟨hs.named, hserial, hrecord.trans hs.record, fun n hn c hc =>
    (hstatus n c hc).trans (hs.status n hn c hc)⟩

theorem Tracks.leaves (hs : Tracks sn coins limits nets ns s) (htx : LeavesLimits coins s tx)
    (h : step d s tx = .ok s') : Tracks sn coins limits nets ns s' := by
  have hserial : sn ≤ s'.sn := hs.serial.trans (step_transactions h).1
  cases step_amends h with
  | keeps _ _ hterms =>
    simp only [terms, Prod.mk.injEq] at hterms
    obtain ⟨-, -, htxn, hstatus⟩ := hterms
    exact hs.congr hserial (by rw [htxn]) fun n c _ => by rw [hstatus]
  | prices _ _ _ _ _ _ hterms =>
    simp only [terms, Prod.mk.injEq] at hterms
    obtain ⟨-, -, htxn, hstatus⟩ := hterms
    exact hs.congr hserial (by rw [htxn]) fun n c _ => by rw [hstatus]
  | limits _ _ _ _ _ hsets =>
    refine hs.congr hserial ?_ fun n c hc => hsets.others n c fun hmem => htx c hmem hc
    obtain ⟨_, _, rfl⟩ := hsets.writes
    exact update_of_ne (Int.lt_add_one_of_le hs.serial).ne ..
  | answered _ _ net _ sn' _ _ hacks =>
    have helsewhere : OtherCoins coins s sn' := htx
    cases hacks with
    | closed _ heq => exact heq ▸ hs
    | opened t arr _ hrecord _ hstatus h =>
      subst h
      refine hs.congr hserial ?_ fun n c hc => ?_
      · refine update_of_ne ?_ ..
        rintro rfl
        rw [hs.closed_of_elsewhere helsewhere] at hrecord
        contradiction
      · exact (hstatus n c).trans (if_neg fun hboth => helsewhere t hrecord c hboth.2 hc)
  | failed _ _ src sn' _ _ t _ hrecord hstatus =>
    have helsewhere : OtherCoins coins s sn' := htx
    refine hs.congr hserial rfl fun n c hc => ?_
    exact (hstatus n c).trans (if_neg fun hboth => helsewhere t hrecord c hboth.2 hc)

theorem Tracks.run (hs : Tracks sn coins limits nets ns s) (hnodup : nets.Nodup) {txs : List Tx}
    (htxs : Along (step d) (Awaits d sn coins) s txs) :
    Tracks sn coins limits nets (ns ++ answerers d sn txs) (run (step d) s txs) := by
  induction txs generalizing s ns with
  | nil => simpa [answerers] using hs
  | cons tx txs ih =>
    obtain ⟨htx, htxs⟩ := htxs
    cases hanswer : answerFrom? d sn tx with
    | some net =>
      have hnext : Tracks sn coins limits nets (ns ++ [net]) (exec (step d) s tx) := by
        obtain ⟨r, message, rfl⟩ := answerFrom?_eq_some hanswer
        obtain ⟨s', hs'⟩ := hs.succeeds hnodup r net message
        rw [exec, hs']
        rw [step_answer] at hs'
        exact hs.acks hnodup (handleChangeTokenLimit_acks hs')
      have hall := ih hnext htxs
      rwa [append_assoc, singleton_append, answerers,
        ← filterMap_cons_some hanswer] at hall
    | none =>
      have hleaves : LeavesLimits coins s tx := by
        refine htx.resolve_left fun hsome => ?_
        rw [hanswer] at hsome
        contradiction
      have hnext : Tracks sn coins limits nets ns (exec (step d) s tx) :=
        exec_induct (fun s' => hs.leaves hleaves) hs
      have hall := ih hnext htxs
      rwa [answerers, ← filterMap_cons_none hanswer] at hall

theorem Sets.tracks (h : Sets d coins limits nets s s') (hnets : nets ≠ []) :
    Tracks s'.sn coins limits nets [] s' := by
  refine ⟨h.coins, le_rfl, ?_, fun n hn c hc => h.told n hn c hc⟩
  obtain ⟨_, _, rfl⟩ := h.writes
  simp [hnets]

theorem exec_answer_length {t : TokenLimitTransaction} (r : Receivers) (net : String)
    (message : Option String) (ht : s.tokenLimitTxn sn = some t) (hlength : k + 1 < t.net.length) :
    ∃ t', (exec (step d) s (answer d sn r net message)).tokenLimitTxn sn = some t' ∧
      k < t'.net.length := by
  refine exec_induct (P := fun s' : St => ∃ t', s'.tokenLimitTxn sn = some t' ∧ k < t'.net.length)
    (fun s' hs' => ?_) ⟨t, ht, by omega⟩
  rw [step_answer] at hs'
  cases handleChangeTokenLimit_acks hs' with
  | closed hrecord =>
    rw [ht] at hrecord
    contradiction
  | opened t' arr _ hrecord hnets _ h =>
    rw [ht, Option.some.injEq] at hrecord
    subst hrecord
    have hshort := length_removeFromArray hnets
    have hleft : arr ≠ [] := by
      rintro rfl
      simp only [length_nil] at hshort
      omega
    refine ⟨{ t with net := arr }, ?_, ?_⟩
    · simp only [h, update_self, if_neg hleft]
    · show k < arr.length
      omega

theorem run_answers_open {t : TokenLimitTransaction} (r : Receivers) (ns : List String)
    (ht : s.tokenLimitTxn sn = some t) (hlength : ns.length < t.net.length) :
    (run (step d) s (ns.map fun n => answer d sn r n none)).tokenLimitTxn sn ≠ none := by
  induction ns generalizing s t with
  | nil =>
    intro hnone
    rw [map_nil, run_nil, ht] at hnone
    contradiction
  | cons n ns ih =>
    obtain ⟨t', ht', hlength'⟩ := exec_answer_length r n none ht hlength
    exact ih ht' hlength'

theorem answerers_answers (r : Receivers) (ns : List String) :
    answerers d sn (ns.map fun n => answer d sn r n none) = ns := by
  rw [answerers, filterMap_map]
  refine (filterMap_congr fun n _ => ?_).trans filterMap_some
  exact answerFrom?_answer

/-- Whatever happens after the call of number `sn` about these coins to these
networks, answers are handled, the record is gone once every network has
answered, and the status tells who has. -/
def TracksAnswers (d : Deployment) (sn : ℤ) (coins nets : List String) (s : St) : Prop :=
  ∀ txs, Along (step d) (Awaits d sn coins) s txs →
    let t := run (step d) s txs
    (∀ r net message, ∃ t', step d t (answer d sn r net message) = .ok t') ∧
    (t.tokenLimitTxn sn = none ↔ ∀ n ∈ nets, n ∈ answerers d sn txs) ∧
    ∀ n ∈ nets, ∀ c ∈ coins, (t.tokenLimitStatus n c = true ↔ n ∈ answerers d sn txs)

/-- The answers to a call are tracked if and only if it has a network, and no
two links are of one network. -/
theorem setTokenLimit_tracks_iff (d : Deployment) (s s' : St) (sender : Address)
    (coins : List String) (limits : List ℤ) (nets : List String) (hnets : linkNets d s = .ok nets)
    (h : setTokenLimit d s sender coins limits = .ok s') :
    TracksAnswers d s'.sn coins nets s' ↔ nets.Nodup ∧ nets ≠ [] := by
  obtain ⟨nets', hsets⟩ := setTokenLimit_sets h
  obtain rfl : nets' = nets := Except.ok.inj (hsets.links.symm.trans hnets)
  have hrecord : s'.tokenLimitTxn s'.sn =
      some { coinName := coins, tokenLimit := limits, net := nets'.map some } := by
    obtain ⟨_, _, rfl⟩ := hsets.writes
    exact update_self ..
  constructor
  · intro htracks
    constructor
    · -- every network answers once
      by_contra hrepeated
      have hlength : nets'.dedup.length < nets'.length := by
        refine lt_of_le_of_ne (dedup_sublist nets').length_le fun heq => hrepeated ?_
        exact dedup_eq_self.1 ((dedup_sublist nets').eq_of_length heq)
      let r : Receivers := ⟨fun _ _ _ => true, fun _ _ => true⟩
      let txs := nets'.dedup.map fun n => answer d s'.sn r n none
      have htxs : Along (step d) (Awaits d s'.sn coins) s' txs := by
        refine along_of_forall fun tx htx _ => .inl ?_
        obtain ⟨n, -, rfl⟩ := mem_map.1 htx
        rw [answerFrom?_answer, Option.isSome_some]
      obtain ⟨-, hdone, -⟩ := htracks txs htxs
      refine run_answers_open r nets'.dedup hrecord (by rwa [length_map]) (hdone.2 ?_)
      rw [answerers_answers]
      exact fun n => mem_dedup.2
    · rintro rfl
      obtain ⟨-, hdone, -⟩ := htracks [] trivial
      have hgone := hdone.2 (by simp)
      rw [run_nil, hrecord] at hgone
      contradiction
  · rintro ⟨hnodup, hne⟩ txs htxs
    have htracked := (hsets.tracks hne).run hnodup htxs
    rw [nil_append] at htracked
    refine ⟨htracked.succeeds hnodup, htracked.done_iff, fun n hn c hc => ?_⟩
    rw [htracked.status n hn c hc, decide_eq_true_iff]

end

def linked : Deployment :=
  { sample with valueOf := fun link => .ok { protocol := "btp", net := link, contract := "0x05" } }

def linkedTo (nets : List String) : St :=
  run (step linked) (initialState linked 0 0 (fun _ => 0) (fun _ => none) fun _ => {})
    [.network nets fun _ => true]

theorem distinct_networks_tracked :
    ∃ s', setTokenLimit linked (linkedTo ["0x38.bsc", "0x2.near"]) ⟨false, 4⟩ ["TKN"] [100] = .ok s' ∧
      TracksAnswers linked s'.sn ["TKN"] ["0x38.bsc", "0x2.near"] s' := by
  obtain ⟨s', hs'⟩ := toBool_ok.1 (show (setTokenLimit linked (linkedTo ["0x38.bsc", "0x2.near"])
    ⟨false, 4⟩ ["TKN"] [100]).toBool = true by decide +kernel)
  refine ⟨s', hs', (setTokenLimit_tracks_iff linked _ s' ⟨false, 4⟩ ["TKN"] [100]
    ["0x38.bsc", "0x2.near"] rfl hs').2 ?_⟩
  decide

def afterAnswers (links answers : List String) : St :=
  run (step linked) (linkedTo links)
    (.setTokenLimit ⟨false, 4⟩ ["TKN"] [100] ::
      answers.map fun n => answer linked 1 ⟨fun _ _ _ => true, fun _ _ => true⟩ n none)

/-- Two links of one network: its answer leaves a `null` in the record, which
stays, and the answer of another network fails. -/
theorem shared_network_not_tracked :
    (afterAnswers ["0x38.bsc", "0x38.bsc"] ["0x38.bsc"]).tokenLimitTxn 1 =
        some { coinName := ["TKN"], tokenLimit := [100], net := [none] } ∧
      (step linked (afterAnswers ["0x38.bsc", "0x38.bsc", "0x2.near"] ["0x38.bsc"])
        (answer linked 1 ⟨fun _ _ _ => true, fun _ _ => true⟩ "0x2.near" none)).isOk = false := by
  decide +kernel

end IconBridge.Java.BTS
