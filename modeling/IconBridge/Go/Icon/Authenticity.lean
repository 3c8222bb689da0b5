import IconBridge.Lib.Path
import IconBridge.Go.Icon.Order

/-!
# What the ICON receiver authenticates

The receipts that are delivered were proved against a header that was accepted
with the votes of the validators in force, who are named by the header before
it, as long as headers have the heights they were requested for.
-/

namespace IconBridge.Go.Icon

open Lib Option List

variable {C : Codec} {logFilter : EventLogRawFilter} {concurrency : ℕ} {hash : Hash} {next : ℤ}

def ListOf (C : Codec) (hash : Hash) (validators : List Address) : Prop :=
  ∃ data, C.sha3 data = hash ∧ C.decodeValidators data = some validators

theorem getValidatorsByHash_ok (h : getValidatorsByHash C hash data = .ok validators) :
    ListOf C hash validators := by
  simp only [getValidatorsByHash, bind_ok, expect_ok, require_ok, decide_eq_true_eq] at h
  obtain ⟨data, -, _, rfl, hdecode⟩ := h
  exact ⟨data, rfl, hdecode⟩

def Genuine (C : Codec) (vr : Verifier) : Prop :=
  ∀ hash validators, vr.validators.lookup hash = some validators → ListOf C hash validators

def Knows (vr : Verifier) (hash : Hash) : Prop := (vr.validators.lookup hash).isSome

def Named (C : Codec) (vr : Verifier) (header : BlockHeader) (nextValidators : List Address) : Prop :=
  Knows vr header.nextValidatorsHash ∨ ListOf C header.nextValidatorsHash nextValidators

theorem lookup_update :
    (update vr header nextValidators).validators.lookup hash =
      if hash = header.nextValidatorsHash then
        some ((vr.validators.lookup hash).getD nextValidators)
      else vr.validators.lookup hash := by
  unfold update
  by_cases hknown : (vr.validators.lookup header.nextValidatorsHash).isSome
  · simp only [hknown, if_true]
    split
    · next heq =>
      obtain ⟨validators, hvalidators⟩ := isSome_iff_exists.1 hknown
      rw [heq, hvalidators, getD_some]
    · rfl
  · simp only [hknown, Bool.false_eq_true, if_false, lookup_cons]
    rw [Bool.not_eq_true, isSome_eq_false_iff, isNone_iff_eq_none] at hknown
    by_cases heq : hash = header.nextValidatorsHash
    · simp [heq, hknown]
    · have hbeq : (hash == header.nextValidatorsHash) = false := beq_eq_false_iff_ne.2 heq
      simp [heq, hbeq]

theorem Genuine.update (hvr : Genuine C vr) (hnamed : Named C vr header nextValidators) :
    Genuine C (update vr header nextValidators) := by
  intro hash validators hlookup
  rw [lookup_update] at hlookup
  split at hlookup
  · next heq =>
    cases hlookup
    cases hknown : vr.validators.lookup hash with
    | some validators => exact hvr hash validators hknown
    | none =>
      rcases hnamed with hknows | hlist
      · rw [Knows, ← heq, hknown] at hknows
        cases hknows
      · exact heq ▸ hlist
  · exact hvr hash validators hlookup

theorem Knows.update (h : Knows vr hash) : Knows (update vr header nextValidators) hash := by
  unfold Knows
  rw [lookup_update]
  split
  · rfl
  · exact h

theorem fetchVotes_named (h : fetchVotes C vr header a = .ok (votes, nextValidators)) :
    Named C vr header nextValidators := by
  simp only [fetchVotes, bind_ok, expect_ok] at h
  obtain ⟨_, -, h⟩ := h
  split at h
  · simp only [bind_ok, pure_ok, Prod.mk.injEq] at h
    obtain ⟨_, hvalidators, -, rfl⟩ := h
    exact .inr (getValidatorsByHash_ok hvalidators)
  · next hknown =>
    left
    unfold Knows
    unfold Verifier.known at hknown
    cases hlookup : vr.validators.lookup header.nextValidatorsHash with
    | some _ => rfl
    | none => simp [hlookup] at hknown

def Accepts (C : Codec) (vr : Verifier) (header : BlockHeader) (vr' : Verifier) : Prop :=
  ∃ votes nextValidators, verify C.toGoloop vr header votes = .ok () ∧
    Named C vr header nextValidators ∧ vr' = update vr header nextValidators

theorem Accepts.knows (h : Accepts C vr header vr') (hknows : Knows vr hash) : Knows vr' hash := by
  obtain ⟨_, _, -, -, rfl⟩ := h
  exact hknows.update

theorem path_knows (h : Path (Accepts C) vr headers vr') (hknows : Knows vr hash) : Knows vr' hash :=
  h.induct hknows fun _ _ _ hknows h => h.knows hknows

theorem path_genuine (h : Path (Accepts C) vr headers vr') (hvr : Genuine C vr) : Genuine C vr' := by
  refine h.induct hvr fun _ _ _ hvr h => ?_
  obtain ⟨_, _, -, hnamed, rfl⟩ := h
  exact hvr.update hnamed

theorem path_stands (h : Path (Accepts C) vr₀ headers vr) :
    headers = [] ∧ vr = vr₀ ∨ ∃ before previous, headers = before ++ [previous] ∧
      vr.next = previous.height + 1 ∧ vr.nextValidatorsHash = previous.nextValidatorsHash := by
  cases h with
  | nil => exact .inl ⟨rfl, rfl⟩
  | snoc _ hlink =>
    obtain ⟨_, _, -, -, rfl⟩ := hlink
    exact .inr ⟨_, _, rfl, rfl, rfl⟩

theorem Named.path (h : Named C vr header nextValidators) (hpath : Path (Accepts C) vr headers vr') :
    Named C vr' header nextValidators :=
  h.imp_left (path_knows hpath)

abbrev Synced.headers (s : Synced) : List BlockHeader := s.accepted.map VerifierBlockResponse.header

theorem newVerifier_ok (h : newVerifier C opts a = .ok vr) :
    Genuine C vr ∧ vr.next = int64 opts.blockHeight.toNat ∧
      vr.nextValidatorsHash = opts.validatorsHash := by
  simp only [newVerifier, bind_ok, pure_ok] at h
  obtain ⟨validators, hvalidators, _, -, _, -, _, -, hvr⟩ := h
  subst hvr
  refine ⟨fun hash validators' hlookup => ?_, by simp only, by simp only⟩
  simp only [lookup_cons, lookup_nil] at hlookup
  split at hlookup
  · next heq =>
    cases hlookup
    exact (beq_iff_eq.1 heq) ▸ getValidatorsByHash_ok hvalidators
  · cases hlookup

theorem mem_handleVerifierBlockRequests
    (h : r ∈ handleVerifierBlockRequests C concurrency vr answers) :
    Named C vr r.header r.nextValidators := by
  obtain ⟨i, -, hretried⟩ := mem_filterMap.1 h
  obtain ⟨k, -, hresponse⟩ := exists_of_findSome?_eq_some hretried
  simp only [handleVerifierBlockRequest, bind_eq_bind, bind_eq_some_iff] at hresponse
  obtain ⟨header, -, ⟨votes, nextValidators⟩, hvotes, heq⟩ := hresponse
  obtain rfl := Option.some.inj heq
  cases hfetch : fetchVotes C vr header (answers (vr.next + i) k) with
  | error => simp [hfetch, Except.toOption] at hvotes
  | ok x =>
    simp only [hfetch, Except.toOption, Option.some.injEq] at hvotes
    subst hvotes
    exact fetchVotes_named hfetch

theorem syncResponse_path (hs : Path (Accepts C) vr s.headers s.vr)
    (hnamed : Named C s.vr r.header r.nextValidators) (h : syncResponse C s r = .ok s') :
    Path (Accepts C) vr s'.headers s'.vr := by
  unfold syncResponse at h
  split at h
  · simp only [bind_ok, pure_ok] at h
    obtain ⟨_, hverify, rfl⟩ := h
    rw [Synced.headers, map_append]
    exact hs.snoc ⟨r.votes, r.nextValidators, hverify, hnamed, rfl⟩
  · obtain rfl := pure_ok.1 h
    exact hs

theorem syncRounds_path (hs : Path (Accepts C) vr s.headers s.vr)
    (h : syncRounds C concurrency height s rounds = .ok s') :
    Path (Accepts C) vr s'.headers s'.vr := by
  induction rounds generalizing s with
  | nil =>
    unfold syncRounds at h
    split at h
    · simp at h
    · obtain rfl := pure_ok.1 h
      exact hs
  | cons answers rounds ih =>
    unfold syncRounds at h
    split at h
    · simp only [bind_ok] at h
      obtain ⟨t, ht, h⟩ := h
      refine ih ?_ h
      -- what was known when the validators were fetched is known throughout the round
      have hround : Path (Accepts C) vr t.headers t.vr ∧ ∀ hash, Knows s.vr hash → Knows t.vr hash := by
        refine foldlM_ok
          (P := fun t => Path (Accepts C) vr t.headers t.vr ∧ ∀ hash, Knows s.vr hash → Knows t.vr hash)
          (fun t r t' hr ht h => ?_) ⟨hs, fun _ hknows => hknows⟩ ht
        obtain ⟨hpath, hknows⟩ := ht
        have hnamed : Named C t.vr r.header r.nextValidators :=
          (mem_handleVerifierBlockRequests hr).imp_left (hknows _)
        refine ⟨syncResponse_path hpath hnamed h, fun hash hhash => ?_⟩
        unfold syncResponse at h
        split at h
        · simp only [bind_ok, pure_ok] at h
          obtain ⟨_, -, rfl⟩ := h
          exact (hknows hash hhash).update
        · obtain rfl := pure_ok.1 h
          exact hknows hash hhash
      exact hround.1
    · obtain rfl := pure_ok.1 h
      exact hs

theorem syncVerifier_path (h : syncVerifier C concurrency vr height rounds = .ok synced) :
    Path (Accepts C) vr synced.headers synced.vr := by
  unfold syncVerifier at h
  split at h
  · simp at h
  · exact syncRounds_path .nil h

def Proved (C : Codec) (logFilter : EventLogRawFilter) (br : BtpBlockResponse) : Prop :=
  ∃ request proofs, request.height = br.height ∧
    proveReceipts C logFilter request br.header proofs = .ok br.receipts

structure Sound (C : Codec) (logFilter : EventLogRawFilter) (vr : Verifier) (br : BtpBlockResponse) :
    Prop where
  named : Named C vr br.header br.nextValidators
  proved : Proved C logFilter br

theorem handleBTPBlockRequest_sound
    (h : handleBTPBlockRequest C logFilter (some vr) request a = .ok br) : Sound C logFilter vr br := by
  simp only [handleBTPBlockRequest, bind_ok, pure_ok] at h
  obtain ⟨hash, -, header, -, ⟨votes, nextValidators⟩, hvotes, receipts, hreceipts, rfl⟩ := h
  exact ⟨fetchVotes_named hvotes, request, a.proofs, rfl, hreceipts⟩

theorem mem_forwarded (h : br ∈ forwarded height ds) : br ∈ ds := by
  induction ds generalizing height with
  | nil => cases h
  | cons d ds ih =>
    rw [forwarded] at h
    split at h
    · rcases mem_cons.1 h with rfl | h
      · exact mem_cons_self
      · exact mem_cons_of_mem _ (ih h)
    · exact mem_cons_of_mem _ (ih h)

theorem handleBTPBlockRequests_sound
    (h : handleBTPBlockRequests C logFilter (some vr) requests answers = .ok brs) :
    ∀ br ∈ brs, Sound C logFilter vr br := by
  obtain ⟨answered, -, hanswered⟩ := handleBTPBlockRequests_ok h
  clear h
  induction hanswered with
  | nil => simp
  | cons hbr _ ih =>
    obtain ⟨k, hbr⟩ := hbr
    exact forall_mem_cons.2 ⟨handleBTPBlockRequest_sound hbr, ih⟩

def Main.responses : Main → List BtpBlockResponse
  | .forwarding brs => brs
  | .handling br => [br]
  | .idle | .collecting _ _ | .receiving _ | .fetching _ | .taking | .draining _ _ | .clearing
  | .removing | .ended => []

/-- The header of a response was accepted with the votes for it, when the verifier stood
at its height. -/
structure Attested (C : Codec) (logFilter : EventLogRawFilter) (vr₀ : Verifier)
    (headers : List BlockHeader) (br : BtpBlockResponse) : Prop where
  proved : Proved C logFilter br
  height : br.header.height = br.height
  accepted : ∃ before after vr, headers = before ++ br.header :: after ∧
    Path (Accepts C) vr₀ before vr ∧ verify C.toGoloop vr br.header br.votes = .ok () ∧
    vr.next = br.height

structure Follows (C : Codec) (logFilter : EventLogRawFilter) (vr₀ : Verifier) (s : Core) : Prop where
  path : ∃ vr, s.vr = some vr ∧ Path (Accepts C) vr₀ s.accepted vr ∧
    ∀ br ∈ s.btpBlockRespCh ++ s.main.responses, Sound C logFilter vr br
  delivered : ∀ br ∈ s.delivered, Attested C logFilter vr₀ s.accepted br

def Main.handled : Main → Option BtpBlockResponse
  | .handling br => some br
  | _ => none

/-- A header that the main loop accepts has the height that was requested, and it is the
height at which the verifier stands. -/
def Expected (C : Codec) (s : Core) : Act → Prop
  | .handle _ =>
    ∀ br ∈ s.main.handled, ∀ vr ∈ s.vr, verify C.toGoloop vr br.header br.votes = .ok () →
      br.header.height = br.height ∧ vr.next = br.height
  | _ => True

instance : ∀ act, Decidable (Expected C s act)
  | .handle _ => inferInstanceAs (Decidable (∀ br ∈ s.main.handled, ∀ vr ∈ s.vr, _ → _ ∧ _))
  | .takeResponse | .take | .stop | .notify _ | .monitorError | .drain _ _ | .reconnect _
  | .takeNotification | .collect | .receive | .fetch _ | .forward | .drainMain _ | .clear =>
    .isTrue trivial

section

variable {s : Core} {vr₀ : Verifier}

theorem Attested.append (h : Attested C logFilter vr₀ headers br) :
    Attested C logFilter vr₀ (headers ++ new) br := by
  obtain ⟨before, after, vr, rfl, hrest⟩ := h.accepted
  exact ⟨h.proved, h.height, before, after ++ new, vr, by simp, hrest⟩

theorem Follows.keep (hs : Follows C logFilter vr₀ s)
    (hsub : ∀ br ∈ btpBlockRespCh ++ main.responses, br ∈ s.btpBlockRespCh ++ s.main.responses) :
    Follows C logFilter vr₀ { s with btpBlockRespCh, main, next, stolen } := by
  obtain ⟨vr, hvr, hpath, hsound⟩ := hs.path
  exact ⟨⟨vr, hvr, hpath, fun br hbr => hsound br (hsub br hbr)⟩, hs.delivered⟩

theorem Follows.deliver (hs : Follows C logFilter vr₀ s) (hmain : s.main = .handling br)
    (hexpected : Expected C s (.handle callback)) (hverified : verified C.toGoloop s.vr br = .ok vr')
    (hmain' : main.responses = []) :
    Follows C logFilter vr₀ { s with
      vr := vr'
      main
      next
      accepted := if vr'.isSome then s.accepted ++ [br.header] else s.accepted
      delivered := s.delivered ++ [br] } := by
  obtain ⟨vr, hvr, hpath, hsound⟩ := hs.path
  simp only [hvr, verified, bind_ok, pure_ok] at hverified
  obtain ⟨_, hverify, rfl⟩ := hverified
  obtain ⟨hheight, hnext⟩ := hexpected br (by simp [hmain, Main.handled]) vr hvr hverify
  have hbr : Sound C logFilter vr br := hsound br (by simp [hmain, Main.responses])
  have hlink : Accepts C vr br.header (update vr br.header br.nextValidators) :=
    ⟨br.votes, br.nextValidators, hverify, hbr.named, rfl⟩
  refine ⟨⟨_, rfl, hpath.snoc hlink, fun br' hbr' => ?_⟩, fun br' hbr' => ?_⟩
  · rw [hmain', append_nil] at hbr'
    have hsound' := hsound br' (mem_append_left _ hbr')
    exact ⟨hsound'.named.imp_left Knows.update, hsound'.proved⟩
  · rcases mem_append.1 hbr' with hbr' | hbr'
    · exact (hs.delivered br' hbr').append
    · obtain rfl := mem_singleton.1 hbr'
      exact ⟨hbr.proved, hheight, s.accepted, [], vr, rfl, hpath, hverify, hnext⟩

theorem moves_follows (hs : Follows C logFilter vr₀ s) (hexpected : Expected C s act)
    (h : Moves C logFilter concurrency s act s') : Follows C logFilter vr₀ s' := by
  cases h with
  | quiet => exact hs
  | sync hmain hvr hsync =>
    obtain ⟨vr, hvr', hpath, hsound⟩ := hs.path
    cases hvr.symm.trans hvr'
    have hsynced := syncVerifier_path hsync
    refine ⟨⟨_, rfl, hpath.append hsynced, fun br hbr => ?_⟩, fun br hbr => ?_⟩
    · exact ⟨(hsound br hbr).named.path hsynced, (hsound br hbr).proved⟩
    · exact (hs.delivered br hbr).append
  | fetch hmain hfetch =>
    obtain ⟨vr, hvr, hpath, hsound⟩ := hs.path
    rw [hvr] at hfetch
    refine ⟨⟨vr, hvr, hpath, fun br hbr => ?_⟩, hs.delivered⟩
    rcases mem_append.1 hbr with hbr | hbr
    · exact hsound br (mem_append_left _ hbr)
    · exact handleBTPBlockRequests_sound hfetch br (mem_forwarded hbr)
  | deliver hmain hverified hmain' =>
    refine hs.deliver hmain hexpected hverified ?_
    rcases hmain' with ⟨rfl, -⟩ | ⟨rfl, -⟩ | ⟨rfl, -⟩
    all_goals rfl
  | collect hmain hheight hmain' =>
    refine hs.keep fun br hbr => mem_append_left _ ?_
    rcases hmain' with rfl | rfl
    all_goals simpa [Main.responses] using hbr
  | drained hmain hmain' =>
    refine hs.keep fun br hbr => mem_append_left _ ?_
    rcases hmain' with rfl | rfl
    all_goals simpa [Main.responses] using hbr
  | takeResponse hmain hresp | take hmain hresp =>
    refine hs.keep fun br hbr => ?_
    rw [hresp]
    simp only [Main.responses, mem_append, mem_singleton] at hbr
    rcases hbr with hbr | rfl
    all_goals simp [*]
  | forward hmain =>
    refine hs.keep fun br hbr => ?_
    simpa [hmain, Main.responses] using hbr
  | steal hresp =>
    refine hs.keep fun br hbr => ?_
    rw [hresp, cons_append]
    exact mem_cons_of_mem _ hbr
  | drainResp _ hresp | remove _ hresp =>
    refine hs.keep fun br hbr => mem_append_left _ ?_
    rw [hresp]
    exact mem_cons_of_mem _ (by simpa [Main.responses] using hbr)
  | _ =>
    refine hs.keep fun br hbr => mem_append_left _ ?_
    simpa [Main.responses] using hbr

end

/-- The receipts that are delivered for a height were proved against a header of this height,
which was accepted with the votes of the validators that the header before it names, or the
trusted ones. -/
theorem delivers_attested (C : Codec) (logFilter : EventLogRawFilter) (concurrency : ℕ)
    (opts : VerifierOptions) (a : Answers) (vr₀ : Verifier) (hvr₀ : newVerifier C opts a = .ok vr₀)
    (startHeight : UInt64) (acts : List Act)
    (hexpected : Along (step C logFilter concurrency) (fun s => Expected C s.toCore)
      (start startHeight (some vr₀)) acts) :
    let s := run (step C logFilter concurrency) (start startHeight (some vr₀)) acts
    ∀ br ∈ s.delivered, br.header.height = br.height ∧ Proved C logFilter br ∧
      ∃ before after vr hash validators, s.accepted = before ++ br.header :: after ∧
        Path (Accepts C) vr₀ before vr ∧ ListOf C hash validators ∧
        requiredVotes validators ≤ (signers C.toGoloop validators br.header br.votes).card ∧
        (before = [] ∧ br.height = int64 opts.blockHeight.toNat ∧ hash = opts.validatorsHash ∨
          ∃ previous, before.getLast? = some previous ∧ previous.height = br.height - 1 ∧
            hash = previous.nextValidatorsHash) := by
  intro s br hbr
  obtain ⟨hgenuine, hnext₀, hhash₀⟩ := newVerifier_ok hvr₀
  have hstart : Follows C logFilter vr₀ (start startHeight (some vr₀)).toCore :=
    ⟨⟨vr₀, rfl, .nil, by simp [start, Main.responses]⟩, by simp [start]⟩
  have hfollows := run_along (P := fun s : State => Follows C logFilter vr₀ s.toCore)
    (fun s act s' hs hact h => moves_follows hs hact (step_moves h)) hstart hexpected
  have hattested := hfollows.delivered br hbr
  obtain ⟨before, after, vr, haccepted, hpath, hverify, hnext⟩ := hattested.accepted
  obtain ⟨validators, hlookup, hvotes⟩ := verify_iff.1 hverify
  refine ⟨hattested.height, hattested.proved, before, after, vr, vr.nextValidatorsHash, validators,
    haccepted, hpath, path_genuine hpath hgenuine _ _ hlookup, hvotes, ?_⟩
  rcases path_stands hpath with ⟨rfl, rfl⟩ | ⟨before', previous, rfl, hstands, hhash⟩
  · exact .inl ⟨rfl, hnext.symm.trans hnext₀, hhash₀⟩
  · refine .inr ⟨previous, getLast?_concat, ?_, hhash⟩
    omega

def sampleOptions : VerifierOptions where
  blockHeight := 5
  validatorsHash := [9]

theorem drainedOnce_attested :
    (run (step sampleCodec sampleFilter 3) (start 5 (some sampleVerifier)) drainedOnce).delivered.map
      (fun br => br.header.height) = [5, 6] := by
  have hheights : (run (step sampleCodec sampleFilter 3) (start 5 (some sampleVerifier))
      drainedOnce).delivered.map BtpBlockResponse.height = [5, 6] := by decide +kernel
  have h := delivers_attested sampleCodec sampleFilter 3 sampleOptions (sampleAnswers 5 0) sampleVerifier
    (by decide +kernel) 5 drainedOnce (by decide +kernel)
  rw [← hheights]
  exact map_congr_left fun br hbr => (h br hbr).1

/-- The node answers every request with the header of height 3 and its votes. -/
def outdated : List Act :=
  [.reconnect [], .notify (sampleNotification "0x5"), .takeNotification, .collect,
   .fetch fun _ => sampleAnswers 3, .forward, .forward, .takeResponse, .handle true]

/-- The receipts of height 3 are delivered for height 5. -/
theorem outdated_delivered :
    newVerifier sampleCodec sampleOptions (sampleAnswers 5 0) = .ok sampleVerifier ∧
    ∃ br ∈ (run (step sampleCodec sampleFilter 3) (start 5 (some sampleVerifier)) outdated).delivered,
      br.height = 5 ∧ br.header.height = 3 ∧ br.receipts ≠ [] := by
  decide +kernel

end IconBridge.Go.Icon
