import IconBridge.Lib.Path
import IconBridge.Lib.Runs
import IconBridge.Go.Near.Verifier

/-!
# The NEAR receiver

`SyncHeader` of `chain/near/verifier.go` and `ReceiveBlocks` of
`chain/near/receiver.go`. The streams are serialised by offset, so each of the
two loops sees one offset after another. The first one goes on after a header
that was not accepted, the second one does not.
-/

namespace IconBridge.Go.Near

open Lib

variable {R : Type}

inductive Phase
  | syncing
  | receiving
  | stopped
  deriving DecidableEq

structure State (R : Type) where
  v : Verifier
  phase : Phase
  /-- The offset that the stream of the phase comes to next. -/
  offset : ℤ
  /-- The notifications whose headers the verifier has moved to. -/
  followed : List (BlockNotification R)
  /-- The notifications whose receipts were processed. -/
  processed : List (BlockNotification R)

inductive Item (R : Type)
  /-- There is no block at this height. -/
  | unknown
  | block (header : Header) (receipts : List R) (getBlockProducers : Producers)
  | error

/-- The header has the hash that it has on top of the verifier's block. -/
def Verifier.extends (N : Crypto) (v : Verifier) (header : Header) : Bool :=
  computeHash N v.previousBlockHash header = some header.hash

/-- The end of `SyncHeader`, with an error or not: blocks are received from `height` on. -/
def State.receive (height : UInt64) (s : State R) : State R :=
  { s with phase := .receiving, offset := int64 height.toNat }

def State.validate (N : Crypto) (getBlockProducers : Producers) (s : State R)
    (bn : BlockNotification R) : State R :=
  { s with
    v := (validateHeader N getBlockProducers s.v bn).1
    offset := s.offset + 1
    followed := if s.v.extends N bn.block then s.followed ++ [bn] else s.followed }

/-- One item of the stream in `SyncHeader`. The target is the height below the first one that
is received. -/
def State.sync (N : Crypto) (height : UInt64) (s : State R) : Item R → State R
  | .error => s.receive height
  | .unknown => { s with offset := s.offset + 1 }
  | .block header _ getBlockProducers =>
    if header.hash = 0 then { s with offset := s.offset + 1 }
    else
      -- receipts are not fetched here
      let s := s.validate N getBlockProducers { offset := s.offset, block := header, receipts := [] }
      if int64 (height - 1).toNat ≤ header.height then s.receive height else s

/-- One item of the stream in `ReceiveBlocks`. -/
def State.processItem (N : Crypto) (s : State R) : Item R → State R
  | .error => { s with phase := .stopped }
  | .unknown => { s with offset := s.offset + 1 }
  | .block header receipts getBlockProducers =>
    if header.hash = 0 then { s with offset := s.offset + 1 }
    else
      let bn := { offset := s.offset, block := header, receipts }
      let t := s.validate N getBlockProducers bn
      match (validateHeader N getBlockProducers s.v bn).2 with
      | .ok () => { t with processed := t.processed ++ [bn] }
      | .error _ => { t with phase := .stopped }

def step (N : Crypto) (height : UInt64) (s : State R) (item : Item R) : Except Unit (State R) :=
  match s.phase with
  | .syncing => return s.sync N height item
  | .receiving => return s.processItem N item
  | .stopped => throw ()

def start (v : Verifier) : State R where
  v
  phase := .syncing
  offset := int64 v.blockHeight
  followed := []
  processed := []

def Accepts (N : Crypto) (v : Verifier) (bn : BlockNotification R) (v' : Verifier) : Prop :=
  ∃ getBlockProducers, validateHeader N getBlockProducers v bn = (v', .ok ())

def HashChain (N : Crypto) : CryptoHash → List (BlockNotification R) → Prop :=
  Chained (fun previousBlockHash bn => computeHash N previousBlockHash bn.block = some bn.block.hash)
    fun bn => bn.block.hash

variable {N : Crypto} {height : UInt64} {s s' : State R}

theorem switchEpoch_previousBlockHash (h : switchEpoch N getBlockProducers v block = .ok v') :
    v'.previousBlockHash = v.previousBlockHash := by
  unfold switchEpoch at h
  split at h
  · simp at h
  · split at h
    · simp only [bind_ok, pure_ok] at h
      obtain ⟨_, -, _, -, _, -, rfl⟩ := h
      rfl
    · obtain rfl := pure_ok.1 h
      rfl

theorem Accepts.hash {bn : BlockNotification R} (h : Accepts N v bn v') :
    computeHash N v.previousBlockHash bn.block = some bn.block.hash ∧
      v'.previousBlockHash = bn.block.hash := by
  obtain ⟨getBlockProducers, h⟩ := h
  obtain ⟨hhash, hswitch, -⟩ := validateHeader_ok (congrArg Prod.snd h)
  rw [h] at hswitch
  exact ⟨hhash, switchEpoch_previousBlockHash hswitch⟩

theorem path_hashChain {bns : List (BlockNotification R)} (h : Path (Accepts N) v bns v') :
    HashChain N v.previousBlockHash bns :=
  h.chained fun _ _ _ hlink => hlink.hash

theorem validateHeader_of_not_extends {bn : BlockNotification R} (h : v.extends N bn.block = false) :
    (validateHeader N getBlockProducers v bn).1 = v := by
  unfold validateHeader
  unfold Verifier.extends at h
  cases hhash : computeHash N v.previousBlockHash bn.block with
  | none => rfl
  | some currBlockHash =>
    have hne : currBlockHash ≠ bn.block.hash := by
      intro heq
      simp [hhash, heq] at h
    simp only [if_neg hne]

theorem extends_of_ok {bn : BlockNotification R}
    (h : (validateHeader N getBlockProducers v bn).2 = .ok u) : v.extends N bn.block = true := by
  obtain ⟨hhash, -, -⟩ := validateHeader_ok h
  simpa [Verifier.extends] using hhash

/-- While headers are synchronised, the verifier moves to no header that it does not accept. -/
def Faultless (N : Crypto) (s : State R) : Item R → Prop
  | .block header _ getBlockProducers => s.phase = .syncing → header.hash ≠ 0 →
      s.v.extends N header = true → (validateHeader N getBlockProducers s.v
        { offset := s.offset, block := header, receipts := ([] : List R) }).2 = .ok ()
  | _ => True

instance : ∀ item, Decidable (Faultless N s item)
  | .block _ _ _ => inferInstanceAs (Decidable (_ → _ → _ → _))
  | .unknown | .error => .isTrue trivial

/-- The verifier has come to where it is over headers that it has accepted, and so it had when a
block was processed. -/
structure Verified (N : Crypto) (v₀ : Verifier) (s : State R) : Prop where
  path : s.phase ≠ .stopped → Path (Accepts N) v₀ s.followed s.v
  processed : ∀ bn ∈ s.processed, ∃ before after v, s.followed = before ++ bn :: after ∧
    Path (Accepts N) v₀ (before ++ [bn]) v

theorem Verified.path_validate (hs : Verified N v₀ s) (hphase : s.phase ≠ .stopped)
    (getBlockProducers : Producers) (bn : BlockNotification R)
    (hok : s.v.extends N bn.block = true → (validateHeader N getBlockProducers s.v bn).2 = .ok ()) :
    Path (Accepts N) v₀ (s.validate N getBlockProducers bn).followed
      (s.validate N getBlockProducers bn).v := by
  unfold State.validate
  cases hextends : s.v.extends N bn.block with
  | true => exact (hs.path hphase).snoc ⟨getBlockProducers, Prod.ext rfl (hok hextends)⟩
  | false =>
    simp only [Bool.false_eq_true, if_false, validateHeader_of_not_extends hextends]
    exact hs.path hphase

theorem Verified.processed_validate (hs : Verified N v₀ s) (getBlockProducers : Producers)
    (bn : BlockNotification R) :
    ∀ b ∈ s.processed, ∃ before after v,
      (s.validate N getBlockProducers bn).followed = before ++ b :: after ∧
      Path (Accepts N) v₀ (before ++ [b]) v := by
  intro b hb
  obtain ⟨before, after, v, hfollowed, hpath⟩ := hs.processed b hb
  unfold State.validate
  cases hextends : s.v.extends N bn.block with
  | true => exact ⟨before, after ++ [bn], v, by simp [hfollowed], hpath⟩
  | false => exact ⟨before, after, v, hfollowed, hpath⟩

theorem sync_verified (hs : Verified N v₀ s) (hphase : s.phase = .syncing)
    (hfaultless : Faultless N s item) : Verified N v₀ (s.sync N height item) := by
  have hne : s.phase ≠ .stopped := by simp [hphase]
  cases item with
  | error => exact ⟨fun _ => hs.path hne, hs.processed⟩
  | unknown => exact ⟨fun _ => hs.path hne, hs.processed⟩
  | block header receipts getBlockProducers =>
    simp only [State.sync]
    split
    · exact ⟨fun _ => hs.path hne, hs.processed⟩
    · next hhash =>
      have hpath := hs.path_validate hne getBlockProducers
        { offset := s.offset, block := header, receipts := [] } (hfaultless hphase hhash)
      split
      all_goals exact ⟨fun _ => hpath, hs.processed_validate getBlockProducers _⟩

theorem processItem_verified (hs : Verified N v₀ s) (hphase : s.phase = .receiving) :
    Verified N v₀ (s.processItem N item) := by
  have hne : s.phase ≠ .stopped := by simp [hphase]
  cases item with
  | error => exact ⟨fun h => absurd rfl h, hs.processed⟩
  | unknown => exact ⟨fun _ => hs.path hne, hs.processed⟩
  | block header receipts getBlockProducers =>
    simp only [State.processItem]
    split
    · exact ⟨fun _ => hs.path hne, hs.processed⟩
    · split
      · next hok =>
        have hpath := hs.path_validate hne _ _ fun _ => hok
        refine ⟨fun _ => hpath, fun b hb => ?_⟩
        rcases List.mem_append.1 hb with hb | hb
        · exact hs.processed_validate getBlockProducers _ b hb
        · obtain rfl := List.mem_singleton.1 hb
          have hextends := extends_of_ok hok
          simp only [State.validate, hextends, if_true] at hpath ⊢
          exact ⟨s.followed, [], _, rfl, hpath⟩
      · exact ⟨fun h => absurd rfl h, hs.processed_validate getBlockProducers _⟩

theorem step_verified (hs : Verified N v₀ s) (hfaultless : Faultless N s item)
    (h : step N height s item = .ok s') : Verified N v₀ s' := by
  unfold step at h
  split at h
  · next hphase =>
    obtain rfl := pure_ok.1 h
    exact sync_verified hs hphase hfaultless
  · next hphase =>
    obtain rfl := pure_ok.1 h
    exact processItem_verified hs hphase
  · simp at h

/-- Every block whose receipts are processed is the last one of a chain of headers that starts
at the configured block. All of them were accepted, and every hash is computed over the one before
it. -/
theorem processes_verified_chain {R : Type} (N : Crypto) (getBlockProducers : Producers)
    (c : VerifierConfig) (v : Verifier) (hv : newVerifier N getBlockProducers c = .ok v)
    (height : UInt64) (items : List (Item R))
    (hfaultless : Along (step N height) (Faultless N) (start v) items) :
    let s := run (step N height) (start v) items
    ∀ bn ∈ s.processed, ∃ before after w, s.followed = before ++ bn :: after ∧
      HashChain N c.previousBlockHash (before ++ [bn]) ∧ Path (Accepts N) v (before ++ [bn]) w := by
  intro s bn hbn
  have hstart : Verified N v (start v : State R) := ⟨fun _ => .nil, by simp [start]⟩
  have hverified := run_along (fun s item s' hs ha h => step_verified hs ha h) hstart hfaultless
  obtain ⟨before, after, w, hfollowed, hpath⟩ := hverified.processed bn hbn
  have htrusted : v.previousBlockHash = c.previousBlockHash := by
    simp only [newVerifier, bind_ok, pure_ok] at hv
    obtain ⟨_, -, _, -, _, -, rfl⟩ := hv
    rfl
  exact ⟨before, after, w, hfollowed, htrusted ▸ path_hashChain hpath, hpath⟩

def sampleItem (height : ℤ) (hash : CryptoHash) (approvals : List (Option Signature)) : Item ℕ :=
  .block (sampleHeader height hash approvals) [7] fun _ => none

def approved : List (Item ℕ) :=
  [sampleItem 5 21 [none, some [2], some [3], some [4]],
   sampleItem 6 342 [none, some [2], some [3], some [4]]]

theorem approved_chain :
    ∃ before after : List (BlockNotification ℕ), ∃ w,
      (run (step sample 6) (start sampleVerifier) approved).followed =
        before ++ { offset := 6, block := sampleHeader 6 342 [none, some [2], some [3], some [4]],
                    receipts := [7] } :: after ∧
      HashChain sample 1 (before ++ [{
        offset := 6, block := sampleHeader 6 342 [none, some [2], some [3], some [4]],
        receipts := [7] }]) ∧
      Path (Accepts sample) sampleVerifier (before ++ [{
        offset := 6, block := sampleHeader 6 342 [none, some [2], some [3], some [4]],
        receipts := [7] }]) w :=
  processes_verified_chain sample (fun _ => some sampleProducers) sampleConfig sampleVerifier
    (by decide +kernel) 6 approved (by decide +kernel) _ (by decide +kernel)

def unapproved : List (Item ℕ) :=
  [sampleItem 5 21 [none, none, none, none],
   sampleItem 6 342 [none, some [2], some [3], some [4]]]

/-- Block 6 is processed, on top of a block that was not accepted. -/
theorem unapproved_predecessor :
    newVerifier sample (fun _ => some sampleProducers) sampleConfig = .ok sampleVerifier ∧
    (run (step sample 6) (start sampleVerifier) unapproved).processed.map (fun bn => bn.block.hash) =
      [342] ∧
    (run (step sample 6) (start sampleVerifier) unapproved).followed.map (fun bn => bn.block.hash) =
      [21, 342] ∧
    (validateHeader sample (fun _ => none) sampleVerifier
      { offset := 5, block := sampleHeader 5 21 [none, none, none, none], receipts := [7] }).2 =
      .error (.belowThreshold 0 20) := by
  decide +kernel

end IconBridge.Go.Near
