import IconBridge.Lib.Path
import IconBridge.Go.Bsc.Receiver

/-!
# The chain that the BSC receiver follows

The headers that the verifier is updated with form a chain, and the validators
it accepts seals of are those that the chain puts in force.
-/

namespace IconBridge.Go.Bsc

open Lib List

variable {R : Type} {E : Ethereum R} {vr vr' vr₀ : Verifier} {header nextHeader : Header}
  {hs : List Header}

structure Links (E : Ethereum R) (vr : Verifier) (header : Header) (vr' : Verifier) : Prop where
  number : vr.next = header.number
  parentHash : header.parentHash = vr.parentHash
  sealed : ∃ nextHeader, Sealed E vr header nextHeader
  updates : Updates E vr header vr'

theorem links_of_ok (hverify : verify E vr header nextHeader receipts = .ok u)
    (hupdate : update E vr header = .ok vr') : Links E vr header vr' := by
  obtain ⟨hnumber, hparent, hsealed, -⟩ := verify_ok hverify
  exact ⟨hnumber, hparent, ⟨nextHeader, hsealed⟩, update_ok hupdate⟩

theorem numbers (h : Path (Links E) vr₀ hs vr) (hn : vr₀.next = (n : ℕ)) :
    hs.map Header.number = List.range' n hs.length ∧ vr.next = n + hs.length := by
  induction h with
  | nil => exact ⟨rfl, by simpa using hn⟩
  | @snoc hs vr header vr' _ hlink ih =>
    obtain ⟨hnumbers, hnext⟩ := ih
    have hnumber : header.number = n + hs.length := by
      have hlinked := hlink.number
      omega
    refine ⟨?_, ?_⟩
    · rw [map_append, hnumbers, length_append, length_singleton, range'_concat,
        one_mul]
      exact congrArg _ (congrArg (fun k => [k]) hnumber)
    · rw [hlink.updates.next, hnumber, length_append, length_singleton]
      push_cast
      ring

theorem linked (h : Path (Links E) vr₀ hs vr) :
    Linked Header.parentHash E.hash vr₀.parentHash hs :=
  h.chained fun _ _ _ hlink => ⟨hlink.parentHash, hlink.updates.parentHash⟩

/-- The sets of validators and the heights from which on they are in force, newest
first. The set that an epoch block lists replaces the one before, `P`, from
`|P| / 2` blocks behind the next block on. -/
def rotate (sets : List (ℕ × Finset Address)) (header : Header) : List (ℕ × Finset Address) :=
  match sets with
  | [] => []
  | (since, current) :: sets =>
    match header.isEpoch, getValidatorMapFromHex header.extra with
    | true, .ok new => (header.number + 1 + current.card / 2, new) :: (since, current) :: sets
    | _, _ => (since, current) :: sets

def rotations (initial : Finset Address) (hs : List Header) : List (ℕ × Finset Address) :=
  hs.foldl rotate [(0, initial)]

def inForce (initial : Finset Address) (hs : List Header) (height : ℕ) : Finset Address :=
  (((rotations initial hs).find? fun x => x.1 ≤ height).map Prod.snd).getD initial

theorem rotations_concat : rotations initial (hs ++ [header]) = rotate (rotations initial hs) header := by
  simp [rotations]

/-- The number of validators that a list has, without repetition. -/
def Sized (validators : Finset Address) : Prop := 2 ≤ validators.card ∧ validators.card ≤ 397

instance : Decidable (Sized validators) := inferInstanceAs (Decidable (_ ∧ _))

/-- An epoch header lists a number of validators in that range. -/
def ListsSized (header : Header) : Prop :=
  header.isEpoch → ∀ new, getValidatorMapFromHex header.extra = .ok new → Sized new

structure Rotated (vr : Verifier) (sets : List (ℕ × Finset Address)) : Prop where
  sized : Sized vr.validators
  /-- The switch is over before the next epoch. -/
  settled : ∀ e : ℕ, e % 200 = 0 → vr.next ≤ e → vr.useNewValidatorsFromHeight ≤ e
  known : (sets = [(0, vr.validators)] ∧ vr.useNewValidatorsFromHeight ≤ vr.next) ∨
    ∃ since until' rest, sets = (since, vr.validators) :: (until', vr.prevValidators) :: rest ∧
      vr.useNewValidatorsFromHeight = since ∧ (until' : ℤ) ≤ vr.next

theorem isEpoch_iff (hlt : header.number < 2 ^ 64) : header.isEpoch ↔ header.number % 200 = 0 := by
  simp [Header.isEpoch, uint64_of_lt hlt, defaultEpochLength]

theorem rotate_of_ordinary (hepoch : header.isEpoch = false) : rotate sets header = sets := by
  unfold rotate
  cases sets with
  | nil => rfl
  | cons x sets => simp [hepoch]

theorem Rotated.step (h : Rotated vr sets) (hlink : Links E vr header vr')
    (hlt : header.number < 2 ^ 64) (hsized : ListsSized header) : Rotated vr' (rotate sets header) := by
  have hnumber := hlink.number
  have hnext := hlink.updates.next
  cases hepoch : header.isEpoch with
  | false =>
    obtain ⟨hvalidators, hprev, hsince⟩ := hlink.updates.kept hepoch
    rw [rotate_of_ordinary hepoch]
    refine ⟨hvalidators ▸ h.sized, fun e he hle => ?_, ?_⟩
    · rw [hsince]
      exact h.settled e he (by omega)
    · rw [hvalidators, hprev, hsince]
      rcases h.known with ⟨hsets, hle⟩ | ⟨since, until', rest, hsets, heq, hle⟩
      · exact .inl ⟨hsets, by omega⟩
      · exact .inr ⟨since, until', rest, hsets, heq, by omega⟩
  | true =>
    obtain ⟨hnew, hprev, hsince⟩ := hlink.updates.epoch hepoch
    have hmod := (isEpoch_iff hlt).1 hepoch
    have hcard := h.sized.2
    refine ⟨hsized hepoch _ hnew, fun e he hle => ?_, .inr ?_⟩
    · omega
    · -- the set in force so far is the newest of those before
      have hold := h.settled header.number hmod hnumber.le
      rcases h.known with ⟨hsets, -⟩ | ⟨since, until', rest, hsets, heq, -⟩
      · refine ⟨header.number + 1 + vr.validators.card / 2, 0, [],
          by simp [rotate, hsets, hepoch, hnew, hprev], ?_, ?_⟩
        · rw [hsince]
          push_cast
          rfl
        · omega
      · refine ⟨header.number + 1 + vr.validators.card / 2, since, (until', vr.prevValidators) :: rest,
          by simp [rotate, hsets, hepoch, hnew, hprev], ?_, ?_⟩
        · rw [hsince]
          push_cast
          rfl
        · omega

theorem Rotated.path (h₀ : Rotated vr₀ [(0, initial)]) (h : Path (Links E) vr₀ hs vr)
    (hlt : ∀ h ∈ hs, h.number < 2 ^ 64) (hsized : ∀ h ∈ hs, ListsSized h) :
    Rotated vr (rotations initial hs) := by
  induction h with
  | nil => exact h₀
  | @snoc hs vr header vr' _ hlink ih =>
    rw [rotations_concat]
    have hmem : header ∈ hs ++ [header] := mem_append_right _ (mem_singleton_self _)
    refine (ih (fun h hh => ?_) fun h hh => ?_).step hlink (hlt header hmem) (hsized header hmem)
    · exact hlt h (mem_append_left _ hh)
    · exact hsized h (mem_append_left _ hh)

/-- A seal of the header behind the next one is accepted of the validators that are
in force then. -/
theorem Rotated.mem_inForce (h : Rotated vr (rotations initial hs)) (hnumber : vr.next = header.number)
    (ha : vr.isValidator a (header.number + 1 : ℕ)) :
    a ∈ inForce initial (hs ++ [header]) (header.number + 1) := by
  have hcard := h.sized.1
  -- what the header itself lists comes later
  have hfind : (rotations initial (hs ++ [header])).find? (fun x => x.1 ≤ header.number + 1) =
      (rotations initial hs).find? fun x => x.1 ≤ header.number + 1 := by
    rw [rotations_concat]
    have hhead : ∃ since rest, rotations initial hs = (since, vr.validators) :: rest := by
      rcases h.known with ⟨hsets, -⟩ | ⟨since, until', rest, hsets, -⟩
      · exact ⟨0, [], hsets⟩
      · exact ⟨since, _, hsets⟩
    obtain ⟨since, rest, hsets⟩ := hhead
    simp only [hsets, rotate]
    split
    · rw [find?_cons_of_neg]
      simp only [decide_eq_true_eq]
      omega
    · rfl
  rw [inForce, hfind]
  simp only [Verifier.isValidator] at ha
  rcases h.known with ⟨hsets, hle⟩ | ⟨since, until', rest, hsets, heq, hle⟩
  · rw [if_pos (by omega)] at ha
    simpa [hsets] using ha
  · by_cases hsince : since ≤ header.number + 1
    · rw [if_pos (by omega)] at ha
      simpa [hsets, hsince] using ha
    · rw [if_neg (by omega)] at ha
      have huntil : until' ≤ header.number + 1 := by omega
      simpa [hsets, hsince, huntil] using ha

structure Synced (E : Ethereum R) (vr₀ : Verifier) (height : ℤ) (s : Sync) : Prop where
  path : Path (Links E) vr₀ s.verified s.vr
  next : s.vr.next ≤ height
  first : s.prevHeader = none → s.cursor = s.vr.next
  cursor : s.prevHeader ≠ none → s.cursor = s.vr.next + 1 ∨ s.vr.next = height

theorem Links.next_eq (h : Links E vr header vr') : vr'.next = vr.next + 1 := by
  rw [h.updates.next, h.number]

theorem syncHeaders_synced {s s' : Sync} (hs : Synced E vr₀ height s)
    (h : syncHeaders E height s headers = .ok s') : Synced E vr₀ height s' := by
  induction headers generalizing s with
  | nil =>
    cases h
    exact hs
  | cons header headers ih =>
    unfold syncHeaders at h
    split at h
    · next hprev =>
      refine ih ?_ h
      exact ⟨hs.path, hs.next, by simp, fun _ => .inl (congrArg (· + 1) (hs.first hprev))⟩
    · next prevHeader hprev =>
      split at h
      · next hle =>
        cases h
        exact ⟨hs.path, hs.next, by simp [hprev], fun _ => .inr (le_antisymm hs.next hle)⟩
      · next hlt =>
        simp only [bind_ok] at h
        obtain ⟨_, hverify, vr, hupdate, h⟩ := h
        have hlink := links_of_ok hverify hupdate
        have hnext := hlink.next_eq
        have hcursor := hs.cursor (by simp [hprev])
        have hnext' : vr.next ≤ height := by omega
        have hcursor' : s.cursor + 1 = vr.next + 1 := by omega
        refine ih ?_ h
        exact ⟨hs.path.snoc hlink, hnext', by simp, fun _ => .inl hcursor'⟩

theorem syncRounds_synced {s s' : Sync} (hs : Synced E vr₀ height s)
    (h : syncRounds E concurrency height s rounds = .ok s') :
    Synced E vr₀ height s' ∧ height < s'.cursor := by
  induction rounds generalizing s with
  | nil =>
    unfold syncRounds at h
    split at h
    · next hlt =>
      cases h
      exact ⟨hs, hlt⟩
    · contradiction
  | cons answers rounds ih =>
    unfold syncRounds at h
    split at h
    · next hlt =>
      cases h
      exact ⟨hs, hlt⟩
    · simp only [bind_ok] at h
      obtain ⟨t, ht, h⟩ := h
      exact ih (syncHeaders_synced hs ht) h

theorem syncVerifier_path (h : syncVerifier E concurrency vr₀ height rounds = .ok (vr, hs)) :
    Path (Links E) vr₀ hs vr ∧ vr.next = height := by
  unfold syncVerifier at h
  split at h
  · next heq =>
    cases h
    exact ⟨.nil, heq.symm⟩
  · simp only [bind_ok, require_ok, decide_eq_true_eq, pure_ok, Prod.mk.injEq] at h
    obtain ⟨_, hle, s, hs, rfl, rfl⟩ := h
    have hstart : Synced E vr₀ height
        { vr := vr₀, prevHeader := none, cursor := vr₀.next, verified := [] } :=
      ⟨.nil, hle, fun _ => rfl, by simp⟩
    obtain ⟨hsynced, hlt⟩ := syncRounds_synced hstart hs
    refine ⟨hsynced.path, ?_⟩
    have hnext := hsynced.next
    cases hprev : s.prevHeader with
    | none =>
      have hfirst := hsynced.first hprev
      omega
    | some prevHeader =>
      have hcursor := hsynced.cursor (by simp [hprev])
      omega

theorem newVerifier_ok {header epochHeader : Option Header}
    (h : newVerifier chainID opts header epochHeader = .ok vr) :
    vr.chainID = chainID ∧ vr.next = int64 opts.blockHeight.toNat ∧ vr.parentHash = opts.blockHash ∧
      getValidatorMapFromHex opts.validatorData = .ok vr.validators ∧
      vr.useNewValidatorsFromHeight = int64 opts.blockHeight.toNat := by
  simp only [newVerifier, bind_ok, pure_ok] at h
  obtain ⟨_, -, _, -, _, -, _, -, validators, hvalidators, rfl⟩ := h
  simp only [hvalidators, and_self]

end IconBridge.Go.Bsc
