import IconBridge.Java.BTS.Traffic
import IconBridge.Lib.Copies

/-!
# The blacklist of ICON

An owner changes the list of a network at once, and the network is asked to
follow; if it refuses, the change is undone. Nothing else changes the list.
-/

namespace IconBridge.Java.BTS

open Lib Function List Option

variable {d : Deployment} {r : Receivers} {s s' t : St} {net : String}

/-- Neither the list of a network nor the changes of lists; limits may be sent. -/
structure Apart (net : String) (s s' : St) : Prop where
  blacklist : s'.blacklist net = s.blacklist net
  blacklistTxn : s'.blacklistTxn = s.blacklistTxn
  limits : ∀ k, (s'.tokenLimitTxn k).isSome → (s.tokenLimitTxn k).isSome ∨ s.sn < k ∧ k ≤ s'.sn

theorem Apart.of_eq (hlist : s'.blacklist = s.blacklist) (htxn : s'.blacklistTxn = s.blacklistTxn)
    (hlimits : s'.tokenLimitTxn = s.tokenLimitTxn) : Apart net s s' :=
  ⟨by rw [hlist], htxn, fun k hk => .inl (hlimits ▸ hk)⟩

theorem sendRequest_apart (hmoves : Moves s t) (h : sendRequest d t owner target coins = .ok s') :
    Apart net s s' := by
  obtain ⟨_, _, ⟨_, _, _, rfl⟩, -, -, rfl⟩ := sendRequest_eq h
  obtain ⟨_, _, _, rfl⟩ := hmoves
  exact .of_eq rfl rfl rfl

theorem handleResponse_apart (h : handleResponse d r s sn response = .ok s') : Apart net s s' := by
  obtain ⟨-, rfl⟩ | ⟨_, _, -, -, ⟨_, _, _, _, rfl, -⟩, rfl⟩ := handleResponse_eq h
  · exact .of_eq rfl rfl rfl
  · exact .of_eq rfl rfl rfl

theorem step_apart (net : String) (htx : tx.outside)
    (hadd : ∀ sender net addresses, tx ≠ .addBlacklistAddress sender net addresses)
    (hremove : ∀ sender net addresses, tx ≠ .removeBlacklistAddress sender net addresses)
    (h : step d s tx = .ok s') : Apart net s s' := by
  cases step_does h with
  | moves _ _ _ _ h =>
    obtain ⟨_, _, _, rfl⟩ := h
    exact .of_eq rfl rfl rfl
  | asks _ _ _ _ _ _ _ _ hmoves h => exact sendRequest_apart hmoves h
  | prices _ _ _ _ h =>
    obtain ⟨_, _, _, _, _, _, _, -, -, rfl⟩ := h
    exact .of_eq rfl rfl rfl
  | limits _ _ _ _ _ h =>
    obtain ⟨_, _, rfl⟩ := h.writes
    refine ⟨rfl, rfl, fun k hk => ?_⟩
    simp only [update_apply] at hk
    split at hk
    · next heq => exact .inr ⟨heq ▸ Int.lt_add_one_of_le le_rfl, heq.le⟩
    · exact .inl hk
  | adds => exact absurd rfl (hadd _ _ _)
  | removes => exact absurd rfl (hremove _ _ _)
  | configures => exact .of_eq rfl rfl rfl
  | receives | fails | gathers => contradiction

theorem handleFeeGathering_apart (h : handleFeeGathering d r s caller fa = .ok s') :
    Apart net s s' := by
  cases handleFeeGathering_gathers h with
  | pays _ _ _ h =>
    obtain ⟨_, _, _, rfl⟩ := h
    exact .of_eq rfl rfl rfl
  | sends _ _ _ h =>
    obtain ⟨hlist, htxn, hlimits⟩ : Apart net _ s' := sendRequest_apart .refl h
    exact ⟨hlist, htxn, hlimits⟩

theorem Receives.apart (hty : m.serviceType ≠ .blacklistMessage)
    (h : Receives d r s source sn s' m) : Apart net s s' := by
  cases h with
  | request request h =>
    obtain ⟨_, _, ⟨_, _, _, rfl⟩, rfl⟩ := handleRequest_eq h
    exact .of_eq rfl rfl rfl
  | response response h => exact handleResponse_apart h
  | blacklist => exact absurd rfl hty
  | limit response h =>
    cases handleChangeTokenLimit_acks h with
    | closed _ h => exact h ▸ .of_eq rfl rfl rfl
    | opened _ _ _ hrecord _ _ h =>
      subst h
      refine ⟨rfl, rfl, fun k hk => .inl ?_⟩
      simp only [update_apply] at hk
      split at hk
      · next heq => rw [heq, hrecord, isSome_some]
      · exact hk
  | unknown _ h => exact h ▸ .of_eq rfl rfl rfl
  | disowned _ _ _ _ h => exact h ▸ .of_eq rfl rfl rfl

def BlacklistTransaction.change (d : Deployment) (b : BlacklistTransaction) : Change String where
  adds := b.serviceType = .addToBlacklist
  keys := b.address.map d.lowercase

def listed (net : String) (s : St) : Set String := {u | u ∈ s.blacklist net}

section
variable (ty : BlacklistService)

theorem edit_listed (user : String) (hnodup : (s.blacklist net).Nodup) :
    listed net (edit d ty net s user) =
        Change.apply ⟨ty = .addToBlacklist, [d.lowercase user]⟩ (listed net s) ∧
      ((edit d ty net s user).blacklist net).Nodup := by
  cases ty with
  | addToBlacklist =>
    simp only [edit, listed, addToBlacklist]
    split
    · next h =>
      refine ⟨Set.ext fun u => ⟨.inl, ?_⟩, hnodup⟩
      rintro (hu | hu)
      · exact hu
      · exact mem_singleton.1 hu ▸ h
    · next h => exact ⟨by simp [Change.apply], by simpa using hnodup.concat h⟩
  | removeFromBlacklist =>
    simp only [edit, listed, removeFromBlacklist]
    split
    · next h =>
      refine ⟨?_, by simpa using nodup_swapErase hnodup⟩
      simp [Change.apply, mem_swapErase hnodup h, and_comm]
    · next h =>
      refine ⟨Set.ext fun u => ⟨fun hu => ⟨hu, fun hmem => h ?_⟩, And.left⟩, hnodup⟩
      exact mem_singleton.1 hmem ▸ hu

theorem edits_listed (users : List String) (hnodup : (s.blacklist net).Nodup) :
    listed net (users.foldl (edit d ty net) s) =
        Change.apply ⟨ty = .addToBlacklist, users.map d.lowercase⟩ (listed net s) ∧
      ((users.foldl (edit d ty net) s).blacklist net).Nodup := by
  induction users generalizing s with
  | nil => exact ⟨Change.apply_nil.symm, hnodup⟩
  | cons user users ih =>
    obtain ⟨hlisted, hnodup'⟩ := edit_listed (d := d) ty user hnodup
    rw [map_cons, Change.apply_cons, ← hlisted]
    exact ih hnodup'

theorem undoBlacklist_listed {b : BlacklistTransaction} (hnodup : (s.blacklist b.net).Nodup) :
    listed b.net (undoBlacklist d s b) = (b.change d).undo (listed b.net s) ∧
      ((undoBlacklist d s b).blacklist b.net).Nodup := by
  obtain ⟨ty, address, net⟩ := b
  cases ty with
  | addToBlacklist => exact edits_listed .removeFromBlacklist address hnodup
  | removeFromBlacklist => exact edits_listed .addToBlacklist address hnodup

theorem editUser_ok (hlower : ∀ u, d.lowercase (d.lowercase u) = d.lowercase u)
    (x : St × List String) (user : String) : editUser d ty net x user = x ∨ ∃ name,
      editUser d ty net x user = (edit d ty net x.1 name, x.2 ++ [name]) ∧
      d.lowercase name = d.lowercase user ∧
      (d.lowercase user ∈ listed net x.1 ↔ ¬ ty = .addToBlacklist) := by
  cases ty with
  | addToBlacklist =>
    simp only [editUser, blacklistUser, isUserBlackListed, hlower]
    split
    · next h =>
      simp only [Bool.and_eq_true, Bool.not_eq_true', decide_eq_false_iff_not] at h
      exact .inr ⟨_, rfl, hlower user, by simpa [listed] using h.1.1⟩
    · exact .inl rfl
  | removeFromBlacklist =>
    simp only [editUser, unlistUser]
    split
    · next h => exact .inr ⟨user, rfl, rfl, by simpa [listed, isUserBlackListed] using h⟩
    · exact .inl rfl

theorem editUsers_ok (hlower : ∀ u, d.lowercase (d.lowercase u) = d.lowercase u)
    (users : List String) (x : St × List String) : ∃ names,
      users.foldl (editUser d ty net) x = (names.foldl (edit d ty net) x.1, x.2 ++ names) ∧
      ((x.1.blacklist net).Nodup → ∀ k ∈ names.map d.lowercase,
        k ∈ users.map d.lowercase ∧ (k ∈ listed net x.1 ↔ ¬ ty = .addToBlacklist)) := by
  induction users generalizing x with
  | nil => exact ⟨[], by simp, by simp⟩
  | cons user users ih =>
    rw [foldl_cons]
    rcases editUser_ok ty hlower x user with h | ⟨name, h, hname, hneeded⟩
    · obtain ⟨names, hnames, hkeys⟩ := ih x
      rw [h]
      exact ⟨names, hnames, fun hnodup k hk => (hkeys hnodup k hk).imp_left (mem_cons_of_mem _)⟩
    · obtain ⟨names, hnames, hkeys⟩ := ih (edit d ty net x.1 name, x.2 ++ [name])
      rw [h]
      refine ⟨name :: names, by simp [hnames], fun hnodup k hk => ?_⟩
      obtain ⟨hlisted, hnodup'⟩ := edit_listed (d := d) ty name hnodup
      rcases mem_cons.1 hk with rfl | hk
      · rw [hname]
        exact ⟨mem_cons_self, hneeded⟩
      · obtain ⟨hmem, hk⟩ := hkeys hnodup' k hk
        rw [hlisted] at hk
        refine ⟨mem_cons_of_mem _ hmem, (Change.mem_apply_of_notMem fun hnew => ?_).symm.trans hk⟩
        -- what was just written is not needed again
        rw [Change.mem_apply hnew, decide_eq_true_eq] at hk
        exact (iff_not_self hk).elim

/-- A list was changed to `f`, and another network is asked to follow. -/
def St.asking (s : St) (f : String → List String) (b : BlacklistTransaction) : St :=
  { s with
    blacklist := f
    sn := s.sn + 1
    blacklistTxn := update s.blacklistTxn (s.sn + 1) (some b)
    sent := s.sent ++ [⟨b.net, s.sn + 1, ⟨.blacklistMessage, .blacklist b⟩⟩] }

/-- What owners do to the list of `net` when they call for a change of the list of
`called`: nothing, or a change that `net` is asked to make. -/
inductive Edits (d : Deployment) (net called : String) (users : List String) (s : St) : St → Prop
  | elsewhere (f : String → List String) (hlist : f net = s.blacklist net) :
      Edits d net called users s { s with blacklist := f }
  | asks (f : String → List String) (b : BlacklistTransaction) (hcalled : called = net)
      (hnet : b.net = net) (hkeys : ∀ k ∈ (b.change d).keys,
        k ∈ users.map d.lowercase ∧ (k ∈ listed net s ↔ ¬ (b.change d).adds))
      (hlisted : {u | u ∈ f net} = (b.change d).apply (listed net s)) (hnodup : (f net).Nodup) :
      Edits d net called users s (s.asking f b)

theorem edits_elsewhere (names : List String) (hremote : d.net ≠ net) :
    (names.foldl (edit d ty d.net) s).blacklist net = s.blacklist net := by
  refine foldl_keeps (fun s : St => s.blacklist net) fun s name => ?_
  cases ty
  all_goals
    simp only [edit, addToBlacklist, removeFromBlacklist]
    split <;> simp [hremote.symm]

theorem sendEdits_edits (hlower : ∀ u, d.lowercase (d.lowercase u) = d.lowercase u)
    (hremote : d.net ≠ net) (hnodup : (s.blacklist net).Nodup) (hnets : linkNets d s = .ok [net])
    (hlink : requireLink d s called = .ok ())
    (h : sendBlacklist d (users.foldl (editUser d ty called) (s, [])).1 ty called
      (users.foldl (editUser d ty called) (s, [])).2 = .ok s') : Edits d net called users s s' := by
  obtain ⟨names, hnames, hkeys⟩ := editUsers_ok ty hlower users (s, [])
  obtain ⟨f, hf⟩ : Lists s (names.foldl (edit d ty called) s) :=
    .foldl (g := id) fun _ _ => edit_lists ty
  rw [hnames, nil_append] at h
  simp only [requireLink, hnets, ok_bind, require_ok, Bool.or_eq_true, decide_eq_true_eq,
    mem_singleton] at hlink
  rcases hlink with rfl | rfl
  · obtain ⟨hlisted, hnodup'⟩ := edits_listed (d := d) ty names hnodup
    obtain ⟨hnone, rfl⟩ | rfl := sendBlacklist_eq h
    · obtain rfl := hnone.resolve_right hremote
      exact .elsewhere s.blacklist rfl
    · rw [hf] at hlisted hnodup' ⊢
      exact .asks f ⟨ty, names, called⟩ rfl rfl (by simpa [BlacklistTransaction.change] using hkeys hnodup) hlisted hnodup'
  · have hkept := edits_elsewhere (s := s) ty names hremote
    rw [sendBlacklist, if_pos (.inr rfl), Except.ok.injEq] at h
    rw [hf] at h hkept
    exact h ▸ .elsewhere f hkept

end

theorem addBlacklistAddress_edits (hlower : ∀ u, d.lowercase (d.lowercase u) = d.lowercase u)
    (hremote : d.net ≠ net) (hnodup : (s.blacklist net).Nodup) (hnets : linkNets d s = .ok [net])
    (h : addBlacklistAddress d s sender called users = .ok s') : Edits d net called users s s' := by
  simp only [addBlacklistAddress, bind_ok] at h
  obtain ⟨_, -, _, -, _, hlink, h⟩ := h
  exact sendEdits_edits .addToBlacklist hlower hremote hnodup hnets hlink h

theorem removeBlacklistAddress_edits (hlower : ∀ u, d.lowercase (d.lowercase u) = d.lowercase u)
    (hremote : d.net ≠ net) (hnodup : (s.blacklist net).Nodup) (hnets : linkNets d s = .ok [net])
    (h : removeBlacklistAddress d s sender called users = .ok s') : Edits d net called users s s' := by
  simp only [removeBlacklistAddress, bind_ok] at h
  obtain ⟨_, -, _, -, _, hlink, h⟩ := h
  exact sendEdits_edits .removeFromBlacklist hlower hremote hnodup hnets hlink h

theorem handleBTPMessage_handleBlacklist
    (h : handleBTPMessage d r s caller source svc sn (some ⟨.blacklistMessage, .response response⟩) =
      .ok s') : s' = handleBlacklist d s sn response := by
  simp only [handleBTPMessage, bind_ok, Except.ok.injEq] at h
  obtain ⟨_, -, _, -, rfl⟩ := h
  rfl

theorem handleBTPError_apart (hnone : s.blacklistTxn sn = none)
    (h : handleBTPError d r s caller source sn code msg = .ok s') : Apart net s s' := by
  cases handleBTPError_fails h with
  | request _ _ _ h => exact handleResponse_apart h
  | limit t _ _ h =>
    obtain ⟨_, hfold, -⟩ := setTokenLimitStatus_eq s source false t.coinName
    exact h ▸ hfold ▸ .of_eq rfl rfl rfl
  | blacklist b _ hb =>
    rw [hnone] at hb
    contradiction
  | nothing _ h => exact h ▸ .of_eq rfl rfl rfl

theorem handleBTPError_undoBlacklist (hb : s.blacklistTxn sn = some b)
    (htransaction : s.transactions sn = none) (hlimit : s.tokenLimitTxn sn = none) :
    handleBTPError d r s d.bmc source sn code msg = .ok (undoBlacklist d s b) := by
  simp only [handleBTPError, hb, htransaction, hlimit, decide_true, require_true, ok_bind,
    isSome_none, Bool.false_eq_true, if_false]
  rfl

/-- A serial number is that of one request or change, and was given out. -/
structure Distinct (s : St) : Prop where
  bounded : ∀ k, s.sn < k → s.transactions k = none ∧ s.tokenLimitTxn k = none ∧ s.blacklistTxn k = none
  apart : ∀ k, (s.blacklistTxn k).isSome → s.transactions k = none ∧ s.tokenLimitTxn k = none

theorem Distinct.le (hs : Distinct s) (hk : (s.blacklistTxn k).isSome) : k ≤ s.sn := by
  by_contra hlt
  simp [(hs.bounded k (not_le.1 hlt)).2.2] at hk

theorem Distinct.of_apart (hs : Distinct s) (hstep : s.sn ≤ s'.sn ∧
      ∀ k, (s'.transactions k).isSome → (s.transactions k).isSome ∨ s.sn < k ∧ k ≤ s'.sn)
    (h : Apart net s s') : Distinct s' := by
  obtain ⟨hsn, htransactions⟩ := hstep
  -- a number that had no request and is not new still has none
  have hnone : ∀ k, s.transactions k = none → s.tokenLimitTxn k = none →
      k ≤ s.sn ∨ s'.sn < k → s'.transactions k = none ∧ s'.tokenLimitTxn k = none := by
    intro k ht hl hk
    constructor
    · rw [← not_isSome_iff_eq_none]
      intro hsome
      rcases htransactions k hsome with hold | hnew
      · simp [ht] at hold
      · omega
    · rw [← not_isSome_iff_eq_none]
      intro hsome
      rcases h.limits k hsome with hold | hnew
      · simp [hl] at hold
      · omega
  refine ⟨fun k hk => ?_, fun k hk => ?_⟩
  · obtain ⟨ht, hl, hb⟩ := hs.bounded k (hsn.trans_lt hk)
    obtain ⟨ht', hl'⟩ := hnone k ht hl (.inr hk)
    exact ⟨ht', hl', h.blacklistTxn ▸ hb⟩
  · rw [h.blacklistTxn] at hk
    obtain ⟨ht, hl⟩ := hs.apart k hk
    exact hnone k ht hl (.inl (hs.le hk))

theorem Distinct.asking (hs : Distinct s) : Distinct (s.asking f b) := by
  refine ⟨fun k hk => ?_, fun k hk => ?_⟩
  · obtain ⟨ht, hl, hb⟩ := hs.bounded k ((Int.lt_add_one_of_le le_rfl).trans hk)
    exact ⟨ht, hl, (update_of_ne (ne_of_gt hk) ..).trans hb⟩
  · rcases eq_or_ne k (s.sn + 1) with rfl | hne
    · obtain ⟨ht, hl, -⟩ := hs.bounded (s.sn + 1) (Int.lt_add_one_of_le le_rfl)
      exact ⟨ht, hl⟩
    · simp only [St.asking, update_of_ne hne] at hk
      exact hs.apart k hk

theorem Distinct.less (hs : Distinct s) (hg : ∀ k t, g k = some t → s.blacklistTxn k = some t) :
    Distinct { s with blacklist := f, blacklistTxn := g, reachable, events } := by
  have hnone : ∀ k, s.blacklistTxn k = none → g k = none := fun k hk =>
    eq_none_iff_forall_ne_some.2 fun t ht => by simp [hg k t ht] at hk
  refine ⟨fun k hk => (hs.bounded k hk).imp_right (.imp_right (hnone k)), fun k hk => ?_⟩
  obtain ⟨t, ht⟩ := isSome_iff_exists.1 hk
  exact hs.apart k (by rw [hg k t ht]; rfl)

end IconBridge.Java.BTS
