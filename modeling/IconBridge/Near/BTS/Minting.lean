import IconBridge.Lib.Marks
import IconBridge.Near.BTS.Precheck

/-!
# Answers before the mint

A request that is accepted is answered with success in the same call, while a
token of another network is only credited when the callback of its mint runs.
The promises a request has started are followed by marks: when each of them
succeeds and its callback has room for the amount, every asset is credited.
-/

namespace IconBridge.Near.BTS

open Lib Function List

variable {d : Deployment} {env : Env} {s s' t u : St} {ms : List Movement} {ps : List Promise}

def Promise.credit : Promise → Option Movement
  | .mint _ v tokenId a => some (.internalTransfer a tokenId v)
  | _ => none

def Promise.Ready (d : Deployment) (s : St) : Promise → Prop
  | .mint _ _ tokenId a =>
    (s.balances (d.account, tokenId)).isSome ∧ (s.tokens tokenId).isSome ∧ d.account ≠ a
  | _ => False

theorem Promise.Ready.keeps {p : Promise} (hp : p.Ready d s) (h : Keeps s s') : p.Ready d s' := by
  cases p with
  | mint uri v tokenId a => exact ⟨h.balances _ hp.1, h.tokens _ hp.2.1, hp.2.2⟩
  | _ => exact hp.elim

/-- What the service reserves for an account's storage, before the bytes are counted -/
def storageReserve : ℕ := 669547687500000000

/-- The mint succeeded with a storage cost, and the callback has room for the
amount and for the cost. -/
def Receipt.Mints (d : Deployment) (env : Env) (s : St) (r : Receipt) : Prop :=
  match r.promise, r.result with
  | .mint _ v tokenId a, some (.successful (some cost)) =>
    s.amount .deposit (d.account, tokenId) + v ≤ u128Max ∧
      s.amount .deposit (a, tokenId) + v ≤ u128Max ∧
      (s.storageBalances (a, tokenId)).getD 0 + cost +
        (env.storageUsage * d.storageByteCost + storageReserve) ≤ u128Max
  | .mint .., _ => False
  | _, _ => True

instance : Decidable (Receipt.Mints d env s r) := by
  unfold Receipt.Mints
  split <;> infer_instance

theorem Receipt.Mints.successful {result : PromiseResult}
    (h : Receipt.Mints d env s ⟨.mint uri v tokenId a, some result⟩) :
    ∃ cost, result = .successful (some cost) := by
  cases result with
  | failed => exact h.elim
  | successful value =>
    cases value with
    | none => exact h.elim
    | some cost => exact ⟨cost, rfl⟩

theorem internalTransfer_succeeds (hne : d.account ≠ a)
    (hown : s.balances (d.account, tokenId) = some own) (hv : v ≤ own.deposit)
    (hroom : s.amount .deposit (a, tokenId) + v ≤ u128Max) :
    ∃ s', internalTransfer d s a tokenId v = .ok s' := by
  have hadd : ((s.balances (a, tokenId)).getD {}).deposit + v ≤ u128Max := hroom
  simp [internalTransfer, assertSenderIsNotReceiver, assertHaveSufficientDeposit, ensure, hne, hown,
    hv, unwrap, add, sub, hadd, pure, Except.pure]

theorem internalTransfer_rest (h : internalTransfer d s a tokenId v = .ok s') :
    s'.storageBalances = s.storageBalances ∧ s'.tokens = s.tokens := by
  simp only [internalTransfer, bind_ok, pure_ok] at h
  obtain ⟨_, -, _, -, _, -, _, -, _, -, rfl⟩ := h
  exact ⟨rfl, rfl⟩

theorem calculateStorageCost_succeeds
    (h : env.storageUsage * d.storageByteCost + storageReserve ≤ u128Max) :
    calculateStorageCost d env = .ok (env.storageUsage * d.storageByteCost + storageReserve) := by
  have htimes : env.storageUsage * d.storageByteCost ≤ u128Max := (Nat.le_add_right ..).trans h
  rw [calculateStorageCost, times, if_pos htimes, ok_bind]
  exact plus_ok.2 ⟨h, rfl⟩

theorem onMint_succeeds (hp : (Promise.mint uri v tokenId a).Ready d s)
    (hm : Receipt.Mints d env s ⟨.mint uri v tokenId a, some (.successful (some cost))⟩) :
    ∃ s', onMint d env s v tokenId a (.successful (some cost)) = .ok s' := by
  obtain ⟨hown, htoken, hne⟩ := hp
  obtain ⟨own, hown⟩ := Option.isSome_iff_exists.1 hown
  obtain ⟨token, htoken⟩ := Option.isSome_iff_exists.1 htoken
  obtain ⟨hdeposit, hroom, hcost⟩ := hm
  have hadd : own.deposit + v ≤ u128Max := by
    simpa [St.amount, hown, AccountBalance.amount] using hdeposit
  let minted := (s.setBalance (d.account, tokenId) { own with deposit := own.deposit + v }).note
    (.mint tokenId v)
  have hminted : minted.balances (d.account, tokenId) =
      some { own with deposit := own.deposit + v } := update_self ..
  have hother : minted.amount .deposit (a, tokenId) = s.amount .deposit (a, tokenId) := by
    simp [minted, St.amount, St.note, St.setBalance, hne.symm]
  obtain ⟨t, ht⟩ := internalTransfer_succeeds hne hminted (Nat.le_add_left ..) (hother ▸ hroom)
  obtain ⟨hstorage, htokens⟩ := internalTransfer_rest ht
  have hbytes : calculateStorageCost d env = .ok _ :=
    calculateStorageCost_succeeds ((Nat.le_add_left ..).trans hcost)
  have hfirst : add ((t.storageBalances (a, tokenId)).getD 0) cost =
      .ok ((s.storageBalances (a, tokenId)).getD 0 + cost) := by
    rw [hstorage, add_ok]
    exact ⟨by simp only [minted, St.note, St.setBalance]; omega, rfl⟩
  have hlast : add ((s.storageBalances (a, tokenId)).getD 0 + cost)
      (env.storageUsage * d.storageByteCost + storageReserve) = .ok _ := add_ok.2 ⟨hcost, rfl⟩
  have htoken' : unwrap (t.tokens tokenId) = .ok token := by
    rw [htokens, unwrap_ok]
    exact htoken
  simp only [onMint, bind_ok, unwrap_ok, pure_ok]
  refine ⟨t.setStorageBalance (a, tokenId) ((s.storageBalances (a, tokenId)).getD 0 + cost +
    (env.storageUsage * d.storageByteCost + storageReserve)), ?_⟩
  exact ⟨own, hown, _, add_ok.2 ⟨hadd, rfl⟩, t, ht, _, hbytes, _, hfirst, _, hlast, token,
    unwrap_ok.1 htoken', rfl⟩

/-- The service with marks on the promises a request has started -/
abbrev Watched := St × List Bool

def watch (d : Deployment) (x : Watched) (act : Act) : Outcome Watched := do
  let s ← step d x.1 act
  return (s, match act with
    | .callback i _ => x.2.eraseIdx i
    | _ => x.2)

theorem watch_run (x : Watched) : (run (watch d) x acts).1 = run (step d) x.1 acts := by
  induction acts generalizing x with
  | nil => rfl
  | cons act acts ih =>
    rw [run_cons, run_cons, ih]
    congr 1
    unfold exec watch
    cases step d x.1 act <;> rfl

def Watched.pending (x : Watched) : List Promise := (marked x.1.receipts x.2).map Receipt.promise

/-- A callback of a promise that is followed is one of a mint that succeeded. -/
def Act.Mints (d : Deployment) (x : Watched) : Act → Prop
  | .callback i env => x.2[i]? = some true → ∀ r ∈ x.1.receipts[i]?, r.Mints d env x.1
  | _ => True

instance : Decidable (Act.Mints d x act) := by
  unfold Act.Mints
  split <;> infer_instance

/-- Each credit was posted since `s`, or its mint is pending. -/
structure Owes (d : Deployment) (s : St) (credits : List Movement) (x : Watched) : Prop where
  sound : Sound d x.1
  short : x.2.length ≤ x.1.receipts.length
  ready : ∀ p ∈ x.pending, p.Ready d x.1
  posted : ∃ ms, x.1.journal = s.journal ++ ms ∧
    (∀ p k, (x.1.amount p k : ℤ) = s.amount p k + effects d ms p k) ∧
    credits.Subperm (ms ++ x.pending.filterMap Promise.credit)

section
variable {credits : List Movement} {x y : Watched} {p : Promise} {i : ℕ} {act : Act} {marks : List Bool}
  {result : PromiseResult}

theorem Owes.advance (ms : List Movement) (hx : Owes d s credits x) (hsound : Sound d y.1)
    (hkeeps : Keeps x.1 y.1) (hshort : y.2.length ≤ y.1.receipts.length)
    (hjournal : y.1.journal = x.1.journal ++ ms)
    (hamount : ∀ p k, (y.1.amount p k : ℤ) = x.1.amount p k + effects d ms p k)
    (hsub : ∀ p ∈ y.pending, p ∈ x.pending)
    (hpending : (x.pending.filterMap Promise.credit).Subperm
      (ms ++ y.pending.filterMap Promise.credit)) : Owes d s credits y := by
  obtain ⟨ns, hns, hsum, hcredits⟩ := hx.posted
  refine ⟨hsound, hshort, fun p hp => (hx.ready p (hsub p hp)).keeps hkeeps, ns ++ ms, ?_,
    fun p k => ?_, ?_⟩
  · rw [hjournal, hns, append_assoc]
  · rw [hamount, hsum, effects_append, add_assoc]
  · rw [append_assoc]
    exact hcredits.trans ((subperm_append_left ns).2 hpending)

theorem pending_of_posts (h : Posts d ms ps s s') (hshort : marks.length ≤ s.receipts.length) :
    Watched.pending (s', marks) = Watched.pending (s, marks) := by
  simp only [Watched.pending]
  rw [h.receipts, marked_append hshort]

theorem Posts.length_le (h : Posts d ms ps s s') : s.receipts.length ≤ s'.receipts.length := by
  simp [h.receipts]

theorem Owes.posts (hx : Owes d s credits (t, marks)) (h : Posts d ms ps t u) :
    Owes d s credits (u, marks) := by
  have hpending := pending_of_posts h hx.short
  refine hx.advance _ (h.sound hx.sound) h.keeps (hx.short.trans h.length_le) h.journal h.amount ?_ ?_
  · rw [hpending]
    exact fun _ => id
  · rw [hpending]
    exact (sublist_append_right ..).subperm

theorem Owes.drop (hx : Owes d s credits (t, marks)) (hr : t.receipts[i]? = some r)
    (hm : marks[i]? ≠ some true) : Owes d s credits (t.drop i, marks.eraseIdx i) := by
  have hdrop : Watched.pending (t.drop i, marks.eraseIdx i) = Watched.pending (t, marks) := by
    simp only [Watched.pending, St.drop, marked_eraseIdx_of_unmarked hm]
  refine hx.advance [] (hx.sound.drop i) ⟨fun _ => id, fun _ => id⟩
    (length_eraseIdx_le hx.short (List.getElem?_eq_some_iff.1 hr).1) (append_nil _).symm
    (fun _ _ => (add_zero _).symm) ?_ ?_
  · rw [hdrop]
    exact fun _ => id
  · rw [hdrop]
    exact List.Subperm.refl _

theorem Owes.execute (hx : Owes d s credits (t, marks))
    (hr : t.receipts[i]? = some { promise := p }) : Owes d s credits ({ t with
      receipts := t.receipts.set i { promise := p, result := some result }
      transferred := p.pay result t.transferred }, marks) := by
  have hpending : Watched.pending ({ t with
      receipts := t.receipts.set i { promise := p, result := some result }
      transferred := p.pay result t.transferred }, marks) = Watched.pending (t, marks) :=
    map_marked_set Receipt.promise hr rfl
  refine hx.advance [] ((Act.Does.execute p hr rfl).sound hx.sound)
    ⟨fun _ => id, fun _ => id⟩ ?_ (append_nil _).symm (fun _ _ => (add_zero _).symm) ?_ ?_
  · rw [length_set]
    exact hx.short
  · rw [hpending]
    exact fun _ => id
  · rw [hpending]
    exact List.Subperm.refl _

theorem Owes.pending_perm (hr : t.receipts[i]? = some ⟨p, some result⟩) (hm : marks[i]? = some true) :
    (Watched.pending (t, marks)).Perm (p :: Watched.pending (t.drop i, marks.eraseIdx i)) :=
  (marked_eraseIdx_of_marked hr hm).map Receipt.promise

theorem Owes.ready_of_marked (hx : Owes d s credits (t, marks))
    (hr : t.receipts[i]? = some ⟨p, some result⟩) (hm : marks[i]? = some true) : p.Ready d (t.drop i) :=
  hx.ready p ((pending_perm hr hm).mem_iff.2 mem_cons_self)

theorem Owes.minted (hx : Owes d s credits (t, marks)) (hm : marks[i]? = some true)
    (hr : t.receipts[i]? = some ⟨.mint uri v tokenId a, some (.successful (some cost))⟩)
    (h : Posts d [.mint tokenId v, .internalTransfer a tokenId v] ps (t.drop i) u) :
    Owes d s credits (u, marks.eraseIdx i) := by
  have hshort : (marks.eraseIdx i).length ≤ (t.drop i).receipts.length :=
    length_eraseIdx_le hx.short (List.getElem?_eq_some_iff.1 hr).1
  have hperm := pending_perm hr hm
  have hpending := pending_of_posts h hshort
  refine hx.advance _ (h.sound (hx.sound.drop i)) ⟨h.keeps.balances, h.keeps.tokens⟩
    (hshort.trans h.length_le) h.journal h.amount ?_ ?_
  · rw [hpending]
    exact fun p hp => hperm.mem_iff.2 (mem_cons_of_mem _ hp)
  · rw [hpending]
    exact (hperm.filterMap Promise.credit).subperm.trans (sublist_cons_self ..).subperm

/-- The callback of a mint that is followed is the one the assumption is about. -/
theorem Owes.mint_of_marked (hx : Owes d s credits (t, marks)) (hm : marks[i]? = some true)
    (hmints : ∀ r : Receipt, r ∈ t.receipts[i]? → r.Mints d env t)
    (hr : t.receipts[i]? = some ⟨p, some result⟩) :
    ∃ uri v tokenId a cost, p = .mint uri v tokenId a ∧ result = .successful (some cost) ∧
      ∃ u, p.callback d env (t.drop i) result = .ok u := by
  have hready := hx.ready_of_marked hr hm
  cases p with
  | mint uri v tokenId a =>
    have hmint := hmints _ hr
    obtain ⟨cost, rfl⟩ := Receipt.Mints.successful hmint
    exact ⟨uri, v, tokenId, a, cost, rfl, rfl, onMint_succeeds hready hmint⟩
  | _ => exact hready.elim

theorem Owes.step (hx : Owes d s credits x) (hact : act.Mints d x) (h : watch d x act = .ok y) :
    Owes d s credits y := by
  obtain ⟨t, marks⟩ := x
  simp only [watch, bind_ok, pure_ok] at h
  obtain ⟨u, hu, rfl⟩ := h
  cases step_does hx.sound hu with
  | call env c h =>
    obtain ⟨ms, ps, hposts, -⟩ := h.posts
    exact hx.posts hposts
  | execute p hr h => exact h ▸ hx.execute hr
  | @callback i env p result ps hr _ hps h =>
    by_cases hm : marks[i]? = some true
    · obtain ⟨uri, v, tokenId, a, cost, rfl, rfl, -⟩ := hx.mint_of_marked hm (hact hm) hr
      exact hx.minted hm hr h.toPosts
    · exact (hx.drop hr hm).posts h.toPosts
  | @panicked i env p result e hr he h =>
    by_cases hm : marks[i]? = some true
    · obtain ⟨uri, v, tokenId, a, cost, -, -, u, hu⟩ := hx.mint_of_marked hm (hact hm) hr
      rw [hu] at he
      contradiction
    · exact h ▸ hx.drop hr hm

end

def creditTo (a : AccountId) (x : TokenId × Token × TransferableAsset) : Movement :=
  .internalTransfer a x.1 x.2.2.amount

def Receives (d : Deployment) (credits : List Movement) (s s' : St) : Prop :=
  ∃ (ms : List Movement) (ps : List Promise), Posts d ms ps s s' ∧ (∀ p ∈ ps, p.Ready d s') ∧
    credits.Perm (ms ++ ps.filterMap Promise.credit)

def Receivable (d : Deployment) (s : St) (a : AccountId) (x : TokenId × Token × TransferableAsset) :
    Prop :=
  (s.balances (d.account, x.1)).isSome ∧ (s.tokens x.1).isSome ∧ d.account ≠ a

theorem Receivable.keeps (hx : Receivable d s a x) (h : Keeps s s') : Receivable d s' a x :=
  ⟨h.balances _ hx.1, h.tokens _ hx.2.1, hx.2.2⟩

theorem receiveAsset_receives (hx : Receivable d s a x) (h : receiveAsset d a s x = .ok s') :
    Receives d [creditTo a x] s s' := by
  obtain ⟨tokenId, token, asset⟩ := x
  simp only [receiveAsset] at h
  split at h
  · obtain ⟨uri, hmint⟩ := mint_books (d := d) h
    refine ⟨[], _, hmint.toPosts, ?_, .refl _⟩
    rintro p hp
    obtain rfl := mem_singleton.1 hp
    exact hx.keeps hmint.keeps
  · exact ⟨_, [], (internalTransfer_books h).toPosts, by simp, .refl _⟩

theorem Receives.trans (h : Receives d credits s t) (h' : Receives d credits' t u) :
    Receives d (credits ++ credits') s u := by
  obtain ⟨ms, ps, hposts, hready, hperm⟩ := h
  obtain ⟨ns, qs, hposts', hready', hperm'⟩ := h'
  refine ⟨ms ++ ns, ps ++ qs, hposts.trans hposts', fun p hp => ?_, ?_⟩
  · rcases mem_append.1 hp with hp | hp
    · exact (hready p hp).keeps hposts'.keeps
    · exact hready' p hp
  · refine (hperm.append hperm').trans ?_
    rw [filterMap_append, append_assoc, append_assoc]
    refine List.Perm.append_left ms ?_
    rw [← append_assoc, ← append_assoc]
    exact perm_append_comm.append_right _

theorem receiveAssets_receives {tokens : List (TokenId × Token × TransferableAsset)}
    (hx : ∀ x ∈ tokens, Receivable d s a x)
    (h : tokens.foldlM (receiveAsset d a) s = .ok s') : Receives d (tokens.map (creditTo a)) s s' := by
  induction tokens generalizing s with
  | nil =>
    cases pure_ok.1 h
    exact ⟨[], [], Books.refl.toPosts, by simp, .refl _⟩
  | cons x tokens ih =>
    simp only [foldlM_cons, bind_ok] at h
    obtain ⟨t, ht, h⟩ := h
    obtain ⟨hfirst, hrest⟩ := forall_mem_cons.1 hx
    have hreceives := receiveAsset_receives hfirst ht
    obtain ⟨ms, ps, hbooks, -⟩ := receiveAsset_idle (d := d) ht
    exact hreceives.trans (ih (fun y hy => (hrest y hy).keeps hbooks.keeps) h)

theorem lookup_ok {assets : List TransferableAsset}
    (h : (assets.mapM fun asset => do
      let tokenId ← unwrap (s.tokenIds asset.name)
      let token ← unwrap (s.tokens tokenId)
      return (tokenId, token, asset)) = .ok tokens) :
    tokens.map (·.2.2) = assets ∧
      ∀ x ∈ tokens, s.tokenIds x.2.2.name = some x.1 ∧ (s.tokens x.1).isSome := by
  induction assets generalizing tokens with
  | nil =>
    cases pure_ok.1 h
    simp
  | cons asset assets ih =>
    simp only [mapM_cons, bind_ok, unwrap_ok, pure_ok] at h
    obtain ⟨_, ⟨tokenId, hid, token, htoken, rfl⟩, rest, hrest, rfl⟩ := h
    obtain ⟨hmap, hall⟩ := ih hrest
    exact ⟨by simp [hmap], forall_mem_cons.2 ⟨⟨hid, by simp [htoken]⟩, hall⟩⟩

def creditsOf (d : Deployment) (a : AccountId) (assets : List TransferableAsset) : List Movement :=
  assets.map fun x => .internalTransfer a (hashTokenId d x.name) x.amount

theorem Accepts.receives (hs : Sound d s) (h : Accepts d s a assets (.ok r) s') :
    Receives d (creditsOf d a assets) s s' := by
  cases h with
  | accepted message tokens s' htokens hverdict h =>
    obtain ⟨hmap, hknown⟩ := lookup_ok htokens
    have htransferable := isTokensTransferable_ok hverdict
    have hcredits : creditsOf d a assets = tokens.map (creditTo a) := by
      rw [creditsOf, ← hmap, map_map]
      refine map_congr_left fun x hx => ?_
      simp only [comp_apply, creditTo, ← hs.ids _ _ (hknown x hx).1]
    rw [hcredits]
    exact receiveAssets_receives (fun x hx =>
      ⟨(htransferable x hx).known, (hknown x hx).2, (htransferable x hx).other⟩) h

def Sent (s t : St) (n : ℤ) (network : String) (message : TokenServiceMessage) : Prop :=
  { promise := .sendServiceMessage n network message } ∈ t.receipts.drop s.receipts.length

theorem handleBtpMessage_receives (hs : Sound d s)
    (h : handleBtpMessage d env s source service n (.ok (.requestTokenTransfer sender a assets)) =
      .ok t)
    (hsent : Sent s t n source.networkAddress (.responseHandleService rcOk message)) :
    ∃ s' response, Receives d (creditsOf d a assets) s s' ∧ t = sendResponse s' n source response := by
  simp only [handleBtpMessage, bind_ok] at h
  obtain ⟨_, -, _, -, ⟨r, s'⟩, hr, h⟩ := h
  have haccepts := handleTokenTransfer_accepts hr
  cases haccepts with
  | refused e =>
    -- the only message is the refusal
    cases pure_ok.1 h
    simp [Sent, sendResponse, sendMessage, St.promise, rcOk] at hsent
  | accepted response tokens _ htokens hverdict hfold =>
    cases pure_ok.1 h
    exact ⟨s', response, Accepts.receives hs (.accepted response tokens s' htokens hverdict hfold), rfl⟩

def started (s t : St) : List Bool :=
  List.replicate s.receipts.length false ++
    (t.receipts.drop s.receipts.length).map fun r => r.promise.credit.isSome

theorem Promise.Ready.credit_isSome {p : Promise} (hp : p.Ready d s) : p.credit.isSome := by
  cases p with
  | mint => rfl
  | _ => exact hp.elim

theorem Receives.owes (hs : Sound d s) (h : Receives d credits s s') :
    Owes d s credits (sendResponse s' n source response,
      started s (sendResponse s' n source response)) := by
  obtain ⟨ms, ps, hposts, hready, hperm⟩ := h
  have hsend : Books d [] _ s' (sendResponse s' n source response) := .promise trivial
  have hall := hposts.trans hsend.toPosts
  have hnew : (sendResponse s' n source response).receipts = s.receipts ++
      (ps.map (fun p => { promise := p }) ++
        [{ promise := .sendServiceMessage n source.networkAddress response }]) := by
    rw [hall.receipts, map_append]
    rfl
  have hpending : Watched.pending (sendResponse s' n source response,
      started s (sendResponse s' n source response)) = ps := by
    have hmints : (ps.map fun p => ({ promise := p } : Receipt)).filter
        (fun r => r.promise.credit.isSome) = ps.map fun p => { promise := p } := by
      rw [filter_eq_self]
      intro r hr
      obtain ⟨p, hp, rfl⟩ := mem_map.1 hr
      exact (hready p hp).credit_isSome
    simp only [Watched.pending, started, hnew, drop_left]
    rw [marked_unmarked, marked_map, filter_append, hmints]
    simp [Promise.credit, comp_def]
  rw [append_nil] at hall
  refine ⟨hall.sound hs, ?_, ?_, ms, hall.journal, hall.amount, ?_⟩
  · rw [started, hnew]
    simp
  · rw [hpending]
    exact fun p hp => (hready p hp).keeps hsend.keeps
  · rw [hpending]
    exact hperm.subperm

/-- A request that is answered with success: when every mint it has started
succeeds and its callback has room for the amount, then after the callbacks every
asset of the request was credited to the receiver. The balances are what the
journal says, so the receiver's deposit has grown by these credits. -/
theorem success_credited (d : Deployment) (before after : List Act) (env : Env) (source : BTPAddress)
    (service : String) (n : ℤ) (sender receiver message : String) (assets : List TransferableAsset)
    (s t : St) (hs : s = run (step d) (initialState d) before)
    (ht : t = exec (step d) s (.call env (.handleBtpMessage source service n
      (.ok (.requestTokenTransfer sender receiver assets)))))
    (hsent : Sent s t n source.networkAddress (.responseHandleService rcOk message))
    (hmints : Along (watch d) (fun x act => act.Mints d x) (t, started s t) after)
    (hdone : (run (watch d) (t, started s t) after).pending = []) :
    let u := run (step d) t after
    ∃ ms, u.journal = s.journal ++ ms ∧
      (∀ p k, (u.amount p k : ℤ) = s.amount p k + effects d ms p k) ∧
      (creditsOf d receiver assets).Subperm ms := by
  have hsound : Sound d s := hs ▸ run_sound before
  have howes : Owes d s (creditsOf d receiver assets) (t, started s t) := by
    cases hstep : step d s (.call env (.handleBtpMessage source service n
        (.ok (.requestTokenTransfer sender receiver assets)))) with
    | error e =>
      -- a call that panics sends nothing
      rw [ht, exec_of_error hstep] at hsent
      simp [Sent] at hsent
    | ok t' =>
      rw [exec_of_ok hstep] at ht
      subst ht
      obtain ⟨s', response, hreceives, rfl⟩ := handleBtpMessage_receives hsound hstep hsent
      exact hreceives.owes hsound
  have hend := run_along (fun _ _ _ hx hact h => Owes.step hx hact h) howes hmints
  obtain ⟨ms, hjournal, hamount, hcredits⟩ := hend.posted
  rw [hdone] at hcredits
  rw [watch_run] at hjournal hamount
  exact ⟨ms, hjournal, hamount, by simpa using hcredits⟩

def icx : Token where
  name := "btp-0x1.icon-ICX"
  uri := some "icx.near"
  network := "0x1.icon"
  feeNumerator := 100
  fixedFee := 0
  extras := true
  tokenLimit := none

def icxRegistered : List Act :=
  [.call serviceCall (.register icx), .execute 0 (.successful none), .callback 0 serviceCall]

def icxKnown : St := run (step sample) (initialState sample) icxRegistered

def bobReceives : Act := .call { predecessor := "bmc.near" } (.handleBtpMessage ⟨"0x1.icon", "cx12"⟩
  "bts" 7 (.ok (.requestTokenTransfer "hx12" "bob.near" [⟨icx.name, 50, 0⟩])))

def bobAnswered : St := exec (step sample) icxKnown bobReceives

def mintEnds (result : PromiseResult) : List Act := [.execute 0 result, .callback 0 serviceCall]

theorem bob_credited :
    let u := run (step sample) bobAnswered (mintEnds (.successful (some 0)))
    u.amount .deposit ("bob.near", 16) = 50 ∧
      ∃ ms, u.journal = icxKnown.journal ++ ms ∧
        (∀ p k, (u.amount p k : ℤ) = icxKnown.amount p k + effects sample ms p k) ∧
        (creditsOf sample "bob.near" [⟨icx.name, 50, 0⟩]).Subperm ms := by
  refine ⟨by decide +kernel, ?_⟩
  refine success_credited sample icxRegistered (mintEnds (.successful (some 0)))
    { predecessor := "bmc.near" } ⟨"0x1.icon", "cx12"⟩ "bts" 7 "hx12" "bob.near" "Transfer Success"
    [⟨icx.name, 50, 0⟩] icxKnown bobAnswered rfl rfl ?_ ?_ ?_
  · unfold Sent
    decide +kernel
  · decide +kernel
  · decide +kernel

/-- The mint fails after the request was answered with success. -/
theorem bob_not_credited :
    let u := run (step sample) bobAnswered (mintEnds .failed)
    Sent icxKnown bobAnswered 7 "0x1.icon" (.responseHandleService rcOk "Transfer Success") ∧
      (run (watch sample) (bobAnswered, started icxKnown bobAnswered) (mintEnds .failed)).pending = [] ∧
      icxKnown.amount .deposit ("bob.near", 16) = 0 ∧ u.amount .deposit ("bob.near", 16) = 0 := by
  unfold Sent
  decide +kernel

end IconBridge.Near.BTS
