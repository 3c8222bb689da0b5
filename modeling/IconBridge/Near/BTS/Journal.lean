import Mathlib.Algebra.BigOperators.Group.List.Basic
import Mathlib.Algebra.Group.Pi.Basic
import IconBridge.Lib.Runs
import IconBridge.Near.BTS.Chain

/-!
# The journal

Every amount a balance holds is the sum of what the journal says was put there.
Of each function it is said once which entries it makes, which promises it starts
and what it leaves alone.
-/

namespace IconBridge.Near.BTS

open Lib Function List Option

inductive Pocket
  | deposit
  | refundable
  | locked
  deriving DecidableEq, Repr

def AccountBalance.amount (b : AccountBalance) : Pocket → ℕ
  | .deposit => b.deposit
  | .refundable => b.refundable
  | .locked => b.locked

def St.amount (s : St) (p : Pocket) (k : Key) : ℕ := ((s.balances k).getD {}).amount p

def entry (p : Pocket) (k : Key) (v : ℕ) (q : Pocket) (l : Key) : ℤ :=
  if q = p ∧ l = k then v else 0

def Movement.effect (d : Deployment) : Movement → Pocket → Key → ℤ
  | .deposit k v => entry .deposit k v
  | .withdraw k v => -entry .deposit k v
  | .reclaim k v => entry .deposit k v - entry .refundable k v
  | .lock k v => entry .locked k v - entry .deposit k v
  | .mint t v => entry .deposit (d.account, t) v
  | .burn t v => -entry .deposit (d.account, t) v
  | .internalTransfer a t v => entry .deposit (a, t) v - entry .deposit (d.account, t) v
  | .finalize k v fees => entry .deposit (d.account, k.2) (v + fees) - entry .locked k (v + fees)
  | .rollback k v fees =>
    entry .refundable k v + entry .deposit (d.account, k.2) fees - entry .locked k (v + fees)

def effects (d : Deployment) (ms : List Movement) (p : Pocket) (k : Key) : ℤ :=
  (ms.map fun m => m.effect d p k).sum

@[simp] theorem effects_nil : effects d [] p k = 0 := rfl

@[simp] theorem effects_cons : effects d (m :: ms) p k = m.effect d p k + effects d ms p k := by
  simp [effects]

@[simp] theorem effects_append :
    effects d (ms ++ ns) p k = effects d ms p k + effects d ns p k := by
  simp [effects]

def worth (t u : TokenId) (v : ℕ) : ℤ := if u = t then v else 0

def Movement.net (t : TokenId) : Movement → ℤ
  | .deposit k v => worth t k.2 v
  | .withdraw k v => -worth t k.2 v
  | .mint u v => worth t u v
  | .burn u v => -worth t u v
  | _ => 0

def nets (t : TokenId) (ms : List Movement) : ℤ := (ms.map (Movement.net t)).sum

theorem nets_eq_zero (h : ∀ m ∈ ms, m.net t = 0) : nets t ms = 0 :=
  sum_eq_zero (forall_mem_map.2 h)

def Promise.isWithdrawal : Promise → Bool
  | .withdraw .. => true
  | _ => false

def Promise.Proper (d : Deployment) : Promise → Prop
  | .register token t => t = hashTokenId d token.name
  | _ => True

/-- The service has a balance of every token it knows, so registering a token
again does not overwrite one; and the id of a token is the hash of its name. -/
structure Sound (d : Deployment) (s : St) : Prop where
  values : ∀ t, (s.balances (d.account, t)).isSome → s.balanceKeys (d.account, t) = true
  known : ∀ name t, s.tokenIds name = some t → s.balanceKeys (d.account, t) = true
  registered : ∀ a t, s.registeredTokens a = some t → s.balanceKeys (d.account, t) = true
  ids : ∀ name t, s.tokenIds name = some t → t = hashTokenId d name
  tokens : ∀ t token, s.tokens t = some token → s.tokenIds token.name = some t
  proper : ∀ r ∈ s.receipts, r.promise.Proper d

variable {d : Deployment} {env : Env} {s s' t u : St} {ms ns : List Movement} {ps qs : List Promise}
  {assets : List TransferableAsset}

theorem Sound.congr (hs : Sound d s) (hkeys : s'.balanceKeys = s.balanceKeys)
    (hids : s'.tokenIds = s.tokenIds) (hregistered : s'.registeredTokens = s.registeredTokens)
    (hnames : ∀ t, (s'.tokens t).map Token.name = (s.tokens t).map Token.name)
    (hvalues : ∀ t, (s'.balances (d.account, t)).isSome → s.balanceKeys (d.account, t) = true)
    (hproper : ∀ r ∈ s'.receipts, r.promise.Proper d) : Sound d s' where
  values := hkeys ▸ hvalues
  known := by rw [hids, hkeys]; exact hs.known
  registered := by rw [hregistered, hkeys]; exact hs.registered
  ids := hids ▸ hs.ids
  tokens t token h := by
    have hname := hnames t
    rw [h, map_some, eq_comm, map_eq_some_iff] at hname
    obtain ⟨old, hold, heq⟩ := hname
    rw [hids, ← heq]
    exact hs.tokens t old hold
  proper := hproper

theorem Sound.of_some (hs : Sound d s) (hb : s.balances k = some b) (hk : k.1 = d.account) :
    s.balanceKeys k = true := by
  obtain ⟨a, t⟩ := k
  obtain rfl : a = d.account := hk
  exact hs.values t (by simp [hb])

theorem Sound.of_requests (hs : Sound d s) (serialNo : ℤ) (requests : ℤ → Option Request) :
    Sound d { s with serialNo, requests } :=
  hs.congr rfl rfl rfl (fun _ => rfl) hs.values hs.proper

theorem initialState_sound : Sound d (initialState d) where
  values t hsome := by
    simp only [initialState, update_apply] at hsome ⊢
    split <;> simp_all
  known name t h := by
    simp only [initialState, update_apply] at h ⊢
    split at h <;> simp_all
  registered := nofun
  ids name t := by
    simp only [initialState, update_apply]
    split
    · next h => rw [h]; rintro ⟨⟩; rfl
    · simp
  tokens t token := by
    simp only [initialState, update_apply]
    split
    · next h => rw [h]; rintro ⟨⟩; simp
    · simp
  proper := by simp [initialState]

structure Keeps (s s' : St) : Prop where
  balances : ∀ k, (s.balances k).isSome → (s'.balances k).isSome
  tokens : ∀ t, (s.tokens t).isSome → (s'.tokens t).isSome

theorem Keeps.trans (h : Keeps s t) (h' : Keeps t u) : Keeps s u :=
  ⟨fun k hk => h'.balances k (h.balances k hk), fun id hid => h'.tokens id (h.tokens id hid)⟩

/-- From `s` to `s'` the service has made the entries `ms` and started `ps`. -/
structure Posts (d : Deployment) (ms : List Movement) (ps : List Promise) (s s' : St) : Prop where
  journal : s'.journal = s.journal ++ ms
  amount : ∀ p k, (s'.amount p k : ℤ) = s.amount p k + effects d ms p k
  transferred : s'.transferred = s.transferred
  receipts : s'.receipts = s.receipts ++ ps.map (⟨·, none⟩)
  keeps : Keeps s s'
  sound : Sound d s → Sound d s'

structure Books (d : Deployment) (ms : List Movement) (ps : List Promise) (s s' : St) : Prop
    extends Posts d ms ps s s' where
  requests : s'.requests = s.requests
  serialNo : s'.serialNo = s.serialNo
  ids : ∀ name t, s.tokenIds name = some t → s'.tokenIds name = some t

theorem Posts.trans (h : Posts d ms ps s t) (h' : Posts d ns qs t u) :
    Posts d (ms ++ ns) (ps ++ qs) s u where
  journal := by rw [h'.journal, h.journal, append_assoc]
  amount p k := by rw [h'.amount, h.amount, effects_append, add_assoc]
  transferred := h'.transferred.trans h.transferred
  receipts := by rw [h'.receipts, h.receipts, map_append, append_assoc]
  keeps := h.keeps.trans h'.keeps
  sound hs := h'.sound (h.sound hs)

theorem Books.trans (h : Books d ms ps s t) (h' : Books d ns qs t u) :
    Books d (ms ++ ns) (ps ++ qs) s u :=
  ⟨h.toPosts.trans h'.toPosts, h'.requests.trans h.requests, h'.serialNo.trans h.serialNo,
    fun name id hid => h'.ids name id (h.ids name id hid)⟩

def rest (s : St) :=
  (s.balances, s.balanceKeys, s.tokenIds, s.registeredTokens, s.transferred, s.receipts, s.journal,
    s.requests, s.serialNo, fun t => (s.tokens t).map Token.name)

theorem Books.of_rest (h : rest s' = rest s) : Books d [] [] s s' := by
  simp only [rest, Prod.mk.injEq] at h
  obtain ⟨hb, hk, hi, hr, ht, hrec, hj, hreq, hn, hnames⟩ := h
  refine ⟨⟨by simp [hj], fun p k => by simp [St.amount, hb], ht, by simp [hrec],
    ⟨fun k hk => hb ▸ hk, fun id hid => ?_⟩, fun hs => ?_⟩, hreq, hn, fun _ _ => hi ▸ id⟩
  · rw [← isSome_map, congrFun hnames id, isSome_map]
    exact hid
  · exact hs.congr hk hi hr (congrFun hnames) (hb ▸ hs.values) (hrec ▸ hs.proper)

theorem Books.refl : Books d [] [] s s := .of_rest rfl

theorem Books.promise (hp : p.Proper d) : Books d [] [p] s (s.promise p) where
  journal := by simp [St.promise]
  amount _ _ := by simp [St.promise, St.amount]
  transferred := rfl
  receipts := rfl
  keeps := ⟨fun _ => id, fun _ => id⟩
  sound hs := by
    refine hs.congr rfl rfl rfl (fun _ => rfl) hs.values fun r hr => ?_
    rcases mem_append.1 hr with hr | hr
    · exact hs.proper r hr
    · exact mem_singleton.1 hr ▸ hp
  requests := rfl
  serialNo := rfl
  ids _ _ := id

theorem Books.setToken (h : s.tokens tokenId = some token) (hname : token'.name = token.name) :
    Books d [] [] s (s.setToken tokenId token') := by
  refine .of_rest ?_
  simp only [rest, Prod.mk.injEq]
  refine ⟨rfl, rfl, rfl, rfl, rfl, rfl, rfl, rfl, rfl, funext fun t => ?_⟩
  simp only [St.setToken, update_apply]
  split
  · next heq => rw [heq, h, map_some, map_some, hname]
  · rfl

theorem Posts.of_requests (h : Posts d ms ps s t) (serialNo : ℤ) (requests : ℤ → Option Request) :
    Posts d ms ps s { t with serialNo, requests } :=
  ⟨h.journal, h.amount, h.transferred, h.receipts, ⟨h.keeps.balances, h.keeps.tokens⟩,
    fun hs => (h.sound hs).of_requests serialNo requests⟩

/-- From `s` to `s'` only balances and fees are written, which adds `e`. -/
structure Pours (d : Deployment) (e : Pocket → Key → ℤ) (s s' : St) : Prop where
  eq : ∃ balances tokenFees, s' = { s with balances, tokenFees }
  amount : ∀ p k, (s'.amount p k : ℤ) = s.amount p k + e p k
  keeps : ∀ k, (s.balances k).isSome → (s'.balances k).isSome
  sound : Sound d s → Sound d s'

theorem Pours.trans (h : Pours d e s t) (h' : Pours d e' t u) : Pours d (e + e') s u where
  eq := by
    obtain ⟨_, _, rfl⟩ := h.eq
    obtain ⟨_, _, rfl⟩ := h'.eq
    exact ⟨_, _, rfl⟩
  amount p k := by rw [h'.amount, h.amount, add_assoc]; rfl
  keeps k hk := h'.keeps k (h.keeps k hk)
  sound hs := h'.sound (h.sound hs)

theorem amount_update (f : Key → Option AccountBalance) :
    ((update f k (some b) l).getD {}).amount p =
      if l = k then b.amount p else ((f l).getD {}).amount p := by
  rw [update_apply]
  split <;> rfl

theorem isSome_update [DecidableEq α] {f : α → Option β} {x y : α} (h : (f y).isSome) :
    (update f x (some v) y).isSome := by
  rw [update_apply]
  split
  · rfl
  · exact h

theorem Pours.setBalance (hkey : Sound d s → k.1 = d.account → s.balanceKeys k = true) :
    Pours d (fun p l => if l = k then b.amount p - s.amount p k else 0) s (s.setBalance k b) where
  eq := ⟨_, s.tokenFees, rfl⟩
  amount p l := by
    simp only [St.setBalance, St.amount, amount_update]
    split
    · next h => rw [h, add_sub_cancel]
    · exact (add_zero _).symm
  keeps _ := isSome_update
  sound hs := by
    refine hs.congr rfl rfl rfl (fun _ => rfl) (fun t hsome => ?_) hs.proper
    by_cases heq : (d.account, t) = k
    · rw [heq]
      exact hkey hs (by rw [← heq])
    · simp only [St.setBalance, update_of_ne heq] at hsome
      exact hs.values t hsome

theorem amount_of_some (h : s.balances k = some b) : s.amount p k = b.amount p := by
  rw [St.amount, h]
  rfl

theorem Pours.write (hb : s.balances k = some b) :
    Pours d (fun p l => if l = k then b'.amount p - b.amount p else 0) s (s.setBalance k b') := by
  have hset := Pours.setBalance (b := b') fun hs : Sound d s => hs.of_some hb
  simpa only [amount_of_some hb] using hset

theorem Pours.setTokenFee (h : Pours d e s t) : Pours d e s (t.setTokenFee tokenId fee) where
  eq := by
    obtain ⟨_, _, rfl⟩ := h.eq
    exact ⟨_, _, rfl⟩
  amount := h.amount
  keeps := h.keeps
  sound hs := (h.sound hs).congr rfl rfl rfl (fun _ => rfl) (h.sound hs).values (h.sound hs).proper

theorem Pours.books (h : Pours d e s t) (hm : ∀ p k, m.effect d p k = e p k) :
    Books d [m] [] s (t.note m) := by
  obtain ⟨_, _, rfl⟩ := h.eq
  refine ⟨⟨rfl, fun p k => ?_, rfl, by simp [St.note], ⟨h.keeps, fun _ => id⟩, fun hs => ?_⟩, rfl,
    rfl, fun _ _ => id⟩
  · rw [effects_cons, effects_nil, add_zero, hm]
    exact h.amount p k
  · exact (h.sound hs).congr rfl rfl rfl (fun _ => rfl) (h.sound hs).values (h.sound hs).proper

def locks (l : List (Key × ℕ)) : List Movement := l.map fun x => .lock x.1 x.2

theorem locks_net (l : List (Key × ℕ)) {t : TokenId} : nets t (locks l) = 0 :=
  nets_eq_zero (forall_mem_map.2 fun _ _ => rfl)

/-- The assets `xs` of `a` are locked; `ys` are their tokens and whole amounts. -/
structure Locks (d : Deployment) (a : AccountId) (xs : List TransferableAsset)
    (ys : List (TokenId × ℕ)) (s s' : St) : Prop where
  books : Books d (locks (ys.map fun y => ((a, y.1), y.2))) [] s s'
  ids : s'.tokenIds = s.tokenIds
  fits : List.Forall₂ (fun x y => s.tokenIds x.name = some y.1 ∧ x.amount + x.fees = y.2) xs ys

theorem Locks.nil (h : rest s' = rest s) : Locks d a [] [] s s' :=
  ⟨.of_rest h, congrArg (·.2.2.1) h, .nil⟩

theorem Locks.trans (h : Locks d a xs ys s t) (h' : Locks d a xs' ys' t u) :
    Locks d a (xs ++ xs') (ys ++ ys') s u :=
  ⟨by simpa [locks] using h.books.trans h'.books, h'.ids.trans h.ids,
    rel_append h.fits (h.ids ▸ h'.fits)⟩

theorem processExternalTransfer_locks (hs : Sound d s)
    (h : processExternalTransfer s tokenId a v = .ok (x, s')) :
    Locks d a [x] [(tokenId, v)] s s' := by
  simp only [processExternalTransfer, bind_ok, unwrap_ok, add_ok, sub_ok, pure_ok,
    Prod.mk.injEq] at h
  obtain ⟨token, htoken, fees, -, _, -, _, ⟨hfees, rfl⟩, b, hb, _, ⟨-, rfl⟩, _, ⟨hd1, rfl⟩, _,
    ⟨hd2, rfl⟩, _, ⟨-, rfl⟩, rfl, rfl⟩ := h
  refine ⟨?_, rfl, .cons ⟨hs.tokens tokenId token htoken, Nat.sub_add_cancel hfees⟩ .nil⟩
  rw [Nat.sub_add_cancel hfees]
  refine (Pours.write hb).books fun p l => ?_
  cases p <;> simp [Movement.effect, entry, AccountBalance.amount] <;> split_ifs <;> omega

theorem processBatch_locks (hs : Sound d s) (h : processBatch a amounts s ids = .ok (xs, s')) :
    Locks d a xs (ids.zip amounts) s s' := by
  induction ids generalizing s amounts xs with
  | nil =>
    simp only [processBatch, Except.ok.injEq, Prod.mk.injEq] at h
    obtain ⟨rfl, rfl⟩ := h
    exact .nil rfl
  | cons id ids ih =>
    cases amounts with
    | nil => contradiction
    | cons v amounts =>
      simp only [processBatch, bind_ok, pure_ok, Prod.exists, Prod.mk.injEq] at h
      obtain ⟨_, -, x, t, ht, rest, u, hu, rfl, rfl⟩ := h
      have hfirst := processExternalTransfer_locks hs ht
      exact hfirst.trans (ih (hfirst.books.sound hs) hu)

theorem collectFee_locks (hs : Sound d s) (hx : ∃ ys, Locks d d.account x.1 ys s x.2)
    (h : collectFee d x tokenKey = .ok y) : ∃ ys, Locks d d.account y.1 ys s y.2 := by
  simp only [collectFee, bind_ok] at h
  obtain ⟨token, -, tokenId, -, fee, -, h⟩ := h
  split at h
  · simp only [bind_ok, pure_ok, Prod.exists] at h
    obtain ⟨asset, t, ht, rfl⟩ := h
    obtain ⟨ys, hx⟩ := hx
    have hclear : Locks d d.account [] [] x.2 (x.2.setTokenFee tokenId 0) := .nil rfl
    have hlock := processExternalTransfer_locks (hclear.books.sound (hx.books.sound hs)) ht
    exact ⟨_, hx.trans (hclear.trans hlock)⟩
  · cases h
    exact hx

def St.file (s : St) (r : Request) : St :=
  { s with
    serialNo := s.serialNo + 1
    requests := update s.requests (s.serialNo + 1) (some r) }

def St.discard (s : St) (n : ℤ) : St :=
  { s with requests := update s.requests n none }

inductive Files (d : Deployment) (a : AccountId) (xs : List TransferableAsset)
    (ys : List (TokenId × ℕ)) (s s' : St) : Prop
  | intro (mid : St) (receiver : String) (p : Promise) (hp : p.isWithdrawal = false)
      (h : Locks d a xs ys s mid) (hsend : Books d [] [p] (mid.file ⟨a, receiver, xs⟩) s')

theorem sendRequest_files (h : Locks d a xs ys s t)
    (hsend : sendRequest t a destination xs = .ok u) (hrest : Books d [] [] u s') :
    Files d a xs ys s s' := by
  simp only [sendRequest, bind_ok, pure_ok] at hsend
  obtain ⟨_, -, rfl⟩ := hsend
  refine ⟨t, destination.contractAddress, _, rfl, h, .trans (.promise ?_) hrest⟩
  trivial

theorem Files.posts (h : Files d a xs ys s s') :
    ∃ p, p.isWithdrawal = false ∧ Posts d (locks (ys.map fun y => ((a, y.1), y.2))) [p] s s' := by
  obtain ⟨mid, receiver, p, hp, h, hsend⟩ := h
  have hfile : Posts d _ _ s (mid.file ⟨a, receiver, xs⟩) := h.books.toPosts.of_requests ..
  exact ⟨p, hp, by simpa using hfile.trans hsend.toPosts⟩

theorem transferFees_files (hs : Sound d s) (h : transferFees d s aggregator = .ok s') :
    ∃ xs ys, Files d d.account xs ys s s' := by
  simp only [transferFees, bind_ok, Prod.exists] at h
  obtain ⟨xs, t, ht, h⟩ := h
  obtain ⟨ys, hlocks⟩ := foldlM_ok (P := fun x => ∃ ys, Locks d d.account x.1 ys s x.2)
    (fun _ _ _ _ => collectFee_locks hs) ⟨[], .nil rfl⟩ ht
  exact ⟨xs, ys, sendRequest_files hlocks h .refl⟩

def Call.takes (env : Env) (s : St) : Call → List (Key × ℕ)
  | .withdraw name v => ((s.tokenIds name).map fun t => ((env.predecessor, t), v)).toList
  | .transfer name _ v => ((s.tokenIds name).map fun t => ((env.predecessor, t), v)).toList
  | .transferBatch names _ amounts => (names.zip amounts).filterMap fun x =>
      (s.tokenIds x.1).map fun t => ((env.predecessor, t), x.2)
  | _ => []

theorem batch_takes {names : List String} {ids : List TokenId} {a : AccountId} {amounts : List ℕ}
    (h : names.mapM (getTokenId s) = .ok ids) :
    (names.zip amounts).filterMap (fun x => (s.tokenIds x.1).map fun t => ((a, t), x.2)) =
      (ids.zip amounts).map fun x => ((a, x.1), x.2) := by
  induction names generalizing ids amounts with
  | nil =>
    cases h
    rfl
  | cons name names ih =>
    simp only [mapM_cons, bind_ok, getTokenId_ok, pure_ok] at h
    obtain ⟨id, hid, ids', hids, rfl⟩ := h
    cases amounts with
    | nil => rfl
    | cons v amounts => simp [hid, ih hids]

theorem transfer_files (hs : Sound d s) (h : transfer env s name destination v = .ok s') :
    ∃ x tokenId, s.tokenIds name = some tokenId ∧
      Files d env.predecessor [x] [(tokenId, v)] s s' := by
  simp only [transfer, bind_ok, getTokenId_ok, pure_ok, Prod.exists] at h
  obtain ⟨_, -, tokenId, hid, _, -, x, t, ht, u, hu, rfl⟩ := h
  refine ⟨x, tokenId, hid, sendRequest_files (processExternalTransfer_locks hs ht) hu ?_⟩
  exact .of_rest rfl

theorem transferBatch_files (hs : Sound d s)
    (h : transferBatch env s names destination amounts = .ok s') :
    ∃ xs ids, names.mapM (getTokenId s) = .ok ids ∧
      Files d env.predecessor xs (ids.zip amounts) s s' := by
  simp only [transferBatch, bind_ok, pure_ok, Prod.exists] at h
  obtain ⟨ids, hids, cost, -, _, -, xs, t, ht, u, hu, rfl⟩ := h
  refine ⟨xs, ids, hids, sendRequest_files (processBatch_locks hs ht) hu (.of_rest ?_)⟩
  exact foldl_keeps rest fun _ _ => rfl

inductive Ending
  | finalized
  | rolledBack
  deriving DecidableEq, Repr

def Ending.movement (d : Deployment) (a : AccountId) (e : Ending) (x : TransferableAsset) : Movement :=
  match e with
  | .finalized => .finalize (a, hashTokenId d x.name) x.amount x.fees
  | .rolledBack => .rollback (a, hashTokenId d x.name) x.amount x.fees

def Request.settlement (d : Deployment) (r : Request) (e : Ending) : List Movement :=
  r.assets.map (e.movement d r.sender)

def endingOf (code : ℕ) : Option Ending :=
  if code = rcOk then some .finalized else if code = rcError then some .rolledBack else none

def Movement.isSettlement : Movement → Bool
  | .finalize .. | .rollback .. => true
  | _ => false

theorem settlement_isSettlement {r : Request} {e : Ending} (h : m ∈ r.settlement d e) :
    m.isSettlement = true := by
  obtain ⟨x, -, rfl⟩ := mem_map.1 h
  cases e <;> rfl

def Plain (ps : List Promise) : Prop := ∀ p ∈ ps, p.isWithdrawal = false

theorem Plain.nil : Plain [] := nofun

theorem Plain.one (h : p.isWithdrawal = false) : Plain [p] := by simpa [Plain] using h

theorem Plain.append (h : Plain ps) (h' : Plain qs) : Plain (ps ++ qs) :=
  fun p hp => (mem_append.1 hp).elim (h p) (h' p)

/-- The sender's balance is written and then the service's own, which may be the same. -/
theorem rollbackAsset_books (hs : Sound d s) (h : rollbackAsset d a s x = .ok s') :
    Books d [Ending.rolledBack.movement d a x] [] s s' := by
  simp only [rollbackAsset, bind_ok, getTokenId_ok, unwrap_ok, add_ok, sub_ok, plus_ok, pure_ok] at h
  obtain ⟨tokenId, hid, _, -, b, hb, _, ⟨-, rfl⟩, _, ⟨hle, rfl⟩, _, ⟨-, rfl⟩, own, hown, _, ⟨-, rfl⟩, _,
    ⟨-, rfl⟩, rfl⟩ := h
  obtain rfl := hs.ids x.name tokenId hid
  refine ((Pours.write hb).trans (.write hown)).setTokenFee.books fun p l => ?_
  cases p <;> simp [Ending.movement, Movement.effect, entry, AccountBalance.amount]
  split_ifs <;> omega

theorem burnForeign_books {p : Prop} [Decidable p]
    (h : (if p then burn s tokenId v token else pure s) = .ok s') :
    ∃ ps, Plain ps ∧ Books d [] ps s s' := by
  split at h
  · simp only [burn, bind_ok, pure_ok] at h
    obtain ⟨uri, -, rfl⟩ := h
    exact ⟨_, .one rfl, .promise trivial⟩
  · exact ⟨[], .nil, pure_ok.1 h ▸ .refl⟩

theorem finalizeAsset_books (hs : Sound d s) (h : finalizeAsset d a s x = .ok s') :
    ∃ ps, Plain ps ∧ Books d [Ending.finalized.movement d a x] ps s s' := by
  simp only [finalizeAsset, bind_ok, getTokenId_ok, unwrap_ok, add_ok, sub_ok, plus_ok] at h
  obtain ⟨tokenId, hid, token, -, _, -, b, hb, _, ⟨-, rfl⟩, _, ⟨hle, rfl⟩, own, hown, _, ⟨-, rfl⟩, _,
    ⟨-, rfl⟩, h⟩ := h
  obtain rfl := hs.ids x.name tokenId hid
  obtain ⟨ps, hps, hburn⟩ := burnForeign_books (d := d) h
  refine ⟨ps, hps, .trans (((Pours.write hb).trans (.write hown)).setTokenFee.books fun p l => ?_) hburn⟩
  cases p <;> simp [Ending.movement, Movement.effect, entry, AccountBalance.amount]
  split_ifs <;> omega

theorem settle_books {f : St → TransferableAsset → Outcome St} {e : Ending}
    (hf : ∀ s x s', Sound d s → f s x = .ok s' →
      ∃ ps, Plain ps ∧ Books d [e.movement d a x] ps s s')
    (hs : Sound d s) (h : assets.foldlM f s = .ok s') :
    ∃ ps, Plain ps ∧ Books d (assets.map (e.movement d a)) ps s s' := by
  induction assets generalizing s with
  | nil =>
    cases pure_ok.1 h
    exact ⟨[], .nil, .refl⟩
  | cons x assets ih =>
    simp only [foldlM_cons, bind_ok] at h
    obtain ⟨t, ht, h⟩ := h
    obtain ⟨ps, hps, hfirst⟩ := hf s x t hs ht
    obtain ⟨qs, hqs, hrest⟩ := ih (hfirst.sound hs) h
    exact ⟨ps ++ qs, hps.append hqs, hfirst.trans hrest⟩

theorem rollbackExternalTransfer_books (hs : Sound d s)
    (h : rollbackExternalTransfer d s a assets = .ok s') :
    ∃ ps, Plain ps ∧ Books d (assets.map (Ending.rolledBack.movement d a)) ps s s' :=
  settle_books (fun _ _ _ hs h => ⟨[], .nil, rollbackAsset_books hs h⟩) hs h

inductive Responds (d : Deployment) (s : St) (n : ℤ) (code : ℕ) (s' : St) : Prop
  | unknown (hr : s.requests n = none) (h : s' = s)
  | settled (r : Request) (e : Ending) (ps : List Promise) (t : St) (hr : s.requests n = some r)
      (he : endingOf code = some e) (hps : Plain ps) (h : Books d (r.settlement d e) ps s t)
      (h' : s' = t.discard n)
  | dropped (r : Request) (hr : s.requests n = some r) (he : endingOf code = none)
      (h : s' = s.discard n)

theorem handleResponse_responds (hs : Sound d s) (h : handleResponse d s n code = .ok s') :
    Responds d s n code s' := by
  unfold handleResponse at h
  split at h
  · next hr =>
    cases h
    exact .unknown hr rfl
  · next r hr =>
    simp only [bind_ok, pure_ok] at h
    obtain ⟨t, ht, rfl⟩ := h
    unfold settleRequest at ht
    split at ht
    · next hcode =>
      obtain ⟨ps, hps, hbooks⟩ := settle_books (fun _ _ _ => finalizeAsset_books) hs ht
      exact .settled r .finalized ps t hr (by simp [endingOf, hcode]) hps hbooks rfl
    · next hcode =>
      split at ht
      · next hcode' =>
        obtain ⟨ps, hps, hbooks⟩ := rollbackExternalTransfer_books hs ht
        exact .settled r .rolledBack ps t hr (by rw [endingOf, if_neg hcode, if_pos hcode']) hps hbooks rfl
      · next hcode' =>
        cases ht
        exact .dropped r hr (by simp [endingOf, hcode, hcode']) rfl

theorem Responds.posts (h : Responds d s n code s') :
    ∃ ms ps, Posts d ms ps s s' ∧ (∀ m ∈ ms, m.isSettlement = true) ∧ Plain ps := by
  cases h with
  | unknown _ h => exact ⟨[], [], h ▸ Books.refl.toPosts, nofun, .nil⟩
  | settled r e ps t _ _ hps h h' =>
    subst h'
    exact ⟨_, ps, h.toPosts.of_requests .., fun _ => settlement_isSettlement, hps⟩
  | dropped r _ _ h =>
    subst h
    exact ⟨[], [], Books.refl.toPosts.of_requests .., nofun, .nil⟩

theorem internalTransfer_books (h : internalTransfer d s a tokenId v = .ok s') :
    Books d [.internalTransfer a tokenId v] [] s s' := by
  simp only [internalTransfer, assertSenderIsNotReceiver, bind_ok, ensure_ok, unwrap_ok, add_ok,
    sub_ok, pure_ok, decide_eq_true_eq] at h
  obtain ⟨_, hne, _, -, own, hown, _, ⟨hle, rfl⟩, _, ⟨-, rfl⟩, rfl⟩ := h
  have hother : (a, tokenId) ≠ (d.account, tokenId) := by simp [Ne.symm hne]
  refine (Pours.trans (.write hown) (.setBalance fun _ ha => absurd ha.symm hne)).books fun p l => ?_
  simp only [St.amount, St.setBalance, update_of_ne hother]
  cases p <;> simp [Movement.effect, entry, AccountBalance.amount]
  split_ifs <;> omega

theorem mint_books (h : mint s tokenId v token a = .ok s') :
    ∃ uri, Books d [] [.mint uri v tokenId a] s s' := by
  simp only [mint, bind_ok, pure_ok] at h
  obtain ⟨uri, -, rfl⟩ := h
  exact ⟨uri, .promise trivial⟩

/-- The movement stays inside the service and locks nothing. -/
def Movement.Still : Movement → Prop
  | .reclaim .. | .internalTransfer .. => True
  | _ => False

/-- What the service does apart from deposits, requests and callbacks -/
def Idle (d : Deployment) (s s' : St) : Prop :=
  ∃ ms ps, Books d ms ps s s' ∧ (∀ m ∈ ms, m.Still) ∧ Plain ps

theorem Idle.keeps (h : Books d [] [] s s') : Idle d s s' := ⟨[], [], h, nofun, nofun⟩

theorem Idle.one (h : Books d [m] [] s s') (hm : m.Still) : Idle d s s' :=
  ⟨[m], [], h, by simpa using hm, nofun⟩

theorem Idle.promise (hp : p.Proper d) (hplain : p.isWithdrawal = false) :
    Idle d s (s.promise p) := ⟨[], [p], .promise hp, nofun, .one hplain⟩

theorem Idle.refl : Idle d s s := .keeps .refl

theorem Idle.trans (h : Idle d s t) (h' : Idle d t u) : Idle d s u := by
  obtain ⟨ms, ps, hms, hm, hp⟩ := h
  obtain ⟨ns, qs, hns, hn, hq⟩ := h'
  exact ⟨ms ++ ns, ps ++ qs, hms.trans hns, fun m hmem => (mem_append.1 hmem).elim (hm m) (hn m),
    hp.append hq⟩

theorem Idle.foldlM {l : List α} {f : St → α → Outcome St}
    (hf : ∀ s x s', f s x = .ok s' → Idle d s s') (h : l.foldlM f s = .ok s') : Idle d s s' :=
  foldlM_ok (P := Idle d s) (fun t x u _ ht hu => ht.trans (hf t x u hu)) .refl h

theorem receiveAsset_idle (h : receiveAsset d a s x = .ok s') : Idle d s s' := by
  simp only [receiveAsset] at h
  split at h
  · obtain ⟨uri, hmint⟩ := mint_books (d := d) h
    exact ⟨_, _, hmint, nofun, .one rfl⟩
  · exact .one (internalTransfer_books h) trivial

inductive Accepts (d : Deployment) (s : St) (a : AccountId) (assets : List TransferableAsset) :
    Except BshError (Option TokenServiceMessage) → St → Prop
  | refused (e : BshError) : Accepts d s a assets (.error e) s
  | accepted (message : TokenServiceMessage) (tokens : List (TokenId × Token × TransferableAsset))
      (s' : St)
      (htokens : (assets.mapM fun asset => do
        let tokenId ← unwrap (s.tokenIds asset.name)
        let token ← unwrap (s.tokens tokenId)
        return (tokenId, token, asset)) = .ok tokens)
      (hverdict : isTokensTransferable d s a tokens = .ok (.ok ()))
      (h : tokens.foldlM (receiveAsset d a) s = .ok s') :
      Accepts d s a assets (.ok (some message)) s'

theorem handleTokenTransfer_accepts (h : handleTokenTransfer d s a assets = .ok (r, s')) :
    Accepts d s a assets r s' := by
  unfold handleTokenTransfer at h
  split at h
  · cases h
    exact .refused _
  · dsimp only at h
    split at h
    · cases h
      exact .refused _
    · simp only [bind_ok] at h
      obtain ⟨tokens, htokens, verdict, hverdict, h⟩ := h
      cases verdict with
      | error e =>
        cases h
        exact .refused _
      | ok _ =>
        simp only [bind_ok, pure_ok, Prod.mk.injEq] at h
        obtain ⟨t, ht, rfl, rfl⟩ := h
        exact .accepted _ tokens t htokens hverdict ht

theorem Accepts.idle (h : Accepts d s a assets r s') : Idle d s s' := by
  cases h with
  | refused => exact .refl
  | accepted message tokens _ _ _ h => exact Idle.foldlM (fun _ _ _ => receiveAsset_idle) h

theorem setTokenLimit_idle (h : setTokenLimit s names limits = .ok (r, s')) : Idle d s s' := by
  simp only [setTokenLimit] at h
  split at h
  · cases h
    exact .refl
  · simp only [bind_ok, pure_ok, Prod.mk.injEq] at h
    obtain ⟨ids, -, t, ht, -, rfl⟩ := h
    refine Idle.foldlM (fun s x s' h => ?_) ht
    simp only [bind_ok, unwrap_ok, pure_ok] at h
    obtain ⟨token, htoken, rfl⟩ := h
    exact .keeps (.setToken htoken rfl)

theorem handleRequestChangeTokenLimit_idle
    (h : handleRequestChangeTokenLimit s names limits = .ok (r, s')) : Idle d s s' := by
  simp only [handleRequestChangeTokenLimit, bind_ok, Prod.exists] at h
  obtain ⟨x, t, ht, h⟩ := h
  cases x <;> cases h <;> exact setTokenLimit_idle ht

theorem handleRequestBlacklist_idle
    (h : handleRequestBlacklist d s ty addresses net = .ok (r, s')) : Idle d s s' := by
  unfold handleRequestBlacklist at h
  split at h
  · cases h
    exact .refl
  · dsimp only at h
    split at h
    · cases h
      exact .refl
    · cases ty with
      | addToBlacklist =>
        cases h
        exact .keeps (.of_rest rfl)
      | removeFromBlacklist =>
        have hkeep : rest (removeFromBlacklist s addresses).2 = rest s := by
          unfold removeFromBlacklist
          dsimp only
          split <;> rfl
        dsimp only at h
        split at h <;> cases h <;> next heq => exact .keeps (.of_rest (by rw [← hkeep, heq]))
      | unhandledType => contradiction

theorem sendResponse_idle : Idle d s (sendResponse s n destination message) :=
  .promise trivial rfl

theorem orElseRespond_idle (hx : Idle d s x.2) (h : orElseRespond n source response x = (r, s')) :
    Idle d s s' := by
  unfold orElseRespond at h
  split at h <;> cases h
  · exact hx
  · exact hx.trans sendResponse_idle

theorem handleServiceMessage_does (hs : Sound d s)
    (h : handleServiceMessage d s source n message = .ok (r, s')) :
    Idle d s s' ∨ r = .ok none ∧ ∃ code text, message = .ok (.responseHandleService code text) ∧
      Responds d s n code s' := by
  cases message with
  | error e =>
    cases h
    exact .inl .refl
  | ok message =>
    cases message with
    | requestTokenTransfer _ receiver assets => exact .inl (handleTokenTransfer_accepts h).idle
    | responseHandleService code text =>
      simp only [handleServiceMessage, bind_ok, pure_ok, Prod.mk.injEq] at h
      obtain ⟨t, ht, rfl, rfl⟩ := h
      exact .inr ⟨rfl, code, text, rfl, handleResponse_responds hs ht⟩
    | requestBlacklist ty addresses net =>
      simp only [handleServiceMessage, bind_ok, pure_ok] at h
      obtain ⟨x, hx, h⟩ := h
      exact .inl (orElseRespond_idle (handleRequestBlacklist_idle hx) h)
    | requestChangeTokenLimit names limits _ =>
      simp only [handleServiceMessage, bind_ok, pure_ok] at h
      obtain ⟨x, hx, h⟩ := h
      exact .inl (orElseRespond_idle (handleRequestChangeTokenLimit_idle hx) h)
    | _ =>
      cases h
      exact .inl .refl

theorem handleBtpMessage_does (hs : Sound d s)
    (h : handleBtpMessage d env s source service n message = .ok s') :
    Idle d s s' ∨ ∃ code text, message = .ok (.responseHandleService code text) ∧
      Responds d s n code s' := by
  simp only [handleBtpMessage, bind_ok] at h
  obtain ⟨_, -, _, -, ⟨r, t⟩, ht, h⟩ := h
  rcases handleServiceMessage_does hs ht with hidle | ⟨rfl, hresponds⟩
  · left
    split at h <;> cases pure_ok.1 h
    · next heq => cases heq; exact hidle
    · next heq => cases heq; exact hidle.trans sendResponse_idle
    · next heq => cases heq; exact hidle.trans sendResponse_idle
  · cases pure_ok.1 h
    exact .inr hresponds

theorem receiveDeposit_books (h : receiveDeposit d env s a tokenId v = .ok s')
    (hkey : Sound d s → s.balanceKeys (d.account, tokenId) = true) :
    Books d [.deposit (a, tokenId) v] [] s s' := by
  simp only [receiveDeposit, bind_ok, add_ok, pure_ok] at h
  obtain ⟨_, ⟨-, rfl⟩, cost, -, rfl⟩ := h
  refine Books.trans ((Pours.setBalance fun hs ha => ?_).books fun p l => ?_) (.of_rest rfl)
  · obtain rfl : a = d.account := ha
    exact hkey hs
  · cases p <;> simp [St.amount, Movement.effect, entry, AccountBalance.amount]

theorem reclaim_idle (h : reclaim env s name v = .ok s') : Idle d s s' := by
  simp only [reclaim, bind_ok, getTokenId_ok, unwrap_ok, add_ok, sub_ok, pure_ok] at h
  obtain ⟨_, -, tokenId, -, _, -, b, hb, _, ⟨hle, rfl⟩, _, ⟨-, rfl⟩, rfl⟩ := h
  refine .one ((Pours.write hb).books fun p l => ?_) trivial
  cases p <;> simp [Movement.effect, entry, AccountBalance.amount]
  split_ifs <;> omega

def Call.inflow (d : Deployment) (env : Env) (s : St) (t : TokenId) : Call → ℤ
  | .ftOnTransfer _ v => if s.registeredTokens env.predecessor = some t then v else 0
  | .deposit => if s.tokenIds d.nativeCoin.name = some t then env.attachedDeposit else 0
  | _ => 0

inductive Call.Does (d : Deployment) (env : Env) (s s' : St) : Call → Prop
  | idle (h : Idle d s s') (hc : ∀ t, c.inflow d env s t = 0) : Does d env s s' c
  | ftOnTransfer (tokenId : TokenId) (hid : s.registeredTokens env.predecessor = some tokenId)
      (h : Books d [.deposit (a, tokenId) v] [] s s') : Does d env s s' (.ftOnTransfer a v)
  | deposit (tokenId : TokenId) (hid : s.tokenIds d.nativeCoin.name = some tokenId)
      (h : Books d [.deposit (env.predecessor, tokenId) env.attachedDeposit] [] s s') :
      Does d env s s' .deposit
  | withdraw (payment : Payment) (tokenId : TokenId) (hid : s.tokenIds name = some tokenId)
      (h : s' = s.promise (.withdraw payment env.predecessor v name tokenId)) :
      Does d env s s' (.withdraw name v)
  | files (h : Files d env.predecessor xs ys s s')
      (htakes : ys.map (fun y => ((env.predecessor, y.1), y.2)) = c.takes env s)
      (hc : ∀ t, c.inflow d env s t = 0) : Does d env s s' c
  | gathers (h : Files d d.account xs ys s s') : Does d env s s' (.handleFeeGathering fa service)
  | answered (h : Responds d s n code s') :
      Does d env s s' (.handleBtpMessage source service n (.ok (.responseHandleService code text)))
  | failed (h : Responds d s (-n) rcError s') : Does d env s s' (.handleBtpError service n message)

theorem call_does (hs : Sound d s) (h : call d env s c = .ok s') : c.Does d env s s' := by
  cases c with
  | ftOnTransfer a v =>
    simp only [call, ftOnTransfer, bind_ok, unwrap_ok] at h
    obtain ⟨_, -, _, -, tokenId, hid, h⟩ := h
    exact .ftOnTransfer tokenId hid (receiveDeposit_books h fun hs => hs.registered _ _ hid)
  | deposit =>
    simp only [call, deposit, bind_ok, unwrap_ok] at h
    obtain ⟨_, -, tokenId, hid, h⟩ := h
    exact .deposit tokenId hid (receiveDeposit_books h fun hs => hs.known _ _ hid)
  | withdraw name v =>
    simp only [call, withdraw, bind_ok, getTokenId_ok, pure_ok] at h
    obtain ⟨tokenId, hid, _, -, _, -, _, -, _, -, _, -, _, -, payment, -, rfl⟩ := h
    exact .withdraw payment tokenId hid rfl
  | reclaim name v => exact .idle (reclaim_idle h) fun _ => rfl
  | transfer name destination v =>
    obtain ⟨x, tokenId, hid, hfiles⟩ := transfer_files hs h
    exact .files hfiles (by simp [Call.takes, hid]) fun _ => rfl
  | transferBatch names destination amounts =>
    obtain ⟨xs, ids, hids, hfiles⟩ := transferBatch_files hs h
    exact .files hfiles (batch_takes hids).symm fun _ => rfl
  | register token =>
    simp only [call, register, bind_ok, pure_ok] at h
    obtain ⟨_, -, _, -, _, -, _, -, rfl⟩ := h
    exact .idle (.promise rfl rfl) fun _ => rfl
  | setFeeRatio name numerator fixed =>
    simp only [call, setFeeRatio, bind_ok, unwrap_ok, pure_ok] at h
    obtain ⟨_, -, _, -, token, htoken, rfl⟩ := h
    exact .idle (.keeps (.setToken htoken rfl)) fun _ => rfl
  | addOwner account =>
    simp only [call, addOwner, bind_ok, pure_ok] at h
    obtain ⟨_, -, _, -, rfl⟩ := h
    exact .idle (.keeps (.of_rest rfl)) fun _ => rfl
  | removeOwner account =>
    simp only [call, removeOwner, bind_ok, pure_ok] at h
    obtain ⟨_, -, _, -, _, -, rfl⟩ := h
    exact .idle (.keeps (.of_rest rfl)) fun _ => rfl
  | handleFeeGathering aggregator service =>
    simp only [call, handleFeeGathering, bind_ok] at h
    obtain ⟨_, -, _, -, h⟩ := h
    obtain ⟨xs, ys, hfiles⟩ := transferFees_files hs h
    exact .gathers hfiles
  | handleBtpMessage source service n message =>
    rcases handleBtpMessage_does hs h with hidle | ⟨code, text, rfl, hresponds⟩
    · exact .idle hidle fun _ => rfl
    · exact .answered hresponds
  | handleBtpError service n message =>
    simp only [call, handleBtpError, bind_ok] at h
    obtain ⟨_, -, _, -, _, -, _, -, h⟩ := h
    exact .failed (handleResponse_responds hs h)

theorem onWithdraw_books (h : onWithdraw s a v tokenId (.successful x) = .ok s') :
    Books d [.withdraw (a, tokenId) v] [] s s' := by
  simp only [onWithdraw, bind_ok, unwrap_ok, sub_ok, pure_ok] at h
  obtain ⟨b, hb, _, ⟨hle, rfl⟩, rfl⟩ := h
  refine Books.trans ((Pours.write hb).books fun p l => ?_) (.of_rest rfl)
  cases p <;> simp [Movement.effect, entry, AccountBalance.amount]
  split_ifs <;> omega

theorem onMint_books (h : onMint d env s v tokenId a (.successful (some cost)) = .ok s') :
    Books d [.mint tokenId v, .internalTransfer a tokenId v] [] s s' := by
  simp only [onMint, bind_ok, unwrap_ok, add_ok, pure_ok] at h
  obtain ⟨b, hb, _, ⟨-, rfl⟩, t, ht, _, -, _, -, _, -, _, -, rfl⟩ := h
  refine Books.trans ((Pours.write hb).books fun p l => ?_)
    ((internalTransfer_books ht).trans (.of_rest rfl))
  cases p <;> simp [Movement.effect, entry, AccountBalance.amount]

theorem onBurn_books (h : onBurn d s v tokenId (.successful x) = .ok s') :
    Books d [.burn tokenId v] [] s s' := by
  simp only [onBurn, bind_ok, unwrap_ok, sub_ok, pure_ok] at h
  obtain ⟨b, hb, _, ⟨hle, rfl⟩, _, -, rfl⟩ := h
  refine (Pours.write hb).books fun p l => ?_
  cases p <;> simp [Movement.effect, entry, AccountBalance.amount]
  split_ifs <;> omega

theorem addBalance_eq (hk : (s.balances k).isSome → s.balanceKeys k = true) :
    ∃ f, s.addBalance k =
        { s with balances := f, balanceKeys := update s.balanceKeys k true } ∧
      (∀ l, (f l).getD {} = (s.balances l).getD {}) ∧
      (∀ l, (s.balances l).isSome → (f l).isSome) ∧
      ∀ l, (f l).isSome → l = k ∨ (s.balances l).isSome := by
  unfold St.addBalance
  split
  · next hkey =>
    have hkeys : update s.balanceKeys k true = s.balanceKeys := by
      rw [← hkey]
      exact update_eq_self ..
    exact ⟨s.balances, by rw [hkeys], fun _ => rfl, fun _ => id, fun _ => .inr⟩
  · next hkey =>
    have hnone : s.balances k = none := not_isSome_iff_eq_none.1 (mt hk hkey)
    refine ⟨_, rfl, fun l => ?_, fun _ => isSome_update, fun l => ?_⟩
    · simp only [St.setBalance, update_apply]
      split
      · next heq => rw [heq, hnone]; rfl
      · rfl
    · simp only [St.setBalance, update_apply]
      split
      · next heq => exact fun _ => .inl heq
      · exact .inr

theorem update_some_or [DecidableEq α] {f : α → Option β} {x y : α}
    (h : update f x (some v) y = some w) : (y = x ∧ w = v) ∨ f y = some w := by
  rw [update_apply] at h
  split at h
  · next heq => exact .inl ⟨heq, (Option.some.inj h).symm⟩
  · exact .inr h

theorem registerTokenCallback_books (hs : Sound d s)
    (h : registerTokenCallback d s token (hashTokenId d token.name) (.successful x) = .ok s') :
    Books d [] [] s s' := by
  simp only [registerTokenCallback, registerToken, bind_ok, pure_ok] at h
  obtain ⟨uri, -, rfl⟩ := h
  obtain ⟨f, heq, hsame, hkeeps, hnew⟩ := addBalance_eq (k := (d.account, hashTokenId d token.name))
    (s := { s with
      tokenIds := update s.tokenIds token.name (some (hashTokenId d token.name))
      tokenKeys := if s.tokenKeys.contains (hashTokenId d token.name) then s.tokenKeys
        else s.tokenKeys ++ [hashTokenId d token.name]
      tokens := update s.tokens (hashTokenId d token.name) (some token)
      tokenFees := update s.tokenFees (hashTokenId d token.name) (some 0)
      registeredTokens := update s.registeredTokens uri (some (hashTokenId d token.name)) })
    (hs.values _)
  have hids : ∀ name id, s.tokenIds name = some id →
      update s.tokenIds token.name (some (hashTokenId d token.name)) name = some id := by
    intro name id hid
    rw [update_apply]
    split
    · next hname => rw [← hname, hs.ids name id hid]
    · exact hid
  have hkey : ∀ id, id = hashTokenId d token.name ∨ s.balanceKeys (d.account, id) = true →
      update s.balanceKeys (d.account, hashTokenId d token.name) true (d.account, id) =
        true := by
    intro id hid
    rw [update_apply]
    split
    · rfl
    · next hne => exact hid.resolve_left fun h => hne (by rw [h])
  refine heq ▸ ⟨⟨(append_nil _).symm, fun p k => ?_, rfl, (append_nil _).symm,
    ⟨hkeeps, fun _ => isSome_update⟩, fun _ => ⟨fun id hsome => hkey id ?_, fun name id hid => hkey id ?_,
    fun a id hid => hkey id ?_, fun name id hid => ?_, fun id other hid => ?_, hs.proper⟩⟩, rfl, rfl, hids⟩
  · simp only [St.amount, hsame, effects_nil, add_zero]
  · exact (hnew _ hsome).imp (fun h => (Prod.mk.inj h).2) (hs.values id)
  · exact (update_some_or hid).imp And.right (hs.known name id)
  · exact (update_some_or hid).imp And.right (hs.registered a id)
  · rcases update_some_or hid with ⟨rfl, hnew⟩ | hold
    · exact hnew
    · exact hs.ids name id hold
  · rcases update_some_or hid with ⟨rfl, rfl⟩ | hid
    · exact update_self ..
    · exact hids _ _ (hs.tokens id other hid)

def Promise.entries (d : Deployment) : Promise → PromiseResult → List Movement
  | .withdraw _ a v _ tokenId, .successful _ => [.withdraw (a, tokenId) v]
  | .mint _ v tokenId a, .successful (some _) => [.mint tokenId v, .internalTransfer a tokenId v]
  | .burn _ v tokenId, .successful _ => [.burn tokenId v]
  | .sendServiceMessage _ _ (.requestTokenTransfer a _ assets), .failed =>
    assets.map (Ending.rolledBack.movement d a)
  | _, _ => []

theorem callback_books {p : Promise} (hs : Sound d s) (hp : p.Proper d)
    (h : p.callback d env s result = .ok s') :
    ∃ ps, Plain ps ∧ Books d (p.entries d result) ps s s' := by
  cases p with
  | withdraw payment a v name tokenId =>
    cases result with
    | successful x => exact ⟨[], .nil, onWithdraw_books (x := x) h⟩
    | failed =>
      cases h
      exact ⟨[], .nil, .refl⟩
  | mint uri v tokenId a =>
    simp only [Promise.callback] at h
    rcases result with (_ | cost) | _
    · simp only [onMint, bind_ok, pure_ok] at h
      obtain ⟨_, -, rfl⟩ := h
      exact ⟨[], .nil, .refl⟩
    · exact ⟨[], .nil, onMint_books h⟩
    · simp only [onMint, bind_ok, pure_ok] at h
      obtain ⟨_, -, rfl⟩ := h
      exact ⟨[], .nil, .refl⟩
  | burn uri v tokenId =>
    cases result with
    | successful x => exact ⟨[], .nil, onBurn_books (x := x) h⟩
    | failed =>
      simp only [Promise.callback, onBurn, bind_ok, pure_ok] at h
      obtain ⟨_, -, rfl⟩ := h
      exact ⟨[], .nil, .refl⟩
  | register token tokenId =>
    obtain rfl : tokenId = hashTokenId d token.name := hp
    cases result with
    | successful x => exact ⟨[], .nil, registerTokenCallback_books (x := x) hs h⟩
    | failed =>
      cases h
      exact ⟨[], .nil, .refl⟩
  | sendServiceMessage n net message =>
    simp only [Promise.callback, sendServiceMessageCallback] at h
    split at h
    · exact rollbackExternalTransfer_books hs h
    · next hnot =>
      cases h
      have hnone : (Promise.sendServiceMessage n net message).entries d result = [] := by
        unfold Promise.entries
        split <;> simp_all
      exact ⟨[], .nil, hnone ▸ .refl⟩

theorem Call.Does.posts {c : Call} (h : c.Does d env s s') :
    ∃ ms ps, Posts d ms ps s s' ∧ ∀ t, nets t ms = c.inflow d env s t := by
  cases h with
  | idle h hc =>
    obtain ⟨ms, ps, h, hstill, -⟩ := h
    refine ⟨ms, ps, h.toPosts, fun t => (nets_eq_zero fun m hm => ?_).trans (hc t).symm⟩
    cases m with
    | reclaim | internalTransfer => rfl
    | _ => exact (hstill _ hm).elim
  | ftOnTransfer _ hid h | deposit _ hid h =>
    exact ⟨_, _, h.toPosts, fun t => by simp [nets, Movement.net, worth, inflow, hid]⟩
  | withdraw payment tokenId _ h =>
    subst h
    exact ⟨_, _, Books.toPosts (.promise trivial), fun _ => rfl⟩
  | files h _ hc =>
    obtain ⟨p, -, h⟩ := h.posts
    exact ⟨_, _, h, fun t => (locks_net _).trans (hc t).symm⟩
  | gathers h =>
    obtain ⟨p, -, h⟩ := h.posts
    exact ⟨_, _, h, fun _ => locks_net _⟩
  | answered h | failed h =>
    obtain ⟨ms, ps, h, hsettles, -⟩ := h.posts
    refine ⟨ms, ps, h, fun t => nets_eq_zero fun m hm => ?_⟩
    cases m with
    | finalize | rollback => rfl
    | _ => cases hsettles _ hm

def St.drop (s : St) (i : ℕ) : St := { s with receipts := s.receipts.eraseIdx i }

theorem Sound.drop (hs : Sound d s) (i : ℕ) : Sound d (s.drop i) :=
  hs.congr rfl rfl rfl (fun _ => rfl) hs.values fun r hr => hs.proper r (mem_of_mem_eraseIdx hr)

inductive Act.Does (d : Deployment) (s s' : St) : Act → Prop
  | call (env : Env) (c : Call) (h : c.Does d env s s') : Does d s s' (.call env c)
  | execute (p : Promise) (hr : s.receipts[i]? = some { promise := p })
      (h : s' = { s with
        receipts := s.receipts.set i { promise := p, result := some result }
        transferred := p.pay result s.transferred }) : Does d s s' (.execute i result)
  | callback (env : Env) (p : Promise) (result : PromiseResult) (ps : List Promise)
      (hr : s.receipts[i]? = some ⟨p, some result⟩)
      (hok : p.callback d env (s.drop i) result = .ok s') (hps : Plain ps)
      (h : Books d (p.entries d result) ps (s.drop i) s') : Does d s s' (.callback i env)
  | panicked (env : Env) (p : Promise) (result : PromiseResult) (e : String)
      (hr : s.receipts[i]? = some ⟨p, some result⟩)
      (he : p.callback d env (s.drop i) result = .error e) (h : s' = s.drop i) :
      Does d s s' (.callback i env)

theorem step_does (hs : Sound d s) (h : step d s act = .ok s') : act.Does d s s' := by
  cases act with
  | call env c => exact .call env c (call_does hs h)
  | execute i result =>
    simp only [step] at h
    split at h
    · next p hr =>
      cases h
      exact .execute p hr rfl
    · contradiction
  | callback i env =>
    simp only [step] at h
    split at h
    · next p result hr =>
      split at h
      · next t ht =>
        cases h
        obtain ⟨ps, hps, hbooks⟩ :=
          callback_books (hs.drop i) (hs.proper _ (mem_of_getElem? hr)) ht
        exact .callback env p result ps hr ht hps hbooks
      · next e he =>
        cases h
        exact .panicked env p result e hr he rfl
    · contradiction

theorem Act.Does.sound {act : Act} (h : act.Does d s s') (hs : Sound d s) : Sound d s' := by
  cases h with
  | call env c h =>
    obtain ⟨ms, ps, h, -⟩ := h.posts
    exact h.sound hs
  | execute p hr h =>
    subst h
    refine hs.congr rfl rfl rfl (fun _ => rfl) hs.values fun r hmem => ?_
    rcases mem_or_eq_of_mem_set hmem with hmem | rfl
    · exact hs.proper r hmem
    · have hproper := hs.proper _ (mem_of_getElem? hr)
      exact hproper
  | callback env p result ps hr _ hps h => exact h.sound (hs.drop _)
  | panicked env p result e hr he h => exact h ▸ hs.drop _

theorem step_sound (hs : Sound d s) (h : step d s act = .ok s') : Sound d s' := (step_does hs h).sound hs

theorem run_sound (acts : List Act) : Sound d (run (step d) (initialState d) acts) :=
  run_induct (fun _ _ _ => step_sound) initialState_sound

end IconBridge.Near.BTS
