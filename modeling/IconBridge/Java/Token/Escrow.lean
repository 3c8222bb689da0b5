import Mathlib.Algebra.BigOperators.Group.List.Basic
import IconBridge.Lib.Runs
import IconBridge.Java.IRC2
import IconBridge.Java.Token.Payload

/-!
# `Escrow`

The contract keeps tokens that are on Algorand. It sends a message for what it
gets and releases what a message asks for; the receiver of released tokens can
call the contract and the token again.
-/

namespace IconBridge.Java.Token.Escrow

open Lib List

structure Config where
  self : Address
  isContract : self.isContract = true
  target : String
  bmc : Address
  asaId : ℤ
  tokenAddress : Address

def service : String := "i2a"

/-- The storage of the contract and of its token. What was sent and released is
kept as logs. -/
structure St where
  sn : ℤ := 0
  lastReceivedErrorMessage : String := "BTP Error Message"
  token : IRC2
  linked : Bool := false
  sent : List Sent := []
  released : List ℕ := []

/-- Who calls is not asked. -/
def tokenFallback (c : Config) (s : St) (value : ℤ) (algoPubKey : Bytes) : Outcome St := do
  require (0 ≤ value) (.reverted 0 "value should be positive")
  require (value ≤ maxUint64) (.reverted 0 "Amount too big")
  let message := transferMessage c.asaId algoPubKey value
  let sn := s.sn + 1
  require s.linked (.reverted 21 "Unreachable")
  return { s with sn, sent := s.sent ++ [{ target := c.target, svc := service, sn, message }] }

/-- The transfer of the token, with the call of `tokenFallback` at its end. -/
def tokenTransfer (c : Config) (s : St) (sender target : Address) (value : ℤ) (data : Bytes)
    (react : St → Outcome St) : Outcome St := do
  let token ← s.token.transfer sender target value
  let s := { s with token }
  if target.isContract then
    if target = c.self then tokenFallback c s value data
    else react s
  else return s

def handleBTPMessage (c : Config) (s : St) (caller : Address) (msg : Bytes)
    (react : St → Outcome St) : Outcome St := do
  require (caller = c.bmc) (.reverted 0 "Only BMC")
  let (amount, dst) ← readMessage msg
  let s ← tokenTransfer c s c.self dst amount [] react
  return { s with sn := s.sn + 1, released := s.released ++ [amount] }

mutual

inductive Tx
  | handleBTPMessage (caller : Address) (msg : Bytes) (reaction : Reaction)
  | handleBTPError (msg : String)
  | handleFeeGathering
  /-- A call that does not come from the token. -/
  | tokenFallback (caller sender : Address) (value : ℤ) (algoPubKey : Bytes)
  /-- Calls of the token. -/
  | transfer (sender target : Address) (value : ℤ) (data : Bytes) (reaction : Reaction)
  | transferFrom (caller sender target : Address) (value : ℤ) (data : Bytes) (reaction : Reaction)
  | approve (owner spender : Address) (amount : ℤ)
  | mint (owner : Address) (amount : ℤ)
  | burn (owner : Address) (amount : ℤ)
  /-- The route to Algorand comes or goes. -/
  | connect (linked : Bool)

/-- What a contract does in its `tokenFallback`. -/
inductive Reaction
  | revert
  | accept
  | call (tx : Tx) (next : Reaction)

end

mutual

/-- The contract itself calls the token in `handleBTPMessage` only. -/
def step (c : Config) (s : St) : Tx → Outcome St
  | .handleBTPMessage caller msg reaction =>
    handleBTPMessage c s caller msg fun s => react c s reaction
  | .handleBTPError msg => .ok { s with lastReceivedErrorMessage := msg }
  | .handleFeeGathering => .ok s
  | .tokenFallback caller _ value algoPubKey => do
    require (caller ≠ c.tokenAddress) (.other "")
    tokenFallback c s value algoPubKey
  | .transfer sender target value data reaction => do
    require (sender ≠ c.self) (.other "")
    tokenTransfer c s sender target value data fun s => react c s reaction
  | .transferFrom caller sender target value data reaction => do
    require (caller ≠ c.self) (.other "")
    let allowance := s.token.allowances sender caller
    require (value ≤ allowance) (.reverted 0 "IRC20: transfer amount exceeds allowance")
    let token := s.token.approve sender caller (allowance - value)
    tokenTransfer c { s with token } sender target value data fun s => react c s reaction
  | .approve owner spender amount => do
    require (owner ≠ c.self) (.other "")
    return { s with token := s.token.approve owner spender amount }
  | .mint owner amount => do
    let token ← s.token.mint owner amount
    return { s with token }
  | .burn owner amount => do
    require (owner ≠ c.self) (.other "")
    let token ← s.token.burn owner amount
    return { s with token }
  | .connect linked => .ok { s with linked }

def react (c : Config) (s : St) : Reaction → Outcome St
  | .revert => .error (.reverted 0 "")
  | .accept => .ok s
  | .call tx next =>
    match step c s tx with
    | .ok s' => react c s' next
    | .error _ => react c s next

end

def held (c : Config) (s : St) : ℤ := s.token.balances c.self

def sentAmount (s : St) : ℤ := (s.sent.map fun m => (messageAmount m.message : ℤ)).sum

def releasedAmount (s : St) : ℤ := (s.released.map fun n : ℕ => (n : ℤ)).sum

def surplus (c : Config) (s : St) : ℤ := held c s - (sentAmount s - releasedAmount s)

def Guarded (c : Config) (s : St) : Prop := ∀ x, s.token.allowances c.self x ≤ 0

def Effect (c : Config) (δ : ℤ) (s s' : St) : Prop :=
  Guarded c s → Guarded c s' ∧ surplus c s - δ ≤ surplus c s'

variable {c : Config} {s s' t : St}

theorem Effect.refl : Effect c 0 s s := fun h => ⟨h, by simp⟩

theorem Effect.trans (h1 : Effect c δ s t) (h2 : Effect c δ' t s') : Effect c (δ + δ') s s' := by
  intro hs
  obtain ⟨ht, hst⟩ := h1 hs
  obtain ⟨hs', hts'⟩ := h2 ht
  exact ⟨hs', by omega⟩

theorem Effect.of_token (hall : token.allowances = s.token.allowances)
    (hbal : s.token.balances c.self - δ ≤ token.balances c.self) : Effect c δ s { s with token } := by
  refine fun hs => ⟨fun x => hall ▸ hs x, ?_⟩
  simp only [surplus, held, sentAmount, releasedAmount]
  omega

theorem tokenFallback_effect (h : tokenFallback c s value key = .ok s') :
    0 ≤ value ∧ Effect c value s s' := by
  simp only [tokenFallback, bind_ok, pure_ok, require_ok, decide_eq_true_eq] at h
  obtain ⟨_, hpos, _, hmax, _, -, rfl⟩ := h
  obtain ⟨n, rfl⟩ := Int.eq_ofNat_of_zero_le hpos
  have hlt : n < 2 ^ 64 := by
    unfold maxUint64 at hmax
    omega
  have hmessage : messageAmount (transferMessage c.asaId key n) = n :=
    messageAmount_transferMessage hlt
  refine ⟨hpos, fun hs => ⟨hs, ?_⟩⟩
  simp only [surplus, held, sentAmount, releasedAmount, map_append, map_cons,
    map_nil, sum_append, sum_cons, sum_nil, hmessage]
  omega

/-- Tokens that arrive pay for the message that they cause; tokens that leave
are taken from the surplus. -/
theorem tokenTransfer_effect {react : St → Outcome St}
    (hreact : ∀ t t', react t = .ok t' → Effect c 0 t t')
    (h : tokenTransfer c s sender target value data react = .ok s') :
    0 ≤ value ∧ Effect c (if sender = c.self then value else 0) s s' := by
  simp only [tokenTransfer, bind_ok] at h
  obtain ⟨token, htoken, h⟩ := h
  obtain ⟨hall, hpos, -, hbal⟩ := IRC2.transfer_ok htoken
  have hmoved : Effect c ((if sender = c.self then value else 0) - if target = c.self then value else 0)
      s { s with token } := by
    refine .of_token hall ?_
    have hself := hbal c.self
    simp only [eq_comm (a := c.self)] at hself
    omega
  refine ⟨hpos, ?_⟩
  split at h
  · split at h
    · next heq =>
      have hpaid := hmoved.trans (tokenFallback_effect h).2
      simpa [heq] using hpaid
    · next hne => simpa [hne] using hmoved.trans (hreact _ _ h)
  · next hcontract =>
    have hne : target ≠ c.self := by
      rintro rfl
      exact hcontract c.isContract
    cases h
    simpa [hne] using hmoved

theorem handleBTPMessage_effect {react : St → Outcome St}
    (hreact : ∀ t t', react t = .ok t' → Effect c 0 t t')
    (h : handleBTPMessage c s caller msg react = .ok s') : Effect c 0 s s' := by
  simp only [handleBTPMessage, bind_ok, pure_ok, Prod.exists] at h
  obtain ⟨_, -, amount, dst, -, t, ht, rfl⟩ := h
  obtain ⟨-, heff⟩ := tokenTransfer_effect hreact ht
  rw [if_pos rfl] at heff
  intro hs
  obtain ⟨hguard, hpaid⟩ := heff hs
  refine ⟨hguard, ?_⟩
  simp only [surplus, held, sentAmount, releasedAmount, map_append, map_cons,
    map_nil, sum_append, sum_cons, sum_nil] at hpaid ⊢
  omega

mutual

/-- Whoever calls `tokenFallback` without tokens claims no amount. -/
def Tx.Backed : Tx → Prop
  | .handleBTPMessage _ _ reaction => reaction.Backed
  | .tokenFallback _ _ value _ => value ≤ 0
  | .transfer _ _ _ _ reaction => reaction.Backed
  | .transferFrom _ _ _ _ _ reaction => reaction.Backed
  | _ => True

def Reaction.Backed : Reaction → Prop
  | .revert | .accept => True
  | .call tx next => tx.Backed ∧ next.Backed

end

mutual

theorem step_effect (c : Config) (s s' : St) :
    (tx : Tx) → tx.Backed → step c s tx = .ok s' → Effect c 0 s s'
  | .handleBTPMessage _ _ reaction, hb, h => by
    simp only [step] at h
    exact handleBTPMessage_effect (fun t t' => react_effect c t t' reaction hb) h
  | .handleBTPError _, _, h => by
    simp only [step] at h
    cases h; exact .refl
  | .handleFeeGathering, _, h => by
    simp only [step] at h
    cases h; exact .refl
  | .tokenFallback _ _ value _, hb, h => by
    simp only [step, bind_ok] at h
    obtain ⟨_, -, h⟩ := h
    obtain ⟨hpos, heff⟩ := tokenFallback_effect h
    obtain rfl : value = 0 := le_antisymm hb hpos
    exact heff
  | .transfer sender _ _ _ reaction, hb, h => by
    simp only [step, bind_ok, require_ok, decide_eq_true_eq] at h
    obtain ⟨_, hne, h⟩ := h
    obtain ⟨-, heff⟩ := tokenTransfer_effect (fun t t' => react_effect c t t' reaction hb) h
    rwa [if_neg hne] at heff
  | .transferFrom caller sender _ value _ reaction, hb, h => by
    simp only [step, bind_ok, require_ok, decide_eq_true_eq] at h
    obtain ⟨_, hne, _, hle, h⟩ := h
    obtain ⟨hpos, heff⟩ := tokenTransfer_effect (fun t t' => react_effect c t t' reaction hb) h
    intro hs
    -- without an allowance only zero can be taken from the contract
    have hzero : sender = c.self → value = 0 ∧ s.token.allowances sender caller = 0 := by
      rintro rfl
      have := hs caller
      omega
    obtain ⟨hs', hpaid⟩ := heff fun x => by
      rw [IRC2.approve_apply]
      split
      · next heq =>
        have := hzero heq.1.symm
        omega
      · exact hs x
    refine ⟨hs', ?_⟩
    split at hpaid
    · next heq => rwa [(hzero heq).1] at hpaid
    · exact hpaid
  | .approve owner spender amount, _, h => by
    simp only [step, bind_ok, pure_ok, require_ok, decide_eq_true_eq] at h
    obtain ⟨_, hne, rfl⟩ := h
    refine fun hs => ⟨fun x => ?_, by simp [surplus, held, sentAmount, releasedAmount]⟩
    rw [IRC2.approve_apply, if_neg fun heq => hne heq.1.symm]
    exact hs x
  | .mint owner amount, _, h => by
    simp only [step, bind_ok, pure_ok] at h
    obtain ⟨token, htoken, rfl⟩ := h
    obtain ⟨hall, hpos, hbal⟩ := IRC2.mint_ok htoken
    refine .of_token hall ?_
    rw [hbal]
    split <;> omega
  | .burn owner amount, _, h => by
    simp only [step, bind_ok, pure_ok, require_ok, decide_eq_true_eq] at h
    obtain ⟨_, hne, token, htoken, rfl⟩ := h
    obtain ⟨hall, hbal⟩ := IRC2.burn_ok htoken
    exact .of_token hall (by simp [hbal, hne.symm])
  | .connect _, _, h => by
    simp only [step] at h
    cases h; exact .refl

theorem react_effect (c : Config) (s s' : St) :
    (r : Reaction) → r.Backed → react c s r = .ok s' → Effect c 0 s s'
  | .revert, _, h => by simp [react] at h
  | .accept, _, h => by
    simp only [react, Except.ok.injEq] at h
    exact h ▸ .refl
  | .call tx next, hb, h => by
    simp only [Reaction.Backed] at hb
    simp only [react] at h
    split at h
    · next t ht => exact (step_effect c s t tx hb.1 ht).trans (react_effect c t s' next hb.2 h)
    · exact react_effect c s s' next hb.2 h

end

def initialState (token : IRC2) : St := { token }

/-- In every run in which `tokenFallback` is not called for tokens that have not
come, what is on Algorand is held. -/
theorem backed_of_genuine_fallbacks (c : Config) (token : IRC2) (txs : List Tx)
    (hbalance : 0 ≤ token.balances c.self) (hallowance : ∀ x, token.allowances c.self x ≤ 0)
    (hbacked : ∀ tx ∈ txs, tx.Backed) :
    let s := run (step c) (initialState token) txs
    sentAmount s - releasedAmount s ≤ held c s := by
  have hrun := run_along (P := fun s => Guarded c s ∧ 0 ≤ surplus c s)
    (fun s tx s' hs hb h => by
      obtain ⟨hguard, hpaid⟩ := step_effect c s s' tx hb h hs.1
      exact ⟨hguard, by omega⟩)
    (s := initialState token)
    ⟨hallowance, by simpa [surplus, held, sentAmount, releasedAmount, initialState] using hbalance⟩
    (along_of_mem hbacked)
  intro s
  have hsurplus : 0 ≤ surplus c s := hrun.2
  simp only [surplus] at hsurplus
  omega

theorem sampleSelf_isContract : Address.isContract ⟨true, 1⟩ = true := rfl

def sample : Config where
  self := ⟨true, 1⟩
  isContract := sampleSelf_isContract
  target := "btp://algorand/0x2"
  bmc := ⟨true, 2⟩
  asaId := 7
  tokenAddress := ⟨true, 3⟩

def sampleToken : IRC2 where
  balances a := if a = ⟨false, 4⟩ then 100 else 0
  totalSupply := 100

/-- The holder deposits all, a contract is paid 40 and puts 10 of them back at
once. -/
def depositAndRelease : List Tx :=
  [.connect true,
   .transfer ⟨false, 4⟩ sample.self 100 (toBytes 32 5) .accept,
   .handleBTPMessage sample.bmc (toBytes 8 40 ++ 0x80 :: toBytes 20 9)
     (.call (.transfer ⟨true, 9⟩ sample.self 10 (toBytes 32 6) .accept) .accept)]

theorem depositAndRelease_backed :
    let s := run (step sample) (initialState sampleToken) depositAndRelease
    held sample s = 70 ∧ sentAmount s = 110 ∧ sentAmount s - releasedAmount s ≤ held sample s := by
  refine ⟨by decide +kernel, by decide +kernel, ?_⟩
  refine backed_of_genuine_fallbacks sample sampleToken depositAndRelease (by decide)
    (fun _ => le_rfl) fun tx htx => ?_
  simp only [depositAndRelease, mem_cons, not_mem_nil, or_false] at htx
  rcases htx with rfl | rfl | rfl <;> simp [Tx.Backed, Reaction.Backed]

/-- Anybody can have a message sent for tokens that were never paid. -/
theorem fallback_without_tokens :
    let s := run (step sample) (initialState sampleToken)
      [.connect true, .tokenFallback ⟨false, 8⟩ ⟨false, 8⟩ 100 (toBytes 32 5)]
    held sample s = 0 ∧ releasedAmount s = 0 ∧ sentAmount s = 100 := by
  decide +kernel

end IconBridge.Java.Token.Escrow
