import IconBridge.Solidity.AddressText
import IconBridge.Solidity.BTS.Pending
import IconBridge.Solidity.BTS.Requests

/-!
# The sender of a request

A request is recorded with its sender as text. The text stays as it is until the
request is settled, and is read back then.
-/

namespace IconBridge.Solidity.BTS

open Lib

variable {d : Deployment} {s s' : St}

/-- A recorded request stays as it is until it is removed, and its number is not
given out again. -/
structure Outlives (s s' : St) : Prop where
  serial : s.serialNo ≤ s'.serialNo
  requests : ∀ n ≤ s.serialNo, s'.requests n = s.requests n ∨ s'.requests n = none

theorem Outlives.of_desk (h : desk s' = desk s) : Outlives s s' := by
  simp only [desk, Prod.mk.injEq] at h
  obtain ⟨hreq, hser, -⟩ := h
  exact ⟨hser.ge, fun n _ => .inl (congrFun hreq n)⟩

theorem Outlives.trans (h1 : Outlives s t) (h2 : Outlives t s') : Outlives s s' := by
  refine ⟨h1.serial.trans h2.serial, fun n hn => ?_⟩
  rcases h2.requests n (hn.trans h1.serial) with h | h
  · rcases h1.requests n hn with h' | h'
    · exact .inl (h.trans h')
    · exact .inr (h.trans h')
  · exact .inr h

theorem sendServiceMessage_outlives (h : sendServiceMessage d s u target es = .ok s') :
    Outlives s s' := by
  obtain ⟨_, _, -, rfl⟩ := sendServiceMessage_eq h
  exact ⟨Nat.le_succ _, fun n hn => .inl (Function.update_of_ne (Nat.lt_succ_of_le hn).ne ..)⟩

theorem outlives_rule : Rule d Outlives where
  trans := Outlives.trans
  keeps hdesk _ := .of_desk hdesk
  moves h := .of_desk h.desk
  deploys h := .of_desk (deployTradable_desk h)
  files _ h := sendServiceMessage_outlives h
  responds _ := ⟨le_rfl, fun _ _ => .inl rfl⟩

theorem step_outlives (h : step d s tx = .ok s') : Outlives s s' := by
  rcases outlives_rule.step h with hout | ⟨sn, code, -, -, t, ht, hreq, hser, -⟩
  · exact hout
  · refine ht.trans ⟨hser.ge, fun n _ => ?_⟩
    rw [hreq, Function.update_apply]
    split
    · exact .inr rfl
    · exact .inl rfl

theorem run_outlives (d : Deployment) (s : St) (txs : List Tx) : Outlives s (run (step d) s txs) :=
  run_induct (fun _ _ _ hs h => hs.trans (step_outlives h)) ⟨le_rfl, fun _ _ => .inl rfl⟩

theorem run_senders (txs : List Tx) :
    Each (fun p => ∃ u, p.sender = toString d.caps u)
      (run (step d) (initialState name feeNumerator fixedFee native code erc20) txs) := by
  have hrule := each_rule (d := d) (P := fun p => ∃ u, p.sender = toString d.caps u)
    fun u _ _ _ => ⟨u, rfl⟩
  refine run_induct (fun s tx s' hs h => step_each hrule hs h) ?_
  intro n p hp
  simp [initialState] at hp

/-- An address is read back from its text, whatever its capitals; a text is
accepted if and only if it is `0x` and forty hexadecimal digits, and two texts are
of the same address if and only if they agree up to letter case. In every run the
sender that is recorded for a request is found when the request is settled. -/
theorem address_text_round_trip (keccak256 : Keccak256) :
    (∀ a, parseAddressLoops (toChecksumString keccak256 a) = .ok a) ∧
    (∀ x, (∃ a, parseAddressLoops x = .ok a) ↔ IsAddressText x) ∧
    (∀ x y a b, parseAddressLoops x = .ok a → parseAddressLoops y = .ok b →
      (a = b ↔ x.toList.map Char.toLower = y.toList.map Char.toLower)) ∧
    ∀ (d : Deployment) (name : String) (feeNumerator fixedFee : ℕ) (native : Ledger)
      (code : Address → Option Code) (erc20 : Address → Ledger) (txs later : List Tx) (sn : ℕ)
      (p q : PendingTransferCoin),
      d.caps = toChecksumCapsFlags keccak256 →
      let s := run (step d) (initialState name feeNumerator fixedFee native code erc20) txs
      s.requests sn = some p → (run (step d) s later).requests sn = some q →
      ∃ u, p.sender = toChecksumString keccak256 u ∧ parseAddressLoops q.sender = .ok u := by
  have hparse (a : Address) : parseAddressLoops (toChecksumString keccak256 a) = .ok a := by
    rw [parseAddressLoops_eq, toChecksumString_eq, parseAddress_toString]
  simp only [parseAddressLoops_eq] at hparse ⊢
  refine ⟨hparse, parseAddress_succeeds_iff, fun x y a b => parseAddress_eq_iff, ?_⟩
  intro d name feeNumerator fixedFee native code erc20 txs later sn p q hcaps hp hq
  obtain ⟨u, hu⟩ := run_senders txs sn p hp
  rw [hcaps, ← toChecksumString_eq] at hu
  have hb : Balanced d (run (step d) (initialState name feeNumerator fixedFee native code erc20) txs) :=
    run_balanced initialState_balanced
  obtain ⟨-, hsn⟩ := hb.numbered sn (by rw [hp]; rfl)
  have hkept := (run_outlives d _ later).requests sn hsn
  rw [hq, hp] at hkept
  obtain rfl : q = p := by simpa using hkept
  exact ⟨u, hu, hu ▸ hparse u⟩

def lastByte (digits : String) : String := "0x00000000000000000000000000000000000000" ++ digits

theorem mixedCase_same_address :
    (lastByte "aB").toList.map Char.toLower = (lastByte "Ab").toList.map Char.toLower :=
  ((address_text_round_trip fun _ _ => 0).2.2.1 (lastByte "aB") (lastByte "Ab") 0xab 0xab
    (by decide +kernel) (by decide +kernel)).1 rfl

end IconBridge.Solidity.BTS
