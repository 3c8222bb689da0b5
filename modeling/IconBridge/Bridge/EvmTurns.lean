import IconBridge.Bridge.EvmMoves

/-!
# Turns of the EVM chain

Every move of the EVM chain is a turn of a party of two exchanges.
-/

namespace IconBridge.Bridge

open Lib List
open Solidity.BMC (toInt256)
open Solidity.BTS (Files Outgoing)

variable {p : Parties} {T : Terms}

def evmParty (b : Solidity.BTS.St) : Party ℤ where
  serial := b.serialNo
  executed := (Solidity.BTS.received b).map fun n : ℕ => (n : ℤ)
  ended := (Solidity.BTS.ended b).map fun e : ℕ × Bool => ((e.1 : ℤ), e.2)

def EvmInRange (b : Solidity.BTS.St) : Prop := b.serialNo < 2 ^ 255

theorem toInt256_of_lt (h : n < 2 ^ 255) : toInt256 n = n := if_pos h

variable {b b' c : Solidity.BTS.St}

def filed (out : List Outgoing) : List (Note ℤ) := (out.map fun o => (o.sn : ℤ)).map Note.ask

theorem files_notes {ends : List (ℕ × Bool)} {out : List Outgoing} (hf : Files ends b c out) (hrange : EvmInRange c) :
    (evmWires p out).map Wire.note = filed out ∧ ∀ w ∈ evmWires p out, FromEvm p w := by
  have hwire : ∀ o ∈ out, ∃ r, evmWire p (toInt256 o.sn) (ofServiceMessage o.msg) =
      evmWire p o.sn ⟨.requestCoinTransfer, .transferRequest r⟩ := by
    intro o ho
    obtain ⟨_, hm⟩ := hf.kinds o ho
    rw [toInt256_of_lt ((hf.sn_le ho).2.trans_lt hrange), hm]
    exact ⟨_, rfl⟩
  constructor
  · rw [filed, evmWires, map_map, map_map]
    refine map_congr_left fun o ho => ?_
    obtain ⟨r, hr⟩ := hwire o ho
    simp only [Function.comp_apply, hr]
    rfl
  · intro w hmem
    obtain ⟨o, ho, rfl⟩ := mem_map.1 hmem
    obtain ⟨r, hr⟩ := hwire o ho
    have hpos := (hf.sn_le ho).1
    rw [hr]
    exact .service _ (by omega) _ (.request r)

theorem files_turn {ends : List (ℕ × Bool)} {out : List Outgoing} {rest : List (Note ℤ)}
    (hf : Files ends b c out) (hserial : b'.serialNo = c.serialNo) (hrest : asks rest = 0)
    (hdeals : Deals (evmParty b) (evmParty b') m (replies rest)) :
    Turn (evmParty b) (evmParty b') m (filed out ++ rest) where
  serial := by
    simp only [evmParty, hserial, hf.serial]
    omega
  nodup := by
    rw [asks_append, hrest, add_zero, filed, asks_map_ask, Multiset.coe_nodup]
    have hnumbers : (out.map Outgoing.sn).Nodup := by
      rw [hf.numbers]
      exact nodup_range'
    have hcast := hnumbers.map (f := fun n : ℕ => (n : ℤ)) fun _ _ => Int.ofNat_inj.1
    rwa [map_map] at hcast
  fresh k hk := by
    rw [asks_append, hrest, add_zero, filed, asks_map_ask, Multiset.mem_coe] at hk
    obtain ⟨o, ho, rfl⟩ := mem_map.1 hk
    have := hf.sn_le ho
    simp only [evmParty, hserial]
    omega
  deals := by rw [replies_append, filed, replies_map_ask, zero_add]; exact hdeals

structure EvmTurn (p : Parties) (m : Option (Note ℤ)) (out : List Wire) (b b' : Solidity.BTS.St) :
    Prop where
  kinds : ∀ w ∈ out, FromEvm p w
  turn : Turn (evmParty b) (evmParty b') m (out.map Wire.note)

theorem evmTurn_of_files {ends : List (ℕ × Bool)} {out : List Outgoing} {rest : List Wire}
    (hf : Files ends b c out) (hrange : EvmInRange c) (hserial : b'.serialNo = c.serialNo)
    (hkinds : ∀ w ∈ rest, FromEvm p w) (hrest : asks (rest.map Wire.note) = 0)
    (hdeals : Deals (evmParty b) (evmParty b') m (replies (rest.map Wire.note))) :
    EvmTurn p m (evmWires p out ++ rest) b b' := by
  obtain ⟨hnotes, hfiled⟩ := files_notes (p := p) hf hrange
  refine ⟨fun w hw => (mem_append.1 hw).elim (hfiled w) (hkinds w), ?_⟩
  rw [map_append, hnotes]
  exact files_turn hf hserial hrest hdeals

theorem evmTurn_of_filing {out : List Outgoing} (hrange : EvmInRange b') (hf : Files [] b b' out)
    (hm : m = none ∨ m = some .other) : EvmTurn p m (evmWires p out) b b' := by
  rw [← append_nil (evmWires p out)]
  refine evmTurn_of_files hf hrange rfl (by simp) rfl (.idle hm ?_ ?_)
  · simp only [evmParty, hf.received]
  · simp only [evmParty, hf.ended, append_nil]

theorem evmTurn_of_settlement {n : ℕ} {out : List Outgoing} (hrange : EvmInRange b')
    (hf : Files [(n, ok)] b b' out) : EvmTurn p (some (.reply n ok)) (evmWires p out) b b' := by
  rw [← append_nil (evmWires p out)]
  refine evmTurn_of_files hf hrange rfl (by simp) rfl (.settle _ _ ?_ ?_)
  · simp only [evmParty, hf.received]
  · simp only [evmParty, hf.ended, map_append]
    rfl

theorem evmTurn_of_reply {n : ℕ} {out sent : List Outgoing} {ty : Solidity.BTS.ServiceType}
    (hrange : EvmInRange b') (hn : 0 < n) (hlt : n < 2 ^ 255)
    (hf : Files [] b c out) (hreplies : Solidity.BTS.Replies got c b' target n ty r)
    (hsent : b'.sent = b.sent ++ sent)
    (hty : ty = .responseHandleService ∨ ty = .blacklistMessage ∨ ty = .changeTokenLimit)
    (hdeals : Deals (evmParty b) (evmParty b') m
      (replies [serviceNote n (ofServiceMessage ⟨ty, .response r⟩)])) :
    EvmTurn p m (evmWires p sent) b b' := by
  obtain rfl : out ++ [⟨target, n, ⟨ty, .response r⟩⟩] = sent := by
    rw [hreplies.sent, hf.sent, append_assoc] at hsent
    exact append_cancel_left hsent
  have hsn : (0 : ℤ) < n := Int.natCast_pos.2 hn
  rw [evmWires, map_append, map_singleton, toInt256_of_lt hlt]
  have hrange' : EvmInRange c := by rwa [EvmInRange, ← hreplies.serial]
  refine evmTurn_of_files hf hrange' hreplies.serial ?_ ?_ hdeals
  · intro w hmem
    obtain rfl := mem_singleton.1 hmem
    refine .service _ hsn _ (.response _ ?_ _)
    rcases hty with rfl | rfl | rfl
    · exact .inl rfl
    · exact .inr (.inl rfl)
    · exact .inr (.inr rfl)
  · rcases hty with rfl | rfl | rfl <;> rfl

theorem files_seen (reachable : String → Bool) : Files [] b { b with reachable } [] := .nil rfl rfl

theorem evmHandles_turn {n : ℕ} {out : List Outgoing}
    (hrange : EvmInRange b') (hn : 0 < n) (hlt : n < 2 ^ 255) (hm : IconService m)
    (h : Solidity.BTS.handleBTPMessage p.evm { b with reachable } p.evm.bmc p.iconAddr.net "bts" n
      (toServiceMessage m) rs = .ok b')
    (hsent : b'.sent = b.sent ++ out) :
    EvmTurn p (some (serviceNote n m)) (evmWires p out) b b' := by
  have hseen := files_seen (b := b) reachable
  -- Nothing is carried out or settled by a message that is only answered.
  have hidle {ty : Solidity.BTS.ServiceType} {r : Solidity.BTS.Response}
      (hreplies : Solidity.BTS.Replies [] { b with reachable } b' p.iconAddr.net n ty r) :
      (evmParty b').executed = (evmParty b).executed ∧ (evmParty b').ended = (evmParty b).ended := by
    simp only [evmParty, hreplies.received, hreplies.ended, append_nil]
    exact ⟨rfl, rfl⟩
  cases hm with
  | request r =>
    cases Solidity.BTS.handleBTPMessage_handles h with
    | accepts tc t out hfiles hreplies =>
      refine evmTurn_of_reply hrange hn hlt (hseen.trans hfiles) hreplies hsent (.inl rfl)
        (.accept _ ?_ ?_)
      · simp only [evmParty, hreplies.received, hfiles.received, map_append]
        rfl
      · simp only [evmParty, hreplies.ended, hfiles.ended, append_nil]
        rfl
    | refuses tc reason hreplies =>
      obtain ⟨hexec, hend⟩ := hidle hreplies
      exact evmTurn_of_reply hrange hn hlt hseen hreplies hsent (.inl rfl) (.refuse _ hexec hend)
    | changes _ hty => simp at hty
  | change _ hchange =>
    cases hchange with
    | blacklist l =>
      cases Solidity.BTS.handleBTPMessage_handles h with
      | changes _ _ r hreplies =>
        obtain ⟨hexec, hend⟩ := hidle hreplies
        exact evmTurn_of_reply hrange hn hlt hseen hreplies hsent (.inr (.inl rfl))
          (.absorb _ hexec hend)
    | tokenLimit l =>
      cases Solidity.BTS.handleBTPMessage_handles h with
      | changes _ _ r hreplies =>
        obtain ⟨hexec, hend⟩ := hidle hreplies
        exact evmTurn_of_reply hrange hn hlt hseen hreplies hsent (.inr (.inr rfl))
          (.absorb _ hexec hend)
  | response r =>
    cases Solidity.BTS.handleBTPMessage_handles h with
    | settles _ out' hfiles =>
      have hcode : decide (r.code.natAbs = Solidity.BTS.rcOk) = decide (r.code = Java.BTS.rcOk) :=
        decide_eq_decide.2 Int.natAbs_eq_zero
      rw [hcode] at hfiles
      have hfiles := hseen.trans hfiles
      obtain rfl : out' = out := append_cancel_left (hfiles.sent.symm.trans hsent)
      exact evmTurn_of_settlement hrange hfiles
    | changes _ hty => simp at hty

theorem evmTurn_of_error {n : ℕ} (hrange : EvmInRange b) (hn : 0 < n) (code : ℤ) (reason : String) :
    EvmTurn p (some (.ask n)) [evmError p n code reason] b b := by
  have hnone : Files [] b b [] := .nil rfl rfl
  change EvmTurn p (some (.ask n)) (evmWires p [] ++ [evmError p n code reason]) b b
  refine evmTurn_of_files hnone hrange rfl ?_ rfl ?_
  · intro w hmem
    obtain rfl := mem_singleton.1 hmem
    exact .error _ (Int.natCast_pos.2 hn) _ _
  · have hnote : replies [Note.reply (- -(n : ℤ)) false] = {((n : ℤ), false)} := by
      rw [neg_neg]
      rfl
    exact hnote ▸ .refuse _ rfl rfl

theorem evmTurn_of_same (hdeals : Deals (evmParty b) (evmParty b) m 0) : EvmTurn p m [] b b :=
  ⟨by simp, le_rfl, by simp, by simp, hdeals⟩

theorem iconError_note : (iconError p sn code message).note = .reply sn false := by
  rw [iconError, Wire.note, neg_neg]

theorem IconService.note_number? (hm : IconService m) : (serviceNote sn m).number? = some sn := by
  cases hm with
  | change _ hchange => cases hchange <;> rfl
  | _ => rfl

theorem IconService.asks (hm : IconService m) (hty : m.serviceType ≠ .responseHandleService) :
    serviceNote sn m = .ask sn := by
  cases hm with
  | request r => rfl
  | change _ hchange => cases hchange <;> rfl
  | response r => exact absurd rfl hty

theorem EvmMove.turn (hrange : EvmInRange b) (hrange' : EvmInRange b')
    (hlt : ∀ w k, m = some w → w.note.number? = some k → k < 2 ^ 255)
    (h : EvmMove p T b m out b') : EvmTurn p (m.map Wire.note) out b b' := by
  cases h with
  | idle => exact evmTurn_of_same (.idle (.inl rfl) rfl rfl)
  | acts reachable tx _ houtside h hsent =>
    obtain ⟨out', hfiles⟩ := Solidity.BTS.step_files houtside h
    obtain rfl := append_cancel_left (hfiles.sent.symm.trans hsent)
    exact evmTurn_of_filing hrange' ((files_seen reachable).trans hfiles) (.inl rfl)
  | gathers reachable fa svc h hsent =>
    obtain ⟨out', hfiles⟩ := Solidity.BTS.handleFeeGathering_files h
    obtain rfl := append_cancel_left (hfiles.sent.symm.trans hsent)
    exact evmTurn_of_filing hrange' ((files_seen reachable).trans hfiles) (.inl rfl)
  | handles reachable n hn m hm _ rs h hsent =>
    have hn' : (n : ℤ) < 2 ^ 255 := hlt _ _ rfl hm.note_number?
    exact evmHandles_turn hrange' hn (by exact_mod_cast hn') hm h hsent
  | refuses n hn m hm hty code reason =>
    have hnote : (iconWire p n m).note = .ask n := hm.asks hty
    rw [Option.map_some, hnote]
    exact evmTurn_of_error hrange hn code reason
  | fails reachable n hn code message rs h hsent =>
    obtain ⟨out', hfiles⟩ := Solidity.BTS.handleBTPError_files h
    have hfiles := (files_seen reachable).trans hfiles
    obtain rfl := append_cancel_left (hfiles.sent.symm.trans hsent)
    rw [Option.map_some, iconError_note]
    exact evmTurn_of_settlement hrange' hfiles
  | ignores n hn code message =>
    rw [Option.map_some, iconError_note]
    exact evmTurn_of_same (.ignore _ _ rfl rfl)
  | skips fa svcs => exact evmTurn_of_same (.idle (.inr rfl) rfl rfl)

end IconBridge.Bridge
