import IconBridge.Bridge.IconMoves

/-!
# Turns of ICON

Every move of ICON is a turn of a party of two exchanges.
-/

namespace IconBridge.Bridge

open Lib List
open Java.BTS (Asks Closes Outgoing)

variable {p : Parties} {T : Terms}

def iconParty (b : Java.BTS.St) : Party ℤ where
  serial := b.sn
  executed := Java.BTS.received b
  ended := Java.BTS.ended b

variable {b b' : Java.BTS.St}

structure IconTurn (p : Parties) (m : Option (Note ℤ)) (out : List Wire) (b b' : Java.BTS.St) :
    Prop where
  kinds : ∀ w ∈ out, FromIcon p w
  turn : Turn (iconParty b) (iconParty b') m (out.map Wire.note)

theorem closes_seen {ends : List (ℤ × Bool)} (h : Closes ends { b with reachable } b') :
    Closes ends b b' :=
  ⟨h.serial, h.sent, h.received, h.ended⟩

theorem iconTurn_of_closes {ends : List (ℤ × Bool)} {out : List Wire} (hcloses : Closes ends b b')
    (hkinds : ∀ w ∈ out, FromIcon p w) (hasks : asks (out.map Wire.note) = 0)
    (hdeals : Deals (iconParty b) (iconParty b') m (replies (out.map Wire.note))) :
    IconTurn p m out b b' :=
  ⟨hkinds, hcloses.serial.ge, by simp [hasks], by simp [hasks], hdeals⟩

theorem iconTurn_of_ignored (hcloses : Closes [] b b') (sn : ℤ) (ok : Bool) :
    IconTurn p (some (.reply sn ok)) [] b b' :=
  iconTurn_of_closes hcloses (by simp) rfl
    (.ignore sn ok hcloses.received (hcloses.ended.trans (append_nil _)))

theorem iconTurn_of_settlement (hcloses : Closes [(sn, ok)] b b') :
    IconTurn p (some (.reply sn ok)) [] b b' :=
  iconTurn_of_closes hcloses (by simp) rfl (.settle sn ok hcloses.received hcloses.ended)

theorem iconTurn_of_same {out : List Wire} (hkinds : ∀ w ∈ out, FromIcon p w)
    (hasks : asks (out.map Wire.note) = 0)
    (hdeals : Deals (iconParty b) (iconParty b) m (replies (out.map Wire.note))) :
    IconTurn p m out b b :=
  iconTurn_of_closes (.of_eq rfl rfl rfl) hkinds hasks hdeals

theorem iconTurn_of_asks {out : List Outgoing} (hserial : 0 ≤ b.sn) (hasks : Asks b b' out)
    (hlen : out.length ≤ 1) : IconTurn p none (iconWires p out) b b' := by
  have hnote : ∀ o ∈ out, (iconWire p o.sn o.msg).note = .ask o.sn ∧
      FromIcon p (iconWire p o.sn o.msg) := by
    intro o ho
    have hpos : 0 < o.sn := hserial.trans_lt (hasks.numbers o ho).1
    obtain ⟨target, sn, m⟩ := o
    rcases hasks.kinds _ ho with ⟨_, hm⟩ | hchange
    · cases hm
      exact ⟨rfl, .service _ hpos _ (.request _)⟩
    · refine ⟨?_, .service _ hpos _ (.change _ hchange)⟩
      cases hchange <;> rfl
  have hnotes : (iconWires p out).map Wire.note = (out.map Outgoing.sn).map Note.ask := by
    rw [iconWires, map_map, map_map]
    exact map_congr_left fun o ho => (hnote o ho).1
  have hnodup : (out.map Outgoing.sn).Nodup := by
    rcases out with _ | ⟨o, _ | ⟨_, _⟩⟩
    · simp
    · simp
    · simp at hlen
  refine ⟨fun w hw => ?_, hasks.serial, ?_, ?_, ?_⟩
  · obtain ⟨o, ho, rfl⟩ := mem_map.1 hw
    exact (hnote o ho).2
  · rw [hnotes, asks_map_ask, Multiset.coe_nodup]
    exact hnodup
  · intro k hk
    rw [hnotes, asks_map_ask, Multiset.mem_coe] at hk
    obtain ⟨o, ho, rfl⟩ := mem_map.1 hk
    exact ⟨(hasks.numbers o ho).1, (hasks.numbers o ho).2.le⟩
  · rw [hnotes, replies_map_ask]
    exact .idle (.inl rfl) hasks.received hasks.ended

theorem iconHandles_turn {out : List Outgoing} (hsn : 0 < sn) (hm : EvmService m)
    (h : Java.BTS.handleBTPMessage p.icon receivers { b with reachable } p.icon.bmc p.evmAddr.net
      "bts" sn (some m) = .ok b')
    (hsent : b'.sent = b.sent ++ out) :
    IconTurn p (some (serviceNote sn m)) (iconWires p out) b b' := by
  cases hm with
  | request r =>
    cases Java.BTS.handleBTPMessage_handles h with
    | accepts _ message hreplies =>
      obtain rfl := append_cancel_left (hreplies.sent.symm.trans hsent)
      refine ⟨?_, hreplies.serial.ge, Multiset.nodup_zero,
        fun k hk => absurd hk (Multiset.notMem_zero k), .accept sn hreplies.received hreplies.ended⟩
      intro w hmem
      obtain rfl := mem_singleton.1 hmem
      exact .service _ hsn _ (.response _)
    | notes _ hty => simp at hty
    | disowns _ hty => simp at hty
  | response ty hty r =>
    have hsilent (hkept : b'.sent = b.sent) : iconWires p out = [] := by
      rw [hkept] at hsent
      rw [append_right_eq_self.1 hsent.symm]
      rfl
    have hnoted (hcloses : Closes [] b b') : IconTurn p (some .other) (iconWires p out) b b' := by
      rw [hsilent hcloses.sent]
      exact iconTurn_of_closes hcloses (by simp) rfl
        (.idle (.inr rfl) hcloses.received (hcloses.ended.trans (append_nil _)))
    rcases hty with rfl | rfl | rfl
    · cases Java.BTS.handleBTPMessage_handles h with
      | settles _ hcloses =>
        have hcloses := closes_seen hcloses
        rw [hsilent hcloses.sent]
        exact iconTurn_of_settlement hcloses
      | ignores _ hcloses =>
        have hcloses := closes_seen hcloses
        rw [hsilent hcloses.sent]
        exact iconTurn_of_ignored hcloses _ _
      | notes _ hm => simp at hm
      | disowns _ hm => simp at hm
    · cases Java.BTS.handleBTPMessage_handles h with
      | notes _ _ hcloses => exact hnoted (closes_seen hcloses)
      | disowns _ hm => simp at hm
    · cases Java.BTS.handleBTPMessage_handles h with
      | notes _ _ hcloses => exact hnoted (closes_seen hcloses)
      | disowns _ hm => simp at hm

theorem iconTurn_of_error (hsn : 0 < sn) (code : ℤ) (message : String) :
    IconTurn p (some (.ask sn)) [iconError p sn code message] b b := by
  refine iconTurn_of_same ?_ rfl ?_
  · intro w hmem
    obtain rfl := mem_singleton.1 hmem
    exact .error _ hsn _ _
  · have hnote : replies [Note.reply (- -sn) false] = {(sn, false)} := by
      rw [neg_neg]
      rfl
    exact hnote ▸ .refuse _ rfl rfl

theorem evmError_note : (evmError p sn code message).note = .reply sn false := by
  rw [evmError, Wire.note, neg_neg]

theorem EvmService.asks (hm : EvmService m) (hdata : ∀ r, m.data ≠ .response r) :
    serviceNote sn m = .ask sn := by
  cases hm with
  | request r => rfl
  | response ty hty r => exact absurd rfl (hdata r)

theorem IconMove.turn (hserial : 0 ≤ b.sn) (h : IconMove p T b m out b') :
    IconTurn p (m.map Wire.note) out b b' := by
  cases h with
  | idle => exact iconTurn_of_same (by simp) rfl (.idle (.inl rfl) rfl rfl)
  | acts reachable tx _ houtside h hsent =>
    obtain ⟨out', hasks⟩ := Java.BTS.step_asks houtside h
    obtain rfl := append_cancel_left (hasks.sent.symm.trans hsent)
    have hlen : out'.length ≤ 1 := by simpa using hasks.length
    have hasks' : Asks b b' out' :=
      ⟨hasks.sent, hasks.serial, hasks.numbers, hlen.trans (le_max_left 1 _), hasks.kinds,
        hasks.listed, hasks.received, hasks.ended⟩
    exact iconTurn_of_asks hserial hasks' hlen
  | gathers reachable receivers fa h hsent =>
    obtain ⟨out', hlen, hasks⟩ := Java.BTS.handleFeeGathering_asks h
    obtain rfl := append_cancel_left (hasks.sent.symm.trans hsent)
    have hasks : Asks b b' out' := hasks.of_closes (.of_eq rfl rfl rfl) rfl
    exact iconTurn_of_asks hserial hasks hlen
  | tells fa svcs =>
    refine iconTurn_of_same (fun w hmem => ?_) rfl (.idle (.inl rfl) rfl rfl)
    obtain rfl := mem_singleton.1 hmem
    exact .feeGathering _ _
  | handles reachable receivers sn hsn m hm _ h hsent => exact iconHandles_turn hsn hm h hsent
  | refuses sn hsn m hm hdata code message =>
    have hnote : (evmWire p sn m).note = .ask sn := hm.asks hdata
    rw [Option.map_some, hnote]
    exact iconTurn_of_error hsn code message
  | fails reachable receivers sn hsn code message h =>
    rw [Option.map_some, evmError_note]
    obtain hcloses | hcloses := Java.BTS.handleBTPError_closes h
    · exact iconTurn_of_ignored (closes_seen hcloses) sn false
    · exact iconTurn_of_settlement (closes_seen hcloses)
  | ignores =>
    rw [Option.map_some, evmError_note]
    exact iconTurn_of_ignored (.of_eq rfl rfl rfl) _ _

end IconBridge.Bridge
