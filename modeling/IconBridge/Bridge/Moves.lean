import IconBridge.Bridge.EvmTurns
import IconBridge.Bridge.IconTurns

/-!
# Moves of the two chains

An act is a sequence of moves of one chain, as long as no response fails to be
handled. One that fails is answered with an error under the same serial number,
and the chain that sent the response takes that for an answer to a request of
its own.
-/

namespace IconBridge.Bridge

open Lib Option List

variable {p : Parties} {s s' : Chains} {T : Terms} {next : String}

def Chains.toIcon (p : Parties) (s : Chains) : List Wire :=
  (evmOutbox p s.evm).contents.drop (iconOutbox p s.icon).rx

def Chains.toEvm (p : Parties) (s : Chains) : List Wire :=
  (iconOutbox p s.icon).contents.drop (evmOutbox p s.evm).rx

/-- The chains have sent what chains send, and talk as parties do. -/
structure Sound (p : Parties) (s : Chains) : Prop where
  evmWired : EvmWired p s.evm
  iconWired : IconWired p s.icon
  iconSerial : 0 ≤ s.icon.world.bts.sn
  fromEvm : ∀ w ∈ (evmOutbox p s.evm).contents, FromEvm p w
  fromIcon : ∀ w ∈ (iconOutbox p s.icon).contents, FromIcon p w
  evmTaken : (evmOutbox p s.evm).rx ≤ (iconOutbox p s.icon).contents.length
  iconTaken : (iconOutbox p s.icon).rx ≤ (evmOutbox p s.evm).contents.length
  talk : Conversation (evmParty s.evm.world.bts) (iconParty s.icon.world.bts)
    ((s.toIcon p).map Wire.note) ((s.toEvm p).map Wire.note)

theorem drop_next {l front back : List α} (h : l.drop i = front ++ back) (hi : i ≤ l.length) :
    l.drop (i + front.length) = back ∧ i + front.length ≤ l.length := by
  refine ⟨by rw [← drop_drop, h, drop_left], ?_⟩
  have hlen := congrArg List.length h
  rw [length_drop, length_append] at hlen
  omega

/-- One chain makes a move, and counts the message that it has taken. -/
inductive Move (p : Parties) (T : Terms) (s : Chains) : Chains → Prop
  | evm {m : Option Wire} {out rest : List Wire} {t u : Solidity.BMC.St EvmWorld Wire}
      (hm : s.toEvm p = m.toList ++ rest) (hdoes : EvmDoes p T m out s.evm u)
      (hcounts : EvmCounts p m.toList.length u t) : Move p T s { s with evm := t }
  | icon {m : Option Wire} {out rest : List Wire} {t u : Java.BMC.St IconWorld Wire}
      (hm : s.toIcon p = m.toList ++ rest) (hdoes : IconDoes p T m out s.icon u)
      (hcounts : IconCounts p m.toList.length u t) : Move p T s { s with icon := t }

/-- What a move is to the token services and to the messages on their way. -/
inductive Takes (p : Parties) (T : Terms) (s s' : Chains) : Prop
  | evm {m : Option Wire} (hicon : s'.icon = s.icon) (htoEvm : s.toEvm p = m.toList ++ s'.toEvm p)
      (htoIcon : s'.toIcon p = s.toIcon p ++ out)
      (hmove : EvmMove p T s.evm.world.bts m out s'.evm.world.bts)
  | icon {m : Option Wire} (hevm : s'.evm = s.evm) (htoIcon : s.toIcon p = m.toList ++ s'.toIcon p)
      (htoEvm : s'.toEvm p = s.toEvm p ++ out)
      (hmove : IconMove p T s.icon.world.bts m out s'.icon.world.bts)

def InRange (s : Chains) : Prop :=
  s.evm.world.bts.serialNo < 2 ^ 255 ∧ s.icon.world.bts.sn < 2 ^ 255

instance : Decidable (InRange s) := inferInstanceAs (Decidable (_ ∧ _))

theorem Move.inRange (h : Move p T s s') (hrange : InRange s') : InRange s := by
  cases h with
  | evm _ hdoes hcounts =>
    refine ⟨hdoes.move.serial_le.trans_lt ?_, hrange.2⟩
    rw [← hcounts.world]
    exact hrange.1
  | icon _ hdoes hcounts =>
    refine ⟨hrange.1, hdoes.move.serial_le.trans_lt ?_⟩
    rw [← hcounts.world]
    exact hrange.2

theorem Sound.number_lt (hs : Sound p s) (hrange : InRange s) (hw : w ∈ s.toEvm p)
    (hk : w.note.number? = some k) : k < 2 ^ 255 := by
  rcases hs.talk.number_le (mem_map_of_mem hw) hk with hle | hle
  · have hserial : (s.evm.world.bts.serialNo : ℤ) < 2 ^ 255 := by exact_mod_cast hrange.1
    exact hle.trans_lt hserial
  · exact hle.trans_lt hrange.2

theorem EvmDoes.outbox {t u : Solidity.BMC.St EvmWorld Wire} {c : Solidity.BMC.St EvmWorld Wire}
    (hdoes : EvmDoes p T m out c u) (hcounts : EvmCounts p n u t) :
    (evmOutbox p t).contents = (evmOutbox p c).contents ++ out ∧
      (evmOutbox p t).rx = (evmOutbox p c).rx + n := by
  rw [hcounts.outbox]
  exact ⟨hdoes.posts.contents, congrArg (· + n) hdoes.posts.rx⟩

theorem IconDoes.outbox {t u : Java.BMC.St IconWorld Wire} {c : Java.BMC.St IconWorld Wire}
    (hdoes : IconDoes p T m out c u) (hcounts : IconCounts p n u t) :
    (iconOutbox p t).contents = (iconOutbox p c).contents ++ out ∧
      (iconOutbox p t).rx = (iconOutbox p c).rx + n := by
  rw [hcounts.outbox]
  exact ⟨hdoes.posts.contents, congrArg (· + n) hdoes.posts.rx⟩

theorem Sound.takes (hs : Sound p s) (h : Move p T s s') : Takes p T s s' := by
  cases h with
  | evm hm hdoes hcounts =>
    obtain ⟨hcontents, hrx⟩ := hdoes.outbox hcounts
    refine .evm rfl ?_ ?_ (hcounts.world ▸ hdoes.move)
    · rw [hm]
      simp only [Chains.toEvm, hrx]
      rw [(drop_next hm hs.evmTaken).1]
    · simp only [Chains.toIcon, hcontents]
      rw [drop_append_of_le_length hs.iconTaken]
  | icon hm hdoes hcounts =>
    obtain ⟨hcontents, hrx⟩ := hdoes.outbox hcounts
    refine .icon rfl ?_ ?_ (hcounts.world ▸ hdoes.move)
    · rw [hm]
      simp only [Chains.toIcon, hrx]
      rw [(drop_next hm hs.iconTaken).1]
    · simp only [Chains.toEvm, hcontents]
      rw [drop_append_of_le_length hs.evmTaken]

theorem Takes.talk (hs : Sound p s) (hrange : InRange s) (hrange' : InRange s')
    (h : Takes p T s s') :
    Conversation (evmParty s'.evm.world.bts) (iconParty s'.icon.world.bts)
      ((s'.toIcon p).map Wire.note) ((s'.toEvm p).map Wire.note) := by
  cases h with
  | @evm out m hicon htoEvm htoIcon hmove =>
    have hturn := hmove.turn hrange.1 hrange'.1 fun w k hw =>
      hs.number_lt hrange (by simp [htoEvm, hw])
    have htalk := hs.talk
    rw [htoEvm, map_append, ← toList_map] at htalk
    rw [htoIcon, map_append, hicon]
    exact htalk.turn hturn.turn
  | @icon out m hevm htoIcon htoEvm hmove =>
    have hturn := hmove.turn hs.iconSerial
    have htalk := hs.talk.symm
    rw [htoIcon, map_append, ← toList_map] at htalk
    rw [htoEvm, map_append, hevm]
    exact (htalk.turn hturn.turn).symm

theorem Sound.move (hs : Sound p s) (hrange : InRange s) (hrange' : InRange s')
    (h : Move p T s s') : Sound p s' := by
  have htalk := (hs.takes h).talk hs hrange hrange'
  cases h with
  | @evm m out rest t u hm hdoes hcounts =>
    obtain ⟨hcontents, hrx⟩ := hdoes.outbox hcounts
    have hturn := hdoes.move.turn hrange.1 (hcounts.world ▸ hrange'.1) fun w k hw =>
      hs.number_lt hrange (by simp [hm, hw])
    refine ⟨hcounts.wired (hdoes.posts.wired hs.evmWired), hs.iconWired, hs.iconSerial,
      fun w hw => ?_, hs.fromIcon, ?_, ?_, htalk⟩
    · rw [hcontents] at hw
      exact (mem_append.1 hw).elim (hs.fromEvm w) (hturn.kinds w)
    · rw [hrx]
      exact (drop_next hm hs.evmTaken).2
    · rw [hcontents, length_append]
      exact hs.iconTaken.trans (Nat.le_add_right _ _)
  | @icon m out rest t u hm hdoes hcounts =>
    obtain ⟨hcontents, hrx⟩ := hdoes.outbox hcounts
    have hturn := hdoes.move.turn hs.iconSerial
    refine ⟨hs.evmWired, hcounts.wired (hdoes.posts.wired hs.iconWired), ?_,
      hs.fromEvm, fun w hw => ?_, ?_, ?_, htalk⟩
    · simp only [hcounts.world]
      exact hs.iconSerial.trans hdoes.move.serial_le
    · rw [hcontents] at hw
      exact (mem_append.1 hw).elim (hs.fromIcon w) (hturn.kinds w)
    · rw [hcontents, length_append]
      exact hs.evmTaken.trans (Nat.le_add_right _ _)
    · rw [hrx]
      exact (drop_next hm hs.iconTaken).2

theorem Sound.nextToIcon (hs : Sound p s) (h : s.nextToIcon p = some e) :
    e.seq = (iconOutbox p s.icon).rx + 1 ∧
      s.toIcon p = e.msg :: (evmOutbox p s.evm).contents.drop ((iconOutbox p s.icon).rx + 1) := by
  have hall : s.evm.messages.filter (fun e => e.next = p.iconName) = s.evm.messages := by
    refine filter_eq_self.2 fun e he => decide_eq_true ?_
    exact hs.evmWired.numbered.address (mem_map_of_mem he)
  have hrx : s.iconRxSeq p = (iconOutbox p s.icon).rx := by
    simp only [Chains.iconRxSeq, iconOutbox, iconLink]
    cases s.icon.links.val p.evmAddr <;> rfl
  rw [Chains.nextToIcon, hall, hrx] at h
  have hsent : (evmOutbox p s.evm).sent[(iconOutbox p s.icon).rx]? = some (e.next, e.seq, e.msg) := by
    rw [evmOutbox, getElem?_map, h]
    rfl
  exact hs.evmWired.numbered.next hsent

theorem Sound.nextToEvm (hs : Sound p s) (h : s.nextToEvm p = some e) :
    e.seq = (evmOutbox p s.evm).rx + 1 ∧
      s.toEvm p = e.msg :: (iconOutbox p s.icon).contents.drop ((evmOutbox p s.evm).rx + 1) := by
  have hall : s.icon.messages.filter (fun e => e.next = p.evmAddr) = s.icon.messages := by
    refine filter_eq_self.2 fun e he => decide_eq_true ?_
    exact hs.iconWired.numbered.address (mem_map_of_mem he)
  rw [Chains.nextToEvm, hall] at h
  have hsent : (iconOutbox p s.icon).sent[(evmOutbox p s.evm).rx]? = some (e.next, e.seq, e.msg) := by
    rw [iconOutbox, getElem?_map]
    exact congrArg (Option.map _) h
  exact hs.iconWired.numbered.next hsent

def responseApplies (p : Parties) (s : Chains) : Act → Bool
  | .toEvm _ _ reactions => (s.nextToEvm p).all fun e =>
    evmApplies p (evmTaking p (withReactions s.evm reactions) e.seq) e.msg
  | .toIcon _ _ _ receivers => (s.nextToIcon p).all fun e =>
    iconApplies p (iconTaking p (withReceivers s.icon receivers) e.next e.seq e.msg) e.msg
  | _ => true

def Applies (p : Parties) (s : Chains) (a : Act) : Prop :=
  responseApplies p s a ∧ InRange (exec (step p) s a)

instance : Decidable (Applies p s a) := inferInstanceAs (Decidable (_ ∧ _))

def Moves (p : Parties) (T : Terms) : Chains → Chains → Prop := Relation.ReflTransGen (Move p T)

theorem moves_of_evmActs {t : Solidity.BMC.St EvmWorld Wire} (h : EvmActs p T s.evm t) :
    Moves p T s { s with evm := t } := by
  induction h with
  | refl => exact .refl
  | tail _ hdoes ih =>
    obtain ⟨out, hdoes⟩ := hdoes
    exact ih.tail (.evm (m := none) rfl hdoes ⟨rfl, rfl⟩)

theorem moves_of_iconActs {t : Java.BMC.St IconWorld Wire} (h : IconActs p T s.icon t) :
    Moves p T s { s with icon := t } := by
  induction h with
  | refl => exact .refl
  | tail _ hdoes ih =>
    obtain ⟨out, hdoes⟩ := hdoes
    exact ih.tail (.icon (m := none) rfl hdoes ⟨rfl, rfl⟩)

/-- The chain is left as it was, but for its counters and what is not modelled
as a move. -/
theorem moves_of_evmSame {t : Solidity.BMC.St EvmWorld Wire}
    (houtbox : evmOutbox p t = evmOutbox p s.evm) (hbts : t.world.bts = s.evm.world.bts) :
    Move p T s { s with evm := t } := by
  have hdoes : EvmDoes p T none [] s.evm t := by
    refine ⟨?_, ?_⟩
    · rw [EvmPosts, houtbox]
      exact .refl
    · rw [hbts]
      exact .idle
  exact .evm (m := none) rfl hdoes ⟨rfl, rfl⟩

theorem moves_of_iconSame {t : Java.BMC.St IconWorld Wire}
    (houtbox : iconOutbox p t = iconOutbox p s.icon) (hbts : t.world.bts = s.icon.world.bts) :
    Move p T s { s with icon := t } := by
  have hdoes : IconDoes p T none [] s.icon t := by
    refine ⟨?_, ?_⟩
    · rw [IconPosts, houtbox]
      exact .refl
    · rw [hbts]
      exact .idle
  exact .icon (m := none) rfl hdoes ⟨rfl, rfl⟩

theorem Sound.receive_evm {t c : Solidity.BMC.St EvmWorld Wire} (hs : Sound p s)
    (hnext : s.nextToEvm p = some e) (hterms : T.toEvm e.msg)
    (houtbox : evmOutbox p c = evmOutbox p s.evm) (hbts : c.world.bts = s.evm.world.bts)
    (happlies : evmApplies p (evmTaking p c e.seq) e.msg)
    (h : Solidity.BMC.handleRelayMessage (evmConfig p) c relay p.iconName
      (.relay next e.seq height e.msg) = .ok t) : Moves p T s { s with evm := t } := by
  obtain ⟨hseq, htoEvm⟩ := hs.nextToEvm hnext
  have hw : EvmWired p c := by
    refine ⟨(congrArg Outbox.routing houtbox).trans ?_, houtbox ▸ hs.evmWired.numbered⟩
    rw [hbts]
    exact hs.evmWired.routing
  have hmem : e.msg ∈ s.toEvm p := by simp [htoEvm]
  have hrx : e.seq = (c.links p.iconName).rxSeq + 1 :=
    hseq.trans (congrArg (Outbox.rx · + 1) houtbox.symm)
  rcases evmReceive_does (T := T) hw (hs.fromIcon _ (mem_of_mem_drop hmem)) hterms hrx
      happlies h with hcounts | ⟨u, v, out, hacts, hdoes, hcounts⟩
  · refine .single (moves_of_evmSame (hcounts.outbox.trans houtbox) ?_)
    rw [hcounts.world, hbts]
  · have htaking : Move p T s { s with evm := evmTaking p c e.seq } := moves_of_evmSame houtbox hbts
    have hpath : Moves p T s { s with evm := u } :=
      .head htaking (moves_of_evmActs (s := { s with evm := evmTaking p c e.seq }) hacts)
    have hrx' : (evmOutbox p u).rx = (evmOutbox p s.evm).rx :=
      hacts.rx.trans (congrArg Outbox.rx houtbox)
    have hm : Chains.toEvm p { s with evm := u } = s.toEvm p := by
      simp only [Chains.toEvm, hrx']
    exact hpath.tail (.evm (m := some e.msg) (hm.trans htoEvm) hdoes hcounts)

theorem Sound.receive_icon {t c : Java.BMC.St IconWorld Wire} (hs : Sound p s)
    (hnext : s.nextToIcon p = some e) (hterms : T.toIcon e.msg)
    (houtbox : iconOutbox p c = iconOutbox p s.icon) (hbts : c.world.bts = s.icon.world.bts)
    (happlies : iconApplies p (iconTaking p c e.next e.seq e.msg) e.msg)
    (h : Java.BMC.handleRelayMessage (iconConfig p) c relay blockHeight p.evmName
      (.relay e.next e.seq height e.msg) = .ok t) : Moves p T s { s with icon := t } := by
  obtain ⟨hseq, htoIcon⟩ := hs.nextToIcon hnext
  have hw : IconWired p c := by
    refine ⟨(congrArg Outbox.routing houtbox).trans ?_, houtbox ▸ hs.iconWired.numbered⟩
    rw [hbts]
    exact hs.iconWired.routing
  have hmem : e.msg ∈ s.toIcon p := by simp [htoIcon]
  obtain ⟨u, htaken, hacts⟩ := iconReceive_does (T := T) hw
    (hs.fromEvm _ (mem_of_mem_drop hmem)) hterms (houtbox ▸ hseq) happlies h
  have hu : Moves p T s { s with icon := u } := by
    rcases htaken with hcounts | ⟨v, out, hdoes, hcounts⟩
    · refine .single (moves_of_iconSame (hcounts.outbox.trans houtbox) ?_)
      rw [hcounts.world, hbts]
    · have htaking : Move p T s { s with icon := iconTaking p c e.next e.seq e.msg } :=
        moves_of_iconSame houtbox hbts
      have hrx : (iconOutbox p (iconTaking p c e.next e.seq e.msg)).rx = (iconOutbox p s.icon).rx :=
        congrArg Outbox.rx houtbox
      have hm : Chains.toIcon p { s with icon := iconTaking p c e.next e.seq e.msg } = s.toIcon p := by
        simp only [Chains.toIcon, hrx]
      exact .tail (.single htaking) (.icon (m := some e.msg) (hm.trans htoIcon) hdoes hcounts)
  exact hu.trans (moves_of_iconActs (s := { s with icon := u }) hacts)

theorem Sound.icon_move (hs : Sound p s) (hterms : T.icon tx) (h : step p s (.icon tx) = .ok s') :
    Move p T s s' := by
  obtain ⟨t, ht, rfl⟩ := withIcon_ok.1 h
  obtain ⟨out, hdoes⟩ := iconAct_does hs.iconWired hterms ht
  exact .icon (m := none) rfl hdoes ⟨rfl, rfl⟩

theorem Sound.evm_move (hs : Sound p s) (hterms : T.evm tx) (h : step p s (.evm tx) = .ok s') :
    Move p T s s' := by
  obtain ⟨t, ht, rfl⟩ := withEvm_ok.1 h
  obtain ⟨out, hdoes⟩ := evmAct_does hs.evmWired hterms ht
  exact .evm (m := none) rfl hdoes ⟨rfl, rfl⟩

theorem step_moves (hs : Sound p s) (happlies : responseApplies p s a) (h : step p s a = .ok s') :
    Moves p (a.terms p s) s s' := by
  cases a with
  | evm tx => exact .single (hs.evm_move rfl h)
  | icon tx => exact .single (hs.icon_move rfl h)
  | sendFeeGathering receivers sender =>
    obtain ⟨t, ht, rfl⟩ := withIcon_ok.1 h
    have hw : IconWired p (withReceivers s.icon receivers) :=
      ⟨hs.iconWired.routing, hs.iconWired.numbered⟩
    refine .head (moves_of_iconSame (t := withReceivers s.icon receivers) rfl rfl) ?_
    exact moves_of_iconActs (s := { s with icon := withReceivers s.icon receivers })
      (iconSendFeeGathering_acts hw ht)
  | toEvm relay height reactions =>
    simp only [step] at h
    split at h
    · contradiction
    · next e hnext =>
      obtain ⟨t, ht, rfl⟩ := withEvm_ok.1 h
      simp only [responseApplies, hnext, all_some] at happlies
      exact hs.receive_evm (c := withReactions s.evm reactions) hnext ⟨e, hnext, rfl⟩ rfl rfl happlies ht
  | toIcon relay height blockHeight receivers =>
    simp only [step] at h
    split at h
    · contradiction
    · next e hnext =>
      obtain ⟨t, ht, rfl⟩ := withIcon_ok.1 h
      simp only [responseApplies, hnext, all_some] at happlies
      exact hs.receive_icon (c := withReceivers s.icon receivers) hnext ⟨e, hnext, rfl⟩ rfl rfl happlies
        ht

/-- What every move preserves is preserved by every act. -/
theorem Moves.induct {P : Chains → Prop}
    (hmove : ∀ s s', Sound p s → InRange s → InRange s' → Takes p T s s' → P s → P s')
    (hs : Sound p s) (hP : P s) (h : Moves p T s s') (hrange' : InRange s') : Sound p s' ∧ P s' := by
  induction h with
  | refl => exact ⟨hs, hP⟩
  | tail _ hlast ih =>
    have hrange := hlast.inRange hrange'
    obtain ⟨hs', hP'⟩ := ih hrange
    exact ⟨hs'.move hrange hrange' hlast, hmove _ _ hs' hrange hrange' (hs'.takes hlast) hP'⟩

theorem step_induct {P : Chains → Prop}
    (hmove : ∀ s s', Sound p s → InRange s → InRange s' → Takes p (a.terms p c) s s' → P s → P s')
    (hs : Sound p c) (hP : P c) (happlies : Applies p c a) (h : step p c a = .ok s') :
    Sound p s' ∧ InRange s' ∧ P s' := by
  obtain ⟨hresponse, hrange'⟩ := happlies
  rw [exec_of_ok h] at hrange'
  obtain ⟨hs', hP'⟩ := (step_moves hs hresponse h).induct hmove hs hP hrange'
  exact ⟨hs', hrange', hP'⟩

theorem step_sound (hs : Sound p s) (happlies : Applies p s a) (h : step p s a = .ok s') :
    Sound p s' :=
  (step_induct (P := fun _ => True) (fun _ _ _ _ _ _ _ => trivial) hs trivial happlies h).1

theorem start_sound : Sound p (start p g) where
  evmWired := evmStart_wired
  iconWired := iconStart_wired
  iconSerial := le_rfl
  fromEvm w hw := by simp [evmOutbox, start, evmStart, Outbox.contents] at hw
  fromIcon w hw := by simp [iconOutbox, start, iconStart, Outbox.contents] at hw
  evmTaken := by simp [evmOutbox, start, evmStart]
  iconTaken := by simp [iconOutbox, iconLink, start, iconStart]
  talk := by
    constructor <;>
    · refine ⟨0, ?_, ?_, ?_, ?_⟩ <;>
        simp [Chains.toIcon, Chains.toEvm, evmOutbox, iconOutbox, Outbox.contents, start, evmStart,
          iconStart, evmParty, iconParty, Solidity.BTS.ended, Solidity.BTS.received,
          Java.BTS.ended, Java.BTS.received, Solidity.BTS.initialState, Java.BTS.initialState]

theorem start_inRange : InRange (start p g) :=
  ⟨by simp [start, evmStart, Solidity.BTS.initialState],
    by simp [start, iconStart, Java.BTS.initialState]⟩

end IconBridge.Bridge
