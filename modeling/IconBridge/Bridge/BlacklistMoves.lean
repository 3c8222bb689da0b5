import IconBridge.Bridge.Moves
import IconBridge.Java.BTS.Blacklist
import IconBridge.Solidity.BTS.Blacklist

/-!
# Moves and the blacklists of both chains

ICON keeps a list of addresses for the EVM chain, as lowercase text, and the EVM
chain keeps one of its own. They are two copies of one list. A call that names
an address of a change that is not yet answered brings them apart.
-/

namespace IconBridge.Bridge

open Lib List Option
open Java.BTS (BlacklistTransaction listed)
open Solidity (parseAddress)

variable {p : Parties} {s s' : Chains} {T : Terms}

def plain (a : Solidity.Address) : String := Solidity.toString (fun _ _ => false) a

theorem parse_plain : parseAddress (plain a) = .ok a := Solidity.parseAddress_toString _ a

theorem plain_injective (h : plain a = plain a') : a = a' := Solidity.toString_injective _ h

/-- What `trim` and `toLowerCase` make of text, as far as it matters here. -/
structure Lowercases (lowercase : String → String) : Prop where
  idem : ∀ u, lowercase (lowercase u) = lowercase u
  address : ∀ u a, parseAddress u = .ok a → lowercase u = plain a

def Wire.asked? : Wire → Option (ℤ × BlacklistTransaction)
  | .btp _ _ _ sn (.service ⟨.blacklistMessage, .blacklist b⟩) => some (sn, b)
  | _ => none

def Wire.answer? : Wire → Option (ℤ × Bool)
  | .btp _ _ _ sn (.service ⟨.blacklistMessage, .response r⟩) =>
    some (sn, decide (r.code = Java.BTS.rcOk))
  | .btp _ _ _ sn (.error _ _) => some (-sn, false)
  | _ => none

def Wire.answers? (b : Java.BTS.St) (w : Wire) : Option (ℤ × BlacklistTransaction × Bool) :=
  w.answer?.bind fun x => (b.blacklistTxn x.1).map fun t => (x.1, t, x.2)

def Chains.asked (p : Parties) (s : Chains) : List (ℤ × BlacklistTransaction) :=
  (s.toEvm p).filterMap Wire.asked?

def Chains.answered (p : Parties) (s : Chains) : List (ℤ × BlacklistTransaction × Bool) :=
  (s.toIcon p).filterMap (Wire.answers? s.icon.world.bts)

def Chains.openKeys (p : Parties) (s : Chains) : List String :=
  ((s.answered p).map fun x => x.2.1).flatMap (fun b => b.address.map p.icon.lowercase) ++
    ((s.asked p).map fun x => x.2).flatMap fun b => b.address.map p.icon.lowercase

/-- A call about the list for the EVM chain names no address of an open change. -/
def undisputed (p : Parties) (s : Chains) : Act → Bool
  | .icon (.addBlacklistAddress _ net addresses) | .icon (.removeBlacklistAddress _ net addresses) =>
    net ≠ p.evmAddr.net || addresses.all fun u => p.icon.lowercase u ∉ s.openKeys p
  | _ => true

def evmListed (b : Solidity.BTS.St) : Set String := {u | ∃ a, u = plain a ∧ b.blacklist a = true}

/-- The list of ICON and that of the EVM chain, with what is on its way. -/
def copies (p : Parties) (b : Java.BTS.St) (second : Set String) (down up : List Wire) :
    Copies String where
  first := listed p.evmAddr.net b
  second := second
  asked := (down.filterMap Wire.asked?).map fun x => x.2.change p.icon
  answered := (up.filterMap (Wire.answers? b)).map fun x => (x.2.1.change p.icon, x.2.2)

open Solidity.BTS (Files Outgoing)

def AsksOther (p : Parties) (k : ℤ) (w : Wire) : Prop :=
  ∃ m, w = iconWire p k m ∧ m.serviceType ≠ .blacklistMessage ∧
    m.serviceType ≠ .responseHandleService

theorem files_answer {b b' : Solidity.BTS.St} {ends : List (ℕ × Bool)} {out : List Outgoing}
    (hf : Files ends b b' out) : ∀ w ∈ evmWires p out, w.answer? = none := by
  intro w hw
  obtain ⟨o, ho, rfl⟩ := mem_map.1 hw
  obtain ⟨_, hm⟩ := hf.kinds o ho
  rw [hm]
  rfl

theorem mem_evmListed {b : Solidity.BTS.St} : plain a ∈ evmListed b ↔ b.blacklist a = true := by
  constructor
  · rintro ⟨a', ha', hlist⟩
    exact plain_injective ha' ▸ hlist
  · exact fun hlist => ⟨a, rfl, hlist⟩

def blacklistMessage (t : BlacklistTransaction) : Solidity.BTS.BlacklistMessage where
  serviceType := match t.serviceType with
    | .addToBlacklist => .addToBlacklist
    | .removeFromBlacklist => .removeFromBlacklist
  addrs := t.address
  net := t.net

theorem change_evmListed {b b' : Solidity.BTS.St} (hlower : Lowercases p.icon.lowercase)
    (h : (blacklistMessage t).change b = .ok b') :
    evmListed b' = (t.change p.icon).apply (evmListed b) := by
  obtain ⟨list, rfl, hread, hlist⟩ := Solidity.BTS.BlacklistMessage.change_eq h
  ext u
  by_cases hu : u ∈ (t.change p.icon).keys
  · rw [Change.mem_apply hu]
    obtain ⟨x, hx, rfl⟩ := mem_map.1 hu
    obtain ⟨a, ha⟩ := hread x hx
    have hwritten := (hlist a).1 ⟨x, hx, ha⟩
    rw [hlower.address x a ha, mem_evmListed]
    cases hty : t.serviceType <;> simp [hwritten, blacklistMessage, BlacklistTransaction.change, hty]
  · rw [Change.mem_apply_of_notMem hu]
    refine exists_congr fun a => and_congr_right ?_
    rintro rfl
    have hkept : list a = b.blacklist a := by
      refine (hlist a).2 ?_
      rintro ⟨x, hx, ha⟩
      exact hu (mem_map.2 ⟨x, hx, hlower.address x a ha⟩)
    exact iff_of_eq (congrArg (· = true) hkept)

/-- What a move of the EVM chain is to the lists: it is about something else, or
it answers a change. -/
inductive EvmLists (p : Parties) (b : Solidity.BTS.St) (m : Option Wire) (out : List Wire)
    (b' : Solidity.BTS.St) : Prop
  | quiet (hlist : b'.blacklist = b.blacklist) (hm : ∀ w, m = some w → w.asked? = none)
      (hout : ∀ w ∈ out, w.answer? = none ∨
        ∃ k v, w.answer? = some (k, false) ∧ m = some v ∧ AsksOther p k v)
  | answers (n : ℤ) (t : BlacklistTransaction) (w : Wire) (ok : Bool)
      (hm : m = some (iconWire p n ⟨.blacklistMessage, .blacklist t⟩)) (hout : out = [w])
      (hw : w.answer? = some (n, ok))
      (hlist : evmListed b' = if ok then (t.change p.icon).apply (evmListed b) else evmListed b)

theorem evmHandles_lists {b b' : Solidity.BTS.St} {n : ℕ} {out : List Outgoing}
    (hlower : Lowercases p.icon.lowercase) (hlt : n < 2 ^ 255) (hm : IconService m)
    (h : Solidity.BTS.handleBTPMessage p.evm { b with reachable } p.evm.bmc p.iconAddr.net "bts" n
      (toServiceMessage m) rs = .ok b')
    (hsent : b'.sent = b.sent ++ out) :
    EvmLists p b (some (iconWire p n m)) (evmWires p out) b' := by
  -- a response under another type says nothing about a list
  have hsilent {o : Outgoing} (hty : o.msg.serviceType ≠ .blacklistMessage) :
      ∀ w ∈ evmWires p [o], w.answer? = none := by
    intro w hw
    obtain rfl := mem_singleton.1 hw
    obtain ⟨target, sn, ty, data⟩ := o
    cases ty with
    | blacklistMessage => exact absurd rfl hty
    | _ => rfl
  have hquiet (hask : (iconWire p n m).asked? = none) (hlist : b'.blacklist = b.blacklist)
      (hout : ∀ w ∈ evmWires p out, w.answer? = none) :
      EvmLists p b (some (iconWire p n m)) (evmWires p out) b' := by
    refine .quiet hlist (fun w hw => ?_) fun w hw => .inl (hout w hw)
    obtain rfl := Option.some.inj hw
    exact hask
  cases hm with
  | request r =>
    have hlist := Solidity.BTS.handleBTPMessage_blacklist (by simp) h
    refine hquiet rfl hlist ?_
    cases Solidity.BTS.handleBTPMessage_handles h with
    | accepts tc t files hfiles hreplies =>
      rw [hreplies.sent, hfiles.sent, append_assoc] at hsent
      obtain rfl := append_cancel_left hsent
      rw [evmWires, map_append]
      intro w hw
      exact (mem_append.1 hw).elim (files_answer hfiles w) (hsilent (by simp) w)
    | refuses tc reason hreplies =>
      obtain rfl := append_cancel_left (hreplies.sent.symm.trans hsent)
      exact hsilent (by simp)
    | changes _ hty => simp at hty
  | change _ hchange =>
    cases hchange with
    | blacklist t =>
      obtain ⟨code, message, hreply, hchange⟩ :=
        Solidity.BTS.handleBTPMessage_change (blacklistMessage t) h
      obtain rfl := append_cancel_left (hreply.symm.trans hsent)
      have hanswer (code : ℕ) (message : String) : (evmWire p (Solidity.BMC.toInt256 n)
          (ofServiceMessage ⟨.blacklistMessage, .response ⟨code, message⟩⟩)).answer? =
          some ((n : ℤ), decide ((code : ℤ) = Java.BTS.rcOk)) := by
        rw [toInt256_of_lt hlt]
        rfl
      rcases hchange with ⟨rfl, c, hc, hlist⟩ | ⟨rfl, hlist⟩
      · refine .answers n t _ true rfl rfl (hanswer Solidity.BTS.rcOk message) ?_
        have hlisted := change_evmListed hlower hc
        rw [evmListed, hlist]
        exact hlisted
      · refine .answers n t _ false rfl rfl (hanswer Solidity.BTS.rcErr message) ?_
        rw [evmListed, hlist]
        rfl
    | tokenLimit l =>
      have hlist := Solidity.BTS.handleBTPMessage_blacklist (by simp) h
      refine hquiet rfl hlist ?_
      cases Solidity.BTS.handleBTPMessage_handles h with
      | changes _ _ r hreplies =>
        obtain rfl := append_cancel_left (hreplies.sent.symm.trans hsent)
        exact hsilent (by simp)
  | response r =>
    have hlist := Solidity.BTS.handleBTPMessage_blacklist (by simp) h
    refine hquiet rfl hlist ?_
    cases Solidity.BTS.handleBTPMessage_handles h with
    | settles _ files hfiles =>
      obtain rfl := append_cancel_left (hfiles.sent.symm.trans hsent)
      exact files_answer hfiles
    | changes _ hty => simp at hty

theorem evmError_answer : (evmError p k code message).answer? = some (k, false) := by
  rw [evmError, Wire.answer?, neg_neg]

theorem EvmMove.lists {b b' : Solidity.BTS.St} (hlower : Lowercases p.icon.lowercase)
    (hlt : ∀ w k, m = some w → w.note.number? = some k → k < 2 ^ 255) (h : EvmMove p T b m out b') :
    EvmLists p b m out b' := by
  have hfiles {ends : List (ℕ × Bool)} {out : List Outgoing} {c c' : Solidity.BTS.St}
      (hlist : b'.blacklist = b.blacklist) (hm : ∀ w, m = some w → w.asked? = none)
      (hf : Files ends c c' out) :
      EvmLists p b m (evmWires p out) b' :=
    .quiet hlist hm fun w hw => .inl (files_answer hf w hw)
  cases h with
  | idle => exact .quiet rfl (by simp) (by simp)
  | acts reachable tx _ houtside h hsent =>
    obtain ⟨out', hf⟩ := Solidity.BTS.step_files houtside h
    obtain rfl := append_cancel_left (hf.sent.symm.trans hsent)
    have hlist := Solidity.BTS.step_blacklist houtside h
    exact hfiles hlist (by simp) hf
  | gathers reachable fa svc h hsent =>
    obtain ⟨out', hf⟩ := Solidity.BTS.handleFeeGathering_files h
    obtain rfl := append_cancel_left (hf.sent.symm.trans hsent)
    have hlist := Solidity.BTS.handleFeeGathering_blacklist h
    exact hfiles hlist (by simp) hf
  | handles reachable n hn m hm _ rs h hsent =>
    have hn' : (n : ℤ) < 2 ^ 255 := hlt _ _ rfl hm.note_number?
    exact evmHandles_lists hlower (by exact_mod_cast hn') hm h hsent
  | refuses n hn m hm hty code reason =>
    -- the error is an answer if a change was asked for
    cases hm with
    | change _ hchange =>
      cases hchange with
      | blacklist t => exact .answers n t _ false rfl rfl evmError_answer rfl
      | tokenLimit l =>
        refine .quiet rfl (fun w hw => by cases hw; rfl) fun w hw => .inr ?_
        obtain rfl := mem_singleton.1 hw
        exact ⟨n, _, evmError_answer, rfl, _, rfl, by simp, by simp⟩
    | request r =>
      refine .quiet rfl (fun w hw => by cases hw; rfl) fun w hw => .inr ?_
      obtain rfl := mem_singleton.1 hw
      exact ⟨n, _, evmError_answer, rfl, _, rfl, by simp, by simp⟩
    | response r => exact absurd rfl hty
  | fails reachable n hn code message rs h hsent =>
    have hlist := Solidity.BTS.handleBTPError_blacklist h
    obtain ⟨out', hf⟩ := Solidity.BTS.handleBTPError_files h
    obtain rfl := append_cancel_left (hf.sent.symm.trans hsent)
    exact hfiles hlist (fun w hw => by cases hw; rfl) hf
  | ignores => exact .quiet rfl (fun w hw => by cases hw; rfl) (by simp)
  | skips => exact .quiet rfl (fun w hw => by cases hw; rfl) (by simp)

open Java.BTS (Apart Distinct undoBlacklist)

def Renumbers (b b' : Java.BTS.St) : Prop := b.sn ≤ b'.sn ∧
  ∀ k, (b'.transactions k).isSome → (b.transactions k).isSome ∨ b.sn < k ∧ k ≤ b'.sn

theorem step_renumbers {b b' : Java.BTS.St} (h : Java.BTS.step p.icon { b with reachable } tx = .ok b') :
    Renumbers b b' := by
  have hnumbers := Java.BTS.step_transactions h
  exact hnumbers

/-- A request or a change that ICON sends has a new number; nothing is sent that
asks for a change of the list. -/
def AsksAnew (p : Parties) (b b' : Java.BTS.St) (out : List Wire) : Prop :=
  ∀ w ∈ out, w.asked? = none ∧ ∀ k, AsksOther p k w → b.sn < k ∧ k ≤ b'.sn

/-- What a move of ICON is to the lists: it is about something else, it makes a
change and asks for it, or it settles one that was answered. -/
inductive IconLists (p : Parties) (T : Terms) (b : Java.BTS.St) (m : Option Wire) (out : List Wire) :
    Java.BTS.St → Prop
  | quiet (b' : Java.BTS.St) (hlist : Apart p.evmAddr.net b b') (hnumbers : Renumbers b b')
      (hm : ∀ w, m = some w → w.answers? b = none) (hout : AsksAnew p b b' out) :
      IconLists p T b m out b'
  | asks (tx : Java.BTS.Tx) (htx : T.icon tx) (users : List String)
      (hcall : ∃ sender, tx = .addBlacklistAddress sender p.evmAddr.net users ∨
        tx = .removeBlacklistAddress sender p.evmAddr.net users)
      (f : String → List String) (t : BlacklistTransaction) (reachable : String → Bool)
      (links : List String) (hm : m = none)
      (hout : out = [iconWire p (b.sn + 1) ⟨.blacklistMessage, .blacklist t⟩])
      (hnet : t.net = p.evmAddr.net) (hkeys : ∀ k ∈ (t.change p.icon).keys,
        k ∈ users.map p.icon.lowercase ∧ (k ∈ listed p.evmAddr.net b ↔ ¬ (t.change p.icon).adds))
      (hlisted : {u | u ∈ f p.evmAddr.net} = (t.change p.icon).apply (listed p.evmAddr.net b))
      (hnodup : (f p.evmAddr.net).Nodup) :
      IconLists p T b m out { b.asking f t with reachable, links }
  | settles (k : ℤ) (t : BlacklistTransaction) (ok : Bool) (w : Wire) (hm : m = some w)
      (hout : out = []) (hw : w.answer? = some (k, ok)) (ht : b.blacklistTxn k = some t)
      (f : String → List String) (g : ℤ → Option BlacklistTransaction) (reachable : String → Bool)
      (events : List Java.BTS.Event)
      (hlisted : {u | u ∈ f p.evmAddr.net} = if ok then listed p.evmAddr.net b
        else (t.change p.icon).undo (listed p.evmAddr.net b))
      (hnodup : (f p.evmAddr.net).Nodup) (hkept : ∀ j ≠ k, g j = b.blacklistTxn j)
      (hless : ∀ j t, g j = some t → b.blacklistTxn j = some t) :
      IconLists p T b m out { b with blacklist := f, blacklistTxn := g, reachable, events }

theorem asks_anew {b b' : Java.BTS.St} {out : List Java.BTS.Outgoing} (hd : Distinct b)
    (hasks : Java.BTS.Asks b b' out) (htxn : b'.blacklistTxn = b.blacklistTxn) :
    AsksAnew p b b' (iconWires p out) := by
  intro w hw
  obtain ⟨o, ho, rfl⟩ := mem_map.1 hw
  obtain ⟨hnew, hlast⟩ := hasks.numbers o ho
  refine ⟨?_, fun k hk => ?_⟩
  · obtain ⟨target, sn, m⟩ := o
    rcases hasks.kinds _ ho with ⟨_, hm⟩ | hchange
    · cases hm
      rfl
    · cases hchange with
      | blacklist t =>
        have hlisted := hasks.listed _ ho t rfl
        rw [htxn, (hd.bounded sn hnew).2.2] at hlisted
        contradiction
      | tokenLimit l => rfl
  · obtain ⟨m, hm, -⟩ := hk
    cases hm
    exact ⟨hnew, hlast.le⟩

theorem iconEdits_lists {b b' : Java.BTS.St} {out : List Java.BTS.Outgoing} (htx : T.icon tx)
    (hcall : called = p.evmAddr.net → ∃ sender, tx = .addBlacklistAddress sender p.evmAddr.net users ∨
      tx = .removeBlacklistAddress sender p.evmAddr.net users)
    (h : Java.BTS.Edits p.icon p.evmAddr.net called users { b with reachable, links } b')
    (hsent : b'.sent = b.sent ++ out) : IconLists p T b none (iconWires p out) b' := by
  cases h with
  | elsewhere f hlist =>
    obtain rfl : out = [] := append_right_eq_self.1 hsent.symm
    exact .quiet _ ⟨hlist, rfl, fun k hk => .inl hk⟩ ⟨le_rfl, fun k hk => .inl hk⟩ (by simp)
      fun w hw => absurd hw not_mem_nil
  | asks f t hcalled hnet hkeys hlisted hnodup =>
    obtain rfl := append_cancel_left hsent
    exact .asks tx htx users (hcall hcalled) f t reachable links rfl rfl hnet hkeys hlisted hnodup

theorem linkNets_evm {b : Java.BTS.St} :
    Java.BTS.linkNets p.icon { b with reachable, links := [p.evmName] } = .ok [p.evmAddr.net] := by
  simp only [Java.BTS.linkNets, mapM_cons, mapM_nil, Parties.evmName, p.valueOf_evm, ok_bind]
  rfl

theorem iconActs_lists {b b' : Java.BTS.St} {out : List Java.BTS.Outgoing}
    (hlower : Lowercases p.icon.lowercase) (hremote : p.icon.net ≠ p.evmAddr.net) (hd : Distinct b)
    (hnodup : (b.blacklist p.evmAddr.net).Nodup) (htx : T.icon tx) (houtside : tx.outside)
    (h : Java.BTS.step p.icon { b with reachable, links := [p.evmName] } tx = .ok b')
    (hsent : b'.sent = b.sent ++ out) : IconLists p T b none (iconWires p out) b' := by
  have hother (hadd : ∀ sender net addresses, tx ≠ .addBlacklistAddress sender net addresses)
      (hremove : ∀ sender net addresses, tx ≠ .removeBlacklistAddress sender net addresses) :
      IconLists p T b none (iconWires p out) b' := by
    obtain ⟨out', hasks⟩ := Java.BTS.step_asks houtside h
    obtain rfl := append_cancel_left (hasks.sent.symm.trans hsent)
    have hapart := Java.BTS.step_apart p.evmAddr.net houtside hadd hremove h
    have hd' : Distinct { b with reachable, links := [p.evmName] } := ⟨hd.bounded, hd.apart⟩
    have hnumbers := Java.BTS.step_transactions h
    have hanew := asks_anew (p := p) hd' hasks hapart.blacklistTxn
    exact .quiet _ ⟨hapart.blacklist, hapart.blacklistTxn, hapart.limits⟩ hnumbers (by simp) hanew
  cases tx with
  | addBlacklistAddress sender net addresses =>
    have hedits := Java.BTS.addBlacklistAddress_edits (s := { b with reachable, links := [p.evmName] })
      hlower.idem hremote hnodup linkNets_evm h
    refine iconEdits_lists htx ?_ hedits hsent
    rintro rfl
    exact ⟨sender, .inl rfl⟩
  | removeBlacklistAddress sender net addresses =>
    have hedits := Java.BTS.removeBlacklistAddress_edits (s := { b with reachable, links := [p.evmName] })
      hlower.idem hremote hnodup linkNets_evm h
    refine iconEdits_lists htx ?_ hedits hsent
    rintro rfl
    exact ⟨sender, .inr rfl⟩
  | _ => exact hother (by simp) (by simp)

theorem undoBlacklist_lists {b : Java.BTS.St} {w : Wire} (ht : b.blacklistTxn sn = some t)
    (hnet : t.net = p.evmAddr.net) (hnodup : (b.blacklist p.evmAddr.net).Nodup)
    (hw : w.answer? = some (sn, false)) :
    IconLists p T b (some w) [] (undoBlacklist p.icon { b with reachable } t) := by
  have hundo := Java.BTS.undoBlacklist_listed (d := p.icon) (s := { b with reachable }) (hnet ▸ hnodup)
  obtain ⟨f, hf⟩ := Java.BTS.undoBlacklist_lists (d := p.icon) (s := { b with reachable }) (b := t)
  rw [hf, hnet] at hundo
  rw [hf]
  exact .settles sn t false w rfl rfl hw ht f b.blacklistTxn reachable b.events hundo.1 hundo.2
    (fun _ _ => rfl) fun _ _ => id

theorem handleBlacklist_lists {b : Java.BTS.St} {w : Wire} (ht : b.blacklistTxn sn = some t)
    (hnet : t.net = p.evmAddr.net) (hnodup : (b.blacklist p.evmAddr.net).Nodup)
    (hw : w.answer? = some (sn, decide (r.code = Java.BTS.rcOk))) :
    IconLists p T b (some w) []
      (Java.BTS.handleBlacklist p.icon { b with reachable } sn r) := by
  simp only [Java.BTS.handleBlacklist, ht]
  split
  · next hcode =>
    refine .settles sn t true w rfl rfl (by rw [hw, decide_eq_true hcode]) ht b.blacklist _ reachable _
      rfl hnodup (fun j hj => Function.update_of_ne hj ..) fun j t hj => ?_
    rw [Function.update_apply] at hj
    split at hj
    · contradiction
    · exact hj
  · next hcode => exact undoBlacklist_lists ht hnet hnodup (by rw [hw, decide_eq_false hcode])

theorem iconHandles_lists {b b' : Java.BTS.St} {out : List Java.BTS.Outgoing}
    (hnodup : (b.blacklist p.evmAddr.net).Nodup)
    (hnets : ∀ k t, b.blacklistTxn k = some t → t.net = p.evmAddr.net) (hm : EvmService m)
    (h : Java.BTS.handleBTPMessage p.icon receivers { b with reachable } p.icon.bmc p.evmAddr.net
      "bts" sn (some m) = .ok b')
    (hsent : b'.sent = b.sent ++ out) :
    IconLists p T b (some (evmWire p sn m)) (iconWires p out) b' := by
  have hstep : Java.BTS.step p.icon { b with reachable }
      (.handleBTPMessage receivers p.icon.bmc p.evmAddr.net "bts" sn (some m)) = .ok b' := h
  have hnumbers : Renumbers b b' := step_renumbers hstep
  have hquiet (hty : m.serviceType ≠ .blacklistMessage)
      (hanswer : (evmWire p sn m).answer? = none) (hout : AsksAnew p b b' (iconWires p out)) :
      IconLists p T b (some (evmWire p sn m)) (iconWires p out) b' := by
    have hapart : Apart p.evmAddr.net { b with reachable } b' :=
      (Java.BTS.handleBTPMessage_receives h).apart hty
    refine .quiet _ ⟨hapart.blacklist, hapart.blacklistTxn, hapart.limits⟩ hnumbers (fun w hw => ?_) hout
    obtain rfl := Option.some.inj hw
    rw [Wire.answers?, hanswer, bind_none]
  cases hm with
  | request r =>
    cases Java.BTS.handleBTPMessage_handles h with
    | accepts _ message hreplies =>
      obtain rfl := append_cancel_left (hreplies.sent.symm.trans hsent)
      refine hquiet (by simp) rfl fun w hw => ⟨?_, ?_⟩
      all_goals obtain rfl := mem_singleton.1 hw
      · rfl
      · rintro k ⟨_, hm, -, hresponse⟩
        cases hm
        exact absurd rfl hresponse
    | notes _ hty => simp at hty
    | disowns _ hty => simp at hty
  | response ty hty r =>
    have hsilent : out = [] := by
      have hkept : b'.sent = b.sent := by
        cases Java.BTS.handleBTPMessage_handles h with
        | settles _ hcloses | ignores _ hcloses | notes _ _ hcloses => exact hcloses.sent
        | disowns _ hty' => rcases hty with rfl | rfl | rfl <;> simp at hty'
      rw [hkept] at hsent
      exact append_right_eq_self.1 hsent.symm
    have hanew : AsksAnew p b b' (iconWires p out) := by
      rw [hsilent]
      exact fun w hw => absurd hw not_mem_nil
    rcases hty with rfl | rfl | rfl
    · exact hquiet (by simp) rfl hanew
    · obtain rfl := Java.BTS.handleBTPMessage_handleBlacklist h
      cases ht : b.blacklistTxn sn with
      | none =>
        have hkept : Java.BTS.handleBlacklist p.icon { b with reachable } sn r = { b with reachable } := by
          simp only [Java.BTS.handleBlacklist, ht]
        rw [hkept] at hnumbers hanew ⊢
        refine .quiet _ ⟨rfl, rfl, fun k hk => .inl hk⟩ hnumbers (fun w hw => ?_) hanew
        obtain rfl := Option.some.inj hw
        simp [Wire.answers?, evmWire, Wire.answer?, ht]
      | some t =>
        rw [hsilent]
        exact handleBlacklist_lists ht (hnets sn t ht) hnodup rfl
    · exact hquiet (by simp) rfl hanew

theorem iconFails_lists {b b' : Java.BTS.St} (hd : Distinct b)
    (hnodup : (b.blacklist p.evmAddr.net).Nodup)
    (hnets : ∀ k t, b.blacklistTxn k = some t → t.net = p.evmAddr.net)
    (h : Java.BTS.handleBTPError p.icon receivers { b with reachable } p.icon.bmc p.evmName sn
      code message = .ok b') :
    IconLists p T b (some (evmError p sn code message)) [] b' := by
  cases ht : b.blacklistTxn sn with
  | none =>
    have hstep : Java.BTS.step p.icon { b with reachable }
        (.handleBTPError receivers p.icon.bmc p.evmName sn code message) = .ok b' := h
    have hapart : Apart p.evmAddr.net { b with reachable } b' := Java.BTS.handleBTPError_apart ht h
    refine .quiet _ ⟨hapart.blacklist, hapart.blacklistTxn, hapart.limits⟩
      (step_renumbers hstep) (fun w hw => ?_) fun w hw => absurd hw not_mem_nil
    obtain rfl := Option.some.inj hw
    rw [Wire.answers?, evmError_answer, bind_some, ht, map_none]
  | some t =>
    obtain ⟨htransaction, hlimit⟩ := hd.apart sn (by rw [ht]; rfl)
    have hundo : Java.BTS.handleBTPError p.icon receivers { b with reachable } p.icon.bmc p.evmName sn
        code message = .ok (undoBlacklist p.icon { b with reachable } t) :=
      Java.BTS.handleBTPError_undoBlacklist ht htransaction hlimit
    obtain rfl := Except.ok.inj (hundo.symm.trans h)
    exact undoBlacklist_lists ht (hnets sn t ht) hnodup evmError_answer

theorem IconMove.lists {b b' : Java.BTS.St} (hlower : Lowercases p.icon.lowercase)
    (hremote : p.icon.net ≠ p.evmAddr.net) (hd : Distinct b)
    (hnodup : (b.blacklist p.evmAddr.net).Nodup)
    (hnets : ∀ k t, b.blacklistTxn k = some t → t.net = p.evmAddr.net)
    (h : IconMove p T b m out b') : IconLists p T b m out b' := by
  have hsame : Apart p.evmAddr.net b b ∧ Renumbers b b :=
    ⟨⟨rfl, rfl, fun k hk => .inl hk⟩, le_rfl, fun k hk => .inl hk⟩
  cases h with
  | idle => exact .quiet _ hsame.1 hsame.2 (by simp) fun w hw => absurd hw not_mem_nil
  | acts reachable tx htx houtside h hsent =>
    exact iconActs_lists hlower hremote hd hnodup htx houtside h hsent
  | gathers reachable receivers fa h hsent =>
    have hapart : Apart p.evmAddr.net { b with reachable } b' :=
      Java.BTS.handleFeeGathering_apart h
    have hstep : Java.BTS.step p.icon { b with reachable }
        (.handleFeeGathering receivers p.icon.bmc fa) = .ok b' := h
    obtain ⟨out', -, hasks⟩ := Java.BTS.handleFeeGathering_asks h
    obtain rfl := append_cancel_left (hasks.sent.symm.trans hsent)
    have hd' : Distinct { b with reachable } := ⟨hd.bounded, hd.apart⟩
    have hanew := asks_anew (p := p) hd' hasks hapart.blacklistTxn
    exact .quiet _ ⟨hapart.blacklist, hapart.blacklistTxn, hapart.limits⟩
      (step_renumbers hstep) (by simp) hanew
  | tells fa svcs =>
    refine .quiet _ hsame.1 hsame.2 (by simp) fun w hw => ?_
    obtain rfl := mem_singleton.1 hw
    refine ⟨rfl, ?_⟩
    rintro k ⟨_, hm, -⟩
    simp [iconGathering, iconWire] at hm
  | handles reachable receivers sn _ m hm _ h hsent => exact iconHandles_lists hnodup hnets hm h hsent
  | refuses sn _ m hm happlied code message =>
    refine .quiet _ hsame.1 hsame.2 (fun w hw => ?_) fun w hw => ?_
    · obtain rfl := Option.some.inj hw
      cases hm with
      | request r => rfl
      | response ty _ r => exact absurd rfl (happlied r)
    · obtain rfl := mem_singleton.1 hw
      refine ⟨rfl, ?_⟩
      rintro k ⟨_, hm, -⟩
      cases hm
  | fails reachable receivers sn _ code message h => exact iconFails_lists hd hnodup hnets h
  | ignores reachable receivers sn _ code message hfail =>
    refine .quiet _ hsame.1 hsame.2 (fun w hw => ?_) fun w hw => absurd hw not_mem_nil
    obtain rfl := Option.some.inj hw
    rw [Wire.answers?, evmError_answer, bind_some, map_eq_none_iff]
    -- a change on record would have been undone
    rw [← not_isSome_iff_eq_none, isSome_iff_exists]
    rintro ⟨t, ht⟩
    obtain ⟨htransaction, hlimit⟩ := hd.apart sn (by rw [ht]; rfl)
    exact hfail _ (Java.BTS.handleBTPError_undoBlacklist ht htransaction hlimit)

end IconBridge.Bridge
