import IconBridge.Bridge.Atomicity
import IconBridge.Bridge.BlacklistMoves

/-!
# The blacklists of both chains agree

When no message is on its way, ICON's list for the EVM chain and the list of
that chain hold the same addresses, provided that no call names an address of a
change that is still open.
-/

namespace IconBridge.Bridge

open Lib Function List
open Java.BTS (BlacklistTransaction listed Distinct)
open Solidity (parseAddress)

variable {p : Parties} {s s' : Chains} {T : Terms} {b b' : Java.BTS.St} {second : Set String}
  {down up out : List Wire} {m : Option Wire}

/-- The lists are copies that agree but for open changes, each of which is on
record at ICON under a number of its own. -/
structure Listed (p : Parties) (b : Java.BTS.St) (second : Set String) (down up : List Wire) :
    Prop where
  agree : (copies p b second down up).Agree
  distinct : Distinct b
  nodup : (b.blacklist p.evmAddr.net).Nodup
  nets : ∀ k t, b.blacklistTxn k = some t → t.net = p.evmAddr.net
  recorded : ∀ x ∈ down.filterMap Wire.asked?, b.blacklistTxn x.1 = some x.2
  others : ∀ w ∈ down, ∀ k, AsksOther p k w → k ≤ b.sn ∧ b.blacklistTxn k = none
  given : ∀ w ∈ up, ∀ k ok, w.answer? = some (k, ok) → k ≤ b.sn
  once : ((up.filterMap (Wire.answers? b)).map Prod.fst ++
    (down.filterMap Wire.asked?).map Prod.fst).Nodup

theorem Wire.answers?_of_recorded {w : Wire} (hw : w.answer? = some (k, ok))
    (ht : b.blacklistTxn k = some t) : w.answers? b = some (k, t, ok) := by
  rw [answers?, hw, Option.bind_some, ht, Option.map_some]

theorem Wire.answers?_congr {w : Wire}
    (h : ∀ k ok, w.answer? = some (k, ok) → b'.blacklistTxn k = b.blacklistTxn k) :
    w.answers? b' = w.answers? b := by
  cases hw : w.answer? with
  | none => rw [answers?, answers?, hw, Option.bind_none, Option.bind_none]
  | some x => rw [answers?, answers?, hw, Option.bind_some, Option.bind_some, h x.1 x.2 hw]

theorem Listed.recorded_le (hl : Listed p b second down up) (hx : x ∈ down.filterMap Wire.asked?) :
    x.1 ≤ b.sn :=
  hl.distinct.le (by rw [hl.recorded x hx]; rfl)

theorem filterMap_toList {f : Wire → Option α} (hm : ∀ w, m = some w → f w = none) :
    (m.toList ++ up).filterMap f = up.filterMap f := by
  cases m with
  | none => rfl
  | some w => exact filterMap_cons_none (hm w rfl)

theorem filterMap_append_nil {f : Wire → Option α} (up : List Wire) (hout : ∀ w ∈ out, f w = none) :
    (up ++ out).filterMap f = up.filterMap f := by
  rw [filterMap_append, filterMap_eq_nil_iff.2 hout, append_nil]

theorem Listed.evm_quiet (hl : Listed p b second (m.toList ++ down) up)
    (hm : ∀ w, m = some w → w.asked? = none)
    (hout : ∀ w ∈ out, w.answer? = none ∨
      ∃ k v, w.answer? = some (k, false) ∧ m = some v ∧ AsksOther p k v) :
    Listed p b second down (up ++ out) := by
  have hother {k v} (hv : m = some v) (hk : AsksOther p k v) := hl.others v (by simp [hv]) k hk
  have hanswered : (up ++ out).filterMap (Wire.answers? b) = up.filterMap (Wire.answers? b) := by
    refine filterMap_append_nil up fun w hw => ?_
    rcases hout w hw with hw | ⟨k, v, hw, hv, hk⟩
    · rw [Wire.answers?, hw, Option.bind_none]
    · rw [Wire.answers?, hw, Option.bind_some, (hother hv hk).2, Option.map_none]
  obtain ⟨hagree, hdistinct, hnodup, hnets, hrecorded, hothers, hgiven, honce⟩ := hl
  rw [copies, filterMap_toList hm] at hagree
  rw [filterMap_toList hm] at hrecorded honce
  refine ⟨?_, hdistinct, hnodup, hnets, hrecorded, fun w hw => hothers w (mem_append_right _ hw),
    ?_, by rwa [hanswered]⟩
  · rwa [copies, hanswered]
  · intro w hw k ok hk
    rcases mem_append.1 hw with hw | hw
    · exact hgiven w hw k ok hk
    · rcases hout w hw with hnone | ⟨j, v, hj, hv, hj'⟩
      · simp [hnone] at hk
      · cases hj.symm.trans hk
        exact (hother hv hj').1

theorem Listed.evm_answers
    (hl : Listed p b second (iconWire p n ⟨.blacklistMessage, .blacklist t⟩ :: down) up)
    (hw : w.answer? = some (n, ok)) :
    Listed p b (if ok then (t.change p.icon).apply second else second) down (up ++ [w]) := by
  have hasked : (iconWire p n ⟨.blacklistMessage, .blacklist t⟩ :: down).filterMap Wire.asked? =
      (n, t) :: down.filterMap Wire.asked? := rfl
  have hmem := hasked ▸ mem_cons_self
  have hanswered : (up ++ [w]).filterMap (Wire.answers? b) =
      up.filterMap (Wire.answers? b) ++ [(n, t, ok)] := by
    simp [Wire.answers?_of_recorded hw (hl.recorded (n, t) hmem)]
  have hagree : (copies p b (if ok then (t.change p.icon).apply second else second) down
      (up ++ [w])).Agree := by
    cases ok with
    | true =>
      refine (congrArg Copies.Agree ?_).mp (hl.agree.step (.accept rfl))
      simp [copies, hanswered]
    | false =>
      refine (congrArg Copies.Agree ?_).mp (hl.agree.step (.refuse rfl))
      simp [copies, hanswered]
  refine ⟨hagree, hl.distinct, hl.nodup, hl.nets, fun x hx => hl.recorded x (.tail _ hx),
    fun v hv => hl.others v (.tail _ hv), ?_, ?_⟩
  · intro v hv k ok' hk
    rcases mem_append.1 hv with hv | hv
    · exact hl.given v hv k ok' hk
    · obtain rfl := mem_singleton.1 hv
      cases hw.symm.trans hk
      exact hl.recorded_le hmem
  · have honce := hl.once
    rw [hasked] at honce
    simpa [hanswered] using honce

theorem Listed.icon_quiet (hl : Listed p b second down (m.toList ++ up))
    (hlist : Java.BTS.Apart p.evmAddr.net b b') (hnumbers : Renumbers b b')
    (hm : ∀ w, m = some w → w.answers? b = none) (hout : AsksAnew p b b' out) :
    Listed p b' second (down ++ out) up := by
  have htxn := hlist.blacklistTxn
  have hanswers : Wire.answers? b' = Wire.answers? b :=
    funext fun w => Wire.answers?_congr fun _ _ _ => by rw [htxn]
  have hasked := filterMap_append_nil down fun w hw => (hout w hw).1
  obtain ⟨hagree, hdistinct, hnodup, hnets, hrecorded, hothers, hgiven, honce⟩ := hl
  rw [copies, filterMap_toList hm, listed, ← hlist.blacklist] at hagree
  rw [filterMap_toList hm] at honce
  refine ⟨?_, hdistinct.of_apart hnumbers hlist, by rwa [hlist.blacklist], by rwa [htxn],
    by rwa [hasked, htxn], ?_, fun w hw k ok hk => ?_, by rwa [hasked, hanswers]⟩
  · rw [copies, hasked, hanswers]
    exact hagree
  · intro w hw k hk
    rw [htxn]
    rcases mem_append.1 hw with hw | hw
    · exact (hothers w hw k hk).imp_left (le_trans · hnumbers.1)
    · obtain ⟨hlt, hle⟩ := (hout w hw).2 k hk
      exact ⟨hle, (hdistinct.bounded k hlt).2.2⟩
  · exact (hgiven w (mem_append_right _ hw) k ok hk).trans hnumbers.1

theorem Listed.icon_asks (hl : Listed p b second down up) {t : BlacklistTransaction}
    (hnet : t.net = p.evmAddr.net)
    (hneeded : ∀ k ∈ (t.change p.icon).keys, k ∈ listed p.evmAddr.net b ↔ ¬ (t.change p.icon).adds)
    (hfree : ∀ o ∈ (copies p b second down up).pending, ∀ k ∈ o.keys, k ∉ (t.change p.icon).keys)
    (hlisted : {u | u ∈ f p.evmAddr.net} = (t.change p.icon).apply (listed p.evmAddr.net b))
    (hnodup : (f p.evmAddr.net).Nodup) :
    Listed p { b.asking f t with reachable, links } second
      (down ++ [iconWire p (b.sn + 1) ⟨.blacklistMessage, .blacklist t⟩]) up := by
  have hother {k} (hk : k ≤ b.sn) : (b.asking f t).blacklistTxn k = b.blacklistTxn k :=
    update_of_ne (Int.lt_add_one_of_le hk).ne ..
  have hsn : b.sn ≤ b.sn + 1 := Int.le_add_one le_rfl
  have hanswered : up.filterMap (Wire.answers? { b.asking f t with reachable, links }) =
      up.filterMap (Wire.answers? b) :=
    filterMap_congr fun w hw => Wire.answers?_congr fun k ok hk => hother (hl.given w hw k ok hk)
  have hasked : (down ++ [iconWire p (b.sn + 1) ⟨.blacklistMessage, .blacklist t⟩]).filterMap
      Wire.asked? = down.filterMap Wire.asked? ++ [(b.sn + 1, t)] := filterMap_append
  have hdistinct : Distinct (b.asking f t) := hl.distinct.asking
  refine ⟨?_, ⟨hdistinct.bounded, hdistinct.apart⟩, hnodup, ?_, ?_, ?_, fun w hw k ok hk =>
    (hl.given w hw k ok hk).trans hsn, ?_⟩
  · refine (congrArg Copies.Agree ?_).mp (hl.agree.step (.change _ hfree hneeded))
    refine congr (congr (congrArg₂ Copies.mk hlisted.symm rfl) ?_) ?_
    · rw [hasked, map_append]
      rfl
    · rw [hanswered]
      rfl
  · intro k u hu
    simp only [Java.BTS.St.asking, update_apply] at hu
    split at hu
    · cases hu
      exact hnet
    · exact hl.nets k u hu
  · intro x hx
    rw [hasked] at hx
    rcases mem_append.1 hx with hx | hx
    · exact (hother (hl.recorded_le hx)).trans (hl.recorded x hx)
    · obtain rfl := mem_singleton.1 hx
      exact update_self ..
  · intro w hw k hk
    rcases mem_append.1 hw with hw | hw
    · obtain ⟨hle, hnone⟩ := hl.others w hw k hk
      exact ⟨hle.trans hsn, (hother hle).trans hnone⟩
    · obtain rfl := mem_singleton.1 hw
      obtain ⟨_, hm, hblacklist, -⟩ := hk
      cases hm
      exact absurd rfl hblacklist
  · rw [hasked, hanswered, map_append, ← append_assoc]
    refine hl.once.append (nodup_singleton _) (disjoint_singleton.2 fun hmem => ?_)
    refine absurd (?_ : b.sn + 1 ≤ b.sn) (not_le.2 (Int.lt_add_one_of_le le_rfl))
    rcases mem_append.1 hmem with hmem | hmem
    · obtain ⟨⟨_, _, _⟩, hx, hk⟩ := mem_map.1 hmem
      obtain ⟨w, hw, hanswers⟩ := mem_filterMap.1 hx
      simp only [Wire.answers?, Option.bind_eq_some_iff, Option.map_eq_some_iff] at hanswers
      obtain ⟨⟨j, ok⟩, hanswer, _, -, heq⟩ := hanswers
      cases heq
      exact hk.ge.trans (hl.given w hw j ok hanswer)
    · obtain ⟨x, hx, hk⟩ := mem_map.1 hmem
      exact hk.ge.trans (hl.recorded_le hx)

theorem Listed.icon_settles (hl : Listed p b second down (w :: up)) {t : BlacklistTransaction}
    (hw : w.answer? = some (k, ok)) (ht : b.blacklistTxn k = some t)
    (hlisted : {u | u ∈ f p.evmAddr.net} = if ok then listed p.evmAddr.net b
      else (t.change p.icon).undo (listed p.evmAddr.net b))
    (hnodup : (f p.evmAddr.net).Nodup) (hkept : ∀ j ≠ k, g j = b.blacklistTxn j)
    (hless : ∀ j t, g j = some t → b.blacklistTxn j = some t) :
    Listed p { b with blacklist := f, blacklistTxn := g, reachable, events } second down up := by
  have hfirst : (w :: up).filterMap (Wire.answers? b) =
      (k, t, ok) :: up.filterMap (Wire.answers? b) := by
    rw [filterMap_cons, Wire.answers?_of_recorded hw ht]
  have honce := hl.once
  rw [hfirst, map_cons, cons_append, nodup_cons] at honce
  obtain ⟨hk, honce⟩ := honce
  -- the number is not answered a second time
  have hrest : up.filterMap (Wire.answers? { b with blacklist := f, blacklistTxn := g, reachable, events }) =
      up.filterMap (Wire.answers? b) := by
    refine filterMap_congr fun v hv => Wire.answers?_congr fun j ok' hj => hkept j ?_
    rintro rfl
    refine hk (mem_append_left _ (mem_map.2 ⟨(j, t, ok'), ?_, rfl⟩))
    exact mem_filterMap.2 ⟨v, hv, Wire.answers?_of_recorded hj ht⟩
  have hanswer : (copies p b second down (w :: up)).answered = (t.change p.icon, ok) ::
      (copies p b second down up).answered := by
    simp [copies, hfirst]
  refine ⟨?_, hl.distinct.less hless, hnodup, fun j u hu => hl.nets j u (hless j u hu), ?_, ?_,
    fun v hv => hl.given v (.tail _ hv), by rwa [hrest]⟩
  · rw [copies, hrest, listed, hlisted]
    cases ok with
    | true => exact hl.agree.step (.confirm hanswer)
    | false => exact hl.agree.step (.undo hanswer)
  · intro x hx
    refine (hkept x.1 fun heq => hk ?_).trans (hl.recorded x hx)
    exact mem_append_right _ (mem_map.2 ⟨x, hx, heq⟩)
  · intro v hv j hj
    obtain ⟨hle, hnone⟩ := hl.others v hv j hj
    refine ⟨hle, Option.eq_none_iff_forall_ne_some.2 fun u hu => ?_⟩
    simp [hless j u hu] at hnone

def Chains.Listed (p : Parties) (s : Chains) : Prop :=
  Bridge.Listed p s.icon.world.bts (evmListed s.evm.world.bts) (s.toEvm p) (s.toIcon p)

theorem undisputed_pending {tx : Java.BTS.Tx} (h : undisputed p s (.icon tx))
    (htx : ∃ sender, tx = .addBlacklistAddress sender p.evmAddr.net users ∨
      tx = .removeBlacklistAddress sender p.evmAddr.net users)
    (hu : u ∈ users) (ho : o ∈ (copies p s.icon.world.bts second (s.toEvm p) (s.toIcon p)).pending) :
    p.icon.lowercase u ∉ o.keys := by
  have hfree : p.icon.lowercase u ∉ s.openKeys p := by
    obtain ⟨sender, rfl | rfl⟩ := htx <;>
      simp only [undisputed, ne_eq, not_true_eq_false, decide_false, Bool.false_or,
        all_eq_true, decide_eq_true_eq] at h <;>
      exact h u hu
  refine fun hk => hfree ?_
  simp only [Copies.pending, copies, map_map, mem_append, mem_map] at ho
  rw [Chains.openKeys, mem_append, mem_flatMap, mem_flatMap]
  rcases ho with ⟨x, hx, rfl⟩ | ⟨x, hx, rfl⟩
  · exact .inl ⟨x.2.1, mem_map.2 ⟨x, hx, rfl⟩, hk⟩
  · exact .inr ⟨x.2, mem_map.2 ⟨x, hx, rfl⟩, hk⟩

theorem Chains.Listed.takes (hlower : Lowercases p.icon.lowercase)
    (hremote : p.icon.net ≠ p.evmAddr.net) (hT : ∀ tx, T.icon tx → undisputed p s (.icon tx))
    (hs : Sound p s) (hrange : InRange s) (h : Takes p T s s') (hl : s.Listed p) : s'.Listed p := by
  have hpending : ∀ {tx users}, T.icon tx → (∃ sender,
      tx = .addBlacklistAddress sender p.evmAddr.net users ∨
      tx = .removeBlacklistAddress sender p.evmAddr.net users) → ∀ u ∈ users,
      ∀ o ∈ (copies p s.icon.world.bts (evmListed s.evm.world.bts) (s.toEvm p) (s.toIcon p)).pending,
      p.icon.lowercase u ∉ o.keys := fun htx hcall u hu o => undisputed_pending (hT _ htx) hcall hu
  unfold Chains.Listed at hl ⊢
  cases h with
  | @evm out m hicon htoEvm htoIcon hmove =>
    have hlists := hmove.lists hlower fun w k hw => hs.number_lt hrange (by simp [htoEvm, hw])
    rw [htoEvm] at hl
    rw [hicon, htoIcon]
    cases hlists with
    | quiet hlist hm hout =>
      rw [evmListed, hlist]
      exact hl.evm_quiet hm hout
    | answers n t w ok hm hout hw hlist =>
      subst hm hout
      rw [hlist]
      exact hl.evm_answers hw
  | icon hevm htoIcon htoEvm hmove =>
    rw [hevm, htoEvm]
    rw [htoIcon] at hl hpending
    have hlists := hmove.lists hlower hremote hl.distinct hl.nodup hl.nets
    generalize s'.icon.world.bts = b' at hlists ⊢
    cases hlists with
    | quiet _ hlist hnumbers hm hout => exact hl.icon_quiet hlist hnumbers hm hout
    | asks tx htx users hcall f t reachable links hm hout hnet hkeys hlisted hnodup =>
      subst hm hout
      refine hl.icon_asks hnet (fun k hk => (hkeys k hk).2) (fun o ho k hk hkt => ?_) hlisted hnodup
      obtain ⟨u, hu, rfl⟩ := mem_map.1 (hkeys k hkt).1
      exact hpending htx hcall u hu o ho hk
    | settles k t ok w hm hout hw ht f g reachable events hlisted hnodup hkept hless =>
      subst hm hout
      rw [append_nil]
      exact hl.icon_settles hw ht hlisted hnodup hkept hless

theorem start_listed : (start p g).Listed p where
  agree := by
    constructor <;>
      simp [copies, Copies.pending, Chains.toIcon, Chains.toEvm, evmOutbox, iconOutbox,
        Outbox.contents, start, evmStart, iconStart, listed, evmListed, Solidity.BTS.initialState,
        Java.BTS.initialState]
  distinct := by
    constructor <;> simp [start, iconStart, Java.BTS.initialState]
  nodup := by simp [start, iconStart, Java.BTS.initialState]
  nets := by simp [start, iconStart, Java.BTS.initialState]
  recorded := by simp [Chains.toEvm, iconOutbox, Outbox.contents, start, iconStart]
  others := by simp [Chains.toEvm, iconOutbox, Outbox.contents, start, iconStart]
  given := by simp [Chains.toIcon, evmOutbox, Outbox.contents, start, evmStart]
  once := by
    simp [Chains.toIcon, Chains.toEvm, evmOutbox, iconOutbox, Outbox.contents, start, evmStart,
      iconStart]

theorem step_listed (hlower : Lowercases p.icon.lowercase) (hremote : p.icon.net ≠ p.evmAddr.net)
    (hs : Sound p s) (hrange : InRange s) (hl : s.Listed p) (happlies : Applies p s a)
    (hfree : undisputed p s a) (h : step p s a = .ok s') : Sound p s' ∧ InRange s' ∧ s'.Listed p := by
  cases a with
  | icon tx =>
    have hrange' : InRange s' := exec_of_ok h ▸ happlies.2
    have hmove := hs.icon_move (T := (Act.icon tx).terms p s) rfl h
    refine ⟨hs.move hrange hrange' hmove, hrange', hl.takes hlower hremote ?_ hs hrange (hs.takes hmove)⟩
    intro tx' htx'
    have heq : Act.icon tx = .icon tx' := htx'
    cases heq
    exact hfree
  | _ =>
    refine step_induct (fun t t' ht hrange hrange' htakes hl => ?_) hs hl happlies h
    exact Chains.Listed.takes hlower hremote (fun _ htx => absurd htx (by simp [Act.terms])) ht hrange
      htakes hl

/-- Once every message and every answer is delivered, the addresses that ICON
has listed are those that the EVM chain has. -/
theorem blacklists_agree (p : Parties) (g : Genesis) (acts : List Act)
    (hlower : Lowercases p.icon.lowercase) (hremote : p.icon.net ≠ p.evmAddr.net)
    (hacts : Along (step p) (fun s a => Applies p s a ∧ undisputed p s a) (start p g) acts) :
    let s := run (step p) (start p g) acts
    s.toEvm p = [] → s.toIcon p = [] →
      (∀ u ∈ s.icon.world.bts.blacklist p.evmAddr.net, ∃ a, parseAddress u = .ok a) ∧
      ∀ a, (∃ u ∈ s.icon.world.bts.blacklist p.evmAddr.net, parseAddress u = .ok a) ↔
        s.evm.world.bts.blacklist a = true := by
  intro s htoEvm htoIcon
  obtain ⟨-, -, hl⟩ : Sound p s ∧ InRange s ∧ s.Listed p :=
    run_along (fun _ _ _ hinv ha h =>
      step_listed hlower hremote hinv.1 hinv.2.1 hinv.2.2 ha.1 ha.2 h)
      ⟨start_sound, start_inRange, start_listed⟩ hacts
  have hsame : listed p.evmAddr.net s.icon.world.bts = evmListed s.evm.world.bts := by
    refine hl.agree.eq ?_ ?_
    · simp [copies, htoEvm]
    · simp [copies, htoIcon]
  have hmem (u : String) : u ∈ s.icon.world.bts.blacklist p.evmAddr.net ↔
      u ∈ evmListed s.evm.world.bts := Set.ext_iff.1 hsame u
  refine ⟨fun u hu => ?_, fun a => ⟨?_, fun ha => ?_⟩⟩
  · obtain ⟨a, rfl, -⟩ := (hmem u).1 hu
    exact ⟨a, parse_plain⟩
  · rintro ⟨u, hu, ha⟩
    obtain ⟨a', rfl, hlist⟩ := (hmem u).1 hu
    rw [parse_plain] at ha
    cases ha
    exact hlist
  · exact ⟨plain a, (hmem _).2 ⟨a, rfl, ha⟩, parse_plain⟩

def lowerText (u : String) : String := String.ofList (u.toList.map Char.toLower)

theorem toLower_toLower (c : Char) : c.toLower.toLower = c.toLower := by
  by_cases hc : c.toNat < 128
  · have hall : ∀ m < 128, (Char.ofNat m).toLower.toLower = (Char.ofNat m).toLower := by decide +kernel
    have hlower := hall c.toNat hc
    rwa [Char.ofNat_toNat] at hlower
  · have hsame : c.toLower = c := by
      refine dif_neg ?_
      rintro ⟨-, hle⟩
      exact hc (lt_of_le_of_lt (UInt32.le_iff_toNat_le.1 hle) (by decide))
    rw [hsame, hsame]

theorem toLower_of_hexValue {c : Char} (h : Solidity.hexValue c = .ok n) :
    n < 16 ∧ c.toLower = Solidity.hexChar n false := by
  have hall : ∀ m < 103, (Solidity.hexValue (Char.ofNat m)).toOption.all fun n =>
      n < 16 ∧ (Char.ofNat m).toLower = Solidity.hexChar n false := by decide +kernel
  have hc : c.toNat < 103 := by
    simp only [Solidity.hexValue] at h
    split at h
    · contradiction
    · omega
  have hdigit := hall c.toNat hc
  rw [Char.ofNat_toNat, h] at hdigit
  simpa [Except.toOption] using hdigit

theorem lowerText_digits {cs : List Char} (h : cs.mapM Solidity.hexValue = .ok ns) :
    (∀ n ∈ ns, n < 16) ∧ cs.map Char.toLower = ns.map (Solidity.hexChar · false) := by
  induction cs generalizing ns with
  | nil =>
    cases h
    simp
  | cons c cs ih =>
    simp only [mapM_cons, bind_ok, pure_ok] at h
    obtain ⟨n, hn, ns, hns, rfl⟩ := h
    obtain ⟨hlt, hlower⟩ := toLower_of_hexValue hn
    obtain ⟨hlts, hlowers⟩ := ih hns
    exact ⟨forall_mem_cons.2 ⟨hlt, hlts⟩, by rw [map_cons, hlower, hlowers, map_cons]⟩

theorem plain_digits {ns : List ℕ} (hlt : ∀ n ∈ ns, n < 16) (hlen : ns.length = 40) :
    plain (BitVec.ofNat 160 (ofDigits 16 ns)) =
      String.ofList ('0' :: 'x' :: ns.map (Solidity.hexChar · false)) := by
  have hvalue : ofDigits 16 ns < 2 ^ 160 := by
    have hlt := ofDigits_lt hlt
    rwa [hlen, show 16 ^ 40 = 2 ^ 160 by norm_num] at hlt
  have hdigits := toDigits_ofDigits hlt
  rw [hlen] at hdigits
  rw [plain, Solidity.toString, Solidity.addressDigits, BitVec.toNat_ofNat, Nat.mod_eq_of_lt hvalue,
    hdigits]
  exact congrArg (fun cs => String.ofList ('0' :: 'x' :: cs)) (ext_getElem (by simp) (by simp))

theorem lowerText_lowercases : Lowercases lowerText where
  idem u := by
    simp only [lowerText, String.toList_ofList, map_map]
    exact congrArg String.ofList (map_congr_left fun c _ => toLower_toLower c)
  address u a h := by
    unfold parseAddress at h
    split at h
    · next digits hu =>
      simp only [bind_ok, require_ok, decide_eq_true_eq] at h
      obtain ⟨_, hlen, ns, hns, h⟩ := h
      obtain ⟨hlt, hlower⟩ := lowerText_digits hns
      have ha : BitVec.ofNat 160 (ofDigits 16 ns) = a := by
        split at h
        · simp only [bind_ok, pure_ok] at h
          obtain ⟨_, -, h⟩ := h
          exact h
        · exact pure_ok.1 h
      have hlen' : ns.length = 40 := by
        have hlengths := congrArg List.length hlower
        rwa [length_map, length_map, hlen, eq_comm] at hlengths
      rw [← ha, plain_digits hlt hlen', lowerText, hu, ← hlower]
      rfl
    · contradiction

def lowered : Parties :=
  { sample with
    icon := { sample.icon with lowercase := lowerText }
    valueOf_evm := by decide
    valueOf_icon := by decide }

def blockedUser : String := "0x00000000000000000000000000000000000000aB"

/-- One address is blocked, under two spellings, and another one that the EVM chain
cannot read is refused; then the first one is unblocked and blocked again. -/
def blocking : List Act :=
  [.icon (.addBlacklistAddress ⟨false, 4⟩ "0x38.bsc" [blockedUser, lowerText blockedUser]),
   .icon (.addBlacklistAddress ⟨false, 4⟩ "0x38.bsc" ["hx03"]), deliverToEvm, deliverToEvm, deliverToIcon,
   .icon (.removeBlacklistAddress ⟨false, 4⟩ "0x38.bsc" [blockedUser]), deliverToEvm, deliverToIcon,
   deliverToIcon, .icon (.addBlacklistAddress ⟨false, 4⟩ "0x38.bsc" [blockedUser]), deliverToEvm,
   deliverToIcon]

theorem blocking_agrees :
    ∃ u ∈ (run (step lowered) (start lowered sampleGenesis) blocking).icon.world.bts.blacklist
      lowered.evmAddr.net, parseAddress u = .ok 0xab := by
  have hempty : ((run (step lowered) (start lowered sampleGenesis) blocking).toEvm lowered).isEmpty ∧
    ((run (step lowered) (start lowered sampleGenesis) blocking).toIcon lowered).isEmpty := by
    decide +kernel
  obtain ⟨-, hagree⟩ := blacklists_agree lowered sampleGenesis blocking lowerText_lowercases (by decide)
    (by decide +kernel) (List.isEmpty_iff.1 hempty.1) (List.isEmpty_iff.1 hempty.2)
  refine (hagree _).2 ?_
  decide +kernel

/-- The address is unblocked before it is known that blocking it was refused. -/
def hastily : List Act :=
  [.icon (.addBlacklistAddress ⟨false, 4⟩ "0x38.bsc" [blockedUser, "hx03"]),
   .icon (.removeBlacklistAddress ⟨false, 4⟩ "0x38.bsc" [blockedUser]),
   deliverToEvm, deliverToEvm, deliverToIcon, deliverToIcon]

/-- Undoing the second change lists an address that the EVM chain never had. -/
theorem hastily_apart :
    let s := run (step lowered) (start lowered sampleGenesis) hastily
    s.toEvm lowered = [] ∧ s.toIcon lowered = [] ∧
      (∃ u ∈ s.icon.world.bts.blacklist "0x38.bsc", parseAddress u = .ok 0xab) ∧
      s.evm.world.bts.blacklist 0xab = false := by
  intro s
  have hempty : (s.toEvm lowered).isEmpty ∧ (s.toIcon lowered).isEmpty := by decide +kernel
  exact ⟨List.isEmpty_iff.1 hempty.1, List.isEmpty_iff.1 hempty.2,
    ⟨lowerText blockedUser, by decide +kernel, by decide +kernel⟩, by decide +kernel⟩

end IconBridge.Bridge
