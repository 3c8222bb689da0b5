import IconBridge.Lib.Runs
import IconBridge.Java.BMC.Routing

/-!
# Relay messages in fragments

A relay hands over a long message in parts. The first part comes with the number
of those that follow it before the last one, as a negative index, and the others
count down to 0. The parts are kept in an array per link and relay, which is
never cleared: a new stream overwrites the old one as far as it gets.
-/

namespace IconBridge.Java.BMC

open Lib Function List

variable {W B : Type}

/-- Sums of the type `int` keep the low 32 bits. -/
def intValue (n : ℤ) : ℤ := Int.bmod n (2 ^ 32)

theorem intValue_of_isInt (hlow : -2 ^ 31 ≤ n) (hhigh : n < 2 ^ 31) : intValue n = n :=
  Int.bmod_eq_of_le (by simpa using hlow) (by simpa using hhigh)

def parseDigits (digits : List Char) : Outcome ℤ := do
  require (digits ≠ [] && digits.all Char.isDigit) (.other "NumberFormatException")
  return Nat.ofDigitChars 10 digits 0

/-- `Integer.parseInt` -/
def parseInt (str : String) : Outcome ℤ := do
  let n ← match str.toList with
    | '-' :: digits => (- ·) <$> parseDigits digits
    | '+' :: digits => parseDigits digits
    | digits => parseDigits digits
  require (-2 ^ 31 ≤ n && n < 2 ^ 31) (.other "NumberFormatException")
  return n

theorem parseDigits_toDigits (n : ℕ) : parseDigits (Nat.toDigits 10 n) = .ok n := by
  have hall : (Nat.toDigits 10 n).all Char.isDigit = true :=
    all_eq_true.2 fun _ hdigit => Nat.isDigit_of_mem_toDigits (by decide) (by decide) hdigit
  simp [parseDigits, hall, Nat.toDigits_ne_nil, Nat.ofDigitChars_ten_toDigits]

theorem parseInt_repr (hlow : 0 ≤ n) (hhigh : n < 2 ^ 31) : parseInt (Int.repr n) = .ok n := by
  obtain ⟨m, rfl⟩ := Int.eq_ofNat_of_zero_le hlow
  have hrepr : (Int.repr (m : ℤ)).toList = Nat.toDigits 10 m := Nat.toList_repr
  have hread := parseDigits_toDigits m
  have hfirst : ∀ digit ∈ Nat.toDigits 10 m, digit.isDigit = true :=
    fun _ hdigit => Nat.isDigit_of_mem_toDigits (by decide) (by decide) hdigit
  rw [parseInt, hrepr]
  generalize Nat.toDigits 10 m = digits at hread hfirst ⊢
  split
  · exact absurd (hfirst '-' mem_cons_self) (by decide)
  · exact absurd (hfirst '+' mem_cons_self) (by decide)
  · have hrange : (decide (-2 ^ 31 ≤ (m : ℤ)) && decide ((m : ℤ) < 2 ^ 31)) = true := by
      rw [Bool.and_eq_true, decide_eq_true_iff, decide_eq_true_iff]
      omega
    rw [hread, ok_bind]
    simp only [hrange, require_true, ok_bind]
    rfl

/-- `ArrayDB.get` -/
def getAt (arr : List String) (i : ℤ) : Outcome String :=
  match if 0 ≤ i then arr[i.toNat]? else none with
  | some str => .ok str
  | none => .error (.other "IllegalArgumentException")

/-- `ArrayDB.set` -/
def setAt (arr : List String) (i : ℤ) (str : String) : Outcome (List String) := do
  require (0 ≤ i && i < arr.length) (.other "IllegalArgumentException")
  return arr.set i.toNat str

def indexLast : ℤ := 0
def indexNext : ℤ := 1
def indexOffset : ℤ := 2

inductive Taken
  | stored (fragments : List String)
  | complete (msg : String)
  deriving DecidableEq, Repr

def takeFragment (fragments : List String) (msg : String) (idx : ℤ) : Outcome Taken :=
  if idx < 0 then do
    let last := intValue (idx * -1)
    if fragments.length = 0 then
      return .stored [Int.repr last, Int.repr (intValue (last - 1)), msg]
    else
      let fragments ← setAt fragments indexLast (Int.repr last)
      let fragments ← setAt fragments indexNext (Int.repr (intValue (last - 1)))
      let fragments ← setAt fragments indexOffset msg
      return .stored fragments
  else do
    let next ← getAt fragments indexNext >>= parseInt
    require (next = idx) (unknown "invalid _idx")
    let last ← getAt fragments indexLast >>= parseInt
    if idx = 0 then
      let parts ← (List.range last.toNat).mapM fun i : ℕ => getAt fragments (i + indexOffset)
      return .complete (String.join parts ++ msg)
    else
      let fragments ← setAt fragments indexNext (Int.repr (idx - 1))
      let index := intValue (last - idx + indexOffset)
      if index < fragments.length then
        let fragments ← setAt fragments index msg
        return .stored fragments
      else return .stored (fragments ++ [msg])

structure FragmentSt (W B : Type) where
  center : St W B
  fragments : String → Address → List String := fun _ _ => []

/-- `bytes` is the relay message in base64. -/
def handleFragment (c : Config W B) (bytes : String → B) (s : FragmentSt W B) (sender : Address)
    (height : ℤ) (prev msg : String) (idx : ℤ) : Outcome (FragmentSt W B) := do
  let link ← c.valueOf prev
  let _ ← getLink s.center link
  require ((s.center.relays link).val sender).isSome (unauthorized "not registered relay")
  match ← takeFragment (s.fragments prev sender) msg idx with
  | .stored fragments =>
    let ofLink := update (s.fragments prev) sender fragments
    return { s with fragments := update s.fragments prev ofLink }
  | .complete msg =>
    let center ← handleRelayMessage c s.center sender height prev (bytes msg)
    return { s with center }

inductive FragmentTx (W B : Type)
  | handleFragment (sender : Address) (height : ℤ) (prev msg : String) (idx : ℤ)
  | center (tx : Tx W B)

/-- A negative index is not the least `int`. -/
def FragmentTx.InRange : FragmentTx W B → Prop
  | .handleFragment _ _ _ _ idx => -2 ^ 31 < idx
  | .center _ => True

def fragmentStep (c : Config W B) (bytes : String → B) (s : FragmentSt W B) :
    FragmentTx W B → Outcome (FragmentSt W B)
  | .handleFragment sender height prev msg idx =>
    handleFragment c bytes s sender height prev msg idx
  | .center tx => do
    let center ← step c s.center tx
    return { s with center }

structure Accepted where
  link : BTPAddress
  relay : Address
  msg : String
  idx : ℤ

/-- The fragments of the current stream of a relay on a link: a negative index
begins a new one, and the last fragment is handed over at once. -/
def extend (stream : List String) (msg : String) (idx : ℤ) : List String :=
  if idx < 0 then [msg] else if idx = 0 then stream else stream ++ [msg]

def note (streams : BTPAddress → Address → List String) (a : Accepted) :
    BTPAddress → Address → List String := fun link relay =>
  if link = a.link ∧ relay = a.relay then extend (streams link relay) a.msg a.idx
  else streams link relay

def streamOf (accepted : List Accepted) (link : BTPAddress) (relay : Address) : List String :=
  accepted.foldl note (fun _ _ => []) link relay

def acceptedBy (c : Config W B) (bytes : String → B) (s : FragmentSt W B) :
    FragmentTx W B → Option Accepted
  | .handleFragment sender height prev msg idx =>
    match c.valueOf prev, handleFragment c bytes s sender height prev msg idx with
    | .ok link, .ok _ => some { link, relay := sender, msg, idx }
    | _, _ => none
  | .center _ => none

def acceptedIn (c : Config W B) (bytes : String → B) :
    FragmentSt W B → List (FragmentTx W B) → List Accepted
  | _, [] => []
  | s, tx :: txs => (acceptedBy c bytes s tx).toList ++
      acceptedIn c bytes (exec (fragmentStep c bytes) s tx) txs

/-- The array holds a stream behind the two counters, and maybe remains of
older ones behind that. -/
inductive Holds : List String → List String → Prop
  | fresh : Holds [] []
  | stream (last : ℤ) (rest stream : List String) (hbegun : stream ≠ [])
      (hlength : stream.length ≤ last) (hint : last < 2 ^ 31) (hrest : stream <+: rest) :
      Holds (Int.repr last :: Int.repr (last - stream.length) :: rest) stream

section

variable {a b part : String} {rest : List String}

theorem getAt_last : getAt (a :: rest) indexLast = .ok a := rfl
theorem getAt_next : getAt (a :: b :: rest) indexNext = .ok b := rfl

theorem getAt_part {i : ℕ} (h : rest[i]? = some part) :
    getAt (a :: b :: rest) (i + indexOffset) = .ok part := by
  have hindex : ((i : ℤ) + indexOffset).toNat = i + 2 := rfl
  have hnonneg : 0 ≤ (i : ℤ) + indexOffset := Int.natCast_nonneg (i + 2)
  simp only [getAt, if_pos hnonneg, hindex, getElem?_cons_succ, h]

theorem setAt_last : setAt (a :: rest) indexLast part = .ok (part :: rest) := by
  simp [setAt, indexLast]

theorem setAt_next : setAt (a :: b :: rest) indexNext part = .ok (a :: part :: rest) := by
  simp [setAt, indexNext]

theorem setAt_part {i : ℕ} (h : i < rest.length) :
    setAt (a :: b :: rest) (i + indexOffset) part = .ok (a :: b :: rest.set i part) := by
  have hindex : ((i : ℤ) + indexOffset).toNat = i + 2 := rfl
  have hnonneg : 0 ≤ (i : ℤ) + indexOffset := Int.natCast_nonneg (i + 2)
  have hlt : (i : ℤ) + indexOffset < ((a :: b :: rest).length : ℕ) := by
    rw [indexOffset, length_cons, length_cons]
    omega
  simp only [setAt, hnonneg, hlt, decide_true, Bool.and_self, require_true, ok_bind, hindex,
    set_cons_succ]
  rfl

theorem setAt_negative (h : i < 0) :
    setAt rest i part = .error (.other "IllegalArgumentException") := by
  rw [setAt, decide_eq_false (by omega), Bool.false_and]
  rfl

end

theorem takeFragment_first (msg : String) (h : Holds arr stream) (hlow : -2 ^ 31 < idx)
    (hneg : idx < 0) :
    ∃ arr', takeFragment arr msg idx = .ok (.stored arr') ∧ Holds arr' [msg] := by
  have hlast : intValue (idx * -1) = -idx := by
    rw [intValue_of_isInt (by omega) (by omega)]
    omega
  have hnext : intValue (-idx - 1) = -idx - ([msg].length : ℕ) := by
    rw [intValue_of_isInt (by omega) (by omega)]
    rfl
  have hlength : (([msg].length : ℕ) : ℤ) ≤ -idx := by
    rw [length_singleton]
    omega
  have hfirst (rest : List String) :
      Holds (Int.repr (-idx) :: Int.repr (-idx - ([msg].length : ℕ)) :: msg :: rest) [msg] :=
    .stream _ _ _ (cons_ne_nil msg []) hlength (by omega) ⟨rest, rfl⟩
  rw [takeFragment, if_pos hneg]
  simp only [hlast, hnext]
  cases h with
  | fresh => exact ⟨_, rfl, hfirst []⟩
  | stream last rest stream hbegun _ _ hrest =>
    obtain ⟨part, rest, rfl⟩ : ∃ part tail, rest = part :: tail :=
      exists_cons_of_ne_nil fun hnil => hbegun (prefix_nil.1 (hnil ▸ hrest))
    have hoffset : setAt (Int.repr (-idx) :: Int.repr (-idx - ([msg].length : ℕ)) :: part :: rest)
        indexOffset msg =
        .ok (Int.repr (-idx) :: Int.repr (-idx - ([msg].length : ℕ)) :: msg :: rest) :=
      setAt_part (i := 0) (Nat.zero_lt_succ _)
    rw [if_neg (by simp), setAt_last, ok_bind, setAt_next, ok_bind, hoffset, ok_bind]
    exact ⟨_, rfl, hfirst rest⟩

theorem prefix_set {stream rest : List String} (h : stream <+: rest)
    (hlt : stream.length < rest.length) (msg : String) :
    stream ++ [msg] <+: rest.set stream.length msg := by
  obtain ⟨tail, rfl⟩ := h
  obtain ⟨part, tail, rfl⟩ : ∃ part tail', tail = part :: tail' := by
    refine exists_cons_of_ne_nil fun hnil => ?_
    simp [hnil] at hlt
  refine ⟨tail, ?_⟩
  rw [set_append_right _ _ le_rfl, Nat.sub_self, set_cons_zero, append_assoc,
    singleton_append]

theorem mapM_getAt {stream rest : List String} (h : stream <+: rest) :
    (List.range stream.length).mapM (fun i : ℕ => getAt (a :: b :: rest) (i + indexOffset)) =
      .ok stream := by
  have hread : List.Forall₂ (fun part (i : ℕ) => rest[i]? = some part) stream
      (List.range stream.length) := by
    refine forall₂_iff_get.2 ⟨length_range.symm, fun i hi hi' => ?_⟩
    obtain ⟨tail, rfl⟩ := h
    simp [getElem?_append_left hi]
  have hparts := mapM_of_forall₂ (g := id) hread fun part _ i hi => getAt_part (a := a) (b := b) hi
  rwa [map_id] at hparts

theorem takeFragment_next (h : Holds arr stream) (hpos : 0 < idx)
    (htaken : takeFragment arr msg idx = .ok taken) :
    ∃ arr', taken = .stored arr' ∧ Holds arr' (stream ++ [msg]) := by
  rw [takeFragment, if_neg (by omega)] at htaken
  cases h with
  | fresh => contradiction
  | stream last rest stream hbegun hlength hint hrest =>
    have hreadNext := parseInt_repr (n := last - stream.length) (by omega) (by omega)
    have hreadLast := parseInt_repr (n := last) (by omega) hint
    simp only [getAt_next, getAt_last, setAt_next, ok_bind, hreadNext, hreadLast, bind_ok,
      require_ok, decide_eq_true_eq, if_neg hpos.ne'] at htaken
    obtain ⟨_, hnext, htaken⟩ := htaken
    have hlast : last - idx = (stream.length : ℕ) := by omega
    have hnext' : idx - 1 = last - ((stream ++ [msg]).length : ℕ) := by
      rw [length_append, length_singleton]
      omega
    have hlength' : (((stream ++ [msg]).length : ℕ) : ℤ) ≤ last := by omega
    rw [hlast, hnext'] at htaken
    by_cases hfits : (stream.length : ℤ) + indexOffset < 2 ^ 31
    · rw [intValue_of_isInt (by rw [indexOffset]; omega) hfits] at htaken
      split at htaken
      · next hlt =>
        have hlt' : stream.length < rest.length := by
          simp only [indexOffset, length_cons] at hlt
          omega
        rw [setAt_part hlt', ok_bind] at htaken
        cases htaken
        exact ⟨_, rfl, .stream _ _ _ (by simp) hlength' hint (prefix_set hrest hlt' msg)⟩
      · next hge =>
        have hsame : stream = rest := by
          refine hrest.eq_of_length_le ?_
          simp only [indexOffset, length_cons] at hge
          omega
        cases htaken
        subst hsame
        exact ⟨_, rfl, .stream _ _ _ (by simp) hlength' hint prefix_rfl⟩
    · -- the sum wraps, and there is no such entry
      have hwraps : intValue ((stream.length : ℤ) + indexOffset) = -2 ^ 31 := by
        have hsum : (stream.length : ℤ) + indexOffset = 2 ^ 31 := by
          rw [indexOffset] at hfits ⊢
          omega
        rw [hsum]
        decide
      rw [if_pos (by omega), setAt_negative (by omega)] at htaken
      cases htaken

theorem takeFragment_last (h : Holds arr stream) (htaken : takeFragment arr msg 0 = .ok taken) :
    taken = .complete (String.join stream ++ msg) := by
  rw [takeFragment, if_neg (by omega)] at htaken
  cases h with
  | fresh => contradiction
  | stream last rest stream hbegun hlength hint hrest =>
    have hreadNext := parseInt_repr (n := last - stream.length) (by omega) (by omega)
    have hreadLast := parseInt_repr (n := last) (by omega) hint
    simp only [getAt_next, getAt_last, ok_bind, hreadNext, hreadLast, bind_ok, require_ok,
      decide_eq_true_eq, if_true, pure_ok] at htaken
    obtain ⟨_, hlast, parts, hparts, rfl⟩ := htaken
    have hlast : last.toNat = stream.length := by omega
    rw [hlast, mapM_getAt hrest] at hparts
    cases hparts
    rfl

/-- A fragment that is accepted extends the stream, or it completes it. -/
inductive Takes (arr stream : List String) (msg : String) (idx : ℤ) : Taken → Prop
  | stored (arr' : List String) (h : Holds arr' (extend stream msg idx)) :
      Takes arr stream msg idx (.stored arr')
  | complete (hidx : idx = 0) : Takes arr stream msg idx (.complete (String.join stream ++ msg))

theorem takeFragment_takes (h : Holds arr stream) (hlow : -2 ^ 31 < idx)
    (htaken : takeFragment arr msg idx = .ok taken) : Takes arr stream msg idx taken := by
  rcases lt_trichotomy idx 0 with hneg | rfl | hpos
  · obtain ⟨arr', hstored, hholds⟩ := takeFragment_first msg h hlow hneg
    cases htaken.symm.trans hstored
    exact .stored arr' (by rwa [extend, if_pos hneg])
  · rw [takeFragment_last h htaken]
    exact .complete rfl
  · obtain ⟨arr', rfl, hholds⟩ := takeFragment_next h hpos htaken
    exact .stored arr' (by rwa [extend, if_neg hpos.not_gt, if_neg hpos.ne'])

section

variable {c : Config W B} {bytes : String → B} {s s' : FragmentSt W B} {prev : String}
  {streams : BTPAddress → Address → List String}

theorem handleFragment_ok (h : handleFragment c bytes s sender height prev msg idx = .ok s') :
    ∃ link taken, c.valueOf prev = .ok link ∧
      takeFragment (s.fragments prev sender) msg idx = .ok taken ∧
      match taken with
      | .stored fragments =>
        s' = { s with
          fragments := update s.fragments prev
            (update (s.fragments prev) sender fragments) }
      | .complete msg => ∃ center,
          handleRelayMessage c s.center sender height prev (bytes msg) = .ok center ∧
          s' = { s with center } := by
  simp only [handleFragment, bind_ok] at h
  obtain ⟨link, hlink, _, -, _, -, taken, htaken, h⟩ := h
  refine ⟨link, taken, hlink, htaken, ?_⟩
  cases taken with
  | stored fragments => exact (pure_ok.1 h).symm
  | complete msg =>
    simp only [bind_ok, pure_ok] at h
    obtain ⟨center, hcenter, rfl⟩ := h
    exact ⟨center, hcenter, rfl⟩

def Matches (c : Config W B) (streams : BTPAddress → Address → List String)
    (s : FragmentSt W B) : Prop :=
  ∀ prev link relay, c.valueOf prev = .ok link → Holds (s.fragments prev relay) (streams link relay)

theorem Matches.accept (hs : Matches c streams s)
    (hvalueOf : ∀ str a, c.valueOf str = .ok a → a.toString = str) (hlow : -2 ^ 31 < idx)
    (hlink : c.valueOf prev = .ok link)
    (h : handleFragment c bytes s sender height prev msg idx = .ok s') :
    Matches c (note streams { link, relay := sender, msg, idx }) s' := by
  obtain ⟨link', taken, hlink', htaken, htook⟩ := handleFragment_ok h
  cases hlink.symm.trans hlink'
  have htakes := takeFragment_takes (hs prev link sender hlink) hlow htaken
  intro prev' link' relay hvalue
  have hother : Holds (s.fragments prev' relay) (streams link' relay) := hs prev' link' relay hvalue
  cases htakes with
  | complete hidx =>
    obtain ⟨center, -, rfl⟩ := htook
    subst hidx
    simpa [note, extend] using hother
  | stored arr' hholds =>
    rw [htook]
    by_cases hprev : prev' = prev
    · subst hprev
      cases hlink.symm.trans hvalue
      by_cases hrelay : relay = sender
      · subst hrelay
        simpa [note] using hholds
      · simpa [note, hrelay] using hother
    · have hne : link' ≠ link := by
        rintro rfl
        exact hprev ((hvalueOf prev' link' hvalue).symm.trans (hvalueOf prev link' hlink))
      simpa [note, hprev, hne] using hother

theorem Matches.exec (hs : Matches c streams s)
    (hvalueOf : ∀ str a, c.valueOf str = .ok a → a.toString = str) (htx : tx.InRange) :
    Matches c ((acceptedBy c bytes s tx).toList.foldl note streams)
      (exec (fragmentStep c bytes) s tx) := by
  cases tx with
  | handleFragment sender height prev msg idx =>
    cases h : handleFragment c bytes s sender height prev msg idx with
    | error e => simpa [acceptedBy, Lib.exec, fragmentStep, h] using hs
    | ok s' =>
      obtain ⟨link, _, hlink, -⟩ := handleFragment_ok h
      simpa [acceptedBy, Lib.exec, fragmentStep, h, hlink] using hs.accept hvalueOf htx hlink h
  | center tx =>
    refine exec_induct (P := fun s' => Matches c streams s') (fun s' hs' => ?_) hs
    simp only [fragmentStep, bind_ok, pure_ok] at hs'
    obtain ⟨center, -, rfl⟩ := hs'
    exact hs

theorem Matches.run {txs : List (FragmentTx W B)} (hs : Matches c streams s)
    (hvalueOf : ∀ str a, c.valueOf str = .ok a → a.toString = str)
    (htxs : ∀ tx ∈ txs, tx.InRange) :
    Matches c ((acceptedIn c bytes s txs).foldl note streams)
      (run (fragmentStep c bytes) s txs) := by
  induction txs generalizing s streams with
  | nil => exact hs
  | cons tx txs ih =>
    obtain ⟨htx, htxs⟩ := forall_mem_cons.1 htxs
    rw [acceptedIn, foldl_append]
    exact ih (hs.exec hvalueOf htx) htxs

end

/-- After any run, the last fragment that is accepted of a relay completes the
stream that this relay has begun last on this link. -/
theorem fragments_reassembled (c : Config W B) (bytes : String → B) (center : St W B)
    (txs : List (FragmentTx W B)) (sender : Address) (height : ℤ) (prev msg : String)
    (s' : FragmentSt W B) (hvalueOf : ∀ str a, c.valueOf str = .ok a → a.toString = str)
    (htxs : ∀ tx ∈ txs, tx.InRange)
    (h : handleFragment c bytes (run (fragmentStep c bytes) { center } txs) sender height prev msg
      0 = .ok s') :
    ∃ link text, c.valueOf prev = .ok link ∧
      text = String.join (streamOf (acceptedIn c bytes { center } txs) link sender) ++ msg ∧
      takeFragment ((run (fragmentStep c bytes) { center } txs).fragments prev sender) msg 0 =
        .ok (.complete text) ∧
      handleRelayMessage c (run (fragmentStep c bytes) { center } txs).center sender height prev
        (bytes text) = .ok s'.center := by
  have hinit : Matches c (fun _ _ => []) { center } := fun _ _ _ _ => .fresh
  have hmatches : Matches c (streamOf (acceptedIn c bytes { center } txs))
      (run (fragmentStep c bytes) { center } txs) := hinit.run hvalueOf htxs
  obtain ⟨link, taken, hlink, htaken, htook⟩ := handleFragment_ok h
  obtain rfl := takeFragment_last (hmatches prev link sender hlink) htaken
  obtain ⟨center', hcenter, rfl⟩ := htook
  exact ⟨link, _, hlink, rfl, htaken, hcenter⟩

theorem linkConfig_valueOf (str : String) (a : BTPAddress) (h : linkConfig.valueOf str = .ok a) :
    a.toString = str := by
  have hvalue : linkConfig.valueOf str =
      ([bsc, bscOther, near].find? fun a => a.toString = str).elim
        (.error (.other "IllegalArgumentException")) .ok := rfl
  rw [hvalue] at h
  cases hfind : [bsc, bscOther, near].find? fun a => a.toString = str with
  | none =>
    rw [hfind] at h
    contradiction
  | some a' =>
    rw [hfind] at h
    cases h
    simpa using find?_some hfind

def otherRelay : Address := ⟨false, 8⟩

def relayed : St Unit Wire :=
  run (step linkConfig) { world := () }
    [.admin relay (.addLink bsc.toString), .admin relay (.addRelay bsc.toString relay),
     .admin relay (.addRelay bsc.toString otherRelay)]

/-- A stream of four is abandoned, and a shorter one is begun; another relay and
a wrong index come in between. -/
def restarted : List (FragmentTx Unit Wire) :=
  [.handleFragment relay 1 bsc.toString "w" (-3),
   .handleFragment relay 1 bsc.toString "x" 2,
   .handleFragment relay 1 bsc.toString "y" 1,
   .handleFragment relay 2 bsc.toString "a" (-2),
   .handleFragment otherRelay 2 bsc.toString "z" (-1),
   .handleFragment relay 2 bsc.toString "q" 2,
   .handleFragment relay 2 bsc.toString "b" 1]

theorem restarted_reassembled :
    ∃ s', handleRelayMessage linkConfig
        (run (fragmentStep linkConfig fun _ => .receipts []) { center := relayed } restarted).center
        relay 3 bsc.toString (.receipts []) = .ok s' ∧
      takeFragment ((run (fragmentStep linkConfig fun _ => .receipts []) { center := relayed }
        restarted).fragments bsc.toString relay) "c" 0 = .ok (.complete "abc") := by
  have hok : (handleFragment linkConfig (fun _ => .receipts [])
      (run (fragmentStep linkConfig fun _ => .receipts []) { center := relayed } restarted)
      relay 3 bsc.toString "c" 0).toBool = true := by decide +kernel
  obtain ⟨s', hs'⟩ := toBool_ok.1 hok
  obtain ⟨link, text, hlink, htext, htaken, hcenter⟩ := fragments_reassembled linkConfig
    (fun _ => .receipts []) relayed restarted relay 3 bsc.toString "c" s' linkConfig_valueOf
    (by simp [restarted, FragmentTx.InRange]) hs'
  have hbsc : linkConfig.valueOf bsc.toString = .ok bsc := by decide +kernel
  cases hbsc.symm.trans hlink
  have hstream : streamOf (acceptedIn linkConfig (fun _ => .receipts []) { center := relayed }
      restarted) bsc relay = ["a", "b"] := by decide +kernel
  rw [hstream] at htext
  subst htext
  exact ⟨s'.center, hcenter, htaken⟩

end IconBridge.Java.BMC
