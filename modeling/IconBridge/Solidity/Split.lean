import IconBridge.Solidity.Text

/-!
# The loops of `String.split`

One loop counts the separators and another one copies what is between them.
Both stop in front of the last character.
-/

namespace IconBridge.Solidity

open Lib

/-- `_indexOf` -/
def indexOf (base : List Char) (value : Char) (offset : ℕ) : ℤ :=
  match (List.range' offset (base.length - offset)).find? fun i => base[i]? = some value with
  | some i => i
  | none => -1

/-- The first loop of `split`; `_baseBytes.length` rounds are enough. -/
def countSplits (base : List Char) (value : Char) : (rounds offset splitsCount : ℕ) → ℕ
  | 0, _, splitsCount => splitsCount
  | rounds + 1, offset, splitsCount =>
    if offset < base.length - 1 then
      let limit := indexOf base value offset
      if limit = -1 then splitsCount
      else countSplits base value rounds (limit.toNat + 1) (splitsCount + 1)
    else splitsCount

/-- The second loop of `split`. -/
def copySplits (base : List Char) (value : Char) :
    (rounds offset splitsCount : ℕ) → (splitArr : List String) → Outcome (List String)
  | 0, _, _, splitArr => .ok splitArr
  | rounds + 1, offset, splitsCount, splitArr =>
    if offset < base.length - 1 then do
      let limit := indexOf base value offset
      let limit := if limit = -1 then base.length else limit.toNat
      let tmp := (base.drop offset).take (limit - offset)
      require (splitsCount < splitArr.length) (.panic 0x32)
      copySplits base value rounds (limit + 1) (splitsCount + 1)
        (splitArr.set splitsCount (String.ofList tmp))
    else .ok splitArr

def splitLoops (base : String) (value : Char) : Outcome (List String) := do
  let _ ← sub base.toList.length 1
  let splitArr := List.replicate (countSplits base.toList value base.toList.length 0 1) ""
  copySplits base.toList value base.toList.length 0 0 splitArr

def splitBTPAddressLoops (base : String) : Outcome (String × String) := do
  let temp ← splitLoops base '/'
  return (← expect temp[2]? (.panic 0x32), ← expect temp[3]? (.panic 0x32))

/-- The pieces of what is left, of which a single character is none. -/
def pieces (cs : List Char) : List String := if cs.length ≤ 1 then [""] else splitLoop cs []

theorem splitLoop_of_not_mem (h : '/' ∉ cs) (piece : List Char) :
    splitLoop cs piece = [String.ofList (piece.reverse ++ cs)] := by
  induction cs generalizing piece with
  | nil => simp [splitLoop]
  | cons c cs ih =>
    obtain ⟨hc, hcs⟩ := not_or.1 (mt List.mem_cons.2 h)
    rw [splitLoop, if_neg (Ne.symm hc), ih hcs]
    simp

theorem splitLoop_append (h : '/' ∉ p) (piece : List Char) :
    splitLoop (p ++ '/' :: q) piece = String.ofList (piece.reverse ++ p) :: pieces q := by
  induction p generalizing piece with
  | nil => simp [splitLoop, pieces]
  | cons c p ih =>
    obtain ⟨hc, hp⟩ := not_or.1 (mt List.mem_cons.2 h)
    rw [List.cons_append, splitLoop, if_neg (Ne.symm hc), ih hp]
    simp

theorem pieces_of_not_mem (hlen : 1 < cs.length) (h : '/' ∉ cs) : pieces cs = [String.ofList cs] := by
  rw [pieces, if_neg (by omega), splitLoop_of_not_mem h]
  rfl

theorem pieces_append (hlen : 1 < (p ++ '/' :: q).length) (h : '/' ∉ p) :
    pieces (p ++ '/' :: q) = String.ofList p :: pieces q := by
  rw [pieces, if_neg (by omega), splitLoop_append h]
  rfl

section Loops

variable {base : List Char} {value : Char}

theorem indexOf_none (h : value ∉ base.drop offset) : indexOf base value offset = -1 := by
  have hfind : (List.range' offset (base.length - offset)).find?
      (fun i => decide (base[i]? = some value)) = none := by
    rw [List.find?_eq_none]
    intro i hi hvalue
    obtain ⟨hle, -⟩ := List.mem_range'_1.1 hi
    rw [decide_eq_true_eq, ← Nat.add_sub_cancel' hle, ← List.getElem?_drop] at hvalue
    exact h (List.mem_of_getElem? hvalue)
  rw [indexOf, hfind]

theorem indexOf_append (h : base.drop offset = p ++ value :: q) (hp : value ∉ p) :
    indexOf base value offset = (offset + p.length : ℕ) := by
  have hat (i : ℕ) : base[offset + i]? = (p ++ value :: q)[i]? := by
    rw [← List.getElem?_drop, h]
  have hlen : offset + p.length < base.length := by
    have := congrArg List.length h
    rw [List.length_drop, List.length_append, List.length_cons] at this
    omega
  have hfind : (List.range' offset (base.length - offset)).find?
      (fun i => decide (base[i]? = some value)) = some (offset + p.length) := by
    rw [List.find?_range'_eq_some]
    refine ⟨?_, List.mem_range'_1.2 ⟨Nat.le_add_right _ _, by omega⟩, fun j hj hlt => ?_⟩
    · rw [hat, decide_eq_true_eq]
      simp
    · rw [← Nat.add_sub_cancel' hj, hat, List.getElem?_append_left (by omega)]
      simp only [Bool.not_eq_true', decide_eq_false_iff_not]
      exact fun hvalue => hp (List.mem_of_getElem? hvalue)
  rw [indexOf, hfind]

/-- What a round of either loop sees: the last piece, or one up to the next separator. -/
theorem pieces_drop (h : offset < base.length - 1) :
    (indexOf base '/' offset = -1 ∧ pieces (base.drop offset) = [String.ofList (base.drop offset)]) ∨
    ∃ limit : ℕ, indexOf base '/' offset = limit ∧ offset ≤ limit ∧
      pieces (base.drop offset) =
        String.ofList ((base.drop offset).take (limit - offset)) :: pieces (base.drop (limit + 1)) := by
  have hlen : (base.drop offset).length = base.length - offset := List.length_drop
  by_cases hmem : '/' ∈ base.drop offset
  · obtain ⟨p, q, hsplit, hp⟩ := List.eq_append_cons_of_mem hmem
    refine .inr ⟨offset + p.length, indexOf_append hsplit hp, Nat.le_add_right _ _, ?_⟩
    have hq : base.drop (offset + p.length + 1) = q := by
      rw [Nat.add_assoc, ← List.drop_drop, hsplit]
      simp
    rw [hsplit] at hlen
    rw [hq, hsplit, Nat.add_sub_cancel_left, List.take_left, pieces_append (by omega) hp]
  · exact .inl ⟨indexOf_none hmem, pieces_of_not_mem (by omega) hmem⟩

theorem pieces_end (h : ¬offset < base.length - 1) : pieces (base.drop offset) = [""] := by
  rw [pieces, if_pos (by rw [List.length_drop]; omega)]

theorem countSplits_eq (rounds offset count : ℕ) (hrounds : base.length ≤ offset + rounds) :
    countSplits base '/' rounds offset count + 1 = count + (pieces (base.drop offset)).length := by
  induction rounds generalizing offset count with
  | zero =>
    rw [countSplits, pieces_end (by omega)]
    rfl
  | succ rounds ih =>
    rw [countSplits]
    split
    · next hlt =>
      obtain ⟨hindex, hpieces⟩ | ⟨limit, hindex, hle, hpieces⟩ := pieces_drop hlt
      · rw [hindex, hpieces]
        rfl
      · have hnext := ih (limit + 1) (count + 1) (by omega)
        simp only [hindex, Int.toNat_natCast]
        rw [if_neg (by omega), hnext, hpieces, List.length_cons]
        omega
    · next hge =>
      rw [pieces_end hge]
      rfl

theorem copySplits_end (h : ¬offset < base.length - 1) (arr : List String) :
    copySplits base value rounds offset count arr = .ok arr := by
  cases rounds with
  | zero => rfl
  | succ rounds => rw [copySplits, if_neg h]

/-- The copying loop fills the places that were counted; the last one stays empty
if the loop does not come to it. -/
theorem copySplits_eq (rounds offset : ℕ) (hrounds : base.length ≤ offset + rounds)
    (front : List String) :
    copySplits base '/' rounds offset front.length
      (front ++ List.replicate (pieces (base.drop offset)).length "") =
      .ok (front ++ pieces (base.drop offset)) := by
  induction rounds generalizing offset front with
  | zero =>
    rw [copySplits, pieces_end (by omega)]
    rfl
  | succ rounds ih =>
    by_cases hlt : offset < base.length - 1
    · rw [copySplits, if_pos hlt]
      have hroom (k : ℕ) : front.length < (front ++ List.replicate (k + 1) "").length := by simp
      obtain ⟨hindex, hpieces⟩ | ⟨limit, hindex, hle, hpieces⟩ := pieces_drop hlt
      · simp only [hindex, if_true, hpieces, List.length_cons, List.length_nil, zero_add, set_next,
          decide_eq_true (hroom 0), require_true, ok_bind]
        rw [copySplits_end (by omega), List.take_of_length_le (by rw [List.length_drop])]
        simp
      · have hnext := ih (limit + 1) (by omega)
          (front ++ [String.ofList ((base.drop offset).take (limit - offset))])
        simp only [hindex, Int.toNat_natCast, hpieces, List.length_cons, set_next,
          decide_eq_true (hroom _), require_true, ok_bind]
        rw [if_neg (by omega)]
        simp only [List.length_append, List.length_cons, List.length_nil, zero_add] at hnext
        rw [hnext, List.append_assoc]
        rfl
    · rw [copySplits_end hlt, pieces_end hlt]
      rfl

end Loops

theorem splitLoops_eq (base : String) : splitLoops base '/' = split base := by
  rw [splitLoops]
  cases hcs : base.toList with
  | nil =>
    rw [split, hcs]
    rfl
  | cons c cs =>
    have hsub : sub (c :: cs).length 1 = .ok cs.length := sub_ok.2 ⟨by simp, by simp⟩
    have hrounds : (c :: cs).length ≤ 0 + (c :: cs).length := by omega
    have hcount := countSplits_eq _ 0 1 hrounds
    have hcopy := copySplits_eq _ 0 hrounds []
    rw [List.drop_zero] at hcount hcopy
    rw [hsub, ok_bind, show countSplits (c :: cs) '/' (c :: cs).length 0 1 = (pieces (c :: cs)).length
      by omega]
    refine hcopy.trans ?_
    rw [List.nil_append, split, hcs]
    cases cs with
    | nil => rfl
    | cons c' cs => simp [pieces]

/-- Also on the empty text, which has a single piece. -/
theorem splitBTPAddressLoops_ok :
    splitBTPAddressLoops base = .ok (net, account) ↔
      (pieces base.toList)[2]? = some net ∧ (pieces base.toList)[3]? = some account := by
  rw [splitBTPAddressLoops, splitLoops_eq, split]
  split
  · next h => simp [h, pieces, bind_ok]
  · next h => simp [h, pieces, expect, bind_ok]
  · next hne hsingle =>
    have hpieces : splitLoop base.toList [] = pieces base.toList := by
      rw [pieces, if_neg]
      intro hlen
      rcases hcs : base.toList with _ | ⟨c, _ | ⟨c', cs⟩⟩
      · exact hne hcs
      · exact hsingle c hcs
      · simp [hcs] at hlen
    rw [hpieces, ok_bind]
    simp only [bind_ok, expect_ok, pure_ok, Prod.mk.injEq]
    constructor
    · rintro ⟨_, hnet, _, haccount, rfl, rfl⟩
      exact ⟨hnet, haccount⟩
    · rintro ⟨hnet, haccount⟩
      exact ⟨_, hnet, _, haccount, rfl, rfl⟩

theorem splitBTPAddressLoops_eq (base : String) : splitBTPAddressLoops base = splitBTPAddress base := by
  rw [splitBTPAddressLoops, splitLoops_eq, splitBTPAddress]
  cases split base with
  | error e => rfl
  | ok temp => rcases temp with _ | ⟨_, _ | ⟨_, _ | ⟨_, _ | ⟨_, _⟩⟩⟩⟩ <;> rfl

def fields (cs : List Char) : List (List Char) := cs.splitOn '/'

theorem fields_of_not_mem (h : '/' ∉ cs) : fields cs = [cs] := List.splitOn_eq_singleton h

theorem fields_append (h : '/' ∉ p) (q : List Char) : fields (p ++ '/' :: q) = p :: fields q :=
  List.splitOn_append_cons_self_of_not_mem h q

/-- Pieces and fields: they differ at the end only. -/
inductive Aligned : List String → List (List Char) → Prop
  | last (hf : f.length ≠ 1) : Aligned [String.ofList f] [f]
  | single (c : Char) : Aligned [""] [[c]]
  | slash : Aligned [""] [[], []]
  | cons (p : List Char) (h : Aligned ps fs) : Aligned (String.ofList p :: ps) (p :: fs)

theorem pieces_aligned (cs : List Char) : Aligned (pieces cs) (fields cs) := by
  by_cases hmem : '/' ∈ cs
  · obtain ⟨p, q, rfl, hp⟩ := List.eq_append_cons_of_mem hmem
    rw [fields_append hp]
    by_cases hlen : 1 < (p ++ '/' :: q).length
    · rw [pieces_append hlen hp]
      exact .cons p (pieces_aligned q)
    · have hnil : p = [] ∧ q = [] := by
        rw [List.length_append, List.length_cons] at hlen
        rw [← List.length_eq_zero_iff, ← List.length_eq_zero_iff]
        omega
      obtain ⟨rfl, rfl⟩ := hnil
      exact .slash
  · rw [fields_of_not_mem hmem]
    rcases cs with _ | ⟨c, _ | ⟨c', cs⟩⟩
    · exact .last (by simp)
    · exact .single c
    · rw [pieces_of_not_mem (by simp) hmem]
      exact .last (by simp)
termination_by cs.length

theorem Aligned.field (h : Aligned ps fs) (hi : ps[i]? = some piece) :
    ∃ f, fs[i]? = some f ∧ (piece = String.ofList f ∨ i + 1 = fs.length ∧ f.length = 1 ∧ piece = "") := by
  induction h generalizing i with
  | last hf =>
    cases i with
    | zero =>
      cases hi
      exact ⟨_, rfl, .inl rfl⟩
    | succ i => cases hi
  | single c =>
    cases i with
    | zero =>
      cases hi
      exact ⟨_, rfl, .inr ⟨rfl, rfl, rfl⟩⟩
    | succ i => cases hi
  | slash =>
    cases i with
    | zero =>
      cases hi
      exact ⟨_, rfl, .inl rfl⟩
    | succ i => cases hi
  | cons p h ih =>
    cases i with
    | zero =>
      cases hi
      exact ⟨_, rfl, .inl rfl⟩
    | succ i =>
      obtain ⟨f, hf, hpiece⟩ := ih hi
      refine ⟨f, hf, hpiece.imp_right fun ⟨hlast, hone, hempty⟩ => ⟨?_, hone, hempty⟩⟩
      rw [List.length_cons, hlast]

theorem Aligned.lost (h : Aligned ps fs) (hi : fs[i]? = some f) (hlast : i + 1 = fs.length)
    (hone : f.length = 1) : ps[i]? = some "" := by
  induction h generalizing i with
  | last hf =>
    obtain rfl : i = 0 := by simpa using hlast
    cases hi
    exact absurd hone hf
  | single c =>
    obtain rfl : i = 0 := by simpa using hlast
    rfl
  | slash =>
    obtain rfl : i = 1 := by simpa using hlast
    cases hi
    cases hone
  | cons p h ih =>
    cases i with
    | zero =>
      obtain rfl := List.length_eq_zero_iff.1 (by simpa using hlast.symm)
      cases h
    | succ i => exact ih hi (by simpa using hlast)

theorem pieces_btp (hnet : net ≠ "") (hnet' : '/' ∉ net.toList) :
    pieces ("btp://" ++ net ++ "/" ++ account).toList = "btp:" :: "" :: net :: pieces account.toList := by
  have hpos : 0 < net.toList.length :=
    List.length_pos_of_ne_nil fun h => hnet (String.toList_injective (by rw [h]; rfl))
  have htext : ("btp://" ++ net ++ "/" ++ account).toList =
      ['b', 't', 'p', ':'] ++ '/' :: ([] ++ '/' :: (net.toList ++ '/' :: account.toList)) := by
    simp
  rw [htext, pieces_append (by simp) (by decide), pieces_append (by simp) (by simp),
    pieces_append (by simp; omega) hnet', String.ofList_toList]

/-- The account is found, unless it is a single character. -/
theorem splitBTPAddressLoops_btp (hnet : net ≠ "") (hnet' : '/' ∉ net.toList) (haccount : account ≠ "")
    (haccount' : '/' ∉ account.toList) :
    splitBTPAddressLoops ("btp://" ++ net ++ "/" ++ account) =
      .ok (net, if account.length = 1 then "" else account) := by
  rw [splitBTPAddressLoops_ok, pieces_btp hnet hnet']
  refine ⟨rfl, ?_⟩
  have hpos : account.toList.length ≠ 0 := fun h =>
    haccount (String.toList_injective (by rw [List.length_eq_zero_iff.1 h]; rfl))
  rw [← String.length_toList]
  split
  · next hone => simp [pieces, hone]
  · next hone =>
    rw [pieces_of_not_mem (by omega) haccount', String.ofList_toList]
    rfl

/-- The returned fields are the third and the fourth one, unless the fourth one is
the last and a single character. -/
theorem splitBTPAddressLoops_fields (base : String) :
    (∀ net account, splitBTPAddressLoops base = .ok (net, account) →
      (fields base.toList)[2]? = some net.toList ∧ (fields base.toList)[3]? = some account.toList) ↔
    ¬∃ c, (fields base.toList)[3]? = some [c] ∧ (fields base.toList).length = 4 := by
  have haligned := pieces_aligned base.toList
  simp only [splitBTPAddressLoops_ok]
  constructor
  · rintro hall ⟨c, hc, hlen⟩
    have hlost := haligned.lost hc hlen.symm rfl
    obtain ⟨hlt, -⟩ := List.getElem?_eq_some_iff.1 hlost
    obtain ⟨-, hfield⟩ := hall _ "" ⟨List.getElem?_eq_getElem (by omega), hlost⟩
    cases hc.symm.trans hfield
  · rintro hne net account ⟨hnet, haccount⟩
    obtain ⟨f, hf, rfl | ⟨hlast, -, -⟩⟩ := haligned.field hnet
    · obtain ⟨g, hg, rfl | ⟨hlast, hone, -⟩⟩ := haligned.field haccount
      · rw [String.toList_ofList, String.toList_ofList]
        exact ⟨hf, hg⟩
      · obtain ⟨c, rfl⟩ := List.length_eq_one_iff.1 hone
        exact absurd ⟨c, hg, hlast.symm⟩ hne
    · obtain ⟨g, hg, -⟩ := haligned.field haccount
      obtain ⟨hlt, -⟩ := List.getElem?_eq_some_iff.1 hg
      omega

/-- A BTP address is split into its network and its account if and only if the
account is not a single character, and what is returned of any text are its
third and fourth fields if and only if the text does not end with a fourth field
of a single character. -/
theorem splitBTPAddress_iff (net account base : String) :
    (net ≠ "" → account ≠ "" → '/' ∉ net.toList → '/' ∉ account.toList →
      (splitBTPAddressLoops ("btp://" ++ net ++ "/" ++ account) = .ok (net, account) ↔
        account.length ≠ 1)) ∧
    ((∀ net account, splitBTPAddressLoops base = .ok (net, account) →
        (fields base.toList)[2]? = some net.toList ∧ (fields base.toList)[3]? = some account.toList) ↔
      ¬∃ c, (fields base.toList)[3]? = some [c] ∧ (fields base.toList).length = 4) := by
  refine ⟨fun hnet haccount hnet' haccount' => ?_, splitBTPAddressLoops_fields base⟩
  rw [splitBTPAddressLoops_btp hnet hnet' haccount haccount']
  split
  · next hone => simp [hone, haccount.symm]
  · next hone => simp [hone]

theorem account_found : splitBTPAddressLoops ("btp://" ++ "0x1.icon" ++ "/" ++ "hx12") =
    .ok ("0x1.icon", "hx12") :=
  ((splitBTPAddress_iff "0x1.icon" "hx12" "").1 (by decide) (by decide) (by decide) (by decide)).2
    (by decide)

theorem account_lost : splitBTPAddressLoops "btp://0x1.icon/h" = .ok ("0x1.icon", "") ∧
    (fields "btp://0x1.icon/h".toList)[3]? = some ['h'] := by
  decide +kernel

end IconBridge.Solidity
