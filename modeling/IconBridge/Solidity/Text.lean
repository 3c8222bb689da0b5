import IconBridge.Lib.Digits
import IconBridge.Solidity.Basic

/-!
# Addresses as text

`String.split`, `String.splitBTPAddress` and `ParseAddress`. The checksum
capitals of `toString` come from a hash of the address; they are an arbitrary
function here, and `parseAddress` does not read them.
-/

namespace IconBridge.Solidity

open Lib List

theorem set_next (front : List α) (x y : α) (k : ℕ) :
    (front ++ List.replicate (k + 1) x).set front.length y = front ++ [y] ++ List.replicate k x := by
  simp [replicate_succ]

/-- The loop of `split` behind an offset, with the characters since the last
delimiter in reverse. The loop stops in front of a last piece of at most one
character, which is left empty. -/
def splitLoop : List Char → List Char → List String
  | [], piece => [String.ofList piece.reverse]
  | c :: cs, piece =>
    if c = '/' then
      String.ofList piece.reverse :: (if cs.length ≤ 1 then [""] else splitLoop cs [])
    else splitLoop cs (c :: piece)

def split (base : String) : Outcome (List String) :=
  -- `_baseBytes.length - 1` underflows on the empty string
  match base.toList with
  | [] => .error (.panic 0x11)
  | [_] => .ok [""]
  | cs => .ok (splitLoop cs [])

def splitBTPAddress (base : String) : Outcome (String × String) := do
  match ← split base with
  | _ :: _ :: net :: addr :: _ => .ok (net, addr)
  | _ => .error (.panic 0x32)

example : splitBTPAddress "btp://0x1.icon/hx00" = .ok ("0x1.icon", "hx00") := by decide
example : splitBTPAddress "btp://0x1.icon/h" = .ok ("0x1.icon", "") := by decide

/-- The value of an ASCII hexadecimal digit of either case. -/
def hexValue (c : Char) : Outcome Nat :=
  let b := c.toNat
  if b < 48 ∨ (57 < b ∧ b < 65) ∨ (70 < b ∧ b < 97) ∨ 102 < b then
    .error (.error "Invalid address")
  else if b < 65 then .ok (b - 48)
  else if 70 < b then .ok (b - 87)
  else .ok (b - 55)

def parseAddress (account : String) : Outcome Address :=
  match account.toList with
  | '0' :: 'x' :: digits => do
    require (digits.length = 40) (.error "Invalid address format")
    let nibbles ← digits.mapM hexValue
    let address := BitVec.ofNat 160 (ofDigits 16 nibbles)
    if address = 0 then
      require (digits.all (· == '0')) (.error "Invalid address")
    return address
  | _ => .error (.error "Invalid address format")

/-- The character of a nibble, `_getAsciiOffset` added. -/
def hexChar (nibble : Nat) (caps : Bool) : Char :=
  Char.ofNat (nibble + if nibble < 10 then 48 else if caps then 55 else 87)

/-- Which of the forty digits of an address the checksum capitalises. -/
abbrev Checksum := Address → Nat → Bool

def addressDigits (caps : Checksum) (account : Address) : List Char :=
  (toDigits 16 40 account.toNat).mapIdx fun i nibble => hexChar nibble (caps account i)

/-- `ParseAddress.toString` -/
def toString (caps : Checksum) (account : Address) : String :=
  String.ofList ('0' :: 'x' :: addressDigits caps account)

theorem hexValue_hexChar (h : n < 16) : hexValue (hexChar n caps) = .ok n := by
  have hall : ∀ n < 16, ∀ caps, hexValue (hexChar n caps) = .ok n := by decide
  exact hall n h caps

private theorem mapM_hexValue_mapIdx {ns : List Nat} (f : Nat → Bool) (h : ∀ n ∈ ns, n < 16) :
    (ns.mapIdx fun i n => hexChar n (f i)).mapM hexValue = .ok ns := by
  induction ns generalizing f with
  | nil => rfl
  | cons n ns ih =>
    have ih' := ih (fun i => f (i + 1)) fun m hm => h m (mem_cons_of_mem _ hm)
    rw [mapIdx_cons, mapM_cons, hexValue_hexChar (h n mem_cons_self)]
    simp only [ih', ok_bind]
    rfl

theorem addressDigits_zero : (addressDigits caps 0).all (· == '0') := by
  have hz : ∀ {k}, ∀ n ∈ toDigits 16 k 0, n = 0 := by
    intro k
    induction k with
    | zero => simp [toDigits]
    | succ k ih => simpa [toDigits, or_imp, forall_and] using ih
  simp only [addressDigits, all_eq_true, mem_mapIdx, beq_iff_eq]
  rintro c ⟨i, hi, rfl⟩
  rw [hz _ (getElem_mem hi)]
  rfl

theorem parseAddress_toString (caps : Checksum) (a : Address) :
    parseAddress (toString caps a) = .ok a := by
  have hlen : (addressDigits caps a).length = 40 := by simp [addressDigits]
  have hread : (addressDigits caps a).mapM hexValue = .ok (toDigits 16 40 a.toNat) :=
    mapM_hexValue_mapIdx _ fun _ hn => toDigits_lt (by decide) hn
  have hval : BitVec.ofNat 160 (ofDigits 16 (toDigits 16 40 a.toNat)) = a := by
    rw [ofDigits_toDigits, Nat.mod_eq_of_lt (by simpa using a.isLt), BitVec.ofNat_toNat,
      BitVec.setWidth_eq]
  simp only [parseAddress, toString, String.toList_ofList, hlen, decide_true, require_true, hread,
    ok_bind, hval]
  split
  · next h =>
    subst h
    rw [addressDigits_zero, require_true, ok_bind]
    rfl
  · rfl

theorem toString_injective (caps : Checksum) : Function.Injective (toString caps) := by
  intro a b h
  have ha := parseAddress_toString caps a
  rw [h, parseAddress_toString] at ha
  exact (Except.ok.inj ha).symm

end IconBridge.Solidity
