import IconBridge.Near.BTS.State

/-!
# BTP addresses

An address is a text such as `btp://0x1.icon/cx12`. Arguments and messages hold
only addresses that were validated; the message center also writes addresses of
its own, which are not.
-/

namespace IconBridge.Near.BMC

open Lib List

structure BTPAddress where
  string : String
  deriving DecidableEq, Repr

/-- The text before the first `://`, and the text from there on -/
def splitScheme : List Char → Option (List Char × List Char)
  | [] => none
  | ':' :: '/' :: '/' :: cs => some ([], ':' :: '/' :: '/' :: cs)
  | c :: cs => (splitScheme cs).map fun x => (c :: x.1, x.2)

/-- `split("/")` -/
def splitSlash : List Char → List (List Char)
  | [] => [[]]
  | c :: cs => if c = '/' then [] :: splitSlash cs else (splitSlash cs).modifyHead (c :: ·)

theorem splitSlash_append (h : '/' ∉ cs) :
    splitSlash (cs ++ '/' :: rest) = cs :: splitSlash rest := by
  induction cs with
  | nil => simp [splitSlash]
  | cons c cs ih =>
    obtain ⟨hc, hcs⟩ : '/' ≠ c ∧ '/' ∉ cs := by simpa using h
    simp [splitSlash, hc.symm, ih hcs]

theorem noSlash_of_mem_splitSlash (h : s ∈ splitSlash cs) : '/' ∉ s := by
  induction cs generalizing s with
  | nil =>
    obtain rfl := mem_singleton.1 h
    simp
  | cons c cs ih =>
    simp only [splitSlash] at h
    split at h
    · rcases mem_cons.1 h with rfl | h
      · simp
      · exact ih h
    · next hc =>
      cases hcs : splitSlash cs with
      | nil => simp [hcs] at h
      | cons w ws =>
        rw [hcs] at h ih
        rcases mem_cons.1 h with rfl | h
        · simpa [Ne.symm hc] using ih mem_cons_self
        · exact ih (mem_cons_of_mem _ h)

namespace BTPAddress

def protocol (a : BTPAddress) : Except String (List Char × List Char) :=
  match splitScheme a.string.toList with
  | some (c :: cs, rest) => .ok (c :: cs, rest)
  | _ => .error "invalid btp address"

def networkAddress (a : BTPAddress) : Except String String := do
  let (_, network) ← a.protocol
  match (splitSlash network)[2]? with
  | some s => return String.ofList s
  | none => throw "empty network address"

def contractAddress (a : BTPAddress) : Except String String := do
  let (_, network) ← a.protocol
  match (splitSlash network)[3]? with
  | some s => if s = [] then throw "empty contract address" else return String.ofList s
  | none => throw "empty contract address"

/-- `validate_btp_address` -/
def validate (a : BTPAddress) : Except String Unit := do
  let (protocol, _) ← a.protocol
  let _ ← require (protocol = ['b', 't', 'p'])
    ("not supported protocol " ++ String.ofList protocol)
  let _ ← a.contractAddress
  return ()

def Valid (a : BTPAddress) : Prop := a.validate = .ok ()

instance (a : BTPAddress) : Decidable a.Valid := inferInstanceAs (Decidable (a.validate = .ok ()))

theorem noSlash_of_networkAddress {a : BTPAddress} (h : a.networkAddress = .ok network) :
    '/' ∉ network.toList := by
  simp only [networkAddress, bind_ok] at h
  obtain ⟨_, -, h⟩ := h
  split at h
  · next s hs =>
    cases h
    rw [String.toList_ofList]
    exact noSlash_of_mem_splitSlash (mem_of_getElem? hs)
  · contradiction

end BTPAddress

/-- The address a message of a service is sent to before its route is known -/
def serviceAddress (network : String) : BTPAddress := ⟨"btp://" ++ network ++ "/0"⟩

theorem serviceAddress_network (h : '/' ∉ network.toList) :
    (serviceAddress network).networkAddress = .ok network := by
  have hscheme : splitScheme (serviceAddress network).string.toList =
      some (['b', 't', 'p'], "://".toList ++ (network.toList ++ ['/', '0'])) := by
    simp [serviceAddress, splitScheme]
  have hsplit : splitSlash ("://".toList ++ (network.toList ++ ['/', '0'])) =
      [[':'], [], network.toList, ['0']] := by
    simp [splitSlash, splitSlash_append h]
  simp only [BTPAddress.networkAddress, BTPAddress.protocol, hscheme, ok_bind, hsplit]
  simp [pure, Except.pure]

end IconBridge.Near.BMC
