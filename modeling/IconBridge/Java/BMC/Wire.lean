import IconBridge.Lib.RLP
import IconBridge.Java.Token.Payload
import IconBridge.Java.BMC.State

/-!
# `BTPMessage` in bytes

The fields are written in RLP, a `null` as an empty long list. A serial number
is an integer in two's complement.
-/

namespace IconBridge.Java.BMC

open Lib List

def nullBytes : Bytes := [0xf8, 0x00]

/-- `writeNullable` -/
def writeNullable (x : Option Bytes) : Bytes := x.elim nullBytes RLP.encodeString

/-- `BTPMessage.toBytes` -/
def writeBTPMessage (m : BTPMessage Bytes) : Bytes :=
  let payload := writeNullable (m.src.map fun a => utf8 a.toString)
    ++ writeNullable (m.dst.map fun a => utf8 a.toString)
    ++ writeNullable (m.svc.map utf8)
    ++ writeNullable (m.sn.map Token.toByteArray)
    ++ writeNullable m.payload
  RLP.head 0xc0 payload.length ++ payload

/-- `LinkMessage.toBytes`, with the bytes of the text of the address. -/
def writeLinkMessage (link : Option Bytes) : Bytes :=
  let payload := writeNullable link
  RLP.head 0xc0 payload.length ++ payload

def illegalState : Exc := .other "IllegalStateException"

def readNullable (bs : Bytes) : Outcome (Option Bytes × Bytes) :=
  match RLP.readString bs with
  | some (x, rest) => .ok (some x, rest)
  | none => if bs.take 2 = nullBytes then .ok (none, bs.drop 2) else .error illegalState

def readText (bs : Bytes) : Outcome String := (ofUtf8 bs).elim (.error illegalState) .ok

def readInteger (bs : Bytes) : Outcome ℤ :=
  if bs = [] then .error (.other "NumberFormatException") else .ok (signed bs)

/-- `BTPMessage.fromBytes` -/
def readBTPMessage (valueOf : String → Outcome BTPAddress) (bs : Bytes) :
    Outcome (BTPMessage Bytes) :=
  match RLP.readList bs with
  | none => .error illegalState
  | some (payload, _) => do
    let (src, rest) ← readNullable payload
    let src ← src.mapM fun bs => do valueOf (← readText bs)
    let (dst, rest) ← readNullable rest
    let dst ← dst.mapM fun bs => do valueOf (← readText bs)
    let (svc, rest) ← readNullable rest
    let svc ← svc.mapM readText
    let (sn, rest) ← readNullable rest
    let sn ← sn.mapM readInteger
    let (payload, _) ← readNullable rest
    return { src, dst, svc, sn, payload }

theorem readNullable_encodeString (h : bs.length < 2 ^ 64) :
    readNullable (RLP.encodeString bs ++ rest) = .ok (some bs, rest) := by
  rw [readNullable, RLP.readString_encodeString h]

theorem readText_utf8 : readText (utf8 str) = .ok str := by
  rw [readText, ofUtf8_utf8]
  rfl

theorem readBTPMessage_encodeList {valueOf : String → Outcome BTPAddress} {src dst svc : String}
    {sn payload : Bytes} (hsn : sn ≠ [])
    (hlen : ([utf8 src, utf8 dst, utf8 svc, sn, payload].flatMap RLP.encodeString).length < 2 ^ 64)
    (hsrc : valueOf src = .ok srcAddr) (hdst : valueOf dst = .ok dstAddr) :
    readBTPMessage valueOf (RLP.encodeList [utf8 src, utf8 dst, utf8 svc, sn, payload]) =
      .ok { src := some srcAddr, dst := some dstAddr, svc := some svc, sn := some (signed sn),
            payload := some payload } := by
  have hfields : ∀ bs ∈ [utf8 src, utf8 dst, utf8 svc, sn, payload], bs.length < 2 ^ 64 :=
    fun bs hbs => RLP.length_lt_of_mem hbs hlen
  simp only [forall_mem_cons, not_mem_nil, false_imp_iff, implies_true, and_true] at hfields
  obtain ⟨h1, h2, h3, h4, h5⟩ := hfields
  rw [readBTPMessage, RLP.readList_encodeList hlen]
  simp only [flatMap_cons, flatMap_nil, readNullable_encodeString h1,
    readNullable_encodeString h2, readNullable_encodeString h3, readNullable_encodeString h4,
    readNullable_encodeString h5, ok_bind, Option.mapM_some, readText_utf8, hsrc, hdst, readInteger,
    if_neg hsn]
  rfl

end IconBridge.Java.BMC
