import IconBridge.Solidity.BMC.Dispatch

/-!
# The owners' side of an EVM message center

The functions of `BMCManagement` that owners call: links, routes, services and
the heights from which links are read. A new or removed link is announced to
the other links through `BMCPeriphery`.
-/

namespace IconBridge.Solidity.BMC

open Lib Function

variable {W B : Type}

/-- The lists of names that `BMCManagement` keeps beside the storage that
messages use. -/
structure Management (W B : Type) extends St W B where
  listBSHNames : List String := []
  listRouteKeys : List String := []
  listLinkNames : List String := []

/-- After `initialize`: nothing is connected. -/
def Management.fresh (world : W) : Management W B where
  links _ := {}
  world := world

/-- The encoders of the messages between message centers. -/
structure InternalCodec (B : Type) where
  encodePropagate : (serviceType link : String) → B
  encodeLinks : (serviceType : String) → List String → B

/-- `Utils.remove`: the first match is overwritten by the last entry, which is
then dropped. -/
def remove (arr : List String) (str : String) : List String :=
  match arr.findIdx? (· = str) with
  | none => arr
  | some i => (arr.set i (arr.getLastD "")).dropLast

def sendTo (c : Config W B) (s : St W B) (link : String) (msg : B) : Outcome (St W B) := do
  let (net, _) ← splitBTPAddress link
  sendMessage c c.bmcManagement s { target := net, svc := "bmc", sn := 0, msg }

def propagateInternal (c : Config W B) (e : InternalCodec B) (names : List String) (s : St W B)
    (serviceType link : String) : Outcome (St W B) :=
  names.foldlM (fun s name =>
    if (s.links name).isConnected then sendTo c s name (e.encodePropagate serviceType link)
    else .ok s) s

def sendInternal (c : Config W B) (e : InternalCodec B) (s : St W B) (target serviceType : String)
    (links : List String) : Outcome (St W B) :=
  sendTo c s target (e.encodeLinks serviceType links)

def addLink (c : Config W B) (e : InternalCodec B) (s : Management W B) (sender : Address)
    (link : String) : Outcome (Management W B) := do
  require (c.isOwner sender) (.error "Unauthorized")
  let (net, _) ← splitBTPAddress link
  require (!(s.links link).isConnected) (.error "AlreadyExistsLink")
  let t := setLink s.toSt link { isConnected := true }
  let t ← propagateInternal c e s.listLinkNames t "Link" link
  -- the names before this one are what the new link can reach
  let t := { t with getLinkFromNet := update t.getLinkFromNet net link }
  let t ← sendInternal c e t link "Init" s.listLinkNames
  return { s with toSt := t, listLinkNames := s.listLinkNames ++ [link] }

/-- The link is forgotten before its removal is announced; routes over it and
what was reachable through it stay. -/
def removeLink (c : Config W B) (e : InternalCodec B) (s : Management W B) (sender : Address)
    (link : String) : Outcome (Management W B) := do
  require (c.isOwner sender) (.error "Unauthorized")
  require (s.links link).isConnected (.error "NotExistsLink")
  let t := setLink s.toSt link {}
  let (net, _) ← splitBTPAddress link
  let t := { t with getLinkFromNet := update t.getLinkFromNet net "" }
  let t ← propagateInternal c e s.listLinkNames t "Unlink" link
  return { s with toSt := t, listLinkNames := remove s.listLinkNames link }

def setLinkRxHeight (c : Config W B) (s : Management W B) (sender : Address) (link : String)
    (height : Nat) : Outcome (Management W B) := do
  require (c.isOwner sender) (.error "Unauthorized")
  require (s.links link).isConnected (.error "NotExistsLink")
  require (0 < height) (.error "InvalidRxHeight")
  return { s with toSt := setLink s.toSt link { s.links link with rxHeight := height } }

/-- Both addresses must be readable; the link need not be connected. -/
def addRoute (c : Config W B) (s : Management W B) (sender : Address) (dst link : String) :
    Outcome (Management W B) := do
  require (c.isOwner sender) (.error "Unauthorized")
  require (s.routes dst = "") (.error "AlreadyExistRoute")
  let (net, _) ← splitBTPAddress dst
  let _ ← splitBTPAddress link
  return { s with
    routes := update s.routes dst link
    listRouteKeys := s.listRouteKeys ++ [dst]
    getRouteDstFromNet := update s.getRouteDstFromNet net dst }

def removeRoute (c : Config W B) (s : Management W B) (sender : Address) (dst : String) :
    Outcome (Management W B) := do
  require (c.isOwner sender) (.error "Unauthorized")
  require (s.routes dst ≠ "") (.error "NotExistRoute")
  let (net, _) ← splitBTPAddress dst
  return { s with
    routes := update s.routes dst ""
    getRouteDstFromNet := update s.getRouteDstFromNet net ""
    listRouteKeys := remove s.listRouteKeys dst }

def addService (c : Config W B) (s : Management W B) (sender : Address) (svc : String)
    (addr : Address) : Outcome (Management W B) := do
  require (c.isOwner sender) (.error "Unauthorized")
  require (addr ≠ 0) (.error "InvalidAddress")
  require (s.bshServices svc = 0) (.error "AlreadyExistsBSH")
  return { s with
    bshServices := update s.bshServices svc addr
    listBSHNames := s.listBSHNames ++ [svc] }

def removeService (c : Config W B) (s : Management W B) (sender : Address) (svc : String) :
    Outcome (Management W B) := do
  require (c.isOwner sender) (.error "Unauthorized")
  require (s.bshServices svc ≠ 0) (.error "NotExistsBSH")
  return { s with
    bshServices := update s.bshServices svc 0
    listBSHNames := remove s.listBSHNames svc }

inductive ManagementTx (W B : Type)
  /-- Messages, relays and service calls -/
  | periphery (tx : Tx W B)
  | addLink (sender : Address) (link : String)
  | removeLink (sender : Address) (link : String)
  | setLinkRxHeight (sender : Address) (link : String) (height : Nat)
  | addRoute (sender : Address) (dst link : String)
  | removeRoute (sender : Address) (dst : String)
  | addService (sender : Address) (svc : String) (addr : Address)
  | removeService (sender : Address) (svc : String)

def manage (c : Config W B) (e : InternalCodec B) (s : Management W B) :
    ManagementTx W B → Outcome (Management W B)
  | .periphery tx => do
    let t ← step c s.toSt tx
    return { s with toSt := t }
  | .addLink sender link => addLink c e s sender link
  | .removeLink sender link => removeLink c e s sender link
  | .setLinkRxHeight sender link height => setLinkRxHeight c s sender link height
  | .addRoute sender dst link => addRoute c s sender dst link
  | .removeRoute sender dst => removeRoute c s sender dst
  | .addService sender svc addr => addService c s sender svc addr
  | .removeService sender svc => removeService c s sender svc

end IconBridge.Solidity.BMC
