/-
# The GovernanceRouter

The router of the governor's domain holds the governor, who may call contracts on
every chain, hand the role to an account of any domain, and change the table of
routers. The routers of the other domains learn of this through messages of the
router they take for the governor's, and of no other. A recovery manager takes the
place of the governor once a timelock has run out.

`domains` lists the domains with a router. A removed domain leaves a zero behind in
the list.

A call answers with the new router and the messages it dispatches.
-/

import Optics.Governance.GovernanceMessage

namespace Optics

open Optics.Solidity

variable {Byte : Type}

/-- The storage of a GovernanceRouter, with its immutables. -/
structure GovernanceRouter (Byte : Type) where
  localDomain : UInt32
  recoveryTimelock : ℕ
  initialized : Bool
  recoveryActiveAt : ℕ
  recoveryManager : Address Byte
  governor : Address Byte
  governorDomain : UInt32
  xAppConnectionManager : Address Byte
  routers : UInt32 → Bytes32 Byte
  domains : List UInt32

namespace GovernanceRouter

/-- What a call hands to `dispatch` of Home. -/
structure Dispatch (Byte : Type) where
  destination : UInt32
  recipient : Bytes32 Byte
  body : List Byte

/-- What a call reads from outside: the sender and the time; what the
XAppConnectionManager at an address answers, that is whether the sender is a Replica,
whether its Home accepts a message, and its domain; and what the call of a contract
does, or `none` if it fails. A contract that is called may call back. -/
structure Context (Byte : Type) where
  sender : Address Byte
  timestamp : ℕ
  isReplica : Address Byte → Bool
  homeAccepts : Address Byte → List Byte → Bool
  managerDomain : Address Byte → UInt32
  call : GovernanceMessage.Call Byte → GovernanceRouter Byte →
    Option (GovernanceRouter Byte × List (Dispatch Byte))

/-- The functions that change the state. -/
inductive Call (Byte : Type)
  | init (xAppConnectionManager recoveryManager : Address Byte)
  | handle (origin : UInt32) (sender : Bytes32 Byte) (message : List Byte)
  | callLocal (calls : List (GovernanceMessage.Call Byte))
  | callRemote (destination : UInt32) (calls : List (GovernanceMessage.Call Byte))
  | transferGovernor (newDomain : UInt32) (newGovernor : Address Byte)
  | transferRecoveryManager (newRecoveryManager : Address Byte)
  | setRouter (domain : UInt32) (router : Bytes32 Byte)
  | setRouterLocal (domain : UInt32) (router : Bytes32 Byte)
  | setXAppConnectionManager (xAppConnectionManager : Address Byte)
  | initiateRecoveryTimelock
  | exitRecovery

/-- `dispatch` of Home. -/
def dispatch (ctx : Context Byte) (_destination : UInt32) (_router : Bytes32 Byte)
    (_msg : List Byte) (router : GovernanceRouter Byte) : Except Revert (Dispatch Byte) :=
  if ctx.homeAccepts router.xAppConnectionManager _msg then .ok ⟨_destination, _router, _msg⟩
  else .error (.external "Home")

/-- `inRecovery`. -/
def inRecovery (timestamp : ℕ) (router : GovernanceRouter Byte) : Bool :=
  router.recoveryActiveAt ≠ 0 ∧ router.recoveryActiveAt ≤ timestamp

/-- `_isLocalDomain`. -/
def _isLocalDomain (_domain : UInt32) (router : GovernanceRouter Byte) : Bool :=
  _domain = router.localDomain

variable [DecidableEq Byte]

/-- `_isGovernorRouter`. -/
def _isGovernorRouter (_domain : UInt32) (_address : Bytes32 Byte)
    (router : GovernanceRouter Byte) : Bool :=
  _domain = router.governorDomain ∧ _address = router.routers _domain

/-! ### Modifiers -/

/-- `modifier onlyReplica`. -/
def onlyReplica (ctx : Context Byte) (router : GovernanceRouter Byte) : Except Revert Unit :=
  require (ctx.isReplica router.xAppConnectionManager) "!replica"

/-- `modifier onlyGovernorRouter`. -/
def onlyGovernorRouter (_domain : UInt32) (_address : Bytes32 Byte)
    (router : GovernanceRouter Byte) : Except Revert Unit :=
  require (router._isGovernorRouter _domain _address) "!governorRouter"

/-- `modifier onlyGovernor`. -/
def onlyGovernor (ctx : Context Byte) (router : GovernanceRouter Byte) : Except Revert Unit :=
  require (ctx.sender = router.governor) "! called by governor"

/-- `modifier onlyRecoveryManager`. -/
def onlyRecoveryManager (ctx : Context Byte) (router : GovernanceRouter Byte) :
    Except Revert Unit :=
  require (ctx.sender = router.recoveryManager) "! called by recovery manager"

/-- `modifier onlyNotInRecovery`. -/
def onlyNotInRecovery (ctx : Context Byte) (router : GovernanceRouter Byte) :
    Except Revert Unit :=
  require (¬ router.inRecovery ctx.timestamp) "in recovery"

/-- `modifier onlyGovernorOrRecoveryManager`. -/
def onlyGovernorOrRecoveryManager (ctx : Context Byte) (router : GovernanceRouter Byte) :
    Except Revert Unit :=
  if router.inRecovery ctx.timestamp then onlyRecoveryManager ctx router
  else onlyGovernor ctx router

variable [ByteAlphabet Byte]

/-! ### Internal functions -/

/-- `_mustHaveRouter`. -/
def _mustHaveRouter (_domain : UInt32) (router : GovernanceRouter Byte) :
    Except Revert (Bytes32 Byte) := do
  let _router := router.routers _domain
  require (_router ≠ 0) "!router"
  .ok _router

/-- `_addDomain`. -/
def _addDomain (_domain : UInt32) (router : GovernanceRouter Byte) : GovernanceRouter Byte :=
  { router with domains := router.domains ++ [_domain] }

/-- `_removeDomain`. -/
def _removeDomain (_domain : UInt32) (router : GovernanceRouter Byte) : GovernanceRouter Byte :=
  { router with
    routers := Function.update router.routers _domain 0
    domains := router.domains.replace _domain 0 }

/-- `_setRouter`. -/
def _setRouter (_domain : UInt32) (_newRouter : Bytes32 Byte) (router : GovernanceRouter Byte) :
    GovernanceRouter Byte :=
  let _previousRouter := router.routers _domain
  if _newRouter = 0 then router._removeDomain _domain
  else
    let router := if _previousRouter = 0 then router._addDomain _domain else router
    { router with routers := Function.update router.routers _domain _newRouter }

/-- `_transferGovernor`. -/
def _transferGovernor (_newDomain : UInt32) (_newGovernor : Address Byte)
    (_isLocalGovernor : Bool) (router : GovernanceRouter Byte) :
    Except Revert (GovernanceRouter Byte) := do
  if ¬ _isLocalGovernor then
    let _ ← _mustHaveRouter _newDomain router
  .ok { router with
    governorDomain := _newDomain
    governor := if _isLocalGovernor then _newGovernor else 0 }

/-- The loop of `_sendToAllRemoteRouters` over a list of domains. -/
def sendTo (ctx : Context Byte) (_msg : List Byte) (router : GovernanceRouter Byte) :
    List UInt32 → Except Revert (List (Dispatch Byte))
  | [] => .ok []
  | d :: rest => do
    if d ≠ 0 then
      let message ← dispatch ctx d (router.routers d) _msg router
      let messages ← sendTo ctx _msg router rest
      .ok (message :: messages)
    else sendTo ctx _msg router rest

/-- `_sendToAllRemoteRouters`. -/
def _sendToAllRemoteRouters (ctx : Context Byte) (_msg : List Byte)
    (router : GovernanceRouter Byte) : Except Revert (List (Dispatch Byte)) :=
  sendTo ctx _msg router router.domains

/-- `_dispatchCall` of every call of a list. -/
def dispatchCalls (ctx : Context Byte) :
    List (GovernanceMessage.Call Byte) → GovernanceRouter Byte →
      Except Revert (GovernanceRouter Byte × List (Dispatch Byte))
  | [], router => .ok (router, [])
  | call :: rest, router =>
    match ctx.call call router with
    | none => .error (.require "call failed")
    | some (router, sent) => do
      let (router, more) ← dispatchCalls ctx rest router
      .ok (router, sent ++ more)

/-! ### Handling messages -/

/-- `_handleCall`. -/
def _handleCall (ctx : Context Byte) (_msg : Option (View Byte)) (router : GovernanceRouter Byte) :
    Except Revert (GovernanceRouter Byte × List (Dispatch Byte)) := do
  let _msg ← View.assertValid _msg
  GovernanceMessage.typeAssert _msg .Call
  let _calls ← GovernanceMessage.getCalls _msg
  dispatchCalls ctx _calls router

/-- `_handleTransferGovernor`. -/
def _handleTransferGovernor (_msg : Option (View Byte)) (router : GovernanceRouter Byte) :
    Except Revert (GovernanceRouter Byte) := do
  let _msg ← View.assertValid _msg
  GovernanceMessage.typeAssert _msg .TransferGovernor
  let _newDomain ← GovernanceMessage.domain _msg
  let _newGovernor ← GovernanceMessage.governor _msg
  _transferGovernor _newDomain (bytes32ToAddress _newGovernor)
    (router._isLocalDomain _newDomain) router

/-- `_handleSetRouter`. -/
def _handleSetRouter (_msg : Option (View Byte)) (router : GovernanceRouter Byte) :
    Except Revert (GovernanceRouter Byte) := do
  let _msg ← View.assertValid _msg
  GovernanceMessage.typeAssert _msg .SetRouter
  let _domain ← GovernanceMessage.domain _msg
  let _router ← GovernanceMessage.router _msg
  .ok (router._setRouter _domain _router)

/-- `handle`. -/
def handle (ctx : Context Byte) (_origin : UInt32) (_sender : Bytes32 Byte)
    (_message : List Byte) (router : GovernanceRouter Byte) :
    Except Revert (GovernanceRouter Byte × List (Dispatch Byte)) := do
  onlyReplica ctx router
  onlyGovernorRouter _origin _sender router
  let _msg := View.ref _message 0
  if ← GovernanceMessage.isValidCall _msg then
    let _call ← GovernanceMessage.tryAsCall _msg
    _handleCall ctx _call router
  else if ← GovernanceMessage.isValidTransferGovernor _msg then
    let _transfer ← GovernanceMessage.tryAsTransferGovernor _msg
    let router ← _handleTransferGovernor _transfer router
    .ok (router, [])
  else if ← GovernanceMessage.isValidSetRouter _msg then
    let _set ← GovernanceMessage.tryAsSetRouter _msg
    let router ← _handleSetRouter _set router
    .ok (router, [])
  else .error (.require "!valid message type")

/-! ### Functions of the governor -/

/-- `callLocal`. -/
def callLocal (ctx : Context Byte) (_calls : List (GovernanceMessage.Call Byte))
    (router : GovernanceRouter Byte) :
    Except Revert (GovernanceRouter Byte × List (Dispatch Byte)) := do
  onlyGovernorOrRecoveryManager ctx router
  dispatchCalls ctx _calls router

/-- `callRemote`. -/
def callRemote (ctx : Context Byte) (_destination : UInt32)
    (_calls : List (GovernanceMessage.Call Byte)) (router : GovernanceRouter Byte) :
    Except Revert (GovernanceRouter Byte × List (Dispatch Byte)) := do
  onlyGovernor ctx router
  onlyNotInRecovery ctx router
  let _router ← _mustHaveRouter _destination router
  let message ← dispatch ctx _destination _router (GovernanceMessage.formatCalls _calls) router
  .ok (router, [message])

/-- `transferGovernor`. The other routers are told only when the domain changes. -/
def transferGovernor (ctx : Context Byte) (_newDomain : UInt32) (_newGovernor : Address Byte)
    (router : GovernanceRouter Byte) :
    Except Revert (GovernanceRouter Byte × List (Dispatch Byte)) := do
  onlyGovernor ctx router
  onlyNotInRecovery ctx router
  let _isLocalGovernor := router._isLocalDomain _newDomain
  let router ← _transferGovernor _newDomain _newGovernor _isLocalGovernor router
  if _isLocalGovernor then .ok (router, [])
  else
    let _transferGovernorMessage ←
      GovernanceMessage.formatTransferGovernor _newDomain (addressToBytes32 _newGovernor)
    let sent ← _sendToAllRemoteRouters ctx _transferGovernorMessage router
    .ok (router, sent)

/-- `setRouter`. -/
def setRouter (ctx : Context Byte) (_domain : UInt32) (_router : Bytes32 Byte)
    (router : GovernanceRouter Byte) :
    Except Revert (GovernanceRouter Byte × List (Dispatch Byte)) := do
  onlyGovernor ctx router
  onlyNotInRecovery ctx router
  let router := router._setRouter _domain _router
  let _setRouterMessage ← GovernanceMessage.formatSetRouter _domain _router
  let sent ← _sendToAllRemoteRouters ctx _setRouterMessage router
  .ok (router, sent)

/-- `setRouterLocal`. -/
def setRouterLocal (ctx : Context Byte) (_domain : UInt32) (_router : Bytes32 Byte)
    (router : GovernanceRouter Byte) :
    Except Revert (GovernanceRouter Byte × List (Dispatch Byte)) := do
  onlyGovernorOrRecoveryManager ctx router
  .ok (router._setRouter _domain _router, [])

/-- `setXAppConnectionManager`. -/
def setXAppConnectionManager (ctx : Context Byte) (_xAppConnectionManager : Address Byte)
    (router : GovernanceRouter Byte) : Except Revert (GovernanceRouter Byte) := do
  onlyGovernorOrRecoveryManager ctx router
  .ok { router with xAppConnectionManager := _xAppConnectionManager }

/-! ### Recovery -/

/-- `transferRecoveryManager`. -/
def transferRecoveryManager (ctx : Context Byte) (_newRecoveryManager : Address Byte)
    (router : GovernanceRouter Byte) :
    Except Revert (GovernanceRouter Byte × List (Dispatch Byte)) := do
  onlyRecoveryManager ctx router
  .ok ({ router with recoveryManager := _newRecoveryManager }, [])

/-- `initiateRecoveryTimelock`. -/
def initiateRecoveryTimelock (ctx : Context Byte) (router : GovernanceRouter Byte) :
    Except Revert (GovernanceRouter Byte × List (Dispatch Byte)) := do
  onlyNotInRecovery ctx router
  onlyRecoveryManager ctx router
  require (router.recoveryActiveAt = 0) "recovery already initiated"
  require (ctx.timestamp + router.recoveryTimelock < 2 ^ 256) "SafeMath: addition overflow"
  .ok ({ router with recoveryActiveAt := ctx.timestamp + router.recoveryTimelock }, [])

/-- `exitRecovery`. -/
def exitRecovery (ctx : Context Byte) (router : GovernanceRouter Byte) :
    Except Revert (GovernanceRouter Byte × List (Dispatch Byte)) := do
  onlyRecoveryManager ctx router
  require (router.recoveryActiveAt ≠ 0) "recovery not initiated"
  .ok ({ router with recoveryActiveAt := 0 }, [])

/-! ### Initialization and calls -/

/-- `constructor`: the storage of a new router. -/
def deploy (_localDomain : UInt32) (_recoveryTimelock : ℕ) : GovernanceRouter Byte where
  localDomain := _localDomain
  recoveryTimelock := _recoveryTimelock
  initialized := false
  recoveryActiveAt := 0
  recoveryManager := 0
  governor := 0
  governorDomain := 0
  xAppConnectionManager := 0
  routers _ := 0
  domains := []

/-- `initialize`: the sender becomes the governor. -/
def init (ctx : Context Byte) (_xAppConnectionManager _recoveryManager : Address Byte)
    (router : GovernanceRouter Byte) :
    Except Revert (GovernanceRouter Byte × List (Dispatch Byte)) := do
  require (¬ router.initialized) "Initializable: contract is already initialized"
  let router ← _transferGovernor router.localDomain ctx.sender true
    { router with initialized := true }
  let router ← setXAppConnectionManager ctx _xAppConnectionManager
    { router with recoveryManager := _recoveryManager }
  require (ctx.managerDomain router.xAppConnectionManager = router.localDomain)
    "XAppConnectionManager bad domain"
  .ok (router, [])

/-- One call. -/
def exec (ctx : Context Byte) :
    Call Byte → GovernanceRouter Byte →
      Except Revert (GovernanceRouter Byte × List (Dispatch Byte))
  | .init manager recoveryManager => init ctx manager recoveryManager
  | .handle origin sender message => handle ctx origin sender message
  | .callLocal calls => callLocal ctx calls
  | .callRemote destination calls => callRemote ctx destination calls
  | .transferGovernor newDomain newGovernor => transferGovernor ctx newDomain newGovernor
  | .transferRecoveryManager newManager => transferRecoveryManager ctx newManager
  | .setRouter domain newRouter => setRouter ctx domain newRouter
  | .setRouterLocal domain newRouter => setRouterLocal ctx domain newRouter
  | .setXAppConnectionManager manager => fun router => do
    let router ← setXAppConnectionManager ctx manager router
    .ok (router, [])
  | .initiateRecoveryTimelock => initiateRecoveryTimelock ctx
  | .exitRecovery => exitRecovery ctx

end GovernanceRouter

end Optics
