/-
# Upgrade beacons, their controller and their proxies

A proxy keeps the address of a beacon in its code and runs every call, by a
delegate call, with the implementation that the beacon answers. A beacon answers
its implementation to everybody except its controller, whose calls set a new one.
The beacon controller lets its owner upgrade any beacon.

The three contracts are written as code of the machine of contracts that call each
other, down to the bytes of calldata and of reverts. An account has the variables
these contracts declare and, for every other contract, whatever it keeps. Contracts are
created between transactions and never destroyed; calls carry no value and no gas.
-/

import Optics.Solidity.Basic
import Optics.Math.Calls

namespace Optics.Upgradable

open Optics.Solidity Optics.Math.Calls

variable {Byte : Type} {κ ε : Type}

/-- The storage of an account: `implementation` of a beacon, `_owner` of an ownable
contract, and the variables of the others. -/
structure Storage (Byte κ : Type) where
  implementation : Address Byte
  _owner : Address Byte
  rest : κ

/-- The events of the three contracts, and those of the others. -/
inductive Event (Byte ε : Type)
  | Upgrade (implementation : Address Byte)
  | BeaconUpgraded (beacon implementation : Address Byte)
  | OwnershipTransferred (previousOwner newOwner : Address Byte)
  | other (event : ε)
  deriving DecidableEq

/-- Code over these accounts. -/
abbrev ContractCode (Byte κ ε : Type) :=
  Code (Address Byte) Byte (Storage Byte κ) (Event Byte ε)

/-- Programs over these accounts. -/
abbrev ContractProgram (Byte κ ε : Type) :=
  Program (Address Byte) Byte (Storage Byte κ) (Event Byte ε)

variable [ByteAlphabet Byte]

/-! ### Calldata -/

/-- The word of the calldata at an offset. What is missing reads as zero. -/
def wordAt (offset : ℕ) (data : List Byte) : Bytes32 Byte :=
  ⟨(data.drop offset ++ List.replicate 32 (ofByte 0)).take 32, by simp⟩

/-- `abi.encode` of an address. -/
def abiEncode (a : Address Byte) : List Byte := (addressToBytes32 a).toList

/-- `abi.decode(_, (address))`. -/
def abiDecode (data : List Byte) : Option (Address Byte) :=
  if 32 ≤ data.length then some (bytes32ToAddress (wordAt 0 data)) else none

/-- The call data of a function with a selector and address arguments. -/
def abiCall (selector : List UInt8) (arguments : List (Address Byte)) : List Byte :=
  selector.map ofByte ++ arguments.flatMap abiEncode

/-- The revert data `Error(reason)`. -/
def errorString (reason : List Byte) : List Byte :=
  [0x08, 0xc3, 0x79, 0xa0].map ofByte ++ uintBytes 32 32 ++ uintBytes 32 reason.length ++ reason ++
    List.replicate ((32 - reason.length % 32) % 32) (ofByte 0)

@[simp] theorem length_abiEncode (a : Address Byte) : (abiEncode a).length = 32 := by
  simp [abiEncode]

theorem wordAt_append (front : List Byte) (w : Bytes32 Byte) (back : List Byte) :
    wordAt front.length (front ++ w.toList ++ back) = w := by
  apply List.Vector.eq
  have hlength : w.toList.length = 32 := w.toList_length
  change List.take 32 (List.drop front.length (front ++ w.toList ++ back) ++ _) = w.toList
  rw [List.append_assoc, List.drop_left, List.append_assoc,
    List.take_append_of_le_length (by omega), List.take_of_length_le (by omega)]

theorem wordAt_abiEncode (a : Address Byte) : wordAt 0 (abiEncode a) = addressToBytes32 a := by
  have h := wordAt_append [] (addressToBytes32 a) []
  rwa [List.append_nil, List.nil_append] at h

@[simp] theorem abiDecode_abiEncode (a : Address Byte) : abiDecode (abiEncode a) = some a := by
  rw [abiDecode, if_pos (by simp), wordAt_abiEncode, bytes32ToAddress_addressToBytes32]

variable [DecidableEq Byte]

/-- `require(condition, reason)` before the rest of the code. -/
def requireThen (condition : Bool) (reason : String) (next : ContractCode Byte κ ε) :
    ContractCode Byte κ ε :=
  if condition then next else .finish false (errorString (asciiBytes reason))

/-! ### UpgradeBeacon -/

namespace UpgradeBeacon

/-- `_setImplementation`. -/
def _setImplementation (_newImplementation : Address Byte) : ContractCode Byte κ ε :=
  .load fun storage =>
  requireThen (storage.implementation ≠ _newImplementation) "!upgrade" <|
  .isContract _newImplementation fun isContract =>
  requireThen isContract "implementation !contract" <|
  .store { storage with implementation := _newImplementation } <|
  .emit (.Upgrade _newImplementation) <|
  .finish true []

/-- `constructor`. -/
def construct (_initialImplementation : Address Byte) : ContractCode Byte κ ε :=
  _setImplementation _initialImplementation

/-- `fallback`. -/
def fallback (controller : Address Byte) : ContractProgram Byte κ ε := fun _ sender data =>
  if sender ≠ controller then
    .load fun storage => .finish true (abiEncode storage.implementation)
  else _setImplementation (bytes32ToAddress (wordAt 0 data))

end UpgradeBeacon

/-! ### UpgradeBeaconController -/

namespace UpgradeBeaconController

/-- `constructor` of `Ownable`. -/
def construct (deployer : Address Byte) : ContractCode Byte κ ε :=
  .load fun storage =>
  .store { storage with _owner := deployer } <|
  .emit (.OwnershipTransferred 0 deployer) <|
  .finish true []

/-- `modifier onlyOwner`. -/
def onlyOwner (sender : Address Byte) (next : Storage Byte κ → ContractCode Byte κ ε) :
    ContractCode Byte κ ε :=
  .load fun storage =>
  requireThen (storage._owner = sender) "Ownable: caller is not the owner" (next storage)

/-- `upgrade`. -/
def upgrade (sender _beacon _implementation : Address Byte) : ContractCode Byte κ ε :=
  onlyOwner sender fun _ =>
  .isContract _beacon fun isContract =>
  requireThen isContract "beacon !contract" <|
  .call .call _beacon (abiEncode _implementation) fun _success returned =>
  if _success then .emit (.BeaconUpgraded _beacon _implementation) (.finish true [])
  else .finish false returned

/-- `_owner` is replaced. -/
def setOwner (newOwner : Address Byte) (storage : Storage Byte κ) : ContractCode Byte κ ε :=
  .emit (.OwnershipTransferred storage._owner newOwner) <|
  .store { storage with _owner := newOwner } <|
  .finish true []

/-- `transferOwnership` of `Ownable`. -/
def transferOwnership (sender newOwner : Address Byte) : ContractCode Byte κ ε :=
  onlyOwner sender fun storage =>
  requireThen (newOwner ≠ 0) "Ownable: new owner is the zero address" (setOwner newOwner storage)

/-- `renounceOwnership` of `Ownable`. -/
def renounceOwnership (sender : Address Byte) : ContractCode Byte κ ε :=
  onlyOwner sender fun storage => setOwner 0 storage

/-- `owner` of `Ownable`. -/
def owner : ContractCode Byte κ ε :=
  .load fun storage => .finish true (abiEncode storage._owner)

/-- The selectors of the external functions. -/
def upgradeSelector : List UInt8 := [0x99, 0xa8, 0x8e, 0xc4]

/-- The selector of `transferOwnership`. -/
def transferOwnershipSelector : List UInt8 := [0xf2, 0xfd, 0xe3, 0x8b]

/-- The selector of `renounceOwnership`. -/
def renounceOwnershipSelector : List UInt8 := [0x71, 0x50, 0x18, 0xa6]

/-- The selector of `owner`. -/
def ownerSelector : List UInt8 := [0x8d, 0xa5, 0xcb, 0x5b]

/-- An external call: the function is chosen by the selector, and too little calldata for
its arguments reverts. -/
def external : ContractProgram Byte κ ε := fun _ sender data =>
  let selector := data.take 4
  let argument index := bytes32ToAddress (wordAt (4 + 32 * index) data)
  if selector = upgradeSelector.map ofByte ∧ 68 ≤ data.length then
    upgrade sender (argument 0) (argument 1)
  else if selector = transferOwnershipSelector.map ofByte ∧ 36 ≤ data.length then
    transferOwnership sender (argument 0)
  else if selector = renounceOwnershipSelector.map ofByte then renounceOwnership sender
  else if selector = ownerSelector.map ofByte then owner
  else .finish false []

end UpgradeBeaconController

/-! ### UpgradeBeaconProxy -/

namespace UpgradeBeaconProxy

/-- `_getImplementation`, before the rest of the code. -/
def _getImplementation (_upgradeBeacon : Address Byte)
    (next : Address Byte → ContractCode Byte κ ε) : ContractCode Byte κ ε :=
  .call .staticcall _upgradeBeacon [] fun _ok _returnData =>
  if _ok then
    match abiDecode _returnData with
    | some _implementation => next _implementation
    | none => .finish false []
  else .finish false (errorString _returnData)

/-- `_delegate`, and `_initialize` when there is something to run. -/
def _delegate (_implementation : Address Byte) (data : List Byte) : ContractCode Byte κ ε :=
  .call .delegatecall _implementation data fun result returned => .finish result returned

/-- `_initialize`. -/
def _initialize (_implementation : Address Byte) (_initializationCalldata : List Byte) :
    ContractCode Byte κ ε :=
  .call .delegatecall _implementation _initializationCalldata fun _ok returned =>
  if _ok then .finish true [] else .finish false returned

/-- `constructor`. -/
def construct (_upgradeBeacon : Address Byte) (_initializationCalldata : List Byte) :
    ContractCode Byte κ ε :=
  .isContract _upgradeBeacon fun isContract =>
  requireThen isContract "beacon !contract" <|
  _getImplementation _upgradeBeacon fun _implementation =>
  .isContract _implementation fun isContract =>
  requireThen isContract "beacon implementation !contract" <|
  if _initializationCalldata.length > 0 then _initialize _implementation _initializationCalldata
  else .finish true []

/-- `fallback` and `receive`. -/
def fallback (upgradeBeacon : Address Byte) : ContractProgram Byte κ ε := fun _ _ data =>
  _getImplementation upgradeBeacon fun _implementation => _delegate _implementation data

end UpgradeBeaconProxy

/-! ### The accounts of a chain -/

/-- What an account with code is. -/
inductive Contract (Byte κ ε : Type)
  | UpgradeBeacon (controller : Address Byte)
  | UpgradeBeaconController
  | UpgradeBeaconProxy (upgradeBeacon : Address Byte)
  | other (program : ContractProgram Byte κ ε)

/-- The program of a contract. -/
def Contract.program : Contract Byte κ ε → ContractProgram Byte κ ε
  | .UpgradeBeacon controller => UpgradeBeacon.fallback controller
  | .UpgradeBeaconController => UpgradeBeaconController.external
  | .UpgradeBeaconProxy upgradeBeacon => UpgradeBeaconProxy.fallback upgradeBeacon
  | .other program => program

/-- The contracts that were deployed. -/
abbrev Accounts (Byte κ ε : Type) := Address Byte → Option (Contract Byte κ ε)

/-- The state of all accounts. -/
abbrev Chain (Byte κ ε : Type) :=
  State (Address Byte) Byte (Storage Byte κ) (Event Byte ε)

/-- Each account runs its own program. -/
def Accounts.table (accounts : Accounts Byte κ ε) :
    Table (Address Byte) Byte (Storage Byte κ) (Event Byte ε) :=
  fun _ a => (accounts a).map Contract.program

end Optics.Upgradable
