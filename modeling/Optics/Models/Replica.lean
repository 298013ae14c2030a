/-
# The model of Replica

`models::replica` restates the Replica contract for the agents. Its state is a type
parameter, so a double update may be reported to a Replica in any state.
-/

import Optics.Models.Home

namespace Optics.Models

open Optics.Solidity
open Optics.Updater (SignedUpdate)

variable {Byte : Type}

namespace Replica

/-- `Waiting`. -/
structure Waiting (Byte : Type) where
  root : Bytes32 Byte

/-- `Pending`. -/
structure Pending (Byte : Type) where
  root : Bytes32 Byte
  newRoot : Bytes32 Byte
  timeout : ℕ

/-- `Failed`. -/
structure Failed where

end Replica

/-- `Replica`. The fields `remote` and `local` are domains. -/
structure Replica (Byte S : Type) where
  remoteDomain : UInt32
  localDomain : UInt32
  updater : Address Byte
  optimisticWait : ℕ
  state : S

namespace Replica

variable [ByteAlphabet Byte]

/-- `init`. -/
def init (remoteDomain localDomain : UInt32) (updater : Address Byte) (optimisticWait : ℕ) :
    Replica Byte (Waiting Byte) where
  remoteDomain := remoteDomain
  localDomain := localDomain
  updater := updater
  optimisticWait := optimisticWait
  state := ⟨0⟩

section Signatures

variable [DecidableEq Byte] (K : Crypto Byte) (hashMessage : List Byte → Bytes32 Byte) {S : Type}

/-- `check_sig`. -/
def checkSig (replica : Replica Byte S) (update : SignedUpdate Byte) :
    Except (OpticsError Byte) Unit := verify K hashMessage update replica.updater

/-- `double_update`. The error hands the Replica back. -/
def doubleUpdate (first second : SignedUpdate Byte) (replica : Replica Byte S) :
    Except (Replica Byte S) (Replica Byte Failed) :=
  if first = second ∨ (replica.checkSig K hashMessage first).isOk = false ∨
      (replica.checkSig K hashMessage second).isOk = false then .error replica
  else .ok { replica with state := {} }

/-- `update` at a time. The sum is a `U256`, which panics on overflow: `none`. -/
def update (update : SignedUpdate Byte) (now : ℕ) (replica : Replica Byte (Waiting Byte)) :
    Option (Except (Replica Byte (Waiting Byte)) (Replica Byte (Pending Byte))) :=
  if (replica.checkSig K hashMessage update).isOk = false then some (.error replica)
  else if now + replica.optimisticWait < 2 ^ 256 then
    some (.ok { replica with
      state := ⟨replica.state.root, update.update.newRoot, now + replica.optimisticWait⟩ })
  else none

variable {K hashMessage} {replica : Replica Byte S} {failed : Replica Byte Failed}
  {u v : SignedUpdate Byte}

theorem doubleUpdate_eq_ok (h : replica.doubleUpdate K hashMessage u v = .ok failed) :
    u ≠ v ∧ (replica.checkSig K hashMessage u).isOk = true ∧
      (replica.checkSig K hashMessage v).isOk = true := by
  unfold doubleUpdate at h
  split_ifs at h with hrefused
  obtain ⟨hne, hrest⟩ := not_or.mp hrefused
  obtain ⟨hfirst, hsecond⟩ := not_or.mp hrest
  exact ⟨hne, Bool.not_eq_false _ ▸ hfirst, Bool.not_eq_false _ ▸ hsecond⟩

end Signatures

end Replica

end Optics.Models
