/-
# The database of an agent

`OpticsDB` is a key-value store. A call writes one key at a time, and the process
may stop between two writes, so a storing function is the list of its writes.
Only the tables that the prover of the processor reads are here.
-/

import Optics.Accumulator.Merkle
import Optics.Core.Common

namespace Optics

open Optics.Solidity Optics.Common

variable {Byte : Type}

/-- The tables `LEAF` by leaf index, `UPDATE` by previous root, `PREV_ROOT` by new
root, `LATEST_ROOT`, and `PROOF` by leaf index. -/
structure OpticsDB (Byte : Type) where
  leaf : ℕ → Option (Bytes32 Byte)
  update : Bytes32 Byte → Option (SignedUpdate Byte)
  prevRoot : Bytes32 Byte → Option (Bytes32 Byte)
  latestRoot : Option (Bytes32 Byte)
  proof : ℕ → Option (Accumulator.Proof Byte)

namespace OpticsDB

/-- A database without any entry. -/
def empty : OpticsDB Byte := ⟨fun _ => none, fun _ => none, fun _ => none, none, fun _ => none⟩

/-- One write. -/
inductive Put (Byte : Type)
  | leaf (leafIndex : ℕ) (leaf : Bytes32 Byte)
  | update (previousRoot : Bytes32 Byte) (update : SignedUpdate Byte)
  | prevRoot (newRoot previousRoot : Bytes32 Byte)
  | latestRoot (root : Bytes32 Byte)
  | proof (leafIndex : ℕ) (proof : Accumulator.Proof Byte)

/-- `leaf_by_leaf_index`. -/
def leafByLeafIndex (db : OpticsDB Byte) (leafIndex : ℕ) : Option (Bytes32 Byte) :=
  db.leaf leafIndex

/-- `proof_by_leaf_index`. -/
def proofByLeafIndex (db : OpticsDB Byte) (leafIndex : ℕ) : Option (Accumulator.Proof Byte) :=
  db.proof leafIndex

/-- `retrieve_latest_root`. -/
def retrieveLatestRoot (db : OpticsDB Byte) : Option (Bytes32 Byte) := db.latestRoot

/-- `update_by_previous_root`. -/
def updateByPreviousRoot (db : OpticsDB Byte) (previousRoot : Bytes32 Byte) :
    Option (SignedUpdate Byte) :=
  db.update previousRoot

/-- `update_by_new_root`. -/
def updateByNewRoot (db : OpticsDB Byte) (newRoot : Bytes32 Byte) : Option (SignedUpdate Byte) :=
  match db.prevRoot newRoot with
  | some prevRoot => db.updateByPreviousRoot prevRoot
  | none => none

/-- `store_update`. -/
def storeUpdate (update : SignedUpdate Byte) : List (Put Byte) :=
  [.update update.oldRoot update, .prevRoot update.newRoot update.oldRoot]

section Equality

variable [DecidableEq Byte]

/-- The database after a write. -/
def put (db : OpticsDB Byte) : Put Byte → OpticsDB Byte
  | .leaf leafIndex leaf => { db with leaf := Function.update db.leaf leafIndex (some leaf) }
  | .update previousRoot update =>
    { db with update := Function.update db.update previousRoot (some update) }
  | .prevRoot newRoot previousRoot =>
    { db with prevRoot := Function.update db.prevRoot newRoot (some previousRoot) }
  | .latestRoot root => { db with latestRoot := some root }
  | .proof leafIndex proof => { db with proof := Function.update db.proof leafIndex (some proof) }

/-- `store_latest_update`. -/
def storeLatestUpdate (db : OpticsDB Byte) (update : SignedUpdate Byte) : List (Put Byte) :=
  match db.retrieveLatestRoot with
  | some root =>
    if root = update.oldRoot then .latestRoot update.newRoot :: storeUpdate update
    else storeUpdate update
  | none => .latestRoot update.newRoot :: storeUpdate update

end Equality

/-! ### What a write can change -/

/-- Some stored update has this new root. -/
def HasNewRoot (db : OpticsDB Byte) (root : Bytes32 Byte) : Prop :=
  ∃ previousRoot update, db.update previousRoot = some update ∧ update.newRoot = root

/-- The update that a write stores, if it stores one. -/
def Put.update? : Put Byte → Option (SignedUpdate Byte)
  | .update _ u => some u
  | _ => none

variable [DecidableEq Byte] {db : OpticsDB Byte} {write : Put Byte}

theorem put_leaf_of_ne (h : ∀ index leaf, write ≠ .leaf index leaf) :
    (db.put write).leaf = db.leaf := by
  cases write with
  | leaf index leaf => exact absurd rfl (h index leaf)
  | update previousRoot u => rfl
  | prevRoot newRoot previousRoot => rfl
  | latestRoot root => rfl
  | proof index proof => rfl

theorem put_proof_of_ne (h : ∀ index proof, write ≠ .proof index proof) :
    (db.put write).proof = db.proof := by
  cases write with
  | leaf index leaf => rfl
  | update previousRoot u => rfl
  | prevRoot newRoot previousRoot => rfl
  | latestRoot root => rfl
  | proof index proof => exact absurd rfl (h index proof)

section Rows

variable {root other previousRoot : Bytes32 Byte} {u : SignedUpdate Byte}

@[simp] theorem put_update_self : (db.put (.update root u)).update root = some u :=
  Function.update_self _ _ _

theorem put_update_of_ne (h : other ≠ root) :
    (db.put (.update root u)).update other = db.update other :=
  Function.update_of_ne h _ _

@[simp] theorem put_prevRoot_self :
    (db.put (.prevRoot root previousRoot)).prevRoot root = some previousRoot :=
  Function.update_self _ _ _

theorem put_prevRoot_of_ne (h : other ≠ root) :
    (db.put (.prevRoot root previousRoot)).prevRoot other = db.prevRoot other :=
  Function.update_of_ne h _ _

end Rows

/-- A write keeps every stored new root, unless it replaces an update by one with
another new root. -/
theorem HasNewRoot.put {root : Bytes32 Byte} (h : db.HasNewRoot root)
    (hwrite : ∀ previousRoot u v, write = .update previousRoot u →
      db.update previousRoot = some v → v.newRoot = u.newRoot) :
    (db.put write).HasNewRoot root := by
  obtain ⟨previousRoot, v, hv, hroot⟩ := h
  cases write with
  | update previousRoot' u =>
    by_cases hkey : previousRoot = previousRoot'
    · subst hkey
      refine ⟨previousRoot, u, Function.update_self _ _ _, ?_⟩
      rw [← hwrite previousRoot u v rfl hv, hroot]
    · exact ⟨previousRoot, v, (Function.update_of_ne hkey _ _).trans hv, hroot⟩
  | leaf index leaf => exact ⟨previousRoot, v, hv, hroot⟩
  | prevRoot newRoot previousRoot' => exact ⟨previousRoot, v, hv, hroot⟩
  | latestRoot root' => exact ⟨previousRoot, v, hv, hroot⟩
  | proof index proof => exact ⟨previousRoot, v, hv, hroot⟩

@[simp] theorem proofByLeafIndex_put {index : ℕ} {proof : Accumulator.Proof Byte} :
    (db.put (.proof index proof)).proofByLeafIndex index = some proof := by
  simp [put, proofByLeafIndex]

theorem HasNewRoot.put_leaf {root : Bytes32 Byte} {index : ℕ} {leaf : Bytes32 Byte}
    (h : db.HasNewRoot root) : (db.put (.leaf index leaf)).HasNewRoot root := h

theorem HasNewRoot.put_proof {root : Bytes32 Byte} {index : ℕ} {proof : Accumulator.Proof Byte}
    (h : db.HasNewRoot root) : (db.put (.proof index proof)).HasNewRoot root := h

end OpticsDB

end Optics
