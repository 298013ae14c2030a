/-
# The two indexes of updates

An update is stored under its previous root, and its previous root under its new root. A
read by new root goes through both. Each row holds what was stored last, so two updates
from one previous root leave two rows in the second index that lead to one row in the
first, and a read by the new root of the earlier one answers with the later one.
-/

import Optics.Agents.Tables

namespace Optics.UpdateIndexes

open Optics.Solidity Optics.KeyValue Optics.Math.Log Optics.Tables Optics.UpdateHandler

variable {Byte : Type}

/-- A call of `store_update` or of `store_latest_update`. -/
inductive Store (Byte : Type)
  | storeUpdate (update : SignedUpdate Byte)
  | storeLatestUpdate (update : SignedUpdate Byte)

/-- The update that a call stores. -/
def Store.update : Store Byte → SignedUpdate Byte
  | .storeUpdate update => update
  | .storeLatestUpdate update => update

section Stores

variable [ByteAlphabet Byte] [DecidableEq Byte] (entity : List Byte)

/-- One call. -/
def Store.exec : Store Byte → DB Byte → Except Fault (DB Byte)
  | .storeUpdate update, db => .ok (UpdateHandler.storeUpdate entity update db)
  | .storeLatestUpdate update, db => Tables.storeLatestUpdate entity update db

/-- The calls, one after the other. -/
def storeAll (stores : List (Store Byte)) (db : DB Byte) : Except Fault (DB Byte) :=
  stores.foldlM (fun db store => store.exec entity db) db

end Stores

/-! ### What the rows hold -/

section Rows

variable [DecidableEq Byte]

/-- What an update puts into the row of a previous root. -/
def underPrevious (root : Bytes32 Byte) (u : SignedUpdate Byte) : Option (SignedUpdate Byte) :=
  if u.update.previousRoot = root then some u else none

/-- What an update puts into the row of a new root. -/
def underNew (root : Bytes32 Byte) (u : SignedUpdate Byte) : Option (Bytes32 Byte) :=
  if u.update.newRoot = root then some u.update.previousRoot else none

variable [ByteAlphabet Byte] {entity : List Byte} {db : DB Byte} {root : Bytes32 Byte}
  {updates : List (SignedUpdate Byte)}

theorem prevRootByNewRoot_storeUpdate (u : SignedUpdate Byte) (root : Bytes32 Byte) (db : DB Byte) :
    prevRootByNewRoot entity root (UpdateHandler.storeUpdate entity u db) =
      if root = u.update.newRoot then .ok (some u.update.previousRoot)
      else prevRootByNewRoot entity root db := by
  rw [UpdateHandler.storeUpdate]
  refine (retrieveKeyedDecodable_store toVec_word_injective _ root _).trans ?_
  rw [storeKeyedEncodable, retrieveKeyedDecodable, retrieveDecodable_of_length_ne _ (by simp)]
  rfl

theorem retrieveLatestRoot_storeUpdate (u : SignedUpdate Byte) (db : DB Byte) :
    retrieveLatestRoot entity (UpdateHandler.storeUpdate entity u db) =
      retrieveLatestRoot entity db := by
  rw [retrieveLatestRoot, UpdateHandler.storeUpdate, storeKeyedEncodable, storeKeyedEncodable,
    retrieveDecodable_of_length_ne _ (by simp [LATEST_ROOT]),
    retrieveDecodable_of_length_ne _ (by simp [LATEST_ROOT])]
  rfl

/-- The rows of both indexes hold what was stored in them last, and the latest root can be
read. -/
structure Indexed (entity : List Byte) (db : DB Byte) (updates : List (SignedUpdate Byte)) :
    Prop where
  update : ∀ root, updateByPreviousRoot entity root db = .ok (last (underPrevious root) updates)
  prevRoot : ∀ root, prevRootByNewRoot entity root db = .ok (last (underNew root) updates)
  latestRoot : ∃ latest, retrieveLatestRoot entity db = .ok latest

theorem indexed_empty : Indexed entity (DB.empty : DB Byte) [] where
  update _ := rfl
  prevRoot _ := rfl
  latestRoot := ⟨none, rfl⟩

/-- The latest root is in a row of its own. -/
theorem Indexed.storeLatestRoot (h : Indexed entity db updates) (latest : Bytes32 Byte) :
    Indexed entity (Tables.storeLatestRoot entity latest db) updates where
  update root := by
    rw [← h.update root, updateByPreviousRoot, retrieveKeyedDecodable, Tables.storeLatestRoot]
    exact retrieveDecodable_of_length_ne _ (by simp [LATEST_ROOT])
  prevRoot root := by
    rw [← h.prevRoot root, prevRootByNewRoot, retrieveKeyedDecodable, Tables.storeLatestRoot]
    exact retrieveDecodable_of_length_ne _ (by simp [LATEST_ROOT])
  latestRoot := ⟨some latest, retrieveDecodable_self latest⟩

theorem Indexed.storeUpdate (h : Indexed entity db updates) (u : SignedUpdate Byte) :
    Indexed entity (UpdateHandler.storeUpdate entity u db) (updates ++ [u]) where
  update root := by
    rw [updateByPreviousRoot_storeUpdate, last_concat, underPrevious, h.update root]
    by_cases heq : root = u.update.previousRoot
    · rw [if_pos heq, if_pos heq.symm, Option.some_or]
    · rw [if_neg heq, if_neg (Ne.symm heq), Option.none_or]
  prevRoot root := by
    rw [prevRootByNewRoot_storeUpdate, last_concat, underNew, h.prevRoot root]
    by_cases heq : root = u.update.newRoot
    · rw [if_pos heq, if_pos heq.symm, Option.some_or]
    · rw [if_neg heq, if_neg (Ne.symm heq), Option.none_or]
  latestRoot := by
    rw [retrieveLatestRoot_storeUpdate]
    exact h.latestRoot

/-- A call does not fail, and stores its update last. -/
theorem Indexed.exec (h : Indexed entity db updates) (store : Store Byte) :
    ∃ db', store.exec entity db = .ok db' ∧ Indexed entity db' (updates ++ [store.update]) := by
  cases store with
  | storeUpdate u => exact ⟨_, rfl, h.storeUpdate u⟩
  -- the latest root moves on or stays, and the update is stored either way
  | storeLatestUpdate u =>
    obtain ⟨latest, hlatest⟩ := h.latestRoot
    rw [Store.exec, Tables.storeLatestUpdate, hlatest, ok_bind]
    cases latest with
    | none => exact ⟨_, rfl, (h.storeLatestRoot u.update.newRoot).storeUpdate u⟩
    | some root =>
      dsimp only
      split_ifs
      · exact ⟨_, rfl, (h.storeLatestRoot u.update.newRoot).storeUpdate u⟩
      · exact ⟨_, rfl, h.storeUpdate u⟩

/-- No sequence of calls fails, and each row holds the last update for it. -/
theorem indexed_storeAll (entity : List Byte) (stores : List (Store Byte)) :
    ∃ db, storeAll entity stores (DB.empty : DB Byte) = .ok db ∧
      Indexed entity db (stores.map Store.update) := by
  induction stores using List.reverseRecOn with
  | nil => exact ⟨_, rfl, indexed_empty⟩
  | append_singleton stores store ih =>
    obtain ⟨db, hstored, hindexed⟩ := ih
    obtain ⟨db', hexec, hindexed'⟩ := hindexed.exec store
    refine ⟨db', ?_, ?_⟩
    · rw [storeAll, List.foldlM_append]
      change (storeAll entity stores DB.empty >>= _) = _
      rw [hstored, ok_bind, List.foldlM_cons, hexec, ok_bind]
      rfl
    · rw [List.map_append]
      exact hindexed'

end Rows

/-! ### Reads by either root -/

section Reads

variable [DecidableEq Byte]

/-- A new root that a later update from the same previous root goes past is reached again
after that. -/
def Restored (updates : List (SignedUpdate Byte)) : Prop :=
  ∀ before u after, updates = before ++ u :: after →
    (∃ v ∈ after, v.update.previousRoot = u.update.previousRoot ∧
      v.update.newRoot ≠ u.update.newRoot) →
    ∃ v ∈ after, v.update.newRoot = u.update.newRoot

variable {updates : List (SignedUpdate Byte)} {u v : SignedUpdate Byte} {root : Bytes32 Byte}

theorem underPrevious_eq_some :
    underPrevious root u = some v ↔ u.update.previousRoot = root ∧ u = v := by
  simp [underPrevious]

theorem underNew_eq_some {previousRoot : Bytes32 Byte} :
    underNew root u = some previousRoot ↔
      u.update.newRoot = root ∧ u.update.previousRoot = previousRoot := by
  simp [underNew]

@[simp] theorem underPrevious_self : underPrevious u.update.previousRoot u = some u := if_pos rfl

@[simp] theorem underNew_self : underNew u.update.newRoot u = some u.update.previousRoot :=
  if_pos rfl

/-- The row of the previous root of a stored update is not empty. -/
theorem exists_last_underPrevious (hu : u ∈ updates) :
    ∃ v ∈ updates, last (underPrevious u.update.previousRoot) updates = some v ∧
      v.update.previousRoot = u.update.previousRoot := by
  obtain ⟨before, after, rfl⟩ := List.append_of_mem hu
  obtain ⟨v, hv⟩ : ∃ v,
      last (underPrevious u.update.previousRoot) (before ++ u :: after) = some v := by
    rw [last_append_cons underPrevious_self]
    exact Option.isSome_iff_exists.mp (by simp)
  obtain ⟨w, hw, hanswer⟩ := mem_of_last hv
  obtain ⟨hroot, rfl⟩ := underPrevious_eq_some.mp hanswer
  exact ⟨w, hw, hv, hroot⟩

/-- The update that a read by new root comes to: the last one from the previous root of
the last one to the new root. -/
def lastByNewRoot (updates : List (SignedUpdate Byte)) (root : Bytes32 Byte) :
    Option (SignedUpdate Byte) :=
  (last (underNew root) updates).bind fun previousRoot => last (underPrevious previousRoot) updates

/-- It has the new root that was asked for if the row was not overwritten, or the root was
reached again. -/
theorem lastByNewRoot_of_restored (h : Restored updates) (hu : u ∈ updates) :
    ∃ v ∈ updates, lastByNewRoot updates u.update.newRoot = some v ∧
      v.update.newRoot = u.update.newRoot := by
  obtain ⟨previousRoot, hprevious⟩ :
      ∃ previousRoot, last (underNew u.update.newRoot) updates = some previousRoot := by
    obtain ⟨before, after, rfl⟩ := List.append_of_mem hu
    rw [last_append_cons underNew_self]
    exact Option.isSome_iff_exists.mp (by simp)
  -- `w` is the last update to the new root, and its previous root is where the read goes on
  obtain ⟨before, w, after, rfl, hw, hover⟩ := split_of_last hprevious
  obtain ⟨hnew, rfl⟩ := underNew_eq_some.mp hw
  rw [lastByNewRoot, hprevious, Option.bind_some, last_append_cons underPrevious_self]
  cases hlast : last (underPrevious w.update.previousRoot) after with
  | none => exact ⟨w, by simp, rfl, hnew⟩
  | some x =>
    obtain ⟨x', hx, hanswer⟩ := mem_of_last hlast
    obtain ⟨hfrom, rfl⟩ := underPrevious_eq_some.mp hanswer
    by_cases hsame : x'.update.newRoot = w.update.newRoot
    · exact ⟨x', by simp [hx], rfl, hsame.trans hnew⟩
    · -- the row was overwritten, so the root was reached again, but `w` was the last to it
      obtain ⟨y, hy, hagain⟩ := h before w after rfl ⟨x', hx, hfrom, hsame⟩
      have hnone := hover y hy
      rw [underNew, if_pos (hagain.trans hnew)] at hnone
      cases hnone

/-- An update whose row was overwritten, and whose new root was not reached again, is not
found by it. -/
theorem restored_of_lastByNewRoot
    (h : ∀ u ∈ updates, ∃ v, lastByNewRoot updates u.update.newRoot = some v ∧
      v.update.newRoot = u.update.newRoot) : Restored updates := by
  rintro before u after rfl ⟨v, hv, hfrom, hne⟩
  by_contra hnever
  have hover : last (underNew u.update.newRoot) after = none := by
    refine last_eq_none fun x hx => if_neg fun hnew => hnever ⟨x, hx, hnew⟩
  -- the row of the previous root was written again after `u`, so it answers with what came later
  obtain ⟨x, hx, hlast, -⟩ := exists_last_underPrevious hv
  rw [hfrom] at hlast
  obtain ⟨y, hy, hnew⟩ := h u (by simp)
  rw [lastByNewRoot, last_append_cons underNew_self, hover, Option.none_or, Option.bind_some,
    last_append_cons underPrevious_self, hlast, Option.some_or] at hy
  obtain rfl := Option.some.inj hy
  exact hnever ⟨x, hx, hnew⟩

variable [ByteAlphabet Byte] {entity : List Byte} {db : DB Byte}

theorem Indexed.updateByNewRoot (h : Indexed entity db updates) (root : Bytes32 Byte) :
    Tables.updateByNewRoot entity root db = .ok (lastByNewRoot updates root) := by
  rw [Tables.updateByNewRoot, h.prevRoot, ok_bind, lastByNewRoot]
  cases last (underNew root) updates with
  | none => rfl
  | some previousRoot => exact h.update previousRoot

/-- **The two indexes.** No sequence of calls fails, and every previous root of a stored
update leads to a stored update from there. Every new root of a stored update leads to a
stored update to there if and only if each new root that a later update from the same
previous root goes past is reached again after that. -/
theorem indexes_agree_iff (entity : List Byte) (stores : List (Store Byte)) :
    ∃ db, storeAll entity stores (DB.empty : DB Byte) = .ok db ∧
      (∀ u ∈ stores.map Store.update, ∃ v ∈ stores.map Store.update,
        updateByPreviousRoot entity u.update.previousRoot db = .ok (some v) ∧
          v.update.previousRoot = u.update.previousRoot) ∧
      ((∀ u ∈ stores.map Store.update, ∃ v ∈ stores.map Store.update,
        Tables.updateByNewRoot entity u.update.newRoot db = .ok (some v) ∧
          v.update.newRoot = u.update.newRoot) ↔ Restored (stores.map Store.update)) := by
  obtain ⟨db, hstored, hindexed⟩ := indexed_storeAll entity stores
  refine ⟨db, hstored, fun u hu => ?_, ?_⟩
  · obtain ⟨v, hv, hlast, hroot⟩ := exists_last_underPrevious hu
    exact ⟨v, hv, (hindexed.update _).trans (congrArg _ hlast), hroot⟩
  · constructor
    · intro h
      refine restored_of_lastByNewRoot fun u hu => ?_
      obtain ⟨v, -, hread, hroot⟩ := h u hu
      rw [hindexed.updateByNewRoot] at hread
      exact ⟨v, Except.ok.inj hread, hroot⟩
    · intro h u hu
      obtain ⟨v, hv, hlast, hroot⟩ := lastByNewRoot_of_restored h hu
      exact ⟨v, hv, (hindexed.updateByNewRoot _).trans (congrArg _ hlast), hroot⟩

end Reads

/-! ### Two updates from one root -/

section Sample

/-- The update from the zero root to the root of repeated bytes. -/
def sampleUpdate (n : UInt8) : SignedUpdate UInt8 :=
  ⟨⟨1000, 0, List.Vector.replicate 32 n⟩, List.Vector.replicate 65 0⟩

/-- A conflicting update is stored, and a read by the new root of the first one answers
with it. -/
theorem answers_with_conflict :
    ∃ db, storeAll [] [.storeLatestUpdate (sampleUpdate 1), .storeUpdate (sampleUpdate 2)]
        DB.empty = .ok db ∧
      Tables.updateByNewRoot [] (sampleUpdate 1).update.newRoot db =
        .ok (some (sampleUpdate 2)) ∧
      (sampleUpdate 2).update.newRoot ≠ (sampleUpdate 1).update.newRoot := by
  obtain ⟨db, hstored, hindexed⟩ := indexed_storeAll []
    [.storeLatestUpdate (sampleUpdate 1), .storeUpdate (sampleUpdate 2)]
  have hlast : lastByNewRoot [sampleUpdate 1, sampleUpdate 2] (sampleUpdate 1).update.newRoot =
      some (sampleUpdate 2) := by decide
  exact ⟨db, hstored, (hindexed.updateByNewRoot _).trans (congrArg _ hlast), by decide⟩

end Sample

end Optics.UpdateIndexes
