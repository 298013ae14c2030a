/-
# Fetching the events of a contract

An indexer asks a node for the events of some blocks and sorts the answer: updates by block
and transaction, messages by leaf index. ContractSync takes what it is given as the events of
the chain in their order.

A node may answer in any order. The messages come out right whatever the order is, because
the leaf indexes of Home count its messages. The updates come out right as long as those of
one transaction are answered in their order; and since nothing else tells these apart, they come
out right for every answer exactly when no transaction has two of them.
-/

import Optics.Agents.ContractSync
import Optics.Core.HomeInvariant
import Optics.Core.MessageIdentity
import Optics.Math.StableSort
import Mathlib.Data.Prod.Lex

namespace Optics.EventIndexer

open Optics.Solidity Optics.Common Optics.KeyValue Optics.Math Optics.Math.Transition
open Optics.MessageIndex Optics.UpdateHandler Optics.ContractSync Optics.Home

variable {Byte : Type}

/-- `LogMeta`, but for the address and the hashes. -/
structure LogMeta where
  blockNumber : UInt64
  transactionIndex : UInt64
  logIndex : ℕ

/-- `UpdateFilter`. -/
structure UpdateFilter (Byte : Type) where
  homeDomain : UInt32
  oldRoot : Bytes32 Byte
  newRoot : Bytes32 Byte
  signature : List Byte

/-- `Signature::try_from`, with its `expect`. -/
def signatureTryFrom (bytes : List Byte) : Except Fault (Signature Byte) :=
  if h : bytes.length = 65 then .ok ⟨bytes, h⟩
  else .error (.panicked "chain accepted invalid signature")

/-- The entry of `fetch_sorted_updates` for an event. -/
def ofUpdate (event : UpdateFilter Byte × LogMeta) :
    Except Fault (SignedUpdateWithMeta Byte) := do
  let signature ← signatureTryFrom event.1.signature
  .ok ⟨⟨⟨event.1.homeDomain, event.1.oldRoot, event.1.newRoot⟩, signature⟩,
    ⟨event.2.blockNumber⟩⟩

/-- `slice::sort_by`. -/
def sortBy {ε : Type} (cmp : ε → ε → Ordering) (events : List ε) : List ε :=
  events.mergeSort fun a b => (cmp a b).isLE

/-- The comparison that `fetch_sorted_updates` sorts by. -/
def updateOrdering (a b : UpdateFilter Byte × LogMeta) : Ordering :=
  let ordering := compare a.2.blockNumber b.2.blockNumber
  if ordering = .eq then compare a.2.transactionIndex b.2.transactionIndex else ordering

/-- `fetch_sorted_updates` of `EthereumHomeIndexer` and of `EthereumReplicaIndexer`, from the
answer of the node on. -/
def fetchSortedUpdates (events : List (UpdateFilter Byte × LogMeta)) :
    Except Fault (List (SignedUpdateWithMeta Byte)) :=
  (sortBy updateOrdering events).mapM ofUpdate

/-- `fetch_sorted_messages`, from the answer of the node on. -/
def fetchSortedMessages (events : List (DispatchEvent Byte)) :
    Except Fault (List (RawCommittedMessage Byte)) :=
  (sortBy (fun a b => compare a.leafIndex b.leafIndex) events).mapM
    RawCommittedMessage.ofDispatch

/-! ### The events of a chain -/

/-- The block and the transaction of an event. -/
def LogMeta.transaction (m : LogMeta) : ℕ ×ₗ ℕ :=
  toLex (m.blockNumber.toNat, m.transactionIndex.toNat)

/-- An event comes before another one. -/
def LogMeta.Earlier (a b : LogMeta) : Prop :=
  a.transaction ≤ b.transaction ∧ (a.blockNumber = b.blockNumber → a.logIndex < b.logIndex)

/-- The events of a contract with their places in the chain, in the order of the chain. -/
structure Logs (Byte : Type) where
  updates : List (UpdateFilter Byte × LogMeta)
  messages : List (DispatchEvent Byte × LogMeta)
  updates_earlier : updates.Pairwise fun a b => a.2.Earlier b.2
  messages_earlier : messages.Pairwise fun a b => a.2.Earlier b.2

/-- What `from_block` and `to_block` ask for. -/
def window {ε : Type} (low high : ℕ) (events : List (ε × LogMeta)) : List (ε × LogMeta) :=
  events.filter fun e => decide (low ≤ e.2.blockNumber.toNat ∧ e.2.blockNumber.toNat ≤ high)

/-- The chain as ContractSync reads it. -/
def Logs.chain (logs : Logs Byte) : Chain Byte where
  updates block := (ofKey (fun e => e.2.blockNumber.toNat) block logs.updates).filterMap
    fun e => (ofUpdate e).toOption
  messages block := (ofKey (fun e => e.2.blockNumber.toNat) block logs.messages).filterMap
    fun e => (RawCommittedMessage.ofDispatch e.1).toOption

/-- The answer of a node has for each transaction the updates of the transaction, in their
order. -/
def Answers (answer updates : List (UpdateFilter Byte × LogMeta)) : Prop :=
  ∀ transaction, ofKey (fun e => e.2.transaction) transaction answer =
    ofKey (fun e => e.2.transaction) transaction updates

/-- The `Update` that an event of Home is, if it is one. -/
def updateFilter? : Home.Event Byte → Option (UpdateFilter Byte)
  | .Update homeDomain u => some ⟨homeDomain, u.oldRoot, u.newRoot, u.signature⟩
  | _ => none

/-- The logs are those of Home. -/
structure Logs.OfHome [ByteAlphabet Byte] (logs : Logs Byte) (source : Home.History Byte) :
    Prop where
  updates : logs.updates.map Prod.fst = source.log.filterMap updateFilter?
  messages : logs.messages.map Prod.fst = dispatches source.log

/-! ### Sorting and converting -/

section Sorting

variable {ε α : Type} {events : List ε} {convert : ε → Except Fault α}

/-- If all events can be converted, the conversions are collected. -/
theorem mapM_eq_ok (h : ∀ e ∈ events, ∃ a, convert e = .ok a) :
    events.mapM convert = .ok (events.filterMap fun e => (convert e).toOption) := by
  induction events with
  | nil => rfl
  | cons e rest ih =>
    obtain ⟨a, ha⟩ := h e List.mem_cons_self
    rw [List.mapM_cons, ih fun e he => h e (List.mem_cons_of_mem _ he), ha,
      List.filterMap_cons_some (by rw [ha]; rfl)]
    rfl

theorem filterMap_toOption {f : ε → α} (h : ∀ e ∈ events, convert e = .ok (f e)) :
    (events.filterMap fun e => (convert e).toOption) = events.map f := by
  rw [← List.filterMap_eq_map]
  refine List.filterMap_congr fun e he => ?_
  rw [h e he]
  rfl

/-- Distinct images tell the order of items. -/
theorem eq_of_map_eq {events' : List ε} {f : ε → α} (hperm : events.Perm events')
    (hnodup : (events'.map f).Nodup) (hmap : events.map f = events'.map f) :
    events = events' := by
  refine List.ext_getElem hperm.length_eq fun i hi hi' => ?_
  have hat : f events[i] = f events'[i] := by
    have hget := congrArg (·[i]?) hmap
    simpa [hi, hi'] using hget
  exact List.inj_on_of_nodup_map hnodup (hperm.subset (List.getElem_mem hi)) (List.getElem_mem hi')
    hat

/-- The updates are sorted by transaction. -/
theorem sortBy_updateOrdering (events : List (UpdateFilter Byte × LogMeta)) :
    sortBy updateOrdering events = stableSort (fun e => e.2.transaction) events := by
  rw [sortBy, stableSort]
  congr 1
  funext a b
  rw [Bool.eq_iff_iff, decide_eq_true_iff, LogMeta.transaction, LogMeta.transaction,
    Prod.Lex.toLex_le_toLex, updateOrdering]
  dsimp only
  by_cases hblock : a.2.blockNumber = b.2.blockNumber
  · rw [if_pos (Std.compare_eq_iff_eq.mpr hblock), Std.isLE_compare, hblock]
    simp [UInt64.le_iff_toNat_le]
  · rw [if_neg (fun h => hblock (Std.compare_eq_iff_eq.mp h)), Std.isLE_compare,
      UInt64.le_iff_toNat_le]
    have hne : a.2.blockNumber.toNat ≠ b.2.blockNumber.toNat := fun h =>
      hblock (UInt64.toNat_inj.mp h)
    omega

/-- The messages are sorted by leaf index. -/
theorem sortBy_leafIndex (events : List (DispatchEvent Byte)) :
    sortBy (fun a b => compare a.leafIndex b.leafIndex) events =
      stableSort DispatchEvent.leafIndex events := by
  rw [sortBy, stableSort]
  congr 1
  funext a b
  rw [Bool.eq_iff_iff, decide_eq_true_iff, Nat.isLE_compare]

end Sorting

/-! ### Windows -/

section Windows

variable {ε : Type} {events answer : List (ε × LogMeta)} {low high : ℕ}

/-- Events in the order of the chain are sorted by transaction, and by block. -/
theorem sorted_of_earlier (h : events.Pairwise fun a b => a.2.Earlier b.2) :
    events.Pairwise (fun a b => a.2.transaction ≤ b.2.transaction) ∧
      events.Pairwise fun a b => a.2.blockNumber.toNat ≤ b.2.blockNumber.toNat := by
  refine ⟨h.imp fun he => he.1, h.imp fun he => ?_⟩
  rcases Prod.Lex.toLex_le_toLex.mp he.1 with hlt | ⟨heq, -⟩
  · exact hlt.le
  · exact heq.le

/-- No event is there twice. -/
theorem nodup_of_earlier (h : events.Pairwise fun a b => a.2.Earlier b.2) : events.Nodup := by
  refine h.imp ?_
  rintro a b hearlier rfl
  exact Nat.lt_irrefl _ (hearlier.2 rfl)

/-- The blocks of a window, one after the other. -/
theorem flatMap_blocks (h : events.Pairwise fun a b => a.2.Earlier b.2) :
    (List.range' low (high + 1 - low)).flatMap
        (fun block => ofKey (fun e => e.2.blockNumber.toNat) block events) =
      window low high events := by
  rw [flatMap_ofKey (sorted_of_earlier h).2, window]
  refine List.filter_congr fun e _ => ?_
  rw [decide_eq_decide]
  omega

end Windows

/-! ### The updates of any contract -/

section Fetch

variable [ByteAlphabet Byte] [DecidableEq Byte] {K : Crypto Byte} {settings : Settings Byte}
  {logs : Logs Byte} {source : Home.History Byte} {low high : ℕ}

/-- What ContractSync takes as the updates of a chunk. -/
theorem fetch_updates : (syncUpdates K settings logs.chain).fetch low high =
    (window low high logs.updates).filterMap fun e => (ofUpdate e).toOption := by
  rw [Indexer.fetch, Indexer.events, ← flatMap_blocks logs.updates_earlier,
    List.filterMap_flatMap]
  rfl

/-- What ContractSync takes as the messages of a chunk. -/
theorem fetch_messages : (syncMessages K settings logs.chain).fetch low high =
    (window low high logs.messages).filterMap
      fun e => (RawCommittedMessage.ofDispatch e.1).toOption := by
  rw [Indexer.fetch, Indexer.events, ← flatMap_blocks logs.messages_earlier,
    List.filterMap_flatMap]
  rfl

omit [ByteAlphabet Byte] [DecidableEq Byte] in
theorem exists_ofUpdate {e : UpdateFilter Byte × LogMeta} (h : e.1.signature.length = 65) :
    ∃ u, ofUpdate e = .ok u ∧ u.newRoot = e.1.newRoot := by
  rw [ofUpdate, signatureTryFrom, dif_pos h]
  exact ⟨_, rfl, rfl⟩

/-- An answer in which each transaction has its order gives the chunk of the chain. -/
theorem fetchSortedUpdates_eq (hsignatures : ∀ e ∈ logs.updates, e.1.signature.length = 65)
    {answer : List (UpdateFilter Byte × LogMeta)}
    (hanswer : Answers answer (window low high logs.updates)) :
    fetchSortedUpdates answer = .ok ((syncUpdates K settings logs.chain).fetch low high) := by
  have hsorted : (window low high logs.updates).Pairwise
      fun a b => a.2.transaction ≤ b.2.transaction :=
    (sorted_of_earlier logs.updates_earlier).1.filter _
  rw [fetchSortedUpdates, sortBy_updateOrdering, (stableSort_eq_iff hsorted).mpr hanswer,
    fetch_updates]
  refine mapM_eq_ok fun e he => ?_
  obtain ⟨u, hu, -⟩ := exists_ofUpdate (hsignatures e (List.mem_filter.mp he).1)
  exact ⟨u, hu⟩

/-! ### The messages of Home -/

omit [DecidableEq Byte] in
/-- The leaf indexes grow along the messages of a window. -/
theorem leafIndex_window (hnumbered : source.Numbered K) (hlogs : logs.OfHome source) :
    ((window low high logs.messages).map Prod.fst).Pairwise
      fun a b => a.leafIndex < b.leafIndex := by
  have hall : (dispatches source.log).Pairwise fun a b => a.leafIndex < b.leafIndex := by
    rw [← List.pairwise_map (f := DispatchEvent.leafIndex) (R := (· < ·)), hnumbered.leafIndexes]
    exact List.pairwise_lt_range
  rw [← hlogs.messages] at hall
  exact hall.sublist (List.filter_sublist.map Prod.fst)

omit [DecidableEq Byte] in
/-- Every message of Home can be converted. -/
theorem ofDispatch_eq (hnumbered : source.Numbered K) {e : DispatchEvent Byte}
    (he : e ∈ dispatches source.log) : RawCommittedMessage.ofDispatch e =
      .ok ⟨UInt32.ofNat e.leafIndex, e.committedRoot, e.message⟩ := by
  have hlt := hnumbered.leafIndex_lt he
  rw [MerkleLib.MAX_LEAVES, MerkleLib.TREE_DEPTH] at hlt
  rw [RawCommittedMessage.ofDispatch, if_pos (by omega)]

omit [DecidableEq Byte] in
theorem mem_dispatches (hlogs : logs.OfHome source) {e : DispatchEvent Byte}
    (he : e ∈ (window low high logs.messages).map Prod.fst) : e ∈ dispatches source.log := by
  rw [← hlogs.messages]
  exact (List.filter_sublist.map Prod.fst).subset he

/-- **Messages come in order.** However the node orders its answer, the messages of a chunk are
those of the chain in their order; and a chunk of the whole chain has the messages that Home has
dispatched, numbered by their leaf indexes. -/
theorem fetchSortedMessages_eq (settings : Settings Byte) (h : (Home.system K).Reachable source)
    (hlogs : logs.OfHome source) :
    (∀ low high answer, answer.Perm ((window low high logs.messages).map Prod.fst) →
      fetchSortedMessages answer = .ok ((syncMessages K settings logs.chain).fetch low high)) ∧
    ∀ high, (∀ e ∈ logs.messages, e.2.blockNumber.toNat ≤ high) →
      ((syncMessages K settings logs.chain).fetch 0 high).map (fun m => m.leafIndex.toNat) =
          List.range source.dispatched.length ∧
        ((syncMessages K settings logs.chain).fetch 0 high).map RawCommittedMessage.message =
          source.dispatched.map fun d => d.message source.home.localDomain := by
  have hnumbered := History.numbered_of_reachable h
  have hconvert : ∀ low high, (syncMessages K settings logs.chain).fetch low high =
      ((window low high logs.messages).map Prod.fst).map
        fun e => ⟨UInt32.ofNat e.leafIndex, e.committedRoot, e.message⟩ := by
    intro low high
    rw [fetch_messages, ← filterMap_toOption fun e he =>
      ofDispatch_eq hnumbered (mem_dispatches hlogs he), List.filterMap_map]
    rfl
  constructor
  · intro low high answer hanswer
    rw [fetchSortedMessages, sortBy_leafIndex,
      stableSort_eq_of_perm (leafIndex_window hnumbered hlogs) hanswer, hconvert,
      ← filterMap_toOption fun e he => ofDispatch_eq hnumbered (mem_dispatches hlogs he)]
    exact mapM_eq_ok fun e he => ⟨_, ofDispatch_eq hnumbered (mem_dispatches hlogs he)⟩
  · intro high hhigh
    have hwindow : window 0 high logs.messages = logs.messages :=
      List.filter_eq_self.mpr fun e he => decide_eq_true ⟨Nat.zero_le _, hhigh e he⟩
    rw [hconvert, hwindow, hlogs.messages, List.map_map, List.map_map]
    constructor
    · rw [← hnumbered.leafIndexes]
      refine List.map_congr_left fun e he => ?_
      have hlt := hnumbered.leafIndex_lt he
      rw [MerkleLib.MAX_LEAVES, MerkleLib.TREE_DEPTH] at hlt
      exact UInt32.toNat_ofNat_of_lt' (hlt.trans (by decide))
    · exact hnumbered.map_dispatches _ _ fun e d hannounced => hannounced.message

/-! ### The updates of Home -/

omit [ByteAlphabet Byte] [DecidableEq Byte] in
/-- The events as the updates that Home has accepted. -/
theorem updates_eq (log : List (Home.Event Byte)) : Home.updates log =
    (log.filterMap updateFilter?).map fun e => ⟨e.oldRoot, e.newRoot, e.signature⟩ := by
  induction log with
  | nil => rfl
  | cons e rest ih =>
    rw [Home.updates] at ih ⊢
    cases e with
    | Update homeDomain u => exact congrArg (u :: ·) ih
    | _ => exact ih

/-- Home accepts only signatures of 65 bytes, as `ECDSA.recover` does. -/
theorem length_signature (hrecover : ∀ digest signature signer,
      K.recover digest signature = some signer → signature.length = 65)
    (h : (Home.system K).Reachable source) :
    ∀ u ∈ Home.updates source.log, u.signature.length = 65 := by
  refine h.invariant (P := fun source =>
    ∀ u ∈ Home.updates source.log, u.signature.length = 65) ?_ ?_
  · intro source hinit u hu
    rw [hinit.updates_eq] at hu
    cases hu
  · intro source tx source' _ hall hstep
    refine callStep_cases (P := fun _ t =>
      ∀ u ∈ Home.updates t.log, u.signature.length = 65) hstep ?_ hall
    intro t hexec u hu
    obtain ⟨home', events, hok, rfl⟩ := Home.History.exec_eq_ok.mp hexec
    rw [Home.updates_append] at hu
    rcases List.mem_append.mp hu with hold | hnew
    · exact hall u hold
    · obtain ⟨ctx, call⟩ := tx
      cases Home.effect_of_exec hok with
      | committed v queue hstate hsigned =>
        obtain rfl := List.mem_singleton.mp hnew
        exact hrecover _ _ _ hsigned
      | slashed updater manager hstate hfraud hevents =>
        rw [Home.updates_eq_nil hevents] at hnew
        cases hnew
      | _ => cases hnew

theorem signature_of_home (hrecover : ∀ digest signature signer,
      K.recover digest signature = some signer → signature.length = 65)
    (h : (Home.system K).Reachable source) (hlogs : logs.OfHome source) :
    ∀ e ∈ logs.updates, e.1.signature.length = 65 := by
  intro e he
  refine length_signature hrecover h ⟨e.1.oldRoot, e.1.newRoot, e.1.signature⟩ ?_
  rw [updates_eq, ← hlogs.updates]
  exact List.mem_map_of_mem (List.mem_map_of_mem he)

/-- The updates of a window lead to distinct roots. -/
theorem newRoot_window (ideal : Crypto.IdealHash K) (h : (Home.system K).Reachable source)
    (hlogs : logs.OfHome source) :
    ((window low high logs.updates).map fun e => e.1.newRoot).Nodup := by
  have hnodup := (List.nodup_cons.mp (Home.History.newRoots_nodup ideal h)).2
  rw [updates_eq, ← hlogs.updates, List.map_map, List.map_map] at hnodup
  exact hnodup.sublist (List.filter_sublist.map _)

/-- **Updates come in the order of each transaction.** As long as the node answers the updates
of one transaction in their order, the updates of a chunk are those of the chain in their order;
and they are for every order of the answer exactly when no transaction has two of them. -/
theorem fetchSortedUpdates_of_home (settings : Settings Byte) (ideal : Crypto.IdealHash K)
    (hrecover : ∀ digest signature signer,
      K.recover digest signature = some signer → signature.length = 65)
    (h : (Home.system K).Reachable source) (hlogs : logs.OfHome source) (low high : ℕ) :
    (∀ answer, Answers answer (window low high logs.updates) →
      fetchSortedUpdates answer = .ok ((syncUpdates K settings logs.chain).fetch low high)) ∧
    ((∀ answer, answer.Perm (window low high logs.updates) →
      fetchSortedUpdates answer = .ok ((syncUpdates K settings logs.chain).fetch low high)) ↔
        (window low high logs.updates).Pairwise
          fun a b => a.2.transaction ≠ b.2.transaction) := by
  have hsignatures := signature_of_home hrecover h hlogs
  have hsorted : (window low high logs.updates).Pairwise
      fun a b => a.2.transaction ≤ b.2.transaction :=
    (sorted_of_earlier logs.updates_earlier).1.filter _
  have hnodup := (nodup_of_earlier logs.updates_earlier).filter
    fun e => decide (low ≤ e.2.blockNumber.toNat ∧ e.2.blockNumber.toNat ≤ high)
  refine ⟨fun answer hanswer => fetchSortedUpdates_eq hsignatures hanswer, ?_⟩
  constructor
  · intro hall
    refine ((forall_stableSort_eq_iff hsorted hnodup).mp fun answer hperm => ?_).imp
      fun hlt => hlt.ne
    have hfetch := hall answer hperm
    have hperm' := (stableSort_perm (fun e => e.2.transaction) answer).trans hperm
    -- what comes out tells what was sorted, by the new roots
    have hnewRoots : ∀ events : List (UpdateFilter Byte × LogMeta),
        events ⊆ logs.updates → (events.filterMap fun e => (ofUpdate e).toOption).map
          SignedUpdateWithMeta.newRoot = events.map fun e => e.1.newRoot := by
      intro events hsub
      rw [List.map_filterMap, ← List.filterMap_eq_map]
      refine List.filterMap_congr fun e he => ?_
      obtain ⟨u, hu, hroot⟩ := exists_ofUpdate (hsignatures e (hsub he))
      rw [hu, Function.comp_apply, ← hroot]
      rfl
    have hsub : window low high logs.updates ⊆ logs.updates := List.filter_subset_self ..
    have hsub' := List.Subset.trans hperm'.subset hsub
    rw [fetchSortedUpdates, sortBy_updateOrdering, fetch_updates, mapM_eq_ok fun e he => by
      obtain ⟨u, hu, -⟩ := exists_ofUpdate (hsignatures e (hsub' he))
      exact ⟨u, hu⟩, Except.ok.injEq] at hfetch
    refine eq_of_map_eq hperm' (newRoot_window ideal h hlogs) ?_
    rw [← hnewRoots _ hsub', ← hnewRoots _ hsub, hfetch]
  · intro hdistinct answer hperm
    refine fetchSortedUpdates_eq hsignatures ((stableSort_eq_iff hsorted).mp ?_)
    refine stableSort_eq_of_perm ?_ hperm
    exact hsorted.imp₂ (fun a b hle hne => lt_of_le_of_ne hle hne) hdistinct

end Fetch

/-! ### Concrete answers -/

section Sample

/-- The first two events are of one transaction of block 5, and the others of one of block 6. -/
def samplePlace (i : ℕ) : LogMeta := ⟨if i < 2 then 5 else 6, 0, i⟩

theorem samplePlace_earlier {i j : ℕ} (h : i < j) : (samplePlace i).Earlier (samplePlace j) := by
  refine ⟨?_, fun _ => h⟩
  simp only [samplePlace, LogMeta.transaction]
  split_ifs
  · exact le_refl _
  · decide
  · omega
  · exact le_refl _

/-- Events at these places. -/
def inPlace {ε : Type} (events : List ε) : List (ε × LogMeta) :=
  events.mapIdx fun i e => (e, samplePlace i)

theorem inPlace_earlier {ε : Type} (events : List ε) :
    (inPlace events).Pairwise fun a b => a.2.Earlier b.2 := by
  refine List.pairwise_iff_getElem.mpr fun i j hi hj hij => ?_
  simp only [inPlace, List.getElem_mapIdx]
  exact samplePlace_earlier hij

theorem map_inPlace {ε : Type} (events : List ε) : (inPlace events).map Prod.fst = events := by
  refine List.ext_getElem (by simp [inPlace]) fun i hi hi' => ?_
  simp [inPlace]

theorem blockNumber_inPlace {ε : Type} {events : List ε} {e : ε × LogMeta}
    (he : e ∈ inPlace events) : e.2.blockNumber.toNat ≤ 6 := by
  obtain ⟨i, hi, rfl⟩ := List.mem_mapIdx.mp he
  simp only [samplePlace]
  split_ifs
  · decide
  · decide

/-- All of it is in the first blocks. -/
theorem window_inPlace {ε : Type} (events : List ε) :
    window 0 6 (inPlace events) = inPlace events :=
  List.filter_eq_self.mpr fun _ he => decide_eq_true ⟨Nat.zero_le _, blockNumber_inPlace he⟩

variable [ByteAlphabet Byte]

/-- Everything that Home did, in two transactions. -/
def sampleLogs (source : Home.History Byte) : Logs Byte where
  updates := inPlace (source.log.filterMap updateFilter?)
  messages := inPlace (dispatches source.log)
  updates_earlier := inPlace_earlier _
  messages_earlier := inPlace_earlier _

theorem sampleLogs_ofHome (source : Home.History Byte) : (sampleLogs source).OfHome source :=
  ⟨map_inPlace _, map_inPlace _⟩

/-- Signatures of 65 bytes are those of the zero address. -/
def sampleCrypto : Crypto ℕ :=
  Crypto.withIdealHash fun _ signature => if signature.length = 65 then some 0 else none

theorem sampleIdeal : Crypto.IdealHash sampleCrypto := Crypto.withIdealHash_ideal _

theorem length_of_sampleRecover : ∀ digest signature signer,
    sampleCrypto.recover digest signature = some signer → signature.length = 65 := by
  intro digest signature signer h
  by_contra hne
  rw [show sampleCrypto.recover digest signature = none from if_neg hne] at h
  cases h

/-- A Home with `n` messages that has accepted the roots of the first `k` one by one. -/
structure SampleHome (n k : ℕ) (source : Home.History ℕ) : Prop where
  reachable : (Home.system sampleCrypto).Reachable source
  dispatched : source.dispatched.length = n
  updates : (Home.updates source.log).length = k
  state : source.home.state ≠ .Failed
  updater : source.home.updater = 0
  inStep : Home.InStep sampleCrypto source.home (source.leaves sampleCrypto) k

theorem exists_dispatched {n : ℕ} (hn : n ≤ MerkleLib.MAX_LEAVES) :
    ∃ source, SampleHome n 0 source := by
  induction n with
  | zero =>
    have hinit := Home.initial_of_isContract 1000 (Home.sampleContext : Home.Context ℕ) 0 0 rfl
    exact ⟨_, System.reachable_init hinit, rfl, rfl, by simp, rfl,
      (Home.History.Initial.sound hinit).inStep⟩
  | succ n ih =>
    obtain ⟨source, h⟩ := ih (Nat.le_of_succ_le hn)
    obtain ⟨source', hstep, h'⟩ := Home.History.exists_dispatch Home.sampleContext 2000 0 []
      h.inStep (h.dispatched ▸ hn) h.state (Nat.zero_le _)
    refine ⟨source', h.reachable.step hstep, ?_, ?_, h'.state ▸ h.state, h'.updater.trans h.updater,
      h'.inStep⟩
    · rw [h'.dispatched, List.length_append, h.dispatched, List.length_singleton]
    · rw [h'.updates, h.updates]

theorem exists_sampleHome {n k : ℕ} (hn : n ≤ MerkleLib.MAX_LEAVES) (hk : k ≤ n) :
    ∃ source, SampleHome n k source := by
  induction k with
  | zero => exact exists_dispatched hn
  | succ k ih =>
    obtain ⟨source, h⟩ := ih (Nat.le_of_succ_le hk)
    have hlength : (source.leaves sampleCrypto).length = n := by
      rw [Home.History.leaves, List.length_map, h.dispatched]
    let u : Common.SignedUpdate ℕ := ⟨source.home.committedRoot,
      Home.prefixRoot sampleCrypto (source.leaves sampleCrypto) (k + 1), List.replicate 65 0⟩
    have hsigned : IsSignedBy sampleCrypto source.home.localDomain source.home.updater u := by
      rw [h.updater]
      rfl
    obtain ⟨queue, hexec, hinStep⟩ := Home.exec_update_of_lt sampleIdeal h.inStep
      (source.zero_notMem_leaves sampleIdeal) (Nat.lt_succ_self k) (hlength ▸ hk)
      Home.sampleContext rfl rfl h.state hsigned
    have hnone : (Home.Call.update u).dispatched Home.sampleContext source.home = [] := rfl
    refine ⟨_, h.reachable.step (Home.History.step_of_exec hexec), ?_, ?_, h.state, h.updater, ?_⟩
    · rw [hnone, List.append_nil, h.dispatched]
    · rw [Home.updates_append, List.length_append, h.updates]
      rfl
    · rw [Home.History.leaves_exec (Home.effect_of_exec hexec), hnone]
      simpa using hinStep

/-- Three messages of two transactions, answered backwards. -/
theorem fetchSortedMessages_eq_reversed : ∃ (source : Home.History ℕ) (messages : _),
    (dispatches source.log).length = 3 ∧
      fetchSortedMessages (dispatches source.log).reverse = .ok messages ∧
      messages.map (fun m => m.leafIndex.toNat) = [0, 1, 2] := by
  obtain ⟨source, h⟩ := exists_sampleHome (n := 3) (k := 3) (by decide) le_rfl
  obtain ⟨hall, hwhole⟩ :=
    fetchSortedMessages_eq ⟨[], 0, 10⟩ h.reachable (sampleLogs_ofHome source)
  refine ⟨source, _, ?_, hall 0 6 _ ?_, ?_⟩
  · rw [(Home.History.numbered_of_reachable h.reachable).length_dispatches, h.dispatched]
  · rw [sampleLogs, window_inPlace, map_inPlace]
    exact List.reverse_perm _
  · rw [(hwhole 6 fun e he => blockNumber_inPlace he).1, h.dispatched]
    rfl

/-- Two updates of one transaction and one of a later one. The node may answer the later
transaction first, but not in every order. -/
theorem fetchSortedUpdates_of_home_three : ∃ (source : Home.History ℕ) (settings : Settings ℕ)
    (a b c : UpdateFilter ℕ × LogMeta), (sampleLogs source).updates = [a, b, c] ∧
    a.2.transaction = b.2.transaction ∧ b.2.transaction < c.2.transaction ∧
    fetchSortedUpdates [c, a, b] =
      .ok ((syncUpdates sampleCrypto settings (sampleLogs source).chain).fetch 0 6) ∧
    ¬ ∀ answer, answer.Perm (window 0 6 (sampleLogs source).updates) →
      fetchSortedUpdates answer =
        .ok ((syncUpdates sampleCrypto settings (sampleLogs source).chain).fetch 0 6) := by
  obtain ⟨source, h⟩ := exists_sampleHome (n := 3) (k := 3) (by decide) le_rfl
  have hlength := h.updates
  rw [updates_eq, List.length_map, List.length_eq_three] at hlength
  obtain ⟨x, y, z, hevents⟩ := hlength
  have hupdates : (sampleLogs source).updates =
      [(x, ⟨5, 0, 0⟩), (y, ⟨5, 0, 1⟩), (z, ⟨6, 0, 2⟩)] := congrArg inPlace hevents
  obtain ⟨hanswers, hiff⟩ := fetchSortedUpdates_of_home ⟨[], 0, 10⟩ sampleIdeal
    length_of_sampleRecover h.reachable (sampleLogs_ofHome source) 0 6
  have hwindow : window 0 6 (sampleLogs source).updates = (sampleLogs source).updates :=
    window_inPlace _
  rw [hwindow, hupdates] at hanswers hiff
  have hlater : LogMeta.transaction ⟨5, 0, 1⟩ < LogMeta.transaction ⟨6, 0, 2⟩ := by decide
  refine ⟨source, ⟨[], 0, 10⟩, _, _, _, hupdates, rfl, hlater, hanswers _ ?_, ?_⟩
  · -- a transaction is the first one, the second one or neither
    intro transaction
    by_cases hfirst : toLex (5, 0) = transaction
    · subst hfirst
      rfl
    · by_cases hsecond : toLex (6, 0) = transaction
      · subst hsecond
        rfl
      · simp [ofKey, LogMeta.transaction, hfirst, hsecond]
  · rw [hwindow, hupdates]
    intro hall
    exact (List.pairwise_cons.mp (hiff.mp hall)).1 _ List.mem_cons_self rfl

end Sample

end Optics.EventIndexer
