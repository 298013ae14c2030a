/-
# Tree, queue and committed root of Home

The committed root is always the root of a prefix of the dispatched messages,
and the queue lists the roots of the longer prefixes, shortest first. With an
ideal hash the prefix roots are pairwise different, so an update to a queued
root has one position to go to and its dequeue loop stops there.
-/

import Optics.Core.HomeHistory

namespace Optics.Home

open Optics.Solidity Optics.Common Optics.Math.Transition

variable {Byte : Type} [ByteAlphabet Byte]

section Roots

variable (K : Crypto Byte)

/-- The committed root after the first `k` leaves: zero before the first update. -/
def prefixRoot (leaves : List (Bytes32 Byte)) (k : ℕ) : Bytes32 Byte :=
  if k = 0 then 0 else MerkleLib.treeRoot K (leaves.take k)

/-- The roots of all prefixes longer than `k`, shortest first. -/
def pendingRoots (leaves : List (Bytes32 Byte)) (k : ℕ) : List (Bytes32 Byte) :=
  (List.range' (k + 1) (leaves.length - k)).map (prefixRoot K leaves)

/-- The root is that of some prefix of the leaves. -/
def IsPrefixRoot (leaves : List (Bytes32 Byte)) (root : Bytes32 Byte) : Prop :=
  ∃ k ≤ leaves.length, root = prefixRoot K leaves k

end Roots

section PrefixRoots

variable {K : Crypto Byte} {leaves : List (Bytes32 Byte)} {k j : ℕ} {root : Bytes32 Byte}

@[simp] theorem prefixRoot_zero : prefixRoot K leaves 0 = 0 := if_pos rfl

theorem prefixRoot_of_pos (h : 0 < k) :
    prefixRoot K leaves k = MerkleLib.treeRoot K (leaves.take k) := if_neg (by omega)

theorem prefixRoot_length_append (leaf : Bytes32 Byte) :
    prefixRoot K (leaves ++ [leaf]) (leaves.length + 1) =
      MerkleLib.treeRoot K (leaves ++ [leaf]) := by
  rw [prefixRoot_of_pos (Nat.succ_pos _), List.take_of_length_le (by simp)]

/-- Later leaves do not change the root of a prefix. -/
theorem prefixRoot_append (h : k ≤ leaves.length) (more : List (Bytes32 Byte)) :
    prefixRoot K (leaves ++ more) k = prefixRoot K leaves k := by
  rw [prefixRoot, prefixRoot, List.take_append_of_le_length h]

theorem IsPrefixRoot.append (h : IsPrefixRoot K leaves root) (more : List (Bytes32 Byte)) :
    IsPrefixRoot K (leaves ++ more) root := by
  obtain ⟨k, hk, rfl⟩ := h
  refine ⟨k, ?_, (prefixRoot_append hk more).symm⟩
  rw [List.length_append]
  exact hk.trans (Nat.le_add_right _ _)

theorem isPrefixRoot_zero : IsPrefixRoot K leaves 0 := ⟨0, Nat.zero_le _, prefixRoot_zero.symm⟩

theorem length_pendingRoots : (pendingRoots K leaves k).length = leaves.length - k := by
  simp [pendingRoots]

theorem mem_pendingRoots :
    root ∈ pendingRoots K leaves k ↔
      ∃ j, k < j ∧ j ≤ leaves.length ∧ prefixRoot K leaves j = root := by
  simp only [pendingRoots, List.mem_map, List.mem_range'_1]
  constructor
  · rintro ⟨j, ⟨hlow, hhigh⟩, hroot⟩
    exact ⟨j, hlow, by omega, hroot⟩
  · rintro ⟨j, hlow, hhigh, hroot⟩
    exact ⟨j, ⟨hlow, by omega⟩, hroot⟩

/-- Dispatching enqueues the root of the whole tree. -/
theorem pendingRoots_append (h : k ≤ leaves.length) (leaf : Bytes32 Byte) :
    pendingRoots K (leaves ++ [leaf]) k =
      pendingRoots K leaves k ++ [MerkleLib.treeRoot K (leaves ++ [leaf])] := by
  have hlength : (leaves ++ [leaf]).length - k = leaves.length - k + 1 := by
    rw [List.length_append, List.length_singleton]
    omega
  have hold : (List.range' (k + 1) (leaves.length - k)).map (prefixRoot K (leaves ++ [leaf])) =
      pendingRoots K leaves k := by
    refine List.map_congr_left fun j hj => prefixRoot_append ?_ _
    rw [List.mem_range'_1] at hj
    omega
  have hlast : k + 1 + 1 * (leaves.length - k) = leaves.length + 1 := by omega
  rw [pendingRoots, hlength, List.range'_concat, List.map_append, hold, List.map_singleton, hlast,
    prefixRoot_length_append]

/-- The queue around the position of a longer prefix. -/
theorem pendingRoots_split (hlow : k < j) (hhigh : j ≤ leaves.length) :
    pendingRoots K leaves k = (List.range' (k + 1) (j - (k + 1))).map (prefixRoot K leaves) ++
      prefixRoot K leaves j :: pendingRoots K leaves j := by
  have hlength : leaves.length - k = (j - (k + 1)) + (leaves.length - j + 1) := by omega
  have hstart : k + 1 + 1 * (j - (k + 1)) = j := by omega
  rw [pendingRoots, hlength, ← List.range'_append, hstart, List.range'_succ, List.map_append,
    List.map_cons, pendingRoots]

section Ideal

variable (ideal : Crypto.IdealHash K)
include ideal

/-- Different prefixes have different roots, and no root is zero. -/
theorem prefixRoot_injOn (hfit : leaves.length ≤ MerkleLib.MAX_LEAVES) (hne : 0 ∉ leaves)
    (hk : k ≤ leaves.length) (hj : j ≤ leaves.length)
    (h : prefixRoot K leaves k = prefixRoot K leaves j) : k = j := by
  rcases Nat.eq_zero_or_pos k with rfl | hkpos
  · rcases Nat.eq_zero_or_pos j with rfl | hjpos
    · rfl
    · rw [prefixRoot_zero, prefixRoot_of_pos hjpos] at h
      exact absurd h.symm (MerkleLib.treeRoot_ne_zero ideal _)
  · rcases Nat.eq_zero_or_pos j with rfl | hjpos
    · rw [prefixRoot_zero, prefixRoot_of_pos hkpos] at h
      exact absurd h (MerkleLib.treeRoot_ne_zero ideal _)
    · rw [prefixRoot_of_pos hkpos, prefixRoot_of_pos hjpos] at h
      have htake : ∀ i, 0 ∉ leaves.take i := fun i hmem => hne (List.mem_of_mem_take hmem)
      have hsize : ∀ i, (leaves.take i).length ≤ MerkleLib.MAX_LEAVES := fun i =>
        (List.length_take_le' i leaves).trans hfit
      have hlength := MerkleLib.length_eq_of_treeRoot_eq ideal (hsize k) (hsize j) (htake k)
        (htake j) h
      rwa [List.length_take_of_le hk, List.length_take_of_le hj] at hlength

theorem pendingRoots_nodup (hfit : leaves.length ≤ MerkleLib.MAX_LEAVES) (hne : 0 ∉ leaves) :
    (pendingRoots K leaves k).Nodup := by
  refine List.Nodup.map_on (fun i hi j hj h => ?_) List.nodup_range'
  rw [List.mem_range'_1] at hi hj
  exact prefixRoot_injOn ideal hfit hne (by omega) (by omega) h

/-- A nonzero item proven under the root of a prefix is one of the leaves. -/
theorem mem_leaves_of_branchRoot {item : Bytes32 Byte} {branch : ℕ → Bytes32 Byte} {index : ℕ}
    (hroot : IsPrefixRoot K leaves (MerkleLib.branchRoot K item branch index)) (hitem : item ≠ 0) :
    item ∈ leaves := by
  obtain ⟨k, -, hk⟩ := hroot
  rcases Nat.eq_zero_or_pos k with rfl | hpos
  · exact absurd hk (MerkleLib.branchRoot_ne_zero ideal _ _ _)
  · rw [prefixRoot_of_pos hpos] at hk
    exact List.mem_of_mem_take (MerkleLib.mem_of_branchRoot ideal hk hitem)

end Ideal

end PrefixRoots

/-! ### The invariant -/

variable {K : Crypto Byte}

/-- The three stores of a Home are in step: with `k` of the leaves committed,
the queue holds the roots of all longer prefixes between its indices. -/
structure InStep (K : Crypto Byte) (home : Home Byte) (leaves : List (Bytes32 Byte)) (k : ℕ) :
    Prop where
  k_le : k ≤ leaves.length
  tree : home.tree.Represents K leaves
  committedRoot_eq : home.committedRoot = prefixRoot K leaves k
  queue : home.queue.Represents (pendingRoots K leaves k)
  first_eq : home.queue.first.toNat = k + 1

variable {home : Home Byte} {leaves : List (Bytes32 Byte)} {k j : ℕ}

namespace InStep

theorem last_eq (h : InStep K home leaves k) : home.queue.last.toNat = leaves.length := by
  have hindices := h.queue.last_eq
  have hle := h.k_le
  rw [length_pendingRoots, h.first_eq] at hindices
  omega

/-- The queue indices are far from wrapping. -/
theorem last_lt (h : InStep K home leaves k) : home.queue.last.toNat + 1 < 2 ^ 128 := by
  have hfit := h.tree.fits
  rw [h.last_eq]
  simp only [MerkleLib.MAX_LEAVES, MerkleLib.TREE_DEPTH] at hfit
  omega

/-- What Home suggests: an update to the root of all leaves, if there are any
that are not committed. -/
theorem suggestUpdate_eq (h : InStep K home leaves k) :
    suggestUpdate home =
      if k < leaves.length then (home.committedRoot, MerkleLib.treeRoot K leaves) else (0, 0) := by
  have hlength := h.queue.length_eq
  rw [length_pendingRoots] at hlength
  rw [suggestUpdate, hlength]
  by_cases hlt : k < leaves.length
  · have hlast : home.queue.lastItem = MerkleLib.treeRoot K leaves := by
      rw [h.queue.lastItem_eq, pendingRoots_split hlt le_rfl, pendingRoots, Nat.sub_self,
        List.range'_zero, List.map_nil, List.getLastD_concat,
        prefixRoot_of_pos (Nat.zero_lt_of_lt hlt), List.take_length]
    rw [if_pos (by omega), if_pos hlt, hlast]
  · rw [if_neg (by omega), if_neg hlt]

/-- Only tree, queue and committed root matter. -/
theorem congr {home' : Home Byte} (h : InStep K home leaves k) (htree : home'.tree = home.tree)
    (hqueue : home'.queue = home.queue) (hroot : home'.committedRoot = home.committedRoot) :
    InStep K home' leaves k where
  k_le := h.k_le
  tree := htree ▸ h.tree
  committedRoot_eq := hroot.trans h.committedRoot_eq
  queue := hqueue ▸ h.queue
  first_eq := (congrArg (fun q => q.first.toNat) hqueue).trans h.first_eq

variable [DecidableEq Byte]

theorem contains_iff (h : InStep K home leaves k) {root : Bytes32 Byte} :
    home.queue.contains root = true ↔
      ∃ j, k < j ∧ j ≤ leaves.length ∧ prefixRoot K leaves j = root := by
  rw [h.queue.contains_iff, mem_pendingRoots]

/-- A new leaf keeps the stores in step. -/
theorem dispatch (h : InStep K home leaves k) {leaf : Bytes32 Byte} {tree : MerkleLib.Tree Byte}
    (nonces : UInt32 → UInt32) (hinsert : MerkleLib.insert K home.tree leaf = .ok tree) :
    InStep K { home with
      nonces := nonces, tree := tree, queue := home.queue.enqueue (MerkleLib.root K tree) }
      (leaves ++ [leaf]) k := by
  obtain ⟨-, hrep⟩ := h.tree.of_insert hinsert
  refine ⟨?_, hrep, ?_, ?_, h.first_eq⟩
  · rw [List.length_append]
    exact h.k_le.trans (Nat.le_add_right _ _)
  · rw [prefixRoot_append h.k_le]
    exact h.committedRoot_eq
  · rw [pendingRoots_append h.k_le, ← hrep.root_eq]
    exact h.queue.enqueue _ h.last_lt

end InStep

section Loop

variable [DecidableEq Byte] {q : QueueLib.Queue (Bytes32 Byte)} {item : Bytes32 Byte}
  {front back : List (Bytes32 Byte)}

/-- One turn of the dequeue loop. -/
theorem dequeueUntil_of_dequeue {next : Bytes32 Byte} {rest : QueueLib.Queue (Bytes32 Byte)}
    (h : q.dequeue = .ok (next, rest)) :
    dequeueUntil item q = if next = item then .ok rest else dequeueUntil item rest := by
  rw [dequeueUntil]
  split
  · next hfail => cases h.symm.trans hfail
  · next hok =>
    obtain ⟨rfl, rfl⟩ := Prod.mk.inj (Except.ok.inj (h.symm.trans hok))
    rfl

/-- The dequeue loop drops everything up to the first occurrence of its root. -/
theorem dequeueUntil_eq (h : q.Represents (front ++ item :: back)) (hfirst : item ∉ front)
    (hroom : q.last.toNat + 1 < 2 ^ 128) :
    ∃ q', dequeueUntil item q = .ok q' ∧ q'.Represents back ∧
      q'.first.toNat = q.first.toNat + front.length + 1 := by
  induction front generalizing q with
  | nil =>
    obtain ⟨q', hdequeue, hrep, hindex, -⟩ := h.dequeue_cons hroom
    refine ⟨q', ?_, hrep, hindex⟩
    rw [dequeueUntil_of_dequeue hdequeue, if_pos rfl]
  | cons next front ih =>
    obtain ⟨hne, hrest⟩ := List.ne_and_not_mem_of_not_mem_cons hfirst
    obtain ⟨q₁, hdequeue, hrep, hindex, hlast⟩ := h.dequeue_cons hroom
    obtain ⟨q', hloop, hback, hindex'⟩ := ih hrep hrest (hlast ▸ hroom)
    refine ⟨q', ?_, hback, ?_⟩
    · rw [dequeueUntil_of_dequeue hdequeue, if_neg (Ne.symm hne), hloop]
    · rw [hindex', hindex, List.length_cons]
      omega

end Loop

namespace InStep

variable [DecidableEq Byte]

section Ideal

variable (ideal : Crypto.IdealHash K)
include ideal

/-- Committing the root of a longer prefix runs the dequeue loop to the end and
moves the committed position there. -/
theorem commit (h : InStep K home leaves k) (hne : 0 ∉ leaves) (hlow : k < j)
    (hhigh : j ≤ leaves.length) :
    ∃ queue, dequeueUntil (prefixRoot K leaves j) home.queue = .ok queue ∧
      InStep K { home with queue := queue, committedRoot := prefixRoot K leaves j } leaves j := by
  have hsplit := h.queue
  rw [pendingRoots_split hlow hhigh] at hsplit
  have hfront : prefixRoot K leaves j ∉
      (List.range' (k + 1) (j - (k + 1))).map (prefixRoot K leaves) := by
    intro hmem
    obtain ⟨i, hi, heq⟩ := List.mem_map.mp hmem
    rw [List.mem_range'_1] at hi
    have hij := prefixRoot_injOn ideal h.tree.fits hne (by omega) hhigh heq
    omega
  obtain ⟨queue, hloop, hrep, hindex⟩ := dequeueUntil_eq hsplit hfront h.last_lt
  refine ⟨queue, hloop, hhigh, h.tree, rfl, hrep, ?_⟩
  rw [hindex, h.first_eq, List.length_map, List.length_range']
  omega

/-- Whatever the loop of an accepted update leaves, it is the queue at the
position of the new root. -/
theorem of_committed (h : InStep K home leaves k) (hne : 0 ∉ leaves) {newRoot : Bytes32 Byte}
    {queue : QueueLib.Queue (Bytes32 Byte)} (hqueued : home.queue.contains newRoot = true)
    (hloop : dequeueUntil newRoot home.queue = .ok queue) :
    ∃ j, k < j ∧ j ≤ leaves.length ∧ newRoot = prefixRoot K leaves j ∧
      InStep K { home with queue := queue, committedRoot := newRoot } leaves j := by
  obtain ⟨j, hlow, hhigh, rfl⟩ := h.contains_iff.mp hqueued
  obtain ⟨queue', hloop', hstep⟩ := h.commit ideal hne hlow hhigh
  obtain rfl := Except.ok.inj (hloop.symm.trans hloop')
  exact ⟨j, hlow, hhigh, rfl, hstep⟩

end Ideal

end InStep

/-! ### Over a history -/

variable [DecidableEq Byte]

/-- The invariant of a history: the stores are in step with the dispatched
messages, and the accepted updates lead from zero to the committed root along
prefixes of growing length. -/
structure History.Sound (K : Crypto Byte) (history : History Byte) (k : ℕ) : Prop where
  inStep : InStep K history.home (history.leaves K) k
  chain : UpdateChain 0 (updates history.log) history.home.committedRoot
  positions : ∀ u ∈ updates history.log, ∃ i j, i < j ∧ j ≤ k ∧
    u.oldRoot = prefixRoot K (history.leaves K) i ∧ u.newRoot = prefixRoot K (history.leaves K) j

omit [DecidableEq Byte] in
theorem History.zero_notMem_leaves (ideal : Crypto.IdealHash K) (history : History Byte) :
    0 ∉ history.leaves K := by
  intro hmem
  obtain ⟨d, -, hzero⟩ := List.mem_map.mp hmem
  exact ideal.ne_zero _ hzero

omit [DecidableEq Byte] in
theorem History.Initial.sound {history : History Byte} (h : history.Initial) :
    history.Sound K 0 := by
  obtain ⟨domain, ctx, manager, updater, home, events, hinit, rfl⟩ := h
  rw [Home.init, bind_eq_ok] at hinit
  obtain ⟨⟨home₁, events₁⟩, hmanager, hinit⟩ := hinit
  rw [_setUpdaterManager, require_bind_eq_ok] at hmanager
  obtain ⟨-, hmanager⟩ := hmanager
  obtain ⟨rfl, rfl⟩ := Prod.mk.inj (Except.ok.inj hmanager)
  obtain ⟨rfl, rfl⟩ := Prod.mk.inj (Except.ok.inj hinit)
  refine ⟨⟨Nat.le_refl _, MerkleLib.represents_fresh, prefixRoot_zero.symm, ?_, rfl⟩, rfl, ?_⟩
  · exact QueueLib.Queue.represents_init
  · intro u hu
    cases hu

section Step

variable {ctx : Context Byte} {call : Call Byte} {home' : Home Byte} {events : List (Event Byte)}
  {history history' : History Byte}

theorem Effect.localDomain_eq (h : Effect K ctx home call home' events) :
    home'.localDomain = home.localDomain := by
  cases h <;> rfl

/-- **Step lemma.** A call keeps the stores in step. Either it commits nothing
and the position stays, or it accepts one update from the committed root to the
root of a longer prefix. -/
theorem Effect.inStep (ideal : Crypto.IdealHash K) (h : Effect K ctx home call home' events)
    (hin : InStep K home leaves k) (hne : 0 ∉ leaves) :
    ∃ k', InStep K home' (leaves ++ (call.dispatched ctx home).map
        fun d => K.keccak256 (d.message home.localDomain)) k' ∧
      ((updates events = [] ∧ k' = k ∧ home'.committedRoot = home.committedRoot) ∨
        ∃ u, call = .update u ∧ updates events = [u] ∧ k < k' ∧
          u.oldRoot = home.committedRoot ∧ home'.committedRoot = u.newRoot) := by
  cases h with
  | dispatched destination recipient body d tree hd hstate hbody hinsert =>
    subst hd
    exact ⟨k, hin.dispatch _ hinsert, .inl ⟨rfl, rfl, rfl⟩⟩
  | committed u queue hstate hsigned hcurrent hqueued hloop =>
    obtain ⟨j, hlow, -, -, hstep⟩ := hin.of_committed ideal hne hqueued hloop
    refine ⟨j, ?_, .inr ⟨u, rfl, rfl, hlow, hcurrent, rfl⟩⟩
    simpa [Call.dispatched] using hstep
  | slashed updater manager hstate hfraud hevents =>
    refine ⟨k, ?_, .inl ⟨updates_eq_nil hevents, rfl, rfl⟩⟩
    rw [hfraud.dispatched_eq_nil, List.map_nil, List.append_nil]
    exact hin.congr rfl rfl rfl
  | unchanged hquiet =>
    refine ⟨k, ?_, .inl ⟨rfl, rfl, rfl⟩⟩
    rw [hquiet, List.map_nil, List.append_nil]
    exact hin
  | newUpdater updater hsender =>
    have hstep : InStep K { home with updater := updater } leaves k := hin.congr rfl rfl rfl
    exact ⟨k, by simpa [Call.dispatched] using hstep, .inl ⟨rfl, rfl, rfl⟩⟩
  | newUpdaterManager manager hsender =>
    have hstep : InStep K { home with updaterManager := manager } leaves k :=
      hin.congr rfl rfl rfl
    exact ⟨k, by simpa [Call.dispatched] using hstep, .inl ⟨rfl, rfl, rfl⟩⟩

theorem History.exec_eq_ok {tx : Context Byte × Call Byte} :
    History.exec K tx history = .ok history' ↔
      ∃ home' events, Home.exec K tx.1 tx.2 history.home = .ok (home', events) ∧
        history' = ⟨home', history.log ++ events,
          history.dispatched ++ tx.2.dispatched tx.1 history.home⟩ := by
  rw [History.exec, bind_eq_ok]
  constructor
  · rintro ⟨⟨home', events⟩, hexec, h⟩
    exact ⟨home', events, hexec, (Except.ok.inj h).symm⟩
  · rintro ⟨home', events, hexec, rfl⟩
    exact ⟨(home', events), hexec, rfl⟩

theorem History.step_of_exec (h : Home.exec K ctx call history.home = .ok (home', events)) :
    (system K).step history (ctx, call) ⟨home', history.log ++ events,
      history.dispatched ++ call.dispatched ctx history.home⟩ :=
  .inl (History.exec_eq_ok.mpr ⟨home', events, h, rfl⟩)

/-- What a call adds to the leaves. -/
theorem History.leaves_exec {ctx : Context Byte} {call : Call Byte}
    (h : Effect K ctx history.home call home' events) :
    History.leaves K ⟨home', history.log ++ events,
        history.dispatched ++ call.dispatched ctx history.home⟩ =
      history.leaves K ++ (call.dispatched ctx history.home).map
        fun d => K.keccak256 (d.message history.home.localDomain) := by
  simp only [History.leaves, h.localDomain_eq, List.map_append]

theorem History.Sound.exec (ideal : Crypto.IdealHash K) (h : history.Sound K k)
    {tx : Context Byte × Call Byte} (hexec : History.exec K tx history = .ok history') :
    ∃ k', history'.Sound K k' ∧ k ≤ k' := by
  obtain ⟨home', events, hok, rfl⟩ := History.exec_eq_ok.mp hexec
  have heffect := effect_of_exec hok
  have hleaves := History.leaves_exec heffect
  obtain ⟨k', hin, hcases⟩ := heffect.inStep ideal h.inStep (history.zero_notMem_leaves ideal)
  rw [← hleaves] at hin
  -- positions of earlier updates survive new leaves
  have hold : ∀ u ∈ updates history.log, ∃ i j, i < j ∧ j ≤ k ∧
      u.oldRoot = prefixRoot K (History.leaves K ⟨home', history.log ++ events,
        history.dispatched ++ tx.2.dispatched tx.1 history.home⟩) i ∧
      u.newRoot = prefixRoot K (History.leaves K ⟨home', history.log ++ events,
        history.dispatched ++ tx.2.dispatched tx.1 history.home⟩) j := by
    intro u hu
    obtain ⟨i, j, hij, hj, hfrom, hto⟩ := h.positions u hu
    have hle := h.inStep.k_le
    refine ⟨i, j, hij, hj, ?_, ?_⟩
    · rw [hleaves, prefixRoot_append (by omega)]
      exact hfrom
    · rw [hleaves, prefixRoot_append (by omega)]
      exact hto
  rcases hcases with ⟨hnone, rfl, hroot⟩ | ⟨u, hcall, hone, hlt, hfrom, hto⟩
  · have hsame : updates (history.log ++ events) = updates history.log := by
      rw [updates_append, hnone, List.append_nil]
    refine ⟨k', ⟨hin, ?_, ?_⟩, Nat.le_refl _⟩
    · rw [hsame]
      exact hroot ▸ h.chain
    · rw [hsame]
      exact hold
  · have hsnoc : updates (history.log ++ events) = updates history.log ++ [u] := by
      rw [updates_append, hone]
    refine ⟨k', ⟨hin, ?_, ?_⟩, hlt.le⟩
    · rw [hsnoc, hto]
      exact (hfrom ▸ h.chain).snoc
    · rw [hsnoc]
      intro v hv
      rcases List.mem_append.mp hv with hv | hv
      · obtain ⟨i, j, hij, hj, hroots⟩ := hold v hv
        exact ⟨i, j, hij, hj.trans hlt.le, hroots⟩
      · obtain rfl := List.mem_singleton.mp hv
        refine ⟨k, k', hlt, Nat.le_refl _, ?_, hto ▸ hin.committedRoot_eq⟩
        rw [hleaves, prefixRoot_append h.inStep.k_le, hfrom]
        exact h.inStep.committedRoot_eq

omit [DecidableEq Byte] in
/-- Home never returns to a committed root that it has left. -/
theorem History.Sound.oldRoot_ne (ideal : Crypto.IdealHash K) (h : history.Sound K k)
    {u : SignedUpdate Byte} (hu : u ∈ updates history.log) :
    u.oldRoot ≠ history.home.committedRoot := by
  obtain ⟨i, j, hij, hj, hold, -⟩ := h.positions u hu
  have hin := h.inStep
  have hle := hin.k_le
  rw [hold, hin.committedRoot_eq]
  intro heq
  have hik := prefixRoot_injOn ideal hin.tree.fits (history.zero_notMem_leaves ideal) (by omega)
    hin.k_le heq
  omega

/-- **Run lemma.** Every reachable history is sound at some position. -/
theorem History.sound_of_reachable (ideal : Crypto.IdealHash K)
    (h : (system K).Reachable history) : ∃ k, history.Sound K k := by
  refine h.invariant (P := fun history => ∃ k, history.Sound K k) ?_ ?_
  · intro history hinit
    exact ⟨0, hinit.sound⟩
  · intro history tx history' hreach hsound hstep
    refine callStep_cases (P := fun _ t => ∃ k, t.Sound K k) hstep ?_ hsound
    intro t hexec
    obtain ⟨k, hk⟩ := hsound
    obtain ⟨k', hk', -⟩ := hk.exec ideal hexec
    exact ⟨k', hk'⟩

/-- Home accepts at most one update from each old root. -/
theorem History.update_unique (ideal : Crypto.IdealHash K) (h : (system K).Reachable history) :
    ∀ u ∈ updates history.log, ∀ v ∈ updates history.log, u.oldRoot = v.oldRoot → u = v := by
  refine h.invariant (P := fun history => ∀ u ∈ updates history.log, ∀ v ∈ updates history.log,
    u.oldRoot = v.oldRoot → u = v) ?_ ?_
  · intro history hinit u hu
    rw [hinit.updates_eq] at hu
    cases hu
  · intro history tx history' hreach hunique hstep
    refine callStep_cases (P := fun _ t => ∀ u ∈ updates t.log, ∀ v ∈ updates t.log,
      u.oldRoot = v.oldRoot → u = v) hstep ?_ hunique
    intro t hexec
    obtain ⟨k, hsound⟩ := History.sound_of_reachable ideal hreach
    obtain ⟨home', events, hok, rfl⟩ := History.exec_eq_ok.mp hexec
    obtain ⟨k', -, hcases⟩ := (effect_of_exec hok).inStep ideal hsound.inStep
      (history.zero_notMem_leaves ideal)
    rcases hcases with ⟨hnone, -⟩ | ⟨w, -, hone, -, hfrom, -⟩
    · rw [updates_append, hnone, List.append_nil]
      exact hunique
    · -- the new update starts at a committed root that no earlier one started at
      have hfresh : ∀ u ∈ updates history.log, u.oldRoot ≠ w.oldRoot := fun u hu =>
        hfrom.symm ▸ hsound.oldRoot_ne ideal hu
      intro u hu v hv hold
      rw [updates_append, hone] at hu hv
      rcases List.mem_append.mp hu with hu | hu
      · rcases List.mem_append.mp hv with hv | hv
        · exact hunique u hu v hv hold
        · exact absurd (hold.trans (congrArg _ (List.mem_singleton.mp hv))) (hfresh u hu)
      · rcases List.mem_append.mp hv with hv | hv
        · exact absurd (hold.symm.trans (congrArg _ (List.mem_singleton.mp hu))) (hfresh v hv)
        · exact (List.mem_singleton.mp hu).trans (List.mem_singleton.mp hv).symm

/-- Home never accepts an update to a root that it has had. -/
theorem History.newRoots_nodup (ideal : Crypto.IdealHash K) (h : (system K).Reachable history) :
    (0 :: (updates history.log).map SignedUpdate.newRoot).Nodup := by
  refine h.invariant (P := fun history =>
    (0 :: (updates history.log).map SignedUpdate.newRoot).Nodup) ?_ ?_
  · intro history hinit
    rw [hinit.updates_eq]
    exact List.nodup_singleton 0
  · intro history tx history' hreach hnodup hstep
    refine callStep_cases (P := fun _ t => (0 :: (updates t.log).map SignedUpdate.newRoot).Nodup)
      hstep ?_ hnodup
    intro t hexec
    obtain ⟨k, hsound⟩ := History.sound_of_reachable ideal hreach
    obtain ⟨home', events, hok, rfl⟩ := History.exec_eq_ok.mp hexec
    have heffect := effect_of_exec hok
    obtain ⟨k', hin, hcases⟩ := heffect.inStep ideal hsound.inStep
      (history.zero_notMem_leaves ideal)
    rw [← History.leaves_exec heffect] at hin
    rcases hcases with ⟨hnone, -⟩ | ⟨w, -, hone, hlt, -, hto⟩
    · rw [updates_append, hnone, List.append_nil]
      exact hnodup
    · rw [updates_append, hone, List.map_append, ← List.cons_append]
      refine List.nodup_append'.mpr ⟨hnodup, List.nodup_singleton _, fun root hroot hlast => ?_⟩
      -- the roots so far are those of prefixes that are shorter than the new one
      obtain ⟨j, hj, hold⟩ : ∃ j ≤ k, root = prefixRoot K (history.leaves K) j := by
        rcases List.mem_cons.mp hroot with rfl | hroot
        · exact ⟨0, Nat.zero_le k, prefixRoot_zero.symm⟩
        · obtain ⟨v, hv, rfl⟩ := List.mem_map.mp hroot
          obtain ⟨-, j, -, hj, -, hnew⟩ := hsound.positions v hv
          exact ⟨j, hj, hnew⟩
      have hnew : root = w.newRoot := List.mem_singleton.mp hlast
      rw [hnew, ← hto, hin.committedRoot_eq, ← prefixRoot_append (hj.trans hsound.inStep.k_le)
        ((tx.2.dispatched tx.1 history.home).map fun d =>
          K.keccak256 (d.message history.home.localDomain)), ← History.leaves_exec heffect] at hold
      have hle := hin.k_le
      have heq := prefixRoot_injOn ideal hin.tree.fits (History.zero_notMem_leaves ideal _) hle
        (by omega) hold
      omega

end Step

/-! ### The stores of a reachable Home -/

/-- The stores of a Home with `k` of its dispatched messages committed. The
queue holds exactly the roots of the longer prefixes, in order and without
repetition, between indices equal to the true counts. An update that passes its
checks and names a queued root gets through the dequeue loop and ends at the
position of that root. -/
structure StoresInStep (K : Crypto Byte) (history : History Byte) (k : ℕ) : Prop where
  position : k ≤ history.dispatched.length
  count : history.home.tree.count = history.dispatched.length
  leaves : history.home.tree.Represents K (history.leaves K)
  root : MerkleLib.root K history.home.tree = MerkleLib.treeRoot K (history.leaves K)
  committedRoot : history.home.committedRoot =
    if k = 0 then 0 else MerkleLib.treeRoot K ((history.leaves K).take k)
  queue : history.home.queue.Represents
    ((List.range' (k + 1) (history.dispatched.length - k)).map fun j =>
      MerkleLib.treeRoot K ((history.leaves K).take j))
  distinct : ((List.range' (k + 1) (history.dispatched.length - k)).map fun j =>
    MerkleLib.treeRoot K ((history.leaves K).take j)).Nodup
  first : history.home.queue.first.toNat = k + 1
  last : history.home.queue.last.toNat = history.dispatched.length
  bound : history.dispatched.length < 2 ^ 32
  update : ∀ newRoot, history.home.queue.contains newRoot = true →
    ∃ j queue, k < j ∧ j ≤ history.dispatched.length ∧
      newRoot = MerkleLib.treeRoot K ((history.leaves K).take j) ∧
      dequeueUntil newRoot history.home.queue = .ok queue ∧
      queue.first.toNat = j + 1 ∧ queue.last = history.home.queue.last ∧
      ∀ ctx signature, history.home.state ≠ .Failed →
        IsSignedBy K history.home.localDomain history.home.updater
          ⟨history.home.committedRoot, newRoot, signature⟩ →
        Home.update K ctx history.home.committedRoot newRoot signature history.home =
          .ok ({ history.home with queue := queue, committedRoot := newRoot },
            [.Update history.home.localDomain ⟨history.home.committedRoot, newRoot, signature⟩])

omit [DecidableEq Byte] in
theorem pendingRoots_eq (leaves : List (Bytes32 Byte)) (k : ℕ) :
    pendingRoots K leaves k = (List.range' (k + 1) (leaves.length - k)).map fun j =>
      MerkleLib.treeRoot K (leaves.take j) := by
  refine List.map_congr_left fun j hj => prefixRoot_of_pos ?_
  rw [List.mem_range'_1] at hj
  omega

/-- A signed update from the committed root to a queued root is carried out. -/
theorem update_of_queued {ctx : Context Byte} {newRoot : Bytes32 Byte} {signature : List Byte}
    {queue : QueueLib.Queue (Bytes32 Byte)} (hstate : home.state ≠ .Failed)
    (hsigned : IsSignedBy K home.localDomain home.updater ⟨home.committedRoot, newRoot, signature⟩)
    (hqueued : home.queue.contains newRoot = true)
    (hloop : dequeueUntil newRoot home.queue = .ok queue) :
    Home.update K ctx home.committedRoot newRoot signature home =
      .ok ({ home with queue := queue, committedRoot := newRoot },
        [.Update home.localDomain ⟨home.committedRoot, newRoot, signature⟩]) := by
  have himproper : improperUpdate K ctx home.committedRoot newRoot signature home =
      .ok (false, home, []) := by
    rw [improperUpdate, notFailed, require_of hstate, ok_bind,
      _isUpdaterSignature_eq_true.mpr hsigned, ok_bind, require_of rfl, ok_bind, require_of rfl,
      ok_bind, if_pos hqueued]
  rw [Home.update, notFailed, require_of hstate, ok_bind, himproper, ok_bind]
  simp [hloop]

/-- Home accepts a signed update to the root of a longer prefix. -/
theorem exec_update_of_lt (ideal : Crypto.IdealHash K) (hin : InStep K home leaves k)
    (hne : 0 ∉ leaves) (hlow : k < j) (hhigh : j ≤ leaves.length) (ctx : Context Byte)
    {u : SignedUpdate Byte} (hold : u.oldRoot = home.committedRoot)
    (hnew : u.newRoot = prefixRoot K leaves j) (hstate : home.state ≠ .Failed)
    (hsigned : IsSignedBy K home.localDomain home.updater u) :
    ∃ queue, exec K ctx (.update u) home =
        .ok ({ home with queue := queue, committedRoot := u.newRoot },
          [.Update home.localDomain u]) ∧
      InStep K { home with queue := queue, committedRoot := u.newRoot } leaves j := by
  obtain ⟨queue, hloop, hstep⟩ := hin.commit ideal hne hlow hhigh
  rw [← hnew] at hloop hstep
  have hqueued := hin.contains_iff.mpr ⟨j, hlow, hhigh, hnew.symm⟩
  obtain ⟨oldRoot, newRoot, signature⟩ := u
  dsimp only at hold hnew hloop hqueued hstep
  subst hold
  exact ⟨queue, update_of_queued hstate hsigned hqueued hloop, hstep⟩

/-- **Home state invariant.** Over any sequence of calls the tree, the queue and
the committed root of a Home stay in step with the dispatched messages. -/
theorem storesInStep_of_reachable (ideal : Crypto.IdealHash K) {history : History Byte}
    (h : (system K).Reachable history) : ∃ k, StoresInStep K history k := by
  obtain ⟨k, hsound⟩ := History.sound_of_reachable ideal h
  have hin := hsound.inStep
  have hne := history.zero_notMem_leaves (K := K) ideal
  have hlength : (history.leaves K).length = history.dispatched.length := List.length_map _
  have hfit := hin.tree.fits
  have hpending := pendingRoots_eq (K := K) (history.leaves K) k
  rw [hlength] at hpending
  refine ⟨k, {
    position := hlength ▸ hin.k_le
    count := hlength ▸ hin.tree.count_eq
    leaves := hin.tree
    root := hin.tree.root_eq
    committedRoot := hin.committedRoot_eq
    queue := hpending ▸ hin.queue
    distinct := hpending ▸ pendingRoots_nodup ideal hfit hne
    first := hin.first_eq
    last := hlength ▸ hin.last_eq
    bound := hlength ▸ MerkleLib.lt_two_pow_of_le_maxLeaves hfit
    update := ?_ }⟩
  intro newRoot hqueued
  obtain ⟨j, hlow, hhigh, rfl⟩ := hin.contains_iff.mp hqueued
  obtain ⟨queue, hloop, hstep⟩ := hin.commit ideal hne hlow hhigh
  have hlast : queue.last = history.home.queue.last :=
    BitVec.eq_of_toNat_eq (hstep.last_eq.trans hin.last_eq.symm)
  refine ⟨j, queue, hlow, hlength ▸ hhigh, prefixRoot_of_pos (by omega), hloop, hstep.first_eq,
    hlast, ?_⟩
  intro ctx signature hstate hsigned
  exact update_of_queued hstate hsigned hqueued hloop

/-- A Home that has not failed accepts a short message until its tree is full. -/
theorem dispatch_of_room (ctx : Context Byte) (destination : UInt32) (recipient : Bytes32 Byte)
    (body : List Byte) {d : Dispatched Byte}
    (hd : d = ⟨ctx.sender, home.nonces destination, destination, recipient, body⟩)
    (htree : home.tree.Represents K leaves) (hroom : leaves.length < MerkleLib.MAX_LEAVES)
    (hstate : home.state ≠ .Failed) (hbody : body.length ≤ MAX_MESSAGE_BODY_BYTES) :
    ∃ tree, MerkleLib.insert K home.tree (K.keccak256 (d.message home.localDomain)) = .ok tree ∧
      exec K ctx (.dispatch destination recipient body) home = .ok ({ home with
        nonces := Function.update home.nonces destination (home.nonces destination + 1)
        tree := tree
        queue := home.queue.enqueue (MerkleLib.root K tree) },
      [.Dispatch (K.keccak256 (d.message home.localDomain)) (tree.count - 1)
        (_destinationAndNonce destination (home.nonces destination)) home.committedRoot
        (d.message home.localDomain)]) := by
  obtain ⟨tree, hinsert, -⟩ := htree.insert (K.keccak256 (d.message home.localDomain)) hroom
  refine ⟨tree, hinsert, ?_⟩
  subst hd
  simp only [exec, dispatch, notFailed, require_of hstate, require_of hbody, ok_bind]
  simp only [Dispatched.message] at hinsert
  rw [hinsert]
  rfl

/-- What a dispatch does to a history. -/
structure History.Dispatches (K : Crypto Byte) (history history' : History Byte)
    (d : Dispatched Byte) (k : ℕ) : Prop where
  localDomain : history'.home.localDomain = history.home.localDomain
  state : history'.home.state = history.home.state
  updater : history'.home.updater = history.home.updater
  committedRoot : history'.home.committedRoot = history.home.committedRoot
  nonces : history'.home.nonces =
    Function.update history.home.nonces d.destination (d.nonce + 1)
  dispatched : history'.dispatched = history.dispatched ++ [d]
  updates : Home.updates history'.log = Home.updates history.log
  event : ∃ index destinationAndNonce, .Dispatch (K.keccak256 (d.message history.home.localDomain))
    index destinationAndNonce history.home.committedRoot (d.message history.home.localDomain) ∈
      history'.log
  inStep : InStep K history'.home (history'.leaves K) k

/-- A Home that has not failed dispatches a short message until its tree is full. -/
theorem History.exists_dispatch {history : History Byte} (ctx : Context Byte)
    (destination : UInt32) (recipient : Bytes32 Byte) (body : List Byte)
    (hin : InStep K history.home (history.leaves K) k)
    (hroom : history.dispatched.length < MerkleLib.MAX_LEAVES)
    (hstate : history.home.state ≠ .Failed) (hbody : body.length ≤ MAX_MESSAGE_BODY_BYTES) :
    ∃ history', (system K).step history (ctx, .dispatch destination recipient body) history' ∧
      history.Dispatches K history'
        ⟨ctx.sender, history.home.nonces destination, destination, recipient, body⟩ k := by
  have hroom' : (history.leaves K).length < MerkleLib.MAX_LEAVES := by
    rwa [History.leaves, List.length_map]
  obtain ⟨tree, hinsert, hdispatch⟩ :=
    dispatch_of_room ctx destination recipient body rfl hin.tree hroom' hstate hbody
  have heffect : Effect K ctx history.home (.dispatch destination recipient body) _ _ :=
    effect_of_exec hdispatch
  have hleaves := History.leaves_exec heffect
  refine ⟨_, History.step_of_exec hdispatch, rfl, rfl, rfl, rfl, rfl, rfl, ?_, ?_, ?_⟩
  · simp [Event.update?]
  · exact ⟨_, _, List.mem_append_right _ (List.mem_singleton_self _)⟩
  · rw [hleaves]
    exact hin.dispatch _ hinsert

/-- A context in which every address holds code and slashing succeeds. -/
def sampleContext : Context Byte := ⟨0, fun _ => true, .returns []⟩

/-- The empty message from the zero address to the zero address of a chain. -/
def sampleDispatch : Dispatched Byte := ⟨0, 0, 2000, 0, []⟩

/-- A Home that dispatched a message right after it was initialised. -/
theorem exists_dispatched (K : Crypto Byte) (updater : Address Byte) :
    ∃ start history : History Byte, start.Initial ∧ start.home.updater = updater ∧
      (system K).step start (sampleContext, .dispatch 2000 0 []) history ∧
      history.home.localDomain = 1000 ∧ history.home.state = .Active ∧
      history.home.updater = updater ∧ history.dispatched = [sampleDispatch] ∧
      InStep K history.home (history.leaves K) 0 := by
  have hinit := initial_of_isContract 1000 (sampleContext : Context Byte) 0 updater rfl
  have hin := (History.Initial.sound (K := K) hinit).inStep
  obtain ⟨history, hstep, hdispatch⟩ := History.exists_dispatch sampleContext 2000 0 [] hin
    (by simp [MerkleLib.MAX_LEAVES, MerkleLib.TREE_DEPTH]) (by simp) (Nat.zero_le _)
  exact ⟨_, history, hinit, rfl, hstep, hdispatch.localDomain, hdispatch.state, hdispatch.updater,
    hdispatch.dispatched, hdispatch.inStep⟩

/-- The second message to the same recipient. -/
def secondDispatch : Dispatched Byte := { sampleDispatch with nonce := 1 }

/-- A Home that dispatched two messages before its first update. -/
theorem exists_dispatched_twice (K : Crypto Byte) (updater : Address Byte) :
    ∃ start middle history : History Byte, start.Initial ∧
      (system K).step start (sampleContext, .dispatch 2000 0 []) middle ∧
      (system K).step middle (sampleContext, .dispatch 2000 0 []) history ∧
      history.home.localDomain = 1000 ∧ history.home.state = .Active ∧
      history.home.updater = updater ∧ updates history.log = [] ∧
      history.leaves K = [K.keccak256 (sampleDispatch.message 1000),
        K.keccak256 (secondDispatch.message 1000)] ∧
      (∃ index destinationAndNonce, .Dispatch (K.keccak256 (secondDispatch.message 1000)) index
        destinationAndNonce 0 (secondDispatch.message 1000) ∈ history.log) ∧
      InStep K history.home (history.leaves K) 0 := by
  have hinit := initial_of_isContract 1000 (sampleContext : Context Byte) 0 updater rfl
  have hin := (History.Initial.sound (K := K) hinit).inStep
  obtain ⟨middle, hstep, h⟩ := History.exists_dispatch sampleContext 2000 0 [] hin
    (by simp [MerkleLib.MAX_LEAVES, MerkleLib.TREE_DEPTH]) (by simp) (Nat.zero_le _)
  obtain ⟨history, hstep', h'⟩ := History.exists_dispatch sampleContext 2000 0 [] h.inStep
    (by simp [h.dispatched, MerkleLib.MAX_LEAVES, MerkleLib.TREE_DEPTH]) (by simp [h.state])
    (Nat.zero_le _)
  have hdomain : history.home.localDomain = 1000 := h'.localDomain.trans h.localDomain
  have hnonce : middle.home.nonces 2000 = 1 := by
    rw [h.nonces]
    exact Function.update_self _ _ _
  have hsecond : (⟨(sampleContext : Context Byte).sender, middle.home.nonces 2000, 2000, 0, []⟩ :
      Dispatched Byte) = secondDispatch := by
    rw [hnonce]
    rfl
  have hevent := h'.event
  rw [hsecond, h.localDomain, h.committedRoot] at hevent
  refine ⟨_, middle, history, hinit, hstep, hstep', hdomain, h'.state.trans h.state,
    h'.updater.trans h.updater, h'.updates.trans h.updates, ?_, hevent, h'.inStep⟩
  rw [History.leaves, h'.dispatched, h.dispatched, hsecond, hdomain]
  rfl

theorem storesInStep_after_dispatch :
    ∃ history : History ℕ, history.dispatched = [sampleDispatch] ∧
      ∃ k, StoresInStep (Crypto.withIdealHash fun _ _ => none) history k := by
  obtain ⟨start, history, hinit, -, hstep, -, -, -, hdispatched, -⟩ :=
    exists_dispatched (Crypto.withIdealHash fun _ _ => none) 0
  exact ⟨history, hdispatched, storesInStep_of_reachable (Crypto.withIdealHash_ideal _)
    ((System.reachable_init hinit).step hstep)⟩

end Optics.Home
