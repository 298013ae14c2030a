/-
# How long a witness is good

A leaf, a path and an index are a witness for a message as long as the root they lead
to is acceptable. Proofs may be made under any earlier root, so that a witness need
not be renewed. But an update to a root that is acceptable sets its timer again, and
until the optimistic seconds have passed once more the witness is refused. Without
such an update, witnesses are good for ever.
-/

import Optics.Core.AcceptableRoots

namespace Optics.Replica

open Optics.Solidity Optics.Common Optics.Math Optics.Math.Transition
open Relation (ReflTransGen)

variable {Byte ω E η : Type} [ByteAlphabet Byte] [DecidableEq Byte] {K : Crypto Byte}
  {S : Surroundings Byte ω E η} {P : SignedUpdate Byte → Prop} {root₀ root : Bytes32 Byte}
  {s t : Chain Byte E η} {tx : ℕ × Call Byte ω} {labels : List (ℕ × Call Byte ω)}

/-! ### Timers over a transaction -/

/-- The timers after some updates at one time. -/
def Rewritten (s t : Chain Byte E η) (us : List (SignedUpdate Byte)) : Prop :=
  ∀ root, t.replica.confirmAt root =
    if root ∈ us.map SignedUpdate.newRoot then (s.now + s.replica.optimisticSeconds) % 2 ^ 256
    else s.replica.confirmAt root

omit [ByteAlphabet Byte] in
theorem rewritten_nil (h : t.replica.confirmAt = s.replica.confirmAt) : Rewritten s t [] :=
  fun root => by simp [h]

/-- A step accepts one update and writes its timer, or neither. -/
theorem Tick.rewritten (h : Tick K S P s t) :
    ∃ us, Replica.accepted t.trace = Replica.accepted s.trace ++ us ∧ Rewritten s t us := by
  cases h with
  | update u =>
    refine ⟨[u], by rw [accepted_record]; rfl, fun root => ?_⟩
    by_cases hroot : root = u.newRoot
    · simp [hroot]
    · simp [hroot]
  | other call env events hexec =>
    refine ⟨[], ?_, rewritten_nil rfl⟩
    rw [accepted_record]
    simp [List.filterMap_map, Function.comp_def, Action.update?]
  | _ => exact ⟨[], by rw [accepted_record]; rfl, rewritten_nil rfl⟩

theorem path_rewritten (h : ReflTransGen (Tick K S P) s t) :
    ∃ us, accepted t.trace = accepted s.trace ++ us ∧ Rewritten s t us := by
  induction h with
  | refl => exact ⟨[], (List.append_nil _).symm, rewritten_nil rfl⟩
  | tail hpath hstep ih =>
    obtain ⟨hconfig, hnow, -⟩ := path_frame hpath
    obtain ⟨us, haccepted, hus⟩ := ih
    obtain ⟨more, haccepted', hmore⟩ := hstep.rewritten
    refine ⟨us ++ more, by rw [haccepted', haccepted, List.append_assoc], fun root => ?_⟩
    -- all updates of a path are made at one time, so their order does not matter
    rw [hmore root, hus root, hnow, hconfig.optimisticSeconds]
    simp only [List.map_append, List.mem_append]
    by_cases hnew : root ∈ more.map SignedUpdate.newRoot
    · simp [hnew]
    · simp [hnew]

/-- The updates that a transaction gets accepted. -/
def newUpdates (K : Crypto Byte) (S : Surroundings Byte ω E η) (s : Chain Byte E η)
    (tx : ℕ × Call Byte ω) : List (SignedUpdate Byte) :=
  (accepted (afterCall (Chain.transact K S) tx s).trace).drop (accepted s.trace).length

/-- What an update makes of the timer of its new root lies in the past. -/
def Past (optimisticSeconds time : ℕ) : Prop :=
  (time + optimisticSeconds) % 2 ^ 256 ≠ 0 ∧ (time + optimisticSeconds) % 2 ^ 256 ≤ time

/-- What a transaction gets accepted is added to the record, and its timers are written. -/
theorem newUpdates_of_step (h : callStep (Chain.transact K S) s tx t) :
    accepted t.trace = accepted s.trace ++ newUpdates K S s tx ∧
      Rewritten { s with now := tx.1 } t (newUpdates K S s tx) := by
  rw [newUpdates, ← eq_afterCall h]
  rcases h with hexec | ⟨-, rfl⟩
  · obtain ⟨hpath, -⟩ := Call.exec_path (P := fun _ => True) tx.2 _ t (fun _ _ => trivial) hexec
    obtain ⟨us, haccepted, hus⟩ := path_rewritten hpath
    rw [haccepted, List.drop_left]
    exact ⟨rfl, hus⟩
  · rw [List.drop_length, List.append_nil]
    exact ⟨rfl, rewritten_nil rfl⟩

theorem rewritten_of_step (h : callStep (Chain.transact K S) s tx t) :
    Rewritten { s with now := tx.1 } t (newUpdates K S s tx) :=
  (newUpdates_of_step h).2

theorem accepted_of_step (h : callStep (Chain.transact K S) s tx t) :
    accepted t.trace = accepted s.trace ++ newUpdates K S s tx :=
  (newUpdates_of_step h).1

/-- Over one transaction an acceptable root stays acceptable unless it is updated to. -/
theorem acceptableRoot_after (h : callStep (Chain.transact K S) s tx t)
    (hroot : s.replica.acceptableRoot tx.1 root = true) :
    t.replica.acceptableRoot tx.1 root = true ↔
      (root ∈ (newUpdates K S s tx).map SignedUpdate.newRoot →
        Past s.replica.optimisticSeconds tx.1) := by
  rw [acceptableRoot_eq_true] at hroot ⊢
  rw [rewritten_of_step h root]
  by_cases hnew : root ∈ (newUpdates K S s tx).map SignedUpdate.newRoot
  · simp only [hnew, if_true, true_imp_iff]
    rfl
  · simp only [hnew, if_false, false_imp_iff, iff_true]
    exact hroot

/-! ### Over a run -/

/-- A transaction that gets no update accepted whose new root is acceptable. -/
def Unrenewed (K : Crypto Byte) (S : Surroundings Byte ω E η) (s : Chain Byte E η)
    (tx : ℕ × Call Byte ω) : Prop :=
  ∀ u ∈ newUpdates K S s tx, s.replica.acceptableRoot tx.1 u.newRoot = true →
    Past s.replica.optimisticSeconds tx.1

omit [ByteAlphabet Byte] [DecidableEq Byte] in
theorem acceptableRoot_mono {replica : Replica Byte} {time time' : ℕ} (h : time ≤ time')
    (hroot : replica.acceptableRoot time root = true) :
    replica.acceptableRoot time' root = true := by
  rw [acceptableRoot_eq_true] at hroot ⊢
  exact ⟨hroot.1, hroot.2.trans h⟩

theorem now_of_step (h : (system K S root₀).step s tx t) : t = s ∨ t.now = tx.1 := by
  rcases h.2 with hexec | ⟨-, rfl⟩
  · obtain ⟨hpath, -⟩ := Call.exec_path (P := fun _ => True) tx.2 _ t (fun _ _ => trivial) hexec
    exact .inr (path_frame hpath).2.1
  · exact .inl rfl

/-- What is acceptable stays so, from one state to another. -/
def StaysAcceptable (s t : Chain Byte E η) : Prop :=
  s.now ≤ t.now ∧ ∀ root, s.replica.acceptableRoot s.now root = true →
    t.replica.acceptableRoot t.now root = true

theorem staysAcceptable_of_step (h : (system K S root₀).step s tx t) (hcond : Unrenewed K S s tx) :
    StaysAcceptable s t := by
  rcases now_of_step h with rfl | hnow
  · exact ⟨Nat.le_refl _, fun _ hroot => hroot⟩
  refine ⟨hnow ▸ h.1, fun root hroot => ?_⟩
  have hbefore := acceptableRoot_mono h.1 hroot
  rw [hnow, acceptableRoot_after h.2 hbefore]
  intro hnew
  obtain ⟨u, hu, rfl⟩ := List.mem_map.mp hnew
  exact hcond u hu hbefore

theorem staysAcceptable_of_run (h : ((system K S root₀).restrict (Unrenewed K S)).Run s labels t) :
    StaysAcceptable s t := by
  refine h.relates (fun _ => ⟨Nat.le_refl _, fun _ hroot => hroot⟩) (fun s t u hst htu => ?_)
    fun s tx t hstep => staysAcceptable_of_step hstep.1 hstep.2
  exact ⟨hst.1.trans htu.1, fun root hroot => htu.2 root (hst.2 root hroot)⟩

/-- **Witnesses.** Over one transaction a root stays acceptable if and only if it is not
updated to, or the timer so written lies in the past. In a run in which no update goes
to an acceptable root, every acceptable root stays acceptable, and a witness that
`prove` accepted is accepted as long as the status of the message is `None`. -/
theorem witness_stays_good (K : Crypto Byte) (S : Surroundings Byte ω E η)
    (root₀ : Bytes32 Byte) :
    (∀ {s t : Chain Byte E η} {tx root}, (system K S root₀).Reachable s →
      (system K S root₀).step s tx t → s.replica.acceptableRoot tx.1 root = true →
      (t.replica.acceptableRoot tx.1 root = true ↔
        (root ∈ (newUpdates K S s tx).map SignedUpdate.newRoot →
          Past s.replica.optimisticSeconds tx.1))) ∧
    ∀ {s t : Chain Byte E η} {labels}, (system K S root₀).Reachable s →
      ((system K S root₀).restrict (Unrenewed K S)).Run s labels t →
      (∀ root time, s.replica.acceptableRoot s.now root = true → t.now ≤ time →
        t.replica.acceptableRoot time root = true) ∧
      ∀ leaf proof index time, (∃ replica,
          prove K s.now leaf proof index s.replica = .ok (true, replica)) →
        t.replica.messages leaf = .None → t.now ≤ time →
        ∃ replica, prove K time leaf proof index t.replica = .ok (true, replica) := by
  refine ⟨fun _ hstep hroot => acceptableRoot_after hstep.2 hroot, fun _ hrun => ?_⟩
  obtain ⟨-, hstays⟩ := staysAcceptable_of_run hrun
  refine ⟨fun root time hroot htime => acceptableRoot_mono htime (hstays root hroot), ?_⟩
  rintro leaf proof index time ⟨replica, hprove⟩ hnone htime
  obtain ⟨-, hroot, -⟩ := prove_eq_ok.mp hprove
  have hgood := acceptableRoot_mono htime (hstays _ hroot.symm)
  exact ⟨_, prove_eq_ok.mpr ⟨hnone, hgood.symm, rfl⟩⟩

/-! ### A witness that is refused later -/

section Sample

/-- The Replica after an accepted update from its committed root, at time 1. -/
def sampleUpdated (newRoot : Bytes32 ℕ) : Chain ℕ Unit Unit :=
  sampleStart.record { sampleStart.replica with
    confirmAt := Function.update sampleStart.replica.confirmAt newRoot 1801
    committedRoot := newRoot } [.event (.Update 1000 ⟨sampleRoot, newRoot, []⟩)]

theorem exec_sampleUpdate (newRoot : Bytes32 ℕ) :
    (Chain.transact sampleCrypto sampleSurroundings)
      (1, .update ⟨sampleRoot, newRoot, []⟩) sampleStart = .ok (sampleUpdated newRoot) :=
  Call.exec_update (s := sampleStart) (u := ⟨sampleRoot, newRoot, []⟩) nofun rfl rfl

theorem step_sampleUpdate (newRoot : Bytes32 ℕ) :
    (system sampleCrypto sampleSurroundings sampleRoot).step sampleStart
      (1, .update ⟨sampleRoot, newRoot, []⟩) (sampleUpdated newRoot) :=
  ⟨Nat.le_refl 1, .inl (exec_sampleUpdate newRoot)⟩

theorem prove_sampleMessage :
    ∃ replica, prove sampleCrypto 1 (sampleCrypto.keccak256 sampleMessage) (fun _ => 0) 0
      sampleStart.replica = .ok (true, replica) :=
  ⟨_, prove_eq_ok.mpr ⟨rfl, (acceptableRoot_sampleRoot (Nat.le_refl 1)).symm, rfl⟩⟩

/-- The updater signs an update from the committed root to itself. The witness that
was good before the update is refused after it. -/
theorem witness_goes_bad :
    (system sampleCrypto sampleSurroundings sampleRoot).Reachable sampleStart ∧
    (system sampleCrypto sampleSurroundings sampleRoot).step sampleStart
      (1, .update ⟨sampleRoot, sampleRoot, []⟩) (sampleUpdated sampleRoot) ∧
    sampleStart.replica.acceptableRoot 1 sampleRoot = true ∧
    (sampleUpdated sampleRoot).replica.acceptableRoot 1 sampleRoot = false ∧
    (∃ replica, prove sampleCrypto 1 (sampleCrypto.keccak256 sampleMessage) (fun _ => 0) 0
      sampleStart.replica = .ok (true, replica)) ∧
    (sampleUpdated sampleRoot).replica.messages (sampleCrypto.keccak256 sampleMessage) = .None ∧
    ∃ replica, prove sampleCrypto 1 (sampleCrypto.keccak256 sampleMessage) (fun _ => 0) 0
      (sampleUpdated sampleRoot).replica = .ok (false, replica) := by
  have hrefused : (sampleUpdated sampleRoot).replica.acceptableRoot 1 sampleRoot = false := by
    simp [sampleUpdated, acceptableRoot]
  refine ⟨sampleStart_reachable, step_sampleUpdate _, acceptableRoot_sampleRoot (Nat.le_refl 1),
    hrefused, prove_sampleMessage, rfl, _, prove_eq_ok.mpr ⟨rfl, hrefused.symm, rfl⟩⟩

/-- After an update to another root the witness is still good. -/
theorem witness_stays_good_updated :
    (sampleUpdated 0).replica.acceptableRoot 1 sampleRoot = true ∧
    ∃ replica, prove sampleCrypto 1 (sampleCrypto.keccak256 sampleMessage) (fun _ => 0) 0
      (sampleUpdated 0).replica = .ok (true, replica) := by
  obtain ⟨hstep, hrun⟩ := witness_stays_good sampleCrypto sampleSurroundings sampleRoot
  have hne : (0 : Bytes32 ℕ) ≠ sampleRoot :=
    (MerkleLib.branchRoot_ne_zero (Crypto.withIdealHash_ideal _) _ _ _).symm
  have hnew : newUpdates sampleCrypto sampleSurroundings sampleStart
      (1, .update ⟨sampleRoot, 0, []⟩) = [⟨sampleRoot, 0, []⟩] := by
    rw [newUpdates, afterCall_of_ok (exec_sampleUpdate 0)]
    rfl
  have hroot := acceptableRoot_sampleRoot (Nat.le_refl 1)
  have hunrenewed : Unrenewed sampleCrypto sampleSurroundings sampleStart
      (1, .update ⟨sampleRoot, 0, []⟩) := by
    intro u hu hacceptable
    rw [hnew, List.mem_singleton] at hu
    subst hu
    simp [acceptableRoot, sampleStart, Chain.deployed, init, hne] at hacceptable
  refine ⟨(hstep sampleStart_reachable (step_sampleUpdate 0) hroot).mpr ?_, ?_⟩
  · rw [hnew]
    exact fun hmem => absurd (List.mem_singleton.mp hmem).symm hne
  · obtain ⟨-, hproofs⟩ := hrun sampleStart_reachable
      (System.Run.single ⟨step_sampleUpdate 0, hunrenewed⟩)
    exact hproofs _ _ _ 1 prove_sampleMessage rfl (Nat.le_refl 1)

end Sample

end Optics.Replica
