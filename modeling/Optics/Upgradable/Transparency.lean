/-
# A proxy is its implementation

Two machines run the same accounts. In the first, each proxy asks its beacon and
delegates. In the second there are no proxies: their addresses hold the program of the
implementation that the beacon has at the moment of the call. Transactions have
the same answers and the same effects in both, whatever the contracts call on the
way and whichever upgrades happen in the middle of a call.

What this needs is that the controller of a proxied beacon is an account without code or a
beacon controller: a contract that delegates to the proxy from the controller's
own address would be taken for the controller by the beacon.
-/

import Optics.Upgradable.Contracts

namespace Optics.Upgradable

open Optics.Solidity Optics.Math.Calls Optics.Math.Transition

variable {Byte κ ε : Type} [ByteAlphabet Byte] [DecidableEq Byte]

/-! ### The machine without proxies -/

/-- The program of the implementation that a beacon holds. -/
def Accounts.implementation (accounts : Accounts Byte κ ε) (chain : Chain Byte κ ε)
    (beacon : Address Byte) : ContractProgram Byte κ ε :=
  match accounts (chain.storage beacon).implementation with
  | some contract => contract.program
  | none => fun _ _ _ => .finish true []

/-- Each proxy runs the implementation in its beacon as its own program. -/
def Accounts.resolved (accounts : Accounts Byte κ ε) :
    Table (Address Byte) Byte (Storage Byte κ) (Event Byte ε) := fun chain a =>
  match accounts a with
  | some (.UpgradeBeaconProxy upgradeBeacon) => some (accounts.implementation chain upgradeBeacon)
  | contract => contract.map Contract.program

/-- The account controls the beacon of some proxy. -/
def Accounts.Controls (accounts : Accounts Byte κ ε) (c : Address Byte) : Prop :=
  ∃ p b, accounts p = some (.UpgradeBeaconProxy b) ∧ accounts b = some (.UpgradeBeacon c)

/-- Every proxy has a beacon, and the controller of a proxied beacon has no code or is a
beacon controller. -/
structure Accounts.Proxied (accounts : Accounts Byte κ ε) : Prop where
  beacon : ∀ p b, accounts p = some (.UpgradeBeaconProxy b) →
    ∃ c, accounts b = some (.UpgradeBeacon c)
  controller : ∀ c, accounts.Controls c →
    accounts c = none ∨ accounts c = some .UpgradeBeaconController

section Resolved

variable {accounts : Accounts Byte κ ε} {chain : Chain Byte κ ε} {a b : Address Byte}

theorem resolved_of_proxy (h : accounts a = some (.UpgradeBeaconProxy b)) :
    accounts.resolved chain a = some (accounts.implementation chain b) := by
  rw [Accounts.resolved, h]

theorem resolved_of_not_proxy (h : ∀ b, accounts a ≠ some (.UpgradeBeaconProxy b)) :
    accounts.resolved chain a = accounts.table chain a := by
  unfold Accounts.resolved
  split
  · exact absurd ‹_› (h _)
  · rfl

theorem isSome_resolved :
    (accounts.table chain a).isSome = (accounts.resolved chain a).isSome := by
  by_cases h : ∃ b, accounts a = some (.UpgradeBeaconProxy b)
  · obtain ⟨b, hproxy⟩ := h
    rw [resolved_of_proxy hproxy, Accounts.table, hproxy]
    rfl
  · rw [resolved_of_not_proxy fun b hb => h ⟨b, hb⟩]

end Resolved

/-! ### What the contracts do inside a call -/

section Programs

variable {table : Table (Address Byte) Byte (Storage Byte κ) (Event Byte ε)}
  {enter : Enter (Address Byte) Byte (Storage Byte κ) (Event Byte ε)}
  {frame : Frame (Address Byte)} {chain : Chain Byte κ ε}

omit [DecidableEq Byte] in
theorem noDelegate_requireThen {condition : Bool} {reason : String}
    {next : ContractCode Byte κ ε} (h : next.NoDelegate) :
    (requireThen condition reason next).NoDelegate := by
  unfold requireThen
  split
  · exact h
  · trivial

theorem noDelegate_onlyOwner {sender : Address Byte}
    {next : Storage Byte κ → ContractCode Byte κ ε} (h : ∀ storage, (next storage).NoDelegate) :
    (UpgradeBeaconController.onlyOwner sender next).NoDelegate :=
  fun storage => noDelegate_requireThen (h storage)

/-- The beacon controller makes plain calls only. -/
theorem noDelegate_external (self sender : Address Byte) (data : List Byte) :
    (UpgradeBeaconController.external self sender data : ContractCode Byte κ ε).NoDelegate := by
  unfold UpgradeBeaconController.external
  dsimp only
  split_ifs
  · refine noDelegate_onlyOwner fun storage isContract => noDelegate_requireThen ⟨by decide, ?_⟩
    intro success returned
    dsimp only
    split_ifs <;> trivial
  · exact noDelegate_onlyOwner fun storage => noDelegate_requireThen trivial
  · exact noDelegate_onlyOwner fun storage => trivial
  · exact fun _ => trivial
  · trivial

/-- A beacon answers its implementation to everybody except its controller. -/
theorem eval_beacon_fallback {controller sender : Address Byte} (hsender : sender ≠ controller)
    (self : Address Byte) (data : List Byte) (depth : ℕ) :
    run table depth ⟨self, sender, true⟩ (UpgradeBeacon.fallback controller self sender data)
      chain = some (.ok (abiEncode (chain.storage self).implementation, chain)) := by
  rw [run_eq_eval, UpgradeBeacon.fallback, if_pos hsender]
  rfl

/-- What a proxy does once its beacon has answered. -/
theorem eval_proxy_fallback {beacon implementation : Address Byte} (self sender : Address Byte)
    (data : List Byte)
    (hbeacon : enter ⟨beacon, frame.self, true⟩ beacon [] chain =
      some (.ok (abiEncode implementation, chain))) :
    (UpgradeBeaconProxy.fallback beacon self sender data).eval table enter frame chain =
      enter frame implementation data chain := by
  have hask : (UpgradeBeaconProxy.fallback beacon self sender data).eval table enter frame chain =
      (UpgradeBeaconProxy._delegate implementation data).eval table enter frame chain := by
    unfold UpgradeBeaconProxy.fallback UpgradeBeaconProxy._getImplementation
    rw [Code.eval_call_ok hbeacon]
    simp only [if_true, abiDecode_abiEncode]
  rw [hask, UpgradeBeaconProxy._delegate, Code.eval]
  have henter : enter (frame.callee implementation .delegatecall) implementation data
      (chain.recordCall frame .delegatecall implementation data) =
      enter frame implementation data chain := rfl
  rw [henter]
  rcases enter frame implementation data chain with - | ⟨returned⟩ | ⟨returned, t⟩ <;> rfl

end Programs

/-! ### The two machines agree -/

section Agree

variable {accounts : Accounts Byte κ ε} (hproxied : accounts.Proxied)
include hproxied

omit [ByteAlphabet Byte] [DecidableEq Byte] in
/-- The account of a proxy controls no beacon. -/
theorem Accounts.Proxied.not_controls {p b : Address Byte}
    (hp : accounts p = some (.UpgradeBeaconProxy b)) : ¬ accounts.Controls p := by
  intro hcontrols
  rcases hproxied.controller p hcontrols with hnone | hcontroller
  · rw [hnone] at hp
    cases hp
  · rw [hcontroller] at hp
    cases hp

/-- A controller that runs its own code makes no delegate call. -/
theorem Accounts.Proxied.noDelegate {a self sender : Address Byte} {data : List Byte}
    {contract : Contract Byte κ ε} (ha : accounts a = some contract)
    (hcontrols : accounts.Controls a) : (contract.program self sender data).NoDelegate := by
  rcases hproxied.controller a hcontrols with hnone | hcontroller
  · rw [hnone] at ha
    cases ha
  · rw [hcontroller] at ha
    cases ha
    exact noDelegate_external self sender data

/-- Entering a proxy is entering the implementation in its beacon, two calls further
down. -/
theorem Accounts.Proxied.enterAt_proxy {p b : Address Byte}
    (hp : accounts p = some (.UpgradeBeaconProxy b)) {frame : Frame (Address Byte)}
    (hself : ¬ accounts.Controls frame.self) (depth : ℕ) (data : List Byte)
    (chain : Chain Byte κ ε) :
    enterAt accounts.table (depth + 2) frame p data chain =
      enterAt accounts.table (depth + 1) frame (chain.storage b).implementation data chain := by
  obtain ⟨c, hb⟩ := hproxied.beacon p b hp
  have hsender : frame.self ≠ c := by
    rintro rfl
    exact hself ⟨p, b, hp, hb⟩
  have hbeacon : enterAt accounts.table (depth + 1) ⟨b, frame.self, true⟩ b [] chain =
      some (.ok (abiEncode (chain.storage b).implementation, chain)) := by
    simp only [enterAt, enterWith, Accounts.table, hb, Option.map_some]
    exact eval_beacon_fallback hsender b [] depth
  have hprogram : enterAt accounts.table (depth + 2) frame p data chain =
      (UpgradeBeaconProxy.fallback b frame.self frame.sender data).eval accounts.table
        (enterAt accounts.table (depth + 1)) frame chain := by
    simp only [enterAt, enterWith, Accounts.table, hp, Option.map_some]
    rfl
  rw [hprogram, eval_proxy_fallback _ _ _ hbeacon]

/-- What the machine with proxies answers, the machine without them answers. -/
theorem Accounts.Proxied.enterAt_resolved (depth : ℕ) :
    (enterAt accounts.table depth).Extends accounts.Controls
      (enterAt accounts.resolved depth) := by
  induction depth using Nat.strong_induction_on with
  | _ depth ih =>
  intro frame target data chain r hallowed h
  cases depth with
  | zero => cases h
  | succ depth =>
    by_cases hproxy : ∃ b, accounts target = some (.UpgradeBeaconProxy b)
    · obtain ⟨b, hp⟩ := hproxy
      have hself : ¬ accounts.Controls frame.self := by
        intro hcontrols
        have htarget := hallowed hcontrols
        exact hproxied.not_controls (htarget ▸ hp) hcontrols
      cases depth with
      | zero =>
        simp only [enterAt, enterWith, Accounts.table, hp, Option.map_some] at h
        cases h
      | succ depth =>
        rw [hproxied.enterAt_proxy hp hself] at h
        simp only [enterAt, enterWith, resolved_of_proxy hp, Accounts.implementation]
        simp only [enterAt, enterWith, Accounts.table] at h
        cases hi : accounts (chain.storage b).implementation with
        | none =>
          rw [hi] at h
          exact h
        | some contract =>
          rw [hi] at h
          simp only [Option.map_some] at h
          refine run_mono (Nat.le_succ depth) ?_
          rw [run_eq_eval] at h ⊢
          exact Code.eval_simulates (fun _ _ => isSome_resolved) (ih depth (by omega)) _
            (fun hcontrols => absurd hcontrols hself) h
    · have hresolved : accounts.resolved chain target = accounts.table chain target :=
        resolved_of_not_proxy fun b hb => hproxy ⟨b, hb⟩
      simp only [enterAt, enterWith, hresolved]
      simp only [enterAt, enterWith] at h
      cases ht : accounts target with
      | none =>
        simp only [Accounts.table, ht, Option.map_none] at h ⊢
        exact h
      | some contract =>
        simp only [Accounts.table, ht, Option.map_some] at h ⊢
        rw [run_eq_eval] at h ⊢
        refine Code.eval_simulates (fun _ _ => isSome_resolved) (ih depth (by omega)) _ ?_ h
        intro hcontrols
        exact hproxied.noDelegate ht (hallowed hcontrols ▸ hcontrols)

/-- What the machine without proxies answers, the machine with them answers when calls may
nest twice as deep. -/
theorem Accounts.Proxied.resolved_enterAt (depth : ℕ) :
    (enterAt accounts.resolved depth).Extends accounts.Controls
      (enterAt accounts.table (2 * depth)) := by
  induction depth with
  | zero =>
    intro frame target data chain r _ h
    cases h
  | succ depth ih =>
    intro frame target data chain r hallowed h
    rw [show 2 * (depth + 1) = 2 * depth + 2 from rfl]
    by_cases hproxy : ∃ b, accounts target = some (.UpgradeBeaconProxy b)
    · obtain ⟨b, hp⟩ := hproxy
      have hself : ¬ accounts.Controls frame.self := by
        intro hcontrols
        have htarget := hallowed hcontrols
        exact hproxied.not_controls (htarget ▸ hp) hcontrols
      rw [hproxied.enterAt_proxy hp hself]
      simp only [enterAt, enterWith, resolved_of_proxy hp, Accounts.implementation] at h
      simp only [enterAt, enterWith, Accounts.table]
      cases hi : accounts (chain.storage b).implementation with
      | none =>
        rw [hi] at h
        rw [run_eq_eval] at h
        exact h
      | some contract =>
        rw [hi] at h
        simp only [Option.map_some]
        rw [run_eq_eval] at h ⊢
        exact Code.eval_simulates (fun _ _ => isSome_resolved.symm) ih _
          (fun hcontrols => absurd hcontrols hself) h
    · have hresolved : accounts.resolved chain target = accounts.table chain target :=
        resolved_of_not_proxy fun b hb => hproxy ⟨b, hb⟩
      simp only [enterAt, enterWith, hresolved] at h
      refine enterAt_extends_succ (2 * depth + 1) _ _ _ _ _ hallowed ?_
      simp only [enterAt, enterWith]
      cases ht : accounts target with
      | none =>
        simp only [Accounts.table, ht, Option.map_none] at h ⊢
        exact h
      | some contract =>
        simp only [Accounts.table, ht, Option.map_some] at h ⊢
        rw [run_eq_eval] at h ⊢
        refine Code.eval_simulates (fun _ _ => isSome_resolved.symm) ih _ ?_ h
        intro hcontrols
        exact hproxied.noDelegate ht (hallowed hcontrols ▸ hcontrols)

/-- **Transparency.** The accounts have the same runs of transactions, with the same
answers and the same states, whether their proxies ask and delegate or are replaced by what their
beacons hold. -/
theorem run_iff_resolved {init : Chain Byte κ ε → Prop} {chain chain' : Chain Byte κ ε}
    {txs : List (Transaction (Address Byte) Byte)} :
    (transactions accounts.table init).Run chain txs chain' ↔
      (transactions accounts.resolved init).Run chain txs chain' := by
  constructor
  · refine fun hrun => hrun.mono fun s tx t ⟨depth, r, h, hanswer, hafter⟩ => ?_
    exact ⟨depth, r, hproxied.enterAt_resolved depth _ _ _ _ _ (fun _ => rfl) h, hanswer, hafter⟩
  · refine fun hrun => hrun.mono fun s tx t ⟨depth, r, h, hanswer, hafter⟩ => ?_
    exact ⟨2 * depth, r, hproxied.resolved_enterAt depth _ _ _ _ _ (fun _ => rfl) h, hanswer,
      hafter⟩

end Agree

section Sample

/-- The account with a number. -/
def sampleAddress (n : UInt8) : Address UInt8 := ⟨List.replicate 19 0 ++ [n], rfl⟩

/-- A contract that answers with one byte. -/
def answering (b : UInt8) : ContractProgram UInt8 Unit Empty := fun _ _ _ => .finish true [b]

/-- A beacon 1 with the controller 2, its proxy 3, and two implementations 4 and 5. -/
def sampleAccounts : Accounts UInt8 Unit Empty := fun a =>
  if a = sampleAddress 1 then some (.UpgradeBeacon (sampleAddress 2))
  else if a = sampleAddress 2 then some .UpgradeBeaconController
  else if a = sampleAddress 3 then some (.UpgradeBeaconProxy (sampleAddress 1))
  else if a = sampleAddress 4 then some (.other (answering 4))
  else if a = sampleAddress 5 then some (.other (answering 5))
  else none

/-- The beacon holds the first implementation, and account 9 owns the controller. -/
def sampleChain : Chain UInt8 Unit Empty :=
  ⟨fun _ => ⟨sampleAddress 4, sampleAddress 9, ()⟩, []⟩

/-- The proxy is called, the owner upgrades, and the proxy is called again. -/
def sampleTransactions : List (Transaction (Address UInt8) UInt8) :=
  [⟨sampleAddress 7, sampleAddress 3, [], .ok [4]⟩,
    ⟨sampleAddress 9, sampleAddress 2, abiCall UpgradeBeaconController.upgradeSelector
      [sampleAddress 1, sampleAddress 5], .ok []⟩,
    ⟨sampleAddress 7, sampleAddress 3, [], .ok [5]⟩]

theorem sampleAccounts_proxied : sampleAccounts.Proxied where
  beacon p b h := by
    unfold sampleAccounts at h
    split_ifs at h <;> cases h
    exact ⟨sampleAddress 2, rfl⟩
  controller c h := by
    obtain ⟨p, b, -, hb⟩ := h
    unfold sampleAccounts at hb
    split_ifs at hb <;> cases hb
    exact .inr rfl

/-- The implementation that answers changes with the upgrade, without the proxy as with it. -/
theorem run_iff_resolved_sample : ∃ chain,
    (transactions sampleAccounts.resolved fun _ => True).Run sampleChain sampleTransactions chain ∧
      (chain.storage (sampleAddress 1)).implementation = sampleAddress 5 := by
  obtain ⟨chain, hrun, hchain⟩ := System.exists_run_of_any
    (S := transactions sampleAccounts.table fun _ => True) (attempt sampleAccounts.table 4)
    sampleChain sampleTransactions
    (fun chain => (chain.storage (sampleAddress 1)).implementation = sampleAddress 5)
    (fun s tx t h => step_of_attempt _ h) (by decide)
  exact ⟨chain, (run_iff_resolved sampleAccounts_proxied).mp hrun, of_decide_eq_true hchain⟩

end Sample

end Optics.Upgradable
