/-
# Who upgrades a beacon

Accounts are deployed and send transactions in any order, and contracts call
each other in any way inside a transaction. In every world that comes of it a
beacon holds the implementation of its last upgrade event, which is a contract
and differs from the one before, and every upgrade after the deployment goes back
to a call by the owner that the beacon controller had at that time.
-/

import Mathlib.Data.List.Chain
import Optics.Math.Log
import Optics.Upgradable.Transparency

namespace Optics.Upgradable

open Optics.Solidity Optics.Math.Calls Optics.Math.Transition Optics.Math.Log

variable {Byte κ ε : Type}

/-! ### Worlds -/

/-- The deployed contracts and the state of all accounts. -/
structure World (Byte κ ε : Type) where
  accounts : Accounts Byte κ ε
  chain : Chain Byte κ ε

/-- The deployment of a contract, with the arguments of its constructor. Any other contract
comes with the code of its constructor. -/
inductive Deployment (Byte κ ε : Type)
  | UpgradeBeacon (_initialImplementation _controller : Address Byte)
  | UpgradeBeaconController
  | UpgradeBeaconProxy (_upgradeBeacon : Address Byte) (_initializationCalldata : List Byte)
  | other (program : ContractProgram Byte κ ε) (construct : ContractCode Byte κ ε)

/-- What happens to a world: an account without code sends a transaction, or a contract is
deployed. -/
inductive Action (Byte κ ε : Type)
  | transact (origin target : Address Byte) (data : List Byte)
  | deploy (account deployer : Address Byte) (deployment : Deployment Byte κ ε)

/-- An entry of the record. -/
abbrev LogEntry (Byte ε : Type) := Entry (Address Byte) Byte (Event Byte ε)

/-- The account that acts in an entry. -/
def actor : LogEntry Byte ε → Address Byte
  | .created account => account
  | .called sender _ _ => sender
  | .emitted account _ => account

theorem actor_ne_of_foreign {a : Address Byte} {entry : LogEntry Byte ε} (h : entry.Foreign a) :
    actor entry ≠ a := by
  cases entry with
  | created account => exact h
  | called sender target data => exact h.1
  | emitted account event => exact h

variable [DecidableEq Byte] [ByteAlphabet Byte]

namespace Deployment

/-- The contract that a deployment leaves. -/
def contract : Deployment Byte κ ε → Contract Byte κ ε
  | .UpgradeBeacon _ controller => .UpgradeBeacon controller
  | .UpgradeBeaconController => .UpgradeBeaconController
  | .UpgradeBeaconProxy upgradeBeacon _ => .UpgradeBeaconProxy upgradeBeacon
  | .other program _ => .other program

/-- The code of the constructor. -/
def construct (deployer : Address Byte) : Deployment Byte κ ε → ContractCode Byte κ ε
  | .UpgradeBeacon _initialImplementation _ =>
    Upgradable.UpgradeBeacon.construct _initialImplementation
  | .UpgradeBeaconController => Upgradable.UpgradeBeaconController.construct deployer
  | .UpgradeBeaconProxy _upgradeBeacon _initializationCalldata =>
    Upgradable.UpgradeBeaconProxy.construct _upgradeBeacon _initializationCalldata
  | .other _ construct => construct

end Deployment

/-- A new account with the storage of a fresh contract. -/
def create (blank : κ) (account : Address Byte) (chain : Chain Byte κ ε) : Chain Byte κ ε :=
  (chain.write account ⟨0, 0, blank⟩).record (.created account)

namespace World

/-- One action. A deployment takes an address that has not acted, runs the constructor
while the address has no code yet, and installs the contract. What reverts changes nothing. -/
inductive Step (blank : κ) (w : World Byte κ ε) : Action Byte κ ε → World Byte κ ε → Prop
  | transact {origin target : Address Byte} {data : List Byte} {depth : ℕ}
      {r : Result (Address Byte) Byte (Storage Byte κ) (Event Byte ε)}
      (horigin : w.accounts origin = none)
      (h : Optics.Math.Calls.transact w.accounts.table depth origin target data w.chain = some r) :
      Step blank w (.transact origin target data) { w with chain := r.after w.chain }
  | deploy {account deployer : Address Byte} {deployment : Deployment Byte κ ε} {depth : ℕ}
      {returned : List Byte} {chain : Chain Byte κ ε} (hfree : w.accounts account = none)
      (hfresh : ∀ entry ∈ w.chain.log, actor entry ≠ account)
      (h : run w.accounts.table depth ⟨account, deployer, false⟩ (deployment.construct deployer)
        (create blank account w.chain) = some (.ok (returned, chain))) :
      Step blank w (.deploy account deployer deployment)
        ⟨Function.update w.accounts account (some deployment.contract), chain⟩
  | refused {account deployer : Address Byte} {deployment : Deployment Byte κ ε} {depth : ℕ}
      {returned : List Byte}
      (h : run w.accounts.table depth ⟨account, deployer, false⟩ (deployment.construct deployer)
        (create blank account w.chain) = some (.error returned)) :
      Step blank w (.deploy account deployer deployment) w

/-- An action that succeeds with calls that nest at most `depth` deep. -/
def attempt (blank : κ) (depth : ℕ) : Action Byte κ ε → World Byte κ ε → Option (World Byte κ ε)
  | .transact origin target data, w =>
    if (w.accounts origin).isNone then
      (Optics.Math.Calls.transact w.accounts.table depth origin target data w.chain).map
        fun r => { w with chain := r.after w.chain }
    else none
  | .deploy account deployer deployment, w =>
    if (w.accounts account).isNone ∧ ∀ entry ∈ w.chain.log, actor entry ≠ account then
      match run w.accounts.table depth ⟨account, deployer, false⟩ (deployment.construct deployer)
        (create blank account w.chain) with
      | some (.ok (_, chain)) =>
        some ⟨Function.update w.accounts account (some deployment.contract), chain⟩
      | _ => none
    else none

theorem step_of_attempt {blank : κ} {depth : ℕ} {action : Action Byte κ ε}
    {w w' : World Byte κ ε} (h : attempt blank depth action w = some w') :
    Step blank w action w' := by
  cases action with
  | transact origin target data =>
    simp only [attempt] at h
    split_ifs at h with horigin
    · obtain ⟨r, hrun, rfl⟩ := Option.map_eq_some_iff.mp h
      exact .transact (Option.isNone_iff_eq_none.mp horigin) hrun
  | deploy account deployer deployment =>
    simp only [attempt] at h
    split_ifs at h with hfree
    · split at h
      · rename_i returned chain hrun
        cases h
        exact .deploy (Option.isNone_iff_eq_none.mp hfree.1) hfree.2 hrun
      · cases h

/-- The runs of worlds, from no accounts. -/
def system (blank : κ) : System (World Byte κ ε) (Action Byte κ ε) where
  init w := w.accounts = (fun _ => none) ∧ w.chain.log = []
  step := Step blank

end World

/-! ### Invariants of deployed contracts -/

section Deployed

variable {blank : κ}

/-- An invariant that a kind of contract keeps: it holds after its constructor, its program
keeps it and it survives other deployments. -/
structure Keeper (blank : κ) (contract : Contract Byte κ ε) (a : Address Byte)
    (I : (Address Byte → Bool) → Storage Byte κ → List (LogEntry Byte ε) → Prop) : Prop where
  constructed : ∀ (accounts : Accounts Byte κ ε) (chain chain' : Chain Byte κ ε) deployer
    (deployment : Deployment Byte κ ε) depth returned,
    (∀ entry ∈ chain.log, actor entry ≠ a) → deployment.contract = contract →
    run accounts.table depth ⟨a, deployer, false⟩ (deployment.construct deployer)
      (create blank a chain) = some (.ok (returned, chain')) →
    I (fun target => (accounts target).isSome) (chain'.storage a) chain'.log
  guarantees : ∀ accounts : Accounts Byte κ ε, accounts a = some contract →
    Guarantees accounts.table a (I fun target => (accounts target).isSome)
      fun target => (accounts target).isSome
  grows : ∀ (codeAt codeAt' : Address Byte → Bool) value log,
    (∀ target, codeAt target = true → codeAt' target = true) →
    I codeAt value log → I codeAt' value log

/-- **Deployed contracts keep their invariant.** -/
theorem Keeper.reachable {contract : Contract Byte κ ε} {a : Address Byte}
    {I : (Address Byte → Bool) → Storage Byte κ → List (LogEntry Byte ε) → Prop}
    (hkeeper : Keeper blank contract a I) {w : World Byte κ ε}
    (hreach : (World.system blank).Reachable w) (ha : w.accounts a = some contract) :
    I (fun target => (w.accounts target).isSome) (w.chain.storage a) w.chain.log := by
  suffices h : w.accounts a = some contract →
      I (fun target => (w.accounts target).isSome) (w.chain.storage a) w.chain.log from h ha
  refine hreach.invariant (P := fun w => w.accounts a = some contract →
    I (fun target => (w.accounts target).isSome) (w.chain.storage a) w.chain.log) ?_ ?_
  · rintro w ⟨hnone, -⟩ hsome
    rw [hnone] at hsome
    cases hsome
  · intro w action w' _ hI hstep hsome
    cases hstep with
    | @transact origin target data depth r horigin h =>
      have hne : origin ≠ a := by
        rintro rfl
        have hboth := horigin.symm.trans hsome
        cases hboth
      exact (transact_keeps (hkeeper.guarantees _ hsome) hne (hI hsome) h).1
    | @deploy account deployer deployment depth returned chain hfree hfresh h =>
      have hgrow : ∀ target, (w.accounts target).isSome = true →
          (Function.update w.accounts account (some deployment.contract) target).isSome = true := by
        intro target htarget
        by_cases heq : target = account
        · rw [heq, Function.update_self]
          rfl
        · rwa [Function.update_of_ne heq]
      by_cases haccount : a = account
      · subst haccount
        have hcontract : deployment.contract = contract := by simpa using hsome
        exact hkeeper.grows _ _ _ _ hgrow
          (hkeeper.constructed _ _ _ _ _ _ _ hfresh hcontract h)
      · change Function.update w.accounts account (some deployment.contract) a =
          some contract at hsome
        rw [Function.update_of_ne haccount] at hsome
        have hguarantees := hkeeper.guarantees _ hsome
        have hstart : I (fun target => (w.accounts target).isSome)
            ((create blank account w.chain).storage a) (create blank account w.chain).log := by
          rw [create, State.record_storage, State.write_storage_of_ne haccount, State.record_log,
            State.write_log]
          exact hguarantees.foreign _ _ (.created account) (Ne.symm haccount) (hI hsome)
        rw [run_eq_eval] at h
        have hself : (⟨account, deployer, false⟩ : Frame (Address Byte)).self ≠ a :=
          Ne.symm haccount
        exact hkeeper.grows _ _ _ _ hgrow
          (Code.eval_foreign (enterAt_keeps hguarantees depth) hguarantees.foreign hself _ hstart
            h).1
    | refused h => exact hI hsome

end Deployed

/-! ### Beacons -/

/-- The upgrade that an entry records for a beacon. -/
def upgrade? (b : Address Byte) : LogEntry Byte ε → Option (Address Byte)
  | .emitted a (.Upgrade implementation) => if a = b then some implementation else none
  | _ => none

/-- The implementations that a beacon had, oldest first. -/
def upgrades (b : Address Byte) (log : List (LogEntry Byte ε)) : List (Address Byte) :=
  log.filterMap (upgrade? b)

/-- An upgrade of the beacon comes right after its creation, or right after a call of its
controller with the new implementation. -/
def UpgradeCause (b controller : Address Byte) (before : List (LogEntry Byte ε))
    (entry : LogEntry Byte ε) : Prop :=
  ∀ implementation, entry = .emitted b (.Upgrade implementation) →
    before.getLast? = some (.created b) ∨
      ∃ data, before.getLast? = some (.called controller b data) ∧
        bytes32ToAddress (wordAt 0 data) = implementation

/-- What holds of a beacon whenever it does not run. -/
structure BeaconInvariant (b controller : Address Byte) (codeAt : Address Byte → Bool)
    (storage : Storage Byte κ) (log : List (LogEntry Byte ε)) : Prop where
  current : (upgrades b log).getLast? = some storage.implementation
  distinct : (upgrades b log).IsChain (· ≠ ·)
  isContract : codeAt storage.implementation = true
  caused : Grounded (UpgradeCause b controller) log

section Beacon

variable {b controller : Address Byte} {codeAt : Address Byte → Bool}
  {storage : Storage Byte κ} {log : List (LogEntry Byte ε)}

omit [ByteAlphabet Byte] in
theorem upgrades_concat_of_none {entry : LogEntry Byte ε} (h : upgrade? b entry = none) :
    upgrades b (log ++ [entry]) = upgrades b log := by
  simp [upgrades, h]

omit [ByteAlphabet Byte] in
theorem upgrades_concat (implementation : Address Byte) :
    upgrades b (log ++ [.emitted b (.Upgrade implementation)]) =
      upgrades b log ++ [implementation] := by
  simp [upgrades, upgrade?]

/-- Only an upgrade event of the beacon touches the invariant. -/
theorem BeaconInvariant.concat {entry : LogEntry Byte ε}
    (h : BeaconInvariant b controller codeAt storage log) (hentry : upgrade? b entry = none) :
    BeaconInvariant b controller codeAt storage (log ++ [entry]) where
  current := by rw [upgrades_concat_of_none hentry, h.current]
  distinct := by rw [upgrades_concat_of_none hentry]; exact h.distinct
  isContract := h.isContract
  caused := h.caused.concat <| by
    rintro implementation rfl
    simp [upgrade?] at hentry

omit [ByteAlphabet Byte] in
theorem upgrade?_of_actor {entry : LogEntry Byte ε} (h : actor entry ≠ b) :
    upgrade? b entry = none := by
  unfold upgrade?
  split
  · exact if_neg h
  · rfl

/-- The upgrade that the controller asked for. -/
theorem BeaconInvariant.upgraded {data : List Byte}
    (h : BeaconInvariant b controller codeAt storage log)
    (hne : storage.implementation ≠ bytes32ToAddress (wordAt 0 data))
    (hcode : codeAt (bytes32ToAddress (wordAt 0 data)) = true) :
    BeaconInvariant b controller codeAt
      { storage with implementation := bytes32ToAddress (wordAt 0 data) }
      (log ++ [.called controller b data] ++
        [.emitted b (.Upgrade (bytes32ToAddress (wordAt 0 data)))]) := by
  have hcalled : BeaconInvariant b controller codeAt storage
      (log ++ [.called controller b data]) := h.concat rfl
  refine ⟨?_, ?_, hcode, hcalled.caused.concat ?_⟩
  · rw [upgrades_concat, List.getLast?_concat]
  · rw [upgrades_concat]
    refine hcalled.distinct.append (List.isChain_singleton _) fun old hold new hnew => ?_
    rw [hcalled.current, Option.mem_some_iff] at hold
    rw [List.head?_cons, Option.mem_some_iff] at hnew
    rw [← hold, ← hnew]
    exact hne
  · intro implementation hentry
    cases hentry
    exact .inr ⟨data, List.getLast?_concat, rfl⟩

end Beacon

section Keeping

variable {a : Address Byte} {I : Storage Byte κ → List (LogEntry Byte ε) → Prop}
  {codeAt : Address Byte → Bool} {storage : Storage Byte κ} {log : List (LogEntry Byte ε)}

omit [DecidableEq Byte] in
theorem keeps_requireThen {condition : Bool} {reason : String} {next : ContractCode Byte κ ε}
    (h : condition = true → next.Keeps a I codeAt storage log) :
    (requireThen condition reason next).Keeps a I codeAt storage log := by
  unfold requireThen
  split
  · exact h ‹_›
  · rintro ⟨⟩

theorem keeps_setImplementation {implementation : Address Byte}
    (h : storage.implementation ≠ implementation → codeAt implementation = true →
      I { storage with implementation := implementation }
        (log ++ [.emitted a (.Upgrade implementation)])) :
    (UpgradeBeacon._setImplementation implementation).Keeps a I codeAt storage log := by
  refine keeps_requireThen fun hne => keeps_requireThen fun hcode => ?_
  exact fun _ => h (of_decide_eq_true hne) hcode

end Keeping

section BeaconKeeper

variable {blank : κ} {b controller : Address Byte}

/-- What a deployment that sets the first implementation leaves. -/
theorem eval_setImplementation {table : Table (Address Byte) Byte (Storage Byte κ) (Event Byte ε)}
    {enter : Enter (Address Byte) Byte (Storage Byte κ) (Event Byte ε)} {self sender : Address Byte}
    {implementation : Address Byte} {chain chain' : Chain Byte κ ε} {returned : List Byte}
    (h : (UpgradeBeacon._setImplementation implementation).eval table enter ⟨self, sender, false⟩
      chain = some (.ok (returned, chain'))) :
    (table chain implementation).isSome = true ∧
      chain' = (chain.write self
        { chain.storage self with implementation := implementation }).record
          (.emitted self (.Upgrade implementation)) := by
  simp only [UpgradeBeacon._setImplementation, Code.eval, requireThen] at h
  split_ifs at h with hne
  · simp only [Code.eval] at h
    split_ifs at h with hcode
    · cases h
      exact ⟨hcode, rfl⟩
    · cases h
  · cases h

/-- **Beacons keep their invariant.** -/
theorem beacon_keeper : Keeper blank (.UpgradeBeacon controller : Contract Byte κ ε) b
    (BeaconInvariant b controller) where
  constructed accounts chain chain' deployer deployment depth returned hfresh hcontract h := by
    cases deployment with
    | UpgradeBeacon implementation _ => ?_
    | UpgradeBeaconController => cases hcontract
    | UpgradeBeaconProxy => cases hcontract
    | other => cases hcontract
    rw [run_eq_eval] at h
    obtain ⟨hcode, rfl⟩ := eval_setImplementation h
    have hnone : ∀ entry ∈ chain.log, upgrade? b entry = none :=
      fun entry hentry => upgrade?_of_actor (hfresh entry hentry)
    have hupgrades : upgrades b (chain.log ++ [.created b] ++
        [.emitted b (.Upgrade implementation)]) = [implementation] := by
      rw [upgrades_concat, upgrades_concat_of_none rfl, upgrades,
        List.filterMap_eq_nil_iff.mpr hnone]
      rfl
    have hcaused : Grounded (UpgradeCause b controller) (chain.log ++ [.created b]) := by
      refine Grounded.of_forall ?_
      rintro entry hentry front implementation' rfl
      rcases List.mem_append.mp hentry with hold | hcreated
      · have h' := hnone _ hold
        simp [upgrade?] at h'
      · simp at hcreated
    refine ⟨?_, ?_, ?_, ?_⟩
    · rw [State.record_log, State.write_log, State.record_storage, State.write_storage_self]
      exact congrArg List.getLast? hupgrades
    · rw [State.record_log, State.write_log]
      exact hupgrades ▸ List.isChain_singleton _
    · rw [State.record_storage, State.write_storage_self]
      simpa [Accounts.table] using hcode
    · rw [State.record_log, State.write_log]
      refine hcaused.concat ?_
      intro implementation' _
      exact .inl List.getLast?_concat
  guarantees accounts hb := by
    refine ⟨?_, ?_, fun _ _ => by simp [Accounts.table]⟩
    · intro storage log entry hforeign h
      exact h.concat (upgrade?_of_actor (actor_ne_of_foreign hforeign))
    intro chain sender data h _
    refine ⟨UpgradeBeacon.fallback controller, by simp [Accounts.table, hb, Contract.program], ?_⟩
    unfold UpgradeBeacon.fallback
    split_ifs with hsender
    · exact fun _ => h.concat rfl
    · obtain rfl := not_not.mp hsender
      exact keeps_setImplementation fun hne hcode => h.upgraded hne hcode
  grows codeAt codeAt' storage log hgrow h :=
    ⟨h.current, h.distinct, hgrow _ h.isContract, h.caused⟩

end BeaconKeeper

/-! ### The beacon controller -/

/-- The owner that an entry gives to a contract. -/
def newOwner? (c : Address Byte) : LogEntry Byte ε → Option (Address Byte)
  | .emitted a (.OwnershipTransferred _ newOwner) => if a = c then some newOwner else none
  | _ => none

/-- The owner of a contract after what the log records. -/
def ownerAt (c : Address Byte) (log : List (LogEntry Byte ε)) : Address Byte :=
  (last (newOwner? c) log).getD 0

/-- The calldata asks the controller to upgrade a beacon. -/
def IsUpgrade (data : List Byte) (_beacon _implementation : Address Byte) : Prop :=
  data.take 4 = UpgradeBeaconController.upgradeSelector.map ofByte ∧ 68 ≤ data.length ∧
    bytes32ToAddress (wordAt 4 data) = _beacon ∧
    bytes32ToAddress (wordAt 36 data) = _implementation

/-- A call of the controller comes right after its owner asked for that upgrade. -/
def CallCause (c : Address Byte) (before : List (LogEntry Byte ε)) (entry : LogEntry Byte ε) :
    Prop :=
  ∀ target data, entry = .called c target data →
    ∃ earlier request implementation,
      before = earlier ++ [.called (ownerAt c earlier) c request] ∧
      IsUpgrade request target implementation ∧ data = abiEncode implementation

/-- What holds of a beacon controller whenever it does not run. -/
structure ControllerInvariant (c : Address Byte) (_codeAt : Address Byte → Bool)
    (storage : Storage Byte κ) (log : List (LogEntry Byte ε)) : Prop where
  owner : ownerAt c log = storage._owner
  caused : Grounded (CallCause c) log

section ControllerKeeper

variable {blank : κ} {c : Address Byte} {codeAt : Address Byte → Bool} {storage : Storage Byte κ}
  {log : List (LogEntry Byte ε)}

omit [ByteAlphabet Byte] in
theorem newOwner?_of_actor {entry : LogEntry Byte ε} (h : actor entry ≠ c) :
    newOwner? c entry = none := by
  unfold newOwner?
  split
  · exact if_neg h
  · rfl

theorem ownerAt_concat_of_none {entry : LogEntry Byte ε} (h : newOwner? c entry = none) :
    ownerAt c (log ++ [entry]) = ownerAt c log := by
  rw [ownerAt, last_concat, h, Option.none_or, ownerAt]

theorem ownerAt_concat (previousOwner newOwner : Address Byte) :
    ownerAt c (log ++ [.emitted c (.OwnershipTransferred previousOwner newOwner)]) = newOwner := by
  have h : newOwner? c (.emitted c (.OwnershipTransferred previousOwner newOwner) :
      LogEntry Byte ε) = some newOwner := if_pos rfl
  rw [ownerAt, last_concat, h, Option.some_or, Option.getD_some]

/-- An entry that is neither a call by the controller nor a change of its owner. -/
theorem ControllerInvariant.concat {entry : LogEntry Byte ε}
    (h : ControllerInvariant c codeAt storage log) (howner : newOwner? c entry = none)
    (hcall : ∀ target data, entry ≠ .called c target data) :
    ControllerInvariant c codeAt storage (log ++ [entry]) where
  owner := by rw [ownerAt_concat_of_none howner, h.owner]
  caused := h.caused.concat fun target data heq => absurd heq (hcall target data)

/-- The owner changes with the event that says so. -/
theorem ControllerInvariant.setOwner (h : ControllerInvariant c codeAt storage log)
    (newOwner : Address Byte) :
    (UpgradeBeaconController.setOwner newOwner storage).Keeps c (ControllerInvariant c codeAt)
      codeAt storage log := by
  intro _
  refine ⟨ownerAt_concat _ _, h.caused.concat ?_⟩
  rintro target data ⟨⟩

/-- The owner's request justifies the call of the beacon. -/
theorem ControllerInvariant.called {sender target implementation : Address Byte}
    {request : List Byte}
    (h : ControllerInvariant c codeAt storage (log ++ [.called sender c request]))
    (howner : storage._owner = sender) (hrequest : IsUpgrade request target implementation) :
    ControllerInvariant c codeAt storage
      (log ++ [.called sender c request] ++ [.called c target (abiEncode implementation)]) where
  owner := by rw [ownerAt_concat_of_none rfl, h.owner]
  caused := h.caused.concat <| by
    rintro target' data ⟨⟩
    have hlog : ownerAt c log = sender := by
      rw [← howner, ← h.owner, ownerAt_concat_of_none rfl]
    exact ⟨log, request, implementation, by rw [hlog], hrequest, rfl⟩

/-- The functions of the controller keep its invariant. -/
theorem ControllerInvariant.external {sender : Address Byte} {data : List Byte}
    (h : ControllerInvariant c codeAt storage (log ++ [.called sender c data])) :
    (UpgradeBeaconController.external c sender data).Keeps c (ControllerInvariant c codeAt)
      codeAt storage (log ++ [.called sender c data]) := by
  unfold UpgradeBeaconController.external
  dsimp only
  split_ifs with hupgrade htransfer hrenounce howner
  · refine keeps_requireThen fun howner => keeps_requireThen fun _ => ?_
    have hrequest : IsUpgrade data (bytes32ToAddress (wordAt (4 + 32 * 0) data))
        (bytes32ToAddress (wordAt (4 + 32 * 1) data)) := ⟨hupgrade.1, hupgrade.2, rfl, rfl⟩
    refine ⟨h, h.called (of_decide_eq_true howner) hrequest, ?_, ?_⟩
    · rintro returned ⟨⟩
    · intro returned storage' log' h' _ _
      refine h'.concat rfl ?_
      rintro target data' ⟨⟩
  · exact keeps_requireThen fun _ => keeps_requireThen fun _ => h.setOwner _
  · exact keeps_requireThen fun _ => h.setOwner _
  · exact fun _ => h
  · rintro ⟨⟩

/-- **Beacon controllers keep their invariant.** -/
theorem controller_keeper : Keeper blank (.UpgradeBeaconController : Contract Byte κ ε) c
    (ControllerInvariant c) where
  constructed accounts chain chain' deployer deployment depth returned hfresh hcontract h := by
    cases deployment with
    | UpgradeBeacon => cases hcontract
    | UpgradeBeaconController => ?_
    | UpgradeBeaconProxy => cases hcontract
    | other => cases hcontract
    rw [run_eq_eval] at h
    cases h
    refine ⟨?_, ?_⟩
    · rw [State.record_log, State.write_log, State.record_storage, State.write_storage_self]
      exact ownerAt_concat _ _
    · refine Grounded.of_forall ?_
      rintro entry hentry front target data rfl
      rw [State.record_log, State.write_log, create, State.record_log, State.write_log] at hentry
      simp only [List.mem_append, List.mem_singleton, reduceCtorEq, or_false] at hentry
      exact absurd rfl (hfresh _ hentry)
  guarantees accounts hc := by
    refine ⟨?_, ?_, fun _ _ => by simp [Accounts.table]⟩
    · intro storage log entry hforeign h
      refine h.concat ?_ ?_
      · exact newOwner?_of_actor (actor_ne_of_foreign hforeign)
      · rintro target data rfl
        exact hforeign.1 rfl
    · intro chain sender data h hself
      refine ⟨UpgradeBeaconController.external,
        by simp [Accounts.table, hc, Contract.program], ?_⟩
      refine ControllerInvariant.external ?_
      by_cases hsender : sender = c
      · exact hself hsender
      · refine h.concat rfl ?_
        rintro target data' ⟨⟩
        exact hsender rfl
  grows codeAt codeAt' storage log hgrow h := ⟨h.owner, h.caused⟩

end ControllerKeeper

/-! ### Authority -/

section Authority

variable {blank : κ} {w : World Byte κ ε} {b c : Address Byte}

/-- **A beacon holds its last upgrade.** In every world the implementation of a beacon is a
contract, as it was when it was set, it is that of the last upgrade event of the beacon, and no
upgrade repeats the one before. -/
theorem implementation_of_reachable (hreach : (World.system blank).Reachable w)
    (hb : w.accounts b = some (.UpgradeBeacon c)) :
    (w.accounts (w.chain.storage b).implementation).isSome = true ∧
      (upgrades b w.chain.log).getLast? = some (w.chain.storage b).implementation ∧
      (upgrades b w.chain.log).IsChain (· ≠ ·) :=
  have h := beacon_keeper.reachable hreach hb
  ⟨h.isContract, h.current, h.distinct⟩

/-- **Only the owner upgrades.** Every upgrade of a beacon that is controlled by a beacon
controller is that of its deployment, or comes right after two calls: the one in which the
owner of the controller at that time asked for this upgrade, and the one in which the
controller passed it on. -/
theorem upgrade_authorised (hreach : (World.system blank).Reachable w)
    (hb : w.accounts b = some (.UpgradeBeacon c))
    (hc : w.accounts c = some .UpgradeBeaconController) {before after : List (LogEntry Byte ε)}
    {implementation : Address Byte}
    (hlog : w.chain.log = before ++ .emitted b (.Upgrade implementation) :: after) :
    before.getLast? = some (.created b) ∨
      ∃ earlier request, IsUpgrade request b implementation ∧
        before = earlier ++ [.called (ownerAt c earlier) c request,
          .called c b (abiEncode implementation)] := by
  have hbeacon := beacon_keeper.reachable hreach hb
  have hcontroller := controller_keeper.reachable hreach hc
  rcases hbeacon.caused before _ after hlog implementation rfl with hcreated | ⟨data, hcall, hword⟩
  · exact .inl hcreated
  right
  obtain ⟨front, rfl⟩ := List.getLast?_eq_some_iff.mp hcall
  have hsplit : w.chain.log = front ++ .called c b data ::
      .emitted b (.Upgrade implementation) :: after := by
    rw [hlog, List.append_assoc, List.singleton_append]
  obtain ⟨earlier, request, asked, rfl, hrequest, rfl⟩ :=
    hcontroller.caused front _ _ hsplit b data rfl
  rw [wordAt_abiEncode, bytes32ToAddress_addressToBytes32] at hword
  subst hword
  exact ⟨earlier, request, hrequest, by rw [List.append_assoc, List.singleton_append]⟩

end Authority

section Sample

/-- No accounts. -/
def sampleWorld : World UInt8 Unit Empty := ⟨fun _ => none, ⟨fun _ => ⟨0, 0, ()⟩, []⟩⟩

/-- Account 9 deploys two implementations, a controller and a beacon, and upgrades the beacon. -/
def sampleActions : List (Action UInt8 Unit Empty) :=
  [.deploy (sampleAddress 4) (sampleAddress 9) (.other (answering 4) (.finish true [])),
    .deploy (sampleAddress 5) (sampleAddress 9) (.other (answering 5) (.finish true [])),
    .deploy (sampleAddress 2) (sampleAddress 9) .UpgradeBeaconController,
    .deploy (sampleAddress 1) (sampleAddress 9)
      (.UpgradeBeacon (sampleAddress 4) (sampleAddress 2)),
    .transact (sampleAddress 9) (sampleAddress 2)
      (abiCall UpgradeBeaconController.upgradeSelector [sampleAddress 1, sampleAddress 5])]

/-- The contract is a beacon with that controller. -/
def Contract.isBeaconOf (controller : Address UInt8) : Option (Contract UInt8 Unit Empty) → Bool
  | some (.UpgradeBeacon c) => c = controller
  | _ => false

/-- The contract is a beacon controller. -/
def Contract.isController : Option (Contract UInt8 Unit Empty) → Bool
  | some .UpgradeBeaconController => true
  | _ => false

theorem Contract.eq_of_isBeaconOf {controller : Address UInt8}
    {contract : Option (Contract UInt8 Unit Empty)} (h : isBeaconOf controller contract = true) :
    contract = some (.UpgradeBeacon controller) := by
  unfold isBeaconOf at h
  split at h
  · rw [of_decide_eq_true h]
  · cases h

theorem Contract.eq_of_isController {contract : Option (Contract UInt8 Unit Empty)}
    (h : isController contract = true) : contract = some .UpgradeBeaconController := by
  unfold isController at h
  split at h
  · rfl
  · cases h

/-- The record of the sample up to the upgrade. -/
def sampleLog : List (LogEntry UInt8 Empty) :=
  [.created (sampleAddress 4), .created (sampleAddress 5), .created (sampleAddress 2),
    .emitted (sampleAddress 2) (.OwnershipTransferred 0 (sampleAddress 9)),
    .created (sampleAddress 1), .emitted (sampleAddress 1) (.Upgrade (sampleAddress 4)),
    .called (sampleAddress 9) (sampleAddress 2)
      (abiCall UpgradeBeaconController.upgradeSelector [sampleAddress 1, sampleAddress 5]),
    .called (sampleAddress 2) (sampleAddress 1) (abiEncode (sampleAddress 5))]

theorem exists_sampleWorld : ∃ w, (World.system ()).Reachable w ∧
    w.accounts (sampleAddress 1) = some (.UpgradeBeacon (sampleAddress 2)) ∧
    w.accounts (sampleAddress 2) = some .UpgradeBeaconController ∧
    w.chain.log = sampleLog ++ .emitted (sampleAddress 1) (.Upgrade (sampleAddress 5)) ::
      [.emitted (sampleAddress 2) (.BeaconUpgraded (sampleAddress 1) (sampleAddress 5))] := by
  obtain ⟨w, hrun, hw⟩ := System.exists_run_of_any (S := World.system ())
    (World.attempt () 4) sampleWorld sampleActions
    (fun w => Contract.isBeaconOf (sampleAddress 2) (w.accounts (sampleAddress 1)) &&
      Contract.isController (w.accounts (sampleAddress 2)) &&
      decide (w.chain.log = sampleLog ++ .emitted (sampleAddress 1) (.Upgrade (sampleAddress 5)) ::
        [.emitted (sampleAddress 2) (.BeaconUpgraded (sampleAddress 1) (sampleAddress 5))]))
    (fun w action w' h => World.step_of_attempt h) (by decide)
  simp only [Bool.and_eq_true, decide_eq_true_eq] at hw
  exact ⟨w, ⟨sampleWorld, _, ⟨rfl, rfl⟩, hrun⟩, Contract.eq_of_isBeaconOf hw.1.1,
    Contract.eq_of_isController hw.1.2, hw.2⟩

/-- The upgrade in the sample goes back to its owner. -/
theorem upgrade_authorised_sample :
    sampleLog.getLast? = some (.created (sampleAddress 1)) ∨
      ∃ earlier request, IsUpgrade request (sampleAddress 1) (sampleAddress 5) ∧
        sampleLog = earlier ++
          [.called (ownerAt (sampleAddress 2) earlier) (sampleAddress 2) request,
          .called (sampleAddress 2) (sampleAddress 1) (abiEncode (sampleAddress 5))] := by
  obtain ⟨w, hreach, hb, hc, hlog⟩ := exists_sampleWorld
  exact upgrade_authorised hreach hb hc hlog

/-- The beacon of the sample holds the second implementation. -/
theorem implementation_of_reachable_sample : ∃ w : World UInt8 Unit Empty,
    (World.system ()).Reachable w ∧ (upgrades (sampleAddress 1) w.chain.log).getLast? =
      some (w.chain.storage (sampleAddress 1)).implementation := by
  obtain ⟨w, hreach, hb, -, -⟩ := exists_sampleWorld
  exact ⟨w, hreach, (implementation_of_reachable hreach hb).2.1⟩

end Sample

end Optics.Upgradable
