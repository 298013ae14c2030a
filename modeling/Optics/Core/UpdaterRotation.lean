/-
# Two copies of the updater

Home checks signatures against its own copy of the updater, and the updater
manager answers from another one. A rotation through the manager writes both, and
so does the initialisation of Home. The two calls by which owners relink the
contracts, `Home.setUpdaterManager` and `UpdaterManager.setHome`, write a pointer
and copy nothing. So the copies agree exactly as long as contracts are linked only
when they agree already.
-/

import Optics.Core.UpdaterManager
import Optics.Math.Copies

namespace Optics

open Optics.Solidity Optics.Common Optics.Math Optics.Math.Transition

variable {Byte : Type}

/-- What runs at an address: a Home, before or after its initialisation, an updater
manager, or code that is neither. -/
inductive Contract (Byte : Type)
  | home (home : Home Byte) (initialized : Bool)
  | manager (manager : UpdaterManager Byte)
  | other

namespace Contract

/-- What a Home holds of its manager. -/
def left : Contract Byte → Option (Address Byte × Address Byte)
  | .home contents _ => some (contents.updaterManager, contents.updater)
  | _ => none

/-- What a manager holds of its Home. -/
def right : Contract Byte → Option (Address Byte × Address Byte)
  | .manager contents => some (contents.home, contents.updater)
  | _ => none

end Contract

/-- The contracts of a chain. -/
structure Rotation (Byte : Type) where
  contracts : Address Byte → Option (Contract Byte)

namespace Rotation

/-- The transactions. A call of `setUpdater` says how deep its gas lets calls nest.
`setOwner` is `transferOwnership`, or `renounceOwnership` for the zero address. -/
inductive Call (Byte : Type)
  | deployHome (address : Address Byte) (localDomain : UInt32)
  | deployManager (address updater : Address Byte)
  | deployOther (address : Address Byte)
  | init (home updaterManager : Address Byte)
  | setHome (manager home : Address Byte)
  | setUpdater (address updater : Address Byte) (depth : ℕ)
  | home (address : Address Byte) (call : Home.Call Byte)
  | setOwner (address owner : Address Byte)

/-- A call with its sender, and what other code does if the call gets there: it
reverts, or returns an address. The contracts write nothing once they have called
other code, so the calls that it makes are later transactions of its own. -/
structure Transaction (Byte : Type) where
  sender : Address Byte
  answer : Option (Address Byte)
  call : Call Byte

/-- `Address.isContract`. -/
def isContract (w : Rotation Byte) (address : Address Byte) : Bool := (w.contracts address).isSome

variable [DecidableEq Byte]

/-- The contract at an address takes new contents. -/
def set (w : Rotation Byte) (address : Address Byte) (contract : Contract Byte) : Rotation Byte :=
  ⟨Function.update w.contracts address (some contract)⟩

/-- What `updater()` answers at an address. Home answers it as well. -/
def updaterAt (w : Rotation Byte) (answer : Option (Address Byte)) (address : Address Byte) :
    Except Revert (Address Byte) :=
  match w.contracts address, answer with
  | some (.home home _), _ => .ok home.updater
  | some (.manager manager), _ => .ok manager.updater
  | some .other, some updater => .ok updater
  | _, _ => .error (.external "updater")

/-- What the contract at an address does when the Home at `home` asks it to slash.
Home itself has no function `slashUpdater`. -/
def slashOutcome (w : Rotation Byte) (answer : Option (Address Byte))
    (home address reporter : Address Byte) : Home.SlashOutcome Byte :=
  match w.contracts address, answer with
  | some (.manager manager), _ =>
    match manager.slashUpdater home reporter with
    | .ok _ => .returns []
    | .error _ => .reverts
  | some .other, some _ => .returns []
  | _, _ => .reverts

/-- `setUpdater`, called at an address. A manager hands the call on to the address
that it has as its home. -/
def setUpdater (answer : Option (Address Byte)) : ℕ → Address Byte → Address Byte →
    Address Byte → Rotation Byte → Except Revert (Rotation Byte)
  | 0, _, _, _, _ => .error (.external "out of gas")
  | depth + 1, sender, address, _updaterAddress, w =>
    match w.contracts address, answer with
    | some (.home home initialized), _ => do
      let (home, _) ← home.setUpdater sender _updaterAddress
      .ok (w.set address (.home home initialized))
    | some (.manager manager), _ => do
      manager.onlyOwner sender
      setUpdater answer depth address manager.home _updaterAddress
        (w.set address (.manager { manager with _updater := _updaterAddress }))
    | some .other, some _ => .ok w
    | _, _ => .error (.external "setUpdater")

/-- `transferOwnership` and `renounceOwnership`. -/
def setOwner (sender address _owner : Address Byte) (w : Rotation Byte) :
    Except Revert (Rotation Byte) :=
  match w.contracts address with
  | some (.home home initialized) => do
    require (sender = home.owner) "Ownable: caller is not the owner"
    .ok (w.set address (.home { home with owner := _owner } initialized))
  | some (.manager manager) => do
    manager.onlyOwner sender
    .ok (w.set address (.manager { manager with owner := _owner }))
  | _ => .error (.external "setOwner")

variable [ByteAlphabet Byte]

/-- A new contract, at an address that is not zero and has no code. -/
def create (address : Address Byte) (contract : Contract Byte) (w : Rotation Byte) :
    Except Revert (Rotation Byte) := do
  require (address ≠ 0 ∧ w.isContract address = false) "code at address"
  .ok (w.set address contract)

variable (K : Crypto Byte)

/-- One transaction. -/
def exec (tx : Transaction Byte) (w : Rotation Byte) : Except Revert (Rotation Byte) :=
  match tx.call with
  | .deployHome address localDomain => w.create address (.home (Home.fresh localDomain) false)
  | .deployManager address updater => w.create address (.manager ⟨tx.sender, 0, updater⟩)
  | .deployOther address => w.create address .other
  | .init address updaterManager =>
    match w.contracts address with
    | some (.home home initialized) => do
      require (initialized = false) "Initializable: contract is already initialized"
      let updater ← w.updaterAt tx.answer updaterManager
      -- the initialiser asks nobody to slash
      let (home, _) ← Home.init ⟨tx.sender, w.isContract, .reverts⟩ updaterManager updater home
      .ok (w.set address (.home home true))
    | _ => .error (.external "initialize")
  | .setHome address home =>
    match w.contracts address with
    | some (.manager manager) => do
      let (manager, _) ← manager.setHome tx.sender w.isContract home
      .ok (w.set address (.manager manager))
    | _ => .error (.external "setHome")
  | .setUpdater address updater depth => w.setUpdater tx.answer depth tx.sender address updater
  | .home address call =>
    match w.contracts address with
    | some (.home home initialized) => do
      let slash := w.slashOutcome tx.answer address home.updaterManager tx.sender
      let (home, _) ← Home.exec K ⟨tx.sender, w.isContract, slash⟩ call home
      .ok (w.set address (.home home initialized))
    | _ => .error (.external "home")
  | .setOwner address owner => w.setOwner tx.sender address owner

/-- No Home and no manager runs at the address. -/
def Outside (w : Rotation Byte) (address : Address Byte) : Prop :=
  w.contracts address = none ∨ w.contracts address = some .other

/-- Any transactions from an empty chain, each sent from outside. -/
def system : System (Rotation Byte) (Transaction Byte) where
  init w := w = ⟨fun _ => none⟩
  step w tx w' := w.Outside tx.sender ∧ callStep (exec K) w tx w'

/-- The updater of a Home is that of its manager, if the two point to each other. -/
def Agree (w : Rotation Byte) : Prop :=
  ∀ {address home initialized manager}, w.contracts address = some (.home home initialized) →
    w.contracts home.updaterManager = some (.manager manager) → manager.home = address →
    home.updater = manager.updater

/-! ### The copies of the updater -/

/-- What the contracts hold of each other. -/
def copies (w : Rotation Byte) : Copies (Address Byte) (Address Byte) (Address Byte) where
  left address := (w.contracts address).bind Contract.left
  right address := (w.contracts address).bind Contract.right

section Copies

variable {w : Rotation Byte} {address : Address Byte} {home : Home Byte} {initialized : Bool}
  {manager : UpdaterManager Byte} {contract : Contract Byte} {p : Address Byte × Address Byte}

section Reading

omit [DecidableEq Byte] [ByteAlphabet Byte]

theorem left_of_contract (h : w.contracts address = some contract) :
    w.copies.left address = contract.left := by
  simp only [copies, h, Option.bind_some]

theorem right_of_contract (h : w.contracts address = some contract) :
    w.copies.right address = contract.right := by
  simp only [copies, h, Option.bind_some]

theorem left_of_none (h : w.contracts address = none) : w.copies.left address = none := by
  simp only [copies, h, Option.bind_none]

theorem right_of_none (h : w.contracts address = none) : w.copies.right address = none := by
  simp only [copies, h, Option.bind_none]

theorem left_eq_some :
    w.copies.left address = some p ↔ ∃ home initialized,
      w.contracts address = some (.home home initialized) ∧
        p = (home.updaterManager, home.updater) := by
  constructor
  · intro h
    obtain ⟨contract, hcontract, hleft⟩ := Option.bind_eq_some_iff.mp h
    cases contract with
    | home home initialized => exact ⟨home, initialized, hcontract, (Option.some.inj hleft).symm⟩
    | manager => cases hleft
    | other => cases hleft
  · rintro ⟨home, initialized, hcontract, rfl⟩
    exact left_of_contract hcontract

theorem right_eq_some :
    w.copies.right address = some p ↔ ∃ manager,
      w.contracts address = some (.manager manager) ∧ p = (manager.home, manager.updater) := by
  constructor
  · intro h
    obtain ⟨contract, hcontract, hright⟩ := Option.bind_eq_some_iff.mp h
    cases contract with
    | home => cases hright
    | manager manager => exact ⟨manager, hcontract, (Option.some.inj hright).symm⟩
    | other => cases hright
  · rintro ⟨manager, hcontract, rfl⟩
    exact right_of_contract hcontract

theorem agree_iff : w.Agree ↔ w.copies.Agree := by
  constructor
  · intro h a m x y hleft hright
    obtain ⟨home, initialized, hhome, hpointer⟩ := left_eq_some.mp hleft
    obtain ⟨manager, hmanager, hback⟩ := right_eq_some.mp hright
    obtain ⟨rfl, rfl⟩ := Prod.mk.inj hpointer
    obtain ⟨rfl, rfl⟩ := Prod.mk.inj hback
    exact h hhome hmanager rfl
  · intro h a home initialized manager hhome hmanager hback
    have hleft : w.copies.left a = some (home.updaterManager, home.updater) :=
      left_of_contract hhome
    have hright : w.copies.right home.updaterManager = some (a, manager.updater) :=
      hback ▸ right_of_contract hmanager
    exact h hleft hright

theorem Outside.right_eq_none (h : w.Outside address) : w.copies.right address = none := by
  rcases h with hnone | hother
  · exact right_of_none hnone
  · exact right_of_contract hother

end Reading

section Writing

omit [ByteAlphabet Byte]

theorem copies_set : (w.set address contract).copies =
    ⟨Function.update w.copies.left address contract.left,
      Function.update w.copies.right address contract.right⟩ := by
  ext1
  · funext a
    rcases eq_or_ne a address with rfl | hne
    · simp [copies, set]
    · simp [copies, set, hne]
  · funext a
    rcases eq_or_ne a address with rfl | hne
    · simp [copies, set]
    · simp [copies, set, hne]

/-- A Home writes on the left, -/
theorem copies_set_home (h : w.copies.right address = none) :
    (w.set address (.home home initialized)).copies =
      w.copies.setLeft address (home.updaterManager, home.updater) := by
  have hright : Function.update w.copies.right address none = w.copies.right :=
    h ▸ Function.update_eq_self ..
  rw [copies_set]
  exact congrArg (Copies.mk _) hright

/-- a manager on the right, -/
theorem copies_set_manager (h : w.copies.left address = none) :
    (w.set address (.manager manager)).copies =
      w.copies.setRight address (manager.home, manager.updater) := by
  have hleft : Function.update w.copies.left address none = w.copies.left :=
    h ▸ Function.update_eq_self ..
  rw [copies_set]
  exact congrArg (Copies.mk · _) hleft

/-- and other code on neither side. -/
theorem copies_set_other (h : w.contracts address = none) :
    (w.set address .other).copies = w.copies := by
  have hleft : Function.update w.copies.left address none = w.copies.left :=
    left_of_none h ▸ Function.update_eq_self ..
  have hright : Function.update w.copies.right address none = w.copies.right :=
    right_of_none h ▸ Function.update_eq_self ..
  rw [copies_set]
  exact congrArg₂ Copies.mk hleft hright

end Writing

end Copies

/-! ### Keeping the copies -/

/-- The copies agree, and no contract is at the zero address, which is what a new
contract holds for the other one. -/
structure Consistent (w : Rotation Byte) : Prop where
  zero : w.contracts 0 = none
  agree : w.copies.Agree

/-- A transaction that keeps the copies: an owner who links a Home and a manager does
so when they have the same updater. -/
def KeepsAgreement (w : Rotation Byte) (tx : Transaction Byte) : Prop :=
  match tx.call with
  | .home address (.setUpdaterManager updaterManager) =>
    ∀ {home initialized manager}, w.contracts address = some (.home home initialized) →
      tx.sender = home.owner → w.contracts updaterManager = some (.manager manager) →
      manager.home = address → home.updater = manager.updater
  | .setHome address homeAddress =>
    ∀ {manager home initialized}, w.contracts address = some (.manager manager) →
      tx.sender = manager.owner → w.contracts homeAddress = some (.home home initialized) →
      home.updaterManager = address → home.updater = manager.updater
  | _ => True

section Steps

variable {w w' : Rotation Byte} {address : Address Byte} {home home' : Home Byte}
  {initialized initialized' : Bool} {manager manager' : UpdaterManager Byte}
  {contract contract' : Contract Byte}

section Writing

omit [DecidableEq Byte] in
theorem Consistent.ne_zero (hw : w.Consistent) (h : w.contracts address = some contract) :
    address ≠ 0 := by
  rintro rfl
  rw [hw.zero] at h
  cases h

theorem zero_set (hw : w.contracts 0 = none) (h : address ≠ 0) :
    (w.set address contract).contracts 0 = none :=
  (Function.update_of_ne h.symm ..).trans hw

omit [ByteAlphabet Byte] in
/-- The copies agree after a write of Home if its new manager, when it points back, has
its new updater. -/
theorem agree_set_home_iff (hw : w.copies.Agree)
    (h : w.contracts address = some (.home home initialized)) :
    (w.set address (.home home' initialized')).copies.Agree ↔
      ∀ {manager}, w.contracts home'.updaterManager = some (.manager manager) →
        manager.home = address → home'.updater = manager.updater := by
  rw [copies_set_home (right_of_contract h), Copies.agree_setLeft_iff hw]
  constructor
  · intro hnew manager hmanager hback
    exact hnew _ (hback ▸ right_of_contract hmanager)
  · intro hnew y hright
    obtain ⟨manager, hmanager, hpair⟩ := right_eq_some.mp hright
    obtain ⟨hback, rfl⟩ := Prod.mk.inj hpair
    exact hnew hmanager hback.symm

omit [ByteAlphabet Byte] in
theorem agree_set_manager_iff (hw : w.copies.Agree)
    (h : w.contracts address = some (.manager manager)) :
    (w.set address (.manager manager')).copies.Agree ↔
      ∀ {home initialized}, w.contracts manager'.home = some (.home home initialized) →
        home.updaterManager = address → home.updater = manager'.updater := by
  rw [copies_set_manager (left_of_contract h), Copies.agree_setRight_iff hw]
  constructor
  · intro hnew home initialized hhome hback
    exact hnew _ (hback ▸ left_of_contract hhome)
  · intro hnew x hleft
    obtain ⟨home, initialized, hhome, hpair⟩ := left_eq_some.mp hleft
    obtain ⟨hback, rfl⟩ := Prod.mk.inj hpair
    exact hnew hhome hback.symm

/-- A write of Home that leaves its pointer and its updater alone. -/
theorem Consistent.set_home (hw : w.Consistent)
    (h : w.contracts address = some (.home home initialized))
    (hmanager : home'.updaterManager = home.updaterManager)
    (hupdater : home'.updater = home.updater) :
    (w.set address (.home home' initialized')).Consistent where
  zero := zero_set hw.zero (hw.ne_zero h)
  agree := by
    rw [agree_set_home_iff hw.agree h, hmanager, hupdater]
    exact agree_iff.mpr hw.agree h

theorem Consistent.set_manager (hw : w.Consistent)
    (h : w.contracts address = some (.manager manager)) (hhome : manager'.home = manager.home)
    (hupdater : manager'.updater = manager.updater) :
    (w.set address (.manager manager')).Consistent where
  zero := zero_set hw.zero (hw.ne_zero h)
  agree := by
    rw [agree_set_manager_iff hw.agree h, hhome, hupdater]
    intro home initialized hcontract hback
    exact agree_iff.mpr hw.agree hcontract (hback ▸ h) rfl

/-- A new contract points to the zero address, if to any. -/
theorem consistent_create (hw : w.Consistent)
    (hleft : ∀ p, contract.left = some p → p.1 = 0)
    (hright : ∀ p, contract.right = some p → p.1 = 0)
    (h : w.create address contract = .ok w') : w'.Consistent := by
  obtain ⟨⟨hne, hfree⟩, h⟩ := require_bind_eq_ok.mp h
  obtain rfl := Except.ok.inj h
  have hnone : w.contracts address = none := by simpa [isContract] using hfree
  refine ⟨zero_set hw.zero hne, ?_⟩
  cases contract with
  | home home initialized =>
    have hpointer : home.updaterManager = 0 := hleft _ rfl
    rw [copies_set_home (right_of_none hnone), Copies.agree_setLeft_iff hw.agree, hpointer]
    intro y hback
    rw [right_of_none hw.zero] at hback
    cases hback
  | manager manager =>
    have hpointer : manager.home = 0 := hright _ rfl
    rw [copies_set_manager (left_of_none hnone), Copies.agree_setRight_iff hw.agree, hpointer]
    intro x hback
    rw [left_of_none hw.zero] at hback
    cases hback
  | other =>
    rw [copies_set_other hnone]
    exact hw.agree

end Writing

/-- **Rotation.** However many managers hand the call on, the copy of the last one
arrives at the Home that it is linked to. -/
theorem consistent_setUpdater {answer : Option (Address Byte)} {depth : ℕ}
    {sender updater : Address Byte} (hzero : w.contracts 0 = none)
    (hw : w.copies.Passing address sender updater)
    (h : w.setUpdater answer depth sender address updater = .ok w') : w'.Consistent := by
  induction depth generalizing sender address w with
  | zero => cases h
  | succ depth ih =>
    have hne : ∀ {contract}, w.contracts address = some contract → address ≠ 0 := by
      rintro contract hcontract rfl
      rw [hzero] at hcontract
      cases hcontract
    unfold setUpdater at h
    split at h
    · next home initialized hcontract =>
      obtain ⟨⟨home', events⟩, hset, h⟩ := bind_eq_ok.mp h
      obtain ⟨rfl, hresult⟩ := require_bind_eq_ok.mp hset
      obtain ⟨rfl, -⟩ := Prod.mk.inj (Except.ok.inj hresult)
      obtain rfl := Except.ok.inj h
      refine ⟨zero_set hzero (hne hcontract), ?_⟩
      rw [copies_set_home (right_of_contract hcontract)]
      exact hw.agree_setLeft
    · next manager hcontract =>
      obtain ⟨-, h⟩ := require_bind_eq_ok.mp h
      refine ih (zero_set hzero (hne hcontract)) ?_ h
      rw [copies_set_manager (left_of_contract hcontract)]
      exact Copies.Agree.passing_setRight (hw.agree (left_of_contract hcontract))
    · next hcontract =>
      obtain rfl := Except.ok.inj h
      exact ⟨hzero, hw.agree (left_of_contract hcontract)⟩
    · cases h

omit [ByteAlphabet Byte] in
/-- Whoever is asked to slash makes no calls back into Home. -/
theorem nested_eq_nil {answer : Option (Address Byte)} {homeAddress address reporter : Address Byte}
    {nested : List (Home.Reconfiguration Byte)}
    (h : w.slashOutcome answer homeAddress address reporter = .returns nested) : nested = [] := by
  unfold slashOutcome at h
  split at h
  · split at h
    · exact (Home.SlashOutcome.returns.inj h).symm
    · cases h
  · exact (Home.SlashOutcome.returns.inj h).symm
  · cases h

variable {K} {tx : Transaction Byte}

/-- Home starts with the updater of its manager. -/
theorem consistent_init {sender updaterManager : Address Byte} {answer : Option (Address Byte)}
    (hw : w.Consistent) (h : exec K ⟨sender, answer, .init address updaterManager⟩ w = .ok w') :
    w'.Consistent := by
  unfold exec at h
  dsimp only at h
  split at h
  · next home initialized hcontract =>
    obtain ⟨-, h⟩ := require_bind_eq_ok.mp h
    obtain ⟨updater, hupdater, h⟩ := bind_eq_ok.mp h
    obtain ⟨⟨home₂, events⟩, hinit, h⟩ := bind_eq_ok.mp h
    obtain ⟨⟨home₁, events₁⟩, hset, hinit⟩ := bind_eq_ok.mp hinit
    obtain ⟨-, hset⟩ := require_bind_eq_ok.mp hset
    obtain ⟨rfl, -⟩ := Prod.mk.inj (Except.ok.inj hset)
    obtain ⟨rfl, -⟩ := Prod.mk.inj (Except.ok.inj hinit)
    obtain rfl := Except.ok.inj h
    refine ⟨zero_set hw.zero (hw.ne_zero hcontract), ?_⟩
    apply (agree_set_home_iff hw.agree hcontract).mpr
    -- whatever home the manager has, it answered with its updater
    intro manager hmanager _
    simp only [updaterAt, hmanager] at hupdater
    exact (Except.ok.inj hupdater).symm
  · cases h

theorem consistent_setHome {sender homeAddress : Address Byte} {answer : Option (Address Byte)}
    (hw : w.Consistent) (hkeeps : w.KeepsAgreement ⟨sender, answer, .setHome address homeAddress⟩)
    (h : exec K ⟨sender, answer, .setHome address homeAddress⟩ w = .ok w') : w'.Consistent := by
  unfold exec at h
  dsimp only at h
  split at h
  · next manager hcontract =>
    obtain ⟨⟨manager', events⟩, hset, h⟩ := bind_eq_ok.mp h
    obtain ⟨howner, hset⟩ := require_bind_eq_ok.mp hset
    obtain ⟨-, hset⟩ := require_bind_eq_ok.mp hset
    obtain ⟨rfl, -⟩ := Prod.mk.inj (Except.ok.inj hset)
    obtain rfl := Except.ok.inj h
    refine ⟨zero_set hw.zero (hw.ne_zero hcontract), ?_⟩
    exact (agree_set_manager_iff hw.agree hcontract).mpr (hkeeps hcontract howner)
  · cases h

/-- A call of Home writes its copy when its manager is the sender, which is then none of
the managers, and its pointer when its owner is. -/
theorem consistent_home {sender : Address Byte} {answer : Option (Address Byte)}
    {call : Home.Call Byte} (hw : w.Consistent) (hsender : w.Outside sender)
    (hkeeps : w.KeepsAgreement ⟨sender, answer, .home address call⟩)
    (h : exec K ⟨sender, answer, .home address call⟩ w = .ok w') : w'.Consistent := by
  unfold exec at h
  dsimp only at h
  split at h
  · next home initialized hcontract =>
    obtain ⟨⟨home', events⟩, hexec, h⟩ := bind_eq_ok.mp h
    obtain rfl := Except.ok.inj h
    -- all other calls of Home leave both where they are
    rcases Home.pointers_of_exec (fun _ => nested_eq_nil) hexec with
      ⟨hmanager, hupdater⟩ | ⟨updater, hmanager, rfl⟩ | ⟨manager, rfl, howner, rfl⟩
    · exact hw.set_home hcontract hmanager hupdater
    · refine ⟨zero_set hw.zero (hw.ne_zero hcontract), ?_⟩
      refine (agree_set_home_iff hw.agree hcontract).mpr fun hother => ?_
      have hnone : w.copies.right home.updaterManager = none := hmanager ▸ hsender.right_eq_none
      rw [right_of_contract hother] at hnone
      cases hnone
    · refine ⟨zero_set hw.zero (hw.ne_zero hcontract), ?_⟩
      exact (agree_set_home_iff hw.agree hcontract).mpr (hkeeps hcontract howner)
  · cases h

theorem consistent_setOwner {sender owner : Address Byte} (hw : w.Consistent)
    (h : w.setOwner sender address owner = .ok w') : w'.Consistent := by
  unfold setOwner at h
  split at h
  · next home initialized hcontract =>
    obtain ⟨-, h⟩ := require_bind_eq_ok.mp h
    obtain rfl := Except.ok.inj h
    exact hw.set_home hcontract rfl rfl
  · next manager hcontract =>
    obtain ⟨-, h⟩ := require_bind_eq_ok.mp h
    obtain rfl := Except.ok.inj h
    exact hw.set_manager hcontract rfl rfl
  · cases h

/-- A step other than a bad link keeps the copies. -/
theorem consistent_of_exec (hw : w.Consistent) (hsender : w.Outside tx.sender)
    (hkeeps : w.KeepsAgreement tx) (h : exec K tx w = .ok w') : w'.Consistent := by
  obtain ⟨sender, answer, call⟩ := tx
  cases call with
  | deployHome address localDomain =>
    refine consistent_create hw ?_ ?_ h
    · rintro p ⟨⟩
      rfl
    · rintro p ⟨⟩
  | deployManager address updater =>
    refine consistent_create hw ?_ ?_ h
    · rintro p ⟨⟩
    · rintro p ⟨⟩
      rfl
  | deployOther address =>
    refine consistent_create hw ?_ ?_ h
    · rintro p ⟨⟩
    · rintro p ⟨⟩
  | init address updaterManager => exact consistent_init hw h
  | setHome address homeAddress => exact consistent_setHome hw hkeeps h
  | setUpdater address updater depth =>
    have hnone : w.copies.right sender = none := hsender.right_eq_none
    exact consistent_setUpdater hw.zero (Copies.Agree.passing hw.agree hnone) h
  | home address call => exact consistent_home hw hsender hkeeps h
  | setOwner address owner => exact consistent_setOwner hw h

/-- A step after which the copies agree was none that links contracts that do not. -/
theorem keepsAgreement_of_agree (hw : w.Consistent) (hstep : callStep (exec K) w tx w')
    (h : w'.Agree) : w.KeepsAgreement tx := by
  obtain ⟨sender, answer, call⟩ := tx
  have hafter := eq_afterCall hstep
  cases call with
  | setHome address homeAddress =>
    intro manager home initialized hmanager howner hhome hback
    have hcode : w.isContract homeAddress = true := by rw [isContract, hhome, Option.isSome_some]
    have hexec : exec K ⟨sender, answer, .setHome address homeAddress⟩ w =
        .ok (w.set address (.manager { manager with home := homeAddress })) := by
      simp only [exec, hmanager, UpdaterManager.setHome, UpdaterManager.onlyOwner,
        require_of howner, require_of hcode, ok_bind]
    rw [hafter, afterCall_of_ok hexec, agree_iff] at h
    exact (agree_set_manager_iff hw.agree hmanager).mp h hhome hback
  | home address call =>
    cases call with
    | setUpdaterManager updaterManager =>
      intro home initialized manager hhome howner hmanager hback
      have hcode : w.isContract updaterManager = true := by
        rw [isContract, hmanager, Option.isSome_some]
      have hexec : exec K ⟨sender, answer, .home address (.setUpdaterManager updaterManager)⟩ w =
          .ok (w.set address
            (.home { home with updaterManager := updaterManager } initialized)) := by
        simp only [exec, hhome, Home.exec, Home.setUpdaterManager, Home._setUpdaterManager,
          require_of howner, require_of hcode, ok_bind]
      rw [hafter, afterCall_of_ok hexec, agree_iff] at h
      exact (agree_set_home_iff hw.agree hhome).mp h hmanager hback
    | _ => trivial
  | _ => trivial

theorem consistent_of_reachable (h : ((system K).restrict KeepsAgreement).Reachable w) :
    w.Consistent := by
  refine h.invariant ?_ fun w tx w' _ hw hstep => ?_
  · rintro w rfl
    exact ⟨rfl, fun hleft => by cases hleft⟩
  · obtain ⟨⟨hsender, hcall⟩, hkeeps⟩ := hstep
    rcases hcall with hexec | ⟨-, rfl⟩
    · exact consistent_of_exec hw hsender hkeeps hexec
    · exact hw

end Steps

/-- **The updater of Home and its manager.** As long as owners link contracts only
when they have the same updater, a Home and a manager that point to each other have
the same updater. The first transaction after which they do not is one by which an
owner links two that differ. -/
theorem updaters_agree_iff :
    (∀ {w : Rotation Byte}, ((system K).restrict KeepsAgreement).Reachable w → w.Agree) ∧
    ∀ {w : Rotation Byte} {tx w'}, ((system K).restrict KeepsAgreement).Reachable w →
      (system K).step w tx w' → (w'.Agree ↔ w.KeepsAgreement tx) := by
  refine ⟨fun hreach => agree_iff.mpr (consistent_of_reachable hreach).agree, ?_⟩
  intro w tx w' hreach hstep
  constructor
  · exact keepsAgreement_of_agree (consistent_of_reachable hreach) hstep.2
  · intro hkeeps
    exact agree_iff.mpr (consistent_of_reachable (hreach.step ⟨hstep, hkeeps⟩)).agree

/-! ### A manager that brings another updater -/

section Sample

open Slashing (sampleCrypto sampleOwner sampleHome sampleManager sampleUpdater)

def sampleNextManager : Address ℕ := List.Vector.replicate 20 4

def sampleNextUpdater : Address ℕ := List.Vector.replicate 20 8

/-- The state after a transaction of the owner. -/
def afterOwner (w : Rotation ℕ) (call : Call ℕ) : Rotation ℕ :=
  afterCall (exec sampleCrypto) ⟨sampleOwner, none, call⟩ w

/-- Home and its manager, before they are linked. -/
def sampleDeployed : Rotation ℕ :=
  ((afterOwner ⟨fun _ => none⟩ (.deployManager sampleManager sampleUpdater)).afterOwner
    (.deployHome sampleHome 1000)).afterOwner (.init sampleHome sampleManager)

/-- Home and its manager after they are linked. -/
def sampleLinked : Rotation ℕ := sampleDeployed.afterOwner (.setHome sampleManager sampleHome)

/-- The manager sets another updater. -/
def sampleRotated : Rotation ℕ :=
  sampleLinked.afterOwner (.setUpdater sampleManager sampleNextUpdater 2)

/-- The owner has another manager for the same Home. -/
def sampleOffered : Rotation ℕ :=
  (sampleLinked.afterOwner (.deployManager sampleNextManager sampleNextUpdater)).afterOwner
    (.setHome sampleNextManager sampleHome)

/-- Home takes it. -/
def sampleSwapped : Rotation ℕ :=
  sampleOffered.afterOwner (.home sampleHome (.setUpdaterManager sampleNextManager))

theorem step_afterOwner {w : Rotation ℕ} (h : (w.contracts sampleOwner).isNone) (call : Call ℕ) :
    (system sampleCrypto).step w ⟨sampleOwner, none, call⟩ (w.afterOwner call) :=
  ⟨.inl (Option.isNone_iff_eq_none.mp h), callStep_afterCall ..⟩

/-- Linking a manager and a Home with one updater keeps the copies, as does linking
those of which Home points elsewhere. -/
theorem keepsAgreement_setHome {w : Rotation ℕ} {sender address homeAddress : Address ℕ}
    {p q : Address ℕ × Address ℕ} (hleft : w.copies.left homeAddress = some p)
    (hright : w.copies.right address = some q) (h : p.1 = address → p.2 = q.2) :
    w.KeepsAgreement ⟨sender, none, .setHome address homeAddress⟩ := by
  intro manager home initialized hmanager _ hhome hback
  obtain rfl := Option.some.inj (hleft.symm.trans (left_of_contract hhome))
  obtain rfl := Option.some.inj (hright.symm.trans (right_of_contract hmanager))
  exact h hback

theorem reachable_sampleLinked :
    ((system sampleCrypto).restrict KeepsAgreement).Reachable sampleLinked := by
  have hempty : ((system sampleCrypto).restrict KeepsAgreement).Reachable ⟨fun _ => none⟩ :=
    System.reachable_init rfl
  have hmanager := hempty.step
    ⟨step_afterOwner (by decide) (.deployManager sampleManager sampleUpdater), trivial⟩
  have hhome := hmanager.step ⟨step_afterOwner (by decide) (.deployHome sampleHome 1000), trivial⟩
  have hinit := hhome.step
    ⟨step_afterOwner (by decide) (.init sampleHome sampleManager), trivial⟩
  refine hinit.step ⟨step_afterOwner (by decide) (.setHome sampleManager sampleHome), ?_⟩
  exact keepsAgreement_setHome (p := (sampleManager, sampleUpdater)) (q := (0, sampleUpdater))
    (by decide) (by decide) fun _ => rfl

theorem reachable_sampleOffered :
    ((system sampleCrypto).restrict KeepsAgreement).Reachable sampleOffered := by
  have hdeploy := reachable_sampleLinked.step ⟨step_afterOwner (by decide)
    (.deployManager sampleNextManager sampleNextUpdater), trivial⟩
  refine hdeploy.step
    ⟨step_afterOwner (by decide) (.setHome sampleNextManager sampleHome), ?_⟩
  exact keepsAgreement_setHome (p := (sampleManager, sampleUpdater)) (q := (0, sampleNextUpdater))
    (by decide) (by decide) fun h => absurd h (by decide)

theorem step_swap : (system sampleCrypto).step sampleOffered
    ⟨sampleOwner, none, .home sampleHome (.setUpdaterManager sampleNextManager)⟩ sampleSwapped :=
  step_afterOwner (by decide) _

/-- Home and its new manager point to each other. Home keeps the old updater. -/
theorem updaters_differ :
    (system sampleCrypto).Reachable sampleSwapped ∧
    sampleSwapped.copies.left sampleHome = some (sampleNextManager, sampleUpdater) ∧
    sampleSwapped.copies.right sampleNextManager = some (sampleHome, sampleNextUpdater) ∧
    ¬ sampleSwapped.Agree := by
  have hleft : sampleSwapped.copies.left sampleHome = some (sampleNextManager, sampleUpdater) := by
    decide
  have hright : sampleSwapped.copies.right sampleNextManager =
    some (sampleHome, sampleNextUpdater) := by decide
  refine ⟨reachable_sampleOffered.of_restrict.step step_swap, hleft, hright, fun h => ?_⟩
  exact absurd (agree_iff.mp h hleft hright) (by decide)

/-- A rotation through the manager writes both copies, and the swap is the first
transaction that sets them apart. -/
theorem updaters_agree_rotated :
    sampleRotated.Agree ∧
    sampleRotated.copies.left sampleHome = some (sampleManager, sampleNextUpdater) ∧
    sampleRotated.copies.right sampleManager = some (sampleHome, sampleNextUpdater) ∧
    (sampleSwapped.Agree ↔ sampleOffered.KeepsAgreement
      ⟨sampleOwner, none, .home sampleHome (.setUpdaterManager sampleNextManager)⟩) := by
  obtain ⟨hagree, hfirst⟩ := updaters_agree_iff sampleCrypto
  have hrotated : ((system sampleCrypto).restrict KeepsAgreement).Reachable sampleRotated :=
    reachable_sampleLinked.step ⟨step_afterOwner (by decide) _, trivial⟩
  exact ⟨hagree hrotated, by decide, by decide, hfirst reachable_sampleOffered step_swap⟩

end Sample

end Rotation

end Optics
