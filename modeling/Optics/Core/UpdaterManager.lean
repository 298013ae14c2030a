/-
# Home and its updater managers

Home fails by asking its updater manager to slash the updater, and the manager
answers only the address that its owner gave it as its home. The two contracts
point to each other by transactions of two owners, in any order, and neither
checks the pointer of the other. So a fraud proof is accepted exactly when the
manager that Home points to points back; otherwise the slash reverts, and the
state `Failed` with it.
-/

import Optics.Core.HomeInvariant

namespace Optics

open Optics.Solidity Optics.Common Optics.Math.Transition

variable {Byte : Type}

/-- The storage of an updater manager. -/
structure UpdaterManager (Byte : Type) where
  owner : Address Byte
  home : Address Byte
  _updater : Address Byte

namespace UpdaterManager

/-- The events of an updater manager. -/
inductive Event (Byte : Type)
  | NewHome (home : Address Byte)
  | FakeSlashed (reporter : Address Byte)

/-- `updater`. -/
def updater (manager : UpdaterManager Byte) : Address Byte := manager._updater

variable [DecidableEq Byte]

/-- `modifier onlyOwner`. -/
def onlyOwner (sender : Address Byte) (manager : UpdaterManager Byte) : Except Revert Unit :=
  require (sender = manager.owner) "Ownable: caller is not the owner"

/-- `setHome`. -/
def setHome (sender : Address Byte) (isContract : Address Byte → Bool) (_home : Address Byte)
    (manager : UpdaterManager Byte) : Except Revert (UpdaterManager Byte × List (Event Byte)) := do
  onlyOwner sender manager
  require (isContract _home) "!contract home"
  .ok ({ manager with home := _home }, [.NewHome _home])

/-- `slashUpdater`. It does nothing but emit an event. -/
def slashUpdater (sender _reporter : Address Byte) (manager : UpdaterManager Byte) :
    Except Revert (List (Event Byte)) := do
  require (sender = manager.home) "!home"
  .ok [.FakeSlashed _reporter]

theorem slashUpdater_eq_ok {sender : Address Byte} {manager : UpdaterManager Byte}
    (reporter : Address Byte) :
    (∃ events, slashUpdater sender reporter manager = .ok events) ↔ sender = manager.home := by
  simp only [slashUpdater, require_bind_eq_ok]
  constructor
  · rintro ⟨events, hsender, -⟩
    exact hsender
  · exact fun hsender => ⟨_, hsender, rfl⟩

end UpdaterManager

/-! ### One Home and its managers -/

/-- One Home, before or after its initialisation, and the updater managers of its
chain. No other address runs code. -/
structure Slashing (Byte : Type) where
  homeAddress : Address Byte
  home : Home Byte
  initialized : Bool
  managers : Address Byte → Option (UpdaterManager Byte)

namespace Slashing

/-- The transactions. A call of `setUpdater` says how deep its gas lets calls nest. -/
inductive Call (Byte : Type)
  | deploy (address updater : Address Byte)
  | init (updaterManager : Address Byte)
  | setHome (manager home : Address Byte)
  | setUpdater (manager updater : Address Byte) (depth : ℕ)
  | home (call : Home.Call Byte)

variable [DecidableEq Byte]

/-- `Address.isContract`. -/
def isContract (w : Slashing Byte) (address : Address Byte) : Bool :=
  address = w.homeAddress || (w.managers address).isSome

/-- What `updater()` answers at an address. Home answers it as well. -/
def updaterAt (w : Slashing Byte) (address : Address Byte) : Except Revert (Address Byte) :=
  if address = w.homeAddress then .ok w.home.updater
  else match w.managers address with
    | some manager => .ok manager.updater
    | none => .error (.external "updater")

/-- What the manager of Home does when Home asks it to slash. Home itself has no
function `slashUpdater`, and an address without code reverts. -/
def slashOutcome (w : Slashing Byte) (reporter : Address Byte) : Home.SlashOutcome Byte :=
  if w.home.updaterManager = w.homeAddress then .reverts
  else match w.managers w.home.updaterManager with
    | some manager =>
      match manager.slashUpdater w.homeAddress reporter with
      | .ok _ => .returns []
      | .error _ => .reverts
    | none => .reverts

/-- What a transaction of Home reads from outside Home. -/
def context (w : Slashing Byte) (sender : Address Byte) : Home.Context Byte :=
  ⟨sender, w.isContract, w.slashOutcome sender⟩

/-- The manager at an address takes new contents. -/
def setManager (w : Slashing Byte) (address : Address Byte) (manager : UpdaterManager Byte) :
    Slashing Byte :=
  { w with managers := Function.update w.managers address (some manager) }

/-- `setUpdater`, called at an address. A manager hands the call on to the address
that it has as its home, which may be a manager again. -/
def setUpdater : ℕ → Address Byte → Address Byte → Address Byte → Slashing Byte →
    Except Revert (Slashing Byte)
  | 0, _, _, _, _ => .error (.external "out of gas")
  | depth + 1, sender, address, _updaterAddress, w =>
    if address = w.homeAddress then do
      let (home, _) ← w.home.setUpdater sender _updaterAddress
      .ok { w with home := home }
    else match w.managers address with
      | some manager => do
        manager.onlyOwner sender
        setUpdater depth address manager.home _updaterAddress
          (w.setManager address { manager with _updater := _updaterAddress })
      | none => .error (.external "setUpdater")

variable [ByteAlphabet Byte] (K : Crypto Byte)

/-- One transaction of a sender. -/
def exec : Address Byte × Call Byte → Slashing Byte → Except Revert (Slashing Byte)
  | (sender, .deploy address updater), w => do
    require (w.isContract address = false) "code at address"
    .ok (w.setManager address ⟨sender, 0, updater⟩)
  | (sender, .init updaterManager), w => do
    require (w.initialized = false) "Initializable: contract is already initialized"
    let updater ← w.updaterAt updaterManager
    let (home, _) ← Home.init (w.context sender) updaterManager updater w.home
    .ok { w with home := home, initialized := true }
  | (sender, .setHome address home), w =>
    match w.managers address with
    | some manager => do
      let (manager, _) ← manager.setHome sender w.isContract home
      .ok (w.setManager address manager)
    | none => .error (.external "setHome")
  | (sender, .setUpdater address updater depth), w => w.setUpdater depth sender address updater
  | (sender, .home call), w => do
    let (home, _) ← Home.exec K (w.context sender) call w.home
    .ok { w with home := home }

/-- Before any transaction, the constructor of Home has run. -/
def Initial (w : Slashing Byte) : Prop :=
  ∃ address domain, w = ⟨address, Home.fresh domain, false, fun _ => none⟩

/-- Any transactions, each sent by an address that is none of the contracts. -/
def system : System (Slashing Byte) (Address Byte × Call Byte) where
  init := Initial
  step w tx w' := w.isContract tx.1 = false ∧ callStep (exec K) w tx w'

/-! ### The two pointers -/

/-- The address that a manager takes calls from. -/
def homeAt (w : Slashing Byte) (address : Address Byte) : Option (Address Byte) :=
  (w.managers address).map UpdaterManager.home

/-- A manager at the address has Home as its home. -/
def PointsBack (w : Slashing Byte) (address : Address Byte) : Prop :=
  address ≠ w.homeAddress ∧ w.homeAt address = some w.homeAddress

/-- The manager that Home points to points back. -/
def Linked (w : Slashing Byte) : Prop := w.PointsBack w.home.updaterManager

section Slash

variable {K} {w : Slashing Byte} {sender : Address Byte} {call : Home.Call Byte}

omit [ByteAlphabet Byte] in
theorem slashOutcome_of_linked (h : w.Linked) : w.slashOutcome sender = .returns [] := by
  obtain ⟨hne, hback⟩ := h
  obtain ⟨manager, hmanager, hhome⟩ := Option.map_eq_some_iff.mp hback
  obtain ⟨events, hslash⟩ := (UpdaterManager.slashUpdater_eq_ok sender).mpr hhome.symm
  rw [slashOutcome, if_neg hne, hmanager]
  simp only [hslash]

omit [ByteAlphabet Byte] in
theorem slashOutcome_of_not_linked (h : ¬ w.Linked) : w.slashOutcome sender = .reverts := by
  unfold slashOutcome
  split_ifs with haddress
  · rfl
  split
  · next manager hmanager =>
    split
    · next events hslash =>
      have hhome := (UpdaterManager.slashUpdater_eq_ok sender).mp ⟨events, hslash⟩
      refine absurd ⟨haddress, ?_⟩ h
      rw [homeAt, hmanager, Option.map_some, hhome]
    · rfl
  · rfl

/-- A fraud proof fails Home if the pointers agree. -/
theorem exec_of_linked (hlinked : w.Linked) (hstate : w.home.state ≠ .Failed)
    (hfraud : Home.Fraud K w.home call) :
    ∃ w', exec K (sender, .home call) w = .ok w' ∧ w'.home.state = .Failed := by
  have hslash : (w.context sender).slashUpdater = .returns [] := slashOutcome_of_linked hlinked
  obtain ⟨home, events, hexec, hfailed⟩ := Home.exec_of_fraud_returns hslash hstate hfraud
  exact ⟨{ w with home := home }, by rw [exec, hexec]; rfl, hfailed⟩

/-- A fraud proof reverts if they do not. -/
theorem exec_of_not_linked (hlinked : ¬ w.Linked) (hstate : w.home.state ≠ .Failed)
    (hfraud : Home.Fraud K w.home call) :
    exec K (sender, .home call) w = .error (.external "slashUpdater") := by
  have hslash : (w.context sender).slashUpdater = .reverts := slashOutcome_of_not_linked hlinked
  rw [exec, Home.exec_of_fraud_reverts hslash hstate hfraud]
  rfl

end Slash

/-! ### Keeping the pointers -/

/-- A transaction that keeps the pointers: its owner gives Home only managers that
point back to it, and no other home to the manager that Home has. -/
def KeepsLink (w : Slashing Byte) (tx : Address Byte × Call Byte) : Prop :=
  match tx.2 with
  | .init manager => w.initialized = false → w.PointsBack manager
  | .setHome address home =>
    (∃ manager, w.managers address = some manager ∧ manager.owner = tx.1) →
      address = w.home.updaterManager → home = w.homeAddress
  | .home (.setUpdaterManager manager) => tx.1 = w.home.owner → w.PointsBack manager
  | _ => True

/-- What a change of the updater leaves alone. -/
structure SameLinks (w w' : Slashing Byte) : Prop where
  homeAddress : w'.homeAddress = w.homeAddress
  state : w'.home.state = w.home.state
  updaterManager : w'.home.updaterManager = w.home.updaterManager
  homeAt : w'.homeAt = w.homeAt

section Links

variable {w w' : Slashing Byte} {sender address updater : Address Byte} {depth : ℕ}

omit [DecidableEq Byte] [ByteAlphabet Byte] in
theorem SameLinks.trans {w₁ w₂ w₃ : Slashing Byte} (h : SameLinks w₁ w₂) (h' : SameLinks w₂ w₃) :
    SameLinks w₁ w₃ :=
  ⟨h'.homeAddress.trans h.homeAddress, h'.state.trans h.state,
    h'.updaterManager.trans h.updaterManager, h'.homeAt.trans h.homeAt⟩

omit [DecidableEq Byte] [ByteAlphabet Byte] in
theorem SameLinks.linked (h : SameLinks w w') : w'.Linked ↔ w.Linked := by
  rw [Linked, Linked, PointsBack, PointsBack, h.homeAddress, h.updaterManager, h.homeAt]

omit [ByteAlphabet Byte] in
theorem homeAt_setManager (manager : UpdaterManager Byte) :
    (w.setManager address manager).homeAt =
      Function.update w.homeAt address (some manager.home) := by
  funext a
  rcases eq_or_ne a address with rfl | hne
  · simp [homeAt, setManager]
  · simp [homeAt, setManager, hne]

omit [ByteAlphabet Byte] in
/-- However deep the call goes, only updaters change. -/
theorem sameLinks_of_setUpdater (h : setUpdater depth sender address updater w = .ok w') :
    SameLinks w w' := by
  induction depth generalizing sender address w with
  | zero => cases h
  | succ depth ih =>
    rw [setUpdater] at h
    split_ifs at h with haddress
    · obtain ⟨⟨home, events⟩, hset, h⟩ := bind_eq_ok.mp h
      obtain ⟨-, hset⟩ := require_bind_eq_ok.mp hset
      obtain ⟨rfl, -⟩ := Prod.mk.inj (Except.ok.inj hset)
      obtain rfl := Except.ok.inj h
      exact ⟨rfl, rfl, rfl, rfl⟩
    · split at h
      · next manager hmanager =>
        obtain ⟨-, h⟩ := require_bind_eq_ok.mp h
        have hsame : w.homeAt address = some manager.home := by rw [homeAt, hmanager]; rfl
        have hfirst : SameLinks w
            (w.setManager address { manager with _updater := updater }) :=
          ⟨rfl, rfl, rfl, by rw [homeAt_setManager, ← hsame, Function.update_eq_self]⟩
        exact hfirst.trans (ih h)
      · cases h

end Links

section Run

variable {K} {w w' : Slashing Byte} {tx : Address Byte × Call Byte}

/-- An active Home and the manager it points to point to each other. -/
def ActiveLinked (w : Slashing Byte) : Prop := w.home.state = .Active → w.Linked

/-- A call of Home keeps the pointers unless it sets the manager. -/
theorem activeLinked_home {home : Home Byte} {events : List (Home.Event Byte)}
    {ctx : Home.Context Byte} {call : Home.Call Byte} (hw : w.ActiveLinked)
    (hkeeps : ∀ manager, call = .setUpdaterManager manager → ctx.sender = w.home.owner →
      w.PointsBack manager)
    (h : Home.Effect K ctx w.home call home events) : ActiveLinked { w with home := home } := by
  intro hactive
  cases h with
  | dispatched => exact hw hactive
  | committed => exact hw hactive
  | slashed => cases hactive
  | unchanged => exact hw hactive
  | newUpdater => exact hw hactive
  | newUpdaterManager manager hsender => exact hkeeps manager rfl hsender

theorem activeLinked_of_exec (hw : w.ActiveLinked) (hkeeps : w.KeepsLink tx)
    (h : exec K tx w = .ok w') : w'.ActiveLinked := by
  obtain ⟨sender, call⟩ := tx
  cases call with
  | deploy address updater =>
    obtain ⟨hfree, h⟩ := require_bind_eq_ok.mp h
    obtain rfl := Except.ok.inj h
    intro hactive
    obtain ⟨hne, hback⟩ := hw hactive
    refine ⟨hne, ?_⟩
    -- the manager of Home is not at the new address, which had no code
    have hother : w.home.updaterManager ≠ address := by
      rintro rfl
      obtain ⟨manager, hmanager, -⟩ := Option.map_eq_some_iff.mp hback
      simp [isContract, hmanager] at hfree
    rw [homeAt_setManager]
    exact (Function.update_of_ne hother ..).trans hback
  | init manager =>
    obtain ⟨hfresh, h⟩ := require_bind_eq_ok.mp h
    obtain ⟨updater, -, h⟩ := bind_eq_ok.mp h
    obtain ⟨⟨home, events⟩, hinit, h⟩ := bind_eq_ok.mp h
    obtain rfl := Except.ok.inj h
    obtain ⟨⟨home₁, events₁⟩, hset, hinit⟩ := bind_eq_ok.mp hinit
    obtain ⟨-, hset⟩ := require_bind_eq_ok.mp hset
    obtain ⟨rfl, -⟩ := Prod.mk.inj (Except.ok.inj hset)
    obtain ⟨rfl, -⟩ := Prod.mk.inj (Except.ok.inj hinit)
    exact fun _ => hkeeps hfresh
  | setHome address home =>
    rw [exec] at h
    split at h
    · next manager hmanager =>
      obtain ⟨⟨manager', events⟩, hset, h⟩ := bind_eq_ok.mp h
      obtain ⟨howner, hset⟩ := require_bind_eq_ok.mp hset
      obtain ⟨-, hset⟩ := require_bind_eq_ok.mp hset
      obtain ⟨rfl, -⟩ := Prod.mk.inj (Except.ok.inj hset)
      obtain rfl := Except.ok.inj h
      intro hactive
      obtain ⟨hne, hback⟩ := hw hactive
      refine ⟨hne, ?_⟩
      rw [homeAt_setManager]
      rcases eq_or_ne w.home.updaterManager address with heq | hother
      · rw [hkeeps ⟨manager, hmanager, howner.symm⟩ heq.symm]
        exact heq ▸ Function.update_self ..
      · exact (Function.update_of_ne hother ..).trans hback
    · cases h
  | setUpdater address updater depth =>
    have hsame := sameLinks_of_setUpdater h
    exact fun hactive => hsame.linked.mpr (hw (hsame.state ▸ hactive))
  | home call =>
    obtain ⟨⟨home, events⟩, hexec, h⟩ := bind_eq_ok.mp h
    obtain rfl := Except.ok.inj h
    refine activeLinked_home hw ?_ (Home.effect_of_exec hexec)
    rintro manager rfl
    exact hkeeps

theorem activeLinked_of_reachable (h : ((system K).restrict KeepsLink).Reachable w) :
    w.ActiveLinked := by
  refine h.invariant ?_ fun w tx w' _ hw hstep => ?_
  · rintro w ⟨address, domain, rfl⟩ hactive
    cases hactive
  · obtain ⟨⟨-, hcall⟩, hkeeps⟩ := hstep
    rcases hcall with hexec | ⟨-, rfl⟩
    · exact activeLinked_of_exec hw hkeeps hexec
    · exact hw

end Run

/-- **Filing a fraud proof.** In every reachable state with an active Home, a fraud
proof fails Home if and only if the manager that Home points to points back. In a
run that keeps the pointers every fraud proof does. -/
theorem fraud_fails_home_iff :
    (∀ {w : Slashing Byte} {sender call}, (system K).Reachable w → w.home.state = .Active →
      Home.Fraud K w.home call →
      ((∃ w', exec K (sender, .home call) w = .ok w' ∧ w'.home.state = .Failed) ↔ w.Linked)) ∧
    ∀ {w : Slashing Byte} {sender call}, ((system K).restrict KeepsLink).Reachable w →
      w.home.state = .Active → Home.Fraud K w.home call →
      ∃ w', exec K (sender, .home call) w = .ok w' ∧ w'.home.state = .Failed := by
  have hstate : ∀ {w : Slashing Byte}, w.home.state = .Active → w.home.state ≠ .Failed :=
    fun hactive hfailed => by rw [hactive] at hfailed; cases hfailed
  refine ⟨fun _ hactive hfraud => ⟨?_, ?_⟩, fun hreach hactive hfraud => ?_⟩
  · rintro ⟨w', hexec, -⟩
    by_contra hlinked
    rw [exec_of_not_linked hlinked (hstate hactive) hfraud] at hexec
    cases hexec
  · exact fun hlinked => exec_of_linked hlinked (hstate hactive) hfraud
  · exact exec_of_linked (activeLinked_of_reachable hreach hactive) (hstate hactive) hfraud

/-! ### A fraud that cannot be filed -/

section Sample

/-- Every signature is the updater's. -/
def sampleUpdater : Address ℕ := List.Vector.replicate 20 7

def sampleCrypto : Crypto ℕ := Crypto.withIdealHash fun _ _ => some sampleUpdater

def sampleOwner : Address ℕ := List.Vector.replicate 20 3

def sampleHome : Address ℕ := List.Vector.replicate 20 1

def sampleManager : Address ℕ := List.Vector.replicate 20 2

def sampleStart : Slashing ℕ := ⟨sampleHome, Home.fresh 1000, false, fun _ => none⟩

/-- The state after a transaction of the owner. -/
def afterOwner (w : Slashing ℕ) (call : Call ℕ) : Slashing ℕ :=
  afterCall (exec sampleCrypto) (sampleOwner, call) w

/-- Home is initialised with a manager that has no home yet. -/
def sampleUnlinked : Slashing ℕ :=
  (sampleStart.afterOwner (.deploy sampleManager sampleUpdater)).afterOwner (.init sampleManager)

/-- The manager has its home before Home is initialised with it. -/
def sampleLinked : Slashing ℕ :=
  ((sampleStart.afterOwner (.deploy sampleManager sampleUpdater)).afterOwner
    (.setHome sampleManager sampleHome)).afterOwner (.init sampleManager)

/-- A signed update to a root that Home never had. -/
def sampleUpdate : SignedUpdate ℕ := ⟨0, List.Vector.replicate 32 1, []⟩

theorem step_afterOwner {w : Slashing ℕ} (h : w.isContract sampleOwner = false) (call : Call ℕ) :
    (system sampleCrypto).step w (sampleOwner, call) (w.afterOwner call) :=
  ⟨h, callStep_afterCall ..⟩

theorem reachable_sampleUnlinked : (system sampleCrypto).Reachable sampleUnlinked := by
  have hstart : (system sampleCrypto).Reachable sampleStart :=
    System.reachable_init ⟨sampleHome, 1000, rfl⟩
  exact (hstart.step (step_afterOwner (by decide) _)).step (step_afterOwner (by decide) _)

theorem reachable_sampleLinked :
    ((system sampleCrypto).restrict KeepsLink).Reachable sampleLinked := by
  have hstart : ((system sampleCrypto).restrict KeepsLink).Reachable sampleStart :=
    System.reachable_init ⟨sampleHome, 1000, rfl⟩
  have hdeploy := hstart.step
    ⟨step_afterOwner (by decide) (.deploy sampleManager sampleUpdater), trivial⟩
  have hlink := hdeploy.step
    ⟨step_afterOwner (by decide) (.setHome sampleManager sampleHome), fun _ _ => rfl⟩
  refine hlink.step ⟨step_afterOwner (by decide) (.init sampleManager), fun _ => ?_⟩
  exact ⟨by decide, by decide⟩

theorem fraud_sampleUpdate {w : Slashing ℕ} (hupdater : w.home.updater = sampleUpdater)
    (hroot : w.home.committedRoot = 0)
    (habsent : w.home.queue.contains sampleUpdate.newRoot = false) :
    Home.Fraud sampleCrypto w.home (.improperUpdate sampleUpdate) :=
  .improper sampleUpdate (.inr rfl) (congrArg some hupdater.symm) hroot.symm habsent

/-- Home is active and a fraud is proven in both ways, and whoever files it, the call
reverts. -/
theorem fraud_not_filed :
    (system sampleCrypto).Reachable sampleUnlinked ∧ sampleUnlinked.home.state = .Active ∧
    Home.Fraud sampleCrypto sampleUnlinked.home (.improperUpdate sampleUpdate) ∧
    Home.Fraud sampleCrypto sampleUnlinked.home
      (.doubleUpdate 0 0 (List.Vector.replicate 32 1) [] []) ∧
    ∀ sender,
      exec sampleCrypto (sender, .home (.improperUpdate sampleUpdate)) sampleUnlinked =
        .error (.external "slashUpdater") ∧
      exec sampleCrypto
        (sender, .home (.doubleUpdate 0 0 (List.Vector.replicate 32 1) [] [])) sampleUnlinked =
          .error (.external "slashUpdater") := by
  have hupdater : sampleUnlinked.home.updater = sampleUpdater := by decide
  have himproper := fraud_sampleUpdate hupdater (by decide) (by decide)
  have hdouble : Home.Fraud sampleCrypto sampleUnlinked.home
      (.doubleUpdate 0 0 (List.Vector.replicate 32 1) [] []) :=
    .double _ _ _ _ _ (congrArg some hupdater.symm) (congrArg some hupdater.symm) (by decide)
  have hstate : sampleUnlinked.home.state ≠ .Failed := by decide
  have hlinked : ¬ sampleUnlinked.Linked := fun h => absurd h.2 (by decide)
  exact ⟨reachable_sampleUnlinked, by decide, himproper, hdouble, fun sender =>
    ⟨exec_of_not_linked hlinked hstate himproper, exec_of_not_linked hlinked hstate hdouble⟩⟩

/-- The same fraud fails the Home whose manager points back. -/
theorem fraud_fails_home_linked :
    sampleLinked.Linked ∧ ∃ w',
      exec sampleCrypto (sampleOwner, .home (.improperUpdate sampleUpdate)) sampleLinked = .ok w' ∧
      w'.home.state = .Failed := by
  obtain ⟨hiff, hrun⟩ := fraud_fails_home_iff sampleCrypto
  have hactive : sampleLinked.home.state = .Active := by decide
  have hfraud := fraud_sampleUpdate (w := sampleLinked) (by decide) (by decide) (by decide)
  have hfiled : ∃ w', exec sampleCrypto (sampleOwner, .home (.improperUpdate sampleUpdate))
      sampleLinked = .ok w' ∧ w'.home.state = .Failed := hrun reachable_sampleLinked hactive hfraud
  exact ⟨(hiff reachable_sampleLinked.of_restrict hactive hfraud).mp hfiled, hfiled⟩

end Sample

end Slashing

end Optics
