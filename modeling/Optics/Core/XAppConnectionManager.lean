/-
# The XApp connection manager

The manager keeps a registry of the Replicas whose messages the applications of
its chain accept, as two mappings: from Replica to domain and from domain to
Replica. The owner enrolls and un-enrolls; a watcher's signature un-enrolls the
Replica of a domain.

The mappings are inverse to each other as long as the owner enrolls a Replica
only for a domain that has none. `ownerEnrollReplica` removes the old domain of
the Replica but not the old Replica of the domain, so a Replica that is replaced
stays enrolled under a domain that no longer points to it.
-/

import Optics.Core.Common
import Optics.Math.Transition

namespace Optics

open Optics.Solidity Optics.Common Optics.Math.Transition

variable {Byte : Type}

/-- The storage of the connection manager. -/
structure XAppConnectionManager (Byte : Type) where
  owner : Address Byte
  home : Address Byte
  replicaToDomain : Address Byte → UInt32
  domainToReplica : UInt32 → Address Byte
  watcherPermissions : Address Byte → UInt32 → Bool

namespace XAppConnectionManager

/-- The events of the connection manager. -/
inductive Event (Byte : Type)
  | ReplicaEnrolled (domain : UInt32) (replica : Address Byte)
  | ReplicaUnenrolled (domain : UInt32) (replica : Address Byte)
  | WatcherPermissionSet (domain : UInt32) (watcher : Address Byte) (access : Bool)

/-- What a call reads from outside: the sender, and what `updater()` and
`homeDomainHash()` return at an address, if they return. -/
structure Context (Byte : Type) where
  sender : Address Byte
  updater : Address Byte → Option (Address Byte)
  homeDomainHash : Address Byte → Option (Bytes32 Byte)

/-- The functions that change the state. -/
inductive Call (Byte : Type)
  | unenrollReplica (domain : UInt32) (updater : Bytes32 Byte) (signature : List Byte)
  | setHome (home : Address Byte)
  | ownerEnrollReplica (replica : Address Byte) (domain : UInt32)
  | ownerUnenrollReplica (replica : Address Byte)
  | setWatcherPermission (watcher : Address Byte) (domain : UInt32) (access : Bool)

/-- `isReplica`. -/
def isReplica (_replica : Address Byte) (manager : XAppConnectionManager Byte) : Bool :=
  manager.replicaToDomain _replica ≠ 0

/-- `watcherPermission`. -/
def watcherPermission (_watcher : Address Byte) (_domain : UInt32)
    (manager : XAppConnectionManager Byte) : Bool :=
  manager.watcherPermissions _watcher _domain

/-- A view call of another contract, which may revert. -/
def view {α : Type} (callee : String) (answer : Option α) : Except Revert α :=
  match answer with
  | some a => .ok a
  | none => .error (.external callee)

variable [ByteAlphabet Byte] [DecidableEq Byte]

/-- `constructor`: the deployer owns the contract. -/
def deploy (sender : Address Byte) : XAppConnectionManager Byte where
  owner := sender
  home := 0
  replicaToDomain := fun _ => 0
  domainToReplica := fun _ => 0
  watcherPermissions := fun _ _ => false

/-- `modifier onlyOwner`. -/
def onlyOwner (sender : Address Byte) (manager : XAppConnectionManager Byte) :
    Except Revert Unit :=
  require (sender = manager.owner) "Ownable: caller is not the owner"

/-- `_unenrollReplica`. -/
def _unenrollReplica (_replica : Address Byte) (manager : XAppConnectionManager Byte) :
    XAppConnectionManager Byte × List (Event Byte) :=
  let _currentDomain := manager.replicaToDomain _replica
  ({ manager with
      domainToReplica := Function.update manager.domainToReplica _currentDomain 0
      replicaToDomain := Function.update manager.replicaToDomain _replica 0 },
    [.ReplicaUnenrolled _currentDomain _replica])

/-- `setHome`. -/
def setHome (ctx : Context Byte) (_home : Address Byte) (manager : XAppConnectionManager Byte) :
    Except Revert (XAppConnectionManager Byte × List (Event Byte)) := do
  onlyOwner ctx.sender manager
  .ok ({ manager with home := _home }, [])

/-- `ownerEnrollReplica`. -/
def ownerEnrollReplica (ctx : Context Byte) (_replica : Address Byte) (_domain : UInt32)
    (manager : XAppConnectionManager Byte) :
    Except Revert (XAppConnectionManager Byte × List (Event Byte)) := do
  onlyOwner ctx.sender manager
  let (manager, events) := _unenrollReplica _replica manager
  .ok ({ manager with
      replicaToDomain := Function.update manager.replicaToDomain _replica _domain
      domainToReplica := Function.update manager.domainToReplica _domain _replica },
    events ++ [.ReplicaEnrolled _domain _replica])

/-- `ownerUnenrollReplica`. -/
def ownerUnenrollReplica (ctx : Context Byte) (_replica : Address Byte)
    (manager : XAppConnectionManager Byte) :
    Except Revert (XAppConnectionManager Byte × List (Event Byte)) := do
  onlyOwner ctx.sender manager
  .ok (_unenrollReplica _replica manager)

/-- `setWatcherPermission`. -/
def setWatcherPermission (ctx : Context Byte) (_watcher : Address Byte) (_domain : UInt32)
    (_access : Bool) (manager : XAppConnectionManager Byte) :
    Except Revert (XAppConnectionManager Byte × List (Event Byte)) := do
  onlyOwner ctx.sender manager
  .ok ({ manager with
      watcherPermissions := Function.update manager.watcherPermissions _watcher
        (Function.update (manager.watcherPermissions _watcher) _domain _access) },
    [.WatcherPermissionSet _domain _watcher _access])

section Watchers

variable (K : Crypto Byte)

/-- `_recoverWatcherFromSig`. -/
def _recoverWatcherFromSig (ctx : Context Byte) (_domain : UInt32)
    (_replica _updater : Bytes32 Byte)
    (_signature : List Byte) : Except Revert (Address Byte) := do
  let _homeDomainHash ← view "homeDomainHash" (ctx.homeDomainHash (bytes32ToAddress _replica))
  let _digest := K.keccak256 (_homeDomainHash.toList ++ uint32Bytes _domain ++ _updater.toList)
  K.ecdsaRecover (K.toEthSignedMessageHash _digest) _signature

/-- `unenrollReplica`. -/
def unenrollReplica (ctx : Context Byte) (_domain : UInt32) (_updater : Bytes32 Byte)
    (_signature : List Byte) (manager : XAppConnectionManager Byte) :
    Except Revert (XAppConnectionManager Byte × List (Event Byte)) := do
  let _replica := manager.domainToReplica _domain
  require (_replica ≠ 0) "!replica exists"
  let updater ← view "updater" (ctx.updater _replica)
  require (updater = bytes32ToAddress _updater) "!current updater"
  let _watcher ← _recoverWatcherFromSig K ctx _domain (addressToBytes32 _replica)
    _updater _signature
  require (manager.watcherPermissions _watcher _domain) "!valid watcher"
  .ok (_unenrollReplica _replica manager)

/-- One call of the manager. -/
def exec (tx : Context Byte × Call Byte) (manager : XAppConnectionManager Byte) :
    Except Revert (XAppConnectionManager Byte × List (Event Byte)) :=
  match tx.2 with
  | .unenrollReplica domain updater signature =>
    unenrollReplica K tx.1 domain updater signature manager
  | .setHome home => setHome tx.1 home manager
  | .ownerEnrollReplica replica domain => ownerEnrollReplica tx.1 replica domain manager
  | .ownerUnenrollReplica replica => ownerUnenrollReplica tx.1 replica manager
  | .setWatcherPermission watcher domain access =>
    setWatcherPermission tx.1 watcher domain access manager

/-- One call of the manager, without its events. -/
def call (tx : Context Byte × Call Byte) (manager : XAppConnectionManager Byte) :
    Except Revert (XAppConnectionManager Byte) := do
  let (manager, _) ← exec K tx manager
  .ok manager

/-- The manager under any calls, reverting ones included. -/
def system : System (XAppConnectionManager Byte) (Context Byte × Call Byte) where
  init manager := ∃ sender, manager = deploy sender
  step := callStep (call K)

end Watchers

/-! ### The effect of a call -/

section Effects

variable {K : Crypto Byte} {ctx : Context Byte} {call : Call Byte}
  {manager manager' : XAppConnectionManager Byte} {events : List (Event Byte)}

/-- Everything that a successful call can do to the registry. -/
inductive Effect (manager : XAppConnectionManager Byte) :
    Call Byte → XAppConnectionManager Byte → List (Event Byte) → Prop
  | unenrolledByWatcher (domain : UInt32) (updater : Bytes32 Byte) (signature : List Byte)
      (hexists : manager.domainToReplica domain ≠ 0) :
      Effect manager (.unenrollReplica domain updater signature)
        (_unenrollReplica (manager.domainToReplica domain) manager).1
        (_unenrollReplica (manager.domainToReplica domain) manager).2
  | unenrolledByOwner (replica : Address Byte) :
      Effect manager (.ownerUnenrollReplica replica) (_unenrollReplica replica manager).1
        (_unenrollReplica replica manager).2
  | enrolled (replica : Address Byte) (domain : UInt32) :
      Effect manager (.ownerEnrollReplica replica domain)
        { (_unenrollReplica replica manager).1 with
          replicaToDomain := Function.update
            (_unenrollReplica replica manager).1.replicaToDomain replica domain
          domainToReplica := Function.update
            (_unenrollReplica replica manager).1.domainToReplica domain replica }
        ((_unenrollReplica replica manager).2 ++ [.ReplicaEnrolled domain replica])
  | homeSet (home : Address Byte) : Effect manager (.setHome home) { manager with home := home } []
  | permissionSet (watcher : Address Byte) (domain : UInt32) (access : Bool)
      (permissions : Address Byte → UInt32 → Bool) :
      Effect manager (.setWatcherPermission watcher domain access)
        { manager with watcherPermissions := permissions }
        [.WatcherPermissionSet domain watcher access]

theorem unenrollReplica_eq_ok {domain : UInt32} {updater : Bytes32 Byte} {signature : List Byte}
    (h : unenrollReplica K ctx domain updater signature manager = .ok (manager', events)) :
    manager.domainToReplica domain ≠ 0 ∧
      _unenrollReplica (manager.domainToReplica domain) manager = (manager', events) := by
  obtain ⟨hexists, h⟩ := require_bind_eq_ok.mp h
  obtain ⟨current, -, h⟩ := bind_eq_ok.mp h
  obtain ⟨-, h⟩ := require_bind_eq_ok.mp h
  obtain ⟨watcher, -, h⟩ := bind_eq_ok.mp h
  obtain ⟨-, h⟩ := require_bind_eq_ok.mp h
  exact ⟨hexists, Except.ok.inj h⟩

theorem effect_of_exec (h : exec K (ctx, call) manager = .ok (manager', events)) :
    Effect manager call manager' events := by
  cases call with
  | unenrollReplica domain updater signature =>
    obtain ⟨hexists, heq⟩ := unenrollReplica_eq_ok h
    obtain ⟨rfl, rfl⟩ := Prod.mk.inj heq
    exact .unenrolledByWatcher domain updater signature hexists
  | setHome home =>
    obtain ⟨-, h⟩ := require_bind_eq_ok.mp h
    obtain ⟨rfl, rfl⟩ := Prod.mk.inj (Except.ok.inj h)
    exact .homeSet home
  | ownerEnrollReplica replica domain =>
    obtain ⟨-, h⟩ := require_bind_eq_ok.mp h
    obtain ⟨rfl, rfl⟩ := Prod.mk.inj (Except.ok.inj h)
    exact .enrolled replica domain
  | ownerUnenrollReplica replica =>
    obtain ⟨-, h⟩ := require_bind_eq_ok.mp h
    obtain ⟨rfl, rfl⟩ := Prod.mk.inj (Except.ok.inj h)
    exact .unenrolledByOwner replica
  | setWatcherPermission watcher domain access =>
    obtain ⟨-, h⟩ := require_bind_eq_ok.mp h
    obtain ⟨rfl, rfl⟩ := Prod.mk.inj (Except.ok.inj h)
    exact .permissionSet watcher domain access _

end Effects

/-! ### The two mappings -/

/-- The mappings are inverse to each other on domains and addresses other than
zero. -/
def TwoWay (manager : XAppConnectionManager Byte) : Prop :=
  ∀ domain replica, domain ≠ 0 → replica ≠ 0 →
    (manager.domainToReplica domain = replica ↔ manager.replicaToDomain replica = domain)

/-- The mappings are inverse, and the zero address is not in the registry. -/
structure Registered (manager : XAppConnectionManager Byte) : Prop where
  twoWay : manager.TwoWay
  zero : manager.replicaToDomain 0 = 0

/-- A call that enrolls a Replica for a domain other than zero enrolls a true
address, and finds the domain without a Replica or with the same one. -/
def Enrollable (manager : XAppConnectionManager Byte) : Call Byte → Prop
  | .ownerEnrollReplica replica domain =>
    domain ≠ 0 → replica ≠ 0 ∧
      (manager.domainToReplica domain = 0 ∨ manager.domainToReplica domain = replica)
  | _ => True

section Registry

variable {K : Crypto Byte} {ctx : Context Byte} {call : Call Byte}
  {manager manager' : XAppConnectionManager Byte} {events : List (Event Byte)}

omit [DecidableEq Byte] in
theorem deploy_registered (sender : Address Byte) : (deploy sender).Registered where
  twoWay _ _ hdomain hreplica :=
    ⟨fun h => absurd h.symm hreplica, fun h => absurd h.symm hdomain⟩
  zero := rfl

/-- Un-enrolling an address removes it from both mappings. -/
theorem Registered.unenroll (h : manager.Registered) (replica : Address Byte) :
    (_unenrollReplica replica manager).1.Registered := by
  refine ⟨fun domain other hdomain hother => ?_, ?_⟩
  · simp only [_unenrollReplica, Function.update_apply]
    have hcurrent := h.twoWay domain other hdomain hother
    by_cases hsame : other = replica
    · -- the address itself: its domain is cleared on both sides
      subst hsame
      rw [if_pos rfl]
      split_ifs with hold
      · exact ⟨fun hzero => absurd hzero.symm hother, fun hzero => absurd hzero.symm hdomain⟩
      · rw [hcurrent]
        exact ⟨fun heq => absurd heq.symm hold, fun hzero => absurd hzero.symm hdomain⟩
    · rw [if_neg hsame]
      split_ifs with hold
      · -- the cleared domain belonged to the address that was removed
        refine ⟨fun hzero => absurd hzero.symm hother, fun hother' => ?_⟩
        have hreplica : replica ≠ 0 := fun hzero => hdomain (by rw [hold, hzero, h.zero])
        have howner := (h.twoWay domain replica hdomain hreplica).mpr hold.symm
        exact absurd ((hcurrent.mpr hother').symm.trans howner) hsame
      · exact hcurrent
  · simp only [_unenrollReplica, Function.update_apply]
    split_ifs
    · rfl
    · exact h.zero

theorem domainToReplica_unenroll (replica : Address Byte) (domain : UInt32) :
    (_unenrollReplica replica manager).1.domainToReplica domain = 0 ∨
      (_unenrollReplica replica manager).1.domainToReplica domain =
        manager.domainToReplica domain := by
  simp only [_unenrollReplica, Function.update_apply]
  split_ifs
  · exact .inl rfl
  · exact .inr rfl

/-- Enrolling an address that is not in the registry, for a domain without a
Replica. -/
theorem Registered.enroll (h : manager.Registered) {replica : Address Byte} {domain : UInt32}
    (hfresh : manager.replicaToDomain replica = 0)
    (hfree : domain ≠ 0 → replica ≠ 0 ∧ manager.domainToReplica domain = 0) :
    Registered { manager with
      replicaToDomain := Function.update manager.replicaToDomain replica domain
      domainToReplica := Function.update manager.domainToReplica domain replica } := by
  refine ⟨fun d r hd hr => ?_, ?_⟩
  · simp only [Function.update_apply]
    have hcurrent := h.twoWay d r hd hr
    by_cases hr' : r = replica
    · subst hr'
      rw [if_pos rfl]
      split_ifs with hd'
      · exact ⟨fun _ => hd'.symm, fun _ => rfl⟩
      · rw [hcurrent, hfresh]
        exact ⟨fun hzero => absurd hzero.symm hd, fun heq => absurd heq.symm hd'⟩
    · rw [if_neg hr']
      split_ifs with hd'
      · subst hd'
        rw [← hcurrent, (hfree hd).2]
        exact ⟨fun heq => absurd heq.symm hr', fun hzero => absurd hzero.symm hr⟩
      · exact hcurrent
  · simp only [Function.update_apply]
    split_ifs with hzero
    · by_contra hd
      exact (hfree hd).1 hzero.symm
    · exact h.zero

/-- **Step lemma.** A call that meets the condition keeps the registry. -/
theorem Registered.step (h : manager.Registered) (heffect : Effect manager call manager' events)
    (hcall : manager.Enrollable call) : manager'.Registered := by
  cases heffect with
  | unenrolledByWatcher domain updater signature hexists => exact h.unenroll _
  | unenrolledByOwner replica => exact h.unenroll replica
  | enrolled replica domain =>
    refine (h.unenroll replica).enroll (Function.update_self _ _ _) fun hdomain => ?_
    obtain ⟨hreplica, hfree⟩ := hcall hdomain
    refine ⟨hreplica, ?_⟩
    rcases hfree with hfree | hsame
    · have hunenroll : (_unenrollReplica replica manager).1.domainToReplica domain = 0 ∨
          (_unenrollReplica replica manager).1.domainToReplica domain =
            manager.domainToReplica domain := domainToReplica_unenroll replica domain
      rcases hunenroll with hzero | hkept
      · exact hzero
      · exact hkept.trans hfree
    · -- the Replica is enrolled for this domain already and was just removed from it
      have hdomain' := (h.twoWay domain replica hdomain hreplica).mp hsame
      simp only [_unenrollReplica, hdomain', Function.update_self]
  | homeSet home => exact ⟨h.twoWay, h.zero⟩
  | permissionSet watcher domain access permissions => exact ⟨h.twoWay, h.zero⟩

/-- The condition is exact: a call that does not meet it breaks the registry. -/
theorem Registered.step_iff (h : manager.Registered)
    (heffect : Effect manager call manager' events) :
    manager'.Registered ↔ manager.Enrollable call := by
  refine ⟨fun h' => ?_, h.step heffect⟩
  cases heffect with
  | enrolled replica domain =>
    intro hdomain
    have hreplica : replica ≠ 0 := by
      intro hzero
      subst hzero
      have hbad := h'.zero
      simp only [Function.update_self] at hbad
      exact hdomain hbad
    refine ⟨hreplica, ?_⟩
    by_contra hother
    rw [not_or] at hother
    obtain ⟨hexists, hne⟩ := hother
    -- the Replica that is replaced still has the domain
    have hold := (h.twoWay domain _ hdomain hexists).mp rfl
    have hbad := (h'.twoWay domain (manager.domainToReplica domain) hdomain hexists).mpr
      (by simp only [_unenrollReplica, Function.update_of_ne hne, hold])
    simp only [Function.update_self] at hbad
    exact hne hbad.symm
  | unenrolledByWatcher => trivial
  | unenrolledByOwner => trivial
  | homeSet => trivial
  | permissionSet => trivial

theorem effect_of_call {tx : Context Byte × Call Byte}
    (h : XAppConnectionManager.call K tx manager = .ok manager') :
    ∃ events, Effect manager tx.2 manager' events := by
  obtain ⟨⟨manager₁, events⟩, hexec, hok⟩ := bind_eq_ok.mp h
  obtain rfl := Except.ok.inj hok
  exact ⟨events, effect_of_exec hexec⟩

theorem step_cases {tx : Context Byte × Call Byte} (h : (system K).step manager tx manager') :
    (∃ events, Effect manager tx.2 manager' events) ∨ manager' = manager := by
  rcases h with hcall | ⟨-, rfl⟩
  · exact .inl (effect_of_call hcall)
  · exact .inr rfl

theorem reachable_call (h : (system K).Reachable manager) (tx : Context Byte × Call Byte)
    (hcall : XAppConnectionManager.call K tx manager = .ok manager') :
    (system K).Reachable manager' :=
  System.Reachable.step h (.inl hcall)

/-- **The registry is two-way while enrollments find their domain free.** In a
run in which every `ownerEnrollReplica` that succeeds names a true address and
a domain without a Replica (or its own domain), the mappings are inverse in the
end, and un-enrolling the Replica of a domain leaves no address enrolled for
it. -/
theorem registered_of_enrollable {start : XAppConnectionManager Byte}
    {labels : List (Context Byte × Call Byte)} (hinit : (system K).init start)
    (hrun : (system K).Run start labels manager)
    (hcondition : ∀ before tx after u, labels = before ++ tx :: after →
      (system K).Run start before u → ∀ u', XAppConnectionManager.call K tx u = .ok u' →
        u.Enrollable tx.2) :
    manager.TwoWay ∧
      ∀ ctx domain updater signature manager' events, domain ≠ 0 →
        unenrollReplica K ctx domain updater signature manager = .ok (manager', events) →
        ∀ replica, manager'.replicaToDomain replica ≠ domain := by
  have hregistered : manager.Registered := by
    refine hrun.invariant_of_forall (P := Registered) (C := fun m tx => ∀ m',
      XAppConnectionManager.call K tx m = .ok m' → m.Enrollable tx.2) ?_ hcondition ?_
    · obtain ⟨sender, rfl⟩ := hinit
      exact deploy_registered sender
    · intro m tx m' hm htx hstep
      rcases hstep with hcall | ⟨-, rfl⟩
      · obtain ⟨events, heffect⟩ := effect_of_call hcall
        exact hm.step heffect (htx m' hcall)
      · exact hm
  refine ⟨hregistered.twoWay, ?_⟩
  intro ctx domain updater signature manager' events hdomain h replica hreplica
  obtain ⟨hexists, heq⟩ := unenrollReplica_eq_ok h
  have hmanager : manager' = (_unenrollReplica (manager.domainToReplica domain) manager).1 :=
    (congrArg Prod.fst heq).symm
  subst hmanager
  have hafter := hregistered.unenroll (manager.domainToReplica domain)
  by_cases hzero : replica = 0
  · rw [hzero, hafter.zero] at hreplica
    exact hdomain hreplica.symm
  · have howner := (hafter.twoWay domain replica hdomain hzero).mpr hreplica
    have hcurrent := (hregistered.twoWay domain _ hdomain hexists).mp rfl
    simp only [_unenrollReplica, hcurrent, Function.update_self] at howner
    exact hzero howner.symm

end Registry

/-! ### A Replica that is replaced -/

section Replaced

/-- A hash and a recovery that take every signature for the zero address's. -/
def sampleCrypto : Crypto UInt8 := ⟨fun _ => 0, fun _ _ => some 0⟩

/-- The owner, where every address answers view calls with zero. -/
def sampleContext : Context UInt8 := ⟨0, fun _ => some 0, fun _ => some 0⟩

def firstReplica : Address UInt8 := List.Vector.replicate 20 1

def secondReplica : Address UInt8 := List.Vector.replicate 20 2

/-- The owner enrolls two Replicas for one domain, one after the other. The first
stays enrolled under the domain, also after a watcher un-enrolls the Replica of
the domain. -/
theorem replaced_replica_stays_enrolled :
    ∃ manager manager' events, (system sampleCrypto).Reachable manager ∧
      manager.replicaToDomain firstReplica = 1000 ∧
      manager.domainToReplica 1000 = secondReplica ∧ ¬ manager.TwoWay ∧
      unenrollReplica sampleCrypto sampleContext 1000 0 [] manager = .ok (manager', events) ∧
      manager'.replicaToDomain firstReplica = 1000 ∧ manager'.isReplica firstReplica = true := by
  have hdeploy : (system sampleCrypto).Reachable (deploy 0) := System.reachable_init ⟨0, rfl⟩
  have hwatcher := reachable_call hdeploy (sampleContext, .setWatcherPermission 0 1000 true) rfl
  have hfirst := reachable_call hwatcher (sampleContext, .ownerEnrollReplica firstReplica 1000) rfl
  have hsecond := reachable_call hfirst (sampleContext, .ownerEnrollReplica secondReplica 1000) rfl
  refine ⟨_, _, _, hsecond, rfl, rfl, ?_, rfl, rfl, rfl⟩
  intro htwo
  have hwrong := (htwo 1000 firstReplica (by decide) (by decide)).mpr rfl
  revert hwrong
  decide

/-- A run with one enrollment, for a domain without a Replica. -/
theorem registered_of_enrollable_first :
    ∃ manager, (system sampleCrypto).Run (deploy 0)
        [(sampleContext, .ownerEnrollReplica firstReplica 1000)] manager ∧
      manager.domainToReplica 1000 = firstReplica ∧ manager.TwoWay ∧
      ∀ ctx domain updater signature manager' events, domain ≠ 0 →
        unenrollReplica sampleCrypto ctx domain updater signature manager = .ok (manager', events) →
        ∀ replica, manager'.replicaToDomain replica ≠ domain := by
  have hrun : (system sampleCrypto).Run (deploy 0)
      [(sampleContext, .ownerEnrollReplica firstReplica 1000)] _ :=
    System.Run.single (.inl rfl)
  refine ⟨_, hrun, rfl, registered_of_enrollable ⟨0, rfl⟩ hrun ?_⟩
  intro before tx after u hlabels hbefore
  obtain ⟨rfl, hrest⟩ : before = [] ∧
      tx = (sampleContext, .ownerEnrollReplica firstReplica 1000) := by
    cases before with
    | nil => exact ⟨rfl, (List.cons.inj hlabels).1.symm⟩
    | cons first rest => simp at hlabels
  obtain rfl := hbefore.eq_of_nil
  rw [hrest]
  exact fun _ _ _ => ⟨by decide, .inl rfl⟩

end Replaced

end XAppConnectionManager

end Optics
