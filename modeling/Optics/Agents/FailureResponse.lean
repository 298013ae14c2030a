/-
# What the watcher does about a double update

When the update handler of the watcher returns a double update, the watcher sends it to
every Replica and to Home, and sends a signed failure notification to every connection
manager. All these transactions are on their way at the same time, each chain mines its
own when it likes, and others send theirs in between.

However they come, once they are all mined Home and all Replicas are failed, and no
connection manager has a Replica of that Home. Each contract is ready for its transaction
until something settles it, and settled it stays.
-/

import Optics.Agents.Digests
import Optics.Agents.UpdateHandler
import Optics.Core.Failed

namespace Optics.FailureResponse

open Optics.Solidity Optics.Common Optics.Math.Transition
open Optics.Digests (FailureNotification SignedFailureNotification)
open Optics.UpdateHandler (DoubleUpdate)
open Optics.Replica (Chain Surroundings)

variable {Byte ω E η ι κ : Type}

/-! ### The transactions -/

/-- A transaction that the watcher sends. -/
inductive Request (Byte ι κ : Type)
  | home (call : Home.Call Byte)
  | replica (name : ι) (oldRoot newRoot₀ newRoot₁ : Bytes32 Byte)
      (signature signature₂ : List Byte)
  | manager (name : κ) (call : XAppConnectionManager.Call Byte)

/-- `double_update` of `EthereumHome`. -/
def homeDoubleUpdate (double : DoubleUpdate Byte) : Request Byte ι κ :=
  .home (.doubleUpdate double.first.update.previousRoot double.first.update.newRoot
    double.second.update.newRoot double.first.signature.toList double.second.signature.toList)

/-- `double_update` of `EthereumReplica`. -/
def replicaDoubleUpdate (name : ι) (double : DoubleUpdate Byte) : Request Byte ι κ :=
  .replica name double.first.update.previousRoot double.first.update.newRoot
    double.second.update.newRoot double.first.signature.toList double.second.signature.toList

/-- `unenroll_replica` of `EthereumConnectionManager`. -/
def unenrollReplica (name : κ) (signed : SignedFailureNotification Byte) : Request Byte ι κ :=
  .manager name (.unenrollReplica signed.notification.homeDomain signed.notification.updater
    signed.signature)

section Response

variable [ByteAlphabet Byte] (K : Crypto Byte) (hashMessage : List Byte → Bytes32 Byte)
  (sign : Bytes32 Byte → List Byte)

/-- `handle_failure`: what is sent, given what `updater` of Home answers. -/
def handleFailure (replicas : List ι) (managers : List κ) (homeDomain : UInt32)
    (updater : Address Byte) (double : DoubleUpdate Byte) : List (Request Byte ι κ) :=
  let signed := Digests.signFailureWith K hashMessage sign ⟨homeDomain, addressToBytes32 updater⟩
  replicas.map (fun name => replicaDoubleUpdate name double) ++ [homeDoubleUpdate double] ++
    managers.map fun name => unenrollReplica name signed

end Response

/-! ### The contracts -/

/-- Home, its Replicas on other chains and the connection managers there. -/
structure Contracts (Byte E η ι κ : Type) where
  home : Home.History Byte
  replicas : ι → Chain Byte E η
  managers : κ → XAppConnectionManager Byte

/-- A mined transaction: a call of one of the contracts, by anybody. -/
inductive Tx (Byte ω ι κ : Type)
  | home (ctx : Home.Context Byte) (call : Home.Call Byte)
  | replica (name : ι) (time : ℕ) (call : Replica.Call Byte ω)
  | manager (name : κ) (sender : Address Byte) (call : XAppConnectionManager.Call Byte)

/-- The transaction carries out a request. -/
def Tx.Answers : Tx Byte ω ι κ → Request Byte ι κ → Prop
  | .home _ call, .home call' => call = call'
  | .replica name _ call, .replica name' oldRoot newRoot₀ newRoot₁ signature signature₂ =>
    name = name' ∧ call = .doubleUpdate oldRoot newRoot₀ newRoot₁ signature signature₂
  | .manager name _ call, .manager name' call' => name = name' ∧ call = call'
  | _, _ => False

/-- The updater manager slashes when it is asked, nobody rotates the updater, and the owner of
a connection manager does not touch it. -/
def Tx.Undisturbing : Tx Byte ω ι κ → Prop
  | .home ctx call => ctx.slashUpdater ≠ .reverts ∧ ∀ updater, call ≠ .setUpdater updater
  | .replica _ _ _ => True
  | .manager _ _ call =>
    ∃ domain updater signature, call = .unenrollReplica domain updater signature

section Execution

variable [ByteAlphabet Byte] [DecidableEq Byte] [DecidableEq ι] [DecidableEq κ] (K : Crypto Byte)
  (S : ι → Surroundings Byte ω E η) (replicaAt : κ → Address Byte → Option ι)

/-- What a connection manager is answered by the Replicas on its chain. -/
def Contracts.context (c : Contracts Byte E η ι κ) (name : κ) (sender : Address Byte) :
    XAppConnectionManager.Context Byte where
  sender := sender
  updater address := (replicaAt name address).map fun i => (c.replicas i).replica.updater
  homeDomainHash address :=
    (replicaAt name address).map fun i => (c.replicas i).replica.homeDomainHash K

/-- A mined transaction is executed, or it reverts. -/
inductive Step (c : Contracts Byte E η ι κ) : Tx Byte ω ι κ → Contracts Byte E η ι κ → Prop
  | home {ctx : Home.Context Byte} {call : Home.Call Byte} {home : Home.History Byte}
      (h : (Home.system K).step c.home (ctx, call) home) :
      Step c (.home ctx call) { c with home := home }
  | replica {name : ι} {time : ℕ} {call : Replica.Call Byte ω} {chain : Chain Byte E η}
      (h : (c.replicas name).now ≤ time ∧
        callStep (Chain.transact K (S name)) (c.replicas name) (time, call) chain) :
      Step c (.replica name time call)
        { c with replicas := Function.update c.replicas name chain }
  | manager {name : κ} {sender : Address Byte} {call : XAppConnectionManager.Call Byte}
      {manager : XAppConnectionManager Byte}
      (h : (XAppConnectionManager.system K).step (c.managers name)
        (c.context K replicaAt name sender, call) manager) :
      Step c (.manager name sender call)
        { c with managers := Function.update c.managers name manager }

/-- The contracts under any transactions. -/
def system : System (Contracts Byte E η ι κ) (Tx Byte ω ι κ) where
  init _ := True
  step := Step K S replicaAt

end Execution

/-! ### What the transactions find -/

variable [ByteAlphabet Byte] [DecidableEq Byte] [DecidableEq ι] [DecidableEq κ] {K : Crypto Byte}
  {S : ι → Surroundings Byte ω E η} {replicaAt : κ → Address Byte → Option ι}

/-- All contracts are about one Home with one updater, and each connection manager has a
Replica of it and lets the watcher un-enroll it. -/
structure Watched (replicaAt : κ → Address Byte → Option ι) (domain : UInt32)
    (updater watcher : Address Byte) (c : Contracts Byte E η ι κ) : Prop where
  domain_ne : domain ≠ 0
  home : c.home.home.localDomain = domain ∧ c.home.home.updater = updater
  replicas : ∀ i, (c.replicas i).replica.remoteDomain = domain ∧
    (c.replicas i).replica.updater = updater
  registered : ∀ k, (c.managers k).Registered
  enrolled : ∀ k, (c.managers k).domainToReplica domain ≠ 0 ∧
    ∃ i, replicaAt k ((c.managers k).domainToReplica domain) = some i
  permitted : ∀ k, (c.managers k).watcherPermissions watcher domain = true

/-- Nothing more is accepted from the Home: it is failed, so are its Replicas, and no
connection manager takes any address for one of them. -/
structure Stopped (domain : UInt32) (c : Contracts Byte E η ι κ) : Prop where
  home : c.home.home.state = .Failed
  replicas : ∀ i, (c.replicas i).replica.state = .Failed
  managers : ∀ k a, (c.managers k).replicaToDomain a ≠ domain

/-- The updater signed both updates of a double update. -/
def Proves (K : Crypto Byte) (domain : UInt32) (updater : Address Byte)
    (double : DoubleUpdate Byte) : Prop :=
  UpdateHandler.DoubleUpdate.conflict K domain updater double = .ok true

variable {domain : UInt32} {updater watcher : Address Byte} {double : DoubleUpdate Byte}
  {c c' : Contracts Byte E η ι κ} {tx : Tx Byte ω ι κ} {txs : List (Tx Byte ω ι κ)}

/-! ### Home -/

section Home

variable {history history' : Home.History Byte} {ctx : Home.Context Byte} {call : Home.Call Byte}

theorem home_ready (hready : history.home.localDomain = domain ∧ history.home.updater = updater)
    (hcall : ∀ updater, call ≠ .setUpdater updater)
    (hstep : (Home.system K).step history (ctx, call) history') :
    (history'.home.localDomain = domain ∧ history'.home.updater = updater) ∨
      history'.home.state = .Failed := by
  refine callStep_cases (P := fun _ t => (t.home.localDomain = domain ∧ t.home.updater = updater) ∨
    t.home.state = .Failed) hstep (fun t hexec => ?_) (.inl hready)
  obtain ⟨home, events, hhome, rfl⟩ := Home.History.exec_eq_ok.mp hexec
  cases Home.effect_of_exec hhome with
  | dispatched => exact .inl hready
  | committed => exact .inl hready
  | slashed => exact .inr rfl
  | unchanged => exact .inl hready
  | newUpdater updater => exact absurd rfl (hcall updater)
  | newUpdaterManager => exact .inl hready

theorem home_failed (hfailed : history.home.state = .Failed)
    (hstep : (Home.system K).step history (ctx, call) history') :
    history'.home.state = .Failed :=
  (Failed.homeFrozen_of_run hfailed (System.Run.single hstep)).state

theorem home_settles (hproves : Proves K domain updater double)
    (hready : history.home.localDomain = domain ∧ history.home.updater = updater)
    (hslash : ctx.slashUpdater ≠ .reverts)
    (hcall : call = .doubleUpdate double.first.update.previousRoot double.first.update.newRoot
      double.second.update.newRoot double.first.signature.toList double.second.signature.toList)
    (hstep : (Home.system K).step history (ctx, call) history') :
    history'.home.state = .Failed := by
  by_cases hfailed : history.home.state = .Failed
  · exact home_failed hfailed hstep
  obtain ⟨nested, hnested⟩ : ∃ nested, ctx.slashUpdater = .returns nested := by
    cases hctx : ctx.slashUpdater with
    | reverts => exact absurd hctx hslash
    | returns nested => exact ⟨nested, rfl⟩
  obtain ⟨rfl, rfl⟩ := hready
  obtain ⟨hfirst, hsecond, hne⟩ := isDoubleUpdate_eq_true.mp hproves
  subst hcall
  obtain ⟨home', events, hexec, hstate⟩ := Home.exec_of_fraud_returns hnested hfailed
    (.double _ _ _ _ _ hfirst hsecond hne)
  have hok : Home.History.exec K (ctx, _) history = .ok _ :=
    Home.History.exec_eq_ok.mpr ⟨home', events, hexec, rfl⟩
  rw [eq_afterCall hstep, afterCall_of_ok hok]
  exact hstate

end Home

/-! ### Replica -/

section Replica

variable {S : Surroundings Byte ω E η} {chain chain' : Chain Byte E η} {time : ℕ}
  {call : Replica.Call Byte ω}

theorem replica_config (hstep : callStep (Chain.transact K S) chain (time, call) chain') :
    chain'.replica.remoteDomain = chain.replica.remoteDomain ∧
      chain'.replica.updater = chain.replica.updater := by
  refine callStep_cases (P := fun s t => t.replica.remoteDomain = s.replica.remoteDomain ∧
    t.replica.updater = s.replica.updater) hstep (fun t hexec => ?_) ⟨rfl, rfl⟩
  obtain ⟨hpath, -⟩ :=
    Replica.Call.exec_path (P := fun _ => True) call _ t (fun _ _ => trivial) hexec
  obtain ⟨hconfig, -⟩ := Replica.path_frame hpath
  exact ⟨hconfig.remoteDomain, hconfig.updater⟩

theorem replica_failed (hfailed : chain.replica.state = .Failed)
    (hstep : callStep (Chain.transact K S) chain (time, call) chain') :
    chain'.replica.state = .Failed := by
  refine callStep_cases (P := fun s t => s.replica.state = .Failed → t.replica.state = .Failed)
    hstep (fun t hexec hs => ?_) id hfailed
  obtain ⟨hpath, -⟩ :=
    Replica.Call.exec_path (P := fun _ => True) call _ t (fun _ _ => trivial) hexec
  exact (Failed.rootsFrozen_of_path (s := { chain with now := time }) hs hpath).state

theorem replica_settles (hproves : Proves K domain updater double)
    (hready : chain.replica.remoteDomain = domain ∧ chain.replica.updater = updater)
    (hcall : call = .doubleUpdate double.first.update.previousRoot double.first.update.newRoot
      double.second.update.newRoot double.first.signature.toList double.second.signature.toList)
    (hstep : callStep (Chain.transact K S) chain (time, call) chain') :
    chain'.replica.state = .Failed := by
  by_cases hfailed : chain.replica.state = .Failed
  · exact replica_failed hfailed hstep
  obtain ⟨rfl, rfl⟩ := hready
  have hconflict : isDoubleUpdate K chain.replica.remoteDomain chain.replica.updater
      double.first.update.previousRoot double.first.update.newRoot double.second.update.newRoot
        double.first.signature.toList double.second.signature.toList = .ok true := hproves
  obtain ⟨t, hok, ht⟩ : ∃ t, Chain.transact K S (time, call) chain = .ok t ∧
      t.replica.state = .Failed := by
    rw [Chain.transact, hcall, Replica.Call.exec, Replica.doubleUpdate, Replica.notFailed,
      require_of hfailed, ok_bind, hconflict, ok_bind, if_pos rfl, ok_bind]
    exact ⟨_, rfl, rfl⟩
  rwa [eq_afterCall hstep, afterCall_of_ok hok]

end Replica

/-! ### Connection managers -/

section Manager

variable {hashMessage : List Byte → Bytes32 Byte} {sign : Bytes32 Byte → List Byte}

/-- A connection manager that has no Replica of the domain. -/
def Cleared (domain : UInt32) (manager : XAppConnectionManager Byte) : Prop :=
  manager.Registered ∧ manager.domainToReplica domain = 0

/-- A connection manager that will accept the notification of the watcher. -/
structure Unenrollable (K : Crypto Byte) (domain : UInt32) (updater watcher : Address Byte)
    (ctx : XAppConnectionManager.Context Byte) (manager : XAppConnectionManager Byte) : Prop where
  registered : manager.Registered
  enrolled : manager.domainToReplica domain ≠ 0
  current : ctx.updater (manager.domainToReplica domain) = some updater
  home : ctx.homeDomainHash (manager.domainToReplica domain) =
    some (Digests.homeDomainHash K domain)
  permitted : manager.watcherPermissions watcher domain = true

theorem Cleared.replicaToDomain_ne {manager : XAppConnectionManager Byte}
    (hcleared : Cleared domain manager) (hdomain : domain ≠ 0) (a : Address Byte) :
    manager.replicaToDomain a ≠ domain := by
  intro ha
  by_cases hzero : a = 0
  · rw [hzero, hcleared.1.zero] at ha
    exact hdomain ha.symm
  · have hback := (hcleared.1.twoWay domain a hdomain hzero).mpr ha
    exact hzero (hback.symm.trans hcleared.2)

variable {ctx ctx' : XAppConnectionManager.Context Byte}
  {manager manager' : XAppConnectionManager Byte} {call : XAppConnectionManager.Call Byte}

/-- A call of a watcher clears a domain or leaves it. -/
theorem manager_step (domain : UInt32) (hregistered : manager.Registered)
    (hcall : ∃ domain updater signature, call = .unenrollReplica domain updater signature)
    (hstep : (XAppConnectionManager.system K).step manager (ctx, call) manager') :
    manager'.Registered ∧ (manager'.domainToReplica domain = 0 ∨
      manager'.domainToReplica domain = manager.domainToReplica domain) ∧
      manager'.watcherPermissions = manager.watcherPermissions := by
  obtain ⟨d, u, signature, rfl⟩ := hcall
  rcases XAppConnectionManager.step_cases hstep with ⟨events, heffect⟩ | rfl
  · cases heffect with
    | unenrolledByWatcher =>
      exact ⟨hregistered.unenroll _, XAppConnectionManager.domainToReplica_unenroll _ _, rfl⟩
  · exact ⟨hregistered, .inr rfl, rfl⟩

theorem manager_cleared (hcleared : Cleared domain manager)
    (hcall : ∃ domain updater signature, call = .unenrollReplica domain updater signature)
    (hstep : (XAppConnectionManager.system K).step manager (ctx, call) manager') :
    Cleared domain manager' := by
  obtain ⟨hregistered, hkept | hkept, -⟩ := manager_step domain hcleared.1 hcall hstep
  · exact ⟨hregistered, hkept⟩
  · exact ⟨hregistered, hkept.trans hcleared.2⟩

theorem manager_settles (hwraps : Digests.WrapsHashes K hashMessage)
    (hsigner : ∀ digest, K.recover digest (sign digest) = some watcher) (hdomain : domain ≠ 0)
    (hready : Unenrollable K domain updater watcher ctx manager)
    {notification : FailureNotification Byte}
    (hnotification : notification = ⟨domain, addressToBytes32 updater⟩)
    (hstep : (XAppConnectionManager.system K).step manager (ctx,
      .unenrollReplica notification.homeDomain notification.updater
        (Digests.signFailureWith K hashMessage sign notification).signature) manager') :
    Cleared domain manager' := by
  subst hnotification
  have hsigned : K.recover (XAppConnectionManager.failureDigest K (Digests.homeDomainHash K domain)
      domain (addressToBytes32 updater)) (Digests.signFailureWith K hashMessage sign
        ⟨domain, addressToBytes32 updater⟩).signature = some watcher := by
    rw [← Digests.failurePrependedHash_eq hwraps ⟨domain, addressToBytes32 updater⟩]
    exact hsigner _
  have hok := XAppConnectionManager.unenrollReplica_iff.mpr ⟨⟨_, _, hready.enrolled, by
    rw [hready.current, bytes32ToAddress_addressToBytes32], hready.home, hsigned,
      hready.permitted⟩, rfl⟩
  have hcall : XAppConnectionManager.call K (ctx, .unenrollReplica domain _ _) manager = .ok _ :=
    bind_eq_ok.mpr ⟨_, hok, rfl⟩
  rw [eq_afterCall hstep, afterCall_of_ok hcall]
  refine ⟨hready.registered.unenroll _, ?_⟩
  have hback := (hready.registered.twoWay domain _ hdomain hready.enrolled).mp rfl
  simp only [hback, Function.update_self]

end Manager

/-! ### Any order of transactions -/

section Runs

variable {hashMessage : List Byte → Bytes32 Byte} {sign : Bytes32 Byte → List Byte}

omit [DecidableEq Byte] [DecidableEq ι] [DecidableEq κ] in
/-- The Replicas answer the connection managers as before. -/
theorem context_eq (hconfig : ∀ i,
      (c'.replicas i).replica.remoteDomain = (c.replicas i).replica.remoteDomain ∧
        (c'.replicas i).replica.updater = (c.replicas i).replica.updater)
    (name : κ) (sender : Address Byte) :
    c'.context K replicaAt name sender = c.context K replicaAt name sender := by
  have hupdater : ∀ i, (c'.replicas i).replica.updater = (c.replicas i).replica.updater :=
    fun i => (hconfig i).2
  have hhash : ∀ i, (c'.replicas i).replica.homeDomainHash K =
      (c.replicas i).replica.homeDomainHash K := fun i => by
    rw [Replica.homeDomainHash, Replica.homeDomainHash, (hconfig i).1]
  simp only [Contracts.context, hupdater, hhash]

theorem config_of_step (hstep : Step K S replicaAt c tx c') (i : ι) :
    (c'.replicas i).replica.remoteDomain = (c.replicas i).replica.remoteDomain ∧
      (c'.replicas i).replica.updater = (c.replicas i).replica.updater := by
  cases hstep with
  | home h => exact ⟨rfl, rfl⟩
  | @replica name time call chain h =>
    by_cases hi : i = name
    · subst hi
      simpa using replica_config h.2
    · simp [Function.update_of_ne hi]
  | manager h => exact ⟨rfl, rfl⟩

/-- Home fails. -/
theorem home_of_run (hproves : Proves K domain updater double)
    (hready : c.home.home.localDomain = domain ∧ c.home.home.updater = updater)
    (hrun : (system K S replicaAt).Run c txs c') (hquiet : ∀ tx ∈ txs, tx.Undisturbing)
    (hmined : ∃ tx ∈ txs, tx.Answers (homeDoubleUpdate double)) :
    c'.home.home.state = .Failed := by
  refine hrun.settles (P := fun c : Contracts Byte E η ι κ =>
    c.home.home.localDomain = domain ∧ c.home.home.updater = updater)
    (Q := fun c => c.home.home.state = .Failed) (.inl hready) hquiet hmined ?_ ?_ ?_
  · intro s tx t hs htx hstep
    cases hstep with
    | home h => exact home_ready hs htx.2 h
    | replica h => exact .inl hs
    | manager h => exact .inl hs
  · intro s tx t hs _ hstep
    cases hstep with
    | home h => exact home_failed hs h
    | replica h => exact hs
    | manager h => exact hs
  · intro s tx t hs htx hanswers hstep
    cases hstep with
    | home h => exact home_settles hproves hs htx.1 hanswers h
    | replica h => exact hanswers.elim
    | manager h => exact hanswers.elim

/-- Every Replica fails. -/
theorem replica_of_run (hproves : Proves K domain updater double) (i : ι)
    (hready : (c.replicas i).replica.remoteDomain = domain ∧
      (c.replicas i).replica.updater = updater)
    (hrun : (system K S replicaAt).Run c txs c')
    (hmined : ∃ tx ∈ txs, tx.Answers (replicaDoubleUpdate i double)) :
    (c'.replicas i).replica.state = .Failed := by
  refine hrun.settles (P := fun c : Contracts Byte E η ι κ =>
    (c.replicas i).replica.remoteDomain = domain ∧ (c.replicas i).replica.updater = updater)
    (Q := fun c => (c.replicas i).replica.state = .Failed) (C := fun _ => True) (.inl hready)
    (fun _ _ => trivial) hmined ?_ ?_ ?_
  · intro s tx t hs _ hstep
    obtain ⟨hdomain, hupdater⟩ := config_of_step hstep i
    exact .inl ⟨hdomain.trans hs.1, hupdater.trans hs.2⟩
  · intro s tx t hs _ hstep
    cases hstep with
    | home h => exact hs
    | @replica name time call chain h =>
      by_cases hi : i = name
      · subst hi
        simpa using replica_failed hs h.2
      · simpa [Function.update_of_ne hi] using hs
    | manager h => exact hs
  · intro s tx t hs _ hanswers hstep
    cases hstep with
    | home h => exact hanswers.elim
    | @replica name time call chain h =>
      obtain ⟨rfl, hcall⟩ := hanswers
      simpa using replica_settles hproves hs hcall h.2
    | manager h => exact hanswers.elim

/-- Every connection manager un-enrolls its Replica. -/
theorem manager_of_run (hwraps : Digests.WrapsHashes K hashMessage)
    (hsigner : ∀ digest, K.recover digest (sign digest) = some watcher)
    (hwatched : Watched replicaAt domain updater watcher c) (k : κ)
    (hrun : (system K S replicaAt).Run c txs c') (hquiet : ∀ tx ∈ txs, tx.Undisturbing)
    (hmined : ∃ tx ∈ txs, tx.Answers (unenrollReplica k
      (Digests.signFailureWith K hashMessage sign ⟨domain, addressToBytes32 updater⟩))) :
    Cleared domain (c'.managers k) := by
  obtain ⟨henrolled, i, hi⟩ := hwatched.enrolled k
  have hready : Unenrollable K domain updater watcher (c.context K replicaAt k 0) (c.managers k) :=
    { registered := hwatched.registered k
      enrolled := henrolled
      current := by
        simp only [Contracts.context, hi, Option.map_some]
        rw [(hwatched.replicas i).2]
      home := by
        simp only [Contracts.context, hi, Option.map_some, Replica.homeDomainHash]
        rw [(hwatched.replicas i).1]
        rfl
      permitted := hwatched.permitted k }
  refine hrun.settles (P := fun c : Contracts Byte E η ι κ =>
    Unenrollable K domain updater watcher (c.context K replicaAt k 0) (c.managers k))
    (Q := fun c => Cleared domain (c.managers k)) (.inl hready) hquiet hmined ?_ ?_ ?_
  · intro s tx t hs htx hstep
    rw [context_eq (config_of_step hstep) k 0]
    cases hstep with
    | home h => exact .inl hs
    | replica h => exact .inl hs
    | @manager name sender call manager h =>
      by_cases hk : k = name
      · subst hk
        obtain ⟨hregistered, hkept, hpermissions⟩ := manager_step domain hs.registered htx h
        rcases hkept with hzero | hkept
        · exact .inr (by simpa using ⟨hregistered, hzero⟩)
        · refine .inl ?_
          simp only [Function.update_self]
          exact ⟨hregistered, hkept ▸ hs.enrolled, hkept ▸ hs.current, hkept ▸ hs.home,
            hpermissions ▸ hs.permitted⟩
      · exact .inl (by simpa [Function.update_of_ne hk] using hs)
  · intro s tx t hs htx hstep
    cases hstep with
    | home h => exact hs
    | replica h => exact hs
    | @manager name sender call manager h =>
      by_cases hk : k = name
      · subst hk
        simpa using manager_cleared hs htx h
      · simpa [Function.update_of_ne hk] using hs
  · intro s tx t hs _ hanswers hstep
    cases hstep with
    | home h => exact hanswers.elim
    | replica h => exact hanswers.elim
    | @manager name sender call manager h =>
      obtain ⟨rfl, rfl⟩ := hanswers
      have hs' : Unenrollable K domain updater watcher (s.context K replicaAt name sender)
        (s.managers name) := ⟨hs.registered, hs.enrolled, hs.current, hs.home, hs.permitted⟩
      simpa using manager_settles hwraps hsigner hwatched.domain_ne hs' rfl h

/-- What the handler returns are two of the updates that it received, from one root to
different roots. -/
theorem returned_of_reachable {entity : List Byte} {s : UpdateHandler.State Byte}
    (hs : (UpdateHandler.system entity).Reachable s) (hreturned : s.status = .returned double) :
    double.first ∈ s.received ∧ double.second ∈ s.received ∧
      double.first.update.previousRoot = double.second.update.previousRoot ∧
      double.first.update.newRoot ≠ double.second.update.newRoot := by
  have hlast : ∀ double, s.status = .returned double →
      ∃ before u, s.checks = before ++ [(u, .error double)] := by
    refine hs.invariant (P := fun s => ∀ double, s.status = .returned double →
      ∃ before u, s.checks = before ++ [(u, .error double)]) ?_ ?_
    · rintro s ⟨-, hrunning, -⟩ double hstatus
      rw [hrunning] at hstatus
      cases hstatus
    · intro s label t _ _ hstep double hstatus
      change UpdateHandler.exec entity label s = some t at hstep
      cases label with
      | receive u answered =>
        simp only [UpdateHandler.exec] at hstep
        split at hstep
        · split_ifs at hstep
          · split at hstep
            · next outcome db hcheck =>
              obtain rfl := Option.some.inj hstep
              cases outcome with
              | ok => cases hstatus
              | error found =>
                obtain rfl := UpdateHandler.Status.returned.inj hstatus
                exact ⟨s.checks, u, rfl⟩
            · obtain rfl := Option.some.inj hstep
              cases hstatus
          · obtain rfl := Option.some.inj hstep
            cases hstatus
        · cases hstep
      | restart =>
        obtain rfl := Option.some.inj hstep
        cases hstatus
  obtain ⟨before, u, hchecks⟩ := hlast double hreturned
  have hverdict := (UpdateHandler.sound_of_reachable hs).verdicts before u _ [] hchecks
  have hreceived : s.received = before.map Prod.fst ++ [u] := by
    rw [UpdateHandler.State.received, hchecks, List.map_append]
    rfl
  rw [UpdateHandler.verdict] at hverdict
  split at hverdict
  · next a ha =>
    obtain ⟨hmem, hroot⟩ := UpdateHandler.firstFrom_mem ha
    split_ifs at hverdict with hne
    obtain rfl := Except.error.inj hverdict
    rw [hreceived]
    exact ⟨List.mem_append_left _ hmem, List.mem_append_right _ (List.mem_singleton_self _), hroot,
      hne⟩
  · cases hverdict

/-- **The watcher stops a Home that forked.** All contracts are about one Home, and each
connection manager has one of the Replicas enrolled for it and lets the watcher un-enroll it.
The handler returned a double update made of signed updates, and the transactions that the
watcher sends for it are mined in any order, among any others that do not disturb. In the end
nothing more is accepted from the Home. -/
theorem stopped_of_mined {entity : List Byte} {s : UpdateHandler.State Byte} {names : List ι}
    {managers : List κ} (hwraps : Digests.WrapsHashes K hashMessage)
    (hsigner : ∀ digest, K.recover digest (sign digest) = some watcher)
    (hs : (UpdateHandler.system entity).Reachable s) (hreturned : s.status = .returned double)
    (hsigned : ∀ u ∈ s.received, IsSignedBy K domain updater u.presented)
    (hwatched : Watched replicaAt domain updater watcher c) (hnames : ∀ i, i ∈ names)
    (hmanagers : ∀ k, k ∈ managers) (hrun : (system K S replicaAt).Run c txs c')
    (hquiet : ∀ tx ∈ txs, tx.Undisturbing)
    (hmined : ∀ request ∈ handleFailure K hashMessage sign names managers domain
      c.home.home.updater double, ∃ tx ∈ txs, tx.Answers request) :
    Stopped domain c' := by
  obtain ⟨hfirst, hsecond, hroot, hne⟩ := returned_of_reachable hs hreturned
  have hproves : Proves K domain updater double := by
    have hsecond' := hsigned _ hsecond
    rw [UpdateHandler.SignedUpdate.presented, ← hroot] at hsecond'
    exact isDoubleUpdate_eq_true.mpr ⟨hsigned _ hfirst, hsecond', hne⟩
  rw [hwatched.home.2] at hmined
  refine ⟨?_, fun i => ?_, fun k => ?_⟩
  · refine home_of_run hproves hwatched.home hrun hquiet (hmined _ ?_)
    simp [handleFailure]
  · refine replica_of_run hproves i (hwatched.replicas i) hrun (hmined _ ?_)
    simp [handleFailure, hnames]
  · refine (manager_of_run hwraps hsigner hwatched k hrun hquiet (hmined _ ?_)).replicaToDomain_ne
      hwatched.domain_ne
    simp [handleFailure, hmanagers]

end Runs

/-! ### One Home, one Replica, one manager -/

section Sample

def sampleUpdater : Address ℕ := List.Vector.replicate 20 7

def sampleWatcher : Address ℕ := List.Vector.replicate 20 9

def sampleReplica : Address ℕ := List.Vector.replicate 20 1

/-- The signatures of the updater have 65 bytes, and those of the watcher have none. -/
def sampleCrypto : Crypto ℕ := Crypto.withIdealHash fun _ signature =>
  some (if signature.length = 65 then sampleUpdater else sampleWatcher)

def sampleSurroundings : Unit → Surroundings ℕ Empty Unit Unit :=
  fun _ => Replica.sampleSurroundings

def sampleReplicaAt : Unit → Address ℕ → Option Unit :=
  fun _ a => if a = sampleReplica then some () else none

/-- An update from zero. -/
def sampleUpdate (newRoot : ℕ) : UpdateHandler.SignedUpdate ℕ :=
  ⟨⟨1000, 0, List.Vector.replicate 32 newRoot⟩, List.Vector.replicate 65 0⟩

def sampleDouble : DoubleUpdate ℕ := ⟨sampleUpdate 1, sampleUpdate 2⟩

/-- The handler after two updates from zero. -/
theorem exists_returned : ∃ s : UpdateHandler.State ℕ,
    (UpdateHandler.system []).Reachable s ∧ s.status = .returned sampleDouble ∧
      s.received = [sampleUpdate 1, sampleUpdate 2] := by
  have hsample : ([UpdateHandler.Label.receive (sampleUpdate 1) true,
      .receive (sampleUpdate 2) true].foldlM (fun s label => UpdateHandler.exec [] label s)
        (⟨KeyValue.DB.empty, .running, []⟩ : UpdateHandler.State ℕ)).any
          (fun s => decide (s.status = .returned sampleDouble ∧
            s.received = [sampleUpdate 1, sampleUpdate 2])) = true := by
    decide +kernel
  obtain ⟨s, hrun, hs⟩ := (Option.any_eq_true _ _).mp hsample
  obtain ⟨hstatus, hreceived⟩ := of_decide_eq_true hs
  exact ⟨s, ⟨_, _, ⟨rfl, rfl, rfl⟩, System.run_of_foldlM (fun _ _ _ hexec => hexec) hrun⟩,
    hstatus, hreceived⟩

/-- A manager that enrolled a Replica and permits the watcher. -/
def sampleManager : XAppConnectionManager ℕ :=
  { XAppConnectionManager.deploy 0 with
    replicaToDomain := Function.update (fun _ => 0) sampleReplica 1000
    domainToReplica := Function.update (fun _ => 0) 1000 sampleReplica
    watcherPermissions := fun a domain => a = sampleWatcher ∧ domain = 1000 }

def sampleContracts : Contracts ℕ Unit Unit Unit Unit where
  home := ⟨{ (Home.fresh 1000 : Home ℕ) with
    owner := 0
    queue := (QueueLib.Queue.fresh : QueueLib.Queue (Bytes32 ℕ)).init
    updaterManager := 0
    updater := sampleUpdater
    state := .Active }, [.NewUpdaterManager 0, .NewUpdater sampleUpdater], []⟩
  replicas _ := .deployed 2000 1000 sampleUpdater 0 1800 1 ()
  managers _ := sampleManager

theorem sampleManager_registered : sampleManager.Registered := by
  have henrolled : XAppConnectionManager.Registered { XAppConnectionManager.deploy 0 with
      replicaToDomain := Function.update (fun _ => 0) sampleReplica 1000
      domainToReplica := Function.update (fun _ => 0) 1000 sampleReplica } :=
    (XAppConnectionManager.deploy_registered 0).enroll rfl fun _ => ⟨by decide, rfl⟩
  exact ⟨henrolled.twoWay, henrolled.zero⟩

theorem watched_sample :
    Watched sampleReplicaAt 1000 sampleUpdater sampleWatcher sampleContracts where
  domain_ne := by decide
  home := ⟨rfl, rfl⟩
  replicas _ := ⟨rfl, rfl⟩
  registered _ := sampleManager_registered
  enrolled _ := by
    change sampleManager.domainToReplica 1000 ≠ 0 ∧
      ∃ i, sampleReplicaAt () (sampleManager.domainToReplica 1000) = some i
    decide
  permitted _ := by
    change sampleManager.watcherPermissions sampleWatcher 1000 = true
    decide

/-- The three requests, each mined on its chain. -/
def sampleTxs : List (Tx ℕ Empty Unit Unit) :=
  let signed := Digests.signFailureWith sampleCrypto Digests.sampleHashMessage (fun _ => [])
    ⟨1000, addressToBytes32 sampleUpdater⟩
  [.manager () 0 (.unenrollReplica signed.notification.homeDomain signed.notification.updater
      signed.signature),
    .home Home.sampleContext (.doubleUpdate 0 (sampleUpdate 1).update.newRoot
      (sampleUpdate 2).update.newRoot (sampleUpdate 1).signature.toList
      (sampleUpdate 2).signature.toList),
    .replica () 1 (.doubleUpdate 0 (sampleUpdate 1).update.newRoot
      (sampleUpdate 2).update.newRoot (sampleUpdate 1).signature.toList
      (sampleUpdate 2).signature.toList)]

theorem stopped_of_mined_sample : ∃ c,
    (system sampleCrypto sampleSurroundings sampleReplicaAt).Run sampleContracts sampleTxs c ∧
      Stopped 1000 c := by
  obtain ⟨s, hs, hreturned, hreceived⟩ := exists_returned
  have hwraps : Digests.WrapsHashes sampleCrypto Digests.sampleHashMessage :=
    fun hash => Digests.sampleHashMessage_wraps hash
  have hsigned : ∀ u ∈ s.received, IsSignedBy sampleCrypto 1000 sampleUpdater u.presented := by
    intro u hu
    rw [hreceived, List.mem_cons, List.mem_singleton] at hu
    rcases hu with rfl | rfl
    · rfl
    · rfl
  have hmined : ∀ request ∈ handleFailure sampleCrypto Digests.sampleHashMessage (fun _ => []) [()]
      [()] 1000 sampleContracts.home.home.updater sampleDouble,
        ∃ tx ∈ sampleTxs, tx.Answers request := by
    intro request hrequest
    simp only [handleFailure, List.map_cons, List.map_nil, List.cons_append, List.nil_append,
      List.mem_cons, List.not_mem_nil, or_false] at hrequest
    rcases hrequest with rfl | rfl | rfl
    · exact ⟨sampleTxs[2], List.getElem_mem _, rfl, rfl⟩
    · exact ⟨sampleTxs[1], List.getElem_mem _, rfl⟩
    · exact ⟨sampleTxs[0], List.getElem_mem _, rfl, rfl⟩
  have hquiet : ∀ tx ∈ sampleTxs, tx.Undisturbing := by
    intro tx htx
    simp only [sampleTxs, List.mem_cons, List.not_mem_nil, or_false] at htx
    rcases htx with rfl | rfl | rfl
    · exact ⟨_, _, _, rfl⟩
    · exact ⟨by simp [Home.sampleContext], by simp⟩
    · trivial
  obtain ⟨c, hrun⟩ : ∃ c, (system sampleCrypto sampleSurroundings sampleReplicaAt).Run
      sampleContracts sampleTxs c :=
    ⟨_, ((System.Run.single (Step.manager (callStep_afterCall ..))).tail
      (Step.home (callStep_afterCall ..))).tail
        (Step.replica ⟨Nat.le_refl 1, callStep_afterCall ..⟩)⟩
  exact ⟨c, hrun, stopped_of_mined hwraps (fun _ => rfl) hs hreturned hsigned watched_sample
    (fun _ => by simp) (fun _ => by simp) hrun hquiet hmined⟩

end Sample

end Optics.FailureResponse
