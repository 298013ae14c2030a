/-
# What a watcher's signature binds

A watcher signs the home domain hash and the updater that a Replica answers, with the
domain of the home. A signature is good for this domain and this updater only, but for
every Replica that gives the same answers: after the Replica of a domain is replaced,
the signature that un-enrolled the first one un-enrolls the next one as well.
-/

import Optics.Core.XAppConnectionManager

namespace Optics.XAppConnectionManager

open Optics.Solidity Optics.Common Optics.Math.Transition

variable {Byte : Type} [ByteAlphabet Byte]

/-! ### The digest -/

section Digest

variable (K : Crypto Byte)

/-- The digest that `_recoverWatcherFromSig` recovers a watcher from. -/
def failureDigest (homeDomainHash : Bytes32 Byte) (domain : UInt32) (updater : Bytes32 Byte) :
    Bytes32 Byte :=
  K.toEthSignedMessageHash
    (K.keccak256 (homeDomainHash.toList ++ uint32Bytes domain ++ updater.toList))

variable {K}

/-- With an ideal hash the digest determines what was signed. -/
theorem failureDigest_inj (ideal : Crypto.IdealHash K) {hash hash' updater updater' : Bytes32 Byte}
    {domain domain' : UInt32}
    (h : failureDigest K hash domain updater = failureDigest K hash' domain' updater') :
    hash = hash' ∧ domain = domain' ∧ updater = updater' := by
  have hpreimage := ideal.injective (ideal.toEthSignedMessageHash_injective h)
  rw [List.append_assoc, List.append_assoc] at hpreimage
  obtain ⟨hhash, hrest⟩ := toList_append_inj hpreimage
  obtain ⟨hdomain, hupdater⟩ := List.append_inj hrest (by simp)
  exact ⟨hhash, uint32Bytes_injective hdomain, List.Vector.eq _ _ hupdater⟩

end Digest

/-! ### What `unenrollReplica` accepts -/

variable [DecidableEq Byte] {K : Crypto Byte} {ctx : Context Byte}
  {manager manager' : XAppConnectionManager Byte} {domain : UInt32} {updater : Bytes32 Byte}
  {signature : List Byte}

/-- What the Replica of a domain answers, and who signed it. -/
structure Accepts (K : Crypto Byte) (ctx : Context Byte) (manager : XAppConnectionManager Byte)
    (domain : UInt32) (updater : Bytes32 Byte) (signature : List Byte) (hash : Bytes32 Byte)
    (watcher : Address Byte) : Prop where
  enrolled : manager.domainToReplica domain ≠ 0
  current : ctx.updater (manager.domainToReplica domain) = some (bytes32ToAddress updater)
  home : ctx.homeDomainHash (manager.domainToReplica domain) = some hash
  signed : K.recover (failureDigest K hash domain updater) signature = some watcher
  permitted : manager.watcherPermissions watcher domain = true

omit [ByteAlphabet Byte] [DecidableEq Byte] in
theorem view_eq_ok {α : Type} {callee : String} {answer : Option α} {a : α} :
    view callee answer = .ok a ↔ answer = some a := by
  cases answer with
  | none => simp [view]
  | some b => simp [view]

theorem unenrollReplica_iff {result : XAppConnectionManager Byte × List (Event Byte)} :
    unenrollReplica K ctx domain updater signature manager = .ok result ↔
      (∃ hash watcher, Accepts K ctx manager domain updater signature hash watcher) ∧
        result = _unenrollReplica (manager.domainToReplica domain) manager := by
  constructor
  · intro h
    obtain ⟨henrolled, h⟩ := require_bind_eq_ok.mp h
    obtain ⟨current, hupdater, h⟩ := bind_eq_ok.mp h
    obtain ⟨rfl, hrest⟩ := require_bind_eq_ok.mp h
    obtain ⟨watcher, hrecover, hrest⟩ := bind_eq_ok.mp hrest
    obtain ⟨hpermitted, hresult⟩ := require_bind_eq_ok.mp hrest
    obtain ⟨hash, hhash, hrecover⟩ := bind_eq_ok.mp hrecover
    rw [bytes32ToAddress_addressToBytes32] at hhash
    exact ⟨⟨hash, watcher, henrolled, view_eq_ok.mp hupdater, view_eq_ok.mp hhash,
      Crypto.ecdsaRecover_eq_ok.mp hrecover, hpermitted⟩, (Except.ok.inj hresult).symm⟩
  · rintro ⟨⟨hash, watcher, h⟩, rfl⟩
    refine require_bind_eq_ok.mpr ⟨h.enrolled, ?_⟩
    refine bind_eq_ok.mpr ⟨_, view_eq_ok.mpr h.current, require_bind_eq_ok.mpr ⟨rfl, ?_⟩⟩
    refine bind_eq_ok.mpr ⟨watcher, ?_, require_bind_eq_ok.mpr ⟨h.permitted, rfl⟩⟩
    refine bind_eq_ok.mpr ⟨hash, ?_, Crypto.ecdsaRecover_eq_ok.mpr h.signed⟩
    rw [bytes32ToAddress_addressToBytes32]
    exact view_eq_ok.mpr h.home

/-! ### The history of un-enrollments -/

/-- An un-enrollment by a watcher: what was signed, the signature, and the Replica. -/
structure Unenrollment (Byte : Type) where
  homeDomainHash : Bytes32 Byte
  domain : UInt32
  updater : Bytes32 Byte
  signature : List Byte
  watcher : Address Byte
  replica : Address Byte

/-- The manager with the addresses that were ever given a permission and with the
un-enrollments by watchers. -/
structure History (Byte : Type) where
  manager : XAppConnectionManager Byte
  watchers : List (Address Byte)
  unenrolled : List (Unenrollment Byte)

/-- The watcher that a call gives a permission. -/
def Call.watchers : Call Byte → List (Address Byte)
  | .setWatcherPermission watcher _ true => [watcher]
  | _ => []

/-- The un-enrollment that a successful call of `unenrollReplica` is. -/
def unenrollments (K : Crypto Byte) (ctx : Context Byte) (manager : XAppConnectionManager Byte) :
    Call Byte → List (Unenrollment Byte)
  | .unenrollReplica domain updater signature =>
    let replica := manager.domainToReplica domain
    match ctx.homeDomainHash replica with
    | some hash =>
      match K.recover (failureDigest K hash domain updater) signature with
      | some watcher => [⟨hash, domain, updater, signature, watcher, replica⟩]
      | none => []
    | none => []
  | _ => []

/-- One call, with the history kept. -/
def History.exec (K : Crypto Byte) (tx : Context Byte × Call Byte) (history : History Byte) :
    Except Revert (History Byte) := do
  let manager ← call K tx history.manager
  .ok ⟨manager, history.watchers ++ tx.2.watchers,
    history.unenrolled ++ unenrollments K tx.1 history.manager tx.2⟩

/-- The manager under any calls, with its history. -/
def historySystem (K : Crypto Byte) : System (History Byte) (Context Byte × Call Byte) where
  init history := ∃ sender, history = ⟨deploy sender, [], []⟩
  step := callStep (History.exec K)

omit [DecidableEq Byte] in
theorem unenrollments_of_accepts {hash : Bytes32 Byte} {watcher : Address Byte}
    (h : Accepts K ctx manager domain updater signature hash watcher) :
    unenrollments K ctx manager (.unenrollReplica domain updater signature) =
      [⟨hash, domain, updater, signature, watcher, manager.domainToReplica domain⟩] := by
  simp only [unenrollments, h.home]
  rw [h.signed]

theorem History.exec_unenrollReplica {history : History Byte} {hash : Bytes32 Byte}
    {watcher : Address Byte}
    (h : Accepts K ctx history.manager domain updater signature hash watcher) :
    History.exec K (ctx, .unenrollReplica domain updater signature) history =
      .ok ⟨(_unenrollReplica (history.manager.domainToReplica domain) history.manager).1,
        history.watchers ++ [], history.unenrolled ++ [⟨hash, domain, updater, signature, watcher,
          history.manager.domainToReplica domain⟩]⟩ := by
  have hdone : unenrollReplica K ctx domain updater signature history.manager =
      .ok (_unenrollReplica (history.manager.domainToReplica domain) history.manager) :=
    unenrollReplica_iff.mpr ⟨⟨hash, watcher, h⟩, rfl⟩
  have hcall : call K (ctx, .unenrollReplica domain updater signature) history.manager =
      .ok (_unenrollReplica (history.manager.domainToReplica domain) history.manager).1 :=
    bind_eq_ok.mpr ⟨_, hdone, rfl⟩
  rw [History.exec, hcall, unenrollments_of_accepts h]
  rfl

/-- Every permission was given, and every un-enrollment was signed by a watcher. -/
structure History.Sound (K : Crypto Byte) (history : History Byte) : Prop where
  given : ∀ watcher domain, history.manager.watcherPermissions watcher domain = true →
    watcher ∈ history.watchers
  signed : ∀ e ∈ history.unenrolled, e.watcher ∈ history.watchers ∧
    K.recover (failureDigest K e.homeDomainHash e.domain e.updater) e.signature = some e.watcher

section Sound

variable {history history' : History Byte} {tx : Context Byte × Call Byte}

omit [DecidableEq Byte] in
/-- Un-enrollments stay signed when more permissions are given. -/
theorem History.Sound.signed_append (h : history.Sound K) (more : List (Address Byte))
    {e : Unenrollment Byte} (he : e ∈ history.unenrolled) :
    e.watcher ∈ history.watchers ++ more ∧
      K.recover (failureDigest K e.homeDomainHash e.domain e.updater) e.signature =
        some e.watcher :=
  ⟨List.mem_append_left more (h.signed e he).1, (h.signed e he).2⟩

theorem History.Sound.exec (h : history.Sound K)
    (hexec : History.exec K tx history = .ok history') :
    history'.Sound K := by
  obtain ⟨ctx, call⟩ := tx
  obtain ⟨manager, hcall, hhistory⟩ := bind_eq_ok.mp hexec
  obtain rfl := Except.ok.inj hhistory
  obtain ⟨⟨manager', events⟩, hdone, hmanager⟩ := bind_eq_ok.mp hcall
  obtain rfl := Except.ok.inj hmanager
  -- calls that leave the permissions alone and un-enroll nothing for a watcher
  have hquiet : ∀ {m : XAppConnectionManager Byte} {watchers},
      m.watcherPermissions = history.manager.watcherPermissions →
      Sound K ⟨m, history.watchers ++ watchers, history.unenrolled ++ []⟩ := by
    intro m watchers hpermissions
    refine ⟨fun watcher domain hgiven => ?_, fun e he => ?_⟩
    · exact List.mem_append_left _ (h.given watcher domain (hpermissions ▸ hgiven))
    · rw [List.append_nil] at he
      exact h.signed_append watchers he
  cases call with
  | unenrollReplica domain updater signature =>
    obtain ⟨⟨hash, watcher, haccepts⟩, hresult⟩ := unenrollReplica_iff.mp hdone
    obtain ⟨rfl, -⟩ := Prod.mk.inj hresult
    dsimp only
    rw [unenrollments_of_accepts haccepts]
    refine ⟨fun watcher domain hgiven => List.mem_append_left _ (h.given watcher domain hgiven),
      fun e he => ?_⟩
    rcases List.mem_append.mp he with hold | hnew
    · exact h.signed_append _ hold
    · obtain rfl := List.mem_singleton.mp hnew
      exact ⟨List.mem_append_left _ (h.given _ _ haccepts.permitted), haccepts.signed⟩
  | setWatcherPermission watcher domain access =>
    obtain ⟨-, hset⟩ := require_bind_eq_ok.mp hdone
    obtain ⟨rfl, -⟩ := Prod.mk.inj (Except.ok.inj hset)
    refine ⟨fun other domain' hgiven => ?_, fun e he => ?_⟩
    · dsimp only at hgiven
      rcases eq_or_ne other watcher with rfl | hother
      · rw [Function.update_self] at hgiven
        rcases eq_or_ne domain' domain with rfl | hdomain
        · -- the permission that was just given
          obtain rfl : access = true := (Function.update_self ..).symm.trans hgiven
          exact List.mem_append_right _ (List.mem_singleton_self other)
        · rw [Function.update_of_ne hdomain] at hgiven
          exact List.mem_append_left _ (h.given _ _ hgiven)
      · rw [Function.update_of_ne hother] at hgiven
        exact List.mem_append_left _ (h.given _ _ hgiven)
    · simp only [unenrollments, List.append_nil] at he
      exact h.signed_append _ he
  | setHome home =>
    obtain ⟨-, hset⟩ := require_bind_eq_ok.mp hdone
    obtain ⟨rfl, -⟩ := Prod.mk.inj (Except.ok.inj hset)
    exact hquiet rfl
  | ownerEnrollReplica replica domain =>
    obtain ⟨-, hset⟩ := require_bind_eq_ok.mp hdone
    obtain ⟨rfl, -⟩ := Prod.mk.inj (Except.ok.inj hset)
    exact hquiet rfl
  | ownerUnenrollReplica replica =>
    obtain ⟨-, hset⟩ := require_bind_eq_ok.mp hdone
    obtain ⟨rfl, -⟩ := Prod.mk.inj (Except.ok.inj hset)
    exact hquiet rfl

theorem History.sound_of_reachable (h : (historySystem K).Reachable history) : history.Sound K := by
  refine h.invariant ?_ fun s tx t _ hs hstep => ?_
  · rintro history ⟨sender, rfl⟩
    exact ⟨fun _ _ hgiven => absurd hgiven (by simp [deploy]),
      fun _ he => absurd he List.not_mem_nil⟩
  · rcases hstep with hexec | ⟨-, rfl⟩
    · exact hs.exec hexec
    · exact hs

end Sound

/-! ### Replays -/

/-- No signature recovers to two of the addresses on different digests: whoever can
sign for one of them signs each digest anew. -/
def OneDigest (K : Crypto Byte) (watchers : List (Address Byte)) : Prop :=
  ∀ signature digest digest' watcher watcher', watcher ∈ watchers → watcher' ∈ watchers →
    K.recover digest signature = some watcher → K.recover digest' signature = some watcher' →
    digest = digest'

/-- The signature of an un-enrollment would un-enroll another Replica: the Replica that
its domain has now gives the same answers, and the watcher still has the permission. -/
structure Replayable (history : History Byte) (e : Unenrollment Byte) (ctx : Context Byte)
    (domain : UInt32) (updater : Bytes32 Byte) : Prop where
  domain_eq : domain = e.domain
  updater_eq : updater = e.updater
  enrolled : history.manager.domainToReplica domain ≠ 0
  other : history.manager.domainToReplica domain ≠ e.replica
  current : ctx.updater (history.manager.domainToReplica domain) = some (bytes32ToAddress updater)
  home : ctx.homeDomainHash (history.manager.domainToReplica domain) = some e.homeDomainHash
  permitted : history.manager.watcherPermissions e.watcher domain = true

/-- A call that is no replay against another Replica. -/
def NotReplayed (history : History Byte) (tx : Context Byte × Call Byte) : Prop :=
  ∀ e ∈ history.unenrolled, ∀ domain updater,
    tx.2 = .unenrollReplica domain updater e.signature → ¬ Replayable history e tx.1 domain updater

section Replays

variable {history : History Byte} {e : Unenrollment Byte}

omit [ByteAlphabet Byte] [DecidableEq Byte] in
theorem OneDigest.mono {watchers more : List (Address Byte)} (h : OneDigest K (watchers ++ more)) :
    OneDigest K watchers :=
  fun signature digest digest' watcher watcher' hw hw' =>
    h signature digest digest' watcher watcher' (List.mem_append_left _ hw)
      (List.mem_append_left _ hw')

omit [DecidableEq Byte] in
/-- What a signature that was used before can still un-enroll. -/
theorem accepts_again (ideal : Crypto.IdealHash K) (hsound : history.Sound K)
    (hone : OneDigest K history.watchers) (he : e ∈ history.unenrolled)
    {hash : Bytes32 Byte} {watcher : Address Byte}
    (h : Accepts K ctx history.manager domain updater e.signature hash watcher) :
    hash = e.homeDomainHash ∧ domain = e.domain ∧ updater = e.updater ∧ watcher = e.watcher := by
  obtain ⟨hwatcher, hsigned⟩ := hsound.signed e he
  -- both who signed then and who is permitted now were once given a permission
  have hdigest := hone _ _ _ _ _ (hsound.given _ _ h.permitted) hwatcher h.signed hsigned
  obtain ⟨hhash, hdomain, hupdater⟩ := failureDigest_inj ideal hdigest
  refine ⟨hhash, hdomain, hupdater, ?_⟩
  have hrecover := h.signed
  rw [hdigest, hsigned] at hrecover
  exact (Option.some.inj hrecover).symm

theorem unenrollReplica_again_iff (ideal : Crypto.IdealHash K) (hsound : history.Sound K)
    (hone : OneDigest K history.watchers) (he : e ∈ history.unenrolled) :
    ((∃ result, unenrollReplica K ctx domain updater e.signature history.manager = .ok result) ∧
        history.manager.domainToReplica domain ≠ e.replica) ↔
      Replayable history e ctx domain updater := by
  constructor
  · rintro ⟨⟨result, h⟩, hother⟩
    obtain ⟨⟨hash, watcher, haccepts⟩, -⟩ := unenrollReplica_iff.mp h
    obtain ⟨rfl, hdomain, hupdater, rfl⟩ := accepts_again ideal hsound hone he haccepts
    exact ⟨hdomain, hupdater, haccepts.enrolled, hother, haccepts.current, haccepts.home,
      haccepts.permitted⟩
  · intro h
    refine ⟨⟨_, unenrollReplica_iff.mpr ⟨⟨e.homeDomainHash, e.watcher, ?_⟩, rfl⟩⟩, h.other⟩
    refine ⟨h.enrolled, h.current, h.home, ?_, h.permitted⟩
    rw [h.domain_eq, h.updater_eq]
    exact (hsound.signed e he).2

/-- The un-enrollments by one signature are of one Replica for one domain. -/
def History.OneReplica (history : History Byte) : Prop :=
  ∀ e ∈ history.unenrolled, ∀ e' ∈ history.unenrolled, e.signature = e'.signature →
    e.replica = e'.replica ∧ e.domain = e'.domain

theorem oneReplica_of_exec (ideal : Crypto.IdealHash K) {history' : History Byte}
    {tx : Context Byte × Call Byte} (hsound : history.Sound K)
    (hone : OneDigest K history.watchers) (hunique : history.OneReplica)
    (hcond : NotReplayed history tx) (hexec : History.exec K tx history = .ok history') :
    history'.OneReplica := by
  obtain ⟨ctx, call⟩ := tx
  obtain ⟨manager, hcall, hhistory⟩ := bind_eq_ok.mp hexec
  obtain rfl := Except.ok.inj hhistory
  cases call with
  | unenrollReplica domain updater signature =>
    obtain ⟨result, hcall, -⟩ := bind_eq_ok.mp hcall
    obtain ⟨⟨hash, watcher, haccepts⟩, -⟩ := unenrollReplica_iff.mp hcall
    -- the new un-enrollment against an old one with its signature
    have hnew : ∀ e ∈ history.unenrolled, e.signature = signature →
        e.replica = history.manager.domainToReplica domain ∧ e.domain = domain := by
      rintro e he rfl
      obtain ⟨-, hdomain, -⟩ := accepts_again ideal hsound hone he haccepts
      refine ⟨?_, hdomain.symm⟩
      by_contra hother
      refine hcond e he domain updater rfl ?_
      exact (unenrollReplica_again_iff ideal hsound hone he).mp
        ⟨⟨result, hcall⟩, fun heq => hother heq.symm⟩
    intro e he e' he' hsignature
    dsimp only at he he'
    rw [unenrollments_of_accepts haccepts] at he he'
    rcases List.mem_append.mp he with hold | hlast
    · rcases List.mem_append.mp he' with hold' | hlast'
      · exact hunique e hold e' hold' hsignature
      · obtain rfl := List.mem_singleton.mp hlast'
        exact hnew e hold hsignature
    · obtain rfl := List.mem_singleton.mp hlast
      rcases List.mem_append.mp he' with hold' | hlast'
      · obtain ⟨hreplica, hdomain⟩ := hnew e' hold' hsignature.symm
        exact ⟨hreplica.symm, hdomain.symm⟩
      · obtain rfl := List.mem_singleton.mp hlast'
        exact ⟨rfl, rfl⟩
  | _ => simpa [History.OneReplica, unenrollments] using hunique

/-- **Replays of a watcher's signature.** A signature that un-enrolled a Replica for a
domain is never accepted for another domain. It un-enrolls another Replica if and only
if the domain has one that gives the same answers while the watcher has the permission;
in a run without such calls a signature un-enrolls one Replica only. -/
theorem signature_replays (ideal : Crypto.IdealHash K) :
    (∀ {history : History Byte}, (historySystem K).Reachable history →
      OneDigest K history.watchers → ∀ e ∈ history.unenrolled, ∀ ctx domain updater,
      ((∃ result, unenrollReplica K ctx domain updater e.signature history.manager = .ok result) →
        domain = e.domain) ∧
      (((∃ result, unenrollReplica K ctx domain updater e.signature history.manager = .ok result) ∧
          history.manager.domainToReplica domain ≠ e.replica) ↔
        Replayable history e ctx domain updater)) ∧
    ∀ {history : History Byte}, ((historySystem K).restrict NotReplayed).Reachable history →
      OneDigest K history.watchers → history.OneReplica := by
  refine ⟨fun hreach hone e he ctx domain updater => ?_, fun hreach => ?_⟩
  · have hsound := History.sound_of_reachable hreach
    refine ⟨?_, unenrollReplica_again_iff ideal hsound hone he⟩
    rintro ⟨result, h⟩
    obtain ⟨⟨hash, watcher, haccepts⟩, -⟩ := unenrollReplica_iff.mp h
    exact (accepts_again ideal hsound hone he haccepts).2.1
  · refine hreach.invariant (P := fun h => OneDigest K h.watchers → h.OneReplica) ?_
      fun s tx t hs hunique hstep => ?_
    · rintro history ⟨sender, rfl⟩ -
      exact fun e he => absurd he List.not_mem_nil
    · obtain ⟨hstep, hcond⟩ := hstep
      rcases hstep with hexec | ⟨-, rfl⟩
      · intro hone
        have hbefore : OneDigest K s.watchers := by
          obtain ⟨manager, -, hhistory⟩ := bind_eq_ok.mp hexec
          obtain rfl := Except.ok.inj hhistory
          exact hone.mono
        exact oneReplica_of_exec ideal (History.sound_of_reachable hs.of_restrict) hbefore
          (hunique hbefore) hcond hexec
      · exact hunique

end Replays

/-! ### A Replica that is replaced after a fraud -/

section Sample

/-- What every Replica of the domain 1000 answers as its home domain hash. -/
def sampleHash : Bytes32 ℕ := _homeDomainHash (Crypto.withIdealHash fun _ _ => none) 1000

/-- What the watcher has signed: a failure of the domain 1000 with the updater zero. -/
def sampleDigest : Bytes32 ℕ :=
  failureDigest (Crypto.withIdealHash fun _ _ => none) sampleHash 1000 0

def sampleWatcher : Address ℕ := List.Vector.replicate 20 9

/-- Nothing else is signed. -/
def watcherCrypto : Crypto ℕ := Crypto.withIdealHash fun digest _ =>
  if digest = sampleDigest then some sampleWatcher else none

/-- The owner, and Replicas of the domain 1000 with the updater zero. -/
def replicaContext : Context ℕ := ⟨0, fun _ => some (bytes32ToAddress 0), fun _ => some sampleHash⟩

def oldReplica : Address ℕ := List.Vector.replicate 20 1

def newReplica : Address ℕ := List.Vector.replicate 20 2

theorem watcherCrypto_recover {digest : Bytes32 ℕ} {signature : List ℕ} {watcher : Address ℕ} :
    watcherCrypto.recover digest signature = some watcher ↔
      digest = sampleDigest ∧ watcher = sampleWatcher := by
  unfold watcherCrypto Crypto.withIdealHash
  dsimp only
  split_ifs with h
  · simp [h, eq_comm]
  · simp [h]

theorem watcherCrypto_oneDigest (watchers : List (Address ℕ)) : OneDigest watcherCrypto watchers :=
  fun _ _ _ _ _ _ _ h h' =>
    (watcherCrypto_recover.mp h).1.trans (watcherCrypto_recover.mp h').1.symm

/-- The Replica of the domain is un-enrolled by the watcher's signature. -/
theorem accepts_sample {manager : XAppConnectionManager ℕ}
    (henrolled : manager.domainToReplica 1000 ≠ 0)
    (hpermitted : manager.watcherPermissions sampleWatcher 1000 = true) :
    Accepts watcherCrypto replicaContext manager 1000 0 [] sampleHash sampleWatcher where
  enrolled := henrolled
  current := rfl
  home := rfl
  signed := watcherCrypto_recover.mpr ⟨rfl, rfl⟩
  permitted := hpermitted

/-- The watcher has its permission and the first Replica of the domain is enrolled. -/
def sampleEnrolled : History ℕ :=
  afterCall (History.exec watcherCrypto) (replicaContext, .ownerEnrollReplica oldReplica 1000)
    (afterCall (History.exec watcherCrypto)
      (replicaContext, .setWatcherPermission sampleWatcher 1000 true) ⟨deploy 0, [], []⟩)

/-- The watcher un-enrolls the Replica, by the signature `[]`. -/
def sampleUnenrolled : History ℕ :=
  ⟨(_unenrollReplica oldReplica sampleEnrolled.manager).1, sampleEnrolled.watchers ++ [],
    sampleEnrolled.unenrolled ++ [⟨sampleHash, 1000, 0, [], sampleWatcher, oldReplica⟩]⟩

/-- The owner enrolls another Replica of the domain. -/
def sampleReplaced : History ℕ :=
  afterCall (History.exec watcherCrypto) (replicaContext, .ownerEnrollReplica newReplica 1000)
    sampleUnenrolled

theorem exec_sampleUnenrolled :
    History.exec watcherCrypto (replicaContext, .unenrollReplica 1000 0 []) sampleEnrolled =
      .ok sampleUnenrolled :=
  History.exec_unenrollReplica (accepts_sample (by decide) (by decide))

theorem reachable_sampleUnenrolled :
    ((historySystem watcherCrypto).restrict NotReplayed).Reachable sampleUnenrolled := by
  have hstart : ((historySystem watcherCrypto).restrict NotReplayed).Reachable
      ⟨deploy 0, [], []⟩ := System.reachable_init ⟨0, rfl⟩
  have hgiven := hstart.step ⟨callStep_afterCall (History.exec watcherCrypto)
    (replicaContext, .setWatcherPermission sampleWatcher 1000 true) _, fun e he => nomatch he⟩
  have henrolled : ((historySystem watcherCrypto).restrict NotReplayed).Reachable sampleEnrolled :=
    hgiven.step ⟨callStep_afterCall _ _ _, fun _ _ _ _ h => nomatch h⟩
  exact henrolled.step ⟨.inl exec_sampleUnenrolled, fun e he => nomatch he⟩

/-- A Replica is un-enrolled by a watcher and another one is enrolled in its place. The
same signature then un-enrolls that one too. -/
theorem signature_replayed :
    (historySystem watcherCrypto).Reachable sampleReplaced ∧
    (∃ e ∈ sampleReplaced.unenrolled, e.signature = [] ∧ e.domain = 1000 ∧ e.replica = oldReplica) ∧
    sampleReplaced.manager.domainToReplica 1000 = newReplica ∧ newReplica ≠ oldReplica ∧
    ∃ result, unenrollReplica watcherCrypto replicaContext 1000 0 [] sampleReplaced.manager =
      .ok result := by
  have hreach : (historySystem watcherCrypto).Reachable sampleReplaced :=
    reachable_sampleUnenrolled.of_restrict.step (callStep_afterCall _ _ _)
  refine ⟨hreach, ⟨_, List.mem_singleton_self _, rfl, rfl, rfl⟩, by decide, by decide, ?_⟩
  exact ⟨_, unenrollReplica_iff.mpr ⟨⟨_, _, accepts_sample (by decide) (by decide)⟩, rfl⟩⟩

/-- A signature used once, against the Replica it was made for. -/
theorem signature_replays_used :
    (∃ e ∈ sampleUnenrolled.unenrolled, e.replica = oldReplica) ∧ sampleUnenrolled.OneReplica ∧
    ∀ ctx domain updater,
      (∃ result, unenrollReplica watcherCrypto ctx domain updater [] sampleUnenrolled.manager =
        .ok result) → domain = 1000 := by
  obtain ⟨hall, hrun⟩ := signature_replays (Crypto.withIdealHash_ideal _ : Crypto.IdealHash watcherCrypto)
  have hmem : (⟨sampleHash, 1000, 0, [], sampleWatcher, oldReplica⟩ : Unenrollment ℕ) ∈
      sampleUnenrolled.unenrolled := List.mem_singleton_self _
  refine ⟨⟨_, hmem, rfl⟩, hrun reachable_sampleUnenrolled (watcherCrypto_oneDigest _), ?_⟩
  intro ctx domain updater
  exact (hall reachable_sampleUnenrolled.of_restrict (watcherCrypto_oneDigest _) _ hmem ctx domain
    updater).1

end Sample

end Optics.XAppConnectionManager
