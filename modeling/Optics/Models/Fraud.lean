/-
# What the models take for fraud

An updater signs updates that the model of Home offers, and everybody may replay what it has
signed. The models take two different signatures for a double update, also if they are on
the same update, and take an update whose root has left the queue for an improper one, also
if it has left because the update was accepted. If neither happens, no report is accepted.
-/

import Optics.Math.Transition
import Optics.Models.Replica

namespace Optics.Models

open Optics.Solidity Optics.Accumulator Optics.Math.Transition
open Optics.Updater (SignedUpdate)

variable {Byte : Type}

/-- A Home in either state. -/
inductive AnyHome (Byte : Type)
  | waiting (home : Home Byte (Waiting Byte))
  | failed (home : Home Byte (Failed Byte))

/-- A Replica in any state. -/
inductive AnyReplica (Byte : Type)
  | waiting (replica : Replica Byte (Replica.Waiting Byte))
  | pending (replica : Replica Byte (Replica.Pending Byte))
  | failed (replica : Replica Byte Replica.Failed)

/-- Both models, the updates that the updater has signed, and those that Home has accepted. -/
structure World (Byte : Type) where
  home : AnyHome Byte
  replica : AnyReplica Byte
  signed : List (SignedUpdate Byte)
  accepted : List (SignedUpdate Byte)

namespace World

/-- A report was accepted. -/
def Failed (s : World Byte) : Prop :=
  (∃ home, s.home = .failed home) ∨ ∃ replica, s.replica = .failed replica

/-- What happens: the updater signs, or somebody calls a function of a model. -/
inductive Label (Byte : Type)
  | sign (u : SignedUpdate Byte)
  | dispatch (sender : Bytes32 Byte) (destination : UInt32) (recipient : Bytes32 Byte)
      (body : List Byte)
  | update (u : SignedUpdate Byte)
  | doubleUpdate (first second : SignedUpdate Byte)
  | improperUpdate (u : SignedUpdate Byte)
  | replicaUpdate (u : SignedUpdate Byte) (now : ℕ)
  | replicaDoubleUpdate (first second : SignedUpdate Byte)

variable [ByteAlphabet Byte] [DecidableEq Byte] (K : Crypto Byte)
  (hashMessage : List Byte → Bytes32 Byte)

/-- Signatures of an updater come from the updater. -/
def Genuine (updater : Address Byte) (s : World Byte) (u : SignedUpdate Byte) : Prop :=
  (verify K hashMessage u updater).isOk = true → u ∈ s.signed

/-- The updater signs an update of the Home from its committed root to a root of its queue,
and never two new roots for one previous root. -/
structure Honest (home : Home Byte (Waiting Byte)) (signed : List (SignedUpdate Byte))
    (u : SignedUpdate Byte) : Prop where
  homeDomain : u.update.homeDomain = home.localDomain
  previousRoot : u.update.previousRoot = home.committedRoot
  newRoot : u.update.newRoot ∈ home.state.queue
  single : ∀ v ∈ signed, v.update.previousRoot = u.update.previousRoot →
    v.update.newRoot = u.update.newRoot

/-- The Home after a report: it has failed, or it is handed back. -/
def report (answer : Except (Home Byte (Waiting Byte)) (Home Byte (Models.Failed Byte))) :
    AnyHome Byte :=
  match answer with
  | .ok home => .failed home
  | .error home => .waiting home

/-- The steps of the models. A call that is refused changes nothing and is left out, but for
the reports. -/
inductive Step (s : World Byte) : Label Byte → World Byte → Prop
  | sign {home : Home Byte (Waiting Byte)} (hhome : s.home = .waiting home) (u : SignedUpdate Byte)
      (hhonest : Honest home s.signed u) :
      Step s (.sign u) { s with signed := s.signed ++ [u] }
  | dispatch {home home' : Home Byte (Waiting Byte)} (hhome : s.home = .waiting home)
      (sender : Bytes32 Byte) (destination : UInt32) (recipient : Bytes32 Byte) (body : List Byte)
      (hdispatch : home.dispatch K sender destination recipient body = .ok home') :
      Step s (.dispatch sender destination recipient body) { s with home := .waiting home' }
  | update {home home' : Home Byte (Waiting Byte)} (hhome : s.home = .waiting home)
      (u : SignedUpdate Byte) (hgenuine : s.Genuine K hashMessage home.updater u)
      (hupdate : home.update K hashMessage u = .ok home') :
      Step s (.update u) { s with home := .waiting home', accepted := s.accepted ++ [u] }
  | doubleUpdate {home : Home Byte (Waiting Byte)} (hhome : s.home = .waiting home)
      (first second : SignedUpdate Byte) (hfirst : s.Genuine K hashMessage home.updater first)
      (hsecond : s.Genuine K hashMessage home.updater second) :
      Step s (.doubleUpdate first second)
        { s with home := report (home.doubleUpdate K hashMessage first second) }
  | improperUpdate {home : Home Byte (Waiting Byte)} (hhome : s.home = .waiting home)
      (u : SignedUpdate Byte) (hgenuine : s.Genuine K hashMessage home.updater u) :
      Step s (.improperUpdate u) { s with home := report (home.improperUpdate K hashMessage u) }
  | replicaUpdate {replica : Replica Byte (Replica.Waiting Byte)}
      {pending : Replica Byte (Replica.Pending Byte)} (hreplica : s.replica = .waiting replica)
      (u : SignedUpdate Byte) (now : ℕ)
      (hupdate : replica.update K hashMessage u now = some (.ok pending)) :
      Step s (.replicaUpdate u now) { s with replica := .pending pending }
  | waitingDoubleUpdate {replica : Replica Byte (Replica.Waiting Byte)}
      (hreplica : s.replica = .waiting replica) (first second : SignedUpdate Byte)
      (hfirst : s.Genuine K hashMessage replica.updater first)
      (hsecond : s.Genuine K hashMessage replica.updater second) :
      Step s (.replicaDoubleUpdate first second) { s with
        replica := match replica.doubleUpdate K hashMessage first second with
          | .ok replica => .failed replica
          | .error replica => .waiting replica }
  | pendingDoubleUpdate {replica : Replica Byte (Replica.Pending Byte)}
      (hreplica : s.replica = .pending replica) (first second : SignedUpdate Byte)
      (hfirst : s.Genuine K hashMessage replica.updater first)
      (hsecond : s.Genuine K hashMessage replica.updater second) :
      Step s (.replicaDoubleUpdate first second) { s with
        replica := match replica.doubleUpdate K hashMessage first second with
          | .ok replica => .failed replica
          | .error replica => .pending replica }

/-- A Home and a Replica as `init` leaves them, and nothing signed. -/
def Initial (s : World Byte) : Prop :=
  ∃ localDomain updater remoteDomain replicaDomain replicaUpdater wait,
    s = ⟨.waiting (Home.init K localDomain updater),
      .waiting (Replica.init remoteDomain replicaDomain replicaUpdater wait), [], []⟩

/-- The models and their updater. -/
def system : System (World Byte) (Label Byte) where
  init := Initial K
  step := Step K hashMessage

/-- The updater signs no update again with another signature, and nobody reports an update
as improper that Home has accepted. -/
def Fair (s : World Byte) : Label Byte → Prop
  | .sign u => ∀ v ∈ s.signed, v.update = u.update → v = u
  | .improperUpdate u => u ∉ s.accepted
  | _ => True

/-- The invariant behind it: only one update is ever signed, and as long as Home has not
accepted it, its root is in the queue. -/
structure Sound (s : World Byte) : Prop where
  home : ∃ home, s.home = .waiting home ∧ home.committedRoot = 0 ∧
    (∀ u ∈ s.signed, u.update.homeDomain = home.localDomain ∧ u.update.previousRoot = 0) ∧
    ∀ u ∈ s.signed, u ∉ s.accepted → u.update.newRoot ∈ home.state.queue
  replica : ∀ replica, s.replica ≠ .failed replica
  single : ∀ u ∈ s.signed, ∀ v ∈ s.signed, u = v

variable {K hashMessage} {s t : World Byte} {label : Label Byte}

omit [DecidableEq Byte] in
theorem Sound.not_failed (h : s.Sound) : ¬ s.Failed := by
  rintro (⟨home, hfailed⟩ | ⟨replica, hfailed⟩)
  · obtain ⟨home', hwaiting, -⟩ := h.home
    cases hwaiting.symm.trans hfailed
  · exact h.replica replica hfailed

omit [DecidableEq Byte] in
theorem sound_of_initial (h : s.Initial K) : s.Sound := by
  obtain ⟨localDomain, updater, remoteDomain, replicaDomain, replicaUpdater, wait, rfl⟩ := h
  exact ⟨⟨_, rfl, rfl, by simp, by simp⟩, by simp, by simp⟩

/-- Two signed updates are no double update if only one was signed. -/
theorem Sound.eq_of_genuine (h : s.Sound) {updater : Address Byte} {u v : SignedUpdate Byte}
    (hu : s.Genuine K hashMessage updater u) (hv : s.Genuine K hashMessage updater v)
    (hverified : (verify K hashMessage u updater).isOk = true)
    (hverified' : (verify K hashMessage v updater).isOk = true) : u = v :=
  h.single u (hu hverified) v (hv hverified')

omit [DecidableEq Byte] in
theorem Sound.sign (h : s.Sound) {home : Home Byte (Waiting Byte)} (hhome : s.home = .waiting home)
    {u : SignedUpdate Byte} (hhonest : Honest home s.signed u)
    (hfair : ∀ v ∈ s.signed, v.update = u.update → v = u) :
    Sound { s with signed := s.signed ++ [u] } := by
  obtain ⟨home', hwaiting, hcommitted, hsigned, hqueued⟩ := h.home
  obtain rfl := AnyHome.waiting.inj (hhome.symm.trans hwaiting)
  have hprevious : u.update.previousRoot = 0 := hhonest.previousRoot.trans hcommitted
  -- The committed root never moves, so whatever was signed before is this update.
  have hold : ∀ v ∈ s.signed, v = u := by
    intro v hv
    obtain ⟨hdomain, hzero⟩ := hsigned v hv
    refine hfair v hv ?_
    have hnew := hhonest.single v hv (hzero.trans hprevious.symm)
    obtain ⟨⟨vd, vp, vn⟩, vs⟩ := v
    obtain ⟨⟨ud, up, un⟩, us⟩ := u
    rw [Updater.Update.mk.injEq]
    exact ⟨hdomain.trans hhonest.homeDomain.symm, hzero.trans hprevious.symm, hnew⟩
  refine ⟨⟨home, hhome, hcommitted, ?_, ?_⟩, h.replica, ?_⟩
  · intro v hv
    rcases List.mem_append.mp hv with hmem | hmem
    · exact hsigned v hmem
    · rw [List.mem_singleton.mp hmem]
      exact ⟨hhonest.homeDomain, hprevious⟩
  -- it was in the queue when it was signed, which is now
  · intro v hv haccepted
    rcases List.mem_append.mp hv with hmem | hmem
    · exact hqueued v hmem haccepted
    · rw [List.mem_singleton.mp hmem]
      exact hhonest.newRoot
  · have hall : ∀ v ∈ s.signed ++ [u], v = u := by
      intro v hv
      rcases List.mem_append.mp hv with hmem | hmem
      · exact hold v hmem
      · exact List.mem_singleton.mp hmem
    exact fun v hv w hw => (hall v hv).trans (hall w hw).symm

/-- A double update among what was signed is handed back by the Home, -/
theorem Sound.report_doubleUpdate (h : s.Sound) {home : Home Byte (Waiting Byte)}
    {first second : SignedUpdate Byte} (hfirst : s.Genuine K hashMessage home.updater first)
    (hsecond : s.Genuine K hashMessage home.updater second) :
    report (home.doubleUpdate K hashMessage first second) = .waiting home := by
  cases hanswer : home.doubleUpdate K hashMessage first second with
  | ok failed =>
    obtain ⟨hne, hsig, hsig', -⟩ := Home.doubleUpdate_eq_ok.mp hanswer
    exact absurd (h.eq_of_genuine hfirst hsecond hsig hsig') hne
  | error home' => exact congrArg AnyHome.waiting (Home.doubleUpdate_eq_error hanswer)

/-- and by the Replica, in whatever state it is. -/
theorem Sound.replica_doubleUpdate (h : s.Sound) {S : Type} {replica : Replica Byte S}
    {first second : SignedUpdate Byte} (hfirst : s.Genuine K hashMessage replica.updater first)
    (hsecond : s.Genuine K hashMessage replica.updater second) :
    ∃ replica', replica.doubleUpdate K hashMessage first second = .error replica' := by
  cases hanswer : replica.doubleUpdate K hashMessage first second with
  | ok failed =>
    obtain ⟨hne, hsig, hsig'⟩ := Replica.doubleUpdate_eq_ok hanswer
    exact absurd (h.eq_of_genuine hfirst hsecond hsig hsig') hne
  | error replica' => exact ⟨replica', rfl⟩

theorem Sound.step (h : s.Sound) (hstep : Step K hashMessage s label t) (hfair : s.Fair label) :
    t.Sound := by
  obtain ⟨home₀, hwaiting, hcommitted, hsigned, hqueued⟩ := h.home
  cases hstep with
  | sign hhome u hhonest => exact h.sign hhome hhonest hfair
  | @dispatch home _ hhome sender destination recipient body hdispatch =>
    obtain rfl := AnyHome.waiting.inj (hwaiting.symm.trans hhome)
    obtain ⟨accumulator, -, rfl⟩ := Home.dispatch_eq_ok hdispatch
    -- the queue only grows
    refine ⟨⟨_, rfl, hcommitted, hsigned, fun u hu haccepted => ?_⟩, h.replica, h.single⟩
    exact List.mem_append_left _ (hqueued u hu haccepted)
  | @update home _ hhome u hgenuine hupdate =>
    obtain rfl := AnyHome.waiting.inj (hwaiting.symm.trans hhome)
    obtain ⟨hsig, hupdated⟩ := Home.update_eq_ok hupdate
    obtain ⟨-, -, queue, -, rfl⟩ := Home._update_eq_ok hupdated
    refine ⟨⟨_, rfl, hcommitted, hsigned, fun v hv haccepted => ?_⟩, h.replica, h.single⟩
    -- The queue loses roots here, but nothing signed is still to be accepted.
    have hself := h.single v hv u (hgenuine hsig)
    exact absurd (List.mem_append_right _ (hself ▸ List.mem_singleton_self u)) haccepted
  | @doubleUpdate home hhome first second hfirst hsecond =>
    obtain rfl := AnyHome.waiting.inj (hwaiting.symm.trans hhome)
    refine ⟨⟨home₀, ?_, hcommitted, hsigned, hqueued⟩, h.replica, h.single⟩
    exact h.report_doubleUpdate hfirst hsecond
  | @improperUpdate home hhome u hgenuine =>
    obtain rfl := AnyHome.waiting.inj (hwaiting.symm.trans hhome)
    refine ⟨⟨home₀, ?_, hcommitted, hsigned, hqueued⟩, h.replica, h.single⟩
    change report (home₀.improperUpdate K hashMessage u) = _
    cases hanswer : home₀.improperUpdate K hashMessage u with
    | ok failed =>
      obtain ⟨hsig, hmissing, -⟩ := Home.improperUpdate_eq_ok.mp hanswer
      -- the signature is the updater's, and the update was not accepted before
      exact absurd (hqueued u (hgenuine hsig) hfair) hmissing
    | error home' => exact congrArg AnyHome.waiting (Home.improperUpdate_eq_error hanswer)
  | replicaUpdate hreplica u now hupdate =>
    exact ⟨⟨home₀, hwaiting, hcommitted, hsigned, hqueued⟩, fun _ => nofun, h.single⟩
  | @waitingDoubleUpdate replica hreplica first second hfirst hsecond =>
    refine ⟨⟨home₀, hwaiting, hcommitted, hsigned, hqueued⟩, fun failed hfailed => ?_, h.single⟩
    obtain ⟨replica', hanswer⟩ := h.replica_doubleUpdate hfirst hsecond
    simp [hanswer] at hfailed
  | @pendingDoubleUpdate replica hreplica first second hfirst hsecond =>
    refine ⟨⟨home₀, hwaiting, hcommitted, hsigned, hqueued⟩, fun failed hfailed => ?_, h.single⟩
    obtain ⟨replica', hanswer⟩ := h.replica_doubleUpdate hfirst hsecond
    simp [hanswer] at hfailed

theorem sound_of_reachable (h : ((system K hashMessage).restrict Fair).Reachable s) : s.Sound :=
  h.invariant (fun _ => sound_of_initial) fun _ _ _ _ hsound hstep => hsound.step hstep.1 hstep.2

/-- **Only real fraud.** As long as the updater signs no update twice and no accepted update
is reported as improper, no call makes a model fail. -/
theorem only_real_fraud (h : ((system K hashMessage).restrict Fair).Reachable s) : ¬ s.Failed :=
  (sound_of_reachable h).not_failed

/-! ### An update that is accepted and then reported -/

section Samples

def sampleCrypto : Crypto ℕ := Crypto.withIdealHash fun _ _ => some 0

def sampleReplica : AnyReplica ℕ := .waiting (Replica.init 1000 2000 0 0)

/-- A Home with one message, whose root the updater has signed. -/
theorem exists_signed : ∃ (home : Home ℕ (Waiting ℕ)) (u : SignedUpdate ℕ),
    home.updater = 0 ∧ u.update.previousRoot = home.committedRoot ∧
      home.state.queue = [u.update.newRoot] ∧
      ((system sampleCrypto Digests.sampleHashMessage).restrict Fair).Reachable
        ⟨.waiting home, sampleReplica, [u], []⟩ := by
  let start : Home ℕ (Waiting ℕ) := .init sampleCrypto 1000 0
  -- only the root of the tree matters, whatever it is
  obtain ⟨accumulator, hingest, -⟩ := (IncrementalMerkle.holds_default (K := sampleCrypto)).ingest
    (start.messageHash sampleCrypto 0 2000 0 []) (by decide)
  let root := accumulator.root sampleCrypto
  let home : Home ℕ (Waiting ℕ) := { start with state := ⟨[root], accumulator⟩ }
  have hdispatch : start.dispatch sampleCrypto 0 2000 0 [] = .ok home :=
    Home.dispatch_of_ingest hingest
  refine ⟨home, ⟨⟨1000, 0, root⟩, []⟩, rfl, rfl, rfl, ?_⟩
  have hinit : ((system sampleCrypto Digests.sampleHashMessage).restrict Fair).Reachable
      ⟨.waiting start, sampleReplica, [], []⟩ :=
    System.reachable_init ⟨1000, 0, 1000, 2000, 0, 0, rfl⟩
  have hdispatched := hinit.step ⟨Step.dispatch rfl 0 2000 0 [] hdispatch, trivial⟩
  refine hdispatched.step ⟨Step.sign rfl _ ⟨rfl, rfl, List.mem_singleton_self _, ?_⟩, ?_⟩
  · exact fun v hv => absurd hv List.not_mem_nil
  · exact fun v hv => absurd hv List.not_mem_nil

theorem only_real_fraud_sample : ∃ s : World ℕ, s.signed ≠ [] ∧
    ((system sampleCrypto Digests.sampleHashMessage).restrict Fair).Reachable s ∧ ¬ s.Failed := by
  obtain ⟨home, u, -, -, -, hreach⟩ := exists_signed
  exact ⟨_, List.cons_ne_nil _ _, hreach, only_real_fraud hreach⟩

/-- The updater signs one update of the queue, the Home accepts it, and the same update
makes the Home fail. -/
theorem replayed_update_fails :
    ¬ ∀ s : World ℕ, (system sampleCrypto Digests.sampleHashMessage).Reachable s → ¬ s.Failed := by
  intro hall
  obtain ⟨home, u, hupdater, hprevious, hqueue, hreach⟩ := exists_signed
  have hsig : (home.checkSig sampleCrypto Digests.sampleHashMessage u).isOk = true := by
    rw [Home.checkSig, hupdater]
    rfl
  obtain ⟨home', hupdate⟩ := Home.exists_update hsig hprevious (hqueue ▸ List.mem_singleton_self _)
  have hnodup : home.state.queue.Nodup := hqueue ▸ List.nodup_singleton _
  have hupdated := hreach.of_restrict.step
    (Step.update rfl u (fun _ => List.mem_singleton_self u) hupdate)
  have hreported := hupdated.step
    (Step.improperUpdate rfl u fun _ => List.mem_singleton_self u)
  refine hall _ hreported (.inl ⟨home'.fail, ?_⟩)
  exact congrArg report (Home.improperUpdate_of_update hupdate hnodup)

end Samples

end World

end Optics.Models
