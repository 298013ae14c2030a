/-
# Signing digests of the agents and of the contracts

The agents sign updates and failure notifications, and the contracts check them. Both
sides hash the same concatenation of fields of fixed width, wrap the hash for Ethereum
and sign the result. The preimages all begin with the hash of the home domain; those of
updates go on with two words, those of failure notifications with four bytes and one
word, so that an update is never taken for a failure notification.
-/

import Optics.Agents.Updater
import Optics.Core.Home
import Optics.Core.Replica
import Optics.Core.WatcherSignatures

namespace Optics.Digests

open Optics.Solidity Optics.Common
open Optics.Updater (Update)

variable {Byte : Type}

/-- `FailureNotification`. -/
structure FailureNotification (Byte : Type) where
  homeDomain : UInt32
  updater : Bytes32 Byte

/-- `SignedFailureNotification`. -/
structure SignedFailureNotification (Byte : Type) where
  notification : FailureNotification Byte
  signature : List Byte

variable [ByteAlphabet Byte] (K : Crypto Byte) (hashMessage : List Byte → Bytes32 Byte)
  (sign : Bytes32 Byte → List Byte)

/-! ### The agents -/

/-- `home_domain_hash`. -/
def homeDomainHash (homeDomain : UInt32) : Bytes32 Byte :=
  K.keccak256 (uint32Bytes homeDomain ++ opticsBytes)

/-- `Update::signing_hash`. -/
def updateSigningHash (u : Update Byte) : Bytes32 Byte :=
  K.keccak256 ((homeDomainHash K u.homeDomain).toList ++ u.previousRoot.toList ++ u.newRoot.toList)

/-- `Update::prepended_hash`. -/
def updatePrependedHash (u : Update Byte) : Bytes32 Byte :=
  hashMessage (updateSigningHash K u).toList

/-- `FailureNotification::signing_hash`. -/
def failureSigningHash (n : FailureNotification Byte) : Bytes32 Byte :=
  K.keccak256 ((homeDomainHash K n.homeDomain).toList ++ uint32Bytes n.homeDomain ++ n.updater.toList)

/-- `FailureNotification::prepended_hash`. -/
def failurePrependedHash (n : FailureNotification Byte) : Bytes32 Byte :=
  hashMessage (failureSigningHash K n).toList

/-- `sign_message` of a signer that makes the signature `sign digest` on a digest. -/
def signMessage (message : List Byte) : List Byte := sign (hashMessage message)

/-- `Update::sign_with`. -/
def signUpdateWith (u : Update Byte) : Updater.SignedUpdate Byte :=
  ⟨u, signMessage hashMessage sign (updateSigningHash K u).toList⟩

/-- `FailureNotification::sign_with`. -/
def signFailureWith (n : FailureNotification Byte) : SignedFailureNotification Byte :=
  ⟨n, signMessage hashMessage sign (failureSigningHash K n).toList⟩

/-- `hash_message` wraps a hash of 32 bytes as `toEthSignedMessageHash` does. -/
def WrapsHashes : Prop := ∀ hash : Bytes32 Byte,
  hashMessage hash.toList = K.toEthSignedMessageHash hash

/-! ### Agreement -/

section Agreement

variable {K hashMessage}

theorem updatePrependedHash_eq (hwraps : WrapsHashes K hashMessage) (u : Update Byte) :
    updatePrependedHash K hashMessage u = updateDigest K u.homeDomain u.previousRoot u.newRoot :=
  hwraps _

theorem failurePrependedHash_eq (hwraps : WrapsHashes K hashMessage)
    (n : FailureNotification Byte) :
    failurePrependedHash K hashMessage n =
      XAppConnectionManager.failureDigest K (homeDomainHash K n.homeDomain) n.homeDomain n.updater :=
  hwraps _

/-- A Replica of the notification's domain makes the manager recover from the digest
that the agent signs. -/
theorem _recoverWatcherFromSig_eq (hwraps : WrapsHashes K hashMessage)
    (n : FailureNotification Byte)
    {ctx : XAppConnectionManager.Context Byte} {address : Address Byte}
    (hanswer : ctx.homeDomainHash address = some (homeDomainHash K n.homeDomain))
    (signature : List Byte) :
    XAppConnectionManager._recoverWatcherFromSig K ctx n.homeDomain (addressToBytes32 address)
      n.updater signature = K.ecdsaRecover (failurePrependedHash K hashMessage n) signature := by
  rw [XAppConnectionManager._recoverWatcherFromSig, bytes32ToAddress_addressToBytes32, hanswer,
    failurePrependedHash_eq hwraps]
  rfl

end Agreement

/-! ### Separation -/

section Separation

variable {K hashMessage}

theorem homeDomainHash_injective (ideal : Crypto.IdealHash K) :
    Function.Injective (homeDomainHash K) := fun _ _ h =>
  uint32Bytes_injective (List.append_cancel_right (ideal.injective h))

theorem updateSigningHash_injective (ideal : Crypto.IdealHash K) :
    Function.Injective (updateSigningHash K) := by
  intro u v h
  have hpreimage := ideal.injective h
  rw [List.append_assoc, List.append_assoc] at hpreimage
  -- a hash and two words, taken off from the front
  obtain ⟨hdomain, hroots⟩ := toList_append_inj hpreimage
  obtain ⟨hprevious, hnew⟩ := toList_append_inj hroots
  obtain ⟨domain, previousRoot, newRoot⟩ := u
  obtain ⟨domain', previousRoot', newRoot'⟩ := v
  obtain rfl := homeDomainHash_injective ideal hdomain
  obtain rfl : previousRoot = previousRoot' := hprevious
  obtain rfl : newRoot = newRoot' := List.Vector.eq _ _ hnew
  rfl

theorem failureSigningHash_injective (ideal : Crypto.IdealHash K) :
    Function.Injective (failureSigningHash K) := by
  intro n m h
  have hpreimage := ideal.injective h
  rw [List.append_assoc, List.append_assoc] at hpreimage
  -- the hash of the domain says no more than the four bytes after it
  obtain ⟨-, hrest⟩ := toList_append_inj hpreimage
  obtain ⟨hdomain, hupdater⟩ := List.append_inj hrest (by simp)
  obtain ⟨domain, updater⟩ := n
  obtain ⟨domain', updater'⟩ := m
  obtain rfl := uint32Bytes_injective hdomain
  obtain rfl : updater = updater' := List.Vector.eq _ _ hupdater
  rfl

/-- The preimages are 96 bytes long and 68 bytes long. -/
theorem updateSigningHash_ne (ideal : Crypto.IdealHash K) (u : Update Byte)
    (n : FailureNotification Byte) : updateSigningHash K u ≠ failureSigningHash K n := by
  intro h
  have hlength := congrArg List.length (ideal.injective h)
  simp at hlength

theorem hashMessage_injective (ideal : Crypto.IdealHash K) (hwraps : WrapsHashes K hashMessage)
    {a b : Bytes32 Byte} (h : hashMessage a.toList = hashMessage b.toList) : a = b := by
  rw [hwraps, hwraps] at h
  exact ideal.toEthSignedMessageHash_injective h

end Separation

/-- **Digests.** Home and Replica check an update on the digest that the agent signs,
and the manager recovers a watcher from the digest of a failure notification. No two
updates and no two notifications have the same digest, and no update has that of a
notification. -/
theorem digests_agree [DecidableEq Byte] (ideal : Crypto.IdealHash K)
    (hwraps : WrapsHashes K hashMessage) :
    (∀ (u : Update Byte) (home : Home Byte) signature, home.localDomain = u.homeDomain →
      _isUpdaterSignature K home.localDomain home.updater u.previousRoot u.newRoot signature =
        (do let signer ← K.ecdsaRecover (updatePrependedHash K hashMessage u) signature
            .ok (signer = home.updater))) ∧
    (∀ (u : Update Byte) (replica : Replica Byte) signature,
      replica.remoteDomain = u.homeDomain →
      _isUpdaterSignature K replica.remoteDomain replica.updater u.previousRoot u.newRoot
          signature =
        (do let signer ← K.ecdsaRecover (updatePrependedHash K hashMessage u) signature
            .ok (signer = replica.updater))) ∧
    (∀ (n : FailureNotification Byte) (replica : Replica Byte) ctx address signature,
      replica.remoteDomain = n.homeDomain →
      ctx.homeDomainHash address = some (replica.homeDomainHash K) →
      XAppConnectionManager._recoverWatcherFromSig K ctx n.homeDomain (addressToBytes32 address)
        n.updater signature = K.ecdsaRecover (failurePrependedHash K hashMessage n) signature) ∧
    (∀ u : Update Byte, (signUpdateWith K hashMessage sign u).signature =
      sign (updatePrependedHash K hashMessage u)) ∧
    (∀ n : FailureNotification Byte, (signFailureWith K hashMessage sign n).signature =
      sign (failurePrependedHash K hashMessage n)) ∧
    Function.Injective (updatePrependedHash K hashMessage) ∧
    Function.Injective (failurePrependedHash K hashMessage) ∧
    ∀ u n, updatePrependedHash K hashMessage u ≠ failurePrependedHash K hashMessage n := by
  refine ⟨?_, ?_, ?_, fun _ => rfl, fun _ => rfl, ?_, ?_, ?_⟩
  · intro u home signature hdomain
    rw [updatePrependedHash_eq hwraps, hdomain]
    rfl
  · intro u replica signature hdomain
    rw [updatePrependedHash_eq hwraps, hdomain]
    rfl
  · intro n replica ctx address signature hdomain hanswer
    -- the Replica hashes its remote domain, as the agent does the home domain
    have hhash : replica.homeDomainHash K = homeDomainHash K n.homeDomain :=
      congrArg (homeDomainHash K) hdomain
    exact _recoverWatcherFromSig_eq hwraps n (hhash ▸ hanswer) signature
  · exact fun _ _ h => updateSigningHash_injective ideal (hashMessage_injective ideal hwraps h)
  · exact fun _ _ h => failureSigningHash_injective ideal (hashMessage_injective ideal hwraps h)
  · exact fun u n h => updateSigningHash_ne ideal u n (hashMessage_injective ideal hwraps h)

/-! ### A wrapper -/

section Sample

def sampleCrypto : Crypto ℕ := Crypto.withIdealHash fun _ _ => none

/-- The wrapper for messages of any length: the number of bytes stands in the prefix in
decimal digits. -/
def sampleHashMessage (message : List ℕ) : Bytes32 ℕ :=
  sampleCrypto.keccak256 (Crypto.ethSignedMessagePrefix.take 26 ++
    (Nat.toDigits 10 message.length).map Char.toNat ++ message)

theorem sampleHashMessage_wraps : WrapsHashes sampleCrypto sampleHashMessage := by
  intro hash
  -- a hash has 32 bytes, and `32` is what the contracts' prefix ends with
  rw [sampleHashMessage, List.Vector.toList_length]
  rfl

/-- An update from the zero root to itself and the notification of a failure, of one
domain and with the same zero bytes, on the Home of that domain. -/
theorem digests_agree_zero :
    updatePrependedHash sampleCrypto sampleHashMessage ⟨1000, 0, 0⟩ ≠
      failurePrependedHash sampleCrypto sampleHashMessage ⟨1000, 0⟩ ∧
    _isUpdaterSignature sampleCrypto (Home.fresh 1000 : Home ℕ).localDomain 0 0 0 [] =
      (do let signer ← sampleCrypto.ecdsaRecover
            (updatePrependedHash sampleCrypto sampleHashMessage ⟨1000, 0, 0⟩) []
          .ok (signer = 0)) := by
  obtain ⟨hhome, -, -, -, -, -, -, hne⟩ := digests_agree sampleCrypto sampleHashMessage
    (fun digest => digest.toList) (Crypto.withIdealHash_ideal _) sampleHashMessage_wraps
  exact ⟨hne _ _, hhome ⟨1000, 0, 0⟩ (Home.fresh 1000) [] rfl⟩

end Sample

end Optics.Digests
