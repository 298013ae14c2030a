/-
# The bridge token

A bridge token is an ERC20 ledger whose owner can mint and burn. The ledger is
the vendored one of the repository: sums are checked by `SafeMath`, and a transfer
moves exactly the amount or reverts. Every token of a chain is modelled by it,
bridge tokens as well as the tokens that originate there.
-/

import Optics.Math.Escrow
import Optics.Solidity.Basic

namespace Optics

open Optics.Solidity Optics.Math

variable {Byte : Type}

/-- The number of values of a `uint256`. -/
def UINT256 : ℕ := 2 ^ 256

namespace SafeMath

/-- `add`. -/
def add (a b : ℕ) : Except Revert ℕ := do
  require (a + b < UINT256) "SafeMath: addition overflow"
  .ok (a + b)

/-- `sub` with the text of its revert. -/
def sub (a b : ℕ) (reason : String) : Except Revert ℕ := do
  require (b ≤ a) reason
  .ok (a - b)

variable {β : Type} {a b : ℕ} {f : ℕ → Except Revert β} {c : β}

@[simp] theorem add_bind_eq_ok :
    (add a b >>= f) = .ok c ↔ a + b < UINT256 ∧ f (a + b) = .ok c := by
  unfold add require
  split_ifs with h <;> simp [h]

@[simp] theorem sub_bind_eq_ok {reason : String} :
    (sub a b reason >>= f) = .ok c ↔ b ≤ a ∧ f (a - b) = .ok c := by
  unfold sub require
  split_ifs with h
  · simp [h]
  · simp only [error_bind, h, false_and, reduceCtorEq]

end SafeMath

/-- The struct `Token` of the ledger: what is displayed of a token. -/
structure Token (Byte : Type) where
  name : List Byte
  symbol : List Byte
  decimals : UInt8

/-- The storage of a token. -/
structure BridgeToken (Byte : Type) where
  owner : Address Byte
  balances : Address Byte → ℕ
  allowances : Address Byte → Address Byte → ℕ
  supply : ℕ
  token : Token Byte

namespace BridgeToken

/-- `initialize`: the caller owns a token of which there is none yet. -/
def init (sender : Address Byte) : BridgeToken Byte where
  owner := sender
  balances := fun _ => 0
  allowances := fun _ _ => 0
  supply := 0
  token := ⟨[], [], 0⟩

/-- The functions that change the storage. -/
inductive Call (Byte : Type)
  | transfer (recipient : Address Byte) (amount : ℕ)
  | approve (spender : Address Byte) (amount : ℕ)
  | transferFrom (sender recipient : Address Byte) (amount : ℕ)
  | increaseAllowance (spender : Address Byte) (addedValue : ℕ)
  | decreaseAllowance (spender : Address Byte) (subtractedValue : ℕ)
  | burn (holder : Address Byte) (amnt : ℕ)
  | mint (holder : Address Byte) (amnt : ℕ)
  | setDetails (newName newSymbol : List Byte) (newDecimals : UInt8)
  | transferOwnership (newOwner : Address Byte)

variable [ByteAlphabet Byte] [DecidableEq Byte]

/-! ### The ledger -/

/-- `_transfer`. -/
def _transfer (_sender _recipient : Address Byte) (amount : ℕ) (t : BridgeToken Byte) :
    Except Revert (BridgeToken Byte) := do
  require (_sender ≠ 0) "ERC20: transfer from the zero address"
  require (_recipient ≠ 0) "ERC20: transfer to the zero address"
  let paid ← SafeMath.sub (t.balances _sender) amount "ERC20: transfer amount exceeds balance"
  let balances := Function.update t.balances _sender paid
  let received ← SafeMath.add (balances _recipient) amount
  .ok { t with balances := Function.update balances _recipient received }

/-- `_mint`. -/
def _mint (_account : Address Byte) (_amount : ℕ) (t : BridgeToken Byte) :
    Except Revert (BridgeToken Byte) := do
  require (_account ≠ 0) "ERC20: mint to the zero address"
  let supply ← SafeMath.add t.supply _amount
  let received ← SafeMath.add (t.balances _account) _amount
  .ok { t with supply := supply, balances := Function.update t.balances _account received }

/-- `_burn`. -/
def _burn (_account : Address Byte) (_amount : ℕ) (t : BridgeToken Byte) :
    Except Revert (BridgeToken Byte) := do
  require (_account ≠ 0) "ERC20: burn from the zero address"
  let paid ← SafeMath.sub (t.balances _account) _amount "ERC20: burn amount exceeds balance"
  let supply ← SafeMath.sub t.supply _amount "SafeMath: subtraction overflow"
  .ok { t with balances := Function.update t.balances _account paid, supply := supply }

/-- `_approve`. -/
def _approve (_owner _spender : Address Byte) (_amount : ℕ) (t : BridgeToken Byte) :
    Except Revert (BridgeToken Byte) := do
  require (_owner ≠ 0) "ERC20: approve from the zero address"
  require (_spender ≠ 0) "ERC20: approve to the zero address"
  let allowances := Function.update (t.allowances _owner) _spender _amount
  .ok { t with allowances := Function.update t.allowances _owner allowances }

/-! ### The functions of a token -/

variable (msgSender : Address Byte)

/-- `transfer`. -/
def transfer (_recipient : Address Byte) (_amount : ℕ) (t : BridgeToken Byte) :
    Except Revert (BridgeToken Byte) := _transfer msgSender _recipient _amount t

/-- `approve`. -/
def approve (_spender : Address Byte) (_amount : ℕ) (t : BridgeToken Byte) :
    Except Revert (BridgeToken Byte) := _approve msgSender _spender _amount t

/-- `transferFrom`. -/
def transferFrom (_sender _recipient : Address Byte) (_amount : ℕ) (t : BridgeToken Byte) :
    Except Revert (BridgeToken Byte) := do
  let t ← _transfer _sender _recipient _amount t
  let left ← SafeMath.sub (t.allowances _sender msgSender) _amount
    "ERC20: transfer amount exceeds allowance"
  _approve _sender msgSender left t

/-- `increaseAllowance`. -/
def increaseAllowance (_spender : Address Byte) (_addedValue : ℕ) (t : BridgeToken Byte) :
    Except Revert (BridgeToken Byte) := do
  let allowed ← SafeMath.add (t.allowances msgSender _spender) _addedValue
  _approve msgSender _spender allowed t

/-- `decreaseAllowance`. -/
def decreaseAllowance (_spender : Address Byte) (_subtractedValue : ℕ) (t : BridgeToken Byte) :
    Except Revert (BridgeToken Byte) := do
  let allowed ← SafeMath.sub (t.allowances msgSender _spender) _subtractedValue
    "ERC20: decreased allowance below zero"
  _approve msgSender _spender allowed t

/-- `modifier onlyOwner`. -/
def onlyOwner (t : BridgeToken Byte) : Except Revert Unit :=
  require (msgSender = t.owner) "Ownable: caller is not the owner"

/-- `burn`. -/
def burn (_from : Address Byte) (_amnt : ℕ) (t : BridgeToken Byte) :
    Except Revert (BridgeToken Byte) := do
  onlyOwner msgSender t
  _burn _from _amnt t

/-- `mint`. -/
def mint (_to : Address Byte) (_amnt : ℕ) (t : BridgeToken Byte) :
    Except Revert (BridgeToken Byte) := do
  onlyOwner msgSender t
  _mint _to _amnt t

/-- `setDetails`. -/
def setDetails (_newName _newSymbol : List Byte) (_newDecimals : UInt8) (t : BridgeToken Byte) :
    Except Revert (BridgeToken Byte) := do
  onlyOwner msgSender t
  .ok { t with token := ⟨_newName, _newSymbol, _newDecimals⟩ }

/-- `transferOwnership`. -/
def transferOwnership (newOwner : Address Byte) (t : BridgeToken Byte) :
    Except Revert (BridgeToken Byte) := do
  onlyOwner msgSender t
  require (newOwner ≠ 0) "Ownable: new owner is the zero address"
  .ok { t with owner := newOwner }

/-- One call. -/
def exec : Call Byte → BridgeToken Byte → Except Revert (BridgeToken Byte)
  | .transfer recipient amount => transfer msgSender recipient amount
  | .approve spender amount => approve msgSender spender amount
  | .transferFrom sender recipient amount => transferFrom msgSender sender recipient amount
  | .increaseAllowance spender addedValue => increaseAllowance msgSender spender addedValue
  | .decreaseAllowance spender subtractedValue =>
    decreaseAllowance msgSender spender subtractedValue
  | .burn holder amnt => burn msgSender holder amnt
  | .mint holder amnt => mint msgSender holder amnt
  | .setDetails newName newSymbol newDecimals => setDetails msgSender newName newSymbol newDecimals
  | .transferOwnership newOwner => transferOwnership msgSender newOwner

/-! ### What a call can change -/

variable {t t' : BridgeToken Byte} {sender recipient account x : Address Byte} {n : ℕ}

section Effects

omit [ByteAlphabet Byte]

/-- The balances add up to at most the supply, which is a `uint256`. -/
structure Solvent (t : BridgeToken Byte) : Prop where
  covered : Covered (fun _ => True) t.balances 0 t.supply
  supply_lt : t.supply < UINT256

omit [DecidableEq Byte] in
theorem Solvent.balance_le (h : t.Solvent) (x : Address Byte) : t.balances x ≤ t.supply :=
  h.covered.held_le trivial

omit [DecidableEq Byte] in
theorem solvent_init (sender : Address Byte) (details : Token Byte) :
    Solvent { init sender with token := details } :=
  ⟨Covered.of_forall_eq_zero fun _ _ => rfl, Nat.two_pow_pos 256⟩

/-- What a transfer of `n` from `sender` to `recipient` does. -/
structure Transferred (sender recipient : Address Byte) (n : ℕ) (t t' : BridgeToken Byte) :
    Prop where
  owner_eq : t'.owner = t.owner
  supply_eq : t'.supply = t.supply
  allowances_eq : t'.allowances = t.allowances
  le_balance : n ≤ t.balances sender
  balances_eq : t'.balances =
    Function.update (Function.update t.balances sender (t.balances sender - n)) recipient
      (Function.update t.balances sender (t.balances sender - n) recipient + n)

namespace Transferred

/-- Nobody but the sender loses anything. -/
theorem balances_le (h : Transferred sender recipient n t t') (hx : x ≠ sender) :
    t.balances x ≤ t'.balances x := by
  rw [h.balances_eq]
  rcases eq_or_ne x recipient with rfl | hxr
  · rw [Function.update_self, Function.update_of_ne hx]
    exact Nat.le_add_right _ _
  · rw [Function.update_of_ne hxr, Function.update_of_ne hx]

/-- Nobody loses more than the amount. -/
theorem balances_le_add (h : Transferred sender recipient n t t') :
    t.balances x ≤ t'.balances x + n := by
  rcases eq_or_ne x sender with rfl | hx
  · have hle := h.le_balance
    rw [h.balances_eq]
    rcases eq_or_ne x recipient with rfl | hxr
    · simp only [Function.update_self]
      omega
    · simp only [Function.update_of_ne hxr, Function.update_self]
      omega
  · exact (h.balances_le hx).trans (Nat.le_add_right _ _)

/-- The recipient gains the amount. -/
theorem balances_recipient (h : Transferred sender recipient n t t') (hne : recipient ≠ sender) :
    t'.balances recipient = t.balances recipient + n := by
  rw [h.balances_eq, Function.update_self, Function.update_of_ne hne]

theorem solvent (h : Transferred sender recipient n t t') (hsolvent : t.Solvent) :
    t'.Solvent := by
  have hle := h.le_balance
  refine ⟨?_, h.supply_eq ▸ hsolvent.supply_lt⟩
  rw [h.supply_eq, h.balances_eq]
  -- in between, the amount is owed
  have hpaid : Covered (fun _ => True)
      (Function.update t.balances sender (t.balances sender - n)) n t.supply :=
    hsolvent.covered.holding_exchange trivial (by omega)
  exact hpaid.holding_exchange trivial le_rfl

end Transferred

/-- What keeps a token sound for an account that has approved nobody: the balances
still add up, what the account owns it still owns, and nobody is approved by it. -/
structure Keeps (x : Address Byte) (t t' : BridgeToken Byte) : Prop where
  solvent : t.Solvent → t'.Solvent
  owner : t.owner = x → t'.owner = x
  allowances : (∀ spender, t.allowances x spender = 0) → ∀ spender, t'.allowances x spender = 0

theorem Transferred.keeps (h : Transferred sender recipient n t t') : Keeps x t t' where
  solvent := h.solvent
  owner howner := h.owner_eq.trans howner
  allowances hzero spender := by rw [h.allowances_eq, hzero]

omit [DecidableEq Byte] in
theorem Keeps.trans {t'' : BridgeToken Byte} (h : Keeps x t t') (h' : Keeps x t' t'') :
    Keeps x t t'' where
  solvent hsolvent := h'.solvent (h.solvent hsolvent)
  owner howner := h'.owner (h.owner howner)
  allowances hzero := h'.allowances (h.allowances hzero)

/-- What an approval does. -/
structure Approved (account spender : Address Byte) (n : ℕ) (t t' : BridgeToken Byte) : Prop where
  owner_eq : t'.owner = t.owner
  supply_eq : t'.supply = t.supply
  balances_eq : t'.balances = t.balances
  allowances_eq : t'.allowances = Function.update t.allowances account
    (Function.update (t.allowances account) spender n)

/-- An account that gives no allowance away stays sound. -/
theorem Approved.keeps {spender : Address Byte} (h : Approved account spender n t t')
    (hx : account = x → n = 0) : Keeps x t t' where
  solvent hsolvent :=
    ⟨by rw [h.supply_eq, h.balances_eq]; exact hsolvent.covered, h.supply_eq ▸ hsolvent.supply_lt⟩
  owner howner := h.owner_eq.trans howner
  allowances hzero s := by
    rw [h.allowances_eq]
    rcases eq_or_ne x account with rfl | hne
    · rw [Function.update_self]
      rcases eq_or_ne s spender with rfl | hs
      · rw [Function.update_self, hx rfl]
      · rw [Function.update_of_ne hs, hzero]
    · rw [Function.update_of_ne hne, hzero]

/-- What minting does. -/
structure Minted (account : Address Byte) (n : ℕ) (t t' : BridgeToken Byte) : Prop where
  owner_eq : t'.owner = t.owner
  supply_eq : t'.supply = t.supply + n
  supply_lt : t'.supply < UINT256
  allowances_eq : t'.allowances = t.allowances
  balances_eq : t'.balances = Function.update t.balances account (t.balances account + n)

theorem Minted.keeps (h : Minted account n t t') : Keeps x t t' where
  solvent hsolvent := by
    refine ⟨?_, h.supply_lt⟩
    rw [h.supply_eq, h.balances_eq]
    have howed : Covered (fun _ => True) t.balances n (t.supply + n) :=
      hsolvent.covered.reserve_exchange (by omega)
    exact howed.holding_exchange trivial le_rfl
  owner howner := h.owner_eq.trans howner
  allowances hzero s := by rw [h.allowances_eq, hzero]

theorem Minted.balances_le (h : Minted account n t t') : t.balances x ≤ t'.balances x := by
  rw [h.balances_eq]
  rcases eq_or_ne x account with rfl | hne
  · rw [Function.update_self]
    exact Nat.le_add_right _ _
  · rw [Function.update_of_ne hne]

/-- What burning does. -/
structure Burned (account : Address Byte) (n : ℕ) (t t' : BridgeToken Byte) : Prop where
  owner_eq : t'.owner = t.owner
  le_balance : n ≤ t.balances account
  supply_eq : t'.supply + n = t.supply
  allowances_eq : t'.allowances = t.allowances
  balances_eq : t'.balances = Function.update t.balances account (t.balances account - n)

theorem Burned.keeps (h : Burned account n t t') : Keeps x t t' where
  solvent hsolvent := by
    have hbalance := h.le_balance
    have hsupply := h.supply_eq
    refine ⟨?_, by have hlt := hsolvent.supply_lt; omega⟩
    rw [h.balances_eq]
    have howed : Covered (fun _ => True)
        (Function.update t.balances account (t.balances account - n)) n t.supply :=
      hsolvent.covered.holding_exchange trivial (by omega)
    exact howed.reserve_exchange (by omega)
  owner howner := h.owner_eq.trans howner
  allowances hzero s := by rw [h.allowances_eq, hzero]

theorem Burned.balances_eq_of_ne (h : Burned account n t t') (hx : x ≠ account) :
    t'.balances x = t.balances x := by
  rw [h.balances_eq, Function.update_of_ne hx]

/-- A change that an account has nothing to fear from: it keeps the token sound for
the account, mints and burns nothing if the account owns the token, and takes
nothing from the account. -/
structure Harmless (x : Address Byte) (t t' : BridgeToken Byte) : Prop extends Keeps x t t' where
  supply : t.owner = x → t'.supply = t.supply
  balance : t.balances x ≤ t'.balances x

theorem Transferred.harmless (h : Transferred sender recipient n t t') (hx : x ≠ sender) :
    Harmless x t t' :=
  ⟨h.keeps, fun _ => h.supply_eq, h.balances_le hx⟩

theorem Approved.harmless {spender : Address Byte} (h : Approved account spender n t t')
    (hx : account = x → n = 0) : Harmless x t t' :=
  ⟨h.keeps hx, fun _ => h.supply_eq, by rw [h.balances_eq]⟩

end Effects

/-! ### The effect of the calls -/

theorem transferred_of_eq_ok (h : _transfer sender recipient n t = .ok t') :
    Transferred sender recipient n t t' := by
  simp only [_transfer, require_bind_eq_ok, SafeMath.sub_bind_eq_ok, SafeMath.add_bind_eq_ok,
    Except.ok.injEq] at h
  obtain ⟨-, -, hle, -, rfl⟩ := h
  exact ⟨rfl, rfl, rfl, hle, rfl⟩

theorem approved_of_eq_ok {spender : Address Byte} (h : _approve account spender n t = .ok t') :
    Approved account spender n t t' := by
  simp only [_approve, require_bind_eq_ok, Except.ok.injEq] at h
  obtain ⟨-, -, rfl⟩ := h
  exact ⟨rfl, rfl, rfl, rfl⟩

theorem minted_of_mint (h : mint sender account n t = .ok t') :
    sender = t.owner ∧ Minted account n t t' := by
  simp only [mint, onlyOwner, _mint, require_bind_eq_ok, SafeMath.add_bind_eq_ok,
    Except.ok.injEq] at h
  obtain ⟨howner, -, hlt, -, rfl⟩ := h
  exact ⟨howner, rfl, rfl, hlt, rfl, rfl⟩

theorem burned_of_burn (h : burn sender account n t = .ok t') :
    sender = t.owner ∧ Burned account n t t' := by
  simp only [burn, onlyOwner, _burn, require_bind_eq_ok, SafeMath.sub_bind_eq_ok,
    Except.ok.injEq] at h
  obtain ⟨howner, -, hbalance, hsupply, rfl⟩ := h
  exact ⟨howner, rfl, hbalance, Nat.sub_add_cancel hsupply, rfl, rfl⟩

/-- What `transferFrom` does. -/
theorem transferFrom_eq_ok {spender : Address Byte}
    (h : transferFrom spender sender recipient n t = .ok t') :
    ∃ t₁, Transferred sender recipient n t t₁ ∧ n ≤ t.allowances sender spender ∧
      Approved sender spender (t.allowances sender spender - n) t₁ t' := by
  obtain ⟨t₁, htransfer, h⟩ := bind_eq_ok.mp h
  have htransferred := transferred_of_eq_ok htransfer
  rw [htransferred.allowances_eq, SafeMath.sub_bind_eq_ok] at h
  exact ⟨t₁, htransferred, h.1, approved_of_eq_ok h.2⟩

/-- Without an allowance nothing can be taken. -/
theorem harmless_of_transferFrom {spender : Address Byte}
    (h : transferFrom spender sender recipient n t = .ok t')
    (hallow : ∀ spender, t.allowances x spender = 0) : Harmless x t t' := by
  obtain ⟨t₁, htransfer, hle, happrove⟩ := transferFrom_eq_ok h
  have hzero : sender = x → n = 0 := by
    rintro rfl
    rw [hallow] at hle
    exact Nat.le_zero.mp hle
  have hleft : sender = x → t.allowances sender spender - n = 0 := by
    rintro rfl
    rw [hallow, Nat.zero_sub]
  refine ⟨htransfer.keeps.trans (happrove.keeps hleft), fun _ => ?_, ?_⟩
  · rw [happrove.supply_eq, htransfer.supply_eq]
  · rw [happrove.balances_eq]
    rcases eq_or_ne x sender with rfl | hx
    · have hadd := htransfer.balances_le_add (x := x)
      rwa [hzero rfl] at hadd
    · exact htransfer.balances_le hx

/-- **Plain token calls.** No call of another sender harms an account that has
approved nobody, as long as the owner of the token does not burn what the account
holds. -/
theorem harmless_of_exec {call : Call Byte} (h : exec sender call t = .ok t')
    (hallow : ∀ spender, t.allowances x spender = 0) (hsender : sender ≠ x)
    (hburn : ∀ n, call ≠ .burn x n) : Harmless x t t' := by
  have hother {P : Prop} (hx : sender = x) : P := absurd hx hsender
  cases call with
  | transfer recipient amount => exact (transferred_of_eq_ok h).harmless hsender.symm
  | approve spender amount => exact (approved_of_eq_ok h).harmless hother
  | transferFrom source recipient amount => exact harmless_of_transferFrom h hallow
  | increaseAllowance spender addedValue =>
    simp only [exec, increaseAllowance, SafeMath.add_bind_eq_ok] at h
    exact (approved_of_eq_ok h.2).harmless hother
  | decreaseAllowance spender subtractedValue =>
    simp only [exec, decreaseAllowance, SafeMath.sub_bind_eq_ok] at h
    exact (approved_of_eq_ok h.2).harmless hother
  | burn holder amnt =>
    obtain ⟨rfl, hburned⟩ := burned_of_burn h
    have hne : x ≠ holder := by
      rintro rfl
      exact hburn amnt rfl
    exact ⟨hburned.keeps, hother, (hburned.balances_eq_of_ne hne).ge⟩
  | mint holder amnt =>
    obtain ⟨rfl, hminted⟩ := minted_of_mint h
    exact ⟨hminted.keeps, hother, hminted.balances_le⟩
  | setDetails newName newSymbol newDecimals =>
    simp only [exec, setDetails, onlyOwner, require_bind_eq_ok, Except.ok.injEq] at h
    obtain ⟨-, rfl⟩ := h
    exact ⟨⟨fun hsolvent => ⟨hsolvent.covered, hsolvent.supply_lt⟩, fun howner => howner,
      fun hzero => hzero⟩, fun _ => rfl, le_rfl⟩
  | transferOwnership newOwner =>
    simp only [exec, transferOwnership, onlyOwner, require_bind_eq_ok, Except.ok.injEq] at h
    obtain ⟨rfl, -, rfl⟩ := h
    exact ⟨⟨fun hsolvent => ⟨hsolvent.covered, hsolvent.supply_lt⟩, hother, fun hzero => hzero⟩,
      hother, le_rfl⟩

end BridgeToken

end Optics
