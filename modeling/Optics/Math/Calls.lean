/-
# Contracts that call each other

Code is a tree of the actions a contract takes: it reads and writes the storage
of its own account, emits events, asks whether an address holds code, and calls
other accounts, with the rest of the code waiting for the answer. A call that
fails leaves no trace; a delegate call runs the code of another account on the
caller's own storage; inside a static call nothing can be written.

Gas, the value of a call, the hash of code, and the creation and destruction of
contracts inside a transaction are left out.

Which code an address holds may depend on the state, so that the accounts of
an upgradable system are described by the same machine. Two rules carry the
proofs: a contract that keeps its invariant whenever it hands over control keeps
it in every execution, whatever the called accounts call back, and inside a
static call the state does not move.
-/

import Mathlib.Data.List.Infix
import Optics.Math.Transition

namespace Optics.Math.Calls

variable {α β σ η : Type}

/-- The three ways to call another account. -/
inductive CallKind
  | call
  | staticcall
  | delegatecall
  deriving DecidableEq, Repr

/-- The actions of a contract, up to the answer it gives: `finish true` returns and
`finish false` reverts. -/
inductive Code (α β σ η : Type)
  | finish (success : Bool) (returned : List β)
  | load (next : σ → Code α β σ η)
  | store (value : σ) (next : Code α β σ η)
  | emit (event : η) (next : Code α β σ η)
  | isContract (target : α) (next : Bool → Code α β σ η)
  | call (kind : CallKind) (target : α) (data : List β) (next : Bool → List β → Code α β σ η)

/-- What an account runs when it is called: its own address, the sender and the data. -/
abbrev Program (α β σ η : Type) := α → α → List β → Code α β σ η

/-- The record of what happened: accounts that were created, calls that were made and
events that were emitted. -/
inductive Entry (α β η : Type)
  | created (account : α)
  | called (sender target : α) (data : List β)
  | emitted (account : α) (event : η)
  deriving DecidableEq

/-- The storage of every account, and the record so far. -/
structure State (α β σ η : Type) where
  storage : α → σ
  log : List (Entry α β η)

/-- Whose storage the running code uses, who called it, and whether it may write. -/
structure Frame (α : Type) where
  self : α
  sender : α
  readOnly : Bool

/-- The returned data and the state after it, or the data of a revert. -/
abbrev Result (α β σ η : Type) := Except (List β) (List β × State α β σ η)

/-- The frame in which the called code runs. -/
def Frame.callee (frame : Frame α) (target : α) : CallKind → Frame α
  | .call => ⟨target, frame.self, frame.readOnly⟩
  | .staticcall => ⟨target, frame.self, true⟩
  | .delegatecall => frame

namespace State

/-- One more entry in the record. -/
def record (entry : Entry α β η) (s : State α β σ η) : State α β σ η :=
  { s with log := s.log ++ [entry] }

@[simp] theorem record_storage (entry : Entry α β η) (s : State α β σ η) :
    (s.record entry).storage = s.storage := rfl

@[simp] theorem record_log (entry : Entry α β η) (s : State α β σ η) :
    (s.record entry).log = s.log ++ [entry] := rfl

/-- Only calls that may write are recorded. -/
def recordCall (frame : Frame α) (kind : CallKind) (target : α) (data : List β)
    (s : State α β σ η) : State α β σ η :=
  if kind = .call ∧ frame.readOnly = false then s.record (.called frame.self target data) else s

theorem recordCall_of_readOnly {frame : Frame α} (h : frame.readOnly = true) (kind : CallKind)
    (target : α) (data : List β) (s : State α β σ η) : s.recordCall frame kind target data = s :=
  if_neg fun hcall => by simp [h] at hcall

theorem recordCall_of_ne {kind : CallKind} (h : kind ≠ .call) (frame : Frame α)
    (target : α) (data : List β) (s : State α β σ η) : s.recordCall frame kind target data = s :=
  if_neg fun hcall => h hcall.1

theorem recordCall_call {frame : Frame α} (h : frame.readOnly = false) (target : α)
    (data : List β) (s : State α β σ η) :
    s.recordCall frame .call target data = s.record (.called frame.self target data) :=
  if_pos ⟨rfl, h⟩

variable [DecidableEq α]

/-- The storage of one account is replaced. -/
def write (account : α) (value : σ) (s : State α β σ η) : State α β σ η :=
  { s with storage := Function.update s.storage account value }

@[simp] theorem write_storage_self (account : α) (value : σ) (s : State α β σ η) :
    (s.write account value).storage account = value := Function.update_self _ _ _

theorem write_storage_of_ne {account other : α} (h : other ≠ account) (value : σ)
    (s : State α β σ η) : (s.write account value).storage other = s.storage other :=
  Function.update_of_ne h _ _

@[simp] theorem write_log (account : α) (value : σ) (s : State α β σ η) :
    (s.write account value).log = s.log := rfl

end State

/-- Which program an address holds in a state, if any. -/
abbrev Table (α β σ η : Type) := State α β σ η → α → Option (Program α β σ η)

section Machine

variable [DecidableEq α] (table : Table α β σ η)

/-- How a call enters another account: by its frame, target and data. -/
abbrev Enter (α β σ η : Type) :=
  Frame α → α → List β → State α β σ η → Option (Result α β σ η)

/-- Runs code, given how calls enter other accounts. No answer means that the calls nest
deeper than was allowed. A write inside a static call fails. -/
def Code.eval (enter : Enter α β σ η) (frame : Frame α) :
    Code α β σ η → State α β σ η → Option (Result α β σ η)
  | .finish true returned, s => some (.ok (returned, s))
  | .finish false returned, _ => some (.error returned)
  | .load next, s => (next (s.storage frame.self)).eval enter frame s
  | .store value next, s =>
    if frame.readOnly then some (.error []) else next.eval enter frame (s.write frame.self value)
  | .emit event next, s =>
    if frame.readOnly then some (.error [])
    else next.eval enter frame (s.record (.emitted frame.self event))
  | .isContract target next, s => (next (table s target).isSome).eval enter frame s
  | .call kind target data next, s =>
    match enter (frame.callee target kind) target data (s.recordCall frame kind target data) with
    | none => none
    | some (.ok (returned, t)) => (next true returned).eval enter frame t
    | some (.error returned) => (next false returned).eval enter frame s

/-- Entering an account runs its program. An address without code returns at once. -/
def enterWith (runner : Frame α → Code α β σ η → State α β σ η → Option (Result α β σ η)) :
    Enter α β σ η := fun frame target data s =>
  match table s target with
  | none => some (.ok ([], s))
  | some program => runner frame (program frame.self frame.sender data) s

/-- Runs code whose calls nest at most `depth` deep. -/
def run : ℕ → Frame α → Code α β σ η → State α β σ η → Option (Result α β σ η)
  | 0 => Code.eval table fun _ _ _ _ => none
  | depth + 1 => Code.eval table (enterWith table (run depth))

/-- How a call enters an account when calls may nest `depth` deep. -/
def enterAt : ℕ → Enter α β σ η
  | 0 => fun _ _ _ _ => none
  | depth + 1 => enterWith table (run table depth)

/-- A transaction: an account calls a target. -/
def transact (depth : ℕ) (origin target : α) (data : List β) (s : State α β σ η) :
    Option (Result α β σ η) :=
  enterAt table depth ⟨target, origin, false⟩ target data (s.record (.called origin target data))

/-- The state after a transaction: unchanged when it reverts. -/
def Result.after : Result α β σ η → State α β σ η → State α β σ η
  | .ok (_, t), _ => t
  | .error _, s => s

/-- What the sender of the transaction sees. -/
def Result.answer : Result α β σ η → Except (List β) (List β)
  | .ok (returned, _) => .ok returned
  | .error returned => .error returned

/-- A transaction and the answer to it. -/
structure Transaction (α β : Type) where
  origin : α
  target : α
  data : List β
  answer : Except (List β) (List β)

/-- The system whose steps are transactions. -/
def transactions (init : State α β σ η → Prop) :
    Transition.System (State α β σ η) (Transaction α β) where
  init := init
  step s tx t := ∃ depth r, transact table depth tx.origin tx.target tx.data s = some r ∧
    tx.answer = r.answer ∧ t = r.after s

/-- A transaction that is answered as it says, with calls that nest at most `depth` deep. -/
def attempt [DecidableEq β] (depth : ℕ) (tx : Transaction α β) (s : State α β σ η) :
    Option (State α β σ η) :=
  match transact table depth tx.origin tx.target tx.data s, tx.answer with
  | some (.ok (returned, t)), .ok answer => if answer = returned then some t else none
  | some (.error returned), .error answer => if answer = returned then some s else none
  | _, _ => none

theorem step_of_attempt [DecidableEq β] {init : State α β σ η → Prop} {depth : ℕ}
    {tx : Transaction α β} {s t : State α β σ η} (h : attempt table depth tx s = some t) :
    (transactions table init).step s tx t := by
  unfold attempt at h
  split at h
  · rename_i returned t' answer hrun hanswer
    split_ifs at h with heq
    · cases h
      exact ⟨depth, _, hrun, by rw [hanswer, heq]; rfl, rfl⟩
  · rename_i returned answer hrun hanswer
    split_ifs at h with heq
    · cases h
      exact ⟨depth, _, hrun, by rw [hanswer, heq]; rfl, rfl⟩
  · cases h

theorem run_eq_eval (depth : ℕ) : run table depth = Code.eval table (enterAt table depth) := by
  cases depth <;> rfl

end Machine

section Eval

variable [DecidableEq α] {table : Table α β σ η} {enter : Enter α β σ η} {frame : Frame α}
  {s : State α β σ η} {r : Result α β σ η}

/-- What a call inside code came to: how the target was entered and how the rest ran. -/
theorem Code.eval_call_cases {kind : CallKind} {target : α} {data : List β}
    {next : Bool → List β → Code α β σ η}
    (h : (Code.call kind target data next).eval table enter frame s = some r) :
    (∃ returned t, enter (frame.callee target kind) target data
        (s.recordCall frame kind target data) = some (.ok (returned, t)) ∧
      (next true returned).eval table enter frame t = some r) ∨
    ∃ returned, enter (frame.callee target kind) target data
        (s.recordCall frame kind target data) = some (.error returned) ∧
      (next false returned).eval table enter frame s = some r := by
  rw [Code.eval] at h
  generalize enter (frame.callee target kind) target data
    (s.recordCall frame kind target data) = answer at h
  rcases answer with - | ⟨returned⟩ | ⟨returned, t⟩
  · cases h
  · exact .inr ⟨returned, rfl, h⟩
  · exact .inl ⟨returned, t, rfl, h⟩

theorem Code.eval_call_ok {kind : CallKind} {target : α} {data : List β}
    {next : Bool → List β → Code α β σ η} {returned : List β} {t : State α β σ η}
    (henter : enter (frame.callee target kind) target data
      (s.recordCall frame kind target data) = some (.ok (returned, t))) :
    (Code.call kind target data next).eval table enter frame s =
      (next true returned).eval table enter frame t := by
  rw [Code.eval, henter]

theorem Code.eval_call_error {kind : CallKind} {target : α} {data : List β}
    {next : Bool → List β → Code α β σ η} {returned : List β}
    (henter : enter (frame.callee target kind) target data
      (s.recordCall frame kind target data) = some (.error returned)) :
    (Code.call kind target data next).eval table enter frame s =
      (next false returned).eval table enter frame s := by
  rw [Code.eval, henter]

end Eval

/-! ### Simulation between tables -/

section Simulation

variable [DecidableEq α] {table table' : Table α β σ η}

/-- Code without delegate calls. -/
def Code.NoDelegate : Code α β σ η → Prop
  | .finish _ _ => True
  | .load next => ∀ value, (next value).NoDelegate
  | .store _ next => next.NoDelegate
  | .emit _ next => next.NoDelegate
  | .isContract _ next => ∀ answer, (next answer).NoDelegate
  | .call kind _ _ next =>
    kind ≠ .delegatecall ∧ ∀ success returned, (next success returned).NoDelegate

/-- An entry that gives every answer another one gives, except where a protected account
runs the code of another account. -/
def Enter.Extends (C : α → Prop) (enter enter' : Enter α β σ η) : Prop :=
  ∀ frame target data s r, (C frame.self → target = frame.self) →
    enter frame target data s = some r → enter' frame target data s = some r

/-- Code gives the same answer over an entry that extends the one it ran over, when a
protected account makes no delegate call. -/
theorem Code.eval_simulates {C : α → Prop} {enter enter' : Enter α β σ η}
    (hcode : ∀ s target, (table s target).isSome = (table' s target).isSome)
    (hext : enter.Extends C enter') {frame : Frame α} (code : Code α β σ η)
    (hdelegate : C frame.self → code.NoDelegate) {s : State α β σ η} {r : Result α β σ η}
    (h : code.eval table enter frame s = some r) : code.eval table' enter' frame s = some r := by
  induction code generalizing s with
  | finish success => cases success <;> exact h
  | load next ih => exact ih _ (fun hC => hdelegate hC _) h
  | store value next ih =>
    rw [Code.eval] at h ⊢
    split_ifs with hread
    · rwa [if_pos hread] at h
    · rw [if_neg hread] at h
      exact ih hdelegate h
  | emit event next ih =>
    rw [Code.eval] at h ⊢
    split_ifs with hread
    · rwa [if_pos hread] at h
    · rw [if_neg hread] at h
      exact ih hdelegate h
  | isContract target next ih =>
    rw [Code.eval] at h ⊢
    rw [← hcode]
    exact ih _ (fun hC => hdelegate hC _) h
  | call kind target data next ih =>
    have hallowed : C (frame.callee target kind).self →
        target = (frame.callee target kind).self := by
      intro hC
      cases kind with
      | call => rfl
      | staticcall => rfl
      | delegatecall => exact absurd rfl (hdelegate hC).1
    have hnext : ∀ success returned, C frame.self → (next success returned).NoDelegate :=
      fun success returned hC => (hdelegate hC).2 success returned
    rcases Code.eval_call_cases h with ⟨returned, t, henter, hrest⟩ | ⟨returned, henter, hrest⟩
    · rw [Code.eval_call_ok (hext _ _ _ _ _ hallowed henter)]
      exact ih _ _ (hnext _ _) hrest
    · rw [Code.eval_call_error (hext _ _ _ _ _ hallowed henter)]
      exact ih _ _ (hnext _ _) hrest

end Simulation

/-! ### Nesting deeper changes nothing -/

section Depth

variable [DecidableEq α] {table : Table α β σ η} {C : α → Prop}

theorem Code.eval_extends {enter enter' : Enter α β σ η}
    (hext : enter.Extends (fun _ => False) enter') {frame : Frame α} (code : Code α β σ η)
    {s : State α β σ η} {r : Result α β σ η} (h : code.eval table enter frame s = some r) :
    code.eval table enter' frame s = some r :=
  Code.eval_simulates (fun _ _ => rfl) hext code False.elim h

theorem enterAt_extends_succ (depth : ℕ) :
    (enterAt table depth).Extends C (enterAt table (depth + 1)) := by
  induction depth generalizing C with
  | zero =>
    intro frame target data s r _ h
    cases h
  | succ depth ih =>
    intro frame target data s r _ h
    simp only [enterAt, enterWith] at h ⊢
    cases htable : table s target with
    | none => rwa [htable] at h
    | some program =>
      rw [htable] at h
      dsimp only at h ⊢
      rw [run_eq_eval] at h ⊢
      exact Code.eval_extends ih _ h

theorem enterAt_extends {depth depth' : ℕ} (hle : depth ≤ depth') :
    (enterAt table depth).Extends C (enterAt table depth') := by
  induction hle with
  | refl =>
    intro frame target data s r _ h
    exact h
  | @step depth' _ ih =>
    intro frame target data s r hallowed h
    exact enterAt_extends_succ depth' _ _ _ _ _ hallowed (ih _ _ _ _ _ hallowed h)

/-- An answer stays the same when calls may nest deeper. -/
theorem run_mono {depth depth' : ℕ} (hle : depth ≤ depth') {frame : Frame α}
    {code : Code α β σ η} {s : State α β σ η} {r : Result α β σ η}
    (h : run table depth frame code s = some r) : run table depth' frame code s = some r := by
  rw [run_eq_eval] at h ⊢
  exact Code.eval_extends (enterAt_extends hle) _ h

end Depth

/-! ### Static calls -/

section ReadOnly

variable [DecidableEq α] {table : Table α β σ η}

/-- An entry that leaves the state alone in a static frame. -/
def Enter.Frozen (enter : Enter α β σ η) : Prop :=
  ∀ frame target data s returned t, frame.readOnly = true →
    enter frame target data s = some (.ok (returned, t)) → t = s

omit [DecidableEq α] in
theorem Frame.readOnly_callee {frame : Frame α} (h : frame.readOnly = true) (target : α)
    (kind : CallKind) : (frame.callee target kind).readOnly = true := by
  cases kind with
  | call => exact h
  | staticcall => rfl
  | delegatecall => exact h

theorem Code.eval_readOnly {enter : Enter α β σ η} (hfrozen : enter.Frozen) {frame : Frame α}
    (hread : frame.readOnly = true) (code : Code α β σ η) {s t : State α β σ η}
    {returned : List β} (h : code.eval table enter frame s = some (.ok (returned, t))) :
    t = s := by
  induction code with
  | finish success =>
    cases success with
    | true => cases h; rfl
    | false => cases h
  | load next ih => exact ih _ h
  | store value next ih =>
    rw [Code.eval, if_pos hread] at h
    cases h
  | emit event next ih =>
    rw [Code.eval, if_pos hread] at h
    cases h
  | isContract target next ih => exact ih _ h
  | call kind target data next ih =>
    rcases Code.eval_call_cases h with ⟨out, u, henter, hrest⟩ | ⟨out, henter, hrest⟩
    · rw [State.recordCall_of_readOnly hread] at henter
      obtain rfl := hfrozen _ _ _ _ _ _ (Frame.readOnly_callee hread target kind) henter
      exact ih _ _ hrest
    · exact ih _ _ hrest

theorem enterAt_frozen (depth : ℕ) : (enterAt table depth).Frozen := by
  induction depth with
  | zero =>
    intro frame target data s returned t _ h
    cases h
  | succ depth ih =>
    intro frame target data s returned t hread h
    simp only [enterAt, enterWith] at h
    cases htable : table s target with
    | none =>
      rw [htable] at h
      cases h
      rfl
    | some program =>
      rw [htable] at h
      dsimp only at h
      rw [run_eq_eval] at h
      exact Code.eval_readOnly ih hread _ h

end ReadOnly

/-! ### Invariants of one contract -/

section Invariant

variable [DecidableEq α] (table : Table α β σ η) (a : α)
  (I : σ → List (Entry α β η) → Prop)

/-- The entries that the account itself has no part in. -/
def Entry.Foreign : Entry α β η → Prop
  | .created account => account ≠ a
  | .called sender target _ => sender ≠ a ∧ target ≠ a
  | .emitted account _ => account ≠ a

/-- The code keeps the invariant of its account: it holds whenever the code hands over
control or returns. Between two such points the code may break it. What a call comes back
with is any state in which the invariant holds again. -/
def Code.Keeps (codeAt : α → Bool) :
    Code α β σ η → σ → List (Entry α β η) → Prop
  | .finish success _, value, log => success = true → I value log
  | .load next, value, log => (next value).Keeps codeAt value log
  | .store value' next, _, log => next.Keeps codeAt value' log
  | .emit event next, value, log => next.Keeps codeAt value (log ++ [.emitted a event])
  | .isContract target next, value, log => (next (codeAt target)).Keeps codeAt value log
  | .call .call target data next, value, log =>
    I value log ∧ I value (log ++ [.called a target data]) ∧
      (∀ returned, (next false returned).Keeps codeAt value log) ∧
      ∀ returned value' log', I value' log' → log ++ [.called a target data] <+: log' →
        (next true returned).Keeps codeAt value' log'
  | .call .staticcall _ _ next, value, log =>
    ∀ success returned, (next success returned).Keeps codeAt value log
  | .call .delegatecall _ _ _, _, _ => False

/-- Each program the account can hold keeps the invariant when it is called, and the
entries of other accounts do not break it. -/
structure Guarantees (codeAt : α → Bool) : Prop where
  foreign : ∀ value log entry, Entry.Foreign a entry → I value log → I value (log ++ [entry])
  keeps : ∀ (s : State α β σ η) sender data, I (s.storage a) s.log →
    (sender = a → I (s.storage a) (s.log ++ [.called sender a data])) → ∃ program,
    table (s.record (.called sender a data)) a = some program ∧
      (program a sender data).Keeps a I codeAt (s.storage a)
        (s.log ++ [.called sender a data])
  codeAt_eq : ∀ s target, (table s target).isSome = codeAt target

end Invariant

section Kept

variable [DecidableEq α] {table : Table α β σ η} {a : α} {I : σ → List (Entry α β η) → Prop}
  {codeAt : α → Bool}

/-- An entry that keeps the invariant of the account: calls into other accounts find it
and leave it, and calls into the account itself may rely on it. -/
structure Enter.Keeps (enter : Enter α β σ η) (a : α) (I : σ → List (Entry α β η) → Prop) :
    Prop where
  frozen : enter.Frozen
  foreign : ∀ frame target data (s : State α β σ η) returned (t : State α β σ η),
    frame.self ≠ a → I (s.storage a) s.log →
    enter frame target data s = some (.ok (returned, t)) →
    I (t.storage a) t.log ∧ s.log <+: t.log
  own : ∀ sender data (s : State α β σ η) returned (t : State α β σ η),
    I (s.storage a) s.log → (sender = a → I (s.storage a) (s.log ++ [.called sender a data])) →
    enter ⟨a, sender, false⟩ a data (s.record (.called sender a data)) =
      some (.ok (returned, t)) →
    I (t.storage a) t.log ∧ s.log ++ [.called sender a data] <+: t.log

omit [DecidableEq α] in
/-- A call that another account makes finds the invariant and leaves it. -/
theorem Enter.Keeps.call {enter : Enter α β σ η} (henter : enter.Keeps a I)
    (hforeign : ∀ value log entry, Entry.Foreign a entry → I value log → I value (log ++ [entry]))
    {frame : Frame α} (hself : frame.self ≠ a) {kind : CallKind} {target : α} {data : List β}
    {s t : State α β σ η} {returned : List β} (hI : I (s.storage a) s.log)
    (h : enter (frame.callee target kind) target data (s.recordCall frame kind target data) =
      some (.ok (returned, t))) : I (t.storage a) t.log ∧ s.log <+: t.log := by
  by_cases hread : frame.readOnly = true
  · rw [State.recordCall_of_readOnly hread] at h
    obtain rfl := henter.frozen _ _ _ _ _ _ (Frame.readOnly_callee hread target kind) h
    exact ⟨hI, List.prefix_rfl⟩
  rw [Bool.not_eq_true] at hread
  cases kind with
  | call =>
    have hframe : frame.callee target .call = ⟨target, frame.self, false⟩ := by
      rw [Frame.callee, hread]
    rw [State.recordCall_call hread, hframe] at h
    by_cases htarget : target = a
    · subst htarget
      obtain ⟨hend, hlog⟩ := henter.own _ _ _ _ _ hI (absurd · hself) h
      exact ⟨hend, (List.prefix_append _ _).trans hlog⟩
    · have hrecord := hforeign _ _ (.called frame.self target data) ⟨hself, htarget⟩ hI
      obtain ⟨hend, hlog⟩ := henter.foreign ⟨target, frame.self, false⟩ target data
        (s.record (.called frame.self target data)) returned t htarget hrecord h
      exact ⟨hend, (List.prefix_append _ _).trans hlog⟩
  | staticcall =>
    rw [State.recordCall_of_ne (by decide)] at h
    obtain rfl := henter.frozen _ _ _ _ _ _ rfl h
    exact ⟨hI, List.prefix_rfl⟩
  | delegatecall =>
    rw [State.recordCall_of_ne (by decide)] at h
    exact henter.foreign frame target data s returned t hself hI h

/-- Code of another account finds the invariant and leaves it. -/
theorem Code.eval_foreign {enter : Enter α β σ η} (henter : enter.Keeps a I)
    (hforeign : ∀ value log entry, Entry.Foreign a entry → I value log → I value (log ++ [entry]))
    {frame : Frame α} (hself : frame.self ≠ a) (code : Code α β σ η) {s t : State α β σ η}
    (hI : I (s.storage a) s.log) {returned : List β}
    (h : code.eval table enter frame s = some (.ok (returned, t))) :
    I (t.storage a) t.log ∧ s.log <+: t.log := by
  induction code generalizing s with
  | finish success =>
    cases success with
    | true =>
      cases h
      exact ⟨hI, List.prefix_rfl⟩
    | false => cases h
  | load next ih => exact ih _ hI h
  | store value next ih =>
    rw [Code.eval] at h
    split_ifs at h with hread
    · cases h
    refine ih (s := s.write frame.self value) ?_ h
    rwa [State.write_storage_of_ne hself.symm, State.write_log]
  | emit event next ih =>
    rw [Code.eval] at h
    split_ifs at h with hread
    · cases h
    obtain ⟨hend, hlog⟩ := ih (s := s.record (.emitted frame.self event))
      (hforeign _ _ (.emitted frame.self event) hself hI) h
    exact ⟨hend, (List.prefix_append _ _).trans hlog⟩
  | isContract target next ih => exact ih _ hI h
  | call kind target data next ih =>
    rcases Code.eval_call_cases h with ⟨out, u, hcall, hrest⟩ | ⟨out, hcall, hrest⟩
    · obtain ⟨hmid, hlog⟩ := henter.call hforeign hself hI hcall
      obtain ⟨hend, hlog'⟩ := ih _ _ hmid hrest
      exact ⟨hend, hlog.trans hlog'⟩
    · exact ih _ _ hI hrest

/-- The account's own code leaves the invariant. -/
theorem Code.eval_own {enter : Enter α β σ η} (henter : enter.Keeps a I)
    (hcode : ∀ s target, (table s target).isSome = codeAt target)
    {sender : α} (code : Code α β σ η) {s t : State α β σ η}
    (hkeeps : code.Keeps a I codeAt (s.storage a) s.log) {returned : List β}
    (h : code.eval table enter ⟨a, sender, false⟩ s = some (.ok (returned, t))) :
    I (t.storage a) t.log ∧ s.log <+: t.log := by
  induction code generalizing s with
  | finish success =>
    cases success with
    | true =>
      cases h
      exact ⟨hkeeps rfl, List.prefix_rfl⟩
    | false => cases h
  | load next ih => exact ih _ hkeeps h
  | store value next ih =>
    refine ih (s := s.write a value) ?_ h
    rw [State.write_storage_self, State.write_log]
    exact hkeeps
  | emit event next ih =>
    obtain ⟨hend, hlog⟩ := ih (s := s.record (.emitted a event)) hkeeps h
    exact ⟨hend, (List.prefix_append _ _).trans hlog⟩
  | isContract target next ih =>
    rw [Code.eval, hcode] at h
    exact ih _ hkeeps h
  | call kind target data next ih =>
    cases kind with
    | call =>
      obtain ⟨hI, hI', hfail, hreturn⟩ := hkeeps
      rcases Code.eval_call_cases h with ⟨out, u, hcall, hrest⟩ | ⟨out, hcall, hrest⟩
      · have hu : I (u.storage a) u.log ∧ s.log ++ [.called a target data] <+: u.log := by
          rw [State.recordCall_call rfl] at hcall
          rcases eq_or_ne target a with rfl | htarget
          · exact henter.own _ _ _ _ _ hI (fun _ => hI') hcall
          · exact henter.foreign ⟨target, a, false⟩ target data
              (s.record (.called a target data)) out u htarget hI' hcall
        obtain ⟨hend, hlog⟩ := ih _ _ (hreturn out _ _ hu.1 hu.2) hrest
        exact ⟨hend, (List.prefix_append _ _).trans (hu.2.trans hlog)⟩
      · exact ih _ _ (hfail out) hrest
    | staticcall =>
      rcases Code.eval_call_cases h with ⟨out, u, hcall, hrest⟩ | ⟨out, hcall, hrest⟩
      · rw [State.recordCall_of_ne (by decide)] at hcall
        obtain rfl := henter.frozen _ _ _ _ _ _ rfl hcall
        exact ih _ _ (hkeeps true out) hrest
      · exact ih _ _ (hkeeps false out) hrest
    | delegatecall => exact hkeeps.elim

theorem enterAt_keeps (hguarantees : Guarantees table a I codeAt) (depth : ℕ) :
    (enterAt table depth).Keeps a I := by
  induction depth with
  | zero =>
    refine ⟨enterAt_frozen 0, ?_, ?_⟩
    · intro frame target data s returned t _ _ h
      cases h
    · intro sender data s returned t _ _ h
      cases h
  | succ depth ih =>
    refine ⟨enterAt_frozen _, ?_, ?_⟩
    · intro frame target data s returned t hself hI h
      simp only [enterAt, enterWith] at h
      cases htable : table s target with
      | none =>
        rw [htable] at h
        cases h
        exact ⟨hI, List.prefix_rfl⟩
      | some program =>
        rw [htable] at h
        dsimp only at h
        rw [run_eq_eval] at h
        exact Code.eval_foreign ih hguarantees.foreign hself _ hI h
    · intro sender data s returned t hI hself h
      obtain ⟨program, htable, hkeeps⟩ := hguarantees.keeps s sender data hI hself
      simp only [enterAt, enterWith, htable] at h
      rw [run_eq_eval] at h
      exact Code.eval_own ih hguarantees.codeAt_eq _ hkeeps h

/-- **Contract invariant rule.** A transaction keeps the invariant of a contract that
guarantees it, whatever the contracts it runs call, and only adds to the record. -/
theorem transact_keeps (hguarantees : Guarantees table a I codeAt) {depth : ℕ}
    {origin target : α} {data : List β} {s : State α β σ η} {r : Result α β σ η}
    (horigin : origin ≠ a) (hI : I (s.storage a) s.log)
    (h : transact table depth origin target data s = some r) :
    I ((r.after s).storage a) (r.after s).log ∧ s.log <+: (r.after s).log := by
  cases r with
  | error out => exact ⟨hI, List.prefix_rfl⟩
  | ok result =>
    obtain ⟨returned, t⟩ := result
    have henter := enterAt_keeps hguarantees depth
    have hframe : (⟨target, origin, false⟩ : Frame α) =
      (⟨origin, origin, false⟩ : Frame α).callee target .call := rfl
    rw [transact, hframe] at h
    have hself : (⟨origin, origin, false⟩ : Frame α).self ≠ a := horigin
    exact henter.call hguarantees.foreign hself hI h

end Kept

end Optics.Math.Calls
