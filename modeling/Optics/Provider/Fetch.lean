/-
# Event queries in pages

On some domains the SDK asks for the events of a block range page by page. A query is
inclusive at both ends, a page runs from its first block to the first block of the next
page, and so the block where two pages meet is asked for twice. Its events come back
twice, and the callers that expect at most one event throw.

A query for a range returns the matching events of the blocks in the range, in the order
of the chain. While the pages are fetched, the blocks that they ask for do not change.
-/

import Optics.Provider.OpticsMessage

namespace Optics.Fetch

open Optics.Solidity Optics.Common

variable {Byte α : Type}

/-- `Pagination`: the first block of the domain, and the blocks of a page. -/
structure Pagination where
  blocks : ℕ
  fromBlock : ℕ
  blocks_pos : 0 < blocks

/-- `Domain`. -/
structure Domain where
  id : ℕ
  name : String
  paginate : Option Pagination

/-- `TypedEvent`: what was emitted, and in which block. -/
structure TypedEvent (α : Type) where
  blockNumber : ℕ
  args : α

/-- The current block, and what a contract has emitted, in order. -/
structure Chain (α : Type) where
  blockNumber : ℕ
  logs : List (TypedEvent α)
  ordered : logs.Pairwise fun e f => e.blockNumber ≤ f.blockNumber
  mined : ∀ e ∈ logs, e.blockNumber ≤ blockNumber

/-- The events of the blocks from `first` to `last`. -/
def Chain.within (chain : Chain α) (filter : α → Bool) (first last : ℕ) : List (TypedEvent α) :=
  chain.logs.filter fun e =>
    filter e.args && decide (first ≤ e.blockNumber) && decide (e.blockNumber ≤ last)

/-- `queryFilter`. Without bounds it goes from block zero to the latest block. -/
def Chain.queryFilter (chain : Chain α) (filter : α → Bool) (fromBlock toBlock : Option ℕ) :
    List (TypedEvent α) :=
  chain.within filter (fromBlock.getD 0) (toBlock.getD chain.blockNumber)

/-! ### The context -/

/-- The domains in the order of their registration, and the current block that the
provider of a domain knows, if there is a provider. -/
structure OpticsContext where
  domains : List Domain
  providers : ℕ → Option ℕ

namespace OpticsContext

/-- `resolveDomain`, from a name or a number. -/
def resolveDomain (context : OpticsContext) : String ⊕ ℕ → Except String ℕ
  | .inl name =>
    match context.domains.filter fun domain => domain.name.toLower = name.toLower with
    | [] => .error ("Domain not found: " ++ name)
    | domain :: _ => .ok domain.id
  | .inr domain => .ok domain

/-- `mustGetDomain`. -/
def mustGetDomain (context : OpticsContext) (nameOrDomain : String ⊕ ℕ) : Except String Domain := do
  let number ← context.resolveDomain nameOrDomain
  match context.domains.find? fun domain => domain.id = number with
  | none => .error ("Domain not found: " ++ nameOrDomain.elim id toString)
  | some domain => .ok domain

/-- `mustGetProvider(domain).getBlockNumber()`. -/
def getBlockNumber (context : OpticsContext) (domain : ℕ) : Except String ℕ :=
  match context.providers domain with
  | none => .error "unregistered name or domain"
  | some blockNumber => .ok blockNumber

/-- The same context without pagination. -/
def unpaginated (context : OpticsContext) : OpticsContext :=
  { context with domains := context.domains.map fun domain => { domain with paginate := none } }

theorem resolveDomain_unpaginated (context : OpticsContext) (nameOrDomain : String ⊕ ℕ) :
    context.unpaginated.resolveDomain nameOrDomain = context.resolveDomain nameOrDomain := by
  cases nameOrDomain with
  | inl name =>
    have hnamed : (context.unpaginated.domains.filter fun domain =>
        domain.name.toLower = name.toLower) =
          (context.domains.filter fun domain => domain.name.toLower = name.toLower).map
            fun domain => { domain with paginate := none } := List.filter_map
    simp only [resolveDomain, hnamed]
    cases context.domains.filter fun domain => domain.name.toLower = name.toLower with
    | nil => rfl
    | cons domain rest => rfl
  | inr domain => rfl

theorem mustGetDomain_unpaginated {context : OpticsContext} {nameOrDomain : String ⊕ ℕ}
    {domain : Domain} (h : context.mustGetDomain nameOrDomain = .ok domain) :
    context.unpaginated.mustGetDomain nameOrDomain = .ok { domain with paginate := none } := by
  obtain ⟨number, hnumber, hfind⟩ := bind_eq_ok.mp h
  have hfound : (context.unpaginated.domains.find? fun domain => domain.id = number) =
      (context.domains.find? fun domain => domain.id = number).map
        fun domain => { domain with paginate := none } := List.find?_map
  simp only [mustGetDomain, resolveDomain_unpaginated, hnumber, ok_bind, hfound]
  cases hdomain : context.domains.find? fun domain => domain.id = number with
  | none =>
    rw [hdomain] at hfind
    cases hfind
  | some found =>
    rw [hdomain] at hfind
    obtain rfl := Except.ok.inj hfind
    rfl

end OpticsContext

/-! ### The queries -/

/-- `firstBlock`. A start block of zero counts as none. -/
def firstBlock (p : Pagination) : Option ℕ → ℕ
  | some (startBlock + 1) => max (startBlock + 1) p.fromBlock
  | _ => p.fromBlock

/-- `lastBlock`. An end block of zero counts as none. -/
def lastBlock (context : OpticsContext) (domain : Domain) : Option ℕ → Except String ℕ
  | some (endBlock + 1) => .ok (endBlock + 1)
  | _ => context.getBlockNumber domain.id

/-- The bounds of the pages, in the loop of `getPaginatedEvents`. -/
def pages (p : Pagination) (lastBlock start : ℕ) : List (ℕ × ℕ) :=
  if start ≤ lastBlock then
    (start, min (start + p.blocks) lastBlock) :: pages p lastBlock (start + p.blocks)
  else []
termination_by lastBlock + 1 - start
decreasing_by
  have := p.blocks_pos
  omega

/-- The concatenated answers to the queries of the pages. -/
def fetchPages (chain : Chain α) (filter : α → Bool) (p : Pagination) (lastBlock start : ℕ) :
    List (TypedEvent α) :=
  (pages p lastBlock start).flatMap fun page =>
    chain.queryFilter filter (some page.1) (some page.2)

/-- `getPaginatedEvents`. -/
def getPaginatedEvents (context : OpticsContext) (domain : Domain) (chain : Chain α)
    (filter : α → Bool) (startBlock endBlock : Option ℕ) : Except String (List (TypedEvent α)) :=
  match domain.paginate with
  | none => .error "Domain need not be paginated"
  | some p => do
    let last ← lastBlock context domain endBlock
    .ok (fetchPages chain filter p last (firstBlock p startBlock))

/-- `getEvents`. -/
def getEvents (context : OpticsContext) (nameOrDomain : String ⊕ ℕ) (chain : Chain α)
    (filter : α → Bool) (startBlock endBlock : Option ℕ) :
    Except String (List (TypedEvent α)) := do
  let domain ← context.mustGetDomain nameOrDomain
  match domain.paginate with
  | some _ => getPaginatedEvents context domain chain filter startBlock endBlock
  | none => .ok (chain.queryFilter filter startBlock endBlock)

/-- `Annotated`: an event with its domain. -/
structure Annotated (α : Type) where
  domain : ℕ
  event : TypedEvent α

/-- `queryAnnotatedEvents`. -/
def queryAnnotatedEvents (context : OpticsContext) (nameOrDomain : String ⊕ ℕ) (chain : Chain α)
    (filter : α → Bool) (startBlock endBlock : Option ℕ) :
    Except String (List (Annotated α)) := do
  let events ← getEvents context nameOrDomain chain filter startBlock endBlock
  let domain ← context.resolveDomain nameOrDomain
  .ok (events.map fun event => ⟨domain, event⟩)

/-- The getters of `OpticsMessage` ask only for what they have not cached. -/
def getCached (context : OpticsContext) (nameOrDomain : String ⊕ ℕ) (chain : Chain α)
    (filter : α → Bool) (error : String) (cached : Option (Annotated α)) :
    Except String (Option (Annotated α)) :=
  match cached with
  | some event => .ok (some event)
  | none => do
    let logs ← queryAnnotatedEvents context nameOrDomain chain filter none none
    OpticsMessage.getEvent none logs error

section Getters

variable [DecidableEq Byte] (context : OpticsContext)

/-- `home.filters.Update(undefined, committedRoot)`. -/
def homeUpdateFilter (committedRoot : Bytes32 Byte) : Home.Event Byte → Bool
  | .Update _ u => u.oldRoot = committedRoot
  | _ => false

/-- `replica.filters.Update(undefined, committedRoot)`. -/
def replicaUpdateFilter (committedRoot : Bytes32 Byte) : Replica.Event Byte → Bool
  | .Update _ u => u.oldRoot = committedRoot
  | _ => false

/-- `replica.filters.Process(leaf)`. -/
def processFilter (leaf : Bytes32 Byte) : Replica.Event Byte → Bool
  | .Process messageHash _ _ => messageHash = leaf
  | _ => false

/-- `getHomeUpdate`. -/
def getHomeUpdate (origin : String ⊕ ℕ) (home : Chain (Home.Event Byte))
    (committedRoot : Bytes32 Byte) :
    Option (Annotated (Home.Event Byte)) → Except String (Option (Annotated (Home.Event Byte))) :=
  getCached context origin home (homeUpdateFilter committedRoot)
    "multiple home updates for same root"

/-- `getReplicaUpdate`. -/
def getReplicaUpdate (destination : String ⊕ ℕ) (replica : Chain (Replica.Event Byte))
    (committedRoot : Bytes32 Byte) :
    Option (Annotated (Replica.Event Byte)) →
      Except String (Option (Annotated (Replica.Event Byte))) :=
  getCached context destination replica (replicaUpdateFilter committedRoot)
    "multiple replica updates for same root"

/-- `getProcess`. -/
def getProcess (destination : String ⊕ ℕ) (replica : Chain (Replica.Event Byte))
    (leaf : Bytes32 Byte) :
    Option (Annotated (Replica.Event Byte)) →
      Except String (Option (Annotated (Replica.Event Byte))) :=
  getCached context destination replica (processFilter leaf)
    "multiple replica process for same message"

end Getters

/-! ### Pages that meet -/

section Pages

variable {chain : Chain α} {filter : α → Bool} {p : Pagination} {first middle last start : ℕ}
  {e : TypedEvent α}

theorem mem_within : e ∈ chain.within filter first last ↔
    e ∈ chain.logs ∧ filter e.args = true ∧ first ≤ e.blockNumber ∧ e.blockNumber ≤ last := by
  simp [Chain.within, and_assoc]

/-- The events of a range are those of its first part and then those of the rest. -/
theorem within_append (hfirst : first ≤ middle + 1) (hlast : middle ≤ last) :
    chain.within filter first last =
      chain.within filter first middle ++ chain.within filter (middle + 1) last := by
  have hordered := chain.ordered
  simp only [Chain.within]
  generalize chain.logs = logs at hordered
  induction logs with
  | nil => rfl
  | cons e logs ih =>
    obtain ⟨hlater, hrest⟩ := List.pairwise_cons.mp hordered
    rw [List.filter_cons, List.filter_cons, List.filter_cons, ih hrest]
    by_cases he : filter e.args = true ∧ first ≤ e.blockNumber ∧ e.blockNumber ≤ last
    · rcases Nat.lt_or_ge middle e.blockNumber with hright | hleft
      · -- all that follows is in the rest too, so the first part is over
        have hover : logs.filter (fun f => filter f.args && decide (first ≤ f.blockNumber) &&
            decide (f.blockNumber ≤ middle)) = [] := by
          refine List.filter_eq_nil_iff.mpr fun f hf => ?_
          have := hlater f hf
          simp only [Bool.and_eq_true, decide_eq_true_eq]
          omega
        simp [he, hover, Nat.not_le.mpr hright, Nat.succ_le_of_lt hright]
      · simp [he, hleft, Nat.not_le.mpr (Nat.lt_succ_of_le hleft)]
    · -- an event outside of the range is outside of both parts
      have hout : ∀ {low high : ℕ}, first ≤ low → high ≤ last →
          ¬(filter e.args && decide (low ≤ e.blockNumber) &&
            decide (e.blockNumber ≤ high)) = true := by
        intro low high hlow hhigh hin
        simp only [Bool.and_eq_true, decide_eq_true_eq] at hin
        exact he ⟨hin.1.1, hlow.trans hin.1.2, hin.2.trans hhigh⟩
      rw [if_neg (hout le_rfl le_rfl), if_neg (hout le_rfl hlast), if_neg (hout hfirst le_rfl)]

theorem within_eq_nil (h : last < first) : chain.within filter first last = [] := by
  refine List.eq_nil_iff_forall_not_mem.mpr fun e he => ?_
  obtain ⟨-, -, hlow, hhigh⟩ := mem_within.mp he
  omega

/-- A range without events at its end may as well be shorter. -/
theorem within_eq_of_le (hlast : middle ≤ last)
    (h : ∀ e ∈ chain.within filter first last, e.blockNumber ≤ middle) :
    chain.within filter first last = chain.within filter first middle := by
  refine List.filter_congr fun e he => ?_
  rw [Bool.eq_iff_iff]
  simp only [Bool.and_eq_true, decide_eq_true_eq]
  constructor
  · rintro ⟨⟨hfilter, hlow⟩, hhigh⟩
    exact ⟨⟨hfilter, hlow⟩, h e (mem_within.mpr ⟨he, hfilter, hlow, hhigh⟩)⟩
  · rintro ⟨hpre, hhigh⟩
    exact ⟨hpre, hhigh.trans hlast⟩

/-- The block is where a page of the range meets the one before it. -/
def Border (p : Pagination) (first block : ℕ) : Prop :=
  first < block ∧ p.blocks ∣ block - first

instance (p : Pagination) (first block : ℕ) : Decidable (Border p first block) :=
  inferInstanceAs (Decidable (_ ∧ _))

theorem fetchPages_of_le (h : start ≤ last) :
    fetchPages chain filter p last start =
      chain.within filter start (min (start + p.blocks) last) ++
        fetchPages chain filter p last (start + p.blocks) := by
  rw [fetchPages, pages, if_pos h]
  rfl

theorem fetchPages_of_lt (h : last < start) : fetchPages chain filter p last start = [] := by
  rw [fetchPages, pages, if_neg (Nat.not_le.mpr h)]
  rfl

/-- The pages bring back the whole range, in order. -/
theorem within_sublist (chain : Chain α) (filter : α → Bool) (p : Pagination) (last start : ℕ) :
    (chain.within filter start last).Sublist (fetchPages chain filter p last start) := by
  induction start using pages.induct p last with
  | case1 start hle ih =>
    have hsplit : chain.within filter start last =
        chain.within filter start (min (start + p.blocks) last) ++
          chain.within filter (min (start + p.blocks) last + 1) last :=
      within_append (by omega) (Nat.min_le_right _ _)
    rw [fetchPages_of_le hle, hsplit]
    refine (List.Sublist.refl _).append (List.Sublist.trans ?_ ih)
    -- what is left of the range begins one block after the next page does
    rcases Nat.le_total (start + p.blocks) last with hnext | hend
    · rw [Nat.min_eq_left hnext, within_append (Nat.le_succ _) hnext]
      exact List.sublist_append_right _ _
    · rw [Nat.min_eq_right hend, within_eq_nil (Nat.lt_succ_self _)]
      exact List.nil_sublist _
  | case2 start hlt =>
    rw [within_eq_nil (Nat.lt_of_not_le hlt)]
    exact List.nil_sublist _

theorem border_next {block : ℕ} (h : Border p (start + p.blocks) block) : Border p start block := by
  obtain ⟨hlt, k, hk⟩ := h
  refine ⟨by omega, k + 1, ?_⟩
  rw [Nat.mul_succ, ← hk]
  omega

/-- Without events where pages meet, the pages bring back nothing else. -/
theorem fetchPages_eq (h : ∀ e ∈ chain.within filter start last, ¬Border p start e.blockNumber) :
    fetchPages chain filter p last start = chain.within filter start last := by
  induction start using pages.induct p last with
  | case1 start hle ih =>
    have hrest : fetchPages chain filter p last (start + p.blocks) =
        chain.within filter (start + p.blocks) last := by
      refine ih fun e he hborder => ?_
      obtain ⟨hmem, hfilter, hlow, hhigh⟩ := mem_within.mp he
      exact h e (mem_within.mpr ⟨hmem, hfilter, by omega, hhigh⟩) (border_next hborder)
    rw [fetchPages_of_le hle, hrest]
    rcases Nat.lt_or_ge last (start + p.blocks) with hend | hnext
    · rw [Nat.min_eq_right hend.le, within_eq_nil hend, List.append_nil]
    · -- nothing was emitted in the block that is asked for twice
      have hnone : chain.within filter (start + p.blocks) (start + p.blocks) = [] := by
        refine List.eq_nil_iff_forall_not_mem.mpr fun e he => ?_
        obtain ⟨hmem, hfilter, hlow, hhigh⟩ := mem_within.mp he
        have hpos := p.blocks_pos
        exact h e (mem_within.mpr ⟨hmem, hfilter, by omega, by omega⟩) ⟨by omega, 1, by omega⟩
      rw [Nat.min_eq_left hnext, within_append (Nat.le_succ _) hnext, hnone, List.nil_append,
        ← within_append (by omega) hnext]
  | case2 start hlt =>
    rw [fetchPages_of_lt (Nat.lt_of_not_le hlt), within_eq_nil (Nat.lt_of_not_le hlt)]

/-- An event in a block where pages meet comes back more than once. -/
theorem length_within_lt (he : e ∈ chain.within filter start last)
    (hborder : Border p start e.blockNumber) :
    (chain.within filter start last).length < (fetchPages chain filter p last start).length := by
  induction start using pages.induct p last with
  | case1 start hle ih =>
    obtain ⟨hmem, hfilter, hlow, hhigh⟩ := mem_within.mp he
    obtain ⟨hlt, k, hk⟩ := hborder
    obtain ⟨k, rfl⟩ : ∃ n, k = n + 1 := Nat.exists_eq_succ_of_ne_zero (by rintro rfl; omega)
    rw [Nat.mul_succ] at hk
    have hnext : start + p.blocks ≤ last := by omega
    have hwhole : chain.within filter start last =
        chain.within filter start (start + p.blocks) ++
          chain.within filter (start + p.blocks + 1) last := within_append (by omega) hnext
    have hrest : chain.within filter (start + p.blocks) last =
        chain.within filter (start + p.blocks) (start + p.blocks) ++
          chain.within filter (start + p.blocks + 1) last := within_append (Nat.le_succ _) hnext
    have hpages := (within_sublist chain filter p last (start + p.blocks)).length_le
    have hlength := congrArg List.length hrest
    rw [fetchPages_of_le hle, Nat.min_eq_left hnext, hwhole, List.length_append, List.length_append]
    rw [List.length_append] at hlength
    cases k with
    | zero =>
      -- the pages meet here for the first time
      have hhere : e ∈ chain.within filter (start + p.blocks) (start + p.blocks) :=
        mem_within.mpr ⟨hmem, hfilter, by omega, by omega⟩
      have hpos := List.length_pos_of_mem hhere
      omega
    | succ k =>
      rw [Nat.mul_succ] at hk
      have hpos := p.blocks_pos
      have hmore := ih (mem_within.mpr ⟨hmem, hfilter, by omega, hhigh⟩)
        ⟨by omega, k + 1, by rw [Nat.mul_succ]; omega⟩
      omega
  | case2 start hlt =>
    rw [within_eq_nil (Nat.lt_of_not_le hlt)] at he
    cases he

end Pages

/-! ### Pages and single queries -/

section Single

variable {context : OpticsContext} {domain : Domain} {p : Pagination} {chain : Chain α}
  {filter : α → Bool} {startBlock endBlock : Option ℕ}

/-- The same range in a single query: from the first block to the end block, or to the
current block if no end is given. -/
def getRange (context : OpticsContext) (domain : Domain) (p : Pagination) (chain : Chain α)
    (filter : α → Bool) (startBlock endBlock : Option ℕ) : Except String (List (TypedEvent α)) := do
  let last ← lastBlock context domain endBlock
  .ok (chain.queryFilter filter (some (firstBlock p startBlock)) (some (endBlock.getD last)))

/-- No event that the code comes across is in a block where two pages meet, or beyond the
end block. -/
def Clear (context : OpticsContext) (domain : Domain) (p : Pagination) (chain : Chain α)
    (filter : α → Bool) (startBlock endBlock : Option ℕ) : Prop :=
  ∀ last, lastBlock context domain endBlock = .ok last →
    ∀ e ∈ chain.queryFilter filter (some (firstBlock p startBlock)) (some last),
      ¬Border p (firstBlock p startBlock) e.blockNumber ∧ e.blockNumber ≤ endBlock.getD last

/-- The end block is the last block, unless it is zero. -/
theorem getD_le_of_lastBlock {last : ℕ} (h : lastBlock context domain endBlock = .ok last) :
    endBlock.getD last ≤ last := by
  match endBlock with
  | none => exact le_rfl
  | some 0 => exact Nat.zero_le _
  | some (n + 1) => exact (Except.ok.inj h).le

/-- The pages are the single query just when nothing is found twice, or beyond its end. -/
theorem getPaginatedEvents_eq_iff (hpaginate : domain.paginate = some p) :
    getPaginatedEvents context domain chain filter startBlock endBlock =
        getRange context domain p chain filter startBlock endBlock ↔
      Clear context domain p chain filter startBlock endBlock := by
  simp only [getPaginatedEvents, hpaginate, getRange, Clear]
  cases hlast : lastBlock context domain endBlock with
  | error e => simp
  | ok last =>
    have hend := getD_le_of_lastBlock hlast
    simp only [ok_bind, Except.ok.injEq, forall_eq', Chain.queryFilter, Option.getD_some]
    generalize firstBlock p startBlock = first
    constructor
    · intro heq
      have hsub := within_sublist chain filter p last first
      have hshort : ∀ e ∈ chain.within filter first last, e.blockNumber ≤ endBlock.getD last := by
        intro e he
        have hmem := hsub.subset he
        rw [heq] at hmem
        exact (mem_within.mp hmem).2.2.2
      refine fun e he => ⟨fun hborder => ?_, hshort e he⟩
      have hmore := length_within_lt he hborder
      rw [heq, within_eq_of_le hend hshort] at hmore
      exact Nat.lt_irrefl _ hmore
    · intro hclear
      rw [fetchPages_eq fun e he => (hclear e he).1]
      exact within_eq_of_le hend fun e he => (hclear e he).2

end Single

/-! ### The callers -/

section Callers

variable {context : OpticsContext} {nameOrDomain : String ⊕ ℕ} {domain : Domain}
  {p : Pagination} {chain : Chain α} {filter : α → Bool}

/-- What the callers make of the events, when the number of the domain is known. -/
theorem getCached_eq {number : ℕ} {events : List (TypedEvent α)} (error : String)
    (hresolve : context.resolveDomain nameOrDomain = .ok number)
    (hevents : getEvents context nameOrDomain chain filter none none = .ok events) :
    getCached context nameOrDomain chain filter error none =
      OpticsMessage.getEvent none (events.map fun event => (⟨number, event⟩ : Annotated α))
        error := by
  rw [getCached, queryAnnotatedEvents, hevents, ok_bind, hresolve]
  rfl

/-- A list with more than one event is an error. -/
theorem getEvent_of_lt {events : List α} (error : String) (h : 1 < events.length) :
    OpticsMessage.getEvent none events error = .error error := by
  match events with
  | [] => cases h
  | [_] => exact absurd h (Nat.lt_irrefl 1)
  | _ :: _ :: _ => rfl

/-- A domain that begins before the contract is asked for all that the contract emitted. -/
theorem within_eq_queryFilter (hdeployed : ∀ e ∈ chain.logs, p.fromBlock ≤ e.blockNumber) :
    chain.within filter p.fromBlock chain.blockNumber = chain.queryFilter filter none none := by
  refine List.filter_congr fun e he => ?_
  simp [hdeployed e he]

/-- The callers can tell the pages from a single query only by an event that is the only
one, and in a block where two pages meet. -/
theorem getCached_eq_unpaginated_iff (hdomain : context.mustGetDomain nameOrDomain = .ok domain)
    (hpaginate : domain.paginate = some p)
    (hcurrent : context.getBlockNumber domain.id = .ok chain.blockNumber)
    (hdeployed : ∀ e ∈ chain.logs, p.fromBlock ≤ e.blockNumber) (error : String)
    (cached : Option (Annotated α)) :
    getCached context nameOrDomain chain filter error cached =
        getCached context.unpaginated nameOrDomain chain filter error cached ↔
      (cached = none → ∀ e, chain.queryFilter filter none none = [e] →
        ¬Border p p.fromBlock e.blockNumber) := by
  cases cached with
  | some event => simp [getCached]
  | none =>
    obtain ⟨number, hresolve, -⟩ := bind_eq_ok.mp hdomain
    have hpages : getEvents context nameOrDomain chain filter none none =
        .ok (fetchPages chain filter p chain.blockNumber p.fromBlock) := by
      simp [getEvents, hdomain, hpaginate, getPaginatedEvents, lastBlock, hcurrent, firstBlock]
    have hsingle : getEvents context.unpaginated nameOrDomain chain filter none none =
        .ok (chain.queryFilter filter none none) := by
      rw [getEvents, OpticsContext.mustGetDomain_unpaginated hdomain]
      rfl
    have hsingle_le := (within_sublist chain filter p chain.blockNumber p.fromBlock).length_le
    rw [getCached_eq error hresolve hpages, getCached_eq error
      ((OpticsContext.resolveDomain_unpaginated _ _).trans hresolve) hsingle]
    rw [← within_eq_queryFilter hdeployed]
    constructor
    · rintro heq - e he hborder
      -- one event has become two or more, and the caller throws
      have hmore := length_within_lt (he ▸ List.mem_singleton_self e) hborder
      rw [he] at heq hmore
      rw [getEvent_of_lt error (by rwa [List.length_map])] at heq
      cases heq
    · intro hclear
      match hlist : chain.within filter p.fromBlock chain.blockNumber with
      | [] =>
        rw [fetchPages_eq (by simp [hlist]), hlist]
      | [e] =>
        have hborder := hclear rfl e hlist
        rw [fetchPages_eq (by simpa [hlist] using hborder), hlist]
      | _ :: _ :: _ =>
        have hmany : 1 < (fetchPages chain filter p chain.blockNumber p.fromBlock).length := by
          rw [hlist, List.length_cons, List.length_cons] at hsingle_le
          omega
        rw [getEvent_of_lt error (by rwa [List.length_map]), getEvent_of_lt error (by simp)]

end Callers

/-- **Pages of events.** The pages bring back what a single query of the same range brings
back if and only if none of the events is in a block where two pages meet, or beyond an
end block of zero. The callers that expect at most one event answer as they do without
pages if and only if no such block holds the only event. -/
theorem pages_eq_single_iff (context : OpticsContext) (domain : Domain) (p : Pagination)
    (chain : Chain α) (filter : α → Bool) (hpaginate : domain.paginate = some p) :
    (∀ startBlock endBlock,
      getPaginatedEvents context domain chain filter startBlock endBlock =
          getRange context domain p chain filter startBlock endBlock ↔
        Clear context domain p chain filter startBlock endBlock) ∧
    ∀ nameOrDomain, context.mustGetDomain nameOrDomain = .ok domain →
      context.getBlockNumber domain.id = .ok chain.blockNumber →
      (∀ e ∈ chain.logs, p.fromBlock ≤ e.blockNumber) → ∀ error cached,
        (getCached context nameOrDomain chain filter error cached =
            getCached context.unpaginated nameOrDomain chain filter error cached ↔
          (cached = none → ∀ e, chain.queryFilter filter none none = [e] →
            ¬Border p p.fromBlock e.blockNumber)) :=
  ⟨fun _ _ => getPaginatedEvents_eq_iff hpaginate, fun _ hdomain hcurrent hdeployed =>
    getCached_eq_unpaginated_iff hdomain hpaginate hcurrent hdeployed⟩

/-! ### An update where two pages meet -/

section Sample

/-- The domain `polygon`, in pages of 100 blocks. -/
def polygon : Domain := ⟨1886350457, "polygon", some ⟨100, 18895794, by decide⟩⟩

/-- A Home on it that has accepted one update, in the current block. -/
def updatedAt (blockNumber : ℕ) : Chain (Home.Event ℕ) where
  blockNumber := blockNumber
  logs := [⟨blockNumber, .Update 1886350457 ⟨0, 0, []⟩⟩]
  ordered := List.pairwise_singleton _ _
  mined _ he := (congrArg TypedEvent.blockNumber (List.mem_singleton.mp he)).le

/-- The SDK with a provider that knows the current block. -/
def polygonContext (blockNumber : ℕ) : OpticsContext := ⟨[polygon], fun _ => some blockNumber⟩

/-- An update one block after the pages meet is found once. -/
theorem pages_eq_single_between :
    getPaginatedEvents (polygonContext 18895895) polygon (updatedAt 18895895) (homeUpdateFilter 0)
        none none =
      getRange (polygonContext 18895895) polygon ⟨100, 18895794, by decide⟩ (updatedAt 18895895)
        (homeUpdateFilter 0) none none := by
  refine ((pages_eq_single_iff _ _ _ _ _ rfl).1 none none).mpr ?_
  intro last hlast e he
  obtain rfl := Except.ok.inj hlast
  obtain rfl := List.mem_singleton.mp (mem_within.mp he).1
  exact ⟨by decide, le_rfl⟩

/-- An update in the block where the pages meet is found twice, and `getHomeUpdate` throws
for it. Without pages it is found. -/
theorem polygon_update_twice :
    ∃ e, getPaginatedEvents (polygonContext 18895894) polygon (updatedAt 18895894)
          (homeUpdateFilter 0) none none = .ok [e, e] ∧
      (updatedAt 18895894).queryFilter (homeUpdateFilter 0) (some 18895794) (some 18895894) = [e] ∧
      getHomeUpdate (polygonContext 18895894) (.inl "polygon") (updatedAt 18895894) 0 none =
        .error "multiple home updates for same root" ∧
      getHomeUpdate (polygonContext 18895894).unpaginated (.inl "polygon") (updatedAt 18895894) 0
        none = .ok (some ⟨1886350457, e⟩) := by
  have htwice : getPaginatedEvents (polygonContext 18895894) polygon (updatedAt 18895894)
      (homeUpdateFilter 0) none none = .ok [⟨18895894, .Update 1886350457 ⟨0, 0, []⟩⟩,
        ⟨18895894, .Update 1886350457 ⟨0, 0, []⟩⟩] := by
    change Except.ok (fetchPages _ _ _ 18895894 18895794) = _
    rw [fetchPages_of_le (by decide), fetchPages_of_le (by decide), fetchPages_of_lt (by decide)]
    rfl
  have hresolve : (polygonContext 18895894).resolveDomain (.inl "polygon") = .ok 1886350457 := by
    simp [OpticsContext.resolveDomain, polygonContext, polygon]
  have hdomain : (polygonContext 18895894).mustGetDomain (.inl "polygon") = .ok polygon := by
    rw [OpticsContext.mustGetDomain, hresolve]
    rfl
  refine ⟨_, htwice, rfl, ?_, ?_⟩
  · have hevents : getEvents (polygonContext 18895894) (.inl "polygon") (updatedAt 18895894)
        (homeUpdateFilter 0) none none = getPaginatedEvents (polygonContext 18895894) polygon
          (updatedAt 18895894) (homeUpdateFilter 0) none none := by
      rw [getEvents, hdomain]
      rfl
    rw [getHomeUpdate, getCached_eq _ hresolve (hevents.trans htwice)]
    rfl
  · have hevents : getEvents (polygonContext 18895894).unpaginated (.inl "polygon")
        (updatedAt 18895894) (homeUpdateFilter 0) none none =
          .ok ((updatedAt 18895894).queryFilter (homeUpdateFilter 0) none none) := by
      rw [getEvents, OpticsContext.mustGetDomain_unpaginated hdomain]
      rfl
    rw [getHomeUpdate, getCached_eq _
      ((OpticsContext.resolveDomain_unpaginated _ _).trans hresolve) hevents]
    rfl

end Sample

end Optics.Fetch
