/-
# Links that never come back

Links lead from node to node, each from where the last one ended. When no node is
met twice, a link is known by the node that it leaves and by the node that it
enters. A walker that goes forward from some node and one that goes backward from
the same node then meet every link once, and each of them stops.
-/

import Mathlib.Data.List.Nodup
import Mathlib.Data.List.TakeDrop

namespace Optics.Math

variable {κ υ : Type*}

/-- The two ends of a link. -/
structure Ends (κ υ : Type*) where
  source : υ → κ
  target : υ → κ

namespace Ends

variable (E : Ends κ υ)

/-- Each link starts where the one before it ended. -/
def Chain : κ → List υ → Prop
  | _, [] => True
  | start, u :: rest => E.source u = start ∧ Chain (E.target u) rest

/-- The nodes that are met, from the first one on. -/
def nodes (start : κ) (links : List υ) : List κ := start :: links.map E.target

/-- A chain that meets no node twice. -/
structure Simple (start : κ) (links : List υ) : Prop where
  chain : E.Chain start links
  nodup : (E.nodes start links).Nodup

variable {E} {start : κ} {links more : List υ} {u v : υ} {i j : ℕ}

@[simp] theorem length_nodes : (E.nodes start links).length = links.length + 1 := by simp [nodes]

@[simp] theorem getElem?_nodes_zero : (E.nodes start links)[0]? = some start := rfl

theorem getElem?_nodes_succ (h : links[i]? = some u) :
    (E.nodes start links)[i + 1]? = some (E.target u) := by
  simp [nodes, h]

theorem nodes_append :
    E.nodes start (links ++ more) = E.nodes start links ++ more.map E.target := by
  simp [nodes]

/-- A link leaves the node at its own position. -/
theorem Chain.getElem?_nodes (h : E.Chain start links) (hi : links[i]? = some u) :
    (E.nodes start links)[i]? = some (E.source u) := by
  induction links generalizing start i with
  | nil => simp at hi
  | cons v rest ih =>
    cases i with
    | zero =>
      obtain rfl : v = u := by simpa using hi
      rw [getElem?_nodes_zero, h.1]
    | succ i => exact ih h.2 (by simpa using hi)

theorem Chain.of_append (h : E.Chain start (links ++ more)) : E.Chain start links := by
  induction links generalizing start with
  | nil => trivial
  | cons v rest ih => exact ⟨h.1, ih h.2⟩

/-- A link leaves the node that the one before it enters. -/
theorem Chain.source_eq (h : E.Chain start (links ++ [u])) (hlast : links.getLast? = some v) :
    E.source u = E.target v := by
  have hu := h.getElem?_nodes (List.getElem?_concat_length ..)
  rw [List.getLast?_eq_getElem?] at hlast
  have hlt : links.length - 1 < links.length := (List.getElem?_eq_some_iff.mp hlast).1
  have hv : (links ++ [u])[links.length - 1]? = some v := by
    rwa [List.getElem?_append_left hlt]
  have hend : (E.nodes start (links ++ [u]))[links.length - 1 + 1]? = some (E.target v) :=
    getElem?_nodes_succ hv
  rw [Nat.sub_add_cancel (by omega), hu] at hend
  exact Option.some.inj hend

namespace Simple

theorem node_unique (h : E.Simple start links) {x : κ}
    (hi : (E.nodes start links)[i]? = some x) (hj : (E.nodes start links)[j]? = some x) : i = j :=
  (List.getElem?_inj (List.getElem?_eq_some_iff.mp hi).1 h.nodup).mp (hi.trans hj.symm)

/-- Where a link starts tells its position. -/
theorem index_of_source (h : E.Simple start links) (hi : links[i]? = some u)
    (hj : (E.nodes start links)[j]? = some (E.source u)) : i = j :=
  h.node_unique (h.chain.getElem?_nodes hi) hj

/-- Where a link ends tells its position. -/
theorem index_of_target (h : E.Simple start links) (hi : links[i]? = some u)
    (hj : (E.nodes start links)[j]? = some (E.target u)) : i + 1 = j :=
  h.node_unique (getElem?_nodes_succ hi) hj

/-- The last links of a simple chain are a simple chain. -/
theorem of_append (h : E.Simple start (links ++ more)) : ∃ middle, E.Simple middle more := by
  induction links generalizing start with
  | nil => exact ⟨start, h⟩
  | cons u rest ih => exact ih ⟨h.chain.2, (List.nodup_cons.mp h.nodup).2⟩

/-- And so are the first ones. -/
theorem of_isPrefix (h : E.Simple start more) (hle : links <+: more) : E.Simple start links := by
  obtain ⟨rest, rfl⟩ := hle
  refine ⟨h.chain.of_append, ?_⟩
  have hnodup := h.nodup
  rw [nodes_append] at hnodup
  exact hnodup.of_append_left

theorem links_nodup (h : E.Simple start links) : links.Nodup :=
  List.Nodup.of_map E.target (List.nodup_cons.mp h.nodup).2

/-- Nothing in a chain leaves the node at which it ends. -/
theorem target_last_ne_source (h : E.Simple start links) (hu : u ∈ links)
    (hlast : links.getLast? = some v) : E.target v ≠ E.source u := by
  obtain ⟨i, hi⟩ := List.mem_iff_getElem?.mp hu
  have hlt : i < links.length := (List.getElem?_eq_some_iff.mp hi).1
  rw [List.getLast?_eq_getElem?] at hlast
  have hend : (E.nodes start links)[links.length - 1 + 1]? = some (E.target v) :=
    getElem?_nodes_succ hlast
  intro heq
  have hindex := h.index_of_source hi (heq ▸ hend)
  omega

theorem eq_of_source (h : E.Simple start links) (hu : u ∈ links) (hv : v ∈ links)
    (heq : E.source u = E.source v) : u = v := by
  obtain ⟨i, hi⟩ := List.mem_iff_getElem?.mp hu
  obtain ⟨j, hj⟩ := List.mem_iff_getElem?.mp hv
  have hij := h.index_of_source hi (heq ▸ h.chain.getElem?_nodes hj)
  rw [hij, hj] at hi
  exact (Option.some.inj hi).symm

theorem eq_of_target (h : E.Simple start links) (hu : u ∈ links) (hv : v ∈ links)
    (heq : E.target u = E.target v) : u = v := by
  obtain ⟨i, hi⟩ := List.mem_iff_getElem?.mp hu
  obtain ⟨j, hj⟩ := List.mem_iff_getElem?.mp hv
  have hij := h.index_of_target hi (heq ▸ getElem?_nodes_succ hj)
  rw [Nat.succ.inj hij, hj] at hi
  exact (Option.some.inj hi).symm

/-- A link moves one position further. -/
theorem idxOf_target [DecidableEq κ] (h : E.Simple start links) (hu : u ∈ links) :
    (E.nodes start links).idxOf (E.target u) = (E.nodes start links).idxOf (E.source u) + 1 ∧
      (E.nodes start links).idxOf (E.source u) < links.length := by
  obtain ⟨i, hi⟩ := List.mem_iff_getElem?.mp hu
  have hsource := h.chain.getElem?_nodes hi
  have htarget : (E.nodes start links)[i + 1]? = some (E.target u) := getElem?_nodes_succ hi
  have hfrom := h.node_unique hsource (List.getElem?_idxOf (List.mem_of_getElem? hsource))
  have hto := h.node_unique htarget (List.getElem?_idxOf (List.mem_of_getElem? htarget))
  refine ⟨?_, ?_⟩
  · rw [← hfrom, ← hto]
  · rw [← hfrom]
    exact (List.getElem?_eq_some_iff.mp hi).1

end Simple

end Ends

/-! ### Stretches of a chain -/

/-- The links from position `lo` on, up to position `hi`. -/
def span (links : List υ) (lo hi : ℕ) : List υ := (links.take hi).drop lo

section Span

variable {links more : List υ} {u : υ} {lo mid hi : ℕ}

@[simp] theorem span_self : span links lo lo = [] := by
  apply List.drop_eq_nil_of_le
  exact List.length_take_le ..

theorem length_span (h : hi ≤ links.length) : (span links lo hi).length = hi - lo := by
  rw [span, List.length_drop, List.length_take_of_le h]

/-- One link further at the end. -/
theorem span_succ (h : links[hi]? = some u) (hle : lo ≤ hi) :
    span links lo (hi + 1) = span links lo hi ++ [u] := by
  have hlength : lo ≤ (links.take hi).length := by
    rw [List.length_take_of_le (Nat.le_of_lt (List.getElem?_eq_some_iff.mp h).1)]
    exact hle
  rw [span, span, List.take_add_one, h, Option.toList_some, List.drop_append_of_le_length hlength]

/-- One link further at the beginning. -/
theorem span_pred (h : links[lo]? = some u) (hlt : lo < hi) :
    span links lo hi = u :: span links (lo + 1) hi := by
  have hat : (links.take hi)[lo]? = some u := by rw [List.getElem?_take_of_lt hlt, h]
  obtain ⟨hlength, hget⟩ := List.getElem?_eq_some_iff.mp hat
  rw [span, span, List.drop_eq_getElem_cons hlength, hget]

theorem span_append (h : hi ≤ links.length) : span (links ++ more) lo hi = span links lo hi := by
  rw [span, span, List.take_append_of_le_length h]

theorem mem_span_of_mem (h : u ∈ links) (hle : links.length ≤ hi) :
    u ∈ span (links ++ more) 0 hi := by
  rw [span, List.drop_zero, List.take_append]
  apply List.mem_append_left
  rwa [List.take_of_length_le hle]

/-- Two stretches that meet make up the whole. -/
theorem mem_span_or (h : u ∈ span links 0 hi) (hmid : mid ≤ hi) :
    u ∈ span links 0 mid ∨ u ∈ span links mid hi := by
  rw [span, List.drop_zero] at h ⊢
  rw [← List.take_append_drop mid (links.take hi), List.take_take, Nat.min_eq_left hmid] at h
  exact List.mem_append.mp h

/-- A chain of links of a simple chain is a stretch of it, from the position at which it
starts to the position at which it ends. -/
theorem Ends.Simple.eq_span {E : Ends κ υ} {start x : κ} {path : List υ}
    (h : E.Simple start links) (hchain : E.Chain x path) (hpath : ∀ u ∈ path, u ∈ links)
    (hx : (E.nodes start links)[lo]? = some x) :
    path = span links lo (lo + path.length) ∧ lo + path.length ≤ links.length ∧
      (E.nodes start links)[lo + path.length]? = (E.nodes x path)[path.length]? := by
  induction path generalizing lo x with
  | nil =>
    have hlt := (List.getElem?_eq_some_iff.mp hx).1
    rw [Ends.length_nodes] at hlt
    exact ⟨span_self.symm, Nat.le_of_lt_succ hlt, hx⟩
  | cons u rest ih =>
    obtain ⟨rfl, hrest⟩ := hchain
    obtain ⟨i, hi⟩ := List.mem_iff_getElem?.mp (hpath u List.mem_cons_self)
    obtain rfl := h.index_of_source hi hx
    obtain ⟨heq, hle, hlast⟩ := ih hrest (fun v hv => hpath v (List.mem_cons_of_mem _ hv))
      (Ends.getElem?_nodes_succ hi)
    have hlength : i + (u :: rest).length = i + 1 + rest.length := by
      rw [List.length_cons]
      omega
    rw [hlength]
    refine ⟨?_, hle, hlast⟩
    rw [span_pred hi (by omega), ← heq]

end Span

end Optics.Math
