import Mpx.Heap.Blocks
import Mpx.Library.Links

/-! # The searches of the allocator

Each loop follows `p_next` from a list head. On a null-terminated list it ends, and its result is
a function of the list. -/

namespace Mpx.Heap
open Library.ByteMemory Library.Links

abbrev next (m : Mem) (a : Nat) : Nat := get m a .pNext
abbrev prev (m : Mem) (a : Nat) : Nat := get m a .pPrev

variable {m : Mem} {head fuel : Nat} {l A B : List Nat}

/-- First fit: the first block of the list that is large enough, and whether it is handed out whole. -/
theorem findFit_chain {size : Nat} (chain : Chain (next m) 0 head l) (enough : l.length < fuel)
    (nowrap : size + mcbSize < 2 ^ 32) :
    findFit m size fuel head =
      some (match l.find? (fun a => size ≤ get m a .blkSize) with
        | none => (0, false)
        | some a => (a, decide (get m a .blkSize ≤ size + mcbSize))) := by
  induction l generalizing head fuel with
  | nil =>
    cases fuel with
    | zero => cases enough
    | succ fuel =>
      rw [chain_nil_iff.mp chain]
      rfl
  | cons x l ih =>
    obtain ⟨rfl, nonnull, rest⟩ := chain_cons_iff.mp chain
    cases fuel with
    | zero => cases enough
    | succ fuel =>
      have whole : word (size + mcbSize) = size + mcbSize := Nat.mod_eq_of_lt nowrap
      simp only [findFit, if_neg nonnull, whole, List.find?_cons]
      by_cases fits : size ≤ get m head .blkSize
      · rw [if_pos (by simp only [Bool.and_eq_true, decide_eq_true_eq]; omega)]
        simp [fits]
      · rw [if_neg (by simp only [Bool.and_eq_true, decide_eq_true_eq, mcbSize]; omega)]
        simpa [fits] using ih rest (by simpa using enough)

/-- The blocks on either side of `target` in an address-ordered list. -/
theorem findNeighbours_chain {target select : Nat} (chain : Chain (next m) 0 head (A ++ B))
    (below : ∀ a ∈ A, a ≤ target) (above : ∀ b ∈ B, target < b) (enough : (A ++ B).length < fuel) :
    findNeighbours m target fuel select head = some (A.getLastD select, B.headD 0) := by
  induction A generalizing head fuel select with
  | nil =>
    cases fuel with
    | zero => cases enough
    | succ fuel =>
      rw [findNeighbours]
      cases B with
      | nil =>
        have null : head = 0 := chain.head
        rw [if_pos null, null]
        rfl
      | cons b B =>
        obtain ⟨rfl, nonnull, _⟩ := chain_cons_iff.mp chain
        rw [if_neg nonnull, if_pos (above head List.mem_cons_self)]
        rfl
  | cons a A ih =>
    obtain ⟨rfl, nonnull, rest⟩ := chain_cons_iff.mp chain
    cases fuel with
    | zero => cases enough
    | succ fuel =>
      have low := below head List.mem_cons_self
      rw [findNeighbours, if_neg nonnull, if_neg (by omega),
        ih rest (fun a ha => below a (List.mem_cons_of_mem _ ha)) (by simpa using enough),
        List.getLastD_cons]

theorem findAlloc_chain {tofree : Nat} (chain : Chain (next m) 0 head l) (enough : l.length < fuel) :
    findAlloc m tofree fuel head = some (if tofree ∈ l then tofree else 0) := by
  induction l generalizing head fuel with
  | nil =>
    cases fuel with
    | zero => cases enough
    | succ fuel =>
      rw [chain_nil_iff.mp chain]
      rfl
  | cons x l ih =>
    obtain ⟨rfl, nonnull, rest⟩ := chain_cons_iff.mp chain
    cases fuel with
    | zero => cases enough
    | succ fuel =>
      rw [findAlloc, if_neg nonnull]
      by_cases found : head = tofree
      · subst found
        simp
      · rw [if_neg found, ih rest (by simpa using enough)]
        simp [Ne.symm found]

end Mpx.Heap
