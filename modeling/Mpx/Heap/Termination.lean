import Mpx.Heap.Guarantees

/-! # Every search ends

The loops of the allocator stop at NULL or at an address. They come to a stop when the lists they
follow are finite. -/

namespace Mpx.Heap
open Library.ByteMemory Library.Links Library.Transition

variable {base limit size x n fuel head : Nat} {s : Session} {bs : List Block} {h : HeapState} {m : Mem} {l ring : List Nat}

/-- A call returns, whatever its argument. -/
structure Returns (h : HeapState) : Prop where
  allocate : ∀ size, ∃ result, allocateMemory h size = some result
  free : ∀ ptr, ∃ result, freeMemory h ptr = some result

/-- The chains from both heads come to NULL. -/
structure Finite (h : HeapState) : Prop where
  free : ∃ l, Chain (next h.mem) 0 h.freeHead l
  used : ∃ l, Chain (next h.mem) 0 h.allocHead l

theorem findFit_ends (size : Nat) (chain : Chain (next m) 0 head l) (enough : l.length < fuel) :
    ∃ found, findFit m size fuel head = some found := by
  induction l generalizing head fuel with
  | nil =>
    cases fuel with
    | zero => cases enough
    | succ fuel =>
      rw [chain_nil_iff.mp chain]
      exact ⟨_, rfl⟩
  | cons x l ih =>
    obtain ⟨rfl, nonnull, rest⟩ := chain_cons_iff.mp chain
    cases fuel with
    | zero => cases enough
    | succ fuel =>
      simp only [findFit, if_neg nonnull]
      split
      · exact ⟨_, rfl⟩
      · apply ih rest
        simpa using enough

theorem findNeighbours_ends (target select : Nat) (chain : Chain (next m) 0 head l) (enough : l.length < fuel) :
    ∃ found, findNeighbours m target fuel select head = some found := by
  induction l generalizing head fuel select with
  | nil =>
    cases fuel with
    | zero => cases enough
    | succ fuel =>
      rw [chain_nil_iff.mp chain]
      exact ⟨_, rfl⟩
  | cons x l ih =>
    obtain ⟨rfl, nonnull, rest⟩ := chain_cons_iff.mp chain
    cases fuel with
    | zero => cases enough
    | succ fuel =>
      simp only [findNeighbours, if_neg nonnull]
      split
      · exact ⟨_, rfl⟩
      · exact ih _ rest (by simpa using enough)

theorem allocate_returns (L : Layout base limit h bs) (size : Nat) :
    ∃ result, allocateMemory h size = some result := by
  obtain ⟨⟨select, replace⟩, fit⟩ := findFit_ends size L.free (L.short .free)
  simp only [allocateMemory, L.isinit, fit, Bool.not_true, Bool.false_eq_true, if_false, Option.bind_eq_bind,
    Option.bind_some]
  by_cases none : select = 0
  · rw [if_pos none]
    exact ⟨_, rfl⟩
  · obtain ⟨⟨before, behind⟩, found⟩ :=
      findNeighbours_ends select 0 L.used (L.short .used)
    rw [if_neg none, found]
    exact ⟨_, rfl⟩

theorem free_returns (L : Layout base limit h bs) (ptr : Nat) : ∃ result, freeMemory h ptr = some result := by
  by_cases listed : word (ptr + 2 ^ 32 - mcbSize) ∈ addrs .used bs
  · obtain ⟨b, member, used, at_b⟩ := mem_addrs.mp listed
    obtain ⟨pre, post, rfl⟩ := List.append_of_mem member
    obtain ⟨x, n, kind⟩ := b
    obtain rfl : kind = .used := used
    obtain ⟨h', _, freed, _⟩ := free_refines L
    have x_lt := L.headers.lt x (by simp)
    -- `ptr` counts only by the control block that it names.
    have header : word (x + mcbSize + 2 ^ 32 - mcbSize) = x := by
      unfold word
      omega
    have same : freeMemory h ptr = freeMemory h (x + mcbSize) := by
      unfold freeMemory
      rw [header, ← show x = word (ptr + 2 ^ 32 - mcbSize) from at_b]
    exact ⟨_, same.trans freed⟩
  · exact ⟨_, free_unlisted L listed⟩

/-- As long as each fit is linked as the code assumes, the lists are finite and every further call
returns. -/
theorem heap_terminates
    (reached : Reaches (Starts base size) (fun s c => c.Valid ∧ c.FitLinked s.heap) step s) :
    Finite s.heap ∧ Returns s.heap := by
  obtain ⟨bs, held⟩ := reaches_held reached
  have layout := held.layout
  exact ⟨⟨⟨_, layout.free⟩, ⟨_, layout.used⟩⟩, ⟨allocate_returns layout, free_returns layout⟩⟩

theorem heap_terminates_example : ∃ s : Session, s.live = [(4130, 20)] ∧ Finite s.heap ∧ Returns s.heap := by
  have ran : (run (fun s c => c.Valid ∧ c.FitLinked s.heap) step (startSession 4096 1000)
      [.allocate 10, .allocate 20, .free 4108]).map (·.live) = some [(4130, 20)] := by
    decide +kernel
  obtain ⟨s, ran, live⟩ := Option.map_eq_some_iff.mp ran
  have starts := startSession_starts 4096 1000 (by decide) (by decide) (by decide)
  exact ⟨s, live, heap_terminates (run_reaches (.start starts) ran)⟩

/-- The search for a block goes round in a ring that the block is not on. -/
theorem findAlloc_ring {tofree : Nat} (closed : ∀ a ∈ ring, a ≠ 0 ∧ a ≠ tofree ∧ next m a ∈ ring)
    (inside : head ∈ ring) : findAlloc m tofree fuel head = none := by
  induction fuel generalizing head with
  | zero => rfl
  | succ fuel ih =>
    obtain ⟨real, other, stays⟩ := closed head inside
    rw [findAlloc, if_neg real, if_neg other]
    exact ih stays

/-- The block that is handed out a second time becomes its own successor. -/
theorem heap_not_terminates : ¬∀ (base size : Nat) (s : Session),
    Reaches (Starts base size) (fun _ c => c.Valid) step s → Finite s.heap ∧ Returns s.heap := by
  intro always
  have ran : (run (fun _ c => c.Valid) step (startSession 4096 1000)
      [.allocate 10, .allocate 5, .allocate 20, .allocate 5, .free 4108, .free 4147, .allocate 20,
        .allocate 20]).map (fun s => (s.heap.heapIsinit, s.heap.allocHead, [4118, 4167, 4184].map (next s.heap.mem))) =
          some (true, 4118, [4167, 4184, 4184]) := by
    decide +kernel
  obtain ⟨s, ran, results⟩ := Option.map_eq_some_iff.mp ran
  obtain ⟨isinit, results⟩ := Prod.mk.inj results
  obtain ⟨first, links⟩ := Prod.mk.inj results
  have starts := startSession_starts 4096 1000 (by decide) (by decide) (by decide)
  obtain ⟨result, freed⟩ := (always _ _ s (run_reaches (.start starts) ran)).2.free 5000
  have closed : ∀ a ∈ [4118, 4167, 4184], a ≠ 0 ∧ a ≠ word (5000 + 2 ^ 32 - mcbSize) ∧
      next s.heap.mem a ∈ [4118, 4167, 4184] := by
    simp only [List.map_cons, List.cons.injEq] at links
    simp [word, mcbSize, links]
  have round : findAlloc s.heap.mem (word (5000 + 2 ^ 32 - mcbSize)) addressSpace s.heap.allocHead = none :=
    findAlloc_ring closed (by simp [first])
  unfold freeMemory at freed
  rw [isinit] at freed
  dsimp only [Bool.not_true, Bool.false_eq_true, if_false] at freed
  rw [round] at freed
  cases freed

end Mpx.Heap
