import Mathlib.Data.List.Chain
import Mpx.Heap.Session

/-! # What holds in every session

Each guarantee holds in every session whose calls meet its condition, and the sessions behind the
general theorems show that the conditions cannot be dropped. -/

namespace Mpx.Heap
open Library.ByteMemory Library.Links Library.Transition

variable {base limit size x n : Nat} {s t : Session} {c : Call} {bs bs' pre post : List Block} {h : HeapState}

/-! ### Exclusive payloads -/

theorem held_exclusive (held : Held base (base + size) s bs) : Exclusive base size s := by
  obtain ⟨layout, tracks⟩ := held
  have tiles := layout.tiles
  constructor
  · intro e he
    obtain ⟨b, hb, _, at_b, fits⟩ := tracks.backed e he
    have := tiles_inside tiles b hb
    omega
  · have distinct := List.pairwise_map.mp tracks.distinct
    apply distinct.imp_of_mem
    intro d e hd he different
    obtain ⟨b, hb, _, at_b, fits⟩ := tracks.backed d hd
    obtain ⟨c, hc, _, at_c, fits'⟩ := tracks.backed e he
    refine ⟨different, ?_⟩
    rcases tiles_apart tiles hb hc with rfl | apart
    · exact (different (at_b.trans at_c.symm)).elim
    · omega

theorem reaches_held
    (reached : Reaches (Starts base size) (fun s c => c.Valid ∧ c.FitLinked s.heap) step s) :
    ∃ bs, Held base (base + size) s bs := by
  refine reaches_invariant (P := fun s => ∃ bs, Held base (base + size) s bs) ?_ ?_ reached
  · intro s starts
    exact ⟨_, starts_held starts⟩
  · intro s c t held admitted moved
    obtain ⟨bs, held⟩ := held
    obtain ⟨t', bs', moved', _, held'⟩ := step_held held admitted.1 admitted.2
    obtain rfl : t' = t := Option.some.inj (moved'.symm.trans moved)
    exact ⟨bs', held'⟩

/-- As long as each fit is linked as the code assumes, live payloads are exclusive and the
allocator answers every call. -/
theorem heap_exclusive
    (reached : Reaches (Starts base size) (fun s c => c.Valid ∧ c.FitLinked s.heap) step s) :
    Exclusive base size s ∧ ∀ c : Call, c.Valid → c.FitLinked s.heap → ∃ t, step s c = some t := by
  obtain ⟨bs, held⟩ := reaches_held reached
  refine ⟨held_exclusive held, fun c valid linked => ?_⟩
  obtain ⟨t, _, moved, _⟩ := step_held held valid linked
  exact ⟨t, moved⟩

theorem heap_exclusive_example : ∃ s : Session, s.live = [(4130, 20)] ∧ Exclusive 4096 1000 s := by
  have ran : (run (fun s c => c.Valid ∧ c.FitLinked s.heap) step (startSession 4096 1000)
      [.allocate 10, .allocate 20, .free 4108]).map (·.live) = some [(4130, 20)] := by
    decide +kernel
  obtain ⟨s, ran, live⟩ := Option.map_eq_some_iff.mp ran
  have starts := startSession_starts 4096 1000 (by decide) (by decide) (by decide)
  exact ⟨s, live, (heap_exclusive (run_reaches (.start starts) ran)).1⟩

/-- An exact fit behind the head stays on the free list and is handed out again. -/
theorem heap_not_exclusive : ¬∀ (base size : Nat) (s : Session),
    Reaches (Starts base size) (fun _ c => c.Valid) step s → Exclusive base size s := by
  intro always
  have ran : (run (fun _ c => c.Valid) step (startSession 4096 1000)
      [.allocate 10, .allocate 5, .allocate 20, .allocate 5, .free 4108, .free 4147, .allocate 20,
        .allocate 20]).map (·.live) = some [(4196, 20), (4196, 20), (4179, 5), (4130, 5)] := by
    decide +kernel
  obtain ⟨s, ran, live⟩ := Option.map_eq_some_iff.mp ran
  have starts := startSession_starts 4096 1000 (by decide) (by decide) (by decide)
  have exclusive := (always _ _ s (run_reaches (.start starts) ran)).2
  rw [live] at exclusive
  exact ((List.pairwise_cons.mp exclusive).1 (4196, 20) (by simp)).1 rfl

/-! ### Free accepts the live blocks -/

theorem claimed_used (L : Layout base limit h (pre ++ ⟨x, n, .free⟩ :: post))
    (behind : h.allocHead = 0 ∨ h.allocHead < x) : claimed pre post = .used := by
  unfold claimed
  rw [if_neg]
  intro front
  obtain ⟨first, others⟩ := front
  have used := L.used
  simp only [addrs_append, addrs_cons, first, reduceCtorEq, if_false, List.nil_append] at used
  have above := (L.sides .used).2
  have member : h.allocHead ∈ addrs .used post := used.head ▸ headD_mem others
  have lower : x < h.allocHead := above _ member
  omega

def NoneLost (bs : List Block) : Prop := ∀ b ∈ bs, b.kind ≠ .lost

theorem rowStep_noneLost (L : Layout base limit h bs) (moved : RowStep h c bs bs')
    (behind : c.Behind h) (none : NoneLost bs) : NoneLost bs' := by
  cases moved with
  | same => exact none
  | granted first granted =>
    have kind := behind _ first
    cases granted with
    | split room =>
      have used := claimed_used L kind
      intro b hb
      simp only [List.mem_append, List.mem_cons] at hb
      rcases hb with before | rfl | rfl | after
      · exact none b (by simp [before])
      · simp [used]
      · simp
      · exact none b (by simp [after])
    | whole fits =>
      have used := claimed_used L kind
      intro b hb
      simp only [List.mem_append, List.mem_cons] at hb
      rcases hb with before | rfl | after
      · exact none b (by simp [before])
      · simp [used]
      · exact none b (by simp [after])
  | released released =>
    intro b hb lost
    have member := (released_held released (Or.inr lost)).mp hb
    refine none b ?_ lost
    simp only [List.mem_append, List.mem_cons] at member ⊢
    exact member.imp_right Or.inr

theorem held_freeExact (held : Held base limit s bs) (none : NoneLost bs) : FreeExact s := by
  obtain ⟨layout, tracks⟩ := held
  have bound := layout.bound
  intro p small
  constructor
  · intro live
    obtain ⟨e, he, rfl⟩ := List.mem_map.mp live
    obtain ⟨b, hb, held, at_b, _⟩ := tracks.backed e he
    have used := held.resolve_right (none b hb)
    obtain ⟨pre, post, rfl⟩ := List.append_of_mem hb
    obtain ⟨x, n, kind⟩ := b
    obtain rfl : kind = .used := used
    obtain ⟨h', _, freed, _⟩ := free_refines layout
    exact ⟨h', at_b ▸ freed⟩
  · intro dead
    refine ⟨1, by decide, free_unlisted layout ?_⟩
    intro listed
    obtain ⟨b, hb, used, at_b⟩ := mem_addrs.mp listed
    apply dead
    have room := layout.payload b.addr (List.mem_map_of_mem hb)
    have ptr : p = b.addr + mcbSize := by
      unfold word at at_b
      simp only [mcbSize] at at_b room ⊢
      omega
    rw [ptr]
    exact tracks.known b hb used

/-- As long as no block is carved in front of the allocated ones, `free_memory` tells live
pointers from others. -/
theorem free_exact
    (reached : Reaches (Starts base size)
      (fun s c => c.Valid ∧ c.FitLinked s.heap ∧ c.Behind s.heap) step s) : FreeExact s := by
  have invariant : ∃ bs, Held base (base + size) s bs ∧ NoneLost bs := by
    refine reaches_invariant
      (P := fun s => ∃ bs, Held base (base + size) s bs ∧ NoneLost bs) ?_ ?_ reached
    · intro s starts
      refine ⟨_, starts_held starts, ?_⟩
      intro b hb
      obtain rfl : b = ⟨base, size - mcbSize, .free⟩ := by simpa using hb
      simp
    · intro s c t inv admitted moved
      obtain ⟨bs, held, none⟩ := inv
      obtain ⟨valid, linked, behind⟩ := admitted
      obtain ⟨t', bs', moved', row, held'⟩ := step_held held valid linked
      obtain rfl : t' = t := Option.some.inj (moved'.symm.trans moved)
      exact ⟨bs', held', rowStep_noneLost held.layout row behind none⟩
  obtain ⟨bs, held, none⟩ := invariant
  exact held_freeExact held none

theorem free_exact_example : ∃ s : Session, s.live = [(4130, 20)] ∧ FreeExact s := by
  have ran : (run (fun s c => c.Valid ∧ c.FitLinked s.heap ∧ c.Behind s.heap) step
      (startSession 4096 1000) [.allocate 10, .allocate 20, .free 4108]).map (·.live) =
        some [(4130, 20)] := by
    decide +kernel
  obtain ⟨s, ran, live⟩ := Option.map_eq_some_iff.mp ran
  have starts := startSession_starts 4096 1000 (by decide) (by decide) (by decide)
  exact ⟨s, live, free_exact (run_reaches (.start starts) ran)⟩

/-- The lowest block is given back and handed out again: `free_memory` does not find it. -/
theorem free_not_exact : ¬∀ (base size : Nat) (s : Session),
    Reaches (Starts base size) (fun _ c => c.Valid) step s → FreeExact s := by
  intro always
  have ran : (run (fun _ c => c.Valid) step (startSession 4096 1000)
      [.allocate 10, .allocate 10, .free 4108, .allocate 10]).map
        (fun s => (s.live, (freeMemory s.heap 4108).map (·.2))) =
          some ([(4108, 10), (4130, 10)], some 1) := by
    decide +kernel
  obtain ⟨s, ran, results⟩ := Option.map_eq_some_iff.mp ran
  obtain ⟨live, refused⟩ := Prod.mk.inj results
  have starts := startSession_starts 4096 1000 (by decide) (by decide) (by decide)
  have exact := (always _ _ s (run_reaches (.start starts) ran) 4108 (by decide)).1
  obtain ⟨h, freed⟩ := exact (by simp [live])
  simp [freed] at refused

/-! ### Conservation -/

/-- Every block is on one of the lists, and no two neighbours are free. -/
structure Sound (bs : List Block) : Prop where
  linked : ∀ b ∈ bs, b.kind = .free ∨ b.kind = .used
  separate : bs.IsChain fun b c => ¬(b.kind = .free ∧ c.kind = .free)

theorem sound_iff {b : Block} : Sound (pre ++ b :: post) ↔ Sound pre ∧ Sound post ∧
    (b.kind = .used ∨ b.kind = .free ∧ (∀ c ∈ pre.getLast?, c.kind ≠ .free) ∧
      ∀ c ∈ post.head?, c.kind ≠ .free) := by
  constructor
  · intro sound
    obtain ⟨linked, separate⟩ := sound
    obtain ⟨front, whole, ends⟩ := List.isChain_append.mp separate
    obtain ⟨starts, back⟩ := List.isChain_cons.mp whole
    refine ⟨⟨fun c hc => linked c (by simp [hc]), front⟩, ⟨fun c hc => linked c (by simp [hc]), back⟩, ?_⟩
    rcases linked b (by simp) with isFree | isUsed
    · exact Or.inr ⟨isFree, fun c hc kind => ends c hc b rfl ⟨kind, isFree⟩,
        fun c hc kind => starts c hc ⟨isFree, kind⟩⟩
    · exact Or.inl isUsed
  · intro parts
    obtain ⟨before, after, kind⟩ := parts
    constructor
    · intro c hc
      simp only [List.mem_append, List.mem_cons] at hc
      rcases hc with front | rfl | back
      · exact before.linked c front
      · exact kind.symm.imp_left And.left
      · exact after.linked c back
    · refine List.isChain_append.mpr ⟨before.separate, List.isChain_cons.mpr ⟨?_, after.separate⟩, ?_⟩
      · intro c hc free
        rcases kind with used | ⟨_, _, gap⟩
        · rw [used] at free
          cases free.1
        · exact gap c hc free.2
      · intro c hc d hd free
        obtain rfl : b = d := by simpa using hd
        rcases kind with used | ⟨_, gap, _⟩
        · rw [used] at free
          cases free.2
        · exact gap c hc free.1

theorem sound_cons_iff {b : Block} : Sound (b :: post) ↔ Sound post ∧
    (b.kind = .used ∨ b.kind = .free ∧ ∀ c ∈ post.head?, c.kind ≠ .free) := by
  have empty : Sound [] := ⟨by simp, .nil⟩
  rw [← List.nil_append (b :: post), sound_iff]
  simp [empty]

theorem granted_sound (L : Layout base limit h bs) (behind : h.allocHead = 0 ∨ h.allocHead < x)
    (granted : Granted n bs x bs') (sound : Sound bs) : Sound bs' := by
  cases granted with
  | @split pre post x s room =>
    obtain ⟨before, after, kind⟩ := sound_iff.mp sound
    have gap := (kind.resolve_left (by simp)).2.2
    have rest : Sound (⟨x + mcbSize + n, s - n - mcbSize, .free⟩ :: post) :=
      sound_cons_iff.mpr ⟨after, Or.inr ⟨rfl, gap⟩⟩
    exact sound_iff.mpr ⟨before, rest, Or.inl (claimed_used L behind)⟩
  | whole fits =>
    obtain ⟨before, after, _⟩ := sound_iff.mp sound
    exact sound_iff.mpr ⟨before, after, Or.inl (claimed_used L behind)⟩

theorem released_sound (L : Layout base limit h (pre ++ ⟨x, n, .used⟩ :: post))
    (released : Released x n pre post bs') (reached : (Call.free (x + mcbSize)).Reached h)
    (sound : Sound (pre ++ ⟨x, n, .used⟩ :: post)) : Sound bs' := by
  have listed : x + mcbSize - mcbSize ∈ allocList h := by
    rw [L.allocList_eq, Nat.add_sub_cancel]
    exact mem_addrs.mpr ⟨⟨x, n, .used⟩, by simp, rfl, rfl⟩
  have below := reached listed
  rw [Nat.add_sub_cancel, L.freeBelow_eq] at below
  obtain ⟨before, after, _⟩ := sound_iff.mp sound
  have noneBelow : addrs .free pre = [] → ∀ c ∈ pre.getLast?, c.kind ≠ .free := by
    intro lowest c hc isFree
    have member := mem_addrs.mpr ⟨c, List.mem_of_getLast? hc, isFree, rfl⟩
    rw [lowest] at member
    cases member
  cases released with
  | alone lowest gap =>
    exact sound_iff.mpr ⟨before, after, Or.inr ⟨rfl, noneBelow lowest, gap⟩⟩
  | forward lowest =>
    obtain ⟨rest, free⟩ := sound_cons_iff.mp after
    have gap := (free.resolve_left (by simp)).2
    exact sound_iff.mpr ⟨before, rest, Or.inr ⟨rfl, noneBelow lowest, gap⟩⟩
  | backward gap =>
    obtain ⟨front, _, free⟩ := sound_iff.mp before
    have ends := (free.resolve_left (by simp)).2.1
    exact sound_iff.mpr ⟨front, after, Or.inr ⟨rfl, ends, gap⟩⟩
  | both =>
    obtain ⟨front, _, free⟩ := sound_iff.mp before
    obtain ⟨rest, free'⟩ := sound_cons_iff.mp after
    have ends := (free.resolve_left (by simp)).2.1
    have gap := (free'.resolve_left (by simp)).2
    exact sound_iff.mpr ⟨front, rest, Or.inr ⟨rfl, ends, gap⟩⟩
  | lost some gap =>
    exfalso
    rcases below with null | met
    · have member := getLastD_mem (s := 0) some
      rw [null] at member
      refine L.headers.nonnull ((addrs_sublist .free _).subset ?_)
      rw [addrs_append]
      exact List.mem_append_left _ member
    · exact word_before L some gap met

theorem rowStep_sound (L : Layout base limit h bs) (moved : RowStep h c bs bs') (behind : c.Behind h)
    (reached : c.Reached h) (sound : Sound bs) : Sound bs' := by
  cases moved with
  | same => exact sound
  | granted first granted => exact granted_sound L (behind _ first) granted sound
  | released released => exact released_sound L released reached sound

theorem rowTiles_layout {m : Mem} (tiles : Tiles limit base bs)
    (sizes : ∀ b ∈ bs, get m b.addr .blkSize = b.size) : RowTiles m limit base (bs.map (·.addr)) := by
  induction bs generalizing base with
  | nil => exact tiles
  | cons b bs ih =>
    obtain ⟨rfl, rest⟩ := tiles
    refine ⟨rfl, ?_⟩
    rw [sizes b List.mem_cons_self]
    exact ih rest fun c hc => sizes c (List.mem_cons_of_mem _ hc)

theorem addrs_perm (linked : ∀ b ∈ bs, b.kind = .free ∨ b.kind = .used) :
    (bs.map (·.addr)).Perm (addrs .free bs ++ addrs .used bs) := by
  induction bs with
  | nil => exact List.Perm.nil
  | cons b bs ih =>
    have rest := ih fun c hc => linked c (List.mem_cons_of_mem _ hc)
    rw [List.map_cons, addrs_cons, addrs_cons]
    rcases linked b List.mem_cons_self with kind | kind
    · simpa only [kind, if_true, reduceCtorEq, if_false, List.cons_append] using rest.cons _
    · simp only [kind, if_true, reduceCtorEq, if_false]
      exact (rest.cons _).trans List.perm_middle.symm

theorem sound_conserved (L : Layout base (base + size) h bs) (sound : Sound bs) :
    Conserved base size h := by
  have unique := tiles_nodup L.tiles
  refine ⟨addrs .free bs, addrs .used bs, bs.map (·.addr), walk_iff.mpr ⟨L.free, L.short .free⟩,
    walk_iff.mpr ⟨L.used, L.short .used⟩, addrs_perm sound.linked, ?_, ?_⟩
  · exact rowTiles_layout L.tiles fun b hb => L.sizes b hb (sound.linked b hb)
  · have free_kind : ∀ b ∈ bs, b.addr ∈ addrs .free bs → b.kind = .free := by
      intro b hb member
      obtain ⟨c, hc, kind, same⟩ := mem_addrs.mp member
      exact List.inj_on_of_nodup_map unique hc hb same ▸ kind
    refine (List.isChain_map _).mpr (sound.separate.imp_of_mem_imp ?_)
    intro b c hb hc apart both
    exact apart ⟨free_kind b hb both.1, free_kind c hc both.2⟩

/-- Without a block in hand a sound row is a single block. -/
theorem sound_whole (L : Layout base (base + size) h bs) (sound : Sound bs) (room : 0 < size)
    (none : ∀ b ∈ bs, b.kind ≠ .used) : Whole base size h := by
  have tiles := L.tiles
  have isFree : ∀ b ∈ bs, b.kind = .free := fun b hb => (sound.linked b hb).resolve_right (none b hb)
  cases bs with
  | nil =>
    have empty : base = base + size := tiles
    omega
  | cons b bs =>
    cases bs with
    | cons c bs =>
      have apart := (List.isChain_cons.mp sound.separate).1 c rfl
      exact (apart ⟨isFree b (by simp), isFree c (by simp)⟩).elim
    | nil =>
      obtain ⟨rfl, ends⟩ := tiles
      have ends : b.addr + mcbSize + b.size = b.addr + size := ends
      have kind := isFree b (by simp)
      refine ⟨?_, ?_, ?_⟩
      · rw [L.freeList_eq]
        simp [addrs, kind]
      · rw [L.allocList_eq]
        simp [addrs, kind]
      · rw [L.sizes b (by simp) (Or.inl kind)]
        omega

/-- As long as each block is also given back where the free list reaches it, no byte of the heap
is lost and free neighbours are merged. -/
theorem heap_conserved
    (reached : Reaches (Starts base size)
      (fun s c => c.Valid ∧ c.FitLinked s.heap ∧ c.Behind s.heap ∧ c.Reached s.heap) step s) :
    Conserved base size s.heap ∧ (s.live = [] → Whole base size s.heap) := by
  have invariant : 0 < size ∧ ∃ bs, Held base (base + size) s bs ∧ Sound bs := by
    refine reaches_invariant
      (P := fun s => 0 < size ∧ ∃ bs, Held base (base + size) s bs ∧ Sound bs) ?_ ?_ reached
    · intro s starts
      have room := starts.room
      refine ⟨by omega, _, starts_held starts, ?_, List.isChain_singleton _⟩
      intro b hb
      obtain rfl : b = ⟨base, size - mcbSize, .free⟩ := by simpa using hb
      exact Or.inl rfl
    · intro s c t inv admitted moved
      obtain ⟨room, bs, held, sound⟩ := inv
      obtain ⟨valid, linked, behind, reach⟩ := admitted
      obtain ⟨t', bs', moved', row, held'⟩ := step_held held valid linked
      obtain rfl : t' = t := Option.some.inj (moved'.symm.trans moved)
      exact ⟨room, bs', held', rowStep_sound held.layout row behind reach sound⟩
  obtain ⟨room, bs, held, sound⟩ := invariant
  refine ⟨sound_conserved held.layout sound, fun dead => ?_⟩
  apply sound_whole held.layout sound room
  intro b hb used
  have member := held.tracks.known b hb used
  rw [dead] at member
  cases member

theorem heap_conserved_example : ∃ s : Session, s.live = [] ∧ Whole 4096 1000 s.heap := by
  have ran : (run (fun s c => c.Valid ∧ c.FitLinked s.heap ∧ c.Behind s.heap ∧ c.Reached s.heap) step
      (startSession 4096 1000) [.allocate 10, .allocate 20, .free 4108, .free 4130]).map (·.live) =
        some [] := by
    decide +kernel
  obtain ⟨s, ran, live⟩ := Option.map_eq_some_iff.mp ran
  have starts := startSession_starts 4096 1000 (by decide) (by decide) (by decide)
  exact ⟨s, live, (heap_conserved (run_reaches (.start starts) ran)).2 live⟩

/-- A block freed above a free block that does not reach it stays on no list for good. -/
theorem heap_not_conserved : ¬∀ (base size : Nat) (s : Session),
    Reaches (Starts base size) (fun _ c => c.Valid) step s →
      Conserved base size s.heap ∧ (s.live = [] → Whole base size s.heap) := by
  intro always
  have ran : (run (fun _ c => c.Valid) step (startSession 4096 1000)
      [.allocate 10, .allocate 10, .allocate 10, .allocate 10, .free 4108, .free 4152, .free 4130,
        .free 4174]).map (fun s => (s.live, freeList s.heap)) = some ([], [4096, 4184]) := by
    decide +kernel
  obtain ⟨s, ran, results⟩ := Option.map_eq_some_iff.mp ran
  obtain ⟨live, list⟩ := Prod.mk.inj results
  have starts := startSession_starts 4096 1000 (by decide) (by decide) (by decide)
  have whole := (always _ _ s (run_reaches (.start starts) ran)).2 live
  have single : freeList s.heap = [4096] := whole.1
  rw [list] at single
  cases single

end Mpx.Heap
