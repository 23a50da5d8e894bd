import Mpx.Library.Words
import Mpx.Paging.Tables

/-! # Frames and page entries -/

namespace Mpx.Paging
open Library.ByteMemory Library.Bitmap

variable {frames : Nat → UInt32} {word : UInt32} {n i j c : Nat} {s : Vm} {page : UInt32}

/-! ### The first free frame -/

theorem findBit_first (set : ∀ k < 32, bit word k = true ↔ k < c) (clear : c < 32) (below : j ≤ c)
    (all : j + n = 32) : findBit word n j = some c := by
  induction n generalizing j with
  | zero => omega
  | succ n ih =>
    have here := set j (by omega)
    rw [findBit]
    rcases Nat.eq_or_lt_of_le below with rfl | later
    · rw [if_pos]
      rw [and_bit clear, ← Bool.not_eq_true, here]
      exact Nat.lt_irrefl j
    · rw [if_neg, ih later (by omega)]
      rw [and_bit (by omega), here.mpr later]
      decide

theorem findFreeFrom_filled (before : Filled frames c) (low : 32 * i ≤ c) :
    findFreeFrom frames n i = if c < 32 * (i + n) then some c else none := by
  induction n generalizing i with
  | zero =>
    rw [if_neg (by omega)]
    rfl
  | succ n ih =>
    rw [findFreeFrom]
    by_cases here : c < 32 * (i + 1)
    · have set : ∀ k < 32, bit (frames i) k = true ↔ k < c - 32 * i := by
        intro k small
        rw [bit_filled before i small]
        omega
      have space : frames i ≠ 0xFFFFFFFF := by
        intro full
        have last := (set 31 (by decide)).mp (full_iff.mp full 31 (by decide))
        omega
      rw [if_pos space, findBit_first set (by omega) (Nat.zero_le _) rfl, if_pos (by omega)]
      exact congrArg some (show i * 32 + (c - 32 * i) = c by omega)
    · have full : frames i = 0xFFFFFFFF := by
        apply full_iff.mpr
        intro k small
        rw [bit_filled before i small]
        omega
      rw [if_neg (not_not.mpr full), ih (by omega), show i + 1 + n = i + (n + 1) by omega]

/-- The search finds the end of what is set, if that is still in memory. -/
theorem findFree_filled (before : Filled frames c) : findFree frames = if c < nframes then some c else none := by
  unfold findFree
  rw [findFreeFrom_filled before (Nat.zero_le _)]
  rfl

theorem setBit_filled (before : Filled frames c) : Filled (setBit frames (c * pageSize.toNat)) (c + 1) := by
  have page : c * pageSize.toNat / pageSize.toNat = c := Nat.mul_div_cancel c (by decide)
  unfold setBit
  rw [page]
  exact filled_set before

/-! ### Page entries -/

theorem toWord_lt (e : PageEntry) : e.toWord < 2 ^ 32 := by
  have := e.present.isLt
  have := e.writeable.isLt
  have := e.usermode.isLt
  have := e.accessed.isLt
  have := e.dirty.isLt
  have := e.reserved.isLt
  have := e.frameaddr.isLt
  unfold PageEntry.toWord
  omega

theorem ofWord_toWord (e : PageEntry) : PageEntry.ofWord e.toWord = e := by
  have := e.present.isLt
  have := e.writeable.isLt
  have := e.usermode.isLt
  have := e.accessed.isLt
  have := e.dirty.isLt
  have := e.reserved.isLt
  obtain ⟨present, writeable, usermode, accessed, dirty, reserved, frameaddr⟩ := e
  have := frameaddr.isLt
  simp only at *
  unfold PageEntry.ofWord PageEntry.toWord
  simp only [PageEntry.mk.injEq]
  refine ⟨?_, ?_, ?_, ?_, ?_, ?_, ?_⟩
  all_goals
    apply BitVec.eq_of_toNat_eq
    rw [BitVec.toNat_ofNat]
    omega

/-- An entry is read as it was written. -/
theorem readPage_writePage (m : Mem) (page : UInt32) (e : PageEntry) : readPage (writePage m page e) page = e := by
  unfold readPage writePage
  rw [load_store_same (toWord_lt e), ofWord_toWord]

/-- The word of a page that has been given the frame `f`. -/
def mapped (f : Nat) : Nat := 4096 * f + 3

theorem ofWord_mapped {f : Nat} (small : f < 2 ^ 20) :
    (PageEntry.ofWord (mapped f)).present = 1 ∧ (PageEntry.ofWord (mapped f)).frameaddr.toNat = f := by
  unfold PageEntry.ofWord mapped
  constructor
  · apply BitVec.eq_of_toNat_eq
    rw [BitVec.toNat_ofNat]
    change (4096 * f + 3) % 2 ^ 1 = 1
    omega
  · change (BitVec.ofNat 20 ((4096 * f + 3) / 4096)).toNat = f
    rw [BitVec.toNat_ofNat]
    omega

theorem ofWord_zero_absent : (PageEntry.ofWord 0).present ≠ 1 := by decide

/-- A page without a frame is given the first free one, if there is one. -/
theorem newFrame_filled (before : Filled s.frames c) (fresh : load s.mem page.toNat = 0) :
    newFrame s page =
      if c < nframes then .ok { s with
          frames := setBit s.frames (c * pageSize.toNat)
          mem := store s.mem page.toNat (mapped c)
          handed := c :: s.handed }
      else .error .kpanic := by
  have none : (readPage s.mem page).frameaddr = 0 := by
    unfold readPage
    rw [fresh]
    rfl
  unfold newFrame
  rw [if_neg (not_not.mpr none), findFree_filled before]
  by_cases room : c < nframes
  · have word : c < 2 ^ 20 := Nat.lt_trans room (by decide)
    have entry : ((readPage s.mem page).give c).toWord = mapped c := by
      unfold readPage PageEntry.give PageEntry.toWord PageEntry.ofWord mapped
      rw [fresh]
      simp only [BitVec.toNat_ofNat]
      rw [Nat.mod_eq_of_lt word]
      simp
      omega
    rw [if_pos room, if_pos room, ← entry]
    rfl
  · rw [if_neg room, if_neg room]

end Mpx.Paging
