import Mathlib.Data.Multiset.Filter

/-! # What clients hold of a resource

An allocator keeps the list of what it has handed out, each entry under a key. Its clients hold entries;
what is handed out and held by nobody is lost. -/

namespace Library.Holdings

variable {κ α : Type} {live : List (κ × α)} {held : Multiset (κ × α)} {e : κ × α}

/-- Everything that is held is handed out. -/
def Covers (live : List (κ × α)) (held : Multiset (κ × α)) : Prop := held ≤ (live : Multiset (κ × α))

theorem covers_mem (covers : Covers live held) (member : e ∈ held) : e ∈ live :=
  Multiset.mem_coe.mp (Multiset.mem_of_le covers member)

theorem covers_drop (covers : Covers live (e ::ₘ held)) : Covers live held :=
  (Multiset.le_cons_self held e).trans covers

theorem covers_grant (covers : Covers live held) : Covers (e :: live) (e ::ₘ held) := by
  unfold Covers
  rw [← Multiset.cons_coe]
  exact Multiset.cons_le_cons e covers

/-- A relation between all that is handed out is one between all that is held. -/
theorem covers_pairwise {r : κ × α → κ × α → Prop} (symmetric : ∀ a b, r a b → r b a) (covers : Covers live held)
    (apart : live.Pairwise r) : held.Pairwise r := by
  obtain ⟨row, same⟩ := Quot.exists_rep held
  obtain rfl : (row : Multiset (κ × α)) = held := same
  obtain ⟨sub, perm, sublist⟩ := Multiset.coe_le.mp covers
  exact ⟨row, rfl, (perm.pairwise_iff fun {a b} related => symmetric a b related).mp (apart.sublist sublist)⟩

end Library.Holdings
