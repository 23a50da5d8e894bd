/-! # Linked sequences

Lists threaded through memory. A pointer field is a function from nodes to nodes, and the list of
the nodes is the mathematical content of the structure. -/

namespace Library.Links

variable {α : Type}

/-- `next` leads from each element to the one behind it, and from the last one to `t`. -/
def Seg (next : α → α) : List α → α → Prop
  | [], _ => True
  | x :: l, t => next x = l.headD t ∧ Seg next l t

/-- `prev` leads from each element to the one in front of it, and from the first one to `s`. -/
def Back (prev : α → α) : α → List α → Prop
  | _, [] => True
  | s, x :: l => prev x = s ∧ Back prev x l

theorem headD_append (A B : List α) (t : α) : (A ++ B).headD t = A.headD (B.headD t) := by
  cases A <;> rfl

theorem getLastD_append (A B : List α) (s : α) : (A ++ B).getLastD s = B.getLastD (A.getLastD s) := by
  induction A generalizing s with
  | nil => rfl
  | cons a A ih => simpa only [List.cons_append, List.getLastD_cons] using ih a

theorem getLastD_mem {l : List α} {s : α} (h : l ≠ []) : l.getLastD s ∈ l := by
  rw [List.getLastD_eq_getLast?, List.getLast?_eq_some_getLast h]
  exact List.getLast_mem h

theorem headD_mem {l : List α} {t : α} (h : l ≠ []) : l.headD t ∈ l := by
  cases l with
  | nil => exact (h rfl).elim
  | cons a l => exact List.mem_cons_self

theorem headD_front {A : List α} (front : A ≠ []) (B : List α) (t : α) : (A ++ B).headD t = A.headD t := by
  cases A with
  | nil => exact (front rfl).elim
  | cons a A => rfl

theorem getLastD_or_mem (l : List α) (s : α) : l.getLastD s = s ∨ l.getLastD s ∈ l := by
  cases l with
  | nil => exact Or.inl rfl
  | cons a l => exact Or.inr (getLastD_mem (List.cons_ne_nil a l))

theorem headD_or_mem (l : List α) (t : α) : l.headD t = t ∨ l.headD t ∈ l := by
  cases l with
  | nil => exact Or.inl rfl
  | cons a l => exact Or.inr List.mem_cons_self

theorem getLastD_default {l : List α} (h : l ≠ []) (s t : α) : l.getLastD s = l.getLastD t := by
  rw [List.getLastD_eq_getLast?, List.getLastD_eq_getLast?, List.getLast?_eq_some_getLast h]
  rfl

theorem ne_getLastD {l : List α} {a s : α} (absent : a ∉ l) (other : a ≠ s) : a ≠ l.getLastD s := by
  rcases getLastD_or_mem l s with none | member
  · rwa [none]
  · rintro rfl
    exact absent member

theorem ne_headD {l : List α} {a t : α} (absent : a ∉ l) (other : a ≠ t) : a ≠ l.headD t := by
  rcases headD_or_mem l t with none | member
  · rwa [none]
  · rintro rfl
    exact absent member

variable {next next' prev prev' : α → α} {A B M N l : List α} {s s' t t' : α}

theorem seg_append : Seg next (A ++ B) t ↔ Seg next A (B.headD t) ∧ Seg next B t := by
  induction A with
  | nil => simp [Seg]
  | cons a A ih => simp only [List.cons_append, Seg, ih, headD_append, and_assoc]

theorem back_append : Back prev s (A ++ B) ↔ Back prev s A ∧ Back prev (A.getLastD s) B := by
  induction A generalizing s with
  | nil => simp [Back]
  | cons a A ih => simp only [List.cons_append, Back, ih, List.getLastD_cons, and_assoc]

theorem seg_congr (same : ∀ x ∈ l, next' x = next x) (h : Seg next l t) : Seg next' l t := by
  induction l with
  | nil => trivial
  | cons a l ih =>
    exact ⟨(same a List.mem_cons_self).trans h.1, ih (fun x hx => same x (List.mem_cons_of_mem _ hx)) h.2⟩

theorem back_congr (same : ∀ x ∈ l, prev' x = prev x) (h : Back prev s l) : Back prev' s l := by
  induction l generalizing s with
  | nil => trivial
  | cons a l ih =>
    exact ⟨(same a List.mem_cons_self).trans h.1, ih (fun x hx => same x (List.mem_cons_of_mem _ hx)) h.2⟩

/-- Only the last link of a segment knows where the segment ends. -/
theorem seg_retarget (unique : A.Nodup) (h : Seg next A t)
    (front : ∀ x ∈ A, x ≠ A.getLastD s → next' x = next x)
    (last : A ≠ [] → next' (A.getLastD s) = t') : Seg next' A t' := by
  induction A generalizing s with
  | nil => trivial
  | cons a A ih =>
    obtain ⟨fresh, unique⟩ := List.nodup_cons.mp unique
    simp only [List.getLastD_cons] at front last
    cases A with
    | nil => exact ⟨last (List.cons_ne_nil _ _), trivial⟩
    | cons b A =>
      have inner : a ≠ (b :: A).getLastD a := fun same =>
        fresh (same ▸ getLastD_mem (List.cons_ne_nil b A))
      refine ⟨(front a List.mem_cons_self inner).trans h.1, ih unique h.2 (s := a) ?_ ?_⟩
      · intro x member other
        exact front x (List.mem_cons_of_mem _ member) other
      · intro _
        exact last (List.cons_ne_nil _ _)

theorem back_resource (unique : B.Nodup) (h : Back prev s B) (head : B ≠ [] → prev' (B.headD t) = s')
    (rest : ∀ x ∈ B, x ≠ B.headD t → prev' x = prev x) : Back prev' s' B := by
  cases B with
  | nil => trivial
  | cons b B =>
    refine ⟨head (List.cons_ne_nil _ _), back_congr ?_ h.2⟩
    intro x member
    apply rest x (List.mem_cons_of_mem _ member)
    rintro rfl
    exact (List.nodup_cons.mp unique).1 member

/-- Replacing a stretch `M` of a sequence by `N`: the links at its two ends change and no other. -/
theorem seg_splice (unique : A.Nodup) (h : Seg next (A ++ (M ++ B)) t)
    (front : ∀ x ∈ A, x ≠ A.getLastD s → next' x = next x)
    (last : A ≠ [] → next' (A.getLastD s) = (N ++ B).headD t) (middle : Seg next' N (B.headD t))
    (rest : ∀ x ∈ B, next' x = next x) : Seg next' (A ++ (N ++ B)) t := by
  rw [seg_append] at h ⊢
  exact ⟨seg_retarget unique h.1 front last,
    seg_append.mpr ⟨middle, seg_congr rest (seg_append.mp h.2).2⟩⟩

theorem back_splice (unique : B.Nodup) (h : Back prev s (A ++ (M ++ B)))
    (front : ∀ x ∈ A, prev' x = prev x) (middle : Back prev' (A.getLastD s) N)
    (head : B ≠ [] → prev' (B.headD t) = N.getLastD (A.getLastD s))
    (rest : ∀ x ∈ B, x ≠ B.headD t → prev' x = prev x) : Back prev' s (A ++ (N ++ B)) := by
  rw [back_append, back_append] at h ⊢
  exact ⟨back_congr front h.1, middle, back_resource unique h.2.2 head rest⟩

/-- The null-terminated sequence that starts at `head`. -/
structure Chain (next : α → α) (null head : α) (l : List α) : Prop where
  head : head = l.headD null
  nonnull : null ∉ l
  links : Seg next l null

theorem chain_congr {null head : α} (h : Chain next null head l) (same : ∀ x ∈ l, next' x = next x) :
    Chain next' null head l :=
  ⟨h.head, h.nonnull, seg_congr same h.links⟩

/-- Back links are links of the reversed list. -/
theorem back_reverse (h : Back prev s l) : Seg prev l.reverse s := by
  induction l generalizing s with
  | nil => trivial
  | cons x l ih =>
    rw [List.reverse_cons]
    exact seg_append.mpr ⟨ih h.2, h.1, trivial⟩

theorem chain_reverse {null : α} (h : Back prev null l) (nonnull : null ∉ l) :
    Chain prev null (l.getLastD null) l.reverse := by
  refine ⟨?_, fun member => nonnull (List.mem_reverse.mp member), back_reverse h⟩
  rw [List.headD_eq_head?_getD, List.head?_reverse, List.getLastD_eq_getLast?]

theorem chain_nil_iff {null head : α} : Chain next null head [] ↔ head = null :=
  ⟨fun h => h.head, fun h => ⟨h, List.not_mem_nil, trivial⟩⟩

theorem chain_cons_iff {null head x : α} :
    Chain next null head (x :: l) ↔ head = x ∧ x ≠ null ∧ Chain next null (next x) l := by
  constructor
  · rintro ⟨rfl, nonnull, links⟩
    exact ⟨rfl, fun same => nonnull (same ▸ List.mem_cons_self),
      links.1, fun h => nonnull (List.mem_cons_of_mem _ h), links.2⟩
  · rintro ⟨rfl, nonnull, rest⟩
    exact ⟨rfl, by simpa [nonnull.symm] using rest.nonnull, rest.head, rest.links⟩

theorem chain_null {null : α} {l : List α} (h : Chain next null null l) : l = [] := by
  cases l with
  | nil => rfl
  | cons x l =>
    obtain ⟨rfl, nonnull, _⟩ := chain_cons_iff.mp h
    exact (nonnull rfl).elim

theorem chain_front {null head : α} (h : Chain next null head (A ++ B)) (front : A ≠ []) : head ∈ A := by
  rw [h.head, headD_front front]
  exact headD_mem front

theorem chain_unique {null head : α} {l l' : List α} (h : Chain next null head l)
    (h' : Chain next null head l') : l = l' := by
  induction l generalizing head l' with
  | nil =>
    cases l' with
    | nil => rfl
    | cons x l' => exact absurd ((chain_cons_iff.mp h').1 ▸ chain_nil_iff.mp h) (chain_cons_iff.mp h').2.1
  | cons x l ih =>
    obtain ⟨same, nonnull, rest⟩ := chain_cons_iff.mp h
    cases l' with
    | nil => exact absurd (same ▸ chain_nil_iff.mp h') nonnull
    | cons y l' =>
      obtain ⟨same', _, rest'⟩ := chain_cons_iff.mp h'
      obtain rfl : x = y := same.symm.trans same'
      rw [ih rest rest']

theorem chain_next {null head x : α} (h : Chain next null head (A ++ x :: B)) : next x = B.headD null := by
  have links := h.links
  rw [seg_append] at links
  exact links.2.1

theorem chain_last_iff {null head x : α} (h : Chain next null head (A ++ x :: B)) : next x = null ↔ B = [] := by
  rw [chain_next h]
  cases B with
  | nil => exact ⟨fun _ => rfl, fun _ => rfl⟩
  | cons b B =>
    refine ⟨fun null => ?_, fun empty => by cases empty⟩
    exact (h.nonnull (null ▸ List.mem_append_right A (List.mem_cons_of_mem x List.mem_cons_self))).elim

theorem chain_single_iff {null head x : α} (h : Chain next null head (x :: l)) : next x = null ↔ l = [] :=
  chain_last_iff (A := []) h

/-- What can be reached from `head`. -/
inductive Node (next : α → α) (null head : α) : α → Prop
  | first : head ≠ null → Node next null head head
  | behind {x : α} : Node next null head x → next x ≠ null → Node next null head (next x)

theorem node_cons {null head x : α} (nonnull : head ≠ null) (reached : Node next null (next head) x) :
    Node next null head x := by
  induction reached with
  | first real => exact .behind (.first nonnull) real
  | behind _ real ih => exact .behind ih real

theorem seg_node {null x : α} (h : Seg next l t) (nonnull : null ∉ l) (member : x ∈ l) :
    Node next null (l.headD t) x := by
  induction l with
  | nil => cases member
  | cons a l ih =>
    have real : a ≠ null := fun same => nonnull (same ▸ List.mem_cons_self)
    rcases List.mem_cons.mp member with rfl | later
    · exact .first real
    · refine node_cons real ?_
      have rest := ih h.2 (fun null => nonnull (List.mem_cons_of_mem _ null)) later
      rwa [← h.1] at rest

theorem chain_node {null head x : α} (h : Chain next null head l) : Node next null head x ↔ x ∈ l := by
  constructor
  · intro reached
    induction reached with
    | first real =>
      rw [h.head] at real ⊢
      exact (headD_or_mem l null).resolve_left real
    | @behind y _ real ih =>
      obtain ⟨A, B, rfl⟩ := List.append_of_mem ih
      have ahead := chain_next h
      rw [ahead] at real ⊢
      exact List.mem_append_right _ (List.mem_cons_of_mem _ ((headD_or_mem B null).resolve_left real))
  · intro member
    rw [h.head]
    exact seg_node h.links h.nonnull member

/-- No node is in front of the head, and the node behind a node points back at it. -/
structure Backed (next prev : α → α) (null head : α) : Prop where
  first : head ≠ null → prev head = null
  behind : ∀ x, Node next null head x → next x ≠ null → prev (next x) = x

theorem chain_back_iff {null head : α} (h : Chain next null head l) :
    Back prev s l ↔ (head ≠ null → prev head = s) ∧ ∀ x ∈ l, next x ≠ null → prev (next x) = x := by
  induction l generalizing s head with
  | nil =>
    have empty : head = null := chain_nil_iff.mp h
    exact ⟨fun _ => ⟨fun real => (real empty).elim, fun _ member => by cases member⟩, fun _ => trivial⟩
  | cons a l ih =>
    obtain ⟨rfl, nonnull, rest⟩ := chain_cons_iff.mp h
    constructor
    · intro back
      obtain ⟨first, later⟩ := (ih rest).mp back.2
      refine ⟨fun _ => back.1, fun x member => ?_⟩
      rcases List.mem_cons.mp member with rfl | inside
      · exact first
      · exact later x inside
    · intro backed
      exact ⟨backed.1 nonnull, (ih rest).mpr ⟨backed.2 head List.mem_cons_self,
        fun x member => backed.2 x (List.mem_cons_of_mem _ member)⟩⟩

theorem backed_iff {null head : α} (h : Chain next null head l) : Backed next prev null head ↔ Back prev null l := by
  rw [chain_back_iff h]
  exact ⟨fun backed => ⟨backed.first, fun x member => backed.behind x ((chain_node h).mpr member)⟩,
    fun both => ⟨both.1, fun x reached => both.2 x ((chain_node h).mp reached)⟩⟩

/-- What a stretch of nodes leads to points back at its last node. -/
theorem seg_backed {null x : α} (h : Seg next A x) (nonnull : null ∉ A) (nonempty : A ≠ []) (real : x ≠ null)
    (backed : Backed next prev null (A.headD x)) : prev x = A.getLastD null := by
  rcases List.eq_nil_or_concat A with rfl | ⟨front, y, rfl⟩
  · exact (nonempty rfl).elim
  · rw [List.concat_eq_append] at h nonnull backed ⊢
    have reached := seg_node h nonnull (List.mem_append_right front List.mem_cons_self)
    have leads : next y = x := (seg_append.mp h).2.1
    have back := backed.behind y reached (leads ▸ real)
    rw [leads] at back
    rw [getLastD_append]
    exact back

/-- A back link stays in the sequence. -/
theorem back_mem {x : α} (h : Back prev s l) (member : x ∈ l) : prev x = s ∨ prev x ∈ l := by
  obtain ⟨A, B, rfl⟩ := List.append_of_mem member
  have link : prev x = A.getLastD s := (back_append.mp h).2.1
  rw [link]
  exact (getLastD_or_mem A s).imp_right (List.mem_append_left _)

/-- A chain whose last node is kept as well. -/
structure Queue (next : α → α) (null head tail : α) (l : List α) : Prop where
  chain : Chain next null head l
  tail : tail = l.getLastD null

theorem queue_congr {null head tail : α} (h : Queue next null head tail l) (same : ∀ x ∈ l, next' x = next x) :
    Queue next' null head tail l :=
  ⟨chain_congr h.chain same, h.tail⟩

theorem queue_nil_iff {null head tail : α} : Queue next null head tail [] ↔ head = null ∧ tail = null :=
  ⟨fun h => ⟨h.chain.head, h.tail⟩, fun h => ⟨chain_nil_iff.mpr h.1, h.2⟩⟩

theorem queue_head_null_iff {null head tail : α} (h : Queue next null head tail l) : head = null ↔ l = [] := by
  constructor
  · rintro rfl
    exact chain_null h.chain
  · rintro rfl
    exact h.chain.head

theorem queue_tail_null_iff {null head tail : α} (h : Queue next null head tail l) : tail = null ↔ l = [] := by
  constructor
  · intro empty
    cases l with
    | nil => rfl
    | cons x l =>
      have member : tail ∈ x :: l := h.tail ▸ getLastD_mem (List.cons_ne_nil x l)
      exact (h.chain.nonnull (empty ▸ member)).elim
  · rintro rfl
    exact h.tail

theorem queue_last_iff {null head tail y : α} (h : Queue next null head tail (A ++ y :: B)) (absent : y ∉ B) :
    y = tail ↔ B = [] := by
  have last : tail = B.getLastD y := by rw [h.tail, getLastD_append, List.getLastD_cons]
  constructor
  · intro same
    cases B with
    | nil => rfl
    | cons b B =>
      have inside := getLastD_mem (s := y) (List.cons_ne_nil b B)
      rw [← last, ← same] at inside
      exact (absent inside).elim
  · rintro rfl
    exact last.symm

variable [DecidableEq α]

/-- Follows `next` for at most `fuel` pointers. -/
def walk (next : α → α) (null : α) : Nat → α → Option (List α)
  | 0, _ => none
  | fuel + 1, head => if head = null then some [] else (walk next null fuel (next head)).map (head :: ·)

theorem walk_iff {null head : α} {fuel : Nat} :
    walk next null fuel head = some l ↔ Chain next null head l ∧ l.length < fuel := by
  induction fuel generalizing head l with
  | zero => simp [walk]
  | succ fuel ih =>
    unfold walk
    split
    · rename_i isNull
      constructor
      · rintro ⟨⟩
        exact ⟨chain_nil_iff.mpr isNull, Nat.succ_pos _⟩
      · rintro ⟨chain, _⟩
        rw [chain_unique chain (chain_nil_iff.mpr isNull)]
    · rename_i nonnull
      cases l with
      | nil => simp [chain_nil_iff, nonnull]
      | cons x l =>
        simp only [Option.map_eq_some_iff, List.cons.injEq, chain_cons_iff, ih, List.length_cons,
          Nat.add_lt_add_iff_right]
        constructor
        · rintro ⟨rest, ⟨chain, short⟩, rfl, rfl⟩
          exact ⟨⟨rfl, nonnull, chain⟩, short⟩
        · rintro ⟨⟨rfl, _, chain⟩, short⟩
          exact ⟨l, ⟨chain, short⟩, rfl, rfl⟩

/-! ### Edits

`M` is the stretch between `A` and `B` that an edit takes out; `N` or `y` is what it puts there. -/

theorem chain_replace {null head head' : α} (h : Chain next null head (A ++ (M ++ B))) (unique : (A ++ B).Nodup)
    (nonnull : null ∉ N) (start : head' = (A ++ (N ++ B)).headD null)
    (others : ∀ a ∈ A ++ B, next' a = if a = A.getLastD null then (N ++ B).headD null else next a)
    (middle : Seg next' N (B.headD null)) : Chain next' null head' (A ++ (N ++ B)) := by
  obtain ⟨uniqueA, uniqueB, apart⟩ := List.nodup_append.mp unique
  have outside := h.nonnull
  simp only [List.mem_append, not_or] at outside
  refine ⟨start, ?_, seg_splice (s := null) uniqueA h.links ?_ ?_ middle ?_⟩
  · simp [outside.1, outside.2.2, nonnull]
  · intro a member front
    rw [others a (List.mem_append_left _ member), if_neg front]
  · intro nonempty
    have last := getLastD_mem (s := null) nonempty
    rw [others _ (List.mem_append_left _ last), if_pos rfl]
  · intro a member
    have absent : a ∉ A := fun other => apart a other a member rfl
    have real : a ≠ null := fun same => outside.2.2 (same ▸ member)
    rw [others a (List.mem_append_right _ member), if_neg (ne_getLastD absent real)]

theorem chain_put {null head head' y : α} (h : Chain next null head (A ++ (M ++ B)))
    (unique : (A ++ y :: B).Nodup) (nonnull : y ≠ null) (start : head' = (A ++ y :: B).headD null)
    (others : ∀ a ∈ A ++ B, next' a = if a = A.getLastD null then y else next a)
    (middle : next' y = B.headD null) : Chain next' null head' (A ++ y :: B) :=
  chain_replace (N := [y]) h (unique.sublist ((List.sublist_cons_self y B).append_left A))
    (by simpa using nonnull.symm) start others ⟨middle, trivial⟩

theorem chain_drop {null head head' : α} (h : Chain next null head (A ++ (M ++ B)))
    (unique : (A ++ B).Nodup) (start : head' = (A ++ B).headD null)
    (others : ∀ a ∈ A ++ B, next' a = if a = A.getLastD null then B.headD null else next a) :
    Chain next' null head' (A ++ B) :=
  chain_replace (N := []) h unique List.not_mem_nil start others trivial

theorem back_put {null y : α} (h : Back prev s (A ++ (M ++ B))) (unique : (A ++ y :: B).Nodup)
    (nonnull : null ∉ A ++ B) (source : A ≠ [] → s' = s)
    (others : ∀ a ∈ A ++ B, prev' a = if a = B.headD null then y else prev a)
    (middle : prev' y = A.getLastD s') : Back prev' s' (A ++ y :: B) := by
  obtain ⟨uniqueA, uniqueB, apart⟩ := List.nodup_append.mp unique
  have uniqueB := (List.nodup_cons.mp uniqueB).2
  simp only [List.mem_append, not_or] at nonnull
  have h' : Back prev s' (A ++ (M ++ B)) ∨ A = [] := by
    by_cases empty : A = []
    · exact Or.inr empty
    · exact Or.inl (source empty ▸ h)
  have behind : Back prev' y B := by
    rw [back_append, back_append] at h
    apply back_resource uniqueB h.2.2 (t := null)
    · intro nonempty
      rw [others _ (List.mem_append_right _ (headD_mem nonempty)), if_pos rfl]
    · intro a member front
      rw [others a (List.mem_append_right _ member), if_neg front]
  refine back_append.mpr ⟨?_, middle, behind⟩
  rcases h' with h' | empty
  · refine back_congr ?_ (back_append.mp h').1
    intro a member
    have absent : a ∉ B := fun other => apart a member a (List.mem_cons_of_mem _ other) rfl
    have real : a ≠ null := fun same => nonnull.1 (same ▸ member)
    rw [others a (List.mem_append_left _ member), if_neg (ne_headD absent real)]
  · rw [empty]
    trivial

theorem back_drop {null : α} (h : Back prev s (A ++ (M ++ B))) (unique : (A ++ B).Nodup)
    (nonnull : null ∉ A ++ B)
    (others : ∀ a ∈ A ++ B, prev' a = if a = B.headD null then A.getLastD s else prev a) :
    Back prev' s (A ++ B) := by
  obtain ⟨uniqueA, uniqueB, apart⟩ := List.nodup_append.mp unique
  simp only [List.mem_append, not_or] at nonnull
  refine back_splice (N := []) (t := null) uniqueB h ?_ trivial ?_ ?_
  · intro a member
    have absent : a ∉ B := fun other => apart a member a other rfl
    have real : a ≠ null := fun same => nonnull.1 (same ▸ member)
    rw [others a (List.mem_append_left _ member), if_neg (ne_headD absent real)]
  · intro nonempty
    rw [others _ (List.mem_append_right _ (headD_mem nonempty)), if_pos rfl]
    rfl
  · intro a member front
    rw [others a (List.mem_append_right _ member), if_neg front]

variable {null head head' tail : α}

/-- Insertion in front of the stretch `B`, which keeps the tail. -/
theorem queue_put {y : α} (h : Queue next null head tail (A ++ B)) (unique : (A ++ y :: B).Nodup)
    (nonnull : y ≠ null) (front : B ≠ []) (start : head' = (A ++ y :: B).headD null)
    (others : ∀ a ∈ A ++ B, next' a = if a = A.getLastD null then y else next a)
    (middle : next' y = B.headD null) : Queue next' null head' tail (A ++ y :: B) := by
  refine ⟨chain_put (M := []) h.chain unique nonnull start others middle, ?_⟩
  rw [h.tail, getLastD_append, getLastD_append, List.getLastD_cons]
  exact getLastD_default front _ _

theorem queue_append {y : α} (h : Queue next null head tail A) (unique : (A ++ [y]).Nodup)
    (nonnull : y ≠ null) (start : head' = (A ++ [y]).headD null)
    (others : ∀ a ∈ A, next' a = if a = A.getLastD null then y else next a)
    (last : next' y = null) : Queue next' null head' y (A ++ [y]) := by
  have chain : Chain next null head (A ++ ([] ++ [])) := by simpa using h.chain
  refine ⟨chain_put chain unique nonnull start (by simpa using others) last, ?_⟩
  rw [getLastD_append]
  rfl

/-- Removal of a node from between `A` and `B`. -/
theorem queue_drop {y : α} (h : Queue next null head tail (A ++ y :: B)) (unique : (A ++ B).Nodup)
    (start : head' = (A ++ B).headD null)
    (others : ∀ a ∈ A ++ B, next' a = if a = A.getLastD null then B.headD null else next a) :
    Queue next' null head' (if B = [] then A.getLastD null else tail) (A ++ B) := by
  refine ⟨chain_drop (M := [y]) h.chain unique start others, ?_⟩
  rw [h.tail, getLastD_append, getLastD_append, List.getLastD_cons]
  split
  · rename_i empty
    rw [empty]
    rfl
  · rename_i nonempty
    exact getLastD_default nonempty _ _

theorem queue_pop {y : α} (h : Queue next null head tail (y :: B)) (unique : (y :: B).Nodup) :
    Queue next null (next y) (if head = tail then next y else tail) B := by
  obtain ⟨same, _, rest⟩ := chain_cons_iff.mp h.chain
  have last : tail = B.getLastD y := by rw [h.tail, List.getLastD_cons]
  refine ⟨rest, ?_⟩
  by_cases empty : B = []
  · subst empty
    rw [if_pos (same.trans last.symm)]
    exact rest.head
  · have inside : tail ∈ B := last ▸ getLastD_mem empty
    have apart : head ≠ tail := fun front => (List.nodup_cons.mp unique).1 (same ▸ front ▸ inside)
    rw [if_neg apart, last]
    exact getLastD_default empty _ _

end Library.Links
