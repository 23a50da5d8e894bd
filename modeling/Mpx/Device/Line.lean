import Mpx.Device.Serial

/-! # A serial line

What the driver is for: the requests of a device are served one after another, a WRITE sends its
buffer and a READ takes a line of input. -/

namespace Mpx.Device
open Mpx.Process

/-- What a READ of `n` bytes takes of its input: as far as the first line end, and `n` bytes at most. -/
def lineOf : Nat → List UInt8 → List UInt8
  | 0, _ => []
  | _ + 1, [] => []
  | n + 1, byte :: rest => if byte = carriageReturn then [byte] else byte :: lineOf n rest

/-- A READ of `n` bytes has its line. -/
def Filled (n : Nat) (bytes : List UInt8) : Prop :=
  bytes.length = n ∨ bytes.getLast? = some carriageReturn

/-- The bytes of a log with the number `n`. -/
def tagged (n : Nat) (log : List (Nat × UInt8)) : List UInt8 := (log.filter (·.1 = n)).map (·.2)

/-- What a request sends. -/
def payload (buffers : Ptr → UInt8) (r : Request) : List UInt8 :=
  match r.op with
  | .read => []
  | .write => (List.range r.size.toNat).map fun i => buffers (r.buffer + UInt32.ofNat i)

/-- The requests accepted with what they held then, the number of those retired, the bytes carried and
received with the number of the request in service, the bytes sent, and the progress of the request
in service. -/
structure Line where
  accepted : List Request
  contents : List (List UInt8)
  retired : Nat
  moved : List (Nat × UInt8)
  arrived : List (Nat × UInt8)
  sent : List UInt8
  bufferIdx : Nat
  event : Bool

namespace Line

/-- The request in service. -/
def active (l : Line) : Option Request := l.accepted[l.retired]?

def send (l : Line) (byte : UInt8) : Line :=
  { l with sent := l.sent ++ [byte], moved := l.moved ++ [(l.retired, byte)] }

def start (buffers : Ptr → UInt8) (l : Line) : Line :=
  match l.active with
  | none => l
  | some r =>
    match r.op with
    | .read => { l with bufferIdx := 0 }
    | .write => { l with bufferIdx := 0 }.send (buffers r.buffer)

def accept (buffers : Ptr → UInt8) (l : Line) (r : Request) : Line :=
  { l with accepted := l.accepted ++ [r], contents := l.contents ++ [payload buffers r] }

def receive (l : Line) (byte : UInt8) : Line :=
  let next := { l with arrived := l.arrived ++ [(l.retired, byte)] }
  match l.active with
  | none => next
  | some r =>
    if r.op = .read ∧ l.event = false then
      { next with
        moved := l.moved ++ [(l.retired, byte)]
        bufferIdx := l.bufferIdx + 1
        event := decide (l.bufferIdx + 1 = r.size.toNat) || decide (byte = carriageReturn) }
    else next

/-- The device has taken a byte. -/
def confirm (buffers : Ptr → UInt8) (l : Line) : Line :=
  match l.active with
  | none => l
  | some r =>
    if r.op = .write ∧ l.event = false then
      if l.bufferIdx + 1 = r.size.toNat then { l with bufferIdx := l.bufferIdx + 1, event := true }
      else { l with bufferIdx := l.bufferIdx + 1 }.send (buffers (r.buffer + UInt32.ofNat (l.bufferIdx + 1)))
    else l

def retire (l : Line) : Line := { l with retired := l.retired + 1, event := false }

/-- What can happen on a line while memory holds `buffers`. -/
inductive Step (buffers : Ptr → UInt8) (l : Line) : Line → Prop
  | rest : Step buffers l l
  | queued (r : Request) : r.size ≠ 0 → l.active ≠ none → Step buffers l (l.accept buffers r)
  | started (r : Request) : r.size ≠ 0 → l.active = none → Step buffers l ((l.accept buffers r).start buffers)
  | received (byte : UInt8) : l.active ≠ none → Step buffers l (l.receive byte)
  | confirmed : Step buffers l (l.confirm buffers)
  | retired : l.event = true → Step buffers l (l.retire.start buffers)

end Line

variable {l l' : Line} {n : Nat} {byte : UInt8} {bytes : List UInt8} {log : List (Nat × UInt8)} {r : Request}
  {buffers buffers' : Ptr → UInt8}

theorem start_none (idle : l.active = none) : l.start buffers = l := by
  unfold Line.start
  rw [idle]

theorem start_read (active : l.active = some r) (op : r.op = .read) : l.start buffers = { l with bufferIdx := 0 } := by
  unfold Line.start
  rw [active]
  dsimp only
  rw [op]

theorem start_write (active : l.active = some r) (op : r.op = .write) :
    l.start buffers = { l with bufferIdx := 0 }.send (buffers r.buffer) := by
  unfold Line.start
  rw [active]
  dsimp only
  rw [op]

theorem receive_ignored {byte : UInt8} (other : ∀ r, l.active = some r → ¬(r.op = .read ∧ l.event = false)) :
    l.receive byte = { l with arrived := l.arrived ++ [(l.retired, byte)] } := by
  unfold Line.receive
  cases active : l.active with
  | none => rfl
  | some r => exact if_neg (other r active)

theorem receive_stored {byte : UInt8} (active : l.active = some r) (op : r.op = .read) (event : l.event = false) :
    l.receive byte =
      { l with
        arrived := l.arrived ++ [(l.retired, byte)]
        moved := l.moved ++ [(l.retired, byte)]
        bufferIdx := l.bufferIdx + 1
        event := decide (l.bufferIdx + 1 = r.size.toNat) || decide (byte = carriageReturn) } := by
  unfold Line.receive
  rw [active]
  exact if_pos ⟨op, event⟩

theorem confirm_ignored (other : ∀ r, l.active = some r → ¬(r.op = .write ∧ l.event = false)) :
    l.confirm buffers = l := by
  unfold Line.confirm
  cases active : l.active with
  | none => rfl
  | some r => exact if_neg (other r active)

theorem confirm_whole (active : l.active = some r) (op : r.op = .write) (event : l.event = false)
    (whole : l.bufferIdx + 1 = r.size.toNat) :
    l.confirm buffers = { l with bufferIdx := l.bufferIdx + 1, event := true } := by
  unfold Line.confirm
  rw [active]
  dsimp only
  rw [if_pos ⟨op, event⟩, if_pos whole]

theorem confirm_part (active : l.active = some r) (op : r.op = .write) (event : l.event = false)
    (part : l.bufferIdx + 1 ≠ r.size.toNat) :
    l.confirm buffers =
      { l with bufferIdx := l.bufferIdx + 1 }.send (buffers (r.buffer + UInt32.ofNat (l.bufferIdx + 1))) := by
  unfold Line.confirm
  rw [active]
  dsimp only
  rw [if_pos ⟨op, event⟩, if_neg part]

/-! ### Lines of input -/

theorem lineOf_length (n : Nat) (bytes : List UInt8) : (lineOf n bytes).length ≤ n := by
  induction n generalizing bytes with
  | zero => exact Nat.le_refl _
  | succ n ih =>
    cases bytes with
    | nil => exact Nat.zero_le _
    | cons byte rest =>
      unfold lineOf
      split
      · exact Nat.le_add_left 1 n
      · exact Nat.succ_le_succ (ih rest)

theorem filled_cons (other : byte ≠ carriageReturn) : Filled (n + 1) (byte :: bytes) ↔ Filled n bytes := by
  unfold Filled
  rw [List.length_cons, Nat.add_right_cancel_iff]
  cases bytes with
  | nil => simp [other]
  | cons b rest => rw [List.getLast?_cons_cons]

/-- A byte more of input is taken as long as there is no line. -/
theorem lineOf_snoc (n : Nat) (bytes : List UInt8) (byte : UInt8) :
    (Filled n (lineOf n bytes) → lineOf n (bytes ++ [byte]) = lineOf n bytes) ∧
      (¬Filled n (lineOf n bytes) → lineOf n (bytes ++ [byte]) = lineOf n bytes ++ [byte]) := by
  induction n generalizing bytes with
  | zero => exact ⟨fun _ => rfl, fun none => (none (.inl rfl)).elim⟩
  | succ n ih =>
    cases bytes with
    | nil =>
      constructor
      · intro filled
        cases filled with
        | inl full => cases full
        | inr ends => cases ends
      · intro _
        show (if byte = carriageReturn then [byte] else byte :: lineOf n []) = [byte]
        split
        · rfl
        · cases n <;> rfl
    | cons b rest =>
      simp only [List.cons_append, lineOf]
      by_cases ends : b = carriageReturn
      · rw [if_pos ends, if_pos ends]
        exact ⟨fun _ => rfl, fun none => (none (.inr (by simp [ends]))).elim⟩
      · rw [if_neg ends, if_neg ends, filled_cons ends]
        obtain ⟨full, part⟩ := ih rest
        exact ⟨fun filled => by rw [full filled], fun none => by rw [part none]; rfl⟩

theorem tagged_append (n : Nat) (log rest : List (Nat × UInt8)) :
    tagged n (log ++ rest) = tagged n log ++ tagged n rest := by
  unfold tagged
  rw [List.filter_append, List.map_append]

theorem tagged_own (n : Nat) (byte : UInt8) : tagged n [(n, byte)] = [byte] := by
  simp [tagged]

theorem tagged_other {m : Nat} (other : m ≠ n) : tagged n [(m, byte)] = [] := by
  simp [tagged, other]

theorem tagged_none (none : ∀ e ∈ log, e.1 < n) : tagged n log = [] := by
  unfold tagged
  rw [List.map_eq_nil_iff, List.filter_eq_nil_iff]
  intro e member
  have := none e member
  simp only [decide_eq_true_eq]
  omega

theorem payload_read (op : r.op = .read) : payload buffers r = [] := by
  unfold payload
  rw [op]

theorem payload_take (op : r.op = .write) (inside : n < r.size.toNat) :
    (payload buffers r).take (n + 1) = (payload buffers r).take n ++ [buffers (r.buffer + UInt32.ofNat n)] := by
  unfold payload
  rw [op]
  dsimp only
  have bound : n < ((List.range r.size.toNat).map fun i => buffers (r.buffer + UInt32.ofNat i)).length := by
    rw [List.length_map, List.length_range]
    exact inside
  rw [List.take_succ_eq_append_getElem bound, List.getElem_map, List.getElem_range]

theorem payload_length (buffers : Ptr → UInt8) (op : r.op = .write) : (payload buffers r).length = r.size.toNat := by
  unfold payload
  rw [op]
  simp

/-! ### What is sent -/

/-- How much of the request in service has been sent. -/
def Line.started (l : Line) : Nat := if l.event then l.bufferIdx else l.bufferIdx + 1

/-- What was sent is the contents of the retired requests and of the request in service as far as
it has come. -/
structure Output (buffers : Ptr → UInt8) (l : Line) : Prop where
  length : l.contents.length = l.accepted.length
  bounded : l.retired ≤ l.accepted.length
  ahead : ∀ n r, l.retired ≤ n → l.accepted[n]? = some r → l.contents[n]? = some (payload buffers r)
  event : l.event = true → l.active ≠ none
  progress : ∀ r, l.active = some r → r.op = .write →
    if l.event = true then l.bufferIdx = r.size.toNat else l.bufferIdx < r.size.toNat
  sent : l.sent = (l.contents.take l.retired).flatten ++ (l.contents[l.retired]?.getD []).take l.started

theorem flatten_take_succ (contents : List (List UInt8)) (n : Nat) :
    (contents.take (n + 1)).flatten = (contents.take n).flatten ++ contents[n]?.getD [] := by
  rw [List.take_add_one, List.flatten_append]
  cases contents[n]? <;> simp

theorem Line.active_none (out : Output buffers l) (idle : l.active = none) : l.retired = l.accepted.length := by
  have outside := List.getElem?_eq_none_iff.mp idle
  exact Nat.le_antisymm out.bounded outside

/-- As long as memory keeps what the requests will send, it may change. -/
theorem output_kept (out : Output buffers l)
    (same : ∀ n r, l.retired ≤ n → l.accepted[n]? = some r → payload buffers' r = payload buffers r) :
    Output buffers' l := by
  obtain ⟨length, bounded, ahead, event, progress, sent⟩ := out
  refine ⟨length, bounded, ?_, event, progress, sent⟩
  intro n r late found
  rw [same n r late found]
  exact ahead n r late found

theorem output_prefix (out : Output buffers l) : l.sent <+: l.contents.flatten := by
  have whole : l.contents.flatten =
      (l.contents.take (l.retired + 1)).flatten ++ (l.contents.drop (l.retired + 1)).flatten := by
    rw [← List.flatten_append, List.take_append_drop]
  rw [whole, flatten_take_succ, out.sent]
  exact (List.prefix_append_right_inj _).mpr (List.take_prefix _ _) |>.trans (List.prefix_append _ _)

/-- The contents of each request that has raised its event have been sent. -/
theorem output_whole (out : Output buffers l) (n : Nat)
    (raised : n < l.retired ∨ n = l.retired ∧ l.event = true) : (l.contents.take (n + 1)).flatten <+: l.sent := by
  rw [out.sent]
  cases raised with
  | inl early =>
    have first : (l.contents.take l.retired).take (n + 1) = l.contents.take (n + 1) := by
      rw [List.take_take, Nat.min_eq_left early]
    rw [← List.take_append_drop (n + 1) (l.contents.take l.retired), first, List.flatten_append, List.append_assoc]
    exact List.prefix_append _ _
  | inr now =>
    obtain ⟨rfl, event⟩ := now
    rw [flatten_take_succ]
    obtain ⟨r, active⟩ := Option.ne_none_iff_exists'.mp (out.event event)
    have contents := out.ahead l.retired r (Nat.le_refl _) active
    rw [contents, Option.getD_some]
    have all : (payload buffers r).take l.started = payload buffers r := by
      unfold Line.started
      rw [if_pos event]
      cases op : r.op with
      | read => rw [payload_read op, List.take_nil]
      | write =>
        have done := out.progress r active op
        rw [if_pos event] at done
        rw [done, ← payload_length buffers op, List.take_length]
    exact ⟨[], by rw [List.append_nil, all]⟩

theorem getElem?_snoc_old {α : Type} {xs : List α} {x : α} (inside : n < xs.length) :
    (xs ++ [x])[n]? = xs[n]? := List.getElem?_append_left inside

/-- A line whose request in service has not sent anything yet. -/
structure Waiting (buffers : Ptr → UInt8) (l : Line) : Prop where
  length : l.contents.length = l.accepted.length
  bounded : l.retired ≤ l.accepted.length
  ahead : ∀ n r, l.retired ≤ n → l.accepted[n]? = some r → l.contents[n]? = some (payload buffers r)
  event : l.event = false
  sizes : ∀ r, l.active = some r → r.size ≠ 0
  sent : l.sent = (l.contents.take l.retired).flatten

theorem size_positive {size : UInt32} (size_ne : size ≠ 0) : 0 < size.toNat := by
  apply Nat.pos_of_ne_zero
  intro zero
  exact size_ne (UInt32.toNat_inj.mp zero)

theorem start_output (waiting : Waiting buffers l) : Output buffers (l.start buffers) := by
  obtain ⟨length, bounded, ahead, event, sizes, sent⟩ := waiting
  cases active : l.active with
  | none =>
    rw [start_none active]
    have absent : l.contents[l.retired]? = none := by
      rw [List.getElem?_eq_none_iff, length]
      exact List.getElem?_eq_none_iff.mp active
    refine ⟨length, bounded, ahead, ?_, ?_, ?_⟩
    · intro set
      exact absurd (event.symm.trans set) (by decide)
    · intro r found
      exact absurd (active.symm.trans found) (by simp)
    · rw [absent, sent]
      simp
  | some r =>
    have contents := ahead l.retired r (Nat.le_refl _) active
    have positive := size_positive (sizes r active)
    have busy : l.event = true → l.active ≠ none := by
      intro set
      exact absurd (event.symm.trans set) (by decide)
    cases op : r.op with
    | read =>
      rw [start_read active op]
      refine ⟨length, bounded, ahead, busy, ?_, ?_⟩
      · intro r' found write
        obtain rfl : r = r' := Option.some.inj (active.symm.trans found)
        exact absurd (op.symm.trans write) (by decide)
      · show l.sent = _ ++ (l.contents[l.retired]?.getD []).take _
        rw [contents, Option.getD_some, payload_read op, List.take_nil, List.append_nil]
        exact sent
    | write =>
      rw [start_write active op]
      refine ⟨length, bounded, ahead, busy, ?_, ?_⟩
      · intro r' found write
        obtain rfl : r = r' := Option.some.inj (active.symm.trans found)
        show if l.event = true then 0 = r.size.toNat else 0 < r.size.toNat
        rw [event, if_neg (by decide)]
        exact positive
      · show l.sent ++ [buffers r.buffer] =
          (l.contents.take l.retired).flatten ++ (l.contents[l.retired]?.getD []).take
            (if l.event then 0 else 0 + 1)
        have first : (payload buffers r).take (0 + 1) = [buffers r.buffer] := by
          rw [payload_take op positive, List.take_zero, List.nil_append]
          congr 2
          exact UInt32.add_zero _
        rw [event, contents, Option.getD_some, if_neg (by decide), first, sent]

theorem accept_output (out : Output buffers l) (busy : l.active ≠ none) (r : Request) :
    Output buffers (l.accept buffers r) := by
  obtain ⟨length, bounded, ahead, event, progress, sent⟩ := out
  have inside : l.retired < l.accepted.length := by
    by_contra outside
    exact busy (List.getElem?_eq_none_iff.mpr (Nat.le_of_not_lt outside))
  have kept : (l.accept buffers r).active = l.active := getElem?_snoc_old inside
  have inside' : l.retired < l.contents.length := length ▸ inside
  refine ⟨?_, ?_, ?_, ?_, ?_, ?_⟩
  · show (l.contents ++ [payload buffers r]).length = (l.accepted ++ [r]).length
    rw [List.length_append, List.length_append, length]
    rfl
  · show l.retired ≤ (l.accepted ++ [r]).length
    rw [List.length_append]
    exact Nat.le_add_right_of_le bounded
  · intro n r' late found
    show (l.contents ++ [payload buffers r])[n]? = _
    by_cases old : n < l.accepted.length
    · rw [getElem?_snoc_old (length ▸ old)]
      exact ahead n r' late ((getElem?_snoc_old old).symm.trans found)
    · have found : (l.accepted ++ [r])[n]? = some r' := found
      have last : n = l.accepted.length := by
        have := (List.getElem?_eq_some_iff.mp found).1
        rw [List.length_append, List.length_singleton] at this
        omega
      subst last
      rw [List.getElem?_concat_length] at found
      obtain rfl := Option.some.inj found
      rw [← length, List.getElem?_concat_length]
  · rw [kept]
    exact event
  · rw [kept]
    exact progress
  · show l.sent = ((l.contents ++ [_]).take l.retired).flatten ++ ((l.contents ++ [_])[l.retired]?.getD []).take l.started
    rw [List.take_append_of_le_length (Nat.le_of_lt inside'), getElem?_snoc_old inside']
    exact sent

/-- A READ sends nothing, whatever its progress is. -/
theorem output_reading (out : Output buffers l) (active : l.active = some r) (op : r.op = .read)
    (same : l'.accepted = l.accepted ∧ l'.contents = l.contents ∧ l'.retired = l.retired ∧ l'.sent = l.sent) :
    Output buffers l' := by
  obtain ⟨length, bounded, ahead, _, _, sent⟩ := out
  obtain ⟨accepted, contents, retired, sends⟩ := same
  have kept : l'.active = some r := by
    unfold Line.active
    rw [accepted, retired]
    exact active
  have none : l.contents[l.retired]? = some [] := by
    rw [ahead l.retired r (Nat.le_refl _) active, payload_read op]
  refine ⟨?_, ?_, ?_, ?_, ?_, ?_⟩
  · rw [contents, accepted, length]
  · rw [retired, accepted]
    exact bounded
  · rw [retired, accepted, contents]
    exact ahead
  · intro _
    rw [kept]
    exact Option.some_ne_none r
  · intro r' found write
    obtain rfl : r = r' := Option.some.inj (kept.symm.trans found)
    exact absurd (op.symm.trans write) (by decide)
  · rw [contents, retired, sends, sent, none, Option.getD_some, List.take_nil, List.take_nil]

theorem receive_output (out : Output buffers l) (byte : UInt8) : Output buffers (l.receive byte) := by
  by_cases stores : ∃ r, l.active = some r ∧ r.op = .read ∧ l.event = false
  · obtain ⟨r, active, op, event⟩ := stores
    rw [receive_stored active op event]
    exact output_reading out active op ⟨rfl, rfl, rfl, rfl⟩
  · rw [receive_ignored fun r active both => stores ⟨r, active, both⟩]
    obtain ⟨length, bounded, ahead, event, progress, sent⟩ := out
    exact ⟨length, bounded, ahead, event, progress, sent⟩

theorem confirm_output (out : Output buffers l) : Output buffers (l.confirm buffers) := by
  by_cases sends : ∃ r, l.active = some r ∧ r.op = .write ∧ l.event = false
  · obtain ⟨r, active, op, event⟩ := sends
    obtain ⟨length, bounded, ahead, _, progress, sent⟩ := out
    have contents := ahead l.retired r (Nat.le_refl _) active
    have part := progress r active op
    rw [event, if_neg (by decide)] at part
    have busy : l.active ≠ none := active ▸ Option.some_ne_none r
    unfold Line.started at sent
    rw [event, if_neg (by decide), contents, Option.getD_some] at sent
    by_cases whole : l.bufferIdx + 1 = r.size.toNat
    · rw [confirm_whole active op event whole]
      refine ⟨length, bounded, ahead, fun _ => busy, ?_, ?_⟩
      · intro r' found _
        obtain rfl : r = r' := Option.some.inj (active.symm.trans found)
        exact (if_pos rfl).mpr whole
      · show l.sent = _ ++ (l.contents[l.retired]?.getD []).take (l.bufferIdx + 1)
        rw [contents, Option.getD_some]
        exact sent
    · rw [confirm_part active op event whole]
      have inside : l.bufferIdx + 1 < r.size.toNat := Nat.lt_of_le_of_ne part whole
      refine ⟨length, bounded, ahead, fun _ => busy, ?_, ?_⟩
      · intro r' found _
        obtain rfl : r = r' := Option.some.inj (active.symm.trans found)
        show if l.event = true then l.bufferIdx + 1 = r.size.toNat else l.bufferIdx + 1 < r.size.toNat
        rw [event, if_neg (by decide)]
        exact inside
      · show l.sent ++ [_] = (l.contents.take l.retired).flatten ++ (l.contents[l.retired]?.getD []).take
          (if l.event then l.bufferIdx + 1 else l.bufferIdx + 1 + 1)
        rw [event, if_neg (by decide), contents, Option.getD_some, payload_take op inside, sent, List.append_assoc]
  · rw [confirm_ignored fun r active both => sends ⟨r, active, both⟩]
    exact out

/-- A request that has raised its event has been sent as a whole. -/
theorem retire_waiting (out : Output buffers l) (event : l.event = true) (sizes : ∀ r ∈ l.accepted, r.size ≠ 0) :
    Waiting buffers l.retire := by
  have whole := output_whole out l.retired (.inr ⟨rfl, event⟩)
  have inside : l.retired < l.accepted.length := by
    by_contra outside
    exact out.event event (List.getElem?_eq_none_iff.mpr (Nat.le_of_not_lt outside))
  refine ⟨out.length, inside, ?_, rfl, ?_, ?_⟩
  · intro n r late found
    exact out.ahead n r (Nat.le_of_succ_le late) found
  · intro r active
    exact sizes r (List.mem_of_getElem? active)
  · show l.sent = (l.contents.take (l.retired + 1)).flatten
    rw [flatten_take_succ] at whole ⊢
    rw [out.sent] at whole ⊢
    have part := (List.prefix_append_right_inj _).mp whole
    congr 1
    exact (List.take_prefix _ _).eq_of_length_le part.length_le

theorem accept_waiting (out : Output buffers l) (idle : l.active = none) (size : r.size ≠ 0) :
    Waiting buffers (l.accept buffers r) := by
  have all := Line.active_none out idle
  have exactly : l.contents.length = l.retired := by rw [out.length, all]
  have length : (l.accept buffers r).contents.length = (l.accept buffers r).accepted.length := by
    show (l.contents ++ [_]).length = (l.accepted ++ [_]).length
    rw [List.length_append, List.length_append, out.length]
    rfl
  refine ⟨length, ?_, ?_, ?_, ?_, ?_⟩
  · show l.retired ≤ (l.accepted ++ [r]).length
    rw [List.length_append]
    exact Nat.le_add_right_of_le out.bounded
  · intro n r' late found
    have found : (l.accepted ++ [r])[n]? = some r' := found
    have last : n = l.accepted.length := by
      have := (List.getElem?_eq_some_iff.mp found).1
      rw [List.length_append, List.length_singleton] at this
      have late : l.retired ≤ n := late
      omega
    subst last
    rw [List.getElem?_concat_length] at found
    obtain rfl := Option.some.inj found
    show (l.contents ++ [payload buffers r])[_]? = _
    rw [← out.length, List.getElem?_concat_length]
  · show l.event = false
    cases event : l.event with
    | false => rfl
    | true => exact (out.event event idle).elim
  · intro r' active
    have active : (l.accepted ++ [r])[l.retired]? = some r' := active
    rw [all, List.getElem?_concat_length] at active
    exact Option.some.inj active ▸ size
  · show l.sent = ((l.contents ++ [_]).take l.retired).flatten
    have none : l.contents[l.retired]? = none := List.getElem?_eq_none_iff.mpr (Nat.le_of_eq exactly)
    rw [List.take_append_of_le_length (Nat.le_of_eq exactly.symm), out.sent, none]
    simp

theorem step_output (out : Output buffers l) (sizes : ∀ r ∈ l.accepted, r.size ≠ 0) (step : Line.Step buffers l l') :
    Output buffers l' := by
  cases step with
  | rest => exact out
  | queued r _ busy => exact accept_output out busy r
  | started r size idle => exact start_output (accept_waiting out idle size)
  | received byte _ => exact receive_output out byte
  | confirmed => exact confirm_output out
  | retired event => exact start_output (retire_waiting out event sizes)

/-! ### What is received -/

/-- Each READ has its line of what was received in its turn, and nothing else. -/
structure Input (l : Line) : Prop where
  sizes : ∀ r ∈ l.accepted, r.size ≠ 0
  bounded : ∀ e ∈ l.moved ++ l.arrived, e.1 ≤ l.retired
  idle : l.active = none → l.retired = l.accepted.length ∧ l.event = false ∧
    ∀ e ∈ l.moved ++ l.arrived, e.1 < l.retired
  reads : ∀ n r, n ≤ l.retired → l.accepted[n]? = some r → r.op = .read →
    tagged n l.moved = lineOf r.size.toNat (tagged n l.arrived)
  progress : ∀ r, l.active = some r → r.op = .read →
    l.bufferIdx = (tagged l.retired l.moved).length ∧
      (l.event = true ↔ Filled r.size.toNat (tagged l.retired l.moved))

/-- A line on which nothing has come in for the next request. -/
structure Quiet (l : Line) : Prop where
  sizes : ∀ r ∈ l.accepted, r.size ≠ 0
  bounded : l.retired ≤ l.accepted.length
  event : l.event = false
  early : ∀ e ∈ l.moved ++ l.arrived, e.1 < l.retired
  reads : ∀ n r, n < l.retired → l.accepted[n]? = some r → r.op = .read →
    tagged n l.moved = lineOf r.size.toNat (tagged n l.arrived)

theorem lineOf_nil (n : Nat) : lineOf n [] = [] := by
  cases n <;> rfl

theorem start_input (quiet : Quiet l) : Input (l.start buffers) := by
  obtain ⟨sizes, bounded, event, early, reads⟩ := quiet
  have moved : tagged l.retired l.moved = [] :=
    tagged_none fun e member => early e (List.mem_append_left _ member)
  have arrived : tagged l.retired l.arrived = [] :=
    tagged_none fun e member => early e (List.mem_append_right _ member)
  have upto : ∀ n r, n ≤ l.retired → l.accepted[n]? = some r → r.op = .read →
      tagged n l.moved = lineOf r.size.toNat (tagged n l.arrived) := by
    intro n r late found op
    cases Nat.lt_or_eq_of_le late with
    | inl past => exact reads n r past found op
    | inr now => rw [now, moved, arrived, lineOf_nil]
  cases active : l.active with
  | none =>
    rw [start_none active]
    have outside := List.getElem?_eq_none_iff.mp active
    refine ⟨sizes, fun e member => Nat.le_of_lt (early e member),
      fun _ => ⟨Nat.le_antisymm bounded outside, event, early⟩, upto, ?_⟩
    intro r found
    exact absurd (active.symm.trans found) (by simp)
  | some r =>
    have size := size_positive (sizes r (List.mem_of_getElem? active))
    cases op : r.op with
    | read =>
      rw [start_read active op]
      refine ⟨sizes, fun e member => Nat.le_of_lt (early e member), ?_, upto, ?_⟩
      · intro idle
        exact absurd (active.symm.trans idle) (by simp)
      · intro r' found _
        obtain rfl : r = r' := Option.some.inj (active.symm.trans found)
        show 0 = (tagged l.retired l.moved).length ∧ (l.event = true ↔ Filled _ (tagged l.retired l.moved))
        rw [moved, event]
        refine ⟨rfl, fun set => absurd set (by decide), fun filled => ?_⟩
        cases filled with
        | inl full => exact absurd full (Nat.ne_of_lt size)
        | inr ends => cases ends
    | write =>
      rw [start_write active op]
      refine ⟨sizes, ?_, ?_, ?_, ?_⟩
      · intro e member
        have member : e ∈ (l.moved ++ [(l.retired, buffers r.buffer)]) ++ l.arrived := member
        simp only [List.mem_append, List.mem_singleton] at member
        rcases member with (old | rfl) | old
        · exact Nat.le_of_lt (early e (List.mem_append_left _ old))
        · exact Nat.le_refl l.retired
        · exact Nat.le_of_lt (early e (List.mem_append_right _ old))
      · intro idle
        exact absurd (active.symm.trans idle) (by simp)
      · intro n r' late found read
        show tagged n (l.moved ++ [(l.retired, buffers r.buffer)]) = _
        have other : l.retired ≠ n := by
          rintro rfl
          obtain rfl : r = r' := Option.some.inj (active.symm.trans found)
          exact absurd (op.symm.trans read) (by decide)
        rw [tagged_append, tagged_other other, List.append_nil]
        exact upto n r' late found read
      · intro r' found read
        obtain rfl : r = r' := Option.some.inj (active.symm.trans found)
        exact absurd (op.symm.trans read) (by decide)

/-- The bytes that come in for one request count for no other one. -/
theorem reads_progress (input : Input l) (busy : l.active ≠ none) {late : List (Nat × UInt8)}
    (moved : l'.moved = l.moved ++ late) (accepted : l'.accepted = l.accepted) (retired : l'.retired = l.retired)
    (arrived : ∃ rest, l'.arrived = l.arrived ++ rest ∧ ∀ e ∈ rest, e.1 = l.retired)
    (now : ∀ e ∈ late, e.1 = l.retired)
    (reads : ∀ r, l.active = some r → r.op = .read →
      tagged l.retired l'.moved = lineOf r.size.toNat (tagged l.retired l'.arrived) ∧
        l'.bufferIdx = (tagged l.retired l'.moved).length ∧
          (l'.event = true ↔ Filled r.size.toNat (tagged l.retired l'.moved))) : Input l' := by
  obtain ⟨rest, arrived, rests⟩ := arrived
  have kept : l'.active = l.active := by
    unfold Line.active
    rw [accepted, retired]
  have others : ∀ n (log : List (Nat × UInt8)), n ≠ l.retired → (∀ e ∈ log, e.1 = l.retired) → tagged n log = [] := by
    intro n log other all
    unfold tagged
    rw [List.map_eq_nil_iff, List.filter_eq_nil_iff]
    intro e member
    simp [all e member, Ne.symm other]
  refine ⟨?_, ?_, ?_, ?_, ?_⟩
  · rw [accepted]
    exact input.sizes
  · intro e member
    rw [moved, arrived] at member
    simp only [List.mem_append] at member
    rw [retired]
    rcases member with (old | new) | (old | new)
    · exact input.bounded e (List.mem_append_left _ old)
    · exact Nat.le_of_eq (now e new)
    · exact input.bounded e (List.mem_append_right _ old)
    · exact Nat.le_of_eq (rests e new)
  · intro idle
    exact (busy (kept.symm.trans idle)).elim
  · intro n r bound found op
    rw [retired] at bound
    rw [accepted] at found
    by_cases same : n = l.retired
    · subst same
      exact (reads r found op).1
    · rw [moved, arrived, tagged_append, tagged_append, others n late same now, others n rest same rests,
        List.append_nil, List.append_nil]
      exact input.reads n r bound found op
  · intro r found op
    rw [retired]
    exact (reads r (kept.symm.trans found) op).2

theorem receive_input (input : Input l) (busy : l.active ≠ none) (byte : UInt8) : Input (l.receive byte) := by
  have arrives : ∃ rest, l.arrived ++ [(l.retired, byte)] = l.arrived ++ rest ∧ ∀ e ∈ rest, e.1 = l.retired :=
    ⟨_, rfl, fun e member => by rw [List.mem_singleton.mp member]⟩
  by_cases stores : ∃ r, l.active = some r ∧ r.op = .read ∧ l.event = false
  · obtain ⟨r, active, op, event⟩ := stores
    obtain ⟨count, raised⟩ := input.progress r active op
    have line := input.reads l.retired r (Nat.le_refl _) active op
    rw [receive_stored active op event]
    refine reads_progress input busy rfl rfl rfl arrives ?_ ?_
    · intro e member
      rw [List.mem_singleton.mp member]
    · intro r' found _
      obtain rfl : r = r' := Option.some.inj (active.symm.trans found)
      have part : ¬Filled r.size.toNat (tagged l.retired l.moved) := by
        rw [← raised, event]
        decide
      have step := (lineOf_snoc r.size.toNat (tagged l.retired l.arrived) byte).2
      rw [← line] at step
      show tagged l.retired (l.moved ++ [(l.retired, byte)]) = lineOf _ (tagged l.retired (l.arrived ++ [(l.retired, byte)])) ∧
        l.bufferIdx + 1 = (tagged l.retired (l.moved ++ [(l.retired, byte)])).length ∧
          ((decide (l.bufferIdx + 1 = r.size.toNat) || decide (byte = carriageReturn)) = true ↔
            Filled _ (tagged l.retired (l.moved ++ [(l.retired, byte)])))
      rw [tagged_append, tagged_append, tagged_own, step part, List.length_append, ← count]
      refine ⟨rfl, rfl, ?_⟩
      unfold Filled
      rw [List.length_append, ← count, Bool.or_eq_true, decide_eq_true_iff, decide_eq_true_iff]
      simp
  · rw [receive_ignored fun r active both => stores ⟨r, active, both⟩]
    refine reads_progress input busy (List.append_nil _).symm rfl rfl arrives ?_ ?_
    · intro e member
      cases member
    · intro r found op
      have event : l.event = true := by
        cases event : l.event with
        | true => rfl
        | false => exact (stores ⟨r, found, op, event⟩).elim
      obtain ⟨count, raised⟩ := input.progress r found op
      have line := input.reads l.retired r (Nat.le_refl _) found op
      refine ⟨?_, count, raised⟩
      have filled := raised.mp event
      rw [line] at filled
      show tagged l.retired l.moved = lineOf _ (tagged l.retired (l.arrived ++ [(l.retired, byte)]))
      rw [tagged_append, tagged_own, (lineOf_snoc _ _ _).1 filled]
      exact line

theorem confirm_input (input : Input l) : Input (l.confirm buffers) := by
  by_cases sends : ∃ r, l.active = some r ∧ r.op = .write ∧ l.event = false
  · obtain ⟨r, active, op, event⟩ := sends
    have busy : l.active ≠ none := active ▸ Option.some_ne_none r
    have writing : ∀ {P : Request → Prop} r', l.active = some r' → r'.op = .read → P r' := by
      intro P r' found read
      obtain rfl : r = r' := Option.some.inj (active.symm.trans found)
      exact absurd (op.symm.trans read) (by decide)
    have nothing : ∃ rest, l.arrived = l.arrived ++ rest ∧ ∀ e ∈ rest, e.1 = l.retired :=
      ⟨[], (List.append_nil _).symm, fun e member => by cases member⟩
    by_cases whole : l.bufferIdx + 1 = r.size.toNat
    · rw [confirm_whole active op event whole]
      exact reads_progress input busy (List.append_nil _).symm rfl rfl nothing (fun e member => by cases member) writing
    · rw [confirm_part active op event whole]
      refine reads_progress input busy rfl rfl rfl nothing ?_ ?_
      · intro e member
        rw [List.mem_singleton.mp member]
      · exact writing
  · rw [confirm_ignored fun r active both => sends ⟨r, active, both⟩]
    exact input

theorem accept_sizes (input : Input l) (size : r.size ≠ 0) : ∀ r' ∈ (l.accept buffers r).accepted, r'.size ≠ 0 := by
  intro r' member
  have member : r' ∈ l.accepted ++ [r] := member
  cases List.mem_append.mp member with
  | inl old => exact input.sizes r' old
  | inr new => exact List.mem_singleton.mp new ▸ size

theorem accept_input (input : Input l) (busy : l.active ≠ none) (size : r.size ≠ 0) :
    Input (l.accept buffers r) := by
  have inside : l.retired < l.accepted.length := by
    by_contra outside
    exact busy (List.getElem?_eq_none_iff.mpr (Nat.le_of_not_lt outside))
  have kept : (l.accept buffers r).active = l.active := getElem?_snoc_old inside
  refine ⟨accept_sizes input size, input.bounded, ?_, ?_, ?_⟩
  · intro idle
    exact (busy (kept.symm.trans idle)).elim
  · intro n r' bound found op
    have old := (getElem?_snoc_old (Nat.lt_of_le_of_lt bound inside)).symm.trans found
    exact input.reads n r' bound old op
  · intro r' found op
    exact input.progress r' (kept.symm.trans found) op

theorem accept_quiet (input : Input l) (idle : l.active = none) (size : r.size ≠ 0) :
    Quiet (l.accept buffers r) := by
  obtain ⟨all, event, early⟩ := input.idle idle
  refine ⟨accept_sizes input size, ?_, event, early, ?_⟩
  · show l.retired ≤ (l.accepted ++ [r]).length
    rw [List.length_append]
    exact Nat.le_add_right_of_le (Nat.le_of_eq all)
  · intro n r' past found op
    have past : n < l.retired := past
    have old := (getElem?_snoc_old (all ▸ past)).symm.trans found
    exact input.reads n r' (Nat.le_of_lt past) old op

theorem retire_quiet (input : Input l) (event : l.event = true) : Quiet l.retire := by
  have inside : l.retired < l.accepted.length := by
    by_contra outside
    have idle := input.idle (List.getElem?_eq_none_iff.mpr (Nat.le_of_not_lt outside))
    exact absurd (idle.2.1.symm.trans event) (by decide)
  refine ⟨input.sizes, inside, rfl, ?_, ?_⟩
  · intro e member
    exact Nat.lt_succ_of_le (input.bounded e member)
  · intro n r past found op
    exact input.reads n r (Nat.le_of_lt_succ past) found op

theorem step_input (input : Input l) (step : Line.Step buffers l l') : Input l' := by
  cases step with
  | rest => exact input
  | queued r size busy => exact accept_input input busy size
  | started r size idle => exact start_input (accept_quiet input idle size)
  | received byte busy => exact receive_input input busy byte
  | confirmed => exact confirm_input input
  | retired event => exact start_input (retire_quiet input event)

/-- A READ that has not raised its event has room for one more byte. -/
theorem input_room (input : Input l) (active : l.active = some r) (op : r.op = .read) (event : l.event = false) :
    l.bufferIdx < r.size.toNat := by
  obtain ⟨count, raised⟩ := input.progress r active op
  have line := input.reads l.retired r (Nat.le_refl _) active op
  have most : l.bufferIdx ≤ r.size.toNat := by
    rw [count, line]
    exact lineOf_length _ _
  apply Nat.lt_of_le_of_ne most
  intro full
  have set := raised.mpr (.inl (count.symm.trans full))
  exact absurd (event.symm.trans set) (by decide)

end Mpx.Device
