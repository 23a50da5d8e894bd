import Mpx.Device.Service
import Mpx.Library.Ring

/-! # How requests are started

At once, on an idle device, or when the request in front has been retired. -/

namespace Mpx.Device
open Function Library.Links Library.Ring Mpx.Process

/-- The bytes that the ring buffer holds, in the order of their arrival. -/
def Dcb.buffered (dcb : Dcb) : List UInt8 :=
  contents (fun i => dcb.rbuffer (UInt32.ofNat i)) dcb.rbufferSz.toNat dcb.rbufferIdxBegin.toNat
    dcb.rbufferIdxEnd.toNat

/-- How many of the bytes a READ of `n` bytes should take: up to the end of the first line. -/
def lineCount (bytes : List UInt8) (n : Nat) : Nat :=
  min n (min bytes.length ((bytes.takeWhile (· ≠ carriageReturn)).length + 1))

/-- `bytes` have been copied to `buffer`. -/
structure Copied (m m' : Ptr → UInt8) (buffer : Ptr) (bytes : List UInt8) : Prop where
  inside : ∀ i byte, bytes[i]? = some byte → m' (buffer + UInt32.ofNat i) = byte
  outside : ∀ a, (∀ i < bytes.length, a ≠ buffer + UInt32.ofNat i) → m' a = m a

variable {k k' : Kernel} {d : Fin 4} {buffer len idx : UInt32} {bytes : List UInt8} {n : Nat} {byte : UInt8}
  {m m' : Ptr → UInt8} {dev alloc a : UInt32} {op : IoOp}

/-! ### Lines -/

@[simp] theorem lineCount_nil (n : Nat) : lineCount [] n = 0 := by simp [lineCount]

@[simp] theorem lineCount_zero (bytes : List UInt8) : lineCount bytes 0 = 0 := Nat.zero_min _

theorem lineCount_return (bytes : List UInt8) (n : Nat) : lineCount (carriageReturn :: bytes) (n + 1) = 1 := by
  simp [lineCount]

theorem lineCount_cons (other : byte ≠ carriageReturn) (bytes : List UInt8) (n : Nat) :
    lineCount (byte :: bytes) (n + 1) = lineCount bytes n + 1 := by
  unfold lineCount
  rw [List.takeWhile_cons_of_pos (by simpa using other), List.length_cons, List.length_cons]
  omega

theorem lineCount_le (bytes : List UInt8) (n : Nat) : lineCount bytes n ≤ bytes.length := by
  unfold lineCount
  omega

theorem lineCount_pos (occupied : bytes ≠ []) (positive : 0 < n) : 0 < lineCount bytes n := by
  have length := List.length_pos_iff.mpr occupied
  unfold lineCount
  omega

/-- A READ is complete with the bytes that it takes from the ring buffer if they fill the buffer or hold
the end of a line. -/
theorem lineCount_complete (bytes : List UInt8) (n : Nat) :
    (lineCount bytes n = n ∨ (bytes.take (lineCount bytes n)).getLast? = some carriageReturn) ↔
      n ≤ bytes.length ∨ carriageReturn ∈ bytes := by
  induction bytes generalizing n with
  | nil => simp [eq_comm]
  | cons byte bytes ih =>
    cases n with
    | zero => simp
    | succ n =>
      by_cases line : byte = carriageReturn
      · subst line
        rw [lineCount_return]
        simp
      · rw [lineCount_cons line, List.take_succ_cons, Nat.add_right_cancel_iff, List.length_cons,
          Nat.add_le_add_iff_right, List.mem_cons]
        have last : (byte :: bytes.take (lineCount bytes n)).getLast? = some carriageReturn ↔
            (bytes.take (lineCount bytes n)).getLast? = some carriageReturn := by
          rw [List.getLast?_cons]
          cases (bytes.take (lineCount bytes n)).getLast? with
          | none => simpa using line
          | some b => simp
        have later : carriageReturn = byte ∨ carriageReturn ∈ bytes ↔ carriageReturn ∈ bytes :=
          or_iff_right fun same => line same.symm
        rw [last, later]
        exact ih n

/-! ### The copying loop -/

theorem copied_nil (m : Ptr → UInt8) (buffer : Ptr) : Copied m m buffer [] :=
  ⟨fun i byte found => by simp at found, fun _ _ => rfl⟩

/-- The first byte is copied and then the others behind it, all to different places. -/
theorem copied_cons (short : bytes.length < 2 ^ 32 - 1) (h : Copied (update m buffer byte) m' (buffer + 1) bytes) :
    Copied m m' buffer (byte :: bytes) := by
  have behind : ∀ i, buffer + 1 + UInt32.ofNat i = buffer + UInt32.ofNat (i + 1) := by
    intro i
    rw [UInt32.ofNat_add, UInt32.add_assoc, UInt32.add_comm 1]
    rfl
  constructor
  · intro i b found
    cases i with
    | zero =>
      obtain rfl : byte = b := by simpa using found
      have first : buffer + UInt32.ofNat 0 = buffer := UInt32.add_zero buffer
      rw [first, h.outside buffer, update_self]
      intro i small same
      rw [behind] at same
      have wrapped : UInt32.ofNat (i + 1) = 0 := UInt32.add_eq_left.mp same.symm
      have zero := congrArg UInt32.toNat wrapped
      rw [UInt32.toNat_ofNat'] at zero
      have : (0 : UInt32).toNat = 0 := rfl
      omega
    | succ i =>
      rw [← behind]
      exact h.inside i b (by simpa using found)
  · intro a away
    rw [h.outside a]
    · have other : a ≠ buffer := by simpa using away 0 (Nat.zero_lt_succ _)
      exact update_of_ne other ..
    · intro i small
      rw [behind]
      exact away (i + 1) (Nat.succ_lt_succ small)

theorem buffered_congr {dcb dcb' : Dcb} (rbuffer : dcb'.rbuffer = dcb.rbuffer) (size : dcb'.rbufferSz = dcb.rbufferSz)
    (first : dcb'.rbufferIdxBegin = dcb.rbufferIdxBegin) (last : dcb'.rbufferIdxEnd = dcb.rbufferIdxEnd) :
    dcb'.buffered = dcb.buffered := by
  unfold Dcb.buffered
  rw [rbuffer, size, first, last]

theorem toNat_succ {x y : UInt32} (below : x < y) : (x + 1).toNat = x.toNat + 1 := by
  have := UInt32.lt_iff_toNat_lt.mp below
  have := y.toNat_lt
  rw [UInt32.toNat_add, UInt32.toNat_one]
  omega

/-- The ring buffer has not turned over. -/
structure Unwrapped (dcb : Dcb) : Prop where
  ordered : dcb.rbufferIdxBegin ≤ dcb.rbufferIdxEnd
  bound : dcb.rbufferIdxEnd < dcb.rbufferSz

/-- The oldest byte has left the ring buffer. -/
def Dcb.shift (dcb : Dcb) : Dcb := { dcb with rbufferIdxBegin := dcb.rbufferIdxBegin + 1 }

namespace Unwrapped

variable {dcb : Dcb}

theorem short (U : Unwrapped dcb) : dcb.buffered.length < 2 ^ 32 - 1 := by
  have size := dcb.rbufferSz.toNat_lt
  have bound := UInt32.lt_iff_toNat_lt.mp U.bound
  have ordered := UInt32.le_iff_toNat_le.mp U.ordered
  unfold Dcb.buffered
  rw [contents_length]
  unfold count
  rw [if_pos ordered]
  omega

theorem turn (U : Unwrapped dcb) (more : dcb.rbufferIdxBegin < dcb.rbufferIdxEnd) :
    dcb.rbufferIdxBegin + 1 ≠ dcb.rbufferSz := by
  intro same
  have next := toNat_succ more
  have more := UInt32.lt_iff_toNat_lt.mp more
  have bound := UInt32.lt_iff_toNat_lt.mp U.bound
  rw [same] at next
  omega

theorem shift (U : Unwrapped dcb) (more : dcb.rbufferIdxBegin < dcb.rbufferIdxEnd) : Unwrapped dcb.shift := by
  have next := toNat_succ more
  have more := UInt32.lt_iff_toNat_lt.mp more
  refine ⟨?_, U.bound⟩
  show dcb.rbufferIdxBegin + 1 ≤ dcb.rbufferIdxEnd
  rw [UInt32.le_iff_toNat_le]
  omega

theorem buffered_next (U : Unwrapped dcb) (more : dcb.rbufferIdxBegin < dcb.rbufferIdxEnd) :
    dcb.buffered = dcb.rbuffer dcb.rbufferIdxBegin :: dcb.shift.buffered := by
  have next := toNat_succ more
  have more := UInt32.lt_iff_toNat_lt.mp more
  have bound := UInt32.lt_iff_toNat_lt.mp U.bound
  unfold Dcb.buffered
  rw [contents_cons (by omega) bound (by omega), UInt32.ofNat_toNat]
  unfold Library.Ring.advance
  rw [if_neg (by omega), ← next]
  rfl

theorem buffered_empty (U : Unwrapped dcb) (stops : ¬dcb.rbufferIdxBegin < dcb.rbufferIdxEnd) : dcb.buffered = [] := by
  have ordered := UInt32.le_iff_toNat_le.mp U.ordered
  rw [UInt32.lt_iff_toNat_lt] at stops
  have equal : dcb.rbufferIdxBegin = dcb.rbufferIdxEnd := UInt32.toNat_inj.mp (by omega)
  unfold Dcb.buffered
  rw [equal, contents_empty]

end Unwrapped

/-- One turn of the loop. -/
theorem drainRing_more (fuel : Nat) (buffer : UInt32) (U : Unwrapped (k.dcb d))
    (more : (k.dcb d).rbufferIdxBegin < (k.dcb d).rbufferIdxEnd) (room : idx < len) :
    ∃ k₁, k₁.dcb d = (k.dcb d).shift ∧
      k₁.buffers = update k.buffers (buffer + idx) ((k.dcb d).rbuffer (k.dcb d).rbufferIdxBegin) ∧
      drainRing d buffer len (fuel + 1) k idx =
        if (k.dcb d).rbuffer (k.dcb d).rbufferIdxBegin = carriageReturn then some (k₁, idx + 1)
        else drainRing d buffer len fuel k₁ (idx + 1) := by
  refine ⟨(k.storeByte d (buffer + idx) ((k.dcb d).rbuffer (k.dcb d).rbufferIdxBegin)).setDcb d (k.dcb d).shift,
    ?_, rfl, ?_⟩
  · unfold Kernel.dcb
    rw [setDcb_port]
  · rw [drainRing]
    dsimp only
    rw [if_pos ⟨more, room⟩, if_neg (U.turn more)]
    rfl

/-- On a ring buffer that has not turned over, the loop takes the rest of the line, or what there is of it. -/
theorem drainRing_line {fuel : Nat} (buffer : UInt32) (U : Unwrapped (k.dcb d)) (within : idx ≤ len)
    (enough : len.toNat - idx.toNat < fuel) (count : lineCount (k.dcb d).buffered (len.toNat - idx.toNat) = n) :
    ∃ k', drainRing d buffer len fuel k idx = some (k', idx + UInt32.ofNat n) ∧
      Copied k.buffers k'.buffers (buffer + idx) ((k.dcb d).buffered.take n) ∧
      (k'.dcb d).buffered = (k.dcb d).buffered.drop n ∧ (k'.dcb d).event = (k.dcb d).event := by
  induction fuel generalizing k idx n with
  | zero => cases enough
  | succ fuel ih =>
    have within := UInt32.le_iff_toNat_le.mp within
    by_cases more : (k.dcb d).rbufferIdxBegin < (k.dcb d).rbufferIdxEnd ∧ idx < len
    · obtain ⟨more, room⟩ := more
      obtain ⟨k₁, dcb, buffers, turn⟩ := drainRing_more fuel buffer U more room
      have step := toNat_succ room
      have below := UInt32.lt_iff_toNat_lt.mp room
      have short := (U.shift more).short
      have event : (k.dcb d).shift.event = (k.dcb d).event := rfl
      rw [turn, U.buffered_next more]
      rw [U.buffered_next more, show len.toNat - idx.toNat = len.toNat - (idx + 1).toNat + 1 by omega] at count
      generalize (k.dcb d).rbuffer (k.dcb d).rbufferIdxBegin = byte at buffers count ⊢
      by_cases line : byte = carriageReturn
      · subst line
        rw [lineCount_return] at count
        subst count
        rw [if_pos rfl]
        refine ⟨k₁, rfl, ?_, congrArg Dcb.buffered dcb, (congrArg Dcb.event dcb).trans event⟩
        rw [buffers]
        exact copied_cons (by simp) (copied_nil _ _)
      · rw [lineCount_cons line] at count
        subst count
        rw [if_neg line]
        have within' : idx + 1 ≤ len := by
          rw [UInt32.le_iff_toNat_le]
          omega
        obtain ⟨k', run, copied, rest, same⟩ :=
          ih (k := k₁) (dcb ▸ U.shift more) within' (by omega) (congrArg (fun b => lineCount b.buffered _) dcb)
        rw [dcb, buffers, ← UInt32.add_assoc] at copied
        refine ⟨k', ?_, ?_, ?_, ?_⟩
        · rw [run, UInt32.ofNat_add, UInt32.add_assoc, UInt32.add_comm 1]
          rfl
        · refine copied_cons (Nat.lt_of_le_of_lt ?_ short) copied
          rw [List.length_take]
          exact Nat.min_le_right _ _
        · rw [rest, dcb, List.drop_succ_cons]
        · rw [same, dcb, event]
    · have stops : n = 0 := by
        by_cases begins : (k.dcb d).rbufferIdxBegin < (k.dcb d).rbufferIdxEnd
        · have full : ¬idx < len := fun room => more ⟨begins, room⟩
          rw [UInt32.lt_iff_toNat_lt] at full
          rw [← count, show len.toNat - idx.toNat = 0 by omega, lineCount_zero]
        · rw [← count, U.buffered_empty begins, lineCount_nil]
      have stays : idx + UInt32.ofNat 0 = idx := UInt32.add_zero idx
      subst stops
      rw [drainRing]
      dsimp only
      rw [if_neg more, stays]
      exact ⟨k, rfl, copied_nil _ _, rfl, rfl⟩

/-! ### A READ that becomes active -/

/-- A READ of `len` bytes has been started: it has taken a line, or what fits or is there of one, and is
complete if that is all it can get. -/
structure Drains (k k' : Kernel) (d : Fin 4) (buffer len : UInt32) : Prop where
  copied : Copied k.buffers k'.buffers buffer
    ((k.dcb d).buffered.take (lineCount (k.dcb d).buffered len.toNat))
  rest : (k'.dcb d).buffered = (k.dcb d).buffered.drop (lineCount (k.dcb d).buffered len.toNat)
  bufferIdx : (k'.dcb d).bufferIdx.toNat = lineCount (k.dcb d).buffered len.toNat
  event : (k'.dcb d).event = true ↔ lineCount (k.dcb d).buffered len.toNat = len.toNat ∨
    ((k.dcb d).buffered.take (lineCount (k.dcb d).buffered len.toNat)).getLast? = some carriageReturn

/-- The ring buffer holds enough for a READ of `len` bytes. -/
def Dcb.Satisfies (dcb : Dcb) (len : UInt32) : Prop :=
  len.toNat ≤ dcb.buffered.length ∨ carriageReturn ∈ dcb.buffered

theorem startRead_line (U : Unwrapped (k.dcb d)) (buffer len : UInt32)
    (count : lineCount (k.dcb d).buffered len.toNat = n) :
    ∃ k', startRead k d buffer len = some k' ∧ Copied k.buffers k'.buffers buffer ((k.dcb d).buffered.take n) ∧
      (k'.dcb d).buffered = (k.dcb d).buffered.drop n ∧ (k'.dcb d).bufferIdx = UInt32.ofNat n ∧
      (k'.dcb d).event = (k.dcb d).event := by
  have enough : len.toNat - (0 : UInt32).toNat < addressSpace := Nat.lt_of_le_of_lt (Nat.sub_le _ _) len.toNat_lt
  have within : (0 : UInt32) ≤ len := by
    rw [UInt32.le_iff_toNat_le]
    exact Nat.zero_le _
  obtain ⟨k₁, run, copied, rest, event⟩ := drainRing_line buffer U within enough count
  rw [UInt32.add_zero] at copied
  rw [UInt32.zero_add] at run
  have dcb : (k₁.setBufferIdx d (UInt32.ofNat n)).dcb d = { k₁.dcb d with bufferIdx := UInt32.ofNat n } := by
    unfold Kernel.setBufferIdx Kernel.dcb
    rw [setDcb_port]
  refine ⟨k₁.setBufferIdx d (UInt32.ofNat n), ?_, copied, ?_, ?_, ?_⟩
  · unfold startRead
    rw [run]
    rfl
  · rw [dcb, ← rest]
    rfl
  · rw [dcb]
  · rw [dcb]
    exact event

/-- `k` is the state in which the bytes are counted, `k₁` the one in which the READ is started. -/
theorem startRead_drains (k₁ : Kernel) (buffer : UInt32) (inside : (k.dcb d).rbufferIdxBegin < (k.dcb d).rbufferSz)
    (bound : (k.dcb d).rbufferIdxEnd < (k.dcb d).rbufferSz) (positive : len ≠ 0)
    (rbuffer : (k₁.dcb d).rbuffer = (k.dcb d).rbuffer) (size : (k₁.dcb d).rbufferSz = (k.dcb d).rbufferSz)
    (first : (k₁.dcb d).rbufferIdxBegin = (k.dcb d).rbufferIdxBegin)
    (last : (k₁.dcb d).rbufferIdxEnd = (k.dcb d).rbufferIdxEnd) (buffers : k₁.buffers = k.buffers) :
    ∃ k', startRead k₁ d buffer len = some k' ∧ (Drains k k' d buffer len ↔
      (k.dcb d).rbufferIdxBegin ≤ (k.dcb d).rbufferIdxEnd ∧
        ((k₁.dcb d).event = true ↔ (k.dcb d).Satisfies len)) := by
  have bytes := buffered_congr rbuffer size first last
  have complete := lineCount_complete (k.dcb d).buffered len.toNat
  by_cases ordered : (k.dcb d).rbufferIdxBegin ≤ (k.dcb d).rbufferIdxEnd
  · have U : Unwrapped (k₁.dcb d) := ⟨first ▸ last ▸ ordered, last ▸ size ▸ bound⟩
    have short := U.short
    obtain ⟨k', run, copied, rest, idx, event⟩ := startRead_line U buffer len rfl
    rw [bytes] at copied rest idx short
    rw [buffers] at copied
    refine ⟨k', run, ?_⟩
    rw [and_iff_right ordered]
    constructor
    · intro drains
      rw [← event, drains.event]
      exact complete
    · intro flag
      refine ⟨copied, rest, ?_, ?_⟩
      · have := lineCount_le (k.dcb d).buffered len.toNat
        rw [idx, UInt32.toNat_ofNat']
        omega
      · rw [event, complete]
        exact flag
  · have turned : ¬(k₁.dcb d).rbufferIdxBegin < (k₁.dcb d).rbufferIdxEnd := by
      rw [first, last]
      rw [UInt32.lt_iff_toNat_lt]
      rw [UInt32.le_iff_toNat_le] at ordered
      omega
    refine ⟨_, startRead_still buffer turned, ?_⟩
    rw [iff_false_right fun both => ordered both.1]
    intro drains
    have idx := drains.bufferIdx
    unfold Kernel.setBufferIdx Kernel.dcb at idx
    rw [setDcb_port] at idx
    have different : (k.dcb d).rbufferIdxBegin.toNat ≠ (k.dcb d).rbufferIdxEnd.toNat := by
      rw [UInt32.le_iff_toNat_le] at ordered
      omega
    have occupied : (k.dcb d).buffered ≠ [] := by
      apply List.length_pos_iff.mp
      unfold Dcb.buffered
      rw [contents_length]
      exact count_pos (UInt32.lt_iff_toNat_lt.mp inside) different
    have nonzero : len.toNat ≠ 0 := fun zero => positive (UInt32.toNat_inj.mp zero)
    have some := lineCount_pos occupied (Nat.pos_of_ne_zero nonzero)
    exact absurd idx.symm (Nat.ne_of_gt some)

theorem serialRead_drains (devno : serialDevno dev = some d) (isOpen : (k.dcb d).isOpen = true)
    (inside : (k.dcb d).rbufferIdxBegin < (k.dcb d).rbufferSz) (bound : (k.dcb d).rbufferIdxEnd < (k.dcb d).rbufferSz)
    (idle : (k.dcb d).iocbQueueHead = 0) (buffered : buffer ≠ 0) (size : len ≠ 0) (real : alloc ≠ 0) :
    ∃ k', serialRead k dev buffer len alloc = some (k', none) ∧ (Drains k k' d buffer len ↔
      (k.dcb d).rbufferIdxBegin ≤ (k.dcb d).rbufferIdxEnd ∧ ((k.dcb d).event = true ↔ (k.dcb d).Satisfies len)) := by
  have dcb : (queueFirst k d alloc buffer len .read).dcb d =
      { k.dcb d with iocbQueueHead := alloc, iocbQueueTail := alloc } :=
    congrArg Port.dcb (queueFirst_port k d alloc buffer len .read)
  rw [serialRead_idle buffered size devno isOpen idle, if_neg real]
  obtain ⟨k', run, drains⟩ := startRead_drains (queueFirst k d alloc buffer len .read) buffer inside bound size
    (by rw [dcb]) (by rw [dcb]) (by rw [dcb]) (by rw [dcb]) rfl
  rw [dcb] at drains
  rw [run]
  exact ⟨k', rfl, drains⟩

/-- What `serial_check_io` starts the next request with. -/
structure Turned (k k₁ : Kernel) (d : Fin 4) (a : Ptr) : Prop where
  dcb : k₁.dcb d = { k.dcb d with
    event := false
    iocbQueueHead := a
    iocbQueueTail := if (k.dcb d).iocbQueueHead = (k.dcb d).iocbQueueTail then a else (k.dcb d).iocbQueueTail }
  buffers : k₁.buffers = k.buffers
  iocbs : k₁.iocbs = k.iocbs
  sent : (k₁.ports d).sent = (k.ports d).sent
  ier : (k.ports d).outputEnabled = false → (k₁.ports d).ier = (k.ports d).ier

theorem ier_off {p : Port} (off : p.outputEnabled = false) : p.ier &&& ~~~ierOutput = p.ier := by
  have bits : ∀ b : BitVec 8, b &&& 2#8 = 0#8 → b &&& ~~~2#8 = b := by decide
  have clear : p.ier &&& ierOutput = 0 := not_not.mp (of_decide_eq_false off)
  exact UInt8.eq_of_toBitVec_eq (bits p.ier.toBitVec (congrArg UInt8.toBitVec clear))

theorem advance_turned (next : (k.iocbs (k.dcb d).iocbQueueHead).pNext = a) (real : a ≠ 0) :
    ∃ k₁, advance k d = startIo k₁ d (k.iocbs a).request ∧ Turned k k₁ d a := by
  have port := dequeue_port k d
  have dcb : (dequeue k d).dcb d = { k.dcb d with
      event := false
      iocbQueueHead := a
      iocbQueueTail := if (k.dcb d).iocbQueueHead = (k.dcb d).iocbQueueTail then a else (k.dcb d).iocbQueueTail } := by
    unfold Kernel.dcb
    rw [port, next]
    rfl
  obtain ⟨k₁, rfl | rfl, starts⟩ := advance_next next real
  · refine ⟨_, starts, dcb, rfl, rfl, ?_, ?_⟩
    · rw [port]
    · intro _
      rw [port]
  · refine ⟨_, starts, ?_, rfl, rfl, ?_, ?_⟩
    · rw [← dcb]
      unfold Kernel.disableOutput Kernel.dcb
      rw [setIer_port]
    · unfold Kernel.disableOutput
      rw [setIer_port, port]
    · intro quiet
      unfold Kernel.disableOutput
      rw [setIer_port, port]
      exact ier_off quiet

/-- A request that `serial_check_io` has retired. -/
theorem checkIo_advances {result : Int} (devno : serialDevno dev = some d) (isOpen : (k.dcb d).isOpen = true)
    (event : (k.dcb d).event = true) (h : serialCheckIo k dev = some (k', result)) :
    result = 1 ∧ ∃ procs, advance { k with procs := procs } d = some k' := by
  rcases checkIo_ways h with ⟨-, quiet⟩ | ⟨e, procs, found, -, -, -, advanced, rfl⟩
  · exact (quiet d devno ⟨isOpen, event⟩).elim
  · obtain rfl : d = e := Option.some.inj (devno.symm.trans found)
    exact ⟨rfl, procs, advanced⟩

theorem checkIo_drains {result : Int} (devno : serialDevno dev = some d) (isOpen : (k.dcb d).isOpen = true)
    (inside : (k.dcb d).rbufferIdxBegin < (k.dcb d).rbufferSz) (bound : (k.dcb d).rbufferIdxEnd < (k.dcb d).rbufferSz)
    (event : (k.dcb d).event = true) (next : (k.iocbs (k.dcb d).iocbQueueHead).pNext = a) (real : a ≠ 0)
    (read : (k.iocbs a).ioOp = .read) (size : (k.iocbs a).bufferSz ≠ 0)
    (h : serialCheckIo k dev = some (k', result)) : Drains k k' d (k.iocbs a).buffer (k.iocbs a).bufferSz ↔
      (k.dcb d).rbufferIdxBegin ≤ (k.dcb d).rbufferIdxEnd ∧ ¬(k.dcb d).Satisfies (k.iocbs a).bufferSz := by
  obtain ⟨_, procs, advanced⟩ := checkIo_advances devno isOpen event h
  obtain ⟨k₁, starts, turned⟩ := advance_turned (k := { k with procs := procs }) next real
  have dcb := turned.dcb
  obtain ⟨k₂, run, drains⟩ := startRead_drains k₁ (k.iocbs a).buffer inside bound size
    (by rw [dcb]; rfl) (by rw [dcb]; rfl) (by rw [dcb]; rfl) (by rw [dcb]; rfl) turned.buffers
  have started : startIo k₁ d (k.iocbs a).request = startRead k₁ d (k.iocbs a).buffer (k.iocbs a).bufferSz := by
    unfold startIo Iocb.request
    rw [read]
  obtain rfl : k' = k₂ := by
    rw [starts, started, run] at advanced
    exact (Option.some.inj advanced).symm
  rw [drains, dcb]
  simp

/-- A READ that becomes active takes what it should from the ring buffer, unless that has turned over, and
is known to be complete only if the flag says so already. -/
theorem read_drains (devno : serialDevno dev = some d) (isOpen : (k.dcb d).isOpen = true)
    (inside : (k.dcb d).rbufferIdxBegin < (k.dcb d).rbufferSz)
    (bound : (k.dcb d).rbufferIdxEnd < (k.dcb d).rbufferSz) :
    (∀ buffer len alloc, (k.dcb d).iocbQueueHead = 0 → buffer ≠ 0 → len ≠ 0 → alloc ≠ 0 →
      ∃ k', serialRead k dev buffer len alloc = some (k', none) ∧ (Drains k k' d buffer len ↔
        (k.dcb d).rbufferIdxBegin ≤ (k.dcb d).rbufferIdxEnd ∧
          ((k.dcb d).event = true ↔ (k.dcb d).Satisfies len))) ∧
    ∀ a k' result, (k.dcb d).event = true → (k.iocbs (k.dcb d).iocbQueueHead).pNext = a → a ≠ 0 →
      (k.iocbs a).ioOp = .read → (k.iocbs a).bufferSz ≠ 0 → serialCheckIo k dev = some (k', result) →
      (Drains k k' d (k.iocbs a).buffer (k.iocbs a).bufferSz ↔
        (k.dcb d).rbufferIdxBegin ≤ (k.dcb d).rbufferIdxEnd ∧ ¬(k.dcb d).Satisfies (k.iocbs a).bufferSz) := by
  refine ⟨?_, ?_⟩
  · intro buffer len alloc idle buffered size real
    exact serialRead_drains devno isOpen inside bound idle buffered size real
  · intro a k' result event next real read size h
    exact checkIo_drains devno isOpen inside bound event next real read size h

/-- An open COM1 without requests, in whose ring buffer bytes have been left. -/
def leftOver (bytes : List UInt8) : Kernel :=
  let k := bootKernel fun _ => true
  k.setDcb 0 { k.dcb 0 with
    rbuffer := fun i => bytes.getD i.toNat 0
    rbufferIdxEnd := UInt32.ofNat bytes.length }

/-- A WRITE on COM1 is complete, and a READ of five bytes is next. -/
def writtenThenRead (bytes : List UInt8) : Kernel :=
  let k := leftOver bytes
  let k := { k with procs := k.procs.setPctxt 8 (some ⟨16, 0⟩) }
  let k := k.setDcb 0 { k.dcb 0 with iocbQueueHead := 50, iocbQueueTail := 60, event := true }
  (k.setIocb 50 ⟨60, 8, 100, 1, .write⟩).setIocb 60 ⟨0, 8, 200, 5, .read⟩

/-- A READ of five bytes finds two, at once and behind a WRITE. -/
theorem read_drains_example :
    (∃ k', serialRead (leftOver [104, 105]) com1 100 5 50 = some (k', none) ∧
      Drains (leftOver [104, 105]) k' 0 100 5) ∧
    ∃ k', serialCheckIo (writtenThenRead [104, 105]) com1 = some (k', 1) ∧
      Drains (writtenThenRead [104, 105]) k' 0 200 5 := by
  constructor
  · obtain ⟨k', ran, drains⟩ := (read_drains (k := leftOver [104, 105]) (show serialDevno com1 = some 0 from rfl)
      rfl (by decide) (by decide)).1 100 5 50 rfl (by decide) (by decide) (by decide)
    refine ⟨k', ran, drains.mpr ⟨by decide, ?_⟩⟩
    unfold Dcb.Satisfies
    decide
  · have woken : (serialCheckIo (writtenThenRead [104, 105]) com1).map (·.2) = some 1 := by
      decide +kernel
    obtain ⟨⟨k', result⟩, ran, reply⟩ := Option.map_eq_some_iff.mp woken
    obtain rfl : result = 1 := reply
    refine ⟨k', ran, ?_⟩
    have drains := (read_drains (k := writtenThenRead [104, 105]) (show serialDevno com1 = some 0 from rfl) rfl
      (by decide) (by decide)).2 60 k' 1 rfl rfl (by decide) rfl (by decide) ran
    refine drains.mpr ⟨by decide, ?_⟩
    unfold Dcb.Satisfies
    decide

/-- A line is there when the READ starts, which is not told that it is complete. -/
theorem read_not_drained : ¬∀ (k : Kernel) (d : Fin 4) (dev buffer len alloc : UInt32),
    serialDevno dev = some d → (k.dcb d).isOpen = true → (k.dcb d).rbufferIdxBegin < (k.dcb d).rbufferSz →
    (k.dcb d).rbufferIdxEnd < (k.dcb d).rbufferSz → (k.dcb d).iocbQueueHead = 0 → buffer ≠ 0 → len ≠ 0 →
    alloc ≠ 0 → ∃ k', serialRead k dev buffer len alloc = some (k', none) ∧ Drains k k' d buffer len := by
  intro always
  obtain ⟨k', ran, drains⟩ := always (leftOver [65, carriageReturn]) 0 com1 100 10 50 rfl rfl (by decide)
    (by decide) rfl (by decide) (by decide) (by decide)
  have buffered : (100 : UInt32) ≠ 0 := by decide
  have size : (10 : UInt32) ≠ 0 := by decide
  have real : (50 : UInt32) ≠ 0 := by decide
  obtain ⟨k₁, ran₁, exact⟩ := serialRead_drains (k := leftOver [65, carriageReturn])
    (show serialDevno com1 = some 0 from rfl) rfl (by decide) (by decide) rfl buffered size real
  obtain rfl : k' = k₁ := congrArg Prod.fst (Option.some.inj (ran.symm.trans ran₁))
  have told := (exact.mp drains).2
  unfold Dcb.Satisfies at told
  exact absurd told (by decide)

end Mpx.Device
