import Mpx.Process.Scheduling
import Mpx.System.Machine

/-! # The invariant of the kernel

`Sound` ties the process queues, the request queues and the record of the traps together. It says
nothing of the `loose` processes but that they are in no queue. -/

namespace Mpx.System
open Function Library.Links Mpx.Process Mpx.Device

/-- The processes whose requests are in the queue of a device, in order. -/
def wanting (k : Kernel) (d : Fin 4) : List Ptr :=
  ((k.history d).accepted.drop (k.history d).retired.length).map (·.pcb)

def Blocked (qs : Fin 4 → List Ptr) (p : Ptr) : Prop := p ∈ qs 1 ∨ p ∈ qs 3

/-- The processes in the blocked queues are those that wait for a device, each for one request. -/
structure Requested (k : Kernel) (qs : Fin 4 → List Ptr) : Prop where
  blocked : ∀ d, ∀ p ∈ wanting k d, Blocked qs p
  served : ∀ p, Blocked qs p → ∃ d, p ∈ wanting k d
  once : ∀ d, (wanting k d).Nodup
  apart : ∀ d e p, p ∈ wanting k d → p ∈ wanting k e → d = e

/-- What a trap has brought so far: the bytes carried for its request, once that is retired. -/
def result (k : Kernel) (t : Trap) : UInt32 :=
  match t.request with
  | none => 0
  | some (d, n) => if n < (k.history d).retired.length then UInt32.ofNat ((k.history d).count n) else 0

def opCode : IoOp → UInt32
  | .read => opRead
  | .write => opWrite

/-- The trap of `p` has made the request `r` of device `d`. -/
structure Trap.Asks (t : Trap) (p : Ptr) (d : Fin 4) (r : Request) : Prop where
  pcb : r.pcb = p
  dev : serialDevno t.context.ebx = some d
  op : t.context.eax = opCode r.op
  buffer : r.buffer = t.context.ecx
  size : r.size = t.context.edx

/-- The saved context of a queued process is the one of its last trap, with the result in it. -/
structure Delivered (k : Kernel) (live : List Ptr) (qs : Fin 4 → List Ptr) (trapped : Ptr → Option Trap) :
    Prop where
  accepted : ∀ p ∈ live, ∀ t, trapped p = some t → ∀ d n, t.request = some (d, n) →
    ∃ r, (k.history d).accepted[n]? = some r ∧ t.Asks p d r
  pending : ∀ d j p, (wanting k d)[j]? = some p →
    ∃ t, trapped p = some t ∧ t.request = some (d, (k.history d).retired.length + j)
  done : ∀ p ∈ live, ¬Blocked qs p → ∀ t, trapped p = some t → ∀ d n, t.request = some (d, n) →
    n < (k.history d).retired.length
  saved : ∀ i, ∀ p ∈ qs i, ∀ t, trapped p = some t → ∀ c, (k.procs.pcbs p).pctxt = some c →
    k.procs.contexts c = { t.context with eax := result k t }

structure Sound (k : Kernel) (loose live : List Ptr) (qs : Fin 4 → List Ptr) (trapped : Ptr → Option Trap) :
    Prop where
  devices : ∃ pend, DevicesOk k pend
  placed : Placed k.procs loose live qs
  requested : Requested k qs
  delivered : Delivered k live qs trapped

variable {k k' : Kernel} {loose live : List Ptr} {qs qs' : Fin 4 → List Ptr} {trapped : Ptr → Option Trap}
  {d : Fin 4} {p : Ptr} {s s' : Procs}

theorem requested_congr (R : Requested k qs) (wants : ∀ d, wanting k' d = wanting k d)
    (blocked : ∀ q, Blocked qs' q ↔ Blocked qs q) : Requested k' qs' := by
  refine ⟨?_, ?_, ?_, ?_⟩
  · intro d q member
    rw [wants] at member
    exact (blocked q).mpr (R.blocked d q member)
  · intro q sleeping
    obtain ⟨d, member⟩ := R.served q ((blocked q).mp sleeping)
    exact ⟨d, wants d ▸ member⟩
  · intro d
    rw [wants]
    exact R.once d
  · intro d e q left right
    rw [wants] at left right
    exact R.apart d e q left right

/-! ### Interrupts -/

theorem count_frozen {h h' : History} {m n : Nat} {bytes : List UInt8} (other : n ≠ m)
    (moved : h'.moved = h.moved ++ bytes.map (m, ·)) : h'.count n = h.count n := by
  unfold History.count
  rw [moved, List.countP_append]
  have none : (bytes.map (m, ·)).countP (fun e => e.1 = n) = 0 := by
    apply List.countP_eq_zero.mpr
    intro e member
    obtain ⟨byte, _, rfl⟩ := List.mem_map.mp member
    simpa using fun same : m = n => other same.symm
  rw [none, Nat.add_zero]

/-- The log of a step at one port, seen from all ports. -/
theorem only_history (only : OnlyPort k k' d) (e : Fin 4) :
    (k'.history e).accepted = (k.history e).accepted ∧ (k'.history e).retired = (k.history e).retired ∧
      ∀ n < (k.history e).retired.length, (k'.history e).count n = (k.history e).count n := by
  by_cases same : e = d
  · subst same
    obtain ⟨bytes, moved⟩ := only.moved
    refine ⟨only.accepted, only.retired, ?_⟩
    intro n before
    exact count_frozen (Nat.ne_of_lt before) moved
  · unfold Kernel.history
    rw [only.ports e same]
    exact ⟨rfl, rfl, fun _ _ => rfl⟩

/-- Nothing that the invariant sees of the devices has changed but what they carried for the requests
in service. -/
structure SameRequests (k k' : Kernel) : Prop where
  accepted : ∀ d, (k'.history d).accepted = (k.history d).accepted
  retired : ∀ d, (k'.history d).retired = (k.history d).retired
  count : ∀ d, ∀ n < (k.history d).retired.length, (k'.history d).count n = (k.history d).count n

theorem only_same (only : OnlyPort k k' d) : SameRequests k k' :=
  ⟨fun e => (only_history only e).1, fun e => (only_history only e).2.1, fun e => (only_history only e).2.2⟩

theorem wanting_same (same : SameRequests k k') (d : Fin 4) : wanting k' d = wanting k d := by
  unfold wanting
  rw [same.accepted, same.retired]

theorem result_congr (retired : ∀ d, (k'.history d).retired = (k.history d).retired)
    (count : ∀ d, ∀ n < (k.history d).retired.length, (k'.history d).count n = (k.history d).count n)
    (t : Trap) : result k' t = result k t := by
  unfold result
  cases t.request with
  | none => rfl
  | some request =>
    obtain ⟨d, n⟩ := request
    dsimp only
    rw [retired]
    by_cases done : n < (k.history d).retired.length
    · rw [if_pos done, if_pos done, count d n done]
    · rw [if_neg done, if_neg done]

theorem result_same (same : SameRequests k k') (t : Trap) : result k' t = result k t :=
  result_congr same.retired same.count t

/-- Processes may move between queues of the same kind, and contexts may change where no queued process
has saved its own. -/
theorem delivered_congr (D : Delivered k live qs trapped) (same : SameRequests k k')
    (blocked : ∀ q, Blocked qs' q ↔ Blocked qs q) (members : ∀ q i, q ∈ qs' i → ∃ j, q ∈ qs j)
    (saved : ∀ i, ∀ q ∈ qs i, ∀ c, (k'.procs.pcbs q).pctxt = some c →
      (k.procs.pcbs q).pctxt = some c ∧ k'.procs.contexts c = k.procs.contexts c) :
    Delivered k' live qs' trapped := by
  refine ⟨?_, ?_, ?_, ?_⟩
  · intro q there t found d n asks
    rw [same.accepted]
    exact D.accepted q there t found d n asks
  · intro d j q
    rw [wanting_same same, same.retired]
    exact D.pending d j q
  · intro q there awake
    rw [blocked] at awake
    intro t found d n asks
    rw [same.retired]
    exact D.done q there awake t found d n asks
  · intro i q member t found c at_c
    obtain ⟨j, inside⟩ := members q i member
    obtain ⟨at_c, kept⟩ := saved j q inside c at_c
    rw [kept, result_same same]
    exact D.saved j q inside t found c at_c

theorem interrupt_sound {i : Interrupt} (S : Sound k loose live qs trapped)
    (h : serialInterrupt k d i = some k') : Sound k' loose live qs trapped ∧ OnlyPort k k' d := by
  obtain ⟨pend, ok⟩ := S.devices
  obtain ⟨only, ok'⟩ := interrupt_devices ok h
  have same := only_same only
  refine ⟨⟨⟨pend, ok'⟩, ?_, ?_, ?_⟩, only⟩
  · rw [only.procs]
    exact S.placed
  · exact requested_congr S.requested (wanting_same same) fun _ => Iff.rfl
  · refine delivered_congr S.delivered same (fun _ => Iff.rfl) (fun _ i member => ⟨i, member⟩) ?_
    intro i q member c at_c
    rw [only.procs] at at_c ⊢
    exact ⟨at_c, rfl⟩

end Mpx.System
