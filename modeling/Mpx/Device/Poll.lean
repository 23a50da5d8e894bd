import Mpx.Device.Serial
import Mpx.Library.Text

/-! # The polling line editor

`serial_poll` of `kernel/serial.c`, with `isspace` of `lib/ctype.c`. What the line status register and the
receive buffer answer to the reads of them, one after another, is an argument. -/

namespace Mpx.Device
open Function Library

/-- The local variables of `serial_poll` with its buffer, the number of bytes read from the receive buffer
so far, and what was sent back. -/
structure Poll where
  buffer : Nat → UInt8
  currsz : UInt32
  i : UInt32
  reads : Nat
  sent : List UInt8

/-- `faulted` is an access outside of the buffer. -/
inductive Polled where
  | faulted
  | waiting
  | returned (value : Int) (s : Poll)

/-- `buffer[a]`, of `size` bytes. -/
def load (size : UInt32) (buffer : Nat → UInt8) (a : UInt32) : Option UInt8 :=
  if a < size then some (buffer a.toNat) else none

/-- `buffer[a] = byte`. -/
def store (size : UInt32) (buffer : Nat → UInt8) (a : UInt32) (byte : UInt8) : Option (Nat → UInt8) :=
  if a < size then some (update buffer a.toNat byte) else none

/-- `buffer[dst + b] = buffer[src + b]` for the next `n` values of `b`. -/
def shiftDown (size dst src : UInt32) : Nat → UInt32 → (Nat → UInt8) → Option (Nat → UInt8)
  | 0, _, buffer => some buffer
  | n + 1, b, buffer => do
    let byte ← load size buffer (src + b)
    let buffer ← store size buffer (dst + b) byte
    shiftDown size dst src n (b + 1) buffer

/-- `buffer[i + b] = buffer[i + b - 1]`, for `b` from `n` down to 1. -/
def shiftUp (size i : UInt32) : Nat → (Nat → UInt8) → Option (Nat → UInt8)
  | 0, buffer => some buffer
  | n + 1, buffer => do
    let b := UInt32.ofNat (n + 1)
    let byte ← load size buffer (i + b - 1)
    let buffer ← store size buffer (i + b) byte
    shiftUp size i n buffer

/-- The next `n` bytes of the buffer, from `b` on. -/
def echo (size : UInt32) (buffer : Nat → UInt8) : Nat → UInt32 → Option (List UInt8)
  | 0, _ => some []
  | n + 1, b => do
    let byte ← load size buffer b
    let rest ← echo size buffer n (b + 1)
    return byte :: rest

-- The keys and control characters, by their ASCII codes.
def lineFeed : UInt8 := 10
def backspaceKey : UInt8 := 0x08
def deleteKey : UInt8 := 0x7F
def escapeKey : UInt8 := 0x1B
def openBracket : UInt8 := 91
def letterC : UInt8 := 67
def letterD : UInt8 := 68
def blank : UInt8 := 32

def isspace (c : UInt8) : Bool :=
  decide (c = blank ∨ c = lineFeed ∨ c = carriageReturn ∨ c = 12 ∨ c = 9 ∨ c = 11)

/-- `c >= '!' && c <= '~' || isspace(c)`. -/
def isSymbol (c : UInt8) : Bool := decide (33 ≤ c ∧ c ≤ 126) || isspace c

/-- The escape sequence that moves the cursor of the terminal, `n` times. -/
def arrows (n : UInt32) (letter : UInt8) : List UInt8 :=
  (List.replicate n.toNat [escapeKey, openBracket, letter]).flatten

/-- The line is shown again. A character has gone from it, so that a blank is needed at its end. -/
def redrawShorter (size : UInt32) (s : Poll) : Option Poll := do
  let bytes ← echo size s.buffer s.currsz.toNat 0
  return { s with sent := s.sent ++ carriageReturn :: bytes ++ blank :: arrows (s.currsz - s.i + 1) letterD }

def redrawLonger (size : UInt32) (s : Poll) : Option Poll := do
  let bytes ← echo size s.buffer s.currsz.toNat 0
  return { s with sent := s.sent ++ carriageReturn :: bytes ++ arrows (s.currsz - s.i) letterD }

def pollBackspace (size : UInt32) (s : Poll) : Option Poll := do
  let buffer ← shiftDown size (s.i - 1) s.i (s.currsz - s.i).toNat 0 s.buffer
  let buffer ← store size buffer (s.currsz - 1) 0
  redrawShorter size { s with buffer := buffer, i := s.i - 1, currsz := s.currsz - 1 }

def pollDelete (size : UInt32) (s : Poll) : Option Poll :=
  if s.i < s.currsz then do
    let buffer ← shiftDown size s.i (s.i + 1) (s.currsz - s.i).toNat 0 s.buffer
    let buffer ← store size buffer (s.currsz - 1) 0
    redrawShorter size { s with buffer := buffer, currsz := s.currsz - 1 }
  else some s

def pollEscape (rbr : Nat → UInt8) (s : Poll) : Poll :=
  let c := rbr s.reads
  let s := { s with reads := s.reads + 1 }
  if c = openBracket then
    let c := rbr s.reads
    let s := { s with reads := s.reads + 1 }
    if c = letterD then
      if s.i > 0 then { s with i := s.i - 1, sent := s.sent ++ [backspaceKey] } else s
    else if c = letterC then
      if s.i < s.currsz then { s with i := s.i + 1, sent := s.sent ++ arrows 1 letterC } else s
    else s
  else s

def pollInsert (size : UInt32) (c : UInt8) (s : Poll) : Option Poll := do
  let buffer ← shiftUp size s.i (s.currsz - s.i).toNat s.buffer
  let buffer ← store size buffer s.i c
  redrawLonger size { s with buffer := buffer, i := s.i + 1, currsz := s.currsz + 1 }

/-- A byte is there: what the loop does with it, and whether it ends. -/
def pollKey (size : UInt32) (rbr : Nat → UInt8) (s : Poll) : Option (Poll × Bool) :=
  let c := rbr s.reads
  let s := { s with reads := s.reads + 1 }
  if c = backspaceKey ∧ s.i > 0 then (pollBackspace size s).map (·, false)
  else if c = deleteKey then (pollDelete size s).map (·, false)
  else if c = escapeKey then some (pollEscape rbr s, false)
  else if isSymbol c then
    if c = lineFeed ∨ c = carriageReturn then some (s, true)
    else (pollInsert size c s).map (·, false)
  else some (s, false)

/-- `return currsz;` in a function of type `int`. -/
def pollReturn (s : Poll) : Polled := .returned s.currsz.toBitVec.toInt s

/-- The loop of `serial_poll`, with the number of reads of the line status register so far. -/
def pollLoop (size len : UInt32) (lsr rbr : Nat → UInt8) : Nat → Nat → Poll → Polled
  | 0, _, _ => .waiting
  | fuel + 1, polls, s =>
    if s.currsz < len then
      if lsr polls &&& 0x01 ≠ 0 then
        match pollKey size rbr s with
        | none => .faulted
        | some (s, true) => pollReturn s
        | some (s, false) => pollLoop size len lsr rbr fuel (polls + 1) s
      else pollLoop size len lsr rbr fuel (polls + 1) s
    else pollReturn s

def serialPoll (initialized : Fin 4 → Bool) (dev : UInt32) (buffer : Nat → UInt8) (len : UInt32)
    (lsr rbr : Nat → UInt8) (fuel : Nat) : Polled :=
  let start := { buffer := buffer, currsz := 0, i := 0, reads := 0, sent := [] }
  match serialDevno dev with
  | none => .returned (-1) start
  | some d =>
    if !initialized d then .returned (-1) start
    else
      match store len buffer (len - 1) 0 with
      | none => .faulted
      | some buffer => pollLoop len (len - 1) lsr rbr fuel 0 { start with buffer := buffer }

/-! ### The editor -/

/-- What the next byte is part of. -/
inductive Mode where
  | plain | escape | bracket | ended
  deriving DecidableEq

/-- What `serial_poll` is to be for its user. -/
structure Editor (cap : Nat) where
  text : Text UInt8 cap
  mode : Mode

namespace Editor

variable {cap : Nat}

def Finished (e : Editor cap) : Prop := e.mode = .ended ∨ cap ≤ e.text.chars.length

instance (e : Editor cap) : Decidable e.Finished := inferInstanceAs (Decidable (_ ∨ _))

def key (t : Text UInt8 cap) (c : UInt8) : Editor cap :=
  if c = backspaceKey then ⟨t.eraseBefore, .plain⟩
  else if c = deleteKey then ⟨t.eraseAt, .plain⟩
  else if c = escapeKey then ⟨t, .escape⟩
  else if c = carriageReturn ∨ c = lineFeed then ⟨t, .ended⟩
  else if isSymbol c then ⟨t.insert c, .plain⟩
  else ⟨t, .plain⟩

def feed (e : Editor cap) (c : UInt8) : Editor cap :=
  if e.Finished then e
  else
    match e.mode with
    | .plain => key e.text c
    | .escape => ⟨e.text, if c = openBracket then .bracket else .plain⟩
    | .bracket => ⟨if c = letterD then e.text.left else if c = letterC then e.text.right else e.text, .plain⟩
    | .ended => e

/-- The editor after the first `n` bytes. -/
def after (cap : Nat) (rbr : Nat → UInt8) : Nat → Editor cap
  | 0 => ⟨Text.empty, .plain⟩
  | n + 1 => (after cap rbr n).feed (rbr n)

end Editor

/-- How many bytes the line can have. -/
def room (size : UInt32) : Nat := size.toNat - 1

/-- The buffer and the indices are those of the text. -/
structure Tracks (size : UInt32) (s : Poll) (t : Text UInt8 (room size)) : Prop where
  count : s.currsz.toNat = t.chars.length
  cursor : s.i.toNat = t.cursor
  shows : Text.Shows s.buffer t.chars
  nul : s.buffer (room size) = 0

/-- The editor is between two keys. -/
def Follows (size : UInt32) (rbr : Nat → UInt8) (s : Poll) : Prop :=
  ∃ t, Editor.after (room size) rbr s.reads = ⟨t, .plain⟩ ∧ Tracks size s t

variable {size len a b i dst src : UInt32} {buffer : Nat → UInt8} {lsr rbr : Nat → UInt8} {s s' : Poll} {n : Nat}
  {c byte : UInt8} {t : Text UInt8 (room size)}

/-! ### Loops over the buffer -/

theorem toNat_sum (size : UInt32) (fits : a.toNat + b.toNat < size.toNat) : (a + b).toNat = a.toNat + b.toNat := by
  have := size.toNat_lt
  rw [UInt32.toNat_add, Nat.mod_eq_of_lt (by omega)]

theorem toNat_next (size : UInt32) (fits : a.toNat < size.toNat) : (a + 1).toNat = a.toNat + 1 := by
  have := size.toNat_lt
  rw [UInt32.toNat_add, UInt32.toNat_one, Nat.mod_eq_of_lt (by omega)]

theorem toNat_diff (ordered : b.toNat ≤ a.toNat) : (a - b).toNat = a.toNat - b.toNat :=
  UInt32.toNat_sub_of_le a b (UInt32.le_iff_toNat_le.mpr ordered)

theorem load_inside (inside : a.toNat < size.toNat) : load size buffer a = some (buffer a.toNat) :=
  if_pos (UInt32.lt_iff_toNat_lt.mpr inside)

theorem store_inside (inside : a.toNat < size.toNat) (byte : UInt8) :
    store size buffer a byte = some (update buffer a.toNat byte) :=
  if_pos (UInt32.lt_iff_toNat_lt.mpr inside)

theorem shiftDown_moves (buffer : Nat → UInt8) (next : src.toNat = dst.toNat + 1)
    (inside : src.toNat + b.toNat + n ≤ size.toNat) :
    ∃ buffer', shiftDown size dst src n b buffer = some buffer' ∧ ∀ j, buffer' j =
      if dst.toNat + b.toNat ≤ j ∧ j < dst.toNat + b.toNat + n then buffer (j + 1) else buffer j := by
  induction n generalizing b buffer with
  | zero => exact ⟨buffer, rfl, fun j => (if_neg (by omega)).symm⟩
  | succ n ih =>
    have origin : (src + b).toNat = src.toNat + b.toNat := toNat_sum size (by omega)
    have target : (dst + b).toNat = dst.toNat + b.toNat := toNat_sum size (by omega)
    have step : (b + 1).toNat = b.toNat + 1 := toNat_next size (by omega)
    obtain ⟨buffer', ran, moved⟩ := ih (b := b + 1) (update buffer (dst + b).toNat (buffer (src + b).toNat)) (by omega)
    refine ⟨buffer', ?_, ?_⟩
    · unfold shiftDown
      rw [load_inside (by omega)]
      show (store size buffer (dst + b) _).bind _ = _
      rw [store_inside (by omega)]
      exact ran
    · intro j
      rw [moved j, step, origin, target, next]
      rcases Nat.lt_trichotomy j (dst.toNat + b.toNat) with before | here | behind
      · rw [if_neg (by omega), if_neg (by omega), update_of_ne (by omega)]
      · rw [if_neg (by omega), if_pos (by omega), here, update_self]
        congr 1
        omega
      · rw [update_of_ne (by omega), update_of_ne (by omega)]
        exact if_congr (by omega) rfl rfl

theorem shiftUp_moves (buffer : Nat → UInt8) (inside : i.toNat + n < size.toNat) :
    ∃ buffer', shiftUp size i n buffer = some buffer' ∧ ∀ j, buffer' j =
      if i.toNat < j ∧ j ≤ i.toNat + n then buffer (j - 1) else buffer j := by
  induction n generalizing buffer with
  | zero => exact ⟨buffer, rfl, fun j => (if_neg (by omega)).symm⟩
  | succ n ih =>
    have small := size.toNat_lt
    have count : (UInt32.ofNat (n + 1)).toNat = n + 1 := by
      rw [UInt32.toNat_ofNat', Nat.mod_eq_of_lt (by omega)]
    have target : (i + UInt32.ofNat (n + 1)).toNat = i.toNat + (n + 1) := by
      rw [toNat_sum size (by omega), count]
    have origin : (i + UInt32.ofNat (n + 1) - 1).toNat = i.toNat + n := by
      rw [toNat_diff (by rw [target, UInt32.toNat_one]; omega), target, UInt32.toNat_one]
      omega
    obtain ⟨buffer', ran, moved⟩ := ih
      (update buffer (i + UInt32.ofNat (n + 1)).toNat (buffer (i + UInt32.ofNat (n + 1) - 1).toNat)) (by omega)
    refine ⟨buffer', ?_, ?_⟩
    · unfold shiftUp
      dsimp only
      rw [load_inside (by omega)]
      show (store size buffer (i + UInt32.ofNat (n + 1)) _).bind _ = _
      rw [store_inside (by omega)]
      exact ran
    · intro j
      rw [moved j, origin, target]
      rcases Nat.lt_trichotomy j (i.toNat + (n + 1)) with before | here | behind
      · rw [update_of_ne (by omega), update_of_ne (by omega)]
        exact if_congr (by omega) rfl rfl
      · rw [if_neg (by omega), if_pos (by omega), here, update_self]
        congr 1
      · rw [if_neg (by omega), if_neg (by omega), update_of_ne (by omega)]

theorem echo_inside (inside : b.toNat + n ≤ size.toNat) : ∃ bytes, echo size buffer n b = some bytes := by
  induction n generalizing b with
  | zero => exact ⟨[], rfl⟩
  | succ n ih =>
    have step : (b + 1).toNat = b.toNat + 1 := toNat_next size (by omega)
    obtain ⟨rest, ran⟩ := ih (b := b + 1) (by omega)
    refine ⟨buffer b.toNat :: rest, ?_⟩
    unfold echo
    rw [load_inside (by omega)]
    show (echo size buffer n (b + 1)).bind _ = _
    rw [ran]
    rfl

/-! ### Indices -/

theorem Tracks.front (T : Tracks size s t) : s.i > 0 ↔ 0 < t.cursor := by
  rw [gt_iff_lt, UInt32.lt_iff_toNat_lt, T.cursor]
  exact Iff.rfl

theorem Tracks.inside (T : Tracks size s t) : s.i < s.currsz ↔ t.cursor < t.chars.length := by
  rw [UInt32.lt_iff_toNat_lt, T.cursor, T.count]

theorem Tracks.short (T : Tracks size s t) (bound : len.toNat = room size) :
    s.currsz < len ↔ t.chars.length < room size := by
  rw [UInt32.lt_iff_toNat_lt, T.count, bound]

theorem Tracks.previous (T : Tracks size s t) (some : 0 < t.cursor) : (s.i - 1).toNat = t.cursor - 1 := by
  have one : (1 : UInt32).toNat = 1 := rfl
  rw [toNat_diff (by rw [T.cursor, one]; omega), T.cursor, one]

theorem Tracks.fewer (T : Tracks size s t) (some : 0 < t.chars.length) :
    (s.currsz - 1).toNat = t.chars.length - 1 := by
  have one : (1 : UInt32).toNat = 1 := rfl
  rw [toNat_diff (by rw [T.count, one]; omega), T.count, one]

/-- The bytes from the cursor on. -/
theorem Tracks.rest (T : Tracks size s t) : (s.currsz - s.i).toNat = t.chars.length - t.cursor := by
  rw [toNat_diff (by rw [T.count, T.cursor]; exact t.within), T.count, T.cursor]

/-! ### Keys -/

theorem echo_line (T : Tracks size s t) : ∃ bytes, echo size s.buffer s.currsz.toNat 0 = some bytes := by
  have fits := t.fits
  have zero : (0 : UInt32).toNat = 0 := rfl
  unfold room at fits
  apply echo_inside
  rw [T.count]
  omega

theorem redrawShorter_tracks (T : Tracks size s t) :
    ∃ s', redrawShorter size s = some s' ∧ Tracks size s' t ∧ s'.reads = s.reads := by
  obtain ⟨bytes, ran⟩ := echo_line T
  unfold redrawShorter
  rw [ran]
  exact ⟨_, rfl, ⟨T.count, T.cursor, T.shows, T.nul⟩, rfl⟩

theorem redrawLonger_tracks (T : Tracks size s t) :
    ∃ s', redrawLonger size s = some s' ∧ Tracks size s' t ∧ s'.reads = s.reads := by
  obtain ⟨bytes, ran⟩ := echo_line T
  unfold redrawLonger
  rw [ran]
  exact ⟨_, rfl, ⟨T.count, T.cursor, T.shows, T.nul⟩, rfl⟩

/-- The stretch from `p` on has moved down, and the last cell of the line is cleared. -/
theorem erased_shows {l : List UInt8} {p : Nat} {buffer' : Nat → UInt8} (shows : Text.Shows buffer l)
    (inside : p < l.length) (least : l.length ≤ p + n + 1) (most : p + n ≤ l.length)
    (moved : ∀ j, buffer' j = if p ≤ j ∧ j < p + n then buffer (j + 1) else buffer j) :
    Text.Shows (update buffer' (l.length - 1) 0) (l.eraseIdx p) ∧
      ∀ j, l.length ≤ j → update buffer' (l.length - 1) 0 j = buffer j := by
  constructor
  · apply Text.shows_erase shows
    · intro j before
      rw [update_of_ne (by omega), moved j, if_neg (by omega)]
    · intro j behind more
      rw [update_of_ne (by omega), moved j, if_pos (by omega)]
  · intro j outside
    rw [update_of_ne (by omega), moved j, if_neg (by omega)]

theorem pollBackspace_tracks (T : Tracks size s t) (some : 0 < t.cursor) :
    ∃ s', pollBackspace size s = Option.some s' ∧ Tracks size s' t.eraseBefore ∧ s'.reads = s.reads := by
  have fits := t.fits
  have within := t.within
  have zero : (0 : UInt32).toNat = 0 := rfl
  have before := T.previous some
  have fewer := T.fewer (by omega)
  unfold room at fits
  have next : s.i.toNat = (s.i - 1).toNat + 1 := by
    rw [before, T.cursor]
    omega
  have inside : s.i.toNat + (0 : UInt32).toNat + (t.chars.length - t.cursor) ≤ size.toNat := by
    rw [T.cursor, zero]
    omega
  obtain ⟨buffer', ran, moved⟩ := shiftDown_moves s.buffer next inside
  rw [before, zero, Nat.add_zero] at moved
  obtain ⟨shows, same⟩ := erased_shows T.shows (p := t.cursor - 1) (by omega) (by omega) (by omega) moved
  have T' : Tracks size { s with
      buffer := update buffer' (s.currsz - 1).toNat 0, i := s.i - 1, currsz := s.currsz - 1 } t.eraseBefore := by
    constructor
    · rw [Text.eraseBefore_length some]
      exact fewer
    · rw [Text.eraseBefore_cursor]
      exact before
    · rw [Text.eraseBefore_chars some, fewer]
      exact shows
    · rw [fewer]
      exact (same (room size) t.fits).trans T.nul
  obtain ⟨s', redrawn, tracks, reads⟩ := redrawShorter_tracks T'
  refine ⟨s', ?_, tracks, reads⟩
  unfold pollBackspace
  rw [T.rest, ran]
  show (store size buffer' (s.currsz - 1) 0).bind _ = _
  rw [store_inside (by omega)]
  exact redrawn

theorem pollDelete_tracks (T : Tracks size s t) (short : t.chars.length < room size) :
    ∃ s', pollDelete size s = some s' ∧ Tracks size s' t.eraseAt ∧ s'.reads = s.reads := by
  have within := t.within
  have zero : (0 : UInt32).toNat = 0 := rfl
  unfold pollDelete
  by_cases more : t.cursor < t.chars.length
  · have fits := short
    unfold room at fits
    have next : (s.i + 1).toNat = s.i.toNat + 1 := toNat_next size (by rw [T.cursor]; omega)
    have fewer := T.fewer (by omega)
    have stretch : (s.i + 1).toNat + (0 : UInt32).toNat + (t.chars.length - t.cursor) ≤ size.toNat := by
      rw [next, T.cursor, zero]
      omega
    obtain ⟨buffer', ran, moved⟩ := shiftDown_moves s.buffer next stretch
    rw [T.cursor, zero, Nat.add_zero] at moved
    obtain ⟨shows, same⟩ := erased_shows T.shows more (by omega) (by omega) moved
    have T' : Tracks size { s with
        buffer := update buffer' (s.currsz - 1).toNat 0, currsz := s.currsz - 1 } t.eraseAt := by
      constructor
      · rw [Text.eraseAt_length more]
        exact fewer
      · rw [Text.eraseAt_cursor]
        exact T.cursor
      · rw [Text.eraseAt_chars more, fewer]
        exact shows
      · rw [fewer]
        exact (same (room size) t.fits).trans T.nul
    obtain ⟨s', redrawn, tracks, reads⟩ := redrawShorter_tracks T'
    refine ⟨s', ?_, tracks, reads⟩
    rw [if_pos (T.inside.mpr more), T.rest, ran]
    show (store size buffer' (s.currsz - 1) 0).bind _ = _
    rw [store_inside (by omega)]
    exact redrawn
  · rw [if_neg (mt T.inside.mp more), Text.eraseAt_end more]
    exact ⟨s, rfl, T, rfl⟩

theorem pollInsert_tracks (T : Tracks size s t) (short : t.chars.length < room size) (c : UInt8) :
    ∃ s', pollInsert size c s = some s' ∧ Tracks size s' (t.insert c) ∧ s'.reads = s.reads := by
  have within := t.within
  have fits := short
  unfold room at fits
  have next : (s.i + 1).toNat = s.i.toNat + 1 := toNat_next size (by rw [T.cursor]; omega)
  have more : (s.currsz + 1).toNat = s.currsz.toNat + 1 := toNat_next size (by rw [T.count]; omega)
  have stretch : s.i.toNat + (t.chars.length - t.cursor) < size.toNat := by
    rw [T.cursor]
    omega
  obtain ⟨buffer', ran, moved⟩ := shiftUp_moves s.buffer stretch
  rw [T.cursor] at moved
  have T' : Tracks size { s with buffer := update buffer' s.i.toNat c, i := s.i + 1, currsz := s.currsz + 1 }
      (t.insert c) := by
    constructor
    · rw [Text.insert_length short]
      exact more.trans (congrArg (· + 1) T.count)
    · rw [Text.insert_cursor short]
      exact next.trans (congrArg (· + 1) T.cursor)
    · rw [Text.insert_chars short, T.cursor]
      dsimp only
      apply Text.shows_insert T.shows within
      · intro j before
        rw [update_of_ne (by omega), moved j, if_neg (by omega)]
      · exact update_self ..
      · intro j behind inside
        rw [update_of_ne (by omega), moved (j + 1), if_pos (by omega), Nat.add_sub_cancel]
    · rw [T.cursor]
      dsimp only
      rw [update_of_ne (by omega), moved, if_neg (by omega)]
      exact T.nul
  obtain ⟨s', redrawn, tracks, reads⟩ := redrawLonger_tracks T'
  refine ⟨s', ?_, tracks, reads⟩
  unfold pollInsert
  rw [T.rest, ran]
  show (store size buffer' s.i c).bind _ = _
  rw [store_inside (by rw [T.cursor]; omega)]
  exact redrawn

/-! ### The loop -/

theorem unfinished {mode : Mode} (short : t.chars.length < room size) (goes : mode ≠ .ended) :
    ¬Editor.Finished ⟨t, mode⟩ := by
  rintro (ended | full)
  · exact goes ended
  · exact Nat.not_le_of_lt short full

theorem after_plain (at_n : Editor.after (room size) rbr n = ⟨t, .plain⟩) (short : t.chars.length < room size) :
    Editor.after (room size) rbr (n + 1) = Editor.key t (rbr n) := by
  rw [Editor.after, at_n]
  unfold Editor.feed
  rw [if_neg (unfinished short (by decide))]

theorem after_escape (at_n : Editor.after (room size) rbr n = ⟨t, .escape⟩) (short : t.chars.length < room size) :
    Editor.after (room size) rbr (n + 1) = ⟨t, if rbr n = openBracket then .bracket else .plain⟩ := by
  rw [Editor.after, at_n]
  unfold Editor.feed
  rw [if_neg (unfinished short (by decide))]

theorem after_bracket (at_n : Editor.after (room size) rbr n = ⟨t, .bracket⟩) (short : t.chars.length < room size) :
    Editor.after (room size) rbr (n + 1) =
      ⟨if rbr n = letterD then t.left else if rbr n = letterC then t.right else t, .plain⟩ := by
  rw [Editor.after, at_n]
  unfold Editor.feed
  rw [if_neg (unfinished short (by decide))]

/-- The loop has gone on from `s` to `s'`, and the editor with it. -/
structure Goes (size : UInt32) (rbr : Nat → UInt8) (s s' : Poll) (mode : Mode) : Prop where
  more : s.reads < s'.reads
  editor : ∃ t, Editor.after (room size) rbr s'.reads = ⟨t, mode⟩ ∧ Tracks size s' t

/-- An arrow key moves the cursor, and the other sequences are skipped. -/
theorem pollEscape_goes (at_n : Editor.after (room size) rbr s.reads = ⟨t, .escape⟩) (T : Tracks size s t)
    (short : t.chars.length < room size) : Goes size rbr s (pollEscape rbr s) .plain := by
  have first := after_escape at_n short
  unfold pollEscape
  dsimp only
  by_cases bracket : rbr s.reads = openBracket
  · rw [if_pos bracket] at first ⊢
    have second := after_bracket first short
    by_cases isLeft : rbr (s.reads + 1) = letterD
    · rw [if_pos isLeft] at second ⊢
      by_cases some : 0 < t.cursor
      · rw [if_pos (T.front.mpr some)]
        exact ⟨Nat.lt_add_of_pos_right Nat.two_pos, t.left, second, T.count, T.previous some, T.shows, T.nul⟩
      · rw [if_neg (mt T.front.mp some)]
        refine ⟨Nat.lt_add_of_pos_right Nat.two_pos, t.left, second, T.count, ?_, T.shows, T.nul⟩
        show s.i.toNat = t.cursor - 1
        rw [T.cursor]
        omega
    rw [if_neg isLeft] at second ⊢
    by_cases isRight : rbr (s.reads + 1) = letterC
    · rw [if_pos isRight] at second ⊢
      by_cases some : t.cursor < t.chars.length
      · rw [if_pos (T.inside.mpr some)]
        refine ⟨Nat.lt_add_of_pos_right Nat.two_pos, t.right, second, ?_, ?_, ?_, T.nul⟩
        · rw [Text.right_chars]
          exact T.count
        · rw [Text.right_cursor some, ← T.cursor]
          apply toNat_next size
          unfold room at short
          rw [T.cursor]
          omega
        · rw [Text.right_chars]
          exact T.shows
      · rw [Text.right_end some] at second
        rw [if_neg (mt T.inside.mp some)]
        exact ⟨Nat.lt_add_of_pos_right Nat.two_pos, t, second, T.count, T.cursor, T.shows, T.nul⟩
    · rw [if_neg isRight] at second ⊢
      exact ⟨Nat.lt_add_of_pos_right Nat.two_pos, t, second, T.count, T.cursor, T.shows, T.nul⟩
  · rw [if_neg bracket] at first ⊢
    exact ⟨Nat.lt_succ_self _, t, first, T.count, T.cursor, T.shows, T.nul⟩

theorem edit_goes {edit : Option Poll} {t' : Text UInt8 (room size)}
    (edited : ∃ s', edit = some s' ∧ Tracks size s' t' ∧ s'.reads = s.reads + 1)
    (fed : Editor.after (room size) rbr (s.reads + 1) = ⟨t', .plain⟩) :
    ∃ s' stop, edit.map (·, false) = some (s', stop) ∧ Goes size rbr s s' (if stop then .ended else .plain) := by
  obtain ⟨s', ran, T, reads⟩ := edited
  rw [ran]
  refine ⟨s', false, rfl, reads ▸ Nat.lt_succ_self _, t', ?_, T⟩
  rw [reads]
  exact fed

theorem pollKey_goes (at_n : Editor.after (room size) rbr s.reads = ⟨t, .plain⟩) (T : Tracks size s t)
    (short : t.chars.length < room size) :
    ∃ s' stop, pollKey size rbr s = some (s', stop) ∧ Goes size rbr s s' (if stop then .ended else .plain) := by
  have fed := after_plain at_n short
  have T₁ : Tracks size { s with reads := s.reads + 1 } t := ⟨T.count, T.cursor, T.shows, T.nul⟩
  have more : s.reads < s.reads + 1 := Nat.lt_succ_self _
  unfold Editor.key at fed
  unfold pollKey
  dsimp only
  generalize rbr s.reads = c at fed ⊢
  by_cases front : c = backspaceKey ∧ s.i > 0
  · rw [if_pos front.1] at fed
    rw [if_pos front]
    exact edit_goes (pollBackspace_tracks T₁ (T.front.mp front.2)) fed
  rw [if_neg front]
  by_cases isBackspace : c = backspaceKey
  · -- There is nothing in front of the cursor, and the byte is no other key and no symbol.
    have start : ¬0 < t.cursor := fun some => front ⟨isBackspace, T.front.mpr some⟩
    rw [if_pos isBackspace, Text.eraseBefore_start start] at fed
    subst isBackspace
    rw [if_neg (by decide), if_neg (by decide), if_neg (by decide)]
    exact ⟨_, false, rfl, more, t, fed, T₁⟩
  rw [if_neg isBackspace] at fed
  by_cases isDelete : c = deleteKey
  · rw [if_pos isDelete] at fed
    rw [if_pos isDelete]
    exact edit_goes (pollDelete_tracks T₁ short) fed
  rw [if_neg isDelete] at fed ⊢
  by_cases isEscape : c = escapeKey
  · rw [if_pos isEscape] at fed
    rw [if_pos isEscape]
    have goes := pollEscape_goes (s := { s with reads := s.reads + 1 }) fed T₁ short
    exact ⟨_, false, rfl, Nat.lt_trans more goes.more, goes.editor⟩
  rw [if_neg isEscape] at fed ⊢
  by_cases enter : c = carriageReturn ∨ c = lineFeed
  · rw [if_pos enter] at fed
    have symbol : isSymbol c = true := by
      rcases enter with rfl | rfl <;> decide
    rw [if_pos symbol, if_pos enter.symm]
    exact ⟨_, true, rfl, more, t, fed, T₁⟩
  rw [if_neg enter] at fed
  cases symbol : isSymbol c with
  | true =>
    rw [symbol, if_pos rfl] at fed
    rw [if_pos rfl, if_neg fun also => enter also.symm]
    exact edit_goes (pollInsert_tracks T₁ short c) fed
  | false =>
    rw [symbol, if_neg (by decide)] at fed
    rw [if_neg (by decide)]
    exact ⟨_, false, rfl, more, t, fed, T₁⟩

/-- The loop ends with the editor. -/
structure Edited (size : UInt32) (rbr : Nat → UInt8) (s : Poll) : Prop where
  finished : (Editor.after (room size) rbr s.reads).Finished
  count : s.currsz.toNat = (Editor.after (room size) rbr s.reads).text.chars.length
  buffer : Text.Shows s.buffer (Editor.after (room size) rbr s.reads).text.chars
  nul : s.buffer (room size) = 0

theorem tracks_edited {mode : Mode} (at_n : Editor.after (room size) rbr s.reads = ⟨t, mode⟩) (T : Tracks size s t)
    (finished : Editor.Finished (⟨t, mode⟩ : Editor (room size))) : Edited size rbr s := by
  refine ⟨?_, ?_, ?_, T.nul⟩
  all_goals rw [at_n]
  · exact finished
  · exact T.count
  · exact T.shows

/-- `serial_poll` waits, or it returns what the editor makes of the bytes. -/
inductive Ends (size : UInt32) (rbr : Nat → UInt8) : Polled → Prop
  | waiting : Ends size rbr .waiting
  | returned (s : Poll) : Edited size rbr s → Ends size rbr (pollReturn s)

theorem pollLoop_ends {fuel polls : Nat} (bound : len.toNat = room size) (follows : Follows size rbr s) :
    Ends size rbr (pollLoop size len lsr rbr fuel polls s) := by
  induction fuel generalizing polls s with
  | zero => exact .waiting
  | succ fuel ih =>
    obtain ⟨t, at_n, T⟩ := follows
    unfold pollLoop
    by_cases more : s.currsz < len
    · have short := (T.short bound).mp more
      rw [if_pos more]
      split
      · obtain ⟨s', stop, ran, goes⟩ := pollKey_goes at_n T short
        rw [ran]
        obtain ⟨t', at_n', T'⟩ := goes.editor
        cases stop with
        | true => exact .returned s' (tracks_edited at_n' T' (.inl rfl))
        | false => exact ih ⟨t', at_n', T'⟩
      · exact ih ⟨t, at_n, T⟩
    · have full : room size ≤ t.chars.length := Nat.le_of_not_lt (mt (T.short bound).mpr more)
      rw [if_neg more]
      exact .returned s (tracks_edited at_n T (.inr full))

theorem start_follows (buffer : Nat → UInt8) (nul : buffer (room size) = 0) :
    Follows size rbr { buffer := buffer, currsz := 0, i := 0, reads := 0, sent := [] } :=
  ⟨Text.empty, rfl, rfl, rfl, Text.shows_nil buffer, nul⟩

variable {initialized : Fin 4 → Bool} {dev : UInt32} {d : Fin 4} {fuel : Nat} {value : Int}

theorem serialPoll_loop (known : serialDevno dev = some d) (ready : initialized d = true) (positive : len ≠ 0)
    (buffer lsr rbr : Nat → UInt8) (fuel : Nat) :
    ∃ s, Follows len rbr s ∧ s.reads = 0 ∧ (len - 1).toNat = room len ∧
      serialPoll initialized dev buffer len lsr rbr fuel = pollLoop len (len - 1) lsr rbr fuel 0 s := by
  have nonzero : len.toNat ≠ 0 := fun zero => positive (UInt32.toNat_inj.mp zero)
  have one : (1 : UInt32).toNat = 1 := rfl
  have bound : (len - 1).toNat = room len := toNat_diff (by rw [one]; omega)
  unfold serialPoll
  rw [known]
  dsimp only
  rw [ready, if_neg (by decide), store_inside (by rw [bound]; unfold room; omega)]
  refine ⟨_, start_follows _ ?_, rfl, bound, rfl⟩
  rw [bound, update_self]

theorem serialPoll_ends (known : serialDevno dev = some d) (ready : initialized d = true) (positive : len ≠ 0)
    (buffer lsr rbr : Nat → UInt8) (fuel : Nat) : Ends len rbr (serialPoll initialized dev buffer len lsr rbr fuel) := by
  obtain ⟨s, follows, _, bound, run⟩ := serialPoll_loop known ready positive buffer lsr rbr fuel
  rw [run]
  exact pollLoop_ends bound follows

/-! ### Long buffers -/

theorem after_finished {k : Nat} (finished : (Editor.after (room size) rbr n).Finished) :
    Editor.after (room size) rbr (n + k) = Editor.after (room size) rbr n := by
  induction k with
  | zero => rfl
  | succ k ih =>
    rw [← Nat.add_assoc, Editor.after, ih]
    unfold Editor.feed
    rw [if_pos finished]

/-- If the bytes come at once, the loop returns as soon as the editor is finished. -/
theorem pollLoop_returns (polls : Nat) (bound : len.toNat = room size) (follows : Follows size rbr s)
    (comes : ∀ k, lsr k &&& 0x01 ≠ 0) (finished : (Editor.after (room size) rbr n).Finished) (some : 0 < fuel)
    (enough : n < s.reads + fuel) : ∃ s', pollLoop size len lsr rbr fuel polls s = pollReturn s' := by
  induction fuel generalizing polls s with
  | zero => cases some
  | succ fuel ih =>
    obtain ⟨t, at_n, T⟩ := follows
    unfold pollLoop
    by_cases more : s.currsz < len
    · have short := (T.short bound).mp more
      -- The editor would be finished here already.
      have early : s.reads < n := by
        apply Nat.lt_of_not_le
        intro late
        have same := after_finished (k := s.reads - n) finished
        rw [Nat.add_sub_cancel' late, at_n] at same
        exact unfinished short (by decide) (same ▸ finished)
      rw [if_pos more, if_pos (comes polls)]
      obtain ⟨s', stop, ran, goes⟩ := pollKey_goes at_n T short
      have longer := goes.more
      rw [ran]
      cases stop with
      | true => exact ⟨s', rfl⟩
      | false => exact ih (polls + 1) goes.editor (by omega) (by omega)
    · rw [if_neg more]
      exact ⟨s, rfl⟩

/-- A symbol is typed again and again. -/
theorem after_typed (size : UInt32) (symbol : ∀ n, rbr n = letterC) (n : Nat) :
    ∃ t, Editor.after (room size) rbr n = ⟨t, .plain⟩ ∧ (t.chars.length = n ∨ t.chars.length = room size) := by
  induction n with
  | zero => exact ⟨Text.empty, rfl, .inl rfl⟩
  | succ n ih =>
    obtain ⟨t, at_n, length⟩ := ih
    by_cases short : t.chars.length < room size
    · refine ⟨t.insert letterC, ?_, .inl ?_⟩
      · rw [after_plain at_n short, symbol n]
        rfl
      · rw [Text.insert_length short]
        omega
    · have full : t.chars.length = room size := Nat.le_antisymm t.fits (Nat.le_of_not_lt short)
      refine ⟨t, ?_, .inr full⟩
      rw [← at_n]
      exact after_finished (k := 1) (at_n ▸ .inr (Nat.le_of_eq full.symm))

/-- What `serial_poll` promises for a buffer of `len` bytes: no access outside of it, and if it returns, the
line that the editor has made and its length. -/
def Edits (len : UInt32) : Prop :=
  ∀ initialized dev d buffer lsr rbr fuel, serialDevno dev = some d → initialized d = true →
    serialPoll initialized dev buffer len lsr rbr fuel ≠ .faulted ∧
      ∀ value s, serialPoll initialized dev buffer len lsr rbr fuel = .returned value s →
        Edited len rbr s ∧ value = (Editor.after (room len) rbr s.reads).text.chars.length

theorem ends_returned {out : Polled} (ends : Ends size rbr out) :
    out ≠ .faulted ∧ ∀ value s, out = .returned value s → Edited size rbr s ∧ value = s.currsz.toBitVec.toInt := by
  cases ends with
  | waiting => exact ⟨fun same => (nomatch same), fun value s same => (nomatch same)⟩
  | returned s edited =>
    constructor
    · intro same
      cases same
    · intro value s' same
      obtain ⟨rfl, rfl⟩ := Polled.returned.inj same
      exact ⟨edited, rfl⟩

theorem edits_short (positive : len ≠ 0) (short : len.toNat ≤ 2 ^ 31) : Edits len := by
  intro initialized dev d buffer lsr rbr fuel known ready
  obtain ⟨safe, returns⟩ := ends_returned (serialPoll_ends known ready positive buffer lsr rbr fuel)
  refine ⟨safe, ?_⟩
  intro value s ran
  obtain ⟨edited, rfl⟩ := returns value s ran
  refine ⟨edited, ?_⟩
  have fits := (Editor.after (room len) rbr s.reads).text.fits
  have count := edited.count
  unfold room at fits count ⊢
  have small : 2 * s.currsz.toBitVec.toNat < 2 ^ 32 := by
    have : s.currsz.toBitVec.toNat = s.currsz.toNat := rfl
    omega
  rw [BitVec.toInt_eq_toNat_of_lt small]
  exact congrArg Int.ofNat count

/-- The count of a long line is no `int`. -/
theorem edits_long (long : 2 ^ 31 < len.toNat) : ¬Edits len := by
  intro edits
  have positive : len ≠ 0 := by
    rintro rfl
    exact absurd long (by decide)
  have typed := after_typed len (fun _ => rfl : ∀ n, (fun _ => letterC : Nat → UInt8) n = letterC)
  have finished : (Editor.after (room len) (fun _ => letterC) (room len)).Finished := by
    obtain ⟨t, at_n, length⟩ := typed (room len)
    rw [at_n]
    exact .inr (Nat.le_of_eq (length.elim Eq.symm Eq.symm))
  let initialized : Fin 4 → Bool := fun _ => true
  have known : serialDevno com1 = some 0 := rfl
  have ready : initialized 0 = true := rfl
  obtain ⟨s, follows, start, bound, run⟩ := serialPoll_loop known ready positive (fun _ => 0) (fun _ => 1)
    (fun _ => letterC) (room len + 1)
  have set : (1 : UInt8) &&& 0x01 ≠ 0 := by decide
  have comes : ∀ k, (fun _ => 1 : Nat → UInt8) k &&& 0x01 ≠ 0 := fun _ => set
  have enough : room len < s.reads + (room len + 1) := by omega
  obtain ⟨s', ran⟩ := pollLoop_returns 0 bound follows comes finished (Nat.succ_pos _) enough
  rw [ran] at run
  obtain ⟨edited, counted⟩ := (edits initialized com1 0 (fun _ => 0) (fun _ => 1) (fun _ => letterC) (room len + 1)
    known ready).2 _ s' run
  have count := edited.count
  have full : (Editor.after (room len) (fun _ => letterC) s'.reads).text.chars.length = room len := by
    obtain ⟨t, at_n, _⟩ := typed s'.reads
    have ended := edited.finished
    rw [at_n] at ended ⊢
    rcases ended with stopped | full
    · cases stopped
    · exact Nat.le_antisymm t.fits full
  have negative : s'.currsz.toBitVec.toInt < 0 := by
    rw [BitVec.toInt_neg_iff]
    have : s'.currsz.toBitVec.toNat = s'.currsz.toNat := rfl
    have : room len = len.toNat - 1 := rfl
    omega
  rw [counted] at negative
  omega

/-- "ab", the arrow to the left, "c" and ENTER. -/
example : (match serialPoll (fun _ => true) com1 (fun _ => 88) 4 (fun _ => 1)
    (fun n => [97, 98, 27, 91, 68, 99, 13].getD n 0) 10 with
    | .returned value s => (value, (List.range 4).map s.buffer)
    | _ => (0, [])) = (3, [97, 99, 98, 0]) := by decide +kernel

end Mpx.Device
