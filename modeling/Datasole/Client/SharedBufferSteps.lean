import Mathlib.Data.List.Infix
import Datasole.Client.SharedBuffer
import Datasole.Common.Machine

/-!
# The ring, one access at a time

`MainThreadSharedBuffer.read` and `WorkerSharedBuffer.write` as two threads over one memory. Each
`Atomics` load, store, addition and subtraction and each copied byte is a step of its own, and the
two threads interleave freely; what a thread computes between two accesses belongs to the step
before.

The memory always holds a stretch of the stream of packed messages. `RingRun.Inv` says so with two
positions that never wrap: all bytes up to `written` have been published by the writer, all bytes up
to `freed` have been given back by the reader. The read index the writer works with may be old, but
an old index only makes the room look smaller.
-/

namespace Datasole

/-- What a number becomes when it is stored in an `Int32Array`. -/
def toInt32 (n : ℤ) : ℤ := (BitVec.ofInt 32 n).toInt

theorem toInt32_of_lt {n : ℤ} (hlow : -2 ^ 31 ≤ n) (hhigh : n < 2 ^ 31) : toInt32 n = n := by
  rw [toInt32, BitVec.toInt_ofInt, Int.bmod_eq_of_le (by omega) (by omega)]

/-- What is stored in an `Int32Array` is below the upper end of its range. -/
theorem toInt32_lt (n : ℤ) : toInt32 n < 2 ^ 31 := by
  have h := (BitVec.ofInt 32 n).toInt_lt
  rw [toInt32]
  omega

/-- Where a call of `write` stands, by the access that comes next. -/
inductive Writer
  | idle
  | loadReadIndex (msg : Bytes) (writeIdx : ℕ)
  | loadCapacity (msg : Bytes) (writeIdx readIdx : ℕ)
  /-- `i` bytes of the packed message are copied. -/
  | copy (msg : Bytes) (writeIdx : ℕ) (capacity : ℤ) (i : ℕ)
  | addCount (msg : Bytes)
  deriving DecidableEq

/-- Where a call of `read` stands, by the access that comes next. -/
inductive Reader
  | idle
  | loadReadIndex
  | loadCapacity (readIdx : ℕ)
  /-- The bytes of the length that are loaded. -/
  | length (readIdx : ℕ) (capacity : ℤ) (bytes : Bytes)
  /-- The bytes of the message that are loaded. -/
  | body (readIdx : ℕ) (capacity : ℤ) (len : ℕ) (msg : Bytes)
  | subCount (msg : Bytes)
  deriving DecidableEq

/-- The shared memory, the two threads, and the results of their calls so far. -/
structure RingRun where
  readIndex : ℕ
  writeIndex : ℕ
  capacity : ℤ
  count : ℤ
  data : ℕ → UInt8
  writer : Writer
  reader : Reader
  /-- The messages for which `write` returned `true`. -/
  accepted : List Bytes
  /-- The messages that `read` returned. -/
  returned : List Bytes
  lastWrite : Option Bool
  lastRead : Option (Option Bytes)

namespace RingRun

/-- `create(size)`, and `init` on the worker's side. -/
def create (size : ℕ) : RingRun where
  readIndex := 0
  writeIndex := 0
  capacity := toInt32 size
  count := 0
  data := fun _ => 0
  writer := .idle
  reader := .idle
  accepted := []
  returned := []
  lastWrite := none
  lastRead := none

/-- A place in the ring, `position % capacity`. -/
def place (position : ℕ) (capacity : ℤ) : ℕ := position % capacity.natAbs

/-- The room in use, as `write` computes it. -/
def usedBytes (writeIdx readIdx : ℕ) (capacity : ℤ) : ℤ :=
  if readIdx ≤ writeIdx then writeIdx - readIdx else capacity - readIdx + writeIdx

/-- The next access of the writer. -/
def writerStep (s : RingRun) : Option RingRun :=
  match s.writer with
  | .idle => none
  | .loadReadIndex msg writeIdx => some { s with writer := .loadCapacity msg writeIdx s.readIndex }
  | .loadCapacity msg writeIdx readIdx =>
    -- the check comes right after the load: no room, and `write` returns `false`
    if s.capacity ≤ usedBytes writeIdx readIdx s.capacity + (4 + msg.length) then
      some { s with writer := .idle, lastWrite := some false }
    else some { s with writer := .copy msg writeIdx s.capacity 0 }
  | .copy msg writeIdx capacity i =>
    if i < 4 then
      some { s with
        data := Function.update s.data (place (writeIdx + i) capacity)
          ((Bytes.uint32 msg.length).getUint8 i)
        writer := .copy msg writeIdx capacity (i + 1) }
    else if i < 4 + msg.length then
      let pos := place (writeIdx + 4) capacity
      some { s with
        data := Function.update s.data (place (pos + (i - 4)) capacity) (msg.getUint8 (i - 4))
        writer := .copy msg writeIdx capacity (i + 1) }
    else
      some { s with
        writeIndex := place (writeIdx + (4 + msg.length)) capacity
        writer := .addCount msg }
  | .addCount msg =>
    some { s with
      count := toInt32 (s.count + 1)
      writer := .idle
      accepted := s.accepted ++ [msg]
      lastWrite := some true }

/-- The next access of the reader. -/
def readerStep (s : RingRun) : Option RingRun :=
  match s.reader with
  | .idle => none
  | .loadReadIndex => some { s with reader := .loadCapacity s.readIndex }
  | .loadCapacity readIdx => some { s with reader := .length readIdx s.capacity [] }
  | .length readIdx capacity bytes =>
    let bytes' := bytes ++ [s.data (place (readIdx + bytes.length) capacity)]
    some { s with
      reader :=
        if bytes'.length < 4 then .length readIdx capacity bytes'
        else .body readIdx capacity (bytes'.getUint32 0) [] }
  | .body readIdx capacity len msg =>
    if msg.length < len then
      let msgStart := place (readIdx + 4) capacity
      some { s with
        reader := .body readIdx capacity len (msg ++ [s.data (place (msgStart + msg.length) capacity)]) }
    else
      some { s with
        readIndex := place (readIdx + 4 + len) capacity
        reader := .subCount msg }
  | .subCount msg =>
    some { s with
      count := toInt32 (s.count - 1)
      reader := .idle
      returned := s.returned ++ [msg]
      lastRead := some (some msg) }

/-- A call begins with its first access; `writer` and `reader` continue the call in progress. -/
inductive Act
  | write (msg : Bytes)
  | read
  | writer
  | reader

def step (s : RingRun) : Act → Option RingRun
  | .write msg =>
    if s.writer = .idle then some { s with writer := .loadReadIndex msg s.writeIndex } else none
  | .read =>
    if s.reader = .idle then
      if s.count ≤ 0 then some { s with lastRead := some none }
      else some { s with reader := .loadReadIndex }
    else none
  | .writer => s.writerStep
  | .reader => s.readerStep

/-- No call is in progress. -/
def Quiescent (s : RingRun) : Prop := s.writer = .idle ∧ s.reader = .idle

instance (s : RingRun) : Decidable s.Quiescent := inferInstanceAs (Decidable (_ ∧ _))

/-! ## Positions that never wrap -/

/-- The messages whose bytes the writer has published: the accepted ones and, between the store of
the write index and the addition to the count, the one being accepted. -/
def stored (s : RingRun) : List Bytes :=
  match s.writer with
  | .addCount msg => s.accepted ++ [msg]
  | _ => s.accepted

/-- The messages whose room the reader has given back. -/
def taken (s : RingRun) : List Bytes :=
  match s.reader with
  | .subCount msg => s.returned ++ [msg]
  | _ => s.returned

/-- The position up to which the stream is published. -/
def written (s : RingRun) : ℕ := (Ring.stream s.stored).length

/-- The position up to which the stream is given back. -/
def freed (s : RingRun) : ℕ := (Ring.stream s.taken).length

theorem place_place_add (a b : ℕ) (capacity : ℤ) :
    place (place a capacity + b) capacity = place (a + b) capacity :=
  Nat.mod_add_mod a _ b

theorem place_ne {a b : ℕ} {capacity : ℤ} (hlt : a < b) (hturn : (b : ℤ) < a + capacity) :
    place a capacity ≠ place b capacity :=
  Ring.mod_ne hlt (by omega)

/-- With two positions less than a turn apart, `write` finds the number of bytes between them. -/
theorem usedBytes_eq {w r : ℕ} {capacity : ℤ} (hle : r ≤ w)
    (hroom : w = r ∨ (w : ℤ) < r + capacity) :
    usedBytes (place w capacity) (place r capacity) capacity = w - r := by
  rcases hroom with rfl | hlt
  · rw [usedBytes, if_pos le_rfl]
    omega
  · obtain ⟨n, rfl⟩ : ∃ n : ℕ, capacity = n := ⟨capacity.toNat, by omega⟩
    obtain ⟨d, rfl⟩ : ∃ d, w = r + d := ⟨w - r, by omega⟩
    have hr : place r n < n := Nat.mod_lt _ (by omega)
    have hw : place (r + d) n = (place r n + d) % n := (Nat.mod_add_mod r n d).symm
    rw [usedBytes]
    by_cases hwrap : place r n + d < n
    · rw [Nat.mod_eq_of_lt hwrap] at hw
      rw [if_pos (by omega)]
      omega
    · -- the stretch runs over the end, so the write index is behind the read index
      rw [Nat.mod_eq_sub_mod (by omega), Nat.mod_eq_of_lt (by omega)] at hw
      rw [if_neg (by omega)]
      omega

/-- The first four bytes of a packed message are its length. -/
theorem getElem?_packed_of_lt {msg : Bytes} {i : ℕ} (hi : i < 4) :
    (Ring.packed msg)[i]? = some ((Bytes.uint32 msg.length).getUint8 i) := by
  rw [Ring.packed, List.getElem?_append_left (by simpa using hi), Bytes.getUint8,
    List.getElem?_eq_getElem (by simpa using hi), Option.getD_some]

/-- The bytes of a packed message after the first four are its own. -/
theorem getElem?_packed_of_le {msg : Bytes} {i : ℕ} (hi : 4 ≤ i) (hlt : i < 4 + msg.length) :
    (Ring.packed msg)[i]? = some (msg.getUint8 (i - 4)) := by
  rw [Ring.packed, List.getElem?_append_right (by simpa using hi), Bytes.length_uint32,
    Bytes.getUint8, List.getElem?_eq_getElem (by omega), Option.getD_some]

/-- The stream of a beginning is no longer than the stream of all. -/
theorem length_stream_le {as bs : List Bytes} (h : as <+: bs) :
    (Ring.stream as).length ≤ (Ring.stream bs).length := by
  obtain ⟨cs, rfl⟩ := h
  rw [Ring.stream, Ring.stream, List.flatMap_append, List.length_append]
  omega

/-- A message adds its own bytes and four to the length of the stream. -/
theorem length_stream_concat (msgs : List Bytes) (msg : Bytes) :
    (Ring.stream (msgs ++ [msg])).length = (Ring.stream msgs).length + (4 + msg.length) := by
  rw [Ring.stream_concat, List.length_append, Ring.length_packed]

/-- The bytes of a message in a stream. -/
theorem getElem?_stream {msgs all : List Bytes} {msg : Bytes} (h : msgs ++ [msg] <+: all) {i : ℕ}
    (hi : i < 4 + msg.length) :
    (Ring.stream all)[(Ring.stream msgs).length + i]? = (Ring.packed msg)[i]? := by
  obtain ⟨rest, rfl⟩ := h
  have hlen := Ring.length_packed msg
  rw [List.append_assoc, Ring.stream, List.flatMap_append, List.getElem?_append_right (by
    simp [Ring.stream]), List.flatMap_append, Ring.stream, Nat.add_sub_cancel_left,
    List.getElem?_append_left (by simpa [hlen] using hi), List.flatMap_singleton]

/-! ## The representation invariant -/

/-- `msg` is the first accepted message that is not returned. -/
def Next (s : RingRun) (msg : Bytes) : Prop := s.returned ++ [msg] <+: s.accepted

/-- What the call of `write` in progress relies on. -/
def WriterInv (s : RingRun) : Prop :=
  match s.writer with
  | .idle | .addCount _ => True
  | .loadReadIndex _ writeIdx => writeIdx = s.writeIndex
  | .loadCapacity _ writeIdx readIdx =>
    -- the index was right when it was loaded, and the reader may have gone on since
    writeIdx = s.writeIndex ∧ ∃ p, p ≤ s.freed ∧ readIdx = place p s.capacity ∧
      (s.written = p ∨ (s.written : ℤ) < p + s.capacity)
  | .copy msg writeIdx capacity i =>
    writeIdx = s.writeIndex ∧ capacity = s.capacity ∧ i ≤ 4 + msg.length ∧
      (s.written : ℤ) + (4 + msg.length) < s.freed + s.capacity ∧
      ∀ j < i, (Ring.packed msg)[j]? = some (s.data (place (s.written + j) s.capacity))

/-- What the call of `read` in progress relies on. -/
def ReaderInv (s : RingRun) : Prop :=
  match s.reader with
  | .idle | .subCount _ => True
  | .loadReadIndex => ∃ msg, s.Next msg
  | .loadCapacity readIdx => readIdx = s.readIndex ∧ ∃ msg, s.Next msg
  | .length readIdx capacity bytes =>
    readIdx = s.readIndex ∧ capacity = s.capacity ∧ bytes.length < 4 ∧
      ∃ msg, s.Next msg ∧ bytes <+: Bytes.uint32 msg.length
  | .body readIdx capacity len part =>
    readIdx = s.readIndex ∧ capacity = s.capacity ∧
      ∃ msg, s.Next msg ∧ len = msg.length ∧ part <+: msg

structure Inv (s : RingRun) : Prop where
  write_eq : s.writeIndex = place s.written s.capacity
  read_eq : s.readIndex = place s.freed s.capacity
  small : s.capacity < 2 ^ 31
  room : s.written = s.freed ∨ (s.written : ℤ) < s.freed + s.capacity
  bytes : ∀ i, s.freed ≤ i → i < s.written →
    (Ring.stream s.stored)[i]? = some (s.data (place i s.capacity))
  count_eq : s.count = s.accepted.length - s.returned.length
  taken_prefix : s.taken <+: s.accepted
  writer : s.WriterInv
  reader : s.ReaderInv

theorem place_zero (capacity : ℤ) : place 0 capacity = 0 := Nat.zero_mod _

/-- A new ring, with both threads idle, keeps the invariant. -/
theorem inv_create (size : ℕ) : (create size).Inv where
  write_eq := (place_zero _).symm
  read_eq := (place_zero _).symm
  small := toInt32_lt size
  room := Or.inl rfl
  bytes i _ h := absurd h (Nat.not_lt_zero i)
  count_eq := rfl
  taken_prefix := List.prefix_rfl
  writer := trivial
  reader := trivial

variable {s t : RingRun}

/-- What the reader may see is a beginning of what the writer has stored. -/
theorem accepted_prefix (s : RingRun) : s.accepted <+: s.stored := by
  rw [stored]
  split
  · exact List.prefix_append _ _
  · exact List.prefix_rfl

/-- A reader that is in no call has given back exactly what was returned. -/
theorem taken_of_idle (hidle : s.reader = .idle) : s.taken = s.returned := by
  simp only [taken, hidle]

theorem Inv.freed_le (h : s.Inv) : s.freed ≤ s.written :=
  length_stream_le (h.taken_prefix.trans s.accepted_prefix)

/-- The reader does not mind that more messages are accepted. -/
theorem ReaderInv.grow (h : s.ReaderInv) {count : ℤ} {writer : Writer} {accepted : List Bytes}
    {lastWrite : Option Bool} (hgrow : s.accepted <+: accepted) :
    { s with count, writer, accepted, lastWrite }.ReaderInv := by
  have hnext : ∀ msg, s.Next msg → { s with count, writer, accepted, lastWrite }.Next msg :=
    fun msg hmsg => hmsg.trans hgrow
  unfold ReaderInv at h ⊢
  dsimp only at h ⊢
  split at h
  · trivial
  · trivial
  · exact h.imp hnext
  · exact ⟨h.1, h.2.imp hnext⟩
  · exact ⟨h.1, h.2.1, h.2.2.1, h.2.2.2.imp fun msg hmsg => ⟨hnext msg hmsg.1, hmsg.2⟩⟩
  · exact ⟨h.1, h.2.1, h.2.2.imp fun msg hmsg => ⟨hnext msg hmsg.1, hmsg.2⟩⟩

end RingRun

end Datasole
