import Mathlib.Data.Nat.ModEq
import Mathlib.Logic.Function.Basic
import Datasole.Common.Bytes

/-!
# The ring between worker and main thread

`client/worker/shared-buffer.ts` and `client/transport/shared-buffer.ts`: a ring of bytes with a
read index, a write index and a count of messages, each message preceded by its length in four
bytes. The worker alone writes, the main thread alone reads. A call of `write` publishes its message
by its last access to the header and a call of `read` frees the room by its last ones, so each is
one step here.

`Ring.Holds` ties the bytes to the queue of unread messages; under it `write` appends to the queue
exactly when there is room and `read` takes the first message, byte for byte.
-/

namespace Datasole

/-- The header and the data of the buffer. Only indices below the capacity are used. The header
fields are 32-bit integers, so the capacity stays below `2 ^ 31`. -/
structure Ring where
  readIndex : ℕ
  writeIndex : ℕ
  capacity : ℕ
  count : ℕ
  data : ℕ → UInt8

namespace Ring

/-- `create(size)`; a fresh `SharedArrayBuffer` is zeroed. -/
def create (size : ℕ) : Ring where
  readIndex := 0
  writeIndex := 0
  capacity := size
  count := 0
  data := fun _ => 0

/-- The loop that copies bytes to `(pos + i) % capacity`. -/
def copyIn (capacity : ℕ) (data : ℕ → UInt8) (pos : ℕ) : Bytes → (ℕ → UInt8)
  | [] => data
  | b :: bs => copyIn capacity (Function.update data (pos % capacity) b) (pos + 1) bs

/-- The loop that copies `n` bytes from `(pos + i) % capacity`. -/
def copyOut (capacity : ℕ) (data : ℕ → UInt8) (pos : ℕ) (n : ℕ) : Bytes :=
  (List.range n).map fun i => data ((pos + i) % capacity)

/-- The number of unread bytes, as `write` computes it from the two indices. -/
def used (r : Ring) : ℕ :=
  if r.readIndex ≤ r.writeIndex then r.writeIndex - r.readIndex
  else r.capacity - r.readIndex + r.writeIndex

/-- `none` when there is no room and `write` returns `false`. -/
def write (r : Ring) (msg : Bytes) : Option Ring :=
  let needed := 4 + msg.length
  -- a ring filled to the last byte would have the indices of an empty one
  if r.capacity ≤ r.used + needed then none
  else
    let data := copyIn r.capacity r.data r.writeIndex (Bytes.uint32 msg.length)
    some { r with
      data := copyIn r.capacity data ((r.writeIndex + 4) % r.capacity) msg
      writeIndex := (r.writeIndex + needed) % r.capacity
      count := r.count + 1 }

/-- `none` when there is no message and `read` returns `null`. -/
def read (r : Ring) : Option (Bytes × Ring) :=
  if r.count = 0 then none
  else
    let len := Bytes.ofUint32 (r.data (r.readIndex % r.capacity))
      (r.data ((r.readIndex + 1) % r.capacity)) (r.data ((r.readIndex + 2) % r.capacity))
      (r.data ((r.readIndex + 3) % r.capacity))
    let msgStart := (r.readIndex + 4) % r.capacity
    some (copyOut r.capacity r.data msgStart len,
      { r with readIndex := (r.readIndex + 4 + len) % r.capacity, count := r.count - 1 })

/-! ## The queue in the ring -/

/-- A message with its length in front. -/
def packed (msg : Bytes) : Bytes := Bytes.uint32 msg.length ++ msg

/-- The bytes that unread messages take. -/
def stream (msgs : List Bytes) : Bytes := msgs.flatMap packed

/-- The ring holds the unread messages, the oldest first. -/
structure Holds (r : Ring) (msgs : List Bytes) : Prop where
  read_lt : r.readIndex < r.capacity
  room : (stream msgs).length < r.capacity
  small : r.capacity < 2 ^ 31
  write_eq : r.writeIndex = (r.readIndex + (stream msgs).length) % r.capacity
  bytes : ∀ i (h : i < (stream msgs).length), r.data ((r.readIndex + i) % r.capacity) = (stream msgs)[i]
  count_eq : r.count = msgs.length

variable {r : Ring} {msgs : List Bytes} {msg : Bytes}

theorem length_packed (msg : Bytes) : (packed msg).length = 4 + msg.length := by
  rw [packed, List.length_append, Bytes.length_uint32]

theorem stream_concat (msgs : List Bytes) (msg : Bytes) :
    stream (msgs ++ [msg]) = stream msgs ++ packed msg := by
  simp [stream]

theorem stream_cons (msg : Bytes) (msgs : List Bytes) :
    stream (msg :: msgs) = packed msg ++ stream msgs := by
  simp [stream]

/-- A new ring holds no message, and has room for them. -/
theorem holds_create {size : ℕ} (hpos : 0 < size) (hsmall : size < 2 ^ 31) :
    (create size).Holds [] where
  read_lt := hpos
  room := hpos
  small := hsmall
  write_eq := (Nat.zero_mod size).symm
  bytes _ h := by cases h
  count_eq := rfl

/-- Copying two strings one after the other is copying them together. -/
theorem copyIn_append (capacity : ℕ) (data : ℕ → UInt8) (pos : ℕ) (as bs : Bytes) :
    copyIn capacity (copyIn capacity data pos as) (pos + as.length) bs =
      copyIn capacity data pos (as ++ bs) := by
  induction as generalizing data pos with
  | nil => rfl
  | cons a as ih =>
    rw [List.cons_append, copyIn, copyIn, ← ih, List.length_cons, add_assoc, add_comm 1]

/-- Only the place in the ring counts. -/
theorem copyIn_congr {capacity pos pos' : ℕ} (h : pos % capacity = pos' % capacity)
    (data : ℕ → UInt8) (bs : Bytes) :
    copyIn capacity data pos bs = copyIn capacity data pos' bs := by
  induction bs generalizing data pos pos' with
  | nil => rfl
  | cons b bs ih => rw [copyIn, copyIn, h, ih (Nat.ModEq.add_right 1 h)]

/-- Two places less than a turn apart are different. -/
theorem mod_ne {capacity a b : ℕ} (hlt : a < b) (hturn : b < a + capacity) :
    a % capacity ≠ b % capacity := by
  intro h
  have hdvd : capacity ∣ b - a := (Nat.modEq_iff_dvd' hlt.le).mp h
  have hle := Nat.le_of_dvd (by omega) hdvd
  omega

/-- Places before the first one and less than a turn before the last are left alone. -/
theorem copyIn_of_before {capacity : ℕ} (data : ℕ → UInt8) {pos place : ℕ} {bs : Bytes}
    (hlt : place < pos) (hturn : pos + bs.length ≤ place + capacity) :
    copyIn capacity data pos bs (place % capacity) = data (place % capacity) := by
  induction bs generalizing data pos with
  | nil => rfl
  | cons b bs ih =>
    rw [List.length_cons] at hturn
    rw [copyIn, ih _ (by omega) (by omega), Function.update_of_ne (mod_ne hlt (by omega))]

/-- Copying in at most one turn: the bytes are found where they were put. -/
theorem copyIn_of_lt {capacity : ℕ} (data : ℕ → UInt8) (pos : ℕ) {bs : Bytes}
    (hroom : bs.length ≤ capacity) {i : ℕ} (hi : i < bs.length) :
    copyIn capacity data pos bs ((pos + i) % capacity) = bs[i] := by
  induction bs generalizing data pos i with
  | nil => cases hi
  | cons b bs ih =>
    rw [List.length_cons] at hroom hi
    cases i with
    | zero => rw [copyIn, add_zero, copyIn_of_before _ (by omega) (by omega), Function.update_self]; rfl
    | succ i =>
      rw [copyIn, show pos + (i + 1) = pos + 1 + i by omega, ih _ _ (by omega) (by omega)]
      rfl

/-! ## What the two calls do -/

/-- The room that `write` computes as used is the length of the stream. -/
theorem Holds.used_eq (h : r.Holds msgs) : r.used = (stream msgs).length := by
  unfold used
  have hread := h.read_lt
  have hroom := h.room
  have hwrite := h.write_eq
  by_cases hwrap : r.readIndex + (stream msgs).length < r.capacity
  · rw [Nat.mod_eq_of_lt hwrap] at hwrite
    rw [if_pos (by omega)]
    omega
  · -- the stream runs over the end, so the write index is behind the read index
    rw [Nat.mod_eq_sub_mod (by omega), Nat.mod_eq_of_lt (by omega)] at hwrite
    rw [if_neg (by omega)]
    omega

/-- `write` returns `false` exactly when the unread messages and the new one would fill the ring. -/
theorem Holds.write_eq_none (h : r.Holds msgs) :
    r.write msg = none ↔ r.capacity ≤ (stream msgs).length + (packed msg).length := by
  rw [length_packed, write, ← h.used_eq]
  simp only [ite_eq_left_iff, reduceCtorEq, imp_false, not_not]

/-- A successful `write` appends the message to the queue. -/
theorem Holds.write (h : r.Holds msgs) {r' : Ring} (hw : r.write msg = some r') :
    r'.Holds (msgs ++ [msg]) := by
  have hfits : ¬ r.capacity ≤ (stream msgs).length + (packed msg).length := fun hfull => by
    rw [h.write_eq_none.mpr hfull] at hw
    cases hw
  rw [← h.used_eq, length_packed] at hfits
  simp only [Ring.write, if_neg hfits, Option.some.injEq] at hw
  subst hw
  rw [h.used_eq, ← length_packed] at hfits
  -- the two loops copy the packed message to the end of the stream
  have hdata : copyIn r.capacity
        (copyIn r.capacity r.data r.writeIndex (Bytes.uint32 msg.length))
        ((r.writeIndex + 4) % r.capacity) msg =
      copyIn r.capacity r.data (r.readIndex + (stream msgs).length) (packed msg) := by
    rw [copyIn_congr (Nat.mod_mod _ _), ← Bytes.length_uint32 msg.length, copyIn_append, ← packed]
    exact copyIn_congr (by rw [h.write_eq, Nat.mod_mod]) _ _
  have hlen : (stream (msgs ++ [msg])).length = (stream msgs).length + (packed msg).length := by
    rw [stream_concat, List.length_append]
  refine ⟨h.read_lt, ?_, h.small, ?_, fun i hi => ?_, ?_⟩
  · dsimp only
    omega
  · dsimp only
    rw [hlen, h.write_eq, Nat.mod_add_mod, length_packed, add_assoc]
  · rw [hlen] at hi
    simp only [hdata, stream_concat]
    by_cases hold : i < (stream msgs).length
    · -- there is room, so the bytes of unread messages are not overwritten
      rw [copyIn_of_before _ (by omega) (by omega), h.bytes i hold, List.getElem_append_left hold]
    · have hplace : r.readIndex + i =
          r.readIndex + (stream msgs).length + (i - (stream msgs).length) := by omega
      rw [hplace, copyIn_of_lt _ _ (by omega) (by omega), List.getElem_append_right (by omega)]
  · dsimp only
    rw [h.count_eq, List.length_append, List.length_singleton]

theorem capacity_write {r' : Ring} (hw : r.write msg = some r') : r'.capacity = r.capacity := by
  simp only [Ring.write, Option.ite_none_left_eq_some, Option.some.injEq] at hw
  obtain ⟨-, rfl⟩ := hw
  rfl

/-- With no unread message `read` returns `null`. -/
theorem Holds.read_nil (h : r.Holds []) : r.read = none := by
  rw [read, if_pos (by rw [h.count_eq]; rfl)]

/-- `read` returns the first unread message, byte for byte, and frees its room. -/
theorem Holds.read_cons (h : r.Holds (msg :: msgs)) :
    ∃ r', r.read = some (msg, r') ∧ r'.Holds msgs ∧ r'.capacity = r.capacity := by
  have hroom := h.room
  have hsmall := h.small
  have hread := h.read_lt
  have hlen : (stream (msg :: msgs)).length = 4 + msg.length + (stream msgs).length := by
    rw [stream_cons, List.length_append, length_packed]
  -- the bytes of the message come after the four of its length
  have hmsg : ∀ i (hi : i < msg.length),
      r.data ((r.readIndex + (4 + i)) % r.capacity) = msg[i] := by
    intro i hi
    rw [h.bytes (4 + i) (by omega)]
    simp only [stream_cons, packed, List.append_assoc]
    rw [List.getElem_append_right (by simp), List.getElem_append_left (by simpa using hi)]
    simp
  -- the other messages come after both
  have hrest : ∀ i (hi : i < (stream msgs).length),
      r.data ((r.readIndex + (4 + msg.length + i)) % r.capacity) = (stream msgs)[i] := by
    intro i hi
    rw [h.bytes (4 + msg.length + i) (by omega)]
    simp only [stream_cons]
    rw [List.getElem_append_right (by rw [length_packed]; omega)]
    simp [length_packed]
  have hlength : Bytes.ofUint32 (r.data (r.readIndex % r.capacity))
      (r.data ((r.readIndex + 1) % r.capacity)) (r.data ((r.readIndex + 2) % r.capacity))
      (r.data ((r.readIndex + 3) % r.capacity)) = msg.length := by
    -- the four bytes at the read index are the length
    have hget : ∀ i (hi : i < 4), r.data ((r.readIndex + i) % r.capacity) =
        (Bytes.uint32 msg.length)[i] := by
      intro i hi
      rw [h.bytes i (by omega)]
      simp only [stream_cons, packed, List.append_assoc]
      exact List.getElem_append_left (by simpa using hi)
    have hread0 := hget 0 (by omega)
    rw [add_zero] at hread0
    rw [hread0, hget 1 (by omega), hget 2 (by omega), hget 3 (by omega)]
    refine (Bytes.ofUint32_uint32 msg.length).trans (Nat.mod_eq_of_lt ?_)
    omega
  refine ⟨{ r with readIndex := (r.readIndex + 4 + msg.length) % r.capacity, count := r.count - 1 },
    ?_, ⟨?_, ?_, hsmall, ?_, fun i hi => ?_, ?_⟩, rfl⟩
  · -- what is read is the message
    rw [read, if_neg (by rw [h.count_eq]; simp)]
    simp only [hlength]
    refine congrArg some (Prod.ext ?_ rfl)
    refine List.ext_getElem (by simp [copyOut]) fun i hi hi' => ?_
    simp only [copyOut, List.getElem_map, List.getElem_range]
    rw [Nat.mod_add_mod, add_assoc, hmsg i hi']
  · exact Nat.mod_lt _ (by omega)
  · dsimp only
    omega
  · -- the write index is as far ahead as the others are long
    dsimp only
    rw [h.write_eq, hlen, Nat.mod_add_mod]
    congr 1
    omega
  · dsimp only
    rw [Nat.mod_add_mod, show r.readIndex + 4 + msg.length + i = r.readIndex + (4 + msg.length + i) by
      omega, hrest i hi]
  · dsimp only
    rw [h.count_eq, List.length_cons, Nat.add_sub_cancel]

end Ring

end Datasole
