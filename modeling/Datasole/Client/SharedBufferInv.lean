import Datasole.Client.SharedBufferSteps

/-!
# The ring's invariant under every access

Each access of the writer and of the reader keeps `RingRun.Inv`, so the invariant holds in every
interleaving. An access moves its own thread and leaves the other's position as it was.
-/

namespace Datasole

namespace RingRun

variable {s t : RingRun}

/-! ## What the writer's accesses do -/

/-- The writer moves, and copies bytes to places that hold nothing unread. -/
theorem Inv.moveWriter (h : s.Inv) {writer : Writer} {data : ℕ → UInt8} {lastWrite : Option Bool}
    (hstored : { s with writer, data, lastWrite }.stored = s.stored)
    (hdata : ∀ i, s.freed ≤ i → i < s.written →
      data (place i s.capacity) = s.data (place i s.capacity))
    (hwriter : { s with writer, data, lastWrite }.WriterInv) :
    { s with writer, data, lastWrite }.Inv where
  write_eq := by rw [written, hstored]; exact h.write_eq
  read_eq := h.read_eq
  small := h.small
  room := by rw [written, hstored]; exact h.room
  bytes i hle hlt := by
    rw [written, hstored] at hlt
    rw [hstored]
    exact (h.bytes i hle hlt).trans (congrArg some (hdata i hle hlt).symm)
  count_eq := h.count_eq
  taken_prefix := h.taken_prefix
  writer := hwriter
  reader := h.reader

/-- The next byte of the message being written goes to a place that holds nothing unread. -/
theorem Inv.copyByte (h : s.Inv) {msg : Bytes} {i : ℕ} {b : UInt8}
    (hpc : s.writer = .copy msg s.writeIndex s.capacity i) (hi : i < 4 + msg.length)
    (hb : (Ring.packed msg)[i]? = some b) :
    { s with
      data := Function.update s.data (place (s.writeIndex + i) s.capacity) b
      writer := .copy msg s.writeIndex s.capacity (i + 1) }.Inv := by
  obtain ⟨-, -, -, hroom, hcopied⟩ : _ ∧ _ ∧ _ ∧ _ ∧ _ := by
    simpa only [WriterInv, hpc] using h.writer
  have hplace : place (s.writeIndex + i) s.capacity = place (s.written + i) s.capacity := by
    rw [h.write_eq, place_place_add]
  have hstored : s.stored = s.accepted := by simp only [stored, hpc]
  have hfreed := h.freed_le
  refine h.moveWriter hstored.symm (fun j hle hlt => ?_) ⟨rfl, rfl, hi, ?_, fun j hj => ?_⟩
  · rw [hplace, Function.update_of_ne (place_ne (by omega) (by omega))]
  · rw [written, hstored] at hroom
    exact hroom
  · have hwritten : { s with
        data := Function.update s.data (place (s.writeIndex + i) s.capacity) b
        writer := .copy msg s.writeIndex s.capacity (i + 1) }.written = s.written := by
      simp only [written, stored, hpc]
    rw [hwritten, hplace]
    dsimp only
    rcases Nat.lt_succ_iff_lt_or_eq.mp hj with hlt | rfl
    · rw [Function.update_of_ne (place_ne (by omega) (by omega)), hcopied j hlt]
    · rw [Function.update_self, hb]

/-- The store of the write index publishes the whole message. -/
theorem Inv.storeWriteIndex (h : s.Inv) {msg : Bytes}
    (hpc : s.writer = .copy msg s.writeIndex s.capacity (4 + msg.length)) :
    { s with
      writeIndex := place (s.writeIndex + (4 + msg.length)) s.capacity
      writer := .addCount msg }.Inv := by
  obtain ⟨-, -, -, hroom, hcopied⟩ : _ ∧ _ ∧ _ ∧ _ ∧ _ := by
    simpa only [WriterInv, hpc] using h.writer
  have hstored : s.stored = s.accepted := by simp only [stored, hpc]
  have hwritten : { s with
      writeIndex := place (s.writeIndex + (4 + msg.length)) s.capacity
      writer := .addCount msg }.written = s.written + (4 + msg.length) := by
    rw [written, written, hstored]
    exact length_stream_concat s.accepted msg
  refine ⟨?_, h.read_eq, h.small, ?_, fun i hle hlt => ?_, h.count_eq, h.taken_prefix, trivial,
    h.reader⟩
  · rw [hwritten, h.write_eq]
    exact place_place_add _ _ _
  · rw [hwritten]
    exact Or.inr (by push_cast; exact hroom)
  · rw [hwritten] at hlt
    have hstream : Ring.stream (s.accepted ++ [msg]) = Ring.stream s.stored ++ Ring.packed msg := by
      rw [hstored, Ring.stream_concat]
    refine (congrArg (·[i]?) hstream).trans ?_
    by_cases hold : i < s.written
    · exact (List.getElem?_append_left hold).trans (h.bytes i hle hold)
    · obtain ⟨j, rfl⟩ : ∃ j, i = s.written + j := ⟨i - s.written, by omega⟩
      refine (List.getElem?_append_right (Nat.le_add_right _ _)).trans ?_
      rw [written, Nat.add_sub_cancel_left]
      exact hcopied j (by omega)

/-- Unread messages are no more than unread bytes. -/
theorem length_add_le_of_prefix {as bs : List Bytes} (h : as <+: bs) :
    (Ring.stream as).length + bs.length ≤ (Ring.stream bs).length + as.length := by
  obtain ⟨cs, rfl⟩ := h
  induction cs using List.reverseRecOn with
  | nil => simp
  | append_singleton cs c ih =>
    rw [← List.append_assoc, length_stream_concat, List.length_append, List.length_singleton]
    omega

/-- The writer's part of the count fits in 32 bits. -/
theorem Inv.length_stored_lt (h : s.Inv) :
    (s.stored.length : ℤ) - s.returned.length < 2 ^ 31 ∧ s.returned.length ≤ s.accepted.length := by
  have hsmall := h.small
  have hroom := h.room
  have htaken : s.returned.length ≤ s.taken.length ∧ s.taken.length ≤ s.returned.length + 1 := by
    rw [taken]
    split <;> simp
  have hle := length_add_le_of_prefix (h.taken_prefix.trans s.accepted_prefix)
  have hacc := h.taken_prefix.length_le
  rw [written, freed] at hroom
  omega

/-- The addition to the count is where `write` returns `true`. -/
theorem Inv.addCount (h : s.Inv) {msg : Bytes}
    (hpc : s.writer = .addCount msg) : { s with
      count := toInt32 (s.count + 1)
      writer := .idle
      accepted := s.accepted ++ [msg]
      lastWrite := some true }.Inv := by
  have hgrow : s.accepted <+: s.accepted ++ [msg] := List.prefix_append _ _
  have hstored : s.accepted ++ [msg] = s.stored := by simp only [stored, hpc]
  have hwritten : (Ring.stream (s.accepted ++ [msg])).length = s.written := by rw [hstored]; rfl
  obtain ⟨hsmall, hle⟩ := h.length_stored_lt
  rw [← hstored, List.length_append, List.length_singleton] at hsmall
  refine ⟨?_, h.read_eq, h.small, ?_, fun i hle hlt => ?_, ?_, h.taken_prefix.trans hgrow, trivial,
    h.reader.grow hgrow⟩
  · exact h.write_eq.trans (congrArg (place · _) hwritten.symm)
  · exact h.room.imp hwritten.trans (congrArg (Nat.cast (R := ℤ)) hwritten).trans_lt
  · exact (congrArg (fun msgs => (Ring.stream msgs)[i]?) hstored).trans
      (h.bytes i hle (hlt.trans_eq hwritten))
  · rw [h.count_eq]
    dsimp only
    rw [List.length_append, List.length_singleton, toInt32_of_lt (by omega) (by omega)]
    omega

/-- The writer does its next access. Only the last one, which adds to the count, shows the reader a
new message. -/
theorem Inv.writerStep (h : s.Inv) (hs : s.writerStep = some t) : t.Inv := by
  have hfreed := h.freed_le
  cases hpc : s.writer with
  | idle => simp only [RingRun.writerStep, hpc, reduceCtorEq] at hs
  | loadReadIndex msg writeIdx =>
    have hw : writeIdx = s.writeIndex := by simpa only [WriterInv, hpc] using h.writer
    have hstored : s.accepted = s.stored := by simp only [stored, hpc]
    simp only [RingRun.writerStep, hpc, Option.some.injEq] at hs
    subst hs
    -- the read index that is loaded is one that the reader has reached, and it only goes on
    refine h.moveWriter hstored (fun _ _ _ => rfl)
      ⟨hw, s.freed, le_rfl, h.read_eq, ?_⟩
    exact h.room.imp (congrArg (fun msgs => (Ring.stream msgs).length) hstored).trans
      (congrArg (fun msgs => ((Ring.stream msgs).length : ℤ)) hstored).trans_lt
  | loadCapacity msg writeIdx readIdx =>
    obtain ⟨rfl, p, hp, rfl, hroom⟩ : _ ∧ ∃ p, _ ∧ _ ∧ _ := by
      simpa only [WriterInv, hpc] using h.writer
    have hstored : s.accepted = s.stored := by simp only [stored, hpc]
    have hlen : (Ring.stream s.accepted).length = s.written := by rw [hstored]; rfl
    rw [RingRun.writerStep, hpc] at hs
    dsimp only at hs
    split at hs
    · -- there is no room, and the message is refused
      obtain rfl := Option.some.inj hs
      exact h.moveWriter hstored (fun _ _ _ => rfl) trivial
    · -- the room that is seen is at most the room that is there
      rename_i hfits
      obtain rfl := Option.some.inj hs
      rw [h.write_eq, usedBytes_eq (hp.trans hfreed) hroom] at hfits
      refine h.moveWriter hstored (fun _ _ _ => rfl) ⟨rfl, rfl, Nat.zero_le _, ?_, ?_⟩
      · show ((Ring.stream s.accepted).length : ℤ) + _ < s.freed + s.capacity
        omega
      · exact fun j hj => absurd hj (Nat.not_lt_zero j)
  | copy msg writeIdx capacity i =>
    obtain ⟨rfl, rfl, hi, -⟩ : _ ∧ _ ∧ _ ∧ _ := by
      simpa only [WriterInv, hpc] using h.writer
    simp only [RingRun.writerStep, hpc] at hs
    split at hs
    · -- first the length, byte by byte, and then the message
      obtain rfl := Option.some.inj hs
      exact h.copyByte hpc (by omega) (getElem?_packed_of_lt ‹_›)
    · split at hs
      · obtain rfl := Option.some.inj hs
        have hplace : place (place (s.writeIndex + 4) s.capacity + (i - 4)) s.capacity =
            place (s.writeIndex + i) s.capacity := by
          rw [place_place_add, add_assoc, Nat.add_sub_cancel' (by omega)]
        rw [hplace]
        exact h.copyByte hpc ‹_› (getElem?_packed_of_le (by omega) ‹_›)
      · obtain rfl : i = 4 + msg.length := by omega
        obtain rfl := Option.some.inj hs
        -- all bytes are copied, so the index may be stored
        exact h.storeWriteIndex hpc
  | addCount msg =>
    simp only [RingRun.writerStep, hpc, Option.some.injEq] at hs
    subst hs
    exact h.addCount hpc

/-! ## What the reader's accesses do -/

/-- The writer does not mind that more room is given back. -/
theorem WriterInv.grow (h : s.WriterInv) {readIndex : ℕ} {count : ℤ} {reader : Reader}
    {returned : List Bytes} {lastRead : Option (Option Bytes)}
    (hgrow : s.freed ≤ { s with readIndex, count, reader, returned, lastRead }.freed) :
    { s with readIndex, count, reader, returned, lastRead }.WriterInv := by
  unfold WriterInv at h ⊢
  dsimp only at h ⊢
  split at h
  · trivial
  · trivial
  · exact h
  · obtain ⟨hw, p, hp, hrest⟩ := h
    exact ⟨hw, p, hp.trans hgrow, hrest⟩
  · obtain ⟨hw, hc, hi, hroom, hcopied⟩ := h
    refine ⟨hw, hc, hi, ?_, hcopied⟩
    show (s.written : ℤ) + _ < _ + s.capacity
    omega

/-- The reader moves and gives nothing back. -/
theorem Inv.moveReader (h : s.Inv) {reader : Reader} {lastRead : Option (Option Bytes)}
    (htaken : { s with reader, lastRead }.taken = s.taken)
    (hreader : { s with reader, lastRead }.ReaderInv) :
    { s with reader, lastRead }.Inv := by
  have hfreed : { s with reader, lastRead }.freed = s.freed := by rw [freed, htaken, freed]
  refine ⟨h.write_eq, ?_, h.small, ?_, fun i hle => ?_, h.count_eq, ?_, ?_, hreader⟩
  · rw [hfreed]; exact h.read_eq
  · rw [hfreed]; exact h.room
  · rw [hfreed] at hle; exact h.bytes i hle
  · rw [htaken]; exact h.taken_prefix
  · exact h.writer.grow hfreed.ge

/-- The byte of the next message that the reader finds at its place. -/
theorem Inv.byte_eq (h : s.Inv) {msg : Bytes} (hnext : s.Next msg) (htaken : s.taken = s.returned)
    {i : ℕ} (hi : i < 4 + msg.length) :
    (Ring.packed msg)[i]? = some (s.data (place (s.readIndex + i) s.capacity)) := by
  have hlen := length_stream_le (hnext.trans s.accepted_prefix)
  rw [length_stream_concat, ← htaken] at hlen
  rw [← getElem?_stream (hnext.trans s.accepted_prefix) hi, h.read_eq, place_place_add, ← htaken]
  refine h.bytes _ (Nat.le_add_right _ _) ?_
  show (Ring.stream s.taken).length + i < (Ring.stream s.stored).length
  omega

/-- A message that is to be read fits into the ring. -/
theorem Inv.length_next_lt (h : s.Inv) {msg : Bytes} (hnext : s.Next msg)
    (htaken : s.taken = s.returned) : (msg.length : ℤ) < s.capacity := by
  have hlen := length_stream_le (hnext.trans s.accepted_prefix)
  have hroom := h.room
  rw [length_stream_concat, ← htaken] at hlen
  rw [written, freed] at hroom
  omega

/-- The store of the read index gives the room of the message back. -/
theorem Inv.storeReadIndex (h : s.Inv) {msg : Bytes} (hnext : s.Next msg)
    (htaken : s.taken = s.returned) :
    { s with
      readIndex := place (s.readIndex + 4 + msg.length) s.capacity
      reader := .subCount msg }.Inv := by
  have hfreed : { s with
      readIndex := place (s.readIndex + 4 + msg.length) s.capacity
      reader := .subCount msg }.freed = s.freed + (4 + msg.length) := by
    rw [freed, freed, htaken]
    exact length_stream_concat s.returned msg
  have hlen := length_stream_le (hnext.trans s.accepted_prefix)
  rw [length_stream_concat, ← htaken] at hlen
  have hroom := h.room
  refine ⟨h.write_eq, ?_, h.small, ?_, fun i hle => ?_, h.count_eq, hnext, ?_, trivial⟩
  · rw [hfreed, h.read_eq]
    dsimp only
    rw [add_assoc, place_place_add]
  · rw [hfreed]
    refine Or.inr ?_
    rw [written, freed] at hroom
    show ((Ring.stream s.stored).length : ℤ) < ((Ring.stream s.taken).length + (4 + msg.length) : ℕ) +
      s.capacity
    omega
  · rw [hfreed] at hle
    exact h.bytes i (by omega)
  · exact h.writer.grow (by rw [hfreed]; exact Nat.le_add_right _ _)

/-- The subtraction from the count is where `read` returns the message. -/
theorem Inv.subCount (h : s.Inv) {msg : Bytes}
    (hpc : s.reader = .subCount msg) : { s with
      count := toInt32 (s.count - 1)
      reader := .idle
      returned := s.returned ++ [msg]
      lastRead := some (some msg) }.Inv := by
  have htaken : s.returned ++ [msg] = s.taken := by simp only [taken, hpc]
  have hfreed : (Ring.stream (s.returned ++ [msg])).length = s.freed := by rw [htaken]; rfl
  have hle := h.taken_prefix.length_le
  have hacc := s.accepted_prefix.length_le
  have hsmall := h.length_stored_lt
  rw [← htaken, List.length_append, List.length_singleton] at hle
  refine ⟨h.write_eq, ?_, h.small, ?_, fun i hle => ?_, ?_, ?_, ?_, trivial⟩
  · exact h.read_eq.trans (congrArg (place · _) hfreed.symm)
  · refine h.room.imp (·.trans hfreed.symm) fun hlt => hlt.trans_eq ?_
    exact congrArg (fun n : ℕ => (n : ℤ) + s.capacity) hfreed.symm
  · exact h.bytes i (hfreed.symm.trans_le hle)
  · rw [h.count_eq]
    dsimp only
    rw [List.length_append, List.length_singleton, toInt32_of_lt (by omega) (by omega)]
    omega
  · show s.returned ++ [msg] <+: s.accepted
    exact htaken ▸ h.taken_prefix
  · exact h.writer.grow hfreed.ge

/-- A list that begins another one goes on with the other's next item. -/
theorem concat_prefix {as bs : Bytes} {b : UInt8} (h : as <+: bs) (hb : bs[as.length]? = some b) :
    as ++ [b] <+: bs := by
  obtain ⟨hlt, rfl⟩ := List.getElem?_eq_some_iff.mp hb
  exact List.concat_get_prefix h hlt

/-- The reader does its next access. What it has taken so far is a beginning of the message it will
return. -/
theorem Inv.readerStep (h : s.Inv) (hs : s.readerStep = some t) : t.Inv := by
  cases hpc : s.reader with
  | idle => simp only [RingRun.readerStep, hpc, reduceCtorEq] at hs
  | loadReadIndex =>
    have hnext : ∃ msg, s.Next msg := by simpa only [ReaderInv, hpc] using h.reader
    simp only [RingRun.readerStep, hpc, Option.some.injEq] at hs
    subst hs
    exact h.moveReader (by simp only [taken, hpc]) ⟨rfl, hnext⟩
  | loadCapacity readIdx =>
    obtain ⟨rfl, msg, hnext⟩ : _ ∧ ∃ msg, _ := by simpa only [ReaderInv, hpc] using h.reader
    simp only [RingRun.readerStep, hpc, Option.some.injEq] at hs
    subst hs
    exact h.moveReader (by simp only [taken, hpc])
      ⟨rfl, rfl, by decide, msg, hnext, List.nil_prefix⟩
  | length readIdx capacity bytes =>
    obtain ⟨rfl, rfl, hlt, msg, hnext, hpre⟩ : _ ∧ _ ∧ _ ∧ ∃ msg, _ ∧ _ := by
      simpa only [ReaderInv, hpc] using h.reader
    have htaken : s.taken = s.returned := by simp only [taken, hpc]
    have hbyte := h.byte_eq hnext htaken (Nat.lt_add_right _ hlt)
    -- below four the byte is one of the length
    rw [Ring.packed, List.getElem?_append_left (by simpa using hlt)] at hbyte
    have hpre' := concat_prefix hpre hbyte
    simp only [RingRun.readerStep, hpc, Option.some.injEq] at hs
    subst hs
    split
    · rename_i hlt'
      -- the prefix of the length has one more byte
      exact h.moveReader htaken.symm ⟨rfl, rfl, hlt', msg, hnext, hpre'⟩
    · -- all four bytes are there, and they are those of the length
      rename_i hfour
      have hall := hpre'.eq_of_length_le (by simpa using hfour)
      have hsmall := h.length_next_lt hnext htaken
      have hcap := h.small
      refine h.moveReader htaken.symm ⟨rfl, rfl, msg, hnext, ?_, List.nil_prefix⟩
      rw [hall]
      exact (Bytes.ofUint32_uint32 msg.length).trans (Nat.mod_eq_of_lt (by omega))
  | body readIdx capacity len part =>
    obtain ⟨rfl, rfl, msg, hnext, rfl, hpre⟩ : _ ∧ _ ∧ ∃ msg, _ ∧ _ ∧ _ := by
      simpa only [ReaderInv, hpc] using h.reader
    have htaken : s.taken = s.returned := by simp only [taken, hpc]
    rw [RingRun.readerStep, hpc] at hs
    dsimp only at hs
    split at hs
    · rename_i hlt
      obtain rfl := Option.some.inj hs
      have hbyte := h.byte_eq hnext htaken (Nat.add_lt_add_left hlt 4)
      -- from four on it is one of the message
      rw [Ring.packed, List.getElem?_append_right (by simp), Bytes.length_uint32,
        Nat.add_sub_cancel_left] at hbyte
      refine h.moveReader htaken.symm ⟨rfl, rfl, msg, hnext, rfl, concat_prefix hpre ?_⟩
      rw [hbyte, place_place_add, add_assoc]
    · rename_i hall
      obtain rfl := Option.some.inj hs
      -- the message is complete, and its place is given back
      obtain rfl := hpre.eq_of_length_le (not_lt.mp hall)
      exact h.storeReadIndex hnext htaken
  | subCount msg =>
    simp only [RingRun.readerStep, hpc, Option.some.injEq] at hs
    subst hs
    exact h.subCount hpc

/-! ## Every run -/

/-- With fewer messages returned than accepted there is a next one. -/
theorem exists_next (hpre : s.returned <+: s.accepted)
    (hlt : s.returned.length < s.accepted.length) : ∃ msg, s.Next msg := by
  obtain ⟨rest, hrest⟩ := hpre
  cases rest with
  | nil => rw [← hrest, List.append_nil] at hlt; omega
  | cons msg rest => exact ⟨msg, rest, by rw [← hrest]; simp⟩

/-- Every access of either thread keeps the invariant. -/
theorem Inv.step (h : s.Inv) {a : Act} (hs : s.step a = some t) : t.Inv := by
  cases a with
  | writer => exact h.writerStep hs
  | reader => exact h.readerStep hs
  | write msg =>
    simp only [RingRun.step, Option.ite_none_right_eq_some, Option.some.injEq] at hs
    obtain ⟨hidle, rfl⟩ := hs
    exact h.moveWriter (by simp only [stored, hidle]) (fun _ _ _ => rfl) rfl
  | read =>
    simp only [RingRun.step, Option.ite_none_right_eq_some] at hs
    obtain ⟨hidle, hs⟩ := hs
    have htaken : s.taken = s.returned := taken_of_idle hidle
    split at hs
    · obtain rfl := Option.some.inj hs
      exact h.moveReader rfl h.reader
    · obtain rfl := Option.some.inj hs
      have hcount := h.count_eq
      exact h.moveReader htaken.symm (exists_next (s := s) (htaken ▸ h.taken_prefix) (by omega))

/-- The invariant holds of every run, however the accesses of the two threads interleave. -/
theorem inv_exec {size : ℕ} {acts : List Act}
    (hrun : Machine.exec step (create size) acts = some s) :
    s.Inv :=
  Machine.exec_invariant (fun _ _ _ hI hs => Inv.step hI hs) (inv_create size) hrun

end RingRun

end Datasole
