import Datasole.Client.SharedBufferInv

/-!
# Calls on the ring

Between calls the memory is the ring of `Ring.Holds`, with the messages that are accepted and not
returned. A call that runs alone comes to its end, since each access brings it nearer, and what it
returns is what the invariant says there.
-/

namespace Datasole

namespace RingRun

variable {s t : RingRun}

/-! ## What an access leaves alone -/

/-- The writer leaves the reader and its side of the header alone. -/
theorem frame_writerStep (hs : s.writerStep = some t) :
    t.reader = s.reader ∧ t.readIndex = s.readIndex ∧ t.returned = s.returned ∧
      t.capacity = s.capacity := by
  rw [writerStep] at hs
  split at hs
  · cases hs
  · cases hs; exact ⟨rfl, rfl, rfl, rfl⟩
  · split at hs <;> cases hs <;> exact ⟨rfl, rfl, rfl, rfl⟩
  · split at hs
    · cases hs; exact ⟨rfl, rfl, rfl, rfl⟩
    · split at hs <;> cases hs <;> exact ⟨rfl, rfl, rfl, rfl⟩
  · cases hs; exact ⟨rfl, rfl, rfl, rfl⟩

/-- The reader leaves the writer alone, and a call of `read` ends with a message. -/
theorem frame_readerStep (hs : s.readerStep = some t) :
    t.writer = s.writer ∧ t.accepted = s.accepted ∧ t.capacity = s.capacity ∧
      (t.reader = .idle → ∃ msg, t.lastRead = some (some msg)) := by
  rw [readerStep] at hs
  split at hs
  · cases hs
  · cases hs; exact ⟨rfl, rfl, rfl, fun hidle => by cases hidle⟩
  · cases hs; exact ⟨rfl, rfl, rfl, fun hidle => by cases hidle⟩
  · cases hs
    refine ⟨rfl, rfl, rfl, fun hidle => ?_⟩
    dsimp only at hidle
    split at hidle <;> cases hidle
  · split at hs <;> cases hs <;> exact ⟨rfl, rfl, rfl, fun hidle => by cases hidle⟩
  · cases hs; exact ⟨rfl, rfl, rfl, fun _ => ⟨_, rfl⟩⟩

/-- No access changes the capacity. -/
theorem capacity_step {a : Act} (hs : s.step a = some t) : t.capacity = s.capacity := by
  cases a with
  | writer => exact (frame_writerStep hs).2.2.2
  | reader => exact (frame_readerStep hs).2.2.1
  | write msg =>
    simp only [step, Option.ite_none_right_eq_some, Option.some.injEq] at hs
    exact hs.2 ▸ rfl
  | read =>
    simp only [step, Option.ite_none_right_eq_some] at hs
    obtain ⟨-, hs⟩ := hs
    split at hs <;> cases hs <;> rfl

/-! ## The ring between calls -/

/-- The memory as the ring whose calls are single steps. -/
def ring (s : RingRun) : Ring where
  readIndex := s.readIndex
  writeIndex := s.writeIndex
  capacity := s.capacity.toNat
  count := s.count.toNat
  data := s.data

/-- Between calls the ring holds the messages that are accepted and not returned. -/
theorem Inv.holds (h : s.Inv) (hq : s.Quiescent) (hpos : 0 < s.capacity) :
    s.ring.Holds (s.accepted.drop s.returned.length) := by
  have htaken : s.taken = s.returned := taken_of_idle hq.2
  have hstored : s.stored = s.accepted := by simp only [stored, hq.1]
  have hplace : ∀ n, place n s.capacity = n % s.capacity.toNat := fun n => by
    rw [place, show s.capacity.natAbs = s.capacity.toNat by omega]
  obtain ⟨rest, hrest⟩ : s.returned <+: s.accepted := htaken ▸ h.taken_prefix
  have hstream : Ring.stream s.stored = Ring.stream s.taken ++ Ring.stream rest := by
    rw [hstored, htaken, ← hrest, Ring.stream, List.flatMap_append]
    rfl
  have hwritten : s.written = s.freed + (Ring.stream rest).length := by
    rw [written, hstream, List.length_append, freed]
  have hroom := h.room
  have hsmall := h.small
  have hread := h.read_eq
  have hcount := h.count_eq
  rw [hplace] at hread
  rw [← hrest, List.length_append] at hcount
  rw [← hrest, List.drop_left]
  refine ⟨?_, ?_, ?_, ?_, fun i hi => ?_, ?_⟩
  · show s.readIndex < s.capacity.toNat
    rw [hread]
    exact Nat.mod_lt _ (by omega)
  · show (Ring.stream rest).length < s.capacity.toNat
    omega
  · show s.capacity.toNat < 2 ^ 31
    omega
  · show s.writeIndex = (s.readIndex + (Ring.stream rest).length) % s.capacity.toNat
    rw [h.write_eq, hplace, hwritten, hread, Nat.mod_add_mod]
  · show s.data ((s.readIndex + i) % s.capacity.toNat) = (Ring.stream rest)[i]
    have hbyte := h.bytes (s.freed + i) (Nat.le_add_right _ _) (by omega)
    rw [hplace, hstream, freed, List.getElem?_append_right (Nat.le_add_right _ _),
      Nat.add_sub_cancel_left, List.getElem?_eq_getElem hi, Option.some.injEq] at hbyte
    rw [hread, Nat.mod_add_mod]
    exact hbyte.symm
  · show s.count.toNat = rest.length
    omega

/-! ## A call that runs alone -/

/-- The accesses that a call of `write` has still to make, at most. -/
def writerLeft : Writer → ℕ
  | .idle => 0
  | .addCount _ => 1
  | .copy msg _ _ i => 2 + (4 + msg.length - i)
  | .loadCapacity msg _ _ => 7 + msg.length
  | .loadReadIndex msg _ => 8 + msg.length

/-- The accesses that a call of `read` has still to make, at most. -/
def readerLeft (capacity : ℤ) : Reader → ℕ
  | .idle => 0
  | .subCount _ => 1
  | .body _ _ len part => 2 + (len - part.length)
  | .length _ _ bytes => 2 + capacity.toNat + (4 - bytes.length)
  | .loadCapacity _ => 7 + capacity.toNat
  | .loadReadIndex => 8 + capacity.toNat

theorem writerLeft_eq_zero {writer : Writer} : writerLeft writer = 0 ↔ writer = .idle := by
  cases writer <;> simp [writerLeft]

theorem readerLeft_eq_zero {capacity : ℤ} {reader : Reader} :
    readerLeft capacity reader = 0 ↔ reader = .idle := by
  cases reader <;> simp [readerLeft]

/-- The reader is never stuck in a call, and each access brings the end nearer. -/
theorem Inv.exists_readerStep (h : s.Inv) (hbusy : s.reader ≠ .idle) :
    ∃ t, s.readerStep = some t ∧
      readerLeft t.capacity t.reader < readerLeft s.capacity s.reader := by
  cases hpc : s.reader with
  | idle => exact absurd hpc hbusy
  | loadReadIndex => simp [RingRun.readerStep, readerLeft, hpc]
  | loadCapacity readIdx =>
    simp [RingRun.readerStep, readerLeft, hpc]
    omega
  | length readIdx capacity bytes =>
    obtain ⟨t, ht⟩ : ∃ t, s.readerStep = some t := by simp [RingRun.readerStep, hpc]
    have hI := h.readerStep ht
    have hreader := hI.reader
    refine ⟨t, ht, ?_⟩
    obtain ⟨-, -, hlt, -⟩ : _ ∧ _ ∧ _ ∧ _ := by simpa only [ReaderInv, hpc] using h.reader
    simp only [RingRun.readerStep, hpc, Option.some.injEq] at ht
    subst ht
    dsimp only
    split
    · simp only [readerLeft, List.length_append, List.length_singleton]
      omega
    · rename_i hfour
      simp only [ReaderInv, if_neg hfour] at hreader
      obtain ⟨-, -, msg, hnext, hmsg, -⟩ := hreader
      have hsmall := hI.length_next_lt hnext (by simp only [taken, if_neg hfour])
      rw [hmsg]
      simp only [readerLeft, List.length_nil]
      dsimp only at hsmall
      omega
  | body readIdx capacity len part =>
    by_cases hlt : part.length < len
    · simp [RingRun.readerStep, readerLeft, hpc, hlt]
      omega
    · simp [RingRun.readerStep, readerLeft, hpc, hlt]
      omega
  | subCount msg => simp [RingRun.readerStep, readerLeft, hpc]

/-- The ring of a run has the capacity that it was made with. -/
theorem capacity_exec {size : ℕ} {acts : List Act}
    (hrun : Machine.exec step (create size) acts = some s) : s.capacity = toInt32 size :=
  Machine.exec_invariant (I := fun s => s.capacity = toInt32 size)
    (fun _ _ _ hcap hs => (capacity_step hs).trans hcap) rfl hrun

/-- In a call of `read` with a message to return, or at its end; no call of `write` is in
progress. -/
structure ReadAlone (s : RingRun) : Prop where
  inv : s.Inv
  writer : s.writer = .idle
  result : s.reader = .idle → ∃ msg, s.lastRead = some (some msg)

/-- A call of `read` that is left alone comes to its end. -/
theorem ReadAlone.finishes (h : s.ReadAlone) :
    ∃ n t, Machine.exec step s (List.replicate n .reader) = some t ∧ t.ReadAlone ∧
      readerLeft t.capacity t.reader = 0 := by
  refine Machine.exists_exec_replicate (fun t => readerLeft t.capacity t.reader) ?_ h
  intro t ht hbusy
  obtain ⟨u, hu, hless⟩ := ht.inv.exists_readerStep (mt readerLeft_eq_zero.mpr hbusy)
  obtain ⟨hwriter, -, -, hresult⟩ := frame_readerStep hu
  exact ⟨u, hu, ⟨ht.inv.readerStep hu, hwriter.trans ht.writer, hresult⟩, hless⟩

/-- A call of `read` that runs alone returns `null` exactly when every accepted message is
returned. -/
theorem Inv.read_alone (h : s.Inv) (hq : s.Quiescent) :
    ∃ n t, Machine.exec RingRun.step s (.read :: List.replicate n .reader) = some t ∧ t.Quiescent ∧
      (t.lastRead = some none ↔ s.returned = s.accepted) := by
  have htaken : s.taken = s.returned := taken_of_idle hq.2
  have hpre : s.returned <+: s.accepted := htaken ▸ h.taken_prefix
  have hcount := h.count_eq
  by_cases hall : s.returned = s.accepted
  · refine ⟨0, { s with lastRead := some none }, ?_, hq, iff_of_true rfl hall⟩
    rw [hall, sub_self] at hcount
    rw [List.replicate_zero, Machine.exec_cons, RingRun.step, if_pos hq.2, if_pos hcount.le]
    rfl
  · have hlt : s.returned.length < s.accepted.length :=
      lt_of_le_of_ne hpre.length_le fun hlen => hall (hpre.eq_of_length hlen)
    have hfirst : RingRun.step s .read = some { s with reader := .loadReadIndex } := by
      rw [RingRun.step, if_pos hq.2, if_neg (by omega)]
    -- the rest of the call goes on by itself and ends with a message
    have hbegun : { s with reader := .loadReadIndex }.ReadAlone :=
      ⟨h.step hfirst, hq.1, fun hidle => by cases hidle⟩
    obtain ⟨n, t, hrun, halone, hleft⟩ := hbegun.finishes
    have hidle : t.reader = .idle := readerLeft_eq_zero.mp hleft
    obtain ⟨msg, hmsg⟩ := halone.result hidle
    refine ⟨n, t, Machine.exec_cons_eq_some.mpr ⟨_, hfirst, hrun⟩, ⟨halone.writer, hidle⟩, ?_⟩
    refine iff_of_false (fun hnone => ?_) hall
    rw [hmsg] at hnone
    cases hnone

/-- The bytes that the unread messages take in the ring. -/
def unread (s : RingRun) : ℕ := (Ring.stream (s.accepted.drop s.returned.length)).length

/-- The new message fits beside `held` bytes. -/
def Fits (held : ℕ) (msg : Bytes) (capacity : ℤ) : Prop := (held : ℤ) + (4 + msg.length) < capacity

/-- In a call of `write msg` begun with `held` unread bytes, or at its end; no call of `read` is in
progress. -/
structure WriteAlone (held : ℕ) (msg : Bytes) (s : RingRun) : Prop where
  inv : s.Inv
  reader : s.reader = .idle
  pc : match s.writer with
    | .idle => (s.lastWrite = some true ↔ Fits held msg s.capacity)
    | .loadReadIndex m _ => m = msg ∧ s.written = s.freed + held
    | .loadCapacity m _ readIdx => m = msg ∧ s.written = s.freed + held ∧ readIdx = s.readIndex
    | .copy m _ _ _ => m = msg ∧ Fits held msg s.capacity
    | .addCount m => m = msg ∧ Fits held msg s.capacity

variable {held : ℕ} {msg : Bytes}

/-- A call of `write` that is left alone takes its next step, and one step less is left. -/
theorem WriteAlone.step (h : s.WriteAlone held msg) (hbusy : s.writer ≠ .idle) :
    ∃ t, s.writerStep = some t ∧ t.WriteAlone held msg ∧
      writerLeft t.writer < writerLeft s.writer := by
  have hpos := h.pc
  cases hpc : s.writer with
  | idle => exact absurd hpc hbusy
  | loadReadIndex m writeIdx =>
    rw [hpc] at hpos
    have hs : s.writerStep = some { s with writer := .loadCapacity m writeIdx s.readIndex } := by
      rw [RingRun.writerStep, hpc]
    obtain ⟨hmsg, hheld⟩ := hpos
    refine ⟨_, hs, ⟨h.inv.writerStep hs, h.reader, hmsg, Eq.trans ?_ hheld, rfl⟩, ?_⟩
    · simp only [written, stored, hpc]
    · simp only [writerLeft]
      omega
  | loadCapacity m writeIdx readIdx =>
    rw [hpc] at hpos
    obtain ⟨rfl, hheld, rfl⟩ := hpos
    -- nobody reads meanwhile, so the indices that were loaded are still those of the ring
    have hw : writeIdx = s.writeIndex := by
      have hwriter := h.inv.writer
      rw [WriterInv, hpc] at hwriter
      exact hwriter.1
    have hused : usedBytes writeIdx s.readIndex s.capacity = held := by
      rw [hw, h.inv.write_eq, h.inv.read_eq, usedBytes_eq h.inv.freed_le h.inv.room, hheld]
      omega
    by_cases hfits : Fits held m s.capacity
    · -- a message that fits is copied
      have hs : s.writerStep = some { s with writer := .copy m writeIdx s.capacity 0 } := by
        rw [Fits] at hfits
        rw [RingRun.writerStep, hpc]
        exact if_neg (by omega)
      refine ⟨_, hs, ⟨h.inv.writerStep hs, h.reader, rfl, hfits⟩, ?_⟩
      simp only [writerLeft]
      omega
    · have hs : s.writerStep = some { s with writer := .idle, lastWrite := some false } := by
        rw [Fits] at hfits
        rw [RingRun.writerStep, hpc]
        exact if_pos (by omega)
      -- any other is refused
      refine ⟨_, hs, ⟨h.inv.writerStep hs, h.reader, iff_of_false (fun htrue => by cases htrue) hfits⟩, ?_⟩
      simp only [writerLeft]
      omega
  | copy m writeIdx capacity i =>
    rw [hpc] at hpos
    -- each turn of the loop copies one byte; after the last one the index is stored
    by_cases hdone : i < 4 + m.length
    · obtain ⟨data, hs⟩ : ∃ data, s.writerStep =
          some { s with data := data, writer := .copy m writeIdx capacity (i + 1) } := by
        rw [RingRun.writerStep, hpc]
        by_cases hi : i < 4
        · exact ⟨_, if_pos hi⟩
        · exact ⟨_, (if_neg hi).trans (if_pos hdone)⟩
      refine ⟨_, hs, ⟨h.inv.writerStep hs, h.reader, hpos⟩, ?_⟩
      simp only [writerLeft]
      omega
    · have hs : s.writerStep = some { s with
          writeIndex := place (writeIdx + (4 + m.length)) capacity
          writer := .addCount m } := by
        rw [RingRun.writerStep, hpc]
        exact (if_neg (by omega)).trans (if_neg hdone)
      refine ⟨_, hs, ⟨h.inv.writerStep hs, h.reader, hpos⟩, ?_⟩
      simp only [writerLeft]
      omega
  | addCount m =>
    rw [hpc] at hpos
    have hs : s.writerStep = some { s with
        count := toInt32 (s.count + 1)
        writer := .idle
        accepted := s.accepted ++ [m]
        lastWrite := some true } := by
      rw [RingRun.writerStep, hpc]
    refine ⟨_, hs, ⟨h.inv.writerStep hs, h.reader, iff_of_true rfl hpos.2⟩, ?_⟩
    simp only [writerLeft]
    omega

/-- A call of `write` that is left alone comes to its end. -/
theorem WriteAlone.finishes (h : s.WriteAlone held msg) :
    ∃ n t, Machine.exec RingRun.step s (List.replicate n .writer) = some t ∧
      t.WriteAlone held msg ∧ writerLeft t.writer = 0 :=
  Machine.exists_exec_replicate (fun t => writerLeft t.writer)
    (fun _ ht hbusy => ht.step (mt writerLeft_eq_zero.mpr hbusy)) h

/-- A call of `write` that runs alone accepts the message exactly when it fits beside the unread
ones. -/
theorem Inv.write_alone (h : s.Inv) (hq : s.Quiescent) (msg : Bytes) :
    ∃ n t, Machine.exec RingRun.step s (.write msg :: List.replicate n .writer) = some t ∧
      t.Quiescent ∧ (t.lastWrite = some true ↔ Fits s.unread msg t.capacity) := by
  have hfirst : RingRun.step s (.write msg) =
      some { s with writer := .loadReadIndex msg s.writeIndex } := by
    rw [RingRun.step, if_pos hq.1]
  have hbegun : { s with writer := .loadReadIndex msg s.writeIndex }.WriteAlone s.unread msg := by
    refine ⟨h.step hfirst, hq.2, rfl, ?_⟩
    have htaken : s.taken = s.returned := taken_of_idle hq.2
    obtain ⟨rest, hrest⟩ : s.returned <+: s.accepted := htaken ▸ h.taken_prefix
    show (Ring.stream s.accepted).length = (Ring.stream s.taken).length + s.unread
    rw [unread, htaken, ← hrest, List.drop_left, Ring.stream, List.flatMap_append,
      List.length_append]
    rfl
  obtain ⟨n, t, hrun, halone, hleft⟩ := hbegun.finishes
  have hidle : t.writer = .idle := writerLeft_eq_zero.mp hleft
  have hresult := halone.pc
  rw [hidle] at hresult
  exact ⟨n, t, Machine.exec_cons_eq_some.mpr ⟨_, hfirst, hrun⟩, ⟨hidle, halone.reader⟩, hresult⟩

/-- In every interleaving the messages read are a prefix of the messages accepted. When no call is
in progress, a `read` returns `null` exactly when there is nothing left, and a `write` is accepted
exactly when the message fits beside the unread ones. -/
theorem reads_follow_writes (size : ℕ) (acts : List Act)
    (hrun : Machine.exec step (create size) acts = some s) :
    s.returned <+: s.accepted ∧
      (s.Quiescent →
        (∃ n t, Machine.exec step s (.read :: List.replicate n .reader) = some t ∧ t.Quiescent ∧
          (t.lastRead = some none ↔ s.returned = s.accepted)) ∧
        ∀ msg, ∃ n t, Machine.exec step s (.write msg :: List.replicate n .writer) = some t ∧
          t.Quiescent ∧
          (t.lastWrite = some true ↔
            ((Ring.stream (s.accepted.drop s.returned.length)).length : ℤ) + (4 + msg.length) <
              toInt32 size)) := by
  have hI := inv_exec hrun
  have hreturned : s.returned <+: s.taken := by
    rw [taken]
    split
    · exact List.prefix_append _ _
    · exact List.prefix_rfl
  refine ⟨hreturned.trans hI.taken_prefix, fun hq => ⟨hI.read_alone hq, fun msg => ?_⟩⟩
  obtain ⟨n, t, hwrite, hidle, hfits⟩ := hI.write_alone hq msg
  have hcapacity : t.capacity = toInt32 size :=
    capacity_exec (Machine.exec_append_eq_some.mpr ⟨s, hrun, hwrite⟩)
  exact ⟨n, t, hwrite, hidle, by rw [hfits, Fits, hcapacity, unread]⟩

/-- Two calls overlap, and the third message runs over the end of a ring of 16 bytes. -/
def overlapping : List Act :=
  [.write [1, 2]] ++ List.replicate 10 .writer ++ [.read] ++ List.replicate 4 .reader ++
    [.write [3, 4, 5]] ++ List.replicate 5 .writer ++ List.replicate 6 .reader ++
    List.replicate 6 .writer ++ [.write [6]] ++ List.replicate 9 .writer

/-- With calls that overlap, the messages come out in the order in which they were accepted, and the
last `read` finds the ring empty only when all have been returned. -/
theorem reads_follow_writes_overlapping :
    ∃ s, Machine.exec step (create 16) overlapping = some s ∧
      (s.accepted = [[1, 2], [3, 4, 5], [6]] ∧ s.returned = [[1, 2]]) ∧
      s.returned <+: s.accepted ∧
      ∃ n t, Machine.exec step s (.read :: List.replicate n .reader) = some t ∧ t.Quiescent ∧
        (t.lastRead = some none ↔ s.returned = s.accepted) := by
  obtain ⟨s, hrun, htest⟩ := Machine.exists_exec_of_test
    (show (Machine.exec step (create 16) overlapping).map (fun s => decide (s.Quiescent ∧
        s.accepted = [[1, 2], [3, 4, 5], [6]] ∧ s.returned = [[1, 2]])) = some true by
      decide +kernel)
  obtain ⟨hq, hresults⟩ := of_decide_eq_true htest
  obtain ⟨hpre, hquiet⟩ := reads_follow_writes 16 overlapping hrun
  exact ⟨s, hrun, hresults, hpre, (hquiet hq).1⟩

end RingRun

end Datasole
