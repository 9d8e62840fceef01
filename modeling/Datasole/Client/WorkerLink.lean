import Datasole.Client.SharedBuffer
import Datasole.Common.Machine
import Datasole.Shared.Codec.Message

/-!
# From the worker to the main thread

`ws.onmessage` of `client/worker/transport-worker.ts` and the handlers of `connectViaWorker` in
`client/client.ts`, with the ring active. The worker writes a frame into the ring and posts
`sab-frame`, or, if the ring has no room, posts the frame itself. The main thread handles what was
posted in order; on `sab-frame` it reads the ring until it is empty.

So there are two ways for a frame, and the drain loop may take a frame from the ring whose own
notification comes later, past a posted frame that is older. `link_in_order` shows that this is all
that can go wrong: in every run in which the loop never does that, the frames are dispatched in the
order received, each once.
-/

namespace Datasole

namespace WorkerLink

/-- What the worker posts for the frame with a number. The number only records which frame it is. -/
inductive Post where
  | sabFrame (number length : ℕ)
  | message (number : ℕ) (frame : Frame)

def Post.number : Post → ℕ
  | sabFrame number _ => number
  | message number _ => number

/-- The ring, what `ws.onmessage` is about to post, what was posted and not yet handled, and whether
the main thread is in the drain loop. The other fields record the run: the frames in the ring with
their numbers, and the frames received and dispatched. -/
structure Link where
  ring : Ring
  posting : Option Post
  posted : List Post
  draining : Bool
  inRing : List (ℕ × Frame)
  received : List Frame
  dispatched : List Frame

inductive Act where
  /-- `ws.onmessage` up to its post. -/
  | receive (raw : Bytes)
  /-- The post that ends `ws.onmessage`. -/
  | post
  /-- The main thread takes the first posted message. -/
  | handle
  /-- One turn of the drain loop. -/
  | drain

def init (size : ℕ) : Link where
  ring := Ring.create size
  posting := none
  posted := []
  draining := false
  inRing := []
  received := []
  dispatched := []

/-- A malformed message is dropped. -/
def receive (inflate : Bytes → Except String Bytes) (s : Link) (raw : Bytes) : Link :=
  match decodeMessage inflate raw with
  | .error _ => s
  | .ok frame =>
    match encodeFrame frame with
    | .error _ => s
    | .ok fullFrame =>
      let number := s.received.length
      match s.ring.write fullFrame with
      | some ring =>
        { s with
          ring := ring
          posting := some (.sabFrame number fullFrame.length)
          inRing := s.inRing ++ [(number, frame)]
          received := s.received ++ [frame] }
      | none =>
        { s with
          posting := some (.message number frame)
          received := s.received ++ [frame] }

def step (inflate : Bytes → Except String Bytes) (s : Link) : Act → Option Link
  | .receive raw => if s.posting.isSome then none else some (receive inflate s raw)
  | .post =>
    match s.posting with
    | none => none
    | some post => some { s with posting := none, posted := s.posted ++ [post] }
  | .handle =>
    -- one message at a time: not inside the drain loop
    if s.draining then none
    else
      match s.posted with
      | [] => none
      | .message _ frame :: rest =>
        some { s with posted := rest, dispatched := s.dispatched ++ [frame] }
      | .sabFrame _ _ :: rest => some { s with posted := rest, draining := true }
  | .drain =>
    if s.draining then
      match s.ring.read with
      | none => some { s with draining := false }
      | some (raw, ring) =>
        match decodeFrame raw with
        | .ok frame =>
          some { s with
            ring := ring
            inRing := s.inRing.tail
            dispatched := s.dispatched ++ [frame] }
        | .error _ =>
          -- the exception ends the loop, the message is gone
          some { s with ring := ring, inRing := s.inRing.tail, draining := false }
    else none

/-- What is on its way to the main thread outside the ring. -/
def Link.waiting (s : Link) : List Post := s.posted ++ s.posting.toList

/-- The drain loop takes no frame past an older one that waits as a posted message. -/
def KeepsOrder (s : Link) : Act → Prop
  | .drain => ∀ p ∈ s.inRing.head?, ∀ post ∈ s.waiting,
      match post with
      | .message number _ => p.1 < number
      | .sabFrame _ _ => True
  | .receive _ | .post | .handle => True

/-- Nothing is on its way and the main thread is not in the drain loop. -/
def Idle (s : Link) : Prop := s.posting = none ∧ s.posted = [] ∧ s.draining = false

/-! ## What every ordered run keeps -/

/-- The frames not yet dispatched are in the ring or wait as messages, each in one place and each
place in order; a frame in the ring is announced unless the main thread is draining. -/
structure Inv (s : Link) : Prop where
  ring_holds : s.ring.Holds (s.inRing.map (·.2.bytes))
  in_ring : ∀ p ∈ s.inRing, s.received[p.1]? = some p.2 ∧ p.2.Valid
  in_message : ∀ n frame, .message n frame ∈ s.waiting → s.received[n]? = some frame
  ring_sorted : (s.inRing.map Prod.fst).Pairwise (· < ·)
  waiting_sorted : (s.waiting.map Post.number).Pairwise (· < ·)
  waiting_lt : ∀ post ∈ s.waiting, post.number < s.received.length
  dispatched_eq : s.dispatched = s.received.take s.dispatched.length
  ring_pending : ∀ p ∈ s.inRing, s.dispatched.length ≤ p.1
  message_pending : ∀ n frame, .message n frame ∈ s.waiting → s.dispatched.length ≤ n
  somewhere : ∀ n, s.dispatched.length ≤ n → n < s.received.length →
    n ∈ s.inRing.map Prod.fst ∨ ∃ frame, .message n frame ∈ s.waiting
  announced : ∀ p ∈ s.inRing, s.draining = true ∨ ∃ length, .sabFrame p.1 length ∈ s.waiting
  one_place : ∀ p ∈ s.inRing, ∀ frame, .message p.1 frame ∉ s.waiting

variable {inflate : Bytes → Except String Bytes} {s t : Link}

/-- In the beginning nothing is received and the ring is empty. -/
theorem inv_init {size : ℕ} (hpos : 0 < size) (hsmall : size < 2 ^ 31) : Inv (init size) where
  ring_holds := Ring.holds_create hpos hsmall
  in_ring _ h := by cases h
  in_message _ _ h := by cases h
  ring_sorted := List.Pairwise.nil
  waiting_sorted := List.Pairwise.nil
  waiting_lt _ h := by cases h
  dispatched_eq := rfl
  ring_pending _ h := by cases h
  message_pending _ _ h := by cases h
  somewhere n _ h := by cases h
  announced _ h := by cases h
  one_place _ h := by cases h

/-- A received frame goes into the ring or becomes the post of its handler. -/
theorem receive_cases (s : Link) (raw : Bytes) :
    receive inflate s raw = s ∨ ∃ frame, frame.Valid ∧
      ((∃ ring, s.ring.write frame.bytes = some ring ∧ receive inflate s raw =
          { s with
            ring := ring
            posting := some (.sabFrame s.received.length frame.bytes.length)
            inRing := s.inRing ++ [(s.received.length, frame)]
            received := s.received ++ [frame] }) ∨
        (s.ring.write frame.bytes = none ∧ receive inflate s raw =
          { s with
            posting := some (.message s.received.length frame)
            received := s.received ++ [frame] })) := by
  cases hdec : decodeMessage inflate raw with
  | error e => exact Or.inl (by rw [receive, hdec])
  | ok frame =>
    have hvalid := valid_of_decodeMessage hdec
    refine Or.inr ⟨frame, hvalid, ?_⟩
    cases hwrite : s.ring.write frame.bytes with
    | some ring =>
      exact Or.inl ⟨ring, rfl, by simp only [receive, hdec, encodeFrame_eq hvalid.payload_le, hwrite]⟩
    | none =>
      exact Or.inr ⟨rfl, by simp only [receive, hdec, encodeFrame_eq hvalid.payload_le, hwrite]⟩

/-- An item keeps its place when another one comes last. -/
theorem getElem?_concat_of_some {α : Type*} {l : List α} {x : α} {n : ℕ} (h : l[n]? = some x)
    (y : α) :
    (l ++ [y])[n]? = some x := by
  have hlt : n < l.length := (List.getElem?_eq_some_iff.mp h).1
  rw [List.getElem?_append_left hlt, h]

theorem Inv.dispatched_le (h : Inv s) : s.dispatched.length ≤ s.received.length := by
  rw [h.dispatched_eq]
  exact List.length_take_le' _ _

theorem Inv.ring_lt (h : Inv s) {p : ℕ × Frame} (hp : p ∈ s.inRing) : p.1 < s.received.length :=
  (List.getElem?_eq_some_iff.mp (h.in_ring p hp).1).1

theorem waiting_eq_posted (h : s.posting = none) : s.waiting = s.posted := by
  rw [Link.waiting, h, Option.toList_none, List.append_nil]

/-- A post for the frame received next goes to the end of what waits. -/
theorem mem_waiting_concat (hposting : s.posting = none) (post q : Post) :
    q ∈ s.posted ++ [post] ↔ q ∈ s.waiting ∨ q = post := by
  rw [waiting_eq_posted hposting, List.mem_append, List.mem_singleton]

/-- The numbers of what waits still grow with a post for the frame received next. -/
theorem Inv.waiting_concat (h : Inv s) (hposting : s.posting = none) {post : Post}
    (hnumber : post.number = s.received.length) :
    ((s.posted ++ [post]).map Post.number).Pairwise (· < ·) ∧
      ∀ q ∈ s.posted ++ [post], q.number < s.received.length + 1 := by
  constructor
  · rw [List.map_append, List.pairwise_append, ← waiting_eq_posted hposting]
    refine ⟨h.waiting_sorted, List.pairwise_singleton _ _, fun n hn m hm => ?_⟩
    obtain ⟨q, hq, rfl⟩ := List.mem_map.mp hn
    rw [List.mem_singleton.mp hm, hnumber]
    exact h.waiting_lt q hq
  · intro q hq
    rcases (mem_waiting_concat hposting post q).mp hq with hq | rfl
    · exact Nat.lt_succ_of_lt (h.waiting_lt q hq)
    · exact hnumber ▸ Nat.lt_succ_self _

/-- One more frame received keeps what does not depend on where it went. -/
theorem Inv.dispatched_concat (h : Inv s) (frame : Frame) :
    s.dispatched = (s.received ++ [frame]).take s.dispatched.length := by
  rw [List.take_append_of_le_length h.dispatched_le]
  exact h.dispatched_eq

/-- A frame that finds room in the ring. -/
theorem inv_receive_ring (h : Inv s) (hposting : s.posting = none) {frame : Frame}
    (hvalid : frame.Valid) {ring : Ring} (hwrite : s.ring.write frame.bytes = some ring)
    (length : ℕ) :
    Inv { s with
      ring := ring
      posting := some (.sabFrame s.received.length length)
      inRing := s.inRing ++ [(s.received.length, frame)]
      received := s.received ++ [frame] } := by
  have hmem := mem_waiting_concat hposting (.sabFrame s.received.length length)
  have hwaiting := @Inv.waiting_concat s h hposting (.sabFrame s.received.length length) rfl
  constructor
  -- one after the other, as the invariant has them
  case ring_holds =>
    rw [List.map_append]
    exact h.ring_holds.write hwrite
  case in_ring =>
    intro p hp
    rcases List.mem_append.mp hp with hp | hp
    · exact ⟨getElem?_concat_of_some (h.in_ring p hp).1 frame, (h.in_ring p hp).2⟩
    · rw [List.mem_singleton.mp hp]
      exact ⟨List.getElem?_concat_length, hvalid⟩
  case in_message =>
    intro n f hf
    rcases (hmem _).mp hf with hf | hf
    · exact getElem?_concat_of_some (h.in_message n f hf) frame
    · cases hf
  case ring_sorted =>
    rw [List.map_append, List.pairwise_append]
    refine ⟨h.ring_sorted, List.pairwise_singleton _ _, fun n hn m hm => ?_⟩
    obtain ⟨p, hp, rfl⟩ := List.mem_map.mp hn
    rw [List.mem_singleton.mp hm]
    exact h.ring_lt hp
  case waiting_sorted => exact hwaiting.1
  case waiting_lt =>
    intro post hpost
    dsimp only
    rw [List.length_append, List.length_singleton]
    exact hwaiting.2 post hpost
  case dispatched_eq => exact h.dispatched_concat frame
  case ring_pending =>
    intro p hp
    rcases List.mem_append.mp hp with hp | hp
    · exact h.ring_pending p hp
    · rw [List.mem_singleton.mp hp]
      exact h.dispatched_le
  case message_pending =>
    intro n f hf
    rcases (hmem _).mp hf with hf | hf
    · exact h.message_pending n f hf
    · cases hf
  case somewhere =>
    -- the new frame is in the ring
    intro n hn hlt
    rw [List.length_append, List.length_singleton] at hlt
    rw [List.map_append, List.mem_append]
    rcases Nat.lt_succ_iff_lt_or_eq.mp hlt with hlt | rfl
    · rcases h.somewhere n hn hlt with hr | ⟨f, hf⟩
      · exact Or.inl (Or.inl hr)
      · exact Or.inr ⟨f, (hmem _).mpr (Or.inl hf)⟩
    · exact Or.inl (Or.inr (List.mem_singleton_self _))
  case announced =>
    intro p hp
    rcases List.mem_append.mp hp with hp | hp
    · exact (h.announced p hp).imp_right fun ⟨l, hl⟩ => ⟨l, (hmem _).mpr (Or.inl hl)⟩
    · rw [List.mem_singleton.mp hp]
      exact Or.inr ⟨length, (hmem _).mpr (Or.inr rfl)⟩
  case one_place =>
    -- a frame in the ring is no message: its number is the one after those posted
    intro p hp f hf
    rcases (hmem _).mp hf with hf | hf
    · rcases List.mem_append.mp hp with hp | hp
      · exact h.one_place p hp f hf
      · rw [List.mem_singleton.mp hp] at hf
        exact lt_irrefl _ (h.waiting_lt _ hf)
    · cases hf

/-- A frame that finds no room and is posted itself. -/
theorem inv_receive_message (h : Inv s) (hposting : s.posting = none)
    (frame : Frame) : Inv { s with
      posting := some (.message s.received.length frame)
      received := s.received ++ [frame] } := by
  have hmem := mem_waiting_concat hposting (.message s.received.length frame)
  have hwaiting := @Inv.waiting_concat s h hposting (.message s.received.length frame) rfl
  constructor
  case ring_holds => exact h.ring_holds
  case in_ring =>
    exact fun p hp => ⟨getElem?_concat_of_some (h.in_ring p hp).1 frame, (h.in_ring p hp).2⟩
  case in_message =>
    intro n f hf
    rcases (hmem _).mp hf with hf | hf
    · exact getElem?_concat_of_some (h.in_message n f hf) frame
    · cases hf
      exact List.getElem?_concat_length
  case ring_sorted => exact h.ring_sorted
  case waiting_sorted => exact hwaiting.1
  case waiting_lt =>
    intro post hpost
    dsimp only
    rw [List.length_append, List.length_singleton]
    exact hwaiting.2 post hpost
  case dispatched_eq => exact h.dispatched_concat frame
  case ring_pending => exact h.ring_pending
  case message_pending =>
    intro n f hf
    rcases (hmem _).mp hf with hf | hf
    · exact h.message_pending n f hf
    · cases hf
      exact h.dispatched_le
  case somewhere =>
    intro n hn hlt
    rw [List.length_append, List.length_singleton] at hlt
    rcases Nat.lt_succ_iff_lt_or_eq.mp hlt with hlt | rfl
    · -- the new frame is in the message
      exact (h.somewhere n hn hlt).imp_right fun ⟨f, hf⟩ => ⟨f, (hmem _).mpr (Or.inl hf)⟩
    · exact Or.inr ⟨frame, (hmem _).mpr (Or.inr rfl)⟩
  case announced =>
    exact fun p hp => (h.announced p hp).imp_right fun ⟨l, hl⟩ => ⟨l, (hmem _).mpr (Or.inl hl)⟩
  case one_place =>
    intro p hp f hf
    rcases (hmem _).mp hf with hf | hf
    · exact h.one_place p hp f hf
    · -- a frame in the ring came before this one
      obtain ⟨hn, -⟩ := Post.message.inj hf
      exact absurd (h.ring_lt hp) (by rw [hn]; exact lt_irrefl _)

/-- A frame comes in. It goes into the ring and is to be announced, or is to be posted itself if the
ring has no room. -/
theorem inv_receive {raw : Bytes} (h : Inv s)
    (hs : step inflate s (.receive raw) = some t) : Inv t := by
  simp only [step, Option.ite_none_left_eq_some, Option.some.injEq, Bool.not_eq_true,
    Option.isSome_eq_false_iff, Option.isNone_iff_eq_none] at hs
  obtain ⟨hposting, rfl⟩ := hs
  rcases @receive_cases inflate s raw with hsame | ⟨frame, hvalid, hcase⟩
  · rw [hsame]
    exact h
  · rcases hcase with ⟨ring, hwrite, hreceive⟩ | ⟨hwrite, hreceive⟩
    · rw [hreceive]
      exact inv_receive_ring h hposting hvalid hwrite _
    · rw [hreceive]
      exact inv_receive_message h hposting frame

/-- What was about to be posted is posted. -/
theorem inv_post (h : Inv s) (hs : step inflate s .post = some t) : Inv t := by
  cases hposting : s.posting with
  | none => simp [step, hposting] at hs
  | some post =>
    simp only [step, hposting, Option.some.injEq] at hs
    subst hs
    have hwaiting : s.waiting = s.posted ++ [post] := by
      rw [Link.waiting, hposting, Option.toList_some]
    have hsame :
        Link.waiting { s with posting := none, posted := s.posted ++ [post] } = s.waiting := by
      rw [waiting_eq_posted rfl, hwaiting]
    exact ⟨h.ring_holds, h.in_ring, hsame ▸ h.in_message, h.ring_sorted, hsame ▸ h.waiting_sorted,
      hsame ▸ h.waiting_lt, h.dispatched_eq, h.ring_pending, hsame ▸ h.message_pending,
      hsame ▸ h.somewhere, hsame ▸ h.announced, hsame ▸ h.one_place⟩

/-- Dispatching the frame that is due extends the dispatched frames by the next received one. -/
theorem Inv.dispatch_next (h : Inv s) {frame : Frame}
    (hframe : s.received[s.dispatched.length]? = some frame) :
    s.dispatched ++ [frame] = s.received.take (s.dispatched ++ [frame]).length := by
  rw [List.length_append, List.length_singleton, List.take_add_one, hframe, Option.toList_some,
    ← h.dispatched_eq]

/-- The message at the head of the posted ones is the frame that is due: an older frame in the ring
would still have its notification in front of it. -/
theorem Inv.message_due (h : Inv s) (hdraining : s.draining = false) {n : ℕ} {frame : Frame}
    {rest : List Post} (hwaiting : s.waiting = .message n frame :: rest) :
    n = s.dispatched.length := by
  have hsorted := h.waiting_sorted
  rw [hwaiting, List.map_cons, List.pairwise_cons] at hsorted
  have hafter : ∀ post ∈ s.waiting, n ≤ post.number := by
    intro post hpost
    rw [hwaiting] at hpost
    rcases List.mem_cons.mp hpost with rfl | hpost
    · exact le_rfl
    · exact (hsorted.1 _ (List.mem_map_of_mem hpost)).le
  have hmem : Post.message n frame ∈ s.waiting := by
    rw [hwaiting]
    exact List.mem_cons_self
  refine le_antisymm ?_ (h.message_pending n frame hmem)
  have hlt : s.dispatched.length < s.received.length :=
    (h.message_pending n frame hmem).trans_lt (h.waiting_lt _ hmem)
  rcases h.somewhere _ le_rfl hlt with hring | ⟨f, hf⟩
  · obtain ⟨p, hp, hpd⟩ := List.mem_map.mp hring
    rcases h.announced p hp with hd | ⟨l, hl⟩
    · rw [hdraining] at hd
      cases hd
    · rw [← hpd]
      exact hafter _ hl
  · exact hafter _ hf

/-- The first frame in the ring is the one that is due, if no older one waits as a message. -/
theorem Inv.ring_due (h : Inv s) (horder : KeepsOrder s .drain) {p : ℕ × Frame}
    {rest : List (ℕ × Frame)} (hring : s.inRing = p :: rest) : p.1 = s.dispatched.length := by
  have hsorted := h.ring_sorted
  rw [hring, List.map_cons, List.pairwise_cons] at hsorted
  have hmem : p ∈ s.inRing := by
    rw [hring]
    exact List.mem_cons_self
  refine le_antisymm ?_ (h.ring_pending p hmem)
  have hlt : s.dispatched.length < s.received.length :=
    (h.ring_pending p hmem).trans_lt (h.ring_lt hmem)
  rcases h.somewhere _ le_rfl hlt with hin | ⟨f, hf⟩
  · rw [hring, List.map_cons] at hin
    rcases List.mem_cons.mp hin with hin | hin
    · exact hin.ge
    · exact (hsorted.1 _ hin).le
  · exact (horder p (by rw [hring]; rfl) _ hf).le

/-- The main thread handles the oldest post: it dispatches the frame in it, or begins to drain the
ring. -/
theorem inv_handle (h : Inv s) (hs : step inflate s .handle = some t) : Inv t := by
  simp only [step, Option.ite_none_left_eq_some, Bool.not_eq_true] at hs
  obtain ⟨hdraining, hs⟩ := hs
  cases hposted : s.posted with
  | nil => simp [hposted] at hs
  | cons post rest =>
    have hwaiting : s.waiting = post :: (rest ++ s.posting.toList) := by
      rw [Link.waiting, hposted, List.cons_append]
    have hsub : ∀ q, q ∈ rest ++ s.posting.toList → q ∈ s.waiting := fun q hq => by
      rw [hwaiting]
      exact List.mem_cons_of_mem _ hq
    have hsorted := h.waiting_sorted
    rw [hwaiting, List.map_cons, List.pairwise_cons] at hsorted
    cases post with
    | sabFrame n length =>
      -- the drain begins, and no frame is handled yet
      simp only [hposted, Option.some.injEq] at hs
      subst hs
      refine ⟨h.ring_holds, h.in_ring, fun n f hf => h.in_message n f (hsub _ hf), h.ring_sorted,
        hsorted.2, fun q hq => h.waiting_lt q (hsub q hq), h.dispatched_eq, h.ring_pending,
        fun n f hf => h.message_pending n f (hsub _ hf), fun m hm hlt => ?_, fun p hp => Or.inl rfl,
        fun p hp f hf => h.one_place p hp f (hsub _ hf)⟩
      rcases h.somewhere m hm hlt with hr | ⟨f, hf⟩
      · exact Or.inl hr
      · rw [hwaiting] at hf
        rcases List.mem_cons.mp hf with hf | hf
        · cases hf
        · exact Or.inr ⟨f, hf⟩
    | message n frame =>
      simp only [hposted, Option.some.injEq] at hs
      subst hs
      -- the guard says that the oldest message is due
      have hdue := h.message_due hdraining hwaiting
      have hmem : Post.message n frame ∈ s.waiting := by
        rw [hwaiting]
        exact List.mem_cons_self
      have hreceived := h.in_message n frame hmem
      have hlen : (s.dispatched ++ [frame]).length = s.dispatched.length + 1 := by
        rw [List.length_append, List.length_singleton]
      constructor
      case ring_holds => exact h.ring_holds
      case in_ring => exact h.in_ring
      case in_message => exact fun m f hf => h.in_message m f (hsub _ hf)
      case ring_sorted => exact h.ring_sorted
      case waiting_sorted => exact hsorted.2
      case waiting_lt => exact fun q hq => h.waiting_lt q (hsub q hq)
      case dispatched_eq => exact h.dispatch_next (hdue ▸ hreceived)
      case ring_pending =>
        intro p hp
        rw [hlen]
        -- the frame that was due is this message, so it is not in the ring
        refine lt_of_le_of_ne (h.ring_pending p hp) fun heq => ?_
        refine h.one_place p hp frame ?_
        rw [← heq, ← hdue]
        exact hmem
      case message_pending =>
        intro m f hf
        rw [hlen, ← hdue]
        exact hsorted.1 _ (List.mem_map_of_mem hf)
      case somewhere =>
        intro m hm hlt
        rw [hlen] at hm
        rcases h.somewhere m (by omega) hlt with hr | ⟨f, hf⟩
        · exact Or.inl hr
        · rw [hwaiting] at hf
          rcases List.mem_cons.mp hf with hf | hf
          · obtain ⟨hmn, -⟩ := Post.message.inj hf
            omega
          · exact Or.inr ⟨f, hf⟩
      case announced =>
        intro p hp
        refine (h.announced p hp).imp_right fun ⟨l, hl⟩ => ⟨l, ?_⟩
        rw [hwaiting] at hl
        rcases List.mem_cons.mp hl with hl | hl
        · cases hl
        · exact hl
      case one_place => exact fun p hp f hf => h.one_place p hp f (hsub _ hf)

/-- The drain loop takes the oldest frame out of the ring, or ends. The guard says that no older one
waits as a message. -/
theorem inv_drain (h : Inv s) (horder : KeepsOrder s .drain)
    (hs : step inflate s .drain = some t) : Inv t := by
  simp only [step, Option.ite_none_right_eq_some] at hs
  obtain ⟨hdraining, hs⟩ := hs
  have hholds := h.ring_holds
  cases hring : s.inRing with
  | nil =>
    -- the ring is empty, and the drain ends
    rw [hring, List.map_nil] at hholds
    rw [hholds.read_nil] at hs
    simp only [Option.some.injEq] at hs
    subst hs
    refine ⟨h.ring_holds, h.in_ring, h.in_message, h.ring_sorted, h.waiting_sorted, h.waiting_lt,
      h.dispatched_eq, h.ring_pending, h.message_pending, h.somewhere, fun p hp => ?_, h.one_place⟩
    rw [hring] at hp
    cases hp
  | cons p rest =>
    rw [hring, List.map_cons] at hholds
    obtain ⟨ring, hread, hnext, -⟩ := hholds.read_cons
    have hmem : p ∈ s.inRing := by
      rw [hring]
      exact List.mem_cons_self
    obtain ⟨hreceived, hvalid⟩ := h.in_ring p hmem
    simp only [hread, hvalid.decodeFrame_bytes, Option.some.injEq] at hs
    subst hs
    -- the guard says that the oldest frame in the ring is due
    have hdue := h.ring_due horder hring
    have hsub : ∀ q, q ∈ s.inRing.tail → q ∈ s.inRing := fun q hq => List.mem_of_mem_tail hq
    have hsorted := h.ring_sorted
    rw [hring, List.map_cons, List.pairwise_cons] at hsorted
    have hlen : (s.dispatched ++ [p.2]).length = s.dispatched.length + 1 := by
      rw [List.length_append, List.length_singleton]
    constructor
    case ring_holds =>
      rw [hring]
      exact hnext
    case in_ring => exact fun q hq => h.in_ring q (hsub q hq)
    case in_message => exact h.in_message
    case ring_sorted =>
      rw [hring]
      exact hsorted.2
    case waiting_sorted => exact h.waiting_sorted
    case waiting_lt => exact h.waiting_lt
    case dispatched_eq => exact h.dispatch_next (hdue ▸ hreceived)
    case ring_pending =>
      intro q hq
      rw [hring] at hq
      rw [hlen, ← hdue]
      exact hsorted.1 _ (List.mem_map_of_mem hq)
    case message_pending =>
      intro n f hf
      rw [hlen, ← hdue]
      exact horder p (by rw [hring]; rfl) _ hf
    case somewhere =>
      intro n hn hlt
      rw [hlen] at hn
      rcases h.somewhere n (by omega) hlt with hr | hf
      · rw [hring, List.map_cons] at hr
        rcases List.mem_cons.mp hr with hr | hr
        · omega
        · rw [hring]
          exact Or.inl hr
      · exact Or.inr hf
    case announced => exact fun q hq => Or.inl hdraining
    case one_place => exact fun q hq => h.one_place q (hsub q hq)

/-- Every step that keeps the order keeps the invariant. -/
theorem inv_step {a : Act} (h : Inv s) (horder : KeepsOrder s a)
    (hs : step inflate s a = some t) : Inv t := by
  cases a with
  | receive raw => exact inv_receive h hs
  | post => exact inv_post h hs
  | handle => exact inv_handle h hs
  | drain => exact inv_drain h horder hs

/-- When nothing is on its way, nothing is left in the ring either. -/
theorem Inv.all_dispatched (h : Inv s) (hidle : Idle s) : s.dispatched = s.received := by
  obtain ⟨hposting, hposted, hdraining⟩ := hidle
  have hwaiting : s.waiting = [] := by rw [waiting_eq_posted hposting, hposted]
  have hall : s.received.length ≤ s.dispatched.length := by
    by_contra hlt
    rcases h.somewhere _ le_rfl (not_le.mp hlt) with hr | ⟨f, hf⟩
    · obtain ⟨p, hp, -⟩ := List.mem_map.mp hr
      rcases h.announced p hp with hd | ⟨l, hl⟩
      · rw [hdraining] at hd
        cases hd
      · rw [hwaiting] at hl
        cases hl
    · rw [hwaiting] at hf
      cases hf
  rw [h.dispatched_eq, List.take_of_length_le hall]

/-- In every run in which the drain loop never takes a frame past an older one that waits as a
message, the main thread has at any time dispatched the first of the received frames, in order and
each once, and all of them when nothing is on its way. -/
theorem link_in_order (inflate : Bytes → Except String Bytes) (size : ℕ) (hpos : 0 < size)
    (hsmall : size < 2 ^ 31) (acts : List Act)
    (horder : Machine.Guarded (step inflate) KeepsOrder (init size) acts)
    (hrun : Machine.exec (step inflate) (init size) acts = some s) :
    s.dispatched <+: s.received ∧ (Idle s → s.dispatched = s.received) := by
  have hinv : Inv s := Machine.exec_invariant_guarded (fun _ _ _ h hg hs => inv_step h hg hs)
    (inv_init hpos hsmall) horder hrun
  refine ⟨?_, hinv.all_dispatched⟩
  rw [hinv.dispatched_eq]
  exact List.take_prefix _ _

instance (s : Link) : DecidablePred (KeepsOrder s)
  | .drain =>
    have : ∀ (p : ℕ × Frame) (post : Post), Decidable (match post with
        | .message number _ => p.1 < number
        | .sabFrame _ _ => True)
      | _, .message _ _ => inferInstanceAs (Decidable (_ < _))
      | _, .sabFrame _ _ => .isTrue trivial
    inferInstanceAs (Decidable (∀ p ∈ s.inRing.head?, ∀ post ∈ s.waiting,
      match post with
      | .message number _ => p.1 < number
      | .sabFrame _ _ => True))
  | .receive _ | .post | .handle => .isTrue trivial

/-- A frame with a payload of zeros. -/
def zeros (opcode : Opcode) (n : ℕ) : Frame := ⟨opcode, 0, List.replicate n 0⟩

/-- In a ring of 32 bytes the second frame finds no room; the third is received once the main thread
has handled it. -/
def roomLater : List Act :=
  [.receive (zeros .ping 0).bytes, .post, .receive (zeros .eventS2c 10).bytes, .post, .handle, .drain,
    .drain, .handle, .receive (zeros .pong 1).bytes, .post, .handle, .drain, .drain]

/-- What inflating answers for bytes that are no zlib stream. -/
def noStream : Bytes → Except String Bytes := fun _ => .error "incorrect header check"

/-- Frames that do not fit into the ring are posted, and all three are dispatched in order. -/
theorem roomLater_in_order :
    ∃ s, Machine.exec (step noStream) (init 32) roomLater = some s ∧
      s.received = [zeros .ping 0, zeros .eventS2c 10, zeros .pong 1] ∧
      s.dispatched = s.received := by
  obtain ⟨s, hrun, hend⟩ := Machine.exists_exec_of_test
    (show (Machine.exec (step noStream) (init 32) roomLater).map
      (fun s => decide (s.posting.isNone ∧ s.posted = [] ∧ s.draining = false ∧
        s.received = [zeros .ping 0, zeros .eventS2c 10, zeros .pong 1])) = some true by
          decide +kernel)
  obtain ⟨hposting, hposted, hdraining, hreceived⟩ := of_decide_eq_true hend
  exact ⟨s, hrun, hreceived,
    (link_in_order noStream 32 (by decide) (by decide) roomLater (by decide +kernel) hrun).2
      ⟨Option.isNone_iff_eq_none.mp hposting, hposted, hdraining⟩⟩

/-- A frame of zeros is valid if its payload fits. -/
theorem zeros_valid (opcode : Opcode) {n : ℕ} (h : n ≤ maxFramePayload) :
    (zeros opcode n).Valid where
  id_nonneg := le_rfl
  id_lt := (by decide : (0 : ℤ) < 2 ^ 32)
  payload_le := by rwa [zeros, List.length_replicate]

/-- What the handler does with the bytes of a valid frame. -/
theorem receive_bytes {frame : Frame} (h : frame.Valid) :
    receive inflate s frame.bytes =
      match s.ring.write frame.bytes with
      | some ring =>
        { s with
          ring := ring
          posting := some (.sabFrame s.received.length frame.bytes.length)
          inRing := s.inRing ++ [(s.received.length, frame)]
          received := s.received ++ [frame] }
      | none =>
        { s with
          posting := some (.message s.received.length frame)
          received := s.received ++ [frame] } := by
  have hdecode : decodeMessage inflate frame.bytes = .ok frame := by
    rw [decodeMessage, isCompressed_bytes]
    exact h.decodeFrame_bytes
  simp only [receive, hdecode, encodeFrame_eq h.payload_le]

/-- The main thread handles the first notification only after the third frame was written. -/
def lateHandling (first second third : Frame) : List Act :=
  [.receive first.bytes, .post, .receive second.bytes, .post, .receive third.bytes, .post, .handle,
    .drain, .drain, .drain, .handle, .handle, .drain]

/-- If the second frame does not fit and the third one does, the loop that the first frame started
takes the third past the second. -/
theorem second_overtaken (inflate : Bytes → Except String Bytes) {size : ℕ} (hpos : 0 < size)
    (hsmall : size < 2 ^ 31) {first second third : Frame} (hfirst : first.Valid)
    (hsecond : second.Valid) (hthird : third.Valid)
    (hfits : (Ring.packed first.bytes).length + (Ring.packed third.bytes).length < size)
    (hlarge : size ≤ (Ring.packed first.bytes).length + (Ring.packed second.bytes).length) :
    ∃ s, Machine.exec (step inflate) (init size) (lateHandling first second third) = some s ∧
      Idle s ∧ s.received = [first, second, third] ∧ s.dispatched = [first, third, second] := by
  have hempty := Ring.holds_create hpos hsmall
  have hstream : (Ring.stream [first.bytes]).length = (Ring.packed first.bytes).length := by
    simp [Ring.stream]
  obtain ⟨r₁, hw₁⟩ : ∃ r₁, (Ring.create size).write first.bytes = some r₁ := by
    refine Option.ne_none_iff_exists'.mp fun hnone => ?_
    have hfull : size ≤ 0 + (Ring.packed first.bytes).length := hempty.write_eq_none.mp hnone
    omega
  have hr₁ : r₁.Holds [first.bytes] := hempty.write hw₁
  have hcap : r₁.capacity = size := Ring.capacity_write hw₁
  have hw₂ : r₁.write second.bytes = none :=
    hr₁.write_eq_none.mpr (by rw [hcap, hstream]; exact hlarge)
  obtain ⟨r₂, hw₃⟩ : ∃ r₂, r₁.write third.bytes = some r₂ := by
    refine Option.ne_none_iff_exists'.mp fun hnone => ?_
    have hfull := hr₁.write_eq_none.mp hnone
    rw [hcap, hstream] at hfull
    omega
  have hr₂ : r₂.Holds [first.bytes, third.bytes] := hr₁.write hw₃
  obtain ⟨r₃, hread₁, hr₃, -⟩ := hr₂.read_cons
  obtain ⟨r₄, hread₂, hr₄, -⟩ := hr₃.read_cons
  refine ⟨⟨r₄, none, [], false, [], [first, second, third], [first, third, second]⟩, ?_,
    ⟨rfl, rfl, rfl⟩, rfl, rfl⟩
  simp [lateHandling, Machine.exec_cons, step, init, receive_bytes hfirst, receive_bytes hsecond,
    receive_bytes hthird, hw₁, hw₂, hw₃, hread₁, hread₂, hr₄.read_nil, hfirst.decodeFrame_bytes,
    hthird.decodeFrame_bytes]

/-- The size of the ring in `connectViaWorker`. -/
def sabSize : ℕ := 1024 * 1024

/-- A ping, an event with a payload of almost a megabyte, and a pong: the pong is dispatched before
the event. -/
theorem large_event_overtaken :
    ∃ s, Machine.exec (step noStream) (init sabSize)
        (lateHandling (zeros .ping 0) (zeros .eventS2c 1048567) (zeros .pong 0)) = some s ∧
      Idle s ∧ s.received = [zeros .ping 0, zeros .eventS2c 1048567, zeros .pong 0] ∧
      ¬ s.dispatched <+: s.received := by
  have hlen : ∀ opcode n, (Ring.packed (zeros opcode n).bytes).length = 13 + n := by
    intro opcode n
    rw [Ring.length_packed, Frame.length_bytes, zeros, List.length_replicate, frameHeaderSize]
    omega
  have hping : (zeros .ping 0).Valid := zeros_valid .ping (Nat.zero_le _)
  have hpong : (zeros .pong 0).Valid := zeros_valid .pong (Nat.zero_le _)
  have hevent : (zeros .eventS2c 1048567).Valid :=
    zeros_valid .eventS2c (by rw [maxFramePayload]; omega)
  have hfits : (Ring.packed (zeros .ping 0).bytes).length +
      (Ring.packed (zeros .pong 0).bytes).length < sabSize := by
    rw [hlen, hlen, sabSize]
    omega
  have hlarge : sabSize ≤ (Ring.packed (zeros .ping 0).bytes).length +
      (Ring.packed (zeros .eventS2c 1048567).bytes).length := by
    rw [hlen, hlen, sabSize]
    omega
  obtain ⟨s, hrun, hidle, hreceived, hdispatched⟩ := second_overtaken noStream
    (by rw [sabSize]; omega) (by rw [sabSize]; omega) hping hevent hpong hfits hlarge
  refine ⟨s, hrun, hidle, hreceived, ?_⟩
  rw [hreceived, hdispatched]
  intro hfirst
  have hop : [Opcode.ping, .pong, .eventS2c] = [.ping, .eventS2c, .pong] :=
    congrArg (List.map Frame.opcode) (hfirst.eq_of_length rfl)
  exact absurd hop (by decide)

end WorkerLink

end Datasole
