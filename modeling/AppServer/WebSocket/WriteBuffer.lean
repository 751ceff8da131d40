import AppServer.Lib.Outbox
import AppServer.WebSocket.Activation

/-!
# The outgoing bytes

`send_callback` fills `_write_buf`, `h2o_websocket_proceed` submits it and
`on_write_complete` frees it; between the three stands only the socket's
writing flag. Until it is closed, the connection is an outbox
(`outbox_step`), whatever activations are nested on the stack, and what is
guaranteed of it are the laws of outboxes.
-/

namespace AppServer

namespace WebSocket

open Lib

variable {slots : ℕ} {s s' : State} {a : Action}

/-- `h2o_socket_is_writing(conn->sock)`. -/
def State.isWriting (s : State) : Bool :=
  match s.sock with
  | some k => k.writing
  | none => false

theorem isWriting_of_sock {k : Socket} (hk : s.sock = some k) : s.isWriting = k.writing := by
  rw [State.isWriting, hk]

/-- The connection, as an outbox of buffers. -/
def State.outbox (s : State) : Outbox IoVec where
  buffer := s.writeBuf
  inFlight := s.isWriting
  accepted := s.accepted
  submitted := s.handed
  released := s.freed

/-- The bytes of some buffers. -/
def bytes (l : List IoVec) : List UInt8 := l.flatMap IoVec.bytes

/-! ## Step by step -/

/-- What closing does to the buffers: they are freed, and nothing else. -/
structure Closes (s s' : State) : Prop where
  closes : s'.closes = s.closes + 1
  freed : s'.freed = s.freed ++ s.writeBuf
  writeBuf : s'.writeBuf = s.writeBuf
  accepted : s'.accepted = s.accepted
  handed : s'.handed = s.handed

/-- Closing is counted, and never undone. -/
theorem closes_step (h : Step slots s a s') : s'.closes = s.closes ∨ Closes s s' := by
  cases h with
  | completeNull | recvErr | writtenErr | sendFail | recvFail | armClose | closeWebsocket =>
    exact Or.inr ⟨rfl, rfl, rfl, rfl, rfl⟩
  | _ => exact Or.inl rfl

/-- **The connection is an outbox** as long as it is not closed. -/
theorem outbox_step (h : Step slots s a s') (hw : Wired s) (hopen : s'.closes = s.closes) :
    Outbox.Step slots s.outbox s'.outbox ∨ s'.outbox = s.outbox := by
  have hkeep : ∀ {k k' : Socket}, s.sock = some k → s'.sock = some k' → k'.writing = k.writing →
      s'.writeBuf = s.writeBuf → s'.accepted = s.accepted → s'.handed = s.handed →
      s'.freed = s.freed → s'.outbox = s.outbox := by
    intro k k' hk hk' hwriting hbuf hacc hhanded hfreed
    simp only [State.outbox, hbuf, hacc, hhanded, hfreed, isWriting_of_sock hk,
      isWriting_of_sock hk', hwriting]
  cases h with
  | completeNull | recvErr | writtenErr | sendFail | recvFail | armClose | closeWebsocket =>
    exact absurd hopen (Nat.succ_ne_self s.closes)
  | complete hstage _ hidle =>
    -- the connection had no socket
    have hnone : s.sock = none := by
      rw [← Option.not_isSome_iff_eq_none]
      intro hsome
      rw [hw.completed hsome] at hstage
      cases hstage
    refine Or.inr ?_
    simp [State.outbox, State.isWriting, hnone, hidle]
  | written hk _ hwriting =>
    refine Or.inl ?_
    have hflight : s.outbox.inFlight = true := (isWriting_of_sock hk).trans hwriting
    exact .arrive hflight
  | sendAccepted _ hk hidle hroom =>
    have hflight : s.outbox.inFlight = false := (isWriting_of_sock hk).trans hidle
    exact Or.inl (.accept _ hflight hroom)
  | submit _ hk _ hidle hlen =>
    have hflight : s.outbox.inFlight = false := (isWriting_of_sock hk).trans hidle
    exact Or.inl (.submit hflight (List.length_pos_iff.1 hlen))
  | recv hk | recvTaken _ hk | armRead _ hk | armStop _ hk =>
    exact Or.inr (hkeep hk rfl rfl rfl rfl rfl rfl)
  | _ => exact Or.inr rfl

/-- While a write is in flight nobody touches the buffers, until the write
completes. -/
theorem writeBuf_step (h : Step slots s a s') (hw : Wired s) (hopen : s'.closes = s.closes)
    (hwriting : s.isWriting = true) (ha : a ≠ .onWriteComplete false) :
    s'.writeBuf = s.writeBuf ∧ s'.isWriting = true := by
  have hbusy : ∀ {k : Socket}, s.sock = some k → k.writing = false → False := by
    intro k hk hidle
    rw [isWriting_of_sock hk, hidle] at hwriting
    cases hwriting
  cases h with
  | completeNull | recvErr | writtenErr | sendFail | recvFail | armClose | closeWebsocket =>
    exact absurd hopen (Nat.succ_ne_self s.closes)
  | written => exact absurd rfl ha
  | complete hstage =>
    have hsome : s.sock.isSome := by
      rw [Option.isSome_iff_ne_none]
      intro hnone
      simp [State.isWriting, hnone] at hwriting
    rw [hw.completed hsome] at hstage
    cases hstage
  | sendAccepted _ hk hidle | submit _ hk _ hidle => exact (hbusy hk hidle).elim
  | recv hk | recvTaken _ hk | armRead _ hk | armStop _ hk =>
    exact ⟨rfl, (isWriting_of_sock hk).symm.trans hwriting⟩
  | _ => exact ⟨rfl, hwriting⟩

/-- Every allocation has its own number. -/
theorem bases_step (h : Step slots s a s')
    (hb : s.accepted.map IoVec.base = List.range s.accepted.length) :
    s'.accepted.map IoVec.base = List.range s'.accepted.length := by
  cases h with
  | sendAccepted => simp [hb, List.range_succ]
  | _ => exact hb

/-! ## Whole runs -/

theorem bases (h : Reachable slots s) :
    s.accepted.map IoVec.base = List.range s.accepted.length :=
  h.invariant (I := fun s => s.accepted.map IoVec.base = List.range s.accepted.length) rfl
    fun _ _ _ hb hs => bases_step (step_cases hs) hb

/-- The connection has been an outbox so far. -/
theorem outbox_steps (h : Reachable slots s) :
    s.closes = 0 → Relation.ReflTransGen (Outbox.Step slots) Outbox.empty s.outbox := by
  refine (h.invariant (I := fun s => Wired s ∧
    (s.closes = 0 → Relation.ReflTransGen (Outbox.Step slots) Outbox.empty s.outbox))
    ⟨wired_initial, fun _ => .refl⟩ ?_).2
  intro s a s' hI hs
  have hstep := step_cases hs
  refine ⟨wired_step hstep hI.1, fun hopen => ?_⟩
  have heq : s'.closes = s.closes := by
    rcases closes_step hstep with heq | hclose
    · exact heq
    · have := hclose.closes
      omega
  have hsteps := hI.2 (heq ▸ hopen)
  rcases outbox_step hstep hI.1 heq with ho | ho
  · exact hsteps.tail ho
  · rw [ho]
    exact hsteps

theorem outbox_sound (h : Reachable slots s) (hopen : s.closes = 0) :
    Outbox.Sound slots s.outbox :=
  Outbox.sound_of_steps (outbox_steps h hopen)

/-- **The outgoing stream and the write buffer**, in any run of a connection
up to its first close. What was handed to `h2o_socket_write`, followed by
the buffers not handed over, is what was accepted from wslay, byte for byte,
and no buffer was handed over twice; `cnt` never exceeds the places of
`bufs`; while a write is in flight the buffers stay as they are until it
completes or the connection closes; the assertion in `on_write_complete`
holds; and each buffer accepted is still in `_write_buf` or was freed, once.
The step that closes the connection frees the buffers in `_write_buf`, so
that each one accepted was then freed once, and leaves the rest alone. -/
theorem write_buf_stream (h : Reachable slots s) (hopen : s.closes = 0) :
    (bytes s.handed ++ bytes s.outbox.waiting = bytes s.accepted ∧
      (s.handed.map IoVec.base).Nodup) ∧
    s.writeBuf.length ≤ slots ∧
    (∀ a s', step slots s a = some s' → s'.closes = 0 → s.isWriting = true →
      a ≠ .onWriteComplete false → s'.writeBuf = s.writeBuf ∧ s'.isWriting = true) ∧
    (∀ k, s.sock = some k → k.writing = true → (onWriteComplete s k false).isSome) ∧
    (s.freed ++ s.writeBuf = s.accepted ∧ (s.accepted.map IoVec.base).Nodup ∧
      ∀ a s', step slots s a = some s' → s'.closes ≠ 0 →
        s'.freed = s'.accepted ∧ Closes s s') := by
  have hsound := outbox_sound h hopen
  have hstream : s.handed ++ s.outbox.waiting = s.accepted := hsound.submitted_append_waiting
  have hnodup : (s.accepted.map IoVec.base).Nodup := by
    rw [bases h]
    exact List.nodup_range
  have hfreed : s.freed ++ s.writeBuf = s.accepted := hsound.accepted
  refine ⟨⟨?_, ?_⟩, hsound.bounded, fun a s' hs hopen' hwriting ha => ?_,
    fun k hk hwriting => ?_, hfreed, hnodup, fun a s' hs hclosed => ?_⟩
  · rw [← hstream, bytes, bytes, bytes, List.flatMap_append]
  · rw [← hstream, List.map_append] at hnodup
    exact (List.nodup_append.1 hnodup).1
  · exact writeBuf_step (step_cases hs) (wired h) (hopen'.trans hopen.symm) hwriting ha
  · have hne : s.writeBuf ≠ [] := hsound.filled ((isWriting_of_sock hk).trans hwriting)
    simp [onWriteComplete, List.length_pos_iff.2 hne]
  · rcases closes_step (step_cases hs) with heq | hclose
    · exact absurd (heq.trans hopen) hclosed
    · exact ⟨by rw [hclose.freed, hclose.accepted, hfreed], hclose⟩

/-- The connection is established, a message of two bytes is queued from the
event loop and handed to the socket, and control is back in the event loop. -/
def sendRun : List Action :=
  handshake [] ++ List.replicate 5 .proceed ++ .sendWebsocketMessage ⟨1, [104, 105]⟩ ⟨true, true⟩ ::
    .proceed :: .sendCallback [129, 2, 104, 105] :: .sendReturn 0 ⟨true, false⟩ ::
    List.replicate 7 .proceed

/-- With the frame of that message in flight. -/
theorem write_buf_stream_sample : ∃ s : State, exec (step 4) State.initial sendRun = some s ∧
    s.handed ≠ [] ∧ s.isWriting = true ∧
    bytes s.handed ++ bytes s.outbox.waiting = bytes s.accepted := by
  have hexec : (exec (step 4) State.initial sendRun).isSome := by decide
  obtain ⟨s, hs⟩ := Option.isSome_iff_exists.1 hexec
  have hreach : Reachable 4 s := Reachable.of_exec hs
  refine ⟨s, hs, ?_, ?_, (write_buf_stream hreach ?_).1.1⟩
  all_goals
    obtain rfl := Option.some.inj hs
    decide

end WebSocket

end AppServer
