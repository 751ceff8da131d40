import AppServer.WebSocket.Model

/-!
# What a step of a connection can do

The step relation lists what each action does where it is enabled, and
`step_cases` says that the step function does nothing else. The invariants
of the connection are proved over it, one case for each of its constructors.
-/

namespace AppServer

namespace WebSocket

open Lib

variable {slots : ℕ} {s s' : State} {a : Action}

/-! ## Reading a connection that was closed -/

section Close

@[simp] theorem h2oWebsocketClose_stack : (h2oWebsocketClose s).stack = s.stack := rfl

@[simp] theorem onClose_wsCtx : (onClose s).wsCtx = s.wsCtx := rfl

@[simp] theorem onClose_sock :
    (onClose s).sock = s.sock.map fun k => { k with closed := true } := rfl

@[simp] theorem onClose_stack : (onClose s).stack = s.stack := rfl

@[simp] theorem onClose_closes : (onClose s).closes = s.closes + 1 := rfl

@[simp] theorem onClose_deletes : (onClose s).deletes = s.deletes + 1 := rfl

end Close

/-! ## The step relation -/

/-- **The steps.** -/
inductive Step (slots : ℕ) (s : State) : Action → State → Prop
  /-- The generator is set. -/
  | generator : s.stage = .requested → s.stack = [] →
      Step slots s .generator { s with stage := .generated }
  /-- wslay has made the event context. -/
  | contextInit {w : WsCtx} : s.stage = .generated → s.stack = [] →
      Step slots s (.contextInit w) { s with stage := .initialised, wsCtx := some w }
  /-- The response starts. -/
  | startUpgrade : s.stage = .initialised → s.stack = [] →
      Step slots s .startUpgrade { s with stage := .responding }
  /-- h2o has no socket for the connection, and `on_close` is called. -/
  | completeNull {reqsize : ℕ} : s.stage = .responding → s.stack = [] →
      Step slots s (.onWebsocketComplete none reqsize) (onClose { s with stage := .completed })
  /-- `on_websocket_complete` stores the socket and calls `proceed`. -/
  | complete {k : Socket} {reqsize : ℕ} : s.stage = .responding → s.stack = [] →
      k.writing = false → k.closed = false →
      Step slots s (.onWebsocketComplete (some k) reqsize) { s with
        stage := .completed
        sock := some { k with input := k.input.drop reqsize }
        stack := .proceed .sendTest :: s.stack }
  /-- The read fails. -/
  | recvErr {k : Socket} {data : List UInt8} : s.sock = some k → s.stack = [] →
      k.reading = true → k.closed = false →
      Step slots s (.onRecv true data) (onClose s)
  /-- Input comes in, and `proceed` is called. -/
  | recv {k : Socket} {data : List UInt8} : s.sock = some k → s.stack = [] →
      k.reading = true → k.closed = false →
      Step slots s (.onRecv false data) { s with
        sock := some { k with input := k.input ++ data }
        stack := .proceed .sendTest :: s.stack }
  /-- The write fails. -/
  | writtenErr {k : Socket} : s.sock = some k → s.stack = [] →
      k.writing = true → k.closed = false →
      Step slots s (.onWriteComplete true)
        (onClose { s with sock := some { k with writing := false } })
  /-- The buffers written are freed, and `proceed` is called. -/
  | written {k : Socket} : s.sock = some k → s.stack = [] →
      k.writing = true → k.closed = false → 0 < s.writeBuf.length →
      Step slots s (.onWriteComplete false) { s with
        sock := some { k with writing := false }
        freed := s.freed ++ s.writeBuf
        writeBuf := []
        stack := .proceed .sendTest :: s.stack }
  /-- There is no event context, and the message is dropped. -/
  | sendIgnored {msg : Msg} {w : WsCtx} : s.callable = true → s.wsCtx = none →
      Step slots s (.sendWebsocketMessage msg w) { s with stack := countCall s.stack }
  /-- The message is queued, and `proceed` is called, also inside another. -/
  | send {msg : Msg} {w w' : WsCtx} : s.callable = true → s.wsCtx = some w' →
      Step slots s (.sendWebsocketMessage msg w) { s with
        wsCtx := some w
        queued := s.queued ++ [msg]
        stack := .proceed .sendTest :: countCall s.stack }
  /-- The application closes, wherever the activations stand. -/
  | closeWebsocket : s.callable = true →
      Step slots s .closeWebsocket (h2oWebsocketClose { s with closing := true })
  /-- `receive_websocket_message` returns. -/
  | handlerReturn {arg : Msg} {calls : ℕ} {st : List Frame} :
      s.stack = .receive arg calls :: st →
      Step slots s .handlerReturn { s with stack := st }
  /-- `send_callback` would block. -/
  | sendRefused {data : List UInt8} {k : Socket} {st : List Frame} :
      s.stack = .proceed .sending :: st → s.sock = some k →
      (k.writing = true ∨ s.writeBuf.length = slots) →
      Step slots s (.sendCallback data) s
  /-- It takes the frame into `bufs`. -/
  | sendAccepted {data : List UInt8} {k : Socket} {st : List Frame} :
      s.stack = .proceed .sending :: st → s.sock = some k →
      k.writing = false → s.writeBuf.length ≠ slots →
      Step slots s (.sendCallback data) { s with
        writeBuf := s.writeBuf ++ [⟨s.accepted.length, data⟩]
        accepted := s.accepted ++ [⟨s.accepted.length, data⟩] }
  /-- `wslay_event_send` fails, and `proceed` closes and returns. -/
  | sendFail {rv : ℤ} {w : WsCtx} {st : List Frame} :
      s.stack = .proceed .sending :: st → rv ≠ 0 →
      Step slots s (.sendReturn rv w) (onClose { s with wsCtx := some w, stack := st })
  /-- `wslay_event_send` has sent what it could. -/
  | sendReturn {w : WsCtx} {st : List Frame} :
      s.stack = .proceed .sending :: st →
      Step slots s (.sendReturn 0 w) { s with
        wsCtx := some w
        stack := .proceed (.recvTest (s.writeBuf.length < slots)) :: st }
  /-- `recv_callback` finds no input. -/
  | recvBlocked {len : ℕ} {k : Socket} {st : List Frame} :
      s.stack = .proceed .receiving :: st → s.sock = some k → k.input = [] →
      Step slots s (.recvCallback len) s
  /-- It takes input away. -/
  | recvTaken {len : ℕ} {k : Socket} {st : List Frame} :
      s.stack = .proceed .receiving :: st → s.sock = some k → k.input ≠ [] →
      Step slots s (.recvCallback len) { s with
        sock := some { k with input := k.input.drop len } }
  /-- `on_msg_callback` calls the handler. -/
  | onMsg {arg : Msg} {w : WsCtx} {st : List Frame} :
      s.stack = .proceed .receiving :: st →
      Step slots s (.onMsgCallback arg w) { s with
        wsCtx := some w
        stack := .receive arg 0 :: s.stack
        received := s.received ++ [arg] }
  /-- `wslay_event_recv` fails, and `proceed` closes and returns. -/
  | recvFail {rv : ℤ} {w : WsCtx} {st : List Frame} :
      s.stack = .proceed .receiving :: st → rv ≠ 0 →
      Step slots s (.recvReturn rv w) (onClose { s with wsCtx := some w, stack := st })
  /-- `wslay_event_recv` has read what there was. -/
  | recvReturn {w : WsCtx} {st : List Frame} :
      s.stack = .proceed .receiving :: st →
      Step slots s (.recvReturn 0 w) { s with
        wsCtx := some w
        stack := .proceed (.again true) :: st }
  /-- No write is under way and wslay has a frame to send. -/
  | startSend {k : Socket} {w : WsCtx} {st : List Frame} :
      s.stack = .proceed .sendTest :: st → s.sock = some k → s.wsCtx = some w →
      k.writing = false → w.wantWrite = true →
      Step slots s .proceed { s with stack := .proceed .sending :: st }
  /-- Or else it is not asked to. -/
  | skipSend {k : Socket} {w : WsCtx} {st : List Frame} :
      s.stack = .proceed .sendTest :: st → s.sock = some k → s.wsCtx = some w →
      (k.writing = true ∨ w.wantWrite = false) →
      Step slots s .proceed { s with stack := .proceed (.recvTest false) :: st }
  /-- There is input and wslay wants it. -/
  | startRecv {k : Socket} {w : WsCtx} {handled : Bool} {st : List Frame} :
      s.stack = .proceed (.recvTest handled) :: st → s.sock = some k → s.wsCtx = some w →
      k.input ≠ [] → w.wantRead = true →
      Step slots s .proceed { s with stack := .proceed .receiving :: st }
  /-- Or else it is not asked to. -/
  | skipRecv {k : Socket} {w : WsCtx} {handled : Bool} {st : List Frame} :
      s.stack = .proceed (.recvTest handled) :: st → s.sock = some k → s.wsCtx = some w →
      (k.input = [] ∨ w.wantRead = false) →
      Step slots s .proceed { s with stack := .proceed (.again handled) :: st }
  /-- Something was handled, and the loop goes round again. -/
  | loop {k : Socket} {w : WsCtx} {st : List Frame} :
      s.stack = .proceed (.again true) :: st → s.sock = some k → s.wsCtx = some w →
      Step slots s .proceed { s with stack := .proceed .sendTest :: st }
  /-- Nothing was. -/
  | leave {k : Socket} {w : WsCtx} {st : List Frame} :
      s.stack = .proceed (.again false) :: st → s.sock = some k → s.wsCtx = some w →
      Step slots s .proceed { s with stack := .proceed .write :: st }
  /-- The buffers are handed to `h2o_socket_write`. -/
  | submit {k : Socket} {w : WsCtx} {st : List Frame} :
      s.stack = .proceed .write :: st → s.sock = some k → s.wsCtx = some w →
      k.writing = false → 0 < s.writeBuf.length →
      Step slots s .proceed { s with
        sock := some { k with writing := true }
        handed := s.handed ++ s.writeBuf
        stack := .proceed .arm :: st }
  /-- A write is under way, or there is nothing to write. -/
  | noSubmit {k : Socket} {w : WsCtx} {st : List Frame} :
      s.stack = .proceed .write :: st → s.sock = some k → s.wsCtx = some w →
      (k.writing = true ∨ s.writeBuf = []) →
      Step slots s .proceed { s with stack := .proceed .arm :: st }
  /-- wslay wants input. -/
  | armRead {k : Socket} {w : WsCtx} {st : List Frame} :
      s.stack = .proceed .arm :: st → s.sock = some k → s.wsCtx = some w → w.wantRead = true →
      Step slots s .proceed { s with sock := some { k with reading := true }, stack := st }
  /-- It wants none, and there is still something to write. -/
  | armStop {k : Socket} {w : WsCtx} {st : List Frame} :
      s.stack = .proceed .arm :: st → s.sock = some k → s.wsCtx = some w → w.wantRead = false →
      (k.writing = true ∨ w.wantWrite = true) →
      Step slots s .proceed { s with sock := some { k with reading := false }, stack := st }
  /-- It wants neither, and `proceed` closes and returns. -/
  | armClose {k : Socket} {w : WsCtx} {st : List Frame} :
      s.stack = .proceed .arm :: st → s.sock = some k → s.wsCtx = some w → w.wantRead = false →
      k.writing = false → w.wantWrite = false →
      Step slots s .proceed (onClose { s with stack := st })

theorem advance_cases {k : Socket} {w : WsCtx} {pc : ProceedPc} {st : List Frame}
    (hst : s.stack = .proceed pc :: st) (hk : s.sock = some k) (hw : s.wsCtx = some w)
    (h : advance s k w st pc = some s') : Step slots s .proceed s' := by
  cases pc with
  | sending | receiving => simp [advance] at h
  | sendTest =>
    simp only [advance] at h
    split at h <;> rename_i hc <;> cases h
    · exact .startSend hst hk hw hc.1 hc.2
    · refine .skipSend hst hk hw ?_
      rw [not_and_or] at hc
      simpa using hc
  | recvTest handled =>
    simp only [advance] at h
    split at h <;> rename_i hc <;> cases h
    · exact .startRecv hst hk hw hc.1 hc.2
    · refine .skipRecv hst hk hw ?_
      rw [not_and_or] at hc
      simpa using hc
  | again handled =>
    cases handled <;> cases h
    · exact .leave hst hk hw
    · exact .loop hst hk hw
  | write =>
    simp only [advance] at h
    split at h <;> rename_i hc <;> cases h
    · exact .submit hst hk hw hc.1 hc.2
    · refine .noSubmit hst hk hw ?_
      rw [not_and_or] at hc
      simpa using hc
  | arm =>
    simp only [advance] at h
    split at h
    · rename_i hr
      cases h
      exact .armRead hst hk hw hr
    · rename_i hr
      rw [Bool.not_eq_true] at hr
      split at h <;> rename_i hc <;> cases h
      · exact .armStop hst hk hw hr hc
      · rw [not_or, Bool.not_eq_true, Bool.not_eq_true] at hc
        exact .armClose hst hk hw hr hc.1 hc.2

/-- **The step function takes the steps of the relation.** -/
theorem step_cases (h : step slots s a = some s') : Step slots s a s' := by
  cases a with
  | generator | startUpgrade =>
    simp only [step, Option.ite_none_right_eq_some, Option.some.injEq] at h
    obtain ⟨⟨hstage, hst⟩, rfl⟩ := h
    constructor <;> assumption
  | contextInit w =>
    simp only [step, Option.ite_none_right_eq_some, Option.some.injEq] at h
    obtain ⟨⟨hstage, hst⟩, rfl⟩ := h
    exact .contextInit hstage hst
  | onWebsocketComplete sock reqsize =>
    simp only [step, Option.ite_none_right_eq_some, Option.some.injEq] at h
    obtain ⟨⟨hstage, hst, hsock⟩, rfl⟩ := h
    cases sock with
    | none => exact .completeNull hstage hst
    | some k => exact .complete hstage hst (hsock k rfl).1 (hsock k rfl).2
  | onRecv err data =>
    simp only [step] at h
    split at h
    · rename_i k hk
      simp only [Option.ite_none_right_eq_some, Option.some.injEq] at h
      obtain ⟨⟨hst, hr, hc⟩, rfl⟩ := h
      cases err
      · exact .recv hk hst hr hc
      · exact .recvErr hk hst hr hc
    · cases h
  | onWriteComplete err =>
    simp only [step] at h
    split at h
    · rename_i k hk
      rw [Option.ite_none_right_eq_some] at h
      obtain ⟨⟨hst, hw, hc⟩, h⟩ := h
      cases err
      · simp only [onWriteComplete, Bool.false_eq_true, if_false, Option.ite_none_right_eq_some,
          Option.some.injEq] at h
        obtain ⟨hlen, rfl⟩ := h
        exact .written hk hst hw hc hlen
      · cases h
        exact .writtenErr hk hst hw hc
    · cases h
  | sendWebsocketMessage msg w =>
    simp only [step, Option.ite_none_right_eq_some, Option.some.injEq] at h
    obtain ⟨hcall, rfl⟩ := h
    unfold sendWebsocketMessage
    split <;> rename_i hw
    · exact .sendIgnored hcall hw
    · exact .send hcall hw
  | closeWebsocket =>
    simp only [step, Option.ite_none_right_eq_some, Option.some.injEq] at h
    obtain ⟨hcall, rfl⟩ := h
    exact .closeWebsocket hcall
  | handlerReturn =>
    simp only [step] at h
    split at h
    · rename_i hst
      cases h
      exact .handlerReturn hst
    · cases h
  | sendCallback data =>
    simp only [step] at h
    split at h
    · rename_i st k hst hk
      simp only [sendCallback, Option.some.injEq] at h
      subst h
      split
      · rename_i hc
        exact .sendRefused hst hk hc
      · rename_i hc
        rw [not_or, Bool.not_eq_true] at hc
        exact .sendAccepted hst hk hc.1 hc.2
    · cases h
  | sendReturn rv w =>
    simp only [step] at h
    split at h
    · rename_i st hst
      split at h <;> rename_i hrv <;> cases h
      · exact .sendFail hst hrv
      · rw [not_not] at hrv
        subst hrv
        exact .sendReturn hst
    · cases h
  | recvCallback len =>
    simp only [step] at h
    split at h
    · rename_i st k hst hk
      simp only [recvCallback] at h
      by_cases hin : k.input = []
      · simp only [hin, if_true, Option.some.injEq] at h
        subst h
        exact .recvBlocked hst hk hin
      · simp only [hin, if_false, Option.some.injEq] at h
        subst h
        exact .recvTaken hst hk hin
    · cases h
  | onMsgCallback arg w =>
    simp only [step] at h
    split at h
    · rename_i hst
      cases h
      exact .onMsg hst
    · cases h
  | recvReturn rv w =>
    simp only [step] at h
    split at h
    · rename_i st hst
      split at h <;> rename_i hrv <;> cases h
      · exact .recvFail hst hrv
      · rw [not_not] at hrv
        subst hrv
        exact .recvReturn hst
    · cases h
  | proceed =>
    simp only [step] at h
    split at h
    · rename_i pc st k w hst hk hw
      exact advance_cases hst hk hw h
    · cases h

end WebSocket

end AppServer
