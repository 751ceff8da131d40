import AppServer.Lib.Transition
import Mathlib.Data.List.Basic
import Mathlib.Tactic.Common

/-!
# A websocket connection, one step at a time

One connection of `h2o_upgrade_to_websocket` (`appserver_websocket.cpp`),
from the call of the generator to the end, with everything that can run on
it: the event loop's callbacks, the application's calls of
`send_websocket_message` and `close_websocket`, and the activations of
`h2o_websocket_proceed`, which nest: `proceed` calls `wslay_event_recv`, this
calls `on_msg_callback`, this the application's `receive_websocket_message`,
and `send_websocket_message` in there calls `proceed` again. `stack` is that
nest, innermost first.

h2o and wslay are not modelled but for what the code can see of them: the
socket's input and its two flags, and what the event context wants. Whatever
wslay does inside `wslay_event_send` and `wslay_event_recv` — which
callbacks it calls, how often, with what data, what it returns, and what it
wants afterwards — is chosen by the action. h2o calls a socket's callbacks
from the event loop only, the read callback only while reading and the write
callback once for each write, and neither once the socket is closed.

A freed connection keeps its last contents, so that what the code goes on to
do with it can be looked at.
-/

namespace AppServer

namespace WebSocket

open Lib

/-- A message: the opcode and the payload. -/
structure Msg where
  opcode : UInt8
  msg : List UInt8
  deriving DecidableEq, Repr

/-- An `h2o_iovec_t` that holds a buffer. `base` is the allocation it came
from, counted over the connection's life. -/
structure IoVec where
  base : ℕ
  bytes : List UInt8
  deriving DecidableEq, Repr

/-- An `h2o_socket_t`: the input buffer, whether reading is armed, whether a
write is in flight (`h2o_socket_is_writing`), and whether it was closed. -/
structure Socket where
  input : List UInt8
  reading : Bool
  writing : Bool
  closed : Bool
  deriving DecidableEq, Repr

/-- A `wslay_event_context_ptr`: the answers of `wslay_event_want_read` and
`wslay_event_want_write`. -/
structure WsCtx where
  wantRead : Bool
  wantWrite : Bool
  deriving DecidableEq, Repr

/-- How far the upgrade has come. -/
inductive Stage where
  /-- `conn` is allocated and zeroed. -/
  | requested
  /-- The generator has returned. -/
  | generated
  /-- `wslay_event_context_server_init` has returned. -/
  | initialised
  /-- `h2o_http1_upgrade` is sending the 101 response. -/
  | responding
  /-- `on_websocket_complete` was called. -/
  | completed
  deriving DecidableEq, Repr

/-- Where an activation of `h2o_websocket_proceed` stands. -/
inductive ProceedPc where
  /-- At the head of the loop, `handled` being 0. -/
  | sendTest
  /-- In `wslay_event_send`. -/
  | sending
  /-- Before the test of the input. -/
  | recvTest (handled : Bool)
  /-- In `wslay_event_recv`. -/
  | receiving
  /-- At `while (handled)`. -/
  | again (handled : Bool)
  /-- Past the loop, about to write. -/
  | write
  /-- About to start or stop reading. -/
  | arm
  deriving DecidableEq, Repr

/-- An activation on the stack. `calls` counts the calls of
`send_websocket_message` the handler has made. -/
inductive Frame where
  | proceed (pc : ProceedPc)
  | receive (arg : Msg) (calls : ℕ)
  deriving DecidableEq, Repr

/-- The connection, its socket and its event context; then what has happened:
whether the application has called `close_websocket`, how often
`h2o_websocket_close` was executed and the `AppServerWebSocket` deleted, the
buffers accepted from wslay, handed to `h2o_socket_write` and freed, the
messages delivered and those the endpoint gave to `wslay_event_queue_msg`,
whatever that answered. `writeBuf` is `_write_buf.bufs` up to
`_write_buf.cnt`. -/
structure State where
  stage : Stage
  wsCtx : Option WsCtx
  sock : Option Socket
  writeBuf : List IoVec
  stack : List Frame
  closing : Bool
  closes : ℕ
  deletes : ℕ
  accepted : List IoVec
  handed : List IoVec
  freed : List IoVec
  received : List Msg
  queued : List Msg
  deriving DecidableEq, Repr

/-- A connection at the start of `h2o_upgrade_to_websocket`. -/
def State.initial : State :=
  ⟨.requested, none, none, [], [], false, 0, 0, [], [], [], [], []⟩

/-- What can happen. A `WsCtx` is what the event context wants after the
step. -/
inductive Action where
  /-- The generator returns and `conn->data` is set. -/
  | generator
  /-- `wslay_event_context_server_init` returns. -/
  | contextInit (w : WsCtx)
  /-- `h2o_http1_upgrade` is called. -/
  | startUpgrade
  /-- The event loop calls `on_websocket_complete`. -/
  | onWebsocketComplete (sock : Option Socket) (reqsize : ℕ)
  /-- The event loop calls `on_recv`, with what it has read. -/
  | onRecv (err : Bool) (data : List UInt8)
  /-- The event loop calls `on_write_complete`. -/
  | onWriteComplete (err : Bool)
  /-- The application calls `send_websocket_message`. -/
  | sendWebsocketMessage (msg : Msg) (w : WsCtx)
  /-- The application calls `close_websocket`. -/
  | closeWebsocket
  /-- `receive_websocket_message` returns. -/
  | handlerReturn
  /-- `wslay_event_send` calls `send_callback`. -/
  | sendCallback (data : List UInt8)
  /-- `wslay_event_send` returns. -/
  | sendReturn (rv : ℤ) (w : WsCtx)
  /-- `wslay_event_recv` calls `recv_callback`. -/
  | recvCallback (len : ℕ)
  /-- `wslay_event_recv` calls `on_msg_callback`. -/
  | onMsgCallback (arg : Msg) (w : WsCtx)
  /-- `wslay_event_recv` returns. -/
  | recvReturn (rv : ℤ) (w : WsCtx)
  /-- The innermost `h2o_websocket_proceed` performs its next statement. -/
  | proceed
  deriving DecidableEq, Repr

/-! ## The functions -/

/-- `free_write_buf`. -/
def freeWriteBuf (s : State) : State := { s with freed := s.freed ++ s.writeBuf }

/-- `h2o_websocket_close`. -/
def h2oWebsocketClose (s : State) : State :=
  { freeWriteBuf s with
    sock := s.sock.map fun k => { k with closed := true }
    closes := s.closes + 1 }

/-- `on_websocket_message`, the connection's callback: `none` is the null
`arg`. -/
def onWebsocketMessage (s : State) : Option Msg → State
  | none => { h2oWebsocketClose s with deletes := s.deletes + 1 }
  | some arg =>
    { s with stack := .receive arg 0 :: s.stack, received := s.received ++ [arg] }

/-- `on_close`. -/
def onClose (s : State) : State := onWebsocketMessage s none

/-- `h2o_websocket_proceed` is called. -/
def h2oWebsocketProceed (s : State) : State := { s with stack := .proceed .sendTest :: s.stack }

/-- `recv_callback`: the bytes copied and the socket without them, `none`
being `WSLAY_ERR_WOULDBLOCK`. -/
def recvCallback (k : Socket) (len : ℕ) : Option (List UInt8 × Socket) :=
  if k.input = [] then none
  else some (k.input.take len, { k with input := k.input.drop len })

/-- `send_callback` on a connection with `slots` places in `bufs`, `none`
being `WSLAY_ERR_WOULDBLOCK`. -/
def sendCallback (slots : ℕ) (s : State) (k : Socket) (data : List UInt8) : Option State :=
  if k.writing = true ∨ s.writeBuf.length = slots then none
  else
    let buf := ⟨s.accepted.length, data⟩
    some { s with writeBuf := s.writeBuf ++ [buf], accepted := s.accepted ++ [buf] }

/-- `on_websocket_complete`. -/
def onWebsocketComplete (s : State) (sock : Option Socket) (reqsize : ℕ) : State :=
  match sock with
  | none => onWebsocketMessage s none
  | some k => h2oWebsocketProceed { s with sock := some { k with input := k.input.drop reqsize } }

/-- `on_recv`, with the bytes h2o has added to the input. -/
def onRecv (s : State) (k : Socket) (err : Bool) (data : List UInt8) : State :=
  if err then onClose s
  else h2oWebsocketProceed { s with sock := some { k with input := k.input ++ data } }

/-- `on_write_complete`, the write being over; `none` is a failed
assertion. -/
def onWriteComplete (s : State) (k : Socket) (err : Bool) : Option State :=
  let s := { s with sock := some { k with writing := false } }
  if err then some (onClose s)
  else if 0 < s.writeBuf.length then
    some (h2oWebsocketProceed { freeWriteBuf s with writeBuf := [] })
  else none

/-- `AppServerWebSocket::send_websocket_message`; `w` is what the context
wants after `wslay_event_queue_msg`. What that returns is not looked at: `queued`
has the message also where wslay refuses it, as it does after a close frame. -/
def sendWebsocketMessage (s : State) (msg : Msg) (w : WsCtx) : State :=
  match s.wsCtx with
  | none => s
  | some _ => h2oWebsocketProceed { s with wsCtx := some w, queued := s.queued ++ [msg] }

/-- `AppServerWebSocket::close_websocket`. -/
def closeWebsocket (s : State) : State := h2oWebsocketClose s

/-- The next statement of `h2o_websocket_proceed`, on top of `st`. -/
def advance (s : State) (k : Socket) (w : WsCtx) (st : List Frame) : ProceedPc → Option State
  | .sendTest =>
    if k.writing = false ∧ w.wantWrite = true then
      some { s with stack := .proceed .sending :: st }
    else some { s with stack := .proceed (.recvTest false) :: st }
  | .recvTest handled =>
    if k.input ≠ [] ∧ w.wantRead = true then some { s with stack := .proceed .receiving :: st }
    else some { s with stack := .proceed (.again handled) :: st }
  | .again handled =>
    if handled then some { s with stack := .proceed .sendTest :: st }
    else some { s with stack := .proceed .write :: st }
  | .write =>
    if k.writing = false ∧ 0 < s.writeBuf.length then
      some { s with
        sock := some { k with writing := true }
        handed := s.handed ++ s.writeBuf
        stack := .proceed .arm :: st }
    else some { s with stack := .proceed .arm :: st }
  | .arm =>
    if w.wantRead = true then some { s with sock := some { k with reading := true }, stack := st }
    else if k.writing = true ∨ w.wantWrite = true then
      some { s with sock := some { k with reading := false }, stack := st }
    else some (onClose { s with stack := st })
  | .sending | .receiving => none

/-- The application is where it may call the connection's object: in a
handler, or, once the generator has returned and until the connection is
closed, in the event loop; and it has not called `close_websocket`. -/
def State.callable (s : State) : Bool :=
  !s.closing && match s.stack with
    | [] => s.stage ≠ .requested && s.closes = 0
    | .receive _ _ :: _ => true
    | .proceed _ :: _ => false

/-- The handler on top has made one more call. -/
def countCall : List Frame → List Frame
  | .receive arg calls :: st => .receive arg (calls + 1) :: st
  | st => st

/-- **The step function**, on a connection with `slots` places in
`_write_buf.bufs`. -/
def step (slots : ℕ) (s : State) : Action → Option State
  | .generator =>
    if s.stage = .requested ∧ s.stack = [] then some { s with stage := .generated } else none
  | .contextInit w =>
    if s.stage = .generated ∧ s.stack = [] then
      some { s with stage := .initialised, wsCtx := some w }
    else none
  | .startUpgrade =>
    if s.stage = .initialised ∧ s.stack = [] then some { s with stage := .responding } else none
  | .onWebsocketComplete sock reqsize =>
    if s.stage = .responding ∧ s.stack = [] ∧ ∀ k ∈ sock, k.writing = false ∧ k.closed = false then
      some (onWebsocketComplete { s with stage := .completed } sock reqsize)
    else none
  | .onRecv err data =>
    match s.sock with
    | some k =>
      if s.stack = [] ∧ k.reading = true ∧ k.closed = false then some (onRecv s k err data)
      else none
    | none => none
  | .onWriteComplete err =>
    match s.sock with
    | some k =>
      if s.stack = [] ∧ k.writing = true ∧ k.closed = false then onWriteComplete s k err
      else none
    | none => none
  | .sendWebsocketMessage msg w =>
    if s.callable then some (sendWebsocketMessage { s with stack := countCall s.stack } msg w)
    else none
  | .closeWebsocket =>
    if s.callable then some (closeWebsocket { s with closing := true }) else none
  | .handlerReturn =>
    match s.stack with
    | .receive _ _ :: st => some { s with stack := st }
    | _ => none
  | .sendCallback data =>
    match s.stack, s.sock with
    | .proceed .sending :: _, some k => some ((sendCallback slots s k data).getD s)
    | _, _ => none
  | .sendReturn rv w =>
    match s.stack with
    | .proceed .sending :: st =>
      if rv ≠ 0 then some (onClose { s with wsCtx := some w, stack := st })
      else some { s with
        wsCtx := some w
        stack := .proceed (.recvTest (s.writeBuf.length < slots)) :: st }
    | _ => none
  | .recvCallback len =>
    match s.stack, s.sock with
    | .proceed .receiving :: _, some k =>
      match recvCallback k len with
      | some (_, k) => some { s with sock := some k }
      | none => some s
    | _, _ => none
  | .onMsgCallback arg w =>
    match s.stack with
    | .proceed .receiving :: _ => some (onWebsocketMessage { s with wsCtx := some w } (some arg))
    | _ => none
  | .recvReturn rv w =>
    match s.stack with
    | .proceed .receiving :: st =>
      if rv ≠ 0 then some (onClose { s with wsCtx := some w, stack := st })
      else some { s with wsCtx := some w, stack := .proceed (.again true) :: st }
    | _ => none
  | .proceed =>
    match s.stack, s.sock, s.wsCtx with
    | .proceed pc :: st, some k, some w => advance s k w st pc
    | _, _, _ => none

/-- States some run of the connection reaches. -/
abbrev Reachable (slots : ℕ) (s : State) : Prop := Lib.Reachable (step slots) State.initial s

/-! ## The echo endpoint -/

/-- What `AppServerEchoWebSocket::receive_websocket_message` does: it sends
the message it got, once. Nobody else uses the connection's object. -/
def echoHandler (s : State) : Action → Bool
  | .sendWebsocketMessage msg _ => s.stack.head? = some (.receive msg 0)
  | .closeWebsocket => false
  | .handlerReturn =>
    match s.stack with
    | .receive _ calls :: _ => calls = 1
    | _ => true
  | _ => true

/-! ## A connection to look at -/

/-- The connection is established, with some input already there. -/
def handshake (input : List UInt8) : List Action :=
  [.generator, .contextInit ⟨true, false⟩, .startUpgrade,
    .onWebsocketComplete (some ⟨input, false, false, false⟩) 0]

end WebSocket

end AppServer
