import AppServer.Lib.Transition
import Mathlib.Data.List.Basic
import Mathlib.Tactic.Common

/-!
# The handles a server owns

The libuv handles of `H2O_Webserver` (`webserver.cpp`) and of
`UvLogConsumer` (`uvlogconsumer.cpp`): a listener in each `ListenerRecord`, a
connection in each connection record, a timer in each log consumer. `handles`
lists them in the order their storage was allocated, and what has happened to
each is a list of events.

libuv and h2o are modelled for what the code can see of them: the results of
`uv_ip4_addr`, `uv_tcp_bind`, `uv_listen` and `uv_accept` are chosen by the
action, the loop calls the close callback of a handle once after `uv_close`,
and h2o calls `uv_close` on the handle of a socket once, with the callback
given to `h2o_uv_socket_create`. What the loop does with a pointer that is no
handle's is not modelled.
-/

namespace AppServer

namespace Webserver

open Lib

/-- A `struct sockaddr_in`: the address and the port. -/
structure SockaddrIn where
  ip : UInt32
  port : UInt16
  deriving DecidableEq, Repr

/-- Where the storage of a handle comes from. A `UvLogConsumer` holds its
timer itself. -/
inductive Allocator where
  | malloc
  | new
  | member
  deriving DecidableEq, Repr

/-- How storage is released. -/
inductive Deallocator where
  | free
  | delete
  | destructor
  deriving DecidableEq, Repr

/-- The deallocator that pairs with an allocator. -/
def Allocator.pair : Allocator → Deallocator
  | .malloc => .free
  | .new => .delete
  | .member => .destructor

/-- What can happen to a handle. -/
inductive Event where
  | init
  | uvClose
  | closeCallback
  | release (d : Deallocator)
  deriving DecidableEq, Repr

/-- The close callbacks. -/
inductive CloseCb where
  | closeListener
  | closeConnection
  deriving DecidableEq, Repr

/-- What a handle is of: a listener, with the address it was bound to and
whether it listens; a connection; or a timer, and whether it is started. -/
inductive Kind where
  | listener (bound : Option SockaddrIn) (listening : Bool)
  | connection
  | timer (active : Bool)
  deriving DecidableEq, Repr

/-- A handle. `data` is `handle->data` where it is the record the handle is
in, `closeCb` the callback given to `uv_close`; `events` is history. -/
structure Handle where
  kind : Kind
  allocator : Allocator
  data : Option ℕ
  closeCb : Option CloseCb
  events : List Event
  deriving DecidableEq, Repr

/-- A `uv_handle_t *`: to a handle, or to a local variable of a function. -/
inductive HandlePtr where
  | handle (k : ℕ)
  | stackSlot
  deriving DecidableEq, Repr

/-- A call of `create_ip4_listener`: its arguments, what it returned, the
handle in the record it allocated, and what it passed to `uv_close`. -/
structure Call where
  ip : String
  port : UInt16
  rv : ℤ
  listener : ℕ
  closed : Option HandlePtr
  deriving DecidableEq, Repr

/-- The handles, and the history of the calls of `create_ip4_listener`. -/
structure State where
  handles : List Handle
  calls : List Call
  deriving DecidableEq, Repr

/-- Nothing allocated yet. -/
def State.initial : State := ⟨[], []⟩

/-- What libuv answers to a call of `create_ip4_listener`: what
`uv_ip4_addr` leaves in `addr` where it fails, and the results of
`uv_tcp_bind` and `uv_listen`. -/
structure ListenerEnv where
  leftover : SockaddrIn
  bindRv : ℤ
  listenRv : ℤ
  deriving DecidableEq, Repr

/-- What can happen. -/
inductive Action where
  /-- `create_ip4_listener` is called. -/
  | createIp4Listener (ip : String) (port : UInt16) (env : ListenerEnv)
  /-- The loop calls `on_accept_trampoline` on a listener; `acceptRv` is what
  `uv_accept` returns. -/
  | onAccept (listener : ℕ) (status acceptRv : ℤ)
  /-- h2o closes the socket of a connection. -/
  | socketClose (connection : ℕ)
  /-- The loop calls the close callback of a handle. -/
  | closeCallback (handle : ℕ)
  /-- A `UvLogConsumer` is constructed. -/
  | newConsumer
  /-- `UvLogConsumer::start` is called. -/
  | start (timer : ℕ)
  /-- `UvLogConsumer::stop` is called. -/
  | stop (timer : ℕ)
  /-- A `UvLogConsumer` is destroyed. -/
  | deleteConsumer (timer : ℕ)
  deriving DecidableEq, Repr

namespace State

/-- Change a handle. -/
def update (s : State) (k : ℕ) (f : Handle → Handle) : State :=
  { s with handles := s.handles.modify k f }

/-- Storage for a handle is allocated. -/
def allocate (s : State) (h : Handle) : State := { s with handles := s.handles ++ [h] }

end State

/-- Something happens to the handle. -/
def Handle.happen (e : Event) (h : Handle) : Handle := { h with events := h.events ++ [e] }

/-! ## libuv -/

/-- `uv_tcp_init` and `uv_timer_init`: the `data` of the handle stays. -/
def uvInit (s : State) (k : ℕ) : State := s.update k (Handle.happen .init)

/-- `uv_close`. -/
def uvClose (s : State) (cb : CloseCb) : HandlePtr → State
  | .handle k => s.update k fun h => { h.happen .uvClose with closeCb := some cb }
  | .stackSlot => s

/-- `uv_tcp_bind`, where it succeeds. -/
def uvTcpBind (s : State) (k : ℕ) (addr : SockaddrIn) : State :=
  s.update k fun h => { h with kind := .listener (some addr) false }

/-- `uv_listen`, where it succeeds. -/
def uvListen (s : State) (k : ℕ) (addr : SockaddrIn) : State :=
  s.update k fun h => { h with kind := .listener (some addr) true }

/-! ## Listeners -/

/-- `new_listener_record`: the record, and its address in
`listener.data`. -/
def newListenerRecord (s : State) : State :=
  s.allocate ⟨.listener none false, .new, some s.handles.length, none, []⟩

/-- `release_listener_record`. -/
def releaseListenerRecord (s : State) (record : ℕ) : State :=
  s.update record (Handle.happen (.release .delete))

/-- `close_listener`. -/
def closeListener (s : State) (k : ℕ) : State :=
  match s.handles[k]?.bind Handle.data with
  | some lr => releaseListenerRecord s lr
  | none => s

/-- `create_listener`: what it returns, and what it passed to `uv_close`,
`&listener` being the address of the local variable. -/
def createListener (s : State) (addr : SockaddrIn) (env : ListenerEnv) :
    State × ℤ × Option HandlePtr :=
  let k := s.handles.length
  let s := uvInit (newListenerRecord s) k
  if env.bindRv ≠ 0 then
    (uvClose s .closeListener .stackSlot, env.bindRv, some .stackSlot)
  else if env.listenRv ≠ 0 then
    (uvClose (uvTcpBind s k addr) .closeListener .stackSlot, env.listenRv, some .stackSlot)
  else
    (uvListen (uvTcpBind s k addr) k addr, 0, none)

/-- `create_ip4_listener`, with `ip4` for what `uv_ip4_addr` makes of a
string: `none` is a nonzero result, which nothing looks at. -/
def createIp4Listener (ip4 : String → Option UInt32) (s : State) (ip : String) (port : UInt16)
    (env : ListenerEnv) : State :=
  let addr := match ip4 ip with
    | some a => ⟨a, port⟩
    | none => env.leftover
  let (s', rv, closed) := createListener s addr env
  { s' with calls := s.calls ++ [⟨ip, port, rv, s.handles.length, closed⟩] }

/-! ## Connections -/

/-- `new_connection_record`. -/
def newConnectionRecord (s : State) : State := s.allocate ⟨.connection, .malloc, none, none, []⟩

/-- `close_connection`: it does not call `release_connection_record`. -/
def closeConnection (s : State) (k : ℕ) : State := s.update k (Handle.happen (.release .delete))

/-- `on_accept`. -/
def onAccept (s : State) (status acceptRv : ℤ) : State :=
  if status ≠ 0 then s
  else
    let k := s.handles.length
    let s := uvInit (newConnectionRecord s) k
    if acceptRv ≠ 0 then uvClose s .closeConnection (.handle k) else s

/-! ## Log consumers -/

/-- `UvLogConsumer::UvLogConsumer`. -/
def newConsumer (s : State) : State :=
  uvInit (s.allocate ⟨.timer false, .member, some s.handles.length, none, []⟩) s.handles.length

/-- `UvLogConsumer::start` and `UvLogConsumer::stop`. -/
def setActive (s : State) (k : ℕ) (active : Bool) : State :=
  s.update k fun h => { h with kind := .timer active }

/-- `UvLogConsumer::~UvLogConsumer`, and the storage goes. -/
def deleteConsumer (s : State) (k : ℕ) : State :=
  (setActive s k false).update k (Handle.happen (.release .destructor))

/-! ## Steps -/

/-- A listener that listens. -/
def Handle.listening (h : Handle) : Bool :=
  match h.kind with
  | .listener _ listening => listening
  | _ => false

/-- A connection that h2o has a socket for: `uv_accept` has succeeded, and
the socket is not closed. -/
def Handle.socketOpen (h : Handle) : Bool := h.kind = .connection && !h.events.contains .uvClose

/-- A timer of a consumer that exists. -/
def Handle.consumer (h : Handle) : Bool :=
  match h.kind with
  | .timer _ => !h.events.contains (.release .destructor)
  | _ => false

/-- The callback the loop has still to call. -/
def Handle.pending (h : Handle) : Option CloseCb :=
  if h.events.contains .closeCallback then none else h.closeCb

/-- **The step function.** -/
def step (ip4 : String → Option UInt32) (s : State) : Action → Option State
  | .createIp4Listener ip port env => some (createIp4Listener ip4 s ip port env)
  | .onAccept k status acceptRv =>
    if s.handles[k]?.any Handle.listening then some (onAccept s status acceptRv) else none
  | .socketClose k =>
    if s.handles[k]?.any Handle.socketOpen then
      some (uvClose s .closeConnection (.handle k))
    else none
  | .closeCallback k =>
    match s.handles[k]?.bind Handle.pending with
    | some .closeListener => some (closeListener (s.update k (Handle.happen .closeCallback)) k)
    | some .closeConnection => some (closeConnection (s.update k (Handle.happen .closeCallback)) k)
    | none => none
  | .newConsumer => some (newConsumer s)
  | .start k =>
    if s.handles[k]?.any Handle.consumer then some (setActive s k true) else none
  | .stop k =>
    if s.handles[k]?.any Handle.consumer then some (setActive s k false) else none
  | .deleteConsumer k =>
    if s.handles[k]?.any Handle.consumer then some (deleteConsumer s k) else none

end Webserver

end AppServer
