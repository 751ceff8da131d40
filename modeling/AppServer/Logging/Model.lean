import AppServer.Blocking.Model
import AppServer.Logger.Model

/-!
# The logger on its queues

The logger of `AppServer.Logger` has queues it can `enqueue` on and
`try_dequeue` from in one step. Here each `ThreadLogger` has the
`BlockingReaderWriterQueue` that `logger.hpp` gives it, and a call of either
function is as many steps as the queue's own, with those of all other
threads in between.

All else is the logger's step function as it is. Its `messages` are history
here: what is in the queue, with the place each record has in the order of
all enqueues. No step reads them but to number the record that
`try_dequeue` has returned (`found`).
-/

namespace AppServer

namespace Logging

open Queue (BlockPtr)
open Logger (Addr ThreadId Record MsgLoggerPair LogCall Frame Env)

/-- The `MAX_BLOCK_SIZE` of a queue that does not say. -/
def MAX_BLOCK_SIZE : UInt64 := 512

/-- Its `maxSize`. -/
def maxSize : UInt64 := 15

/-- What `spin` is set to. -/
def spins : ℕ := 10000

/-- A function of a queue a thread is in. -/
inductive Access where
  /-- `logger->messages.enqueue(newmsg)`. -/
  | enqueue (logger : Addr) (newmsg : Record)
  /-- `logger->messages.try_dequeue(msg)`. -/
  | tryDequeue (logger : Addr)
  deriving DecidableEq

/-- Which one, by its stack. -/
def access : List Frame → Option Access
  | .realLogMsg _ _ (.enqueue logger newmsg) :: _ => some (.enqueue logger newmsg)
  | .consume (.tryFirst _ logger) _ _ :: _ => some (.tryDequeue logger)
  | .consume (.tryAgain _ logger _) _ _ :: _ => some (.tryDequeue logger)
  | _ => none

/-- About to make a `ThreadLogger`. -/
def allocates (th : Logger.Thread) : Bool :=
  match th.stack with
  | .getThreadLogger .test :: _ => !th.initialized
  | _ => false

/-- The process, the queues, and the records `enqueue` had no memory for. -/
structure State where
  logger : Logger.State
  messages : Addr → Option (Blocking.State Record)
  dropped : List MsgLoggerPair

/-- Before any thread has logged. -/
def State.initial : State := ⟨Logger.State.initial, fun _ => none, []⟩

/-- What can happen: the actions of the logger, with what `malloc` returns in
a step of a thread. -/
inductive Action where
  | log (t : ThreadId) (call : LogCall) (leftover : Timespec)
  | consume (t : ThreadId)
  | exit (t : ThreadId)
  | run (t : ThreadId) (env : Env) (mem : ℕ → BlockPtr)

/-- The action of the logger. -/
def Action.logger : Action → Logger.Action
  | .log t call leftover => .log t call leftover
  | .consume t => .consume t
  | .exit t => .exit t
  | .run t env _ => .run t env

namespace State

/-- The logger has taken a step. -/
def setLogger (s : State) (logger : Logger.State) : State := { s with logger := logger }

/-- A queue has. -/
def setMessages (s : State) (l : Addr) (q : Blocking.State Record) : State :=
  { s with messages := Function.update s.messages l (some q) }

/-- `enqueue` has returned `false`, which `real_log_msg` does not look at. -/
def drop (s : State) (t : ThreadId) (l : Addr) (newmsg : Record) : State :=
  { s with
    logger := s.logger.setStack t (s.logger.threads t).stack.tail
    dropped := s.dropped ++ [(newmsg, l)] }

end State

/-- The next step of thread `t` in `logger->messages.enqueue(newmsg)`. -/
def advanceEnqueue (s : State) (t : ThreadId) (env : Env) (l : Addr) (newmsg : Record)
    (malloc : BlockPtr) : Option State :=
  (s.messages l).bind fun q =>
    if q.producer.calling then
      (Blocking.advanceProducer MAX_BLOCK_SIZE.toNat q malloc).bind fun q' =>
        let s := s.setMessages l q'
        match q'.producer with
        | .returned true => (Logger.advance s.logger t env).map s.setLogger
        | .returned false => some (s.drop t l newmsg)
        | _ => some s
    else (Blocking.enqueue q .canAlloc newmsg).map (s.setMessages l)

/-- The queue `try_dequeue` found, by what it returns; `q` is history. -/
def found (q : List Record) : Option Record → List Record
  | some msg => { msg with serial := (q.head?.map Record.serial).getD 0 } :: q.tail
  | none => []

/-- What `try_dequeue` has returned. -/
def dequeued : Blocking.ConsumerPc Record → Option (Option Record)
  | .returned (.dequeued result) => some result
  | _ => none

/-- The next step of thread `t` in `logger->messages.try_dequeue(msg)`. -/
def advanceTryDequeue (s : State) (t : ThreadId) (env : Env) (l : Addr) : Option State :=
  (s.messages l).bind fun q =>
    if q.consumer.calling then
      (Blocking.advanceConsumer spins q).bind fun q' =>
        let s := s.setMessages l q'
        match dequeued q'.consumer with
        | some result =>
          (Logger.advance (s.logger.setQueue l (found (s.logger.queue l) result)) t env).map
            s.setLogger
        | none => some s
    else (Blocking.dequeue q .tryDequeue).map (s.setMessages l)

/-- The next step of thread `t`. -/
def advance (s : State) (t : ThreadId) (env : Env) (mem : ℕ → BlockPtr) : Option State :=
  match access (s.logger.threads t).stack with
  | some (.enqueue l newmsg) => advanceEnqueue s t env l newmsg (mem 0)
  | some (.tryDequeue l) => advanceTryDequeue s t env l
  | none =>
    (Logger.advance s.logger t env).bind fun logger =>
      if allocates (s.logger.threads t) then
        (Blocking.construct MAX_BLOCK_SIZE maxSize mem).map fun q =>
          (s.setLogger logger).setMessages env.logger q
      else some (s.setLogger logger)

/-- **The step function.** -/
def step (s : State) : Action → Option State
  | .run t env mem => advance s t env mem
  | a => (Logger.step s.logger a.logger).map s.setLogger

end Logging

end AppServer
