import AppServer.Lib.StdSet
import AppServer.Lib.Transition
import AppServer.Logger.Message
import Mathlib.Logic.Function.Basic
import Mathlib.Data.Prod.Lex

/-!
# The logger, one atomic step at a time

Any number of threads log through `real_log_msg`, register through
`get_thread_logger` on first use, and call `LogConsumer::consume`
(`logger.cpp`). Each thread has a stack of the functions it is in, with the
point each has reached; `advance` performs the next statement of the
function on top.

A step is one access to what threads share — an `enqueue`, a `try_dequeue`,
a lock, an unlock, the `push_back` on `loggers` under the lock, the call of
`ordered_log` — together with the thread-local statements around it. The
function standing at an access has started it and the step completes it, so
two threads in the middle of an access are two threads standing at one.

`ordered_log` is virtual: while it runs it may use the log macros
(`Action.log` with an `orderedLog` frame on top), any number of times.
-/

namespace AppServer

namespace Logger

open Lib

/-- An address. -/
abbrev Addr := ℕ

/-- A thread. One that takes no step has not been started. -/
abbrev ThreadId := ℕ

/-- A `std::shared_ptr<LogMessage>`: the object and where it lives. The
fields from `call` on are history: the call the record is of, the thread
that made it, the clock value `gettime` stored in the caller's item, what
the memory of the copy held in `when`, and the record's place in the order
of all enqueues. No step reads them. -/
structure Record where
  addr : Addr
  msg : LogMessage
  call : LogCall
  thread : ThreadId
  clock : Timespec
  leftover : Timespec
  serial : ℕ
  deriving DecidableEq, Repr

/-- `MsgLoggerPair`. -/
abbrev MsgLoggerPair := Record × Addr

/-- What `std::set<MsgLoggerPair>` sorts by. The set is declared without
`pair_compare`, so it is `std::less` on the pair: the address of the message,
then the address of the logger. -/
def pairKey (p : MsgLoggerPair) : ℕ ×ₗ ℕ := toLex (p.1.addr, p.2)

/-- What `std::set<ThreadLogger *>` sorts by. -/
def loggerKey (l : Addr) : ℕ := l

/-- `struct ThreadLogger`. `owner` is history: the thread that allocated
it. -/
structure ThreadLogger where
  close : Bool
  messages : List Record
  owner : ThreadId

/-- Where a call of `real_log_msg` stands. -/
inductive LogPc where
  /-- In `get_thread_logger`. -/
  | calling
  /-- `logger` is known; about to take the time and copy the item. -/
  | stamp (logger : Addr)
  /-- In `logger->messages.enqueue(newmsg)`. -/
  | enqueue (logger : Addr) (newmsg : Record)
  deriving DecidableEq

/-- Where a call of `get_thread_logger` stands. -/
inductive GetPc where
  /-- At `if (!initialized)`. -/
  | test
  /-- The logger is allocated; about to lock `logger_mutex`. -/
  | lock
  /-- Holding the lock; about to `push_back`. -/
  | push
  /-- The first message is logged; about to unlock and return. -/
  | unlock
  deriving DecidableEq

/-- Where a call of `LogConsumer::consume` stands. The iterator of the outer
loop is an index, since `push_back` moves none of the elements before it;
the iterator of the inner loop is the elements it has still to meet. -/
inductive ConsumePc where
  /-- About to lock `logger_mutex`. -/
  | lock
  /-- At the head of `for (auto logger:loggers)`. -/
  | outer (i : ℕ)
  /-- In the `try_dequeue` of the outer loop. -/
  | tryFirst (i : ℕ) (logger : Addr)
  /-- At `while (!ordered_next.empty())`. -/
  | drain (i : ℕ)
  /-- In `ordered_log(first->first, first->second)`. -/
  | logging (i : ℕ) (first : MsgLoggerPair)
  /-- At the head of the loop over `check_loggers`. -/
  | recheck (i : ℕ) (it : List Addr)
  /-- In the `try_dequeue` of the inner loop. -/
  | tryAgain (i : ℕ) (logger : Addr) (it : List Addr)
  /-- Past the loops; about to unlock and return. -/
  | unlock
  deriving DecidableEq

/-- A function a thread is in. -/
inductive Frame where
  | realLogMsg (call : LogCall) (item : LogMessage) (pc : LogPc)
  | getThreadLogger (pc : GetPc)
  | consume (pc : ConsumePc) (ordered_next : StdSet pairKey) (check_loggers : StdSet loggerKey)
  | orderedLog
  deriving DecidableEq

/-- A thread: its `thread_local` variables and its stack, innermost call
first. `closer` is the logger its `LogCloser` was constructed with. -/
structure Thread where
  logger : Addr
  initialized : Bool
  closer : Option Addr
  exited : Bool
  stack : List Frame

/-- A thread that has not logged. -/
def Thread.fresh : Thread := ⟨0, false, none, false, []⟩

/-- The process: the globals, the heap of `ThreadLogger`s, the threads, and
the history of what was enqueued and what was passed to `ordered_log`. -/
structure State where
  loggers : List Addr
  mutex : Option ThreadId
  heap : Addr → Option ThreadLogger
  threads : ThreadId → Thread
  enqueued : List MsgLoggerPair
  passed : List MsgLoggerPair

/-- Before any thread has logged. -/
def State.initial : State where
  loggers := []
  mutex := none
  heap := fun _ => none
  threads := fun _ => Thread.fresh
  enqueued := []
  passed := []

/-- What the environment supplies to a step: the address of a new
`ThreadLogger` and of a new `LogMessage`, the clock, what uninitialised
memory holds, and the process id. -/
structure Env where
  logger : Addr
  addr : Addr
  clock : Timespec
  leftover : Timespec
  pid : ℤ
  deriving DecidableEq, Repr

/-- What can happen. -/
inductive Action where
  /-- Thread `t` uses a log macro, from its own code or from
  `ordered_log`. -/
  | log (t : ThreadId) (call : LogCall) (leftover : Timespec)
  /-- Thread `t` calls `consume`. -/
  | consume (t : ThreadId)
  /-- Thread `t` exits. -/
  | exit (t : ThreadId)
  /-- Thread `t` performs its next statement. -/
  | run (t : ThreadId) (env : Env)
  deriving DecidableEq, Repr

namespace State

/-- The queue of a logger. -/
def queue (s : State) (l : Addr) : List Record :=
  match s.heap l with
  | some lg => lg.messages
  | none => []

/-- Change the queue of a logger. -/
def setQueue (s : State) (l : Addr) (q : List Record) : State :=
  { s with heap := Function.update s.heap l ((s.heap l).map fun lg => { lg with messages := q }) }

/-- Change a thread. -/
def setThread (s : State) (t : ThreadId) (th : Thread) : State :=
  { s with threads := Function.update s.threads t th }

/-- Change the stack of a thread. -/
def setStack (s : State) (t : ThreadId) (st : List Frame) : State :=
  s.setThread t { s.threads t with stack := st }

end State

/-- `get_thread_logger` returns `l` to the `real_log_msg` that called it. -/
def returnLogger (l : Addr) : List Frame → List Frame
  | .realLogMsg c item .calling :: st => .realLogMsg c item (.stamp l) :: st
  | st => st

/-- The record `real_log_msg` allocates: a copy of the stamped item. -/
def newRecord (c : LogCall) (item : LogMessage) (t : ThreadId) (env : Env) : Record where
  addr := env.addr
  msg := ({ item with when := env.clock } : LogMessage).copy env.leftover
  call := c
  thread := t
  clock := env.clock
  leftover := env.leftover
  serial := 0

/-- The next statement of `get_thread_logger`. -/
def advanceGet (s : State) (t : ThreadId) (env : Env) (st : List Frame) : GetPc → Option State
  | .test =>
    if (s.threads t).initialized then
      some (s.setStack t (returnLogger (s.threads t).logger st))
    else if (s.heap env.logger).isSome then
      none -- `new` returns memory that is not in use, and no logger is ever freed
    else
      some { s with
        heap := Function.update s.heap env.logger (some ⟨false, [], t⟩)
        threads := Function.update s.threads t
          { s.threads t with
            logger := env.logger
            closer := some env.logger
            stack := .getThreadLogger .lock :: st } }
  | .lock =>
    if s.mutex = none then
      some { s.setStack t (.getThreadLogger .push :: st) with mutex := some t }
    else none
  | .push =>
    -- `loggers.push_back(logger)`, `initialized=true`, and the call of `log_info`
    some { s with
      loggers := s.loggers ++ [(s.threads t).logger]
      threads := Function.update s.threads t
        { s.threads t with
          initialized := true
          stack := .getThreadLogger .test ::
            .realLogMsg (registrationCall env.pid)
              ((registrationCall env.pid).message env.leftover) .calling ::
            .getThreadLogger .unlock :: st } }
  | .unlock =>
    some { s.setStack t (returnLogger (s.threads t).logger st) with mutex := none }

/-- The next statement of `real_log_msg`. -/
def advanceLog (s : State) (t : ThreadId) (env : Env) (c : LogCall) (item : LogMessage)
    (st : List Frame) : LogPc → Option State
  | .calling => none
  | .stamp l =>
    some (s.setStack t
      (.realLogMsg c { item with when := env.clock } (.enqueue l (newRecord c item t env)) :: st))
  | .enqueue l r =>
    let r := { r with serial := s.enqueued.length }
    some { (s.setQueue l (s.queue l ++ [r])).setStack t st with
      enqueued := s.enqueued ++ [(r, l)] }

/-- The next statement of `consume`. -/
def advanceConsume (s : State) (t : ThreadId) (next : StdSet pairKey)
    (check : StdSet loggerKey) (st : List Frame) : ConsumePc → Option State
  | .lock =>
    if s.mutex = none then
      some { s.setStack t (.consume (.outer 0) next check :: st) with mutex := some t }
    else none
  | .outer i =>
    match s.loggers[i]? with
    | some l => some (s.setStack t (.consume (.tryFirst i l) next check :: st))
    | none => some (s.setStack t (.consume .unlock next check :: st))
  | .tryFirst i l =>
    match s.queue l with
    | r :: q =>
      some ((s.setQueue l q).setStack t (.consume (.drain i) (next.insert (r, l)) check :: st))
    | [] => some (s.setStack t (.consume (.drain i) next (check.insert l) :: st))
  | .drain i =>
    match next.first? with
    | some first =>
      some { s.setStack t (.orderedLog :: .consume (.logging i first) next check :: st) with
        passed := s.passed ++ [first] }
    | none => some (s.setStack t (.consume (.outer (i + 1)) next check :: st))
  | .logging _ _ => none
  | .recheck i it =>
    match it with
    | l :: it => some (s.setStack t (.consume (.tryAgain i l it) next check :: st))
    | [] => some (s.setStack t (.consume (.drain i) next check :: st))
  | .tryAgain i l it =>
    match s.queue l with
    | r :: q =>
      some ((s.setQueue l q).setStack t
        (.consume (.recheck i it) (next.insert (r, l)) (check.erase l) :: st))
    | [] => some (s.setStack t (.consume (.recheck i it) next check :: st))
  | .unlock => some { s.setStack t st with mutex := none }

/-- `ordered_log` returns: `check_loggers.insert(first->second)`,
`ordered_next.erase(first)`, and on to the loop over `check_loggers`. -/
def returnOrdered (s : State) (t : ThreadId) : List Frame → Option State
  | .consume (.logging i first) next check :: st =>
    let check := check.insert first.2
    some (s.setStack t (.consume (.recheck i check.toList) (next.erase first) check :: st))
  | _ => none

/-- The next statement of thread `t`. -/
def advance (s : State) (t : ThreadId) (env : Env) : Option State :=
  match (s.threads t).stack with
  | [] => none
  | .getThreadLogger pc :: st => advanceGet s t env st pc
  | .realLogMsg c item pc :: st => advanceLog s t env c item st pc
  | .consume pc next check :: st => advanceConsume s t next check st pc
  | .orderedLog :: st => returnOrdered s t st

/-- A thread can use a log macro from its own code and from inside
`ordered_log`. -/
def Thread.canLog (th : Thread) : Bool :=
  match th.stack with
  | [] => !th.exited
  | .orderedLog :: _ => true
  | _ => false

/-- The destructor of the thread's `LogCloser`. -/
def closeLogger (s : State) (t : ThreadId) : Addr → Option ThreadLogger :=
  match (s.threads t).closer with
  | some l => Function.update s.heap l ((s.heap l).map fun lg => { lg with close := true })
  | none => s.heap

/-- **The step function.** -/
def step (s : State) : Action → Option State
  | .log t call leftover =>
    if (s.threads t).canLog then
      some (s.setStack t (.getThreadLogger .test ::
        .realLogMsg call (call.message leftover) .calling :: (s.threads t).stack))
    else none
  | .consume t =>
    if (s.threads t).stack.isEmpty ∧ (s.threads t).exited = false then
      some (s.setStack t [.consume .lock StdSet.empty StdSet.empty])
    else none
  | .exit t =>
    if (s.threads t).stack.isEmpty ∧ (s.threads t).exited = false then
      some { s.setThread t { s.threads t with exited := true } with heap := closeLogger s t }
    else none
  | .run t env => advance s t env

/-- States some run of the program reaches. -/
abbrev Reachable (s : State) : Prop := Lib.Reachable step State.initial s

/-! ## A run to look at -/

/-- What the environment supplies to the `k`th step. -/
def sampleEnv (k : ℕ) : Env := ⟨100, 200 + k, ⟨k, 0⟩, ⟨0, 0⟩, 7⟩

/-- A log call. -/
def sampleCall : LogCall := ⟨"main.cpp", "int main()", 12, 3, [.cstr "hello"]⟩

/-- Thread 0 logs for the first time, which takes it 9 steps and enqueues two
records; then thread 1 consumes, which takes it 16. -/
def sampleRun (n m : ℕ) : List Action :=
  .log 0 sampleCall ⟨0, 0⟩ :: (List.range n).map (fun k => .run 0 (sampleEnv k)) ++
    .consume 1 :: (List.range m).map fun k => .run 1 (sampleEnv (n + k))

end Logger

end AppServer
