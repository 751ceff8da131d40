import AppServer.Logger.Model

/-!
# What a step of the logger can do

`Step` lists the steps of the model, one constructor a statement, with the
stack each of them finds and the state it leaves; `step_cases` says there
are no others. Every invariant below is proved by cases on `Step`, and none
of them unfolds `step`.
-/

namespace AppServer

namespace Logger

open Lib

/-- The steps. `t` is the thread that moves and `st` what is under the
function on top of its stack. -/
inductive Step (s : State) (t : ThreadId) : Action → State → Prop where
  /-- A log macro is used. -/
  | log {c : LogCall} {j : Timespec} (hlog : (s.threads t).canLog = true) :
      Step s t (.log t c j) (s.setStack t (.getThreadLogger .test ::
        .realLogMsg c (c.message j) .calling :: (s.threads t).stack))
  /-- `consume` is called. -/
  | consume (hst : (s.threads t).stack = []) (hx : (s.threads t).exited = false) :
      Step s t (.consume t) (s.setStack t [.consume .lock StdSet.empty StdSet.empty])
  /-- The thread exits. -/
  | exit (hst : (s.threads t).stack = []) :
      Step s t (.exit t)
        { s.setThread t { s.threads t with exited := true } with heap := closeLogger s t }
  /-- `get_thread_logger` finds the thread registered. -/
  | getFast {env : Env} {st : List Frame}
      (hst : (s.threads t).stack = .getThreadLogger .test :: st)
      (hi : (s.threads t).initialized = true) :
      Step s t (.run t env) (s.setStack t (returnLogger (s.threads t).logger st))
  /-- It allocates the thread's logger. -/
  | getNew {env : Env} {st : List Frame}
      (hst : (s.threads t).stack = .getThreadLogger .test :: st)
      (hi : (s.threads t).initialized = false) (hnew : s.heap env.logger = none) :
      Step s t (.run t env) { s with
        heap := Function.update s.heap env.logger (some ⟨false, [], t⟩)
        threads := Function.update s.threads t
          { s.threads t with
            logger := env.logger
            closer := some env.logger
            stack := .getThreadLogger .lock :: st } }
  /-- It takes the lock. -/
  | getLock {env : Env} {st : List Frame}
      (hst : (s.threads t).stack = .getThreadLogger .lock :: st) (hm : s.mutex = none) :
      Step s t (.run t env) { s.setStack t (.getThreadLogger .push :: st) with mutex := some t }
  /-- It registers the logger and logs the first message. -/
  | getPush {env : Env} {st : List Frame}
      (hst : (s.threads t).stack = .getThreadLogger .push :: st) :
      Step s t (.run t env) { s with
        loggers := s.loggers ++ [(s.threads t).logger]
        threads := Function.update s.threads t
          { s.threads t with
            initialized := true
            stack := .getThreadLogger .test ::
              .realLogMsg (registrationCall env.pid)
                ((registrationCall env.pid).message env.leftover) .calling ::
              .getThreadLogger .unlock :: st } }
  /-- It unlocks and returns. -/
  | getUnlock {env : Env} {st : List Frame}
      (hst : (s.threads t).stack = .getThreadLogger .unlock :: st) :
      Step s t (.run t env)
        { s.setStack t (returnLogger (s.threads t).logger st) with mutex := none }
  /-- `real_log_msg` stamps and copies the item. -/
  | stamp {env : Env} {st : List Frame} {c : LogCall} {item : LogMessage} {l : Addr}
      (hst : (s.threads t).stack = .realLogMsg c item (.stamp l) :: st) :
      Step s t (.run t env) (s.setStack t (.realLogMsg c { item with when := env.clock }
        (.enqueue l (newRecord c item t env)) :: st))
  /-- It enqueues the copy. -/
  | enqueue {env : Env} {st : List Frame} {c : LogCall} {item : LogMessage} {l : Addr}
      {r : Record} (hst : (s.threads t).stack = .realLogMsg c item (.enqueue l r) :: st) :
      Step s t (.run t env)
        { (s.setQueue l (s.queue l ++ [{ r with serial := s.enqueued.length }])).setStack t st with
          enqueued := s.enqueued ++ [({ r with serial := s.enqueued.length }, l)] }
  /-- `consume` takes the lock. -/
  | conLock {env : Env} {st : List Frame} {next : StdSet pairKey} {check : StdSet loggerKey}
      (hst : (s.threads t).stack = .consume .lock next check :: st) (hm : s.mutex = none) :
      Step s t (.run t env)
        { s.setStack t (.consume (.outer 0) next check :: st) with mutex := some t }
  /-- The outer loop meets a logger. -/
  | conOuter {env : Env} {st : List Frame} {next : StdSet pairKey} {check : StdSet loggerKey}
      {i : ℕ} {l : Addr} (hst : (s.threads t).stack = .consume (.outer i) next check :: st)
      (hl : s.loggers[i]? = some l) :
      Step s t (.run t env) (s.setStack t (.consume (.tryFirst i l) next check :: st))
  /-- The outer loop ends. -/
  | conEnd {env : Env} {st : List Frame} {next : StdSet pairKey} {check : StdSet loggerKey}
      {i : ℕ} (hst : (s.threads t).stack = .consume (.outer i) next check :: st)
      (hl : s.loggers[i]? = none) :
      Step s t (.run t env) (s.setStack t (.consume .unlock next check :: st))
  /-- The first `try_dequeue` succeeds. -/
  | firstHit {env : Env} {st : List Frame} {next : StdSet pairKey} {check : StdSet loggerKey}
      {i : ℕ} {l : Addr} {r : Record} {q : List Record}
      (hst : (s.threads t).stack = .consume (.tryFirst i l) next check :: st)
      (hq : s.queue l = r :: q) :
      Step s t (.run t env) ((s.setQueue l q).setStack t
        (.consume (.drain i) (next.insert (r, l)) check :: st))
  /-- The first `try_dequeue` finds the queue empty. -/
  | firstMiss {env : Env} {st : List Frame} {next : StdSet pairKey} {check : StdSet loggerKey}
      {i : ℕ} {l : Addr} (hst : (s.threads t).stack = .consume (.tryFirst i l) next check :: st)
      (hq : s.queue l = []) :
      Step s t (.run t env) (s.setStack t (.consume (.drain i) next (check.insert l) :: st))
  /-- `ordered_log` is called. -/
  | drainCall {env : Env} {st : List Frame} {next : StdSet pairKey} {check : StdSet loggerKey}
      {i : ℕ} {first : MsgLoggerPair}
      (hst : (s.threads t).stack = .consume (.drain i) next check :: st)
      (hf : next.first? = some first) :
      Step s t (.run t env)
        { s.setStack t (.orderedLog :: .consume (.logging i first) next check :: st) with
          passed := s.passed ++ [first] }
  /-- `ordered_next` is empty. -/
  | drainEnd {env : Env} {st : List Frame} {next : StdSet pairKey} {check : StdSet loggerKey}
      {i : ℕ} (hst : (s.threads t).stack = .consume (.drain i) next check :: st)
      (hf : next.first? = none) :
      Step s t (.run t env) (s.setStack t (.consume (.outer (i + 1)) next check :: st))
  /-- `ordered_log` returns. -/
  | ordered {env : Env} {st : List Frame} {next : StdSet pairKey} {check : StdSet loggerKey}
      {i : ℕ} {first : MsgLoggerPair}
      (hst : (s.threads t).stack = .orderedLog :: .consume (.logging i first) next check :: st) :
      Step s t (.run t env) (s.setStack t (.consume
        (.recheck i (check.insert first.2).toList) (next.erase first) (check.insert first.2) :: st))
  /-- The inner loop meets a logger. -/
  | recheck {env : Env} {st : List Frame} {next : StdSet pairKey} {check : StdSet loggerKey}
      {i : ℕ} {l : Addr} {it : List Addr}
      (hst : (s.threads t).stack = .consume (.recheck i (l :: it)) next check :: st) :
      Step s t (.run t env) (s.setStack t (.consume (.tryAgain i l it) next check :: st))
  /-- The inner loop ends. -/
  | recheckEnd {env : Env} {st : List Frame} {next : StdSet pairKey} {check : StdSet loggerKey}
      {i : ℕ} (hst : (s.threads t).stack = .consume (.recheck i []) next check :: st) :
      Step s t (.run t env) (s.setStack t (.consume (.drain i) next check :: st))
  /-- The second `try_dequeue` succeeds. -/
  | againHit {env : Env} {st : List Frame} {next : StdSet pairKey} {check : StdSet loggerKey}
      {i : ℕ} {l : Addr} {it : List Addr} {r : Record} {q : List Record}
      (hst : (s.threads t).stack = .consume (.tryAgain i l it) next check :: st)
      (hq : s.queue l = r :: q) :
      Step s t (.run t env) ((s.setQueue l q).setStack t
        (.consume (.recheck i it) (next.insert (r, l)) (check.erase l) :: st))
  /-- The second `try_dequeue` finds the queue empty. -/
  | againMiss {env : Env} {st : List Frame} {next : StdSet pairKey} {check : StdSet loggerKey}
      {i : ℕ} {l : Addr} {it : List Addr}
      (hst : (s.threads t).stack = .consume (.tryAgain i l it) next check :: st)
      (hq : s.queue l = []) :
      Step s t (.run t env) (s.setStack t (.consume (.recheck i it) next check :: st))
  /-- `consume` unlocks and returns. -/
  | conUnlock {env : Env} {st : List Frame} {next : StdSet pairKey} {check : StdSet loggerKey}
      (hst : (s.threads t).stack = .consume .unlock next check :: st) :
      Step s t (.run t env) { s.setStack t st with mutex := none }

/-- The thread an action is of. -/
def Action.thread : Action → ThreadId
  | .log t _ _ => t
  | .consume t => t
  | .exit t => t
  | .run t _ => t

section Cases

variable {s s' : State} {t : ThreadId} {env : Env} {st : List Frame}

theorem advanceGet_cases {pc : GetPc} (hst : (s.threads t).stack = .getThreadLogger pc :: st)
    (h : advanceGet s t env st pc = some s') : Step s t (.run t env) s' := by
  cases pc with
  | test =>
    simp only [advanceGet] at h
    split at h
    · rename_i hi
      cases h
      exact Step.getFast hst hi
    · rename_i hi
      split at h
      · cases h
      · rename_i hnew
        cases h
        exact Step.getNew hst (Bool.not_eq_true _ ▸ hi) (by simpa using hnew)
  | lock =>
    simp only [advanceGet] at h
    split at h
    · rename_i hm
      cases h
      exact Step.getLock hst hm
    · cases h
  | push => cases h; exact Step.getPush hst
  | unlock => cases h; exact Step.getUnlock hst

theorem advanceLog_cases {c : LogCall} {item : LogMessage} {pc : LogPc}
    (hst : (s.threads t).stack = .realLogMsg c item pc :: st)
    (h : advanceLog s t env c item st pc = some s') : Step s t (.run t env) s' := by
  cases pc with
  | calling => cases h
  | stamp l => cases h; exact Step.stamp hst
  | enqueue l r => cases h; exact Step.enqueue hst

theorem advanceConsume_cases {next : StdSet pairKey} {check : StdSet loggerKey} {pc : ConsumePc}
    (hst : (s.threads t).stack = .consume pc next check :: st)
    (h : advanceConsume s t next check st pc = some s') : Step s t (.run t env) s' := by
  cases pc with
  | lock =>
    simp only [advanceConsume] at h
    split at h
    · rename_i hm
      cases h
      exact Step.conLock hst hm
    · cases h
  | outer i =>
    simp only [advanceConsume] at h
    split at h
    · rename_i l hl
      cases h
      exact Step.conOuter hst hl
    · rename_i hl
      cases h
      exact Step.conEnd hst hl
  | tryFirst i l =>
    simp only [advanceConsume] at h
    split at h
    · rename_i r q hq
      cases h
      exact Step.firstHit hst hq
    · rename_i hq
      cases h
      exact Step.firstMiss hst hq
  | drain i =>
    simp only [advanceConsume] at h
    split at h
    · rename_i first hf
      cases h
      exact Step.drainCall hst hf
    · rename_i hf
      cases h
      exact Step.drainEnd hst hf
  | logging i first => cases h
  | recheck i it =>
    cases it with
    | nil => cases h; exact Step.recheckEnd hst
    | cons l it => cases h; exact Step.recheck hst
  | tryAgain i l it =>
    simp only [advanceConsume] at h
    split at h
    · rename_i r q hq
      cases h
      exact Step.againHit hst hq
    · rename_i hq
      cases h
      exact Step.againMiss hst hq
  | unlock => cases h; exact Step.conUnlock hst

theorem returnOrdered_cases (hst : (s.threads t).stack = .orderedLog :: st)
    (h : returnOrdered s t st = some s') : Step s t (.run t env) s' := by
  unfold returnOrdered at h
  split at h
  · cases h; exact Step.ordered hst
  · cases h

theorem advance_cases (h : advance s t env = some s') : Step s t (.run t env) s' := by
  unfold advance at h
  split at h
  · cases h
  · rename_i hst; exact advanceGet_cases hst h
  · rename_i hst; exact advanceLog_cases hst h
  · rename_i hst; exact advanceConsume_cases hst h
  · rename_i hst; exact returnOrdered_cases hst h

/-- **There are no other steps.** -/
theorem step_cases {a : Action} (h : step s a = some s') : Step s a.thread a s' := by
  cases a with
  | log t c j =>
    simp only [step] at h
    split at h
    · rename_i hlog
      cases h
      exact Step.log hlog
    · cases h
  | consume t =>
    simp only [step, List.isEmpty_iff] at h
    split at h
    · rename_i hc
      cases h
      exact Step.consume hc.1 hc.2
    · cases h
  | exit t =>
    simp only [step, List.isEmpty_iff] at h
    split at h
    · rename_i hc
      cases h
      exact Step.exit hc.1
    · cases h
  | run t env => exact advance_cases h

end Cases

/-! ## Reading a state a step leaves -/

section Fields

variable (s : State) (t u : ThreadId) (th : Thread) (st : List Frame) (l l' : Addr)
  (q : List Record)

@[simp] theorem setThread_threads :
    (s.setThread t th).threads = Function.update s.threads t th := rfl

@[simp] theorem setThread_mutex : (s.setThread t th).mutex = s.mutex := rfl

@[simp] theorem setStack_loggers : (s.setStack t st).loggers = s.loggers := rfl

@[simp] theorem setQueue_threads : (s.setQueue l q).threads = s.threads := rfl

@[simp] theorem setStack_stack_self : ((s.setStack t st).threads t).stack = st := by
  simp [State.setStack]

variable {t u} in
@[simp] theorem setStack_threads_of_ne (h : u ≠ t) :
    (s.setStack t st).threads u = s.threads u := by
  simp [State.setStack, h]

@[simp] theorem setStack_logger :
    ((s.setStack t st).threads u).logger = (s.threads u).logger := by
  by_cases h : u = t
  · subst h; simp [State.setStack]
  · rw [setStack_threads_of_ne _ _ h]

@[simp] theorem setStack_closer :
    ((s.setStack t st).threads u).closer = (s.threads u).closer := by
  by_cases h : u = t
  · subst h; simp [State.setStack]
  · rw [setStack_threads_of_ne _ _ h]

@[simp] theorem setStack_initialized :
    ((s.setStack t st).threads u).initialized = (s.threads u).initialized := by
  by_cases h : u = t
  · subst h; simp [State.setStack]
  · rw [setStack_threads_of_ne _ _ h]

@[simp] theorem setStack_queue : (s.setStack t st).queue l = s.queue l := rfl

variable {s l} in
theorem setQueue_queue_self (h : (s.heap l).isSome) : (s.setQueue l q).queue l = q := by
  obtain ⟨lg, hlg⟩ := Option.isSome_iff_exists.1 h
  simp [State.queue, State.setQueue, hlg]

variable {l l'} in
theorem setQueue_queue_of_ne (h : l' ≠ l) : (s.setQueue l q).queue l' = s.queue l' := by
  simp [State.queue, State.setQueue, h]

variable {s l} in
/-- A queue that holds something is of an allocated logger. -/
theorem isSome_of_queue (h : s.queue l ≠ []) : (s.heap l).isSome := by
  by_contra hn
  rw [Option.not_isSome_iff_eq_none] at hn
  exact h (by simp [State.queue, hn])

end Fields

end Logger

end AppServer
