import AppServer.Blocking.Step
import AppServer.Logger.Step
import AppServer.Logging.Model

/-!
# What a step of the logger on its queues can do

As for the logger and the queues: one constructor a branch, and `step_cases`
for that there are no others.
-/

namespace AppServer

namespace Logging

open Queue (BlockPtr)
open Logger (Addr ThreadId Record Frame Env)

/-- What `malloc` returns to `enqueue`. -/
def Action.malloc : Action → BlockPtr
  | .run _ _ mem => mem 0
  | _ => Queue.nullptr

/-- `malloc` has memory, if it is called. -/
def Action.hasMemory : Action → Bool
  | .run _ _ mem => mem 0 != Queue.nullptr
  | _ => true

/-- The steps. `la` is the logger's action, `t` the thread that moves and `m`
what `malloc` returns to it. -/
inductive Step (s : State) (t : ThreadId) (la : Logger.Action) (m : BlockPtr) : State → Prop where
  /-- The thread is at no queue. -/
  | plain {lg' : Logger.State} (hacc : access (s.logger.threads t).stack = none)
      (hnew : allocates (s.logger.threads t) = false)
      (hlg : Logger.step s.logger la = some lg') : Step s t la m (s.setLogger lg')
  /-- It makes its logger, and with it a queue. -/
  | makes {env : Env} {mem : ℕ → BlockPtr} {lg' : Logger.State} {q : Blocking.State Record}
      (hla : la = .run t env) (hnew : allocates (s.logger.threads t) = true)
      (hlg : Logger.step s.logger la = some lg')
      (hq : Blocking.construct MAX_BLOCK_SIZE maxSize mem = some q) :
      Step s t la m ((s.setLogger lg').setMessages env.logger q)
  /-- It calls `enqueue`. -/
  | enqueue {l : Addr} {newmsg : Record} {q q' : Blocking.State Record}
      (hacc : access (s.logger.threads t).stack = some (.enqueue l newmsg))
      (hq : s.messages l = some q) (hcalling : q.producer.calling = false)
      (hs : Blocking.step MAX_BLOCK_SIZE.toNat spins q (.enqueue .canAlloc newmsg) = some q') :
      Step s t la m (s.setMessages l q')
  /-- `enqueue` goes on. -/
  | enqueueOn {l : Addr} {newmsg : Record} {q q' : Blocking.State Record}
      (hacc : access (s.logger.threads t).stack = some (.enqueue l newmsg))
      (hq : s.messages l = some q) (hcalling : q.producer.calling = true)
      (hs : Blocking.step MAX_BLOCK_SIZE.toNat spins q (.produce m) = some q')
      (hgo : ∀ b, q'.producer ≠ .returned b) : Step s t la m (s.setMessages l q')
  /-- It returns `true`, and `real_log_msg` with it. -/
  | enqueued {env : Env} {l : Addr} {newmsg : Record} {lg' : Logger.State}
      {q q' : Blocking.State Record} (hla : la = .run t env)
      (hacc : access (s.logger.threads t).stack = some (.enqueue l newmsg))
      (hq : s.messages l = some q) (hcalling : q.producer.calling = true)
      (hs : Blocking.step MAX_BLOCK_SIZE.toNat spins q (.produce m) = some q')
      (hret : q'.producer = .returned true) (hlg : Logger.step s.logger la = some lg') :
      Step s t la m ((s.setMessages l q').setLogger lg')
  /-- It returns `false`. -/
  | dropped {env : Env} {l : Addr} {newmsg : Record} {q q' : Blocking.State Record}
      (hla : la = .run t env)
      (hacc : access (s.logger.threads t).stack = some (.enqueue l newmsg))
      (hq : s.messages l = some q) (hcalling : q.producer.calling = true)
      (hs : Blocking.step MAX_BLOCK_SIZE.toNat spins q (.produce m) = some q')
      (hret : q'.producer = .returned false) :
      Step s t la m ((s.setMessages l q').drop t l newmsg)
  /-- It calls `try_dequeue`. -/
  | tryDequeue {l : Addr} {q q' : Blocking.State Record}
      (hacc : access (s.logger.threads t).stack = some (.tryDequeue l))
      (hq : s.messages l = some q) (hcalling : q.consumer.calling = false)
      (hs : Blocking.step MAX_BLOCK_SIZE.toNat spins q (.dequeue .tryDequeue) = some q') :
      Step s t la m (s.setMessages l q')
  /-- `try_dequeue` goes on. -/
  | tryDequeueOn {l : Addr} {q q' : Blocking.State Record}
      (hacc : access (s.logger.threads t).stack = some (.tryDequeue l))
      (hq : s.messages l = some q) (hcalling : q.consumer.calling = true)
      (hs : Blocking.step MAX_BLOCK_SIZE.toNat spins q .consume = some q')
      (hgo : dequeued q'.consumer = none) : Step s t la m (s.setMessages l q')
  /-- It returns, and `consume` goes on with what it has returned. -/
  | tryDequeued {env : Env} {l : Addr} {result : Option Record} {lg' : Logger.State}
      {q q' : Blocking.State Record} (hla : la = .run t env)
      (hacc : access (s.logger.threads t).stack = some (.tryDequeue l))
      (hq : s.messages l = some q) (hcalling : q.consumer.calling = true)
      (hs : Blocking.step MAX_BLOCK_SIZE.toNat spins q .consume = some q')
      (hret : dequeued q'.consumer = some result)
      (hlg : Logger.step (s.logger.setQueue l (found (s.logger.queue l) result)) la = some lg') :
      Step s t la m ((s.setMessages l q').setLogger lg')

variable {s s' : State} {t : ThreadId} {env : Env} {l : Addr} {r : Record} {st : List Frame}
  {lg lg' : Logger.State} {la : Logger.Action}

theorem access_eq_enqueue (h : access st = some (.enqueue l r)) :
    ∃ c item st', st = .realLogMsg c item (.enqueue l r) :: st' := by
  unfold access at h
  split at h
  · obtain ⟨rfl, rfl⟩ := Access.enqueue.inj (Option.some.inj h)
    exact ⟨_, _, _, rfl⟩
  · cases h
  · cases h
  · cases h

/-- Where a thread goes on and `malloc` returns nothing. -/
theorem hasMemory_of_malloc {a : Action} (hla : a.logger = .run t env)
    (hnull : a.malloc = Queue.nullptr) : a.hasMemory = false := by
  cases a with
  | run u env' mem => exact bne_eq_false_iff_eq.2 hnull
  | _ => cases hla

theorem access_of_nil {th : Logger.Thread} (h : th.stack = []) :
    access th.stack = none ∧ allocates th = false := by
  simp [access, allocates, h]

theorem access_of_canLog {th : Logger.Thread} (h : th.canLog = true) :
    access th.stack = none ∧ allocates th = false := by
  unfold Logger.Thread.canLog at h
  split at h
  · exact access_of_nil ‹_›
  · rename_i hst
    simp [access, allocates, hst]
  · cases h

/-- A thread called upon from outside is at no queue. -/
theorem access_of_called (h : Logger.Step lg t la lg') (hla : ∀ u env, la ≠ .run u env) :
    access (lg.threads t).stack = none ∧ allocates (lg.threads t) = false := by
  cases h with
  | log hlog => exact access_of_canLog hlog
  | consume hst => exact access_of_nil hst
  | exit hst => exact access_of_nil hst
  | _ => exact absurd rfl (hla _ _)

theorem advanceEnqueue_cases {newmsg : Record} {m : BlockPtr}
    (hacc : access (s.logger.threads t).stack = some (.enqueue l newmsg))
    (h : advanceEnqueue s t env l newmsg m = some s') : Step s t (.run t env) m s' := by
  obtain ⟨q, hq, h⟩ := Option.bind_eq_some_iff.1 h
  split at h
  · rename_i hcalling
    obtain ⟨q', hs, h⟩ := Option.bind_eq_some_iff.1 h
    dsimp only at h
    split at h
    · rename_i hret
      obtain ⟨lg', hlg, rfl⟩ := Option.map_eq_some_iff.1 h
      exact .enqueued rfl hacc hq hcalling hs hret hlg
    · rename_i hret
      obtain rfl := Option.some.inj h
      exact .dropped rfl hacc hq hcalling hs hret
    · rename_i htrue hfalse
      obtain rfl := Option.some.inj h
      refine .enqueueOn hacc hq hcalling hs fun b hb => ?_
      cases b with
      | true => exact htrue hb
      | false => exact hfalse hb
  · rename_i hcalling
    obtain ⟨q', hs, rfl⟩ := Option.map_eq_some_iff.1 h
    exact .enqueue hacc hq (Bool.eq_false_iff.2 hcalling) hs

theorem advanceTryDequeue_cases {m : BlockPtr}
    (hacc : access (s.logger.threads t).stack = some (.tryDequeue l))
    (h : advanceTryDequeue s t env l = some s') : Step s t (.run t env) m s' := by
  obtain ⟨q, hq, h⟩ := Option.bind_eq_some_iff.1 h
  split at h
  · rename_i hcalling
    obtain ⟨q', hs, h⟩ := Option.bind_eq_some_iff.1 h
    dsimp only at h
    split at h
    · rename_i result hret
      obtain ⟨lg', hlg, rfl⟩ := Option.map_eq_some_iff.1 h
      exact .tryDequeued rfl hacc hq hcalling hs hret hlg
    · rename_i hgo
      obtain rfl := Option.some.inj h
      exact .tryDequeueOn hacc hq hcalling hs hgo
  · rename_i hcalling
    obtain ⟨q', hs, rfl⟩ := Option.map_eq_some_iff.1 h
    exact .tryDequeue hacc hq (Bool.eq_false_iff.2 hcalling) hs

/-- **A step is one of these.** -/
theorem step_cases {a : Action} (h : step s a = some s') :
    Step s a.logger.thread a.logger a.malloc s' := by
  have hcalled : ∀ la, (∀ t env, la ≠ .run t env) →
      (Logger.step s.logger la).map s.setLogger = some s' → Step s la.thread la a.malloc s' := by
    intro la hla h
    obtain ⟨lg', hlg, rfl⟩ := Option.map_eq_some_iff.1 h
    obtain ⟨hacc, hnew⟩ := access_of_called (Logger.step_cases hlg) hla
    exact .plain hacc hnew hlg
  cases a with
  | log t call leftover => exact hcalled _ (fun _ _ => Logger.Action.noConfusion) h
  | consume t => exact hcalled _ (fun _ _ => Logger.Action.noConfusion) h
  | exit t => exact hcalled _ (fun _ _ => Logger.Action.noConfusion) h
  | run t env mem =>
    simp only [step, advance] at h
    split at h
    · exact advanceEnqueue_cases ‹_› h
    · exact advanceTryDequeue_cases ‹_› h
    · rename_i hacc
      obtain ⟨lg', hlg, h⟩ := Option.bind_eq_some_iff.1 h
      split at h
      · rename_i hnew
        obtain ⟨q, hq, rfl⟩ := Option.map_eq_some_iff.1 h
        exact .makes rfl hnew hlg hq
      · rename_i hnew
        obtain rfl := Option.some.inj h
        exact .plain hacc (Bool.eq_false_iff.2 hnew) hlg

end Logging

end AppServer
