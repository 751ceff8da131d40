import AppServer.Lib.Coarsening
import AppServer.Logger.Drain
import AppServer.Logging.Progress

/-!
# A `consume` on the lock-free queues returns

An execution of the logger on its queues is one of the logger, that stands
idle while a queue is in the middle of a call, and one that is as fair. So a
`consume` drains the lock-free queues and returns (`queues_drained`).
-/

namespace AppServer

namespace Logging

open Lib
open Queue (BlockPtr)
open Logger (ThreadId Record Addr Env InConsume AtLock Custody)

variable {s s' : State} {t u : ThreadId} {a : Action} {acc : Access} {as : List Action}

/-- Addresses are as `new` gives them, `ordered_log` does not log, and there
is memory. -/
def DrainOk (s : State) (a : Action) : Prop :=
  Logger.DrainOk s.logger a.logger ∧ a.hasMemory = true

/-- The actions that are thread `t`'s next step. -/
def Action.isRun (t : ThreadId) (a : Action) : Prop := ∃ env mem, a = .run t env mem

/-! ## Who can move -/

/-- Memory for a queue. -/
theorem exists_construct :
    ∃ mem q, Blocking.construct (α := Record) MAX_BLOCK_SIZE maxSize mem = some q := by
  have hsome : (Blocking.construct (α := Record) MAX_BLOCK_SIZE maxSize fun i => i + 1).isSome :=
    by decide +kernel
  obtain ⟨q, hq⟩ := Option.isSome_iff_exists.1 hsome
  exact ⟨_, q, hq⟩

/-- Where the logger says that a thread can move, it can. -/
theorem enabled_of_logger (h : Refined s) (hc : Custody s.logger)
    (hen : Enabled Logger.step (Logger.Action.isRun t) s.logger) :
    Enabled step (Action.isRun t) s := by
  obtain ⟨la, lg', ⟨env, rfl⟩, hlg⟩ := hen
  cases hacc : access (s.logger.threads t).stack with
  | some acc =>
    obtain ⟨q, -, hgo⟩ := can_go_on h hc hacc
    obtain ⟨s', hs⟩ := hgo env (fun _ => Queue.nullptr) (Or.inl rfl)
    exact ⟨_, s', ⟨env, _, rfl⟩, hs⟩
  | none =>
    obtain ⟨mem, q, hq⟩ := exists_construct
    have hadv : Logger.advance s.logger t env = some lg' := hlg
    have hsome : ∃ s', advance s t env mem = some s' := by
      simp only [advance, hacc, hadv, Option.bind_some]
      split
      · exact ⟨_, by rw [hq]; rfl⟩
      · exact ⟨_, rfl⟩
    obtain ⟨s', hs⟩ := hsome
    exact ⟨_, s', ⟨env, mem, rfl⟩, hs⟩

/-! ## How long it moves unseen -/

/-- How many steps thread `t` takes at most before the logger sees one. -/
def State.unseen (s : State) (t : ThreadId) : ℕ :=
  (access (s.logger.threads t).stack).elim 0 (s.remaining t)

/-- A thread called upon from outside does not come to a queue by that. -/
theorem access_called {lg lg' : Logger.State} {la : Logger.Action}
    (h : Logger.Step lg t la lg') (hla : ∀ env, la ≠ .run t env) :
    access (lg'.threads t).stack = none := by
  cases h with
  | log hlog => rw [Logger.setStack_stack_self]; rfl
  | consume hst => rw [Logger.setStack_stack_self]; rfl
  | exit hst => simp [hst, access]
  | _ => exact absurd rfl (hla _)

/-- The mover is at a queue, or the logger sees the step. -/
theorem seen_of_away (hs : step s a = some s')
    (hacc : access (s.logger.threads a.logger.thread).stack = none) :
    Logger.step s.logger a.logger = some s'.logger := by
  have hcases := step_cases hs
  cases hcases with
  | plain _ _ hlg => exact hlg
  | makes _ _ hlg => exact hlg
  | enqueue hat => rw [hacc] at hat; cases hat
  | enqueueOn hat => rw [hacc] at hat; cases hat
  | enqueued _ hat => rw [hacc] at hat; cases hat
  | dropped _ hat => rw [hacc] at hat; cases hat
  | tryDequeue hat => rw [hacc] at hat; cases hat
  | tryDequeueOn hat => rw [hacc] at hat; cases hat
  | tryDequeued _ hat => rw [hacc] at hat; cases hat

/-- Each step the logger does not see brings one it sees closer. -/
theorem unseen_step (h : Refined s) (hs : step s a = some s')
    (hnot : ¬ (a.isRun t ∧ Logger.step s.logger a.logger = some s'.logger)) :
    s'.unseen t ≤ s.unseen t ∧ (a.isRun t → s'.unseen t < s.unseen t) := by
  have hm := moves h (step_cases hs) rfl
  by_cases ht : a.logger.thread = t
  · subst ht
    cases hacc : access (s.logger.threads a.logger.thread).stack with
    | some acc =>
      have hlt := remaining_own h hm hacc
      have hle : s'.unseen a.logger.thread < s.unseen a.logger.thread := by
        rw [State.unseen, State.unseen, hacc, Option.elim_some]
        cases hacc' : access (s'.logger.threads a.logger.thread).stack with
        | none => exact Nat.zero_lt_of_lt hlt
        | some acc' =>
          obtain rfl : acc' = acc := hm.access_eq hacc hacc'
          exact hlt
      exact ⟨hle.le, fun _ => hle⟩
    | none =>
      have hseen := seen_of_away hs hacc
      have hcalled : ∀ env, a.logger ≠ .run a.logger.thread env := by
        intro env hrun
        refine hnot ⟨?_, hseen⟩
        cases a with
        | run u env' mem => exact ⟨env', mem, rfl⟩
        | _ => cases hrun
      have hacc' := access_called (Logger.step_cases hseen) hcalled
      rw [State.unseen, State.unseen, hacc, hacc']
      refine ⟨le_refl _, ?_⟩
      rintro ⟨env, mem, ha⟩
      exact absurd (congrArg Action.logger ha) (hcalled env)
  · have hstack := (step_cases hs).threads_of_ne rfl (Ne.symm ht)
    have heq : s'.unseen t = s.unseen t := by
      rw [State.unseen, State.unseen, hstack]
      cases hacc : access (s.logger.threads t).stack with
      | none => rfl
      | some acc => exact remaining_other h hm ht hacc hstack
    refine ⟨heq.le, ?_⟩
    rintro ⟨env, mem, rfl⟩
    exact absurd rfl ht

/-! ## The logger's execution -/

section Executions

variable {e : Execution step DrainOk} {n m k : ℕ}

/-- The invariant of the states. -/
structure Drained (s : State) : Prop where
  refined : Refined s
  drainable : Logger.Drainable s.logger
  /-- A run of the logger's leads there. -/
  run : ∃ bs, Run Logger.step Logger.DrainOk Logger.State.initial bs s.logger

theorem drained_initial : Drained State.initial :=
  ⟨refined_initial, Logger.drainable_initial, [], .nil⟩

/-- With memory there is nothing but the logger's steps. -/
theorem acts_or_still (h : Refined s) (hok : DrainOk s a) (hs : step s a = some s') :
    Execution.Acts Logger.step Logger.DrainOk State.logger Action.logger s a s' ∨
      s'.logger = s.logger := by
  cases (h.step hs).2 with
  | still hsame => exact Or.inr hsame
  | act hlg => exact Or.inl ⟨hok.1, hlg⟩
  | drop hnone =>
    rw [hok.2] at hnone
    cases hnone

theorem drained_step (h : Drained s) (hok : DrainOk s a) (hs : step s a = some s') :
    Drained s' := by
  have hrefined := (h.refined.step hs).1
  rcases acts_or_still h.refined hok hs with ⟨hok', hlg⟩ | hsame
  · obtain ⟨bs, hr⟩ := h.run
    exact ⟨hrefined, Logger.drainable_step h.drainable hok' hlg, _, hr.snoc hok' hlg⟩
  · exact ⟨hrefined, hsame ▸ h.drainable, hsame ▸ h.run⟩

theorem drained (h₀ : Run step DrainOk State.initial as (e.state 0)) (n : ℕ) :
    Drained (e.state n) :=
  e.invariant (I := Drained)
    (h₀.invariant drained_initial fun _ _ _ hI hok hs => drained_step hI hok hs)
    (fun _ _ _ hI hok hs => drained_step hI hok hs) (Nat.zero_le n)

/-- What the logger sees of it. -/
noncomputable def seen (e : Execution step DrainOk) (hI : ∀ n, Drained (e.state n)) :
    Execution Logger.step Logger.DrainOk :=
  e.coarsen State.logger Action.logger fun n _ hok hs => acts_or_still (hI n).refined hok hs

theorem seen_fair (hI : ∀ n, Drained (e.state n)) (hfair : e.Fair (Action.isRun t)) :
    (seen e hI).Fair (Logger.Action.isRun t) := by
  refine Execution.coarsen_fair (r := fun s => s.unseen t) hfair ?_ ?_ ?_
  · rintro a ⟨env, mem, rfl⟩
    exact ⟨env, rfl⟩
  · exact fun n hen => enabled_of_logger (hI n).refined (hI n).drainable.custody hen
  · intro n a hok hs hnot
    exact unseen_step (hI n).refined hs fun hseen => hnot ⟨hseen.1, hok.1, hseen.2⟩

/-- From step `n` to step `m` thread `t` is in the call of `consume` it is in
at step `n`. -/
def DuringCall (e : Execution step DrainOk) (t : ThreadId) (n m : ℕ) : Prop :=
  n ≤ m ∧ ∀ k, n ≤ k → k ≤ m → InConsume (e.state k).logger t

/-- Thread `t` takes the lock in `consume` at step `k`. -/
def Acquires (e : Execution step DrainOk) (t : ThreadId) (k : ℕ) : Prop :=
  AtLock (e.state k).logger t ∧ (e.state (k + 1)).logger.mutex = some t

/-- What is in a lock-free queue was enqueued. -/
theorem enqueued_of_contents {l : Addr} {q : Blocking.State Record} {r : Record} (h : Drained s)
    (hq : s.messages l = some q) (hr : r ∈ q.contents) :
    ∃ g, (g, l) ∈ s.logger.enqueued ∧ bare g = bare r := by
  have hmem := List.mem_map_of_mem (f := bare) hr
  rw [← (h.refined.queues l q hq).contents] at hmem
  obtain ⟨g, hg, hbare⟩ := List.mem_map.1 hmem
  obtain ⟨bs, hrun⟩ := h.run
  have hA := Logger.accounted (hrun.mono fun _ _ hok => hok.1)
  have hl : l ∈ s.logger.loggers := by
    by_contra hnot
    rw [hA.discipline.registry.empty l hnot] at hg
    cases hg
  have hqueued : (g, l) ∈ s.logger.queued :=
    List.mem_flatMap.2 ⟨l, hl, List.mem_map_of_mem hg⟩
  exact ⟨g, hA.enqueued_perm.mem_iff.2 (List.mem_append_right _ hqueued), hbare⟩

/-- Every record that was in a queue in `s`, and every other that had been
enqueued, has been passed to `ordered_log` in `s'`. -/
def PassedOn (s s' : State) : Prop :=
  (∀ p ∈ s.logger.enqueued, p ∈ s'.logger.passed) ∧
    ∀ l q, s.messages l = some q → ∀ r ∈ q.contents,
      ∃ g, (g, l) ∈ s'.logger.passed ∧ bare g = bare r

theorem passedOn (h : Drained s) (hpassed : ∀ p ∈ s.logger.enqueued, p ∈ s'.logger.passed) :
    PassedOn s s' := by
  refine ⟨hpassed, fun l q hq r hr => ?_⟩
  obtain ⟨g, hg, hbare⟩ := enqueued_of_contents h hq hr
  exact ⟨g, hpassed _ hg, hbare⟩

theorem atLock_of_consume (hs : step s (.consume t) = some s') : AtLock s'.logger t := by
  obtain ⟨lg', hlg, rfl⟩ := Option.map_eq_some_iff.1 hs
  exact Logger.atLock_of_consume (Logger.step_cases hlg) rfl

/-- **`consume` drains the lock-free queues and returns**, whatever the threads
that log are in the middle of on their sides: every call of it comes to the
lock first; a call that is the only one, with boundedly many records enqueued
while it lasts, returns if every thread that can go on does, and if it was at
its lock it has taken it on the way and has passed on what was in the queues
then; and whenever a call that has taken the lock has returned, every record that was in
a queue when it took the lock, and every other that had been enqueued, has
been passed to `ordered_log`. -/
theorem queues_drained (h₀ : Run step DrainOk State.initial as (e.state 0)) :
    (∀ t n, e.action n = some (.consume t) → AtLock (e.state (n + 1)).logger t) ∧
    (∀ t n, InConsume (e.state n).logger t → (∀ u, e.Fair (Action.isRun u)) →
      (∀ m u, DuringCall e t n m → u ≠ t → ¬ InConsume (e.state m).logger u) →
      (∃ b, ∀ m, DuringCall e t n m → (e.state m).logger.enqueued.length ≤ b) →
      ∃ m, DuringCall e t n m ∧ ((e.state (m + 1)).logger.threads t).stack = [] ∧
        (AtLock (e.state n).logger t →
          ∃ k, n ≤ k ∧ k < m ∧ Acquires e t k ∧ PassedOn (e.state k) (e.state (m + 1)))) ∧
    ∀ t k m, Acquires e t k → k < m → ((e.state m).logger.threads t).stack = [] →
      PassedOn (e.state k) (e.state m) := by
  have hI := drained h₀
  refine ⟨fun t n ha => ?_, fun t n hcall hfair halone hbound => ?_, fun t k m hk hm hst => ?_⟩
  · rcases e.next n with ⟨hidle, -⟩ | ⟨a, ha', -, hs⟩
    · rw [hidle] at ha
      cases ha
    · obtain rfl := Option.some.inj (ha'.symm.trans ha)
      exact atLock_of_consume hs
  · obtain ⟨b, hb⟩ := hbound
    obtain ⟨m, hduring, hst, hdelivers⟩ := Logger.consume_delivers (e := seen e hI)
      (fun m => (hI m).drainable) (fun m => (hI m).run) hcall (fun u => seen_fair hI (hfair u))
      halone hb
    refine ⟨m, hduring, hst, fun hlock => ?_⟩
    obtain ⟨k, hk, hkm, hacq, hpassed⟩ := hdelivers hlock
    exact ⟨k, hk, hkm, hacq, passedOn (hI k) hpassed⟩
  · have hpassed := Logger.consume_completes (e := seen e hI) (fun m => (hI m).run) hk hm hst
    exact passedOn (hI k) hpassed

/-- Thread 0 has logged, and thread 1 has called `consume`. -/
def drainStart : List Action := sampleLog 0 :: walk 0 0 15 1 ++ [.consume 1]

/-- Thread 1 goes on to its return. -/
def drainRest : List Action := walk 1 15 26 1

/-- What is assumed, so that it can be checked, and that thread 1 moves. -/
def drainChecked (s : State) (a : Action) : Bool :=
  Logger.freshBelow 2 s.logger a.logger && decide (Logger.QuietLog s.logger a.logger) &&
    a.hasMemory && a.logger.thread == 1

/-- Two records are in a queue; the call takes the lock, passes them on and
returns. -/
theorem queues_drained_sample : ∃ e : Execution step DrainOk,
    Run step DrainOk State.initial drainStart (e.state 0) ∧ AtLock (e.state 0).logger 1 ∧
    (e.state 0).logger.enqueued.length = 2 ∧
    ∃ k m, k < m ∧ Acquires e 1 k ∧ ((e.state m).logger.threads 1).stack = [] ∧
      ∀ p ∈ (e.state 0).logger.enqueued, p ∈ (e.state m).logger.passed := by
  obtain ⟨s, hs, hat, hlen, hidle₀, hrest⟩ : ∃ s, Run step (fun s a =>
      (Logger.freshBelow 2 s.logger a.logger && decide (Logger.QuietLog s.logger a.logger) &&
        a.hasMemory) = true) State.initial drainStart s ∧
      AtLock s.logger 1 ∧ s.logger.enqueued.length = 2 ∧ (s.logger.threads 0).stack.length = 0 ∧
      (exec (guarded step fun s a => drainChecked s a = true) s drainRest).any (fun s' => decide
        ((s'.logger.threads 0).stack.length = 0 ∧ (s'.logger.threads 1).stack.length = 0)) = true :=
    Run.exists_of_exec (by decide +kernel)
  obtain ⟨s', hs', hempty₀, hempty₁⟩ := Run.exists_of_exec hrest
  obtain ⟨hrun, hrefined, hidle⟩ := fresh_of_checked (n := 2) refined_initial (fun _ _ => rfl)
    (fun s a h => by simp only [Bool.and_eq_true] at h; exact h.1.1) hs
  obtain ⟨hrun', -, hidle'⟩ := fresh_of_checked (n := 2) hrefined hidle
    (fun s a h => by simp only [drainChecked, Bool.and_eq_true] at h; exact h.1.1.1) hs'
  have hmoves : Run step (fun s a => DrainOk s a ∧ a.logger.thread = 1) s drainRest s' :=
    hrun'.mono fun s a h => by
      simp only [drainChecked, Bool.and_eq_true, decide_eq_true_eq, beq_iff_eq] at h
      exact ⟨⟨⟨h.1, h.2.1.1.2⟩, h.2.1.2⟩, h.2.2⟩
  obtain ⟨e, he, hend⟩ := Execution.of_run hmoves
  have htwo : ∀ u : ℕ, ¬ 2 ≤ u → u = 0 ∨ u = 1 := by omega
  -- at the end of the run nobody is in a call, so that idling is fair
  have hempty : ∀ u, (s'.logger.threads u).stack = [] := by
    intro u
    by_cases hu : 2 ≤ u
    · exact hidle' u hu
    · rcases htwo u hu with rfl | rfl
      · exact List.eq_nil_of_length_eq_zero hempty₀
      · exact List.eq_nil_of_length_eq_zero hempty₁
  have hlock : AtLock (e.state 0).logger 1 := he ▸ hat
  have hstart : Run step DrainOk State.initial drainStart (e.state 0) :=
    he ▸ hrun.mono fun s a h => by
      simp only [Bool.and_eq_true, decide_eq_true_eq] at h
      exact ⟨⟨h.1, h.2.1.2⟩, h.2.2⟩
  refine ⟨e.mono fun _ _ h => h.1, hstart, hlock, ?_, ?_⟩
  · show (e.state 0).logger.enqueued.length = 2
    rw [he]
    exact hlen
  · have hfair : ∀ u, (e.mono fun _ _ h => h.1 : Execution step DrainOk).Fair
        (Action.isRun u) := by
      refine fun u n => ⟨n + drainRest.length, Nat.le_add_right _ _, Or.inr ?_⟩
      rintro ⟨a, s'', ⟨env, mem, rfl⟩, hstep⟩
      change step (e.state _) _ = _ at hstep
      rw [hend _ (Nat.le_add_left _ _)] at hstep
      simp [step, advance, access, Logger.advance, hempty u] at hstep
    have halone : ∀ m u, u ≠ 1 → ((e.state m).logger.threads u).stack = [] := by
      intro m u hu
      refine e.invariant (I := fun s => (s.logger.threads u).stack = []) ?_
        (fun s a s' hI hok hs => ?_) (Nat.zero_le m)
      · rw [he]
        by_cases hu2 : 2 ≤ u
        · exact hidle u hu2
        · obtain rfl := (htwo u hu2).resolve_right hu
          exact List.eq_nil_of_length_eq_zero hidle₀
      · rw [(step_cases hs).threads_of_ne rfl (by rw [hok.2]; exact hu)]
        exact hI
    have hI := drained (e := e.mono fun _ _ h => h.1) hstart
    have hbound : ∀ m, (e.state m).logger.enqueued.length ≤ s'.logger.enqueued.length := by
      intro m
      rw [← hend (m + drainRest.length) (Nat.le_add_left _ _)]
      exact Logger.enqueued_length_mono (e := seen (e.mono fun _ _ h => h.1) hI)
        (Nat.le_add_right _ _)
    have hkept : ∀ m, ∀ p ∈ (e.state 0).logger.enqueued, p ∈ (e.state m).logger.enqueued :=
      fun m p => Logger.mem_enqueued_of_le (e := seen (e.mono fun _ _ h => h.1) hI)
        (Nat.zero_le m)
    obtain ⟨m, -, hst, hdelivers⟩ := (queues_drained hstart).2.1 1 0 hlock.inConsume hfair
      (by
        rintro m u - hu ⟨pc, next, check, hf⟩
        change _ ∈ ((e.state m).logger.threads u).stack at hf
        rw [halone m u hu] at hf
        cases hf) ⟨_, fun m _ => hbound m⟩
    obtain ⟨k, -, hkm, hacq, hpassed⟩ := hdelivers hlock
    exact ⟨k, m + 1, Nat.lt_succ_of_lt hkm, hacq, hst, fun p hp => hpassed.1 p (hkept k p hp)⟩

end Executions

end Logging

end AppServer
