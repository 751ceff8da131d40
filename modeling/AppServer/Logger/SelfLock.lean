import AppServer.Logger.Discipline

/-!
# Locking what one holds

`get_thread_logger` takes `logger_mutex` where the thread has no logger yet,
and `consume` calls `ordered_log` with the lock held. `get_thread_logger`
sets `initialized` before it logs its own first message, so that the nested
call does not come to the lock; a consumer that logs from `ordered_log` is
safe in the same way where it has logged before, and locks the mutex it
holds where it has not.
-/

namespace AppServer

namespace Logger

open Lib

/-- The function is about to lock `logger_mutex`. -/
def Frame.locking : Frame → Bool
  | .getThreadLogger .lock => true
  | .consume .lock _ _ => true
  | _ => false

/-- The thread tries to lock `logger_mutex`. -/
def Thread.locking (th : Thread) : Bool := th.stack.head?.any Frame.locking

/-- **No thread tries to lock the mutex while it holds it.** -/
def NoSelfLock (s : State) : Prop :=
  ∀ t, s.holds t = true → (s.threads t).locking = false

/-- Where `ordered_log` uses a log macro, its thread has logged before. -/
def LogsRegistered (s : State) : Action → Prop
  | .log t _ _ => (s.threads t).stack.head? = some .orderedLog → (s.threads t).initialized = true
  | _ => True

variable {s s' : State} {t u : ThreadId} {a : Action} {as : List Action}

/-! ## Where consumers have logged before -/

/-- A context to log from does not begin with a call that may lock. -/
theorem LogContext.head_ne {g : Stage} {h : Bool} {st : List Frame} (hc : LogContext g h st) :
    st.head? ≠ some (.getThreadLogger .test) ∧ st.head?.any Frame.locking = false := by
  cases hc <;> simp [Frame.locking]

/-- A thread is not about to lock, and where it is asked for its logger it
has one. -/
def Thread.Safe (th : Thread) : Prop :=
  (th.stack.head? = some (.getThreadLogger .test) → th.initialized = true) ∧ th.locking = false

/-- A thread with some other function on top. -/
theorem Thread.Safe.of_head {th : Thread} {f : Frame} {st : List Frame} (hst : th.stack = f :: st)
    (hne : f ≠ .getThreadLogger .test) (hf : f.locking = false) : th.Safe := by
  refine ⟨fun h => ?_, by simp [Thread.locking, hst, hf]⟩
  rw [hst] at h
  exact absurd (Option.some.inj h) hne

/-- A thread in a context to log from. -/
theorem LogContext.safe {g : Stage} {h : Bool} {th : Thread} (hc : LogContext g h th.stack) :
    th.Safe :=
  ⟨fun hhead => absurd hhead hc.head_ne.1, hc.head_ne.2⟩

/-- Every thread that holds the lock is safe. -/
def HoldersSafe (s : State) : Prop := ∀ t, s.holds t = true → (s.threads t).Safe

/-- **The mover, after its step.** -/
theorem safe_step (h : Step s t a s') (hok : LogsRegistered s a) (hs : StacksOk s)
    (hI : HoldersSafe s) (hh : s'.holds t = true) : (s'.threads t).Safe := by
  have hgram := hs t
  cases h with
  | log hlog =>
    -- a holder that logs is in `ordered_log`, or registering
    have hhold : s.holds t = true := hh
    refine ⟨fun _ => ?_, by simp [Thread.locking, Frame.locking]⟩
    obtain ⟨-, hc⟩ := hgram.context_of_canLog hlog
    rw [setStack_initialized]
    rw [hhold] at hc
    generalize hst : (s.threads t).stack = st at hc
    generalize (s.threads t).stage = g at hc
    cases hc with
    | ordered => exact hok (by rw [hst]; rfl)
    | registering => simp [Thread.canLog, hst] at hlog
  | consume hst =>
    have hhold : s.holds t = true := hh
    rw [hst, hhold] at hgram
    cases hgram.inv_nil.2
  | exit hst =>
    have hhold : s.holds t = true := hh
    rw [hst, hhold] at hgram
    cases hgram.inv_nil.2
  | getFast hst =>
    rw [hst] at hgram
    obtain ⟨-, c, item, b, rfl, -⟩ := hgram.inv_test
    exact Thread.Safe.of_head (setStack_stack_self _ _ _) (by simp) rfl
  | getNew hst hi =>
    -- a holder comes to the test with its logger in hand
    have hinit := (hI t hh).1 (by rw [hst]; rfl)
    rw [hi] at hinit
    cases hinit
  | getPush => exact ⟨fun _ => by simp, by simp [Thread.locking, Frame.locking]⟩
  | getUnlock | conUnlock => cases hh
  | enqueue hst =>
    rw [hst] at hgram
    refine LogContext.safe (g := (s.threads t).stage) (h := s.holds t) ?_
    show LogContext _ _ ((State.setStack _ t _).threads t).stack
    rw [setStack_stack_self]
    exact hgram.inv_enqueue.1 ▸ hgram.inv_enqueue.2
  | getLock | conLock | drainCall =>
    exact Thread.Safe.of_head (setStack_stack_self _ _ _) (by simp) rfl
  | _ => exact Thread.Safe.of_head (setStack_stack_self _ _ _) (by simp) rfl

/-- **One step of a run whose consumers have logged before.** -/
theorem holdersSafe_step (h : Step s t a s') (hok : LogsRegistered s a) (hs : StacksOk s)
    (hI : HoldersSafe s) : HoldersSafe s' := by
  intro u hu
  by_cases hut : u = t
  · subst hut
    exact safe_step h hok hs hI hu
  · rw [holds_of_ne h hs hut] at hu
    rw [threads_of_ne h hut]
    exact hI u hu

/-- In such a run nobody locks what it holds. -/
theorem noSelfLock_of_registered (h : Run step LogsRegistered State.initial as s) :
    NoSelfLock s := by
  have hI := h.invariant (I := fun s => StacksOk s ∧ HoldersSafe s)
    ⟨stacksOk_initial, fun t ht => by cases ht⟩
    fun s a s' hI hok hs =>
      ⟨stacksOk_step (step_cases hs) hI.1, holdersSafe_step (step_cases hs) hok hI.1 hI.2⟩
  exact fun t ht => (hI.2 t ht).2

/-! ## Where one has not -/

/-- A thread without a logger is asked for it with the lock held. -/
structure Doomed (s : State) (t : ThreadId) : Prop where
  grammar : StacksOk s
  holds : s.holds t = true
  fresh : (s.threads t).initialized = false
  test : (s.threads t).stack.head? = some (.getThreadLogger .test)

theorem doomed_of_log {c : LogCall} {j : Timespec} (h : Step s t (.log t c j) s')
    (hd : StacksOk s) (hno : ¬ LogsRegistered s (.log t c j)) : Doomed s' t := by
  simp only [LogsRegistered, Classical.not_imp, Bool.not_eq_true] at hno
  have hgram := stacksOk_step h hd
  cases h with
  | log =>
    obtain ⟨st, hst⟩ := List.head?_eq_some_iff.1 hno.1
    have hok := hd t
    rw [hst] at hok
    exact ⟨hgram, hok.inv_ordered.2.1, by rw [setStack_initialized]; exact hno.2,
      by rw [setStack_stack_self]; rfl⟩

/-- The others cannot help it. -/
theorem Doomed.of_other (hD : Doomed s t) (h : Step s u a s') (hu : u ≠ t) : Doomed s' t where
  grammar := stacksOk_step h hD.grammar
  holds := by rw [holds_of_ne h hD.grammar hu.symm]; exact hD.holds
  fresh := by rw [threads_of_ne h hu.symm]; exact hD.fresh
  test := by rw [threads_of_ne h hu.symm]; exact hD.test

/-- A thread is at the lock it holds. -/
structure Deadlocked (s : State) (t : ThreadId) : Prop where
  grammar : StacksOk s
  holder : s.mutex = some t
  locking : (s.threads t).locking = true

/-- **Its next step is to the lock it holds.** -/
theorem Doomed.locks (hD : Doomed s t) (h : Step s t a s') : Deadlocked s' t := by
  have hm := holds_eq_true.1 hD.holds
  obtain ⟨st, htop⟩ := List.head?_eq_some_iff.1 hD.test
  have hne : (s.threads t).stack ≠ [] := by rw [htop]; exact List.cons_ne_nil _ _
  have hfresh := hD.fresh
  have hgram := stacksOk_step h hD.grammar
  cases h with
  | log hlog => simp [Thread.canLog, htop] at hlog
  | consume hst | exit hst => exact absurd hst hne
  | getFast _ hi =>
    rw [hi] at hfresh
    cases hfresh
  | getNew => exact ⟨hgram, hm, by simp [Thread.locking, Frame.locking]⟩
  | _ hst =>
    rw [htop] at hst
    cases hst

/-- Memory to allocate a logger in does not run out. -/
theorem heap_bounded_step (h : Step s t a s') (hb : ∃ n, ∀ l, n ≤ l → s.heap l = none) :
    ∃ n, ∀ l, n ≤ l → s'.heap l = none := by
  obtain ⟨n, hn⟩ := hb
  have hqueue : ∀ l q l', n ≤ l' → (s.setQueue l q).heap l' = none := by
    intro l q l' hl'
    by_cases he : l' = l
    · subst he
      simp [State.setQueue, hn l' hl']
    · simp [State.setQueue, he, hn l' hl']
  cases h with
  | exit =>
    refine ⟨n, fun l hl => ?_⟩
    show closeLogger s t l = none
    rw [closeLogger_apply, hn l hl]
    rfl
  | @getNew env =>
    refine ⟨max n (env.logger + 1), fun l hl => ?_⟩
    obtain ⟨hle, hlt⟩ := Nat.max_le.1 hl
    simp only [Function.update_of_ne (Nat.ne_of_gt hlt)]
    exact hn l hle
  | enqueue | firstHit | againHit => exact ⟨n, fun l hl => hqueue _ _ l hl⟩
  | _ => exact ⟨n, hn⟩

/-- It can take that step. -/
theorem Doomed.enabled (hD : Doomed s t) (hb : ∃ n, ∀ l, n ≤ l → s.heap l = none) :
    ∃ env, (step s (.run t env)).isSome := by
  obtain ⟨n, hn⟩ := hb
  obtain ⟨st, hst⟩ := List.head?_eq_some_iff.1 hD.test
  refine ⟨⟨n, 0, ⟨0, 0⟩, ⟨0, 0⟩, 0⟩, ?_⟩
  simp [step, advance, hst, advanceGet, hD.fresh, hn n (Nat.le_refl n)]

/-- From there it takes no step. -/
theorem Deadlocked.blocked (hD : Deadlocked s t) : ¬ Step s t a s' := by
  intro h
  have hm := hD.holder
  have hlock := hD.locking
  have hgram := hD.grammar t
  rw [holds_eq_true.2 hm] at hgram
  cases h with
  | log hlog =>
    obtain ⟨-, hc⟩ := hgram.context_of_canLog hlog
    rw [Thread.locking, hc.head_ne.2] at hlock
    cases hlock
  | getLock _ hfree | conLock _ hfree =>
    rw [hm] at hfree
    cases hfree
  | _ hst =>
    simp [Thread.locking, hst, Frame.locking] at hlock

/-- **And stays so for good.** -/
theorem Deadlocked.forever (hD : Deadlocked s t) (h : Run step anyStep s as s') :
    Deadlocked s' t := by
  refine h.invariant (I := fun s => Deadlocked s t) hD fun s a s' hD _ hs => ?_
  have hstep := step_cases hs
  have hne : t ≠ a.thread := by
    rintro rfl
    exact hD.blocked hstep
  refine ⟨stacksOk_step hstep hD.grammar, ?_, ?_⟩
  · rw [← holds_eq_true, holds_of_ne hstep hD.grammar hne]
    exact holds_eq_true.2 hD.holder
  · rw [threads_of_ne hstep hne]
    exact hD.locking

theorem Deadlocked.not_noSelfLock (hD : Deadlocked s t) : ¬ NoSelfLock s := by
  intro h
  have hlock := h t (holds_eq_true.2 hD.holder)
  rw [hD.locking] at hlock
  cases hlock

/-- **When no thread locks the mutex it holds.** In a run whose threads log
from `ordered_log` only once they have logged before, no thread ever tries to
lock the mutex while it holds it. And where one does not, then whatever the
other threads do meanwhile it is able to go on, and from its next step on it
tries to, for good. -/
theorem no_self_lock :
    (Run step LogsRegistered State.initial as s → NoSelfLock s) ∧
    (Reachable s → ∀ t c j s', step s (.log t c j) = some s' → ¬ LogsRegistered s (.log t c j) →
      ∀ bs s₁, Run step (fun _ b => b.thread ≠ t) s' bs s₁ →
        (∃ env, (step s₁ (.run t env)).isSome) ∧
        ∀ b s₂, b.thread = t → step s₁ b = some s₂ →
          ∀ cs s₃, Run step anyStep s₂ cs s₃ → ¬ NoSelfLock s₃) := by
  refine ⟨noSelfLock_of_registered, ?_⟩
  intro hreach t c j s' hs hno bs s₁ hrun
  have hbounded : ∃ n, ∀ l, n ≤ l → s'.heap l = none :=
    heap_bounded_step (step_cases hs) (hreach.invariant (I := fun s => ∃ n, ∀ l, n ≤ l →
      s.heap l = none) ⟨0, fun _ _ => rfl⟩ fun _ _ _ hb hs => heap_bounded_step (step_cases hs) hb)
  have hI := hrun.invariant (I := fun s => Doomed s t ∧ ∃ n, ∀ l, n ≤ l → s.heap l = none)
    ⟨doomed_of_log (step_cases hs) (discipline hreach).grammar hno, hbounded⟩
    fun s a s' hI hne hs =>
      ⟨hI.1.of_other (step_cases hs) hne, heap_bounded_step (step_cases hs) hI.2⟩
  refine ⟨hI.1.enabled hI.2, ?_⟩
  rintro b s₂ rfl hb cs s₃ hrun'
  exact ((hI.1.locks (step_cases hb)).forever hrun').not_noSelfLock

/-- Thread 1 has never logged. It consumes what thread 0 has logged, and logs
from `ordered_log`. -/
theorem consumer_locks_itself : ∃ s, exec step State.initial
      (sampleRun 9 4 ++ [.log 1 sampleCall ⟨0, 0⟩, .run 1 ⟨101, 300, ⟨9, 0⟩, ⟨0, 0⟩, 7⟩]) = some s ∧
    s.mutex = some 1 ∧ (s.threads 1).locking = true ∧ ¬ NoSelfLock s := by
  refine ⟨_, rfl, rfl, rfl, fun h => ?_⟩
  cases h 1 rfl

end Logger

end AppServer
