import AppServer.Logger.Discipline

/-!
# Where a record comes from

Every record in the system carries the call it was made for. The invariant
here says that it says what the call said, that its `when` is what the
memory of the copy happened to hold, and that it was enqueued on the logger
of the thread that made the call.
-/

namespace AppServer

namespace Logger

open Lib

/-- A record made by `t`: it says what its call said, and its `when` is the
leftover of the copy. -/
structure Record.MadeBy (r : Record) (t : ThreadId) : Prop where
  thread : r.thread = t
  content : r.msg.Carries r.call
  when : r.msg.when = r.leftover

/-- A call of `real_log_msg` is handling the item of its call. -/
def Frame.Handles (t : ThreadId) : Frame → Prop
  | .realLogMsg c item .calling => item.Carries c
  | .realLogMsg c item (.stamp _) => item.Carries c
  | .realLogMsg c item (.enqueue _ r) => item.Carries c ∧ r.call = c ∧ r.MadeBy t
  | _ => True

/-- Every record is what its provenance says it is. -/
structure Provenance (s : State) : Prop where
  frames : ∀ t, ∀ f ∈ (s.threads t).stack, f.Handles t
  enqueued : ∀ p ∈ s.enqueued, p.1.MadeBy p.1.thread ∧
    (s.threads p.1.thread).stage = .registered p.2

theorem provenance_initial : Provenance State.initial where
  frames _ _ h := by cases h
  enqueued _ h := by cases h

section Step

variable {s s' : State} {t : ThreadId} {a : Action}

theorem newRecord_madeBy {c : LogCall} {item : LogMessage} {env : Env} (h : item.Carries c) :
    (newRecord c item t env).MadeBy t :=
  ⟨rfl, (h.stamp env.clock).copy env.leftover, rfl⟩

theorem handles_returnLogger {l : Addr} {st : List Frame} (h : ∀ f ∈ st, f.Handles t) :
    ∀ f ∈ returnLogger l st, f.Handles t := by
  unfold returnLogger
  split
  · rename_i c item st
    intro f hf
    rcases List.mem_cons.1 hf with rfl | hf
    · exact h (.realLogMsg c item .calling) List.mem_cons_self
    · exact h f (List.mem_cons_of_mem _ hf)
  · exact h

/-- Registered threads stay so. -/
theorem stage_registered_step {u : ThreadId} {l : Addr} (h : Step s t a s')
    (hs : StacksOk s) (hu : (s.threads u).stage = .registered l) :
    (s'.threads u).stage = .registered l := by
  by_cases hut : u = t
  · subst hut
    have hok := hs u
    cases h with
    | exit => simpa [Thread.stage] using hu
    | getNew hst hi hnew =>
      have := hok
      rw [hst] at this
      rw [stage_of_not_initialized this.inv_test.1 hi] at hu
      cases hu
    | getPush hst =>
      rw [hst] at hok
      obtain ⟨l', c, item, hg, -⟩ := hok.inv_push
      rw [hg] at hu
      cases hu
    | _ => simpa using hu
  · rw [threads_of_ne h hut]; exact hu

/-- **One step keeps the mover's frames in order.** -/
theorem handles_step (h : Step s t a s') (hf : ∀ f ∈ (s.threads t).stack, f.Handles t) :
    ∀ f ∈ (s'.threads t).stack, f.Handles t := by
  cases h with
  | log =>
    -- the macro builds the message from the call
    rw [setStack_stack_self]
    intro f hm
    rcases List.mem_cons.1 hm with rfl | hm
    · trivial
    · rcases List.mem_cons.1 hm with rfl | hm
      · exact LogCall.message_carries _ _
      · exact hf f hm
  | consume => simp [Frame.Handles]
  | exit hst => simp [hst]
  | getFast hst =>
    rw [hst, List.forall_mem_cons] at hf
    rw [setStack_stack_self]
    exact handles_returnLogger hf.2
  | getNew hst =>
    rw [hst, List.forall_mem_cons] at hf
    simp only [Function.update_self, List.forall_mem_cons]
    exact ⟨trivial, hf.2⟩
  | getLock hst =>
    rw [hst, List.forall_mem_cons] at hf
    show ∀ f ∈ ((s.setStack t _).threads t).stack, _
    simp only [setStack_stack_self, List.forall_mem_cons]
    exact ⟨trivial, hf.2⟩
  | getPush hst =>
    -- so is the message of the registration
    rw [hst, List.forall_mem_cons] at hf
    simp only [Function.update_self, List.forall_mem_cons]
    exact ⟨trivial, LogCall.message_carries _ _, trivial, hf.2⟩
  | getUnlock hst =>
    rw [hst, List.forall_mem_cons] at hf
    show ∀ f ∈ ((s.setStack t _).threads t).stack, _
    rw [setStack_stack_self]
    exact handles_returnLogger hf.2
  | stamp hst =>
    rw [hst, List.forall_mem_cons] at hf
    rw [setStack_stack_self, List.forall_mem_cons]
    have hcar : LogMessage.Carries _ _ := hf.1
    exact ⟨⟨hcar.stamp _, rfl, newRecord_madeBy hcar⟩, hf.2⟩
  | ordered hst =>
    rw [hst, List.forall_mem_cons, List.forall_mem_cons] at hf
    rw [setStack_stack_self, List.forall_mem_cons]
    exact ⟨trivial, hf.2.2⟩
  | drainCall hst =>
    rw [hst, List.forall_mem_cons] at hf
    show ∀ f ∈ ((s.setStack t _).threads t).stack, _
    simp only [setStack_stack_self, List.forall_mem_cons]
    exact ⟨trivial, trivial, hf.2⟩
  | enqueue hst | conUnlock hst =>
    rw [hst, List.forall_mem_cons] at hf
    show ∀ f ∈ ((State.setStack _ t _).threads t).stack, _
    rw [setStack_stack_self]
    exact hf.2
  | conLock hst | conOuter hst | conEnd hst | firstHit hst | firstMiss hst | drainEnd hst
    | recheck hst | recheckEnd hst | againHit hst | againMiss hst =>
    rw [hst, List.forall_mem_cons] at hf
    show ∀ f ∈ ((State.setStack _ t _).threads t).stack, _
    simp only [setStack_stack_self, List.forall_mem_cons]
    exact ⟨trivial, hf.2⟩

/-- What a step adds to the history of enqueues: nothing, or one record the
thread was in the middle of enqueuing. -/
theorem enqueued_step (h : Step s t a s') :
    s'.enqueued = s.enqueued ∨ ∃ c item l r st,
      (s.threads t).stack = .realLogMsg c item (.enqueue l r) :: st ∧
      s'.enqueued = s.enqueued ++ [({ r with serial := s.enqueued.length }, l)] := by
  cases h with
  | enqueue hst => exact Or.inr ⟨_, _, _, _, _, hst, rfl⟩
  | _ => exact Or.inl rfl

/-- **One step keeps the provenance.** -/
theorem provenance_step (h : Step s t a s') (hs : StacksOk s) (hp : Provenance s) :
    Provenance s' where
  frames u := by
    by_cases hut : u = t
    · subst hut; exact handles_step h (hp.frames u)
    · rw [threads_of_ne h hut]; exact hp.frames u
  enqueued p hmem := by
    have hold : p ∈ s.enqueued → p.1.MadeBy p.1.thread ∧
        (s'.threads p.1.thread).stage = .registered p.2 := fun hm =>
      ⟨(hp.enqueued p hm).1, stage_registered_step h hs (hp.enqueued p hm).2⟩
    rcases enqueued_step h with he | ⟨c, item, l, r, st, hst, he⟩
    · exact hold (he ▸ hmem)
    · rw [he, List.mem_append, List.mem_singleton] at hmem
      rcases hmem with hm | rfl
      · exact hold hm
      · have hframe : Frame.realLogMsg c item (.enqueue l r) ∈ (s.threads t).stack := by
          rw [hst]; exact List.mem_cons_self
        have hmade : r.MadeBy t := (hp.frames t _ hframe).2.2
        have hok := hs t
        rw [hst] at hok
        have hreg : (s'.threads t).stage = .registered l :=
          stage_registered_step h hs hok.inv_enqueue.1
        refine ⟨⟨rfl, hmade.content, hmade.when⟩, ?_⟩
        simp only [hmade.thread]
        exact hreg

end Step

/-- **Every record's provenance is true**, in every reachable state. -/
theorem provenance {s : State} (h : Reachable s) : Provenance s := by
  refine (h.invariant (I := fun s => Discipline s ∧ Provenance s)
    ⟨discipline_initial, provenance_initial⟩ ?_).2
  intro s a s' hI hs
  exact ⟨discipline_step hI.1 hs, provenance_step (step_cases hs) hI.1.grammar hI.2⟩

end Logger

end AppServer
