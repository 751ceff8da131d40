import AppServer.Blocking.Permits

/-!
# Waiting

A thread in a call can go on, and the assertions hold, but for a consumer
that sleeps on the semaphore (`calls_proceed`). It never sleeps with an
element there for it: one that was put in while it does is on its way to wake
it (`no_lost_wakeup`), and with the producer out of the way a call gets the
oldest element and does not sleep at all (`call_gets_oldest`).
-/

namespace AppServer

namespace Blocking

open Lib
open Queue (BlockPtr AllocationMode ConsumerOp ConsumerResult EmptySeen)

variable {α : Type*} {maxBlockSize : UInt64} {n spins : ℕ} {s s' : State α} {inner : Queue.State α}

/-! ## Nothing fails -/

/-- The consumer sleeps. -/
def State.Asleep (s : State α) : Prop := (∃ op, s.consumer = .semaWait op) ∧ s.sema = 0

/-- With a permit the queue inside can be called. -/
theorem Sound.can_dequeueInner {t : State α} (h : Sound s) (op : Op) (hinner : t.inner = s.inner)
    (hidle : s.inner.consumer.dequeuing = false) : ∃ s', Blocking.dequeueInner t op = some s' := by
  obtain ⟨inner, hin⟩ := h.inner.can_enter op.inner hidle
  exact ⟨_, by rw [Blocking.dequeueInner, hinner, hin]; rfl⟩

theorem success_gives {op : ConsumerOp} {x : α} (hop : op ≠ .peek) :
    success (op.gives x) = true := by
  cases op with
  | peek => exact absurd rfl hop
  | _ => rfl

/-- `assert(success)`. -/
theorem Sound.success {op : Op} {r : ConsumerResult α} (h : Sound s)
    (hpc : s.consumer = .dequeue op) (hin : Queue.step n s.inner .consume = some inner)
    (hret : inner.consumer = .returned r) : Blocking.success r = true := by
  have hat := h.consumer
  have hne := h.not_isEmpty (by rw [hpc]; rfl)
  rw [hpc] at hat
  have hseen := emptySeen_step h.inner hat.2 hne hin
  have hqs : Queue.ConsumerStep s.inner .consume inner := Queue.advanceConsumer_cases hin
  cases hqs.progress hat.1 with
  | on hop =>
    rw [hret] at hop
    cases hop
  | took _ hgives =>
    obtain rfl := Queue.ConsumerPc.returned.inj (hret.symm.trans hgives)
    exact success_gives op.inner_ne_peek
  | nothing hnothing =>
    rw [EmptySeen, hnothing] at hseen
    exact Bool.noConfusion (hseen ⟨_, rfl⟩)
  | found hop => exact absurd hop op.inner_ne_peek

theorem Sound.can_consume (h : Sound s) (hpc : s.consumer.calling = true) :
    (∃ s', Blocking.step n spins s .consume = some s') ∨ s.Asleep := by
  have hat := h.consumer
  show (∃ s', advanceConsumer spins s = some s') ∨ _
  cases hc : s.consumer with
  | idle => rw [hc] at hpc; cases hpc
  | returned r => rw [hc] at hpc; cases hpc
  | tryWait op =>
    refine Or.inl ?_
    simp only [advanceConsumer, hc]
    split
    · exact ⟨_, rfl⟩
    · cases op.timeout with
      | _ => exact ⟨_, rfl⟩
  | tryTake op =>
    rw [hc] at hat
    obtain ⟨s', hs'⟩ := h.can_dequeueInner (t := { s with count := s.count - 1 }) op rfl hat
    exact Or.inl ⟨s', by simp only [advanceConsumer, hc]; exact hs'⟩
  | spinning op spin =>
    refine Or.inl ?_
    simp only [advanceConsumer, hc]
    split
    · exact ⟨_, rfl⟩
    · exact ⟨_, rfl⟩
  | spinTake op =>
    rw [hc] at hat
    obtain ⟨s', hs'⟩ := h.can_dequeueInner (t := { s with count := s.count - 1 }) op rfl hat
    exact Or.inl ⟨s', by simp only [advanceConsumer, hc]; exact hs'⟩
  | take op =>
    rw [hc] at hat
    refine Or.inl ?_
    simp only [advanceConsumer, hc]
    split
    · exact h.can_dequeueInner (t := { s with count := s.count - 1 }) op rfl hat
    · exact ⟨_, rfl⟩
  | semaWait op =>
    rw [hc] at hat
    by_cases hsema : 0 < s.sema
    · obtain ⟨s', hs'⟩ := h.can_dequeueInner (t := { s with sema := s.sema - 1 }) op rfl hat
      exact Or.inl ⟨s', by simp only [advanceConsumer, hc, if_pos hsema]; exact hs'⟩
    · exact Or.inr ⟨⟨op, hc⟩, Nat.eq_zero_of_not_pos hsema⟩
  | restore op =>
    refine Or.inl ?_
    simp only [advanceConsumer, hc]
    split
    · exact ⟨_, rfl⟩
    · exact ⟨_, rfl⟩
  | retake op =>
    refine Or.inl ?_
    simp only [advanceConsumer, hc]
    split
    · exact ⟨_, rfl⟩
    · exact ⟨_, rfl⟩
  | semaTryWait op =>
    rw [hc] at hat
    refine Or.inl ?_
    simp only [advanceConsumer, hc]
    split
    · exact h.can_dequeueInner (t := { s with sema := s.sema - 1 }) op rfl hat
    · exact ⟨_, rfl⟩
  | dequeue op =>
    have hop := hat
    rw [hc] at hop
    obtain ⟨inner, hin⟩ :=
      h.inner.can_consume (n := n) (Queue.ConsumerPc.dequeuing_iff.2 ⟨_, hop.1⟩)
    have hadv : Queue.advanceConsumer s.inner s.inner.consumer = some inner := hin
    refine Or.inl ?_
    simp only [advanceConsumer, hc, hadv, Option.bind_some]
    cases hret : inner.consumer with
    | returned r => exact ⟨_, if_pos (h.success hc hin hret)⟩
    | _ => exact ⟨_, rfl⟩
  | peek =>
    rw [hc] at hat
    obtain ⟨inner, hin⟩ := h.inner.can_consume (n := n) (Queue.ConsumerPc.dequeuing_iff.2 ⟨_, hat⟩)
    have hadv : Queue.advanceConsumer s.inner s.inner.consumer = some inner := hin
    refine Or.inl ⟨Blocking.afterPeek s inner, ?_⟩
    simp only [advanceConsumer, hc, hadv, Option.map_some]

theorem Sound.can_produce {m : BlockPtr} (h : Sound s) (hpc : s.producer.calling = true)
    (hm : m = Queue.nullptr ∨ s.inner.heap m = none) :
    ∃ s', Blocking.step n spins s (.produce m) = some s' := by
  have hat := h.producer
  show ∃ s', advanceProducer n s m = some s'
  cases hp : s.producer with
  | idle => rw [hp] at hpc; cases hpc
  | returned r => rw [hp] at hpc; cases hpc
  | enqueue alloc x =>
    rw [hp] at hat
    obtain ⟨inner, hin⟩ :=
      h.inner.can_produce (n := n) (Queue.ProducerPc.enqueuing_iff.2 ⟨_, hat⟩) hm
    have hadv : Queue.advanceProducer n s.inner m s.inner.producer = some inner := hin
    simp only [advanceProducer, hp, hadv, Option.map_some]
    exact ⟨_, rfl⟩
  | signal x =>
    have hle : -1 ≤ s.count := by
      have hneg := h.tokens.neg_one_le
      have hwaiting : s.consumer.waiting ≤ 1 := by
        cases s.consumer with
        | _ => simp [ConsumerPc.waiting]
      omega
    simp only [advanceProducer, hp, if_pos hle]
    split
    · exact ⟨_, rfl⟩
    · exact ⟨_, rfl⟩
  | post =>
    simp only [advanceProducer, hp]
    exact ⟨_, rfl⟩

/-- A call of `enqueue` can begin. -/
theorem Sound.can_enqueue (h : Sound s) (alloc : AllocationMode) (x : α)
    (hpc : s.producer.calling = false) : ∃ s', Blocking.enqueue s alloc x = some s' := by
  have hidle : s.inner.producer.enqueuing = false := by
    have hat := h.producer
    cases hp : s.producer with
    | idle => rw [hp] at hat; exact hat
    | returned b => rw [hp] at hat; exact hat
    | _ => rw [hp] at hpc; cases hpc
  obtain ⟨inner, hin⟩ := h.inner.can_call alloc x hidle
  exact ⟨_, by rw [Blocking.enqueue, hpc, hin]; rfl⟩

/-- **Nothing fails.** Whatever the other thread is in the middle of, a thread
in a call can take its next step — the element a permit was taken for is
there, and the semaphore's assertions hold — but for a consumer that
sleeps. -/
theorem calls_proceed (h : Reachable maxBlockSize spins s) (hmax : maxBlockSize.toNat < 2 ^ 63) :
    (s.consumer.calling = true →
      (∃ s', step maxBlockSize.toNat spins s .consume = some s') ∨ s.Asleep) ∧
    (s.producer.calling = true → ∀ m, m = Queue.nullptr ∨ s.inner.heap m = none →
      ∃ s', step maxBlockSize.toNat spins s (.produce m) = some s') := by
  have hsound := h.sound hmax
  exact ⟨hsound.can_consume, fun hpc m hm => hsound.can_produce hpc hm⟩

/-- The consumer has taken a permit and looks for the element in the block
ahead, while the producer is about to link in one more. -/
theorem calls_proceed_both : ∃ s : State ℕ, Reachable 2 1 s ∧
    (s.consumer = .dequeue .tryDequeue ∧ s.producer = .enqueue .canAlloc 3) ∧
    ((s.consumer.calling = true →
      (∃ s', step (UInt64.toNat 2) 1 s .consume = some s') ∨ s.Asleep) ∧
    (s.producer.calling = true → ∀ m, m = Queue.nullptr ∨ s.inner.heap m = none →
      ∃ s', step (UInt64.toNat 2) 1 s (.produce m) = some s')) := by
  obtain ⟨s, hs, hP⟩ := Reachable.exists_of_exec 2 1 1 (fun _ => 1)
    [.enqueue .canAlloc 1, .produce 0, .produce 0, .produce 0, .enqueue .canAlloc 2, .produce 0,
      .produce 0, .produce 7, .produce 0, .produce 0, .produce 0, .dequeue .tryDequeue, .consume,
      .consume, .consume, .consume, .consume, .dequeue .tryDequeue, .consume, .consume, .consume,
      .enqueue .canAlloc 3, .produce 0, .produce 0, .produce 9]
    (P := fun s : State ℕ => s.consumer = .dequeue .tryDequeue ∧
      s.producer = .enqueue .canAlloc 3)
    (by decide +kernel)
  exact ⟨s, hs, hP, calls_proceed hs (by decide)⟩

/-! ## No wake-up is lost -/

/-- All that was put in was taken out. -/
theorem Sound.accepted_eq (h : Sound s)
    (hlen : s.inner.accepted.length = s.inner.removed.length) :
    s.inner.accepted = s.inner.removed := by
  obtain ⟨rest, hrest⟩ := h.inner.history_split
  have hnil : s.inner.consumer.inFlight ++ rest = [] := by
    rw [hrest, List.length_append] at hlen
    exact List.length_eq_zero_iff.1 (by omega)
  rw [hrest, hnil, List.append_nil]

/-- **No wake-up is lost.** While the consumer sleeps the queue is empty, or
the producer has just put in the one element there is and is about to count
it, or it is about to raise the semaphore; and in one or two steps of its own
it does. -/
theorem no_lost_wakeup (h : Reachable maxBlockSize spins s) (hmax : maxBlockSize.toNat < 2 ^ 63)
    (hasleep : s.Asleep) :
    (s.inner.accepted = s.inner.removed ∨
      (∃ x, s.producer = .signal x ∧ s.inner.accepted = s.inner.removed ++ [x]) ∨
      s.producer = .post) ∧
    (s.inner.accepted ≠ s.inner.removed → ∀ m, ∃ k ≤ 2, ∃ s',
      exec (step maxBlockSize.toNat spins) s (List.replicate k (.produce m)) = some s' ∧
        s'.consumer = s.consumer ∧ s'.sema = 1) := by
  have hsound := h.sound hmax
  obtain ⟨⟨op, hpc⟩, hsema⟩ := hasleep
  have htokens := hsound.tokens
  have hcount := hsound.count
  rw [hpc, hsema, Nat.zero_add] at htokens
  rw [hpc] at hcount
  simp only [ConsumerPc.claimed, ConsumerPc.waiting] at hcount
  cases hprod : s.producer with
  | signal x =>
    rw [hprod] at htokens hcount
    have hneg : s.count = -1 := Tokens.count_of_asleep htokens
    simp only [ProducerPc.pending] at hcount
    obtain ⟨rest, hrest⟩ := hsound.inner.history_split
    have hlast := hsound.producer
    rw [hprod] at hlast
    have hflight : (s.inner.consumer.inFlight ++ rest).length = 1 := by
      rw [hrest, List.length_append] at hcount
      omega
    obtain ⟨y, hy⟩ := List.length_eq_one_iff.1 hflight
    have hacc : s.inner.accepted = s.inner.removed ++ [x] := by
      have hlast := hlast.2
      rw [hrest, hy, List.getLast?_concat] at hlast
      rw [hrest, hy, Option.some.inj hlast]
    refine ⟨Or.inr (Or.inl ⟨x, rfl, hacc⟩), fun _ m => ⟨2, le_refl 2, ?_⟩⟩
    have hfirst : step maxBlockSize.toNat spins s (.produce m) =
        some ({ s with count := s.count + 1 }.produceAt .post) := by
      show advanceProducer maxBlockSize.toNat s m = _
      simp [advanceProducer, hprod, hneg]
    refine ⟨{ s with count := s.count + 1, sema := s.sema + 1 }.returnEnqueue true, ?_, rfl, ?_⟩
    · show (step maxBlockSize.toNat spins s (.produce m)).bind _ = _
      rw [hfirst]
      rfl
    · show s.sema + 1 = 1
      rw [hsema]
  | post =>
    refine ⟨Or.inr (Or.inr rfl), fun _ m => ⟨1, by omega, ?_⟩⟩
    have hfirst : step maxBlockSize.toNat spins s (.produce m) =
        some ({ s with sema := s.sema + 1 }.returnEnqueue true) := by
      show advanceProducer maxBlockSize.toNat s m = _
      simp [advanceProducer, hprod]
    refine ⟨{ s with sema := s.sema + 1 }.returnEnqueue true, ?_, rfl, ?_⟩
    · show (step maxBlockSize.toNat spins s (.produce m)).bind _ = _
      rw [hfirst]
      rfl
    · show s.sema + 1 = 1
      rw [hsema]
  | _ =>
    rw [hprod] at htokens hcount
    have hneg : s.count = -1 := Tokens.count_of_asleep htokens
    simp only [ProducerPc.pending] at hcount
    have hacc : s.inner.accepted = s.inner.removed :=
      hsound.accepted_eq (by omega)
    exact ⟨Or.inl hacc, fun hne => absurd hacc hne⟩

/-- An element is put in and not counted yet. -/
theorem no_lost_wakeup_signal : ∃ s : State ℕ, Reachable 512 1 s ∧
    (s.consumer = .semaWait .waitDequeue ∧ s.producer = .signal 5) ∧
    (s.inner.accepted = s.inner.removed ∨
      (∃ x, s.producer = .signal x ∧ s.inner.accepted = s.inner.removed ++ [x]) ∨
      s.producer = .post) ∧
    (s.inner.accepted ≠ s.inner.removed → ∀ m, ∃ k ≤ 2, ∃ s',
      exec (step (UInt64.toNat 512) 1) s (List.replicate k (.produce m)) = some s' ∧
        s'.consumer = s.consumer ∧ s'.sema = 1) := by
  obtain ⟨s, hs, hP⟩ := Reachable.exists_of_exec 512 15 1 (fun _ => 1)
    [.dequeue .waitDequeue, .consume, .consume, .enqueue .canAlloc 5, .produce 0, .consume,
      .produce 0]
    (P := fun s : State ℕ => (s.consumer = .semaWait .waitDequeue ∧ s.producer = .signal 5) ∧
      s.sema = 0)
    (by decide +kernel)
  exact ⟨s, hs, hP.1, no_lost_wakeup hs (by decide) ⟨⟨_, hP.1.1⟩, hP.2⟩⟩

/-! ## With the producer out of the way -/

/-- How many steps a call still takes at most, with an element there for
it. -/
def State.remaining (s : State α) : ℕ :=
  match s.consumer with
  | .idle => 0
  | .returned _ => 0
  | .dequeue _ => s.inner.consumer.remaining
  | .tryTake _ => 9
  | .spinTake _ => 9
  | .take _ => 9
  | .semaWait _ => 9
  | .semaTryWait _ => 9
  | .tryWait _ => 10
  | .spinning _ _ => 10
  | .retake _ => 10
  | .restore _ => 11
  | .peek => 0

/-- Which function the call is of. -/
def ConsumerPc.op : ConsumerPc α → Option Op
  | .tryWait op => some op
  | .tryTake op => some op
  | .spinning op _ => some op
  | .spinTake op => some op
  | .take op => some op
  | .semaWait op => some op
  | .restore op => some op
  | .retake op => some op
  | .semaTryWait op => some op
  | .dequeue op => some op
  | _ => none

/-- What a step of a call does that is not disturbed, with an element there
for it: it comes nearer to its end, or is back with the element. -/
def Undisturbed (op : Op) (s s' : State α) : Prop :=
  s'.producer = s.producer ∧ s'.inner.accepted = s.inner.accepted ∧
    s'.remaining < s.remaining ∧
    (s'.consumer.op = some op ∧ s'.inner.removed = s.inner.removed ∨
      ∃ x, s'.consumer = .returned (op.inner.gives x) ∧
        s'.inner.removed = s.inner.removed ++ [x])

/-- With every element counted, there is a permit for one that is not claimed. -/
theorem Sound.permit (h : Sound s) (hpending : s.producer.pending = 0)
    (hlt : s.inner.removed.length < s.inner.accepted.length)
    (hclaimed : s.consumer.claimed = 0) : -s.consumer.waiting < s.count := by
  have hcount := h.count
  omega

/-- The step the consumer takes within the semaphore. -/
theorem undisturbed_consumeAt {op : Op} {t : State α} (hop : s.consumer.op = some op)
    (hpc : pc.op = s.consumer.op) (hprod : t.producer = s.producer) (hinner : t.inner = s.inner)
    (hless : (t.consumeAt pc).remaining < s.remaining) : Undisturbed op s (t.consumeAt pc) :=
  ⟨hprod, congrArg _ hinner, hless, Or.inl ⟨hpc.trans hop, congrArg _ hinner⟩⟩

/-- The queue inside is called. -/
theorem Sound.undisturbed_call {op op' : Op} {t : State α} (h : Sound s)
    (hop : s.consumer.op = some op) (hpc : s.consumer.op = some op') (hrem : s.remaining = 9)
    (hprod : t.producer = s.producer)
    (hin : Queue.step n s.inner op'.inner.call = some inner) :
    Undisturbed op s ((t.setInner inner).consumeAt (.dequeue op')) := by
  obtain ⟨-, -, hremoved, hacc, -⟩ := called_inner h.inner hin
  refine ⟨hprod, hacc, ?_, Or.inl ⟨hpc.symm.trans hop, hremoved⟩⟩
  rw [hrem]
  exact Nat.lt_succ_of_le inner.consumer.remaining_le

/-- The queue inside goes on. -/
theorem Sound.undisturbed_on {op op' : Op} (h : Sound s) (hop : s.consumer.op = some op)
    (hpc : s.consumer = .dequeue op') (hin : Queue.step n s.inner .consume = some inner)
    (hgo : ∀ r, inner.consumer ≠ .returned r) : Undisturbed op s (s.setInner inner) := by
  have hqs : Queue.ConsumerStep s.inner .consume inner := Queue.advanceConsumer_cases hin
  obtain ⟨-, hrem⟩ := h.dequeue_goes_on hpc hin hgo
  refine ⟨rfl, hqs.others.2, ?_, Or.inl ⟨hop, hrem⟩⟩
  have hless := hqs.remaining.2.2.1 rfl
  simp only [State.remaining, State.setInner, hpc]
  exact hless

/-- It is back, and with an element: the assertion says so. -/
theorem Sound.undisturbed_done {op op' : Op} {r : Queue.ConsumerResult α} (h : Sound s)
    (hop : s.consumer.op = some op) (hpc : s.consumer = .dequeue op')
    (hin : Queue.step n s.inner .consume = some inner) (hret : inner.consumer = .returned r)
    (hsuccess : Blocking.success r = true) :
    Undisturbed op s ((s.setInner inner).returnDequeue r) := by
  have hqs : Queue.ConsumerStep s.inner .consume inner := Queue.advanceConsumer_cases hin
  obtain ⟨x, rfl, hrem⟩ := h.dequeue_gives hpc hin hret hsuccess
  rw [hpc] at hop
  obtain rfl := Option.some.inj hop
  refine ⟨rfl, hqs.others.2, ?_, Or.inr ⟨x, rfl, hrem⟩⟩
  have hless := hqs.remaining.2.2.1 rfl
  simp only [State.remaining, State.returnDequeue, hpc]
  exact Nat.zero_lt_of_lt hless

theorem ConsumerStep.undisturbed {op : Op} (hs : ConsumerStep n spins s .consume s') (h : Sound s)
    (hop : s.consumer.op = some op) (hpending : s.producer.pending = 0)
    (hposting : s.producer.posting = 0)
    (hlt : s.inner.removed.length < s.inner.accepted.length) : Undisturbed op s s' := by
  have hpermit := h.permit hpending hlt
  have htokens := h.tokens
  rw [hposting] at htokens
  generalize ha : (.consume : Action α) = a at hs
  cases hs with
  | call hpc => cases ha
  | tryFound hpc hpos =>
    refine undisturbed_consumeAt hop (by rw [hpc]; rfl) rfl rfl ?_
    simp only [State.remaining, State.consumeAt, hpc]
    exact Nat.lt_succ_self 9
  | tryNothing hpc hle =>
    rw [hpc] at hpermit
    exact absurd (hpermit rfl) (not_lt.2 hle)
  | trySpin hpc hle =>
    rw [hpc] at hpermit
    exact absurd (hpermit rfl) (not_lt.2 hle)
  | spinFound hpc hpos =>
    refine undisturbed_consumeAt hop (by rw [hpc]; rfl) rfl rfl ?_
    simp only [State.remaining, State.consumeAt, hpc]
    exact Nat.lt_succ_self 9
  | spinOn hpc hle =>
    rw [hpc] at hpermit
    exact absurd (hpermit rfl) (not_lt.2 hle)
  | take hpc hin =>
    rcases hpc with hpc | hpc | ⟨hpc, -⟩
    · exact h.undisturbed_call hop (by rw [hpc]; rfl) (by rw [State.remaining, hpc]) rfl hin
    · exact h.undisturbed_call hop (by rw [hpc]; rfl) (by rw [State.remaining, hpc]) rfl hin
    · exact h.undisturbed_call hop (by rw [hpc]; rfl) (by rw [State.remaining, hpc]) rfl hin
  | sleep hpc hle =>
    rw [hpc] at hpermit
    exact absurd (hpermit rfl) (not_lt.2 hle)
  | woken hpc hsema hin =>
    rcases hpc with hpc | hpc
    · exact h.undisturbed_call hop (by rw [hpc]; rfl) (by rw [State.remaining, hpc]) rfl hin
    · exact h.undisturbed_call hop (by rw [hpc]; rfl) (by rw [State.remaining, hpc]) rfl hin
  | timeOut hpc => cases ha
  | giveUp hpc hneg =>
    rw [hpc] at hpermit
    have hpos : -1 < s.count := hpermit rfl
    omega
  | signalled hpc hnonneg =>
    refine undisturbed_consumeAt hop (by rw [hpc]; rfl) rfl rfl ?_
    simp only [State.remaining, State.consumeAt, hpc]
    exact Nat.lt_succ_self 10
  | retake hpc hpos =>
    refine undisturbed_consumeAt hop (by rw [hpc]; rfl) rfl rfl ?_
    simp only [State.remaining, State.consumeAt, hpc]
    exact Nat.lt_succ_self 9
  | retry hpc hle =>
    rw [hpc] at htokens
    exact absurd htokens.1 (not_lt.2 hle)
  | notYet hpc hsema =>
    rw [hpc] at htokens
    have hone := htokens.2
    omega
  | on hpc hin hgo => exact h.undisturbed_on hop hpc hin hgo
  | done hpc hin hret hsuccess => exact h.undisturbed_done hop hpc hin hret hsuccess
  | peek hpc => cases ha
  | peekOn hpc =>
    rw [hpc] at hop
    cases hop

theorem ProducerPc.quiet_of_not_calling {pc : ProducerPc α} (hpc : pc.calling = false) :
    pc.pending = 0 ∧ pc.posting = 0 := by
  cases pc with
  | idle => exact ⟨rfl, rfl⟩
  | returned _ => exact ⟨rfl, rfl⟩
  | _ => cases hpc

theorem ConsumerPc.calling_of_op {op : Op} {pc : ConsumerPc α} (hop : pc.op = some op) :
    pc.calling = true := by
  cases pc with
  | idle => cases hop
  | returned r => cases hop
  | _ => rfl

theorem State.remaining_le (s : State α) : s.remaining ≤ 11 := by
  rw [State.remaining]
  cases s.consumer with
  | dequeue op => exact s.inner.consumer.remaining_le.trans (by decide)
  | _ => exact Nat.le_of_ble_eq_true rfl

/-- It comes to its end. -/
theorem Sound.run_undisturbed {op : Op} (h : Sound s) (hop : s.consumer.op = some op)
    (hidle : s.producer.calling = false)
    (hlt : s.inner.removed.length < s.inner.accepted.length) :
    ∃ k ≤ s.remaining, ∃ s' x,
      exec (Blocking.step n spins) s (List.replicate k .consume) = some s' ∧
      s'.consumer = .returned (op.inner.gives x) ∧ s'.inner.removed = s.inner.removed ++ [x] ∧
      s'.inner.accepted = s.inner.accepted ∧ Sound s' := by
  induction hr : s.remaining using Nat.strong_induction_on generalizing s with
  | _ r ih =>
    obtain ⟨hpending, hposting⟩ := ProducerPc.quiet_of_not_calling hidle
    obtain ⟨s₁, hs₁⟩ : ∃ s₁, Blocking.step n spins s .consume = some s₁ := by
      refine (h.can_consume (ConsumerPc.calling_of_op hop)).resolve_right ?_
      rintro ⟨⟨op', hpc⟩, hsema⟩
      have hcount := h.count
      have htokens := h.tokens
      rw [hpc, hpending] at hcount
      rw [hpc, hposting, hsema] at htokens
      have hneg := Tokens.count_of_asleep htokens
      simp only [ConsumerPc.claimed, ConsumerPc.waiting] at hcount
      omega
    have hstep : ConsumerStep n spins s .consume s₁ := advanceConsumer_cases hs₁
    have h₁ := hstep.sound h
    obtain ⟨hprod, hacc, hless, hgo⟩ := hstep.undisturbed h hop hpending hposting hlt
    rw [hr] at hless
    have hexec₁ : ∀ {k s'}, exec (Blocking.step n spins) s₁ (List.replicate k .consume) = some s' →
        exec (Blocking.step n spins) s (List.replicate (k + 1) .consume) = some s' := by
      intro k s' hexec
      rw [List.replicate_succ]
      show (Blocking.step n spins s .consume).bind _ = _
      rw [hs₁]
      exact hexec
    rcases hgo with ⟨hop₁, hrem⟩ | ⟨x, hret, hrem⟩
    · obtain ⟨k, hk, s', x, hexec, hret, hrem', hacc'⟩ :=
        ih _ hless h₁ hop₁ (by rw [hprod]; exact hidle) (by rw [hrem, hacc]; exact hlt) rfl
      exact ⟨k + 1, by omega, s', x, hexec₁ hexec, hret, hrem'.trans (by rw [hrem]),
        hacc'.1.trans hacc, hacc'.2⟩
    · exact ⟨1, Nat.succ_le_of_lt (Nat.zero_lt_of_lt hless), s₁, x, hexec₁ rfl, hret, hrem, hacc,
        h₁⟩

/-- **A call gets the oldest element**, where one is there and the producer is
out of the way: wherever the call stands — about to sleep, or with its time
up — it is back within 11 steps. -/
theorem call_gets_oldest {op : Op} (h : Reachable maxBlockSize spins s)
    (hmax : maxBlockSize.toNat < 2 ^ 63) (hop : s.consumer.op = some op)
    (hidle : s.producer.calling = false)
    (hlt : s.inner.removed.length < s.inner.accepted.length) :
    ∃ k ≤ 11, ∃ s' x,
      exec (step maxBlockSize.toNat spins) s (List.replicate k .consume) = some s' ∧
      s.inner.accepted[s.inner.removed.length]? = some x ∧
      s'.consumer = .returned (op.inner.gives x) ∧ s'.inner.removed = s.inner.removed ++ [x] := by
  obtain ⟨k, hk, s', x, hexec, hret, hrem, hacc, h'⟩ :=
    (h.sound hmax).run_undisturbed (n := maxBlockSize.toNat) hop hidle hlt
  refine ⟨k, hk.trans s.remaining_le, s', x, hexec, ?_, hret, hrem⟩
  obtain ⟨rest, hrest⟩ := h'.inner.history_split
  rw [← hacc, hrest, hrem, List.append_assoc, List.getElem?_append_right (le_refl _), Nat.sub_self]
  rfl

/-- The time is up, and the semaphore raised after all. -/
theorem call_gets_oldest_restore : ∃ s : State ℕ, Reachable 512 1 s ∧
    (s.consumer = .restore (.waitDequeueTimed 100) ∧ s.count = 0 ∧ s.sema = 1) ∧
    ∃ k ≤ 11, ∃ s' x,
      exec (step (UInt64.toNat 512) 1) s (List.replicate k .consume) = some s' ∧
      s.inner.accepted[s.inner.removed.length]? = some x ∧
      s'.consumer = .returned ((Op.waitDequeueTimed 100).inner.gives x) ∧
      s'.inner.removed = s.inner.removed ++ [x] := by
  obtain ⟨s, hs, hP⟩ := Reachable.exists_of_exec 512 15 1 (fun _ => 1)
    [.dequeue (.waitDequeueTimed 100), .consume, .consume, .consume, .enqueue .canAlloc 5,
      .produce 0, .produce 0, .produce 0, .timeOut, .produce 0]
    (P := fun s : State ℕ => (s.consumer = .restore (.waitDequeueTimed 100) ∧ s.count = 0 ∧
      s.sema = 1) ∧ s.producer.calling = false ∧
      s.inner.removed.length < s.inner.accepted.length)
    (by decide +kernel)
  refine ⟨s, hs, hP.1, call_gets_oldest hs (by decide) ?_ hP.2.1 hP.2.2⟩
  rw [hP.1.1]
  rfl

end Blocking

end AppServer
