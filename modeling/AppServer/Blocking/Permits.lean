import AppServer.Blocking.Step
import AppServer.Queue.Empty

/-!
# Permits

What `m_count` counts: the elements that were put in and signalled, less
those taken out, less one more for a permit taken with the element still to
come, and one for a consumer counted as waiting. While it waits, either
nothing was signalled and `m_count` is -1, or one signal has come and
`m_sema` has been raised for it or is about to be.
-/

namespace AppServer

namespace Blocking

open Queue (BlockPtr AllocationMode ConsumerOp ConsumerResult EmptySeen)

variable {α : Type*}

/-- 1 while an element is in the queue inside and not counted. -/
def ProducerPc.pending : ProducerPc α → ℤ
  | .signal _ => 1
  | _ => 0

/-- 1 while the semaphore is to be raised. -/
def ProducerPc.posting : ProducerPc α → ℕ
  | .post => 1
  | _ => 0

/-- 1 while a permit is taken and its element is not. -/
def ConsumerPc.claimed : ConsumerPc α → ℤ
  | .dequeue _ => 1
  | _ => 0

/-- 1 while the consumer is counted as waiting. -/
def ConsumerPc.waiting : ConsumerPc α → ℤ
  | .semaWait _ => 1
  | .restore _ => 1
  | .semaTryWait _ => 1
  | _ => 0

/-- What the queue inside is doing for the producer. -/
def ProducerAt (inner : Queue.State α) : ProducerPc α → Prop
  | .enqueue _ x => inner.producer.element = some x
  | .signal x => inner.producer.enqueuing = false ∧ inner.accepted.getLast? = some x
  | _ => inner.producer.enqueuing = false

/-- What it is doing for the consumer. With a permit it is not found
empty. -/
def ConsumerAt (inner : Queue.State α) : ConsumerPc α → Prop
  | .dequeue op => inner.consumer.op = some op.inner ∧ EmptySeen inner false
  | .peek => inner.consumer.op = some .peek
  | _ => inner.consumer.dequeuing = false

/-- How the count and the semaphore stand, by where the consumer does;
`tokens` is 1 where the semaphore is up or about to be. -/
def Tokens (count : ℤ) (tokens : ℕ) : ConsumerPc α → Prop
  | .tryTake _ => 0 < count ∧ tokens = 0
  | .spinTake _ => 0 < count ∧ tokens = 0
  | .semaWait _ => count = -1 ∧ tokens = 0 ∨ 0 ≤ count ∧ tokens = 1
  | .restore _ => count = -1 ∧ tokens = 0 ∨ 0 ≤ count ∧ tokens = 1
  | .retake _ => 0 < count ∧ tokens = 1
  | .semaTryWait _ => 0 ≤ count ∧ tokens = 1
  | _ => 0 ≤ count ∧ tokens = 0

/-- **The invariant.** -/
structure Sound (s : State α) : Prop where
  inner : Queue.Sound s.inner
  producer : ProducerAt s.inner s.producer
  consumer : ConsumerAt s.inner s.consumer
  count : s.count + s.producer.pending + s.inner.removed.length + s.consumer.claimed +
    s.consumer.waiting = s.inner.accepted.length
  tokens : Tokens s.count (s.sema + s.producer.posting) s.consumer

variable {n spins : ℕ} {s s' : State α} {a : Action α} {inner inner' : Queue.State α}
  {b : Queue.Action α} {pc : ConsumerPc α}

/-! ## What there is -/

/-- The count is not less than -1, and that only with a consumer waiting. -/
theorem Tokens.neg_one_le {count : ℤ} {tokens : ℕ} (h : Tokens count tokens pc) :
    -pc.waiting ≤ count := by
  cases pc with
  | semaWait op => rcases h with ⟨h, -⟩ | ⟨h, -⟩ <;> simp only [ConsumerPc.waiting] <;> omega
  | restore op => rcases h with ⟨h, -⟩ | ⟨h, -⟩ <;> simp only [ConsumerPc.waiting] <;> omega
  | semaTryWait op =>
    have hcount := h.1
    simp only [ConsumerPc.waiting]
    omega
  | _ =>
    have hcount := h.1
    simp only [ConsumerPc.waiting]
    omega

/-- Asleep with nothing on its way. -/
theorem Tokens.count_of_asleep {count : ℤ} {op : Op}
    (h : Tokens count 0 (.semaWait op : ConsumerPc α)) : count = -1 := by
  rcases h with ⟨h, -⟩ | ⟨-, h⟩
  · exact h
  · exact absurd h Nat.zero_ne_one

/-- A signal with no consumer to be woken. -/
theorem Tokens.add_one {count : ℤ} {tokens : ℕ} (h : Tokens count tokens pc) (hcount : 0 ≤ count) :
    Tokens (count + 1) tokens pc := by
  cases pc with
  | tryTake op => exact ⟨by have hpos := h.1; omega, h.2⟩
  | spinTake op => exact ⟨by have hpos := h.1; omega, h.2⟩
  | retake op => exact ⟨by have hpos := h.1; omega, h.2⟩
  | semaWait op => exact h.elim (fun hneg => by omega) fun hpos => Or.inr ⟨by omega, hpos.2⟩
  | restore op => exact h.elim (fun hneg => by omega) fun hpos => Or.inr ⟨by omega, hpos.2⟩
  | _ => exact ⟨by omega, h.2⟩

/-- A signal with one. -/
theorem Tokens.wake {tokens : ℕ} (h : Tokens (-1) tokens pc) : Tokens (-1 + 1) (tokens + 1) pc := by
  cases pc with
  | semaWait op =>
    obtain ⟨-, rfl⟩ := h.resolve_right fun hpos => by omega
    exact Or.inr ⟨le_refl _, rfl⟩
  | restore op =>
    obtain ⟨-, rfl⟩ := h.resolve_right fun hpos => by omega
    exact Or.inr ⟨le_refl _, rfl⟩
  | _ =>
    have hcount := h.1
    omega

/-- **A permit stands for an element.** -/
theorem Sound.claimed_le (h : Sound s) :
    s.inner.removed.length + s.consumer.claimed + s.producer.pending ≤
      s.inner.accepted.length := by
  have hcount := h.count
  have hle := h.tokens.neg_one_le
  omega

theorem ProducerPc.pending_nonneg (pc : ProducerPc α) : 0 ≤ pc.pending := by
  cases pc with
  | signal x => exact Int.one_nonneg
  | _ => exact le_refl 0

theorem ConsumerPc.claimed_nonneg (pc : ConsumerPc α) : 0 ≤ pc.claimed := by
  cases pc with
  | dequeue op => exact Int.one_nonneg
  | _ => exact le_refl 0

/-- While there is a permit to an element, the queue inside is not empty. -/
theorem Sound.not_isEmpty (h : Sound s) (hpc : s.consumer.claimed = 1) :
    s.inner.isEmpty = false := by
  have hle := h.claimed_le
  have hpending := s.producer.pending_nonneg
  rw [hpc] at hle
  exact decide_eq_false (by omega)

/-- Nor does it come to be found empty. -/
theorem emptySeen_step (hsound : Queue.Sound inner) (h : EmptySeen inner false)
    (hne : inner.isEmpty = false) (hin : Queue.step n inner b = some inner') :
    EmptySeen inner' false := by
  refine (h.step hsound hin).mono fun hnote => ?_
  cases b with
  | tryDequeue => exact hnote
  | pop => exact hnote
  | peek => exact hnote
  | _ => simp [Queue.noteEmpty, hne] at hnote

theorem success_nothing (op : ConsumerOp) :
    success (op.nothing : ConsumerResult α) = false := by
  cases op with
  | _ => rfl

theorem Op.inner_ne_peek (op : Op) : op.inner ≠ .peek := by
  cases op with
  | _ => exact nofun

/-! ## Steps of the queue inside -/

/-- A step for the producer leaves true what is so of the consumer. -/
theorem ConsumerAt.produced (h : ConsumerAt inner pc) (hsound : Queue.Sound inner)
    (hne : pc.claimed = 1 → inner.isEmpty = false) (hin : Queue.step n inner b = some inner')
    (hs : Queue.ProducerStep n inner b inner') : ConsumerAt inner' pc := by
  obtain ⟨hcons, -⟩ := hs.others
  cases pc with
  | dequeue op =>
    refine ⟨?_, emptySeen_step hsound h.2 (hne rfl) hin⟩
    rw [hcons]
    exact h.1
  | peek =>
    show inner'.consumer.op = _
    rw [hcons]
    exact h
  | _ =>
    show inner'.consumer.dequeuing = false
    rw [hcons]
    exact h

/-- A step for the consumer leaves true what is so of the producer. -/
theorem ProducerAt.consumed {pc : ProducerPc α} (h : ProducerAt inner pc)
    (hs : Queue.ConsumerStep inner b inner') : ProducerAt inner' pc := by
  obtain ⟨hprod, hacc⟩ := hs.others
  cases pc with
  | enqueue alloc x =>
    show inner'.producer.element = _
    rw [hprod]
    exact h
  | signal x =>
    refine ⟨?_, ?_⟩
    · rw [hprod]
      exact h.1
    · rw [hacc]
      exact h.2
  | _ =>
    show inner'.producer.enqueuing = false
    rw [hprod]
    exact h

/-- With a permit the queue inside is called. -/
theorem called_inner {op : Op} (hsound : Queue.Sound inner)
    (hin : Queue.step n inner op.inner.call = some inner') :
    Queue.Sound inner' ∧ ConsumerAt inner' (.dequeue op) ∧
      inner'.removed = inner.removed ∧ inner'.accepted = inner.accepted ∧
      ∀ pc, ProducerAt inner pc → ProducerAt inner' pc := by
  have hs : Queue.ConsumerStep inner op.inner.call inner' := by
    rw [step_call_op] at hin
    exact Queue.enterConsumer_cases op.inner hin
  obtain ⟨hop, hrem⟩ := hs.called_op op.inner_ne_peek
  have hseen := Queue.EmptySeen.of_true.consumerStep hsound hs
  rw [Queue.noteEmpty_call] at hseen
  exact ⟨hsound.step hin, ⟨hop, hseen⟩, hrem, hs.others.2, fun _ hpc => hpc.consumed hs⟩

/-! ## What the queue inside does

The call goes on, or it is back with what it did.
-/

theorem Sound.enqueue_goes_on {alloc : AllocationMode} {x : α} {m : BlockPtr} (h : Sound s)
    (hpc : s.producer = .enqueue alloc x) (hin : Queue.step n s.inner (.produce m) = some inner)
    (hgo : ∀ r, inner.producer ≠ .returned r) :
    inner.producer.element = some x ∧ inner.accepted = s.inner.accepted := by
  have hps : Queue.ProducerStep n s.inner (.produce m) inner := Queue.advanceProducer_cases hin
  have hprod := h.producer
  rw [hpc] at hprod
  cases hps.progress hprod with
  | on helement hacc => exact ⟨helement, hacc⟩
  | put hret => exact absurd hret (hgo true)
  | failed hret => exact absurd hret (hgo false)

theorem Sound.enqueue_puts {alloc : AllocationMode} {x : α} {m : BlockPtr} (h : Sound s)
    (hpc : s.producer = .enqueue alloc x) (hin : Queue.step n s.inner (.produce m) = some inner)
    (hret : inner.producer = .returned true) : inner.accepted = s.inner.accepted ++ [x] := by
  have hps : Queue.ProducerStep n s.inner (.produce m) inner := Queue.advanceProducer_cases hin
  have hprod := h.producer
  rw [hpc] at hprod
  cases hps.progress hprod with
  | on helement =>
    rw [hret] at helement
    cases helement
  | put _ hacc => exact hacc
  | failed hfalse =>
    rw [hret] at hfalse
    cases hfalse

theorem Sound.enqueue_fails {alloc : AllocationMode} {x : α} {m : BlockPtr} (h : Sound s)
    (hpc : s.producer = .enqueue alloc x) (hin : Queue.step n s.inner (.produce m) = some inner)
    (hret : inner.producer = .returned false) : inner.accepted = s.inner.accepted := by
  have hps : Queue.ProducerStep n s.inner (.produce m) inner := Queue.advanceProducer_cases hin
  have hprod := h.producer
  rw [hpc] at hprod
  cases hps.progress hprod with
  | on helement =>
    rw [hret] at helement
    cases helement
  | put htrue =>
    rw [hret] at htrue
    cases htrue
  | failed _ hacc => exact hacc

theorem Sound.dequeue_goes_on {op : Op} (h : Sound s) (hpc : s.consumer = .dequeue op)
    (hin : Queue.step n s.inner .consume = some inner)
    (hgo : ∀ r, inner.consumer ≠ .returned r) :
    inner.consumer.op = some op.inner ∧ inner.removed = s.inner.removed := by
  have hqs : Queue.ConsumerStep s.inner .consume inner := Queue.advanceConsumer_cases hin
  have hat := h.consumer
  rw [hpc] at hat
  cases hqs.progress hat.1 with
  | on hop hrem => exact ⟨hop, hrem⟩
  | took _ hret => exact absurd hret (hgo _)
  | nothing hret => exact absurd hret (hgo _)
  | found _ hret => exact absurd hret (hgo _)

theorem Sound.dequeue_gives {op : Op} {r : ConsumerResult α} (h : Sound s)
    (hpc : s.consumer = .dequeue op) (hin : Queue.step n s.inner .consume = some inner)
    (hret : inner.consumer = .returned r) (hsuccess : success r = true) :
    ∃ x, r = op.inner.gives x ∧ inner.removed = s.inner.removed ++ [x] := by
  have hqs : Queue.ConsumerStep s.inner .consume inner := Queue.advanceConsumer_cases hin
  have hat := h.consumer
  rw [hpc] at hat
  cases hqs.progress hat.1 with
  | on hop =>
    rw [hret] at hop
    cases hop
  | took _ hgives hrem =>
    exact ⟨_, Queue.ConsumerPc.returned.inj (hret.symm.trans hgives), hrem⟩
  | nothing hnothing =>
    obtain rfl := Queue.ConsumerPc.returned.inj (hret.symm.trans hnothing)
    rw [success_nothing] at hsuccess
    cases hsuccess
  | found hop => exact absurd hop op.inner_ne_peek

/-! ## The steps of the producer -/

/-- The queue inside has taken a step for the producer. -/
theorem Sound.produced (h : Sound s) (hin : Queue.step n s.inner b = some inner)
    (hps : Queue.ProducerStep n s.inner b inner) :
    Queue.Sound inner ∧ ConsumerAt inner s.consumer ∧ inner.removed = s.inner.removed :=
  ⟨h.inner.step hin, h.consumer.produced h.inner h.not_isEmpty hin hps, hps.others.2⟩

/-- A call of `enqueue` begins. -/
theorem Sound.enqueueCall {alloc : AllocationMode} {x : α} (h : Sound s)
    (hpc : s.producer.calling = false) (hin : Queue.step n s.inner (alloc.call x) = some inner) :
    Sound { (s.setInner inner).produceAt (.enqueue alloc x) with
      history := s.history ++ [.enqueue alloc x] } := by
  have hps : Queue.ProducerStep n s.inner (alloc.call x) inner := by
    rw [step_call] at hin
    exact Queue.innerEnqueue_cases alloc hin
  obtain ⟨hsound, hcons, hrem⟩ := h.produced hin hps
  obtain ⟨-, helement, hacc⟩ := hps.called
  have hidle : s.producer.pending = 0 ∧ s.producer.posting = 0 := by
    cases hq : s.producer with
    | idle => exact ⟨rfl, rfl⟩
    | returned _ => exact ⟨rfl, rfl⟩
    | _ => rw [hq] at hpc; cases hpc
  have hcount := h.count
  have htokens := h.tokens
  rw [hidle.1] at hcount
  rw [hidle.2] at htokens
  refine ⟨hsound, helement, hcons, ?_, htokens⟩
  show s.count + 0 + inner.removed.length + s.consumer.claimed + s.consumer.waiting =
    inner.accepted.length
  rw [hrem, hacc]
  exact hcount

/-- The queue inside goes on. -/
theorem Sound.enqueueOn {alloc : AllocationMode} {x : α} {m : BlockPtr} (h : Sound s)
    (hpc : s.producer = .enqueue alloc x) (hin : Queue.step n s.inner (.produce m) = some inner)
    (hgo : ∀ r, inner.producer ≠ .returned r) : Sound (s.setInner inner) := by
  have hps : Queue.ProducerStep n s.inner (.produce m) inner := Queue.advanceProducer_cases hin
  obtain ⟨hsound, hcons, hrem⟩ := h.produced hin hps
  obtain ⟨helement, hacc⟩ := h.enqueue_goes_on hpc hin hgo
  refine ⟨hsound, ?_, hcons, ?_, h.tokens⟩
  · show ProducerAt inner s.producer
    rw [hpc]
    exact helement
  · show s.count + s.producer.pending + inner.removed.length + s.consumer.claimed +
      s.consumer.waiting = inner.accepted.length
    rw [hrem, hacc]
    exact h.count

/-- It has taken the element. -/
theorem Sound.enqueuePut {alloc : AllocationMode} {x : α} {m : BlockPtr} (h : Sound s)
    (hpc : s.producer = .enqueue alloc x) (hin : Queue.step n s.inner (.produce m) = some inner)
    (hret : inner.producer = .returned true) :
    Sound ((s.setInner inner).produceAt (.signal x)) := by
  have hps : Queue.ProducerStep n s.inner (.produce m) inner := Queue.advanceProducer_cases hin
  obtain ⟨hsound, hcons, hrem⟩ := h.produced hin hps
  have hacc := h.enqueue_puts hpc hin hret
  have hcount := h.count
  have htokens := h.tokens
  rw [hpc] at hcount htokens
  refine ⟨hsound, ⟨?_, ?_⟩, hcons, ?_, htokens⟩
  · show inner.producer.enqueuing = false
    rw [hret]
    rfl
  · show inner.accepted.getLast? = some x
    rw [hacc, List.getLast?_concat]
  · show s.count + 1 + inner.removed.length + s.consumer.claimed + s.consumer.waiting =
      inner.accepted.length
    rw [hrem, hacc, List.length_append, List.length_singleton]
    simp only [ProducerPc.pending] at hcount
    omega

/-- It has not. -/
theorem Sound.enqueueFailed {alloc : AllocationMode} {x : α} {m : BlockPtr} (h : Sound s)
    (hpc : s.producer = .enqueue alloc x) (hin : Queue.step n s.inner (.produce m) = some inner)
    (hret : inner.producer = .returned false) :
    Sound ((s.setInner inner).returnEnqueue false) := by
  have hps : Queue.ProducerStep n s.inner (.produce m) inner := Queue.advanceProducer_cases hin
  obtain ⟨hsound, hcons, hrem⟩ := h.produced hin hps
  have hacc := h.enqueue_fails hpc hin hret
  have hcount := h.count
  have htokens := h.tokens
  rw [hpc] at hcount htokens
  refine ⟨hsound, ?_, hcons, ?_, htokens⟩
  · show inner.producer.enqueuing = false
    rw [hret]
    rfl
  · show s.count + 0 + inner.removed.length + s.consumer.claimed + s.consumer.waiting =
      inner.accepted.length
    rw [hrem, hacc]
    exact hcount

/-- The element is counted, and the consumer to be woken if it waits. -/
theorem Sound.signal {x : α} {t : State α} (h : Sound s) (hpc : s.producer = .signal x)
    (hinner : t.inner = s.inner) (hcons : t.consumer = s.consumer)
    (hcount : t.count = s.count + 1) (hpending : t.producer.pending = 0)
    (hat : s.inner.producer.enqueuing = false → ProducerAt s.inner t.producer)
    (htokens : Tokens s.count s.sema s.consumer →
      Tokens t.count (t.sema + t.producer.posting) s.consumer) : Sound t := by
  have hprod := h.producer
  have hwas := h.count
  have htok := h.tokens
  rw [hpc] at hprod hwas htok
  refine ⟨?_, ?_, ?_, ?_, ?_⟩
  · rw [hinner]
    exact h.inner
  · rw [hinner]
    exact hat hprod.1
  · rw [hinner, hcons]
    exact h.consumer
  · rw [hinner, hcons, hcount, hpending]
    simp only [ProducerPc.pending] at hwas
    omega
  · rw [hcons]
    exact htokens htok

/-- The producer's steps keep the invariant. -/
theorem ProducerStep.sound (hs : ProducerStep n s a s') (h : Sound s) : Sound s' := by
  cases hs with
  | call hpc hin => exact h.enqueueCall hpc hin
  | on hpc hin hgo => exact h.enqueueOn hpc hin hgo
  | put hpc hin hret => exact h.enqueuePut hpc hin hret
  | failed hpc hin hret => exact h.enqueueFailed hpc hin hret
  | signal hpc hnonneg =>
    exact h.signal hpc rfl rfl rfl rfl (fun hat => hat) fun htok => htok.add_one hnonneg
  | wake hpc hneg =>
    refine h.signal hpc rfl rfl rfl rfl (fun hat => hat) fun htok => ?_
    show Tokens (s.count + 1) (s.sema + 1) s.consumer
    rw [hneg] at htok ⊢
    exact htok.wake
  | post hpc =>
    have hprod := h.producer
    have hcount := h.count
    have htokens := h.tokens
    rw [hpc] at hprod hcount htokens
    exact ⟨h.inner, hprod, h.consumer, hcount, htokens⟩

/-! ## The steps of the consumer -/

theorem nextSpin_idle (op : Op) (spin : ℕ) :
    (nextSpin op spin : ConsumerPc α).claimed = 0 ∧
      (nextSpin op spin : ConsumerPc α).waiting = 0 ∧
      (∀ inner : Queue.State α, inner.consumer.dequeuing = false →
        ConsumerAt inner (nextSpin op spin)) ∧
      ∀ {count : ℤ} {tokens : ℕ}, 0 ≤ count → tokens = 0 →
        Tokens count tokens (nextSpin op spin : ConsumerPc α) := by
  cases spin with
  | zero => exact ⟨rfl, rfl, fun _ h => h, fun hcount htokens => ⟨hcount, htokens⟩⟩
  | succ spin => exact ⟨rfl, rfl, fun _ h => h, fun hcount htokens => ⟨hcount, htokens⟩⟩

/-- Not in a call. -/
theorem ConsumerPc.idle_of_not_calling (hpc : pc.calling = false) :
    pc.claimed = 0 ∧ pc.waiting = 0 ∧
      (∀ inner : Queue.State α, ConsumerAt inner pc → inner.consumer.dequeuing = false) ∧
      ∀ {count : ℤ} {tokens : ℕ}, Tokens count tokens pc → 0 ≤ count ∧ tokens = 0 := by
  cases pc with
  | idle => exact ⟨rfl, rfl, fun _ h => h, fun h => h⟩
  | returned r => exact ⟨rfl, rfl, fun _ h => h, fun h => h⟩
  | _ => cases hpc

theorem afterPeek_on (h : ∀ r, inner.consumer ≠ .returned r) :
    afterPeek s inner = (s.setInner inner).consumeAt .peek := by
  rw [afterPeek]
  cases hret : inner.consumer with
  | returned r => exact absurd hret (h r)
  | _ => rfl

theorem afterPeek_returned {r : ConsumerResult α} (h : inner.consumer = .returned r) :
    afterPeek s inner = (s.setInner inner).consumeAt (.returned r) := by
  simp only [afterPeek, h]

/-- `peek` has taken a step. -/
theorem Sound.afterPeek (h : Sound s) (hclaimed : s.consumer.claimed = 0)
    (hwaiting : s.consumer.waiting = 0) (htokens : 0 ≤ s.count ∧ s.sema + s.producer.posting = 0)
    (hsound : Queue.Sound inner) (hs : Queue.ConsumerStep s.inner b inner)
    (hprogress : Queue.ConsumerProgress s.inner .peek inner) : Sound (afterPeek s inner) := by
  obtain ⟨-, hacc⟩ := hs.others
  have hcount := h.count
  rw [hclaimed, hwaiting] at hcount
  -- wherever that leaves the consumer
  have hat : ∀ pc, pc.claimed = 0 → pc.waiting = 0 → ConsumerAt inner pc →
      Tokens s.count (s.sema + s.producer.posting) pc → inner.removed = s.inner.removed →
      Sound ((s.setInner inner).consumeAt pc) := by
    intro pc hclaimed hwaiting hat htok hrem
    refine ⟨hsound, h.producer.consumed hs, hat, ?_, htok⟩
    show s.count + s.producer.pending + inner.removed.length + pc.claimed + pc.waiting =
      inner.accepted.length
    rw [hclaimed, hwaiting, hrem, hacc]
    exact hcount
  have hback : ∀ r, inner.consumer = .returned r → inner.removed = s.inner.removed →
      Sound (Blocking.afterPeek s inner) := by
    intro r hret hrem
    rw [afterPeek_returned hret]
    refine hat _ rfl rfl ?_ htokens hrem
    show inner.consumer.dequeuing = false
    rw [hret]
    rfl
  cases hprogress with
  | on hop hrem =>
    rw [afterPeek_on]
    · exact hat _ rfl rfl hop htokens hrem
    · intro r hret
      rw [hret] at hop
      cases hop
  | took hwas => exact absurd hwas h.inner.not_took
  | nothing hret hrem => exact hback _ hret hrem
  | found _ hret hrem => exact hback _ hret hrem

/-- The consumer goes from one place to another, with `d` added to the
count. -/
theorem Sound.consumeAt {t : State α} {pc : ConsumerPc α} (h : Sound s)
    (hinner : t.inner = s.inner) (hprod : t.producer = s.producer) (hpc : t.consumer = pc)
    (hat : ConsumerAt s.inner pc)
    (hcount : t.count + pc.claimed + pc.waiting =
      s.count + s.consumer.claimed + s.consumer.waiting)
    (htokens : Tokens t.count (t.sema + s.producer.posting) pc) : Sound t := by
  have hwas := h.count
  refine ⟨?_, ?_, ?_, ?_, ?_⟩
  · rw [hinner]
    exact h.inner
  · rw [hinner, hprod]
    exact h.producer
  · rw [hinner, hpc]
    exact hat
  · rw [hinner, hprod, hpc]
    omega
  · rw [hprod, hpc]
    exact htokens

/-- A permit is taken, and the queue inside called. -/
theorem Sound.dequeueInner {op : Op} {t : State α} (h : Sound s)
    (hin : Queue.step n s.inner op.inner.call = some inner) (hinner : t.inner = inner)
    (hprod : t.producer = s.producer) (hpc : t.consumer = .dequeue op)
    (hcount : t.count + 1 = s.count + s.consumer.claimed + s.consumer.waiting)
    (htokens : 0 ≤ t.count ∧ t.sema + s.producer.posting = 0) : Sound t := by
  have hwas := h.count
  obtain ⟨hsound, hcons, hrem, hacc, hprodAt⟩ := called_inner h.inner hin
  refine ⟨?_, ?_, ?_, ?_, ?_⟩
  · rw [hinner]
    exact hsound
  · rw [hinner, hprod]
    exact hprodAt _ h.producer
  · rw [hinner, hpc]
    exact hcons
  · rw [hinner, hprod, hpc, hrem, hacc]
    simp only [ConsumerPc.claimed, ConsumerPc.waiting]
    omega
  · rw [hprod, hpc]
    exact htokens

/-- The count stays as it is. -/
theorem Sound.goTo {pc' : ConsumerPc α} (h : Sound s) (hpc : s.consumer = pc)
    (hsame : pc'.claimed + pc'.waiting = pc.claimed + pc.waiting)
    (hat : ConsumerAt s.inner pc → ConsumerAt s.inner pc')
    (htokens : Tokens s.count (s.sema + s.producer.posting) pc →
      Tokens s.count (s.sema + s.producer.posting) pc') : Sound (s.consumeAt pc') := by
  have hcons := h.consumer
  have htok := h.tokens
  rw [hpc] at hcons htok
  refine h.consumeAt rfl rfl rfl (hat hcons) ?_ (htokens htok)
  show s.count + pc'.claimed + pc'.waiting = _
  rw [hpc]
  omega

/-- `tryWait` sees no permit, and the call is over. -/
theorem Sound.tryNothing {op : Op} (h : Sound s) (hpc : s.consumer = .tryWait op) :
    Sound (s.returnDequeue op.inner.nothing) := by
  have hback : Sound (s.consumeAt (.returned op.inner.nothing)) :=
    h.goTo hpc rfl (fun hat => hat) fun htok => htok
  exact ⟨hback.inner, hback.producer, hback.consumer, hback.count, hback.tokens⟩

/-- The loop goes on to its next round, or is over. -/
theorem Sound.spin {op : Op} (spin : ℕ) (h : Sound s) (hpc : s.consumer = pc)
    (hclaimed : pc.claimed = 0) (hwaiting : pc.waiting = 0)
    (hidle : ConsumerAt s.inner pc → s.inner.consumer.dequeuing = false)
    (htokens : Tokens s.count (s.sema + s.producer.posting) pc →
      0 ≤ s.count ∧ s.sema + s.producer.posting = 0) : Sound (s.consumeAt (nextSpin op spin)) := by
  obtain ⟨hclaimed', hwaiting', hat, htok⟩ := nextSpin_idle (α := α) op spin
  refine h.goTo hpc ?_ (fun hcons => hat _ (hidle hcons)) fun hwas =>
    htok (htokens hwas).1 (htokens hwas).2
  rw [hclaimed', hwaiting', hclaimed, hwaiting]

/-- A call begins. -/
theorem Sound.dequeueCall {op : Op} (h : Sound s) (hpc : s.consumer.calling = false) :
    Sound { s.consumeAt (.tryWait op) with history := s.history ++ [.dequeue op] } := by
  obtain ⟨hclaimed, hwaiting, hidle, htok⟩ := ConsumerPc.idle_of_not_calling hpc
  refine h.consumeAt rfl rfl rfl (hidle _ h.consumer) ?_ (htok h.tokens)
  rw [hclaimed, hwaiting]
  rfl

/-- A permit is taken that `tryWait` or the loop has seen. -/
theorem Sound.take {op : Op} (h : Sound s)
    (hpc : s.consumer = .tryTake op ∨ s.consumer = .spinTake op ∨
      s.consumer = .take op ∧ 0 < s.count)
    (hin : Queue.step n s.inner op.inner.call = some inner) :
    Sound (({ s with count := s.count - 1 }.setInner inner).consumeAt (.dequeue op)) := by
  have htokens := h.tokens
  have hfacts : s.consumer.claimed = 0 ∧ s.consumer.waiting = 0 ∧ 0 < s.count ∧
      s.sema + s.producer.posting = 0 := by
    rcases hpc with hpc | hpc | ⟨hpc, hpos⟩
    · rw [hpc] at htokens ⊢
      exact ⟨rfl, rfl, htokens⟩
    · rw [hpc] at htokens ⊢
      exact ⟨rfl, rfl, htokens⟩
    · rw [hpc] at htokens ⊢
      exact ⟨rfl, rfl, hpos, htokens.2⟩
  obtain ⟨hclaimed, hwaiting, hpos, hzero⟩ := hfacts
  refine h.dequeueInner hin rfl rfl rfl ?_ ⟨?_, hzero⟩
  · show s.count - 1 + 1 = _
    omega
  · show 0 ≤ s.count - 1
    omega

/-- There is none, and the consumer goes to sleep. -/
theorem Sound.sleep {op : Op} (h : Sound s) (hpc : s.consumer = .take op) (hle : s.count ≤ 0) :
    Sound ({ s with count := s.count - 1 }.consumeAt (.semaWait op)) := by
  have hcons := h.consumer
  have htokens := h.tokens
  rw [hpc] at hcons htokens
  obtain ⟨hnonneg, hzero⟩ := htokens
  refine h.consumeAt rfl rfl rfl hcons ?_ (Or.inl ⟨?_, hzero⟩)
  · rw [hpc]
    show s.count - 1 + 0 + 1 = s.count + 0 + 0
    omega
  · show s.count - 1 = -1
    omega

/-- The semaphore gives a permit. -/
theorem Sound.woken {op : Op} (h : Sound s)
    (hpc : s.consumer = .semaWait op ∨ s.consumer = .semaTryWait op) (hsema : 0 < s.sema)
    (hin : Queue.step n s.inner op.inner.call = some inner) :
    Sound (({ s with sema := s.sema - 1 }.setInner inner).consumeAt (.dequeue op)) := by
  have htokens := h.tokens
  have hfacts : s.consumer.claimed = 0 ∧ s.consumer.waiting = 1 ∧ 0 ≤ s.count ∧
      s.sema + s.producer.posting = 1 := by
    rcases hpc with hpc | hpc
    · rw [hpc] at htokens ⊢
      exact ⟨rfl, rfl, htokens.resolve_left fun hneg => by omega⟩
    · rw [hpc] at htokens ⊢
      exact ⟨rfl, rfl, htokens⟩
  obtain ⟨hclaimed, hwaiting, hnonneg, hone⟩ := hfacts
  refine h.dequeueInner hin rfl rfl rfl ?_ ⟨hnonneg, ?_⟩
  · show s.count + 1 = _
    omega
  · show s.sema - 1 + s.producer.posting = 0
    omega

/-- The time was up and nothing signalled. -/
theorem Sound.giveUp {op : Op} (h : Sound s) (hpc : s.consumer = .restore op)
    (hneg : s.count < 0) :
    Sound ({ s with count := s.count + 1 }.returnDequeue op.inner.nothing) := by
  have hcons := h.consumer
  have htokens := h.tokens
  rw [hpc] at hcons htokens
  obtain ⟨hcount, hzero⟩ := htokens.resolve_right fun hpos => by omega
  refine h.consumeAt rfl rfl rfl hcons ?_ ⟨?_, hzero⟩
  · rw [hpc]
    show s.count + 1 + 0 + 0 = s.count + 0 + 1
    omega
  · show 0 ≤ s.count + 1
    omega

/-- The time was up and something signalled. -/
theorem Sound.signalled {op : Op} (h : Sound s) (hpc : s.consumer = .restore op)
    (hnonneg : 0 ≤ s.count) : Sound ({ s with count := s.count + 1 }.consumeAt (.retake op)) := by
  have hcons := h.consumer
  have htokens := h.tokens
  rw [hpc] at hcons htokens
  obtain ⟨-, hone⟩ := htokens.resolve_left fun hneg => by omega
  refine h.consumeAt rfl rfl rfl hcons ?_ ⟨?_, hone⟩
  · rw [hpc]
    show s.count + 1 + 0 + 0 = s.count + 0 + 1
    omega
  · show 0 < s.count + 1
    omega

/-- The permit is taken again. -/
theorem Sound.retake {op : Op} (h : Sound s) (hpc : s.consumer = .retake op) (hpos : 0 < s.count) :
    Sound ({ s with count := s.count - 1 }.consumeAt (.semaTryWait op)) := by
  have hcons := h.consumer
  have htokens := h.tokens
  rw [hpc] at hcons htokens
  refine h.consumeAt rfl rfl rfl hcons ?_ ⟨?_, htokens.2⟩
  · rw [hpc]
    show s.count - 1 + 0 + 1 = s.count + 0 + 0
    omega
  · show 0 ≤ s.count - 1
    omega

/-- It is there to be taken. -/
theorem Sound.count_of_retake {op : Op} (h : Sound s) (hpc : s.consumer = .retake op) :
    0 < s.count := by
  have htokens := h.tokens
  rw [hpc] at htokens
  exact htokens.1

/-- The queue inside goes on. -/
theorem Sound.dequeueOn {op : Op} (h : Sound s) (hpc : s.consumer = .dequeue op)
    (hin : Queue.step n s.inner .consume = some inner)
    (hgo : ∀ r, inner.consumer ≠ .returned r) : Sound (s.setInner inner) := by
  have hqs : Queue.ConsumerStep s.inner .consume inner := Queue.advanceConsumer_cases hin
  obtain ⟨hop, hrem⟩ := h.dequeue_goes_on hpc hin hgo
  have hne := h.not_isEmpty (by rw [hpc]; rfl)
  have hcons := h.consumer
  rw [hpc] at hcons
  refine ⟨h.inner.step hin, h.producer.consumed hqs, ?_, ?_, h.tokens⟩
  · show ConsumerAt inner s.consumer
    rw [hpc]
    exact ⟨hop, emptySeen_step h.inner hcons.2 hne hin⟩
  · show s.count + s.producer.pending + inner.removed.length + s.consumer.claimed +
      s.consumer.waiting = inner.accepted.length
    rw [hrem, hqs.others.2]
    exact h.count

/-- It has given an element. -/
theorem Sound.dequeueDone {op : Op} {r : ConsumerResult α} (h : Sound s)
    (hpc : s.consumer = .dequeue op) (hin : Queue.step n s.inner .consume = some inner)
    (hret : inner.consumer = .returned r) (hsuccess : success r = true) :
    Sound ((s.setInner inner).returnDequeue r) := by
  have hqs : Queue.ConsumerStep s.inner .consume inner := Queue.advanceConsumer_cases hin
  obtain ⟨x, -, hrem⟩ := h.dequeue_gives hpc hin hret hsuccess
  have hcount := h.count
  have htokens := h.tokens
  rw [hpc] at hcount htokens
  have hidle : inner.consumer.dequeuing = false := by
    rw [hret]
    rfl
  refine ⟨h.inner.step hin, h.producer.consumed hqs, hidle, ?_, htokens⟩
  show s.count + s.producer.pending + inner.removed.length + 0 + 0 = inner.accepted.length
  rw [hrem, hqs.others.2, List.length_append, List.length_singleton]
  simp only [ConsumerPc.claimed, ConsumerPc.waiting] at hcount
  push_cast
  omega

/-- A call of `peek` begins. -/
theorem Sound.peekCall (h : Sound s) (hpc : s.consumer.calling = false)
    (hin : Queue.step n s.inner .peek = some inner) : Sound (Blocking.afterPeek s inner) := by
  obtain ⟨hclaimed, hwaiting, -, htok⟩ := ConsumerPc.idle_of_not_calling hpc
  have hqs : Queue.ConsumerStep s.inner ConsumerOp.peek.call inner :=
    Queue.enterConsumer_cases .peek hin
  exact h.afterPeek hclaimed hwaiting (htok h.tokens) (h.inner.step hin) hqs (hqs.called .peek).2

/-- It goes on. -/
theorem Sound.peekOn (h : Sound s) (hpc : s.consumer = .peek)
    (hin : Queue.step n s.inner .consume = some inner) : Sound (Blocking.afterPeek s inner) := by
  have hqs : Queue.ConsumerStep s.inner .consume inner := Queue.advanceConsumer_cases hin
  have hcons := h.consumer
  have htokens := h.tokens
  rw [hpc] at hcons htokens
  exact h.afterPeek (by rw [hpc]; rfl) (by rw [hpc]; rfl) htokens (h.inner.step hin) hqs
    (hqs.progress hcons)

/-- The consumer's steps keep it too. -/
theorem ConsumerStep.sound (hs : ConsumerStep n spins s a s') (h : Sound s) : Sound s' := by
  cases hs with
  | call hpc => exact h.dequeueCall hpc
  | tryFound hpc hpos => exact h.goTo hpc rfl (fun hat => hat) fun htok => ⟨hpos, htok.2⟩
  | tryNothing hpc => exact h.tryNothing hpc
  | trySpin hpc => exact h.spin _ hpc rfl rfl (fun hat => hat) fun htok => htok
  | spinFound hpc hpos => exact h.goTo hpc rfl (fun hat => hat) fun htok => ⟨hpos, htok.2⟩
  | spinOn hpc => exact h.spin _ hpc rfl rfl (fun hat => hat) fun htok => htok
  | take hpc hin => exact h.take hpc hin
  | sleep hpc hle => exact h.sleep hpc hle
  | woken hpc hsema hin => exact h.woken hpc hsema hin
  | timeOut hpc => exact h.goTo hpc rfl (fun hat => hat) fun htok => htok
  | giveUp hpc hneg => exact h.giveUp hpc hneg
  | signalled hpc hnonneg => exact h.signalled hpc hnonneg
  | retake hpc hpos => exact h.retake hpc hpos
  | retry hpc hle => exact absurd (h.count_of_retake hpc) (not_lt.2 hle)
  | notYet hpc => exact h.goTo hpc rfl (fun hat => hat) fun htok => Or.inr htok
  | on hpc hin hgo => exact h.dequeueOn hpc hin hgo
  | done hpc hin hret hsuccess => exact h.dequeueDone hpc hin hret hsuccess
  | peek hpc hin => exact h.peekCall hpc hin
  | peekOn hpc hin => exact h.peekOn hpc hin

/-- **Every step keeps the invariant.** -/
theorem Sound.step (h : Sound s) (hs : step n spins s a = some s') : Sound s' := by
  rcases step_cases hs with hs | hs
  · exact hs.sound h
  · exact hs.sound h

/-! ## Over a run -/

variable {maxBlockSize maxSize : UInt64} {mem : ℕ → BlockPtr}

/-- States the two threads reach from a queue just constructed. -/
def Reachable (maxBlockSize : UInt64) (spins : ℕ) (s : State α) : Prop :=
  ∃ maxSize mem s₀, construct maxBlockSize maxSize mem = some s₀ ∧
    Lib.Reachable (step maxBlockSize.toNat spins) s₀ s

theorem sound_construct (h : construct maxBlockSize maxSize mem = some s)
    (hmax : maxBlockSize.toNat < 2 ^ 63) : Sound s := by
  obtain ⟨inner, hin, rfl⟩ := Option.map_eq_some_iff.1 h
  obtain ⟨f, ps, c, -, hs, -⟩ := Queue.construct_core hin hmax
  refine ⟨Queue.sound_construct hin hmax, ?_, ?_, ?_, le_refl _, rfl⟩
  · rw [hs]
    rfl
  · rw [hs]
    rfl
  · rw [hs]
    rfl

theorem Reachable.sound (h : Reachable maxBlockSize spins s)
    (hmax : maxBlockSize.toNat < 2 ^ 63) : Sound s := by
  obtain ⟨_, _, s₀, hs₀, hr⟩ := h
  exact hr.invariant (sound_construct hs₀ hmax) fun _ _ _ hI hs => hI.step hs

/-- A state found by replay, with what was looked up in it. -/
theorem Reachable.exists_of_exec (maxBlockSize maxSize : UInt64) (spins : ℕ)
    (mem : ℕ → BlockPtr) (as : List (Action α)) {P : State α → Prop} [DecidablePred P]
    (h : ((construct maxBlockSize maxSize mem).bind fun s₀ =>
      Lib.exec (Blocking.step maxBlockSize.toNat spins) s₀ as).any
        (fun s => decide (P s)) = true) :
    ∃ s, Reachable maxBlockSize spins s ∧ P s := by
  obtain ⟨s, hs, hP⟩ := (Option.any_eq_true _ _).1 h
  obtain ⟨s₀, hs₀, hexec⟩ := Option.bind_eq_some_iff.1 hs
  exact ⟨s, ⟨_, _, s₀, hs₀, Lib.Reachable.of_exec hexec⟩, of_decide_eq_true hP⟩

end Blocking

end AppServer
