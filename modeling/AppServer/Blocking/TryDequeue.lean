import AppServer.Blocking.Atomic
import AppServer.Blocking.Progress

/-!
# With `try_dequeue` alone

A consumer that calls nothing but `try_dequeue`, as the logger's does, never
waits: `m_count` is not negative and the semaphore of the system is not used.
Then each call takes effect at its last step: `enqueue` where it counts its
element, `try_dequeue` where it returns.
-/

namespace AppServer

namespace Blocking

open Queue (BlockPtr AllocationMode ConsumerOp ConsumerResult)

variable {α : Type*}

/-- Calling `try_dequeue`, if anything. -/
def ConsumerPc.tryOnly : ConsumerPc α → Bool
  | .idle => true
  | .tryWait .tryDequeue => true
  | .tryTake .tryDequeue => true
  | .dequeue .tryDequeue => true
  | .returned _ => true
  | _ => false

/-- The element a call of the producer is to put in. -/
def ProducerPc.element : ProducerPc α → Option α
  | .enqueue _ x => some x
  | .signal x => some x
  | _ => none

/-- What was counted and not taken out. -/
def State.contents (s : State α) : List α := s.counted.drop s.inner.removed.length

variable {n spins : ℕ} {s s' : State α} {a : Action α} {m : BlockPtr} {x : α}

theorem State.contents_congr (hcounted : s'.counted = s.counted)
    (hrem : s'.inner.removed = s.inner.removed) : s'.contents = s.contents := by
  rw [State.contents, State.contents, hcounted, hrem]

/-- A queue just constructed. -/
theorem contents_construct {maxBlockSize maxSize : UInt64} {mem : ℕ → BlockPtr}
    (h : construct maxBlockSize maxSize mem = some s) (hmax : maxBlockSize.toNat < 2 ^ 63) :
    s.contents = [] ∧ s.producer = .idle ∧ s.consumer = .idle ∧
      s.inner.producer.mayAlloc = true := by
  obtain ⟨inner, hin, rfl⟩ := Option.map_eq_some_iff.1 h
  obtain ⟨f, ps, c, -, hs, -⟩ := Queue.construct_core hin hmax
  rw [hs]
  exact ⟨rfl, rfl, rfl, rfl⟩

/-- Nobody waits. -/
theorem Sound.tokens_of_tryOnly (h : Sound s) (htry : s.consumer.tryOnly = true) :
    0 ≤ s.count ∧ s.sema + s.producer.posting = 0 ∧ s.consumer.waiting = 0 := by
  have htokens := h.tokens
  cases hpc : s.consumer with
  | idle => rw [hpc] at htokens; exact ⟨htokens.1, htokens.2, rfl⟩
  | tryWait op => rw [hpc] at htokens; exact ⟨htokens.1, htokens.2, rfl⟩
  | tryTake op => rw [hpc] at htokens; exact ⟨htokens.1.le, htokens.2, rfl⟩
  | dequeue op => rw [hpc] at htokens; exact ⟨htokens.1, htokens.2, rfl⟩
  | returned r => rw [hpc] at htokens; exact ⟨htokens.1, htokens.2, rfl⟩
  | _ => rw [hpc] at htry; cases htry

/-- How many there are. -/
theorem Sound.length_contents (h : Sound s) (htry : s.consumer.tryOnly = true) :
    (s.contents.length : ℤ) = s.count + s.consumer.claimed := by
  have hlen := h.length_counted
  have hcount := h.count
  have hclaimed := h.claimed_le
  have hwaiting := (h.tokens_of_tryOnly htry).2.2
  have hle : s.inner.removed.length ≤ s.counted.length := by
    have hnonneg := s.consumer.claimed_nonneg
    omega
  rw [State.contents, List.length_drop]
  omega

/-- The first of them is the one next in turn. -/
theorem State.contents_cons (hx : s.inner.accepted[s.inner.removed.length]? = some x)
    (hpos : 0 < s.contents.length) :
    s.contents = x :: s.counted.drop (s.inner.removed.length + 1) := by
  obtain ⟨ys, hys, -⟩ := s.counted_append
  rw [State.contents, List.length_drop] at hpos
  have hlt : s.inner.removed.length < s.counted.length := Nat.lt_of_sub_pos hpos
  rw [hys, List.getElem?_append_left hlt, List.getElem?_eq_getElem hlt] at hx
  rw [State.contents, List.drop_eq_getElem_cons hlt, Option.some.inj hx]

/-! ## `enqueue` -/

/-- What a step of a call that is to put in `x` has done. -/
inductive ProducerEffect (s : State α) (x : α) (s' : State α) : Prop where
  /-- The call goes on. -/
  | on (helement : s'.producer.element = some x) (hcontents : s'.contents = s.contents)
  /-- The element is in. -/
  | put (hpc : s'.producer = .returned true) (hcontents : s'.contents = s.contents ++ [x])
  /-- There was no memory for it. -/
  | failed (hpc : s'.producer = .returned false) (hcontents : s'.contents = s.contents)

/-- A call begins. -/
theorem ProducerStep.entered {alloc : AllocationMode}
    (hs : ProducerStep n s (.enqueue alloc x) s') :
    s'.producer.element = some x ∧ s'.contents = s.contents := by
  generalize ha : (.enqueue alloc x : Action α) = a at hs
  cases hs with
  | @call alloc' y inner hpc hb =>
    obtain ⟨-, rfl⟩ := Action.enqueue.inj ha
    have hps : Queue.ProducerStep n s.inner (alloc'.call x) inner := by
      rw [step_call] at hb
      exact Queue.innerEnqueue_cases alloc' hb
    obtain ⟨-, -, hacc⟩ := hps.called
    have hcounted : s.counted = s.inner.accepted := by
      rw [State.counted]
      cases hq : s.producer with
      | signal _ => rw [hq] at hpc; cases hpc
      | _ => rfl
    exact ⟨rfl, State.contents_congr (hacc.trans hcounted.symm) hps.others.2⟩
  | _ => cases ha

/-- A call goes on. -/
theorem ProducerStep.effect (hs : ProducerStep n s (.produce m) s') (h : Sound s)
    (htry : s.consumer.tryOnly = true) (hx : s.producer.element = some x) :
    ProducerEffect s x s' := by
  have hin := h.producer
  have hcount := (h.tokens_of_tryOnly htry).1
  generalize ha : (.produce m : Action α) = a at hs
  cases hs with
  | call => cases ha
  | @on alloc y m' inner hpc hb hgo =>
    rw [hpc] at hx
    obtain rfl := Option.some.inj hx
    have hps : Queue.ProducerStep n s.inner (.produce m') inner := Queue.advanceProducer_cases hb
    obtain ⟨-, hacc⟩ := h.enqueue_goes_on hpc hb hgo
    exact .on (by show s.producer.element = _; rw [hpc]; rfl)
      (State.contents_congr (State.counted_congr rfl hacc) hps.others.2)
  | @put alloc y m' inner hpc hb hret =>
    rw [hpc] at hx
    obtain rfl := Option.some.inj hx
    have hps : Queue.ProducerStep n s.inner (.produce m') inner := Queue.advanceProducer_cases hb
    refine .on rfl (State.contents_congr ?_ hps.others.2)
    show inner.accepted.dropLast = _
    rw [h.enqueue_puts hpc hb hret, List.dropLast_concat, State.counted, hpc]
  | @failed alloc y m' inner hpc hb hret =>
    rw [hpc] at hx
    obtain rfl := Option.some.inj hx
    have hps : Queue.ProducerStep n s.inner (.produce m') inner := Queue.advanceProducer_cases hb
    refine .failed rfl (State.contents_congr ?_ hps.others.2)
    rw [State.counted, State.counted, hpc]
    exact h.enqueue_fails hpc hb hret
  | @signal y m' hpc hnonneg =>
    rw [hpc] at hx
    obtain rfl := Option.some.inj hx
    refine .put rfl ?_
    have hlen := h.length_counted
    rw [hpc] at hin
    have hcounted : s.inner.accepted = s.counted ++ [y] := by
      rw [State.counted, hpc]
      exact (List.dropLast_append_getLast? y hin.2).symm
    have hle : s.inner.removed.length ≤ s.counted.length := by
      have hwas := h.claimed_le
      have hclaimed := s.consumer.claimed_nonneg
      omega
    show s.inner.accepted.drop s.inner.removed.length = _
    rw [hcounted, List.drop_append_of_le_length hle]
    rfl
  | wake hpc hneg => omega
  | post hpc => rw [hpc] at hx; cases hx

/-- What was called is `enqueue`, and it may allocate. -/
theorem ProducerStep.entered_mayAlloc (hs : ProducerStep n s (.enqueue .canAlloc x) s') :
    s'.inner.producer.mayAlloc = true := by
  generalize ha : (.enqueue .canAlloc x : Action α) = a at hs
  cases hs with
  | @call alloc' y inner hpc hb =>
    obtain ⟨rfl, rfl⟩ := Action.enqueue.inj ha
    have hps : Queue.ProducerStep n s.inner (.enqueue x) inner :=
      Queue.innerEnqueue_cases .canAlloc hb
    exact hps.called_mayAlloc
  | _ => cases ha

/-- Then it returns `false` only for want of memory. -/
theorem ProducerStep.effect_mayAlloc (hs : ProducerStep n s (.produce m) s')
    (hmay : s.inner.producer.mayAlloc = true) :
    s'.inner.producer.mayAlloc = true ∧ (s'.producer = .returned false → m = Queue.nullptr) := by
  have hstep : ∀ {m inner}, Queue.step n s.inner (.produce m) = some inner →
      inner.producer.mayAlloc = true ∧ (inner.producer = .returned false → m = Queue.nullptr) :=
    fun hin => (Queue.advanceProducer_cases hin).progress_mayAlloc hmay
  generalize ha : (.produce m : Action α) = a at hs
  cases hs with
  | call => cases ha
  | on hpc hin =>
    refine ⟨(hstep hin).1, fun hret => ?_⟩
    have hret : s.producer = .returned false := hret
    rw [hpc] at hret
    cases hret
  | put hpc hin =>
    exact ⟨(hstep hin).1, fun hret => by cases hret⟩
  | failed hpc hin hret =>
    obtain rfl := Action.produce.inj ha
    exact ⟨(hstep hin).1, fun _ => (hstep hin).2 hret⟩
  | signal => exact ⟨hmay, fun hret => by cases hret⟩
  | wake => exact ⟨hmay, fun hret => by cases hret⟩
  | post => exact ⟨hmay, fun hret => by cases hret⟩

/-! ## `try_dequeue` -/

/-- What a step of a call of `try_dequeue` has done. -/
inductive ConsumerEffect (s s' : State α) : Prop where
  /-- The call goes on. -/
  | on (htry : s'.consumer.tryOnly = true) (hcalling : s'.consumer.calling = true)
      (hcontents : s'.contents = s.contents)
  /-- The first element is taken out. -/
  | took {x : α} (hpc : s'.consumer = .returned (.dequeued (some x)))
      (hcontents : s.contents = x :: s'.contents)
  /-- There is none. -/
  | nothing (hpc : s'.consumer = .returned (.dequeued none)) (hcontents : s.contents = [])
      (hcontents' : s'.contents = [])

/-- A call goes on. -/
theorem ConsumerStep.effect (hs : ConsumerStep n spins s .consume s') (h : Sound s)
    (htry : s.consumer.tryOnly = true) : ConsumerEffect s s' := by
  have hlen := h.length_contents htry
  obtain ⟨hprod, -, hacc⟩ := hs.counted
  have hcounted : s'.counted = s.counted := State.counted_congr hprod hacc
  generalize ha : (.consume : Action α) = a at hs
  cases hs with
  | call => cases ha
  | @tryFound op hpc hpos =>
    cases op with
    | tryDequeue => exact .on rfl rfl (State.contents_congr hcounted rfl)
    | _ => rw [hpc] at htry; cases htry
  | @tryNothing op hpc hle htimeout =>
    cases op with
    | tryDequeue =>
      rw [hpc] at hlen
      simp only [ConsumerPc.claimed] at hlen
      have hnil : s.contents = [] := List.eq_nil_of_length_eq_zero (by omega)
      exact .nothing rfl hnil ((State.contents_congr hcounted rfl).trans hnil)
    | _ => rw [hpc] at htry; cases htry
  | @trySpin op t hpc hle htimeout =>
    cases op with
    | tryDequeue => cases htimeout
    | _ => rw [hpc] at htry; cases htry
  | @take op inner hpc hin =>
    obtain ⟨-, -, hrem, -, -⟩ := called_inner h.inner hin
    cases op with
    | tryDequeue => exact .on rfl rfl (State.contents_congr hcounted hrem)
    | _ => rcases hpc with hpc | hpc | ⟨hpc, -⟩ <;> rw [hpc] at htry <;> cases htry
  | @woken op inner hpc hsema hin =>
    cases op with
    | _ => rcases hpc with hpc | hpc <;> rw [hpc] at htry <;> cases htry
  | @on op inner hpc hin hgo =>
    obtain ⟨-, hrem⟩ := h.dequeue_goes_on hpc hin hgo
    have hcalling : (s.setInner inner).consumer.calling = true := by
      show s.consumer.calling = true
      rw [hpc]
      rfl
    exact .on htry hcalling (State.contents_congr hcounted hrem)
  | @done op inner r hpc hin hret hsuccess =>
    obtain ⟨x, rfl, hrem⟩ := h.dequeue_gives hpc hin hret hsuccess
    have hcount := (h.tokens_of_tryOnly htry).1
    rw [hpc] at hlen htry
    simp only [ConsumerPc.claimed] at hlen
    cases op with
    | tryDequeue =>
      refine .took rfl ?_
      rw [State.contents_cons (h.next_of_took hin hrem) (by omega), ← hcounted]
      show x :: (State.counted _).drop _ = x :: (State.counted _).drop inner.removed.length
      rw [hrem, List.length_append, List.length_singleton]
    | _ => cases htry
  | peekOn hpc => rw [hpc] at htry; cases htry
  | spinFound hpc => rw [hpc] at htry; cases htry
  | spinOn hpc => rw [hpc] at htry; cases htry
  | sleep hpc => rw [hpc] at htry; cases htry
  | timeOut => cases ha
  | giveUp hpc => rw [hpc] at htry; cases htry
  | signalled hpc => rw [hpc] at htry; cases htry
  | retake hpc => rw [hpc] at htry; cases htry
  | retry hpc => rw [hpc] at htry; cases htry
  | notYet hpc => rw [hpc] at htry; cases htry
  | peek => cases ha

/-! ## How long a call takes -/

/-- How many steps a call of `enqueue` still takes at most. -/
def State.producing (s : State α) : ℕ :=
  match s.producer with
  | .enqueue _ _ => s.inner.producer.remaining + 2
  | .signal _ => 2
  | .post => 1
  | _ => 0

theorem State.producing_le (s : State α) : s.producing ≤ 8 := by
  rw [State.producing]
  cases s.producer with
  | enqueue alloc x => exact Nat.add_le_add_right s.inner.producer.remaining_le 2
  | _ => exact Nat.le_of_ble_eq_true rfl

theorem State.producing_congr (hprod : s'.producer = s.producer)
    (hinner : s'.inner.producer = s.inner.producer) : s'.producing = s.producing := by
  rw [State.producing, State.producing, hprod, hinner]

/-- Each brings the end closer. -/
theorem ProducerStep.producing (hs : ProducerStep n s (.produce m) s') :
    s'.producing < s.producing := by
  have hstep : ∀ {m inner}, Queue.step n s.inner (.produce m) = some inner →
      inner.producer.remaining < s.inner.producer.remaining :=
    fun hin => (Queue.advanceProducer_cases hin).remaining.2.2.1 rfl
  generalize ha : (.produce m : Action α) = a at hs
  cases hs with
  | call => cases ha
  | @on alloc y m inner hpc hin =>
    have hpc' : (s.setInner inner).producer = .enqueue alloc y := hpc
    simp only [State.producing, hpc, hpc']
    exact Nat.add_lt_add_right (hstep hin) 2
  | put hpc hin =>
    have hlt := Nat.zero_lt_of_lt (hstep hin)
    simp only [State.producing, hpc, State.produceAt]
    omega
  | failed hpc hin =>
    simp only [State.producing, hpc, State.returnEnqueue]
    exact Nat.succ_pos _
  | signal hpc =>
    simp only [State.producing, hpc, State.returnEnqueue]
    exact Nat.succ_pos _
  | wake hpc =>
    simp only [State.producing, hpc, State.produceAt]
    exact Nat.lt_succ_self 1
  | post hpc =>
    simp only [State.producing, hpc, State.returnEnqueue]
    exact Nat.succ_pos _

/-- The other thread's steps do not matter to it. -/
theorem ProducerStep.remaining_eq (hs : ProducerStep n s a s') : s'.remaining = s.remaining := by
  have hcons := hs.consumer_eq
  have hinner : s'.inner.consumer = s.inner.consumer := by
    cases hs with
    | @call alloc x inner hpc hin =>
      have hps : Queue.ProducerStep n s.inner (alloc.call x) inner := by
        rw [step_call] at hin
        exact Queue.innerEnqueue_cases alloc hin
      exact hps.others.1
    | on hpc hin => exact (Queue.advanceProducer_cases hin).others.1
    | put hpc hin => exact (Queue.advanceProducer_cases hin).others.1
    | failed hpc hin => exact (Queue.advanceProducer_cases hin).others.1
    | _ => rfl
  rw [State.remaining, State.remaining, hcons, hinner]

/-- Nor does a `try_dequeue` go round in circles. -/
theorem ConsumerStep.remaining_tryOnly (hs : ConsumerStep n spins s .consume s')
    (htry : s.consumer.tryOnly = true) : s'.remaining < s.remaining := by
  have hstep : ∀ {inner}, Queue.step n s.inner .consume = some inner →
      inner.consumer.remaining < s.inner.consumer.remaining :=
    fun hin => (Queue.advanceConsumer_cases hin).remaining.2.2.1 rfl
  generalize ha : (.consume : Action α) = a at hs
  cases hs with
  | call => cases ha
  | tryFound hpc =>
    simp only [State.remaining, State.consumeAt, hpc]
    exact Nat.lt_succ_self 9
  | tryNothing hpc =>
    simp only [State.remaining, State.returnDequeue, hpc]
    exact Nat.succ_pos 9
  | @trySpin op t hpc hle htimeout =>
    rw [hpc] at htry
    cases op with
    | tryDequeue => cases htimeout
    | _ => cases htry
  | @take op inner hpc hin =>
    have hwas : s.remaining = 9 := by
      rcases hpc with hpc | hpc | ⟨hpc, -⟩ <;> rw [State.remaining, hpc]
    rw [hwas]
    exact Nat.lt_succ_of_le inner.consumer.remaining_le
  | @on op inner hpc hin =>
    have hpc' : (s.setInner inner).consumer = .dequeue op := hpc
    simp only [State.remaining, hpc, hpc']
    exact hstep hin
  | done hpc hin =>
    simp only [State.remaining, State.returnDequeue, hpc]
    exact Nat.zero_lt_of_lt (hstep hin)
  | @woken op inner hpc =>
    rcases hpc with hpc | hpc <;> rw [hpc] at htry <;> cases htry
  | timeOut => cases ha
  | peek => cases ha
  | _ hpc => rw [hpc] at htry; cases htry

end Blocking

end AppServer
