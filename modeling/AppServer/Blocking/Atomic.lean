import AppServer.Blocking.Permits

/-!
# As if in one step

What the waiting queue is for: a list of elements, of which each call puts one
at the end or takes one from the head in one step, somewhere between its
beginning and its end (`Atomic.Step`). The waiting queue does as this one: a
call of the producer takes effect when its element is counted, a call of the
consumer when it takes its permit, or finds none (`simulates`). So all that
its callers see could have been seen of the atomic queue (`linearizable`).

`peek` is not among those calls. It sees an element before it is counted, and
a `try_dequeue` right after it may yet find none.
-/

namespace AppServer

namespace Blocking

open Lib
open Queue (BlockPtr AllocationMode ConsumerOp ConsumerResult)

variable {α : Type*}

/-- The call may find nothing. -/
def Op.MayFail (op : Op) : Prop := ∀ t, op.timeout = some t → 0 ≤ t

/-! ## The atomic queue -/

namespace Atomic

/-- Where a call of the producer stands: before or after its step. -/
inductive ProducerPc (α : Type*) where
  | idle
  | calling (element : α)
  | done (success : Bool)

/-- The same of the consumer. -/
inductive ConsumerPc (α : Type*) where
  | idle
  | calling (op : Op)
  | done (result : ConsumerResult α)

/-- A queue, two callers, and what they have seen. -/
structure State (α : Type*) where
  queue : List α
  producer : ProducerPc α
  consumer : ConsumerPc α
  history : List (Event α)

/-- Nothing has happened. -/
def init : State α := ⟨[], .idle, .idle, []⟩

/-- **The atomic queue.** -/
inductive Step : State α → State α → Prop where
  /-- `try_enqueue` or `enqueue` is called. -/
  | enqueue {s : State α} (alloc : AllocationMode) (x : α) (hpc : s.producer = .idle) :
      Step s { s with producer := .calling x, history := s.history ++ [.enqueue alloc x] }
  /-- Its step: the element is put in. -/
  | put {s : State α} {x : α} (hpc : s.producer = .calling x) :
      Step s { s with producer := .done true, queue := s.queue ++ [x] }
  /-- Or there is no room for it. -/
  | refuse {s : State α} {x : α} (hpc : s.producer = .calling x) :
      Step s { s with producer := .done false }
  /-- It returns. -/
  | enqueued {s : State α} {success : Bool} (hpc : s.producer = .done success) :
      Step s { s with producer := .idle, history := s.history ++ [.enqueued success] }
  /-- A function of the consumer is called. -/
  | dequeue {s : State α} (op : Op) (hpc : s.consumer = .idle) :
      Step s { s with consumer := .calling op, history := s.history ++ [.dequeue op] }
  /-- Its step: the first element is taken out. -/
  | take {s : State α} {op : Op} {x : α} {rest : List α} (hpc : s.consumer = .calling op)
      (hqueue : s.queue = x :: rest) :
      Step s { s with consumer := .done (op.inner.gives x), queue := rest }
  /-- Or there is none. -/
  | nothing {s : State α} {op : Op} (hpc : s.consumer = .calling op) (hqueue : s.queue = [])
      (hop : op.MayFail) : Step s { s with consumer := .done op.inner.nothing }
  /-- It returns. -/
  | dequeued {s : State α} {result : ConsumerResult α} (hpc : s.consumer = .done result) :
      Step s { s with consumer := .idle, history := s.history ++ [.dequeued result] }

end Atomic

/-! ## What the waiting queue stands for -/

/-- The elements counted so far. -/
def State.counted (s : State α) : List α :=
  match s.producer with
  | .signal _ => s.inner.accepted.dropLast
  | _ => s.inner.accepted

/-- How many of them permits were taken for. -/
def State.taken (s : State α) : ℕ :=
  match s.consumer with
  | .dequeue _ => s.inner.removed.length + 1
  | _ => s.inner.removed.length

/-- Where the producer's call stands. -/
def ProducerPc.atomic : ProducerPc α → Atomic.ProducerPc α
  | .idle => .idle
  | .enqueue _ x => .calling x
  | .signal x => .calling x
  | .post => .done true
  | .returned _ => .idle

/-- Where the consumer's call stands, if `next` is the element next in
turn. -/
def ConsumerPc.atomic (next : Option α) : ConsumerPc α → Atomic.ConsumerPc α
  | .idle => .idle
  | .tryWait op => .calling op
  | .tryTake op => .calling op
  | .spinning op _ => .calling op
  | .spinTake op => .calling op
  | .take op => .calling op
  | .semaWait op => .calling op
  | .restore op => .calling op
  | .retake op => .calling op
  | .semaTryWait op => .calling op
  | .dequeue op =>
    match next with
    | some x => .done (op.inner.gives x)
    | none => .calling op
  | .peek => .idle
  | .returned _ => .idle

/-- **The atomic queue it stands for.** -/
def State.atomic (s : State α) : Atomic.State α where
  queue := s.counted.drop s.taken
  producer := s.producer.atomic
  consumer := s.consumer.atomic s.inner.accepted[s.inner.removed.length]?
  history := s.history

/-- Time is up only for a call that may fail. -/
def TimedOut : ConsumerPc α → Prop
  | .restore op => op.MayFail
  | .retake op => op.MayFail
  | .semaTryWait op => op.MayFail
  | _ => True

variable {n spins : ℕ} {s s' : State α} {a : Action α}

theorem nextSpin_timedOut (op : Op) (spin : ℕ) :
    TimedOut (nextSpin op spin : ConsumerPc α) ∧
      ∀ next, (nextSpin op spin : ConsumerPc α).atomic next = .calling op := by
  cases spin with
  | zero => exact ⟨trivial, fun _ => rfl⟩
  | succ spin => exact ⟨trivial, fun _ => rfl⟩

theorem ConsumerStep.timedOut (hs : ConsumerStep n spins s a s') (h : TimedOut s.consumer) :
    TimedOut s'.consumer := by
  cases hs with
  | trySpin hpc hle htimeout => exact (nextSpin_timedOut _ _).1
  | spinOn hpc hle => exact (nextSpin_timedOut _ _).1
  | @timeOut op t hpc htimeout ht =>
    intro t' ht'
    obtain rfl := Option.some.inj (htimeout.symm.trans ht')
    exact ht
  | signalled hpc hnonneg => rw [hpc] at h; exact h
  | retake hpc hpos => rw [hpc] at h; exact h
  | retry hpc hle => rw [hpc] at h; exact h
  | notYet hpc hsema => rw [hpc] at h; exact h
  | on hpc hin hgo =>
    show TimedOut s.consumer
    exact h
  | @peek inner hpc hin =>
    rw [afterPeek]
    cases hret : inner.consumer with
    | _ => trivial
  | @peekOn inner hpc hin =>
    rw [afterPeek]
    cases hret : inner.consumer with
    | _ => trivial
  | _ => trivial

theorem ProducerStep.consumer_eq (hs : ProducerStep n s a s') : s'.consumer = s.consumer := by
  cases hs with
  | _ => rfl

/-! ## What is counted -/

theorem State.counted_append (s : State α) :
    ∃ ys, s.inner.accepted = s.counted ++ ys ∧ (ys.length : ℤ) ≤ s.producer.pending := by
  rw [State.counted]
  cases s.producer with
  | signal x =>
    obtain ⟨ys, hys⟩ := List.dropLast_prefix s.inner.accepted
    refine ⟨ys, hys.symm, ?_⟩
    have hlen := congrArg List.length hys
    rw [List.length_append, List.length_dropLast] at hlen
    show (ys.length : ℤ) ≤ 1
    omega
  | _ => exact ⟨[], (List.append_nil _).symm, le_refl _⟩

theorem State.counted_congr (hprod : s'.producer = s.producer)
    (hacc : s'.inner.accepted = s.inner.accepted) : s'.counted = s.counted := by
  rw [State.counted, State.counted, hprod, hacc]

/-- How many there are. -/
theorem Sound.length_counted (h : Sound s) :
    (s.counted.length : ℤ) + s.producer.pending = s.inner.accepted.length := by
  have hin := h.producer
  rw [State.counted]
  cases hpc : s.producer with
  | signal x =>
    rw [hpc] at hin
    have hne : s.inner.accepted ≠ [] := by
      intro hnil
      have hlast := hin.2
      rw [hnil] at hlast
      cases hlast
    have hpos := List.length_pos_of_ne_nil hne
    show ((s.inner.accepted.dropLast.length : ℕ) : ℤ) + 1 = _
    rw [List.length_dropLast]
    omega
  | _ => exact Int.add_zero _

theorem ConsumerPc.taken_eq (s : State α) :
    (s.taken : ℤ) = s.inner.removed.length + s.consumer.claimed := by
  rw [State.taken]
  cases s.consumer with
  | dequeue op => rfl
  | _ => exact (Int.add_zero _).symm

/-- With no permit there is none in the queue. -/
theorem Sound.queue_nil (h : Sound s) (hcount : s.count + s.consumer.waiting ≤ 0) :
    s.atomic.queue = [] := by
  have hlen := h.length_counted
  have htaken := ConsumerPc.taken_eq s
  have hwas := h.count
  refine List.drop_eq_nil_iff.2 ?_
  omega

/-- **With a permit there is one**, and the oldest that was put in. -/
theorem Sound.queue_cons (h : Sound s) (hclaimed : s.consumer.claimed = 0)
    (hcount : 0 < s.count + s.consumer.waiting) :
    ∃ x, s.inner.accepted[s.inner.removed.length]? = some x ∧
      s.atomic.queue = x :: s.counted.drop (s.inner.removed.length + 1) := by
  have hlen := h.length_counted
  have htaken := ConsumerPc.taken_eq s
  have hwas := h.count
  rw [hclaimed] at htaken hwas
  have heq : s.taken = s.inner.removed.length := by omega
  have hlt : s.inner.removed.length < s.counted.length := by omega
  obtain ⟨ys, hys, -⟩ := s.counted_append
  refine ⟨s.counted[s.inner.removed.length], ?_, ?_⟩
  · rw [hys, List.getElem?_append_left hlt, List.getElem?_eq_getElem hlt]
  · show s.counted.drop s.taken = _
    rw [heq, List.drop_eq_getElem_cons hlt]

/-- The element taken out is the one that was next in turn. -/
theorem Sound.next_of_took {x : α} {inner : Queue.State α} (h : Sound s)
    (hin : Queue.step n s.inner .consume = some inner)
    (hrem : inner.removed = s.inner.removed ++ [x]) :
    s.inner.accepted[s.inner.removed.length]? = some x := by
  have hqs : Queue.ConsumerStep s.inner .consume inner := Queue.advanceConsumer_cases hin
  obtain ⟨rest, hrest⟩ := (h.inner.step hin).history_split
  rw [← hqs.others.2, hrest, hrem, List.append_assoc, List.getElem?_append_right (le_refl _),
    Nat.sub_self]
  rfl

/-- The element that is counted is the last of the queue. -/
theorem Sound.drop_signal {x : α} (h : Sound s) (hpc : s.producer = .signal x) :
    s.inner.accepted.drop s.taken = s.atomic.queue ++ [x] := by
  have hin := h.producer
  have hlen := h.length_counted
  have htaken := ConsumerPc.taken_eq s
  have hle := h.claimed_le
  have hcounted : s.counted = s.inner.accepted.dropLast := by
    rw [State.counted, hpc]
  rw [hpc] at hin hle hlen
  simp only [ProducerPc.pending] at hle hlen
  have hacc : s.inner.accepted = s.counted ++ [x] := by
    rw [hcounted]
    exact (List.dropLast_append_getLast? x hin.2).symm
  rw [hacc, List.drop_append_of_le_length (by omega)]
  rfl

/-! ## The simulation -/

theorem State.atomic_mk {q : List α} {p : Atomic.ProducerPc α} {c : Atomic.ConsumerPc α}
    {l : List (Event α)} (hqueue : s.counted.drop s.taken = q) (hprod : s.producer.atomic = p)
    (hcons : s.consumer.atomic s.inner.accepted[s.inner.removed.length]? = c)
    (hhistory : s.history = l) : s.atomic = ⟨q, p, c, l⟩ := by
  rw [State.atomic, hqueue, hprod, hcons, hhistory]

/-- A step of the producer's leaves the consumer's call where it is. -/
theorem ProducerStep.consumer_atomic (hs : ProducerStep n s a s') (h : Sound s) :
    s'.consumer.atomic s'.inner.accepted[s'.inner.removed.length]? =
        s.consumer.atomic s.inner.accepted[s.inner.removed.length]? ∧
      s'.taken = s.taken := by
  have hinner : ∃ ys, s'.inner.removed = s.inner.removed ∧
      s'.inner.accepted = s.inner.accepted ++ ys := by
    have hstep : ∀ {b inner}, Queue.ProducerStep n s.inner b inner →
        ∃ ys, inner.removed = s.inner.removed ∧ inner.accepted = s.inner.accepted ++ ys := by
      intro b inner hps
      obtain ⟨ys, hys⟩ := hps.grows
      exact ⟨ys, hps.others.2, hys⟩
    cases hs with
    | call hpc hb =>
      rw [step_call] at hb
      exact hstep (Queue.innerEnqueue_cases _ hb)
    | on hpc hb hgo => exact hstep (Queue.advanceProducer_cases hb)
    | put hpc hb hret => exact hstep (Queue.advanceProducer_cases hb)
    | failed hpc hb hret => exact hstep (Queue.advanceProducer_cases hb)
    | _ => exact ⟨[], rfl, (List.append_nil _).symm⟩
  obtain ⟨ys, hrem, hacc⟩ := hinner
  have hcons := hs.consumer_eq
  refine ⟨?_, by rw [State.taken, State.taken, hcons, hrem]⟩
  rw [hcons, hrem, hacc]
  cases hpc : s.consumer with
  | dequeue op =>
    have hle := h.claimed_le
    have hpending := s.producer.pending_nonneg
    rw [hpc] at hle
    simp only [ConsumerPc.claimed] at hle
    have hlt : s.inner.removed.length < s.inner.accepted.length := by omega
    rw [List.getElem?_append_left hlt]
  | _ => rfl

/-! ### The producer's steps -/

open Relation (ReflTransGen)

/-- A call that is under way. -/
theorem atomic_calling {alloc : AllocationMode} {x : α}
    (hpc : s.producer = .enqueue alloc x ∨ s.producer = .signal x) :
    s.atomic.producer = .calling x := by
  show s.producer.atomic = _
  rcases hpc with hpc | hpc
  · rw [hpc]
    rfl
  · rw [hpc]
    rfl

/-- A call of `enqueue` begins. -/
theorem Sound.simulates_enqueueCall {alloc : AllocationMode} {x : α} {inner : Queue.State α}
    (h : Sound s) (hpc : s.producer.calling = false)
    (hin : Queue.step n s.inner (alloc.call x) = some inner) :
    ReflTransGen Atomic.Step s.atomic
      (State.atomic { (s.setInner inner).produceAt (.enqueue alloc x) with
        history := s.history ++ [.enqueue alloc x] }) := by
  obtain ⟨hcons, htaken⟩ := (ProducerStep.call hpc hin).consumer_atomic h
  have hps : Queue.ProducerStep n s.inner (alloc.call x) inner := by
    rw [step_call] at hin
    exact Queue.innerEnqueue_cases alloc hin
  obtain ⟨-, -, hacc⟩ := hps.called
  have hidle : s.producer.atomic = .idle ∧ s.counted = s.inner.accepted := by
    rw [State.counted]
    cases hq : s.producer with
    | idle => exact ⟨rfl, rfl⟩
    | returned _ => exact ⟨rfl, rfl⟩
    | _ => rw [hq] at hpc; cases hpc
  rw [State.atomic_mk (l := s.history ++ [.enqueue alloc x]) ?_ rfl hcons rfl]
  · exact .single (.enqueue alloc x hidle.1)
  · rw [htaken]
    show inner.accepted.drop _ = _
    rw [hacc, ← hidle.2]
    rfl

/-- The queue inside goes on. -/
theorem Sound.simulates_enqueueOn {alloc : AllocationMode} {x : α} {m : BlockPtr}
    {inner : Queue.State α} (h : Sound s) (hpc : s.producer = .enqueue alloc x)
    (hin : Queue.step n s.inner (.produce m) = some inner)
    (hgo : ∀ r, inner.producer ≠ .returned r) : (s.setInner inner).atomic = s.atomic := by
  obtain ⟨hcons, htaken⟩ := (ProducerStep.on hpc hin hgo).consumer_atomic h
  obtain ⟨-, hacc⟩ := h.enqueue_goes_on hpc hin hgo
  have hcounted : (s.setInner inner).counted = s.counted := State.counted_congr rfl hacc
  exact State.atomic_mk (by rw [htaken, hcounted]) rfl hcons rfl

/-- It has taken the element, which counts for nothing yet. -/
theorem Sound.simulates_enqueuePut {alloc : AllocationMode} {x : α} {m : BlockPtr}
    {inner : Queue.State α} (h : Sound s) (hpc : s.producer = .enqueue alloc x)
    (hin : Queue.step n s.inner (.produce m) = some inner)
    (hret : inner.producer = .returned true) :
    ((s.setInner inner).produceAt (.signal x)).atomic = s.atomic := by
  obtain ⟨hcons, htaken⟩ := (ProducerStep.put hpc hin hret).consumer_atomic h
  refine State.atomic_mk ?_ ?_ hcons rfl
  · rw [htaken, State.counted, State.counted, hpc]
    show inner.accepted.dropLast.drop _ = _
    rw [h.enqueue_puts hpc hin hret, List.dropLast_concat]
  · rw [hpc]
    rfl

/-- It has not: the call is refused, and returns. -/
theorem Sound.simulates_enqueueFailed {alloc : AllocationMode} {x : α} {m : BlockPtr}
    {inner : Queue.State α} (h : Sound s) (hpc : s.producer = .enqueue alloc x)
    (hin : Queue.step n s.inner (.produce m) = some inner)
    (hret : inner.producer = .returned false) :
    ReflTransGen Atomic.Step s.atomic ((s.setInner inner).returnEnqueue false).atomic := by
  obtain ⟨hcons, htaken⟩ := (ProducerStep.failed hpc hin hret).consumer_atomic h
  rw [State.atomic_mk (q := s.atomic.queue) ?_ rfl hcons rfl]
  · have hrefuse := Atomic.Step.refuse (atomic_calling (Or.inl hpc))
    exact (ReflTransGen.single hrefuse).tail (.enqueued rfl)
  · rw [htaken]
    show inner.accepted.drop _ = s.counted.drop _
    rw [State.counted, hpc, h.enqueue_fails hpc hin hret]

/-- The element is counted: it is in the queue from now on. -/
theorem Sound.simulates_signal {x : α} {t : State α} {p : Atomic.ProducerPc α} {l : List (Event α)}
    (h : Sound s) (hs : ProducerStep n s a t) (hpc : s.producer = .signal x)
    (hinner : t.inner = s.inner) (hcounted : t.counted = t.inner.accepted)
    (hprod : t.producer.atomic = p) (hhistory : t.history = l)
    (hback : ReflTransGen Atomic.Step
      { s.atomic with queue := s.atomic.queue ++ [x], producer := .done true }
      ⟨s.atomic.queue ++ [x], p, s.atomic.consumer, l⟩) :
    ReflTransGen Atomic.Step s.atomic t.atomic := by
  obtain ⟨hcons, htaken⟩ := hs.consumer_atomic h
  rw [State.atomic_mk (q := s.atomic.queue ++ [x]) ?_ hprod hcons hhistory]
  · have hcall : s.producer = .enqueue .canAlloc x ∨ s.producer = .signal x := Or.inr hpc
    have hput := Atomic.Step.put (atomic_calling hcall)
    exact (ReflTransGen.single hput).trans hback
  · rw [htaken, hcounted, hinner]
    exact h.drop_signal hpc

/-- The consumer is woken, and the call returns. -/
theorem State.simulates_post (hpc : s.producer = .post) :
    ReflTransGen Atomic.Step s.atomic
      (State.returnEnqueue { s with sema := s.sema + 1 } true).atomic := by
  have hdone : s.atomic.producer = .done true := by
    show s.producer.atomic = _
    rw [hpc]
    rfl
  have heq : (State.returnEnqueue { s with sema := s.sema + 1 } true).atomic = { s.atomic with
      producer := .idle
      history := s.history ++ [.enqueued true] } := by
    refine State.atomic_mk ?_ rfl rfl rfl
    show s.inner.accepted.drop _ = s.counted.drop _
    rw [State.counted, hpc]
    rfl
  rw [heq]
  exact .single (.enqueued hdone)

/-- The producer's steps. -/
theorem ProducerStep.simulates (hs : ProducerStep n s a s') (h : Sound s) :
    ReflTransGen Atomic.Step s.atomic s'.atomic := by
  have hstep := hs
  cases hs with
  | call hpc hin => exact h.simulates_enqueueCall hpc hin
  | on hpc hin hgo => rw [h.simulates_enqueueOn hpc hin hgo]
  | put hpc hin hret => rw [h.simulates_enqueuePut hpc hin hret]
  | failed hpc hin hret => exact h.simulates_enqueueFailed hpc hin hret
  | signal hpc hnonneg =>
    exact h.simulates_signal hstep hpc rfl rfl rfl rfl (.single (.enqueued rfl))
  | wake hpc hneg => exact h.simulates_signal hstep hpc rfl rfl rfl rfl .refl
  | post hpc => exact State.simulates_post hpc

/-! ### The consumer's steps -/

/-- A step of the consumer's leaves the producer alone, and what is
counted. -/
theorem ConsumerStep.counted (hs : ConsumerStep n spins s a s') :
    s'.producer = s.producer ∧ s'.inner.producer = s.inner.producer ∧
      s'.inner.accepted = s.inner.accepted := by
  have hstep : ∀ {inner}, Queue.step n s.inner .consume = some inner →
      inner.producer = s.inner.producer ∧ inner.accepted = s.inner.accepted :=
    fun hin => (Queue.advanceConsumer_cases hin).others
  have hcall : ∀ {op : ConsumerOp} {inner}, Queue.step n s.inner op.call = some inner →
      inner.producer = s.inner.producer ∧ inner.accepted = s.inner.accepted := by
    intro op inner hin
    rw [step_call_op] at hin
    exact (Queue.enterConsumer_cases op hin).others
  have hpeek : ∀ inner : Queue.State α, (afterPeek s inner).producer = s.producer ∧
      (afterPeek s inner).inner = inner := by
    intro inner
    rw [afterPeek]
    cases inner.consumer with
    | _ => exact ⟨rfl, rfl⟩
  cases hs with
  | take hpc hin => exact ⟨rfl, hcall hin⟩
  | woken hpc hsema hin => exact ⟨rfl, hcall hin⟩
  | on hpc hin hgo => exact ⟨rfl, hstep hin⟩
  | done hpc hin hret hsuccess => exact ⟨rfl, hstep hin⟩
  | @peek inner hpc hin =>
    obtain ⟨hprod, hinner⟩ := hpeek inner
    exact ⟨hprod, by rw [hinner]; exact (Queue.enterConsumer_cases .peek hin).others⟩
  | @peekOn inner hpc hin =>
    obtain ⟨hprod, hinner⟩ := hpeek inner
    exact ⟨hprod, by rw [hinner]; exact hstep hin⟩
  | _ => exact ⟨rfl, rfl, rfl⟩

/-- The consumer goes from one place to another with its call neither begun,
nor at its step, nor returned. -/
theorem State.atomic_same {c : Atomic.ConsumerPc α} (hprod : s'.producer = s.producer)
    (hacc : s'.inner.accepted = s.inner.accepted) (hrem : s'.inner.removed = s.inner.removed)
    (hhistory : s'.history = s.history)
    (hpc : ∀ next, s.consumer.atomic next = c) (hclaimed : s.consumer.claimed = 0)
    (hpc' : ∀ next, s'.consumer.atomic next = c) (hclaimed' : s'.consumer.claimed = 0) :
    s'.atomic = s.atomic := by
  have htaken := ConsumerPc.taken_eq s
  have htaken' := ConsumerPc.taken_eq s'
  rw [hclaimed] at htaken
  rw [hclaimed', hrem] at htaken'
  have heq : s'.taken = s.taken := by omega
  refine State.atomic_mk ?_ (by rw [hprod]) ?_ hhistory
  · rw [heq, State.counted_congr hprod hacc]
  · rw [hpc', hpc]

/-- `peek` leaves all as it is. -/
theorem Sound.peek_atomic {inner : Queue.State α} (h : Sound s)
    (hprogress : Queue.ConsumerProgress s.inner .peek inner)
    (hacc : inner.accepted = s.inner.accepted) (hpc : ∀ next, s.consumer.atomic next = .idle)
    (hclaimed : s.consumer.claimed = 0) : (Blocking.afterPeek s inner).atomic = s.atomic := by
  have hback : ∀ r, inner.consumer = .returned r → inner.removed = s.inner.removed →
      (Blocking.afterPeek s inner).atomic = s.atomic := by
    intro r hret hrem
    rw [afterPeek_returned hret]
    exact State.atomic_same (c := .idle) rfl hacc hrem rfl hpc hclaimed (fun _ => rfl) rfl
  cases hprogress with
  | on hop hrem =>
    rw [afterPeek_on]
    · exact State.atomic_same (c := .idle) rfl hacc hrem rfl hpc hclaimed (fun _ => rfl) rfl
    · intro r hret
      rw [hret] at hop
      cases hop
  | took hwas => exact absurd hwas h.inner.not_took
  | nothing hret hrem => exact hback _ hret hrem
  | found _ hret hrem => exact hback _ hret hrem

/-- A permit is taken, and with it the element that comes next. -/
theorem Sound.simulates_take {op : Op} {inner : Queue.State α} {t : State α} (h : Sound s)
    (hin : Queue.step n s.inner op.inner.call = some inner) (hinner : t.inner = inner)
    (hprod : t.producer = s.producer) (hpc : t.consumer = .dequeue op)
    (hhistory : t.history = s.history) (hcalling : ∀ next, s.consumer.atomic next = .calling op)
    (hclaimed : s.consumer.claimed = 0) (hpos : 0 < s.count + s.consumer.waiting) :
    ReflTransGen Atomic.Step s.atomic t.atomic := by
  obtain ⟨-, -, hrem, hacc, -⟩ := called_inner h.inner hin
  obtain ⟨x, hx, hqueue⟩ := h.queue_cons hclaimed hpos
  rw [← hinner] at hrem hacc
  have hcons : t.consumer.atomic t.inner.accepted[t.inner.removed.length]? =
      .done (op.inner.gives x) := by
    rw [hrem, hacc, hx, hpc]
    rfl
  rw [State.atomic_mk (q := s.counted.drop (s.inner.removed.length + 1)) ?_
    (congrArg ProducerPc.atomic hprod) hcons hhistory]
  · exact .single (.take (s := s.atomic) (hcalling _) hqueue)
  · rw [State.counted_congr hprod hacc, State.taken, hpc, hrem]

/-- There is none, and the call returns. -/
theorem Sound.simulates_nothing {op : Op} {t : State α} (h : Sound s) (hinner : t.inner = s.inner)
    (hprod : t.producer = s.producer) (hpc : t.consumer = .returned op.inner.nothing)
    (hhistory : t.history = s.history ++ [.dequeued op.inner.nothing])
    (hcalling : ∀ next, s.consumer.atomic next = .calling op) (hclaimed : s.consumer.claimed = 0)
    (hop : op.MayFail) (hle : s.count + s.consumer.waiting ≤ 0) :
    ReflTransGen Atomic.Step s.atomic t.atomic := by
  have hnil := h.queue_nil hle
  have htaken := ConsumerPc.taken_eq s
  have htaken' := ConsumerPc.taken_eq t
  rw [hclaimed] at htaken
  rw [hpc, hinner] at htaken'
  simp only [ConsumerPc.claimed] at htaken'
  have heq : t.taken = s.taken := by omega
  rw [State.atomic_mk (q := s.atomic.queue) (c := .idle) ?_ (congrArg ProducerPc.atomic hprod)
    (by rw [hpc]; rfl) hhistory]
  · have hstep := Atomic.Step.nothing (s := s.atomic) (hcalling _) hnil hop
    exact (ReflTransGen.single hstep).tail (.dequeued rfl)
  · rw [heq, State.counted_congr hprod (by rw [hinner])]
    rfl

/-- The call is not at its step yet. -/
theorem State.simulates_stutter {op : Op} {t : State α} (hinner : t.inner = s.inner)
    (hprod : t.producer = s.producer) (hhistory : t.history = s.history) (hpc : s.consumer = pc)
    (hcalling : ∀ next, pc.atomic next = .calling op) (hclaimed : pc.claimed = 0)
    (hcalling' : ∀ next, t.consumer.atomic next = .calling op)
    (hclaimed' : t.consumer.claimed = 0) : ReflTransGen Atomic.Step s.atomic t.atomic := by
  subst hpc
  rw [State.atomic_same hprod (by rw [hinner]) (by rw [hinner]) hhistory hcalling hclaimed
    hcalling' hclaimed']

/-- A call begins. -/
theorem State.simulates_dequeueCall (op : Op) (hpc : s.consumer.calling = false) :
    ReflTransGen Atomic.Step s.atomic
      (State.atomic { s.consumeAt (.tryWait op) with
        history := s.history ++ [.dequeue op] }) := by
  have hidle : s.consumer.atomic s.inner.accepted[s.inner.removed.length]? = .idle ∧
      s.taken = s.inner.removed.length := by
    rw [State.taken]
    cases hq : s.consumer with
    | idle => exact ⟨rfl, rfl⟩
    | returned _ => exact ⟨rfl, rfl⟩
    | _ => rw [hq] at hpc; cases hpc
  have heq : State.atomic { s.consumeAt (.tryWait op) with
      history := s.history ++ [.dequeue op] } = { s.atomic with
        consumer := .calling op
        history := s.history ++ [.dequeue op] } := by
    refine State.atomic_mk ?_ rfl rfl rfl
    show s.counted.drop s.inner.removed.length = s.counted.drop s.taken
    rw [hidle.2]
  rw [heq]
  exact .single (.dequeue op hidle.1)

/-- Where the permit of `take` is to be had. -/
theorem Sound.facts_take {op : Op} (h : Sound s)
    (hpc : s.consumer = .tryTake op ∨ s.consumer = .spinTake op ∨
      s.consumer = .take op ∧ 0 < s.count) :
    (∀ next, s.consumer.atomic next = .calling op) ∧ s.consumer.claimed = 0 ∧
      0 < s.count + s.consumer.waiting := by
  have htokens := h.tokens
  rcases hpc with hpc | hpc | ⟨hpc, hpos⟩
  · rw [hpc] at htokens ⊢
    exact ⟨fun _ => rfl, rfl, by simpa [ConsumerPc.waiting] using htokens.1⟩
  · rw [hpc] at htokens ⊢
    exact ⟨fun _ => rfl, rfl, by simpa [ConsumerPc.waiting] using htokens.1⟩
  · rw [hpc]
    exact ⟨fun _ => rfl, rfl, by simpa [ConsumerPc.waiting] using hpos⟩

/-- And that of the semaphore. -/
theorem Sound.facts_woken {op : Op} (h : Sound s)
    (hpc : s.consumer = .semaWait op ∨ s.consumer = .semaTryWait op) (hsema : 0 < s.sema) :
    (∀ next, s.consumer.atomic next = .calling op) ∧ s.consumer.claimed = 0 ∧
      0 < s.count + s.consumer.waiting := by
  have htokens := h.tokens
  rcases hpc with hpc | hpc
  · rw [hpc] at htokens ⊢
    have hpos := (htokens.resolve_left fun hneg => by omega).1
    exact ⟨fun _ => rfl, rfl, by simp only [ConsumerPc.waiting]; omega⟩
  · rw [hpc] at htokens ⊢
    have hpos := htokens.1
    exact ⟨fun _ => rfl, rfl, by simp only [ConsumerPc.waiting]; omega⟩

/-- The queue inside goes on. -/
theorem Sound.simulates_dequeueOn {op : Op} {inner : Queue.State α} (h : Sound s)
    (hpc : s.consumer = .dequeue op) (hin : Queue.step n s.inner .consume = some inner)
    (hgo : ∀ r, inner.consumer ≠ .returned r) : (s.setInner inner).atomic = s.atomic := by
  have hqs : Queue.ConsumerStep s.inner .consume inner := Queue.advanceConsumer_cases hin
  have hcounted : (s.setInner inner).counted = s.counted := State.counted_congr rfl hqs.others.2
  obtain ⟨-, hrem⟩ := h.dequeue_goes_on hpc hin hgo
  refine State.atomic_mk ?_ rfl ?_ rfl
  · rw [hcounted, State.taken, State.taken]
    show s.counted.drop (match s.consumer with
      | .dequeue _ => inner.removed.length + 1 | _ => inner.removed.length) = _
    rw [hrem]
  · show s.consumer.atomic inner.accepted[inner.removed.length]? = _
    rw [hrem, hqs.others.2]

/-- It has given the element that was taken. -/
theorem Sound.simulates_dequeueDone {op : Op} {inner : Queue.State α} {r : ConsumerResult α}
    (h : Sound s) (hpc : s.consumer = .dequeue op)
    (hin : Queue.step n s.inner .consume = some inner) (hret : inner.consumer = .returned r)
    (hsuccess : success r = true) :
    ReflTransGen Atomic.Step s.atomic ((s.setInner inner).returnDequeue r).atomic := by
  have hqs : Queue.ConsumerStep s.inner .consume inner := Queue.advanceConsumer_cases hin
  obtain ⟨x, rfl, hrem⟩ := h.dequeue_gives hpc hin hret hsuccess
  have hx := h.next_of_took hin hrem
  have hdone : s.atomic.consumer = .done (op.inner.gives x) := by
    show s.consumer.atomic _ = _
    rw [hx, hpc]
    rfl
  have heq : ((s.setInner inner).returnDequeue (op.inner.gives x)).atomic = { s.atomic with
      consumer := .idle
      history := s.history ++ [.dequeued (op.inner.gives x)] } := by
    have hcounted : (s.setInner inner).counted = s.counted :=
      State.counted_congr rfl hqs.others.2
    refine State.atomic_mk ?_ rfl rfl rfl
    show (s.setInner inner).counted.drop inner.removed.length = _
    rw [hcounted]
    show s.counted.drop inner.removed.length = s.counted.drop s.taken
    rw [hrem, State.taken, hpc, List.length_append, List.length_singleton]
  rw [heq]
  exact .single (.dequeued hdone)

/-- A call of `peek` begins. -/
theorem Sound.simulates_peekCall {inner : Queue.State α} (h : Sound s)
    (hpc : s.consumer.calling = false) (hin : Queue.step n s.inner .peek = some inner) :
    (Blocking.afterPeek s inner).atomic = s.atomic := by
  have hqs : Queue.ConsumerStep s.inner ConsumerOp.peek.call inner :=
    Queue.enterConsumer_cases .peek hin
  have hidle : ∀ next, s.consumer.atomic next = .idle := by
    intro next
    cases hq : s.consumer with
    | idle => rfl
    | returned _ => rfl
    | _ => rw [hq] at hpc; cases hpc
  exact h.peek_atomic (hqs.called .peek).2 hqs.others.2 hidle
    (ConsumerPc.idle_of_not_calling hpc).1

/-- It goes on. -/
theorem Sound.simulates_peekOn {inner : Queue.State α} (h : Sound s) (hpc : s.consumer = .peek)
    (hin : Queue.step n s.inner .consume = some inner) :
    (Blocking.afterPeek s inner).atomic = s.atomic := by
  have hqs : Queue.ConsumerStep s.inner .consume inner := Queue.advanceConsumer_cases hin
  have hat := h.consumer
  rw [hpc] at hat
  exact h.peek_atomic (hqs.progress hat) hqs.others.2 (fun _ => by rw [hpc]; rfl)
    (by rw [hpc]; rfl)

/-- The consumer's steps. -/
theorem ConsumerStep.simulates (hs : ConsumerStep n spins s a s') (h : Sound s)
    (htimed : TimedOut s.consumer) : ReflTransGen Atomic.Step s.atomic s'.atomic := by
  cases hs with
  | @call op hpc => exact State.simulates_dequeueCall op hpc
  | tryFound hpc =>
    exact State.simulates_stutter rfl rfl rfl hpc (fun _ => rfl) rfl (fun _ => rfl) rfl
  | tryNothing hpc hle htimeout =>
    refine h.simulates_nothing rfl rfl rfl rfl (fun _ => by rw [hpc]; rfl) (by rw [hpc]; rfl) ?_ ?_
    · intro t ht
      rw [htimeout] at ht
      cases ht
    · rw [hpc]
      simpa [ConsumerPc.waiting] using hle
  | trySpin hpc =>
    exact State.simulates_stutter rfl rfl rfl hpc (fun _ => rfl) rfl (nextSpin_timedOut _ _).2
      (nextSpin_idle _ _).1
  | spinFound hpc =>
    exact State.simulates_stutter rfl rfl rfl hpc (fun _ => rfl) rfl (fun _ => rfl) rfl
  | spinOn hpc =>
    exact State.simulates_stutter rfl rfl rfl hpc (fun _ => rfl) rfl (nextSpin_timedOut _ _).2
      (nextSpin_idle _ _).1
  | take hpc hin =>
    obtain ⟨hcalling, hclaimed, hpos⟩ := h.facts_take hpc
    exact h.simulates_take hin rfl rfl rfl rfl hcalling hclaimed hpos
  | sleep hpc =>
    exact State.simulates_stutter rfl rfl rfl hpc (fun _ => rfl) rfl (fun _ => rfl) rfl
  | woken hpc hsema hin =>
    obtain ⟨hcalling, hclaimed, hpos⟩ := h.facts_woken hpc hsema
    exact h.simulates_take hin rfl rfl rfl rfl hcalling hclaimed hpos
  | timeOut hpc =>
    exact State.simulates_stutter rfl rfl rfl hpc (fun _ => rfl) rfl (fun _ => rfl) rfl
  | giveUp hpc hneg =>
    rw [hpc] at htimed
    refine h.simulates_nothing rfl rfl rfl rfl (fun _ => by rw [hpc]; rfl) (by rw [hpc]; rfl)
      htimed ?_
    rw [hpc]
    simp only [ConsumerPc.waiting]
    omega
  | signalled hpc =>
    exact State.simulates_stutter rfl rfl rfl hpc (fun _ => rfl) rfl (fun _ => rfl) rfl
  | retake hpc =>
    exact State.simulates_stutter rfl rfl rfl hpc (fun _ => rfl) rfl (fun _ => rfl) rfl
  | retry hpc =>
    exact State.simulates_stutter rfl rfl rfl hpc (fun _ => rfl) rfl (fun _ => rfl) rfl
  | notYet hpc =>
    exact State.simulates_stutter rfl rfl rfl hpc (fun _ => rfl) rfl (fun _ => rfl) rfl
  | on hpc hin hgo => rw [h.simulates_dequeueOn hpc hin hgo]
  | done hpc hin hret hsuccess => exact h.simulates_dequeueDone hpc hin hret hsuccess
  | peek hpc hin => rw [h.simulates_peekCall hpc hin]
  | peekOn hpc hin => rw [h.simulates_peekOn hpc hin]

/-! ## Over a run -/

variable {maxBlockSize maxSize : UInt64}

/-- A queue just constructed stands for the empty one. -/
theorem atomic_construct {mem : ℕ → BlockPtr} (h : construct maxBlockSize maxSize mem = some s)
    (hmax : maxBlockSize.toNat < 2 ^ 63) :
    s.atomic = Atomic.init ∧ TimedOut s.consumer ∧ s.history = [] := by
  obtain ⟨inner, hin, rfl⟩ := Option.map_eq_some_iff.1 h
  obtain ⟨f, ps, c, -, hs, -⟩ := Queue.construct_core hin hmax
  refine ⟨?_, trivial, rfl⟩
  rw [hs]
  rfl

/-- **The queue is linearizable**: each call of the producer and the consumer
takes effect in one step between its beginning and its return. All they are
ever returned is what the atomic queue could have returned, and when they are
both done what is left is what is left of it. -/
theorem linearizable (h : Reachable maxBlockSize spins s) (hmax : maxBlockSize.toNat < 2 ^ 63) :
    ∃ t : Atomic.State α, Relation.ReflTransGen Atomic.Step Atomic.init t ∧
      t.history = s.history ∧
      (s.producer.calling = false → s.consumer.calling = false →
        s.inner.accepted = s.inner.removed ++ t.queue) := by
  obtain ⟨_, _, s₀, hs₀, hr⟩ := h
  obtain ⟨hinit, htimed, -⟩ := atomic_construct hs₀ hmax
  have hinv : Sound s ∧ TimedOut s.consumer ∧
      Relation.ReflTransGen Atomic.Step Atomic.init s.atomic := by
    refine hr.invariant (I := fun s => Sound s ∧ TimedOut s.consumer ∧
      Relation.ReflTransGen Atomic.Step Atomic.init s.atomic)
      ⟨sound_construct hs₀ hmax, htimed, ?_⟩ ?_
    · rw [hinit]
    · rintro s a s' ⟨hsound, htimed, hrun⟩ hs
      refine ⟨hsound.step hs, ?_⟩
      rcases step_cases hs with hs | hs
      · exact ⟨by rw [hs.consumer_eq]; exact htimed, hrun.trans (hs.simulates hsound)⟩
      · exact ⟨hs.timedOut htimed, hrun.trans (hs.simulates hsound htimed)⟩
  obtain ⟨hsound, -, hrun⟩ := hinv
  refine ⟨s.atomic, hrun, rfl, fun hprod hcons => ?_⟩
  obtain ⟨rest, hrest⟩ := hsound.inner.history_split
  have hcounted : s.counted = s.inner.accepted := by
    rw [State.counted]
    cases hq : s.producer with
    | signal x => rw [hq] at hprod; cases hprod
    | _ => rfl
  have htaken : s.taken = s.inner.removed.length := by
    rw [State.taken]
    cases hq : s.consumer with
    | dequeue op => rw [hq] at hcons; cases hcons
    | _ => rfl
  show _ = s.inner.removed ++ s.counted.drop s.taken
  rw [hcounted, htaken, hrest, List.drop_left]

/-- A call whose time was up, and which got the first of two elements after
all. -/
theorem linearizable_timed : ∃ s : State ℕ, Reachable 512 1 s ∧
    (s.history = [.dequeue (.waitDequeueTimed 100), .enqueue .canAlloc 5, .enqueued true,
      .enqueue .canAlloc 6, .enqueued true, .dequeued (.dequeued (some 5))] ∧
      s.inner.accepted = [5, 6]) ∧
    ∃ t : Atomic.State ℕ, Relation.ReflTransGen Atomic.Step Atomic.init t ∧
      t.history = s.history ∧
      (s.producer.calling = false → s.consumer.calling = false →
        s.inner.accepted = s.inner.removed ++ t.queue) := by
  obtain ⟨s, hs, hP⟩ := Reachable.exists_of_exec 512 15 1 (fun _ => 1)
    [.dequeue (.waitDequeueTimed 100), .consume, .consume, .consume, .enqueue .canAlloc 5,
      .produce 0, .produce 0, .produce 0, .timeOut, .produce 0, .enqueue .canAlloc 6, .produce 0,
      .produce 0, .consume, .consume, .consume, .consume, .produce 0, .consume, .consume]
    (P := fun s : State ℕ => s.history = [.dequeue (.waitDequeueTimed 100), .enqueue .canAlloc 5,
      .enqueued true, .enqueue .canAlloc 6, .enqueued true, .dequeued (.dequeued (some 5))] ∧
      s.inner.accepted = [5, 6])
    (by decide +kernel)
  exact ⟨s, hs, hP, linearizable hs (by decide)⟩

/-- `peek` finds an element that `try_dequeue` does not. -/
example : ((construct 512 15 (fun _ => 1)).bind fun s => exec (step 512 1) s
    [.enqueue .canAlloc 5, .produce 0, .produce 0, .peek, .consume]).map State.consumer =
      some (.returned (.peeked (some (1, 0)))) ∧
    ((construct 512 15 (fun _ => 1)).bind fun s => exec (step 512 1) s
      [.enqueue .canAlloc (5 : ℕ), .produce 0, .produce 0, .peek, .consume, .dequeue .tryDequeue,
        .consume]).map State.consumer = some (.returned (.dequeued none)) := by
  decide +kernel

end Blocking

end AppServer
