import AppServer.Lib.Ranking
import AppServer.Queue.Calls
import AppServer.Queue.Fifo

/-!
# Finding the queue empty

`try_dequeue` reads `tail` before `tailBlock`, and between the two reads the
producer may put elements in. Where it returns `false` all the same, the
queue was empty at some moment of the call: when it read `tail`
(`empty_at_some_moment`). With nobody else about, it gives the oldest element
there is (`dequeue_oldest`).
-/

namespace AppServer

namespace Queue

open Lib

variable {α : Type*} {maxBlockSize : UInt64} {s s' : State α} {a : Action α} {seen : Bool}

/-- Every element that was put in has been taken out. -/
def State.isEmpty (s : State α) : Bool := decide (s.accepted.length = s.removed.length)

/-- The monitor: whether the queue has been empty at some moment since the
consumer's call began. -/
def noteEmpty (s : State α) (seen : Bool) (a : Action α) : Bool :=
  match a with
  | .tryDequeue => false
  | .pop => false
  | .peek => false
  | _ => seen || (s.consumer.dequeuing && s.isEmpty)

/-- What the call found, and what has been seen. -/
def EmptySeen (s : State α) (seen : Bool) : Prop :=
  match s.consumer with
  | .readTailBlock _ _ => seen = true ∨ s.frontBlock ≠ s.tailBlock
  | .returned r => (∃ op : ConsumerOp, r = op.nothing) → seen = true
  | _ => True

theorem noteEmpty_call (op : ConsumerOp) : noteEmpty s seen op.call = false := by
  cases op with
  | _ => rfl

theorem ConsumerOp.nothing_ne_peeked {op : ConsumerOp} {e : BlockPtr × ℕ} :
    (.peeked (some e) : ConsumerResult α) ≠ op.nothing := by
  cases op with
  | _ => exact nofun

/-- Where the queue was empty at some moment, anything may be found. -/
theorem EmptySeen.of_true : EmptySeen s true := by
  rw [EmptySeen]
  cases s.consumer with
  | readTailBlock op p => exact Or.inl rfl
  | returned r => exact fun _ => rfl
  | _ => trivial

theorem EmptySeen.mono {seen' : Bool} (h : EmptySeen s seen) (hle : seen = true → seen' = true) :
    EmptySeen s seen' := by
  rw [EmptySeen] at h ⊢
  cases hpc : s.consumer with
  | readTailBlock op p =>
    rw [hpc] at h
    exact h.imp_left hle
  | returned r =>
    rw [hpc] at h
    exact fun hop => hle (h hop)
  | _ => trivial

theorem EmptySeen.atElement {op : ConsumerOp} {p : BlockPtr} {i : ℕ}
    (hpc : s.consumer = op.atElement p i) : EmptySeen s seen := by
  rw [EmptySeen, hpc]
  cases op with
  | peek =>
    rintro ⟨op, hop⟩
    exact absurd hop ConsumerOp.nothing_ne_peeked
  | _ => trivial

/-- In an empty queue nothing is left of what was put in. -/
theorem Core.isEmpty {used spare : List BlockPtr} {held : BlockPtr → List α}
    (h : Core s used spare held) (hpc : s.consumer.EmptyHanded) (hu : ¬ 2 ≤ used.length)
    (hheld : held s.frontBlock = []) : s.isEmpty = true := by
  obtain ⟨l, hl⟩ := h.exists_cons
  have hlen : l = [] := by
    rw [hl, List.length_cons] at hu
    exact List.length_eq_zero_iff.1 (by omega)
  have hhist := h.history
  rw [hpc.inFlight, hl, hlen, List.flatMap_singleton, hheld, List.append_nil] at hhist
  rw [State.isEmpty, hhist]
  simp

/-- A step of the consumer keeps it. -/
theorem EmptySeen.consumerStep (hsound : Sound s) (h : EmptySeen s seen)
    (hs : ConsumerStep s a s') : EmptySeen s' (noteEmpty s seen a) := by
  obtain ⟨used, spare, held, hcore, hat, -⟩ := hsound
  cases hs with
  | callElement hpc hb hne => exact EmptySeen.atElement rfl
  | callEmpty hpc hb heq => exact trivial
  | readElement hpc hb hne => exact EmptySeen.atElement rfl
  | @readEmpty op p i b hpc hb heq =>
    have hempty : s.consumer.EmptyHanded := by rw [hpc]; exact ⟨rfl, rfl⟩
    rw [hpc] at hat
    obtain ⟨rfl, hi⟩ := hat
    have hs := hcore.taken_zero hempty hcore.front_mem_ring hb
    have hheld : held s.frontBlock = [] := hs.tail_eq_front_iff.1 (by rw [← heq, hi b hb])
    by_cases hu : 2 ≤ used.length
    · exact Or.inr fun hft => hcore.front_eq_tail_iff.1 hft hu
    · refine Or.inl ?_
      have hnow := hcore.isEmpty hempty hu hheld
      simp [noteEmpty, hpc, ConsumerPc.dequeuing, hnow]
  | goAhead hpc hne => exact trivial
  | @nothing op p hpc heq =>
    rw [hpc] at hat
    obtain rfl : p = s.frontBlock := hat
    intro _
    rw [EmptySeen, hpc] at h
    rw [h.resolve_right fun hne => hne heq]
    rfl
  | rereadElement hpc hb hne => exact EmptySeen.atElement rfl
  | rereadEmpty hpc hb heq => exact trivial
  | readNext hpc hb => exact trivial
  | peekNext hpc hb hne =>
    rintro ⟨op, hop⟩
    exact absurd hop ConsumerOp.nothing_ne_peeked
  | readNextTail hpc hb hne hop => exact trivial
  | storeFrontBlock hpc => exact trivial
  | take hpc hb hx => exact trivial
  | @storeFront op p i b x hpc hb =>
    rw [hpc] at hat
    rintro ⟨op', hop'⟩
    cases op with
    | peek => exact absurd rfl hat.1
    | tryDequeue =>
      cases op' with
      | _ => cases hop'
    | pop =>
      cases op' with
      | _ => cases hop'

/-- And so does a step of the producer. -/
theorem EmptySeen.producerStep {n : ℕ} (hsound : Sound s) (h : EmptySeen s seen)
    (hs : ProducerStep n s a s') : EmptySeen s' (noteEmpty s seen a) := by
  obtain ⟨used, spare, held, hcore, hcons, hat⟩ := hsound
  obtain ⟨used', spare', held', hcore', -, hmove⟩ := hs.sound hcore hat hcons
  have hkeep : seen = true → noteEmpty s seen a = true := by
    rintro rfl
    obtain ⟨-, hcount, -, hcall⟩ := hs.remaining
    cases a with
    | tryDequeue => obtain ⟨mode, x, he⟩ := hcall rfl; cases mode <;> cases he
    | pop => obtain ⟨mode, x, he⟩ := hcall rfl; cases mode <;> cases he
    | peek => obtain ⟨mode, x, he⟩ := hcall rfl; cases mode <;> cases he
    | _ => rfl
  have hne : s.frontBlock ≠ s.tailBlock → s'.frontBlock ≠ s'.tailBlock := by
    intro hne he
    refine hne (hcore.front_eq_tail_iff.2 fun hu => ?_)
    refine hcore'.front_eq_tail_iff.1 he ?_
    obtain ⟨l, rfl⟩ := hmove.grown
    rw [List.length_append]
    omega
  rw [EmptySeen] at h ⊢
  rw [hmove.consumer]
  cases hpc : s.consumer with
  | readTailBlock op p =>
    rw [hpc] at h
    exact h.imp hkeep hne
  | returned r =>
    rw [hpc] at h
    exact fun hop => hkeep (h hop)
  | _ => trivial

theorem EmptySeen.step {n : ℕ} (hsound : Sound s) (h : EmptySeen s seen)
    (hs : step n s a = some s') : EmptySeen s' (noteEmpty s seen a) := by
  rcases step_cases hs with hs | hs
  · exact h.producerStep hsound hs
  · exact h.consumerStep hsound hs

theorem emptySeen_construct {maxSize : UInt64} {mem : ℕ → BlockPtr}
    (h : construct maxBlockSize maxSize mem = some s) (hmax : maxBlockSize.toNat < 2 ^ 63) :
    EmptySeen s seen := by
  obtain ⟨f, ps, c, -, hs, -⟩ := construct_core h hmax
  rw [hs]
  trivial

/-- **`false` means empty.** Where a call of `try_dequeue` or `pop` returns
`false`, or one of `peek` a null pointer, the queue was empty at some moment
of that call, whatever the producer has been doing meanwhile. -/
theorem empty_at_some_moment {maxSize : UInt64} {mem : ℕ → BlockPtr} {s₀ : State α}
    {as : List (Action α)} (op : ConsumerOp) (h₀ : construct maxBlockSize maxSize mem = some s₀)
    (hmax : maxBlockSize.toNat < 2 ^ 63)
    (hrun : Run (monitored (step maxBlockSize.toNat) noteEmpty) anyStep (s₀, false) as (s, seen))
    (hret : s.consumer = .returned op.nothing) : seen = true := by
  have hinv : Sound s ∧ EmptySeen s seen := by
    refine hrun.invariant (I := fun x => Sound x.1 ∧ EmptySeen x.1 x.2)
      ⟨sound_construct h₀ hmax, emptySeen_construct h₀ hmax⟩ ?_
    intro x a y hI _ hs
    obtain ⟨hstep, hnote⟩ := monitored_eq_some.1 hs
    rw [hnote]
    exact ⟨hI.1.step hstep, hI.2.step hI.1 hstep⟩
  have hseen := hinv.2
  rw [EmptySeen, hret] at hseen
  exact hseen ⟨op, rfl⟩

/-- An element comes in after `tail` was read: `false` is returned with the
queue not empty any more. -/
theorem empty_at_some_moment_late : ∃ (s₀ : State ℕ) (x : State ℕ × Bool),
    construct 512 15 (fun _ => 1) = some s₀ ∧
    Run (monitored (step (UInt64.toNat 512)) noteEmpty) anyStep (s₀, false)
      [.tryDequeue, .consume, .enqueue 5, .produce 0, .produce 0, .consume] x ∧
    (x.1.consumer = .returned (.dequeued none) ∧ x.1.isEmpty = false) ∧ x.2 = true := by
  obtain ⟨s₀, h₀, hexec⟩ : ∃ s₀ : State ℕ, construct 512 15 (fun _ => 1) = some s₀ ∧
      (exec (guarded (monitored (step (UInt64.toNat 512)) noteEmpty) anyStep) (s₀, false)
        [.tryDequeue, .consume, .enqueue 5, .produce 0, .produce 0, .consume]).any (fun x =>
          decide (x.1.consumer = .returned (.dequeued none) ∧ x.1.isEmpty = false)) = true :=
    ⟨_, rfl, by decide +kernel⟩
  obtain ⟨⟨s, seen⟩, hrun, hP⟩ := Run.exists_of_exec hexec
  exact ⟨s₀, _, h₀, hrun, hP, empty_at_some_moment .tryDequeue h₀ (by decide) hrun hP.1⟩

/-! ## With nobody else about -/

/-- A call of `try_dequeue` that began in `s₀`, and in which only the consumer
has moved. -/
structure Alone (s₀ s : State α) : Prop where
  producer : s.producer = s₀.producer
  accepted : s.accepted = s₀.accepted
  calling : s.consumer.dequeuing = true →
    s.consumer.op = some .tryDequeue ∧ s.removed = s₀.removed
  back : s.consumer.dequeuing = false → ∃ result, s.consumer = .returned (.dequeued result) ∧
    s.removed = s₀.removed ++ result.toList ∧ (result = none → s₀.isEmpty = true)

variable {s₀ : State α}

/-- What a step of such a call has done. -/
theorem Alone.of_progress (h : ConsumerProgress s .tryDequeue s')
    (hprod : s'.producer = s₀.producer) (hacc : s'.accepted = s₀.accepted)
    (hrem : s.removed = s₀.removed) (hseen : EmptySeen s' s₀.isEmpty) : Alone s₀ s' := by
  cases h with
  | on hop hrem' =>
    have hcalling : s'.consumer.dequeuing = true := ConsumerPc.dequeuing_iff.2 ⟨_, hop⟩
    refine ⟨hprod, hacc, fun _ => ⟨hop, hrem'.trans hrem⟩, fun hback => ?_⟩
    rw [hcalling] at hback
    cases hback
  | took _ hpc hrem' =>
    refine ⟨hprod, hacc, fun hcalling => ?_, fun _ => ⟨_, hpc, ?_, nofun⟩⟩
    · rw [hpc] at hcalling
      cases hcalling
    · rw [hrem', hrem]
      rfl
  | nothing hpc hrem' =>
    refine ⟨hprod, hacc, fun hcalling => ?_, fun _ => ⟨none, hpc, ?_, fun _ => ?_⟩⟩
    · rw [hpc] at hcalling
      cases hcalling
    · rw [hrem', hrem, Option.toList_none, List.append_nil]
    · rw [EmptySeen, hpc] at hseen
      exact hseen ⟨.tryDequeue, rfl⟩
  | found hop hpc hrem' => cases hop

/-- The call itself. -/
theorem alone_call (hsound : Sound s) (h : ConsumerStep s .tryDequeue s') :
    Alone s s' ∧ EmptySeen s' s.isEmpty := by
  obtain ⟨hprod, hacc⟩ := h.others
  have hprogress := (ConsumerStep.called .tryDequeue h).2
  have hseen : EmptySeen s' s.isEmpty := (EmptySeen.of_true.consumerStep hsound h).mono nofun
  exact ⟨.of_progress hprogress hprod hacc rfl hseen, hseen⟩

/-- A step of such a call. -/
theorem Alone.step (h : Alone s₀ s) (hsound : Sound s) (hseen : EmptySeen s s₀.isEmpty)
    (hpc : s.consumer.dequeuing = true) (hs : ConsumerStep s .consume s') :
    Alone s₀ s' ∧ EmptySeen s' s₀.isEmpty := by
  obtain ⟨hop, hrem⟩ := h.calling hpc
  obtain ⟨hprod, hacc⟩ := hs.others
  have hseen' : EmptySeen s' s₀.isEmpty := by
    have hstep := hseen.consumerStep hsound hs
    have hsame : s.isEmpty = s₀.isEmpty := by
      rw [State.isEmpty, State.isEmpty, h.accepted, hrem]
    have hnote : noteEmpty s s₀.isEmpty .consume = s₀.isEmpty := by
      simp [noteEmpty, hpc, hsame]
    rwa [hnote] at hstep
  have hprogress := hs.progress hop
  exact ⟨.of_progress hprogress (hprod.trans h.producer) (hacc.trans h.accepted) hrem hseen',
    hseen'⟩

/-- It comes to its end. -/
theorem Alone.run {n : ℕ} (h : Alone s₀ s) (hsound : Sound s) (hseen : EmptySeen s s₀.isEmpty) :
    ∃ k ≤ s.consumer.remaining, ∃ s', exec (Queue.step n) s (List.replicate k .consume) = some s' ∧
      Alone s₀ s' ∧ Sound s' ∧ s'.consumer.dequeuing = false := by
  induction hr : s.consumer.remaining using Nat.strong_induction_on generalizing s with
  | _ r ih =>
    cases hpc : s.consumer.dequeuing with
    | false => exact ⟨0, Nat.zero_le _, s, rfl, h, hsound, hpc⟩
    | true =>
      obtain ⟨s₁, hs₁⟩ := hsound.can_consume (n := n) hpc
      have hstep : ConsumerStep s .consume s₁ := advanceConsumer_cases hs₁
      obtain ⟨h₁, hseen₁⟩ := h.step hsound hseen hpc hstep
      have hlt := hstep.remaining.2.2.1 rfl
      rw [hr] at hlt
      obtain ⟨k, hk, s', hexec, hend⟩ := ih _ hlt h₁ (hsound.step hs₁) hseen₁ rfl
      refine ⟨k + 1, by omega, s', ?_, hend⟩
      rw [List.replicate_succ]
      show (Queue.step n s .consume).bind _ = _
      rw [hs₁]
      exact hexec

/-- **The oldest element.** Whatever the producer has left half done, a call
of `try_dequeue` in which it does not move is back within 8 steps. It takes
out the oldest element that was put in and not taken out, or returns `false`
where there is none. -/
theorem dequeue_oldest (h : Reachable maxBlockSize s) (hmax : maxBlockSize.toNat < 2 ^ 63)
    (hidle : s.consumer.dequeuing = false) :
    ∃ k ≤ 8, ∃ s', exec (step maxBlockSize.toNat) s
        (.tryDequeue :: List.replicate k .consume) = some s' ∧
      s'.consumer = .returned (.dequeued s.accepted[s.removed.length]?) ∧
      s'.accepted = s.accepted ∧ s'.removed = s.accepted.take (s.removed.length + 1) := by
  have hsound := h.sound hmax
  obtain ⟨s₁, hs₁⟩ := hsound.can_enter .tryDequeue hidle
  have hcall := enterConsumer_cases .tryDequeue hs₁
  have hstep : step maxBlockSize.toNat s .tryDequeue = some s₁ := hs₁
  have halone := alone_call hsound hcall
  obtain ⟨k, hk, s', hexec, hend, hsound', hback⟩ :=
    halone.1.run (n := maxBlockSize.toNat) (hsound.step hstep) halone.2
  obtain ⟨result, hret, hrem, hnone⟩ := hend.back hback
  obtain ⟨rest, hrest⟩ := hsound'.history_split
  have hflight : s'.consumer.inFlight = [] := by
    rw [hret]
    rfl
  rw [hend.accepted, hrem, hflight, List.nil_append] at hrest
  refine ⟨k, hk.trans s₁.consumer.remaining_le, s', ?_, ?_, hend.accepted, ?_⟩
  · show (step maxBlockSize.toNat s .tryDequeue).bind _ = _
    rw [hstep]
    exact hexec
  · rw [hret]
    cases result with
    | none =>
      have hlen := of_decide_eq_true (hnone rfl)
      rw [List.getElem?_eq_none (le_of_eq hlen)]
    | some x => simp [hrest]
  · rw [hrem]
    cases result with
    | none =>
      have hlen := of_decide_eq_true (hnone rfl)
      rw [Option.toList_none, List.append_nil] at hrest ⊢
      have hnil : rest = [] := by
        rw [hrest, List.length_append] at hlen
        exact List.length_eq_zero_iff.1 (by omega)
      rw [hrest, hnil, List.append_nil, List.take_of_length_le (Nat.le_succ _)]
    | some x =>
      rw [hrest, List.append_assoc, List.take_length_add_append]
      rfl

/-- The producer is about to link in the block of a second element, which is
not there yet for the consumer. -/
theorem dequeue_oldest_linking : ∃ s : State ℕ, Reachable 2 s ∧
    (s.producer = .linkNext 2 1 7 ∧ s.accepted = [1] ∧ s.removed = [1]) ∧
    ∃ k ≤ 8, ∃ s', exec (step (UInt64.toNat 2)) s
        (.tryDequeue :: List.replicate k .consume) = some s' ∧
      s'.consumer = .returned (.dequeued s.accepted[s.removed.length]?) ∧
      s'.accepted = s.accepted ∧ s'.removed = s.accepted.take (s.removed.length + 1) := by
  obtain ⟨s, hs, hP⟩ := Reachable.exists_of_exec 2 1 (fun _ => 1)
    [.enqueue 1, .produce 0, .produce 0, .enqueue 2, .produce 0, .produce 0, .produce 7,
      .tryDequeue, .consume, .consume, .consume]
    (P := fun s : State ℕ => (s.producer = .linkNext 2 1 7 ∧ s.accepted = [1] ∧
      s.removed = [1]) ∧ s.consumer.dequeuing = false)
    (by decide +kernel)
  exact ⟨s, hs, hP.1, dequeue_oldest hs (by decide) hP.2⟩

end Queue

end AppServer
