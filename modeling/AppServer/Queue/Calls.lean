import AppServer.Queue.Shape

/-!
# What a step does to the call it is part of

A call of the producer carries one element and ends with it put in or not; a
call of the consumer is of one function and ends with an element taken out or
not. Until then a step leaves both histories alone.
-/

namespace AppServer

namespace Queue

variable {α : Type*} {n : ℕ} {s s' : State α} {a : Action α} {x : α}

/-- The element a call of `inner_enqueue` is to put in. -/
def ProducerPc.element : ProducerPc α → Option α
  | .idle => none
  | .readFront _ x _ _ _ => some x
  | .construct x _ _ _ => some x
  | .storeTail x _ _ => some x
  | .readFrontBlock _ x _ => some x
  | .readNextFront x _ => some x
  | .constructNext x _ _ => some x
  | .storeNextTail x _ _ => some x
  | .allocate x _ => some x
  | .linkNext x _ _ => some x
  | .storeTailBlock x _ => some x
  | .returned _ => none

/-- Which function a call is of. -/
def ConsumerPc.op : ConsumerPc α → Option ConsumerOp
  | .idle => none
  | .readTail op _ _ => some op
  | .readTailBlock op _ => some op
  | .rereadTail op => some op
  | .readNext op _ => some op
  | .readNextTail op _ => some op
  | .storeFrontBlock op _ _ => some op
  | .take op _ _ => some op
  | .storeFront op _ _ _ => some op
  | .returned _ => none

theorem ProducerPc.enqueuing_iff {pc : ProducerPc α} :
    pc.enqueuing = true ↔ ∃ x, pc.element = some x := by
  cases pc with
  | idle => exact ⟨nofun, nofun⟩
  | returned _ => exact ⟨nofun, nofun⟩
  | _ => exact ⟨fun _ => ⟨_, rfl⟩, fun _ => rfl⟩

theorem ConsumerPc.dequeuing_iff {pc : ConsumerPc α} :
    pc.dequeuing = true ↔ ∃ op, pc.op = some op := by
  cases pc with
  | idle => exact ⟨nofun, nofun⟩
  | returned _ => exact ⟨nofun, nofun⟩
  | _ => exact ⟨fun _ => ⟨_, rfl⟩, fun _ => rfl⟩

/-! ## The producer -/

/-- What a step of a call that is to put in `x` has done. -/
inductive ProducerProgress (s : State α) (x : α) (s' : State α) : Prop where
  /-- The call goes on. -/
  | on (helement : s'.producer.element = some x) (hacc : s'.accepted = s.accepted)
  /-- The element is in. -/
  | put (hpc : s'.producer = .returned true) (hacc : s'.accepted = s.accepted ++ [x])
  /-- It is not, and will not be. -/
  | failed (hpc : s'.producer = .returned false) (hacc : s'.accepted = s.accepted)

/-- A call begins. -/
theorem ProducerStep.called {mode : AllocationMode} (h : ProducerStep n s (mode.call x) s') :
    s.producer.enqueuing = false ∧ s'.producer.element = some x ∧ s'.accepted = s.accepted := by
  generalize ha : mode.call x = a at h
  cases h with
  | @callRoom mode' y b hpc hb hroom =>
    refine ⟨hpc, ?_, rfl⟩
    cases mode <;> cases mode' <;> cases ha <;> rfl
  | @callFull mode' y b hpc hb hfull =>
    refine ⟨hpc, ?_, rfl⟩
    cases mode <;> cases mode' <;> cases ha <;> rfl
  | _ => cases mode <;> cases ha

/-- A call goes on. -/
theorem ProducerStep.progress {m : BlockPtr} (h : ProducerStep n s (.produce m) s')
    (hx : s.producer.element = some x) : ProducerProgress s x s' := by
  generalize ha : (.produce m : Action α) = a at h
  cases h with
  | @callRoom mode y b hpc hb hroom => cases mode <;> cases ha
  | @callFull mode y b hpc hb hfull => cases mode <;> cases ha
  | readRoom hpc hb hroom => rw [hpc] at hx; exact .on hx rfl
  | readFull hpc hb hfull => rw [hpc] at hx; exact .on hx rfl
  | construct hpc hb hfree => rw [hpc] at hx; exact .on hx rfl
  | storeTail hpc hb =>
    rw [hpc] at hx
    obtain rfl := Option.some.inj hx
    exact .put rfl rfl
  | goAhead hpc hb hfree => rw [hpc] at hx; exact .on hx rfl
  | goAllocate hpc hb hring => rw [hpc] at hx; exact .on hx rfl
  | refuse hpc hb hring => exact .failed rfl rfl
  | readNextFront hpc hb heq => rw [hpc] at hx; exact .on hx rfl
  | constructNext hpc hb hfree => rw [hpc] at hx; exact .on hx rfl
  | storeNextTail hpc hb => rw [hpc] at hx; exact .on hx rfl
  | noMemory hpc => exact .failed rfl rfl
  | allocate hpc hb hm hnew => rw [hpc] at hx; exact .on hx rfl
  | linkNext hpc hb => rw [hpc] at hx; exact .on hx rfl
  | storeTailBlock hpc =>
    rw [hpc] at hx
    obtain rfl := Option.some.inj hx
    exact .put rfl rfl

/-- Not in `try_enqueue`, before it has found room. -/
def ProducerPc.mayAlloc : ProducerPc α → Bool
  | .readFront .cannotAlloc .. => false
  | .readFrontBlock .cannotAlloc .. => false
  | _ => true

theorem ProducerStep.called_mayAlloc (h : ProducerStep n s (.enqueue x) s') :
    s'.producer.mayAlloc = true := by
  generalize ha : (.enqueue x : Action α) = a at h
  cases h with
  | callRoom => rfl
  | @callFull mode y b hpc hb hfull =>
    cases mode with
    | canAlloc => rfl
    | cannotAlloc => cases ha
  | _ => cases ha

/-- `enqueue` returns `false` only for want of memory. -/
theorem ProducerStep.progress_mayAlloc {m : BlockPtr} (h : ProducerStep n s (.produce m) s')
    (hmay : s.producer.mayAlloc = true) :
    s'.producer.mayAlloc = true ∧ (s'.producer = .returned false → m = nullptr) := by
  generalize ha : (.produce m : Action α) = a at h
  cases h with
  | @callRoom mode y b hpc hb hroom => cases mode <;> cases ha
  | @callFull mode y b hpc hb hfull => cases mode <;> cases ha
  | @readFull m mode y p i j b hpc hb hfull =>
    rw [hpc] at hmay
    cases mode with
    | canAlloc => exact ⟨rfl, fun hret => by cases hret⟩
    | cannotAlloc => cases hmay
  | refuse hpc =>
    rw [hpc] at hmay
    cases hmay
  | noMemory hpc =>
    obtain rfl := Action.produce.inj ha
    exact ⟨rfl, fun _ => rfl⟩
  | _ => exact ⟨rfl, fun hret => by cases hret⟩

/-- The other histories and the other thread are left alone. -/
theorem ProducerStep.others (h : ProducerStep n s a s') :
    s'.consumer = s.consumer ∧ s'.removed = s.removed := by
  cases h with
  | _ => exact ⟨rfl, rfl⟩

/-- Elements are put in at the end. -/
theorem ProducerStep.grows (h : ProducerStep n s a s') :
    ∃ ys, s'.accepted = s.accepted ++ ys := by
  cases h with
  | storeTail hpc hb => exact ⟨[_], rfl⟩
  | storeTailBlock hpc => exact ⟨[_], rfl⟩
  | _ => exact ⟨[], (List.append_nil _).symm⟩

/-! ## The consumer -/

variable {op : ConsumerOp}

/-- What a step of a call of this function has done. -/
inductive ConsumerProgress (s : State α) (op : ConsumerOp) (s' : State α) : Prop where
  /-- The call goes on. -/
  | on (hop : s'.consumer.op = some op) (hrem : s'.removed = s.removed)
  /-- An element is taken out. -/
  | took {p : BlockPtr} {i : ℕ} {x : α} (hwas : s.consumer = .storeFront op p i x)
      (hpc : s'.consumer = .returned (op.gives x)) (hrem : s'.removed = s.removed ++ [x])
  /-- There was none. -/
  | nothing (hpc : s'.consumer = .returned op.nothing) (hrem : s'.removed = s.removed)
  /-- One is found, and stays. -/
  | found {e : BlockPtr × ℕ} (hop : op = .peek) (hpc : s'.consumer = .returned (.peeked (some e)))
      (hrem : s'.removed = s.removed)

theorem ConsumerProgress.atElement {p : BlockPtr} {i : ℕ} (hpc : s'.consumer = op.atElement p i)
    (hrem : s'.removed = s.removed) : ConsumerProgress s op s' := by
  cases op with
  | peek => exact .found rfl hpc hrem
  | tryDequeue => exact .on (by rw [hpc]; rfl) hrem
  | pop => exact .on (by rw [hpc]; rfl) hrem

/-- A call begins. -/
theorem ConsumerStep.called (op : ConsumerOp) (h : ConsumerStep s op.call s') :
    s.consumer.dequeuing = false ∧ ConsumerProgress s op s' := by
  generalize ha : op.call = a at h
  have hop : ∀ {op' : ConsumerOp}, (op.call : Action α) = op'.call → op' = op := by
    intro op' he
    cases op <;> cases op' <;> cases he <;> rfl
  cases h with
  | @callElement op' b hpc hb hne =>
    obtain rfl := hop ha
    exact ⟨hpc, .atElement rfl rfl⟩
  | @callEmpty op' b hpc hb heq =>
    obtain rfl := hop ha
    exact ⟨hpc, .on rfl rfl⟩
  | _ => cases op <;> cases ha

/-- A call that takes an element out is not over at once. -/
theorem ConsumerStep.called_op (hop : op ≠ .peek) (h : ConsumerStep s op.call s') :
    s'.consumer.op = some op ∧ s'.removed = s.removed := by
  generalize ha : op.call = a at h
  cases h with
  | @callElement op' b hpc hb hne =>
    cases op with
    | peek => exact absurd rfl hop
    | _ =>
      cases op' with
      | _ => cases ha <;> exact ⟨rfl, rfl⟩
  | @callEmpty op' b hpc hb heq =>
    cases op with
    | peek => exact absurd rfl hop
    | _ =>
      cases op' with
      | _ => cases ha <;> exact ⟨rfl, rfl⟩
  | _ => cases op <;> cases ha

/-- A call goes on. -/
theorem ConsumerStep.progress (h : ConsumerStep s .consume s') (hop : s.consumer.op = some op) :
    ConsumerProgress s op s' := by
  generalize ha : (.consume : Action α) = a at h
  cases h with
  | @callElement op' b hpc hb hne => cases op' <;> cases ha
  | @callEmpty op' b hpc hb heq => cases op' <;> cases ha
  | readElement hpc hb hne =>
    rw [hpc] at hop
    obtain rfl := Option.some.inj hop
    exact .atElement rfl rfl
  | readEmpty hpc hb heq => rw [hpc] at hop; exact .on hop rfl
  | goAhead hpc hne => rw [hpc] at hop; exact .on hop rfl
  | nothing hpc heq =>
    rw [hpc] at hop
    obtain rfl := Option.some.inj hop
    exact .nothing rfl rfl
  | rereadElement hpc hb hne =>
    rw [hpc] at hop
    obtain rfl := Option.some.inj hop
    exact .atElement rfl rfl
  | rereadEmpty hpc hb heq => rw [hpc] at hop; exact .on hop rfl
  | readNext hpc hb => rw [hpc] at hop; exact .on hop rfl
  | peekNext hpc hb hne =>
    rw [hpc] at hop
    obtain rfl := Option.some.inj hop
    exact .found rfl rfl rfl
  | readNextTail hpc hb hne hop' => rw [hpc] at hop; exact .on hop rfl
  | storeFrontBlock hpc => rw [hpc] at hop; exact .on hop rfl
  | take hpc hb hx => rw [hpc] at hop; exact .on hop rfl
  | storeFront hpc hb =>
    rw [hpc] at hop
    obtain rfl := Option.some.inj hop
    exact .took hpc rfl rfl

/-- What `peek` finds stays where it is. -/
theorem Sound.not_took {p : BlockPtr} {i : ℕ} (h : Sound s) :
    s.consumer ≠ .storeFront .peek p i x := by
  intro hpc
  obtain ⟨used, spare, held, -, hat, -⟩ := h
  rw [hpc] at hat
  exact hat.1 rfl

/-- The other thread and what was put in are left alone. -/
theorem ConsumerStep.others (h : ConsumerStep s a s') :
    s'.producer = s.producer ∧ s'.accepted = s.accepted := by
  cases h with
  | _ => exact ⟨rfl, rfl⟩

end Queue

end AppServer
