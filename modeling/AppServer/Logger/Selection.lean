import AppServer.Logger.Merge

/-!
# Which record `consume` passes on

`ordered_next` holds several records when producers enqueue while `consume`
drains, and the one passed on is `*ordered_next.begin()`. The set is declared
as `std::set<MsgLoggerPair>`, without the `pair_compare` written for it just
above, so that it is ordered by `std::less` on the pairs: by where the
records live. The record passed on is the earliest exactly where the one at
the lowest address is.
-/

namespace AppServer

namespace Logger

open Lib

/-- The record a running `ordered_log` was called with, and the set it was
taken from. -/
def Frame.selection : Frame → Option (MsgLoggerPair × StdSet pairKey)
  | .consume (.logging _ first) next _ => some (first, next)
  | _ => none

/-- The same, for a thread. -/
def Thread.selections (th : Thread) : List (MsgLoggerPair × StdSet pairKey) :=
  th.stack.filterMap Frame.selection

/-- **Earliest-first selection**: no record held is earlier than the one a
running `ordered_log` was called with. -/
def Thread.EarliestFirst (th : Thread) : Prop :=
  ∀ x ∈ th.selections, ∀ p ∈ x.2.toList, x.1.1.msg.when ≤ p.1.msg.when

instance (th : Thread) : Decidable th.EarliestFirst :=
  inferInstanceAs (Decidable (∀ x ∈ th.selections, ∀ p ∈ x.2.toList, x.1.1.msg.when ≤ p.1.msg.when))

/-- In every call of `consume`. -/
def EarliestFirst (s : State) : Prop := ∀ t, (s.threads t).EarliestFirst

/-- The record at the lowest address is no later than any other. -/
def LowestIsEarliest (next : StdSet pairKey) : Prop :=
  ∀ m ∈ next.toList, (∀ p ∈ next.toList, pairKey m ≤ pairKey p) →
    ∀ p ∈ next.toList, m.1.msg.when ≤ p.1.msg.when

/-- It is wherever `consume` is about to pass a record on. -/
def AddressesInOrder (s : State) : Action → Prop
  | .run t _ => ∀ i next check st, (s.threads t).stack = .consume (.drain i) next check :: st →
      LowestIsEarliest next
  | _ => True

variable {s s' : State} {t : ThreadId} {a : Action} {as : List Action}

/-- What is passed on is at the lowest address. -/
theorem lowestIsEarliest_iff {next : StdSet pairKey} {first : MsgLoggerPair}
    (hf : next.first? = some first) :
    LowestIsEarliest next ↔ ∀ p ∈ next.toList, first.1.msg.when ≤ p.1.msg.when := by
  constructor
  · intro h
    obtain ⟨hmem, hle⟩ := StdSet.first?_eq_some_iff.1 hf
    exact h first hmem hle
  · intro h m hm hle
    rw [StdSet.first?_eq_some_iff.2 ⟨hm, hle⟩] at hf
    exact Option.some.inj hf ▸ h

theorem filterMap_returnLogger {l : Addr} {st : List Frame} :
    (returnLogger l st).filterMap Frame.selection = st.filterMap Frame.selection := by
  unfold returnLogger
  split <;> rfl

/-- A step that calls no `ordered_log`. -/
theorem EarliestFirst.of_subset (hP : EarliestFirst s) (h : Step s t a s')
    (hsub : (s'.threads t).selections ⊆ (s.threads t).selections) : EarliestFirst s' := by
  intro u
  by_cases hu : u = t
  · subst hu
    exact fun x hx => hP u x (hsub hx)
  · rw [threads_of_ne h hu]
    exact hP u

/-- **One step.** -/
theorem earliestFirst_iff (h : Step s t a s') (hP : EarliestFirst s) :
    AddressesInOrder s a ↔ EarliestFirst s' := by
  have hkeep := hP.of_subset h
  -- the condition speaks of the inner loop's head only
  have hother : ∀ {env : Env} {f : Frame} {st : List Frame}, (s.threads t).stack = f :: st →
      (∀ i next check, f ≠ .consume (.drain i) next check) → AddressesInOrder s (.run t env) := by
    intro env f st hst hne i next check st' hst'
    rw [hst] at hst'
    exact absurd (List.cons.inj hst').1 (hne i next check)
  cases h with
  | log =>
    refine iff_of_true trivial (hkeep ?_)
    simp [Thread.selections, List.filterMap_cons, Frame.selection]
  | consume hst | exit hst =>
    refine iff_of_true trivial (hkeep ?_)
    simp [Thread.selections, List.filterMap_cons, hst, Frame.selection]
  | getFast hst =>
    refine iff_of_true (hother hst (by simp)) (hkeep ?_)
    simp [Thread.selections, List.filterMap_cons, hst, Frame.selection, filterMap_returnLogger]
  | getUnlock hst =>
    refine iff_of_true (hother hst (by simp)) (hkeep ?_)
    show List.filterMap _ ((s.setStack t _).threads t).stack ⊆ _
    simp [Thread.selections, List.filterMap_cons, hst, Frame.selection, filterMap_returnLogger]
  | getLock hst | enqueue hst | conLock hst | conUnlock hst =>
    refine iff_of_true (hother hst (by simp)) (hkeep ?_)
    show List.filterMap _ ((State.setStack _ t _).threads t).stack ⊆ _
    simp [Thread.selections, List.filterMap_cons, hst, Frame.selection]
  | drainEnd hst hf =>
    -- `ordered_next` is empty: nothing is selected, and nothing asked for
    refine iff_of_true ?_ (hkeep ?_)
    · intro i next check st hst'
      rw [hst] at hst'
      obtain ⟨heq, -⟩ := List.cons.inj hst'
      cases heq
      intro m hm
      rw [StdSet.first?_eq_none.1 hf] at hm
      cases hm
    · simp [Thread.selections, List.filterMap_cons, hst, Frame.selection]
  | @drainCall env st next check i first hst hf =>
    -- the one step that selects: `first` goes to `ordered_log`
    have hsel : AddressesInOrder s (.run t env) ↔ LowestIsEarliest next := by
      constructor
      · exact fun h => h i next check st hst
      · intro h i' next' check' st' hst'
        rw [hst] at hst'
        obtain ⟨heq, -⟩ := List.cons.inj hst'
        cases heq
        exact h
    have hcons : (({ s.setStack t (.orderedLog :: .consume (.logging i first) next check :: st) with
        passed := s.passed ++ [first] } : State).threads t).selections =
        (first, next) :: (s.threads t).selections := by
      show List.filterMap _ ((s.setStack t _).threads t).stack = _
      simp [Thread.selections, List.filterMap_cons, hst, Frame.selection]
    rw [hsel, lowestIsEarliest_iff hf]
    constructor
    · intro hle u
      by_cases hu : u = t
      · subst hu
        intro x hx
        rw [hcons] at hx
        rcases List.mem_cons.1 hx with rfl | hx
        · exact hle
        · exact hP u x hx
      · rw [threads_of_ne (a := .run t env) (Step.drainCall hst hf) hu]
        exact hP u
    · exact fun hP' => hP' t (first, next) (hcons ▸ List.mem_cons_self)
  | _ hst =>
    refine iff_of_true (hother hst (by simp)) (hkeep ?_)
    simp [Thread.selections, List.filterMap_cons, hst, Frame.selection]

/-- **When `consume` passes on the earliest record.** Whatever loggers there
are, however the producers' steps come between those of `consume`, and
wherever the records live: in every state of a run no record held in
`ordered_next` is earlier than the one `ordered_log` was called with, if and
only if, whenever one is about to be passed on, the one at the lowest
address is as early as any. -/
theorem earliest_first_iff :
    Run step AddressesInOrder State.initial as s ↔
      Run step (Lands step EarliestFirst) State.initial as s := by
  refine Run.lands_iff (J := fun _ => True) trivial ?_ (fun _ _ _ _ _ => trivial) ?_
  · intro t x hx
    cases hx
  · exact fun s a s' _ hP hs => earliestFirst_iff (step_cases hs) hP

/-- Thread 0 logs at the time 1 and thread 2 at the time 2. Thread 1 calls
`consume` and comes to pass on the first record of thread 2. Meanwhile thread
0 logs at the time 3 and thread 2 at the time 4, and the memory of the second
of these records is below that of the first. -/
def selectionRun : List Action :=
  .log 0 sampleCall ⟨0, 0⟩ :: stretch 0 100 200 1 9 ++
  .log 2 sampleCall ⟨0, 0⟩ :: stretch 2 101 210 2 9 ++ .consume 1 :: stretch 1 102 250 2 17 ++
  .log 0 sampleCall ⟨0, 0⟩ :: stretch 0 100 900 3 3 ++
  .log 2 sampleCall ⟨0, 0⟩ :: stretch 2 101 300 4 3 ++ stretch 1 102 250 5 12

/-- The record of the time 4 is passed on while that of the time 3 is
held. -/
theorem later_record_first : ∃ s, Run step FreshAddr State.initial selectionRun s ∧
    whens (s.passed.drop 3) = [⟨2, 0⟩, ⟨4, 0⟩] ∧ whens (s.threads 1).waiting = [⟨3, 0⟩] ∧
    ¬ EarliestFirst s := by
  obtain ⟨s, hrun, hpassed, hwait, hno⟩ : ∃ s, Run step FreshAddr State.initial selectionRun s ∧
      whens (s.passed.drop 3) = [⟨2, 0⟩, ⟨4, 0⟩] ∧ whens (s.threads 1).waiting = [⟨3, 0⟩] ∧
      ¬ (s.threads 1).EarliestFirst :=
    fresh_of_exec (n := 3) (by decide +kernel)
  exact ⟨s, hrun, hpassed, hwait, fun h => hno (h 1)⟩

end Logger

end AppServer
