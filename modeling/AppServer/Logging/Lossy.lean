import AppServer.Logger.Conservation
import AppServer.Logging.Step

/-!
# A logger that runs out of memory

`enqueue` returns `false` where it has no memory for a block, and
`real_log_msg` does not look. Besides its steps the logger then has one more:
a record it was about to enqueue is forgotten. Of what was enqueued nothing
is lost by it.
-/

namespace AppServer

namespace Logging

open Lib
open Logger (Addr ThreadId Record LogCall LogMessage Frame Discipline Custody Accounted FreshAddr)

/-- What can happen: an action of the logger, or thread `t` drops its
record. -/
inductive Event where
  | act (a : Logger.Action)
  | drop (t : ThreadId)

/-- The actions of the logger among the events. -/
def Event.action? : Event → Option Logger.Action
  | .act a => some a
  | .drop _ => none

/-- The step function of a logger whose `enqueue` may fail. -/
def lossy (s : Logger.State) : Event → Option Logger.State
  | .act a => Logger.step s a
  | .drop t =>
    match access (s.threads t).stack with
    | some (.enqueue _ _) => some (s.setStack t (s.threads t).stack.tail)
    | _ => none

/-- A guard on the actions of the logger. -/
def Event.Meets (ok : Logger.State → Logger.Action → Prop) (s : Logger.State) : Event → Prop
  | .act a => ok s a
  | .drop _ => True

variable {s s' : Logger.State} {t u : ThreadId} {c : LogCall} {item : LogMessage} {l : Addr}
  {r : Record} {st : List Frame}

/-! ## A record is dropped -/

theorem discipline_drop (hd : Discipline s)
    (hst : (s.threads t).stack = .realLogMsg c item (.enqueue l r) :: st) :
    Discipline (s.setStack t st) := by
  refine ⟨fun u => ?_, hd.registry.congr (fun _ => Logger.setStack_stage) (fun _ => rfl) rfl
    fun _ hl => hd.registry.empty _ hl⟩
  by_cases hut : u = t
  · subst hut
    have hok := hd.grammar u
    rw [hst] at hok
    obtain ⟨hg, hc⟩ := hok.inv_enqueue
    simp only [Logger.setStack_stage, Logger.setStack_holds, Logger.setStack_stack_self]
    exact .context (hg ▸ Logger.settled_registered) hc
  · simpa [Logger.State.setStack, Logger.State.holds, hut] using hd.grammar u

/-- A frame that is still there was there. -/
theorem mem_stack_drop {f : Frame}
    (hst : (s.threads t).stack = .realLogMsg c item (.enqueue l r) :: st)
    (hf : f ∈ ((s.setStack t st).threads u).stack) : f ∈ (s.threads u).stack := by
  by_cases hut : u = t
  · subst hut
    rw [Logger.setStack_stack_self] at hf
    rw [hst]
    exact List.mem_cons_of_mem _ hf
  · simpa [Logger.State.setStack, hut] using hf

/-- The lanes do not see a record before it is enqueued. -/
theorem lanes_drop (hd : Discipline s) (hc : Custody s)
    (hst : (s.threads t).stack = .realLogMsg c item (.enqueue l r) :: st) :
    (s.setStack t st).lanes = s.lanes := by
  have hheld : (s.setStack t st).held = s.held := by
    refine Logger.held_congr (fun u => ?_) hd.grammar hc.consuming (discipline_drop hd hst).grammar
      fun u pc next check hf => hc.consuming u pc next check (mem_stack_drop hst hf)
    by_cases hut : u = t
    · subst hut
      simp [Logger.Thread.waiting, Frame.waiting, hst]
    · simp [Logger.State.setStack, hut]
  unfold Logger.State.lanes
  rw [hheld]
  rfl

theorem inFlight_drop {r' : Record} (hd : Discipline s)
    (hst : (s.threads t).stack = .realLogMsg c item (.enqueue l r) :: st)
    (h : Logger.InFlight (s.setStack t st) u r') : Logger.InFlight s u r' := by
  obtain ⟨c', item', l', st', hst'⟩ := h
  by_cases hut : u = t
  · subst hut
    have hok := hd.grammar u
    rw [hst] at hok
    rw [Logger.setStack_stack_self] at hst'
    exact absurd hst' hok.inv_enqueue.2.not_enqueue
  · exact ⟨c', item', l', st', by simpa [Logger.State.setStack, hut] using hst'⟩

theorem custody_drop (hd : Discipline s) (hc : Custody s)
    (hst : (s.threads t).stack = .realLogMsg c item (.enqueue l r) :: st) :
    Custody (s.setStack t st) := by
  have hpending : (s.setStack t st).pending = s.pending := by
    unfold Logger.State.pending
    rw [lanes_drop hd hc hst]
    rfl
  refine ⟨fun u pc next check hf => hc.consuming u pc next check (mem_stack_drop hst hf), ?_, ?_,
    ?_⟩
  · rw [hpending]
    exact hc.distinct
  · intro u r' hr' p hp
    rw [hpending] at hp
    exact hc.flight u r' (inFlight_drop hd hst hr') p hp
  · intro u v r₁ r₂ h₁ h₂ hne
    exact hc.flights u v r₁ r₂ (inFlight_drop hd hst h₁) (inFlight_drop hd hst h₂) hne

theorem accounted_drop (hA : Accounted s)
    (hst : (s.threads t).stack = .realLogMsg c item (.enqueue l r) :: st) :
    Accounted (s.setStack t st) where
  discipline := discipline_drop hA.discipline hst
  custody := custody_drop hA.discipline hA.custody hst
  inOrder := by
    rw [lanes_drop hA.discipline hA.custody hst]
    exact hA.inOrder
  numbered := hA.numbered

/-! ## Its runs -/

/-- What is dropped was about to be enqueued. -/
theorem lossy_drop (h : lossy s (.drop t) = some s') :
    ∃ c item l r st, (s.threads t).stack = .realLogMsg c item (.enqueue l r) :: st ∧
      s' = s.setStack t st := by
  simp only [lossy] at h
  split at h
  · rename_i hacc
    obtain ⟨c, item, st, hst⟩ := access_eq_enqueue hacc
    obtain rfl := Option.some.inj h
    exact ⟨c, item, _, _, st, hst, by rw [hst]; rfl⟩
  · cases h

/-- **Every record that was enqueued is accounted for.** -/
theorem accounted_lossy {bs : List Event}
    (h : Run lossy (Event.Meets FreshAddr) Logger.State.initial bs s) : Accounted s := by
  refine h.invariant Logger.accounted_initial fun s b s' hA hok hs => ?_
  cases b with
  | act a => exact Logger.accounted_step hA hok hs
  | drop t =>
    obtain ⟨c, item, l, r, st, hst, rfl⟩ := lossy_drop hs
    exact accounted_drop hA hst

end Logging

end AppServer
