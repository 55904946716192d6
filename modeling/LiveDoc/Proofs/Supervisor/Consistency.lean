import LiveDoc.Proofs.Supervisor.Turns
import Mathlib.Tactic.ByContra

/-!
# LiveDoc — supervisors whose fields agree

The state of a supervisor decides what its other fields may be: whether there is a child, whether a
new start or a stop may be pending, and who may wait. Whatever is asked of a supervisor keeps that,
and so does whatever the child reports that exists. Only an exit may find callers waiting who are
not to be started, and they are told.

* `Supervisor.Consistent` — the fields agree with the state.
* `Supervisor.Consistent.handleCommand`, `Supervisor.Consistent.handleChild` — they do so again.
-/

namespace LiveDoc

namespace Supervisor

/-- The fields of a supervisor agree with its state. -/
structure Consistent (s : Supervisor) : Prop where
  child : s.child = if s.state.hasProcess then some s.generation else none
  restarts : s.restarts = true → s.state = .shuttingDown ∧ s.isStopped = false
  stoppers : s.stoppers ≠ [] → s.state = .shuttingDown
  stopped : s.isStopped = true → s.state ≠ .starting ∧ s.state ≠ .running
  starters : s.starters ≠ [] →
    s.state = .starting ∨ s.state = .shuttingDown ∧ (s.restarts = true ∨ s.isStopped = true)

variable {s : Supervisor} {failure : Option SupervisorError}

namespace Consistent

theorem initial : Consistent {} := ⟨rfl, nofun, nofun, nofun, nofun⟩

/-- Where no child exists nobody waits. -/
theorem idle (h : s.Consistent) (hidle : s.state.hasProcess = false) :
    s.child = none ∧ s.restarts = false ∧ s.stoppers = [] ∧ s.starters = [] := by
  obtain ⟨hstarting, -, hdown⟩ := ne_of_idle hidle
  refine ⟨?_, ?_, ?_, ?_⟩
  · rw [h.child, hidle]
    rfl
  · rw [← Bool.not_eq_true]
    exact fun hrestarts => hdown (h.restarts hrestarts).1
  · by_contra hstoppers
    exact hdown (h.stoppers hstoppers)
  · by_contra hstarters
    rcases h.starters hstarters with hstate | ⟨hstate, -⟩
    · exact hstarting hstate
    · exact hdown hstate

/-- Before a child shuts down nothing is pending but its start. -/
theorem up (h : s.Consistent) (hup : s.state = .starting ∨ s.state = .running) :
    s.child = some s.generation ∧ s.isStopped = false ∧ s.restarts = false ∧ s.stoppers = [] := by
  have hdown : s.state ≠ .shuttingDown := by rcases hup with h | h <;> rw [h] <;> decide
  refine ⟨?_, ?_, ?_, ?_⟩
  · rw [h.child, if_pos (hasProcess_of_up hup)]
  · rw [← Bool.not_eq_true]
    intro hstopped
    obtain ⟨hstarting, hrunning⟩ := h.stopped hstopped
    exact hup.elim hstarting hrunning
  · rw [← Bool.not_eq_true]
    exact fun hrestarts => hdown (h.restarts hrestarts).1
  · by_contra hstoppers
    exact hdown (h.stoppers hstoppers)

theorem running (h : s.Consistent) (hrunning : s.state = .running) : s.starters = [] := by
  by_contra hstarters
  rcases h.starters hstarters with hstate | ⟨hstate, -⟩ <;> rw [hrunning] at hstate <;> cases hstate

/-- Where the backend runs or is dead nobody waits for a start. -/
theorem settled (h : s.Consistent) (hstate : s.state = .running ∨ s.state = .dead) :
    s.starters = [] := by
  rcases hstate with hrunning | hdead
  · exact h.running hrunning
  · exact (h.idle (by rw [hdead]; rfl)).2.2.2

/-! ## What keeps a supervisor consistent -/

theorem spawn (hidle : s.state.hasProcess = false) (hchild : s.child = none)
    (hrestarts : s.restarts = false) (hstoppers : s.stoppers = [])
    (hstopped : s.isStopped = false) : (s.spawn failure).2.Consistent := by
  cases failure with
  | none =>
    rw [spawn_none (ne_of_idle hidle).1]
    exact ⟨rfl, by simp [hrestarts], by simp [hstoppers], by simp [hstopped], fun _ => .inl rfl⟩
  | some error =>
    rw [spawn_some (ne_of_idle hidle).1]
    exact ⟨hchild, by simp [hrestarts], by simp [hstoppers], by simp [hstopped], by simp⟩

/-- A child may be killed if whoever waits for a start gets a new one, or is told of the stop. -/
theorem killChild (hchild : s.child = some s.generation)
    (hrestarts : s.restarts = true → s.isStopped = false)
    (hstarters : s.starters ≠ [] → s.restarts = true ∨ s.isStopped = true) :
    s.killChild.2.Consistent := by
  rw [killChild_snd]
  exact ⟨hchild, fun h => ⟨rfl, hrestarts h⟩, fun _ => rfl, fun _ => ⟨nofun, nofun⟩,
    fun h => .inr ⟨rfl, hstarters h⟩⟩

/-- A new child may be wanted by those who wait already and by others. -/
theorem cycle (h : s.Consistent) (starters : List String) (failure : Option SupervisorError) :
    ({ s with isStopped := false, starters }.cycle failure).2.Consistent := by
  let s' : Supervisor := { s with isStopped := false, starters }
  show (s'.cycle failure).2.Consistent
  rcases s'.up_or_shuttingDown_or_idle with hup | hdown | hidle
  · rw [cycle_of_up failure hup]
    exact killChild (h.up hup).1 (fun _ => rfl) fun _ => .inl rfl
  · rw [cycle_of_shuttingDown failure hdown]
    exact ⟨h.child, fun _ => ⟨hdown, rfl⟩, h.stoppers, nofun, fun _ => .inr ⟨hdown, .inl rfl⟩⟩
  · rw [cycle_of_idle failure hidle]
    obtain ⟨hchild, hrestarts, hstoppers, -⟩ := h.idle hidle
    exact spawn hidle hchild hrestarts hstoppers rfl

theorem start (h : s.Consistent) (failure : Option SupervisorError) (caller : String) :
    (s.start failure caller).2.Consistent := by
  have hrestarts : s.restarts = true → s.state = .shuttingDown ∧ false = false :=
    fun hrestarts => ⟨(h.restarts hrestarts).1, rfl⟩
  rcases s.up_or_shuttingDown_or_idle with (hstarting | hrunning) | hdown | hidle
  · rw [start_of_starting failure caller hstarting]
    exact ⟨h.child, hrestarts, h.stoppers, nofun, fun _ => .inl hstarting⟩
  · rw [start_of_running failure caller hrunning]
    exact ⟨h.child, hrestarts, h.stoppers, nofun, fun hne => absurd (h.running hrunning) hne⟩
  · rw [start_of_shuttingDown failure caller hdown]
    exact ⟨h.child, fun _ => ⟨hdown, rfl⟩, h.stoppers, nofun, fun _ => .inr ⟨hdown, .inl rfl⟩⟩
  · rw [start_of_idle failure caller hidle]
    obtain ⟨hchild, hrestarts, hstoppers, -⟩ := h.idle hidle
    exact spawn hidle hchild hrestarts hstoppers rfl

theorem stop (h : s.Consistent) (caller : String) : (s.stop caller).2.Consistent := by
  rcases s.up_or_shuttingDown_or_idle with hup | hdown | hidle
  · rw [stop_of_up caller hup]
    exact killChild (h.up hup).1 nofun fun _ => .inr rfl
  · rw [stop_of_shuttingDown caller hdown]
    exact ⟨h.child, nofun, fun _ => hdown, fun _ => ⟨by simp [hdown], by simp [hdown]⟩,
      fun _ => .inr ⟨hdown, .inr rfl⟩⟩
  · rw [stop_of_idle caller hidle]
    obtain ⟨hstarting, hrunning, -⟩ := ne_of_idle hidle
    obtain ⟨-, -, -, hstarters⟩ := h.idle hidle
    exact ⟨h.child, nofun, h.stoppers, fun _ => ⟨hstarting, hrunning⟩,
      fun hne => absurd hstarters hne⟩

theorem handleCommand (h : s.Consistent) (failure : Option SupervisorError)
    (command : SupervisorCommand) : (s.handleCommand failure command).2.Consistent := by
  cases command with
  | start caller => exact h.start failure caller
  | stop caller => exact h.stop caller
  | restart caller => exact h.cycle _ failure
  | send frame =>
    show (s.forward frame).2.Consistent
    rwa [forward_snd]
  | sourceChanged =>
    rcases s.sourceChanged_cases failure with ⟨-, hturn⟩ | ⟨hstopped, hturn⟩ <;> rw [hturn]
    · exact h
    · have hcycle := h.cycle s.starters failure
      rwa [← hstopped] at hcycle
  | respawn epoch =>
    rcases s.respawn_cases failure epoch with hturn | ⟨⟨-, hdead, hstopped⟩, hturn⟩ <;> rw [hturn]
    · exact h
    · have hidle : s.state.hasProcess = false := by rw [hdead]; rfl
      obtain ⟨hchild, hrestarts, hstoppers, -⟩ := h.idle hidle
      exact spawn hidle hchild hrestarts hstoppers hstopped

/-- A child that exits is followed by a new one, by a respawn that is due later, or by nothing. -/
theorem handleExit (h : s.Consistent) (hstate : s.state.hasProcess = true)
    (failure : Option SupervisorError) (code : Option Nat) :
    (s.handleExit failure code).2.Consistent := by
  rcases up_or_shuttingDown hstate with (hstarting | hrunning) | hdown
  · rw [handleExit_of_starting failure code hstarting]
    obtain ⟨-, hstopped, -, hstoppers⟩ := h.up (.inl hstarting)
    exact ⟨rfl, nofun, by simp [hstoppers], fun _ => ⟨nofun, nofun⟩, nofun⟩
  · obtain ⟨-, hstopped, hrestarts, hstoppers⟩ := h.up (.inr hrunning)
    rw [handleExit_of_running failure code hrunning hstopped]
    exact ⟨rfl, by simp [hrestarts], by simp [hstoppers], fun _ => ⟨nofun, nofun⟩,
      fun hne => absurd (h.running hrunning) hne⟩
  · rw [handleExit_of_shuttingDown failure code hdown, andThen_snd, resume]
    split
    · next hrestarts => exact spawn rfl rfl rfl rfl (h.restarts hrestarts).2
    · next hrestarts =>
      split
      · exact ⟨rfl, fun hdue => absurd hdue hrestarts, by simp, by simp, by simp⟩
      · next hstopped =>
        -- Nobody waits for a start that is neither due nor stopped.
        refine ⟨rfl, fun hdue => absurd hdue hrestarts, by simp, by simp, fun hne => ?_⟩
        rcases h.starters hne with hstate | ⟨-, hdue⟩
        · rw [hdown] at hstate
          cases hstate
        · exact absurd hdue (not_or.mpr ⟨hrestarts, hstopped⟩)

/-- An event of the child that exists. -/
theorem handleChild (h : s.Consistent) (hstate : s.state.hasProcess = true)
    (failure : Option SupervisorError) (event : ChildEvent) :
    (s.handleChild failure event).2.Consistent := by
  have hchild : s.child = some s.generation := by rw [h.child, if_pos hstate]
  cases event with
  | ready =>
    by_cases hstarting : s.state = .starting
    · rw [handleChild_ready_of_starting failure hstarting]
      obtain ⟨-, hstopped, hrestarts, hstoppers⟩ := h.up (.inl hstarting)
      exact ⟨hchild, by simp [hrestarts], by simp [hstoppers], by simp [hstopped], nofun⟩
    · rw [handleChild_ready_of_ne failure hstarting]
      exact h
  | handshakeFailed reason =>
    rw [handleChild_handshakeFailed, andThen_snd]
    exact killChild hchild (fun hrestarts => (h.restarts hrestarts).2) nofun
  | message message => exact h
  | malformed line error => exact h
  | exited code => exact h.handleExit hstate failure code

end Consistent

end Supervisor

end LiveDoc
