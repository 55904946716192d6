import LiveDoc.Proofs.Supervisor.Sound

/-!
# LiveDoc — the life of the backend

An observer can follow a supervisor from its beginning on: the changes of state, one allowed change
after the other, and the children, of which there is one at most.

* `TrackedSupervisor.Sound.leads` — the changes of a run are allowed.
* `TrackedSupervisor.lifecycle` — the backend goes from state to state as it may, with one child at
  most.
-/

namespace LiveDoc

namespace TrackedSupervisor

variable {h : TrackedSupervisor} {inputs : SupervisorInputs}

/-- The changes of a run are allowed, one after the other. -/
theorem Sound.leads (hs : h.Sound) (orderly : h.Orderly inputs) :
    h.supervisor.state.Leads (changes (h.supervisor.run inputs).1)
      (h.supervisor.run inputs).2.state := by
  induction inputs generalizing h with
  | nil => exact rfl
  | cons input rest ih =>
    obtain ⟨input, failure⟩ := input
    have hfollow : Observation.follow _ (h.effects failure input) = _ := hs.follow orderly.1
    have hfirst := Observation.leads_of_follow hfollow
    have hstate : (h.supervisor.observationBehind input).state = h.supervisor.state := by
      cases input with
      | command command => rfl
      | server event => rfl
      | child generation event => cases event <;> rfl
    rw [hstate] at hfirst
    have hrest := ih (hs.next orderly.1) orderly.2
    show BackendState.Leads _ (changes ((h.supervisor.step failure input).1 ++ _)) _
    rw [changes, List.filterMap_append]
    exact hfirst.append hrest

/-- In every run the changes of state are allowed, and each starts where the last one ended. Behind
it there is a child exactly in the states that have a process, which is that of the last generation;
the next child is spawned when no process exists; a new start and the callers of a stop are pending
only while a child shuts down, and no child is up once the backend was stopped. -/
theorem lifecycle {s : Supervisor} {effects : List SupervisorEffect} (orderly : Orderly {} inputs)
    (hrun : Supervisor.run {} inputs = (effects, s)) :
    BackendState.notStarted.Leads (changes effects) s.state ∧
      s.child = (if s.state.hasProcess then some s.generation else none) ∧
      (∀ input failure before generation rest, (after {} inputs).admits input →
        (s.step failure input).1 = before ++ .spawned generation :: rest →
          Vacant (before.foldl notice ((after {} inputs).hear input))) ∧
      (s.restarts = true → s.state = .shuttingDown) ∧
      (s.stoppers ≠ [] → s.state = .shuttingDown) ∧
      (s.isStopped = true → s.state ≠ .starting ∧ s.state ≠ .running) := by
  have hs : (after {} inputs).Sound := Sound.initial.after orderly
  have hsupervisor : (after {} inputs).supervisor = s := by rw [supervisor_after, hrun]
  have hleads := Sound.initial.leads orderly
  rw [hrun] at hleads
  have hconsistent : s.Consistent := hsupervisor ▸ hs.consistent
  refine ⟨hleads, hconsistent.child, ?_, fun h => (hconsistent.restarts h).1,
    hconsistent.stoppers, hconsistent.stopped⟩
  intro input failure before generation rest hadmits hsplit
  rw [← hsupervisor] at hsplit
  exact Observation.vacant_of_follow (hs.knows_hear hadmits) (hs.follow hadmits) hsplit
    (.inl ⟨generation, rfl⟩)

/-- A child is up, is stopped and then wanted again. While it shuts down the stop and a new start
are pending, and with its exit the next child is spawned, behind the acknowledgement. -/
theorem lifecycle_stopped_and_wanted :
    ∃ (inputs : SupervisorInputs) (effects : List SupervisorEffect) (s : Supervisor),
      Orderly {} inputs ∧ Supervisor.run {} inputs = (effects, s) ∧
        BackendState.notStarted.Leads (changes effects) .shuttingDown ∧
        s.child = some 1 ∧ s.restarts = true ∧ s.stoppers = ["b"] ∧
        Vacant ([.notify (.stateChanged .shuttingDown .dead), .acknowledge "b",
            .notify (.stateChanged .dead .starting)].foldl notice
          ((after {} inputs).hear (.child 1 (.exited none)))) := by
  let inputs : SupervisorInputs := [(.command (.start "a"), none), (.child 1 .ready, none),
    (.command (.stop "b"), none), (.command (.start "c"), none)]
  have orderly : Orderly {} inputs := by decide
  obtain ⟨hleads, hchild, hspawns, -⟩ := lifecycle orderly rfl
  exact ⟨inputs, _, _, orderly, rfl, hleads, hchild, rfl, rfl,
    hspawns (.child 1 (.exited none)) none _ 2 [] (by decide) rfl⟩

end TrackedSupervisor

end LiveDoc
