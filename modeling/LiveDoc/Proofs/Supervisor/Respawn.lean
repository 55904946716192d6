import LiveDoc.Proofs.Supervisor.Callers
import Mathlib.Data.List.Nodup

/-!
# LiveDoc — respawns after a crash

The delay behind a crash outlives what comes in between, and the epoch tells a respawn that is due
from those that were overtaken. A stop, a restart and a change of the source each begin a new epoch,
and so does every crash, but a start does not. So a respawn that spawns a child goes back to a
crash since which no other child became ready; the child that crashed need not be the last one,
since callers may have started others that failed.

* `TrackedSupervisor.Sound.scheduled_pairwise` — no epoch is scheduled twice.
* `TrackedSupervisor.exists_crash_of_due` — a respawn that is due goes back to a crash.
* `TrackedSupervisor.respawn_follows_crash` — what lies between a crash and its respawn.
* `TrackedSupervisor.exists_respawn_after_failed_start` — a failed start may.
-/

namespace LiveDoc

/-- The epochs of the respawns that are scheduled. -/
def scheduled (effects : List SupervisorEffect) : List Nat :=
  effects.filterMap fun
    | .respawnLater epoch => some epoch
    | _ => none

theorem mem_scheduled {epoch : Nat} {effects : List SupervisorEffect} :
    epoch ∈ scheduled effects ↔ .respawnLater epoch ∈ effects := by
  rw [scheduled, List.mem_filterMap]
  constructor
  · rintro ⟨effect, hmem, hsome⟩
    cases effect <;> cases hsome
    exact hmem
  · exact fun hmem => ⟨_, hmem, rfl⟩

/-- The respawn whose delay is over. -/
def SupervisorInput.respawn? : SupervisorInput → Option Nat
  | .command (.respawn epoch) => some epoch
  | _ => none

/-- The epochs of the respawns whose delay is over, in order. -/
def fired (inputs : SupervisorInputs) : List Nat := inputs.filterMap (·.1.respawn?)

theorem mem_fired {epoch : Nat} {inputs : SupervisorInputs} :
    epoch ∈ fired inputs ↔ ∃ failure, (.command (.respawn epoch), failure) ∈ inputs := by
  rw [fired, List.mem_filterMap]
  constructor
  · rintro ⟨⟨input, failure⟩, hmem, hsome⟩
    obtain rfl : input = .command (.respawn epoch) := by
      unfold SupervisorInput.respawn? at hsome
      split at hsome <;> cases hsome
      assumption
    exact ⟨failure, hmem⟩
  · rintro ⟨failure, hmem⟩
    exact ⟨_, hmem, rfl⟩

/-- Whether an input overtakes a respawn that is scheduled, unless the backend was stopped. -/
def SupervisorInput.overtakes : SupervisorInput → Bool
  | .command (.stop _) | .command (.restart _) | .command .sourceChanged => true
  | _ => false

namespace TrackedSupervisor

variable {h : TrackedSupervisor} {input : SupervisorInput} {failure : Option SupervisorError}
  {inputs : SupervisorInputs} {epoch : Nat}

/-- What is done behind inputs is done about one of them. -/
theorem exists_mem_effects {effect : SupervisorEffect} (h : TrackedSupervisor)
    (hmem : effect ∈ (h.supervisor.run inputs).1) :
    ∃ before input failure since, inputs = before ++ (input, failure) :: since ∧
      effect ∈ (h.after before).effects failure input := by
  induction inputs generalizing h with
  | nil => cases hmem
  | cons input rest ih =>
    obtain ⟨input, failure⟩ := input
    rcases List.mem_append.mp hmem with hfirst | hrest
    · exact ⟨[], input, failure, rest, rfl, hfirst⟩
    · obtain ⟨before, input', failure', since, rfl, hlater⟩ := ih (h.next failure input) hrest
      exact ⟨(input, failure) :: before, input', failure', since, rfl, hlater⟩

/-! ## What a crash schedules -/

/-- A respawn is scheduled when a child exits that ran, and for the next epoch. -/
theorem Sound.crash_of_scheduled (hs : h.Sound) (hadmits : h.admits input)
    (hmem : .respawnLater epoch ∈ h.effects failure input) :
    h.supervisor.state = .running ∧
      ∃ code, input = .child h.supervisor.generation (.exited code) ∧
        h.effects failure input = [.notify (.stateChanged .running .dead),
          .notify (.crashed code false), .respawnLater epoch] ∧
        (h.next failure input).supervisor =
          { h.supervisor with child := none, state := .dead, epoch } ∧
        epoch = h.supervisor.epoch + 1 := by
  cases hs.cause hadmits hmem with
  | aside haside => cases haside
  | @crash code report state hnext =>
    subst report
    have hstep :=
      Supervisor.handleExit_of_running failure code state (hs.isStopped_of_running state)
    refine ⟨state, code, rfl, ?_, ?_, rfl⟩
    · rw [effects, hs.step_child hadmits, Supervisor.handleChild, hstep]
    · rw [TrackedSupervisor.next, hs.step_child hadmits, Supervisor.handleChild, hstep]

theorem Sound.scheduled_step (hs : h.Sound) (hadmits : h.admits input)
    (failure : Option SupervisorError) :
    scheduled (h.effects failure input) = [] ∨
      scheduled (h.effects failure input) = [(h.next failure input).supervisor.epoch] ∧
        h.supervisor.epoch < (h.next failure input).supervisor.epoch := by
  cases hscheduled : scheduled (h.effects failure input) with
  | nil => exact .inl rfl
  | cons epoch rest =>
    have hmem : epoch ∈ scheduled (h.effects failure input) := by
      rw [hscheduled]
      exact List.mem_cons_self
    obtain ⟨-, code, -, heffects, hnext, hepoch⟩ :=
      hs.crash_of_scheduled hadmits (mem_scheduled.mp hmem)
    rw [← hscheduled, heffects, hnext]
    exact .inr ⟨rfl, by dsimp only; omega⟩

/-- The epochs that are scheduled lie behind that of the supervisor, and each behind the last. -/
theorem Sound.scheduled_pairwise (hs : h.Sound) (orderly : h.Orderly inputs) :
    (scheduled (h.supervisor.run inputs).1).Pairwise (· < ·) ∧
      ∀ epoch ∈ scheduled (h.supervisor.run inputs).1, h.supervisor.epoch < epoch := by
  induction inputs generalizing h with
  | nil => exact ⟨.nil, nofun⟩
  | cons input rest ih =>
    obtain ⟨input, failure⟩ := input
    have hepoch : h.supervisor.epoch ≤ (h.next failure input).supervisor.epoch :=
      (hs.ages orderly.1 failure).epoch
    obtain ⟨hsorted, hbehind⟩ := ih (hs.next orderly.1) orderly.2
    have happend : scheduled (h.supervisor.run ((input, failure) :: rest)).1 =
        scheduled (h.effects failure input) ++
          scheduled ((h.next failure input).supervisor.run rest).1 := List.filterMap_append
    rw [happend]
    rcases hs.scheduled_step orderly.1 failure with hnone | ⟨hone, hlt⟩
    · rw [hnone]
      exact ⟨hsorted, fun epoch hmem => Nat.lt_of_le_of_lt hepoch (hbehind epoch hmem)⟩
    · rw [hone]
      refine ⟨List.pairwise_cons.mpr ⟨hbehind, hsorted⟩, fun epoch hmem => ?_⟩
      rcases List.mem_cons.mp hmem with rfl | hmem
      · exact hlt
      · exact Nat.lt_of_le_of_lt hepoch (hbehind epoch hmem)

/-! ## Between a crash and its respawn -/

theorem Sound.epoch_le_after (hs : h.Sound) (orderly : h.Orderly inputs) :
    h.supervisor.epoch ≤ (h.after inputs).supervisor.epoch := by
  induction inputs generalizing h with
  | nil => exact Nat.le_refl _
  | cons input rest ih =>
    exact Nat.le_trans (hs.ages orderly.1 input.2).epoch (ih (hs.next orderly.1) orderly.2)

/-- Inputs that leave the epoch as it is do so one by one. -/
theorem Sound.epoch_next_of_after (hs : h.Sound)
    (orderly : h.Orderly ((input, failure) :: inputs))
    (hepoch : (h.after ((input, failure) :: inputs)).supervisor.epoch = h.supervisor.epoch) :
    (h.next failure input).supervisor.epoch = h.supervisor.epoch ∧
      ((h.next failure input).after inputs).supervisor.epoch =
        (h.next failure input).supervisor.epoch := by
  have hfirst : h.supervisor.epoch ≤ (h.next failure input).supervisor.epoch :=
    (hs.ages orderly.1 failure).epoch
  have hrest := (hs.next orderly.1).epoch_le_after orderly.2
  have hlast : ((h.next failure input).after inputs).supervisor.epoch = _ := hepoch
  omega

/-- Unless the backend was stopped, an input that overtakes a respawn begins a new epoch. -/
theorem epoch_of_overtakes (hstopped : h.supervisor.isStopped = false)
    (hovertakes : input.overtakes = true) :
    (h.next failure input).supervisor.epoch = h.supervisor.epoch + 1 := by
  cases input with
  | command command =>
    cases command with
    | stop caller => exact Supervisor.epoch_stop _ caller
    | restart caller => exact Supervisor.epoch_cycle _ failure
    | sourceChanged =>
      rcases h.supervisor.sourceChanged_cases failure with ⟨hstop, -⟩ | ⟨-, hturn⟩
      · rw [hstopped] at hstop
        cases hstop
      · rw [next, Supervisor.step, hturn, Supervisor.epoch_cycle]
    | start caller | send frame | respawn epoch => cases hovertakes
  | child generation event => cases hovertakes
  | server event => cases hovertakes

/-- While the epoch stays, nothing comes that overtakes a respawn. -/
theorem Sound.not_overtakes_of_after (hs : h.Sound) (orderly : h.Orderly inputs)
    (hstopped : h.supervisor.isStopped = false)
    (hepoch : (h.after inputs).supervisor.epoch = h.supervisor.epoch) :
    ∀ input ∈ inputs, input.1.overtakes = false := by
  induction inputs generalizing h with
  | nil => exact fun input hmem => absurd hmem List.not_mem_nil
  | cons input rest ih =>
    obtain ⟨input, failure⟩ := input
    obtain ⟨hfirst, hrest⟩ := hs.epoch_next_of_after orderly hepoch
    have hovertakes : input.overtakes = false := by
      rw [← Bool.not_eq_true]
      intro hovertakes
      have hnew : (h.next failure input).supervisor.epoch = _ :=
        epoch_of_overtakes hstopped hovertakes
      omega
    have hnext : (h.next failure input).supervisor.isStopped = false := by
      rw [← Bool.not_eq_true]
      intro hstop
      rcases (hs.ages orderly.1 failure).isStopped hstop with hbefore | ⟨stopper, rfl⟩
      · rw [hstopped] at hbefore
        cases hbefore
      · cases hovertakes
    intro input' hmem
    rcases List.mem_cons.mp hmem with rfl | hmem
    · exact hovertakes
    · exact ih (hs.next orderly.1) orderly.2 hnext hrest input' hmem

/-- While the epoch stays, a child that runs goes on running. -/
theorem Sound.running_after (hs : h.Sound) (orderly : h.Orderly inputs)
    (hrunning : h.supervisor.state = .running)
    (hepoch : (h.after inputs).supervisor.epoch = h.supervisor.epoch) :
    (h.after inputs).supervisor.state = .running := by
  induction inputs generalizing h with
  | nil => exact hrunning
  | cons input rest ih =>
    obtain ⟨input, failure⟩ := input
    obtain ⟨hfirst, hrest⟩ := hs.epoch_next_of_after orderly hepoch
    have hfirst' : (h.supervisor.step failure input).2.epoch = h.supervisor.epoch := hfirst
    refine ih (hs.next orderly.1) orderly.2 ?_ hrest
    cases hs.transition orderly.1 failure with
    | stays state generation other => exact state.trans hrunning
    | rises before state generation => exact state
    | shutsDown before state generation epoch =>
      have := epoch hrunning
      omega
    | ends state generation epoch =>
      have := epoch hrunning
      omega
    | spawns before state generation => exact absurd hrunning before.2

/-- While the epoch stays, no child runs that does not run to the end. -/
theorem Sound.not_running_between {more : SupervisorInputs} (hs : h.Sound)
    (orderly : h.Orderly (inputs ++ more))
    (hepoch : (h.after (inputs ++ more)).supervisor.epoch = h.supervisor.epoch)
    (hstate : (h.after (inputs ++ more)).supervisor.state ≠ .running) :
    (h.after inputs).supervisor.state ≠ .running := by
  intro hrunning
  rw [after_append] at hepoch hstate
  obtain ⟨hfirst, hrest⟩ := orderly_append.mp orderly
  have hsfirst := hs.after hfirst
  have hle := hs.epoch_le_after hfirst
  have hle' := hsfirst.epoch_le_after hrest
  exact hstate (hsfirst.running_after hrest hrunning (by omega))

/-- A backend that is dead stays as it is, unless somebody starts it, the source changes or the
respawn comes that is due. -/
theorem Sound.next_of_dead (hs : h.Sound) (hadmits : h.admits input)
    (hdead : h.supervisor.state = .dead) (hstarts : input.starter? = none)
    (hovertakes : input.overtakes = false)
    (hfired : ∀ epoch, input = .command (.respawn epoch) → epoch ≠ h.supervisor.epoch) :
    (h.next failure input).supervisor = h.supervisor := by
  cases input with
  | command command =>
    cases command with
    | start caller => cases hstarts
    | stop caller => cases hovertakes
    | restart caller => cases hovertakes
    | sourceChanged => cases hovertakes
    | send frame => exact Supervisor.forward_snd _ frame
    | respawn epoch =>
      rcases h.supervisor.respawn_cases failure epoch with hturn | ⟨⟨hepoch, -⟩, -⟩
      · rw [TrackedSupervisor.next, Supervisor.step, hturn]
      · exact absurd hepoch (hfired epoch rfl)
  | server event => exact Supervisor.handleServer_snd _ event
  | child generation event =>
    obtain ⟨-, hprocess, -⟩ := hs.of_admits hadmits
    rw [hdead] at hprocess
    cases hprocess

theorem Sound.after_of_dead (hs : h.Sound) (orderly : h.Orderly inputs)
    (hdead : h.supervisor.state = .dead) (hstarts : starts inputs = [])
    (hovertakes : ∀ input ∈ inputs, input.1.overtakes = false)
    (hfired : h.supervisor.epoch ∉ fired inputs) :
    (h.after inputs).supervisor = h.supervisor := by
  induction inputs generalizing h with
  | nil => rfl
  | cons input rest ih =>
    obtain ⟨input, failure⟩ := input
    rw [(starts_cons input failure rest).1, List.append_eq_nil_iff, Option.toList_eq_nil_iff]
      at hstarts
    have hnext : (h.next failure input).supervisor = h.supervisor := by
      refine hs.next_of_dead orderly.1 hdead hstarts.1 (hovertakes _ List.mem_cons_self) ?_
      rintro epoch rfl rfl
      exact hfired (mem_fired.mpr ⟨failure, List.mem_cons_self⟩)
    have hrest : h.supervisor.epoch ∉ fired rest := by
      intro hmem
      obtain ⟨failure', hlater⟩ := mem_fired.mp hmem
      exact hfired (mem_fired.mpr ⟨failure', List.mem_cons_of_mem _ hlater⟩)
    rw [← hnext] at hdead hrest ⊢
    exact ih (hs.next orderly.1) orderly.2 hdead hstarts.2
      (fun input' hmem => hovertakes input' (List.mem_cons_of_mem _ hmem)) hrest

/-- A respawn that spawns a child finds the backend dead, not stopped and in its epoch. -/
theorem due_of_respawn
    (hspawns : (h.next failure (.command (.respawn epoch))).supervisor.generation ≠
      h.supervisor.generation) :
    epoch = h.supervisor.epoch ∧ h.supervisor.state = .dead := by
  rcases h.supervisor.respawn_cases failure epoch with hturn | ⟨⟨hepoch, hdead, -⟩, -⟩
  · rw [next, Supervisor.step, hturn] at hspawns
    exact absurd rfl hspawns
  · exact ⟨hepoch, hdead⟩

/-- A respawn that comes as often at most as it was scheduled was scheduled with a crash, and has
not come since. -/
theorem exists_crash_of_due (orderly : Orderly {} inputs)
    (due : (fired inputs).count epoch < (scheduled (Supervisor.run {} inputs).1).count epoch) :
    ∃ before code failure since,
      inputs = before ++ (.child (after {} before).supervisor.generation (.exited code), failure) ::
        since ∧
      (after {} before).supervisor.state = .running ∧
      ((after {} before).next failure
          (.child (after {} before).supervisor.generation (.exited code))).supervisor =
        { (after {} before).supervisor with child := none, state := .dead, epoch } ∧
      epoch ∉ fired since := by
  have hsorted := (Sound.initial.scheduled_pairwise orderly).1
  have hone : (scheduled (Supervisor.run {} inputs).1).count epoch ≤ 1 :=
    List.nodup_iff_count_le_one.mp (hsorted.imp Nat.ne_of_lt) epoch
  have hfired : epoch ∉ fired inputs := List.count_eq_zero.mp (by omega)
  have hscheduled : epoch ∈ scheduled (Supervisor.run {} inputs).1 :=
    List.count_pos_iff.mp (by omega)
  obtain ⟨before, exit, failure, since, rfl, hmem⟩ :=
    exists_mem_effects {} (mem_scheduled.mp hscheduled)
  obtain ⟨horderly, hadmits, -⟩ := orderly_append.mp orderly
  have hs : (after {} before).Sound := Sound.initial.after horderly
  obtain ⟨hrunning, code, rfl, -, hnext, -⟩ := hs.crash_of_scheduled hadmits hmem
  refine ⟨before, code, failure, since, rfl, hrunning, hnext, fun hlater => hfired ?_⟩
  obtain ⟨failure', hrespawn⟩ := mem_fired.mp hlater
  exact mem_fired.mpr ⟨failure', List.mem_append_right _ (List.mem_cons_of_mem _ hrespawn)⟩

/-- In every run, a respawn that comes when a delay is over, as often at most as it was scheduled,
spawns a child only if one crashed while it ran and the respawn was scheduled with that. Since then
the backend was neither stopped nor restarted, the source did not change, and no child became ready;
and if nobody started it either, then the child that crashed is the last one. -/
theorem respawn_follows_crash (orderly : Orderly {} inputs)
    (due : (fired inputs).count epoch < (scheduled (Supervisor.run {} inputs).1).count epoch)
    (hspawns : ((after {} inputs).next failure (.command (.respawn epoch))).supervisor.generation ≠
      (after {} inputs).supervisor.generation) :
    ∃ before code failure' since,
      let crashed := (after {} before).supervisor
      inputs = before ++ (.child crashed.generation (.exited code), failure') :: since ∧
        crashed.state = .running ∧
        (∀ input ∈ since, input.1.overtakes = false) ∧
        (∀ soFar later, since = soFar ++ later →
          (after {} (before ++ (.child crashed.generation (.exited code), failure') ::
            soFar)).supervisor.state ≠ .running) ∧
        (starts since = [] → (after {} inputs).supervisor.generation = crashed.generation) := by
  obtain ⟨before, code, failure', since, rfl, hrunning, hnext, hnone⟩ :=
    exists_crash_of_due orderly due
  obtain ⟨horderly, hadmits, hsince⟩ := orderly_append.mp orderly
  have hs : (after {} before).Sound := Sound.initial.after horderly
  let dead := (after {} before).next failure'
    (.child (after {} before).supervisor.generation (.exited code))
  have hsdead : dead.Sound := hs.next hadmits
  have hafter (inputs : SupervisorInputs) :
      after {} (before ++ (.child _ (.exited code), failure') :: inputs) = dead.after inputs :=
    after_append {} before _
  rw [hafter] at hspawns ⊢
  obtain ⟨rfl, hdead⟩ := due_of_respawn hspawns
  -- The respawn acts in the epoch that the crash began, so this epoch lasted.
  have hsame : (dead.after since).supervisor.epoch = dead.supervisor.epoch := by
    rw [show dead.supervisor = _ from hnext]
  have hstopped : dead.supervisor.isStopped = false := by
    rw [show dead.supervisor = _ from hnext]
    exact hs.isStopped_of_running hrunning
  have hovertakes := hsdead.not_overtakes_of_after hsince hstopped hsame
  refine ⟨before, code, failure', since, rfl, hrunning, hovertakes, ?_, fun hstarts => ?_⟩
  · rintro soFar later rfl
    rw [hafter]
    exact hsdead.not_running_between hsince hsame (by rw [hdead]; decide)
  · rw [hsame] at hnone
    rw [hsdead.after_of_dead hsince (congrArg Supervisor.state hnext) hstarts hovertakes hnone,
      show dead.supervisor = _ from hnext]

/-- A child runs and crashes. When the delay is over the next one is spawned. -/
theorem respawn_follows_crash_at_once :
    ∃ (inputs : SupervisorInputs) (epoch : Nat),
      Orderly {} inputs ∧
        (fired inputs).count epoch < (scheduled (Supervisor.run {} inputs).1).count epoch ∧
        ((after {} inputs).next none (.command (.respawn epoch))).supervisor.generation ≠
          (after {} inputs).supervisor.generation ∧
        ∃ before code failure since,
          inputs = before ++ (.child (after {} before).supervisor.generation (.exited code),
            failure) :: since ∧
          (after {} before).supervisor.state = .running := by
  let inputs : SupervisorInputs := [(.command (.start "a"), none), (.child 1 .ready, none),
    (.child 1 (.exited (some 1)), none)]
  have orderly : Orderly {} inputs := by decide
  have hdue : (fired inputs).count 1 < (scheduled (Supervisor.run {} inputs).1).count 1 := by decide
  have hspawns : ((after {} inputs).next none (.command (.respawn 1))).supervisor.generation ≠
    (after {} inputs).supervisor.generation := by decide
  obtain ⟨before, code, failure, since, hsplit, hrunning, -⟩ :=
    respawn_follows_crash orderly hdue hspawns
  exact ⟨inputs, 1, orderly, hdue, hspawns, before, code, failure, since, hsplit, hrunning⟩

/-- A child runs and crashes, and a caller starts another one, whose handshake fails. When the delay
is over a third child is spawned, though the second never ran and its caller was told. -/
theorem exists_respawn_after_failed_start :
    ∃ (inputs : SupervisorInputs) (epoch : Nat),
      Orderly {} inputs ∧
        (fired inputs).count epoch < (scheduled (Supervisor.run {} inputs).1).count epoch ∧
        (after {} inputs).supervisor.generation = 2 ∧
        changes (Supervisor.run {} inputs).1 = [(.notStarted, .starting), (.starting, .running),
          (.running, .dead), (.dead, .starting), (.starting, .shuttingDown),
          (.shuttingDown, .dead)] ∧
        .spawned 3 ∈ (after {} inputs).effects none (.command (.respawn epoch)) := by
  let inputs : SupervisorInputs := [(.command (.start "s"), none), (.child 1 .ready, none),
    (.child 1 (.exited (some 1)), none), (.command (.start "t"), none),
    (.child 2 (.handshakeFailed "expected ready, got nope"), none), (.child 2 (.exited none), none)]
  have orderly : Orderly {} inputs := by decide
  have hdue : (fired inputs).count 1 < (scheduled (Supervisor.run {} inputs).1).count 1 := by decide
  have hlast : (after {} inputs).supervisor.generation = 2 := by decide
  have heffects : (after {} inputs).effects none (.command (.respawn 1)) =
      [.notify (.stateChanged .dead .starting), .spawned 3] := rfl
  refine ⟨inputs, 1, orderly, hdue, hlast, by decide, ?_⟩
  rw [heffects]
  exact .tail _ (.head _)

end TrackedSupervisor

end LiveDoc
