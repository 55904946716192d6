import LiveDoc.Proofs.Supervisor.Sound

/-!
# LiveDoc — a supervisor and its channels

What a child does reaches the supervisor through the child's channel, in two steps: the supervisor's
end of the channel notices it and reports, and later the supervisor handles the report. A
`SupervisorChannels` is a tracked supervisor together with these channels and with what was reported
and not handled yet. Between the two steps anything may come, so the supervisor may take a child for
ready whose channel has ended.

A line for a child is queued where its channel has not ended. Nobody else is told whether it was.

* `SupervisorChannels.Step`, `SupervisorChannels.Reachable` — what may happen.
* `Reporting.LeadsTo` — reports that are under way continue those that were handled.
* `SupervisorChannels.Sound`, `SupervisorChannels.Reachable.sound` — the invariant, and that it
  holds.
* `SupervisorChannels.Sound.running` — the channel of a child that runs was established.
-/

namespace LiveDoc

/-! ## Generations -/

namespace TrackedSupervisor

variable {h : TrackedSupervisor} {input : SupervisorInput} {failure : Option SupervisorError}

theorem foldl_notice_of_mem {effects : List SupervisorEffect} {generation : Nat}
    (hmem : .spawned generation ∈ effects) (reporting : Nat → Reporting) :
    effects.foldl notice reporting generation = .silent := by
  induction effects generalizing reporting with
  | nil => cases hmem
  | cons effect rest ih =>
    rw [List.foldl_cons]
    by_cases hagain : .spawned generation ∈ rest
    · exact ih hagain _
    · rw [foldl_notice_of_notMem hagain]
      rcases List.mem_cons.mp hmem with rfl | hmem
      · exact Function.update_self ..
      · exact absurd hmem hagain

/-- Generations never go back. -/
theorem Sound.generation_le (hs : h.Sound) (hadmits : h.admits input)
    (failure : Option SupervisorError) :
    h.supervisor.generation ≤ (h.next failure input).supervisor.generation := by
  show _ ≤ (h.supervisor.step failure input).2.generation
  cases hs.transition hadmits failure <;> omega

/-- An input is heard, and beyond that at most the next generation is spawned. -/
theorem Sound.reporting_next (hs : h.Sound) (hadmits : h.admits input) (generation : Nat) :
    (h.next failure input).reporting generation = h.hear input generation ∨
      (h.next failure input).reporting generation = .silent ∧
        h.supervisor.generation < generation ∧
        (h.next failure input).supervisor.generation = generation := by
  by_cases hmem : .spawned generation ∈ h.effects failure input
  · refine .inr ⟨foldl_notice_of_mem hmem _, ?_⟩
    cases hs.cause hadmits hmem with
    | aside haside => cases haside
    | spawned spawns hgeneration => exact ⟨Nat.lt_succ_self _, hgeneration⟩
  · exact .inl (foldl_notice_of_notMem hmem _)

end TrackedSupervisor

/-! ## Reports that are under way -/

/-- Where events lead from one that was handled: they come in order, and bring a child to where it
is. -/
structure Reporting.LeadsTo (r : Reporting) (events : List ChildEvent) (c : Child) : Prop where
  fresh : r = .absent → events = [] ∧ c.reporting = .silent
  takes : r ≠ .absent → r.takes events = true
  last : r ≠ .absent → r.last events = c.reporting

namespace Reporting.LeadsTo

variable {r : Reporting} {event : ChildEvent} {events : List ChildEvent} {c : Child}

theorem behind_ne_absent (event : ChildEvent) : behind event ≠ .absent := by
  cases event <;> nofun

/-- A child is spawned. -/
theorem spawned (h : r.LeadsTo events c) (habsent : r = .absent) : silent.LeadsTo events c := by
  obtain ⟨rfl, hsilent⟩ := h.fresh habsent
  exact ⟨nofun, fun _ => rfl, fun _ => hsilent.symm⟩

/-- Something happens to a child that was spawned. -/
theorem append (h : r.LeadsTo events c) (hspawned : r ≠ .absent) (input : ChildInput) :
    r.LeadsTo (events ++ (c.step input).1) (c.step input).2 := by
  have hstep := c.reports_step input
  refine ⟨fun habsent => absurd habsent hspawned, fun _ => ?_, fun _ => ?_⟩
  · rw [takes_append, h.takes hspawned, h.last hspawned, hstep.takes]
    rfl
  · rw [Reporting.last, List.foldl_append]
    show (r.last events).last (c.step input).1 = _
    rw [h.last hspawned, hstep.last]

/-- The first report that is under way may be handled. -/
theorem admits (h : r.LeadsTo (event :: events) c) : r.admits event = true := by
  have hspawned : r ≠ .absent := fun habsent => by cases (h.fresh habsent).1
  have htakes := h.takes hspawned
  rw [Reporting.takes, Bool.and_eq_true] at htakes
  exact htakes.1

theorem tail (h : r.LeadsTo (event :: events) c) : (behind event).LeadsTo events c := by
  have hspawned : r ≠ .absent := fun habsent => by cases (h.fresh habsent).1
  have htakes := h.takes hspawned
  rw [Reporting.takes, Bool.and_eq_true] at htakes
  exact ⟨fun habsent => absurd habsent (behind_ne_absent event), fun _ => htakes.2,
    fun _ => h.last hspawned⟩

end Reporting.LeadsTo

/-- Behind a report a child is not silent again. -/
theorem Reporting.last_ne_silent {r : Reporting} (h : r ≠ .silent) (events : List ChildEvent) :
    r.last events ≠ .silent := by
  induction events generalizing r with
  | nil => exact h
  | cons event rest ih => exact ih (by cases event <;> nofun)

/-- The channel of a child that is gone has ended. -/
def Child.IsSound (c : Child) : Prop := c.isGone = true → c.phase = .finished

namespace Child

variable {c : Child}

theorem isSound_finish (c : Child) : c.finish.2.IsSound := by
  unfold finish
  split <;> exact fun _ => rfl

theorem IsSound.step (h : c.IsSound) (input : ChildInput) : (c.step input).2.IsSound := by
  unfold Child.step
  split
  · exact h
  · next hgone =>
    -- A child that is not gone is gone then only if its channel was finished.
    have hstays {phase : ChannelPhase} {exit : Option (Option Nat)} :
        ({ c with phase, exit } : Child).IsSound := fun h => absurd h hgone
    have hhangUp (reason : String) : (c.hangUp reason).2.IsSound := by
      unfold hangUp
      split
      · exact isSound_finish c
      · exact isSound_finish c
      · exact h
    cases input with
    | line text =>
      show (c.line text).2.IsSound
      unfold line
      split
      · split
        · exact hstays
        · exact isSound_finish c
      · exact h
      · exact h
    | hangUp => exact hhangUp _
    | broken reason => exact hhangUp reason
    | deadline =>
      dsimp only
      split
      · exact isSound_finish c
      · exact h
    | exit code =>
      show (c.terminate code).2.IsSound
      unfold terminate
      split
      · exact h
      · dsimp only
        split
        · exact isSound_finish _
        · exact hstays
    | drained =>
      dsimp only
      split
      · exact isSound_finish c
      · exact h

end Child

/-! ## Supervisor channels -/

/-- A supervisor, the channels of its children, and what is under way. -/
structure SupervisorChannels where
  tracked : TrackedSupervisor := {}
  -- The supervisor's ends of the channels, by generation.
  channel : Nat → Child := fun _ => {}
  -- What was reported and not handled yet, in order.
  reports : Nat → List ChildEvent := fun _ => []
  -- The lines that were queued for the children, in order.
  lines : Nat → List ChannelFrame := fun _ => []

namespace SupervisorChannels

/-- A line is queued for a child, unless the channel has ended. -/
def enqueue (s : SupervisorChannels) : SupervisorEffect → SupervisorChannels
  | .write generation frame =>
    if (s.channel generation).takesLines then
      { s with
        lines := Function.update s.lines generation (s.lines generation ++ [frame]) }
    else s
  | _ => s

/-- The supervisor handles an input. -/
def handle (s : SupervisorChannels) (failure : Option SupervisorError) (input : SupervisorInput) :
    SupervisorChannels :=
  (s.tracked.effects failure input).foldl enqueue
    { s with tracked := s.tracked.next failure input }

/-- Something happens to a child. -/
def meet (s : SupervisorChannels) (generation : Nat) (input : ChildInput) : SupervisorChannels :=
  { s with
    channel := Function.update s.channel generation ((s.channel generation).step input).2
    reports := Function.update s.reports generation
      (s.reports generation ++ ((s.channel generation).step input).1) }

/-- What may happen. -/
inductive Step (s : SupervisorChannels) : SupervisorChannels → Prop where
  | meets (generation : Nat) (hspawned : s.tracked.reporting generation ≠ .absent)
    (input : ChildInput) : Step s (s.meet generation input)
  | reports (generation : Nat) {event : ChildEvent} {rest : List ChildEvent}
    (hnext : s.reports generation = event :: rest) (failure : Option SupervisorError) :
    Step s ({ s with reports := Function.update s.reports generation rest }.handle failure
      (.child generation event))
  | command (failure : Option SupervisorError) (command : SupervisorCommand) :
    Step s (s.handle failure (.command command))
  | server (event : ServerEvent) : Step s (s.handle none (.server event))

/-- What may come of a supervisor without children, each of which would have some time to become
ready. -/
inductive Reachable : SupervisorChannels → Prop where
  | initial (readyTimeoutMs : Nat) : Reachable { channel := fun _ => { readyTimeoutMs } }
  | step {s s' : SupervisorChannels} (h : Reachable s) (hstep : s.Step s') : Reachable s'

/-- The invariant of a supervisor with its channels. -/
structure Sound (s : SupervisorChannels) : Prop where
  tracked : s.tracked.Sound
  -- Later generations have not been spawned.
  unborn : ∀ generation, s.tracked.supervisor.generation < generation →
    s.tracked.reporting generation = .absent
  leads : ∀ generation, (s.tracked.reporting generation).LeadsTo (s.reports generation)
    (s.channel generation)
  ends : ∀ generation, (s.channel generation).IsSound

variable {s s' : SupervisorChannels}

/-! ## What is handled -/

variable {generation : Nat} {frame : ChannelFrame}

theorem lines_enqueue_write (h : (s.channel generation).phase = .established) :
    (s.enqueue (.write generation frame)).lines =
      Function.update s.lines generation (s.lines generation ++ [frame]) := by
  simp [enqueue, Child.takesLines, h]

/-- A line for a child that has closed its channel is lost. -/
theorem enqueue_write_of_finished (h : (s.channel generation).phase = .finished) :
    s.enqueue (.write generation frame) = s := by
  simp [enqueue, Child.takesLines, h]

/-- What the supervisor does is to queue lines, and no more. -/
theorem foldl_enqueue (s : SupervisorChannels) (effects : List SupervisorEffect) :
    (effects.foldl enqueue s).tracked = s.tracked ∧
      (effects.foldl enqueue s).channel = s.channel ∧
      (effects.foldl enqueue s).reports = s.reports := by
  induction effects generalizing s with
  | nil => exact ⟨rfl, rfl, rfl⟩
  | cons effect rest ih =>
    obtain ⟨htracked, hchannel, hreports⟩ := ih (s.enqueue effect)
    have heffect : (s.enqueue effect).tracked = s.tracked ∧
        (s.enqueue effect).channel = s.channel ∧ (s.enqueue effect).reports = s.reports := by
      cases effect with
      | write generation frame =>
        rw [enqueue]
        split <;> exact ⟨rfl, rfl, rfl⟩
      | _ => exact ⟨rfl, rfl, rfl⟩
    rw [List.foldl_cons, htracked, hchannel, hreports]
    exact heffect

section Fields

variable (s : SupervisorChannels) (failure : Option SupervisorError) (input : SupervisorInput)
  (generation : Nat)
  (happening : ChildInput)

theorem tracked_handle :
    (s.handle failure input).tracked = s.tracked.next failure input :=
  (foldl_enqueue _ _).1

theorem channel_handle : (s.handle failure input).channel = s.channel := (foldl_enqueue _ _).2.1

theorem reports_handle : (s.handle failure input).reports = s.reports := (foldl_enqueue _ _).2.2

theorem channel_meet_self : (s.meet generation happening).channel generation =
    ((s.channel generation).step happening).2 :=
  Function.update_self _ _ _

theorem reports_meet_self : (s.meet generation happening).reports generation =
    s.reports generation ++ ((s.channel generation).step happening).1 :=
  Function.update_self _ _ _

end Fields

/-- What the supervisor handles may come next, and what is under way continues it. -/
theorem Sound.handle_of_leads (tracked : s.tracked.Sound) (input : SupervisorInput)
    (hadmits : s.tracked.admits input) (failure : Option SupervisorError)
    (unborn : ∀ generation, s.tracked.supervisor.generation < generation →
      s.tracked.hear input generation = .absent)
    (leads : ∀ generation, (s.tracked.hear input generation).LeadsTo (s.reports generation)
      (s.channel generation))
    (ends : ∀ generation, (s.channel generation).IsSound) : (s.handle failure input).Sound := by
  have hle := tracked.generation_le hadmits failure
  constructor
  · rw [tracked_handle]
    exact tracked.next hadmits
  · intro generation hlater
    rw [tracked_handle] at hlater ⊢
    rcases tracked.reporting_next hadmits generation with heq | ⟨-, -, hgeneration⟩
    · rw [heq]
      exact unborn generation (Nat.lt_of_le_of_lt hle hlater)
    · exact absurd hgeneration (Nat.ne_of_lt hlater)
  · intro generation
    rw [tracked_handle, channel_handle, reports_handle]
    rcases tracked.reporting_next hadmits generation with heq | ⟨heq, hnext, -⟩
    · rw [heq]
      exact leads generation
    · rw [heq]
      exact (leads generation).spawned (unborn generation hnext)
  · rw [channel_handle]
    exact ends

theorem Sound.step (hs : s.Sound) (hstep : s.Step s') : s'.Sound := by
  cases hstep with
  | meets generation hspawned input =>
    refine ⟨hs.tracked, hs.unborn, fun other => ?_, fun other => ?_⟩
    · by_cases hother : other = generation
      · subst hother
        rw [channel_meet_self, reports_meet_self]
        exact (hs.leads other).append hspawned input
      · simpa only [meet, Function.update_of_ne hother] using hs.leads other
    · by_cases hother : other = generation
      · subst hother
        rw [channel_meet_self]
        exact (hs.ends other).step input
      · simpa only [meet, Function.update_of_ne hother] using hs.ends other
  | @reports generation event rest hnext failure =>
    have hleads := hs.leads generation
    rw [hnext] at hleads
    have hspawned : s.tracked.reporting generation ≠ .absent := fun habsent => by
      cases (hleads.fresh habsent).1
    refine Sound.handle_of_leads (s := { s with
      reports := Function.update s.reports generation rest }) hs.tracked (.child generation event)
      hleads.admits failure
      (fun other hlater => ?_) (fun other => ?_) hs.ends
    · have hother : other ≠ generation := fun heq => hspawned (heq ▸ hs.unborn other hlater)
      simpa only [TrackedSupervisor.hear, Function.update_of_ne hother] using hs.unborn other hlater
    · by_cases hother : other = generation
      · subst hother
        simpa only [TrackedSupervisor.hear, Function.update_self] using hleads.tail
      · simpa only [TrackedSupervisor.hear, Function.update_of_ne hother] using hs.leads other
  | command failure command =>
    exact Sound.handle_of_leads hs.tracked (.command command) rfl failure hs.unborn hs.leads
      hs.ends
  | server event =>
    exact Sound.handle_of_leads hs.tracked (.server event) rfl none hs.unborn hs.leads hs.ends

theorem Reachable.sound (h : s.Reachable) : s.Sound := by
  induction h with
  | initial readyTimeoutMs =>
    exact ⟨.initial, fun _ _ => rfl, fun _ => ⟨fun _ => ⟨rfl, rfl⟩, fun h => absurd rfl h,
      fun h => absurd rfl h⟩, fun _ => nofun⟩
  | step _ hstep ih => exact ih.step hstep

/-- The channel of a child that is taken for running was established, and may have ended since. -/
theorem Sound.running (hs : s.Sound) (hrunning : s.tracked.supervisor.state = .running) :
    ∃ generation, s.tracked.supervisor.child = some generation ∧
      s.tracked.reporting generation = .talking ∧ (s.channel generation).phase ≠ .awaited := by
  have htalking := hs.tracked.talking hrunning
  refine ⟨_, (hs.tracked.consistent.up (.inr hrunning)).1, htalking, fun hawaited => ?_⟩
  have hleads := hs.leads s.tracked.supervisor.generation
  rw [htalking] at hleads
  have hgone : (s.channel s.tracked.supervisor.generation).isGone = false := by
    refine Bool.eq_false_iff.mpr fun hgone => ?_
    have hfinished := hs.ends _ hgone
    rw [hawaited] at hfinished
    cases hfinished
  have hsilent : (s.channel s.tracked.supervisor.generation).reporting = .silent := by
    simp [Child.reporting, hgone, hawaited]
  have hspawned : Reporting.talking ≠ .absent := by decide
  have htold : Reporting.talking ≠ .silent := by decide
  exact Reporting.last_ne_silent htold _ ((hleads.last hspawned).trans hsilent)

end SupervisorChannels

end LiveDoc
