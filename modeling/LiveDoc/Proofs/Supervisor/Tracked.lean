import LiveDoc.Supervisor.Basic
import Mathlib.Logic.Function.Basic

/-!
# LiveDoc — a supervisor and its children

Callers, timers and the server may ask anything of a supervisor at any time. Children may not report
at any time: what one generation reports comes in order, and begins when that generation was
spawned. A `TrackedSupervisor` is a supervisor together with how far each of its children has come,
and inputs are orderly if they keep to the order of every generation. Nothing is said about how the
reports of different generations are mixed, or about which timers fire.

* `Child.takes_run` — children report in that order, whatever happens to them.
* `TrackedSupervisor.Orderly` — inputs that may come, each with how a spawn in its course ends.
* `TrackedSupervisor.invariant` — what every input keeps holds after all of them.
-/

namespace LiveDoc

/-! ## The order of reports -/

/-- How far a child has come with its reports. -/
inductive Reporting where
  -- It was not spawned.
  | absent
  -- It was spawned, and has reported nothing.
  | silent
  -- It has reported something.
  | talking
  -- Its exit was reported.
  | gone
  deriving DecidableEq, Repr, Inhabited

namespace Reporting

/-- Whether an event may come next. That a child is ready, or that its handshake failed, comes first
if it comes at all; nothing comes behind the exit. -/
def admits : Reporting → ChildEvent → Bool
  | .silent, _ => true
  | .talking, .message _ | .talking, .malformed _ _ | .talking, .exited _ => true
  | _, _ => false

/-- How far a child has come that has just reported an event. -/
def behind : ChildEvent → Reporting
  | .exited _ => .gone
  | _ => .talking

/-- Whether the process of the child exists. -/
def isPresent : Reporting → Bool
  | .silent | .talking => true
  | .absent | .gone => false

/-- Whether events may come in turn. -/
def takes : Reporting → List ChildEvent → Bool
  | _, [] => true
  | r, event :: rest => r.admits event && (behind event).takes rest

/-- How far a child has come behind events in turn. -/
def last (r : Reporting) (events : List ChildEvent) : Reporting :=
  events.foldl (fun _ event => behind event) r

theorem takes_append (r : Reporting) (events more : List ChildEvent) :
    r.takes (events ++ more) = (r.takes events && (r.last events).takes more) := by
  induction events generalizing r with
  | nil => rfl
  | cons event rest ih => simp [takes, last, ih, Bool.and_assoc]

end Reporting

namespace Child

/-- How far a child has come, by the supervisor's end of its channel. -/
def reporting (c : Child) : Reporting :=
  if c.isGone then .gone else if c.phase = .awaited then .silent else .talking

/-- What a child reports comes in order, and brings it where it is then. -/
structure Reports (c : Child) (t : List ChildEvent × Child) : Prop where
  takes : c.reporting.takes t.1
  last : c.reporting.last t.1 = t.2.reporting

variable {c : Child}

theorem Reports.nothing (c : Child) : c.Reports ([], c) := ⟨rfl, rfl⟩

/-- A channel that ends reports nothing but the exit, which may come behind the handshake, or
instead of it. -/
theorem reports_finish (h : c.isGone = false) (hphase : c.phase ≠ .awaited ∨ c.exit.isSome) :
    c.Reports c.finish := by
  cases hexit : c.exit with
  | some code =>
    by_cases hawaited : c.phase = .awaited <;>
      constructor <;>
      simp [finish, hexit, reporting, h, hawaited, Reporting.takes, Reporting.admits,
        Reporting.last, Reporting.behind]
  | none =>
    have hawaited : c.phase ≠ .awaited := by simpa [hexit] using hphase
    constructor <;> simp [finish, hexit, reporting, h, hawaited, Reporting.takes, Reporting.last]

/-- A failed handshake is reported where the child was not ready. -/
theorem reports_fail (h : c.isGone = false) (hphase : c.phase = .awaited) (reason : String) :
    c.Reports (c.fail reason) := by
  cases hexit : c.exit <;>
    constructor <;>
    simp [fail, finish, hexit, reporting, h, hphase, Reporting.takes, Reporting.admits,
      Reporting.last, Reporting.behind]

theorem reports_hangUp (h : c.isGone = false) (reason : String) : c.Reports (c.hangUp reason) := by
  unfold hangUp
  split
  · next hphase => exact reports_fail h hphase reason
  · next hphase => exact reports_finish h (.inl (by rw [hphase]; decide))
  · exact .nothing c

theorem reports_line (h : c.isGone = false) (text : String) : c.Reports (c.line text) := by
  unfold line
  split
  · next hphase =>
    split
    · constructor <;>
        simp [reporting, h, hphase, Reporting.takes, Reporting.admits, Reporting.last,
          Reporting.behind]
    · exact reports_fail h hphase _
  · next hphase =>
    -- A line says nothing, or it is a message or malformed.
    unfold report
    split
    · exact .nothing c
    · split <;>
        constructor <;>
        simp [reporting, h, hphase, Reporting.takes, Reporting.admits, Reporting.last,
          Reporting.behind]
  · exact .nothing c

/-- An exit is reported where it may come, and once. -/
theorem reports_terminate (h : c.isGone = false) (code : Option Nat) :
    c.Reports (c.terminate code) := by
  unfold terminate
  split
  · exact .nothing c
  · dsimp only
    split
    · have hfinish := reports_finish (c := { c with exit := some code }) h (.inr rfl)
      exact ⟨hfinish.takes, hfinish.last⟩
    · exact ⟨rfl, rfl⟩

/-- Whatever comes from a child is reported in an order that the supervisor expects. -/
theorem reports_step (c : Child) (input : ChildInput) : c.Reports (c.step input) := by
  unfold step
  split
  · exact .nothing c
  · next hgone =>
    rw [Bool.not_eq_true] at hgone
    cases input with
    | line text => exact reports_line hgone text
    | hangUp => exact reports_hangUp hgone _
    | broken reason => exact reports_hangUp hgone reason
    | deadline =>
      dsimp only
      split
      · next hphase => exact reports_fail hgone hphase _
      · exact .nothing c
    | exit code => exact reports_terminate hgone code
    | drained =>
      dsimp only
      split
      · next hexit => exact reports_finish hgone (.inr hexit)
      · exact .nothing c

/-- Whatever happens to a child, it reports in order. -/
theorem takes_run (c : Child) (inputs : List ChildInput) : c.reporting.takes (c.run inputs).1 := by
  induction inputs generalizing c with
  | nil => rfl
  | cons input rest ih =>
    have hstep := c.reports_step input
    show c.reporting.takes ((c.step input).1 ++ ((c.step input).2.run rest).1)
    rw [Reporting.takes_append, hstep.takes, hstep.last, Bool.true_and]
    exact ih _

end Child

/-! ## Supervisors and reports -/

/-- Inputs of a supervisor in turn, each with the error that a spawn in its course fails with. -/
abbrev SupervisorInputs := List (SupervisorInput × Option SupervisorError)

/-- A supervisor, and how far its children have come. -/
structure TrackedSupervisor where
  supervisor : Supervisor := {}
  reporting : Nat → Reporting := fun _ => .absent

namespace TrackedSupervisor

/-- Whether an input may come: an event of a child in its order, anything else at any time. -/
def admits (h : TrackedSupervisor) : SupervisorInput → Bool
  | .child generation event => (h.reporting generation).admits event
  | _ => true

/-- How far the children have come once an input has come. -/
def hear (h : TrackedSupervisor) : SupervisorInput → Nat → Reporting
  | .child generation event => Function.update h.reporting generation (.behind event)
  | _ => h.reporting

/-- How far the children have come behind an effect. -/
def notice (reporting : Nat → Reporting) : SupervisorEffect → Nat → Reporting
  | .spawned generation => Function.update reporting generation .silent
  | _ => reporting

/-- No child process exists. -/
def Vacant (reporting : Nat → Reporting) : Prop :=
  ∀ generation, (reporting generation).isPresent = false

/-- What the supervisor does about an input. -/
def effects (h : TrackedSupervisor) (failure : Option SupervisorError) (input : SupervisorInput) :
    List SupervisorEffect :=
  (h.supervisor.step failure input).1

def next (h : TrackedSupervisor) (failure : Option SupervisorError) (input : SupervisorInput) :
    TrackedSupervisor where
  supervisor := (h.supervisor.step failure input).2
  reporting := (h.effects failure input).foldl notice (h.hear input)

/-- The supervisor behind inputs. -/
def after (h : TrackedSupervisor) (inputs : SupervisorInputs) : TrackedSupervisor :=
  inputs.foldl (fun h input => h.next input.2 input.1) h

/-- Inputs that may come, one after the other. -/
def Orderly : TrackedSupervisor → SupervisorInputs → Prop
  | _, [] => True
  | h, (input, failure) :: rest => h.admits input ∧ (h.next failure input).Orderly rest

instance decidableOrderly : (h : TrackedSupervisor) → (inputs : SupervisorInputs) →
    Decidable (h.Orderly inputs)
  | _, [] => isTrue trivial
  | h, (input, failure) :: rest =>
    have := decidableOrderly (h.next failure input) rest
    inferInstanceAs (Decidable (_ ∧ _))

variable {h : TrackedSupervisor} {inputs more : SupervisorInputs}

theorem after_append (h : TrackedSupervisor) (inputs more : SupervisorInputs) :
    h.after (inputs ++ more) = (h.after inputs).after more :=
  List.foldl_append

theorem orderly_append :
    h.Orderly (inputs ++ more) ↔ h.Orderly inputs ∧ (h.after inputs).Orderly more := by
  induction inputs generalizing h with
  | nil => simp [Orderly, after]
  | cons input rest ih => simp only [List.cons_append, Orderly, ih, and_assoc]; rfl

/-- What every input keeps that may come holds behind all of them. -/
theorem invariant {P : TrackedSupervisor → Prop}
    (step : ∀ h failure input, P h → h.admits input → P (h.next failure input))
    (init : P h) (orderly : h.Orderly inputs) : P (h.after inputs) := by
  induction inputs generalizing h with
  | nil => exact init
  | cons input rest ih => exact ih (step h input.2 input.1 init orderly.1) orderly.2

/-- A tracked supervisor is run like any other. -/
theorem supervisor_after (h : TrackedSupervisor) (inputs : SupervisorInputs) :
    (h.after inputs).supervisor = (h.supervisor.run inputs).2 := by
  induction inputs generalizing h with
  | nil => rfl
  | cons input rest ih => exact ih _

end TrackedSupervisor

end LiveDoc
