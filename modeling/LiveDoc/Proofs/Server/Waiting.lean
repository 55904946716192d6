import LiveDoc.Proofs.Server.Stages
import Mathlib.Data.List.Nodup
import Mathlib.Logic.Function.Basic

/-!
# LiveDoc — who waits at the gate

The gate keeps one table for all upgrades, but in any interleaving every upgrade goes its way as if
it were alone: the gate holds those that nothing has taken, knows the decisions that are on their
way, and has written down one end for each of the others.

* `Gate.Agrees` — the gate agrees with the stages of the upgrades, for any stages.
* `Gate.Books`, `Gate.books_run` — the gate agrees with the inputs, for any interleaving.
* `Gate.step_of_not_held`, `Gate.step_of_ended` — what comes too late changes nothing.
-/

namespace LiveDoc

open Function

namespace Gate

variable {g : Gate} {input : GateInput} {inputs before rest : List GateInput}
  {client other : String} {how decision : UpgradeEnd} {h h' : Handover} {f : String → Stage}

/-- The gate knows how far each upgrade has come. -/
structure Agrees (f : String → Stage) (g : Gate) : Prop where
  held : ∀ client, client ∈ g.held ↔ f client = .held
  heldOnce : g.held.Nodup
  handovers : ∀ client h, g.handover? client = some h ↔ f client = .decided h
  -- A decision is no deadline.
  decisions : ∀ client h, f client = .decided h → h.decision ≠ .timedOut
  ended : ∀ client how, (client, how) ∈ g.ended ↔ f client = .ended how
  endedOnce : (g.ended.map Prod.fst).Nodup
  timeouts : g.timeouts = g.ended.countP (·.2 = .timedOut)

/-! ## What the gate does to one upgrade -/

theorem isHeld_iff : g.isHeld client = true ↔ client ∈ g.held := List.contains_iff_mem

theorem handover?_change_self (g : Gate) (client : String) (h : Handover) :
    (g.change client h).handover? client = some h :=
  KeyMap.get?_set_self _ _ _

theorem handover?_change_of_ne (g : Gate) (h : Handover) (hne : client ≠ other) :
    (g.change client h).handover? other = g.handover? other :=
  KeyMap.get?_set_of_ne _ _ hne

theorem handover?_finish_self (g : Gate) (client : String) (how : UpgradeEnd) :
    (g.finish client how).handover? client = none :=
  KeyMap.get?_erase_self _ _

theorem handover?_finish_of_ne (g : Gate) (how : UpgradeEnd) (hne : client ≠ other) :
    (g.finish client how).handover? other = g.handover? other :=
  KeyMap.get?_erase_of_ne _ hne

/-- Who takes an upgrade that is held has its decision on its way, in one step under the lock of the
table. -/
theorem take_eq (hheld : client ∈ g.held) (decision : UpgradeEnd) :
    g.take client decision =
      { g.change client { decision } with held := g.held.filter (· ≠ client) } :=
  if_pos (isHeld_iff.mpr hheld)

/-- Who comes too late for an upgrade takes nothing. -/
theorem take_of_not_held (hheld : client ∉ g.held) (decision : UpgradeEnd) :
    g.take client decision = g :=
  if_neg (mt isHeld_iff.mp hheld)

/-- A decision that was just made is neither sent nor late. -/
theorem handover?_take (hheld : client ∈ g.held) (decision : UpgradeEnd) :
    (g.take client decision).handover? client = some { decision } := by
  rw [take_eq hheld]
  exact handover?_change_self g client _

/-- An upgrade is taken at most once. -/
theorem not_mem_held_take (g : Gate) (client : String) (decision : UpgradeEnd) :
    client ∉ (g.take client decision).held := by
  by_cases hheld : client ∈ g.held
  · simp [take_eq hheld]
  · rwa [take_of_not_held hheld]

namespace Agrees

/-- Where no decision is on its way the gate knows of none. -/
theorem handover?_eq_none (agrees : Agrees f g) (hstage : ∀ h, f client ≠ .decided h) :
    g.handover? client = none := by
  cases hget : g.handover? client with
  | none => rfl
  | some h => exact absurd ((agrees.handovers client h).mp hget) (hstage h)

/-- The gate agrees behind a change of one upgrade if it agrees on this one and keeps the others, and
if the ends fit. -/
theorem single {g' : Gate} {stage : Stage} (agrees : Agrees f g)
    (hheld : client ∈ g'.held ↔ stage = .held)
    (hhandover : ∀ h, g'.handover? client = some h ↔ stage = .decided h)
    (hdecision : ∀ h, stage = .decided h → h.decision ≠ .timedOut)
    (hothers : ∀ other, other ≠ client →
      (other ∈ g'.held ↔ other ∈ g.held) ∧ g'.handover? other = g.handover? other)
    (honce : g'.held.Nodup)
    (hended : ∀ other how, (other, how) ∈ g'.ended ↔ update f client stage other = .ended how)
    (hendedOnce : (g'.ended.map Prod.fst).Nodup)
    (htimeouts : g'.timeouts = g'.ended.countP (·.2 = .timedOut)) :
    Agrees (update f client stage) g' := by
  refine ⟨fun other => ?_, honce, fun other h => ?_, fun other h => ?_, hended, hendedOnce,
    htimeouts⟩
  · by_cases hother : other = client
    · rw [hother, update_self, hheld]
    · rw [update_of_ne hother, (hothers other hother).1, agrees.held]
  · by_cases hother : other = client
    · rw [hother, update_self, hhandover]
    · rw [update_of_ne hother, (hothers other hother).2, agrees.handovers]
  · by_cases hother : other = client
    · rw [hother, update_self]
      exact hdecision h
    · rw [update_of_ne hother]
      exact agrees.decisions other h

/-! ### Upgrades that go on -/

/-- Nothing is written down of an upgrade that goes on. -/
theorem mem_ended_update {stage : Stage} (agrees : Agrees f g)
    (hstage : ∀ how, f client ≠ .ended how) (hnext : ∀ how, stage ≠ .ended how) (other : String)
    (how : UpgradeEnd) : (other, how) ∈ g.ended ↔ update f client stage other = .ended how := by
  rw [agrees.ended]
  by_cases hother : other = client
  · simp [hother, hstage, hnext]
  · rw [update_of_ne hother]

/-- An upgrade that arrives is held, and no other is touched. -/
theorem hold (agrees : Agrees f g) (hstage : f client = .absent) :
    Agrees (update f client .held) (g.hold client) := by
  have hnew : client ∉ g.held := by simp [agrees.held, hstage]
  have hnone : g.handover? client = none := agrees.handover?_eq_none (by simp [hstage])
  refine agrees.single (by simp [Gate.hold]) (fun h => ?_) (by simp) (fun other hother => ?_)
    (agrees.heldOnce.append (List.nodup_singleton client) (by simpa using hnew))
    (agrees.mem_ended_update (by simp [hstage]) (by simp)) agrees.endedOnce agrees.timeouts
  · show g.handover? client = some h ↔ _
    simp [hnone]
  · exact ⟨by simp [Gate.hold, hother], rfl⟩

/-- Of an upgrade that is taken only its own stage changes. -/
theorem take (agrees : Agrees f g) (hstage : f client = .held) (hdecision : decision ≠ .timedOut) :
    Agrees (update f client (.decided { decision })) (g.take client decision) := by
  rw [take_eq ((agrees.held client).mpr hstage)]
  refine agrees.single (by simp) (fun h => ?_) (fun h heq => ?_) (fun other hother => ?_)
    (agrees.heldOnce.filter _) (agrees.mem_ended_update (by simp [hstage]) (by simp))
    agrees.endedOnce agrees.timeouts
  · show (g.change client { decision }).handover? client = some h ↔ _
    rw [handover?_change_self, Option.some.injEq, Stage.decided.injEq]
  · cases heq
    exact hdecision
  · exact ⟨by simp [hother], handover?_change_of_ne g _ (Ne.symm hother)⟩

/-- A decision that is sent or late is still the same decision for the same upgrade. -/
theorem change (agrees : Agrees f g) (hstage : f client = .decided h)
    (hdecision : h'.decision = h.decision) :
    Agrees (update f client (.decided h')) (g.change client h') := by
  have hheld : client ∉ g.held := by simp [agrees.held, hstage]
  refine agrees.single (by simpa [Gate.change] using hheld) (fun h₀ => ?_) (fun h₀ heq => ?_)
    (fun other hother => ⟨Iff.rfl, handover?_change_of_ne g _ (Ne.symm hother)⟩) agrees.heldOnce
    (agrees.mem_ended_update (by simp [hstage]) (by simp)) agrees.endedOnce agrees.timeouts
  · rw [handover?_change_self, Option.some.injEq, Stage.decided.injEq]
  · cases heq
    exact hdecision ▸ agrees.decisions client h hstage

/-! ### Upgrades that end -/

/-- An upgrade that has not ended has no end written down yet. -/
theorem nodup_ended_concat (agrees : Agrees f g) (how : UpgradeEnd)
    (hstage : ∀ how, f client ≠ .ended how) :
    ((g.ended ++ [(client, how)]).map Prod.fst).Nodup := by
  rw [List.map_append]
  refine agrees.endedOnce.append (List.nodup_singleton client) ?_
  simpa [agrees.ended] using hstage

/-- The ends that are written down are those before and the new one. -/
theorem mem_ended_concat (agrees : Agrees f g) (hstage : ∀ how, f client ≠ .ended how)
    (how : UpgradeEnd) (other : String) (how' : UpgradeEnd) :
    (other, how') ∈ g.ended ++ [(client, how)] ↔
      update f client (.ended how) other = .ended how' := by
  rw [List.mem_append, List.mem_singleton, agrees.ended, Prod.mk.injEq]
  by_cases hother : other = client
  · rw [hother, update_self, Stage.ended.injEq]
    simp [hstage, eq_comm]
  · simp [hother]

/-- An upgrade whose decision was on its way ends, and only its own stage changes. -/
theorem finish (agrees : Agrees f g) (hstage : f client = .decided h) (hhow : how ≠ .timedOut) :
    Agrees (update f client (.ended how)) (g.finish client how) := by
  have hopen : ∀ how, f client ≠ .ended how := by simp [hstage]
  have hheld : client ∉ g.held := by simp [agrees.held, hstage]
  refine agrees.single (by simpa [Gate.finish] using hheld) (fun h₀ => ?_) (by simp)
    (fun other hother => ⟨Iff.rfl, handover?_finish_of_ne g how (Ne.symm hother)⟩) agrees.heldOnce
    (agrees.mem_ended_concat hopen how) (agrees.nodup_ended_concat how hopen) ?_
  · simp [handover?_finish_self]
  · show g.timeouts = (g.ended ++ [(client, how)]).countP _
    simp [List.countP_append, agrees.timeouts, hhow]

/-- Who is dropped at the deadline is counted. -/
theorem drop (agrees : Agrees f g) (hstage : f client = .held) (how : UpgradeEnd) :
    Agrees (update f client (.ended how))
      { g.drop client how with
        timeouts := g.timeouts + if how = .timedOut then 1 else 0 } := by
  have hopen : ∀ how, f client ≠ .ended how := by simp [hstage]
  have hnone : g.handover? client = none := agrees.handover?_eq_none (by simp [hstage])
  refine agrees.single (by simp [Gate.drop]) (fun h => ?_) (by simp)
    (fun other hother => ⟨by simp [Gate.drop, hother], rfl⟩) (agrees.heldOnce.filter _)
    (agrees.mem_ended_concat hopen how) (agrees.nodup_ended_concat how hopen) ?_
  · show g.handover? client = some h ↔ _
    simp [hnone]
  · show _ = (g.ended ++ [(client, how)]).countP _
    by_cases hhow : how = .timedOut <;> simp [List.countP_append, agrees.timeouts, hhow]

/-! ### Several upgrades at once -/

/-- Who is taken so that the server can close is on record as turned away. -/
theorem foldl_take {leaving : List String} (agrees : Agrees f g) (hnodup : leaving.Nodup)
    (hheld : ∀ client ∈ leaving, f client = .held) :
    Agrees (fun client => if client ∈ leaving then .decided { decision := .shutDown } else f client)
      (leaving.foldl (fun g client => g.take client .shutDown) g) := by
  induction leaving generalizing f g with
  | nil => simpa using agrees
  | cons client rest ih =>
    obtain ⟨hclient, hrest⟩ := List.nodup_cons.mp hnodup
    have htaken : Agrees (update f client (.decided { decision := .shutDown }))
        (g.take client .shutDown) := agrees.take (hheld client List.mem_cons_self) (by simp)
    have hagrees := ih htaken hrest fun other hmem => by
      have hne : other ≠ client := fun heq => hclient (heq ▸ hmem)
      rw [update_of_ne hne]
      exact hheld other (List.mem_cons_of_mem _ hmem)
    have hstages : (fun other => if other ∈ client :: rest then .decided { decision := .shutDown }
        else f other) = fun other => if other ∈ rest then .decided { decision := .shutDown }
          else update f client (.decided { decision := .shutDown }) other := by
      funext other
      by_cases hother : other = client
      · simp [hother]
      · simp [hother]
    rw [hstages]
    exact hagrees

/-! ### One input for one upgrade -/

/-- An input that takes an upgrade decides on it if it is held, and changes nothing otherwise. -/
theorem taken (agrees : Agrees f g) (client : String)
    (hnext : ∀ stage : Stage, stage.next input =
      if stage = .held then .decided { decision } else stage)
    (hdecision : decision ≠ .timedOut) :
    Agrees (update f client ((f client).next input)) (g.take client decision) := by
  rw [hnext]
  by_cases hstage : f client = .held
  · rw [if_pos hstage]
    exact agrees.take hstage hdecision
  · rw [if_neg hstage, update_eq_self, take_of_not_held (mt (agrees.held client).mp hstage)]
    exact agrees

/-- An input for an upgrade that is not held changes something only if a decision is on its way. -/
theorem handed (agrees : Agrees f g) (act : Handover → Gate)
    (hstill : (∀ h, f client ≠ .decided h) → (f client).next input = f client)
    (hact : ∀ h, f client = .decided h → Agrees (update f client (h.next input)) (act h)) :
    Agrees (update f client ((f client).next input))
      (match g.handover? client with
        | some h => act h
        | none => g) := by
  cases hhandover : g.handover? client with
  | some h =>
    have hstage := (agrees.handovers client h).mp hhandover
    rw [hstage]
    exact hact h hstage
  | none =>
    have hopen : ∀ h, f client ≠ .decided h := by
      intro h hstage
      rw [(agrees.handovers client h).mpr hstage] at hhandover
      cases hhandover
    rw [hstill hopen, update_eq_self]
    exact agrees

/-- A send is remembered where a decision is on its way, and comes to nothing elsewhere. -/
theorem send (agrees : Agrees f g) (client : String) :
    Agrees (update f client ((f client).next (.send client))) (g.send client) := by
  refine agrees.handed _ (fun hopen => ?_) fun h hstage => agrees.change hstage rfl
  cases hstage : f client with
  | decided h => exact absurd hstage (hopen h)
  | absent | held | ended => rfl

/-- A decision is received only if it was sent and the timer has not run out. -/
theorem receive (agrees : Agrees f g) (client : String) :
    Agrees (update f client ((f client).next (.receive client))) (g.receive client) := by
  refine agrees.handed _ (fun hopen => ?_) fun h hstage => ?_
  · cases hstage : f client with
    | decided h => exact absurd hstage (hopen h)
    | absent | held | ended => rfl
  · rw [Handover.next]
    split
    · exact agrees.finish hstage (agrees.decisions client h hstage)
    · rw [← hstage, update_eq_self]
      exact agrees

/-- Behind its timer an upgrade looks once, and ends either way. -/
theorem look (agrees : Agrees f g) (client : String) :
    Agrees (update f client ((f client).next (.look client))) (g.look client) := by
  refine agrees.handed _ (fun hopen => ?_) fun h hstage => ?_
  · cases hstage : f client with
    | decided h => exact absurd hstage (hopen h)
    | absent | held | ended => rfl
  · rw [Handover.next]
    split
    · refine agrees.finish hstage ?_
      split
      · exact agrees.decisions client h hstage
      · simp
    · rw [← hstage, update_eq_self]
      exact agrees

/-- The timer ends an upgrade that is held, and makes a decision late that is on its way. -/
theorem expire (agrees : Agrees f g) (client : String) :
    Agrees (update f client ((f client).next (.deadline client))) (g.expire client) := by
  rw [Gate.expire]
  by_cases hheld : client ∈ g.held
  · have hstage := (agrees.held client).mp hheld
    rw [if_pos (isHeld_iff.mpr hheld), hstage]
    exact agrees.drop hstage .timedOut
  · rw [if_neg (mt isHeld_iff.mp hheld)]
    refine agrees.handed _ (fun hopen => ?_) fun h hstage => agrees.change hstage rfl
    cases hstage : f client with
    | decided h => exact absurd hstage (hopen h)
    | held => exact absurd ((agrees.held client).mpr hstage) hheld
    | absent | ended => rfl

/-- A peer that hangs up ends its upgrade, unless this one already looks for its decision. -/
theorem abandon (agrees : Agrees f g) (client : String) :
    Agrees (update f client ((f client).next (.hangUp client))) (g.abandon client) := by
  rw [Gate.abandon]
  by_cases hheld : client ∈ g.held
  · have hstage := (agrees.held client).mp hheld
    rw [if_pos (isHeld_iff.mpr hheld), hstage]
    exact agrees.drop hstage .abandoned
  · rw [if_neg (mt isHeld_iff.mp hheld)]
    refine agrees.handed _ (fun hopen => ?_) fun h hstage => ?_
    · cases hstage : f client with
      | decided h => exact absurd hstage (hopen h)
      | held => exact absurd ((agrees.held client).mpr hstage) hheld
      | absent | ended => rfl
    · rw [Handover.next]
      split
      · rw [← hstage, update_eq_self]
        exact agrees
      · exact agrees.finish hstage (by simp)

/-- The rejections that were counted are none of the stages' business. -/
theorem congr (agrees : Agrees f g) (rejections : Nat) : Agrees f { g with rejections } :=
  ⟨agrees.held, agrees.heldOnce, agrees.handovers, agrees.decisions, agrees.ended,
    agrees.endedOnce, agrees.timeouts⟩

/-- An input moves the upgrades that it concerns, each of them as if it were alone. -/
theorem step (agrees : Agrees f g) (input : GateInput)
    (harrival : ∀ client, input = .arrive client → f client = .absent) :
    Agrees (fun client => if input.concerns client then (f client).next input else f client)
      (g.step input) := by
  -- All inputs but one are for a single client.
  have hsingle : ∀ client, input.client? = some client →
      (fun client => if input.concerns client then (f client).next input else f client) =
        update f client ((f client).next input) := by
    intro client hclient
    funext other
    by_cases hother : other = client
    · simp [GateInput.concerns, hclient, hother]
    · simp [GateInput.concerns, hclient, hother, Ne.symm hother]
  cases input with
  | arrive client =>
    have hstage := harrival client rfl
    rw [hsingle client rfl, hstage]
    exact agrees.hold hstage
  | allow client =>
    rw [hsingle client rfl]
    exact agrees.taken client (fun stage => by cases stage <;> rfl) (by simp)
  | reject client rejection =>
    have hnext : ∀ stage : Stage, stage.next (.reject client rejection) =
        if stage = .held then .decided { decision := .rejected rejection } else stage := by
      intro stage
      cases stage <;> rfl
    rw [hsingle client rfl]
    exact (agrees.taken client hnext (by simp)).congr _
  | close =>
    have hstages : (fun client => if GateInput.close.concerns client
        then (f client).next .close else f client) = fun client => if client ∈ g.held
          then .decided { decision := .shutDown } else f client := by
      funext client
      show (f client).next .close = _
      simp only [agrees.held]
      cases f client <;> rfl
    rw [hstages]
    exact agrees.foldl_take agrees.heldOnce fun client => (agrees.held client).mp
  | send client => exact hsingle client rfl ▸ agrees.send client
  | receive client => exact hsingle client rfl ▸ agrees.receive client
  | deadline client => exact hsingle client rfl ▸ agrees.expire client
  | look client => exact hsingle client rfl ▸ agrees.look client
  | hangUp client => exact hsingle client rfl ▸ agrees.abandon client

end Agrees

/-! ## The books of the gate -/

/-- A server that closes rejects nobody. -/
theorem rejections_foldl_take (leaving : List String) (g : Gate) :
    (leaving.foldl (fun g client => g.take client .shutDown) g).rejections = g.rejections := by
  induction leaving generalizing g with
  | nil => rfl
  | cons client rest ih =>
    rw [List.foldl_cons, ih, take]
    split <;> rfl

/-- A rejection counts if it finds its upgrade held. -/
theorem rejections_step (g : Gate) (input : GateInput) :
    (g.step input).rejections =
      g.rejections + (input.rejected?.any g.isHeld).toNat := by
  cases input with
  | reject client rejection =>
    rw [step, reject, GateInput.rejected?, Option.any_some]
    cases g.isHeld client <;> rfl
  | close => exact rejections_foldl_take g.held g
  | allow client =>
    rw [step, allow, take]
    split <;> rfl
  | arrive client => rfl
  | send client | receive client | deadline client | look client | hangUp client =>
    simp only [step, send, receive, expire, look, abandon]
    repeat' split
    all_goals rfl

/-- The gate agrees with the inputs that came to it. -/
structure Books (inputs : List GateInput) (g : Gate) : Prop where
  agrees : Agrees (stageOf · inputs) g
  rejections : g.rejections = rejectionsMet [] inputs

/-- The gate holds exactly the upgrades that are pending. -/
theorem Books.mem_held (books : Books inputs g) : client ∈ g.held ↔ IsPending inputs client :=
  (books.agrees.held client).trans stageOf_eq_held_iff

theorem Books.isHeld_eq (books : Books inputs g) : g.isHeld = (IsPending inputs ·) := by
  funext client
  rw [Bool.eq_iff_iff, isHeld_iff, books.mem_held, decide_eq_true_iff]

/-- One more input of any kind leaves the gate in agreement, if no client arrives twice. -/
theorem Books.step (books : Books inputs g) (input : GateInput)
    (hdistinct : (arrivals (inputs ++ [input])).Nodup) :
    Books (inputs ++ [input]) (g.step input) := by
  have harrival : ∀ client, input = .arrive client → stageOf client inputs = .absent := by
    rintro client rfl
    rw [arrivals_concat] at hdistinct
    exact stageOf_of_not_mem fun hmem =>
      List.disjoint_of_nodup_append hdistinct hmem (List.mem_singleton.mpr rfl)
  refine ⟨?_, ?_⟩
  · have hstages : (stageOf · (inputs ++ [input])) = fun client =>
        if input.concerns client then (stageOf client inputs).next input
        else stageOf client inputs :=
      funext fun client => stageOf_concat client inputs input
    rw [hstages]
    exact books.agrees.step input harrival
  · rw [rejections_step, books.rejections, books.isHeld_eq, rejectionsMet_concat,
      List.nil_append]

/-- A fresh gate agrees with no inputs. -/
theorem books_fresh : Books [] {} where
  agrees := ⟨fun _ => ⟨nofun, nofun⟩, List.nodup_nil, fun _ _ => ⟨nofun, nofun⟩, nofun,
    fun _ _ => ⟨nofun, nofun⟩, List.nodup_nil, rfl⟩
  rejections := rfl

/-- The books agree with the inputs, in whatever order these come. -/
theorem books_run (hdistinct : (arrivals inputs).Nodup) : Books inputs (run {} inputs) := by
  induction inputs using List.reverseRecOn with
  | nil => exact books_fresh
  | append_singleton inputs input ih =>
    have hearlier : (arrivals inputs).Nodup := by
      rw [arrivals_concat] at hdistinct
      exact hdistinct.of_append_left
    rw [run, List.foldl_append]
    exact (ih hearlier).step input hdistinct

/-! ## What comes too late -/

/-- A decision on a client that is not held changes nothing. -/
theorem decision_of_not_held (hheld : client ∉ g.held) :
    g.allow client = g ∧ ∀ rejection, g.reject client rejection = g := by
  refine ⟨take_of_not_held hheld _, fun rejection => ?_⟩
  rw [reject, take_of_not_held hheld, if_neg (mt isHeld_iff.mp hheld)]
  rfl

/-- Whatever comes for a client that is neither held nor decided on changes nothing. -/
theorem step_of_gone (hheld : client ∉ g.held) (hhandover : g.handover? client = none)
    (hclient : input.client? = some client) (harrival : input.arrival? = none) :
    g.step input = g := by
  have hisHeld : ¬ g.isHeld client = true := mt isHeld_iff.mp hheld
  cases input with
  | arrive => cases harrival
  | close => cases hclient
  | allow =>
    cases hclient
    exact (decision_of_not_held hheld).1
  | reject _ rejection =>
    cases hclient
    exact (decision_of_not_held hheld).2 rejection
  | send | receive | look =>
    cases hclient
    simp only [step, send, receive, look, hhandover]
  | deadline | hangUp =>
    cases hclient
    simp only [step, expire, abandon, hhandover, if_neg hisHeld]

/-- A client is let in only by an end that was written down. -/
theorem mem_ended_of_isAllowed (h : g.isAllowed client = true) :
    (client, .allowed) ∈ g.ended := by
  rw [isAllowed, decide_eq_true_iff, endOf?] at h
  split at h
  · cases h
  · obtain ⟨⟨other, how⟩, hlast, rfl⟩ := Option.map_eq_some_iff.mp h
    obtain ⟨hmem, hother⟩ := List.mem_filter.mp (List.mem_of_getLast? hlast)
    have heq : other = client := of_decide_eq_true hother
    exact heq ▸ hmem

end Gate

end LiveDoc
