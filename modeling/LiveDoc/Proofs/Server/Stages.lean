import LiveDoc.Server.Gate
import Mathlib.Data.List.Induction

/-!
# LiveDoc — the stages of an upgrade

Decisions, timers, peers that hang up and a server that closes meet an upgrade in any order. How far
it has come can be read off the inputs that concern it: it is held until one of them takes it, and
if that was a decision, it ends when the decision comes in, or when its timer has run out and nobody
has sent the decision yet, or when its peer hangs up.

* `Gate.stageOf` — how far an upgrade has come, by the inputs that concern it.
* `Gate.stageOf_eq_held_iff` — the upgrades that are held are those that nothing has taken.
* `Gate.endsBy_of_stageOf` — what there must have been for an upgrade to end as it did.
* `Gate.wins_of_sent` — a decision that is sent before the upgrade looks for it wins over the timer.
-/

namespace LiveDoc

/-! ## What an input is about -/

namespace GateInput

def arrival? : GateInput → Option String
  | .arrive client => some client
  | _ => none

/-- The client that a rejection is for. -/
def rejected? : GateInput → Option String
  | .reject client _ => some client
  | _ => none

/-- The client that an input is for; none if it is for all of them. -/
def client? : GateInput → Option String
  | .close => none
  | .arrive client | .allow client | .reject client _ | .send client | .receive client
  | .deadline client | .look client | .hangUp client => some client

def concerns (client : String) (input : GateInput) : Bool := input.client?.all (· = client)

/-- The decision that an input makes on the upgrade of a client, if that is held. -/
def decisionOn? (client : String) : GateInput → Option UpgradeEnd
  | .allow other => if other = client then some .allowed else none
  | .reject other rejection => if other = client then some (.rejected rejection) else none
  | .close => some .shutDown
  | _ => none

/-- The upgrade of a client is not held any more after such an input. -/
def takes (client : String) (input : GateInput) : Bool :=
  (input.decisionOn? client).isSome || input = .deadline client || input = .hangUp client

end GateInput

/-! ## How far an upgrade has come -/

inductive Stage where
  | absent
  | held
  -- A decision was made, and is on its way.
  | decided (handover : Handover)
  | ended (how : UpgradeEnd)
  deriving DecidableEq, Repr

/-- What an input for an upgrade makes of a decision that is on its way to it. -/
def Handover.next (h : Handover) : GateInput → Stage
  | .send _ => .decided { h with isSent := true }
  | .receive _ => if h.isSent && !h.isLate then .ended h.decision else .decided h
  | .deadline _ => .decided { h with isLate := true }
  | .look _ =>
    if h.isLate then .ended (if h.isSent then h.decision else .overtaken) else .decided h
  | .hangUp _ => if h.isLate then .decided h else .ended .abandoned
  | .arrive _ | .allow _ | .reject _ _ | .close => .decided h

/-- What an input for an upgrade makes of it. -/
def Stage.next : Stage → GateInput → Stage
  | .absent, .arrive _ => .held
  | .held, .allow _ => .decided { decision := .allowed }
  | .held, .reject _ rejection => .decided { decision := .rejected rejection }
  | .held, .close => .decided { decision := .shutDown }
  | .held, .deadline _ => .ended .timedOut
  | .held, .hangUp _ => .ended .abandoned
  | .decided h, input => h.next input
  | stage, _ => stage

namespace Gate

/-- How far the upgrade of a client has come, by the inputs that concern it. -/
def stageOf (client : String) (inputs : List GateInput) : Stage :=
  (inputs.filter (·.concerns client)).foldl Stage.next .absent

def arrivals (inputs : List GateInput) : List String := inputs.filterMap (·.arrival?)

/-- What came behind the arrival of a client. -/
def since? (client : String) : List GateInput → Option (List GateInput)
  | [] => none
  | input :: rest => if input = .arrive client then some rest else since? client rest

/-- An upgrade has arrived, and nothing has taken it since. -/
def IsPending (inputs : List GateInput) (client : String) : Prop :=
  (since? client inputs).any fun rest => rest.all fun input => !input.takes client

instance (inputs : List GateInput) (client : String) : Decidable (IsPending inputs client) :=
  inferInstanceAs (Decidable (_ = true))

/-- How many rejections met a pending upgrade, of inputs that came behind others. -/
def rejectionsMet (before : List GateInput) : List GateInput → Nat
  | [] => 0
  | input :: rest =>
    (input.rejected?.any (IsPending before ·)).toNat + rejectionsMet (before ++ [input]) rest

/-- What there was for an upgrade to end so. -/
inductive EndsBy (inputs : List GateInput) (client : String) : UpgradeEnd → Prop where
  -- Its timer ran out while it was held.
  | timedOut {before rest : List GateInput} (split : inputs = before ++ .deadline client :: rest)
      (pending : IsPending before client) : EndsBy inputs client .timedOut
  -- Its peer hung up.
  | abandoned {before rest : List GateInput} (split : inputs = before ++ .hangUp client :: rest)
      (arrived : client ∈ arrivals before) : EndsBy inputs client .abandoned
  -- A decision was made while it was held, and sent.
  | decided {before rest : List GateInput} {input : GateInput} {decision : UpgradeEnd}
      (split : inputs = before ++ input :: rest) (pending : IsPending before client)
      (made : input.decisionOn? client = some decision) (sent : .send client ∈ rest) :
      EndsBy inputs client decision
  -- A decision was made while it was held, but not sent before its timer ran out and it looked.
  | overtaken {before rest later : List GateInput} {input : GateInput} {decision : UpgradeEnd}
      (split : inputs = before ++ input :: (rest ++ .look client :: later))
      (pending : IsPending before client) (made : input.decisionOn? client = some decision)
      (expired : .deadline client ∈ rest) (unsent : .send client ∉ rest) :
      EndsBy inputs client .overtaken

variable {inputs before rest : List GateInput} {input : GateInput} {client : String}
  {how decision : UpgradeEnd} {h : Handover}

/-! ## One more input -/

/-- Only an arrival adds to the arrivals. -/
theorem arrivals_concat (inputs : List GateInput) (input : GateInput) :
    arrivals (inputs ++ [input]) = arrivals inputs ++ input.arrival?.toList := by
  rw [arrivals, List.filterMap_append]
  cases harrival : input.arrival? <;> simp [arrivals, harrival]

/-- An input changes the stage of the upgrades that it concerns, and of no other. -/
theorem stageOf_concat (client : String) (inputs : List GateInput) (input : GateInput) :
    stageOf client (inputs ++ [input]) =
      if input.concerns client then (stageOf client inputs).next input
      else stageOf client inputs := by
  rw [stageOf, List.filter_append, List.foldl_append]
  cases hconcerns : input.concerns client <;> simp [hconcerns, stageOf]

/-- An input comes behind an arrival that was there, or is the first arrival itself. -/
theorem since?_concat (client : String) (inputs : List GateInput) (input : GateInput) :
    since? client (inputs ++ [input]) =
      match since? client inputs with
      | some rest => some (rest ++ [input])
      | none => if input = .arrive client then some [] else none := by
  induction inputs with
  | nil => rfl
  | cons first rest ih =>
    rw [List.cons_append, since?, since?]
    split
    · rfl
    · exact ih

/-- An upgrade is pending behind an input if it was and the input does not take it, or if it has
just arrived. -/
theorem isPending_concat :
    IsPending (inputs ++ [input]) client ↔
      IsPending inputs client ∧ input.takes client = false ∨
        since? client inputs = none ∧ input = .arrive client := by
  rw [IsPending, IsPending, since?_concat]
  cases since? client inputs with
  | some rest => simp
  | none => by_cases harrive : input = .arrive client <;> simp [harrive]

/-- A rejection counts if the upgrade is pending when it comes, which later inputs do not change. -/
theorem rejectionsMet_concat (before inputs : List GateInput) (input : GateInput) :
    rejectionsMet before (inputs ++ [input]) =
      rejectionsMet before inputs +
        (input.rejected?.any (IsPending (before ++ inputs) ·)).toNat := by
  induction inputs generalizing before with
  | nil => simp [rejectionsMet]
  | cons first rest ih =>
    rw [List.cons_append, rejectionsMet, rejectionsMet, ih, List.append_assoc, Nat.add_assoc]
    rfl

/-! ## Upgrades that are held -/

/-- Only inputs that concern an upgrade take it or let it arrive. -/
theorem takes_of_not_concerns (hconcerns : input.concerns client = false) :
    input.takes client = false ∧ input ≠ .arrive client := by
  cases input <;>
    simp_all [GateInput.concerns, GateInput.client?, GateInput.takes, GateInput.decisionOn?]

/-- A decision that is on its way goes on, or the upgrade ends. -/
theorem Handover.next_cases (h : Handover) (input : GateInput) :
    (∃ h', h.next input = .decided h') ∨ ∃ how, h.next input = .ended how := by
  cases input with
  | receive | look | hangUp =>
    rw [Handover.next]
    split
    · simp
    · simp
  | arrive | allow | reject | close | send | deadline => exact .inl ⟨_, rfl⟩

/-- No input makes an upgrade forgotten. -/
theorem next_eq_absent_iff {stage : Stage} (hconcerns : input.concerns client = true) :
    stage.next input = .absent ↔ stage = .absent ∧ input ≠ .arrive client := by
  cases stage with
  | absent => cases input <;> simp_all [GateInput.concerns, GateInput.client?, Stage.next]
  | held => cases input <;> simp [Stage.next]
  | decided h =>
    rcases Handover.next_cases h input with ⟨h', hnext⟩ | ⟨how, hnext⟩ <;> simp [Stage.next, hnext]
  | ended how => simp [Stage.next]

/-- An upgrade is held from its arrival until an input takes it. -/
theorem next_eq_held_iff {stage : Stage} (hconcerns : input.concerns client = true) :
    stage.next input = .held ↔
      stage = .held ∧ input.takes client = false ∨ stage = .absent ∧ input = .arrive client := by
  cases stage with
  | absent => cases input <;> simp_all [GateInput.concerns, GateInput.client?, Stage.next]
  | held =>
    cases input <;> simp_all [GateInput.concerns, GateInput.client?, Stage.next, GateInput.takes,
      GateInput.decisionOn?]
  | decided h =>
    rcases Handover.next_cases h input with ⟨h', hnext⟩ | ⟨how, hnext⟩ <;> simp [Stage.next, hnext]
  | ended how => simp [Stage.next]

/-- Whose upgrade has not arrived is absent. -/
theorem stageOf_eq_absent_iff :
    stageOf client inputs = .absent ↔ since? client inputs = none := by
  induction inputs using List.reverseRecOn with
  | nil => exact ⟨fun _ => rfl, fun _ => rfl⟩
  | append_singleton inputs input ih =>
    have hnone : since? client (inputs ++ [input]) = none ↔
        since? client inputs = none ∧ input ≠ .arrive client := by
      rw [since?_concat]
      cases since? client inputs <;> simp
    rw [stageOf_concat, hnone]
    cases hconcerns : input.concerns client
    · simpa [(takes_of_not_concerns hconcerns).2] using ih
    · rw [if_pos rfl, next_eq_absent_iff hconcerns, ih]

/-- The upgrades that are held are those that have arrived and that nothing has taken since. -/
theorem stageOf_eq_held_iff : stageOf client inputs = .held ↔ IsPending inputs client := by
  induction inputs using List.reverseRecOn with
  | nil => exact ⟨nofun, nofun⟩
  | append_singleton inputs input ih =>
    rw [stageOf_concat, isPending_concat, ← stageOf_eq_absent_iff, ← ih]
    cases hconcerns : input.concerns client
    · simp [takes_of_not_concerns hconcerns]
    · rw [if_pos rfl, next_eq_held_iff hconcerns]

/-- Inputs that come before an arrival do nothing to the upgrade. -/
theorem stageOf_of_not_mem (hmem : client ∉ arrivals inputs) : stageOf client inputs = .absent := by
  rw [stageOf_eq_absent_iff]
  induction inputs with
  | nil => rfl
  | cons input rest ih =>
    have hne : input ≠ .arrive client := by
      rintro rfl
      exact hmem (List.mem_cons_self)
    rw [since?, if_neg hne]
    refine ih fun hrest => hmem ?_
    rw [arrivals, List.filterMap_cons]
    split
    · exact hrest
    · exact List.mem_cons_of_mem _ hrest

/-! ## Decisions on their way -/

/-- A decision was made on an upgrade while it was held, and this has come of it since. -/
def IsDecidedBy (inputs : List GateInput) (client : String) (h : Handover) : Prop :=
  ∃ before input rest, inputs = before ++ input :: rest ∧ IsPending before client ∧
    input.decisionOn? client = some h.decision ∧ (h.isSent = true ↔ .send client ∈ rest) ∧
      (h.isLate = true ↔ .deadline client ∈ rest)

/-- An upgrade that is held stays so, or is decided on, or ends. -/
theorem next_held (hconcerns : input.concerns client = true) :
    Stage.held.next input = .held ∨
      (∃ decision, input.decisionOn? client = some decision ∧
        Stage.held.next input = .decided { decision }) ∨
      input = .deadline client ∧ Stage.held.next input = .ended .timedOut ∨
        input = .hangUp client ∧ Stage.held.next input = .ended .abandoned := by
  cases input <;>
    simp_all [GateInput.concerns, GateInput.client?, GateInput.decisionOn?, Stage.next]

/-- What is known of a decision on its way stays known, with one more input counted in. -/
theorem IsDecidedBy.concat {h' : Handover} (hby : IsDecidedBy inputs client h)
    (hdecision : h'.decision = h.decision)
    (hsent : h'.isSent = true ↔ h.isSent = true ∨ input = .send client)
    (hlate : h'.isLate = true ↔ h.isLate = true ∨ input = .deadline client) :
    IsDecidedBy (inputs ++ [input]) client h' := by
  obtain ⟨before, taker, rest, rfl, hpending, hmade, hsent', hlate'⟩ := hby
  refine ⟨before, taker, rest ++ [input], by simp, hpending, hdecision ▸ hmade, ?_, ?_⟩
  · rw [hsent, hsent', List.mem_append, List.mem_singleton, eq_comm]
  · rw [hlate, hlate', List.mem_append, List.mem_singleton, eq_comm]

/-- A decision stays the one that was made. A send and a deadline are remembered, in any order. -/
theorem next_eq_decided {h' : Handover} (hconcerns : input.concerns client = true)
    (hnext : h.next input = .decided h') :
    h'.decision = h.decision ∧
      (h'.isSent = true ↔ h.isSent = true ∨ input = .send client) ∧
        (h'.isLate = true ↔ h.isLate = true ∨ input = .deadline client) := by
  cases input with
  | send other | deadline other =>
    have hother : other = client := by
      simpa [GateInput.concerns, GateInput.client?] using hconcerns
    cases hnext
    simp [hother]
  | receive | look | hangUp =>
    rw [Handover.next] at hnext
    split at hnext
    all_goals cases hnext
    simp
  | arrive | allow | reject | close =>
    cases hnext
    simp

/-- Behind every decision on its way is an input that made it while the upgrade was pending. -/
theorem isDecidedBy_of_stageOf (hstage : stageOf client inputs = .decided h) :
    IsDecidedBy inputs client h := by
  induction inputs using List.reverseRecOn generalizing h with
  | nil => cases hstage
  | append_singleton inputs input ih =>
    rw [stageOf_concat] at hstage
    cases hconcerns : input.concerns client with
    | false =>
      rw [hconcerns, if_neg Bool.false_ne_true] at hstage
      have hne : input ≠ .send client ∧ input ≠ .deadline client := by
        constructor <;> rintro rfl <;> simp [GateInput.concerns, GateInput.client?] at hconcerns
      exact (ih hstage).concat rfl (by simp [hne.1]) (by simp [hne.2])
    | true =>
      rw [hconcerns, if_pos rfl] at hstage
      cases hbefore : stageOf client inputs with
      | absent =>
        rw [hbefore] at hstage
        cases input <;> cases hstage
      | held =>
        rw [hbefore] at hstage
        rcases next_held hconcerns with
          hnext | ⟨decision, hmade, hnext⟩ | ⟨-, hnext⟩ | ⟨-, hnext⟩
        · rw [hnext] at hstage
          cases hstage
        · rw [hnext] at hstage
          cases hstage
          exact ⟨inputs, input, [], rfl, stageOf_eq_held_iff.mp hbefore, hmade, by simp, by simp⟩
        · rw [hnext] at hstage
          cases hstage
        · rw [hnext] at hstage
          cases hstage
      | decided h₀ =>
        rw [hbefore] at hstage
        obtain ⟨hdecision, hsent, hlate⟩ := next_eq_decided hconcerns hstage
        exact (ih hbefore).concat hdecision hsent hlate
      | ended how =>
        rw [hbefore] at hstage
        cases hstage

/-! ## Ends -/

/-- What has ended an upgrade has ended it, whatever comes later. -/
theorem EndsBy.concat (hends : EndsBy inputs client how) (input : GateInput) :
    EndsBy (inputs ++ [input]) client how := by
  cases hends with
  | timedOut split pending => exact .timedOut (by simp [split]; rfl) pending
  | abandoned split arrived => exact .abandoned (by simp [split]; rfl) arrived
  | @decided before rest taker decision split pending made sent =>
    have hsplit : inputs ++ [input] = before ++ taker :: (rest ++ [input]) := by simp [split]
    exact .decided hsplit pending made (List.mem_append_left _ sent)
  | @overtaken before rest later taker decision split pending made expired unsent =>
    have hsplit : inputs ++ [input] =
        before ++ taker :: (rest ++ .look client :: (later ++ [input])) := by simp [split]
    exact .overtaken hsplit pending made expired unsent

/-- A decision that is on its way comes in if it was sent, or is overtaken by the timer, unless the
peer hangs up. -/
theorem next_eq_ended (hconcerns : input.concerns client = true)
    (hnext : h.next input = .ended how) :
    h.isSent = true ∧ how = h.decision ∨
      input = .look client ∧ h.isLate = true ∧ h.isSent = false ∧ how = .overtaken ∨
        input = .hangUp client ∧ how = .abandoned := by
  cases input with
  | receive =>
    rw [Handover.next] at hnext
    split at hnext
    all_goals cases hnext
    simp_all
  | look other =>
    have hother : other = client := by
      simpa [GateInput.concerns, GateInput.client?] using hconcerns
    rw [Handover.next] at hnext
    split at hnext
    all_goals cases hnext
    cases hsent : h.isSent <;> simp_all
  | hangUp other =>
    have hother : other = client := by
      simpa [GateInput.concerns, GateInput.client?] using hconcerns
    rw [Handover.next] at hnext
    split at hnext
    all_goals cases hnext
    simp_all
  | arrive | allow | reject | close | send | deadline => cases hnext

/-- An upgrade that has come to anything has arrived. -/
theorem mem_arrivals_of_stageOf (hstage : stageOf client inputs ≠ .absent) :
    client ∈ arrivals inputs :=
  not_imp_comm.mp stageOf_of_not_mem hstage

/-- An upgrade ends in one of four ways, and what each of them takes was there. -/
theorem endsBy_of_stageOf (hstage : stageOf client inputs = .ended how) :
    EndsBy inputs client how := by
  induction inputs using List.reverseRecOn generalizing how with
  | nil => cases hstage
  | append_singleton inputs input ih =>
    rw [stageOf_concat] at hstage
    cases hconcerns : input.concerns client with
    | false =>
      rw [hconcerns, if_neg Bool.false_ne_true] at hstage
      exact (ih hstage).concat input
    | true =>
      rw [hconcerns, if_pos rfl] at hstage
      cases hbefore : stageOf client inputs with
      | absent =>
        rw [hbefore] at hstage
        cases input <;> cases hstage
      | held =>
        have hpending := stageOf_eq_held_iff.mp hbefore
        rw [hbefore] at hstage
        rcases next_held hconcerns with
          hnext | ⟨decision, -, hnext⟩ | ⟨rfl, hnext⟩ | ⟨rfl, hnext⟩
        · rw [hnext] at hstage
          cases hstage
        · rw [hnext] at hstage
          cases hstage
        · rw [hnext] at hstage
          cases hstage
          exact .timedOut rfl hpending
        · rw [hnext] at hstage
          cases hstage
          exact .abandoned rfl (mem_arrivals_of_stageOf (by simp [hbefore]))
      | decided h =>
        have hby := isDecidedBy_of_stageOf hbefore
        rw [hbefore] at hstage
        obtain ⟨before, taker, rest, rfl, hpending, hmade, hsent, hlate⟩ := hby
        rcases next_eq_ended hconcerns hstage with
          ⟨his, rfl⟩ | ⟨rfl, hislate, hunsent, rfl⟩ | ⟨rfl, rfl⟩
        · have hsplit : before ++ taker :: rest ++ [input] = before ++ taker :: (rest ++ [input]) :=
            List.append_assoc _ _ _
          exact .decided hsplit hpending hmade (List.mem_append_left _ (hsent.mp his))
        · have hsplit : before ++ taker :: rest ++ [.look client] =
              before ++ taker :: (rest ++ .look client :: []) := List.append_assoc _ _ _
          have hnever : GateInput.send client ∉ rest := by simpa [hunsent] using hsent.symm
          exact .overtaken hsplit hpending hmade (hlate.mp hislate) hnever
        · exact .abandoned rfl (mem_arrivals_of_stageOf (by simp [hbefore]))
      | ended how =>
        have hends := ih hbefore
        rw [hbefore] at hstage
        cases hstage
        exact hends.concat input

/-! ## Decisions that are sent in time -/

/-- A decision is on its way to an upgrade, or has ended it, unless its peer hung up; and it was
sent, if that is asked for. -/
def Stage.Serves (decision : UpgradeEnd) (sent : Bool) : Stage → Prop
  | .decided h => h.decision = decision ∧ (sent = true → h.isSent = true)
  | .ended how => how = decision ∨ how = .abandoned
  | .absent | .held => False

/-- No input takes a sent decision away, and one that is not sent can be missed only by a look. -/
theorem serves_next {stage : Stage} {sent : Bool} (hserves : Stage.Serves decision sent stage)
    (hconcerns : input.concerns client = true) (hlook : sent = true ∨ input ≠ .look client) :
    Stage.Serves decision sent (stage.next input) := by
  cases stage with
  | absent | held => exact hserves.elim
  | decided h =>
    obtain ⟨hdecision, hsent⟩ := hserves
    rw [Stage.next]
    rcases Handover.next_cases h input with ⟨h', hnext⟩ | ⟨how, hnext⟩
    · obtain ⟨hdecision', hsent', -⟩ := next_eq_decided hconcerns hnext
      rw [hnext]
      exact ⟨hdecision'.trans hdecision, fun hs => hsent'.mpr (.inl (hsent hs))⟩
    · rw [hnext]
      rcases next_eq_ended hconcerns hnext with ⟨-, rfl⟩ | ⟨rfl, -, hunsent, -⟩ | ⟨-, rfl⟩
      · exact .inl hdecision
      · rcases hlook with hs | hne
        · rw [hsent hs] at hunsent
          cases hunsent
        · exact absurd rfl hne
      · exact .inr rfl
  | ended how => exact hserves

/-- A decision that was sent, or that is not looked for, is served through any further inputs. -/
theorem serves_append {sent : Bool} (hserves : Stage.Serves decision sent (stageOf client inputs))
    (hlook : sent = true ∨ .look client ∉ rest) :
    Stage.Serves decision sent (stageOf client (inputs ++ rest)) := by
  induction rest using List.reverseRecOn with
  | nil => rwa [List.append_nil]
  | append_singleton rest input ih =>
    have hearlier := ih (hlook.imp_right fun h hmem => h (List.mem_append_left _ hmem))
    rw [← List.append_assoc, stageOf_concat]
    cases hconcerns : input.concerns client with
    | false => rwa [if_neg Bool.false_ne_true]
    | true =>
      rw [if_pos rfl]
      refine serves_next hearlier hconcerns (hlook.imp_right fun h heq => h ?_)
      rw [heq]
      exact List.mem_append_right _ (List.mem_singleton.mpr rfl)

/-- A decision that is sent before anyone has missed it is there to be found. -/
theorem serves_send (hserves : Stage.Serves decision false (stageOf client inputs)) :
    Stage.Serves decision true (stageOf client (inputs ++ [.send client])) := by
  have hconcerns : (GateInput.send client).concerns client = true := by
    simp [GateInput.concerns, GateInput.client?]
  rw [stageOf_concat, if_pos hconcerns]
  cases hstage : stageOf client inputs with
  | absent | held =>
    rw [hstage] at hserves
    exact hserves.elim
  | decided h =>
    rw [hstage] at hserves
    exact ⟨hserves.1, fun _ => rfl⟩
  | ended how =>
    rw [hstage] at hserves
    exact hserves

/-- Who is held is decided on by the first decision. -/
theorem stageOf_decision (hpending : IsPending before client)
    (hmade : input.decisionOn? client = some decision) :
    stageOf client (before ++ [input]) = .decided { decision } := by
  rw [stageOf_concat, stageOf_eq_held_iff.mpr hpending]
  cases input <;>
    simp_all [GateInput.decisionOn?, GateInput.concerns, GateInput.client?, Stage.next]

/-- A decision that finds an upgrade held, and is sent before the upgrade looks for it after its
deadline, wins over the timer: the upgrade ends by it, unless the peer hangs up. -/
theorem wins_of_sent {later : List GateInput}
    (split : inputs = before ++ input :: (rest ++ .send client :: later))
    (hpending : IsPending before client) (hmade : input.decisionOn? client = some decision)
    (hlook : .look client ∉ rest) (hstage : stageOf client inputs = .ended how) :
    how = decision ∨ how = .abandoned := by
  have hdecided : Stage.Serves decision false (stageOf client (before ++ [input])) := by
    rw [stageOf_decision hpending hmade]
    exact ⟨rfl, nofun⟩
  have hsent := serves_send (serves_append hdecided (.inr hlook))
  have hinputs : inputs = before ++ [input] ++ rest ++ [.send client] ++ later := by simp [split]
  have hserves : Stage.Serves decision true (stageOf client inputs) := by
    rw [hinputs]
    exact serves_append hsent (.inl rfl)
  rw [hstage] at hserves
  exact hserves

end Gate

end LiveDoc
