import LiveDoc.Proofs.Fanout.Knowledge
import LiveDoc.Proofs.Server.Waiting
import LiveDoc.Server.Basic

/-!
# LiveDoc — who is let in

A server that asks for leave holds every upgrade at its gate. `Server.Happens` lists what may happen
to the server next: upgrades arrive, decisions are made, sent and come in, timers run out, peers
hang up, the server closes, and all else goes on in between. It puts on record what came to the
gate, and who opened a queue. From the record alone one can say who waits, how every upgrade ended,
and who may be sent anything at all.

* `Server.Happens`, `Server.Runs` — the runs of a server, with their records.
* `Server.Runs.gate_eq` — the gate of a server is run like any other.
* `Server.Runs.guarded` — what the gate guarantees in every run.
* `Server.exists_upgrade_overtaken` — a decision that is made in time and sent too late is lost.
-/

namespace LiveDoc

/-- What is on record about a server. -/
structure ServerRecord where
  -- What came to the gate, oldest first.
  inputs : List GateInput := []
  -- The clients that opened a queue, by its number.
  entered : List String := []

/-- A record goes on. -/
def ServerRecord.add (record entries : ServerRecord) : ServerRecord where
  inputs := record.inputs ++ entries.inputs
  entered := record.entered ++ entries.entered

namespace Server

/-- One thing that a server does, or its pump, which concerns no upgrade. -/
inductive Works : Server → Server → Prop where
  | mutate {s server : Server} {edits : List Edit} (ok : s.mutate edits = .ok server) :
      Works s server
  | broadcast {s server : Server} {value : Json.Value} (ok : s.broadcast value = .ok server) :
      Works s server
  | send (s : Server) (client : String) (frame : SocketFrame) : Works s (s.send client frame)
  | leave (s : Server) (client : String) : Works s (s.leave client)
  -- The pump is told to shut down.
  | shutDown (s : Server) : Works s (s.post .shutdown)
  -- The server does what concerns neither the gate nor the pump.
  | other {s server : Server} (settings : server.settings = s.settings)
      (gate : server.gate = s.gate) (pump : server.pump = s.pump)
      (isClosed : server.isClosed = s.isClosed) : Works s server
  -- The pump begins with its next command.
  | start {s : Server} {command : PumpCommand SocketFrame} {rest : List (PumpCommand SocketFrame)}
      (next : s.pump.commands = command :: rest) :
      Works s { s with pump := ({ s.pump with commands := rest } : Pump SocketFrame).start command }
  -- A delivery is decided.
  | serve {s : Server} {r : Round SocketFrame} {a : Attachment} (underway : s.pump.round = some r)
      (target : a ∈ r.targets) : Works s { s with pump := s.pump.serve a }
  -- All deliveries of a command are decided.
  | finish (s : Server) : Works s { s with pump := s.pump.finish }
  -- The reader of a queue takes what comes next.
  | read (s : Server) (n : Nat) : Works s { s with pump := (s.pump.read n).2 }
  -- The reader of a queue goes away.
  | hangUp (s : Server) (n : Nat) : Works s { s with pump := s.pump.hangUp n }

/-- One thing that happens to a server, and what goes on record. -/
inductive Happens : Server → ServerRecord → Server → Prop where
  -- An upgrade is held. It came while the server was open, which need not be so any more.
  | arrive (s : Server) (request : AuthRequest) :
      Happens s { inputs := [.arrive request.client] } (s.hold request)
  -- Anything else comes to the gate.
  | atGate (s : Server) {input : GateInput} (here : input.arrival? = none) :
      Happens s { inputs := [input] } { s with gate := s.gate.step input }
  -- From now on no upgrade is let through to the gate.
  | shut (s : Server) : Happens s {} { s with isClosed := true }
  -- The socket of a client opens.
  | enter {s server : Server} {info : ClientInfo} {n : Nat}
      (ok : s.enter info = some (n, server)) : Happens s { entered := [info.id] } server
  | work {s server : Server} (works : s.Works server) : Happens s {} server

/-- The runs of a server that was just set up, and their records. -/
inductive Runs : Server → ServerRecord → Prop where
  | fresh (settings : Settings.Server) (model : Model Unit) : Runs (ofModel settings model) {}
  | step {s s' : Server} {record entries : ServerRecord} (run : Runs s record)
      (happens : Happens s entries s') : Runs s' (record.add entries)

variable {s s' server : Server} {record entries : ServerRecord}

/-! ## What goes by the gate -/

/-- A server that did nothing at the gate, and whose pump has learned of nobody. -/
structure Aside (s s' : Server) : Prop where
  settings : s'.settings = s.settings
  gate : s'.gate = s.gate
  isClosed : s'.isClosed = s.isClosed
  length : s'.pump.queues.length = s.pump.queues.length
  knows : ∀ {a : Attachment}, s'.pump.Knows a → s.pump.Knows a

theorem Aside.refl (s : Server) : s.Aside s := ⟨rfl, rfl, rfl, rfl, id⟩

theorem Aside.post (h : s.Aside s') {command : PumpCommand SocketFrame}
    (hcommand : ∀ info queue refresh, command ≠ .attach info queue refresh) :
    s.Aside (s'.post command) where
  settings := h.settings
  gate := h.gate
  isClosed := h.isClosed
  length := (s'.pump.length_submit command).trans h.length
  knows hknows := by
    rcases hknows.submit with hold | ⟨refresh, hattach⟩
    · exact h.knows hold
    · exact absurd hattach (hcommand _ _ _)

theorem aside_mutate {edits : List Edit} (h : s.mutate edits = .ok server) : s.Aside server := by
  unfold mutate at h
  cases hmutate : s.model.mutate edits with
  | error e =>
    rw [hmutate] at h
    cases h
  | ok result =>
    rw [hmutate] at h
    cases h
    -- Every notice is posted, one after the other.
    have hposted : ∀ (notices : List (Notice Unit)) (s' : Server), s.Aside s' →
        s.Aside (notices.foldl (fun s notice => s.post (.broadcast (delta notice.edits))) s') := by
      intro notices
      induction notices with
      | nil => exact fun _ h => h
      | cons notice rest ih => exact fun s' h => ih _ (h.post nofun)
    exact hposted _ _ ⟨rfl, rfl, rfl, rfl, id⟩

theorem aside_broadcast {value : Json.Value} (h : s.broadcast value = .ok server) :
    s.Aside server := by
  unfold broadcast at h
  split at h
  · cases h
    exact (Aside.refl s).post nofun
  · cases h

theorem aside_pump {pump : Pump SocketFrame}
    (hlength : pump.queues.length = s.pump.queues.length)
    (hknows : ∀ {a : Attachment}, pump.Knows a → s.pump.Knows a) : s.Aside { s with pump } where
  settings := rfl
  gate := rfl
  isClosed := rfl
  length := hlength
  knows := hknows

/-- Whatever a server does otherwise it does nothing at the gate. -/
theorem Works.aside (h : s.Works s') : s.Aside s' := by
  cases h with
  | mutate ok => exact aside_mutate ok
  | broadcast ok => exact aside_broadcast ok
  | send client frame => exact (Aside.refl s).post nofun
  | leave client =>
    have hpost : s.Aside (s.post (.detach client)) := (Aside.refl s).post nofun
    exact ⟨hpost.settings, hpost.gate, hpost.isClosed, hpost.length, hpost.knows⟩
  | shutDown => exact (Aside.refl s).post nofun
  | other settings gate pump isClosed =>
    exact ⟨settings, gate, isClosed, by rw [pump], fun h => pump ▸ h⟩
  | start next => exact aside_pump (Pump.length_start _ _) (Pump.Knows.start next)
  | serve underway target => exact aside_pump (Pump.length_serve _ _) Pump.Knows.serve
  | finish => exact aside_pump (Pump.length_finish _) Pump.Knows.finish
  | read n => exact aside_pump (Pump.length_read _ n) Pump.Knows.read
  | hangUp n => exact aside_pump (Pump.length_updateQueue _ n _) fun h => h.congr rfl rfl rfl

/-! ## What happens at the gate -/

theorem upgrade_of_closed (hclosed : s.isClosed = true) (request : AuthRequest) :
    s.upgrade request = (.refused .shuttingDown, s) :=
  if_pos hclosed

/-- A client whose socket opens was let in, and its queue is the next one. -/
theorem enter_eq {info : ClientInfo} {n : Nat} (h : s.enter info = some (n, server)) :
    s.admits info.id = true ∧ n = s.pump.queues.length ∧
      server = { s with pump :=
        (s.pump.openQueue s.settings.clientQueue).2.submit (.attach info n s.refresh) } := by
  unfold enter at h
  split at h
  · next hadmits =>
    cases h
    exact ⟨hadmits, rfl, rfl⟩
  · cases h

theorem Happens.settings (h : s.Happens entries s') : s'.settings = s.settings := by
  cases h with
  | enter ok =>
    obtain ⟨-, -, rfl⟩ := enter_eq ok
    rfl
  | work works => exact works.aside.settings
  | arrive request | atGate here | shut => rfl

/-- What happens at the gate is on record. -/
theorem Happens.gate (h : s.Happens entries s') : s'.gate = s.gate.run entries.inputs := by
  cases h with
  | enter ok =>
    obtain ⟨-, -, rfl⟩ := enter_eq ok
    rfl
  | work works => exact works.aside.gate
  | arrive request | atGate here | shut => rfl

/-- The pump learns of a client only when its socket opens, and then with a queue that is new. -/
theorem Happens.pump (h : s.Happens entries s') :
    s'.pump.queues.length = s.pump.queues.length + entries.entered.length ∧
      ∀ {a : Attachment}, s'.pump.Knows a → s.pump.Knows a ∨
        a.queue = s.pump.queues.length ∧ entries.entered = [a.info.id] := by
  cases h with
  | enter ok =>
    obtain ⟨-, rfl, rfl⟩ := enter_eq ok
    refine ⟨?_, fun hknows => ?_⟩
    · rw [Pump.length_submit]
      exact List.length_append
    · rcases hknows.submit with hold | ⟨refresh, hattach⟩
      · exact .inl hold.openQueue
      · rw [PumpCommand.attach.injEq] at hattach
        exact .inr ⟨hattach.2.1.symm, congrArg (fun info => [info.id]) hattach.1⟩
  | work works => exact ⟨works.aside.length, fun hknows => .inl (works.aside.knows hknows)⟩
  | arrive request | atGate here | shut => exact ⟨rfl, .inl⟩

/-- A client whose socket opens was let in at the gate. -/
theorem Happens.entered (h : s.Happens entries s') (auth : s.settings.auth = true) {client : String}
    (hmem : client ∈ entries.entered) : (client, .allowed) ∈ s.gate.ended := by
  cases h with
  | enter ok =>
    obtain ⟨hadmits, -, -⟩ := enter_eq ok
    cases List.mem_singleton.mp hmem
    rw [admits, auth] at hadmits
    exact Gate.mem_ended_of_isAllowed hadmits
  | _ => cases hmem

/-! ## Runs -/

theorem Runs.gate_eq (run : Runs s record) : s.gate = Gate.run {} record.inputs := by
  induction run with
  | fresh settings model => rfl
  | step run happens ih =>
    rw [happens.gate, ih, ServerRecord.add, Gate.run, Gate.run, Gate.run, List.foldl_append]

/-- Inputs come to the gate one after the other. -/
theorem Runs.atGate (run : Runs s record) {inputs : List GateInput}
    (here : ∀ input ∈ inputs, input.arrival? = none) :
    Runs { s with gate := s.gate.run inputs } (record.add { inputs }) := by
  induction inputs generalizing s record with
  | nil =>
    have hrecord : record.add { inputs := [] } = record := by simp [ServerRecord.add]
    rwa [hrecord]
  | cons input rest ih =>
    have hfirst := run.step (.atGate s (here input List.mem_cons_self))
    have hrest := ih hfirst fun input hmem => here input (List.mem_cons_of_mem _ hmem)
    have hrecord : (record.add { inputs := [input] }).add { inputs := rest } =
        record.add { inputs := input :: rest } := by simp [ServerRecord.add]
    rwa [hrecord] at hrest

/-- The operations of a server are runs: an upgrade that is held arrives. -/
theorem Runs.upgrade (run : Runs s record) (auth : s.settings.auth = true)
    (hopen : s.isClosed = false) (request : AuthRequest) :
    Runs (s.upgrade request).2 (record.add { inputs := [.arrive request.client] }) := by
  rw [Server.upgrade, hopen, auth]
  exact run.step (.arrive s request)

/-- A decision on an upgrade that is held is made, sent, and comes in. -/
theorem Runs.authorize (run : Runs s record) {client : String}
    (hheld : s.gate.isHeld client = true) :
    Runs (s.authorize client)
      (record.add { inputs := [.allow client, .send client, .receive client] }) := by
  rw [Server.authorize, Gate.settle, if_pos hheld]
  exact run.atGate (by simp [GateInput.arrival?])

/-- Closing a server is a run: whoever is held is turned away, and then the pump is told. -/
theorem Runs.close (run : Runs s record) (hopen : s.isClosed = false) :
    Runs s.close (record.add { inputs :=
      .close :: s.gate.held.flatMap fun client => [.send client, .receive client] }) := by
  have here : ∀ input ∈ GateInput.close :: s.gate.held.flatMap
      fun client => [.send client, .receive client], input.arrival? = none := by
    intro input hmem
    rcases List.mem_cons.mp hmem with rfl | hmem
    · rfl
    · obtain ⟨client, -, hinput⟩ := List.mem_flatMap.mp hmem
      rcases List.mem_pair.mp hinput with rfl | rfl <;> rfl
  let shut : Server := { s with isClosed := true, gate := s.gate.close }
  let failed : Server := { shut with api := s.api.failAll 503 Rejection.shuttingDown.error }
  have hshut := run.step (.shut s)
  have hgate : Runs shut _ := hshut.atGate here
  have hfailed : Runs failed _ := hgate.step (.work (.other rfl rfl rfl rfl))
  have htold := hfailed.step (.work (.shutDown failed))
  rw [Server.close, hopen, if_neg Bool.false_ne_true]
  simpa only [ServerRecord.add, List.append_nil] using htold

/-- Every queue belongs to the client that opened it, and so does every attachment. -/
theorem Runs.attached (run : Runs s record) :
    s.pump.queues.length = record.entered.length ∧
      ∀ {a : Attachment}, s.pump.Knows a → record.entered[a.queue]? = some a.info.id := by
  induction run with
  | fresh settings model =>
    refine ⟨rfl, fun hknows => ?_⟩
    cases hknows with
    | awaited refresh mem => cases mem
    | listed mem => cases mem
    | served r underway mem => cases underway
  | step run happens ih =>
    obtain ⟨hlength, hknown⟩ := ih
    obtain ⟨hlength', hknows'⟩ := happens.pump
    refine ⟨?_, fun hknows => ?_⟩
    · rw [hlength', hlength]
      exact List.length_append.symm
    · rw [ServerRecord.add]
      rcases hknows' hknows with hold | ⟨hqueue, hentered⟩
      · have hold := hknown hold
        obtain ⟨hlt, -⟩ := List.getElem?_eq_some_iff.mp hold
        rwa [List.getElem?_append_left hlt]
      · rw [hentered, hqueue, hlength, List.getElem?_concat_length]

/-- A client that was let in was pending when leave was given. -/
theorem allow_of_mem_ended {inputs : List GateInput} {client : String}
    (hdistinct : (Gate.arrivals inputs).Nodup)
    (hmem : (client, .allowed) ∈ (Gate.run {} inputs).ended) :
    ∃ before rest, inputs = before ++ .allow client :: rest ∧ Gate.IsPending before client := by
  have hstage := ((Gate.books_run hdistinct).agrees.ended client .allowed).mp hmem
  cases Gate.endsBy_of_stageOf hstage with
  | @decided before rest input decision split pending made sent =>
    cases input <;> simp [GateInput.decisionOn?] at made
    subst made
    exact ⟨before, rest, split, pending⟩

theorem Runs.allowed (run : Runs s record) (auth : s.settings.auth = true)
    (hdistinct : (Gate.arrivals record.inputs).Nodup) :
    ∀ client ∈ record.entered, ∃ before rest,
      record.inputs = before ++ .allow client :: rest ∧ Gate.IsPending before client := by
  induction run with
  | fresh settings model => nofun
  | @step s s' record entries run happens ih =>
    rw [happens.settings] at auth
    have hearlier : (Gate.arrivals record.inputs).Nodup := by
      rw [ServerRecord.add, Gate.arrivals, List.filterMap_append] at hdistinct
      exact hdistinct.of_append_left
    intro client hmem
    have hallow : ∃ before rest,
        record.inputs = before ++ .allow client :: rest ∧ Gate.IsPending before client := by
      rcases List.mem_append.mp hmem with hold | hnew
      · exact ih auth hearlier client hold
      · refine allow_of_mem_ended hearlier ?_
        rw [← run.gate_eq]
        exact happens.entered auth hnew
    obtain ⟨before, rest, hsplit, hpending⟩ := hallow
    refine ⟨before, rest ++ entries.inputs, ?_, hpending⟩
    rw [ServerRecord.add, hsplit]
    simp

/-- What the gate of a server guarantees, by the record. -/
structure Guarded (record : ServerRecord) (s : Server) : Prop where
  -- The gate holds exactly the upgrades that have arrived and that nothing has taken since, each of
  -- them once.
  pending : ∀ client, client ∈ s.gate.held ↔ Gate.IsPending record.inputs client
  pendingOnce : s.gate.held.Nodup
  -- An upgrade that was taken has a decision on its way, or has ended, as what came for it alone
  -- says, and never ends again.
  decided : ∀ client h, s.gate.handover? client = some h ↔
    Gate.stageOf client record.inputs = .decided h
  ended : ∀ client how, (client, how) ∈ s.gate.ended ↔
    Gate.stageOf client record.inputs = .ended how
  endedOnce : (s.gate.ended.map Prod.fst).Nodup
  -- It ends at its deadline or when its peer hangs up, or by a decision that was made while it was
  -- held and sent. It ends without either if its timer ran out between the two.
  cause : ∀ client how, (client, how) ∈ s.gate.ended → Gate.EndsBy record.inputs client how
  -- A decision that is made while the upgrade is held, and sent before its task looks for it after
  -- the deadline, wins over the timer.
  wins : ∀ client before input rest later decision,
    record.inputs = before ++ input :: (rest ++ .send client :: later) →
      Gate.IsPending before client → input.decisionOn? client = some decision →
        .look client ∉ rest → ∀ how, (client, how) ∈ s.gate.ended →
          how = decision ∨ how = .abandoned
  -- Decisions on an upgrade that is not pending change nothing, and nothing that comes for an
  -- upgrade after its end does.
  late : ∀ client, ¬ Gate.IsPending record.inputs client →
    s.gate.allow client = s.gate ∧ ∀ rejection, s.gate.reject client rejection = s.gate
  tooLate : ∀ client how, (client, how) ∈ s.gate.ended → ∀ input : GateInput,
    input.client? = some client → input.arrival? = none → s.gate.step input = s.gate
  -- A closed server turns everybody away.
  closed : s.isClosed = true → ∀ request, s.upgrade request = (.refused .shuttingDown, s)
  timeouts : s.metrics.authTimeouts = s.gate.ended.countP (·.2 = .timedOut)
  rejections : s.metrics.authRejections = Gate.rejectionsMet [] record.inputs
  -- Frames go to queues that clients opened, and to each under the id of its client.
  queues : s.pump.queues.length = record.entered.length
  attached : ∀ a, s.pump.Knows a → record.entered[a.queue]? = some a.info.id
  -- No client opens a queue without leave, which was given while its upgrade was pending.
  allowed : ∀ client ∈ record.entered, ∃ before rest,
    record.inputs = before ++ .allow client :: rest ∧ Gate.IsPending before client

/-- In every run of a server that asks for leave, if no two upgrades have the same id, every upgrade
is taken once, by whatever finds it pending first, and ends once; what comes later changes nothing;
and nobody is sent anything who was not let in while he waited. -/
theorem Runs.guarded (run : Runs s record) (auth : s.settings.auth = true)
    (distinct : (Gate.arrivals record.inputs).Nodup) : Guarded record s := by
  have hbooks : Gate.Books record.inputs s.gate := run.gate_eq ▸ Gate.books_run distinct
  have hagrees := hbooks.agrees
  obtain ⟨hqueues, hattached⟩ := run.attached
  exact {
    pending := fun _ => hbooks.mem_held
    pendingOnce := hagrees.heldOnce
    decided := hagrees.handovers
    ended := hagrees.ended
    endedOnce := hagrees.endedOnce
    cause := fun client how hmem => Gate.endsBy_of_stageOf ((hagrees.ended client how).mp hmem)
    wins := fun client before input rest later decision hsplit hpending hmade hlook how hmem =>
      Gate.wins_of_sent hsplit hpending hmade hlook ((hagrees.ended client how).mp hmem)
    late := fun client hlate => Gate.decision_of_not_held (mt hbooks.mem_held.mp hlate)
    tooLate := fun client how hmem input hclient harrival => by
      have hstage := (hagrees.ended client how).mp hmem
      have hheld : client ∉ s.gate.held := by simp [hagrees.held, hstage]
      have hhandover : s.gate.handover? client = none :=
        hagrees.handover?_eq_none (by simp [hstage])
      exact Gate.step_of_gone hheld hhandover hclient harrival
    closed := upgrade_of_closed
    timeouts := hagrees.timeouts
    rejections := hbooks.rejections
    queues := hqueues
    attached := fun _ => hattached
    allowed := run.allowed auth distinct }

/-- Three upgrades arrive. One is let in, opens its socket and is taken into the table; one reaches
its deadline, and the rejection that was on its way comes too late; one is turned away when the
server closes. -/
theorem guarded_three_upgrades :
    ∃ (s : Server) (record : ServerRecord), Runs s record ∧ s.settings.auth = true ∧
      (Gate.arrivals record.inputs).Nodup ∧ s.isClosed = true ∧
      ("b", .timedOut) ∈ s.gate.ended ∧ ("c", .shutDown) ∈ s.gate.ended ∧
      s.metrics.authTimeouts = 1 ∧ s.metrics.authRejections = 0 ∧
      s.pump.Knows { info := { id := "a" }, queue := 0 } ∧
      (∃ before rest,
        record.inputs = before ++ .allow "a" :: rest ∧ Gate.IsPending before "a") := by
  let request (client : String) : AuthRequest :=
    { client, remote := "127.0.0.1", method := "GET", url := "/" }
  have waiting : ∃ s : Server, Runs s { inputs := [.arrive "a", .allow "a", .send "a", .receive "a",
      .arrive "b", .arrive "c", .deadline "b", .reject "b" default], entered := ["a"] } ∧
      s.settings.auth = true ∧ s.isClosed = false ∧ s.pump.running = true ∧
        { info := { id := "a" }, queue := 0 } ∈ s.pump.targets := by
    have a := (Runs.fresh { auth := true } {}).upgrade rfl rfl (request "a")
    have allowed := a.authorize (show Gate.isHeld _ "a" = true from rfl)
    have entered := allowed.step (.enter (show enter _ { id := "a" } = some (0, _) from rfl))
    have started := entered.step (.work (.start rfl))
    have b := started.upgrade rfl rfl (request "b")
    have c := b.upgrade rfl rfl (request "c")
    have expired := c.step (.atGate _ (show (GateInput.deadline "b").arrival? = none from rfl))
    have late := expired.step
      (.atGate _ (show (GateInput.reject "b" default).arrival? = none from rfl))
    exact ⟨_, late, rfl, rfl, rfl, List.mem_singleton.mpr rfl⟩
  obtain ⟨s, run, auth, hopen, hrunning, hlisted⟩ := waiting
  have hheld : s.gate.held = ["c"] := by
    rw [run.gate_eq]
    rfl
  have closed := run.close hopen
  rw [hheld] at closed
  have hclose : s.close.settings = s.settings ∧ s.close.isClosed = true ∧
      s.close.pump.targets = s.pump.targets := by
    rw [Server.close, hopen, if_neg Bool.false_ne_true, post, Pump.submit, if_pos hrunning]
    exact ⟨rfl, rfl, rfl⟩
  have distinct : (Gate.arrivals [.arrive "a", .allow "a", .send "a", .receive "a", .arrive "b",
    .arrive "c", .deadline "b", .reject "b" default, .close, .send "c", .receive "c"]).Nodup := by
    decide
  have guarded := closed.guarded (hclose.1 ▸ auth) distinct
  have hgate := closed.gate_eq
  refine ⟨_, _, closed, hclose.1 ▸ auth, distinct, hclose.2.1, ?_, ?_, ?_, ?_, ?_, ?_⟩
  · exact (guarded.ended "b" .timedOut).mpr (by decide)
  · exact (guarded.ended "c" .shutDown).mpr (by decide)
  · rw [guarded.timeouts, hgate]
    rfl
  · exact guarded.rejections.trans (by decide)
  · exact .listed (hclose.2.2 ▸ hlisted)
  · exact guarded.allowed "a" (List.mem_singleton.mpr rfl)

/-- An upgrade is let in while it is held, but its timer runs out before the decision is sent. Its
task looks for the decision, does not find it, and turns the client away as if nobody had decided;
and the upgrade is not counted among those that reached their deadline. -/
theorem exists_upgrade_overtaken :
    ∃ (s : Server) (record : ServerRecord), Runs s record ∧ s.settings.auth = true ∧
      record.inputs = [.arrive "a", .allow "a", .deadline "a", .look "a", .send "a"] ∧
      Gate.IsPending [.arrive "a"] "a" ∧
      s.gate.ended = [("a", .overtaken)] ∧
      UpgradeEnd.overtaken.rejection? = some Rejection.timedOut ∧
      s.metrics.authTimeouts = 0 ∧ s.admits "a" = false := by
  have fresh := Runs.fresh { auth := true } {}
  have arrived := fresh.upgrade rfl rfl
    { client := "a", remote := "127.0.0.1", method := "GET", url := "/" }
  have run := arrived.atGate (show ∀ input ∈ [GateInput.allow "a", .deadline "a", .look "a",
    .send "a"], input.arrival? = none by decide)
  exact ⟨_, _, run, rfl, rfl, by decide, rfl, rfl, rfl, rfl⟩

end Server

end LiveDoc
