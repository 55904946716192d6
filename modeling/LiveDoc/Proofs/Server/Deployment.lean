import LiveDoc.Proofs.Edit.Regular
import LiveDoc.Proofs.Fanout.Delivery
import LiveDoc.Proofs.Server.Frames

/-!
# LiveDoc — a server and its clients

A `Deployment` is a server with all clients that ever came to it. Each step is one thing that happens
in it: the model is changed, a client comes in with whatever replica it has, messages other than
batches are sent, the pump handles its commands, clients read their frames and go away. It remembers
which batches the model accepted and how many there were when each client came, so that one can say
which of the documents of the model a replica shows.

* `Deployment.Step`, `Deployment.Reachable` — what may happen.
* `Deployment.history` — the documents that the model had.
* `Deployment.Reachable.runs` — the pump of a deployment is run like any other.
-/

namespace LiveDoc

open Json

structure Deployment where
  server : Server
  -- The client that reads the queue with a number.
  clients : Nat → Client := fun _ => {}
  -- What is on record about the pump.
  record : PumpRecord SocketFrame := []
  -- The document that the model began with.
  origin : Document
  -- The batches that changed the model, oldest first.
  accepted : List (List Edit) := []
  -- How many batches had changed the model when the client came.
  joined : Nat → Nat := fun _ => 0

namespace Deployment

def pump (d : Deployment) : Pump SocketFrame := d.server.pump

def account (d : Deployment) (n : Nat) : Account SocketFrame := PumpRecord.account d.record n

/-- The document that the model had after so many batches. -/
def history (d : Deployment) (k : Nat) : Document :=
  (d.accepted.take k).foldl Document.applied d.origin

/-- The pump goes on, and something may go on record. -/
def setPump (d : Deployment) (pump : Pump SocketFrame) (entries : PumpRecord SocketFrame) :
    Deployment :=
  { d with server := { d.server with pump }, record := d.record ++ entries }

def join (d : Deployment) (server : Server) (n : Nat) (c : Client) : Deployment :=
  { d with
    server
    clients := fun k => if k = n then c else d.clients k
    joined := fun k => if k = n then d.accepted.length else d.joined k }

def setClient (d : Deployment) (n : Nat) : Reading SocketFrame → Deployment
  | .item (.frame f) =>
    { d with clients := fun k => if k = n then (d.clients n).take f else d.clients k }
  | _ => d

inductive Step : Deployment → Deployment → Prop where
  -- A batch is applied to the model and told to all clients.
  | mutate {d : Deployment} (edits : List Edit) {server : Server}
      (canonical : ∀ edit ∈ edits, edit.IsCanonical) (ok : d.server.mutate edits = .ok server) :
      Step d { d with
        server, accepted := if edits.isEmpty then d.accepted else d.accepted ++ [edits] }
  -- A client comes in.
  | connect {d : Deployment} (info : ClientInfo) {n : Nat} {server : Server} (c : Client)
      (ok : d.server.enter info = some (n, server)) : Step d (d.join server n c)
  -- A value that is no batch is sent to all clients.
  | broadcast {d : Deployment} {value : Value} {server : Server}
      (ok : d.server.broadcast value = .ok server)
      (other : (SocketFrame.value value).edits? = none) : Step d { d with server }
  -- A frame that carries no batch is sent to one client.
  | send {d : Deployment} (client : String) {f : SocketFrame} (other : f.edits? = none) :
      Step d { d with server := d.server.send client f }
  -- The socket of a client closes.
  | leave (d : Deployment) (client : String) : Step d { d with server := d.server.leave client }
  | close (d : Deployment) : Step d { d with server := d.server.close }
  -- The server does what concerns neither the model nor the pump.
  | other {d : Deployment} {server : Server} (model : server.model = d.server.model)
      (pump : server.pump = d.server.pump) : Step d { d with server }
  -- The pump begins with its next command.
  | start {d : Deployment} {command : PumpCommand SocketFrame}
      {rest : List (PumpCommand SocketFrame)} (idle : d.pump.round = none)
      (next : d.pump.commands = command :: rest) :
      Step d (d.setPump (({ d.pump with commands := rest } : Pump SocketFrame).start command)
        (if d.pump.running then [.handled command] else []))
  -- A delivery is decided.
  | serve {d : Deployment} {r : Round SocketFrame} {a : Attachment}
      (underway : d.pump.round = some r) (target : a ∈ r.targets) :
      Step d (d.setPump (d.pump.serve a) [])
  -- All deliveries of a command are decided.
  | finish {d : Deployment} {r : Round SocketFrame} (underway : d.pump.round = some r)
      (decided : r.targets = []) : Step d (d.setPump d.pump.finish (Pump.evictions r))
  -- A client reads what comes next, and handles it.
  | read {d : Deployment} {n : Nat} (exists_ : n < d.pump.queues.length)
      (reader : (d.pump.queue n).hasReader) :
      Step d ((d.setPump (d.pump.read n).2 [.read n (d.pump.read n).1]).setClient n
        (d.pump.read n).1)
  -- A client goes away.
  | hangUp (d : Deployment) (n : Nat) : Step d (d.setPump (d.pump.hangUp n) [])

/-- The deployments that are reached from a server that was just set up. -/
inductive Reachable : Deployment → Prop where
  | initial (settings : Settings.Server) {origin : Document}
      (canonical : (Value.object origin).IsCanonical) :
      Reachable { server := Server.ofModel settings (.ofDocument origin), origin }
  | step {d d' : Deployment} (reachable : Reachable d) (step : Step d d') : Reachable d'

end Deployment

/-! ## The server -/

namespace Server

variable {s server : Server}

/-- A batch that is accepted and not empty is told to all clients. -/
theorem mutate_eq_ok {edits : List Edit} (hlisteners : s.model.listeners = [()])
    (h : s.mutate edits = .ok server) :
    (edits = [] ∧ server = s) ∨
      (edits ≠ [] ∧ applyBatch s.document edits = .ok server.document ∧
        server.model.listeners = [()] ∧ server.pump = s.pump.submit (.broadcast (delta edits))) := by
  cases edits with
  | nil =>
    cases h
    exact .inl ⟨rfl, rfl⟩
  | cons edit rest =>
    right
    cases happly : applyBatch s.model.document (edit :: rest) with
    | error e => simp [mutate, Model.mutate, happly, bind, Except.bind] at h
    | ok document =>
      have hmutate : s.mutate (edit :: rest) = .ok (({ s with model := { s.model with
          document, mutationCount := s.model.mutationCount + 1, dirty := true } } : Server).post
            (.broadcast (delta (edit :: rest)))) := by
        simp [mutate, Model.mutate, happly, hlisteners, bind, Except.bind, pure, Except.pure]
      rw [hmutate] at h
      cases h
      exact ⟨List.cons_ne_nil _ _, happly, hlisteners, rfl⟩

theorem enter_eq_some {info : ClientInfo} {n : Nat} (h : s.enter info = some (n, server)) :
    n = s.pump.queues.length ∧ server.model = s.model ∧ server.pump =
      (s.pump.openQueue s.settings.clientQueue).2.submit (.attach info n s.refresh) := by
  unfold enter at h
  split at h
  · cases h
    exact ⟨rfl, rfl, rfl⟩
  · cases h

theorem broadcast_eq_ok {value : Value} (h : s.broadcast value = .ok server) :
    server.model = s.model ∧ server.pump = s.pump.submit (.broadcast (.value value)) := by
  unfold broadcast at h
  split at h
  · cases h
    exact ⟨rfl, rfl⟩
  · cases h

/-- Closing tells the pump to shut down, the first time. -/
theorem close_cases (s : Server) : s.close.model = s.model ∧
    (s.close.pump = s.pump ∨ s.close.pump = s.pump.submit .shutdown) := by
  unfold close
  split
  · exact ⟨rfl, .inl rfl⟩
  · exact ⟨rfl, .inr rfl⟩

end Server

namespace Deployment

variable {d d' : Deployment}

/-! ## The documents of the model -/

/-- The model has the document that the batches lead to, and nothing else changes it. -/
structure Kept (d : Deployment) : Prop where
  listeners : d.server.model.listeners = [()]
  origin : (Value.object d.origin).IsCanonical
  accepted : ∀ edits ∈ d.accepted, ∀ edit ∈ edits, edit.IsCanonical
  document : d.server.document = d.history d.accepted.length

theorem Kept.congr (h : d.Kept) (hmodel : d'.server.model = d.server.model)
    (horigin : d'.origin = d.origin) (haccepted : d'.accepted = d.accepted) : d'.Kept where
  listeners := by rw [hmodel, h.listeners]
  origin := by
    rw [horigin]
    exact h.origin
  accepted := by
    rw [haccepted]
    exact h.accepted
  document := by
    have hdocument := h.document
    unfold Server.document history at hdocument ⊢
    rw [hmodel, horigin, haccepted, hdocument]

theorem setClient_eq (d : Deployment) (n : Nat) (reading : Reading SocketFrame) :
    d.setClient n reading = { d with clients := (d.setClient n reading).clients } := by
  unfold setClient
  split <;> rfl

/-- A batch that changes the model is the last one of its history. -/
theorem Kept.mutate (h : d.Kept) {edits : List Edit} {server : Server}
    (hcanonical : ∀ edit ∈ edits, edit.IsCanonical) (hok : d.server.mutate edits = .ok server) :
    Kept { d with
      server, accepted := if edits.isEmpty then d.accepted else d.accepted ++ [edits] } := by
  rcases Server.mutate_eq_ok h.listeners hok with ⟨rfl, rfl⟩ | ⟨hne, happly, hlisteners, -⟩
  · exact h
  · have hempty : edits.isEmpty = false := by simpa using hne
    simp only [hempty, Bool.false_eq_true, ↓reduceIte]
    refine ⟨hlisteners, h.origin, fun batch hbatch => ?_, ?_⟩
    · rcases List.mem_append.mp hbatch with hold | hnew
      · exact h.accepted batch hold
      · rw [List.mem_singleton.mp hnew]
        exact hcanonical
    · have hdocument := Document.applied_of_ok happly
      rw [h.document] at hdocument
      simp only [history, List.take_length] at hdocument ⊢
      rw [List.foldl_append, List.foldl_cons, List.foldl_nil, hdocument]

theorem Reachable.kept (h : d.Reachable) : d.Kept := by
  induction h with
  | initial settings canonical => exact ⟨rfl, canonical, nofun, rfl⟩
  | step _ step ih =>
    cases step with
    | mutate edits canonical ok => exact ih.mutate canonical ok
    | connect info c ok => exact ih.congr (Server.enter_eq_some ok).2.1 rfl rfl
    | broadcast ok other => exact ih.congr (Server.broadcast_eq_ok ok).1 rfl rfl
    | send client other => exact ih.congr rfl rfl rfl
    | leave client => exact ih.congr rfl rfl rfl
    | close => exact ih.congr (Server.close_cases _).1 rfl rfl
    | other model pump => exact ih.congr model rfl rfl
    | start idle next => exact ih.congr rfl rfl rfl
    | serve underway target => exact ih.congr rfl rfl rfl
    | finish underway decided => exact ih.congr rfl rfl rfl
    | read exists_ reader =>
      rw [setClient_eq]
      exact ih.congr rfl rfl rfl
    | hangUp n => exact ih.congr rfl rfl rfl

/-- Every document of the history has sorted objects. -/
theorem Kept.history_canonical (h : d.Kept) (k : Nat) :
    (Value.object (d.history k)).IsCanonical := by
  -- Whatever batches are applied, a batch that is refused leaves the document as it is.
  have happlied : ∀ (batches : List (List Edit)) (document : Document),
      (Value.object document).IsCanonical →
      (∀ edits ∈ batches, ∀ edit ∈ edits, edit.IsCanonical) →
        (Value.object (batches.foldl Document.applied document)).IsCanonical := by
    intro batches
    induction batches with
    | nil => exact fun _ hdocument _ => hdocument
    | cons edits rest ih =>
      intro document hdocument hbatches
      refine ih _ ?_ fun batch hbatch => hbatches batch (List.mem_cons_of_mem _ hbatch)
      unfold Document.applied
      split
      · next result happly =>
        exact applyBatch_regular hdocument (hbatches edits List.mem_cons_self) happly
      · exact hdocument
  exact happlied _ _ h.origin fun edits hedits => h.accepted edits (List.mem_of_mem_take hedits)

/-! ## The pump of a deployment -/

theorem account_append (d : Deployment) (server : Server) (entries : PumpRecord SocketFrame)
    (n : Nat) :
    account { d with server, record := d.record ++ entries } n =
      entries.foldl (Account.note n) (d.account n) :=
  PumpRecord.account_append _ _ _

/-- The pump of a deployment is run like any other. -/
theorem Reachable.runs (h : d.Reachable) : Pump.Runs d.pump d.record := by
  induction h with
  | initial settings canonical => exact .fresh
  | @step d d' reachable step ih =>
    -- What clients and owner ask of the server puts nothing on record.
    have asked : ∀ {server : Server} {p : Pump SocketFrame}, server.pump = p →
        Pump.Happens d.pump [] p → Pump.Runs server.pump d.record := by
      rintro server p rfl happens
      have hrun := ih.step happens
      rwa [List.append_nil] at hrun
    have unchanged : ∀ {server : Server}, server.pump = d.pump → Pump.Runs server.pump d.record := by
      intro server hpump
      rwa [hpump]
    cases step with
    | mutate edits canonical ok =>
      rcases Server.mutate_eq_ok reachable.kept.listeners ok with ⟨-, rfl⟩ | ⟨-, -, -, hpump⟩
      · exact ih
      · exact asked hpump (.broadcast _ _)
    | connect info c ok =>
      obtain ⟨rfl, -, hpump⟩ := Server.enter_eq_some ok
      exact asked hpump (.attach _ _ _ _)
    | broadcast ok other => exact asked (Server.broadcast_eq_ok ok).2 (.broadcast _ _)
    | send client other => exact asked rfl (.unicast _ client _)
    | leave client => exact asked rfl (.detach _ client)
    | close =>
      rcases (Server.close_cases d.server).2 with hpump | hpump
      · exact unchanged hpump
      · exact asked hpump (.shutdown _)
    | other model pump => exact unchanged pump
    | start idle next => exact ih.step (.start idle next)
    | serve underway target => exact ih.step (.serve underway target)
    | finish underway decided => exact ih.step (.finish underway decided)
    | read exists_ reader =>
      rw [setClient_eq]
      exact ih.step (.read exists_ reader)
    | hangUp n => exact ih.step (.hangUp _ n)

end Deployment

end LiveDoc
