import LiveDoc.Proofs.Edit.Regular
import LiveDoc.Proofs.Fanout.Erasure
import LiveDoc.Proofs.Server.Deployment
import LiveDoc.Proofs.Server.Stamps
import LiveDoc.Proofs.Supervisor.Lines

/-!
# LiveDoc — replies and the model

What a backend changes and what it replies go different ways: a batch is applied to the model and
told to all, a reply is sent to one client. Both pass through the pump, which takes one command after
the other, and then through the queue of the client. `StampedServer` follows them: beside the server
it has a pump with the same commands and queues, where every frame is stamped with the document that
the model had when the frame was submitted.

* `StampedServer.Step`, `StampedServer.Reachable` — what may happen.
* `StampedServer.server_hear` — stamped or not, a server does the same.
* `Supervisor.isProper_of_mem_hear` — what may be handed on of a line.
-/

namespace LiveDoc

open Json

structure StampedServer where
  server : Server
  -- The pump of the server, its frames stamped.
  pump : Pump Stamped := {}
  -- The client that reads the queue with a number.
  clients : Nat → Client := fun _ => {}
  deriving Inhabited

/-- The pump begins with its next command, if one waits. -/
def Pump.begin {φ : Type} (p : Pump φ) : Pump φ :=
  match p.commands with
  | [] => p
  | command :: rest => { p with commands := rest }.start command

theorem Pump.map_begin {φ ψ : Type} (f : φ → ψ) (p : Pump φ) : p.begin.map f = (p.map f).begin := by
  unfold begin
  cases hcommands : p.commands with
  | nil => simp [map, hcommands]
  | cons command rest =>
    simp only [map_start]
    simp [map, hcommands]

namespace StampedServer

/-! ## What is done at the server -/

/-- A command is submitted, at a server that is otherwise changed. -/
def submit (t : StampedServer) (server : Server) (command : PumpCommand Stamped) : StampedServer :=
  { t with server, pump := t.pump.submit command }

/-- The batch has led to a new document, which is told to all clients. -/
def mutated (t : StampedServer) (edits : List Edit) (server : Server) : StampedServer :=
  if edits.isEmpty then { t with server }
  else t.submit server (.broadcast ⟨Server.delta edits, server.document⟩)

def send (t : StampedServer) (client : String) (f : SocketFrame) : StampedServer :=
  t.submit (t.server.send client f) (.unicast client ⟨f, t.server.document⟩)

/-- What is handed on to the server is done. -/
def perform (t : StampedServer) : Relay → StampedServer
  | .mutate edits =>
    match t.server.mutate edits with
    | .ok server => t.mutated edits server
    | .error _ => t
  | .send client message => t.send client (.message message)
  | relay => { t with server := t.server.perform relay }

/-- A client comes in, with whatever replica it has. -/
def join (t : StampedServer) (info : ClientInfo) (server : Server) (n : Nat) (c : Client) :
    StampedServer where
  server
  pump := (t.pump.openQueue t.server.settings.clientQueue).2.submit
    (.attach info n ⟨t.server.refresh, t.server.document⟩)
  clients k := if k = n then c else t.clients k

/-- The pump goes on, with stamps and without. -/
def setPump (t : StampedServer) (real : Pump SocketFrame) (pump : Pump Stamped) : StampedServer :=
  { t with server := { t.server with pump := real }, pump }

/-- A client handles what it reads. -/
def handle (t : StampedServer) (n : Nat) : Reading SocketFrame → StampedServer
  | .item (.frame f) =>
    { t with clients := fun k => if k = n then (t.clients n).take f else t.clients k }
  | _ => t

/-! ## What may happen -/

inductive Step : StampedServer → StampedServer → Prop where
  -- The supervisor hears a line of its child, and hands on what is in it.
  | hear {t : StampedServer} (s : Supervisor) {c : Child} (text : String)
      (established : c.phase = .established) (there : c.isGone = false) :
      Step t ((s.hear c text).relays.foldl perform t)
  -- The model is changed otherwise.
  | mutate {t : StampedServer} (edits : List Edit) {server : Server}
      (canonical : ∀ edit ∈ edits, edit.IsCanonical) (ok : t.server.mutate edits = .ok server) :
      Step t (t.mutated edits server)
  | connect {t : StampedServer} (info : ClientInfo) {n : Nat} {server : Server} (c : Client)
      (ok : t.server.enter info = some (n, server)) : Step t (t.join info server n c)
  -- A value that is no batch is sent to all clients.
  | broadcast {t : StampedServer} {value : Value} {server : Server}
      (ok : t.server.broadcast value = .ok server)
      (other : (SocketFrame.value value).edits? = none) :
      Step t (t.submit server (.broadcast ⟨.value value, t.server.document⟩))
  -- A frame that carries no batch is sent to one client.
  | send {t : StampedServer} (client : String) {f : SocketFrame} (other : f.edits? = none) :
      Step t (t.send client f)
  -- The socket of a client closes.
  | leave (t : StampedServer) (client : String) :
      Step t (t.submit (t.server.leave client) (.detach client))
  | close {t : StampedServer} (running : t.server.isClosed = false) :
      Step t (t.submit t.server.close .shutdown)
  -- The server does what concerns neither the model nor the pump.
  | other {t : StampedServer} {server : Server} (model : server.model = t.server.model)
      (pump : server.pump = t.server.pump) : Step t { t with server }
  -- The pump begins with its next command.
  | start {t : StampedServer} (idle : t.server.pump.round = none) :
      Step t (t.setPump t.server.pump.begin t.pump.begin)
  -- A delivery is decided.
  | serve {t : StampedServer} {r : Round SocketFrame} {a : Attachment}
      (underway : t.server.pump.round = some r) (target : a ∈ r.targets) :
      Step t (t.setPump (t.server.pump.serve a) (t.pump.serve a))
  -- All deliveries of a command are decided.
  | finish {t : StampedServer} {r : Round SocketFrame} (underway : t.server.pump.round = some r)
      (decided : r.targets = []) : Step t (t.setPump t.server.pump.finish t.pump.finish)
  -- A client reads what comes next, and handles it.
  | read {t : StampedServer} {n : Nat} (opened : n < t.server.pump.queues.length)
      (reader : (t.server.pump.queue n).hasReader) :
      Step t ((t.setPump (t.server.pump.read n).2 (t.pump.read n).2).handle n
        (t.server.pump.read n).1)
  -- A client goes away.
  | hangUp (t : StampedServer) (n : Nat) :
      Step t (t.setPump (t.server.pump.hangUp n) (t.pump.hangUp n))

/-- What is reached from a server that was just set up. -/
inductive Reachable : StampedServer → Prop where
  | initial (settings : Settings.Server) {document : Document}
      (canonical : (Value.object document).IsCanonical) :
      Reachable { server := Server.ofModel settings (.ofDocument document) }
  | step {t t' : StampedServer} (reachable : Reachable t) (step : Step t t') : Reachable t'

/-! ## The server without stamps -/

variable {t t' : StampedServer}

@[simp] theorem server_mutated (t : StampedServer) (edits : List Edit) (server : Server) :
    (t.mutated edits server).server = server := by
  unfold mutated
  split <;> rfl

/-- The server does what is handed on to it. -/
theorem server_perform (t : StampedServer) (relay : Relay) :
    (t.perform relay).server = t.server.perform relay := by
  cases relay with
  | mutate edits =>
    rw [perform, Server.perform]
    cases t.server.mutate edits with
    | ok server => exact t.server_mutated edits server
    | error _ => rfl
  | _ => rfl

theorem server_foldl_perform (t : StampedServer) (relays : List Relay) :
    (relays.foldl perform t).server = relays.foldl Server.perform t.server := by
  induction relays generalizing t with
  | nil => rfl
  | cons relay rest ih => rw [List.foldl_cons, List.foldl_cons, ih, server_perform]

/-- The server does what its supervisor hands on of a line. -/
theorem server_hear (t : StampedServer) (s : Supervisor) (c : Child) (text : String) :
    ((s.hear c text).relays.foldl perform t).server = t.server.handed (s.hear c text) :=
  t.server_foldl_perform _

end StampedServer

/-! ## What the supervisor hands on -/

/-- Batches hold sorted objects, and what is sent to one client is no batch. -/
def Relay.IsProper : Relay → Prop
  | .mutate edits => ∀ edit ∈ edits, edit.IsCanonical
  | .send _ message => (SocketFrame.message message).edits? = none
  | _ => True

/-- A reply carries no batch. -/
theorem SocketFrame.edits?_rpcResponse (r : RpcResponse) :
    (SocketFrame.message (.rpcResponse r)).edits? = none := by
  unfold edits?
  cases hparse : Message.parse (Message.rpcResponse r).toValue with
  | error e => simp [value?, hparse]
  | ok read =>
    have htag := Message.tag_of_parse_toValue (by simp [Message.freeMembers]) hparse
    cases read <;> simp_all [value?, Message.tag]

theorem Relay.isProper_of_mem {m : Message} (hm : m.IsCanonical) {relay : Relay}
    (h : relay ∈ ofMessage m) : relay.IsProper := by
  cases m with
  | apply edits =>
    rw [List.mem_singleton.mp h]
    exact hm
  | rpcResponse r =>
    rw [ofMessage, Option.mem_toList] at h
    obtain ⟨client, -, rfl⟩ := Option.map_eq_some_iff.mp h
    exact SocketFrame.edits?_rpcResponse r
  | authVerdict v =>
    rw [List.mem_singleton.mp h, ofVerdict]
    split <;> trivial
  | apiResponse r =>
    rw [List.mem_singleton.mp h]
    trivial
  | log lines =>
    obtain ⟨line, -, rfl⟩ := List.mem_map.mp h
    trivial
  | _ => cases h

/-- What a supervisor hands on of a line is proper, as everything is that is read. -/
theorem Supervisor.isProper_of_mem_hear {s : Supervisor} {c : Child} {text : String}
    (hphase : c.phase = .established) (hgone : c.isGone = false) {relay : Relay}
    (h : relay ∈ (s.hear c text).relays) : relay.IsProper := by
  rw [relays_hear hphase hgone] at h
  unfold Child.report at h
  split at h
  · cases h
  · split at h
    · next m hread => exact Relay.isProper_of_mem (isCanonical_of_parseLine hread) h
    · cases h

end LiveDoc
