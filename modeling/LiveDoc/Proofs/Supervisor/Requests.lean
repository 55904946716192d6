import LiveDoc.Proofs.Message.Frames
import LiveDoc.Proofs.Supervisor.Lines
import LiveDoc.Proofs.Supervisor.Channels

/-!
# LiveDoc — requests find the backend or an answer

Calls of clients, upgrades to decide on and HTTP requests are for the backend. Where none runs, the
supervisor answers in its place: a call fails, and an upgrade and an HTTP request are told that
there is no backend. Where one runs, the request becomes a line for the child. Whether the line is
queued is not looked at, and it is not when the child has closed its channel and lives on: such a
request is neither forwarded nor answered.

* `ServerEvent.BecomesLine`, `Server.answerInPlace` — what is to become of a request.
* `SupervisorChannels.Reachable.forwards_or_answers` — what becomes of it, in every state that may
  come.
* `SupervisorChannels.exists_request_lost` — a request that nothing becomes of.
-/

namespace LiveDoc

open Json

/-! ## What is to become of a request -/

namespace ServerEvent

/-- The event is a call of a client, an upgrade to decide on, or an HTTP request. -/
def isRequest : ServerEvent → Bool
  | .incoming payload _ => Message.claimedTag? payload = some "rpc_request"
  | .authRequest _ | .apiRequest _ => true
  | _ => false

/-- The line with the message of a request; with a call goes what is known of its client. -/
inductive BecomesLine : ServerEvent → ChannelFrame → Prop where
  | call (payload : Value) (origin : MessageMeta) :
    BecomesLine (.incoming payload origin) { message := payload, origin := some origin }
  | upgrade (r : AuthRequest) :
    BecomesLine (.authRequest r) { message := (Message.authRequest r).toValue }
  | http (r : ApiRequest) :
    BecomesLine (.apiRequest r) { message := (Message.apiRequest r).toValue }

end ServerEvent

/-- The answer that a request gets in the place of the backend: one failure, sent to the client that
called and with the id of its call, or a refusal of that upgrade or of that HTTP request. -/
def Server.answerInPlace (s : Server) : ServerEvent → Server
  | .incoming payload origin =>
    s.post (.unicast origin.client (.message (.rpcResponse {
      id := ((payload.member? "rpcId").bind Value.text?).getD ""
      client := some origin.client
      error := some "Backend is not running"
      function := (payload.member? "fnName").bind Value.text? })))
  | .authRequest r => s.reject r.client { status := 503, error := "Backend is not running" }
  | .apiRequest r =>
    (s.respond {
      id := r.id
      status := 503
      body := .object [("error", .string "Backend is not running")] }).2
  | _ => s

/-! ## What a supervisor does about it -/

namespace Supervisor

variable {s : Supervisor} {event : ServerEvent}

theorem handleServer_of_running (hrequest : event.isRequest = true) (hrunning : s.state = .running)
    {generation : Nat} (hchild : s.child = some generation) :
    ∃ frame, event.BecomesLine frame ∧ s.handleServer event = ([.write generation frame], s) := by
  have hforward (frame : ChannelFrame) : s.forward frame = ([.write generation frame], s) := by
    rw [forward, hchild, hrunning]
  rw [handleServer, if_pos hrunning]
  cases event with
  | incoming payload origin =>
    have htag : Message.claimedTag? payload = some "rpc_request" := of_decide_eq_true hrequest
    exact ⟨_, .call payload origin, by simp [Relay.frame?, htag, hforward]⟩
  | authRequest r => exact ⟨_, .upgrade r, hforward _⟩
  | apiRequest r => exact ⟨_, .http r, hforward _⟩
  | _ => cases hrequest

theorem handleServer_of_not_running (hrequest : event.isRequest = true)
    (hrunning : s.state ≠ .running) :
    ∃ relay, (∀ server : Server, server.perform relay = server.answerInPlace event) ∧
      s.handleServer event = ([.relay relay], s) := by
  rw [handleServer, if_neg hrunning]
  cases event with
  | incoming payload origin =>
    have htag : Message.claimedTag? payload = some "rpc_request" := of_decide_eq_true hrequest
    exact ⟨Relay.refuseCall payload origin, fun _ => rfl, by simp [Relay.refuse, htag]⟩
  | authRequest r => exact ⟨_, fun _ => rfl, rfl⟩
  | apiRequest r => exact ⟨_, fun _ => rfl, rfl⟩
  | _ => cases hrequest

end Supervisor

/-! ## What becomes of it -/

namespace SupervisorChannels

variable {s : SupervisorChannels} {event : ServerEvent}

/-- What the supervisor does about an event of the server leaves its own state as it is. -/
theorem handle_server {effect : SupervisorEffect}
    (h : s.tracked.supervisor.handleServer event = ([effect], s.tracked.supervisor))
    (hquiet : ∀ generation, effect ≠ .spawned generation) :
    s.handle none (.server event) = s.enqueue effect := by
  have hstep : s.tracked.supervisor.step none (.server event) =
      ([effect], s.tracked.supervisor) := h
  have hspawns : ∀ generation, .spawned generation ∉ [effect] := fun generation hmem =>
    hquiet generation (List.mem_singleton.mp hmem).symm
  have hnext : s.tracked.next none (.server event) = s.tracked := by
    rw [TrackedSupervisor.next, TrackedSupervisor.effects, hstep,
      TrackedSupervisor.foldl_notice_of_quiet hspawns]
    rfl
  rw [handle, TrackedSupervisor.effects, hstep, hnext]
  rfl

/-- What becomes of a request, in every state that may come. Where no backend runs it is answered in
its place, once, and no line is queued. Where one runs, no answer is given: the line is queued for
the child that runs if the channel of this child is open, and if the child has closed it, nothing is
done at all. -/
theorem Reachable.forwards_or_answers (h : s.Reachable) (hrequest : event.isRequest = true) :
    (s.handle none (.server event)).tracked = s.tracked ∧
      (s.tracked.supervisor.state ≠ .running →
        (s.handle none (.server event)).lines = s.lines ∧
          ∃ relay, s.tracked.effects none (.server event) = [.relay relay] ∧
            ∀ server : Server, server.perform relay = server.answerInPlace event) ∧
      (s.tracked.supervisor.state = .running →
        ∃ generation frame, s.tracked.supervisor.child = some generation ∧
          s.tracked.reporting generation = .talking ∧ event.BecomesLine frame ∧
          s.tracked.effects none (.server event) = [.write generation frame] ∧
          ((s.channel generation).phase = .established ∧
              (s.handle none (.server event)).lines =
                Function.update s.lines generation (s.lines generation ++ [frame]) ∨
            (s.channel generation).phase = .finished ∧
              (s.handle none (.server event)).lines = s.lines)) := by
  by_cases hrunning : s.tracked.supervisor.state = .running
  · obtain ⟨generation, hchild, htalking, hphase⟩ := h.sound.running hrunning
    obtain ⟨frame, hframe, hturn⟩ :=
      Supervisor.handleServer_of_running hrequest hrunning hchild
    have heffects : s.tracked.effects none (.server event) = [.write generation frame] :=
      congrArg Prod.fst hturn
    rw [handle_server hturn (by simp)]
    refine ⟨(foldl_enqueue s [.write generation frame]).1, fun h => absurd hrunning h, fun _ =>
      ⟨generation, frame, hchild, htalking, hframe, heffects, ?_⟩⟩
    cases hchannel : (s.channel generation).phase with
    | awaited => exact absurd hchannel hphase
    | established => exact .inl ⟨rfl, lines_enqueue_write hchannel⟩
    | finished => exact .inr ⟨rfl, by rw [enqueue_write_of_finished hchannel]⟩
  · obtain ⟨relay, hrelay, hturn⟩ := Supervisor.handleServer_of_not_running hrequest hrunning
    rw [handle_server hturn (by simp)]
    exact ⟨rfl, fun _ => ⟨rfl, relay, congrArg Prod.fst hturn, hrelay⟩,
      fun h => absurd h hrunning⟩

/-! ## Requests while a backend runs -/

/-- A backend is started, and says that it is ready. -/
theorem exists_running : ∃ s : SupervisorChannels,
    s.Reachable ∧ s.tracked.supervisor.state = .running ∧
    s.tracked.supervisor.child = some 1 ∧ s.tracked.reporting 1 = .talking ∧
    s.channel 1 = { phase := .established } ∧ s.lines 1 = [] := by
  let started : SupervisorChannels := ({} : SupervisorChannels).handle none (.command (.start "s"))
  have hstarted : started.Reachable := (Reachable.initial 30000).step (.command none (.start "s"))
  have hline : (started.channel 1).step (.line Message.ready.line) =
      ([.ready], { phase := .established }) := by
    show ({} : Child).step (.line Message.ready.line) = _
    simp [Child.step, Child.line, parseLine_ready]
  have hgreeted := hstarted.step (.meets 1 (by decide) (.line Message.ready.line))
  have hreported : (started.meet 1 (.line Message.ready.line)).reports 1 = [.ready] := by
    rw [reports_meet_self, hline]
    rfl
  have hready := hgreeted.step (.reports 1 hreported none)
  refine ⟨_, hready, rfl, rfl, rfl, ?_, rfl⟩
  simp only [channel_handle, channel_meet_self, hline]

/-- A backend runs, and takes the line of an HTTP request. -/
theorem forwards_or_answers_running : ∃ s : SupervisorChannels, s.Reachable ∧
    ServerEvent.isRequest (.apiRequest { id := "r", method := "GET", path := "/" }) = true ∧
    s.tracked.supervisor.state = .running ∧
    ∃ frame, (s.handle none
      (.server (.apiRequest { id := "r", method := "GET", path := "/" }))).lines 1 = [frame] := by
  obtain ⟨s, hs, hrunning, hchild, -, hchannel, hlines⟩ := exists_running
  have hrequest :
      ServerEvent.isRequest (.apiRequest { id := "r", method := "GET", path := "/" }) = true := rfl
  obtain ⟨-, -, hforwards⟩ := hs.forwards_or_answers hrequest
  obtain ⟨generation, frame, hgeneration, -, -, -, hline⟩ := hforwards hrunning
  obtain rfl : 1 = generation := Option.some.inj (hchild.symm.trans hgeneration)
  rw [hchannel] at hline
  rcases hline with ⟨-, hline⟩ | ⟨hphase, -⟩
  · exact ⟨s, hs, hrequest, hrunning, frame, by rw [hline, Function.update_self, hlines]; rfl⟩
  · cases hphase

/-- A backend that runs closes its channel and lives on. The next request is neither forwarded nor
answered, whatever it is. -/
theorem exists_request_lost : ∃ s : SupervisorChannels, s.Reachable ∧
    s.tracked.supervisor.state = .running ∧ s.tracked.reporting 1 = .talking ∧
    s.channel 1 = { phase := .finished } ∧
    ∀ event, event.isRequest = true → s.handle none (.server event) = s ∧
      ∀ server : Server, server.handed (s.tracked.supervisor.handleServer event) = server := by
  obtain ⟨s, hs, hrunning, hchild, htalking, hchannel, -⟩ := exists_running
  have hpresent : s.tracked.reporting 1 ≠ .absent := by rw [htalking]; decide
  have hclosed := hs.step (.meets 1 hpresent .hangUp)
  have hphase : (s.meet 1 .hangUp).channel 1 = { phase := .finished } := by
    rw [channel_meet_self, hchannel]
    rfl
  refine ⟨_, hclosed, hrunning, htalking, hphase, fun event hrequest => ?_⟩
  obtain ⟨frame, -, hturn⟩ := Supervisor.handleServer_of_running
    (s := (s.meet 1 .hangUp).tracked.supervisor) hrequest hrunning hchild
  have hlost : (s.meet 1 .hangUp).enqueue (.write 1 frame) = s.meet 1 .hangUp :=
    enqueue_write_of_finished (congrArg Child.phase hphase)
  refine ⟨(handle_server hturn (by simp)).trans hlost, fun server => ?_⟩
  rw [hturn]
  rfl

end SupervisorChannels

end LiveDoc
