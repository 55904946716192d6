import LiveDoc.Proofs.Server.Order

/-!
# LiveDoc — replicas converge

Whatever a client had when it came, its refresh replaces it with a document of the model, and each
batch takes it on to the next. At every point the frames that the client has not handled, and those
that wait behind them in the pump, lead its replica to the very document that the model has now.

* `Deployment.Reachable.replica_converges` — where replicas are, and where they are led.
* `Client.foldl_take_eq_receive` — handling readable frames is handling their texts.
-/

namespace LiveDoc

open Json

/-! ## Clients -/

theorem Client.replica_foldl_take (c : Client) (frames : List SocketFrame) :
    (frames.foldl Client.take c).replica = frames.foldl Document.afterFrame c.replica := by
  induction frames generalizing c with
  | nil => rfl
  | cons f rest ih => rw [List.foldl_cons, List.foldl_cons, ih, replica_take]

/-- Handling readable frames is handling their texts. -/
theorem Client.foldl_take_eq_receive (c : Client) {frames : List SocketFrame}
    (h : ∀ f ∈ frames, f.IsReadable) :
    frames.foldl Client.take c = frames.foldl (fun c f => (c.receive f.encode).2) c := by
  induction frames generalizing c with
  | nil => rfl
  | cons f rest ih =>
    rw [List.foldl_cons, List.foldl_cons, c.take_eq_receive (h f List.mem_cons_self)]
    exact ih _ fun g hg => h g (List.mem_cons_of_mem _ hg)

/-- Frames that a client is still to handle lead its replica to a document, and so do their texts if
they are readable. -/
structure Client.IsLedTo (c : Client) (frames : List SocketFrame) (document : Document) : Prop where
  values : (frames.foldl Client.take c).replica = document
  texts : (∀ f ∈ frames, f.IsReadable) →
    (frames.foldl (fun c f => (c.receive f.encode).2) c).replica = document

theorem Client.isLedTo_of_foldl {c : Client} {frames : List SocketFrame} {document : Document}
    (h : frames.foldl Document.afterFrame c.replica = document) : c.IsLedTo frames document := by
  have hvalues : (frames.foldl Client.take c).replica = document := by
    rw [replica_foldl_take, h]
  refine ⟨hvalues, fun hreadable => ?_⟩
  rw [← c.foldl_take_eq_receive hreadable, hvalues]

namespace Deployment

variable {d : Deployment} {n : Nat}

/-- A client handles what it read, and all others handle nothing. -/
theorem clients_setClient {came : Client}
    (h : d.clients n = (d.account n).got.foldl Client.take came) (pump : Pump SocketFrame) (m : Nat)
    (reading : Reading SocketFrame) :
    ((d.setPump pump [.read m reading]).setClient m reading).clients n =
      ((d.setPump pump [.read m reading]).account n).got.foldl Client.take came := by
  have haccount : (d.setPump pump [.read m reading]).account n =
      if m = n then (d.account n).read reading else d.account n :=
    account_append ..
  rw [haccount]
  rcases reading with (f | -) | - | -
  · by_cases hmn : m = n
    · subst hmn
      simp [setClient, setPump, Account.read, h]
    · simpa [setClient, setPump, hmn, Ne.symm hmn] using h
  -- What is read otherwise is no frame.
  all_goals
    have hgot : ∀ acc : Account SocketFrame, acc.got = (d.account n).got →
        d.clients n = acc.got.foldl Client.take came := fun acc heq => heq ▸ h
    refine hgot _ ?_
    split <;> rfl

/-- A client has handled what it read since it came. -/
theorem Reachable.clients_eq (h : d.Reachable) (n : Nat) :
    ∃ came : Client, d.clients n = (d.account n).got.foldl Client.take came := by
  induction h with
  | initial settings canonical => exact ⟨{}, rfl⟩
  | @step d d' reachable step ih =>
    obtain ⟨came, hcame⟩ := ih
    -- Without a reading all is as it was.
    have unread : ∀ {server : Server} {entries : PumpRecord SocketFrame},
        (∀ queue reading, PumpEntry.read queue reading ∉ entries) →
          d.clients n = (account { d with server, record := d.record ++ entries } n).got.foldl
            Client.take came := by
      intro server entries hentries
      rw [account_append, (d.account n).got_foldl_note_of_unread n hentries]
      exact hcame
    cases step with
    | @connect info m server c ok =>
      by_cases hn : n = m
      · have hm := (Server.enter_eq_some ok).1
        have hempty : d.account n = {} :=
          reachable.runs.sound.absent (Nat.le_of_eq (hn.trans hm).symm)
        have hgot : ((d.join server m c).account n).got = [] := congrArg Account.got hempty
        refine ⟨c, ?_⟩
        rw [hgot]
        exact if_pos hn
      · exact ⟨came, (if_neg hn).trans hcame⟩
    | read exists_ reader =>
      refine ⟨came, (clients_setClient hcame _ _ _).trans ?_⟩
      rw [setClient_eq]
      rfl
    | start idle next =>
      refine ⟨came, unread fun queue reading hmem => ?_⟩
      split at hmem
      · cases List.mem_singleton.mp hmem
      · cases hmem
    | finish underway decided => exact ⟨came, unread (Pump.read_notMem_evictions _)⟩
    | serve underway target => exact ⟨came, unread nofun⟩
    | hangUp m => exact ⟨came, unread nofun⟩
    | mutate edits canonical ok => exact ⟨came, hcame⟩
    | broadcast ok other => exact ⟨came, hcame⟩
    | send client other => exact ⟨came, hcame⟩
    | leave client => exact ⟨came, hcame⟩
    | close => exact ⟨came, hcame⟩
    | other model pump => exact ⟨came, hcame⟩

/-! ## Replicas -/

/-- The refresh of a client makes its replica the document that the model had when it came. -/
theorem Kept.afterFrame_refreshOf (h : d.Kept) (n : Nat) (replica : Document) :
    replica.afterFrame (d.refreshOf n) = d.history (d.joined n) :=
  Document.afterFrame_refresh (h.history_canonical (d.joined n)) replica

/-- Batches that the model accepted take a replica from one of its documents to a later one. -/
theorem foldl_applied_history {k : Nat} {batches : List (List Edit)}
    (h : batches <+: d.accepted.drop k) :
    batches.foldl Document.applied (d.history k) = d.history (k + batches.length) := by
  have htake : batches = (d.accepted.drop k).take batches.length := List.prefix_iff_eq_take.mp h
  rw [history, history, List.take_add, List.foldl_append, ← htake]

/-- What a client has coming leads any replica to the document of the model. -/
theorem HasComing.converges {frames : List SocketFrame} {commands : List (PumpCommand SocketFrame)}
    (h : d.HasComing n frames commands) (hkept : d.Kept) (hjoined : d.joined n ≤ d.accepted.length)
    (replica : Document) :
    (frames ++ commands.filterMap PumpCommand.broadcast?).foldl Document.afterFrame replica =
      d.server.document := by
  obtain ⟨later, rfl, hbatches⟩ := h
  have hall : SocketFrame.batches (later ++ commands.filterMap PumpCommand.broadcast?) =
      d.accepted.drop (d.joined n) :=
    (SocketFrame.batches_append _ _).trans hbatches
  have hlength : d.joined n + (d.accepted.drop (d.joined n)).length = d.accepted.length := by
    rw [List.length_drop]
    omega
  rw [List.cons_append, List.foldl_cons, hkept.afterFrame_refreshOf, Document.foldl_afterFrames,
    hall, foldl_applied_history (List.prefix_refl _), hlength, hkept.document]

/-- What a client has handled is its refresh and batches after it, so that its replica is a document
of the model. -/
theorem Reachable.replica_eq_history (h : d.Reachable) (hread : (d.account n).got ≠ []) :
    d.joined n + (SocketFrame.batches (d.account n).got.tail).length ≤ d.accepted.length ∧
      (d.clients n).replica =
        d.history (d.joined n + (SocketFrame.batches (d.account n).got.tail).length) := by
  obtain ⟨came, hcame⟩ := h.clients_eq n
  have hprefix : (d.account n).got <+: (d.account n).due :=
    (List.prefix_append _ _).trans (h.runs.sound.agrees n).prefix_due
  obtain ⟨f, rest, hgot⟩ := List.exists_cons_of_ne_nil hread
  rcases h.ordered.handed n with hnone | ⟨later, hdue, hlater⟩
  · rw [hnone, hgot] at hprefix
    cases List.prefix_nil.mp hprefix
  · rw [hgot, hdue] at hprefix
    obtain ⟨rfl, hrest⟩ := List.cons_prefix_cons.mp hprefix
    -- Behind the refresh the client has read the first of the batches since.
    have hbatches : SocketFrame.batches rest <+: d.accepted.drop (d.joined n) :=
      (hrest.filterMap SocketFrame.edits?).trans hlater
    have hlength := hbatches.length_le
    rw [List.length_drop] at hlength
    have hjoined := h.ordered.joined_le n
    rw [hcame, hgot, List.tail_cons, Client.replica_foldl_take, List.foldl_cons,
      h.kept.afterFrame_refreshOf, Document.foldl_afterFrames, foldl_applied_history hbatches]
    exact ⟨by omega, rfl⟩

/-- A client of the table whose delivery has not failed has all of this coming: what is in its queue,
what is on its way, and what waits behind in the pump. -/
theorem Reachable.isLedTo_of_attached (h : d.Reachable) {id : String} {a : Attachment}
    (hget : KeyMap.get? d.pump.table id = some a) (hn : a.queue = n)
    (hreader : (d.pump.queue n).hasReader = true) (hfailed : ¬ Round.HasFailed d.pump.round n) :
    (d.clients n).IsLedTo
      ((d.pump.queue n).frames ++ Round.owed d.pump.round n ++ d.pump.backlog)
      d.server.document := by
  subst hn
  have hsound : d.pump.Sound d.pump.round d.account := h.runs.sound
  have hclient : (d.account a.queue).client = some id := hsound.registered.client_eq hget
  have hattached : (d.account a.queue).client ≠ none := by simp [hclient]
  have hcut : (d.account a.queue).isCutOff = false := by
    cases hcut : (d.account a.queue).isCutOff with
    | false => rfl
    | true => exact absurd ((hsound.agrees a.queue).left hcut) hattached
  have hdue := (hsound.agrees a.queue).complete hreader hcut hfailed
  obtain ⟨came, hcame⟩ := h.clients_eq a.queue
  have hcoming := (h.ordered.attached hattached).converges h.kept (h.ordered.joined_le a.queue)
    came.replica
  -- What was handled and what is still to come are all that is due to the client.
  refine Client.isLedTo_of_foldl ?_
  calc
    _ = ((d.account a.queue).got ++ (d.pump.queue a.queue).frames ++
          Round.owed d.pump.round a.queue ++ d.pump.backlog).foldl Document.afterFrame
            came.replica := by
      rw [hcame, Client.replica_foldl_take, ← List.foldl_append]
      simp only [List.append_assoc]
    _ = ((d.account a.queue).due ++ d.pump.backlog).foldl Document.afterFrame came.replica := by
      rw [hdue]
    _ = d.server.document := hcoming

/-- A client whose attachment waits has its refresh coming, and what waits behind it. -/
theorem Reachable.isLedTo_of_queued (h : d.Reachable) (hrunning : d.pump.running = true)
    {before after : List (PumpCommand SocketFrame)} {info : ClientInfo} {refresh : SocketFrame}
    (hqueued : d.pump.commands = before ++ .attach info n refresh :: after) :
    (d.clients n).IsLedTo (refresh :: after.filterMap PumpCommand.broadcast?) d.server.document :=
  Client.isLedTo_of_foldl
    ((h.ordered.queued hrunning hqueued).converges h.kept (h.ordered.joined_le n) _)

/-- Replicas converge. The frames in the queue of a client that is attached, and whose delivery has
not failed, and then what waits behind in the pump lead its replica to the document of the model; so
do the refresh of a client whose attachment still waits and what waits behind it. From its refresh on
the replica of every client is a document that the model had, one batch further with each batch that
was read. What the client is otherwise follows from how it came and what it read. -/
theorem Reachable.replica_converges (h : d.Reachable) (n : Nat) :
    (∀ id a, KeyMap.get? d.pump.table id = some a → a.queue = n →
      (d.pump.queue n).hasReader = true → ¬ Round.HasFailed d.pump.round n →
        (d.clients n).IsLedTo
          ((d.pump.queue n).frames ++ Round.owed d.pump.round n ++ d.pump.backlog)
          d.server.document) ∧
      (∀ before info refresh after,
        d.pump.commands = before ++ .attach info n refresh :: after → d.pump.running = true →
          (d.clients n).IsLedTo (refresh :: after.filterMap PumpCommand.broadcast?)
            d.server.document) ∧
      ((d.account n).got ≠ [] →
        d.joined n + (SocketFrame.batches (d.account n).got.tail).length ≤ d.accepted.length ∧
          (d.clients n).replica =
            d.history (d.joined n + (SocketFrame.batches (d.account n).got.tail).length)) ∧
      d.server.document = d.history d.accepted.length ∧
      ∃ came : Client, d.clients n = (d.account n).got.foldl Client.take came ∧
        ((∀ f ∈ (d.account n).got, f.IsReadable) →
          d.clients n = (d.account n).got.foldl (fun c f => (c.receive f.encode).2) came) := by
  refine ⟨fun id a hget hn hreader hfailed => h.isLedTo_of_attached hget hn hreader hfailed,
    fun before info refresh after hqueued hrunning => h.isLedTo_of_queued hrunning hqueued,
    h.replica_eq_history, h.kept.document, ?_⟩
  obtain ⟨came, hcame⟩ := h.clients_eq n
  exact ⟨came, hcame, fun hreadable => hcame.trans (came.foldl_take_eq_receive hreadable)⟩

/-- A client comes to a document with a member and a stale replica. While its refresh waits in its
queue the model drops the member, and the client has the empty document coming. -/
theorem exists_stale_client : ∃ d : Deployment, d.Reachable ∧
    (d.clients 0).replica = [("b", .null)] ∧ (d.pump.queue 0).frames.length = 1 ∧
    d.pump.backlog = [Server.delta [.clear]] ∧
    (((d.pump.queue 0).frames ++ d.pump.backlog).foldl Client.take (d.clients 0)).replica = [] := by
  have hcanonical : (Value.object [("a", .null)]).IsCanonical :=
    Value.every_object.mpr ⟨List.pairwise_singleton _ _, by simp⟩
  have hclear : ∀ edit ∈ [Edit.clear], edit.IsCanonical := by
    intro edit hedit v hv
    rw [List.mem_singleton.mp hedit] at hv
    cases hv
  have fresh := Reachable.initial {} hcanonical
  have came := fresh.step (.connect { id := "a" } { replica := [("b", .null)] } rfl)
  have started := came.step (.start rfl rfl)
  have served := started.step
    (.serve (a := { info := { id := "a" }, queue := 0 }) rfl (List.Mem.head _))
  have attached := served.step (.finish rfl rfl)
  have mutated := attached.step (.mutate [.clear] hclear rfl)
  have hnone := Round.not_hasFailed_none (φ := SocketFrame) 0
  have led := (mutated.replica_converges 0).1 "a" _ rfl rfl rfl hnone
  exact ⟨_, mutated, rfl, rfl, rfl, led.values⟩

end Deployment

end LiveDoc
