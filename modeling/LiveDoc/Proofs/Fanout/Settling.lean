import LiveDoc.Proofs.Fanout.Invariant
import Mathlib.Data.List.Perm.Subperm

/-!
# LiveDoc — deciding deliveries keeps the invariant

The deliveries of a command are decided one by one, and when all are decided those leave the table
whose delivery failed. A client that lags behind a frame for all is evicted. A client that could not
get its refresh has no reader, since its queue is empty and has room, and so it leaves unnoticed.

* `Pump.SoundRound.settle` — a round with one delivery less.
* `Pump.Sound.serve` — a delivery is decided.
* `Pump.Sound.finish` — all deliveries are decided.
-/

namespace LiveDoc

variable {φ : Type}

/-! ## Rounds -/

namespace Round

variable {r : Round φ} {a b : Attachment} {n : Nat}

theorem targets_settle (r : Round φ) (a : Attachment) (delivery : Delivery) :
    (r.settle a delivery).targets = r.targets.erase a := rfl

/-- A client fails if it lags, or if it was to get its refresh and has no reader. -/
theorem mem_failed_settle {delivery : Delivery} :
    b ∈ (r.settle a delivery).failed ↔ b ∈ r.failed ∨
      (b = a ∧ (delivery = .lagging ∨ (r.isRefresh = true ∧ delivery = .closed))) := by
  unfold settle
  by_cases hfailed : delivery = .lagging ∨ (r.isRefresh = true ∧ delivery = .closed)
  · simp [hfailed]
  · simp [hfailed]

/-- Settling a target brings no one new into the round. -/
theorem settle_subperm (ha : a ∈ r.targets) (delivery : Delivery) :
    ((r.settle a delivery).targets ++ (r.settle a delivery).failed).Subperm
      (r.targets ++ r.failed) := by
  have hcons : r.targets.Perm (a :: r.targets.erase a) := List.perm_cons_erase ha
  -- The target has failed and moves over, or it is served and gone.
  have hmoved : (r.targets.erase a ++ (r.failed ++ [a])).Perm (r.targets ++ r.failed) := by
    rw [← List.append_assoc]
    exact (List.perm_append_singleton a _).trans (hcons.append_right r.failed).symm
  have hdropped : (r.targets.erase a ++ r.failed).Sublist (r.targets ++ r.failed) :=
    (List.erase_sublist).append_right _
  unfold settle
  dsimp only
  split
  · exact hmoved.subperm
  · exact hdropped.subperm

theorem owed_of_mem (ha : a ∈ r.targets) : owed (some r) a.queue = [r.frame] :=
  if_pos (List.mem_map_of_mem ha)

/-- When all deliveries are decided nothing is on its way. -/
theorem owed_of_decided (h : r.targets = []) (n : Nat) : owed (some r) n = [] := by
  simp [owed, h]

/-- A delivery that is decided changes nothing for the other targets. -/
theorem owed_settle_of_ne (ha : a ∈ r.targets) (hn : a.queue ≠ n) (delivery : Delivery) :
    owed (some (r.settle a delivery)) n = owed (some r) n := by
  have hmem : n ∈ (r.targets.erase a).map (·.queue) ↔ n ∈ r.targets.map (·.queue) := by
    rw [((List.perm_cons_erase ha).map (·.queue)).mem_iff]
    simp [Ne.symm hn]
  simp only [owed, targets_settle, hmem]
  rfl

/-- Who has failed stays among those who have. -/
theorem HasFailed.settle (h : HasFailed (some r) n) (a : Attachment) (delivery : Delivery) :
    HasFailed (some (r.settle a delivery)) n := by
  obtain ⟨r', hr', hmem⟩ := h
  cases hr'
  obtain ⟨b, hb, heq⟩ := List.mem_map.mp hmem
  exact ⟨_, rfl, List.mem_map.mpr ⟨b, mem_failed_settle.mpr (.inl hb), heq⟩⟩

/-- When the first of those who have failed leaves, the others have failed still. -/
theorem HasFailed.tail {rest : List Attachment} (h : HasFailed (some r) n)
    (hfailed : r.failed = a :: rest) (hne : a.queue ≠ n) :
    HasFailed (some { r with failed := rest }) n := by
  obtain ⟨r', hr', hmem⟩ := h
  cases hr'
  rw [hfailed] at hmem
  exact ⟨_, rfl, by simpa [Ne.symm hne] using hmem⟩

theorem hasFailed_settle_lagging (r : Round φ) (a : Attachment) :
    HasFailed (some (r.settle a .lagging)) a.queue :=
  ⟨_, rfl, List.mem_map_of_mem (mem_failed_settle.mpr (.inr ⟨rfl, .inl rfl⟩))⟩

end Round

namespace Pump

variable {p : Pump φ} {account : Nat → Account φ} {r : Round φ} {a : Attachment}

namespace SoundRound

/-- The queue of a target is no one else's in the round. -/
theorem queue_ne (h : p.SoundRound r) (ha : a ∈ r.targets) {b : Attachment}
    (hb : b ∈ r.targets.erase a ++ r.failed) : b.queue ≠ a.queue := by
  have hcons : (a :: (r.targets.erase a ++ r.failed)).Perm (r.targets ++ r.failed) :=
    ((List.perm_cons_erase ha).append_right r.failed).symm
  have hnodup := (hcons.map (·.queue)).nodup_iff.mpr h.nodup
  intro heq
  exact (List.nodup_cons.mp hnodup).1 (List.mem_map.mpr ⟨b, hb, heq⟩)

/-- A client whose delivery is not decided has not failed. -/
theorem not_hasFailed (h : p.SoundRound r) (ha : a ∈ r.targets) :
    ¬ Round.HasFailed (some r) a.queue := by
  rintro ⟨r', hr', hmem⟩
  cases hr'
  obtain ⟨b, hb, heq⟩ := List.mem_map.mp hmem
  exact h.queue_ne ha (List.mem_append_right _ hb) heq

theorem owed_settle_self (h : p.SoundRound r) (ha : a ∈ r.targets) (delivery : Delivery) :
    Round.owed (some (r.settle a delivery)) a.queue = [] := by
  refine if_neg fun hmem => ?_
  obtain ⟨b, hb, heq⟩ := List.mem_map.mp hmem
  exact h.queue_ne ha (List.mem_append_left _ hb) heq

theorem settle (h : p.SoundRound r) (ha : a ∈ r.targets) (hlt : a.queue < p.queues.length)
    (hcapacity : 0 < (p.queue a.queue).capacity) :
    (p.deliver a.queue r.frame).2.SoundRound
      (r.settle a ((p.queue a.queue).deliver r.frame).1) := by
  have hsub := Round.settle_subperm ha ((p.queue a.queue).deliver r.frame).1
  refine ⟨fun b hb => ?_, ?_, fun hrefresh b hb => ?_, fun hrefresh b hb => ?_⟩
  · rw [p.table_deliver hlt]
    exact h.attached b (hsub.subset hb)
  · obtain ⟨l, hperm, hsublist⟩ := hsub
    exact (hperm.map _).nodup_iff.mp (h.nodup.sublist (hsublist.map _))
  · rw [p.queue_deliver hlt, if_neg (h.queue_ne ha (List.mem_append_left _ hb)).symm]
    exact h.waiting_of_refresh hrefresh b (List.mem_of_mem_erase hb)
  · rw [p.hasReader_queue_deliver hlt]
    rcases Round.mem_failed_settle.mp hb with hold | ⟨rfl, hlag | ⟨-, hclosed⟩⟩
    · exact h.gone_of_refresh hrefresh b hold
    · -- A refresh cannot lag: its queue is empty and has room.
      have hroom : (p.queue b.queue).hasRoom = true := by
        simpa [Queue.hasRoom, h.waiting_of_refresh hrefresh b ha] using hcapacity
      exact absurd hlag (Queue.deliver_ne_lagging _ _ hroom)
    · exact (Queue.deliver_eq_closed_iff _ _).mp hclosed

end SoundRound

namespace Sound

/-! ## Deliveries -/

theorem serve_eq (hround : p.round = some r) (ha : a.queue < p.queues.length) :
    p.serve a = { (p.deliver a.queue r.frame).2 with
      round := some (r.settle a ((p.queue a.queue).deliver r.frame).1) } := by
  simp only [Pump.serve, hround, p.deliver_eq ha]

/-- The queue of the target got the frame, or it did not and the delivery has failed. -/
theorem agrees_target (h : p.Sound (some r) account) (ha : a ∈ r.targets) :
    (account a.queue).Agrees ((p.queue a.queue).deliver r.frame).2
      (Round.owed (some (r.settle a ((p.queue a.queue).deliver r.frame).1)) a.queue)
      (Round.HasFailed (some (r.settle a ((p.queue a.queue).deliver r.frame).1)) a.queue) := by
  have hr := h.underway r rfl
  have hclient := h.client_of_target rfl (List.mem_append_left _ ha)
  have hagrees := (h.agrees a.queue).weaken fun _ : ¬ False => hr.not_hasFailed ha
  rw [Round.owed_of_mem ha] at hagrees
  rw [hr.owed_settle_self ha]
  refine hagrees.deliver (by simp [hclient]) fun hlag => ?_
  rw [hlag]
  exact r.hasFailed_settle_lagging a

/-- Serving a target keeps the invariant: what was on its way is in the queue, or the client has
failed. -/
theorem serve (h : p.Sound (some r) account) (hround : p.round = some r) (ha : a ∈ r.targets) :
    (p.serve a).Sound (p.serve a).round account := by
  have hr := h.underway r rfl
  have hclient := h.client_of_target rfl (List.mem_append_left _ ha)
  have hlt : a.queue < p.queues.length := h.lt_length (by simp [hclient])
  rw [serve_eq hround hlt]
  have hsound : Sound (p.deliver a.queue r.frame).2
      (some (r.settle a ((p.queue a.queue).deliver r.frame).1)) account := by
    refine
      { registered := ?_
        absent := fun hn => h.absent (by rwa [p.length_deliver hlt] at hn)
        fresh := fun {info n refresh} hmem => ?_
        distinct := by
          rw [p.commands_deliver hlt]
          exact h.distinct
        underway := fun r' hr' => ?_
        agrees := fun n => ?_ }
    · rw [p.table_deliver hlt]
      exact h.registered.congr (fun _ => rfl) fun n hlive => by
        rwa [p.hasReader_queue_deliver hlt] at hlive
    · -- The queue of a target has an account, and one that still waits for its attachment has none.
      rw [p.commands_deliver hlt] at hmem
      obtain ⟨hn, hempty, hnil⟩ := h.fresh hmem
      have hne : a.queue ≠ n := by
        rintro rfl
        simp [hempty] at hclient
      rw [p.length_deliver hlt, p.queue_deliver hlt, if_neg hne]
      exact ⟨hn, hempty, hnil⟩
    · cases hr'
      exact hr.settle ha hlt (h.agrees a.queue).room
    · rw [p.queue_deliver hlt]
      by_cases hn : a.queue = n
      · subst hn
        rw [if_pos rfl]
        exact h.agrees_target ha
      · rw [if_neg hn, Round.owed_settle_of_ne ha hn]
        exact (h.agrees n).weaken fun hnot hfailed => hnot (hfailed.settle a _)
  exact hsound.setStats _ _ _

/-! ## Finishing -/

/-- The first of those whose delivery failed leaves the table. -/
theorem soundRound_of_erase {p' : Pump φ} {r : Round φ} {a : Attachment} {rest : List Attachment}
    (hr : p.SoundRound r) (hdecided : r.targets = []) (hfailed : r.failed = a :: rest)
    (htable : p'.table = KeyMap.erase p.table a.info.id)
    (hreader : ∀ n, (p'.queue n).hasReader = true → (p.queue n).hasReader = true) :
    p'.SoundRound { r with failed := rest } := by
  have hnodup : ((a :: rest).map (·.queue)).Nodup := by
    have h := hr.nodup
    rwa [hdecided, hfailed] at h
  have hmem : ∀ b ∈ a :: rest, b ∈ r.targets ++ r.failed := by
    intro b hb
    rw [hdecided, hfailed]
    exact hb
  refine ⟨fun b hb => ?_, ?_, fun _ b hb => ?_, fun hrefresh b hb => ?_⟩
  · have hb' : b ∈ rest := by simpa [hdecided] using hb
    have hget := hr.attached b (hmem b (List.mem_cons_of_mem _ hb'))
    -- Under one id the table would know one queue for both.
    have hne : a.info.id ≠ b.info.id := by
      intro heq
      have hget' := hr.attached a (hmem a List.mem_cons_self)
      rw [heq, hget] at hget'
      cases hget'
      exact (List.nodup_cons.mp hnodup).1 (List.mem_map_of_mem hb')
    rw [htable, KeyMap.get?_erase_of_ne _ hne, hget]
  · simpa [hdecided] using (List.nodup_cons.mp hnodup).2
  · simp [hdecided] at hb
  · have hgone := hr.gone_of_refresh hrefresh b (by rw [hfailed]; exact List.mem_cons_of_mem _ hb)
    by_contra hlive
    exact absurd (hreader _ (by simpa using hlive)) (by simp [hgone])

theorem evict {r : Round φ} {a : Attachment} {rest : List Attachment}
    (h : p.Sound (some r) account) (hdecided : r.targets = []) (hfailed : r.failed = a :: rest) :
    (p.evict a).Sound (some { r with failed := rest })
      fun n => (account n).note n (.evicted a.queue) := by
  have hr := h.underway r rfl
  have ha : a ∈ r.targets ++ r.failed := by simp [hfailed]
  have hget := hr.attached a ha
  have hclient := h.client_of_target rfl ha
  have hlt : a.queue < p.queues.length := h.lt_length (by simp [hclient])
  have hqueue : ∀ n, (p.evict a).queue n =
      if a.queue = n then (p.queue n).evict else p.queue n :=
    fun n => p.queue_updateQueue_of_lt hlt n _
  have hreader : ∀ n, ((p.evict a).queue n).hasReader = (p.queue n).hasReader := by
    intro n
    rw [hqueue]
    split <;> rfl
  refine h.erase rfl rfl (length_updateQueue ..) (fun n hn => ?_) (fun n hn hlive => ?_)
    (fun n hlive => (hreader n).symm.trans hlive) (fun n hnil => ?_) (fun r' hr' => ?_) fun n => ?_
  · have hne : a.queue ≠ n := by
      rintro rfl
      exact hn hclient
    simp [Account.note, hne]
  · -- Who has the id and a reader stands in the table, so it is the evicted one.
    rw [hreader] at hlive
    obtain ⟨b, hget', rfl⟩ := h.registered.find hn hlive
    rw [hget] at hget'
    cases hget'
    simp [Account.note, Account.cut]
  · rw [hqueue]
    split <;> exact hnil
  · cases hr'
    exact soundRound_of_erase hr hdecided hfailed rfl fun n hlive => (hreader n).symm.trans hlive
  · have hn := h.agrees n
    rw [Round.owed_of_decided hdecided] at hn
    rw [hqueue, Round.owed_of_decided (r := { r with failed := rest }) hdecided]
    simp only [Account.note]
    split
    · next heq =>
      subst heq
      exact hn.cut (Queue.frames_evict _) (fun _ => rfl) rfl _ _
    · next hne =>
      exact hn.weaken fun hnot hleft => hnot (hleft.tail hfailed hne)

/-- A client whose refresh could not be delivered has no reader, and leaves the table unnoticed. -/
theorem dismiss {r : Round φ} {a : Attachment} {rest : List Attachment}
    (h : p.Sound (some r) account) (hrefresh : r.isRefresh = true) (hdecided : r.targets = [])
    (hfailed : r.failed = a :: rest) :
    (p.detach a.info.id).Sound (some { r with failed := rest }) account := by
  have hr := h.underway r rfl
  have ha : a ∈ r.failed := by simp [hfailed]
  have hget := hr.attached a (List.mem_append_right _ ha)
  have hgone := hr.gone_of_refresh hrefresh a ha
  have hreader : ∀ n, ((p.detach a.info.id).queue n).hasReader = (p.queue n).hasReader := by
    intro n
    obtain ⟨hasWriter, heq⟩ := p.queue_detach a.info.id n
    rw [heq]
  refine h.erase (p.table_detach _) (p.commands_detach _) (p.length_detach _) (fun _ _ => rfl)
    (fun n hn hlive => ?_) (fun n hlive => (hreader n).symm.trans hlive) (fun n hnil => ?_)
    (fun r' hr' => ?_) fun n => ?_
  · -- No one with the id has a reader: the table knows only the one who is gone.
    rw [hreader] at hlive
    obtain ⟨b, hget', rfl⟩ := h.registered.find hn hlive
    rw [hget] at hget'
    cases hget'
    rw [hgone] at hlive
    cases hlive
  · obtain ⟨hasWriter, heq⟩ := p.queue_detach a.info.id n
    rwa [heq]
  · cases hr'
    exact soundRound_of_erase hr hdecided hfailed (p.table_detach _)
      fun n hlive => (hreader n).symm.trans hlive
  · obtain ⟨hasWriter, heq⟩ := p.queue_detach a.info.id n
    have hn := (h.agrees n).setWriter hasWriter
    rw [Round.owed_of_decided hdecided] at hn
    rw [heq, Round.owed_of_decided (r := { r with failed := rest }) hdecided]
    by_cases hne : a.queue = n
    · subst hne
      exact ⟨hn.prefix_due, fun hlive => absurd hlive (by simp [hgone]), hn.closing, hn.left,
        hn.room⟩
    · exact hn.weaken fun hnot hleft => hnot (hleft.tail hfailed hne)

/-- A frame that has reached all that it could is no longer on its way. -/
theorem close {r : Round φ} (h : p.Sound (some r) account) (hdecided : r.targets = [])
    (hfailed : r.failed = []) : p.Sound none account where
  registered := h.registered
  absent := h.absent
  fresh := h.fresh
  distinct := h.distinct
  underway := nofun
  agrees n := by
    have hn := h.agrees n
    rw [Round.owed_of_decided hdecided] at hn
    exact hn.weaken fun _ => Round.not_hasFailed_of_nil hfailed n

theorem foldl_evict {r : Round φ} (h : p.Sound (some r) account) (hdecided : r.targets = []) :
    (r.failed.foldl Pump.evict p).Sound none fun n =>
      (r.failed.map fun a => PumpEntry.evicted a.queue).foldl (Account.note n) (account n) := by
  -- Those who are still to leave make up the rest of the round.
  generalize hfailed : r.failed = failed
  induction failed generalizing p r account with
  | nil => exact h.close hdecided hfailed
  | cons a rest ih => exact ih (h.evict hdecided hfailed) hdecided rfl

/-- Clients that could not get their refresh leave the table, and no account is cut off. -/
theorem foldl_dismiss {r : Round φ} (h : p.Sound (some r) account) (hrefresh : r.isRefresh = true)
    (hdecided : r.targets = []) :
    (r.failed.foldl (fun p a => p.detach a.info.id) p).Sound none account := by
  generalize hfailed : r.failed = failed
  induction failed generalizing p r with
  | nil => exact h.close hdecided hfailed
  | cons a rest ih => exact ih (h.dismiss hrefresh hdecided hfailed) hrefresh hdecided rfl

/-- The end of a round keeps the invariant. -/
theorem finish {r : Round φ} (h : p.Sound (some r) account) (hround : p.round = some r)
    (hdecided : r.targets = []) :
    p.finish.Sound p.finish.round fun n =>
      (evictions r).foldl (Account.note n) (account n) := by
  have hopen := h.setStats p.stats p.running none
  simp only [Pump.finish, hround, evictions]
  cases hrefresh : r.isRefresh with
  | true =>
    simp only [↓reduceIte]
    rw [round_foldl_detach]
    exact hopen.foldl_dismiss hrefresh hdecided
  | false =>
    simp only [Bool.false_eq_true, ↓reduceIte]
    rw [round_foldl_evict]
    exact hopen.foldl_evict hdecided

end Sound

end Pump

end LiveDoc
