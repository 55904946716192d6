import LiveDoc.Proofs.Fanout.Account

/-!
# LiveDoc — a queue and its account

What was read from a queue and what waits in it is a prefix of what was due. While its reader is
there and the pump has not given up on it, only the frames that are on their way are missing. Each
effect on a queue keeps this together with what it puts on record.

* `Account.Agrees` — the account of a queue agrees with the queue.
* `Account.Agrees.deliver` — a delivery adds the frame that was on its way, or nothing any more.
-/

namespace LiveDoc.Account

variable {φ : Type}

/-- The account of a queue agrees with the queue, with the frames that are on their way to it and
whether a delivery to it has failed. -/
structure Agrees (acc : Account φ) (q : Queue φ) (owed : List φ) (hasFailed : Prop) : Prop where
  prefix_due : acc.got ++ q.frames <+: acc.due
  complete : q.hasReader = true → acc.isCutOff = false → ¬ hasFailed →
    acc.got ++ q.frames ++ owed = acc.due
  closing : q.hasReader = true → acc.mustClose = true → q.closing = true
  left : acc.isCutOff = true → acc.client = none
  room : 0 < q.capacity

variable {acc : Account φ} {q : Queue φ} {owed : List φ} {hasFailed : Prop}

theorem agrees_empty (hframes : q.frames = []) (hroom : 0 < q.capacity) :
    Agrees {} q [] hasFailed where
  prefix_due := by simp [hframes]
  complete _ _ _ := by simp [hframes]
  closing _ h := by simp at h
  left h := by simp at h
  room := hroom

namespace Agrees

theorem weaken (h : Agrees acc q owed hasFailed) {hasFailed' : Prop}
    (hfailed : ¬ hasFailed' → ¬ hasFailed) : Agrees acc q owed hasFailed' :=
  ⟨h.prefix_due, fun hreader hcut hnot => h.complete hreader hcut (hfailed hnot), h.closing,
    h.left, h.room⟩

/-- Whether a queue has a writer does not matter. -/
theorem setWriter (h : Agrees acc q owed hasFailed) (hasWriter : Bool) :
    Agrees acc { q with hasWriter } owed hasFailed :=
  ⟨h.prefix_due, h.complete, h.closing, h.left, h.room⟩

theorem leave (h : Agrees acc q owed hasFailed) : Agrees acc.leave q owed hasFailed :=
  ⟨h.prefix_due, h.complete, h.closing, fun _ => rfl, h.room⟩

theorem hangUp (h : Agrees acc q owed hasFailed) : Agrees acc q.hangUp owed hasFailed where
  prefix_due := by
    rw [Queue.frames_hangUp, List.append_nil]
    exact (List.prefix_append _ _).trans h.prefix_due
  complete hreader := by simp [Queue.hangUp] at hreader
  closing hreader := by simp [Queue.hangUp] at hreader
  left := h.left
  room := h.room

/-- What is read was the first of what waits. -/
theorem read (h : Agrees acc q owed hasFailed) :
    Agrees (acc.read q.read.1) q.read.2 owed hasFailed := by
  have hsame : (acc.read q.read.1).got ++ q.read.2.frames = acc.got ++ q.frames ∧
      (acc.read q.read.1).due = acc.due ∧ (acc.read q.read.1).isCutOff = acc.isCutOff ∧
      (acc.read q.read.1).client = acc.client ∧ (acc.read q.read.1).mustClose = false := by
    unfold Queue.read Queue.frames
    split
    · simp [Account.read]
    · split
      · next item rest hwaiting =>
        rw [hwaiting]
        cases item <;> simp [Account.read]
      · next hwaiting =>
        rw [hwaiting]
        cases q.hasWriter <;> simp [Account.read]
  obtain ⟨hgot, hdue, hcut, hclient, hclose⟩ := hsame
  constructor
  · rw [hgot, hdue]
    exact h.prefix_due
  · rw [Queue.hasReader_read, hgot, hdue, hcut]
    exact h.complete
  · simp [hclose]
  · rw [hcut, hclient]
    exact h.left
  · rw [Queue.capacity_read]
    exact h.room

theorem owe (h : Agrees acc q [] hasFailed) (frame : φ) :
    Agrees (acc.owe frame) q [frame] hasFailed where
  prefix_due := h.prefix_due.trans (List.prefix_append _ _)
  complete hreader hcut hfailed := by
    have hdue := h.complete hreader hcut hfailed
    rw [List.append_nil] at hdue
    simp [Account.owe, ← hdue]
  closing := h.closing
  left := h.left
  room := h.room

/-- A frame that is due sets out, but not for a queue without a reader. -/
theorem owe_of_gone (h : Agrees acc q owed hasFailed) (hgone : q.hasReader = false) (frame : φ)
    (owed' : List φ) (hasFailed' : Prop) : Agrees (acc.owe frame) q owed' hasFailed' where
  prefix_due := h.prefix_due.trans (List.prefix_append _ _)
  complete hreader := by simp [hgone] at hreader
  closing := h.closing
  left := h.left
  room := h.room

/-- The refresh sets out for a new queue. -/
theorem attach (h : Agrees {} q [] hasFailed) (hframes : q.frames = []) (client : String)
    (refresh : φ) :
    Agrees { ({} : Account φ) with client := some client, due := [refresh] } q [refresh]
      hasFailed where
  prefix_due := by simp [hframes]
  complete _ _ _ := by simp [hframes]
  closing _ h := by simp at h
  left h := by simp at h
  room := h.room

/-- The pump gives up on a queue and tells its reader, if there is one, to close. -/
theorem cut (h : Agrees acc q owed hasFailed) {q' : Queue φ} (hframes : q'.frames = q.frames)
    (hclosing : q'.hasReader = true → q'.closing = true) (hcapacity : q'.capacity = q.capacity)
    (owed' : List φ) (hasFailed' : Prop) : Agrees acc.cut q' owed' hasFailed' where
  prefix_due := by
    rw [hframes]
    exact h.prefix_due
  complete _ hcut := by simp [Account.cut] at hcut
  closing hreader _ := hclosing hreader
  left _ := rfl
  room := by
    rw [hcapacity]
    exact h.room

/-- A delivery adds the frame that was on its way, or fails; no frame is on its way then. -/
theorem deliver {frame : φ} (h : Agrees acc q [frame] False) (hattached : acc.client ≠ none)
    (hfailed : (q.deliver frame).1 = .lagging → hasFailed) :
    Agrees acc (q.deliver frame).2 [] hasFailed := by
  have hcut : acc.isCutOff = false := by
    cases hcut : acc.isCutOff with
    | false => rfl
    | true => exact absurd (h.left hcut) hattached
  constructor
  · rw [Queue.frames_deliver]
    split
    · next hsent =>
      have hreader := ((q.deliver_eq_sent_iff frame).mp hsent).1
      have hdue := h.complete hreader hcut id
      rw [List.append_assoc] at hdue
      exact hdue ▸ List.prefix_refl _
    · rw [List.append_nil]
      exact h.prefix_due
  · intro hreader _ hnot
    rw [Queue.hasReader_deliver] at hreader
    -- There is a reader and nothing has failed, so the frame was sent.
    have hsent : (q.deliver frame).1 = .sent := by
      cases hd : (q.deliver frame).1 with
      | sent => rfl
      | closed => simp [(q.deliver_eq_closed_iff frame).mp hd] at hreader
      | lagging => exact absurd (hfailed hd) hnot
    rw [Queue.frames_deliver, if_pos hsent, List.append_nil, ← List.append_assoc]
    exact h.complete hreader hcut id
  · rw [Queue.hasReader_deliver, Queue.closing_deliver]
    exact h.closing
  · exact h.left
  · rw [Queue.capacity_deliver]
    exact h.room

end Agrees

end LiveDoc.Account
