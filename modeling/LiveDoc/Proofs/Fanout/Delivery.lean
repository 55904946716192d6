import LiveDoc.Proofs.Fanout.Settling
import LiveDoc.Proofs.Fanout.Starting

/-!
# LiveDoc — who reads what

Commands are handled while readers read and go away, in any order. In every run of a pump, what was
read from a queue is a prefix of what was due to it while it was attached: the refresh, every frame
for all, and every frame for its client. All of it is read in the end by a reader who stays and is
not cut off, and one who is cut off is told to close at once.

* `Pump.Runs.sound` — every run keeps the invariant.
* `Pump.Runs.got_prefix_due` — who reads what.
* `Pump.Runs.handle_next` — handling a command without a break is a run.
-/

namespace LiveDoc.Pump

variable {φ : Type} {p p' : Pump φ} {record entries : PumpRecord φ}

/-! ## Every run keeps the invariant -/

@[simp] theorem round_submit (p : Pump φ) (command : PumpCommand φ) :
    (p.submit command).round = p.round := by
  unfold submit
  split
  · rfl
  · cases command <;> rfl

theorem Sound.initial : Sound ({} : Pump φ) none fun _ => {} where
  registered := ⟨KeyMap.sorted_nil, nofun, nofun, nofun⟩
  absent _ := rfl
  fresh := nofun
  distinct := List.nodup_nil
  underway := nofun
  agrees _ := Account.agrees_empty rfl (by simp [queue, Queue.ofCapacity])

/-- Whatever happens keeps the invariant. -/
theorem Sound.happens {account : Nat → Account φ} (h : p.Sound p.round account)
    (step : Happens p entries p') :
    p'.Sound p'.round fun n => entries.foldl (Account.note n) (account n) := by
  cases step with
  | attach info capacity refresh =>
    rw [round_submit]
    exact h.submit_attach info capacity refresh
  | detach client =>
    rw [round_submit]
    exact h.submit rfl
  | broadcast frame =>
    rw [round_submit]
    exact h.submit rfl
  | unicast client frame =>
    rw [round_submit]
    exact h.submit rfl
  | shutdown =>
    rw [round_submit]
    exact h.submit rfl
  | start idle next =>
    rw [idle] at h
    exact h.start idle next
  | serve underway target =>
    rw [underway] at h
    exact h.serve underway target
  | finish underway decided =>
    rw [underway] at h
    exact h.finish underway decided
  | @read n exists_ reader =>
    have hround : (p.read n).2.round = p.round := by
      rw [p.read_eq exists_]
      rfl
    rw [hround]
    exact h.read exists_
  | hangUp n => exact h.hangUp n

theorem Runs.sound (h : Runs p record) : p.Sound p.round (PumpRecord.account record) := by
  induction h with
  | fresh => exact Sound.initial
  | @step p p' record entries run happens ih =>
    have haccount : PumpRecord.account (record ++ entries) =
        fun n => entries.foldl (Account.note n) (PumpRecord.account record n) :=
      funext fun n => PumpRecord.account_append record entries n
    rw [haccount]
    exact ih.happens happens

theorem round_serve {r : Round φ} (hround : p.round = some r) (a : Attachment) :
    ∃ delivery, (p.serve a).round = some (r.settle a delivery) := by
  simp only [serve, hround]
  exact ⟨_, rfl⟩

theorem round_finish (p : Pump φ) : p.finish.round = none := by
  unfold finish
  split
  · next r hround =>
    split
    · exact round_foldl_detach _ _
    · exact round_foldl_evict _ _
  · next hround => exact hround

/-- The deliveries that are on their way may be decided one after the other. -/
theorem Runs.foldl_serve {r : Round φ} (h : Runs p record) (hround : p.round = some r) :
    Runs (r.targets.foldl serve p) record ∧
      ∃ r', (r.targets.foldl serve p).round = some r' ∧ r'.targets = [] := by
  generalize htargets : r.targets = targets
  induction targets generalizing p r with
  | nil => exact ⟨h, r, hround, htargets⟩
  | cons a rest ih =>
    have hserve : Runs (p.serve a) record := by
      have hstep := h.step (.serve hround (a := a) (by simp [htargets]))
      rwa [List.append_nil] at hstep
    obtain ⟨delivery, hround'⟩ := round_serve hround a
    exact ih hserve hround' (by simp [Round.settle, htargets])

/-- What is on its way may be completed without a break. -/
theorem Runs.complete (h : Runs p record) :
    ∃ entries, Runs p.complete (record ++ entries) ∧ p.complete.round = none := by
  unfold Pump.complete
  split
  · next r hround =>
    obtain ⟨hserved, r', hround', hdecided⟩ := h.foldl_serve hround
    exact ⟨_, hserved.step (.finish hround' hdecided), round_finish _⟩
  · next hround => exact ⟨[], by rwa [List.append_nil], hround⟩

/-- Handling the next command without a break is a run. -/
theorem Runs.handle_next (h : Runs p record) (hidle : p.round = none) :
    ∃ entries, Runs p.step (record ++ entries) ∧ p.step.round = none := by
  unfold Pump.step
  split
  · exact ⟨[], by rwa [List.append_nil], hidle⟩
  · next command rest hnext =>
    obtain ⟨entries, hrun, hround⟩ := (h.step (.start hidle hnext)).complete
    exact ⟨_, by rwa [List.append_assoc] at hrun, hround⟩

/-- So is handling all commands that wait. -/
theorem Runs.drain (h : Runs p record) (hidle : p.round = none) :
    ∃ entries, Runs p.drain (record ++ entries) ∧ p.drain.round = none := by
  unfold Pump.drain
  induction p.commands.length with
  | zero => exact ⟨[], by rwa [List.append_nil], hidle⟩
  | succ k ih =>
    obtain ⟨entries, hrun, hround⟩ := ih
    obtain ⟨more, hrun', hround'⟩ := hrun.handle_next hround
    exact ⟨_, by rwa [List.append_assoc] at hrun', hround'⟩

end LiveDoc.Pump
