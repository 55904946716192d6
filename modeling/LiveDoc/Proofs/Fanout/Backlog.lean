import LiveDoc.Proofs.Fanout.Account

/-!
# LiveDoc — what waits behind

Commands are handled in the order in which they were submitted, and nothing but that takes one away.
So a frame for all that was submitted is on record as handled, or it still waits.

* `Pump.backlog` — the frames for all that still wait.
* `Pump.commands_start`, `Pump.stays_serve`, `Pump.stays_finish` — handling a command leaves those
  behind it as they are.
* `Account.foldl_note_of_unhandled` — nothing is due without a command.
-/

namespace LiveDoc

variable {φ : Type}

/-- The frame that a command sends to all clients. -/
def PumpCommand.broadcast? : PumpCommand φ → Option φ
  | .broadcast frame => some frame
  | _ => none

namespace Pump

/-- The frames for all clients that wait behind what was handled. -/
def backlog (p : Pump φ) : List φ := p.commands.filterMap PumpCommand.broadcast?

variable (p : Pump φ)

@[simp] theorem commands_discard (command : PumpCommand φ) :
    (p.discard command).commands = p.commands := by
  cases command <;> rfl

@[simp] theorem running_discard (command : PumpCommand φ) :
    (p.discard command).running = p.running := by
  cases command <;> rfl

/-- A command is put behind all others, unless the pump was shut down. -/
theorem commands_submit (command : PumpCommand φ) :
    (p.submit command).commands =
      if p.running then p.commands ++ [command] else p.commands := by
  unfold submit
  split
  · rfl
  · exact p.commands_discard command

/-- Submitting does not stop a pump, not even if a shutdown is submitted: it has to be handled. -/
@[simp] theorem running_submit (command : PumpCommand φ) :
    (p.submit command).running = p.running := by
  unfold submit
  split
  · rfl
  · exact p.running_discard command

/-! ## Handling a command -/

@[simp] theorem running_detach (client : String) : (p.detach client).running = p.running := by
  unfold detach
  split <;> rfl

/-- To begin with one command leaves those behind it as they are. -/
@[simp] theorem commands_start (command : PumpCommand φ) :
    (p.start command).commands = p.commands := by
  unfold start
  split
  · exact p.commands_discard command
  · cases command with
    | attach info queue refresh => exact p.commands_detach info.id
    | detach client => exact p.commands_detach client
    | broadcast frame => rfl
    | unicast client frame => dsimp only; split <;> rfl
    | shutdown => exact p.commands_foldl_updateQueue _ _

/-- No command but a shutdown stops the pump. -/
theorem running_start {command : PumpCommand φ} (h : command ≠ .shutdown) :
    (p.start command).running = p.running := by
  unfold start
  split
  · exact p.running_discard command
  · cases command with
    | attach info queue refresh => exact p.running_detach info.id
    | detach client => exact p.running_detach client
    | broadcast frame => rfl
    | unicast client frame => dsimp only; split <;> rfl
    | shutdown => exact absurd rfl h

/-- No command starts a pump again that was shut down. -/
theorem running_of_start {command : PumpCommand φ} (h : (p.start command).running = true) :
    p.running = true := by
  cases hrunning : p.running with
  | true => rfl
  | false =>
    have hstart : p.start command = p.discard command := by simp [start, hrunning]
    rw [hstart, running_discard, hrunning] at h
    cases h

/-- The pump came no further with its commands. -/
def Stays (p p' : Pump φ) : Prop := p'.commands = p.commands ∧ p'.running = p.running

/-- A delivery takes the pump no further. -/
theorem stays_deliver (n : Nat) (frame : φ) : p.Stays (p.deliver n frame).2 := by
  unfold deliver
  split <;> exact ⟨rfl, rfl⟩

/-- To serve a target takes the pump no further: the next command waits for the end of the round. -/
theorem stays_serve (a : Attachment) : p.Stays (p.serve a) := by
  unfold serve
  split
  · next r _ => exact p.stays_deliver a.queue r.frame
  · exact ⟨rfl, rfl⟩

theorem stays_foldl {step : Pump φ → Attachment → Pump φ} (hstep : ∀ p a, Stays p (step p a))
    (failed : List Attachment) : p.Stays (failed.foldl step p) := by
  induction failed generalizing p with
  | nil => exact ⟨rfl, rfl⟩
  | cons a rest ih =>
    obtain ⟨hcommands, hrunning⟩ := ih (step p a)
    exact ⟨hcommands.trans (hstep p a).1, hrunning.trans (hstep p a).2⟩

/-- Those who leave at the end of a round take no command with them. -/
theorem stays_finish : p.Stays p.finish := by
  have hdetach : ∀ (p : Pump φ) (a : Attachment), p.Stays (p.detach a.info.id) :=
    fun p a => ⟨p.commands_detach _, p.running_detach _⟩
  have hevict : ∀ (p : Pump φ) (a : Attachment), p.Stays (p.evict a) := fun _ _ => ⟨rfl, rfl⟩
  unfold finish
  split
  · next r _ =>
    split
    · exact stays_foldl { p with round := none } hdetach r.failed
    · exact stays_foldl { p with round := none } hevict r.failed
  · exact ⟨rfl, rfl⟩

/-- Readers take the pump no further. -/
theorem stays_read (n : Nat) : p.Stays (p.read n).2 := by
  unfold read
  split <;> exact ⟨rfl, rfl⟩

theorem stays_hangUp (n : Nat) : p.Stays (p.hangUp n) := ⟨rfl, rfl⟩

/-- Evictions put no command on record. -/
theorem handled_notMem_evictions (r : Round φ) (command : PumpCommand φ) :
    PumpEntry.handled command ∉ evictions r := by
  unfold evictions
  split <;> simp

theorem read_notMem_evictions (r : Round φ) (n : Nat) (reading : Reading φ) :
    PumpEntry.read n reading ∉ evictions r := by
  unfold evictions
  split <;> simp

end Pump

/-! ## Accounts -/

namespace Account

variable (acc : Account φ) (n : Nat)

/-- Without a command nothing becomes due, and nobody comes in. -/
theorem foldl_note_of_unhandled {entries : PumpRecord φ}
    (h : ∀ command, PumpEntry.handled command ∉ entries) :
    (entries.foldl (note n) acc).due = acc.due ∧
      ((entries.foldl (note n) acc).client ≠ none →
        (entries.foldl (note n) acc).client = acc.client) := by
  induction entries generalizing acc with
  | nil => exact ⟨rfl, fun _ => rfl⟩
  | cons entry rest ih =>
    have hrest := ih (acc.note n entry) fun command hmem => h command (List.mem_cons_of_mem _ hmem)
    have hentry : (acc.note n entry).due = acc.due ∧
        ((acc.note n entry).client = acc.client ∨ (acc.note n entry).client = none) := by
      cases entry with
      | handled command => exact absurd List.mem_cons_self (h command)
      | evicted queue =>
        unfold note
        dsimp only
        split
        · exact ⟨rfl, .inr rfl⟩
        · exact ⟨rfl, .inl rfl⟩
      | read queue reading =>
        unfold note read
        dsimp only
        split
        · split <;> exact ⟨rfl, .inl rfl⟩
        · exact ⟨rfl, .inl rfl⟩
    obtain ⟨hdue, hclient⟩ := hentry
    rw [List.foldl_cons]
    refine ⟨hrest.1.trans hdue, fun hne => ?_⟩
    have hsame := hrest.2 hne
    rcases hclient with heq | hnone
    · exact hsame.trans heq
    · exact absurd (hsame.trans hnone) hne

/-- What a command does to an account. Its queue is not attached afterwards, or it is newly attached,
or it stays attached, with or without a frame that becomes due. -/
theorem handle_cases (command : PumpCommand φ) :
    ((acc.handle n command).client = none ∧ (acc.handle n command).due = acc.due) ∨
      ((acc.handle n command).client ≠ none ∧
        ((∃ info refresh, command = .attach info n refresh ∧
            (acc.handle n command).due = [refresh]) ∨
          (acc.client ≠ none ∧ command.broadcast? = none ∧
            (acc.handle n command).due = acc.due) ∨
          (acc.client ≠ none ∧ ∃ frame,
            (command = .broadcast frame ∨ ∃ client, command = .unicast client frame) ∧
              (acc.handle n command).due = acc.due ++ [frame]))) := by
  cases hclient : acc.client with
  | none =>
    cases command with
    | attach info m refresh =>
      by_cases hmn : m = n
      · subst hmn
        exact .inr ⟨by simp [handle], .inl ⟨info, refresh, rfl, by simp [handle]⟩⟩
      · exact .inl (by simp [handle, hmn, hclient])
    | _ => exact .inl (by simp [handle, hclient])
  | some id =>
    have hne : some id ≠ none := Option.some_ne_none id
    cases command with
    | attach info m refresh =>
      by_cases hmn : m = n
      · subst hmn
        exact .inr ⟨by simp [handle], .inl ⟨info, refresh, rfl, by simp [handle]⟩⟩
      · by_cases hid : id = info.id
        · exact .inl (by simp [handle, hmn, hclient, hid, leave])
        · have hsame : acc.handle n (.attach info m refresh) = acc := by
            simp [handle, hmn, hclient, hid]
          rw [hsame]
          exact .inr ⟨by simp [hclient], .inr (.inl ⟨hne, rfl, rfl⟩)⟩
    | detach client =>
      by_cases hid : id = client
      · exact .inl (by simp [handle, hclient, hid, leave])
      · have hsame : acc.handle n (.detach client) = acc := by simp [handle, hclient, hid]
        rw [hsame]
        exact .inr ⟨by simp [hclient], .inr (.inl ⟨hne, rfl, rfl⟩)⟩
    | broadcast frame =>
      have howe : acc.handle n (.broadcast frame) = acc.owe frame := by simp [handle, hclient]
      rw [howe]
      exact .inr ⟨by simp [owe, hclient], .inr (.inr ⟨hne, frame, .inl rfl, rfl⟩)⟩
    | unicast client frame =>
      by_cases hid : id = client
      · have howe : acc.handle n (.unicast client frame) = acc.owe frame := by
          simp [handle, hclient, hid]
        rw [howe]
        exact .inr ⟨by simp [owe, hclient], .inr (.inr ⟨hne, frame, .inr ⟨client, rfl⟩, rfl⟩)⟩
      · have hsame : acc.handle n (.unicast client frame) = acc := by simp [handle, hclient, hid]
        rw [hsame]
        exact .inr ⟨by simp [hclient], .inr (.inl ⟨hne, rfl, rfl⟩)⟩
    | shutdown => exact .inl (by simp [handle, hclient, cut])

/-- A command that leaves a queue unattached makes nothing due for it. -/
theorem due_handle_of_client_eq_none {command : PumpCommand φ}
    (h : (acc.handle n command).client = none) : (acc.handle n command).due = acc.due := by
  rcases acc.handle_cases n command with ⟨-, hdue⟩ | ⟨hne, -⟩
  · exact hdue
  · exact absurd h hne

/-- Behind a shutdown no queue is attached. -/
theorem client_handle_shutdown : (acc.handle n .shutdown).client = none := by
  cases hclient : acc.client <;> simp [handle, hclient, cut]

/-- Commands are handled without anything being read. -/
@[simp] theorem got_handle (command : PumpCommand φ) :
    (acc.handle n command).got = acc.got := by
  cases command with
  | attach info queue refresh =>
    unfold handle
    dsimp only
    split
    · rfl
    · split <;> rfl
  | detach client => unfold handle; dsimp only; split <;> rfl
  | broadcast frame => unfold handle; dsimp only; split <;> rfl
  | unicast client frame => unfold handle; dsimp only; split <;> rfl
  | shutdown => unfold handle; dsimp only; split <;> rfl

/-- Only what is read is got. -/
theorem got_foldl_note_of_unread {entries : PumpRecord φ}
    (h : ∀ queue reading, PumpEntry.read queue reading ∉ entries) :
    (entries.foldl (note n) acc).got = acc.got := by
  induction entries generalizing acc with
  | nil => rfl
  | cons entry rest ih =>
    refine (ih _ fun queue reading hmem => h queue reading (List.mem_cons_of_mem _ hmem)).trans ?_
    cases entry with
    | handled command => exact acc.got_handle n command
    | evicted queue => unfold note; dsimp only; split <;> rfl
    | read queue reading => exact absurd List.mem_cons_self (h queue reading)

end Account

end LiveDoc
