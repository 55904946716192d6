import LiveDoc.Proofs.Fanout.Invariant

/-!
# LiveDoc — starting a command keeps the invariant

When the pump starts a command the accounts of all queues follow it. A frame that becomes due to
several clients sets out for those of them that have a reader; the others are gone, and it does not
matter to them.

* `Pump.Sound.sendOut` — a frame sets out for clients of the table.
* `Pump.Sound.start` — a command is started, whatever it is.
-/

namespace LiveDoc.Pump.Sound

variable {φ : Type} {p : Pump φ} {round : Option (Round φ)} {account : Nat → Account φ}

/-! ## Starting -/

/-- A frame sets out for clients of the table. It is due to all who are attached under some ids, and
among them those that have a reader are its targets. -/
theorem sendOut (h : p.Sound none account) (frame : φ) (targets : List Attachment)
    (hattached : ∀ a ∈ targets, KeyMap.get? p.table a.info.id = some a)
    (hnodup : (targets.map (·.queue)).Nodup) (isDue : Option String → Bool)
    (hnone : isDue none = false)
    (htarget : ∀ n, isDue (account n).client = true → (p.queue n).hasReader = true →
      n ∈ targets.map (·.queue))
    (hdue : ∀ a ∈ targets, isDue (some a.info.id) = true) :
    p.Sound (some { frame, targets }) fun n =>
      if isDue (account n).client = true then (account n).owe frame else account n where
  registered := h.registered.congr (fun n => by split <;> rfl) fun _ hlive => hlive
  absent hn := by simp [h.absent hn, hnone]
  fresh hmem := by
    obtain ⟨hn, hempty, hqueue⟩ := h.fresh hmem
    exact ⟨hn, by simp [hempty, hnone], hqueue⟩
  distinct := h.distinct
  underway r hround := by
    cases hround
    refine ⟨?_, ?_, nofun, nofun⟩
    · simpa using hattached
    · simpa using hnodup
  agrees n := by
    have hn := (h.agrees n).weaken fun _ : ¬ Round.HasFailed (some { frame, targets }) n =>
      Round.not_hasFailed_none n
    by_cases hmem : n ∈ targets.map (·.queue)
    · obtain ⟨a, ha, rfl⟩ := List.mem_map.mp hmem
      rw [h.registered.client_eq (hattached a ha), if_pos (hdue a ha)]
      have howed : Round.owed (some { frame, targets }) a.queue = [frame] := if_pos hmem
      rw [howed]
      exact hn.owe frame
    · -- The frame does not set out for this queue. If it is due all the same, no one is there.
      have howed : Round.owed (some { frame, targets }) n = [] := if_neg hmem
      rw [howed]
      by_cases hclient : isDue (account n).client = true
      · rw [if_pos hclient]
        have hgone : (p.queue n).hasReader = false := by
          by_contra hlive
          exact hmem (htarget n hclient (by simpa using hlive))
        exact hn.owe_of_gone hgone frame _ _
      · rw [if_neg hclient]
        exact hn

theorem start_broadcast (h : p.Sound none account) (frame : φ) :
    p.Sound (some { frame, targets := p.targets }) fun n =>
      (account n).handle n (.broadcast frame) := by
  exact h.sendOut frame p.targets (fun a ha => h.get?_of_mem_targets ha) h.registered.nodup
    Option.isSome rfl (fun n hdue hlive => h.mem_targets hdue hlive) fun _ _ => rfl

theorem start_unicast {client : String} {a : Attachment} (h : p.Sound none account) (frame : φ)
    (hget : KeyMap.get? p.table client = some a) :
    p.Sound (some { frame, targets := [a] }) fun n =>
      (account n).handle n (.unicast client frame) := by
  have hkey := h.registered.key hget
  have hsound := h.sendOut frame [a] (by simpa [hkey] using hget) (by simp)
    (· = some client) rfl (fun n hdue hlive => ?_) (by simp [hkey])
  · simpa [Account.handle] using hsound
  · obtain ⟨b, hget', rfl⟩ := h.registered.find (by simpa using hdue) hlive
    rw [hget] at hget'
    cases hget'
    simp

/-- A frame for an id that no one has is due only to queues without a reader. -/
theorem start_unicast_unknown {client : String} (h : p.Sound none account) (frame : φ)
    (hget : KeyMap.get? p.table client = none) :
    p.Sound none fun n => (account n).handle n (.unicast client frame) := by
  have hgone : ∀ n, (account n).client = some client → (p.queue n).hasReader = false := by
    intro n hn
    by_contra hlive
    obtain ⟨a, hget', -⟩ := h.registered.find hn (by simpa using hlive)
    simp [hget] at hget'
  refine h.congr rfl rfl rfl (fun n => ?_) (fun n hempty _ => ?_) (fun _ hlive => hlive)
    (fun _ hnil => hnil) fun n => ?_
  · simp only [Account.handle]
    split <;> rfl
  · simp [Account.handle, hempty]
  · simp only [Account.handle]
    split
    · next hn => exact (h.agrees n).owe_of_gone (hgone n hn) frame _ _
    · exact h.agrees n

/-- The refresh on its way to a new client. -/
abbrev refreshRound (info : ClientInfo) (m : Nat) (refresh : φ) : Round φ :=
  { frame := refresh, targets := [{ info, queue := m }], isRefresh := true }

/-- A client comes into the table, and its refresh sets out. -/
theorem start_attach (h : p.Sound none account) (info : ClientInfo) {m : Nat} (refresh : φ)
    (hm : m < p.queues.length) (hempty : account m = {}) (hnil : (p.queue m).waiting = [])
    (hother : m ∉ p.commands.filterMap PumpCommand.queue?) :
    Sound { p.detach info.id with
        table := KeyMap.set (p.detach info.id).table info.id { info, queue := m } }
      (some (refreshRound info m refresh))
      fun n => (account n).handle n (.attach info m refresh) where
  registered := by
    have hattach := @Registered.attach _ _
      (fun n => ((account n).handle n (.attach info m refresh)).client) _ h.registered info m
      (by simp [hempty]) (by simp [Account.handle])
      (fun n hn hclient => by simp [Account.handle, Ne.symm hn, hclient])
      (fun n hn hclient => by simp [Account.handle, Ne.symm hn, hclient, Account.leave])
    rw [table_detach]
    refine hattach.congr (fun _ => rfl) fun n hlive => ?_
    obtain ⟨hasWriter, heq⟩ := p.queue_detach info.id n
    have hsame : (p.detach info.id).queue n = { p.queue n with hasWriter } := heq
    change ((p.detach info.id).queue n).hasReader = true at hlive
    rwa [hsame] at hlive
  absent {n} hn := by
    have hlen : p.queues.length ≤ n := by simpa using hn
    have hne : m ≠ n := fun heq => absurd hm (by omega)
    simp [Account.handle, hne, h.absent hlen]
  fresh {info' n refresh'} hmem := by
    have hold : PumpCommand.attach info' n refresh' ∈ p.commands := by simpa using hmem
    obtain ⟨hn, hclean, hqueue⟩ := h.fresh hold
    -- No two commands attach one queue, so those that wait attach others.
    have hne : m ≠ n := by
      rintro rfl
      exact hother (List.mem_filterMap.mpr ⟨_, hold, rfl⟩)
    obtain ⟨hasWriter, heq⟩ := p.queue_detach info.id n
    refine ⟨by simpa using hn, by simp [Account.handle, hne, hclean], ?_⟩
    show ((p.detach info.id).queue n).waiting = []
    rwa [heq]
  distinct := by
    have h := h.distinct
    rwa [← p.commands_detach info.id] at h
  underway r hround := by
    cases hround
    refine ⟨?_, by simp, fun _ a ha => ?_, fun _ a ha => by cases ha⟩
    · simpa using KeyMap.get?_set_self (p.detach info.id).table info.id { info, queue := m }
    · cases List.mem_singleton.mp ha
      obtain ⟨hasWriter, heq⟩ := p.queue_detach info.id m
      show ((p.detach info.id).queue m).waiting = []
      rwa [heq]
  agrees n := by
    obtain ⟨hasWriter, heq⟩ := p.queue_detach info.id n
    have hn := ((h.agrees n).setWriter hasWriter).weaken
      fun _ : ¬ Round.HasFailed (some (refreshRound info m refresh)) n => Round.not_hasFailed_none n
    show Account.Agrees _ ((p.detach info.id).queue n) _ _
    rw [heq]
    by_cases hmn : m = n
    · subst hmn
      rw [hempty] at hn ⊢
      have hframes : (p.queue m).frames = [] := by simp [Queue.frames, hnil]
      simpa [Account.handle, Round.owed] using hn.attach hframes info.id refresh
    · have howed : Round.owed (some (refreshRound info m refresh)) n = [] :=
        if_neg (by simpa using Ne.symm hmn)
      rw [howed]
      simp only [Account.handle, if_neg hmn]
      split
      · exact hn.leave
      · exact hn

/-- All clients of the table are told to close, and leave. -/
theorem start_shutdown (h : p.Sound none account) :
    Sound { p.targets.foldl (fun p a => p.updateQueue a.queue Queue.shutDown) p with table := [] }
      none fun n => (account n).handle n .shutdown := by
  have hget : ∀ a ∈ p.targets, (account a.queue).client = some a.info.id :=
    fun a ha => h.registered.client_eq (h.get?_of_mem_targets ha)
  have hqueue : ∀ n, (p.targets.foldl (fun p a => p.updateQueue a.queue Queue.shutDown) p).queue n =
      if n ∈ p.targets.map (·.queue) then (p.queue n).shutDown else p.queue n :=
    p.queue_foldl_updateQueue _ h.registered.nodup fun a ha => h.lt_length (by simp [hget a ha])
  refine
    { registered := ⟨KeyMap.sorted_nil, nofun, nofun, fun {id n} hn _ => ?_⟩
      absent := fun hn => ?_
      fresh := fun {info n refresh} hmem => ?_
      distinct := by simpa using h.distinct
      underway := nofun
      agrees := fun n => ?_ }
  · simp only [Account.handle] at hn
    split at hn
    · cases hn
    · next hnone => simp [hn] at hnone
  · simp [Account.handle, h.absent (by simpa using hn)]
  · obtain ⟨hn, hempty, hnil⟩ := h.fresh (by simpa using hmem)
    refine ⟨by simpa using hn, by simp [Account.handle, hempty], ?_⟩
    have hnot : n ∉ p.targets.map (·.queue) := by
      intro hmem
      obtain ⟨a, ha, rfl⟩ := List.mem_map.mp hmem
      have hclient := hget a ha
      simp [hempty] at hclient
    have hsame := hqueue n
    rw [if_neg hnot] at hsame
    exact (congrArg Queue.waiting hsame).trans hnil
  · have hn := h.agrees n
    show Account.Agrees _
      ((p.targets.foldl (fun p a => p.updateQueue a.queue Queue.shutDown) p).queue n) _ _
    rw [hqueue]
    by_cases hmem : n ∈ p.targets.map (·.queue)
    · obtain ⟨a, ha, rfl⟩ := List.mem_map.mp hmem
      rw [if_pos hmem]
      simp only [Account.handle, hget a ha, Option.isSome_some, ↓reduceIte]
      exact hn.cut (Queue.frames_shutDown _) (fun _ => rfl) rfl _ _
    · rw [if_neg hmem]
      simp only [Account.handle]
      split
      · -- It is attached but not in the table, so that no one is there to be told.
        next hsome =>
        exact hn.cut rfl (fun hlive => absurd (h.mem_targets hsome hlive) hmem) rfl _ _
      · exact hn

theorem discard (h : p.Sound round account) (command : PumpCommand φ) :
    (p.discard command).Sound round account := by
  cases command with
  | attach info m refresh => exact h.release m
  | _ => exact h

theorem start_of_not_running (h : p.Sound none account) (hidle : p.round = none)
    (hrunning : p.running = false) (command : PumpCommand φ) :
    (p.start command).Sound (p.start command).round account := by
  have hstart : p.start command = p.discard command := by simp [Pump.start, hrunning]
  have hround : (p.discard command).round = none := by cases command <;> exact hidle
  rw [hstart, hround]
  exact h.discard command

/-- A running pump starts a command. One that attaches a queue attaches a new one. -/
theorem start_of_running (h : p.Sound none account) (hidle : p.round = none)
    (hrunning : p.running = true) {command : PumpCommand φ}
    (hfresh : ∀ info m refresh, command = .attach info m refresh →
      m < p.queues.length ∧ account m = {} ∧ (p.queue m).waiting = [] ∧
        m ∉ p.commands.filterMap PumpCommand.queue?) :
    (p.start command).Sound (p.start command).round fun n => (account n).handle n command := by
  cases command with
  | attach info m refresh =>
    obtain ⟨hm, hempty, hnil, hother⟩ := hfresh info m refresh rfl
    have hsound := (h.start_attach info refresh hm hempty hnil hother).setStats
      (p.detach info.id).stats (p.detach info.id).running (some (refreshRound info m refresh))
    simpa only [Pump.start, hrunning, Bool.not_true, Bool.false_eq_true, ↓reduceIte] using hsound
  | detach client =>
    simpa [Pump.start, hrunning, hidle] using h.detach client
  | broadcast frame =>
    have hsound := (h.start_broadcast frame).setStats
      { p.stats with broadcasts := p.stats.broadcasts + 1 } p.running
      (some { frame, targets := p.targets })
    simpa only [Pump.start, hrunning, Bool.not_true, Bool.false_eq_true, ↓reduceIte] using hsound
  | unicast client frame =>
    cases hget : KeyMap.get? p.table client with
    | none =>
      have hsound := (h.start_unicast_unknown frame hget).setStats
        (PumpStats.count { p.stats with unicasts := p.stats.unicasts + 1 } .closed) true none
      simpa [Pump.start, hrunning, hget, hidle] using hsound
    | some a =>
      have hsound := (h.start_unicast frame hget).setStats
        { p.stats with unicasts := p.stats.unicasts + 1 } true (some { frame, targets := [a] })
      simpa [Pump.start, hrunning, hget] using hsound
  | shutdown =>
    have hsound := h.start_shutdown.setStats
      (p.targets.foldl (fun p a => p.updateQueue a.queue Queue.shutDown) p).stats false none
    simpa [Pump.start, hrunning, hidle] using hsound

/-- A command is started. A pump that was shut down does not handle it. -/
theorem start (h : p.Sound none account) (hidle : p.round = none) {command : PumpCommand φ}
    {rest : List (PumpCommand φ)} (hnext : p.commands = command :: rest) :
    Sound (({ p with commands := rest } : Pump φ).start command)
      (({ p with commands := rest } : Pump φ).start command).round
      fun n => (if p.running then [PumpEntry.handled command] else []).foldl (Account.note n)
        (account n) := by
  have hfresh : ∀ {info n refresh}, PumpCommand.attach info n refresh ∈ command :: rest →
      n < p.queues.length ∧ account n = {} ∧ (p.queue n).waiting = [] := by
    intro info n refresh hmem
    exact h.fresh (hnext ▸ hmem)
  have hdistinct : ((command :: rest).filterMap PumpCommand.queue?).Nodup := hnext ▸ h.distinct
  have hrest : Sound { p with commands := rest } none account := by
    refine h.setCommands rest (fun hmem => hfresh (List.mem_cons_of_mem _ hmem)) ?_
    exact hdistinct.sublist ((List.sublist_cons_self command rest).filterMap _)
  by_cases hrunning : p.running = true
  · rw [if_pos hrunning]
    refine hrest.start_of_running hidle hrunning fun info m refresh hcommand => ?_
    subst hcommand
    obtain ⟨hm, hempty, hnil⟩ := hfresh List.mem_cons_self
    exact ⟨hm, hempty, hnil, (List.nodup_cons.mp hdistinct).1⟩
  · rw [if_neg hrunning]
    exact hrest.start_of_not_running hidle (by simpa using hrunning) command

end LiveDoc.Pump.Sound
