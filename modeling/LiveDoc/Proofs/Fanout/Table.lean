import LiveDoc.Fanout.Pump
import LiveDoc.Proofs.SortedMap

/-!
# LiveDoc — the table of the pump

The table says which queue belongs to the client with an id, and the accounts of the queues say under
which id each is attached. The two agree, but for queues without a reader: those may be missing from
the table.

* `Registered` — the table agrees with what the accounts say about ids.
* `Registered.erase`, `Registered.attach` — it does so after a client left or came.
* `Registered.nodup` — a queue stands in the table once.
-/

namespace LiveDoc

/-- The table holds a queue under an id only if its account has that id, and it holds all of them
that have a reader. -/
structure Registered (table : KeyMap Attachment) (client : Nat → Option String)
    (isLive : Nat → Prop) : Prop where
  sorted : KeyMap.Sorted table
  key : ∀ {id : String} {a : Attachment}, KeyMap.get? table id = some a → a.info.id = id
  client_eq : ∀ {id : String} {a : Attachment}, KeyMap.get? table id = some a →
    client a.queue = some id
  find : ∀ {id : String} {n : Nat}, client n = some id → isLive n →
    ∃ a, KeyMap.get? table id = some a ∧ a.queue = n

namespace Registered

variable {table : KeyMap Attachment} {client client' : Nat → Option String}
  {isLive isLive' : Nat → Prop}

theorem congr (h : Registered table client isLive) (hclient : ∀ n, client' n = client n)
    (hlive : ∀ n, isLive' n → isLive n) : Registered table client' isLive' where
  sorted := h.sorted
  key := h.key
  client_eq hget := (hclient _).trans (h.client_eq hget)
  find hn hl := h.find ((hclient _).symm.trans hn) (hlive _ hl)

/-- Who leaves the table is no longer known under the id. -/
theorem erase (h : Registered table client isLive) {id : String}
    (hsame : ∀ n, client n ≠ some id → client' n = client n)
    (hgone : ∀ n, client n = some id → isLive' n → client' n = none)
    (hlive : ∀ n, isLive' n → isLive n) :
    Registered (KeyMap.erase table id) client' isLive' where
  sorted := h.sorted.erase id
  key {k a} hget := by
    by_cases hk : id = k
    · simp [← hk, KeyMap.get?_erase_self] at hget
    · rw [KeyMap.get?_erase_of_ne table hk] at hget
      exact h.key hget
  client_eq {k a} hget := by
    by_cases hk : id = k
    · simp [← hk, KeyMap.get?_erase_self] at hget
    · rw [KeyMap.get?_erase_of_ne table hk] at hget
      have hclient := h.client_eq hget
      rw [hsame _ (by rw [hclient]; simpa using Ne.symm hk), hclient]
  find {k n} hn hl := by
    by_cases hclient : client n = some id
    · simp [hgone n hclient hl] at hn
    · rw [hsame n hclient] at hn
      obtain ⟨a, hget, hqueue⟩ := h.find hn (hlive n hl)
      have hk : id ≠ k := by
        rintro rfl
        exact hclient hn
      exact ⟨a, by rwa [KeyMap.get?_erase_of_ne table hk], hqueue⟩

/-- Who comes into the table takes the place of the one with the same id. -/
theorem attach (h : Registered table client isLive) {info : ClientInfo} {m : Nat}
    (hnew : client m = none) (hm : client' m = some info.id)
    (hsame : ∀ n, n ≠ m → client n ≠ some info.id → client' n = client n)
    (hleft : ∀ n, n ≠ m → client n = some info.id → client' n = none) :
    Registered (KeyMap.set (KeyMap.erase table info.id) info.id { info, queue := m }) client'
      isLive where
  sorted := (h.sorted.erase _).set _ _
  key {k a} hget := by
    by_cases hk : info.id = k
    · subst hk
      rw [KeyMap.get?_set_self] at hget
      cases hget
      rfl
    · rw [KeyMap.get?_set_of_ne _ _ hk, KeyMap.get?_erase_of_ne table hk] at hget
      exact h.key hget
  client_eq {k a} hget := by
    by_cases hk : info.id = k
    · subst hk
      rw [KeyMap.get?_set_self] at hget
      cases hget
      exact hm
    · rw [KeyMap.get?_set_of_ne _ _ hk, KeyMap.get?_erase_of_ne table hk] at hget
      have hclient := h.client_eq hget
      -- The new queue was nobody's.
      have hne : a.queue ≠ m := by
        intro heq
        rw [heq, hnew] at hclient
        cases hclient
      rw [hsame _ hne (by rw [hclient]; simpa using Ne.symm hk), hclient]
  find {k n} hn hl := by
    by_cases hnm : n = m
    · subst hnm
      rw [hm] at hn
      cases hn
      exact ⟨_, KeyMap.get?_set_self _ _ _, rfl⟩
    · by_cases hclient : client n = some info.id
      · simp [hleft n hnm hclient] at hn
      · rw [hsame n hnm hclient] at hn
        obtain ⟨a, hget, hqueue⟩ := h.find hn hl
        have hk : info.id ≠ k := by
          rintro rfl
          exact hclient hn
        refine ⟨a, ?_, hqueue⟩
        rwa [KeyMap.get?_set_of_ne _ _ hk, KeyMap.get?_erase_of_ne table hk]

theorem get?_of_mem (h : Registered table client isLive) {entry : String × Attachment}
    (hmem : entry ∈ table) : KeyMap.get? table entry.1 = some entry.2 :=
  h.sorted.get?_of_mem hmem

theorem nodup (h : Registered table client isLive) :
    ((table.map Prod.snd).map (·.queue)).Nodup := by
  have hkeys : table.Pairwise fun x y => x.1 < y.1 := List.pairwise_map.mp h.sorted
  rw [List.map_map]
  refine List.pairwise_map.mpr (hkeys.imp_of_mem fun {x y} hx hy hlt heq => ?_)
  have hqueue : x.2.queue = y.2.queue := heq
  have hsame : some x.1 = some y.1 := by
    rw [← h.client_eq (h.get?_of_mem hx), hqueue, h.client_eq (h.get?_of_mem hy)]
  exact hlt.ne (Option.some.inj hsame)

end Registered

end LiveDoc
