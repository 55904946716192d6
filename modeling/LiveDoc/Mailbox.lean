/-!
# LiveDoc — bounded mailboxes

What a part of the system tells its owner goes through a mailbox. Nobody waits for room: what comes
to a full mailbox is dropped, and what is inside stays in order.
-/

namespace LiveDoc

structure Mailbox (α : Type u) where
  capacity : Nat := 1
  items : List α := []
  deriving Inhabited

namespace Mailbox

variable {α : Type u}

/-- An empty mailbox, which has room for one item at least. -/
def ofCapacity (capacity : Nat) : Mailbox α := { capacity := max capacity 1 }

/-- Puts an item behind the others if there is room. -/
def offer (m : Mailbox α) (item : α) : Mailbox α :=
  if m.items.length < m.capacity then { m with items := m.items ++ [item] } else m

def take? (m : Mailbox α) : Option (α × Mailbox α) :=
  match m.items with
  | [] => none
  | item :: rest => some (item, { m with items := rest })

def takeAll (m : Mailbox α) : List α × Mailbox α := (m.items, { m with items := [] })

end Mailbox

end LiveDoc
