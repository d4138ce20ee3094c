import SimpleServer.Relabel

/-!
# The member `timestamp` is never read

A recycled slot keeps the `timestamp` of its previous occupant. Forgetting it
is a relabelling, so nothing a visit does depends on it.
-/

namespace SimpleServer

open CString FileTree

def Client.unstamped (c : Client) : Client := { c with timestamp := [] }

def Event.unstamped : Event → Event
  | .visit p c => .visit p c.unstamped
  | .close c => .close c.unstamped
  | ev => ev

def Visit.unstamped (v : Visit) : Visit :=
  ⟨v.kept.map fun e => (e.1, e.2.unstamped), v.events.map Event.unstamped⟩

/-- Every descriptor and every round keeps its name. -/
def unstamp : Relabel := ⟨id, id, fun _ => []⟩

theorem unstamp_client (c : Client) : unstamp.client c = c.unstamped := by
  have hptr : c.filePtr.map unstamp.handle = c.filePtr := by
    cases c.filePtr <;> rfl
  simp only [Relabel.client, Client.unstamped, hptr]
  rfl

theorem unstamp_event (ev : Event) : unstamp.event ev = ev.unstamped := by
  cases ev with
  | acquire r => cases r <;> rfl
  | release r => cases r <;> rfl
  | visit p c => exact congrArg (Event.visit p) (unstamp_client c)
  | close c => exact congrArg Event.close (unstamp_client c)
  | _ => rfl

theorem unstamp_entry (e : Entry) : unstamp.entry e = (e.1, e.2.unstamped) :=
  congrArg (Prod.mk e.1) (unstamp_client e.2)

theorem unstamp_visit (v : Visit) : unstamp.visit v = v.unstamped := by
  simp only [Relabel.visit, Visit.unstamped, funext unstamp_entry, funext unstamp_event]

theorem visitEntry_unstamped (r : Round) (round : ℕ) (e : Entry) :
    visitEntry r round (e.1, e.2.unstamped) = (visitEntry r round e).map Visit.unstamped := by
  have h : visitEntry r (unstamp.round round) (unstamp.entry e) =
      (visitEntry r round e).map unstamp.visit := unstamp.visitEntry_relabel ⟨rfl, rfl, rfl⟩
  rwa [unstamp_entry, funext unstamp_visit] at h

end SimpleServer
