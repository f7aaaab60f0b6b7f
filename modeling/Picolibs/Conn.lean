import Picolibs.Serve
/-!
# Conn — what the trace says of one connection, and the runs lwIP allows

`conn p` folds the trace into the state of the connection that was accepted last under the pcb `p`: whether lwIP still
has it, whether it was torn down by an error, and the ledger of its bytes.  It reads nothing of the server.

What is assumed of lwIP is a condition on events (`Allowed`): a pcb it passes to `accept` is not null and not one it
still has, and it never acknowledges more than it accepted.
-/
namespace Pico

open SendQueue
open History (Reach)

structure Conn where
  up : Bool := false
  torn : Bool := false
  ledger : Ledger Nat UInt8 := {}

def Conn.after (p : Pcb) (k : Conn) : Act → Conn
  | .accept q _ => if q = p then { up := true } else k
  | .queue q id data _ => if q = p then { k with ledger := k.ledger.queue id data } else k
  | .write q id data err => if q = p ∧ err = errOk then { k with ledger := k.ledger.accept id data } else k
  | .sent q len => if q = p then { k with ledger := k.ledger.ack len } else k
  | .close q _ err => if q = p ∧ err = errOk then { k with up := false } else k
  | .err q => if q = p then { k with up := false, torn := true } else k
  | _ => k

def conn (p : Pcb) (trace : List Act) : Conn := trace.foldl (Conn.after p) {}

@[simp] theorem conn_nil (p : Pcb) : conn p [] = {} := rfl

@[simp] theorem conn_snoc (p : Pcb) (l : List Act) (a : Act) : conn p (l ++ [a]) = (conn p l).after p a := by
  rw [conn, List.foldl_append]
  rfl

@[simp] theorem conn_releases (p q : Pcb) (why : Releasing) (l : List Act) : ∀ bufs : List SendBuf,
    conn p (l ++ Web.releases q why bufs) = conn p l
  | [] => by rw [Web.releases, List.map_nil, List.append_nil]
  | sb :: bufs => by
    have h := conn_releases p q why (l ++ [.release q sb.id sb.allocated why]) bufs
    rw [List.append_assoc, conn_snoc] at h
    exact h

/-! ## Runs -/

/-- What lwIP promises about the next event. -/
def Allowed (w : Web) : Event → Prop
  | .accept p err => err = errOk → (conn p w.trace).up = false ∧ w.clientHndl.size < 2 ^ 31
  | .sent p len => len ≤ (conn p w.trace).ledger.unacked.length
  | _ => True

instance decidableAllowed (w : Web) : ∀ e, Decidable (Allowed w e)
  | .accept _ err => inferInstanceAs (Decidable (err = errOk → _ ∧ _))
  | .sent p len => inferInstanceAs (Decidable (len ≤ (conn p w.trace).ledger.unacked.length))
  | .recv _ _ => isTrue trivial
  | .poll _ => isTrue trivial
  | .err _ => isTrue trivial
  | .app _ => isTrue trivial
  | .sendBuffer _ _ _ => isTrue trivial
  | .writeNext _ => isTrue trivial

/-- The states of the runs whose events satisfy `ok`. -/
abbrev Reachable (W : World) (ok : Web → Event → Prop) : Web → Prop := Reach ({} : Web) (Web.step W) ok

end Pico
