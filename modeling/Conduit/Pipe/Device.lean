import Conduit.Bytes
import Conduit.OsError

/-!
The devices behind pipes: something that bytes are read from, written to, and flushed. A device may
not be ready; it may also say at once that it is to be asked again.
-/

namespace Conduit.Pipe

/-- The answer of a device: a result, or that it is not ready, and whether to ask again. -/
inductive Poll (α : Type) where
  | ready (a : α)
  | pending (again : Bool)
  deriving DecidableEq

/-- Devices in a state `D`, one for each port of a hub. Reading no bytes means the end of the
stream. -/
structure Devices (D : Type) where
  read : D → Nat → Nat → D × Poll (Except OsError Bytes)
  write : D → Nat → Bytes → D × Poll (Except OsError Nat)
  flush : D → Nat → D × Poll (Except OsError Unit)

/-- What a scripted device does next: bytes to read, bytes to accept, a failure, or the end of the
stream. -/
inductive Item where
  | bytes (b : Bytes)
  | accept (n : Nat)
  | fault (e : OsError)
  | pending
  | ended (stays : Bool)
  deriving DecidableEq, Inhabited

/-- What a scripted device does at a flush. -/
inductive FlushItem where
  | succeed
  | fault (e : OsError)
  | pending
  | stall
  deriving DecidableEq, Inhabited

/-- A device that follows a script, and what it has taken so far. With nothing left of the script a
reader is not ready, and a writer accepts `auto` bytes if that is any. -/
structure Scripted where
  items : List Item := []
  flushes : List FlushItem := []
  auto : Nat := 0
  accepted : Bytes := []
  flushed : Nat := 0
  deriving Inhabited

namespace Scripted

/-- Reads at most `want` bytes; bytes that do not fit stay. -/
def read (d : Scripted) (want : Nat) : Scripted × Poll (Except OsError Bytes) :=
  match d.items with
  | [] => (d, .pending false)
  | .bytes b :: rest =>
    match b.drop want with
    | [] => ({ d with items := rest }, .ready (.ok b))
    | left => ({ d with items := .bytes left :: rest }, .ready (.ok (b.take want)))
  | .accept _ :: rest => ({ d with items := rest }, .ready (.ok []))
  | .fault e :: rest => ({ d with items := rest }, .ready (.error e))
  | .pending :: rest => ({ d with items := rest }, .pending true)
  | .ended true :: _ => (d, .ready (.ok []))
  | .ended false :: rest => ({ d with items := rest }, .ready (.ok []))

/-- Takes up to `n` of the bytes offered. -/
def accept (d : Scripted) (n : Nat) (offered : Bytes) : Scripted × Poll (Except OsError Nat) :=
  ({ d with accepted := d.accepted ++ offered.take n }, .ready (.ok (min n offered.length)))

def write (d : Scripted) (offered : Bytes) : Scripted × Poll (Except OsError Nat) :=
  match d.items with
  | [] => if d.auto = 0 then (d, .pending false) else d.accept d.auto offered
  | .accept n :: rest => { d with items := rest }.accept n offered
  | .fault e :: rest => ({ d with items := rest }, .ready (.error e))
  | .pending :: rest => ({ d with items := rest }, .pending true)
  | .bytes _ :: rest | .ended _ :: rest => ({ d with items := rest }, .ready (.ok 0))

def flush (d : Scripted) : Scripted × Poll (Except OsError Unit) :=
  match d.flushes with
  | [] => ({ d with flushed := d.flushed + 1 }, .ready (.ok ()))
  | .succeed :: rest => ({ d with flushes := rest, flushed := d.flushed + 1 }, .ready (.ok ()))
  | .fault e :: rest => ({ d with flushes := rest }, .ready (.error e))
  | .pending :: rest => ({ d with flushes := rest }, .pending true)
  | .stall :: _ => (d, .pending false)

/-- Something done with one of several devices. -/
def asked {α : Type} (f : Scripted → Scripted × Poll α) (ds : List Scripted) (p : Nat) :
    List Scripted × Poll α :=
  match ds[p]? with
  | none => (ds, .pending false)
  | some d => ((ds.set p (f d).1), (f d).2)

/-- Scripted devices, one for each port. -/
def devices : Devices (List Scripted) where
  read ds p want := asked (·.read want) ds p
  write ds p offered := asked (·.write offered) ds p
  flush ds p := asked (·.flush) ds p

end Scripted

end Conduit.Pipe
