import Conduit.Family
import Conduit.OsError
import Conduit.SocketOption

/-!
Settings of descriptors: the options that the system knows, the values that it takes for them and
the bytes that they read back as.
-/

namespace Conduit.Kernel

/-- What an option is about. The first three can be set. -/
inductive Setting where
  /-- On or off. -/
  | flag
  /-- Whether and how long a close waits. -/
  | linger
  /-- Seconds and microseconds; none at all means no limit. -/
  | timeout
  | type | failure | accepting | protocol | domain
  deriving DecidableEq, Inhabited

/-- Whose options a level holds: those of all sockets, those of the Internet, those of its stream
protocol, or those of nothing that the descriptor has. -/
inductive Level where
  | socket | internet | stream | foreign
  deriving DecidableEq, Inhabited

def Level.of (family : Family) (type : SocketType) (level : Int32) : Level :=
  if level = 1 then .socket
  else if level = 0 ∧ family ≠ .unix then .internet
  else if level = 6 ∧ family ≠ .unix ∧ type = .stream then .stream
  else .foreign

/-- The options of a level by their numbers. -/
def Level.settings : Level → List (Int32 × Setting)
  | .socket => [(2, .flag), (3, .type), (4, .failure), (5, .flag), (6, .flag), (9, .flag),
      (10, .flag), (13, .linger), (20, .timeout), (21, .timeout), (30, .accepting), (38, .protocol),
      (39, .domain)]
  | .stream => [(1, .flag)]
  | .internet | .foreign => []

namespace Setting

/-- The size of a value. -/
def size : Setting → Nat
  | .linger => 8
  | .timeout => 16
  | _ => 4

/-- The part of a second to which the clock of the system counts, in microseconds. -/
def clockTick : Nat := 4000

/-- The bytes of a time limit: a whole number of clock ticks, at least as long as asked for. -/
def encodeTimeout (seconds micros : Nat) : Bytes :=
  let ticks := seconds * (1000000 / clockTick) + (micros + clockTick - 1) / clockTick
  Bytes.ofNatLE 8 (ticks / (1000000 / clockTick)) ++
    Bytes.ofNatLE 8 (ticks % (1000000 / clockTick) * clockTick)

/-- The seconds that a close waits at most. -/
def longestLinger : Nat := ((1 <<< 63) - 1) / (1000000 / clockTick)

/-- The bytes of how long a close waits. A negative time is the longest one, of which the low bytes
are kept. -/
def encodeLinger (seconds : Bytes) : Bytes :=
  if 1 <<< 31 ≤ Bytes.toNatLE seconds then Bytes.ofNatLE 4 longestLinger else seconds

/-- The bytes that reads give back once a value of at least four bytes has been set. -/
def accept (k : Setting) (old value : Bytes) : Except OsError Bytes :=
  match k with
  | .flag => .ok (Bytes.ofNatLE 4 (if (value.take 4).all (· = 0) then 0 else 1))
  | .linger =>
    if value.length < 8 then .error (.number 22)
    else if (value.take 4).all (· = 0) then .ok (Bytes.ofNatLE 4 0 ++ old.drop 4)
    else .ok (Bytes.ofNatLE 4 1 ++ encodeLinger ((value.drop 4).take 4))
  | .timeout =>
    let seconds := Bytes.toNatLE (value.take 8)
    let micros := Bytes.toNatLE ((value.drop 8).take 8)
    if value.length < 16 then .error (.number 22)
    else if 1000000 ≤ micros then .error (.number 33)
    else if 1 <<< 63 ≤ seconds then .ok (Bytes.ofNatLE 16 0)
    else .ok (encodeTimeout seconds micros)
  | _ => .error (.number 92)

end Setting

/-- The settings that have been changed, with the bytes that they read back as. -/
abbrev Settings := List ((Int32 × Int32) × Bytes)

namespace Settings

/-- The bytes that a setting reads back as; at first they are zero. -/
def get (s : Settings) (level name : Int32) (k : Setting) : Bytes :=
  (s.lookup (level, name)).getD (Bytes.ofNatLE k.size 0)

def put (s : Settings) (level name : Int32) (value : Bytes) : Settings :=
  ((level, name), value) :: s.filter (·.1 ≠ (level, name))

/-- Sets an option. A length that does not fit a signed number is refused before anything else. A value
shorter than a number is refused before the name is looked at, among the options of all sockets and
those of the stream protocol. -/
def set (s : Settings) (family : Family) (type : SocketType) (o : SocketOption) :
    Except OsError Settings :=
  let level := Level.of family type o.level
  if 1 <<< 31 ≤ o.payload.length then .error (.number 22)
  else if level = .foreign then .error (.number (if family = .unix then 95 else 92))
  else if level ≠ .internet ∧ o.payload.length < 4 then .error (.number 22)
  else
    match level.settings.lookup o.name with
    | none => .error (.number 92)
    | some k =>
      (k.accept (s.get o.level o.name k) o.payload).map fun value => s.put o.level o.name value

/-- The setting that an option reads. -/
def find (family : Family) (type : SocketType) (level name : Int32) : Except OsError Setting :=
  let known := Level.of family type level
  match known.settings.lookup name with
  | some k => .ok k
  | none => .error (.number (if known = .foreign then 95 else 92))

end Settings

end Conduit.Kernel
