import Conduit.Address.Basic
import Conduit.Kernel.Settings

/-!
The system behind the sockets: its descriptors, the files that local sockets leave in the working
directory, and the ports in use. What a descriptor does next with a peer is in `Kernel.Link`, how
bytes travel in `Kernel.Transfer`, what the system does of itself in `Kernel.Whims`.
-/

namespace Conduit.Kernel

/-- Bytes on their way, in the room that they take of their sender. -/
structure Parcel where
  rest : Bytes
  room : Nat
  sender : Nat
  deriving DecidableEq, Inhabited

/-- What the system does of itself when bytes of a stream are to move, when somebody is to be accepted,
or when it is told how a descriptor is to be used. -/
inductive Whim where
  | obey
  /-- It moves so many bytes at most, and finds room for them. -/
  | partly (n : Nat)
  /-- It fails with a number: a signal comes in between, say, or nothing can be done after all. -/
  | fail (number : Int)
  deriving DecidableEq, Inhabited

inductive Role where
  | idle
  /-- It lets `room` more descriptors wait than one, and these do. -/
  | listening (room : Nat) (queue : List Nat)
  /-- It waits for a listener to have room. -/
  | connecting (target : Address)
  | connected (peer : Option Nat) (address : Address)
  deriving DecidableEq, Inhabited

structure Descriptor where
  family : Family
  type : SocketType
  settings : Settings := []
  address : Option Address := none
  role : Role := .idle
  closed : Bool := false
  inbox : List Parcel := []
  /-- Nothing more will come in. -/
  readEnded : Bool := false
  /-- Nothing more can be sent. -/
  writeEnded : Bool := false
  /-- The number of a failure that the next operation meets. -/
  failure : Option Int := none
  /-- Whether a write waits for room. -/
  stalled : Bool := false
  deriving Inhabited

structure System where
  descriptors : List Descriptor := []
  /-- The names in the working directory, with the descriptors that they were made for. -/
  files : List (Bytes × Nat) := []
  /-- Whether no more descriptors can be had. -/
  limited : Bool := false
  /-- Whether there is a way to Internet addresses, the machine's own included. -/
  reachable : Bool := false
  /-- The ports that the system has chosen itself. -/
  chosen : List UInt16 := []
  /-- What it does of itself at the next calls; after these it does what it is asked. -/
  whims : List Whim := []
  deriving Inhabited

/-- What a path leads to. -/
inductive Entry where
  | directory
  | file (d : Nat)
  | free (name : Bytes)
  /-- A directory on the way does not exist. -/
  | missing
  /-- Something on the way is no directory. -/
  | blocked
  deriving DecidableEq, Inhabited

namespace System

def modify (s : System) (d : Nat) (f : Descriptor → Descriptor) : System :=
  { s with descriptors := s.descriptors.modify d f }

def role? (s : System) (d : Nat) : Option Role := s.descriptors[d]?.map (·.role)

/-- Whether a descriptor is open. -/
def isOpen (s : System) (d : Nat) : Bool :=
  match s.descriptors[d]? with
  | some x => !x.closed
  | none => false

/-- A new descriptor, unless no more can be had. -/
def create (s : System) (family : Family) (type : SocketType) : Except OsError (System × Nat) :=
  if s.limited then .error (.number 24)
  else .ok ({ s with descriptors := s.descriptors ++ [{ family, type }] }, s.descriptors.length)

/-- Sets an option. A value whose length is no 32-bit number is refused before the system is asked. -/
def setOption (s : System) (d : Nat) (o : SocketOption) : Except OsError System :=
  if 1 <<< 32 ≤ o.payload.length then .error (.simple .invalidInput)
  else
    match s.descriptors[d]? with
    | none => .error (.number 9)
    | some x =>
      (x.settings.set x.family x.type o).map fun settings =>
        s.modify d fun x => { x with settings }

/-- The number of the protocol of a descriptor. -/
def protocolOf (x : Descriptor) : Nat :=
  if x.family = .unix then 0 else if x.type = .stream then 6 else 17

/-- The bytes of an option. Reading the failure of a descriptor takes it away. -/
def getOption (s : System) (d : Nat) (level name : Int32) : Except OsError (System × Bytes) :=
  match s.descriptors[d]? with
  | none => .error (.number 9)
  | some x =>
    (Settings.find x.family x.type level name).map fun
      | .type => (s, SocketOption.encodeInt x.type.number)
      | .domain => (s, SocketOption.encodeInt x.family.number)
      | .protocol => (s, Bytes.ofNatLE 4 (protocolOf x))
      | .accepting =>
        (s, Bytes.ofNatLE 4 (match x.role with | .listening .. => 1 | _ => 0))
      | .failure =>
        (s.modify d fun x => { x with failure := none }, Bytes.ofNatLE 4 (x.failure.getD 0).toNat)
      | k => (s, x.settings.get level name k)

/-- Whether a path can only lead to a directory: it ends in a slash. -/
def asksForDirectory (p : UnixPath) : Bool := p.bytes.getLast? = some 47

/-- What a path leads to. There are no directories below the working directory, and none above it
takes a name. -/
def find (s : System) (p : UnixPath) : Entry :=
  match p.components.names.filter (· ≠ [46]) with
  | [] => .directory
  | name :: below =>
    if p.components.rooted then .missing
    else if name = [46, 46] then if below = [] then .directory else .missing
    else
      match s.files.lookup name, below with
      | some d, [] => .file d
      | some _, _ => .blocked
      | none, [] => if asksForDirectory p then .missing else .free name
      | none, _ => .missing

/-- Whether the machine itself has an address. -/
def isOwn (ip : Ipv4) : Bool := ip = .any || ip.octets.val.head? = some 127

def isOwn6 (ip : Ipv6) : Bool := ip = .any || ip = .loopback

/-- Whether two addresses stand for the same port of the machine. -/
def overlap : Address → Address → Bool
  | .inet4 a p, .inet4 b q => p = q && (a = b || a = .any || b = .any)
  | .inet6 a p _ _, .inet6 b q _ _ => p = q && (a = b || a = .any || b = .any)
  | _, _ => false

/-- Whether a descriptor lets its address be bound again. -/
def sharesAddress (x : Descriptor) : Bool :=
  x.settings.get 1 2 .flag ≠ Bytes.ofNatLE 4 0 &&
    (x.type = .datagram || match x.role with | .listening .. => false | _ => true)

/-- Whether an address is taken, for a descriptor. -/
def isTaken (s : System) (x : Descriptor) (a : Address) : Bool :=
  s.descriptors.any fun y =>
    !y.closed && y.family = x.family && y.type = x.type &&
      (match y.address with | some b => overlap a b | none => false) &&
      !(sharesAddress x && sharesAddress y)

/-- The ports that the system chooses from, the lowest one first. -/
def firstFreePort : Nat := 32768

/-- A port that no descriptor has. -/
def freePort (s : System) : UInt16 :=
  let used := s.descriptors.filterMap fun y => y.address.bind (·.port?)
  ((List.range (s.chosen.length + used.length + 1)).map fun i =>
    (firstFreePort + i).toUInt16).find? (fun p => p ∉ used && p ∉ s.chosen) |>.getD 0

/-- The address with a port that the system has chosen where it had none. -/
def withPort (s : System) : Address → System × Address
  | .inet4 ip 0 => ({ s with chosen := s.chosen ++ [s.freePort] }, .inet4 ip s.freePort)
  | .inet6 ip 0 flow scope =>
    ({ s with chosen := s.chosen ++ [s.freePort] }, .inet6 ip s.freePort flow scope)
  | a => (s, a)

def setAddress (s : System) (d : Nat) (a : Address) : System :=
  s.modify d fun x => { x with address := some a }

/-- Binds a descriptor to an Internet address, which is to be the machine's own. A machine without a
way to any address knows none as its own, and takes all. -/
def bindInet (s : System) (d : Nat) (x : Descriptor) (own : Bool) (a : Address) :
    Except OsError System :=
  if s.reachable && !own then .error (.number 99)
  else
    let (s, a) := s.withPort a
    if s.isTaken x a then .error (.number 98) else .ok (s.setAddress d a)

/-- Binds a descriptor to an address. A local socket leaves a file; one without a path is known by
no path. -/
def bind (s : System) (d : Nat) (a : Address) : Except OsError System :=
  match s.descriptors[d]? with
  | none => .error (.number 9)
  | some x =>
    if x.family ≠ a.family then .error (.number 22)
    else
      match a with
      | .inet4 ip _ => s.bindInet d x (isOwn ip) a
      | .inet6 ip .. => s.bindInet d x (isOwn6 ip) a
      | .unix p =>
        if p.isUnnamed then .ok (s.setAddress d a)
        else
          match s.find p with
          | .free name => .ok { s.setAddress d a with files := (name, d) :: s.files }
          | .missing => .error (.number 2)
          | .blocked => .error (.number 20)
          | _ => .error (.number 98)

/-- The address of a descriptor that has not been bound. -/
def blank : Family → Address
  | .inet4 => .inet4 .any 0
  | .inet6 => .inet6 .any 0 0 0
  | .unix => .unix .unnamed

def localAddress (s : System) (d : Nat) : Except OsError Address :=
  match s.descriptors[d]? with
  | none => .error (.number 9)
  | some x => .ok (x.address.getD (blank x.family))

def peerAddress (s : System) (d : Nat) : Except OsError Address :=
  match s.descriptors[d]? with
  | none => .error (.number 9)
  | some x =>
    match x.role with
    | .connected _ a => .ok a
    | _ => .error (.number 107)

end System

end Conduit.Kernel
