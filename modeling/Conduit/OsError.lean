/-!
Failures reported by the operating system or by a device, classified by what went wrong.
-/

namespace Conduit

/-- What went wrong in an input/output operation. -/
inductive OsErrorKind where
  | notFound | permissionDenied | connectionRefused | connectionReset | hostUnreachable
  | networkUnreachable | connectionAborted | notConnected | addrInUse | addrNotAvailable
  | networkDown | brokenPipe | alreadyExists | wouldBlock | notADirectory | isADirectory
  | directoryNotEmpty | readOnlyFilesystem | filesystemLoop | staleNetworkFileHandle
  | invalidInput | invalidData | timedOut | writeZero | storageFull | notSeekable
  | quotaExceeded | fileTooLarge | resourceBusy | executableFileBusy | deadlock
  | crossesDevices | tooManyLinks | invalidFilename | argumentListTooLong | interrupted
  | unsupported | unexpectedEof | outOfMemory | inProgress | tooManyOpenFiles
  | inputOutputError | other | uncategorized
  deriving DecidableEq, Inhabited

namespace OsErrorKind

def name : OsErrorKind → String
  | notFound => "NotFound"
  | permissionDenied => "PermissionDenied"
  | connectionRefused => "ConnectionRefused"
  | connectionReset => "ConnectionReset"
  | hostUnreachable => "HostUnreachable"
  | networkUnreachable => "NetworkUnreachable"
  | connectionAborted => "ConnectionAborted"
  | notConnected => "NotConnected"
  | addrInUse => "AddrInUse"
  | addrNotAvailable => "AddrNotAvailable"
  | networkDown => "NetworkDown"
  | brokenPipe => "BrokenPipe"
  | alreadyExists => "AlreadyExists"
  | wouldBlock => "WouldBlock"
  | notADirectory => "NotADirectory"
  | isADirectory => "IsADirectory"
  | directoryNotEmpty => "DirectoryNotEmpty"
  | readOnlyFilesystem => "ReadOnlyFilesystem"
  | filesystemLoop => "FilesystemLoop"
  | staleNetworkFileHandle => "StaleNetworkFileHandle"
  | invalidInput => "InvalidInput"
  | invalidData => "InvalidData"
  | timedOut => "TimedOut"
  | writeZero => "WriteZero"
  | storageFull => "StorageFull"
  | notSeekable => "NotSeekable"
  | quotaExceeded => "QuotaExceeded"
  | fileTooLarge => "FileTooLarge"
  | resourceBusy => "ResourceBusy"
  | executableFileBusy => "ExecutableFileBusy"
  | deadlock => "Deadlock"
  | crossesDevices => "CrossesDevices"
  | tooManyLinks => "TooManyLinks"
  | invalidFilename => "InvalidFilename"
  | argumentListTooLong => "ArgumentListTooLong"
  | interrupted => "Interrupted"
  | unsupported => "Unsupported"
  | unexpectedEof => "UnexpectedEof"
  | outOfMemory => "OutOfMemory"
  | inProgress => "InProgress"
  | tooManyOpenFiles => "TooManyOpenFiles"
  | inputOutputError => "InputOutputError"
  | other => "Other"
  | uncategorized => "Uncategorized"

def all : List OsErrorKind :=
  [.notFound, .permissionDenied, .connectionRefused, .connectionReset, .hostUnreachable,
    .networkUnreachable, .connectionAborted, .notConnected, .addrInUse, .addrNotAvailable,
    .networkDown, .brokenPipe, .alreadyExists, .wouldBlock, .notADirectory, .isADirectory,
    .directoryNotEmpty, .readOnlyFilesystem, .filesystemLoop, .staleNetworkFileHandle,
    .invalidInput, .invalidData, .timedOut, .writeZero, .storageFull, .notSeekable,
    .quotaExceeded, .fileTooLarge, .resourceBusy, .executableFileBusy, .deadlock,
    .crossesDevices, .tooManyLinks, .invalidFilename, .argumentListTooLong, .interrupted,
    .unsupported, .unexpectedEof, .outOfMemory, .inProgress, .tooManyOpenFiles,
    .inputOutputError, .other, .uncategorized]

/-- The kind of a name. -/
def ofName? (s : String) : Option OsErrorKind := all.find? (·.name = s)

end OsErrorKind

/-- The kind that an error number of the system stands for. -/
def OsErrorKind.ofNumber (n : Int) : OsErrorKind :=
  if n = 1 ∨ n = 13 then .permissionDenied
  else if n = 2 then .notFound
  else if n = 4 then .interrupted
  else if n = 5 then .inputOutputError
  else if n = 7 then .argumentListTooLong
  else if n = 11 then .wouldBlock
  else if n = 12 then .outOfMemory
  else if n = 16 then .resourceBusy
  else if n = 17 then .alreadyExists
  else if n = 18 then .crossesDevices
  else if n = 20 then .notADirectory
  else if n = 21 then .isADirectory
  else if n = 22 then .invalidInput
  else if n = 24 then .tooManyOpenFiles
  else if n = 26 then .executableFileBusy
  else if n = 27 then .fileTooLarge
  else if n = 28 then .storageFull
  else if n = 29 then .notSeekable
  else if n = 30 then .readOnlyFilesystem
  else if n = 31 then .tooManyLinks
  else if n = 32 then .brokenPipe
  else if n = 35 then .deadlock
  else if n = 36 then .invalidFilename
  else if n = 38 ∨ n = 95 then .unsupported
  else if n = 39 then .directoryNotEmpty
  else if n = 40 then .filesystemLoop
  else if n = 98 then .addrInUse
  else if n = 99 then .addrNotAvailable
  else if n = 100 then .networkDown
  else if n = 101 then .networkUnreachable
  else if n = 103 then .connectionAborted
  else if n = 104 then .connectionReset
  else if n = 107 then .notConnected
  else if n = 110 then .timedOut
  else if n = 111 then .connectionRefused
  else if n = 113 then .hostUnreachable
  else if n = 115 then .inProgress
  else if n = 116 then .staleNetworkFileHandle
  else if n = 122 then .quotaExceeded
  else .uncategorized

/-- An input/output failure: an error number, a bare kind, or a kind with a text of its own. -/
inductive OsError where
  | number (n : Int)
  | simple (kind : OsErrorKind)
  | custom (kind : OsErrorKind) (text : String)
  deriving DecidableEq, Inhabited

namespace OsError

def kind : OsError → OsErrorKind
  | number n => .ofNumber n
  | simple k => k
  | custom k _ => k

/-- The error number, where the failure came with one. -/
def number? : OsError → Option Int
  | number n => some n
  | _ => none

end OsError

end Conduit
