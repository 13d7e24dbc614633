import FileMover.Model.Text

/-!
# Error numbers

`errno` and SQLite's result codes are plain integers, and so are they here.
The names carry the values of the x86-64 Linux headers the program is built
against.
-/

namespace FileMover

abbrev Errno := Nat

def EPERM : Errno := 1
def ENOENT : Errno := 2
def EINTR : Errno := 4
def EIO : Errno := 5
def ENXIO : Errno := 6
def EAGAIN : Errno := 11
def ENOMEM : Errno := 12
def EACCES : Errno := 13
def EBUSY : Errno := 16
def EEXIST : Errno := 17
def EXDEV : Errno := 18
def ENOTDIR : Errno := 20
def EISDIR : Errno := 21
def ENOSPC : Errno := 28
def EROFS : Errno := 30
def ENAMETOOLONG : Errno := 36
def ENOTEMPTY : Errno := 39
def ELOOP : Errno := 40
def ETIMEDOUT : Errno := 110
def ESTALE : Errno := 116

/-- The messages of glibc, each at its number. Two numbers in the middle are not used. -/
def errnoTexts : List String :=
  ["Success", "Operation not permitted", "No such file or directory", "No such process",
    "Interrupted system call", "Input/output error", "No such device or address",
    "Argument list too long", "Exec format error", "Bad file descriptor", "No child processes",
    "Resource temporarily unavailable", "Cannot allocate memory", "Permission denied",
    "Bad address", "Block device required", "Device or resource busy", "File exists",
    "Invalid cross-device link", "No such device", "Not a directory", "Is a directory",
    "Invalid argument", "Too many open files in system", "Too many open files",
    "Inappropriate ioctl for device", "Text file busy", "File too large",
    "No space left on device", "Illegal seek", "Read-only file system", "Too many links",
    "Broken pipe", "Numerical argument out of domain", "Numerical result out of range",
    "Resource deadlock avoided", "File name too long", "No locks available",
    "Function not implemented", "Directory not empty", "Too many levels of symbolic links",
    "Unknown error 41", "No message of desired type", "Identifier removed",
    "Channel number out of range", "Level 2 not synchronized", "Level 3 halted", "Level 3 reset",
    "Link number out of range", "Protocol driver not attached", "No CSI structure available",
    "Level 2 halted", "Invalid exchange", "Invalid request descriptor", "Exchange full",
    "No anode", "Invalid request code", "Invalid slot", "Unknown error 58",
    "Bad font file format", "Device not a stream", "No data available", "Timer expired",
    "Out of streams resources", "Machine is not on the network", "Package not installed",
    "Object is remote", "Link has been severed", "Advertise error", "Srmount error",
    "Communication error on send", "Protocol error", "Multihop attempted", "RFS specific error",
    "Bad message", "Value too large for defined data type", "Name not unique on network",
    "File descriptor in bad state", "Remote address changed",
    "Can not access a needed shared library", "Accessing a corrupted shared library",
    ".lib section in a.out corrupted", "Attempting to link in too many shared libraries",
    "Cannot exec a shared library directly", "Invalid or incomplete multibyte or wide character",
    "Interrupted system call should be restarted", "Streams pipe error", "Too many users",
    "Socket operation on non-socket", "Destination address required", "Message too long",
    "Protocol wrong type for socket", "Protocol not available", "Protocol not supported",
    "Socket type not supported", "Operation not supported", "Protocol family not supported",
    "Address family not supported by protocol", "Address already in use",
    "Cannot assign requested address", "Network is down", "Network is unreachable",
    "Network dropped connection on reset", "Software caused connection abort",
    "Connection reset by peer", "No buffer space available",
    "Transport endpoint is already connected", "Transport endpoint is not connected",
    "Cannot send after transport endpoint shutdown", "Too many references: cannot splice",
    "Connection timed out", "Connection refused", "Host is down", "No route to host",
    "Operation already in progress", "Operation now in progress", "Stale file handle",
    "Structure needs cleaning", "Not a XENIX named type file", "No XENIX semaphores available",
    "Is a named type file", "Remote I/O error", "Disk quota exceeded", "No medium found",
    "Wrong medium type", "Operation canceled", "Required key not available", "Key has expired",
    "Key has been revoked", "Key was rejected by service", "Owner died", "State not recoverable",
    "Operation not possible due to RF-kill", "Memory page has hardware error"]

/-- `strerror`. -/
def strerror (e : Errno) : Bytes :=
  match errnoTexts[e]? with
  | some text => lit text
  | none => lit "Unknown error " ++ decimal e

inductive ErrorClass
  | retryable
  | denied
  | fatal
deriving DecidableEq, Repr

def classifyErrno (e : Errno) : ErrorClass :=
  if e = ESTALE ∨ e = EAGAIN ∨ e = EINTR ∨ e = ENOMEM ∨ e = ENOSPC ∨
      e = EBUSY ∨ e = ETIMEDOUT then .retryable
  else if e = EACCES ∨ e = EPERM ∨ e = EROFS then .denied
  else .fatal

/-! ## SQLite result codes -/

/-- A result code, extended by what SQLite knows of the cause. -/
abbrev SqliteCode := Nat

def SQLITE_BUSY : SqliteCode := 5
def SQLITE_CONSTRAINT_CHECK : SqliteCode := 275
def SQLITE_ABORT_ROLLBACK : SqliteCode := 516
def SQLITE_CONSTRAINT_PRIMARYKEY : SqliteCode := 1555
def SQLITE_ROW : SqliteCode := 100
def SQLITE_DONE : SqliteCode := 101

/-- `aMsg` of `sqlite3ErrStr`, with the message of the codes that have none. -/
def sqliteTexts : List String :=
  ["not an error", "SQL logic error", "unknown error", "access permission denied",
    "query aborted", "database is locked", "database table is locked", "out of memory",
    "attempt to write a readonly database", "interrupted", "disk I/O error",
    "database disk image is malformed", "unknown operation", "database or disk is full",
    "unable to open database file", "locking protocol", "unknown error",
    "database schema has changed", "string or blob too big", "constraint failed",
    "datatype mismatch", "bad parameter or other API misuse", "unknown error",
    "authorization denied", "unknown error", "column index out of range",
    "file is not a database", "notification message", "warning message"]

/-- `sqlite3ErrStr`. -/
def sqliteErrStr (code : SqliteCode) : Bytes :=
  if code = SQLITE_ABORT_ROLLBACK then lit "abort due to ROLLBACK"
  else if code = SQLITE_ROW then lit "another row available"
  else if code = SQLITE_DONE then lit "no more rows available"
  else
    match sqliteTexts[code % 256]? with
    | some text => lit text
    | none => lit "unknown error"

/-- `sqlite3_errmsg` after a statement on the table of jobs ended with this code. A constraint
is named by the statement that it refuses; the other two `CHECK`s of the schema hold of all
that is written. -/
def sqliteErrmsg (code : SqliteCode) : Bytes :=
  if code = SQLITE_CONSTRAINT_PRIMARYKEY then lit "UNIQUE constraint failed: job.id"
  else if code = SQLITE_CONSTRAINT_CHECK then
    lit "CHECK constraint failed: (length(error) > 0) = (state = 'FAILED')"
  else sqliteErrStr code

end FileMover
