import DistributedStorage.Files.Versions
import Mathlib.Data.Fintype.Basic
import Mathlib.Data.Rat.Defs

/-! The locks of the file server. Whoever looks a lock up takes it out of the table first when it has expired.
A handler's step comes with what the clock shows when it reads it. -/

namespace DistributedStorage.Files

open Library Library.Runs

structure LockInfo where
  owner : String
  expiresAt : ℚ
  timer : ℕ
  deriving DecidableEq

/-- A timer that is running, for a call of `_auto_release_lock`. -/
structure Timer where
  id : ℕ
  filename : String
  owner : String
  deriving DecidableEq

structure LockTable where
  fileLocks : String → Option LockInfo
  notifications : String → List String
  timers : List Timer
  nextTimer : ℕ

inductive LockReply
  | lockFile (success : Bool) (errorMessage : String) (expiresAtEpochMs : ℤ)
  | unlockFile (success : Bool) (errorMessage : String)
  | lockNotification (messages : List String)
  | file (r : Reply)
  deriving DecidableEq

/-- A handler and the step it is about to make; `autoRelease` is the thread of a timer. -/
inductive LockCall
  | file (c : Call)
  | lockFile (filename : String) (timeoutSeconds : ℤ) (clientId : String)
  | lockSection (filename : String) (timeoutSeconds : ℤ) (clientId : String)
  | unlockFile (filename clientId : String)
  | getLockNotifications (clientId : String)
  | autoRelease (filename owner : String)
  deriving DecidableEq

inductive LockProgress
  | goesOn (c : LockCall)
  | returns (r : LockReply)
  | ends

/-- `int` of a number that is not whole. -/
def truncate (q : ℚ) : ℤ := q.num.tdiv q.den

namespace LockTable

variable (t : LockTable) (now : ℚ) (filename : String)

def new : LockTable := ⟨fun _ => none, fun _ => [], [], 1⟩

def timedOut : String := "Lock on '" ++ filename ++ "' timed out and was released automatically."

def pushNotification (clientId message : String) : LockTable :=
  if clientId = "" then t
  else
    { t with
      notifications := Function.update t.notifications clientId (t.notifications clientId ++ [message]) }

def cancel (timer : ℕ) : LockTable := { t with timers := t.timers.filter fun r => r.id ≠ timer }

def pop : LockTable := { t with fileLocks := Function.update t.fileLocks filename none }

def cleanupExpired : LockTable :=
  match t.fileLocks filename with
  | none => t
  | some l =>
    if now < l.expiresAt then t
    else ((t.cancel l.timer).pop filename).pushNotification l.owner (timedOut filename)

def autoRelease (owner : String) : LockTable :=
  match t.fileLocks filename with
  | none => t
  | some l =>
    if l.owner ≠ owner then t
    else if now < l.expiresAt then t
    else (t.pop filename).pushNotification owner (timedOut filename)

/-- The lock section of LockFile. It reads the clock a second time. -/
def lock (later : ℚ) (timeoutSeconds : ℤ) (clientId : String) : LockTable × LockReply :=
  let u := t.cleanupExpired now filename
  match u.fileLocks filename with
  | some l =>
    (u, .lockFile false ("File '" ++ filename ++ "' is already locked for writes (about " ++
      toString (max 0 (truncate (l.expiresAt - later))) ++ "s remaining)") (truncate (l.expiresAt * 1000)))
  | none =>
    let expiresAt := later + timeoutSeconds
    ({ u with
      fileLocks := Function.update u.fileLocks filename (some ⟨clientId, expiresAt, u.nextTimer⟩)
      timers := u.timers ++ [⟨u.nextTimer, filename, clientId⟩]
      nextTimer := u.nextTimer + 1 }, .lockFile true "" (truncate (expiresAt * 1000)))

def unlock (clientId : String) : LockTable × LockReply :=
  let u := t.cleanupExpired now filename
  match u.fileLocks filename with
  | none => (u, .unlockFile false ("File '" ++ filename ++ "' is not locked"))
  | some l =>
    if l.owner ≠ clientId then (u, .unlockFile false ("Only lock owner can unlock file '" ++ filename ++ "'"))
    else
      (((u.cancel l.timer).pop filename).pushNotification l.owner
        ("Lock on '" ++ filename ++ "' was released explicitly."), .unlockFile true "")

def takeNotifications (clientId : String) : LockTable × LockReply :=
  ({ t with notifications := Function.update t.notifications clientId [] },
    .lockNotification (t.notifications clientId))

end LockTable

namespace DSFSServicer

/-- The file whose lock the step looks up. -/
def looksUp (s : DSFSServicer) : Call → Option String
  | .openSection f mode _ => if mode = "w" then some f else none
  | .close handle _ => (s.openFiles handle).bind fun info => if info.mode = "w" then some info.filename else none
  | _ => none

/-- What the step finds in the table. -/
def lookedUp (s : DSFSServicer) (table : LockTable) (now : ℚ) (c : Call) : LockTable :=
  match s.looksUp c with
  | some f => table.cleanupExpired now f
  | none => table

/-- The server for which the files are locked that are locked in the table. -/
def under (s : DSFSServicer) (table : LockTable) : DSFSServicer :=
  { s with fileLocks := fun f => (table.fileLocks f).isSome }

/-- A step of a handler, or of the thread of a timer. -/
def turn (s : DSFSServicer) (table : LockTable) (now later : ℚ) :
    LockCall → DSFSServicer × LockTable × LockProgress
  | .file c =>
    let u := s.lookedUp table now c
    match (s.under u).run c with
    | (t, .goesOn c') => (t, u, .goesOn (.file c'))
    | (t, .returns r) => (t, u, .returns (.file r))
  | .lockFile f timeoutSeconds clientId =>
    if timeoutSeconds ≤ 0 then (s, table, .returns (.lockFile false "timeout_seconds must be > 0" 0))
    else if (s.disk f).isNone then (s, table, .returns (.lockFile false "File not found" 0))
    else (s, table, .goesOn (.lockSection f timeoutSeconds clientId))
  | .lockSection f timeoutSeconds clientId =>
    let out := table.lock now f later timeoutSeconds clientId
    (s, out.1, .returns out.2)
  | .unlockFile f clientId =>
    let out := table.unlock now f clientId
    (s, out.1, .returns out.2)
  | .getLockNotifications clientId =>
    let out := table.takeNotifications clientId
    (s, out.1, .returns out.2)
  | .autoRelease f owner => (s, table.autoRelease now f owner, .ends)

end DSFSServicer

/-- The server and its threads. `atGrant f` is the content and the version that `f` had when it was last
locked. -/
structure LockSystem (ι : Type) where
  server : DSFSServicer
  table : LockTable
  calls : ι → Option LockCall
  history : List LockReply
  atGrant : String → FileData × ℕ

/-- A timer fires in a thread of its own; the rest are steps of the handlers. -/
inductive LockLabel (ι : Type)
  | call (t : ι) (c : LockCall)
  | fire (t : ι) (timer : Timer)
  | run (t : ι) (now later : ℚ)

/-- The first steps of Open, Close, TestVersionNumber and the calls on locks. -/
def LockCall.IsRequest : LockCall → Prop
  | .file (.openExists ..) | .file (.close ..) | .file (.testVersionNumber _) => True
  | .lockFile .. | .unlockFile .. | .getLockNotifications _ => True
  | _ => False

instance LockCall.decidableIsRequest (c : LockCall) : Decidable c.IsRequest :=
  match c with
  | .file (.openExists ..) | .file (.close ..) | .file (.testVersionNumber _) | .lockFile .. | .unlockFile ..
  | .getLockNotifications _ => isTrue trivial
  | .file (.create _) | .file (.createFile _) | .file (.createVersion _) | .file (.openFetch ..)
  | .file (.openRead ..) | .file (.openSection ..) | .file (.closeVersion ..) | .file (.closeFile ..)
  | .file (.closeUpdate ..) | .lockSection .. | .autoRelease .. => isFalse id

namespace LockSystem

variable {ι : Type} [DecidableEq ι]

def init (disk : String → Option FileData) : LockSystem ι where
  server := .new disk
  table := .new
  calls _ := none
  history := []
  atGrant _ := ([], 0)

/-- The file that the step locks. -/
def grants (table : LockTable) (now : ℚ) : LockCall → Option String
  | .lockSection f _ _ => if ((table.cleanupExpired now f).fileLocks f).isNone then some f else none
  | _ => none

/-- The content and the version of a file. -/
def state (s : DSFSServicer) (f : String) : FileData × ℕ := (s.content f, s.version f)

def settle (x : LockSystem ι) (t : ι) : LockProgress → LockSystem ι
  | .goesOn c => { x with calls := Function.update x.calls t (some c) }
  | .returns r => { x with calls := Function.update x.calls t none, history := x.history ++ [r] }
  | .ends => { x with calls := Function.update x.calls t none }

def step (x : LockSystem ι) : LockLabel ι → Option (LockSystem ι)
  | .call t c =>
    if (x.calls t).isNone ∧ c.IsRequest then some { x with calls := Function.update x.calls t (some c) }
    else none
  | .fire t timer =>
    if (x.calls t).isNone ∧ timer ∈ x.table.timers then
      some { x with
        table := x.table.cancel timer.id
        calls := Function.update x.calls t (some (.autoRelease timer.filename timer.owner)) }
    else none
  | .run t now later => (x.calls t).map fun c =>
    let out := x.server.turn x.table now later c
    let atGrant :=
      match grants x.table now c with
      | some f => Function.update x.atGrant f (state x.server f)
      | none => x.atGrant
    ({ x with server := out.1, table := out.2.1, atGrant := atGrant } : LockSystem ι).settle t out.2.2

/-- A Close that has not found its file locked and has not yet returned. -/
def Commits (f : String) : LockCall → Prop
  | .file (.closeVersion info _) => info.mode = "w" ∧ info.filename = f
  | .file (.closeFile g _ _) | .file (.closeUpdate g _ _) => g = f
  | _ => False

/-- A lock is granted only while no Close is about to write the file. -/
def Clear (x : LockSystem ι) : LockLabel ι → Prop
  | .run t now _ => ∀ c ∈ x.calls t, ∀ f ∈ grants x.table now c, ∀ u, ∀ d ∈ x.calls u, ¬Commits f d
  | _ => True

end LockSystem

end DistributedStorage.Files
