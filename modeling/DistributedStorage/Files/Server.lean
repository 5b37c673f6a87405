import Mathlib.Data.Int.Notation
import Mathlib.Data.Nat.Notation
import Mathlib.Logic.Function.Basic
import DistributedStorage.Library.PartialMaps
import DistributedStorage.Library.Runs

/-! The single file server. A handler is cut into its atomic steps: one lock section, one test, one
whole-file read or one whole-file write each. A file name stands for the file it leads to. -/

namespace DistributedStorage.Files

open Library

abbrev FileData := List UInt8

structure OpenFile where
  filename : String
  mode : String
  deriving DecidableEq

structure DSFSServicer where
  disk : String → Option FileData
  openFiles : ℤ → Option OpenFile
  fileVersions : String → Option ℕ
  fileLocks : String → Bool
  nextHandle : ℤ

/-- A handler and the step it is about to make. -/
inductive Call
  | create (filename : String)
  | createFile (filename : String)
  | createVersion (filename : String)
  | openExists (filename mode : String) (fetchData : Bool)
  | openFetch (filename mode : String) (fetchData : Bool)
  | openRead (filename mode : String)
  | openSection (filename mode : String) (data : Option FileData)
  | close (handle : ℤ) (data : FileData)
  | closeVersion (info : OpenFile) (data : FileData)
  | closeFile (filename : String) (data : FileData) (current : ℕ)
  | closeUpdate (filename : String) (data : FileData) (current : ℕ)
  | testVersionNumber (filename : String)
  deriving DecidableEq

/-- An answer. `data` of `opened` is `none` when the request did not ask for the bytes; `committed` of
`closed` holds what a Close wrote. -/
inductive Reply
  | created (filename : String)
  | opened (filename : String) (handle : ℤ) (data : Option FileData) (version : ℕ)
  | closed (filename : String) (committed : Option FileData) (version : ℕ)
  | version (filename : String) (version : ℕ)
  | failed (message : String)
  deriving DecidableEq

inductive Progress
  | goesOn (c : Call)
  | returns (r : Reply)
  deriving DecidableEq

/-- The first step of each handler. -/
def Call.IsRequest : Call → Prop
  | .create _ | .openExists .. | .close .. | .testVersionNumber _ => True
  | _ => False

instance (c : Call) : Decidable c.IsRequest := by
  cases c <;> simp only [Call.IsRequest] <;> infer_instance

namespace DSFSServicer

/-- A server that has just started, on the files it finds. -/
def new (disk : String → Option FileData) : DSFSServicer where
  disk := disk
  openFiles _ := none
  fileVersions _ := none
  fileLocks _ := false
  nextHandle := 1

def version (s : DSFSServicer) (filename : String) : ℕ := (s.fileVersions filename).getD 1

/-- A file that is not there reads as one without bytes. -/
def content (s : DSFSServicer) (filename : String) : FileData := (s.disk filename).getD []

def writeFile (s : DSFSServicer) (filename : String) (data : FileData) : DSFSServicer :=
  { s with disk := Function.update s.disk filename (some data) }

def setVersion (s : DSFSServicer) (filename : String) (version : ℕ) : DSFSServicer :=
  { s with fileVersions := Function.update s.fileVersions filename (some version) }

def lockedMessage (filename : String) : String :=
  "File '" ++ filename ++ "' is currently locked for writes"

/-- The lock section of Open. -/
def openHandle (s : DSFSServicer) (filename mode : String) (data : Option FileData) :
    DSFSServicer × Reply :=
  if mode = "w" ∧ s.fileLocks filename then (s, .failed (lockedMessage filename))
  else
    let t := { s with
      openFiles := Function.update s.openFiles s.nextHandle (some ⟨filename, mode⟩)
      nextHandle := s.nextHandle + 1 }
    let u := if t.fileVersions filename = none ∧ (t.disk filename).isSome then t.setVersion filename 1 else t
    (u, .opened filename s.nextHandle data (u.version filename))

/-- The first lock section of Close. -/
def closeHandle (s : DSFSServicer) (handle : ℤ) (data : FileData) : DSFSServicer × Progress :=
  match s.openFiles handle with
  | none => (s, .returns (.failed "Invalid file handle"))
  | some info =>
    if info.mode = "w" ∧ s.fileLocks info.filename then
      (s, .returns (.failed (lockedMessage info.filename)))
    else
      ({ s with openFiles := Function.update s.openFiles handle none }, .goesOn (.closeVersion info data))

def run (s : DSFSServicer) : Call → DSFSServicer × Progress
  | .create f =>
    if (s.disk f).isSome then (s, .returns (.failed "File already exists")) else (s, .goesOn (.createFile f))
  | .createFile f => (s.writeFile f [], .goesOn (.createVersion f))
  | .createVersion f => (s.setVersion f 1, .returns (.created f))
  | .openExists f mode fetchData =>
    if mode ≠ "r" ∧ mode ≠ "w" then (s, .returns (.failed "Mode must be 'r' or 'w'"))
    else if (s.disk f).isNone ∧ mode = "r" then (s, .returns (.failed "File not found"))
    else (s, .goesOn (.openFetch f mode fetchData))
  | .openFetch f mode fetchData =>
    if fetchData then
      if (s.disk f).isSome then (s, .goesOn (.openRead f mode))
      else (s, .goesOn (.openSection f mode (some [])))
    else (s, .goesOn (.openSection f mode none))
  | .openRead f mode =>
    match s.disk f with
    | some data => (s, .goesOn (.openSection f mode (some data)))
    | none => (s, .returns (.failed ("[Errno 2] No such file or directory: './server_data/" ++ f ++ "'")))
  | .openSection f mode data =>
    let out := s.openHandle f mode data
    (out.1, .returns out.2)
  | .close handle data => s.closeHandle handle data
  | .closeVersion info data =>
    if info.mode = "w" then (s, .goesOn (.closeFile info.filename data (s.version info.filename)))
    else (s, .returns (.closed info.filename none 0))
  | .closeFile f data current => (s.writeFile f data, .goesOn (.closeUpdate f data current))
  | .closeUpdate f data current =>
    (s.setVersion f (current + 1), .returns (.closed f (some data) (current + 1)))
  | .testVersionNumber f => (s, .returns (.version f (s.version f)))

end DSFSServicer

end DistributedStorage.Files
