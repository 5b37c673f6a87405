import DistributedStorage.Files.Server

/-! One server of the primary-backup file system. As for the single file server, a handler is cut into its
atomic steps; those of a replication request are steps at the peer it is sent to. -/

namespace DistributedStorage.Replication

open Library Files

/-- Who sent a request that may be repeated. -/
structure Caller where
  clientId : String
  seqNum : ℤ
  deriving DecidableEq

inductive Reply
  | created
  | opened (handle : ℤ) (data : FileData) (version : ℕ)
  | closed (newVersion : ℕ)
  | version (version : ℕ)
  | failed (message : String)
  | aborted (code details : String)
  deriving DecidableEq

structure ReplicatedDSFSServer where
  disk : String → Option FileData
  fileVersions : String → Option ℕ
  openFiles : ℤ → Option OpenFile
  nextHandle : ℤ
  dedupCache : String → Option (ℤ × Reply)
  primaryAddr : String
  isPrimary : Bool
  ready : Bool

/-- A handler and the step it is about to make. In a replication loop `peers` are the peers still to be
called. -/
inductive Call
  | create (filename : String) (who : Caller)
  | createRole (filename : String) (who : Caller)
  | createDedup (filename : String) (who : Caller)
  | createExists (filename : String) (who : Caller)
  | createFile (filename : String) (who : Caller)
  | createVersion (filename : String) (who : Caller)
  | replicateCreate (filename : String) (who : Caller) (peers : List ℕ)
  | replicateCreateFile (filename : String) (who : Caller) (peers : List ℕ)
  | replicateCreateVersion (filename : String) (who : Caller) (peers : List ℕ)
  | createStore (who : Caller)
  | open (filename mode : String) (fetchData : Bool)
  | openRole (filename mode : String) (fetchData : Bool)
  | openExists (filename mode : String) (fetchData : Bool)
  | openFetch (filename mode : String) (fetchData : Bool)
  | openRead (filename mode : String)
  | openSection (filename mode : String) (data : FileData)
  | close (handle : ℤ) (data : FileData) (who : Caller)
  | closeLookup (handle : ℤ) (data : FileData) (who : Caller)
  | closeRole (handle : ℤ) (data : FileData) (who : Caller)
  | closeDedup (handle : ℤ) (data : FileData) (who : Caller)
  | closePop (handle : ℤ) (data : FileData) (who : Caller)
  | closeFile (filename : String) (data : FileData) (who : Caller)
  | closeUpdate (filename : String) (data : FileData) (who : Caller)
  | replicateWrite (filename : String) (data : FileData) (newVersion : ℕ) (who : Caller) (peers : List ℕ)
  | closeStore (committed : Option (String × FileData)) (newVersion : ℕ) (who : Caller)
  | testVersionNumber (filename : String)
  deriving DecidableEq

structure FileEntry where
  data : FileData
  version : ℕ
  deriving DecidableEq

inductive Progress
  | goesOn (c : Call)
  | returns (r : Reply)
  deriving DecidableEq

/-- The first step of each handler. -/
def Call.IsRequest : Call → Bool
  | .create .. | .open .. | .close .. | .testVersionNumber _ => true
  | _ => false

namespace ReplicatedDSFSServer

def version (s : ReplicatedDSFSServer) (filename : String) : ℕ := (s.fileVersions filename).getD 1

def content (s : ReplicatedDSFSServer) (filename : String) : FileData := (s.disk filename).getD []

def writeFile (s : ReplicatedDSFSServer) (filename : String) (data : FileData) : ReplicatedDSFSServer :=
  { s with disk := Function.update s.disk filename (some data) }

def setVersion (s : ReplicatedDSFSServer) (filename : String) (version : ℕ) : ReplicatedDSFSServer :=
  { s with fileVersions := Function.update s.fileVersions filename (some version) }

def notReady : Reply := .aborted "UNAVAILABLE" "Server syncing, try again shortly"

def notPrimary (s : ReplicatedDSFSServer) : Reply :=
  .aborted "FAILED_PRECONDITION" ("NOT_PRIMARY:" ++ s.primaryAddr)

def checkIdempotent (s : ReplicatedDSFSServer) (who : Caller) : Option Reply :=
  if who.clientId = "" ∨ who.seqNum ≤ 0 then none
  else (s.dedupCache who.clientId).bind fun d => if who.seqNum ≤ d.1 then some d.2 else none

def storeResponse (s : ReplicatedDSFSServer) (who : Caller) (r : Reply) : ReplicatedDSFSServer :=
  if who.clientId ≠ "" ∧ 0 < who.seqNum then
    { s with dedupCache := Function.update s.dedupCache who.clientId (some (who.seqNum, r)) }
  else s

/-- The lock section of Open. -/
def openHandle (s : ReplicatedDSFSServer) (filename mode : String) (data : FileData) :
    ReplicatedDSFSServer × Reply :=
  let t := { s with
    openFiles := Function.update s.openFiles s.nextHandle (some ⟨filename, mode⟩)
    nextHandle := s.nextHandle + 1 }
  let u := if t.fileVersions filename = none ∧ (t.disk filename).isSome then t.setVersion filename 1 else t
  (u, .opened s.nextHandle data (u.version filename))

/-- The lock section of ReplicateWrite. -/
def replicateWrite (s : ReplicatedDSFSServer) (filename : String) (data : FileData) (newVersion : ℕ) :
    ReplicatedDSFSServer :=
  (s.writeFile filename data).setVersion filename newVersion

/-- What SyncState sends: the files that have a version. -/
def syncState (s : ReplicatedDSFSServer) (filename : String) : Option FileEntry :=
  (s.fileVersions filename).bind fun v => (s.disk filename).map fun data => ⟨data, v⟩

/-- What a server that restarts does with the answer. -/
def install (s : ReplicatedDSFSServer) (files : String → Option FileEntry) (source : String) :
    ReplicatedDSFSServer :=
  { s with
    disk := fun f => ((files f).map FileEntry.data).or (s.disk f)
    fileVersions := fun f => ((files f).map FileEntry.version).or (s.fileVersions f)
    primaryAddr := source
    isPrimary := false }

/-- The steps a handler makes at its own server; `peers` are the other servers. A replication loop makes
its steps at the peers until none is left. -/
def run (peers : List ℕ) (s : ReplicatedDSFSServer) : Call → ReplicatedDSFSServer × Progress
  | .create f who => (s, if s.ready then .goesOn (.createRole f who) else .returns notReady)
  | .createRole f who => (s, if s.isPrimary then .goesOn (.createDedup f who) else .returns s.notPrimary)
  | .createDedup f who =>
    match s.checkIdempotent who with
    | some cached => (s, .returns cached)
    | none => (s, .goesOn (.createExists f who))
  | .createExists f who =>
    (s, if (s.disk f).isSome then .returns (.failed "File already exists") else .goesOn (.createFile f who))
  | .createFile f who => (s.writeFile f [], .goesOn (.createVersion f who))
  | .createVersion f who => (s.setVersion f 1, .goesOn (.replicateCreate f who peers))
  | .replicateCreate _ who _ | .replicateCreateFile _ who _ | .replicateCreateVersion _ who _ =>
    (s, .goesOn (.createStore who))
  | .createStore who => (s.storeResponse who .created, .returns .created)
  | .open f mode fetchData =>
    if s.ready = false then (s, .returns notReady)
    else if mode ≠ "r" ∧ mode ≠ "w" then (s, .returns (.failed "Mode must be 'r' or 'w'"))
    else if mode = "w" then (s, .goesOn (.openRole f mode fetchData))
    else (s, .goesOn (.openExists f mode fetchData))
  | .openRole f mode fetchData =>
    (s, if s.isPrimary then .goesOn (.openExists f mode fetchData) else .returns s.notPrimary)
  | .openExists f mode fetchData =>
    (s, if (s.disk f).isNone ∧ mode = "r" then .returns (.failed "File not found")
      else .goesOn (.openFetch f mode fetchData))
  | .openFetch f mode fetchData =>
    (s, if fetchData ∧ (s.disk f).isSome then .goesOn (.openRead f mode)
      else .goesOn (.openSection f mode []))
  | .openRead f mode => (s, .goesOn (.openSection f mode (s.content f)))
  | .openSection f mode data =>
    let out := s.openHandle f mode data
    (out.1, .returns out.2)
  | .close handle data who =>
    (s, if s.ready then .goesOn (.closeLookup handle data who) else .returns notReady)
  | .closeLookup handle data who =>
    (s, if (s.openFiles handle).any fun info => info.mode = "w" then .goesOn (.closeRole handle data who)
      else .goesOn (.closeDedup handle data who))
  | .closeRole handle data who =>
    (s, if s.isPrimary then .goesOn (.closeDedup handle data who) else .returns s.notPrimary)
  | .closeDedup handle data who =>
    match s.checkIdempotent who with
    | some cached => (s, .returns cached)
    | none => (s, .goesOn (.closePop handle data who))
  | .closePop handle data who =>
    match s.openFiles handle with
    | none => (s, .returns (.failed "Invalid file handle"))
    | some info =>
      ({ s with openFiles := Function.update s.openFiles handle none },
        if info.mode = "w" then .goesOn (.closeFile info.filename data who)
        else .goesOn (.closeStore none 0 who))
  | .closeFile f data who => (s.writeFile f data, .goesOn (.closeUpdate f data who))
  | .closeUpdate f data who =>
    (s.setVersion f (s.version f + 1), .goesOn (.replicateWrite f data (s.version f + 1) who peers))
  | .replicateWrite f data newVersion who _ => (s, .goesOn (.closeStore (some (f, data)) newVersion who))
  | .closeStore _ newVersion who => (s.storeResponse who (.closed newVersion), .returns (.closed newVersion))
  | .testVersionNumber f => (s, .returns (if s.ready then .version (s.version f) else notReady))

end ReplicatedDSFSServer

end DistributedStorage.Replication
