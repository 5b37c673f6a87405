import DistributedStorage.Library.OrderedDict
import DistributedStorage.Library.Runs
import DistributedStorage.Replication.Server

/-! A primary, its backups and the handlers at work at the primary. A backup that restarts asks for the
primary's state, installs it, calls itself ready and then starts its server; a replication request that
reaches it before is printed and forgotten. -/

namespace DistributedStorage.Replication

open Library Library.Runs Files

/-- How far a backup has come in its start. -/
inductive Phase
  | down
  | synced (files : String → Option FileEntry)
  | installed
  | ready
  | listening

/-- `contents f v` is what was committed as version `v` of `f`, and `acked` the writes that were
answered. -/
structure Cluster where
  primary : ReplicatedDSFSServer
  backups : ℕ → ReplicatedDSFSServer
  phase : ℕ → Phase
  calls : OrderedDict ℕ Call
  contents : String → ℕ → FileData
  acked : List (String × FileData × ℕ)

inductive Label
  | call (t : ℕ) (c : Call)
  | run (t : ℕ)
  | sync (b : ℕ)
  | install (b : ℕ)
  | markReady (b : ℕ)
  | listen (b : ℕ)

/-- The files a server holds: versions start at 1, and what has a version is there. -/
structure StoredFiles where
  disk : String → Option FileData
  fileVersions : String → Option ℕ
  positive : ∀ f v, fileVersions f = some v → 0 < v
  present : ∀ f v, fileVersions f = some v → (disk f).isSome

def StoredFiles.server (s : StoredFiles) (isPrimary : Bool) : ReplicatedDSFSServer where
  disk := s.disk
  fileVersions := s.fileVersions
  openFiles _ := none
  nextHandle := 1
  dedupCache _ := none
  primaryAddr := ""
  isPrimary := isPrimary
  ready := true

/-- A server that restarts on the files it finds; it has forgotten their versions. -/
def restarted (disk : String → Option FileData) : ReplicatedDSFSServer where
  disk := disk
  fileVersions _ := none
  openFiles _ := none
  nextHandle := 1
  dedupCache _ := none
  primaryAddr := ""
  isPrimary := false
  ready := false

namespace Cluster

/-- `leftover b` is what a backup that is down has on its disk; it is `none` for one that is up and holds
what the primary holds. -/
def init (s : StoredFiles) (leftover : ℕ → Option (String → Option FileData)) : Cluster where
  primary := s.server true
  backups b := (leftover b).elim (s.server false) restarted
  phase b := (leftover b).elim .listening fun _ => .down
  calls := .empty
  contents f _ := (s.disk f).getD []
  acked := []

def listening (x : Cluster) (b : ℕ) : Bool :=
  match x.phase b with
  | .listening => true
  | _ => false

def setBackup (x : Cluster) (b : ℕ) (s : ReplicatedDSFSServer) : Cluster :=
  { x with backups := Function.update x.backups b s }

def setPhase (x : Cluster) (b : ℕ) (p : Phase) : Cluster :=
  { x with phase := Function.update x.phase b p }

def goesOn (x : Cluster) (t : ℕ) (c : Call) : Cluster := { x with calls := x.calls.set t c }

/-- What a step adds to the record. -/
def note (x : Cluster) : Call → Cluster
  | .closeUpdate f data _ =>
    let known := Function.update (x.contents f) (x.primary.version f + 1) data
    { x with contents := Function.update x.contents f known }
  | .closeStore (some (f, data)) newVersion _ => { x with acked := x.acked ++ [(f, data, newVersion)] }
  | _ => x

def settle (x : Cluster) (t : ℕ) : Progress → Cluster
  | .goesOn c => x.goesOn t c
  | .returns _ => { x with calls := x.calls.erase t }

/-- The step of a handler at the primary. -/
def atPrimary (peers : List ℕ) (x : Cluster) (t : ℕ) (c : Call) : Cluster :=
  let out := x.primary.run peers c
  { x.note c with primary := out.1 }.settle t out.2

/-- The next step of the handler in `t`. In a replication loop it is a step at the first of the peers left,
or none when that peer does not listen. -/
def handle (peers : List ℕ) (x : Cluster) (t : ℕ) : Call → Cluster
  | .replicateCreate f who (b :: l) =>
    if x.listening b then
      if ((x.backups b).disk f).isSome then x.goesOn t (.replicateCreateVersion f who (b :: l))
      else x.goesOn t (.replicateCreateFile f who (b :: l))
    else x.goesOn t (.replicateCreate f who l)
  | .replicateCreateFile f who (b :: l) =>
    (x.setBackup b ((x.backups b).writeFile f [])).goesOn t (.replicateCreateVersion f who (b :: l))
  | .replicateCreateVersion f who (b :: l) =>
    (x.setBackup b ((x.backups b).setVersion f 1)).goesOn t (.replicateCreate f who l)
  | .replicateWrite f data newVersion who (b :: l) =>
    if x.listening b then
      (x.setBackup b ((x.backups b).replicateWrite f data newVersion)).goesOn t
        (.replicateWrite f data newVersion who l)
    else x.goesOn t (.replicateWrite f data newVersion who l)
  | c => x.atPrimary peers t c

def step (peers : List ℕ) (x : Cluster) : Label → Option Cluster
  | .call t c => if x.calls.get t = none ∧ c.IsRequest then some (x.goesOn t c) else none
  | .run t => (x.calls.get t).map (x.handle peers t)
  | .sync b =>
    match x.phase b with
    | .down => some (x.setPhase b (.synced x.primary.syncState))
    | _ => none
  | .install b =>
    match x.phase b with
    | .synced files =>
      some ((x.setBackup b ((x.backups b).install files x.primary.primaryAddr)).setPhase b .installed)
    | _ => none
  | .markReady b =>
    match x.phase b with
    | .installed => some ((x.setBackup b { x.backups b with ready := true }).setPhase b .ready)
    | _ => none
  | .listen b =>
    match x.phase b with
    | .ready => some (x.setPhase b .listening)
    | _ => none

/-- What a backup holds; once it has the answer to SyncState, what it will hold. -/
def backupVersion (x : Cluster) (b : ℕ) (f : String) : ℕ :=
  match x.phase b with
  | .synced files => ((files f).map FileEntry.version).getD 1
  | _ => (x.backups b).version f

def backupDisk (x : Cluster) (b : ℕ) (f : String) : Option FileData :=
  match x.phase b with
  | .synced files => ((files f).map FileEntry.data).or ((x.backups b).disk f)
  | _ => (x.backups b).disk f

def backupContent (x : Cluster) (b : ℕ) (f : String) : FileData := (x.backupDisk b f).getD []

end Cluster

end DistributedStorage.Replication
