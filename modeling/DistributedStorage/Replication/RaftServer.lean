import DistributedStorage.Replication.Handles

/-! The file server over Raft. What Raft decides is left open: whether a server is isolated or the leader
when a handler asks, whether an appended entry is applied, where, how often and when. -/

namespace DistributedStorage.Replication

open Library Files

structure RaftDSFSServicer where
  disk : String → Option FileData
  fileVersions : String → Option ℕ
  openFiles : ℤ → Option OpenFile
  nextHandle : ℤ
  dedupCache : String → Option (ℤ × Reply)

inductive OpType
  | create
  | write
  deriving DecidableEq

/-- A log entry, with the Close it was appended for. -/
structure Entry where
  opType : OpType
  filename : String
  data : FileData
  who : Caller
  sent : Option Sent
  deriving DecidableEq

/-- How a call of append_entry that waits for its entry ends. -/
inductive AppendResult
  | applied (newVersion : ℕ)
  | notLeader
  | error (message : String)

/-- What the Raft node answers a handler that asks. -/
structure RaftAnswer where
  isolated : Bool
  isLeader : Bool
  leaderId : String
  leaderAddress : String
  result : AppendResult

/-- A handler and the step it is about to make. -/
inductive RaftCall
  | create (filename : String) (who : Caller)
  | createDedup (filename : String) (who : Caller)
  | createRole (filename : String) (who : Caller)
  | createExists (filename : String) (who : Caller)
  | createAppend (filename : String) (who : Caller)
  | createWait (filename : String) (who : Caller)
  | createStore (who : Caller)
  | open (filename mode : String) (fetchData : Bool)
  | openExists (filename mode : String) (fetchData : Bool)
  | openFetch (filename mode : String) (fetchData : Bool)
  | openRead (filename mode : String)
  | openSection (filename mode : String) (data : FileData)
  | close (handle : ℤ) (data : FileData) (who : Caller)
  | closeDedup (handle : ℤ) (data : FileData) (who : Caller)
  | closePop (handle : ℤ) (data : FileData) (who : Caller)
  | closeRole (filename : String) (data : FileData) (who : Caller)
  | closeAppend (filename : String) (data : FileData) (who : Caller)
  | closeWait (filename : String) (who : Caller)
  | closeStore (newVersion : ℕ) (who : Caller)
  | testVersionNumber (filename : String)
  | testSection (filename : String)
  deriving DecidableEq

def isolatedReply : Reply := .aborted "UNAVAILABLE" "node is isolated (fault injection)"

def RaftAnswer.redirectError (a : RaftAnswer) : Reply :=
  .failed ("NOT_LEADER:" ++ a.leaderId ++ ":" ++ a.leaderAddress)

namespace RaftDSFSServicer

def version (s : RaftDSFSServicer) (filename : String) : ℕ := (s.fileVersions filename).getD 1

def checkIdempotent (s : RaftDSFSServicer) (who : Caller) : Option Reply :=
  if who.clientId = "" ∨ who.seqNum ≤ 0 then none
  else (s.dedupCache who.clientId).bind fun d => if who.seqNum ≤ d.1 then some d.2 else none

def cacheResp (s : RaftDSFSServicer) (who : Caller) (r : Reply) : RaftDSFSServicer :=
  if who.clientId ≠ "" ∧ 0 < who.seqNum then
    { s with dedupCache := Function.update s.dedupCache who.clientId (some (who.seqNum, r)) }
  else s

/-- The lock section of Open. -/
def openHandle (s : RaftDSFSServicer) (filename mode : String) (data : FileData) :
    RaftDSFSServicer × Reply :=
  let first := s.fileVersions filename = none ∧ (s.disk filename).isSome
  let versions := if first then Function.update s.fileVersions filename (some 1) else s.fileVersions
  let t := { s with
    openFiles := Function.update s.openFiles s.nextHandle (some ⟨filename, mode⟩)
    nextHandle := s.nextHandle + 1
    fileVersions := versions }
  (t, .opened s.nextHandle data (t.version filename))

/-- The state machine. -/
def applyEntry (s : RaftDSFSServicer) (entry : Entry) : RaftDSFSServicer :=
  match entry.opType with
  | .create =>
    { s with
      disk := Function.update s.disk entry.filename ((s.disk entry.filename).or (some []))
      fileVersions := Function.update s.fileVersions entry.filename (some (s.version entry.filename)) }
  | .write =>
    { s with
      disk := Function.update s.disk entry.filename (some entry.data)
      fileVersions := Function.update s.fileVersions entry.filename (some (s.version entry.filename + 1)) }

/-- The entry `_snapshot` of the state machine. -/
def installSnapshot (s : RaftDSFSServicer) (fileBlobs : String → Option FileData)
    (fileVersions : String → Option ℕ) : RaftDSFSServicer :=
  { s with
    disk := fun f => (fileBlobs f).or (s.disk f)
    fileVersions := fileVersions }

/-- A server that starts again on its files. -/
def restart (s : RaftDSFSServicer) : RaftDSFSServicer where
  disk := s.disk
  fileVersions _ := none
  openFiles _ := none
  nextHandle := 1
  dedupCache _ := none

def run (a : RaftAnswer) (s : RaftDSFSServicer) : RaftCall → RaftDSFSServicer × Outcome RaftCall
  | .create f who => (s, if a.isolated then .returns isolatedReply else .goesOn (.createDedup f who))
  | .createDedup f who =>
    match s.checkIdempotent who with
    | some cached => (s, .returns cached)
    | none => (s, .goesOn (.createRole f who))
  | .createRole f who =>
    (s, if a.isLeader then .goesOn (.createExists f who) else .returns a.redirectError)
  | .createExists f who =>
    (s, if (s.disk f).isSome then .returns (.failed "File already exists") else .goesOn (.createAppend f who))
  | .createAppend f who =>
    (s, if a.isLeader then .goesOn (.createWait f who) else .returns a.redirectError)
  | .createWait _ who =>
    match a.result with
    | .applied _ => (s, .goesOn (.createStore who))
    | .notLeader => (s, .returns a.redirectError)
    | .error message => (s, .returns (.failed message))
  | .createStore who => (s.cacheResp who .created, .returns .created)
  | .open f mode fetchData =>
    if a.isolated then (s, .returns isolatedReply)
    else if mode ≠ "r" ∧ mode ≠ "w" then (s, .returns (.failed "Mode must be 'r' or 'w'"))
    else (s, .goesOn (.openExists f mode fetchData))
  | .openExists f mode fetchData =>
    (s, if (s.disk f).isNone ∧ mode = "r" then .returns (.failed "File not found")
      else .goesOn (.openFetch f mode fetchData))
  | .openFetch f mode fetchData =>
    (s, if fetchData ∧ (s.disk f).isSome then .goesOn (.openRead f mode)
      else .goesOn (.openSection f mode []))
  | .openRead f mode => (s, .goesOn (.openSection f mode ((s.disk f).getD [])))
  | .openSection f mode data =>
    let out := s.openHandle f mode data
    (out.1, .returns out.2)
  | .close handle data who =>
    (s, if a.isolated then .returns isolatedReply else .goesOn (.closeDedup handle data who))
  | .closeDedup handle data who =>
    match s.checkIdempotent who with
    | some cached => (s, .returns cached)
    | none => (s, .goesOn (.closePop handle data who))
  | .closePop handle data who =>
    match s.openFiles handle with
    | none => (s, .returns (.failed "Invalid file handle"))
    | some info =>
      ({ s with openFiles := Function.update s.openFiles handle none },
        if info.mode = "w" then .goesOn (.closeRole info.filename data who) else .goesOn (.closeStore 0 who))
  | .closeRole f data who =>
    (s, if a.isLeader then .goesOn (.closeAppend f data who) else .returns a.redirectError)
  | .closeAppend f _ who =>
    (s, if a.isLeader then .goesOn (.closeWait f who) else .returns a.redirectError)
  | .closeWait _ who =>
    match a.result with
    | .applied newVersion => (s, .goesOn (.closeStore newVersion who))
    | .notLeader => (s, .returns a.redirectError)
    | .error message => (s, .returns (.failed message))
  | .closeStore newVersion who => (s.cacheResp who (.closed newVersion), .returns (.closed newVersion))
  | .testVersionNumber f =>
    (s, if a.isolated then .returns isolatedReply else .goesOn (.testSection f))
  | .testSection f => (s, .returns (.version (s.version f)))

/-- The entry that a call of append_entry leaves in the log. -/
def appended (a : RaftAnswer) (r : Request) : RaftCall → List Entry
  | .createAppend f who => if a.isLeader then [⟨.create, f, [], who, r.sent⟩] else []
  | .closeAppend f data who => if a.isLeader then [⟨.write, f, data, who, r.sent⟩] else []
  | _ => []

end RaftDSFSServicer

def RaftCall.carried : RaftCall → Carried
  | .create f _ | .createDedup f _ | .createRole f _ | .createExists f _ | .createAppend f _
  | .createWait f _ | .closeRole f _ _ | .closeAppend f _ _ | .closeWait f _ | .testVersionNumber f
  | .testSection f => ⟨none, none, some f⟩
  | .createStore _ | .closeStore _ _ => ⟨none, none, none⟩
  | .open f mode _ | .openExists f mode _ | .openFetch f mode _ | .openRead f mode
  | .openSection f mode _ => ⟨some ⟨f, mode⟩, none, some f⟩
  | .close handle _ _ | .closeDedup handle _ _ | .closePop handle _ _ => ⟨none, some handle, none⟩

def RaftCall.pops : RaftCall → Option ℤ
  | .closePop handle _ _ => some handle
  | _ => none

def RaftCall.start : Request → RaftCall
  | .create f who => .create f who
  | .open _ info fetchData => .open info.filename info.mode fetchData
  | .close q => .close q.ticket.handle q.data q.who
  | .testVersionNumber f => .testVersionNumber f

/-- What happens outside the handlers: an entry is applied, or a snapshot takes the place of a server's
versions and files. -/
inductive RaftEvent
  | apply (n : ℕ) (entry : Entry)
  | snapshot (n : ℕ) (fileBlobs : String → Option FileData) (fileVersions : String → Option ℕ)

namespace RaftDSFSServicer

/-- The servers, and the entries that were appended at any of them. -/
abbrev Raft := World RaftDSFSServicer (List Entry)

def handle (a : RaftAnswer) (w : Raft) (n : ℕ) (r : Request) (c : RaftCall) : Raft × Outcome RaftCall :=
  let out := (w.nodes n).run a c
  ({ w.setNode n out.1 with shared := w.shared ++ appended a r c }, out.2)

def turn : RaftEvent → Raft → Raft
  | .apply n entry, w => if entry ∈ w.shared then w.setNode n ((w.nodes n).applyEntry entry) else w
  | .snapshot n blobs versions, w => w.setNode n ((w.nodes n).installSnapshot blobs versions)

def onBehalf : RaftEvent → List Entry → Option Sent
  | .apply _ entry, log => if entry ∈ log then entry.sent else none
  | .snapshot .., _ => none

def table (s : RaftDSFSServicer) : HandleTable := ⟨s.openFiles, s.nextHandle⟩

def writes (log : List Entry) : List (Sent × String) :=
  log.filterMap fun entry => entry.sent.map fun q => (q, entry.filename)

end RaftDSFSServicer

def raftBuild : Service where
  Node := RaftDSFSServicer
  Stage := RaftCall
  Shared := List Entry
  Answer := RaftAnswer
  Event := RaftEvent
  table := RaftDSFSServicer.table
  disk s := s.disk
  version s := s.version
  writes := RaftDSFSServicer.writes
  carried := RaftCall.carried
  pops := RaftCall.pops
  fresh := []
  restart := RaftDSFSServicer.restart
  start := RaftCall.start
  run := RaftDSFSServicer.handle
  turn := RaftDSFSServicer.turn
  onBehalf := RaftDSFSServicer.onBehalf

namespace RaftDSFSServicer

variable {s : RaftDSFSServicer}

lemma openHandle_version (s : RaftDSFSServicer) (f mode : String) (data : FileData) (g : String) :
    (s.openHandle f mode data).1.version g = s.version g := by
  simp only [openHandle, version]
  split_ifs with hfirst
  · rw [Function.update_apply]
    split_ifs with hg
    · rw [hg, hfirst.1]
      rfl
    · rfl
  · rfl

/-- A step that leaves the files, their versions and the handles alone. -/
structure Quiet (s s' : RaftDSFSServicer) : Prop where
  disk : s'.disk = s.disk
  version : ∀ f, s'.version f = s.version f
  table : s'.table = s.table

lemma Quiet.refl (s : RaftDSFSServicer) : s.Quiet s := ⟨rfl, fun _ => rfl, rfl⟩

lemma cacheResp_quiet (s : RaftDSFSServicer) (who : Caller) (r : Reply) : s.Quiet (s.cacheResp who r) := by
  rw [cacheResp]
  split_ifs
  · exact ⟨rfl, fun _ => rfl, rfl⟩
  · exact Quiet.refl s

/-- No handler writes a file: that is what the entries are for. -/
lemma run_unchanged (a : RaftAnswer) (s : RaftDSFSServicer) (c : RaftCall) :
    (s.run a c).1.disk = s.disk ∧ ∀ f, (s.run a c).1.version f = s.version f := by
  cases c with
  | createStore who => exact ⟨(s.cacheResp_quiet who _).disk, (s.cacheResp_quiet who _).version⟩
  | closeStore n who => exact ⟨(s.cacheResp_quiet who _).disk, (s.cacheResp_quiet who _).version⟩
  | openSection f mode data => exact ⟨rfl, s.openHandle_version f mode data⟩
  | createDedup f who =>
    simp only [run]
    split <;> exact ⟨rfl, fun _ => rfl⟩
  | closeDedup handle data who =>
    simp only [run]
    split <;> exact ⟨rfl, fun _ => rfl⟩
  | closePop handle data who =>
    simp only [run]
    split <;> exact ⟨rfl, fun _ => rfl⟩
  | createWait f who =>
    simp only [run]
    split <;> exact ⟨rfl, fun _ => rfl⟩
  | closeWait f who =>
    simp only [run]
    split <;> exact ⟨rfl, fun _ => rfl⟩
  | «open» f mode fetchData =>
    simp only [run]
    split_ifs <;> exact ⟨rfl, fun _ => rfl⟩
  | _ => exact ⟨rfl, fun _ => rfl⟩

lemma run_handling (a : RaftAnswer) (s : RaftDSFSServicer) (c : RaftCall) :
    raftBuild.Handling c s.table (s.run a c).1.table (s.run a c).2 := by
  cases c with
  | createStore who =>
    simp only [run]
    rw [(s.cacheResp_quiet who _).table]
    exact .returns _ (.inl rfl)
  | closeStore n who =>
    simp only [run]
    rw [(s.cacheResp_quiet who _).table]
    exact .returns _ (.inl rfl)
  | openSection f mode data => exact .issues _ _ _ rfl
  | createDedup f who =>
    simp only [run]
    split
    · exact .returns _ (.inl rfl)
    · exact .goesOn _ (.refl _)
  | closeDedup handle data who =>
    simp only [run]
    split
    · exact .returns _ (.inl rfl)
    · exact .goesOn _ (.refl _)
  | closePop handle data who =>
    simp only [run]
    cases hi : s.openFiles handle with
    | none => exact .returns _ (.inl rfl)
    | some info =>
      dsimp only
      split_ifs with hmode
      · have hentry : ∀ f ∈ some info.filename, s.openFiles handle = some ⟨f, "w"⟩ := by
          intro f hf
          cases hf
          rw [hi, ← hmode]
        exact .pops handle _ rfl rfl rfl rfl hentry
      · exact .pops handle _ rfl rfl rfl rfl fun f hf => by cases hf
  | createWait f who =>
    simp only [run]
    split
    · exact .goesOn _ ⟨rfl, (fun i hi => by cases hi), (fun g hg => by cases hg)⟩
    · exact .returns _ (.inl rfl)
    · exact .returns _ (.inl rfl)
  | closeWait f who =>
    simp only [run]
    split
    · exact .goesOn _ ⟨rfl, (fun i hi => by cases hi), (fun g hg => by cases hg)⟩
    · exact .returns _ (.inl rfl)
    · exact .returns _ (.inl rfl)
  | «open» f mode fetchData =>
    simp only [run]
    split_ifs
    · exact .returns _ (.inr fun _ _ _ h => by cases h)
    · exact .returns _ (.inr fun _ _ _ h => by cases h)
    · exact .goesOn _ (.refl _)
  | openExists f mode fetchData =>
    simp only [run]
    split_ifs
    · exact .returns _ (.inr fun _ _ _ h => by cases h)
    · exact .goesOn _ (.refl _)
  | openFetch f mode fetchData =>
    simp only [run]
    split_ifs <;> exact .goesOn _ (.refl _)
  | openRead f mode => exact .goesOn _ (.refl _)
  | testSection f => exact .returns _ (.inl rfl)
  | _ =>
    simp only [run]
    split_ifs
    all_goals first | exact .returns _ (.inl rfl) | exact .goesOn _ (.refl _)

lemma handle_unchanged (a : RaftAnswer) (w : Raft) (n : ℕ) (r : Request) (c : RaftCall) (m : ℕ) :
    ((handle a w n r c).1.nodes m).disk = (w.nodes m).disk ∧
      ∀ f, ((handle a w n r c).1.nodes m).version f = (w.nodes m).version f := by
  by_cases hm : m = n
  · subst hm
    rw [handle]
    dsimp only
    rw [World.setNode_self]
    exact (w.nodes m).run_unchanged a c
  · rw [handle]
    dsimp only
    rw [World.setNode_of_ne w _ hm]
    exact ⟨rfl, fun _ => rfl⟩

lemma handle_handling (a : RaftAnswer) (w : Raft) (n : ℕ) (r : Request) (c : RaftCall) :
    raftBuild.Handling c (w.nodes n).table ((handle a w n r c).1.nodes n).table (handle a w n r c).2 := by
  rw [handle]
  dsimp only
  rw [World.setNode_self]
  exact (w.nodes n).run_handling a c

lemma mem_appended {a : RaftAnswer} {r : Request} {c : RaftCall} {entry : Entry} (h : entry ∈ appended a r c) :
    entry.sent = r.sent ∧ entry.filename ∈ c.carried.file := by
  cases c with
  | createAppend f who =>
    simp only [appended] at h
    split_ifs at h
    · obtain rfl := List.mem_singleton.mp h
      exact ⟨rfl, rfl⟩
    · cases h
  | closeAppend f data who =>
    simp only [appended] at h
    split_ifs at h
    · obtain rfl := List.mem_singleton.mp h
      exact ⟨rfl, rfl⟩
    · cases h
  | _ => cases h

lemma mem_writes {log : List Entry} {p : Sent × String} :
    p ∈ writes log ↔ ∃ entry ∈ log, entry.sent = some p.1 ∧ entry.filename = p.2 := by
  simp only [writes, List.mem_filterMap, Option.map_eq_some_iff]
  constructor
  · rintro ⟨entry, hentry, q, hq, rfl⟩
    exact ⟨entry, hentry, hq, rfl⟩
  · rintro ⟨entry, hentry, hq, hf⟩
    exact ⟨entry, hentry, p.1, hq, by rw [hf]⟩

lemma handle_writes (a : RaftAnswer) (w : Raft) (n : ℕ) (r : Request) (c : RaftCall) :
    ∀ p ∈ writes (handle a w n r c).1.shared, p ∈ writes w.shared ∨ p.1 ∈ r.sent ∧ p.2 ∈ c.carried.file := by
  intro p hp
  obtain ⟨entry, hentry, hsent, hfile⟩ := mem_writes.mp hp
  obtain hold | hnew := List.mem_append.mp hentry
  · exact .inl (mem_writes.mpr ⟨entry, hold, hsent, hfile⟩)
  · obtain ⟨hs, hf⟩ := mem_appended hnew
    rw [hsent] at hs
    rw [hfile] at hf
    exact .inr ⟨hs.symm, hf⟩

lemma applyEntry_table (s : RaftDSFSServicer) (entry : Entry) : (s.applyEntry entry).table = s.table := by
  rw [applyEntry]
  split <;> rfl

lemma applyEntry_of_ne (s : RaftDSFSServicer) {entry : Entry} {f : String} (hf : f ≠ entry.filename) :
    (s.applyEntry entry).disk f = s.disk f ∧ (s.applyEntry entry).version f = s.version f := by
  simp only [applyEntry, version]
  split
  · dsimp only
    rw [Function.update_of_ne hf, Function.update_of_ne hf]
    exact ⟨rfl, rfl⟩
  · dsimp only
    rw [Function.update_of_ne hf, Function.update_of_ne hf]
    exact ⟨rfl, rfl⟩

lemma turn_table (e : RaftEvent) (w : Raft) (m : ℕ) : ((turn e w).nodes m).table = (w.nodes m).table := by
  cases e with
  | apply n entry =>
    simp only [turn]
    split_ifs
    · by_cases hm : m = n
      · rw [hm, World.setNode_self, applyEntry_table]
      · rw [World.setNode_of_ne w _ hm]
    · rfl
  | snapshot n blobs versions =>
    simp only [turn]
    by_cases hm : m = n
    · rw [hm, World.setNode_self]
      rfl
    · rw [World.setNode_of_ne w _ hm]

lemma turn_shared (e : RaftEvent) (w : Raft) : (turn e w).shared = w.shared := by
  cases e with
  | apply n entry =>
    simp only [turn]
    split_ifs <;> rfl
  | snapshot n blobs versions => rfl

/-- An entry is applied to the file it names. -/
lemma turn_changes {e : RaftEvent} {w : Raft} {q : Sent} {f : String} (hq : q ∈ onBehalf e w.shared)
    (hchange : raftBuild.Changes w (turn e w) f) : (q, f) ∈ writes w.shared := by
  cases e with
  | snapshot n blobs versions => cases hq
  | apply n entry =>
    simp only [onBehalf] at hq
    split_ifs at hq with hentry
    · refine mem_writes.mpr ⟨entry, hentry, hq, ?_⟩
      by_contra hne
      obtain ⟨m, hm⟩ := hchange
      rw [turn, if_pos hentry] at hm
      by_cases hmn : m = n
      · rw [hmn, World.setNode_self] at hm
        obtain ⟨hdisk, hversion⟩ := (w.nodes n).applyEntry_of_ne fun heq => hne heq.symm
        exact hm.elim (fun hd => hd hdisk) fun hv => hv hversion
      · rw [World.setNode_of_ne w _ hmn] at hm
        exact hm.elim (fun hd => hd rfl) fun hv => hv rfl
    · cases hq

end RaftDSFSServicer

lemma raftBuild_disciplined : raftBuild.Disciplined := by
  constructor
  case fresh => rfl
  case restart => exact fun _ => rfl
  case start =>
    intro r
    cases r <;> rfl
  case own => exact RaftDSFSServicer.handle_handling
  case others =>
    intro a w n r c m hm
    exact congrArg RaftDSFSServicer.table (World.setNode_of_ne w _ hm)
  case changes =>
    rintro a w n r c f ⟨m, hchange⟩
    obtain ⟨hdisk, hversion⟩ := RaftDSFSServicer.handle_unchanged a w n r c m
    exact absurd hchange (not_or.mpr ⟨not_not.mpr (congrFun hdisk f), not_not.mpr (hversion f)⟩)
  case writes => exact RaftDSFSServicer.handle_writes
  case turnTable => exact RaftDSFSServicer.turn_table
  case turnWrites =>
    intro e w p hp
    have hshared := congrArg RaftDSFSServicer.writes (RaftDSFSServicer.turn_shared e w)
    exact Eq.mp (congrArg (p ∈ ·) hshared) hp
  case turnChanges => exact fun e w q f => RaftDSFSServicer.turn_changes

end DistributedStorage.Replication
