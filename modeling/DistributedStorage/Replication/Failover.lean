import DistributedStorage.Replication.Handles
import DistributedStorage.Replication.Replicated

/-! The primary-backup file server while primaries come and go. Who is primary, which replication request is
answered in time, and what a backup gets at its start is left open. -/

namespace DistributedStorage.Replication

open Library Files

inductive PeerRequest
  | create (filename : String)
  | write (filename : String) (data : FileData) (newVersion : ℕ)
  deriving DecidableEq

def PeerRequest.filename : PeerRequest → String
  | .create f | .write f _ _ => f

/-- A replication request that its sender has given up, with the Close it was sent for. -/
structure Late where
  request : PeerRequest
  sent : Option Sent
  deriving DecidableEq

inductive ReplicaEvent
  | late (b : ℕ) (m : Late)
  | role (n : ℕ) (isPrimary : Bool) (primaryAddr : String)
  | markReady (n : ℕ)
  | install (n : ℕ) (files : String → Option FileEntry) (source : String)
  | loadExisting (n : ℕ)

def Call.carried : Call → Carried
  | .create f _ | .createRole f _ | .createDedup f _ | .createExists f _ | .createFile f _
  | .createVersion f _ | .replicateCreate f _ _ | .replicateCreateFile f _ _ | .replicateCreateVersion f _ _
  | .closeFile f _ _ | .closeUpdate f _ _ | .replicateWrite f _ _ _ _ | .testVersionNumber f =>
    ⟨none, none, some f⟩
  | .createStore _ | .closeStore _ _ _ => ⟨none, none, none⟩
  | .open f mode _ | .openRole f mode _ | .openExists f mode _ | .openFetch f mode _ | .openRead f mode
  | .openSection f mode _ => ⟨some ⟨f, mode⟩, none, some f⟩
  | .close handle _ _ | .closeLookup handle _ _ | .closeRole handle _ _ | .closeDedup handle _ _
  | .closePop handle _ _ => ⟨none, some handle, none⟩

def Call.pops : Call → Option ℤ
  | .closePop handle _ _ => some handle
  | _ => none

def Call.start : Request → Call
  | .create f who => .create f who
  | .open _ info fetchData => .open info.filename info.mode fetchData
  | .close q => .close q.ticket.handle q.data q.who
  | .testVersionNumber f => .testVersionNumber f

def Progress.outcome : Progress → Outcome Call
  | .goesOn c => .goesOn c
  | .returns r => .returns r

namespace ReplicatedDSFSServer

/-- The servers, and the replication requests that may still arrive. -/
abbrev Replicas := World ReplicatedDSFSServer (List Late)

def table (s : ReplicatedDSFSServer) : HandleTable := ⟨s.openFiles, s.nextHandle⟩

/-- The handler of a replication request, from its start to its end. -/
def serve (s : ReplicatedDSFSServer) : PeerRequest → ReplicatedDSFSServer
  | .create f => (if (s.disk f).isSome then s else s.writeFile f []).setVersion f 1
  | .write f data newVersion => s.replicateWrite f data newVersion

/-- `_load_existing_files`. -/
def loadExistingFiles (s : ReplicatedDSFSServer) : ReplicatedDSFSServer :=
  { s with fileVersions := fun f => (s.fileVersions f).or ((s.disk f).map fun _ => 1) }

def give (w : Replicas) (m : Late) : Replicas := { w with shared := w.shared ++ [m] }

/-- A step of a handler at the server `n`. In a replication loop it is a step at the first of the peers left,
or the sender gives up. -/
def handle (peers : ℕ → List ℕ) (delivered : Bool) (w : Replicas) (n : ℕ) (r : Request) :
    Call → Replicas × Outcome Call
  | .replicateCreate f who (b :: l) =>
    if delivered then
      (w, .goesOn (if ((w.nodes b).disk f).isSome then .replicateCreateVersion f who (b :: l)
        else .replicateCreateFile f who (b :: l)))
    else (give w ⟨.create f, r.sent⟩, .goesOn (.replicateCreate f who l))
  | .replicateCreateFile f who (b :: l) =>
    if delivered then (w.setNode b ((w.nodes b).writeFile f []), .goesOn (.replicateCreateVersion f who (b :: l)))
    else (give w ⟨.create f, r.sent⟩, .goesOn (.replicateCreate f who l))
  | .replicateCreateVersion f who (b :: l) =>
    if delivered then (w.setNode b ((w.nodes b).setVersion f 1), .goesOn (.replicateCreate f who l))
    else (give w ⟨.create f, r.sent⟩, .goesOn (.replicateCreate f who l))
  | .replicateWrite f data newVersion who (b :: l) =>
    (if delivered then w.setNode b ((w.nodes b).replicateWrite f data newVersion)
      else give w ⟨.write f data newVersion, r.sent⟩, .goesOn (.replicateWrite f data newVersion who l))
  | c =>
    let out := (w.nodes n).run (peers n) c
    (w.setNode n out.1, out.2.outcome)

def turn : ReplicaEvent → Replicas → Replicas
  | .late b m, w => if m ∈ w.shared then w.setNode b ((w.nodes b).serve m.request) else w
  | .role n isPrimary primaryAddr, w =>
    w.setNode n { w.nodes n with isPrimary := isPrimary, primaryAddr := primaryAddr }
  | .markReady n, w => w.setNode n { w.nodes n with ready := true }
  | .install n files source, w => w.setNode n ((w.nodes n).install files source)
  | .loadExisting n, w => w.setNode n (w.nodes n).loadExistingFiles

def onBehalf : ReplicaEvent → List Late → Option Sent
  | .late _ m, shared => if m ∈ shared then m.sent else none
  | _, _ => none

def writes (shared : List Late) : List (Sent × String) :=
  shared.filterMap fun m => m.sent.map fun q => (q, m.request.filename)

end ReplicatedDSFSServer

def primaryBackup (peers : ℕ → List ℕ) : Service where
  Node := ReplicatedDSFSServer
  Stage := Call
  Shared := List Late
  Answer := Bool
  Event := ReplicaEvent
  table := ReplicatedDSFSServer.table
  disk s := s.disk
  version s := s.version
  writes := ReplicatedDSFSServer.writes
  carried := Call.carried
  pops := Call.pops
  fresh := []
  restart s := restarted s.disk
  start := Call.start
  run := ReplicatedDSFSServer.handle peers
  turn := ReplicatedDSFSServer.turn
  onBehalf := ReplicatedDSFSServer.onBehalf

namespace ReplicatedDSFSServer

variable {s : ReplicatedDSFSServer} {peers : ℕ → List ℕ}

lemma storeResponse_table (s : ReplicatedDSFSServer) (who : Caller) (r : Reply) :
    (s.storeResponse who r).table = s.table := by
  rw [storeResponse]
  split_ifs <;> rfl

lemma openHandle_table (s : ReplicatedDSFSServer) (f mode : String) (data : FileData) :
    (s.openHandle f mode data).1.table = s.table.issue ⟨f, mode⟩ := by
  simp only [openHandle]
  split_ifs <;> rfl

lemma writeFile_touches (s : ReplicatedDSFSServer) {f g : String} (data : FileData) (hf : f ∉ some g) :
    (s.writeFile g data).disk f = s.disk f ∧ (s.writeFile g data).version f = s.version f := by
  have hne : f ≠ g := fun heq => hf (congrArg some heq.symm)
  rw [writeFile_version, writeFile]
  exact ⟨Function.update_of_ne hne (some data) s.disk, rfl⟩

lemma setVersion_touches (s : ReplicatedDSFSServer) {f g : String} (v : ℕ) (hf : f ∉ some g) :
    (s.setVersion g v).disk f = s.disk f ∧ (s.setVersion g v).version f = s.version f := by
  have hne : f ≠ g := fun heq => hf (congrArg some heq.symm)
  rw [setVersion_version, if_neg hne]
  exact ⟨rfl, rfl⟩

lemma replicateWrite_touches (s : ReplicatedDSFSServer) {f g : String} (data : FileData) (v : ℕ)
    (hf : f ∉ some g) : (s.replicateWrite g data v).disk f = s.disk f ∧
      (s.replicateWrite g data v).version f = s.version f := by
  obtain ⟨hdisk, hversion⟩ := (s.writeFile g data).setVersion_touches v hf
  obtain ⟨hdisk', hversion'⟩ := s.writeFile_touches data hf
  exact ⟨hdisk.trans hdisk', hversion.trans hversion'⟩

lemma serve_touches (s : ReplicatedDSFSServer) (m : PeerRequest) {f : String} (hf : f ≠ m.filename) :
    (s.serve m).disk f = s.disk f ∧ (s.serve m).version f = s.version f := by
  have hnot : f ∉ some m.filename := fun hmem => hf (Option.some.inj hmem).symm
  cases m with
  | write g data v => exact s.replicateWrite_touches data v hnot
  | create g =>
    simp only [serve]
    split_ifs
    · exact s.setVersion_touches 1 hnot
    · obtain ⟨hdisk, hversion⟩ := (s.writeFile g []).setVersion_touches 1 hnot
      obtain ⟨hdisk', hversion'⟩ := s.writeFile_touches [] hnot
      exact ⟨hdisk.trans hdisk', hversion.trans hversion'⟩

lemma serve_table (s : ReplicatedDSFSServer) (m : PeerRequest) : (s.serve m).table = s.table := by
  cases m with
  | write g data v => rfl
  | create g =>
    simp only [serve]
    split_ifs <;> rfl

/-- The files a step of a handler at its own server touches. -/
lemma run_touches (l : List ℕ) (s : ReplicatedDSFSServer) (c : Call) {f : String} (hf : f ∉ c.carried.file) :
    (s.run l c).1.disk f = s.disk f ∧ (s.run l c).1.version f = s.version f := by
  cases hc : c.writes with
  | false =>
    have q := s.run_quiet l hc
    exact ⟨congrFun q.disk f, q.version f⟩
  | true =>
    cases c with
    | createFile g who => exact writeFile_touches s [] hf
    | createVersion g who => exact setVersion_touches s 1 hf
    | closeFile g data who => exact writeFile_touches s data hf
    | closeUpdate g data who => exact setVersion_touches s (s.version g + 1) hf
    | _ => cases hc

lemma run_handling (peers : ℕ → List ℕ) (l : List ℕ) (s : ReplicatedDSFSServer) (c : Call) :
    (primaryBackup peers).Handling c s.table (s.run l c).1.table (s.run l c).2.outcome := by
  cases c with
  | createStore who =>
    simp only [run]
    rw [storeResponse_table]
    exact .returns _ (.inl rfl)
  | closeStore committed n who =>
    simp only [run]
    rw [storeResponse_table]
    exact .returns _ (.inl rfl)
  | openSection f mode data =>
    simp only [run]
    rw [openHandle_table]
    exact .issues _ _ _ rfl
  | createDedup f who =>
    simp only [run]
    split
    · exact .returns _ (.inl rfl)
    · exact .goesOn _ (.refl _)
  | closeDedup handle data who =>
    simp only [run]
    split
    · exact .returns _ (.inl rfl)
    · exact .goesOn _ (.refl _)
  | closePop handle data who =>
    simp only [run]
    cases hi : s.openFiles handle with
    | none => exact .returns _ (.inl rfl)
    | some info =>
      dsimp only
      split_ifs with hmode
      · have hentry : ∀ f ∈ some info.filename, s.openFiles handle = some ⟨f, "w"⟩ := by
          intro f hf
          cases hf
          rw [hi, ← hmode]
        exact .pops handle _ rfl rfl rfl rfl hentry
      · exact .pops handle _ rfl rfl rfl rfl fun f hf => by cases hf
  | «open» f mode fetchData =>
    simp only [run]
    split_ifs
    · exact .returns _ (.inr fun _ _ _ h => by cases h)
    · exact .returns _ (.inr fun _ _ _ h => by cases h)
    · exact .goesOn _ (.refl _)
    · exact .goesOn _ (.refl _)
  | openRole f mode fetchData =>
    simp only [run]
    split_ifs
    · exact .goesOn _ (.refl _)
    · exact .returns _ (.inr fun _ _ _ h => by cases h)
  | openExists f mode fetchData =>
    simp only [run]
    split_ifs
    · exact .returns _ (.inr fun _ _ _ h => by cases h)
    · exact .goesOn _ (.refl _)
  | openFetch f mode fetchData =>
    simp only [run]
    split_ifs <;> exact .goesOn _ (.refl _)
  | openRead f mode => exact .goesOn _ (.refl _)
  | replicateCreate f who l' => exact .goesOn _ ⟨rfl, (fun i hi => by cases hi), (fun g hg => by cases hg)⟩
  | replicateCreateFile f who l' => exact .goesOn _ ⟨rfl, (fun i hi => by cases hi), (fun g hg => by cases hg)⟩
  | replicateCreateVersion f who l' =>
    exact .goesOn _ ⟨rfl, (fun i hi => by cases hi), (fun g hg => by cases hg)⟩
  | replicateWrite f data n who l' =>
    exact .goesOn _ ⟨rfl, (fun i hi => by cases hi), (fun g hg => by cases hg)⟩
  | createFile f who => exact .goesOn _ (.refl _)
  | createVersion f who => exact .goesOn _ (.refl _)
  | closeFile f data who => exact .goesOn _ (.refl _)
  | closeUpdate f data who => exact .goesOn _ (.refl _)
  | testVersionNumber f => exact .returns _ (.inl rfl)
  | _ =>
    simp only [run]
    split_ifs
    all_goals first | exact .returns _ (.inl rfl) | exact .goesOn _ (.refl _)

/-- The handler is in a replication loop with a peer left. -/
def AtPeer : Call → Prop
  | .replicateCreate _ _ (_ :: _) | .replicateCreateFile _ _ (_ :: _) | .replicateCreateVersion _ _ (_ :: _)
  | .replicateWrite _ _ _ _ (_ :: _) => True
  | _ => False

instance (c : Call) : Decidable (AtPeer c) :=
  match c with
  | .replicateCreate _ _ (_ :: _) | .replicateCreateFile _ _ (_ :: _) | .replicateCreateVersion _ _ (_ :: _)
  | .replicateWrite _ _ _ _ (_ :: _) => isTrue trivial
  | .replicateCreate _ _ [] | .replicateCreateFile _ _ [] | .replicateCreateVersion _ _ []
  | .replicateWrite _ _ _ _ [] | .create .. | .createRole .. | .createDedup .. | .createExists ..
  | .createFile .. | .createVersion .. | .createStore .. | .open .. | .openRole .. | .openExists ..
  | .openFetch .. | .openRead .. | .openSection .. | .close .. | .closeLookup .. | .closeRole ..
  | .closeDedup .. | .closePop .. | .closeFile .. | .closeUpdate .. | .closeStore ..
  | .testVersionNumber .. => isFalse id

lemma handle_of_not_atPeer {c : Call} (hc : ¬AtPeer c) (delivered : Bool) (w : Replicas) (n : ℕ) (r : Request) :
    handle peers delivered w n r c =
      (w.setNode n ((w.nodes n).run (peers n) c).1, ((w.nodes n).run (peers n) c).2.outcome) := by
  cases c with
  | replicateCreate f who l =>
    cases l with
    | nil => rfl
    | cons b l => exact absurd trivial hc
  | replicateCreateFile f who l =>
    cases l with
    | nil => rfl
    | cons b l => exact absurd trivial hc
  | replicateCreateVersion f who l =>
    cases l with
    | nil => rfl
    | cons b l => exact absurd trivial hc
  | replicateWrite f data v who l =>
    cases l with
    | nil => rfl
    | cons b l => exact absurd trivial hc
  | _ => rfl

/-- A step that keeps every handle and touches only `file`. -/
structure Touches (w w' : Replicas) (file : Option String) : Prop where
  table : ∀ m, (w'.nodes m).table = (w.nodes m).table
  files : ∀ m f, f ∉ file → (w'.nodes m).disk f = (w.nodes m).disk f ∧
    (w'.nodes m).version f = (w.nodes m).version f

lemma Touches.refl (w : Replicas) (file : Option String) : Touches w w file :=
  ⟨fun _ => rfl, fun _ _ _ => ⟨rfl, rfl⟩⟩

lemma Touches.give (w : Replicas) (m : Late) (file : Option String) : Touches w (give w m) file :=
  ⟨fun _ => rfl, fun _ _ _ => ⟨rfl, rfl⟩⟩

lemma Touches.setNode {w : Replicas} {b : ℕ} {file : Option String} (htable : s.table = (w.nodes b).table)
    (hfiles : ∀ f, f ∉ file → s.disk f = (w.nodes b).disk f ∧ s.version f = (w.nodes b).version f) :
    Touches w (w.setNode b s) file := by
  constructor
  case table =>
    intro m
    by_cases hm : m = b
    · rw [hm, World.setNode_self, htable]
    · rw [World.setNode_of_ne w _ hm]
  case files =>
    intro m f hf
    by_cases hm : m = b
    · rw [hm, World.setNode_self]
      exact hfiles f hf
    · rw [World.setNode_of_ne w _ hm]
      exact ⟨rfl, rfl⟩

lemma handle_of_atPeer (peers : ℕ → List ℕ) {c : Call} (hc : AtPeer c) (delivered : Bool) (w : Replicas) (n : ℕ)
    (r : Request) :
    Touches w (handle peers delivered w n r c).1 c.carried.file ∧
      ∃ c', (handle peers delivered w n r c).2 = .goesOn c' ∧ c'.carried = c.carried := by
  cases c with
  | replicateCreate f who l =>
    cases l with
    | nil => cases hc
    | cons b l =>
      simp only [handle]
      split_ifs
      · exact ⟨.refl w _, _, rfl, rfl⟩
      · exact ⟨.refl w _, _, rfl, rfl⟩
      · exact ⟨.give w _ _, _, rfl, rfl⟩
  | replicateCreateFile f who l =>
    cases l with
    | nil => cases hc
    | cons b l =>
      simp only [handle]
      split_ifs
      · exact ⟨.setNode rfl fun _ => (w.nodes b).writeFile_touches [], _, rfl, rfl⟩
      · exact ⟨.give w _ _, _, rfl, rfl⟩
  | replicateCreateVersion f who l =>
    cases l with
    | nil => cases hc
    | cons b l =>
      simp only [handle]
      split_ifs
      · exact ⟨.setNode rfl fun _ => (w.nodes b).setVersion_touches 1, _, rfl, rfl⟩
      · exact ⟨.give w _ _, _, rfl, rfl⟩
  | replicateWrite f data v who l =>
    cases l with
    | nil => cases hc
    | cons b l =>
      simp only [handle]
      split_ifs
      · exact ⟨.setNode rfl fun _ => (w.nodes b).replicateWrite_touches data v, _, rfl, rfl⟩
      · exact ⟨.give w _ _, _, rfl, rfl⟩
  | _ => cases hc

lemma handle_handling (delivered : Bool) (w : Replicas) (n : ℕ) (r : Request) (c : Call) :
    (primaryBackup peers).Handling c (w.nodes n).table ((handle peers delivered w n r c).1.nodes n).table
      (handle peers delivered w n r c).2 := by
  by_cases hc : AtPeer c
  · obtain ⟨ht, c', hgoes, hsame⟩ := handle_of_atPeer peers hc delivered w n r
    rw [ht.table, hgoes]
    apply Service.Handling.goesOn (S := primaryBackup peers) c'
    show c'.carried.Within c.carried
    rw [hsame]
    exact .refl _
  · rw [handle_of_not_atPeer hc]
    dsimp only
    rw [World.setNode_self]
    exact (w.nodes n).run_handling peers (peers n) c

lemma handle_touches (peers : ℕ → List ℕ) (delivered : Bool) (w : Replicas) (n : ℕ) (r : Request) (c : Call)
    (m : ℕ) {f : String} (hf : f ∉ c.carried.file) :
    ((handle peers delivered w n r c).1.nodes m).disk f = (w.nodes m).disk f ∧
      ((handle peers delivered w n r c).1.nodes m).version f = (w.nodes m).version f := by
  by_cases hc : AtPeer c
  · exact (handle_of_atPeer peers hc delivered w n r).1.files m f hf
  · rw [handle_of_not_atPeer hc]
    by_cases hm : m = n
    · rw [hm, World.setNode_self]
      exact (w.nodes n).run_touches (peers n) c hf
    · rw [World.setNode_of_ne w _ hm]
      exact ⟨rfl, rfl⟩

lemma handle_others (delivered : Bool) (w : Replicas) (n : ℕ) (r : Request) (c : Call) {m : ℕ} (hm : m ≠ n) :
    ((handle peers delivered w n r c).1.nodes m).table = (w.nodes m).table := by
  by_cases hc : AtPeer c
  · exact (handle_of_atPeer peers hc delivered w n r).1.table m
  · rw [handle_of_not_atPeer hc, World.setNode_of_ne w _ hm]

lemma mem_writes {shared : List Late} {p : Sent × String} :
    p ∈ writes shared ↔ ∃ m ∈ shared, m.sent = some p.1 ∧ m.request.filename = p.2 := by
  simp only [writes, List.mem_filterMap, Option.map_eq_some_iff]
  constructor
  · rintro ⟨m, hm, q, hq, rfl⟩
    exact ⟨m, hm, hq, rfl⟩
  · rintro ⟨m, hm, hq, hf⟩
    exact ⟨m, hm, p.1, hq, by rw [hf]⟩

lemma handle_shared (delivered : Bool) (w : Replicas) (n : ℕ) (r : Request) (c : Call) :
    ∀ m ∈ (handle peers delivered w n r c).1.shared, m ∈ w.shared ∨
      m.sent = r.sent ∧ m.request.filename ∈ c.carried.file := by
  have hgive : ∀ req : PeerRequest, req.filename ∈ c.carried.file → ∀ m ∈ (give w ⟨req, r.sent⟩).shared,
      m ∈ w.shared ∨ m.sent = r.sent ∧ m.request.filename ∈ c.carried.file := by
    intro req hreq m hm
    obtain hold | hnew := List.mem_append.mp hm
    · exact .inl hold
    · obtain rfl := List.mem_singleton.mp hnew
      exact .inr ⟨rfl, hreq⟩
  by_cases hc : AtPeer c
  · cases c with
    | replicateCreate f who l =>
      cases l with
      | nil => cases hc
      | cons b l =>
        simp only [handle]
        split_ifs
        · exact fun m hm => .inl hm
        · exact fun m hm => .inl hm
        · exact hgive _ rfl
    | replicateCreateFile f who l =>
      cases l with
      | nil => cases hc
      | cons b l =>
        simp only [handle]
        split_ifs
        · exact fun m hm => .inl hm
        · exact hgive _ rfl
    | replicateCreateVersion f who l =>
      cases l with
      | nil => cases hc
      | cons b l =>
        simp only [handle]
        split_ifs
        · exact fun m hm => .inl hm
        · exact hgive _ rfl
    | replicateWrite f data v who l =>
      cases l with
      | nil => cases hc
      | cons b l =>
        simp only [handle]
        split_ifs
        · exact fun m hm => .inl hm
        · exact hgive _ rfl
    | _ => cases hc
  · rw [handle_of_not_atPeer hc]
    exact fun m hm => .inl hm

lemma turn_touches (e : ReplicaEvent) (w : Replicas) (m : ℕ) : ((turn e w).nodes m).table = (w.nodes m).table := by
  have hset : ∀ (b : ℕ) (s : ReplicatedDSFSServer), s.table = (w.nodes b).table →
      ((w.setNode b s).nodes m).table = (w.nodes m).table := by
    intro b s htable
    by_cases hm : m = b
    · rw [hm, World.setNode_self, htable]
    · rw [World.setNode_of_ne w _ hm]
  cases e with
  | late b late =>
    simp only [turn]
    split_ifs
    · exact hset b _ ((w.nodes b).serve_table late.request)
    · rfl
  | role n isPrimary primaryAddr => exact hset n _ rfl
  | markReady n => exact hset n _ rfl
  | install n files source => exact hset n _ rfl
  | loadExisting n => exact hset n _ rfl

lemma turn_shared (e : ReplicaEvent) (w : Replicas) : (turn e w).shared = w.shared := by
  cases e with
  | late b late =>
    simp only [turn]
    split_ifs <;> rfl
  | _ => rfl

lemma turn_changes {e : ReplicaEvent} {w : Replicas} {q : Sent} {f : String} (hq : q ∈ onBehalf e w.shared)
    (hchange : (primaryBackup peers).Changes w (turn e w) f) : (q, f) ∈ writes w.shared := by
  cases e with
  | late b late =>
    simp only [onBehalf] at hq
    split_ifs at hq with hlate
    · refine mem_writes.mpr ⟨late, hlate, hq, ?_⟩
      by_contra hne
      obtain ⟨m, hm⟩ := hchange
      rw [turn, if_pos hlate] at hm
      by_cases hmb : m = b
      · rw [hmb, World.setNode_self] at hm
        obtain ⟨hdisk, hversion⟩ := (w.nodes b).serve_touches late.request fun heq => hne heq.symm
        exact hm.elim (fun hd => hd hdisk) fun hv => hv hversion
      · rw [World.setNode_of_ne w _ hmb] at hm
        exact hm.elim (fun hd => hd rfl) fun hv => hv rfl
    · cases hq
  | _ => cases hq

end ReplicatedDSFSServer

lemma primaryBackup_disciplined (peers : ℕ → List ℕ) : (primaryBackup peers).Disciplined := by
  constructor
  case fresh => rfl
  case restart => exact fun _ => rfl
  case start =>
    intro r
    cases r <;> rfl
  case own => exact ReplicatedDSFSServer.handle_handling
  case others => exact fun a w n r c m hm => ReplicatedDSFSServer.handle_others a w n r c hm
  case changes =>
    rintro a w n r c f ⟨m, hchange⟩
    by_contra hf
    obtain ⟨hdisk, hversion⟩ := ReplicatedDSFSServer.handle_touches peers a w n r c m hf
    exact hchange.elim (fun hd => hd hdisk) fun hv => hv hversion
  case writes =>
    intro a w n r c p hp
    obtain ⟨m, hm, hsent, hfile⟩ := ReplicatedDSFSServer.mem_writes.mp hp
    obtain hold | ⟨hs, hf⟩ := ReplicatedDSFSServer.handle_shared a w n r c m hm
    · exact .inl (ReplicatedDSFSServer.mem_writes.mpr ⟨m, hold, hsent, hfile⟩)
    · rw [hsent] at hs
      rw [hfile] at hf
      exact .inr ⟨hs.symm, hf⟩
  case turnTable => exact ReplicatedDSFSServer.turn_touches
  case turnWrites =>
    intro e w p hp
    have hshared := congrArg ReplicatedDSFSServer.writes (ReplicatedDSFSServer.turn_shared e w)
    exact Eq.mp (congrArg (p ∈ ·) hshared) hp
  case turnChanges => exact fun e w q f => ReplicatedDSFSServer.turn_changes

end DistributedStorage.Replication
