import DistributedStorage.Library.OrderedDict
import DistributedStorage.Replication.Failover

/-! One server of the primary-backup file system and the requests it serves: what was asked of it, what it
carried out and what it answered. -/

namespace DistributedStorage.Replication

open Library Library.Runs Files

inductive Rpc
  | create
  | close
  deriving DecidableEq

inductive Operation
  | create (filename : String)
  | close (handle : ℤ)
  deriving DecidableEq

def Operation.rpc : Operation → Rpc
  | .create _ => .create
  | .close _ => .close

/-- The answers of success. -/
def Rpc.Succeeds : Rpc → Reply → Prop
  | .create, .created => True
  | .close, .closed _ => True
  | _, _ => False

/-- An identity under which a repeated request is recognised. -/
def Caller.Keyed (who : Caller) : Prop := who.clientId ≠ "" ∧ 0 < who.seqNum

instance (who : Caller) : Decidable who.Keyed := inferInstanceAs (Decidable (_ ∧ _))

def Reply.Fails (r : Reply) : Prop := ∃ message, r = .failed message

/-- The call ends with the status of the context, and no response. -/
def Reply.Aborts (r : Reply) : Prop := ∃ code details, r = .aborted code details

namespace Call

/-- What a handler has not begun to carry out. -/
def operation : Call → Option (Operation × Caller)
  | .create f who | .createRole f who | .createDedup f who | .createExists f who => some (.create f, who)
  | .close handle _ who | .closeLookup handle _ who | .closeRole handle _ who | .closeDedup handle _ who
  | .closePop handle _ who => some (.close handle, who)
  | _ => none

/-- The look into the cache. -/
def checks : Call → Option (Operation × Caller)
  | .createDedup f who => some (.create f, who)
  | .closeDedup handle _ who => some (.close handle, who)
  | _ => none

/-- The look at the file or the handle: it decides whether the operation is carried out. -/
def tries : Call → Option (Operation × Caller)
  | .createExists f who => some (.create f, who)
  | .closePop handle _ who => some (.close handle, who)
  | _ => none

def carries : Call → Option (Rpc × Caller)
  | .createFile _ who | .createVersion _ who | .replicateCreate _ who _ | .replicateCreateFile _ who _
  | .replicateCreateVersion _ who _ | .createStore who => some (.create, who)
  | .closeFile _ _ who | .closeUpdate _ _ who | .replicateWrite _ _ _ who _ | .closeStore _ _ who =>
    some (.close, who)
  | _ => none

def stores : Call → Option (Rpc × Caller)
  | .createStore who => some (.create, who)
  | .closeStore _ _ who => some (.close, who)
  | _ => none

/-- The handler has passed its look into the cache and has not answered. -/
def Works (c : Call) (who : Caller) : Prop :=
  (∃ p ∈ c.tries, p.2 = who) ∨ ∃ p ∈ c.carries, p.2 = who

variable {c : Call} {p : Operation × Caller} {q : Rpc × Caller}

lemma operation_of_checks (h : c.checks = some p) : c.operation = some p := by
  cases c with
  | createDedup f who => exact h
  | closeDedup handle data who => exact h
  | _ => cases h

lemma operation_of_tries (h : c.tries = some p) : c.operation = some p := by
  cases c with
  | createExists f who => exact h
  | closePop handle data who => exact h
  | _ => cases h

lemma tries_of_checks (h : c.checks = some p) : c.tries = none := by
  cases c with
  | createDedup f who => rfl
  | closeDedup handle data who => rfl
  | _ => cases h

lemma carries_of_operation (h : c.operation = some p) : c.carries = none := by
  cases c with
  | create f who => rfl
  | createRole f who => rfl
  | createDedup f who => rfl
  | createExists f who => rfl
  | close handle data who => rfl
  | closeLookup handle data who => rfl
  | closeRole handle data who => rfl
  | closeDedup handle data who => rfl
  | closePop handle data who => rfl
  | _ => cases h

lemma carries_of_stores (h : c.stores = some q) : c.carries = some q := by
  cases c with
  | createStore who => exact h
  | closeStore committed n who => exact h
  | _ => cases h

lemma tries_of_isRequest (h : c.IsRequest = true) : c.tries = none := by
  cases c with
  | createExists f who => cases h
  | closePop handle data who => cases h
  | _ => rfl

lemma carries_of_isRequest (h : c.IsRequest = true) : c.carries = none := by
  cases c with
  | create f who => rfl
  | «open» f mode fetchData => rfl
  | close handle data who => rfl
  | testVersionNumber f => rfl
  | _ => cases h

end Call

/-- What changes at a server besides its handlers: its role, and what the other servers send. -/
inductive NodeEvent
  | role (isPrimary : Bool) (primaryAddr : String)
  | markReady
  | serve (request : PeerRequest)
  | install (files : String → Option FileEntry) (source : String)
  | loadExisting

namespace ReplicatedDSFSServer

def meets (s : ReplicatedDSFSServer) : NodeEvent → ReplicatedDSFSServer
  | .role isPrimary primaryAddr => { s with isPrimary := isPrimary, primaryAddr := primaryAddr }
  | .markReady => { s with ready := true }
  | .serve request => s.serve request
  | .install files source => s.install files source
  | .loadExisting => s.loadExistingFiles

/-- The operation is not carried out: the file is there, or the handle is not. -/
def Refuses (s : ReplicatedDSFSServer) : Operation → Prop
  | .create f => (s.disk f).isSome = true
  | .close handle => s.openFiles handle = none

/-- The handle was given out by this server. -/
def Given (s : ReplicatedDSFSServer) : Operation → Prop
  | .create _ => True
  | .close handle => handle < s.nextHandle

/-- A server in a later state: no file is lost, and no handle comes back. -/
structure Later (s s' : ReplicatedDSFSServer) : Prop where
  files : ∀ f, (s.disk f).isSome = true → (s'.disk f).isSome = true
  given : s.nextHandle ≤ s'.nextHandle
  gone : ∀ handle, s.table.Gone handle → s'.table.Gone handle

variable {s s' : ReplicatedDSFSServer} {op : Operation} {peers : List ℕ}

lemma Later.refl (s : ReplicatedDSFSServer) : s.Later s := ⟨fun _ h => h, Int.le_refl _, fun _ h => h⟩

lemma Later.refuses (h : s.Later s') (hr : s.Refuses op) (hg : s.Given op) : s'.Refuses op ∧ s'.Given op := by
  cases op with
  | create f => exact ⟨h.files f hr, trivial⟩
  | close handle => exact h.gone handle ⟨hr, hg⟩

lemma Later.of_given (h : s.Later s') (hg : s.Given op) : s'.Given op := by
  cases op with
  | create f => trivial
  | close handle => exact Int.lt_of_lt_of_le hg h.given

lemma writeFile_keeps (s : ReplicatedDSFSServer) (f : String) (data : FileData) (g : String)
    (h : (s.disk g).isSome = true) : ((s.writeFile f data).disk g).isSome = true := by
  rw [writeFile_disk, h, Bool.or_true]

lemma run_keeps (peers : List ℕ) (s : ReplicatedDSFSServer) (c : Call) (f : String)
    (h : (s.disk f).isSome = true) :
    ((s.run peers c).1.disk f).isSome = true := by
  cases hc : c.writes with
  | false =>
    rw [(s.run_quiet peers hc).disk]
    exact h
  | true =>
    cases c with
    | createFile g who => exact s.writeFile_keeps g [] f h
    | createVersion g who => exact h
    | closeFile g data who => exact s.writeFile_keeps g data f h
    | closeUpdate g data who => exact h
    | _ => cases hc

lemma run_later (peers : List ℕ) (s : ReplicatedDSFSServer) (c : Call) : s.Later (s.run peers c).1 := by
  have hhandling := run_handling (fun _ => peers) peers s c
  exact ⟨s.run_keeps peers c, hhandling.nextHandle_le, fun _ hg => hhandling.gone hg⟩

lemma meets_later (s : ReplicatedDSFSServer) (e : NodeEvent) : s.Later (s.meets e) := by
  cases e with
  | role isPrimary primaryAddr => exact ⟨fun _ hf => hf, Int.le_refl _, fun _ hg => hg⟩
  | markReady => exact ⟨fun _ hf => hf, Int.le_refl _, fun _ hg => hg⟩
  | loadExisting => exact ⟨fun _ hf => hf, Int.le_refl _, fun _ hg => hg⟩
  | serve request =>
    have htable := s.serve_table request
    rw [table, table, HandleTable.mk.injEq] at htable
    refine ⟨fun f hf => ?_, Int.le_of_eq htable.2.symm, fun handle hg => ?_⟩
    · cases request with
      | create g =>
        simp only [meets, serve]
        split_ifs
        · exact hf
        · exact s.writeFile_keeps g [] f hf
      | write g data v => exact s.writeFile_keeps g data f hf
    · rw [meets, serve_table]
      exact hg
  | install files source =>
    refine ⟨fun f hf => ?_, Int.le_refl _, fun _ hg => hg⟩
    simp only [meets, ReplicatedDSFSServer.install]
    rw [Option.isSome_or, hf, Bool.or_true]

lemma meets_dedupCache (s : ReplicatedDSFSServer) (e : NodeEvent) : (s.meets e).dedupCache = s.dedupCache := by
  cases e with
  | serve request =>
    cases request with
    | create g =>
      simp only [meets, serve]
      split_ifs <;> rfl
    | write g data v => rfl
  | _ => rfl

/-- What a step of a handler is to the request it works for. -/
inductive Serves (s : ReplicatedDSFSServer) : Call → ReplicatedDSFSServer → Progress → Prop
  | waits {c c' : Call} {p : Operation × Caller} (hc : c.operation = some p) (htries : c.tries = none)
      (hc' : c'.operation = some p) (htries' : c'.tries = none) : Serves s c s (.goesOn c')
  | aborts {c : Call} {p : Operation × Caller} {r : Reply} (hc : c.operation = some p) (htries : c.tries = none)
      (hr : r.Aborts) : Serves s c s (.returns r)
  | cached {c : Call} {p : Operation × Caller} {r : Reply} (hc : c.checks = some p)
      (hr : s.checkIdempotent p.2 = some r) : Serves s c s (.returns r)
  | passes {c c' : Call} {p : Operation × Caller} (hc : c.checks = some p) (hr : s.checkIdempotent p.2 = none)
      (hc' : c'.tries = some p) : Serves s c s (.goesOn c')
  | refuses {c : Call} {p : Operation × Caller} {r : Reply} (hc : c.tries = some p) (href : s.Refuses p.1)
      (hr : r.Fails) : Serves s c s (.returns r)
  | starts {c c' : Call} {p : Operation × Caller} {s' : ReplicatedDSFSServer} (hc : c.tries = some p)
      (href : ¬s.Refuses p.1) (hcache : s'.dedupCache = s.dedupCache)
      (hc' : c'.carries = some (p.1.rpc, p.2)) : Serves s c s' (.goesOn c')
  | carries {c c' : Call} {q : Rpc × Caller} {s' : ReplicatedDSFSServer} (hc : c.carries = some q)
      (hcache : s'.dedupCache = s.dedupCache) (hc' : c'.carries = some q) : Serves s c s' (.goesOn c')
  | stores {c : Call} {q : Rpc × Caller} {r : Reply} (hc : c.stores = some q) (hr : q.1.Succeeds r) :
      Serves s c (s.storeResponse q.2 r) (.returns r)
  | others {c : Call} {s' : ReplicatedDSFSServer} {o : Progress} (hc : c.operation = none)
      (hcarries : c.carries = none)
      (hcache : s'.dedupCache = s.dedupCache)
      (hgoes : ∀ c', o = .goesOn c' → c'.operation = none ∧ c'.carries = none) : Serves s c s' o

lemma run_serves (peers : List ℕ) (s : ReplicatedDSFSServer) (c : Call) :
    s.Serves c (s.run peers c).1 (s.run peers c).2 := by
  cases c with
  | create f who =>
    simp only [run]
    split_ifs
    · exact .waits rfl rfl rfl rfl
    · exact .aborts rfl rfl ⟨_, _, rfl⟩
  | createRole f who =>
    simp only [run]
    split_ifs
    · exact .waits rfl rfl rfl rfl
    · exact .aborts rfl rfl ⟨_, _, rfl⟩
  | createDedup f who =>
    simp only [run]
    split
    · exact .cached (p := (.create f, who)) rfl ‹_›
    · exact .passes (p := (.create f, who)) rfl ‹_› rfl
  | createExists f who =>
    simp only [run]
    split_ifs with hf
    · exact .refuses (p := (.create f, who)) rfl hf ⟨_, rfl⟩
    · exact .starts (p := (.create f, who)) rfl hf rfl rfl
  | close handle data who =>
    simp only [run]
    split_ifs
    · exact .waits rfl rfl rfl rfl
    · exact .aborts rfl rfl ⟨_, _, rfl⟩
  | closeLookup handle data who =>
    simp only [run]
    split_ifs
    · exact .waits rfl rfl rfl rfl
    · exact .waits rfl rfl rfl rfl
  | closeRole handle data who =>
    simp only [run]
    split_ifs
    · exact .waits rfl rfl rfl rfl
    · exact .aborts rfl rfl ⟨_, _, rfl⟩
  | closeDedup handle data who =>
    simp only [run]
    split
    · exact .cached (p := (.close handle, who)) rfl ‹_›
    · exact .passes (p := (.close handle, who)) rfl ‹_› rfl
  | closePop handle data who =>
    simp only [run]
    cases hi : s.openFiles handle with
    | none => exact .refuses (p := (.close handle, who)) rfl hi ⟨_, rfl⟩
    | some info =>
      have href : ¬s.Refuses (.close handle) := by
        rw [Refuses, hi]
        exact Option.some_ne_none info
      dsimp only
      split_ifs
      · exact .starts (p := (.close handle, who)) rfl href rfl rfl
      · exact .starts (p := (.close handle, who)) rfl href rfl rfl
  | createFile f who => exact .carries rfl rfl rfl
  | createVersion f who => exact .carries rfl rfl rfl
  | replicateCreate f who l => exact .carries rfl rfl rfl
  | replicateCreateFile f who l => exact .carries rfl rfl rfl
  | replicateCreateVersion f who l => exact .carries rfl rfl rfl
  | closeFile f data who => exact .carries rfl rfl rfl
  | closeUpdate f data who => exact .carries rfl rfl rfl
  | replicateWrite f data n who l => exact .carries rfl rfl rfl
  | createStore who => exact .stores (q := (.create, who)) rfl trivial
  | closeStore committed n who => exact .stores (q := (.close, who)) rfl trivial
  | openSection f mode data =>
    refine .others rfl rfl ?_ (fun c' h => by cases h)
    simp only [run, openHandle]
    split_ifs <;> rfl
  | testVersionNumber f => exact .others rfl rfl rfl (fun c' h => by cases h)
  | «open» f mode fetchData =>
    refine .others rfl rfl ?_ (fun c' h => ?_)
    · simp only [run]
      split_ifs <;> rfl
    · simp only [run] at h
      split_ifs at h
      all_goals
        cases h
        exact ⟨rfl, rfl⟩
  | openRole f mode fetchData =>
    refine .others rfl rfl rfl (fun c' h => ?_)
    simp only [run] at h
    split_ifs at h
    cases h
    exact ⟨rfl, rfl⟩
  | openExists f mode fetchData =>
    refine .others rfl rfl rfl (fun c' h => ?_)
    simp only [run] at h
    split_ifs at h
    cases h
    exact ⟨rfl, rfl⟩
  | openFetch f mode fetchData =>
    refine .others rfl rfl rfl (fun c' h => ?_)
    simp only [run] at h
    split_ifs at h
    all_goals
      cases h
      exact ⟨rfl, rfl⟩
  | openRead f mode =>
    refine .others rfl rfl rfl (fun c' h => ?_)
    cases h
    exact ⟨rfl, rfl⟩

end ReplicatedDSFSServer

end DistributedStorage.Replication
