import DistributedStorage.Library.Runs
import DistributedStorage.Replication.Server
import Mathlib.Tactic.SplitIfs

/-! File handles that clients carry from server to server. A service says what its servers do; the clients
open and close files at any of them, and send a Close again as often as they like. -/

namespace DistributedStorage.Replication

open Library Library.Runs Files

structure HandleTable where
  openFiles : ℤ → Option OpenFile
  nextHandle : ℤ

namespace HandleTable

def empty : HandleTable := ⟨fun _ => none, 1⟩

def issue (t : HandleTable) (info : OpenFile) : HandleTable :=
  ⟨Function.update t.openFiles t.nextHandle (some info), t.nextHandle + 1⟩

def pop (t : HandleTable) (handle : ℤ) : HandleTable :=
  ⟨Function.update t.openFiles handle none, t.nextHandle⟩

def Bounded (t : HandleTable) : Prop := ∀ handle info, t.openFiles handle = some info → handle < t.nextHandle

/-- A handle that was given out and is no longer in the table. -/
def Gone (t : HandleTable) (handle : ℤ) : Prop := t.openFiles handle = none ∧ handle < t.nextHandle

/-- A handle that was given out for `opened`: it leads there or nowhere. -/
def Holds (t : HandleTable) (handle : ℤ) (opened : OpenFile) : Prop :=
  handle < t.nextHandle ∧ ∀ info, t.openFiles handle = some info → info = opened

variable {t : HandleTable} {handle h : ℤ} {opened info : OpenFile}

lemma empty_bounded : empty.Bounded := fun _ _ hi => by cases hi

lemma Bounded.issue (ht : t.Bounded) : (t.issue info).Bounded := by
  intro h i hi
  obtain ⟨rfl, -⟩ | ⟨-, hi⟩ := of_update_some hi
  · exact Int.lt_succ _
  · exact Int.lt_trans (ht h i hi) (Int.lt_succ _)

lemma Bounded.pop (ht : t.Bounded) : (t.pop handle).Bounded := by
  intro h i hi
  exact ht h i (of_update_none hi).2

lemma Holds.issue (hh : t.Holds h opened) : (t.issue info).Holds h opened := by
  refine ⟨Int.lt_trans hh.1 (Int.lt_succ _), fun i hi => hh.2 i ?_⟩
  simp only [HandleTable.issue] at hi
  rw [Function.update_of_ne (Int.ne_of_lt hh.1)] at hi
  exact hi

lemma Holds.pop (hh : t.Holds h opened) : (t.pop handle).Holds h opened := by
  refine ⟨hh.1, fun i hi => hh.2 i ?_⟩
  exact (of_update_none hi).2

lemma Gone.issue (hg : t.Gone h) : (t.issue info).Gone h := by
  refine ⟨?_, Int.lt_trans hg.2 (Int.lt_succ _)⟩
  simp only [HandleTable.issue]
  rw [Function.update_of_ne (Int.ne_of_lt hg.2)]
  exact hg.1

lemma Gone.pop (hg : t.Gone h) : (t.pop handle).Gone h := by
  refine ⟨?_, hg.2⟩
  simp only [HandleTable.pop, Function.update_apply]
  split_ifs
  · rfl
  · exact hg.1

lemma issue_holds (t : HandleTable) (info : OpenFile) : (t.issue info).Holds t.nextHandle info := by
  refine ⟨Int.lt_succ _, fun i hi => ?_⟩
  simp only [HandleTable.issue] at hi
  rw [Function.update_self] at hi
  exact (Option.some.inj hi).symm

end HandleTable

/-- A handle as a client holds it: the start of the server that gave it out, and what was opened. -/
structure Ticket where
  node : ℕ
  epoch : ℕ
  handle : ℤ
  opened : OpenFile
  deriving DecidableEq

/-- A Close that a client has sent. -/
structure Sent where
  ticket : Ticket
  data : FileData
  who : Caller
  deriving DecidableEq

inductive Request
  | create (filename : String) (who : Caller)
  | open (client : ℕ) (info : OpenFile) (fetchData : Bool)
  | close (q : Sent)
  | testVersionNumber (filename : String)

def Request.sent : Request → Option Sent
  | .close q => some q
  | _ => none

/-- What a handler knows: an Open what it opens, a Close its handle until it looks it up, and then, like the
others, the file it works on. -/
structure Carried where
  info : Option OpenFile
  handle : Option ℤ
  file : Option String

def Request.carried : Request → Carried
  | .create f _ => ⟨none, none, some f⟩
  | .open _ info _ => ⟨some info, none, some info.filename⟩
  | .close q => ⟨none, some q.ticket.handle, none⟩
  | .testVersionNumber f => ⟨none, none, some f⟩

/-- `c` knows nothing that `d` does not know. -/
structure Carried.Within (c d : Carried) : Prop where
  info : c.info = d.info
  handle : ∀ h ∈ c.handle, h ∈ d.handle
  file : ∀ f ∈ c.file, f ∈ d.file

lemma Carried.Within.refl (c : Carried) : c.Within c := ⟨rfl, fun _ h => h, fun _ h => h⟩

inductive Outcome (Stage : Type)
  | goesOn (c : Stage)
  | returns (r : Reply)

/-- The servers and what is under way between them. -/
structure World (Node Shared : Type) where
  nodes : ℕ → Node
  shared : Shared

namespace World

variable {Node Shared : Type}

def setNode (w : World Node Shared) (n : ℕ) (s : Node) : World Node Shared :=
  { w with nodes := Function.update w.nodes n s }

@[simp] lemma setNode_self (w : World Node Shared) (n : ℕ) (s : Node) : (w.setNode n s).nodes n = s := by
  rw [setNode]
  exact Function.update_self n s w.nodes

lemma setNode_of_ne (w : World Node Shared) (s : Node) {n m : ℕ} (hm : m ≠ n) :
    (w.setNode n s).nodes m = w.nodes m := by
  rw [setNode]
  exact Function.update_of_ne hm s w.nodes

end World

/-- What the servers of one build do. `run` is a step of a handler, which may get an `Answer` from the
surroundings; `turn` is an `Event` outside the handlers. `writes` are the Closes whose bytes are under way,
with the file they are for. -/
structure Service where
  Node : Type
  Stage : Type
  Shared : Type
  Answer : Type
  Event : Type
  table : Node → HandleTable
  disk : Node → String → Option FileData
  version : Node → String → ℕ
  writes : Shared → List (Sent × String)
  carried : Stage → Carried
  pops : Stage → Option ℤ
  fresh : Shared
  restart : Node → Node
  start : Request → Stage
  run : Answer → World Node Shared → ℕ → Request → Stage → World Node Shared × Outcome Stage
  turn : Event → World Node Shared → World Node Shared
  onBehalf : Event → Shared → Option Sent

namespace Service

variable (S : Service)

/-- A step changes the bytes or the version of `f` at some server. -/
def Changes (w w' : World S.Node S.Shared) (f : String) : Prop :=
  ∃ m, S.disk (w'.nodes m) f ≠ S.disk (w.nodes m) f ∨ S.version (w'.nodes m) f ≠ S.version (w.nodes m) f

/-- What a step of a handler does to the handles of its server. -/
inductive Handling (c : S.Stage) (t : HandleTable) : HandleTable → Outcome S.Stage → Prop
  | goesOn (c' : S.Stage) (h : (S.carried c').Within (S.carried c)) : Handling c t t (.goesOn c')
  | returns (r : Reply) (h : (S.carried c).info = none ∨ ∀ handle data version, r ≠ .opened handle data version) :
      Handling c t t (.returns r)
  | issues (info : OpenFile) (data : FileData) (version : ℕ) (h : (S.carried c).info = some info) :
      Handling c t (t.issue info) (.returns (.opened t.nextHandle data version))
  | pops (handle : ℤ) (c' : S.Stage) (hpops : S.pops c = some handle) (hhandle : (S.carried c).handle = some handle)
      (hinfo : (S.carried c').info = (S.carried c).info) (hdone : (S.carried c').handle = none)
      (hfile : ∀ f ∈ (S.carried c').file, t.openFiles handle = some ⟨f, "w"⟩) :
      Handling c t (t.pop handle) (.goesOn c')

variable {S} in
lemma Handling.bounded {c : S.Stage} {t t' : HandleTable} {o : Outcome S.Stage} (h : S.Handling c t t' o)
    (ht : t.Bounded) : t'.Bounded := by
  cases h with
  | goesOn c' hin => exact ht
  | returns r hr => exact ht
  | issues info data version hi => exact ht.issue
  | pops handle c' => exact ht.pop

variable {S} in
lemma Handling.holds {c : S.Stage} {t t' : HandleTable} {o : Outcome S.Stage} (h : S.Handling c t t' o)
    {handle : ℤ} {opened : OpenFile} (ht : t.Holds handle opened) : t'.Holds handle opened := by
  cases h with
  | goesOn c' hin => exact ht
  | returns r hr => exact ht
  | issues info data version hi => exact ht.issue
  | pops handle' c' => exact ht.pop

variable {S} in
/-- A handle that is gone does not come back. -/
lemma Handling.gone {c : S.Stage} {t t' : HandleTable} {o : Outcome S.Stage} (h : S.Handling c t t' o)
    {handle : ℤ} (ht : t.Gone handle) : t'.Gone handle := by
  cases h with
  | goesOn c' hin => exact ht
  | returns r hr => exact ht
  | issues info data version hi => exact ht.issue
  | pops handle' c' => exact ht.pop

variable {S} in
lemma Handling.nextHandle_le {c : S.Stage} {t t' : HandleTable} {o : Outcome S.Stage} (h : S.Handling c t t' o) :
    t.nextHandle ≤ t'.nextHandle := by
  cases h with
  | goesOn c' hin => exact Int.le_refl _
  | returns r hr => exact Int.le_refl _
  | issues info data version hi => exact Int.le_of_lt (Int.lt_succ _)
  | pops handle c' => exact Int.le_refl _

/-- The laws of a service: a handler touches only the handles of its server, changes only the file it works
on, and leaves to the others only what it was sent for. -/
structure Disciplined : Prop where
  fresh : S.writes S.fresh = []
  restart : ∀ s, S.table (S.restart s) = .empty
  start : ∀ r, S.carried (S.start r) = r.carried
  own : ∀ a w n r c, S.Handling c (S.table (w.nodes n)) (S.table ((S.run a w n r c).1.nodes n)) (S.run a w n r c).2
  others : ∀ a w n r c m, m ≠ n → S.table ((S.run a w n r c).1.nodes m) = S.table (w.nodes m)
  changes : ∀ a w n r c f, S.Changes w (S.run a w n r c).1 f → f ∈ (S.carried c).file
  writes : ∀ a w n r c, ∀ p ∈ S.writes (S.run a w n r c).1.shared, p ∈ S.writes w.shared ∨
    p.1 ∈ r.sent ∧ p.2 ∈ (S.carried c).file
  turnTable : ∀ e w m, S.table ((S.turn e w).nodes m) = S.table (w.nodes m)
  turnWrites : ∀ e w, ∀ p ∈ S.writes (S.turn e w).shared, p ∈ S.writes w.shared
  turnChanges : ∀ e w q f, q ∈ S.onBehalf e w.shared → S.Changes w (S.turn e w) f → (q, f) ∈ S.writes w.shared

end Service

end DistributedStorage.Replication
