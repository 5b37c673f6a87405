import DistributedStorage.Replication.Failover
import DistributedStorage.Replication.RaftServer
import DistributedStorage.Replication.Redirects

/-! A Close changes the file its client opened, in both builds, if it empties only entries of the server
that gave its handle out. -/

namespace DistributedStorage.Replication

open Library Library.Runs Files

inductive Build
  | raft
  | primaryBackup (peers : ℕ → List ℕ)

def Build.service : Build → Service
  | .raft => raftBuild
  | .primaryBackup peers => Replication.primaryBackup peers

lemma Build.disciplined : ∀ b : Build, b.service.Disciplined
  | .raft => raftBuild_disciplined
  | .primaryBackup peers => primaryBackup_disciplined peers

namespace System

theorem close_stays_in_its_file {b : Build} {w : ℕ → b.service.Node} {x : System b.service}
    (h : Run step AtHome (init w) x) : x.Stays :=
  stays_of_run b.disciplined h

variable {S : Service}

instance (x : System S) (a : Act S) : Decidable (x.AtHome a) :=
  match a with
  | .run t _ => inferInstanceAs (Decidable (∀ th ∈ x.threads t, ∀ h ∈ S.pops th.stage, ∀ q ∈ th.request.sent,
      ∀ info ∈ (x.table th.node).openFiles h, info.mode = "w" →
        q.ticket.node = th.node ∧ q.ticket.epoch = x.epoch th.node ∨ info = q.ticket.opened))
  | .call .. | .receive .. | .close .. | .attempt .. | .turn _ | .restart _ => isTrue trivial

def twoFiles (filename : String) : Option FileData := if filename = "a" ∨ filename = "b" then some [0] else none

def raftNode : RaftDSFSServicer := RaftDSFSServicer.restart ⟨twoFiles, fun _ => none, fun _ => none, 1, fun _ => none⟩

/-- Answers at the leader, the server 0, and at the others. -/
def leading : RaftAnswer := ⟨false, true, "0", "localhost:50051", .applied 2⟩

def following : RaftAnswer := ⟨false, false, "0", "localhost:50051", .notLeader⟩

/-- The first handle of the server `n`, opened for writing. -/
def firstHandle (n : ℕ) (filename : String) : Ticket := ⟨n, 0, 1, ⟨filename, "w"⟩⟩

def sentWith (ticket : Ticket) : Sent := ⟨ticket, [7], ⟨"A", 1⟩⟩

/-- The client `k` opens a file at `n`, in the thread `t`; the handler makes `m` steps. -/
def opens (t n k m : ℕ) (filename : String) (a : S.Answer) : List (Act S) :=
  [.call t n (.open k ⟨filename, "w"⟩ false)] ++ List.replicate m (.run t a) ++ [.receive k (firstHandle n filename)]

/-- The client 0 closes its first handle; the handlers at the servers of the attempts make some steps. -/
def closes (ticket : Ticket) (attempts : List (ℕ × ℕ × S.Answer)) : List (Act S) :=
  [.close 0 1 [7] ⟨"A", 1⟩] ++
    attempts.flatMap fun p => .attempt 0 p.1 (sentWith ticket) :: List.replicate p.2.1 (.run 0 p.2.2)

def raftEntry (ticket : Ticket) (filename : String) : Entry :=
  ⟨.write, filename, [7], ⟨"A", 1⟩, some (sentWith ticket)⟩

theorem close_stays_in_its_file_at_home : ∃ x : System raftBuild,
    sentWith (firstHandle 0 "a") ∈ x.acked ∧ raftBuild.disk (x.world.nodes 0) "a" = some [7] ∧ x.Stays := by
  obtain ⟨x, hx, hacked, hdisk⟩ := Run.exists_of_execute (guarded step AtHome) (init (S := raftBuild) fun _ => raftNode)
    (opens 0 0 0 4 "a" leading ++ opens 1 1 1 4 "b" following ++ closes (firstHandle 0 "a") [(0, 5, leading)] ++
      [.turn (.apply 0 (raftEntry (firstHandle 0 "a") "a")), .run 0 leading, .run 0 leading])
    (fun x => sentWith (firstHandle 0 "a") ∈ x.acked ∧ raftBuild.disk (x.world.nodes 0) "a" = some [7])
    (by decide +kernel)
  exact ⟨x, hacked, hdisk, close_stays_in_its_file (b := .raft) hx.of_guarded⟩

lemma not_stays {x : System S} (a : Act S) {q : Sent} {n : ℕ} {f : String} (hhome : x.AtHome a)
    (hq : x.onBehalf a = some q)
    (hstep : (x.step a).any (fun y => S.disk (y.world.nodes n) f ≠ S.disk (x.world.nodes n) f) = true)
    (hother : q.ticket.opened ≠ ⟨f, "w"⟩) : ¬x.Stays := by
  intro hstays
  obtain ⟨y, hy, hchange⟩ := (Option.any_eq_true ..).mp hstep
  exact hother (hstays a y hhome hy q hq f ⟨n, .inl (of_decide_eq_true hchange)⟩)

/-- The client 0 opens a at the follower 1, the client 1 opens b at the leader 0: both get the handle 1. The
Close of the client 0 is redirected to the leader. -/
def redirected : List (Act raftBuild) :=
  opens 0 1 0 4 "a" following ++ opens 1 0 1 4 "b" leading ++
    closes (firstHandle 1 "a") [(1, 4, following), (0, 5, leading)]

def crossedEntry : Act raftBuild := .turn (.apply 0 (raftEntry (firstHandle 1 "a") "b"))

def pair (n : ℕ) : List ℕ := [1 - n]

def replica : ReplicatedDSFSServer := restarted twoFiles

def happens (l : List ReplicaEvent) : List (Act (Replication.primaryBackup pair)) := l.map fun e => .turn e

/-- The client 0 opens a at the primary 0, then the server 1 becomes primary and the client 1 opens b there. -/
def failedOver : List (Act (Replication.primaryBackup pair)) :=
  happens [.role 0 true "localhost:50050", .loadExisting 0, .markReady 0, .markReady 1] ++
    opens 0 0 0 5 "a" true ++
    happens [.role 0 false "localhost:50051", .role 1 true "localhost:50051"] ++
    opens 1 1 1 5 "b" true ++ closes (firstHandle 0 "a") [(0, 3, true), (1, 5, true)]

theorem resent_close_crosses_files :
    (∃ x z : System raftBuild, Run step Free (init fun _ => raftNode) x ∧ ¬x.Stays ∧
      Run step Free x z ∧ sentWith (firstHandle 1 "a") ∈ z.acked ∧
      raftBuild.disk (z.world.nodes 0) "a" = some [0] ∧ raftBuild.disk (z.world.nodes 0) "b" = some [7]) ∧
    ∃ x z : System (Replication.primaryBackup pair), Run step Free (init fun _ => replica) x ∧ ¬x.Stays ∧
      Run step Free x z ∧ sentWith (firstHandle 0 "a") ∈ z.acked ∧
      (Replication.primaryBackup pair).disk (z.world.nodes 1) "b" = some [7] := by
  constructor
  · obtain ⟨x, hx, hq, hstep, hrest⟩ := Run.exists_of_execute step (init fun _ => raftNode) redirected
      (fun x => x.onBehalf crossedEntry = some (sentWith (firstHandle 1 "a")) ∧
        (x.step crossedEntry).any (fun y =>
          raftBuild.disk (y.world.nodes 0) "b" ≠ raftBuild.disk (x.world.nodes 0) "b") = true ∧
        (execute step x [crossedEntry, .run 0 leading, .run 0 leading]).any
          (fun z => sentWith (firstHandle 1 "a") ∈ z.acked ∧ raftBuild.disk (z.world.nodes 0) "a" = some [0] ∧
            raftBuild.disk (z.world.nodes 0) "b" = some [7]))
      (by decide +kernel)
    obtain ⟨z, hz, hacked, ha, hb⟩ := Run.exists_of_execute step x _ _ hrest
    exact ⟨x, z, hx, not_stays crossedEntry trivial hq hstep (by decide), hz, hacked, ha, hb⟩
  · obtain ⟨x, hx, hhome, hq, hstep, hrest⟩ := Run.exists_of_execute step (init fun _ => replica) failedOver
      (fun x => x.AtHome (.run 0 true) ∧ x.onBehalf (.run 0 true) = some (sentWith (firstHandle 0 "a")) ∧
        (x.step (.run 0 true)).any (fun y => (Replication.primaryBackup pair).disk (y.world.nodes 1) "b" ≠
          (Replication.primaryBackup pair).disk (x.world.nodes 1) "b") = true ∧
        (execute step x (List.replicate 5 (.run 0 true))).any
          (fun z => sentWith (firstHandle 0 "a") ∈ z.acked ∧
            (Replication.primaryBackup pair).disk (z.world.nodes 1) "b" = some [7]))
      (by decide +kernel)
    obtain ⟨z, hz, hacked, hb⟩ := Run.exists_of_execute step x _ _ hrest
    exact ⟨x, z, hx, not_stays (.run 0 true) hhome hq hstep (by decide), hz, hacked, hb⟩

end System

end DistributedStorage.Replication
