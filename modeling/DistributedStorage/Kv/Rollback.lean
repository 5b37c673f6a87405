import DistributedStorage.Kv.Servicer
import DistributedStorage.Kv.Snapshot
import DistributedStorage.Raft.Replaying

/-! What a snapshot makes of a node's state machine. It is restored whatever its term and its index, while
the applier goes on with the entries it has in hand. -/

set_option linter.unusedSectionVars false

namespace DistributedStorage.Kv

open Library Raft Runs

variable {ι : Type} [DecidableEq ι] {loads : Bytes → Except String CasSpec} {M : ℕ}
  {address : ι → String}

lemma applyEntry_maxSessions (m : KVStateMachine) (e : Entry) :
    ((kv loads M address).applyEntry m e).1.maxSessions = m.maxSessions := by
  rw [Config.applyEntry]
  split_ifs
  · rfl
  · exact KVStateMachine.apply_maxSessions loads m e

lemma replayFrom_maxSessions (m : KVStateMachine) (es : List Entry) :
    ((kv loads M address).replayFrom m es).maxSessions = m.maxSessions := by
  induction es generalizing m with
  | nil => rfl
  | cons e es ih =>
    change ((kv loads M address).replayFrom ((kv loads M address).applyEntry m e).1 es).maxSessions = _
    rw [ih, applyEntry_maxSessions]

lemma restore_replay {m : KVStateMachine} (hm : m.maxSessions = M) (es : List Entry) :
    (m.restore ((kv loads M address).replay es).snapshot).1 = (kv loads M address).replay es := by
  have hmax : ((kv loads M address).replay es).maxSessions = M := by
    change ((kv loads M address).replayFrom (.init M) es).maxSessions = M
    exact replayFrom_maxSessions _ es
  generalize (kv loads M address).replay es = r at hmax ⊢
  rw [KVStateMachine.restore_snapshot, hm, ← hmax]

variable {C : List Entry} {n m : Node ι KVStateMachine Result} {j t : ℕ}

lemma replays_maxSessions (h : Replays (kv loads M address) C (.init M) 0 j n) :
    n.sm.maxSessions = M := by
  rw [h.sm, replayFrom_maxSessions]
  rfl

/-- The message is a snapshot of the committed log `C`. -/
structure TakenOf (loads : Bytes → Except String CasSpec) (M : ℕ) (address : ι → String)
    (C : List Entry) (args : InstallSnapshotArgs ι) : Prop where
  bound : args.lastIncludedIndex ≤ C.length
  data : args.snapshotData = ((kv loads M address).replay (C.take args.lastIncludedIndex)).snapshot

variable {args : InstallSnapshotArgs ι}

lemma stale_unchanged_iff (h : Replays (kv loads M address) C (.init M) 0 j n)
    (ht : TakenOf loads M address C args) (hterm : args.term < n.currentTerm) :
    (n.handleInstallSnapshot KVStateMachine.restore args).1 = n ↔
      n.leaderId = some args.leaderId ∧ n.timerArmed = true ∧ args.lastIncludedIndex = 0 ∧
        n.sm = .init M ∧ n.logFile = some n.log := by
  have hrestore : (n.sm.restore args.snapshotData).1 =
      (kv loads M address).replay (C.take args.lastIncludedIndex) := by
    rw [ht.data]
    exact restore_replay (replays_maxSessions h) _
  rw [handleInstallSnapshot_stale hterm, hrestore]
  constructor
  · intro hsame
    have hlog := congrArg Node.log hsame
    have hli : args.lastIncludedIndex = 0 := snapshotEnds_log.mp hlog
    rw [hli] at hsame
    have hlid := congrArg Node.leaderId hsame
    have harmed := congrArg Node.timerArmed hsame
    have hsm := congrArg Node.sm hsame
    have hfile := congrArg Node.logFile hsame
    exact ⟨hlid.symm, harmed.symm, hli, hsm.symm, hfile.symm⟩
  · rintro ⟨hlid, harmed, hli, hsm, hfile⟩
    rw [hli]
    have hkeeps : { n with
        leaderId := some args.leaderId
        timerArmed := true
        sm := (kv loads M address).replay (C.take 0) } = n := by
      rw [← hlid]
      cases n
      cases harmed
      cases hsm
      rfl
    rw [hkeeps, Node.snapshotEnds, if_pos (Nat.zero_le _), List.drop_zero, Nat.max_zero, Nat.max_zero,
      Node.persistLog]
    dsimp only
    rw [← hfile]

variable [Fintype ι]

/-- Three nodes with room for one session. -/
def oneSession : Config (Fin 3) KVStateMachine Result := kv noCas 1 fun _ => ""

def putLog : List Entry := [noopEntry 1 1, ⟨1, 2, .put, "k", [7], "c", 1⟩]

/-- The node stores, commits and applies both entries. -/
def appliedPut : List (Section (Fin 3) KVStateMachine) :=
  [.handleAppendEntries ⟨1, 0, 0, 0, putLog, 2⟩, .applierTakes, .applierApplies, .applierResolves,
    .applierApplies, .applierResolves]

lemma late_settled {n : Node (Fin 3) KVStateMachine Result} {args : InstallSnapshotArgs (Fin 3)}
    (hsm : n.sm.maxSessions = 1) (hun : n.unapplied = []) (ht : TakenOf noCas 1 (fun _ => "") putLog args) :
    ((n.handleInstallSnapshot KVStateMachine.restore args).1).settled oneSession =
      oneSession.replay (putLog.take args.lastIncludedIndex) := by
  have hbegin := snapshotBegins_applier n args.term args.leaderId
  have hun' : ((n.handleInstallSnapshot KVStateMachine.restore args).1).unapplied = [] :=
    hbegin.unapplied.trans hun
  have hsm' : ((n.handleInstallSnapshot KVStateMachine.restore args).1).sm =
      ((n.snapshotBegins args.term args.leaderId).sm.restore args.snapshotData).1 := rfl
  rw [Node.settled, hun', hsm', hbegin.sm, ht.data]
  exact restore_replay hsm _

end DistributedStorage.Kv
