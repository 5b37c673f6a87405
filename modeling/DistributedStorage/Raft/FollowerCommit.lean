import DistributedStorage.Raft.Redelivery
import DistributedStorage.Raft.StateMachineSafety

/-! How far a follower commits on a request: the handler stops at the end of its own log, which is the end
of what the sender vouched for whenever no leader claims to have committed more than it has. -/

set_option linter.unusedSectionVars false

namespace DistributedStorage.Raft

open Library.LeaderLogs Library.Runs

variable {ι σ ρ : Type} [DecidableEq ι]

lemma updateCommit_commitIndex (n : Node ι σ ρ) (ldrCommit : ℕ) :
    (n.updateCommit ldrCommit).commitIndex =
      if n.commitIndex < ldrCommit then min ldrCommit (n.updateCommit ldrCommit).lastLogIndex
      else n.commitIndex := by
  simp only [Node.updateCommit]
  split_ifs <;> rfl

lemma handleAppendEntries_commitIndex {n : Node ι σ ρ} {args : AppendEntriesArgs ι}
    {reply : AppendEntriesReply} (h : (n.handleAppendEntries args).2 = some reply)
    (hr : reply.success = true) : (n.handleAppendEntries args).1.commitIndex =
      if n.commitIndex < args.leaderCommit then
        min args.leaderCommit (n.handleAppendEntries args).1.lastLogIndex
      else n.commitIndex := by
  simp only [Node.handleAppendEntries] at h ⊢
  split_ifs at h with hlt
  · cases h
    cases hr
  rw [if_neg hlt]
  obtain ⟨-, -, hci⟩ := stepDownForAppend_eq args.term (not_lt.mp hlt)
  generalize hk : Node.resetElectionTimer
    { n.stepDownForAppend args.term with leaderId := some args.leaderId } = k at h ⊢
  have hkc : k.commitIndex = n.commitIndex := hk ▸ hci
  cases hc : k.checkPrevious args.prevLogIndex args.prevLogTerm with
  | none =>
    rw [hc] at h
    cases h
  | some answer =>
    rw [hc] at h
    cases answer with
    | some r =>
      cases h
      rw [checkPrevious_rejects hc] at hr
      cases hr
    | none =>
      dsimp only
      rw [updateCommit_commitIndex, (storeEntries_log k args.prevLogIndex args.entries).2, hkc]

/-- What a request with `leaderCommit` can commit at `n` lies inside the log of its sender, and nothing
that `n` has committed lies behind the log it will have. -/
def Covers (sender : List Entry) (n : Node ι σ ρ) (leaderCommit : ℕ) : Prop :=
  leaderCommit ≤ n.commitIndex ∨
    if sender <+: n.log then
      n.commitIndex ≤ n.log.length ∧ min leaderCommit n.log.length ≤ max n.commitIndex sender.length
    else n.commitIndex ≤ sender.length

lemma vouched_iff {sender log : List Entry} (h : sender <+: log) {old new : ℕ} :
    (∀ k, old < k → k ≤ new → ∃ e, log[k - 1]? = some e ∧ sender[k - 1]? = some e) ↔
      new ≤ max old sender.length := by
  constructor
  · intro hall
    by_contra hlt
    obtain ⟨e, -, he⟩ := hall new (by omega) le_rfl
    have := (List.getElem?_eq_some_iff.mp he).1
    omega
  · intro hnew k hk hkn
    have hin : k - 1 < sender.length := by omega
    exact ⟨sender[k - 1], getElem?_of_isPrefix h (List.getElem?_eq_getElem hin),
      List.getElem?_eq_getElem hin⟩

lemma accepted_vouched_iff {sender log : List Entry} {leaderCommit : ℕ} {n : Node ι σ ρ}
    (hlog : log = accepted n.log sender) {new : ℕ} (hnew : new =
      if n.commitIndex < leaderCommit then min leaderCommit log.length else n.commitIndex) :
    (n.commitIndex ≤ new ∧ ∀ k, n.commitIndex < k → k ≤ new →
      ∃ e, log[k - 1]? = some e ∧ sender[k - 1]? = some e) ↔ Covers sender n leaderCommit := by
  unfold Covers
  split_ifs at hnew with hlt
  · have hpre : sender <+: log := by
      rw [hlog]
      exact prefix_accepted _ _
    rw [vouched_iff hpre, hnew]
    unfold accepted at hlog
    split_ifs at hlog ⊢ with hs
    · rw [hlog]
      omega
    · rw [hlog]
      omega
  · rw [hnew]
    constructor
    · exact fun _ => Or.inl (by omega)
    · exact fun _ => ⟨le_rfl, fun k hk hkn => by omega⟩

variable [Fintype ι]

namespace Cluster

variable {cfg : Config ι σ ρ} {s t : Cluster ι σ ρ} {i peer j : ι} {args : AppendEntriesArgs ι}
  {reply : AppendEntriesReply}

/-- A request built in `s` and accepted at any later time commits entries of its sender's log and takes no
commit back if and only if the sender's log and commit index cover what the follower then has. -/
theorem follower_commit_iff (h : Reachable cfg Free s) (hr : Run (step cfg) Free s t)
    (hb : (s.nodes i).appendEntriesArgs peer = some args)
    (ha : ((t.nodes j).handleAppendEntries args).2 = some reply) (hok : reply.success = true) :
    ((t.nodes j).commitIndex ≤ ((t.nodes j).handleAppendEntries args).1.commitIndex ∧
      ∀ k, (t.nodes j).commitIndex < k →
        k ≤ ((t.nodes j).handleAppendEntries args).1.commitIndex →
        ∃ e, ((t.nodes j).handleAppendEntries args).1.log[k - 1]? = some e ∧
          (s.nodes i).log[k - 1]? = some e) ↔
    Covers (s.nodes i).log (t.nodes j) args.leaderCommit := by
  obtain ⟨a, -, hs⟩ := refinement h
  obtain ⟨b, hab, ht⟩ := hs.run hr
  have hroot : Rooted Entry.term b (s.nodes i).log := (hs.rooted i).grow (run_grows hab).leaderLog
  have hlog := handleAppendEntries_accepted (ht.rooted j) hroot (slice_of_appendEntriesArgs hb) ha hok
  have hal : Aligned ((t.nodes j).handleAppendEntries args).1.log := by
    rw [hlog]
    rcases accepted_eq (t.nodes j).log (s.nodes i).log with he | he <;> rw [he]
    · exact ht.aligned j
    · exact hs.aligned i
  apply accepted_vouched_iff hlog
  rw [handleAppendEntries_commitIndex ha hok, hal.lastLogIndex]

/-- Where leaders count only replies to requests of their present term, every request covers whoever
accepts it. -/
theorem covers_of_timely (h : Reachable cfg (AtDelivery Timely) s)
    (hr : Run (step cfg) (AtDelivery Timely) s t)
    (hb : (s.nodes i).appendEntriesArgs peer = some args)
    (ha : ((t.nodes j).handleAppendEntries args).2 = some reply) (hok : reply.success = true) :
    Covers (s.nodes i).log (t.nodes j) args.leaderCommit := by
  obtain ⟨a, hs⟩ := safe h
  obtain ⟨b, hg, ht⟩ := hs.run hr
  obtain ⟨hl, -, hterm, -, -, hcommit, -⟩ := appendEntriesArgs_eq hb
  obtain ⟨p, hp, hkept⟩ := hs.commits.kept i
  have hleader : args.leaderCommit ≤ (s.nodes i).log.length := by
    rw [hcommit, ← hp]
    exact (hs.serving.tracks.committed hkept).1.length_le
  obtain ⟨q, hq, hfollower⟩ := ht.commits.kept j
  obtain ⟨hpre, hchosen⟩ := ht.serving.tracks.committed hfollower
  refine Or.inr ?_
  split_ifs with hlog
  · exact ⟨hq ▸ hpre.length_le, by omega⟩
  · -- what the follower committed is in the leader's log of that term, as is all the leader had then
    by_contra hlt
    have hsender : (s.nodes i).log <+: b.leaderLog args.term := by
      rw [hterm, ← (hs.serving.tracks.refines.leader i hl).1]
      exact hg.leaderLog _
    have hne : b.leaderLog args.term ≠ [] := by
      rw [hterm]
      exact leaderLog_ne_nil hg ((hs.serving.tracks.refines.elected _).mpr
        ⟨i, hs.serving.tracks.election.leader i hl⟩)
    have hq' := ht.serving.tracks.inv.chosen_in_leader hchosen
      (handleAppendEntries_success ha hok).1 hne
    have hshort := List.prefix_of_prefix_length_le hsender hq' (by omega)
    exact hlog (hshort.trans hpre)

def commitRequest : AppendEntriesArgs (Fin 3) :=
  ⟨1, 0, 0, 0, [noopEntry 1 1, someCommand.entry 1 2], 2⟩

theorem follower_commit_iff_first : ∃ s, Reachable (stateless 3) Free s ∧
    (s.nodes 0).appendEntriesArgs 2 = some commitRequest ∧
    ((s.nodes 2).handleAppendEntries commitRequest).1.commitIndex = 2 ∧
    ∀ k, 0 < k → k ≤ 2 → ∃ e, ((s.nodes 2).handleAppendEntries commitRequest).1.log[k - 1]? = some e ∧
      (s.nodes 0).log[k - 1]? = some e := by
  obtain ⟨s, hs, hargs, hreply, hold, hnew, hlog, hnil⟩ := Run.exists_of_execute (step (stateless 3))
    (init (stateless 3)) (campaign 0 1 0 [1] ++ [.appendEntry 0 someCommand] ++ replicate 0 1 2)
    (fun s => (s.nodes 0).appendEntriesArgs 2 = some commitRequest ∧
      ((s.nodes 2).handleAppendEntries commitRequest).2 = some ⟨1, true, 0, 0⟩ ∧
      (s.nodes 2).commitIndex = 0 ∧
      ((s.nodes 2).handleAppendEntries commitRequest).1.commitIndex = 2 ∧
      (s.nodes 0).log.length = 2 ∧ (s.nodes 2).log = []) (by decide +kernel)
  have hcovers : Covers (s.nodes 0).log (s.nodes 2) commitRequest.leaderCommit := by
    refine Or.inr ?_
    rw [hold, hnil, hlog]
    split_ifs <;> simp
  have hboth := ((follower_commit_iff hs Run.refl hargs hreply rfl).mpr hcovers).2
  rw [hold, hnew] at hboth
  exact ⟨s, hs, hargs, hnew, hboth⟩

/-- Node 0 counts a reply of term 1 in term 3 and commits five entries, loses all but two to the leader of
term 4, and leads term 5 with a commit index behind its log. -/
def shrunk : List (Event (Fin 5)) :=
  campaign 0 1 0 [1, 2] ++ List.replicate 4 (.appendEntry 0 someCommand) ++
      [.sendAppendEntries 0 1, .deliver 4] ++
    campaign 2 2 6 [3, 4] ++ [.sendAppendEntries 2 0, .deliver 10, .sendAppendEntries 2 1, .deliver 12] ++
    campaign 0 3 14 [1, 2] ++ List.replicate 3 (.appendEntry 0 someCommand) ++ [.deliver 5,
      .sendAppendEntries 0 3, .deliver 18, .deliver 19, .sendAppendEntries 0 3, .deliver 20, .deliver 21] ++
    campaign 2 4 22 [1, 4] ++ [.sendAppendEntries 2 0, .deliver 26] ++ campaign 0 5 28 [1, 2]

/-- Node 2 stores a longer request of term 5 and restarts. -/
def overtaken : List (Event (Fin 5)) :=
  [.appendEntry 0 someCommand, .appendEntry 0 someCommand, .sendAppendEntries 0 2, .deliver 32, .crash 2]

def delayedRequest : AppendEntriesArgs (Fin 5) := ⟨5, 0, 2, 4, [noopEntry 5 3], 5⟩

theorem follower_commit_overtaken : ¬ ∀ s, Reachable (stateless 5) Free s → ∀ t,
    Run (step (stateless 5)) Free s t → ∀ i peer j args reply,
    (s.nodes i).appendEntriesArgs peer = some args →
    ((t.nodes j).handleAppendEntries args).2 = some reply → reply.success = true →
    ∀ k, (t.nodes j).commitIndex < k → k ≤ ((t.nodes j).handleAppendEntries args).1.commitIndex →
      ((t.nodes j).handleAppendEntries args).1.log[k - 1]? = (s.nodes i).log[k - 1]? := by
  intro hall
  obtain ⟨s, hs, hargs, hlen, hlater⟩ := Run.exists_of_execute (step (stateless 5))
    (init (stateless 5)) shrunk (fun s => (s.nodes 0).appendEntriesArgs 2 = some delayedRequest ∧
      (s.nodes 0).log[3]? = none ∧
      (execute (step (stateless 5)) s overtaken).any (fun t =>
        ((t.nodes 2).handleAppendEntries delayedRequest).2 = some ⟨5, true, 0, 0⟩ ∧
        (t.nodes 2).commitIndex = 0 ∧
        ((t.nodes 2).handleAppendEntries delayedRequest).1.commitIndex = 5 ∧
        ((t.nodes 2).handleAppendEntries delayedRequest).1.log[3]? = some (someCommand.entry 5 4))
      = true) (by decide +kernel)
  obtain ⟨t, ht, hreply, hold, hnew, hentry⟩ := Run.exists_of_execute _ s overtaken _ hlater
  have hsame := hall s hs t ht 0 2 2 delayedRequest _ hargs hreply rfl 4 (by omega) (by omega)
  rw [hentry, hlen] at hsame
  cases hsame

end Cluster

end DistributedStorage.Raft
