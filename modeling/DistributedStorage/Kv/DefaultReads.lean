import DistributedStorage.Kv.LinearizableReads
import DistributedStorage.Raft.NewestLeader

/-! Reads without a barrier: a leader that nobody has followed, and that has caught up while the read was
with it, has applied all that was applied anywhere. -/

set_option linter.unusedSectionVars false

namespace DistributedStorage.Kv

open Library Library.LeaderLogs Raft Runs

variable {ι : Type} [DecidableEq ι] [Fintype ι] {loads : Bytes → Except String CasSpec} {M : ℕ}
  {address : ι → String}

namespace System

variable {cfg : Config ι KVStateMachine Result} {s t : System ι} {a : State ι Entry}
  {Q : Cluster ι KVStateMachine Result → Message ι → Prop}

/-- Processes start again, and what they have applied stays on record. -/
def Follows (s t : System ι) : Prop :=
  (∀ i, (s.raft.nodes i).boot ≤ (t.raft.nodes i).boot) ∧ s.raft.trace <+: t.raft.trace

lemma Follows.refl (s : System ι) : Follows s s := ⟨fun _ => le_rfl, List.prefix_rfl⟩

lemma Follows.trans {r : System ι} (h : Follows r s) (h' : Follows s t) : Follows r t :=
  ⟨fun i => (h.1 i).trans (h'.1 i), h.2.trans h'.2⟩

lemma Sound.follows_step {e : Event ι} (hs : Sound cfg s) (hc : AtRaft (Cluster.AtDelivery Q) s e)
    (he : System.step cfg s e = some t) : Follows s t := by
  obtain ⟨a, ha⟩ := hs.serving
  refine ⟨fun i => ?_, (step_change he).trace⟩
  rcases step_raft hc he with heq | ⟨e', -, hs'⟩
  · rw [heq]
  · exact (Cluster.step_change_free hs').service.boot_le ha.applier i

lemma Sound.follows (hs : Sound cfg s) (h : Run (System.step cfg) (AtRaft (Cluster.AtDelivery Q)) s t) :
    Follows s t :=
  Run.relation (I := Sound cfg) Follows.refl Follows.trans (fun _ _ _ hi _ he => hi.step he)
    (fun _ _ _ hi hc he => hi.follows_step hc he) h hs

/-- A read that is answered after `u`, by a process that had applied in `u` all that was applied in `s₀`. -/
lemma read_since {s₀ u : System ι} (hu : Sound (kv loads M address) u) {h : ℕ} {i : ι} {boot : ℕ}
    {key : String} {linearizable : Bool} (hrec : .received h i boot (.get key linearizable) ∈ u.history)
    (hle : boot ≤ (u.raft.nodes i).boot) (hall : ∀ j b, s₀.applied j b <+: u.applied i (u.raft.nodes i).boot)
    (hrun : Run (step (kv loads M address)) (AtRaft (Cluster.AtDelivery Q)) u s)
    {value : Option Bytes × ℕ × Bool} (hread : .replied h (.read value) ∈ s.history) :
    .replied h (.read value) ∈ u.history ∨ ∃ es, ReadSince loads M s₀ s i boot key value es := by
  induction hrun with
  | refl => exact .inl hread
  | @tail v w hrun he ih =>
    obtain ⟨e, -, hstep⟩ := he
    have hc := step_change hstep
    rcases step_read hstep hread with hold | ⟨hd, key', lin, hlive, -, hreq, hval⟩
    · rcases ih hold with hold | ⟨es, hes⟩
      · exact .inl hold
      · exact .inr ⟨es, hes.mono hc⟩
    · have hv := hu.run hrun
      obtain ⟨hh, hboot⟩ := live_eq hlive
      have hknown := hv.accounts.known h hd hh
      rw [hreq] at hknown
      obtain ⟨rfl, rfl, hsame⟩ := hv.accounts.unique h _ _ _ _ _ _ ((run_history hrun).subset hrec) hknown
      cases hsame
      -- the process that answers is the one that ran in `u`
      obtain ⟨hboots, htrace⟩ := hu.follows hrun
      have hrunning : (u.raft.nodes hd.node).boot = hd.boot :=
        le_antisymm (hboot ▸ hboots hd.node) hle
      refine .inr ⟨v.applied hd.node hd.boot, applied_mono hc.trace _ _, ?_, fun j b => ?_⟩
      · rw [hval, hv.sm hd.node, hboot]
      · exact (hrunning ▸ hall j b).trans (applied_mono htrace _ _)

/-- A default read that is answered by a leader of the highest term, once it has caught up, reads a state
that has executed, in log order, every write acknowledged before the read arrived, apart from those that
were answered as stale. -/
theorem default_read (loads : Bytes → Except String CasSpec) (M : ℕ) (address : ι → String)
    (s₀ u s : System ι)
    (h₀ : Reachable (kv loads M address) (Cluster.AtDelivery Cluster.Timely) s₀) (i : ι) (key : String)
    (hu : Run (System.step (kv loads M address)) (AtRaft (Cluster.AtDelivery Cluster.Timely))
      (s₀.receive i (.get key false)) u) (hnew : u.raft.Newest i) (hup : u.raft.CaughtUp i)
    (hrun : Run (System.step (kv loads M address)) (AtRaft (Cluster.AtDelivery Cluster.Timely)) u s)
    (value : Option Bytes × ℕ × Bool) (hbefore : .replied s₀.nextHandler (.read value) ∉ u.history)
    (hread : .replied s₀.nextHandler (.read value) ∈ s.history) :
    ∃ es, ReadSince loads M s₀ s i (s₀.raft.nodes i).boot key value es ∧
      es <+: (s.raft.nodes i).log ∧
      ∀ h j b req r, .received h j b req ∈ s₀.history → .replied h (.written r) ∈ s₀.history →
        Reflects loads M s₀ es h req r := by
  have hsound := sound h₀
  have hreceived := hsound.step (e := .receive i (.get key false)) rfl
  have huntil : Reachable (kv loads M address) (Cluster.AtDelivery Cluster.Timely) u :=
    (Run.tail (e := Event.receive i (.get key false)) h₀ trivial rfl).trans hu
  obtain ⟨hboots, htrace⟩ := hreceived.follows hu
  -- all that was applied when the read arrived
  obtain ⟨a, ha, hann⟩ := Cluster.announced (run_raft huntil)
  have hall : ∀ j b, s₀.applied j b <+: u.applied i (u.raft.nodes i).boot := fun j b =>
    (applied_mono htrace j b).trans (hann.newest ha hnew hup j b)
  have hself : .received s₀.nextHandler i (s₀.raft.nodes i).boot (.get key false) ∈ u.history := by
    exact (run_history hu).subset (List.mem_append_right _ (List.mem_singleton.mpr rfl))
  rcases read_since (hreceived.run hu) hself (hboots i) hall hrun hread with hold | ⟨es, hes⟩
  · exact (hbefore hold).elim
  · obtain ⟨b, hb⟩ := Cluster.safe (run_raft (huntil.trans hrun))
    refine ⟨es, hes, hes.isPrefix.trans (hb.serving.tracks.committed (hb.applied i _).1).1, ?_⟩
    intro h j b req r hr hw
    exact (answered h₀ h r hw).reflects hsound.accounts hes.since hr

section Serving

variable {n : ℕ} (cfg : Config (Fin n) KVStateMachine Result)
  (C : Cluster (Fin n) KVStateMachine Result → Raft.Event (Fin n) → Prop)

/-- A default read of "k" at node `i` that arrives in `s₀`, finds node `i` the leader of the highest term
in `u`, and is answered with `value` after that. -/
structure Serves (i : Fin n) (value : Option Bytes × ℕ × Bool) (s₀ u s : System (Fin n)) : Prop where
  reachable : Reachable cfg C s₀
  upTo : Run (step cfg) (AtRaft C) (s₀.receive i (.get "k" false)) u
  newest : u.raft.Newest i
  before : .replied s₀.nextHandler (.read value) ∉ u.history
  answers : Run (step cfg) (AtRaft C) u s
  replied : .replied s₀.nextHandler (.read value) ∈ s.history

lemma Serves.run {i : Fin n} {value : Option Bytes × ℕ × Bool} {s₀ u s : System (Fin n)}
    (h : Serves cfg C i value s₀ u s) : Run (step cfg) (AtRaft C) (init cfg) s :=
  ((Run.tail (e := Event.receive i (.get "k" false)) h.reachable trivial rfl).trans h.upTo).trans h.answers

/-- The events before the read, the checks of the handler and its look at the machine, executed. -/
lemma serves_of_execute [∀ s e, Decidable (C s e)] (events : List (Event (Fin n))) (i : Fin n) (k : ℕ)
    (value : Option Bytes × ℕ × Bool) (history : List (Exchange (Fin n))) (p : System (Fin n) → Prop)
    [DecidablePred p]
    (h : (execute (guarded (step cfg) (AtRaft C)) (init cfg) events).any (fun s₀ =>
      s₀.nextHandler = k ∧ s₀.history = history ∧
        (execute (guarded (step cfg) (AtRaft C)) (s₀.receive i (.get "k" false))
          [.proceed k, .proceed k]).any (fun u =>
            u.raft.Newest i ∧ p u ∧ .replied k (.read value) ∉ u.history ∧
            (execute (guarded (step cfg) (AtRaft C)) u [.proceed k]).any (fun s =>
              s.history = history ++ [.received k i (s₀.raft.nodes i).boot (.get "k" false),
                .replied k (.read value)]) = true) = true) = true) :
    ∃ s₀ u s, Serves cfg C i value s₀ u s ∧ p u ∧ s₀.nextHandler = k ∧ s₀.history = history ∧
      s.history = history ++ [.received k i (s₀.raft.nodes i).boot (.get "k" false),
        .replied k (.read value)] := by
  obtain ⟨s₀, hs₀, hk, hh, hu⟩ := Run.exists_of_execute _ _ _ _ h
  obtain ⟨u, hu, hnew, hp, hbefore, hs⟩ := Run.exists_of_execute _ _ _ _ hu
  obtain ⟨s, hs, hread⟩ := Run.exists_of_execute _ _ _ _ hs
  refine ⟨s₀, u, s, ⟨hs₀.of_guarded, hu.of_guarded, hnew, hk ▸ hbefore, hs.of_guarded, ?_⟩, hp, hk, hh,
    hread⟩
  rw [hread, hk]
  simp

end Serving

/-- Node 0 has led term 1, and node 1 has taken two puts from it. Node 2 leads term 2 and overwrites them,
and node 0 leads term 3. -/
def overwritten : List (Event (Fin 5)) :=
  (Cluster.campaign 0 1 0 [1, 2]).map .raft ++ [.receive 0 (.put "a" [1] "d" 1)] ++ submits 0 ++
    [.receive 0 (.put "a" [1] "d" 2)] ++ submits 1 ++
    List.map .raft ([.sendAppendEntries 0 1, .deliver 4] ++ Cluster.campaign 2 2 6 [3, 4] ++
      [.sendAppendEntries 2 0, .deliver 10, .sendAppendEntries 2 1, .deliver 12] ++
      Cluster.campaign 0 3 14 [1, 2])

/-- The reply of term 1 makes node 0 count node 1 for its third entry. It answers the put, and node 2 leads
term 4 without it. -/
def miscounted : List (Event (Fin 5)) :=
  [.receive 0 (.put "k" [2] "c" 1)] ++ submits 2 ++
    List.map .raft [.deliver 5, .sendAppendEntries 0 3, .deliver 18, .deliver 19, .sendAppendEntries 0 3,
      .deliver 20, .deliver 21, .applierTakes 0] ++
    applies 0 ++ applies 0 ++ applies 0 ++ [.returns 2] ++
    List.map .raft (Cluster.campaign 2 4 22 [1, 4] ++ [.sendAppendEntries 2 1, .deliver 26, .deliver 27,
      .sendAppendEntries 2 4, .deliver 28, .deliver 29, .sendAppendEntries 2 4, .deliver 30, .deliver 31,
      .applierTakes 2]) ++
    applies 2 ++ applies 2

/-- A leader of the highest term answers a default read as if an acknowledged put had not been: it has the
entry and has not applied it; it was elected without the entry, which a reply to a request of an earlier
term made its predecessor commit; the put was late, and no process has applied it. -/
theorem default_read_misses_put :
    (∃ s₀ u s : System (Fin 3), Serves three (Cluster.AtDelivery Cluster.Timely) 1 (none, 0, false) s₀ u s ∧
      ¬ u.raft.CaughtUp 1 ∧ s₀.history = [.received 0 0 0 (.put "k" [2] "c" 2), .appended 0 secondEntry,
        .replied 0 (.written secondReply)]) ∧
    (∃ s₀ u s : System (Fin 5), Serves (kv noCas 10 fun _ => "") (fun _ _ => True) 2 (none, 0, false) s₀ u s ∧
      u.raft.CaughtUp 2 ∧ .received 2 0 0 (.put "k" [2] "c" 1) ∈ s₀.history ∧
      .replied 2 (.written secondReply) ∈ s₀.history ∧
      ∀ h j b key c n, .received h j b (.delete key c n) ∉ s₀.history) ∧
    ∃ s₀ u s : System (Fin 3), Serves three (Cluster.AtDelivery Cluster.Timely) 0 (some [2], 1, true) s₀ u s ∧
      u.raft.CaughtUp 0 ∧ .received 1 0 0 (.put "k" [1] "c" 1) ∈ s₀.history ∧
      (∃ reply : Reply (Fin 3), .replied 1 reply ∈ s₀.history ∧ reply.put = some ⟨true, 0, none⟩) ∧
      ∀ j boot e, e ∈ s.applied j boot → ¬ (e.clientId = "c" ∧ e.seqNum = 1) := by
  refine ⟨?_, ?_, ?_⟩
  · obtain ⟨s₀, u, s, hserves, hlag, -, hh, -⟩ := serves_of_execute three
      (Cluster.AtDelivery Cluster.Timely) (secondFirst ++ (Cluster.campaign 1 2 4 [2]).map .raft) 1 1
      (none, 0, false)
      [.received 0 0 0 (.put "k" [2] "c" 2), .appended 0 secondEntry, .replied 0 (.written secondReply)]
      (fun u => ¬ u.raft.CaughtUp 1) (by decide +kernel)
    exact ⟨s₀, u, s, hserves, hlag, hh⟩
  · obtain ⟨s₀, u, s, hserves, hup, -, hh, -⟩ := serves_of_execute (kv noCas 10 fun _ => "")
      (fun _ _ => True) (overwritten ++ miscounted) 2 3 (none, 0, false)
      [.received 0 0 0 (.put "a" [1] "d" 1), .appended 0 ⟨1, 2, .put, "a", [1], "d", 1⟩,
        .received 1 0 0 (.put "a" [1] "d" 2), .appended 1 ⟨1, 3, .put, "a", [1], "d", 2⟩,
        .received 2 0 0 (.put "k" [2] "c" 1), .appended 2 ⟨3, 3, .put, "k", [2], "c", 1⟩,
        .replied 2 (.written secondReply)]
      (fun u => u.raft.CaughtUp 2) (by decide +kernel)
    exact ⟨s₀, u, s, hserves, hup, by simp [hh], by simp [hh], fun h j b key c n => by simp [hh]⟩
  · obtain ⟨s₀, u, s, hserves, hup, -, hh, ht⟩ := serves_of_execute three
      (Cluster.AtDelivery Cluster.Timely) lateFirst 0 2 (some [2], 1, true)
      [.received 0 0 0 (.put "k" [2] "c" 2), .appended 0 secondEntry, .replied 0 (.written secondReply),
        .received 1 0 0 (.put "k" [1] "c" 1), .replied 1 (.written staleResult)]
      (fun u => u.raft.CaughtUp 0) (by decide +kernel)
    refine ⟨s₀, u, s, hserves, hup, by simp [hh], ⟨.written staleResult, by simp [hh], rfl⟩, ?_⟩
    rintro j boot e he ⟨hc, hq⟩
    obtain ⟨k, i, b, req, happ, -⟩ := (sound hserves.run).appender he (by rw [hc, hq]; decide)
    rw [ht] at happ
    simp only [List.cons_append, List.nil_append, List.mem_cons, Exchange.appended.injEq, reduceCtorEq,
      List.not_mem_nil, or_false, false_or] at happ
    obtain ⟨-, rfl⟩ := happ
    cases hq

theorem default_read_second_first : ∃ (s₀ s : System (Fin 3)) (es : List Entry),
    ReadSince noCas 10 s₀ s 0 (s₀.raft.nodes 0).boot "k" (some [2], 1, true) es ∧
    Reflects noCas 10 s₀ es 0 (.put "k" [2] "c" 2) secondReply := by
  obtain ⟨s₀, u, s, hserves, hup, -, hh, -⟩ := serves_of_execute three
    (Cluster.AtDelivery Cluster.Timely) secondFirst 0 1 (some [2], 1, true)
    [.received 0 0 0 (.put "k" [2] "c" 2), .appended 0 secondEntry, .replied 0 (.written secondReply)]
    (fun u => u.raft.CaughtUp 0) (by decide +kernel)
  obtain ⟨es, hes, -, hall⟩ := default_read noCas 10 (fun _ => "") s₀ u s hserves.reachable 0 "k"
    hserves.upTo hserves.newest hup hserves.answers (some [2], 1, true) hserves.before hserves.replied
  exact ⟨s₀, s, es, hes, hall 0 0 0 _ _ (by simp [hh]) (by simp [hh])⟩

end System

end DistributedStorage.Kv
