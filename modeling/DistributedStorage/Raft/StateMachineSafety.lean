import DistributedStorage.Raft.CommitSafety

/-! What is applied, node by node and process by process, is a prefix of what is committed, and no two
nodes disagree on it. -/

set_option linter.unusedSectionVars false

namespace DistributedStorage.Raft

open Library.LeaderLogs Library.Runs

variable {ι σ ρ : Type} [DecidableEq ι]

/-- Index and entry of each record. -/
def applications (recs : List (Applied ι ρ)) : List (ℕ × Entry) := recs.map fun x => (x.1, x.2.1)

lemma mem_applications {recs : List (Applied ι ρ)} {k : ℕ} {e : Entry}
    {r : Option (Except (Error ι) ρ)} (h : (k, e, r) ∈ recs) : (k, e) ∈ applications recs :=
  List.mem_map_of_mem (f := fun x : Applied ι ρ => (x.1, x.2.1)) h

lemma entries_eq (recs : List (Applied ι ρ)) : entries recs = (applications recs).map Prod.snd := by
  simp [entries, applications, Function.comp_def]

/-- The process has applied, or taken to apply, exactly the entries of `p`. -/
def Processes (n : Node ι σ ρ) (recs : List (Applied ι ρ)) (p : List Entry) : Prop :=
  p.length = n.lastApplied ∧ applications recs ++ n.unapplied = numbered p

variable {cfg : Config ι σ ρ} {n m : Node ι σ ρ} {recs recs' : List (Applied ι ρ)} {p q : List Entry}

lemma Processes.applied (h : Processes n recs p) :
    applications recs = numbered (p.take recs.length) := by
  have hlen : (applications recs).length = recs.length := by simp [applications]
  rw [← numbered_take, ← h.2, ← hlen, List.take_left]

lemma Processes.takes (h : Processes n recs p) (hidle : n.toApply = [] → n.applyResult = none)
    (hm : n.applierTakes = some m) (hp : p <+: n.log) (hq : q <+: n.log)
    (hlen : q.length = n.commitIndex) : Processes m recs q := by
  obtain ⟨hun, -, hun'⟩ := applierTakes_unapplied hidle hm
  obtain ⟨-, hlt, rfl⟩ := applierTakes_eq hm
  refine ⟨hlen, ?_⟩
  have hle := hq.length_le
  have hrecs : applications recs = numbered p := by
    rw [← h.2, hun, List.append_nil]
  have hpe : p = n.log.take n.lastApplied := by
    rw [← h.1]
    exact List.prefix_iff_eq_take.mp hp
  have hqe : q = n.log.take (n.lastApplied + (n.commitIndex - n.lastApplied)) := by
    rw [Nat.add_sub_cancel' hlt.le, ← hlen]
    exact List.prefix_iff_eq_take.mp hq
  rw [hun', hrecs, hpe, hqe]
  exact numbered_taken (by omega)

/-- The applier moves on along what the node keeps. -/
lemma Processes.moves (h : Processes n recs p) (hidle : n.toApply = [] → n.applyResult = none)
    (hm : ApplierMoves cfg n m recs recs') (hp : p <+: n.log) (hq : q <+: n.log)
    (hlen : q.length = n.commitIndex) :
    Processes m recs' p ∨ Processes m recs' q ∨ Processes m recs' [] := by
  cases hm with
  | same hs =>
    refine Or.inl ⟨h.1.trans hs.lastApplied.symm, ?_⟩
    rw [hs.unapplied]
    exact h.2
  | restarts hs =>
    refine Or.inr (Or.inr ⟨hs.lastApplied.symm, ?_⟩)
    rw [hs.applier.unapplied]
    rfl
  | takes hn => exact Or.inr (Or.inl (h.takes hidle hn hp hq hlen))
  | applies idx e r hn =>
    obtain ⟨hun, hla⟩ := applierApplies_unapplied hn
    refine Or.inl ⟨h.1.trans hla.symm, ?_⟩
    rw [← h.2, hun]
    simp [applications]
  | resolves hn =>
    obtain ⟨hun, hla⟩ := applierResolves_unapplied hn
    refine Or.inl ⟨h.1.trans hla.symm, ?_⟩
    rw [hun]
    exact h.2

variable [Fintype ι]

namespace Cluster

structure Prefixes (s : Cluster ι σ ρ) (a : State ι Entry) : Prop where
  current : ∀ i, ∃ p, Kept Entry.term a i p ∧
    Processes (s.nodes i) (records s.trace i (s.nodes i).boot) p
  past : ∀ i boot, ∃ p, Kept Entry.term a i p ∧
    applications (records s.trace i boot) = numbered p

variable {s t : Cluster ι σ ρ} {a b : State ι Entry}

lemma init_prefixes (cfg : Config ι σ ρ) : Prefixes (init cfg) (State.init ι Entry) where
  current i := ⟨[], .nil i, rfl, rfl⟩
  past i _ := ⟨[], .nil i, rfl⟩

lemma Prefixes.service (h : Prefixes s a) (hg : Grows a b) (ha : Tracks s a) (hc : Commits s a)
    {i : ι} (hidle : (s.nodes i).toApply = [] → (s.nodes i).applyResult = none)
    (hi : AppliesAt cfg s t i) : Prefixes t b := by
  obtain ⟨p, hp, hf⟩ := h.current i
  obtain ⟨q, hq, hk⟩ := hc.kept i
  have hnew : ∃ r, Kept Entry.term b i r ∧
      Processes (t.nodes i) (records t.trace i (t.nodes i).boot) r := by
    rcases hf.moves hidle hi.moves (ha.committed hp).1 (ha.committed hk).1 hq with
      hr | hr | hr
    · exact ⟨p, hp.grow hg, hr⟩
    · exact ⟨q, hk.grow hg, hr⟩
    · exact ⟨[], .nil i, hr⟩
  refine ⟨fun j => ?_, fun j boot => ?_⟩
  · by_cases hj : j = i
    · subst hj
      exact hnew
    · rw [hi.records j _ (Or.inl hj), hi.others j hj]
      obtain ⟨r, hr, hfr⟩ := h.current j
      exact ⟨r, hr.grow hg, hfr⟩
  · by_cases hj : j ≠ i ∨ boot ≠ (t.nodes i).boot
    · rw [hi.records j boot hj]
      obtain ⟨r, hr, hfr⟩ := h.past j boot
      exact ⟨r, hr.grow hg, hfr⟩
    · simp only [not_or, not_not] at hj
      obtain ⟨rfl, rfl⟩ := hj
      obtain ⟨r, hr, hfr⟩ := hnew
      exact ⟨_, hr.of_isPrefix (List.take_prefix _ _), hfr.applied⟩

/-- Everything known of a run in which replies are counted in the term of their request. -/
structure Safe (cfg : Config ι σ ρ) (s : Cluster ι σ ρ) (a : State ι Entry) : Prop where
  serving : Serving cfg s a
  commits : Commits s a
  prefixes : Prefixes s a

lemma init_safe (cfg : Config ι σ ρ) : Safe cfg (init cfg) (State.init ι Entry) where
  serving := ⟨init_tracks cfg, init_waiterInv cfg, init_applierInv cfg⟩
  commits := init_commits cfg
  prefixes := init_prefixes cfg

lemma Safe.step {e : Event ι} (h : Safe cfg s a) (hc : AtDelivery Timely s e)
    (he : Cluster.step cfg s e = some t) :
    ∃ b, Relation.ReflTransGen (Step Entry.term) a b ∧ Safe cfg t b := by
  obtain ⟨b, hab, hb⟩ := h.serving.step he
  have hg := run_grows hab
  have hap := h.serving.applier
  obtain ⟨i, hi⟩ := (step_change_free he).service.applier hap.boots
  exact ⟨b, hab, hb, h.commits.change hg h.serving.tracks hb.tracks (step_change he hc),
    h.prefixes.service hg h.serving.tracks h.commits (hap.applies i).idle hi⟩

lemma Safe.run (h : Safe cfg s a) (hr : Run (Cluster.step cfg) (AtDelivery Timely) s t) :
    ∃ b, Grows a b ∧ Safe cfg t b := by
  obtain ⟨b, hab, hb⟩ := Run.simulates (fun _ _ _ _ hsa hc he => hsa.step hc he) hr h
  exact ⟨b, run_grows hab, hb⟩

lemma safe (h : Reachable cfg (AtDelivery Timely) s) : ∃ a, Safe cfg s a :=
  let ⟨a, _, ha⟩ := (init_safe cfg).run h
  ⟨a, ha⟩

/-- Node `i` has entry `e` committed or applied at index `k`. -/
def Holds (s : Cluster ι σ ρ) (i : ι) (k : ℕ) (e : Entry) : Prop :=
  (0 < k ∧ k ≤ (s.nodes i).commitIndex ∧ (s.nodes i).log[k - 1]? = some e) ∨
    ∃ boot r, .applied i boot k e r ∈ s.trace

lemma Safe.holds (h : Safe cfg s a) {i : ι} {k : ℕ} {e : Entry} (he : Holds s i k e) :
    ∃ p, Kept Entry.term a i p ∧ 0 < k ∧ p[k - 1]? = some e := by
  rcases he with ⟨hpos, hle, he⟩ | ⟨boot, r, hm⟩
  · obtain ⟨p, hp, hk⟩ := h.commits.kept i
    refine ⟨p, hk, hpos, ?_⟩
    have hpre := List.prefix_iff_eq_take.mp (h.serving.tracks.committed hk).1
    rw [hpre, List.getElem?_take_of_lt (by omega), he]
  · obtain ⟨p, hk, hp⟩ := h.prefixes.past i boot
    have hm := mem_applications (mem_records.mpr hm)
    rw [hp] at hm
    obtain ⟨hpos, he⟩ := mem_numbered hm
    exact ⟨p, hk, hpos, he⟩

/-- What a process has applied is kept by its node, at the places of the records. -/
lemma Safe.applied (h : Safe cfg s a) (i : ι) (boot : ℕ) :
    Kept Entry.term a i (entries (records s.trace i boot)) ∧ ∀ x ∈ records s.trace i boot,
      0 < x.1 ∧ (entries (records s.trace i boot))[x.1 - 1]? = some x.2.1 := by
  obtain ⟨p, hk, hp⟩ := h.prefixes.past i boot
  have hpe : entries (records s.trace i boot) = p := by
    rw [entries_eq, hp, numbered_snd]
  refine ⟨hpe ▸ hk, fun x hx => ?_⟩
  have hm := mem_applications (k := x.1) (e := x.2.1) (r := x.2.2) hx
  rw [hp] at hm
  rw [hpe]
  exact mem_numbered hm

lemma Safe.agree (h : Safe cfg s a) {i j : ι} {p q : List Entry} {k : ℕ} {e f : Entry}
    (hp : Kept Entry.term a i p) (hq : Kept Entry.term a j q) (he : p[k]? = some e)
    (hf : q[k]? = some f) : e = f := by
  obtain ⟨_, -, -, hcp⟩ := hp
  obtain ⟨_, -, -, hcq⟩ := hq
  rcases h.serving.tracks.inv.chosen_comparable hcp hcq with hpq | hqp
  · rw [getElem?_of_isPrefix hpq he] at hf
    exact Option.some.inj hf
  · rw [getElem?_of_isPrefix hqp hf] at he
    exact (Option.some.inj he).symm

/-- In runs where each success reply that a leader counts answers a request of its present term, nodes
agree on every index committed or applied. What a node has committed it keeps, no other node ever
commits or applies another entry there, and every leader from that term on has it. -/
theorem state_machine_safety {cfg : Config ι σ ρ} {s : Cluster ι σ ρ}
    (h : Reachable cfg (AtDelivery Timely) s) :
    (∀ i, (s.nodes i).commitIndex ≤ (s.nodes i).log.length) ∧
    (∀ i j k e f, s.Holds i k e → s.Holds j k f → e = f) ∧
    ∀ t, Run (step cfg) (AtDelivery Timely) s t → ∀ i k e, s.Holds i k e →
      (t.nodes i).log[k - 1]? = some e ∧ (∀ j f, t.Holds j k f → f = e) ∧
      ∀ j, (t.nodes j).state = .leader → (s.nodes i).currentTerm ≤ (t.nodes j).currentTerm →
        (t.nodes j).log[k - 1]? = some e := by
  obtain ⟨a, ha⟩ := safe h
  refine ⟨fun i => ?_, fun i j k e f he hf => ?_, fun t hr i k e he => ?_⟩
  · obtain ⟨p, hp, hk⟩ := ha.commits.kept i
    rw [← hp]
    exact (ha.serving.tracks.committed hk).1.length_le
  · obtain ⟨p, hp, -, hpe⟩ := ha.holds he
    obtain ⟨q, hq, -, hqf⟩ := ha.holds hf
    exact ha.agree hp hq hpe hqf
  · obtain ⟨b, hg, hb⟩ := ha.run hr
    obtain ⟨p, hp, -, hpe⟩ := ha.holds he
    have hpb := hp.grow hg
    refine ⟨?_, fun j f hf => ?_, fun j hl hterm => ?_⟩
    · exact getElem?_of_isPrefix (hb.serving.tracks.committed hpb).1 hpe
    · obtain ⟨q, hq, -, hqf⟩ := hb.holds hf
      exact hb.agree hq hpb hqf hpe
    · have hcho := ((ha.serving.tracks.committed hp).2).grow hg
      have hlead := (hb.serving.tracks.refines.leader j hl).1
      have hne : b.leaderLog (t.nodes j).currentTerm ≠ [] :=
        (hb.serving.tracks.refines.elected _).mpr ⟨j, hb.serving.tracks.election.leader j hl⟩
      have hpre := hb.serving.tracks.inv.chosen_in_leader hcho hterm hne
      rw [hlead] at hpre
      exact getElem?_of_isPrefix hpre hpe

instance (s : Cluster ι σ ρ) (m : Message ι) : Decidable (Timely s m) :=
  match m with
  | .requestVote .. | .requestVoteReply .. | .appendEntries .. => inferInstanceAs (Decidable True)
  | .appendEntriesReply .. =>
    inferInstanceAs (Decidable (_ → _ ∧ _ ∧ _ ∧ _ → _))

/-- Nodes 0 and 1 commit an entry. -/
def bothCommit : List (Event (Fin 3)) :=
  campaign 0 1 0 [1] ++ [.appendEntry 0 someCommand] ++ replicate 0 1 2 ++ replicate 0 1 4

theorem state_machine_safety_both_commit :
    ∃ s, Reachable (stateless 3) (AtDelivery Timely) s ∧ s.Holds 0 2 (someCommand.entry 1 2) ∧
      ∀ f, s.Holds 1 2 f → someCommand.entry 1 2 = f := by
  obtain ⟨s, hs, hc, hl⟩ := Run.exists_of_execute (guarded (step (stateless 3)) (AtDelivery Timely))
    (init (stateless 3)) bothCommit (fun s => 2 ≤ (s.nodes 0).commitIndex ∧
      (s.nodes 0).log[1]? = some (someCommand.entry 1 2)) (by decide +kernel)
  have hreach : Reachable (stateless 3) (AtDelivery Timely) s := hs.of_guarded
  have hholds : s.Holds 0 2 (someCommand.entry 1 2) := Or.inl ⟨by decide, hc, hl⟩
  exact ⟨s, hreach, hholds, fun f hf => (state_machine_safety hreach).2.1 0 1 2 _ f hholds hf⟩

/-- Node 0 leads terms 1 and 3. A success reply of term 1 reaches it in term 3 and makes it count node 1
for an entry that the leader of term 2 has overwritten there. -/
def staleReply : List (Event (Fin 5)) :=
  campaign 0 1 0 [1, 2] ++ [.appendEntry 0 someCommand] ++ [.sendAppendEntries 0 1, .deliver 4] ++
    campaign 2 2 6 [3, 4] ++ [.sendAppendEntries 2 0, .deliver 10, .sendAppendEntries 2 1, .deliver 12] ++
    campaign 0 3 14 [1, 2] ++ [.deliver 5, .sendAppendEntries 0 3, .deliver 18, .deliver 19,
      .sendAppendEntries 0 3, .deliver 20, .deliver 21] ++
    campaign 2 4 22 [1, 4] ++ [.sendAppendEntries 2 1, .deliver 26, .deliver 27,
      .sendAppendEntries 2 4, .deliver 28, .deliver 29, .sendAppendEntries 2 4, .deliver 30, .deliver 31]

theorem state_machine_safety_stale_reply : ¬ ∀ s, Reachable (stateless 5) Free s →
    ∀ i j k e f, s.Holds i k e → s.Holds j k f → e = f := by
  intro hall
  obtain ⟨s, hs, hc₀, hc₂, ht₀, ht₂⟩ := Run.exists_of_execute (step (stateless 5))
    (init (stateless 5)) staleReply (fun s => 2 ≤ (s.nodes 0).commitIndex ∧
      2 ≤ (s.nodes 2).commitIndex ∧ (s.nodes 0).log[1]?.map Entry.term = some 3 ∧
      (s.nodes 2).log[1]?.map Entry.term = some 4) (by decide +kernel)
  obtain ⟨e, he, hte⟩ := Option.map_eq_some_iff.mp ht₀
  obtain ⟨f, hf, htf⟩ := Option.map_eq_some_iff.mp ht₂
  have hef := hall s hs 0 2 2 e f (Or.inl ⟨by decide, hc₀, he⟩) (Or.inl ⟨by decide, hc₂, hf⟩)
  rw [hef, htf] at hte
  cases hte

end Cluster

end DistributedStorage.Raft
