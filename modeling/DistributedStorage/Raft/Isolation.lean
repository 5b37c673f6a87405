import DistributedStorage.Raft.Bookkeeping
import DistributedStorage.Raft.NewestLeader
import DistributedStorage.Raft.Provenance

/-! A node that is cut off: whatever it appends while it is, it keeps to itself, and commits none of it. -/

set_option linter.unusedSectionVars false

namespace DistributedStorage.Raft

open Library.LeaderLogs Library.Runs

variable {ι σ ρ : Type} [DecidableEq ι] [Fintype ι]

namespace Cluster

variable {cfg : Config ι σ ρ} {P : Message ι → Prop} {s t u : Cluster ι σ ρ} {a b : State ι Entry} {i : ι}

/-- The leader of its term has had the entry in its log. -/
def Known (a : State ι Entry) (e : Entry) : Prop :=
  (a.leaderLog e.term)[e.index - 1]? = some e

lemma Rooted.known {l : List Entry} (h : Rooted Entry.term a l) (hal : Aligned l) {e : Entry} (he : e ∈ l) :
    Known a e := by
  obtain ⟨p, hp⟩ := List.mem_iff_getElem?.mp he
  have hidx : e.index - 1 = p := by rw [hal p e hp, Nat.add_sub_cancel]
  rw [Known, hidx]
  refine getElem?_of_isPrefix (h p e hp) ?_
  rw [List.getElem?_take_of_lt (Nat.lt_succ_self p), hp]

lemma Tracks.known_log (h : Tracks s a) {j : ι} {e : Entry} (he : e ∈ (s.nodes j).log) : Known a e :=
  Rooted.known (h.rooted j) (h.aligned j) he

lemma Tracks.known_sent (h : Tracks s a) {dst : ι} {boot : ℕ} {args : AppendEntriesArgs ι} {e : Entry}
    (hm : .appendEntries dst boot args ∈ s.sent) (he : e ∈ args.entries) : Known a e := by
  obtain ⟨view, hview, -, hentries, -⟩ := h.refines.messages _ hm
  rw [hentries] at he
  exact Rooted.known (h.inv.rooted_leader args.term) (h.refines.aligned args.term)
    (hview.subset (List.mem_of_mem_drop he))

/-- The node has appended the entry as the leader of its term. -/
structure Adds (s t : Cluster ι σ ρ) (i : ι) (e : Entry) : Prop where
  leader : (t.nodes i).state = .leader
  log : (t.nodes i).log = (s.nodes i).log ++ [e]
  term : e.term = (t.nodes i).currentTerm

/-- An entry that is appended was nowhere before. -/
lemma Adds.fresh {e : Entry} (h : Adds s t i e) (ha : Tracks s a) (hb : Tracks t b)
    (hc : Change cfg P s t) : ¬ Known a e := by
  intro hk
  have hlead := (hb.refines.leader i h.leader).1
  have hidx : e.index = (s.nodes i).log.length + 1 := by
    apply hb.aligned i
    rw [h.log, List.getElem?_concat_length]
  rw [Known, hidx, Nat.add_sub_cancel, h.term] at hk
  have hlt := (List.getElem?_eq_some_iff.mp hk).1
  have hel : s.Elected (t.nodes i).currentTerm := by
    rw [← ha.refines.elected]
    intro hnil
    rw [hnil] at hlt
    exact Nat.not_lt_zero _ hlt
  obtain ⟨hold, hterm⟩ := hc.led ha.election h.leader hel
  rw [hterm, (ha.refines.leader i hold).1] at hlt
  exact Nat.lt_irrefl _ hlt

/-- Where the entries of a log come from. -/
inductive Source (s t : Cluster ι σ ρ) (i : ι) (e : Entry) : Prop
  | held : e ∈ (s.nodes i).log → Source s t i e
  | heard (boot : ℕ) (args : AppendEntriesArgs ι) : .appendEntries i boot args ∈ s.sent → e ∈ args.entries →
      Source s t i e
  | added : Adds s t i e → Source s t i e

lemma electionEnds_adds {n m : Node ι σ ρ} {term : ℕ} (h : n.electionEnds term = some (m, true)) :
    ∃ e, m.state = .leader ∧ m.log = n.log ++ [e] ∧ e.term = m.currentTerm := by
  obtain ⟨el, -, -, -, -, rfl⟩ := electionEnds_won h
  exact ⟨_, rfl, rfl, rfl⟩

lemma appendEntry_adds {n m : Node ι σ ρ} {cmd : Command} {w : ℕ} (h : n.appendEntry cfg cmd = .ok (m, w)) :
    ∃ e, m.state = .leader ∧ m.log = n.log ++ [e] ∧ e.term = m.currentTerm := by
  simp only [Node.appendEntry] at h
  split_ifs at h with hl
  cases h
  exact ⟨_, not_not.mp hl, rfl, rfl⟩

lemma Adds.of_update {n : Node ι σ ρ} (hn : t.nodes = Function.update s.nodes i n)
    (h : ∃ e, n.state = .leader ∧ n.log = (s.nodes i).log ++ [e] ∧ e.term = n.currentTerm) :
    ∃ e, Adds s t i e := by
  obtain ⟨e, hl, hlog, hterm⟩ := h
  have hself : t.nodes i = n := by rw [hn, Function.update_self]
  exact ⟨e, by rw [hself, hl], by rw [hself, hlog], by rw [hself, hterm]⟩

lemma Source.of_adds {e : Entry} (h : ∃ x, Adds s t i x) (he : e ∈ (t.nodes i).log) : Source s t i e := by
  obtain ⟨x, hx⟩ := h
  rw [hx.log] at he
  rcases List.mem_append.mp he with he | he
  · exact .held he
  · exact .added (List.mem_singleton.mp he ▸ hx)

lemma StepAt.source {ev : Event ι} {j : ι} {n : Node ι σ ρ} (h : StepAt cfg s ev j n) (hs : ElectionInv s)
    (hn : t.nodes = Function.update s.nodes j n) {e : Entry} (he : e ∈ (t.nodes j).log) : Source s t j e := by
  have hself : t.nodes j = n := by rw [hn, Function.update_self]
  have hkept (hlog : n.log = (s.nodes j).log) : Source s t j e := .held (by rwa [hself, hlog] at he)
  cases h with
  | quiet _ _ _ hcore => exact hkept hcore.log
  | startElection _ _ hst =>
    rcases startElection_cases hst with ⟨-, hset⟩ | ⟨-, -, hlog, -⟩
    · exact hkept hset.log
    · exact hkept hlog
  | loses _ term _ hend => exact hkept (electionEnds_lost_settles hend).log
  | wins _ term _ hend => exact .of_adds (Adds.of_update hn (electionEnds_adds hend)) he
  | requestVote k _ boot args hm => exact hkept (handleRequestVote_settles args).log
  | requestVoteReply k src boot args reply _ hm hr => exact hkept (handleRequestVoteReply_settles hr).log
  | appendEntries k _ boot args hm =>
    have happ := handleAppendEntries_appended (s.nodes j) args
    generalize (s.nodes j).handleAppendEntries args = out at happ hself hkept
    obtain ⟨n, reply⟩ := out
    cases happ with
    | stale r _ _ => exact hkept rfl
    | rejected n r _ _ hlog _ _ => exact hkept hlog
    | stored n r _ _ _ hlog _ _ =>
      rw [hself, hlog] at he
      rcases mem_insertEntries he with he | he
      · exact .held he
      · exact .heard boot args (List.mem_of_getElem? hm) he
  | appendEntriesReply k src boot args reply hm =>
    exact hkept (handleAppendEntriesReply_settles src args reply).log
  | voteCrash k _ boot args hm =>
    exact hkept ((stepDownForVote_settles _).restart cfg
      (Node.stepDownForVote_durable (hs.durable j) args.term)).log
  | appendCrash k _ boot args hm hle =>
    exact hkept ((stepDownForAppend_settles hle).restart cfg
      (Node.stepDownForAppend_durable (hs.durable j) args.term)).log
  | appendEntry _ cmd _ w happ => exact .of_adds (Adds.of_update hn (appendEntry_adds happ)) he
  | crash => exact hkept ((Settles.refl _).restart cfg (hs.durable j)).log

lemma step_source {ev : Event ι} (h : step cfg s ev = some t) (hs : ElectionInv s) (j : ι) {e : Entry}
    (he : e ∈ (t.nodes j).log) : Source s t j e := by
  obtain ⟨k, n, hat, hn⟩ := step_at h
  by_cases hjk : j = k
  · subst hjk
    exact hat.source hs hn he
  · rw [hn, Function.update_of_ne hjk] at he
    exact .held he

/-- What a step leaves of a node that is cut off before and after it. -/
structure Apart (s t : Cluster ι σ ρ) (i : ι) : Prop where
  boot : (t.nodes i).boot = (s.nodes i).boot
  log : (t.nodes i).log = (s.nodes i).log ∨ ∃ e, Adds s t i e
  commit : (t.nodes i).commitIndex = (s.nodes i).commitIndex ∨
    ((t.nodes i).state = .leader ∧ 0 < (t.nodes i).commitIndex ∧ (t.nodes i).Committable (t.nodes i).commitIndex)

lemma Apart.of_eq (h : t.nodes i = s.nodes i) : Apart s t i :=
  ⟨by rw [h], .inl (by rw [h]), .inl (by rw [h])⟩

lemma Apart.of_fields {n : Node ι σ ρ} (hself : t.nodes i = n) (hboot : n.boot = (s.nodes i).boot)
    (hlog : n.log = (s.nodes i).log) (hcommit : n.commitIndex = (s.nodes i).commitIndex) : Apart s t i :=
  ⟨by rw [hself, hboot], .inl (by rw [hself, hlog]), .inl (by rw [hself, hcommit])⟩

lemma restart_isolated (n : Node ι σ ρ) : (n.restart cfg).isolated = false := rfl

lemma StepAt.apart {ev : Event ι} {n : Node ι σ ρ} (h : StepAt cfg s ev i n) (hstep : step cfg s ev = some t)
    (hn : t.nodes = Function.update s.nodes i n) (hi : (s.nodes i).isolated = true)
    (hi' : (t.nodes i).isolated = true) : Apart s t i := by
  have hself : t.nodes i = n := by rw [hn, Function.update_self]
  rw [hself] at hi'
  cases h with
  | quiet _ _ _ hcore => exact .of_fields hself hcore.boot hcore.log hcore.commitIndex
  | startElection _ _ hst =>
    simp only [Node.startElection] at hst
    split_ifs at hst <;> cases hst <;> exact .of_fields hself rfl rfl rfl
  | loses _ term _ hend =>
    obtain ⟨el, -, rfl | rfl⟩ := electionEnds_lost hend
    · exact .of_fields hself rfl rfl rfl
    · exact .of_fields hself rfl rfl rfl
  | wins _ term _ hend =>
    obtain ⟨e, he⟩ := Adds.of_update hn (electionEnds_adds hend)
    obtain ⟨el, -, -, -, -, rfl⟩ := electionEnds_won hend
    exact ⟨by rw [hself]; rfl, .inr ⟨e, he⟩, .inl (by rw [hself]; rfl)⟩
  | requestVote k _ boot args hm =>
    -- a node that is cut off answers no request
    simp only [step, hm, Option.bind_some, deliver, hi, if_true] at hstep
    cases hstep
  | requestVoteReply k src boot args reply _ hm hr =>
    simp only [Node.handleRequestVoteReply] at hr
    split at hr
    · cases hr
    · split_ifs at hr <;> cases hr <;> exact .of_fields hself rfl rfl rfl
  | appendEntries k _ boot args hm =>
    simp only [step, hm, Option.bind_some, deliver, hi, if_true] at hstep
    cases hstep
  | appendEntriesReply k src boot args reply hm =>
    refine ⟨?_, .inl ?_, ?_⟩
    · rw [hself]
      rcases handleAppendEntriesReply_cases (n := s.nodes args.leaderId) src args reply with
        ⟨-, he⟩ | ⟨_, _, _, he⟩
      · rw [he]
        rfl
      · rw [he]
    · rw [hself, (handleAppendEntriesReply_settles src args reply).log]
    · rw [hself]
      exact handleAppendEntriesReply_commit src args reply
  | voteCrash k _ boot args hm =>
    rw [restart_isolated] at hi'
    cases hi'
  | appendCrash k _ boot args hm hle =>
    rw [restart_isolated] at hi'
    cases hi'
  | appendEntry _ cmd _ w happ =>
    obtain ⟨e, he⟩ := Adds.of_update hn (appendEntry_adds happ)
    simp only [Node.appendEntry] at happ
    split_ifs at happ
    cases happ
    exact ⟨by rw [hself]; rfl, .inr ⟨e, he⟩, .inl (by rw [hself]; rfl)⟩
  | crash =>
    rw [restart_isolated] at hi'
    cases hi'

lemma step_apart {ev : Event ι} (h : step cfg s ev = some t) (hi : (s.nodes i).isolated = true)
    (hi' : (t.nodes i).isolated = true) : Apart s t i := by
  obtain ⟨k, n, hat, hn⟩ := step_at h
  by_cases hik : i = k
  · subst hik
    exact hat.apart h hn hi hi'
  · exact .of_eq (by rw [hn, Function.update_of_ne hik])

/-- Only node `i` has the entry. -/
structure KeptBy (i : ι) (e : Entry) (s : Cluster ι σ ρ) : Prop where
  logs : ∀ j ≠ i, e ∉ (s.nodes j).log
  sent : ∀ dst boot args, .appendEntries dst boot args ∈ s.sent → e ∉ args.entries

lemma KeptBy.of_fresh {e : Entry} (h : ¬ Known a e) (ha : Tracks s a) (i : ι) : KeptBy i e s :=
  ⟨fun _ _ he => h (ha.known_log he), fun _ _ _ hm he => h (ha.known_sent hm he)⟩

/-- A new request for replication is signed by a node that is not cut off. -/
lemma Change.signed (hc : Change cfg P s t) (hs : ElectionInv s) {dst : ι} {boot : ℕ} {args : AppendEntriesArgs ι}
    (hm : .appendEntries dst boot args ∈ t.sent) (hnew : .appendEntries dst boot args ∉ s.sent) :
    (s.nodes args.leaderId).isolated = false ∧ args.entries ⊆ (s.nodes args.leaderId).log := by
  rcases hc.sent hm with hold | horigin
  · exact (hnew hold).elim
  · cases horigin with
    | appendEntries k peer args ha =>
      obtain ⟨-, -, -, hid, hentries, -⟩ := appendEntriesArgs_eq ha
      rw [hid, hs.nodeId k, hentries]
      simp only [Node.appendEntriesArgs] at ha
      split_ifs at ha with hg
      · exact ⟨by simpa using (not_or.mp (not_or.mp hg).2).1, List.drop_subset _ _⟩
      · exact ⟨by simpa using (not_or.mp (not_or.mp hg).2).1, List.drop_subset _ _⟩

/-- One node appends at a time. -/
lemma Adds.only {ev : Event ι} {e f : Entry} {j : ι} (h : Adds s t i e) (h' : Adds s t j f)
    (hstep : step cfg s ev = some t) : j = i := by
  obtain ⟨k, n, -, hn⟩ := step_at hstep
  have hmoves {m : ι} {x : Entry} (hm : Adds s t m x) : m = k := by
    by_contra hmk
    have hlog := hm.log
    rw [hn, Function.update_of_ne hmk] at hlog
    exact List.cons_ne_nil x [] (List.self_eq_append_right.mp hlog)
  rw [hmoves h', hmoves h]

/-- What only a node that is cut off has does not leave it. -/
lemma KeptBy.step {ev : Event ι} {e : Entry} (h : KeptBy i e s) (he : step cfg s ev = some t)
    (hi : (s.nodes i).isolated = true) (hs : ElectionInv s) (hadds : ∀ j ≠ i, ¬ Adds s t j e) : KeptBy i e t := by
  refine ⟨fun j hj hej => ?_, fun dst boot args hm hea => ?_⟩
  · cases step_source he hs j hej with
    | held hold => exact h.logs j hj hold
    | heard boot args hm hea => exact h.sent j boot args hm hea
    | added hadd => exact hadds j hj hadd
  · by_cases hnew : .appendEntries dst boot args ∈ s.sent
    · exact h.sent dst boot args hnew hea
    · obtain ⟨hfree, hsub⟩ := (step_change_free he).signed hs hm hnew
      refine h.logs args.leaderId ?_ (hsub hea)
      intro heq
      rw [heq, hi] at hfree
      cases hfree

/-- What a node that has been cut off since `s` is like. -/
structure CutOff (s t : Cluster ι σ ρ) (i : ι) : Prop where
  boot : (t.nodes i).boot = (s.nodes i).boot
  log : (s.nodes i).log <+: (t.nodes i).log
  trace : s.trace <+: t.trace
  sent : ∀ dst boot args, .appendEntries dst boot args ∈ t.sent → args.leaderId = i →
    .appendEntries dst boot args ∈ s.sent
  led : (t.nodes i).state = .leader → s.Elected (t.nodes i).currentTerm →
    (s.nodes i).state = .leader ∧ (t.nodes i).currentTerm = (s.nodes i).currentTerm
  matched : (t.nodes i).state = .leader → ∀ j ≠ i, (t.nodes i).matchIndex j ≤ (s.nodes i).log.length
  commit : (t.nodes i).commitIndex ≤ (s.nodes i).log.length
  lastApplied : (t.nodes i).lastApplied ≤ (s.nodes i).log.length
  past : ∀ boot ≠ (s.nodes i).boot, records t.trace i boot = records s.trace i boot
  own : ∀ k e, (s.nodes i).log.length ≤ k → (t.nodes i).log[k]? = some e → KeptBy i e t

lemma Safe.commit_le (h : Safe cfg s a) (i : ι) : (s.nodes i).commitIndex ≤ (s.nodes i).log.length := by
  obtain ⟨p, hp, hlog, -⟩ := h.committed i
  rw [← hp]
  exact hlog.length_le

lemma Safe.cutOff (h : Safe cfg s a) (i : ι) : CutOff s s i where
  boot := rfl
  log := List.prefix_rfl
  trace := List.prefix_rfl
  sent _ _ _ hm _ := hm
  led hl _ := ⟨hl, rfl⟩
  matched hl j _ := by
    have hlead := (h.serving.tracks.refines.leader i hl).1
    exact (h.commits.matched i hl j).trans (hlead ▸ h.serving.tracks.inv.acked_le _ _)
  commit := h.commit_le i
  lastApplied := by
    obtain ⟨p, hp, hlen, -⟩ := h.prefixes.current i
    rw [← hlen]
    exact (h.serving.tracks.committed hp).1.length_le
  past _ _ := rfl
  own k e hk he := (hk.not_gt (List.getElem?_eq_some_iff.mp he).1).elim

/-- A commit needs a peer. -/
lemma matched_of_committable {n : Node ι σ ρ} {k : ℕ} (h : n.Committable k) (hcard : 1 < Fintype.card ι) (i : ι) :
    ∃ j ≠ i, k ≤ n.matchIndex j := by
  have hcount : 1 < (Finset.univ.filter fun j => k ≤ n.matchIndex j).card := by
    have hmaj : n.majority ≤ _ := h.1
    rw [majority_eq] at hmaj
    have htwo : 1 ≤ Fintype.card ι / 2 := by omega
    exact lt_of_lt_of_le (by omega) hmaj
  obtain ⟨j, hj, hne⟩ := Finset.exists_mem_ne hcount i
  exact ⟨j, hne, (Finset.mem_filter.mp hj).2⟩

namespace CutOff

variable {ev : Event ι} (h : CutOff s t i) (ht : Safe cfg t b) (hstep : step cfg t ev = some u)

include h ht hstep

lemma step_applier (hi : (t.nodes i).isolated = true) (hi' : (u.nodes i).isolated = true) :
    (u.nodes i).lastApplied ≤ (s.nodes i).log.length ∧
      ∀ boot ≠ (s.nodes i).boot, records u.trace i boot = records s.trace i boot := by
  have hboot := (step_apart hstep hi hi').boot
  obtain ⟨k, hk⟩ := (step_change_free hstep).service.applier ht.serving.applier.boots
  by_cases hik : i = k
  · subst hik
    refine ⟨?_, fun boot hne => ?_⟩
    · have hmoves := hk.moves
      generalize records u.trace i (u.nodes i).boot = recs at hmoves
      cases hmoves with
      | same hsame =>
        rw [hsame.lastApplied]
        exact h.lastApplied
      | restarts hsame =>
        rw [hsame.lastApplied]
        exact Nat.zero_le _
      | takes hn =>
        obtain ⟨-, -, heq⟩ := applierTakes_eq hn
        rw [heq]
        exact h.commit
      | applies idx e r hn =>
        rw [(applierApplies_unapplied hn).2]
        exact h.lastApplied
      | resolves hn =>
        rw [(applierResolves_unapplied hn).2]
        exact h.lastApplied
    · rw [hk.records i boot (.inr (hboot ▸ h.boot ▸ hne))]
      exact h.past boot hne
  · refine ⟨?_, fun boot hne => ?_⟩
    · rw [hk.others i hik]
      exact h.lastApplied
    · rw [hk.records i boot (.inl hik)]
      exact h.past boot hne

variable (hq : AtDelivery Timely t ev)

include hq

lemma step_sent (hi : (t.nodes i).isolated = true) (dst : ι) (boot : ℕ) (args : AppendEntriesArgs ι)
    (hm : .appendEntries dst boot args ∈ u.sent) (hid : args.leaderId = i) :
    .appendEntries dst boot args ∈ s.sent := by
  by_cases hnew : .appendEntries dst boot args ∈ t.sent
  · exact h.sent dst boot args hnew hid
  · obtain ⟨hfree, -⟩ := (step_change hstep hq).signed ht.serving.tracks.election hm hnew
    rw [hid, hi] at hfree
    cases hfree

lemma step_led (hl : (u.nodes i).state = .leader) (hel : s.Elected (u.nodes i).currentTerm) :
    (s.nodes i).state = .leader ∧ (u.nodes i).currentTerm = (s.nodes i).currentTerm := by
  obtain ⟨hold, hterm⟩ := (step_change hstep hq).led ht.serving.tracks.election hl
    (hel.mono fun o ho => h.trace.subset ho)
  rw [hterm] at hel ⊢
  exact h.led hold hel

/-- What was acknowledged to the node had left it before it was cut off. -/
lemma step_matched (hs : Safe cfg s a) (hl : (u.nodes i).state = .leader) (j : ι) (hj : j ≠ i) :
    (u.nodes i).matchIndex j ≤ (s.nodes i).log.length := by
  cases (step_change hstep hq).leading hl with
  | stays hold _ _ hmatch =>
    rw [hmatch]
    exact h.matched hold j hj
  | wins term n hn hself =>
    obtain ⟨el, -, -, -, -, rfl⟩ := electionEnds_won hn
    rw [hself]
    simp only [Node.becomeLeader, Node.persistLog]
    rw [if_neg]
    · exact Nat.zero_le _
    · intro heq
      exact hj (heq.trans (ht.serving.tracks.election.nodeId i))
  | appends cmd n w hn hself =>
    obtain ⟨hold, -⟩ := appendEntry_eq hn
    rw [hself]
    simp only [Node.appendEntry] at hn
    split_ifs at hn
    cases hn
    have hid : (t.nodes i).nodeId = i := ht.serving.tracks.election.nodeId i
    have hne : j ≠ (t.nodes i).nodeId := by rwa [hid]
    have hmatch := h.matched hold j hj
    rwa [← Function.update_of_ne hne ((t.nodes i).lastLogIndex + 1) (t.nodes i).matchIndex] at hmatch
  | replies src boot args reply hm htimely hid hboot hself =>
    rw [hself] at hl ⊢
    obtain ⟨hold, hmatch⟩ := handleAppendEntriesReply_match src args reply hl
    rcases hmatch with hmatch | ⟨hraises, hmatch⟩
    · rw [hmatch]
      exact h.matched hold j hj
    · rw [hmatch]
      by_cases hsrc : j = src
      · rw [hsrc, Function.update_self]
        subst hid
        have hterm := htimely hboot hraises
        have hsent := h.sent _ _ _ (ht.serving.tracks.refines.messages _ hm).1 rfl
        have hel := hs.serving.tracks.election.append _ _ _ hsent
        obtain ⟨hlead, hsame⟩ := h.led hold (hterm ▸ hel)
        exact hs.serving.tracks.sent_length hsent hlead (hterm.symm.trans hsame)
      · rw [Function.update_of_ne hsrc]
        exact h.matched hold j hj

lemma step_commit (hs : Safe cfg s a) (hcard : 1 < Fintype.card ι) (hi : (t.nodes i).isolated = true)
    (hi' : (u.nodes i).isolated = true) : (u.nodes i).commitIndex ≤ (s.nodes i).log.length := by
  rcases (step_apart hstep hi hi').commit with hsame | ⟨hl, -, hcom⟩
  · rw [hsame]
    exact h.commit
  · obtain ⟨j, hj, hle⟩ := matched_of_committable hcom hcard i
    exact hle.trans (h.step_matched ht hstep hq hs hl j hj)

lemma step_own {c : State ι Entry} (hu : Safe cfg u c) (hi : (t.nodes i).isolated = true)
    (hi' : (u.nodes i).isolated = true) (k : ℕ) (e : Entry)
    (hk : (s.nodes i).log.length ≤ k) (he : (u.nodes i).log[k]? = some e) : KeptBy i e u := by
  have htr := ht.serving.tracks
  have hold (he : (t.nodes i).log[k]? = some e) : KeptBy i e u :=
    (h.own k e hk he).step hstep hi htr.election fun j _ hadd =>
      hadd.fresh htr hu.serving.tracks (step_change hstep hq) (htr.known_log (List.mem_of_getElem? he))
  rcases (step_apart hstep hi hi').log with hsame | ⟨x, hx⟩
  · exact hold (hsame ▸ he)
  · rw [hx.log] at he
    rcases Nat.lt_or_ge k (t.nodes i).log.length with hlt | hge
    · rw [List.getElem?_append_left hlt] at he
      exact hold he
    · rw [List.getElem?_append_right hge] at he
      obtain rfl := List.mem_singleton.mp (List.mem_of_getElem? he)
      have hfresh := hx.fresh htr hu.serving.tracks (step_change hstep hq)
      exact (KeptBy.of_fresh hfresh htr i).step hstep hi htr.election fun j hj hadd => hj (hx.only hadd hstep)

lemma step (hs : Safe cfg s a) (hcard : 1 < Fintype.card ι) (hi : (t.nodes i).isolated = true)
    (hi' : (u.nodes i).isolated = true) : ∃ c, Grows b c ∧ Safe cfg u c ∧ CutOff s u i := by
  obtain ⟨c, hbc, hu⟩ := ht.step hq hstep
  have hapart := step_apart hstep hi hi'
  obtain ⟨hlast, hpast⟩ := h.step_applier ht hstep hi hi'
  refine ⟨c, run_grows hbc, hu, ?_⟩
  exact {
    boot := hapart.boot.trans h.boot
    log := by
      rcases hapart.log with hsame | ⟨e, hadd⟩
      · rw [hsame]
        exact h.log
      · rw [hadd.log]
        exact h.log.trans (List.prefix_append _ _)
    trace := h.trace.trans (step_change hstep hq).trace
    sent := h.step_sent ht hstep hq hi
    led := h.step_led ht hstep hq
    matched := h.step_matched ht hstep hq hs
    commit := h.step_commit ht hstep hq hs hcard hi hi'
    lastApplied := hlast
    past := hpast
    own := h.step_own ht hstep hq hu hi hi' }

end CutOff

/-- The guard of runs in which replies come in their sender's term and node `i` stays cut off. -/
def StaysIsolated (i : ι) (s : Cluster ι σ ρ) (e : Event ι) : Prop :=
  AtDelivery Timely s e ∧ (s.nodes i).isolated = true

lemma Safe.cutOff_run (hs : Safe cfg s a) (hcard : 1 < Fintype.card ι)
    (hr : Run (Cluster.step cfg) (StaysIsolated i) s t) (hi : (t.nodes i).isolated = true) :
    ∃ b, Safe cfg t b ∧ CutOff s t i := by
  induction hr with
  | refl => exact ⟨a, hs, hs.cutOff i⟩
  | tail _ he ih =>
    obtain ⟨ev, ⟨hq, hiso⟩, hstep⟩ := he
    obtain ⟨b, ht, hcut⟩ := ih hiso
    obtain ⟨c, -, hu, hcut'⟩ := hcut.step ht hstep hq hs hcard hiso hi
    exact ⟨c, hu, hcut'⟩

/-- Nothing is applied beyond the log that the node had when it was cut off. -/
lemma CutOff.applied_le (h : CutOff s t i) (hs : Safe cfg s a) (ht : Safe cfg t b) {boot : ℕ} {x : Applied ι ρ}
    (hx : x ∈ records t.trace i boot) : x.1 ≤ (s.nodes i).log.length := by
  have hbound {p : List Entry} {k : ℕ} {e : Entry} {r : Option (Except (Error ι) ρ)} {recs : List (Applied ι ρ)}
      (hp : applications recs <+: numbered p) (hr : (k, e, r) ∈ recs) : k ≤ p.length := by
    obtain ⟨hpos, he⟩ := mem_numbered (hp.subset (mem_applications hr))
    have hlt := (List.getElem?_eq_some_iff.mp he).1
    omega
  by_cases hboot : boot = (s.nodes i).boot
  · obtain ⟨p, -, hlen, hrecs⟩ := ht.prefixes.current i
    rw [h.boot, ← hboot] at hrecs
    exact (hbound (hrecs ▸ List.prefix_append _ _) hx).trans (hlen ▸ h.lastApplied)
  · rw [h.past boot hboot] at hx
    obtain ⟨p, hp, hrecs⟩ := hs.prefixes.past i boot
    exact (hbound (hrecs ▸ List.prefix_rfl) hx).trans (hs.serving.tracks.committed hp).1.length_le

instance (i : ι) (s : Cluster ι σ ρ) (e : Event ι) : Decidable (StaysIsolated i s e) :=
  inferInstanceAs (Decidable (_ ∧ _))

/-- Node 0 leads, and is cut off before the acknowledgement of its first request comes back. -/
def cutOffLeader : List (Event (Fin 3)) :=
  campaign 0 1 0 [1] ++ [.sendAppendEntries 0 1, .deliver 2, .setIsolated 0 true]

/-- It hears that its noop is on a majority, and a caller appends a command. -/
def appendsAlone : List (Event (Fin 3)) := [.appendEntry 0 someCommand, .deliver 3]

end Cluster

end DistributedStorage.Raft
