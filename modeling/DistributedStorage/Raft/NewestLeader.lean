import DistributedStorage.Raft.Messages
import DistributedStorage.Raft.StateMachineSafety

/-! The leader of the highest term against what was committed and applied elsewhere: entries of earlier terms
are in its log, and nobody has committed more of its own term than it has itself. -/

set_option linter.unusedSectionVars false

namespace DistributedStorage.Raft

open Library.LeaderLogs Library.Runs

variable {ι σ ρ : Type} [DecidableEq ι] [Fintype ι]

lemma Aligned.whole {d q : List Entry} {x : Entry} (h : Aligned (q ++ [x])) (hd : d <+: q ++ [x])
    (hx : x ∈ d) : d = q ++ [x] := by
  obtain ⟨n, hn⟩ := List.mem_iff_getElem?.mp hx
  have hfirst := h n x (getElem?_of_isPrefix hd hn)
  have hlast := h q.length x (by simp)
  have hlen := (List.getElem?_eq_some_iff.mp hn).1
  refine hd.eq_of_length_le ?_
  rw [List.length_append, List.length_singleton]
  omega

lemma scanCommit_ge (n : Node ι σ ρ) (k : ℕ) : n.commitIndex ≤ n.scanCommit k := by
  induction k with
  | zero => exact le_rfl
  | succ k ih =>
    simp only [Node.scanCommit]
    split_ifs with hle
    · exact le_rfl
    · omega
    · exact ih

lemma handleAppendEntriesReply_commit_le (n : Node ι σ ρ) (src : ι) (args : AppendEntriesArgs ι)
    (reply : AppendEntriesReply) : n.commitIndex ≤ (n.handleAppendEntriesReply src args reply).commitIndex := by
  simp only [Node.handleAppendEntriesReply]
  split_ifs
  · exact le_rfl
  · exact le_rfl
  · refine le_trans (le_of_eq ?_) (scanCommit_ge _ _)
    simp only [Node.raiseMatch]
    split_ifs <;> rfl
  · exact le_rfl

namespace Cluster

/-- Node `i` leads, and nobody has been elected in a higher term. -/
def Newest (s : Cluster ι σ ρ) (i : ι) : Prop :=
  (s.nodes i).state = .leader ∧ ∀ term, s.Elected term → term ≤ (s.nodes i).currentTerm

/-- The term of an election that was won. -/
def wonTerm : Observation ι ρ → ℕ
  | .elected _ term => term
  | _ => 0

lemma elected_le_iff (s : Cluster ι σ ρ) (k : ℕ) :
    (∀ obs ∈ s.trace, wonTerm obs ≤ k) ↔ ∀ term, s.Elected term → term ≤ k := by
  constructor
  · rintro h term ⟨i, hi⟩
    exact h _ hi
  · intro h obs hobs
    cases obs with
    | elected i term => exact h term ⟨i, hobs⟩
    | applied i boot index entry result => exact k.zero_le
    | returned i boot w call value => exact k.zero_le
    | raised i boot w call exc => exact k.zero_le

instance (s : Cluster ι σ ρ) (i : ι) : Decidable (s.Newest i) :=
  decidable_of_iff
    ((s.nodes i).state = .leader ∧ ∀ obs ∈ s.trace, wonTerm obs ≤ (s.nodes i).currentTerm)
    (and_congr_right' (elected_le_iff s _))

/-- What the running process of node `i` has applied. -/
def done (s : Cluster ι σ ρ) (i : ι) : List Entry := entries (records s.trace i (s.nodes i).boot)

/-- Node `i` has applied what it has committed, and the entries of earlier terms in its log. -/
def CaughtUp (s : Cluster ι σ ρ) (i : ι) : Prop :=
  (s.nodes i).commitIndex ≤ (s.done i).length ∧
    ∀ e ∈ (s.nodes i).log, e.term < (s.nodes i).currentTerm → e ∈ s.done i

instance (s : Cluster ι σ ρ) (i : ι) : Decidable (s.CaughtUp i) :=
  inferInstanceAs (Decidable (_ ∧ ∀ e ∈ (s.nodes i).log, _ → _))

variable {cfg : Config ι σ ρ} {P : Message ι → Prop} {s t : Cluster ι σ ρ} {a b : State ι Entry}

lemma ElectionInv.won_first (h : ElectionInv s) {i : ι} {n : Node ι σ ρ} {term : ℕ}
    (hn : (s.nodes i).electionEnds term = some (n, true)) :
    ¬ s.Elected n.currentTerm := by
  obtain ⟨el, hel, hc, rfl, hvotes, rfl⟩ := electionEnds_won hn
  obtain ⟨-, hneed, G, hiG, -, hcard, hG⟩ := h.counted i _ el hel
  refine h.first hc (G := G) ?_ hG
  rw [Majority, Finset.card_insert_of_notMem hiG]
  omega

/-- A leader of a term that had been won before was its leader before. -/
lemma Change.led (h : Change cfg P s t) (hs : ElectionInv s) {i : ι} (hl : (t.nodes i).state = .leader)
    (hel : s.Elected (t.nodes i).currentTerm) :
    (s.nodes i).state = .leader ∧ (t.nodes i).currentTerm = (s.nodes i).currentTerm := by
  cases h.leading hl with
  | stays hold hterm => exact ⟨hold, hterm⟩
  | wins term n hn hself => exact (hs.won_first hn (hself ▸ hel)).elim
  | appends cmd n w hn hself =>
    obtain ⟨hold, -, hterm, -⟩ := appendEntry_eq hn
    exact ⟨hold, hself ▸ hterm⟩
  | replies src boot args reply hm hp hid hb hself =>
    rw [hself] at hl ⊢
    rcases handleAppendEntriesReply_cases (n := s.nodes i) src args reply with
      ⟨-, he⟩ | ⟨_, _, _, he⟩
    · rw [he] at hl
      cases hl
    · rw [he] at hl ⊢
      exact ⟨hl, rfl⟩

/-- Where a commit index comes from: it stays, a process starts over, a leader has counted a majority, or a
request carried it. -/
inductive CommitMoves (s t : Cluster ι σ ρ) (i : ι) : Prop
  | same : (t.nodes i).commitIndex = (s.nodes i).commitIndex → CommitMoves s t i
  | restarts : (t.nodes i).commitIndex = 0 → (t.nodes i).state ≠ .leader → CommitMoves s t i
  | counts : (t.nodes i).state = .leader → (s.nodes i).commitIndex ≤ (t.nodes i).commitIndex →
      0 < (t.nodes i).commitIndex → (t.nodes i).Committable (t.nodes i).commitIndex → CommitMoves s t i
  | hears (boot : ℕ) (args : AppendEntriesArgs ι) : .appendEntries i boot args ∈ s.sent →
      (s.nodes i).commitIndex < args.leaderCommit →
      (t.nodes i).commitIndex = min args.leaderCommit (t.nodes i).lastLogIndex → CommitMoves s t i

lemma CommitMoves.moved {i j : ι} {n : Node ι σ ρ} (hn : t.nodes = Function.update s.nodes j n)
    (hself : i = j → t.nodes i = n → CommitMoves s t i) : CommitMoves s t i := by
  by_cases hij : i = j
  · apply hself hij
    rw [hn, hij, Function.update_self]
  · apply CommitMoves.same
    rw [hn, Function.update_of_ne hij]

lemma Change.commit (h : Change cfg P s t) (i : ι) : CommitMoves s t i := by
  cases h with
  | quiet j n obs hl =>
    refine .moved (j := j) rfl fun hij hself => .same ?_
    rw [hself, hij, hl.core.commitIndex]
  | startElection j n hn =>
    refine .moved (j := j) rfl fun hij hself => .same ?_
    rw [hself, hij]
    simp only [Node.startElection] at hn
    split_ifs at hn <;> cases hn <;> rfl
  | sendRequestVote j term peer args hm => exact .same rfl
  | loses j term n hn =>
    refine .moved (j := j) rfl fun hij hself => .same ?_
    obtain ⟨el, -, rfl | rfl⟩ := electionEnds_lost hn
    · rw [hself, hij]
      rfl
    · rw [hself, hij]
      rfl
  | wins j term n hn =>
    refine .moved (j := j) rfl fun hij hself => .same ?_
    obtain ⟨el, -, -, -, -, rfl⟩ := electionEnds_won hn
    rw [hself, hij]
    rfl
  | sendAppendEntries j peer args hm => exact .same rfl
  | requestVote dst boot args hm =>
    refine .moved (j := dst) rfl fun hij hself => .same ?_
    obtain ⟨v, hs, armed, he⟩ := handleRequestVote_eq (n := s.nodes dst) args
    rw [hself, hij, he]
    rcases stepDownForVote_eq (n := s.nodes dst) args.term with hd | ⟨-, hd⟩
    · rw [hd]
    · rw [hd]
      rfl
  | requestVoteReply src boot args reply n hm hn =>
    refine .moved (j := args.candidateId) rfl fun hij hself => .same ?_
    rw [hself, hij]
    simp only [Node.handleRequestVoteReply] at hn
    split at hn
    · cases hn
    · split_ifs at hn <;> cases hn <;> rfl
  | appendEntries dst boot args hm =>
    have happ := handleAppendEntries_appended (s.nodes dst) args
    generalize (s.nodes dst).handleAppendEntries args = out at happ ⊢
    obtain ⟨n, reply⟩ := out
    dsimp only at happ ⊢
    refine .moved (j := dst) (n := n) (by cases reply <;> rfl) fun hij hself => ?_
    subst hij
    cases happ with
    | stale r _ _ => exact .same (by rw [hself])
    | rejected n r _ _ _ hci _ => exact .same (by rw [hself, hci])
    | stored n r hle hterm hprev hlog hci hr =>
      rcases hci with hci | ⟨hlt, hci⟩
      · exact .same (by rw [hself, hci])
      · exact .hears boot args hm hlt (by rw [hself, hci])
  | appendEntriesReply src boot args reply hm hp hb =>
    refine .moved (j := args.leaderId) rfl fun hij hself => ?_
    subst hij
    have hle := handleAppendEntriesReply_commit_le (s.nodes args.leaderId) src args reply
    rcases handleAppendEntriesReply_commit (n := s.nodes args.leaderId) src args reply with hc | ⟨hl, hpos, hc⟩
    · exact .same (by rw [hself, hc])
    · rw [← hself] at hl hpos hc hle
      exact .counts hl hle hpos hc
  | voteCrash dst boot args hm =>
    refine .moved (j := dst) rfl fun hij hself => .restarts ?_ ?_ <;> rw [hself]
    · rfl
    · intro h
      cases h
  | appendCrash dst boot args hm hle =>
    refine .moved (j := dst) rfl fun hij hself => .restarts ?_ ?_ <;> rw [hself]
    · rfl
    · intro h
      cases h
  | appendEntry j cmd n w hn =>
    refine .moved (j := j) rfl fun hij hself => .same ?_
    rw [hself, hij]
    simp only [Node.appendEntry] at hn
    split_ifs at hn
    cases hn
    rfl
  | crash j =>
    refine .moved (j := j) rfl fun hij hself => .restarts ?_ ?_ <;> rw [hself]
    · rfl
    · intro h
      cases h

/-- `p` is committed, and the leader of the term it was committed in has committed as much. -/
def Told (s : Cluster ι σ ρ) (a : State ι Entry) (p : List Entry) : Prop :=
  p = [] ∨ ∃ term k, Committed Entry.term a term k ∧ p <+: a.prefixOf term k ∧
    ∀ i, (s.nodes i).state = .leader → (s.nodes i).currentTerm = term → p.length ≤ (s.nodes i).commitIndex

lemma Told.of_isPrefix {p q : List Entry} (h : Told s a q) (hp : p <+: q) : Told s a p := by
  rcases h with rfl | ⟨term, k, hcom, hq, hlead⟩
  · exact .inl (List.prefix_nil.mp hp)
  · exact .inr ⟨term, k, hcom, hp.trans hq, fun i hl ht => hp.length_le.trans (hlead i hl ht)⟩

lemma Tracks.elected (h : Tracks s a) {term k : ℕ} (hc : Committed Entry.term a term k) : s.Elected term := by
  rw [← h.refines.elected]
  intro hn
  exact hc.ne_nil (by simp [State.prefixOf, hn])

lemma Safe.committed (h : Safe cfg s a) (i : ι) : ∃ p, p.length = (s.nodes i).commitIndex ∧
    p <+: (s.nodes i).log ∧ Chosen Entry.term a (s.nodes i).currentTerm p ∧ Kept Entry.term a i p := by
  obtain ⟨p, hp, hk⟩ := h.commits.kept i
  obtain ⟨hlog, hcho⟩ := h.serving.tracks.committed hk
  exact ⟨p, hp, hlog, hcho, hk⟩

lemma Change.commit_le (h : Change cfg P s t) (hs : Safe cfg s a) (ht : Safe cfg t b) (hg : Grows a b) {i : ι}
    (hl : (t.nodes i).state = .leader) : (s.nodes i).commitIndex ≤ (t.nodes i).commitIndex := by
  cases h.commit i with
  | same hc => exact hc.ge
  | restarts hc hn => exact (hn hl).elim
  | counts _ hle _ _ => exact hle
  | hears boot args hm hlt hc =>
    obtain ⟨p, hp, -, -, hk⟩ := hs.committed i
    have hlen := (ht.serving.tracks.committed (hk.grow hg)).1.length_le
    rw [(ht.serving.tracks.aligned i).lastLogIndex] at hc
    omega

lemma Told.change {p : List Entry} (h : Told s a p) (hc : Change cfg P s t) (hs : Safe cfg s a)
    (ht : Safe cfg t b) (hg : Grows a b) : Told t b p := by
  rcases h with rfl | ⟨term, k, hcom, hp, hlead⟩
  · exact .inl rfl
  · refine .inr ⟨term, k, hcom.grow hg, hg.prefixOf_eq hcom.le_length ▸ hp, fun i hl hterm => ?_⟩
    obtain ⟨hold, hsame⟩ := hc.led hs.serving.tracks.election hl (hterm ▸ hs.serving.tracks.elected hcom)
    exact (hlead i hold (hsame ▸ hterm)).trans (hc.commit_le hs ht hg hl)

/-- What nodes have committed, heard of and applied has been told by the leaders that committed it. -/
structure Announced (s : Cluster ι σ ρ) (a : State ι Entry) : Prop where
  node : ∀ i p, p <+: (s.nodes i).log → p.length = (s.nodes i).commitIndex → Told s a p
  sent : ∀ dst boot args, .appendEntries dst boot args ∈ s.sent → ∀ p, p <+: a.leaderLog args.term →
    p.length = args.leaderCommit → Told s a p
  queue : ∀ i p, p <+: (s.nodes i).log → p.length = (s.nodes i).lastApplied → Told s a p
  applied : ∀ i boot, Told s a (entries (records s.trace i boot))

lemma init_announced (cfg : Config ι σ ρ) : Announced (init cfg) (State.init ι Entry) where
  node _ _ hp _ := .inl (List.prefix_nil.mp hp)
  sent _ _ _ hm := by simp [init] at hm
  queue _ _ hp _ := .inl (List.prefix_nil.mp hp)
  applied _ _ := .inl rfl

lemma eq_of_prefixes {p q l : List Entry} (hp : p <+: l) (hq : q <+: l) (h : p.length = q.length) : p = q :=
  (List.prefix_of_prefix_length_le hp hq h.le).eq_of_length h

/-- A leader that counts a majority has committed the prefix in its own term. -/
lemma Safe.counted (h : Safe cfg t b) {i : ι} (hl : (t.nodes i).state = .leader)
    (hpos : 0 < (t.nodes i).commitIndex) (hc : (t.nodes i).Committable (t.nodes i).commitIndex) {p : List Entry}
    (hp : p <+: (t.nodes i).log) (hlen : p.length = (t.nodes i).commitIndex) : Told t b p := by
  obtain ⟨hlead, -⟩ := h.serving.tracks.refines.leader i hl
  have hcom := h.serving.tracks.majority hl (h.commits.matched i hl) hpos hc
  refine .inr ⟨(t.nodes i).currentTerm, (t.nodes i).commitIndex, hcom, ?_, fun j hj hterm => ?_⟩
  · rw [State.prefixOf, hlead, ← hlen, ← List.prefix_iff_eq_take.mp hp]
  · have hji : j = i := by
      refine h.serving.tracks.election.unique j i (t.nodes i).currentTerm ?_
        (h.serving.tracks.election.leader i hl)
      rw [← hterm]
      exact h.serving.tracks.election.leader j hj
    rw [hji, hlen]

lemma Announced.node_change (h : Announced s a) (hc : Change cfg P s t) (hs : Safe cfg s a) (ht : Safe cfg t b)
    (hg : Grows a b) (i : ι) {p : List Entry} (hp : p <+: (t.nodes i).log)
    (hlen : p.length = (t.nodes i).commitIndex) : Told t b p := by
  obtain ⟨q, hq, hqlog, hqcho, -⟩ := ht.committed i
  obtain rfl : p = q := eq_of_prefixes hp hqlog (hlen.trans hq.symm)
  cases hc.commit i with
  | same hsame =>
    obtain ⟨r, hr, hrlog, -, hkept⟩ := hs.committed i
    obtain rfl : p = r := eq_of_prefixes hp (ht.serving.tracks.committed (hkept.grow hg)).1 (by omega)
    exact (h.node i p hrlog hr).change hc hs ht hg
  | restarts hzero _ =>
    rw [hzero] at hlen
    exact .inl (List.length_eq_zero_iff.mp hlen)
  | counts hl _ hpos hcount => exact ht.counted hl hpos hcount hp hlen
  | hears boot args hm hlt hmin =>
    obtain ⟨r, hr, -, hrlead, hrcho⟩ := hs.commits.sent i boot args hm
    have htold := (h.sent i boot args hm r hrlead hr).change hc hs ht hg
    rcases ht.serving.tracks.inv.chosen_comparable hqcho (hrcho.grow hg) with hpr | hrp
    · exact htold.of_isPrefix hpr
    · have hle := hrp.length_le
      have heq : r = p := hrp.eq_of_length (by omega)
      exact heq ▸ htold

lemma Announced.sent_change (h : Announced s a) (hc : Change cfg P s t) (hs : Safe cfg s a) (ht : Safe cfg t b)
    (hg : Grows a b) {dst : ι} {boot : ℕ} {args : AppendEntriesArgs ι} (hm : .appendEntries dst boot args ∈ t.sent)
    {p : List Entry} (hp : p <+: b.leaderLog args.term) (hlen : p.length = args.leaderCommit) : Told t b p := by
  rcases hc.sent hm with hm | horigin
  · obtain ⟨r, hr, -, hrlead, -⟩ := hs.commits.sent dst boot args hm
    obtain rfl : p = r := eq_of_prefixes hp (hrlead.trans (hg.leaderLog _)) (hlen.trans hr.symm)
    exact (h.sent dst boot args hm p hrlead hr).change hc hs ht hg
  · cases horigin with
    | appendEntries i peer args hargs =>
      obtain ⟨hl, -, hterm, -, -, hcommit, -⟩ := appendEntriesArgs_eq hargs
      obtain ⟨r, hr, hrlog, -, -⟩ := hs.committed i
      have hrlead : r <+: b.leaderLog args.term := by
        refine List.IsPrefix.trans ?_ (hg.leaderLog _)
        rw [hterm, (hs.serving.tracks.refines.leader i hl).1]
        exact hrlog
      obtain rfl : p = r := eq_of_prefixes hp hrlead (by omega)
      exact (h.node i p hrlog hr).change hc hs ht hg

/-- The applier takes from what the node has committed. -/
lemma Announced.queue_change (h : Announced s a) (hc : Change cfg P s t) (hs : Safe cfg s a) (ht : Safe cfg t b)
    (hg : Grows a b) {i : ι} (hi : AppliesAt cfg s t i) : ∃ r, Told t b r ∧ r <+: (t.nodes i).log ∧
      Processes (t.nodes i) (records t.trace i (t.nodes i).boot) r := by
  obtain ⟨p, hp, hprocess⟩ := hs.prefixes.current i
  obtain ⟨q, hq, hqlog, -, hqkept⟩ := hs.committed i
  have hplog := (hs.serving.tracks.committed hp).1
  rcases hprocess.moves (hs.serving.applier.applies i).idle hi.moves hplog hqlog hq with hr | hr | hr
  · exact ⟨p, (h.queue i p hplog hprocess.1).change hc hs ht hg, (ht.serving.tracks.committed (hp.grow hg)).1, hr⟩
  · exact ⟨q, (h.node i q hqlog hq).change hc hs ht hg, (ht.serving.tracks.committed (hqkept.grow hg)).1, hr⟩
  · exact ⟨[], .inl rfl, List.nil_prefix, hr⟩

lemma Announced.change (h : Announced s a) (hc : Change cfg P s t) (hs : Safe cfg s a) (ht : Safe cfg t b)
    (hg : Grows a b) : Announced t b := by
  obtain ⟨i, hi⟩ := hc.service.applier hs.serving.applier.boots
  obtain ⟨r, hr, hrlog, hprocess⟩ := h.queue_change hc hs ht hg hi
  refine ⟨fun j p => h.node_change hc hs ht hg j, fun dst boot args hm p => h.sent_change hc hs ht hg hm,
    fun j p hp hlen => ?_, fun j boot => ?_⟩
  · by_cases hj : j = i
    · subst hj
      obtain rfl : p = r := eq_of_prefixes hp hrlog (hlen.trans hprocess.1.symm)
      exact hr
    · rw [hi.others j hj] at hp hlen
      exact (h.queue j p hp hlen).change hc hs ht hg
  · by_cases hj : j ≠ i ∨ boot ≠ (t.nodes i).boot
    · rw [hi.records j boot hj]
      exact (h.applied j boot).change hc hs ht hg
    · simp only [not_or, not_not] at hj
      obtain ⟨rfl, rfl⟩ := hj
      rw [entries_eq, hprocess.applied, numbered_snd]
      exact hr.of_isPrefix (List.take_prefix _ _)

lemma announced {s : Cluster ι σ ρ} (h : Run (step cfg) (AtDelivery Timely) (init cfg) s) :
    ∃ a, Safe cfg s a ∧ Announced s a := by
  refine Run.invariant (I := fun s => ∃ a, Safe cfg s a ∧ Announced s a) (fun u e v hu hturn he => ?_) h
    ⟨_, init_safe cfg, init_announced cfg⟩
  obtain ⟨a, hs, ha⟩ := hu
  obtain ⟨b, hab, hb⟩ := hs.step hturn he
  exact ⟨b, hb, ha.change (step_change_free he) hs hb (run_grows hab)⟩

/-- A newest leader that has caught up has applied whatever any process has applied. -/
lemma Announced.newest (h : Announced s a) (hs : Safe cfg s a) {i : ι} (hi : s.Newest i) (hup : s.CaughtUp i)
    (j : ι) (boot : ℕ) : entries (records s.trace j boot) <+: s.done i := by
  have hdone : s.done i <+: (s.nodes i).log :=
    (hs.serving.tracks.committed (hs.applied i (s.nodes i).boot).1).1
  generalize entries (records s.trace j boot) = p, h.applied j boot = htold
  rcases htold with rfl | ⟨term, k, hcom, hp, hlead⟩
  · exact List.nil_prefix
  have hinv := hs.serving.tracks.inv
  have hleader := (hs.serving.tracks.refines.leader i hi.1).1
  have hterm := hi.2 term (hs.serving.tracks.elected hcom)
  have hlog : p <+: (s.nodes i).log := by
    rw [← hleader]
    refine hp.trans (hinv.committed_in_leader hcom hterm ?_)
    rw [hs.serving.tracks.refines.elected]
    exact ⟨i, hs.serving.tracks.election.leader i hi.1⟩
  rcases Nat.lt_or_eq_of_le hterm with hlt | heq
  swap
  · exact List.prefix_of_prefix_length_le hlog hdone ((hlead i hi.1 heq.symm).trans hup.1)
  rcases List.eq_nil_or_concat' p with rfl | ⟨q, x, rfl⟩
  · exact List.nil_prefix
  -- the last entry is of an earlier term, so it has been applied
  have hx : x ∈ q ++ [x] := List.mem_append_right _ (List.mem_singleton.mpr rfl)
  have hxterm : x.term ≤ term := hinv.leader_terms term x ((hp.trans (List.take_prefix _ _)).subset hx)
  have happ : x ∈ s.done i := hup.2 x (hlog.subset hx) (by omega)
  rcases List.prefix_or_prefix_of_prefix hlog hdone with hpd | hdp
  · exact hpd
  · rw [((hs.serving.tracks.aligned i).of_isPrefix hlog).whole hdp happ]

end Cluster

end DistributedStorage.Raft
