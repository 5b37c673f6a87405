import DistributedStorage.Raft.Refinement

/-! Each kind of step against the abstract machine, and whole runs. -/

set_option linter.unusedSectionVars false

namespace DistributedStorage.Raft

open Library.LeaderLogs Library.Runs

variable {ι σ ρ : Type} [DecidableEq ι] [Fintype ι]

lemma stepDownForVote_upToDate {n : Node ι σ ρ} (term : ℕ) {i u : ℕ} :
    (n.stepDownForVote term).candidateLogUpToDate i u = n.candidateLogUpToDate i u := by
  rcases stepDownForVote_eq (n := n) term with he | ⟨-, he⟩
  · rw [he]
  · rw [he]
    rfl

namespace Cluster

variable {s t : Cluster ι σ ρ} {a b : State ι Entry}

/-- The abstract machine can follow from `a` to a state that `t` refines. -/
def Follows (a : State ι Entry) (t : Cluster ι σ ρ) : Prop :=
  ∃ b, Relation.ReflTransGen (Step Entry.term) a b ∧ Refines t b

lemma Refines.settled (h : Refines s a) {i : ι} {n : Node ι σ ρ} (hs : Settles (s.nodes i) n) :
    Follows a (s.setNode i n) :=
  ⟨_, h.settle hs⟩

/-- A node without a leader in its term may have its log recorded as a vote. -/
lemma Refines.records (h : Refines s a) {i : ι} (hn : a.leaderLog (a.cur i) = []) :
    Relation.ReflTransGen (Step Entry.term) a (a.recordVote i) ∧ Refines s (a.recordVote i) := by
  have hr : Relation.ReflTransGen (Step Entry.term) a (a.recordVote i) := .single (.vote a i hn)
  exact ⟨hr, h.history (run_grows hr) rfl rfl rfl⟩

lemma Refines.starts (h : Refines s a) (hinv : Inv Entry.term a) {i : ι} {n : Node ι σ ρ}
    (hn : (s.nodes i).startElection = some n) : Follows a (s.setNode i n) := by
  rcases startElection_cases hn with ⟨-, hs⟩ | ⟨hcand, hterm, hlog, hel⟩
  · exact h.settled hs
  have hlt : a.cur i < n.currentTerm := by
    rw [h.cur i]
    omega
  -- raise the term first, then vote unless the term has a leader already
  have hraise : Relation.ReflTransGen (Step Entry.term) a (a.raiseTo i n.currentTerm) :=
    raiseTo_steps hlt.le
  have hfollow : ∃ b, Relation.ReflTransGen (Step Entry.term) (a.raiseTo i n.currentTerm) b ∧
      b.cur = Function.update a.cur i n.currentTerm ∧ b.log = a.log ∧
      b.leaderLog = a.leaderLog ∧
      (b.leaderLog n.currentTerm ≠ [] ∨ b.ballot i n.currentTerm n.log) := by
    by_cases hnil : a.leaderLog n.currentTerm = []
    · have hv : Step Entry.term (a.raiseTo i n.currentTerm)
          ((a.raiseTo i n.currentTerm).recordVote i) :=
        .vote _ i (by simpa [State.raiseTo] using hnil)
      refine ⟨_, .single hv, rfl, rfl, rfl, Or.inr (Or.inr ⟨rfl, ?_, ?_⟩)⟩
      · simp [State.raiseTo]
      · simp [State.raiseTo, h.log i, hlog]
    · exact ⟨_, .refl, rfl, rfl, rfl, Or.inl hnil⟩
  obtain ⟨b, hb, hbcur, hblog, hblead, hvote⟩ := hfollow
  have hab := hraise.trans hb
  refine ⟨b, hab, h.move (run_grows hab) rfl rfl hbcur ?_ (hblead ▸ h.elected)
    (hblead ▸ h.aligned) ?_ (fun _ _ _ => by rw [hblead]) (fun _ => hvote) ?_ ?_⟩
  · rw [hblog, hlog, ← h.log i, Function.update_eq_self]
  · intro hl
    rw [hcand] at hl
    cases hl
  · intro term el he
    rw [hel] at he
    by_cases ht : term = (s.nodes i).currentTerm + 1
    · subst ht
      rw [Function.update_self] at he
      cases he
      refine ⟨hterm.ge, fun _ _ => ?_⟩
      rw [hlog]
      exact ⟨(h.aligned_log hinv i).lastLogIndex, rfl⟩
    · rw [Function.update_of_ne ht] at he
      have hle := (h.election i term el he).1
      exact ⟨by omega, fun heq => by omega⟩
  · intro u x y hc
    have hle := hc.1
    exact ⟨by omega, fun heq => by omega⟩

/-- A vote is granted on the log the abstract machine records for the voter. -/
lemma Refines.votes (h : Refines s a) (hinv : Inv Entry.term a) {dst : ι} {boot : ℕ}
    {args : RequestVoteArgs ι} (hm : .requestVote dst boot args ∈ s.sent) :
    Follows a ((s.setNode dst ((s.nodes dst).handleRequestVote args).1).send
      (.requestVoteReply dst boot args ((s.nodes dst).handleRequestVote args).2)) := by
  obtain ⟨hr, hb⟩ := h.settle (handleRequestVote_settles (n := s.nodes dst) args)
  by_cases hg : ((s.nodes dst).handleRequestVote args).2.voteGranted = true
  · obtain ⟨-, hterm, hup⟩ := handleRequestVote_granted hg
    rw [hterm] at hr hb
    by_cases hnil : a.leaderLog args.term = []
    · obtain ⟨hr', hb'⟩ := hb.records (i := dst) (by simpa [State.raiseTo] using hnil)
      refine ⟨_, hr.trans hr', hb'.send ⟨List.mem_append_left _ hm, fun _ => Or.inr ?_⟩⟩
      refine ⟨a.log dst, Or.inr ⟨rfl, by simp [State.raiseTo], rfl⟩, fun l hl ht => ?_⟩
      have hsame : (s.nodes dst).candidateLogUpToDate l.length (lastTerm Entry.term l) = true := by
        rw [hl, ht, ← stepDownForVote_upToDate args.term]
        exact hup
      rw [h.log dst]
      exact (candidateLogUpToDate_iff (h.aligned_log hinv dst)).mp hsame
    · exact ⟨_, hr, hb.send ⟨List.mem_append_left _ hm, fun _ => Or.inl hnil⟩⟩
  · exact ⟨_, hr, hb.send ⟨List.mem_append_left _ hm, fun hg' => (hg hg').elim⟩⟩

/-- A node that leads its term appends an entry, its first one or another one. -/
lemma Refines.leads (h : Refines s a) (hinv : Inv Entry.term a) {i : ι} {n : Node ι σ ρ} {e : Entry}
    (hab : Relation.ReflTransGen (Step Entry.term) a b)
    (hcur : b.cur = a.cur) (hlog : b.log = (a.lead i e).log)
    (hlead : b.leaderLog = (a.lead i e).leaderLog) (hacked : b.acked = (a.lead i e).acked)
    (hnodes : t.nodes = Function.update s.nodes i n) (hsent : t.sent = s.sent)
    (helected : ∀ u, t.Elected u ↔ s.Elected u ∨ u = (s.nodes i).currentTerm)
    (hunique : ∀ j, (s.nodes j).state = .leader →
      (s.nodes j).currentTerm = (s.nodes i).currentTerm → j = i)
    (hn : n.currentTerm = (s.nodes i).currentTerm) (hnl : n.log = (s.nodes i).log ++ [e])
    (hns : n.state = .leader) (he : e.index = (s.nodes i).lastLogIndex + 1)
    (hel : ∀ term el, n.elections term = some el → ∃ old, (s.nodes i).elections term = some old ∧
      el.lastLogIndex = old.lastLogIndex ∧ el.lastLogTerm = old.lastLogTerm) :
    Refines t b := by
  have hal := h.aligned_log hinv i
  have hbself : b.leaderLog (s.nodes i).currentTerm = n.log := by
    rw [hlead, ← h.cur i, lead_leaderLog_self, h.log i, hnl]
  have hbother : ∀ u, u ≠ (s.nodes i).currentTerm → b.leaderLog u = a.leaderLog u := by
    intro u hu
    rw [hlead, lead_leaderLog_of_ne (by rwa [h.cur i])]
  have hclaims : ∀ u x y, Claims (s.nodes i) u x y → Claims n u x y := by
    rintro u x y ⟨hle, -⟩
    exact ⟨hn ▸ hle, fun _ hc => by rw [hns] at hc; cases hc⟩
  refine h.move (run_grows hab) hnodes hsent ?_ ?_ ?_ ?_ (fun _ => ?_) ?_ ?_ ?_ hclaims
  · rw [hcur, hn, ← h.cur i, Function.update_eq_self]
  · rw [hlog, hnl, ← h.log i]
    rfl
  · intro u
    rw [helected u]
    by_cases hu : u = (s.nodes i).currentTerm
    · subst hu
      simp [hbself, hnl]
    · rw [hbother u hu, h.elected u]
      simp [hu]
  · intro u
    by_cases hu : u = (s.nodes i).currentTerm
    · subst hu
      rw [hbself, hnl]
      exact hal.concat (by rw [he, hal.lastLogIndex])
    · rw [hbother u hu]
      exact h.aligned u
  · rw [hn]
    refine ⟨hbself, ?_⟩
    rw [hacked, ← h.cur i, State.lead, acknowledge_acked_self, hnl, h.log i]
    simp
  · intro j hj hl
    exact hbother _ fun hu => hj (hunique j hl hu)
  · intro hc
    rw [hns] at hc
    cases hc
  · intro term el hx
    obtain ⟨old, hold, hi, ht⟩ := hel term el hx
    rw [hi, ht]
    exact hclaims _ _ _ (h.election i term old hold)

/-- The winner of an election has the votes the abstract machine asks for. -/
lemma Refines.elects (h : Refines s a) (hinv : Inv Entry.term a) (hs : ElectionInv s) {i : ι}
    {n : Node ι σ ρ} {term : ℕ} (hn : (s.nodes i).electionEnds term = some (n, true)) :
    Follows a ((s.setNode i n).observe (.elected i term)) := by
  have hs' := hs.win hn
  obtain ⟨el, hel, hc, rfl, hvotes, rfl⟩ := electionEnds_won hn
  obtain ⟨-, hneed, G, hiG, -, hcard, hG⟩ := hs.counted i _ el hel
  have hQ : Majority (insert i G) := by
    rw [Majority, Finset.card_insert_of_notMem hiG]
    omega
  have hnil : a.leaderLog (a.cur i) = [] := by
    by_contra hne
    rw [h.cur i] at hne
    exact hs.first hc hQ hG ((h.elected _).mp hne)
  have hal := h.aligned_log hinv i
  set e := noopEntry (s.nodes i).currentTerm ((s.nodes i).lastLogIndex + 1) with he
  have hstep : Step Entry.term a { a.lead i e with
      electionLog := Function.update a.electionLog (a.cur i) (a.log i) } := by
    refine .elect a i e hnil (h.cur i).symm ⟨insert i G, hQ, fun j hj => ?_⟩
    rcases Finset.mem_insert.mp hj with rfl | hj
    · refine ⟨a.log j, ?_, Or.inr ⟨rfl, le_rfl⟩⟩
      rw [h.cur j, h.log j]
      exact (h.candidate j hc).resolve_left (by rwa [h.cur j, ← not_ne_iff] at hnil)
    · obtain ⟨boot, args, reply, hm, hid, hterm, hg⟩ := hG j hj
      obtain ⟨hreq, hback⟩ := h.messages _ hm
      obtain ⟨v, hv, hup⟩ := (hback hg).resolve_left (by rwa [hterm, ← h.cur i, not_ne_iff])
      have hclaim : Claims (s.nodes args.candidateId) args.term args.lastLogIndex
        args.lastLogTerm := h.messages _ hreq
      rw [hid] at hclaim
      obtain ⟨hi, ht⟩ := hclaim.2 hterm.symm hc
      rw [hterm, ← h.cur i] at hv
      exact ⟨v, hv, hup _ (by rw [hi, h.log i]) (by rw [ht, h.log i])⟩
  refine ⟨_, .single hstep, h.leads hinv (.single hstep) rfl rfl rfl rfl rfl rfl ?_ ?_ rfl rfl rfl
    rfl ?_⟩
  · intro u
    constructor
    · rintro ⟨j, hj⟩
      rcases List.mem_append.mp hj with hj | hj
      · exact Or.inl ⟨j, hj⟩
      · cases List.mem_singleton.mp hj
        exact Or.inr rfl
    · rintro (⟨j, hj⟩ | rfl)
      · exact ⟨j, List.mem_append_left _ hj⟩
      · exact ⟨i, List.mem_append_right _ (List.mem_singleton.mpr rfl)⟩
  · intro j hl ht
    refine hs'.unique j i _ (List.mem_append_left _ (hs.leader j hl)) ?_
    rw [ht]
    exact List.mem_append_right _ (List.mem_singleton.mpr rfl)
  · exact (setElection_settles { el with running := false } hel rfl rfl).elections

lemma Refines.appends {cfg : Config ι σ ρ} (h : Refines s a) (hinv : Inv Entry.term a)
    (hs : ElectionInv s) {i : ι} {cmd : Command} {n : Node ι σ ρ} {w : ℕ}
    (hn : (s.nodes i).appendEntry cfg cmd = .ok (n, w)) : Follows a (s.setNode i n) := by
  simp only [Node.appendEntry] at hn
  split_ifs at hn with hl
  rw [not_not] at hl
  cases hn
  obtain ⟨hlead, -⟩ := h.leader i hl
  have hel := (h.elected _).mpr ⟨i, hs.leader i hl⟩
  set e := cmd.entry (s.nodes i).currentTerm ((s.nodes i).lastLogIndex + 1) with he
  have hstep : Step Entry.term a (a.lead i e) := by
    refine .extend a i e ?_ ?_ (h.cur i).symm
    · rw [h.cur i, hlead, h.log i]
    · rw [h.log i, ← hlead]
      exact hel
  refine ⟨_, .single hstep, h.leads hinv (.single hstep) rfl rfl rfl rfl rfl rfl ?_ ?_ rfl rfl hl
    rfl (fun _ el hx => ⟨el, hx, rfl, rfl⟩)⟩
  · intro u
    constructor
    · exact Or.inl
    · rintro (hu | rfl)
      · exact hu
      · exact ⟨i, hs.leader i hl⟩
  · exact fun j hj ht => hs.unique j i _ (hs.leader j hj) (ht ▸ hs.leader i hl)

/-- A batch that is stored leaves the common log, or exactly the log its leader had. -/
lemma Refines.stores (h : Refines s a) (hinv : Inv Entry.term a) {dst : ι}
    {args : AppendEntriesArgs ι} {view : List Entry} (hv : view <+: a.leaderLog args.term)
    (hs : Slice view args) (hprev : args.prevLogIndex = 0 ∨
      (args.prevLogIndex ≤ (s.nodes dst).lastLogIndex ∧
        ((s.nodes dst).log[args.prevLogIndex - 1]?.map Entry.term) = some args.prevLogTerm)) :
    Node.insertEntries (s.nodes dst).log args.prevLogIndex args.entries =
      accepted (s.nodes dst).log view := by
  apply hs.inserts _ (hprev.imp_right And.right)
  exact rooted_matching (h.log dst ▸ hinv.rooted_log dst) ((hinv.rooted_leader _).of_isPrefix hv)

lemma Refines.replicates (h : Refines s a) (hinv : Inv Entry.term a) {dst : ι}
    {boot : ℕ} {args : AppendEntriesArgs ι} (hm : .appendEntries dst boot args ∈ s.sent) :
    Follows a ((s.setNode dst ((s.nodes dst).handleAppendEntries args).1).sendReply dst boot args
      ((s.nodes dst).handleAppendEntries args).2) := by
  have hrole := handleAppendEntries_role (n := s.nodes dst) args
  have helec := handleAppendEntries_elections (n := s.nodes dst) args
  have hsettle (hlog : ((s.nodes dst).handleAppendEntries args).1.log = (s.nodes dst).log) :
      Settles (s.nodes dst) ((s.nodes dst).handleAppendEntries args).1 :=
    .of_elections hlog hrole.1 hrole.2.1 helec
  have happ := handleAppendEntries_appended (s.nodes dst) args
  generalize (s.nodes dst).handleAppendEntries args = out at happ hrole helec hsettle
  obtain ⟨n, reply⟩ := out
  dsimp only at happ hrole helec hsettle ⊢
  cases happ with
  | stale r hlt hr =>
    obtain ⟨hstep, hb⟩ := h.settle (hsettle rfl)
    refine ⟨_, hstep, hb.send ⟨List.mem_append_left _ hm, fun hr' => ?_⟩⟩
    rw [hr] at hr'
    cases hr'
  | rejected n reply hle hterm hlog hci hr =>
    obtain ⟨hstep, hb⟩ := h.settle (hsettle hlog)
    cases reply with
    | none => exact ⟨_, hstep, hb⟩
    | some r =>
      refine ⟨_, hstep, hb.send ⟨List.mem_append_left _ hm, fun hr' => ?_⟩⟩
      rw [hr r rfl] at hr'
      cases hr'
  | stored n r hle hterm hprev hlog hci hr =>
    obtain ⟨view, hv, hsl⟩ := h.messages _ hm
    have hins := h.stores hinv hv hsl hprev
    have hraise : Relation.ReflTransGen (Step Entry.term) a (a.raiseTo dst args.term) :=
      raiseTo_steps ((h.cur dst).trans_le hle)
    set b₁ := a.raiseTo dst args.term with hb₁
    have hcur₁ : b₁.cur dst = args.term := by simp [hb₁, State.raiseTo]
    have hacc : Step Entry.term b₁ _ := accept_step (i := dst) (p := view) (by rw [hcur₁]; exact hv)
    rw [hcur₁, show b₁.log dst = (s.nodes dst).log from h.log dst, ← hins, ← hlog] at hacc
    have hab := hraise.tail hacc
    have hclaims : ∀ u x y, Claims (s.nodes dst) u x y → Claims n u x y := by
      rintro u x y ⟨hu, hc⟩
      refine ⟨hu.trans hrole.1, fun hterm' hcand => ?_⟩
      have hsame := hrole.2.2 hcand
      rw [hsame] at hterm' hcand ⊢
      exact hc hterm' hcand
    refine ⟨_, hab, Refines.send (s := s.setNode dst n) (h.move (run_grows hab) rfl rfl ?_ ?_
      h.elected h.aligned ?_ (fun _ _ _ => rfl) ?_ ?_ hclaims)
      ⟨List.mem_append_left _ hm, fun _ => ?_⟩⟩
    · rw [hterm]
      rfl
    · rfl
    · intro hl
      -- a leader holds all of the leader log of its term, so the batch changes nothing
      obtain ⟨hcur, hst⟩ := hrole.2.1.resolve_left (by rw [hl]; exact fun h => by cases h)
      obtain ⟨hlead, hack⟩ := h.leader dst (hst ▸ hl)
      have hpre : view <+: (s.nodes dst).log := by
        rw [← hlead, ← hcur, hterm]
        exact hv
      have hlog' : n.log = (s.nodes dst).log := by
        rw [hlog, hins, accepted, if_pos hpre]
      rw [hcur, hlog']
      exact ⟨hlead, hack.trans ((run_grows hab).acked _ _)⟩
    · intro hcand
      have hsame := hrole.2.2 hcand
      rw [hsame] at hab hcand ⊢
      exact (h.candidate dst hcand).imp (leaderLog_ne_nil (run_grows hab))
        ((run_grows hab).ballot _ _ _)
    · intro term el hel
      rw [helec] at hel
      exact hclaims _ _ _ (h.election dst term el hel)
    · rw [hsl.length_eq, acknowledge_acked_self]
      exact le_max_right _ _

lemma Refines.follows {cfg : Config ι σ ρ} (h : Refines s a) (hinv : Inv Entry.term a)
    (hs : ElectionInv s) {P : Message ι → Prop} (ht : Change cfg P s t) : Follows a t := by
  cases ht with
  | quiet i n obs hl =>
    have hcore := hl.core
    have hobs := hl.not_elected
    obtain ⟨b, hab, hb⟩ := h.settled hcore.settles
    exact ⟨b, hab, hb.observe hobs⟩
  | startElection i n hn => exact h.starts hinv hn
  | sendRequestVote i term peer args ha =>
    refine ⟨a, .refl, h.send ?_⟩
    obtain ⟨el, hel, -, rfl⟩ := requestVoteArgs_eq ha
    have hc := h.election i term el hel
    simpa only [Vouched, send_nodes, hs.nodeId i] using hc
  | loses i term n hn => exact h.settled (electionEnds_lost_settles hn)
  | wins i term n hn => exact h.elects hinv hs hn
  | sendAppendEntries i peer args ha =>
    obtain ⟨hl, -, hterm, -⟩ := appendEntriesArgs_eq ha
    refine ⟨a, .refl, h.send ⟨(s.nodes i).log, ?_, slice_of_appendEntriesArgs ha⟩⟩
    rw [hterm, (h.leader i hl).1]
  | requestVote dst boot args hm => exact h.votes hinv hm
  | requestVoteReply src boot args reply n hm hn => exact h.settled (handleRequestVoteReply_settles hn)
  | appendEntries dst boot args hm => exact h.replicates hinv hm
  | appendEntriesReply src boot args reply hm _ hb =>
    exact h.settled (handleAppendEntriesReply_settles src args reply)
  | voteCrash dst boot args hm =>
    exact h.settled ((stepDownForVote_settles _).restart cfg
      (Node.stepDownForVote_durable (hs.durable dst) args.term))
  | appendCrash dst boot args hm hle =>
    exact h.settled ((stepDownForAppend_settles hle).restart cfg
      (Node.stepDownForAppend_durable (hs.durable dst) args.term))
  | appendEntry i cmd n w hn => exact h.appends hinv hs hn
  | crash i => exact h.settled ((Settles.refl _).restart cfg (hs.durable i))

/-- The concrete state, its election invariant and the abstract state it refines. -/
structure Tracks (s : Cluster ι σ ρ) (a : State ι Entry) : Prop where
  election : ElectionInv s
  inv : Inv Entry.term a
  refines : Refines s a

lemma init_tracks (cfg : Config ι σ ρ) : Tracks (init cfg) (State.init ι Entry) :=
  ⟨init_electionInv cfg, inv_init, init_refines cfg⟩

lemma Tracks.step {cfg : Config ι σ ρ} {e : Event ι} (h : Tracks s a)
    (he : Cluster.step cfg s e = some t) :
    ∃ b, Relation.ReflTransGen (Step Entry.term) a b ∧ Tracks t b := by
  have hc := step_change_free he
  obtain ⟨b, hab, hb⟩ := h.refines.follows h.inv h.election hc
  exact ⟨b, hab, h.election.change hc, run_inv h.inv hab, hb⟩

lemma Tracks.run {cfg : Config ι σ ρ} {C : Cluster ι σ ρ → Event ι → Prop} (h : Tracks s a)
    (hr : Run (Cluster.step cfg) C s t) :
    ∃ b, Relation.ReflTransGen (Step Entry.term) a b ∧ Tracks t b :=
  Run.simulates (fun _ _ _ _ hsa _ he => hsa.step he) hr h

lemma refinement {cfg : Config ι σ ρ} {C : Cluster ι σ ρ → Event ι → Prop}
    (h : Reachable cfg C s) :
    ∃ a, Relation.ReflTransGen (Step Entry.term) (State.init ι Entry) a ∧ Tracks s a :=
  (init_tracks cfg).run h

end Cluster

end DistributedStorage.Raft
