import DistributedStorage.Library.LeaderLogs
import DistributedStorage.Raft.Voting

/-! At most one node becomes leader in a term. A vote can be erased inside its term, but only by a
candidate that hears from a leader of that term, and the voters that elected that leader are not
candidates any more. -/

set_option linter.unusedSectionVars false

namespace DistributedStorage.Raft

open Library.LeaderLogs Library.Runs

variable {ι σ ρ : Type} [DecidableEq ι] [Fintype ι]

namespace Cluster

def Elected (s : Cluster ι σ ρ) (term : ℕ) : Prop :=
  ∃ i, .elected i term ∈ s.trace

/-- `i` has answered a vote request of `c` in `term` with yes. -/
def Granted (s : Cluster ι σ ρ) (i c : ι) (term : ℕ) : Prop :=
  ∃ boot args reply, .requestVoteReply i boot args reply ∈ s.sent ∧ args.candidateId = c ∧
    args.term = term ∧ reply.voteGranted = true

/-- The node has left the term, or it holds its vote for `c` there and cannot lose it. -/
def Locked (n : Node ι σ ρ) (c : ι) (term : ℕ) : Prop :=
  term < n.currentTerm ∨
    (n.currentTerm = term ∧ n.votedFor = some c ∧ n.state ≠ .candidate)

/-- The votes an election has counted come from distinct peers that granted them. -/
def Counted (s : Cluster ι σ ρ) (i : ι) (term : ℕ) (el : Election ι) : Prop :=
  i ∉ el.asking ∧ el.votesNeeded = Fintype.card ι / 2 + 1 ∧ ∃ G : Finset ι, i ∉ G ∧ Disjoint G el.asking ∧
    el.votes ≤ G.card + 1 ∧ ∀ j ∈ G, s.Granted j i term

/-- The leader of a term was elected by voters whose votes are locked and went to it alone. -/
def Won (s : Cluster ι σ ρ) (c : ι) (term : ℕ) : Prop :=
  ∃ Q : Finset ι, Majority Q ∧ c ∈ Q ∧
    ∀ i ∈ Q, Locked (s.nodes i) c term ∧ ∀ d, s.Granted i d term → d = c

structure ElectionInv (s : Cluster ι σ ρ) : Prop where
  nodeId : ∀ i, (s.nodes i).nodeId = i
  durable : ∀ i, (s.nodes i).Durable
  request : ∀ dst boot args, .requestVote dst boot args ∈ s.sent → dst ≠ args.candidateId
  append : ∀ dst boot args, .appendEntries dst boot args ∈ s.sent → s.Elected args.term
  leader : ∀ i, (s.nodes i).state = .leader → .elected i (s.nodes i).currentTerm ∈ s.trace
  grant_ne : ∀ i c term, s.Granted i c term → i ≠ c
  grant_term : ∀ i c term, s.Granted i c term → term ≤ (s.nodes i).currentTerm
  grant_vote : ∀ i c, s.Granted i c (s.nodes i).currentTerm →
    ¬ s.Elected (s.nodes i).currentTerm → (s.nodes i).votedFor = some c
  grant_unique : ∀ i c d term, ¬ s.Elected term → s.Granted i c term → s.Granted i d term → c = d
  candidate : ∀ i, (s.nodes i).state = .candidate → ¬ s.Elected (s.nodes i).currentTerm →
    (s.nodes i).votedFor = some i
  counted : ∀ i term el, (s.nodes i).elections term = some el → s.Counted i term el
  won : ∀ i term, .elected i term ∈ s.trace → s.Won i term
  unique : ∀ i j term, .elected i term ∈ s.trace → .elected j term ∈ s.trace → i = j

lemma Elected.mono {s t : Cluster ι σ ρ} {term : ℕ} (h : s.Elected term)
    (ht : ∀ o, o ∈ s.trace → o ∈ t.trace) : t.Elected term :=
  let ⟨i, hi⟩ := h
  ⟨i, ht _ hi⟩

lemma Granted.mono {s t : Cluster ι σ ρ} {i c : ι} {term : ℕ} (h : s.Granted i c term)
    (ht : ∀ m, m ∈ s.sent → m ∈ t.sent) : t.Granted i c term := by
  obtain ⟨boot, args, reply, hm, hh⟩ := h
  exact ⟨boot, args, reply, ht _ hm, hh⟩

lemma Counted.mono {s t : Cluster ι σ ρ} {i : ι} {term : ℕ} {el : Election ι}
    (h : s.Counted i term el) (ht : ∀ m, m ∈ s.sent → m ∈ t.sent) : t.Counted i term el := by
  obtain ⟨ha, hn, G, hi, hd, hv, hg⟩ := h
  exact ⟨ha, hn, G, hi, hd, hv, fun j hj => (hg j hj).mono ht⟩

lemma init_electionInv (cfg : Config ι σ ρ) : ElectionInv (init cfg) where
  nodeId _ := rfl
  durable _ := Node.start_durable ..
  request _ _ _ h := by simp [init] at h
  append _ _ _ h := by simp [init] at h
  leader _ h := by simp [init, Node.start] at h
  grant_ne _ _ _ h := by simp [init, Granted] at h
  grant_term _ _ _ h := by simp [init, Granted] at h
  grant_vote _ _ h := by simp [init, Granted] at h
  grant_unique _ _ _ _ _ h := by simp [init, Granted] at h
  candidate _ h := by simp [init, Node.start] at h
  counted _ _ _ h := by simp [init, Node.start] at h
  won _ _ h := by simp [init] at h
  unique _ _ _ h := by simp [init] at h

lemma Locked.moves {heard : Prop} {n m : Node ι σ ρ} {c : ι} {term : ℕ} (h : Locked n c term)
    (hm : Moves heard n m) : Locked m c term := by
  rcases hm.2 with ⟨hlt, -, -⟩ | ⟨heq, hs, hv⟩
  · rcases h with h | ⟨h, -, -⟩
    · exact Or.inl (h.trans hlt)
    · exact Or.inl (h ▸ hlt)
  · rcases h with h | ⟨h, hvote, hc⟩
    · exact Or.inl (heq ▸ h)
    · refine Or.inr ⟨heq.trans h, ?_, ?_⟩
      · rcases hv with hv | hv | ⟨hv, -⟩
        · exact hv.trans hvote
        · rw [hv] at hvote
          cases hvote
        · exact (hc hv).elim
      · rcases hs with hs | hs <;> rw [hs]
        · exact hc
        · exact nofun

/-- One node moves and nobody is elected. A new vote of this node is the one it holds. -/
lemma ElectionInv.move {s t : Cluster ι σ ρ} (h : ElectionInv s) {i : ι} {n : Node ι σ ρ}
    (hnodes : t.nodes = Function.update s.nodes i n)
    (hmove : Moves (s.Elected (s.nodes i).currentTerm) (s.nodes i) n) (hd : n.Durable)
    (htrace : ∀ j term, .elected j term ∈ t.trace ↔ .elected j term ∈ s.trace)
    (hsent : ∀ m, m ∈ s.sent → m ∈ t.sent)
    (hreq : ∀ dst boot args, .requestVote dst boot args ∈ t.sent →
      .requestVote dst boot args ∈ s.sent ∨ dst ≠ args.candidateId)
    (happ : ∀ dst boot args, .appendEntries dst boot args ∈ t.sent →
      .appendEntries dst boot args ∈ s.sent ∨ s.Elected args.term)
    (hgrant : ∀ j c term, t.Granted j c term → s.Granted j c term ∨
      (j = i ∧ i ≠ c ∧ term = n.currentTerm ∧ n.votedFor = some c))
    (hcount : ∀ term el, n.elections term = some el → t.Counted i term el) :
    ElectionInv t := by
  have hself : t.nodes i = n := by simp [hnodes]
  have hother : ∀ {j}, j ≠ i → t.nodes j = s.nodes j := fun hj => by simp [hnodes, hj]
  have hel : ∀ term, t.Elected term ↔ s.Elected term := fun term =>
    exists_congr fun j => htrace j term
  have hid : n.nodeId = i := hmove.1.trans (h.nodeId i)
  have hle : ∀ j, (s.nodes j).currentTerm ≤ (t.nodes j).currentTerm := by
    intro j
    by_cases hj : j = i
    · subst hj
      rw [hself]
      exact hmove.term_le
    · rw [hother hj]
  -- a vote from before the move is still held
  have hheld : ∀ c, s.Granted i c n.currentTerm → ¬ s.Elected n.currentTerm →
      n.votedFor = some c := by
    intro c hg hne
    have heq : n.currentTerm = (s.nodes i).currentTerm :=
      le_antisymm (h.grant_term i c _ hg) hmove.term_le
    rw [heq] at hg hne
    exact hmove.vote_kept heq hne (h.grant_vote i c hg hne)
  refine ⟨?_, ?_, ?_, ?_, ?_, ?_, ?_, ?_, ?_, ?_, ?_, ?_,
    fun j k term hj hk => h.unique j k term ((htrace j term).mp hj) ((htrace k term).mp hk)⟩
  · intro j
    by_cases hj : j = i
    · subst hj
      rw [hself, hid]
    · rw [hother hj, h.nodeId j]
  · intro j
    by_cases hj : j = i
    · subst hj
      rwa [hself]
    · rw [hother hj]
      exact h.durable j
  · intro dst boot args hm
    rcases hreq dst boot args hm with hm | hm
    · exact h.request dst boot args hm
    · exact hm
  · intro dst boot args hm
    rw [hel]
    rcases happ dst boot args hm with hm | hm
    · exact h.append dst boot args hm
    · exact hm
  · intro j hj
    rw [htrace]
    by_cases hji : j = i
    · subst hji
      rw [hself] at hj ⊢
      rcases hmove.2 with ⟨-, hnl, -⟩ | ⟨heq, hs | hs, -⟩
      · exact (hnl hj).elim
      · rw [heq]
        exact h.leader j (hs ▸ hj)
      · rw [hs] at hj
        cases hj
    · rw [hother hji] at hj ⊢
      exact h.leader j hj
  · intro j c term hg
    rcases hgrant j c term hg with hg | ⟨rfl, hne, -, -⟩
    · exact h.grant_ne j c term hg
    · exact hne
  · intro j c term hg
    rcases hgrant j c term hg with hg | ⟨rfl, -, rfl, -⟩
    · exact (h.grant_term j c term hg).trans (hle j)
    · rw [hself]
  · intro j c hg hne
    rw [hel] at hne
    by_cases hji : j = i
    · subst hji
      rw [hself] at hg hne ⊢
      rcases hgrant j c _ hg with hg | ⟨-, -, -, hv⟩
      · exact hheld c hg hne
      · exact hv
    · rw [hother hji] at hg hne ⊢
      rcases hgrant j c _ hg with hg | ⟨hj, -⟩
      · exact h.grant_vote j c hg hne
      · exact (hji hj).elim
  · intro j c d term hne hc hd
    rw [hel] at hne
    rcases hgrant j c term hc with hc | ⟨rfl, -, rfl, hvc⟩ <;>
      rcases hgrant j d _ hd with hd | ⟨hji, -, hterm, hvd⟩
    · exact h.grant_unique j c d term hne hc hd
    · subst hji hterm
      exact Option.some.inj ((hheld c hc hne).symm.trans hvd)
    · exact Option.some.inj (hvc.symm.trans (hheld d hd hne))
    · exact Option.some.inj (hvc.symm.trans hvd)
  · intro j hj hne
    rw [hel] at hne
    by_cases hji : j = i
    · subst hji
      rw [hself] at hj hne ⊢
      rcases hmove.2 with ⟨-, -, hv⟩ | ⟨heq, hs | hs, hv⟩
      · rw [hv hj, hid]
      · rw [heq] at hne
        exact hmove.vote_kept heq hne (h.candidate j (hs ▸ hj) hne)
      · rw [hs] at hj
        cases hj
    · rw [hother hji] at hj hne ⊢
      exact h.candidate j hj hne
  · intro j term el hj
    by_cases hji : j = i
    · subst hji
      rw [hself] at hj
      exact hcount term el hj
    · rw [hother hji] at hj
      exact (h.counted j term el hj).mono hsent
  · intro j term hj
    rw [htrace] at hj
    obtain ⟨Q, hQ, hjQ, hlock⟩ := h.won j term hj
    refine ⟨Q, hQ, hjQ, fun v hv => ?_⟩
    obtain ⟨hl, hg⟩ := hlock v hv
    have hl' : Locked (t.nodes v) j term := by
      by_cases hvi : v = i
      · subst hvi
        rw [hself]
        exact hl.moves hmove
      · rwa [hother hvi]
    refine ⟨hl', fun d hd => ?_⟩
    rcases hgrant v d term hd with hd | ⟨rfl, -, rfl, hvd⟩
    · exact hg d hd
    · rw [hself] at hl'
      rcases hl' with hl' | ⟨-, hvj, -⟩
      · exact (lt_irrefl _ hl').elim
      · exact Option.some.inj (hvd.symm.trans hvj)

lemma ElectionInv.moveOnly {s : Cluster ι σ ρ} (h : ElectionInv s) {i : ι} {n : Node ι σ ρ}
    (hmove : Moves (s.Elected (s.nodes i).currentTerm) (s.nodes i) n) (hd : n.Durable)
    (hcount : ∀ term el, n.elections term = some el → s.Counted i term el) :
    ElectionInv (s.setNode i n) :=
  h.move rfl hmove hd (fun _ _ => Iff.rfl) (fun _ hm => hm) (fun _ _ _ hm => Or.inl hm)
    (fun _ _ _ hm => Or.inl hm) (fun _ _ _ hg => Or.inl hg) hcount

/-- A candidate with enough votes is the first to win its term. -/
lemma ElectionInv.first {s : Cluster ι σ ρ} (h : ElectionInv s) {i : ι} {G : Finset ι}
    (hc : (s.nodes i).state = .candidate) (hQ : Majority (insert i G))
    (hG : ∀ j ∈ G, s.Granted j i (s.nodes i).currentTerm) :
    ¬ s.Elected (s.nodes i).currentTerm := by
  rintro ⟨c, hel⟩
  obtain ⟨P, hP, hcP, hlock⟩ := h.won c _ hel
  obtain ⟨v, hvQ, hvP⟩ := hQ.meet hP
  have hnot : ∀ d, ¬ Locked (s.nodes i) d (s.nodes i).currentTerm := by
    rintro d (hl | ⟨-, -, hl⟩)
    · exact lt_irrefl _ hl
    · exact hl hc
  rcases Finset.mem_insert.mp hvQ with rfl | hvG
  · exact hnot c (hlock v hvP).1
  · have hci : i = c := (hlock v hvP).2 i (hG v hvG)
    subst hci
    exact hnot i (hlock i hcP).1

lemma ElectionInv.win {s : Cluster ι σ ρ} (h : ElectionInv s) {i : ι} {n : Node ι σ ρ} {term : ℕ}
    (hn : (s.nodes i).electionEnds term = some (n, true)) :
    ElectionInv ((s.setNode i n).observe (.elected i term)) := by
  have hdn : n.Durable := Node.electionEnds_durable (h.durable i) hn
  obtain ⟨el, hel, hc, rfl, hvotes, rfl⟩ := electionEnds_won hn
  obtain ⟨hask, hneed, G, hiG, hdis, hcard, hG⟩ := h.counted i _ el hel
  set term := (s.nodes i).currentTerm with hterm
  set n := (Node.setElection (s.nodes i) term { el with running := false }).becomeLeader with hndef
  have hQ : Majority (insert i G) := by
    rw [Majority, Finset.card_insert_of_notMem hiG]
    omega
  have hfirst : ¬ s.Elected term := h.first hc hQ hG
  have hvi : (s.nodes i).votedFor = some i := h.candidate i hc hfirst
  have hstate : n.state = .leader := rfl
  have hnt : n.currentTerm = term := rfl
  have hother : ∀ {j}, j ≠ i → Function.update s.nodes i n j = s.nodes j := fun hj => by simp [hj]
  have hterms : ∀ j, (Function.update s.nodes i n j).currentTerm = (s.nodes j).currentTerm := by
    intro j
    by_cases hj : j = i
    · subst hj
      rw [Function.update_self, hnt]
    · rw [hother hj]
  have hvotedFor : ∀ j, (Function.update s.nodes i n j).votedFor = (s.nodes j).votedFor := by
    intro j
    by_cases hj : j = i
    · subst hj
      rw [Function.update_self]
      rfl
    · rw [hother hj]
  have hcand : ∀ j, (Function.update s.nodes i n j).state = .candidate →
      j ≠ i ∧ (s.nodes j).state = .candidate := by
    intro j hj
    by_cases hji : j = i
    · subst hji
      rw [Function.update_self, hstate] at hj
      cases hj
    · rw [hother hji] at hj
      exact ⟨hji, hj⟩
  have hgrow : ∀ {u}, ¬ Elected ((s.setNode i n).observe (.elected i term)) u → ¬ s.Elected u :=
    fun hu hs => hu (hs.mono fun o ho => List.mem_append_left _ ho)
  refine ⟨?_, ?_, h.request, ?_, ?_, h.grant_ne, ?_, ?_, ?_, ?_, ?_, ?_, ?_⟩
  · intro j
    by_cases hj : j = i
    · subst hj
      change (Function.update s.nodes j n j).nodeId = j
      rw [Function.update_self]
      exact h.nodeId j
    · simpa [hj] using h.nodeId j
  · intro j
    by_cases hj : j = i
    · subst hj
      simpa using hdn
    · simpa [hj] using h.durable j
  · intro dst boot args hm
    exact (h.append dst boot args hm).mono fun o ho => List.mem_append_left _ ho
  · intro j hj
    change .elected j (Function.update s.nodes i n j).currentTerm ∈ s.trace ++ [_]
    rw [hterms]
    by_cases hji : j = i
    · subst hji
      simp [hterm]
    · have hj' : (s.nodes j).state = .leader := by simpa [hji] using hj
      exact List.mem_append_left _ (h.leader j hj')
  · intro j c u hg
    change u ≤ (Function.update s.nodes i n j).currentTerm
    rw [hterms]
    exact h.grant_term j c u hg
  · intro j c hg hne
    change s.Granted j c (Function.update s.nodes i n j).currentTerm at hg
    change ¬ Elected _ (Function.update s.nodes i n j).currentTerm at hne
    change (Function.update s.nodes i n j).votedFor = some c
    rw [hterms] at hg hne
    rw [hvotedFor]
    exact h.grant_vote j c hg (hgrow hne)
  · intro j c d u hne hc hd
    exact h.grant_unique j c d u (hgrow hne) hc hd
  · intro j hj hne
    change ¬ Elected _ (Function.update s.nodes i n j).currentTerm at hne
    change (Function.update s.nodes i n j).votedFor = some j
    rw [hterms] at hne
    rw [hvotedFor]
    exact h.candidate j (hcand j hj).2 (hgrow hne)
  · intro j u el' hj
    by_cases hji : j = i
    · subst hji
      simp only [observe_nodes, setNode_nodes, Function.update_self, hndef] at hj
      change Function.update (s.nodes j).elections term _ u = some el' at hj
      by_cases hu : u = term
      · subst hu
        rw [Function.update_self] at hj
        cases hj
        exact ⟨hask, hneed, G, hiG, hdis, hcard, hG⟩
      · rw [Function.update_of_ne hu] at hj
        exact h.counted j u el' hj
    · exact h.counted j u el' (by simpa [hji] using hj)
  · intro j u hj
    rcases List.mem_append.mp hj with hj | hj
    · obtain ⟨Q, hQ', hjQ, hlock⟩ := h.won j u hj
      refine ⟨Q, hQ', hjQ, fun v hv => ?_⟩
      obtain ⟨hl, hg⟩ := hlock v hv
      refine ⟨?_, hg⟩
      change Locked (Function.update s.nodes i n v) j u
      rcases hl with hl | ⟨hl, hvv, hs⟩
      · exact Or.inl (by rwa [hterms])
      · refine Or.inr ⟨by rwa [hterms], by rwa [hvotedFor], fun hcv => hs (hcand v hcv).2⟩
    · obtain ⟨rfl, rfl⟩ : j = i ∧ u = term := by simpa using hj
      refine ⟨insert j G, hQ, Finset.mem_insert_self j G, fun v hv => ?_⟩
      change Locked (Function.update s.nodes j n v) j term ∧ _
      have hvv : (s.nodes v).currentTerm = term → (s.nodes v).votedFor = some j := by
        intro hvt
        rcases Finset.mem_insert.mp hv with rfl | hvG
        · exact hvi
        · exact h.grant_vote v j (hvt ▸ hG v hvG) (hvt ▸ hfirst)
      refine ⟨?_, fun d hd => ?_⟩
      · rcases Finset.mem_insert.mp hv with rfl | hvG
        · exact Or.inr ⟨by rw [hterms], by rwa [hvotedFor], fun hcv => (hcand v hcv).1 rfl⟩
        · rcases Nat.lt_or_eq_of_le (h.grant_term v j term (hG v hvG)) with hlt | heq
          · exact Or.inl (by rwa [hterms])
          · refine Or.inr ⟨by rw [hterms, heq], ?_, fun hcv => ?_⟩
            · rw [hvotedFor]
              exact hvv heq.symm
            · -- a candidate of the term holds its own vote
              have hown := h.candidate v (hcand v hcv).2 (heq ▸ hfirst)
              rw [hvv heq.symm] at hown
              exact h.grant_ne v j term (hG v hvG) (Option.some.inj hown).symm
      · rcases Finset.mem_insert.mp hv with rfl | hvG
        · exact Option.some.inj ((h.grant_vote v d hd hfirst).symm.trans hvi)
        · exact h.grant_unique v d j term hfirst hd (hG v hvG)
  · intro j k u hj hk
    rcases List.mem_append.mp hj with hj | hj <;> rcases List.mem_append.mp hk with hk | hk
    · exact h.unique j k u hj hk
    · obtain ⟨rfl, rfl⟩ : k = i ∧ u = term := by simpa using hk
      exact (hfirst ⟨j, hj⟩).elim
    · obtain ⟨rfl, rfl⟩ : j = i ∧ u = term := by simpa using hj
      exact (hfirst ⟨k, hk⟩).elim
    · obtain ⟨rfl, rfl⟩ : j = i ∧ u = term := by simpa using hj
      have hkj : k = j := by simpa using hk
      exact hkj.symm

lemma ElectionInv.starts {s : Cluster ι σ ρ} (h : ElectionInv s) {i : ι} {n : Node ι σ ρ}
    (hn : (s.nodes i).startElection = some n) : ElectionInv (s.setNode i n) := by
  refine h.moveOnly (startElection_moves hn) (Node.startElection_durable (h.durable i) hn) ?_
  intro term el hel
  simp only [Node.startElection] at hn
  split_ifs at hn
  · cases hn
    exact h.counted i term el hel
  · cases hn
    change Function.update (s.nodes i).elections ((s.nodes i).currentTerm + 1) _ term = _ at hel
    by_cases ht : term = (s.nodes i).currentTerm + 1
    · subst ht
      rw [Function.update_self] at hel
      cases hel
      have hid : (s.nodes i).nodeId = i := h.nodeId i
      refine ⟨?_, majority_eq, ∅, by simp, by simp, by simp, by simp⟩
      simp [Node.peers, Node.persistHardState, hid]
    · rw [Function.update_of_ne ht] at hel
      exact h.counted i term el hel

/-- A reply is counted at most once: the thread that waits for it ends. -/
lemma ElectionInv.countVote {s : Cluster ι σ ρ} (h : ElectionInv s) {src : ι} {boot : ℕ}
    {args : RequestVoteArgs ι} {reply : RequestVoteReply} {n : Node ι σ ρ}
    (hm : .requestVoteReply src boot args reply ∈ s.sent)
    (hn : (s.nodes args.candidateId).handleRequestVoteReply src args.term reply = some n) :
    ElectionInv (s.setNode args.candidateId n) := by
  refine h.moveOnly (handleRequestVoteReply_moves hn)
    (Node.handleRequestVoteReply_durable (h.durable _) hn) ?_
  intro term el hel
  unfold Node.handleRequestVoteReply at hn
  split at hn
  · cases hn
  · rename_i el₀ hel₀
    obtain ⟨hown, hneed, G, hi, hdis, hv, hG⟩ := h.counted _ _ _ hel₀
    have hown' : args.candidateId ∉ el₀.asking.erase src :=
      fun hm => hown (Finset.mem_of_mem_erase hm)
    have herase : Disjoint G (el₀.asking.erase src) :=
      hdis.mono_right (Finset.erase_subset _ _)
    have hupdate : ∀ el₁ : Election ι, s.Counted args.candidateId args.term el₁ →
        Function.update (s.nodes args.candidateId).elections args.term (some el₁) term = some el →
        s.Counted args.candidateId term el := by
      intro el₁ hc hu
      by_cases ht : term = args.term
      · subst ht
        rw [Function.update_self] at hu
        cases hu
        exact hc
      · rw [Function.update_of_ne ht] at hu
        exact h.counted _ term el hu
    dsimp only at hn
    split_ifs at hn with hask hlt hgranted
    · cases hn
      refine hupdate _ ?_ hel
      exact ⟨hown', hneed, G, hi, herase, hv, hG⟩
    · cases hn
      have hg : s.Granted src args.candidateId args.term := ⟨boot, args, reply, hm, rfl, rfl, hgranted⟩
      have hsrc : src ∉ G := fun hs => Finset.disjoint_left.mp hdis hs hask
      refine hupdate _ ?_ hel
      refine ⟨hown', hneed, insert src G, ?_, ?_, ?_, ?_⟩
      · simpa [hi] using (h.grant_ne _ _ _ hg).symm
      · rw [Finset.disjoint_insert_left]
        exact ⟨Finset.notMem_erase src _, herase⟩
      · rw [Finset.card_insert_of_notMem hsrc]
        exact Nat.succ_le_succ hv
      · intro j hj
        rcases Finset.mem_insert.mp hj with rfl | hj
        · exact hg
        · exact hG j hj
    · cases hn
      refine hupdate _ ?_ hel
      exact ⟨hown', hneed, G, hi, herase, hv, hG⟩

lemma ElectionInv.loses {s : Cluster ι σ ρ} (h : ElectionInv s) {i : ι} {n : Node ι σ ρ} {term : ℕ}
    (hn : (s.nodes i).electionEnds term = some (n, false)) : ElectionInv (s.setNode i n) := by
  refine h.moveOnly (electionEnds_lost_moves hn) (Node.electionEnds_durable (h.durable i) hn) ?_
  intro u el hel
  obtain ⟨el₀, hel₀, hcase⟩ := electionEnds_lost hn
  have hu : Function.update (s.nodes i).elections term
      (some { el₀ with running := false }) u = some el := by
    rcases hcase with rfl | rfl <;> exact hel
  by_cases ht : u = term
  · subst ht
    rw [Function.update_self] at hu
    cases hu
    exact h.counted i u el₀ hel₀
  · rw [Function.update_of_ne ht] at hu
    exact h.counted i u el hu

lemma ElectionInv.vote {s : Cluster ι σ ρ} (h : ElectionInv s) {dst : ι} {boot : ℕ}
    {args : RequestVoteArgs ι} (hm : .requestVote dst boot args ∈ s.sent) :
    ElectionInv ((s.setNode dst ((s.nodes dst).handleRequestVote args).1).send
      (.requestVoteReply dst boot args ((s.nodes dst).handleRequestVote args).2)) := by
  have hsub : ∀ m, m ∈ s.sent → m ∈ s.sent ++
      [.requestVoteReply dst boot args ((s.nodes dst).handleRequestVote args).2] :=
    fun m hm => List.mem_append_left _ hm
  refine h.move rfl (handleRequestVote_moves args)
    (Node.handleRequestVote_durable (h.durable dst) args) (fun _ _ => Iff.rfl) hsub ?_ ?_ ?_ ?_
  · intro d b a ha
    exact Or.inl (by simpa using ha)
  · intro d b a ha
    exact Or.inl (by simpa using ha)
  · rintro j c term ⟨b, a, r, hr, hc, ht, hg⟩
    rcases List.mem_append.mp hr with hr | hr
    · exact Or.inl ⟨b, a, r, hr, hc, ht, hg⟩
    · obtain ⟨rfl, rfl, rfl, rfl⟩ : j = dst ∧ b = boot ∧ a = args ∧
          r = ((s.nodes dst).handleRequestVote args).2 := by simpa using hr
      obtain ⟨hv, hterm, -⟩ := handleRequestVote_granted hg
      exact Or.inr ⟨rfl, hc ▸ h.request _ _ _ hm, ht ▸ hterm.symm, hc ▸ hv⟩
  · intro term el hel
    rw [handleRequestVote_elections] at hel
    exact (h.counted dst term el hel).mono hsub

lemma ElectionInv.append_entries {s : Cluster ι σ ρ} (h : ElectionInv s) {dst : ι} {boot : ℕ}
    {args : AppendEntriesArgs ι} (hm : .appendEntries dst boot args ∈ s.sent) :
    ElectionInv ((s.setNode dst ((s.nodes dst).handleAppendEntries args).1).sendReply dst boot args
      ((s.nodes dst).handleAppendEntries args).2) := by
  have hmove : Moves (s.Elected (s.nodes dst).currentTerm) (s.nodes dst)
      ((s.nodes dst).handleAppendEntries args).1 :=
    handleAppendEntries_moves fun ht => ht ▸ h.append dst boot args hm
  have hd := Node.handleAppendEntries_durable (h.durable dst) args
  have hcount : ∀ term el, ((s.nodes dst).handleAppendEntries args).1.elections term = some el →
      s.Counted dst term el := by
    intro term el hel
    rw [handleAppendEntries_elections] at hel
    exact h.counted dst term el hel
  cases hr : ((s.nodes dst).handleAppendEntries args).2 with
  | none => exact h.moveOnly hmove hd hcount
  | some reply =>
    have hsub : ∀ m, m ∈ s.sent → m ∈ s.sent ++ [.appendEntriesReply dst boot args reply] :=
      fun m hm => List.mem_append_left _ hm
    refine h.move rfl hmove hd (fun _ _ => Iff.rfl) hsub ?_ ?_ ?_ ?_
    · intro d b a ha
      exact Or.inl (by simpa [sendReply] using ha)
    · intro d b a ha
      exact Or.inl (by simpa [sendReply] using ha)
    · rintro j c term ⟨b, a, r, hr, hh⟩
      exact Or.inl ⟨b, a, r, by simpa [sendReply] using hr, hh⟩
    · exact fun term el hel => (hcount term el hel).mono hsub

lemma ElectionInv.sends {s : Cluster ι σ ρ} (h : ElectionInv s) (i : ι) {m : Message ι}
    (hreq : ∀ dst boot args, m = .requestVote dst boot args → dst ≠ args.candidateId)
    (happ : ∀ dst boot args, m = .appendEntries dst boot args → s.Elected args.term)
    (hrep : ∀ i boot args reply, m ≠ .requestVoteReply i boot args reply) :
    ElectionInv (s.send m) := by
  have hsub : ∀ m', m' ∈ s.sent → m' ∈ s.sent ++ [m] := fun m' hm => List.mem_append_left _ hm
  refine h.move (i := i) (n := s.nodes i) (by simp) (.refl _)
    (h.durable _) (fun _ _ => Iff.rfl) hsub ?_ ?_ ?_ ?_
  · intro dst boot args ha
    rcases List.mem_append.mp ha with ha | ha
    · exact Or.inl ha
    · exact Or.inr (hreq dst boot args (List.mem_singleton.mp ha).symm)
  · intro dst boot args ha
    rcases List.mem_append.mp ha with ha | ha
    · exact Or.inl ha
    · exact Or.inr (happ dst boot args (List.mem_singleton.mp ha).symm)
  · rintro j c term ⟨b, a, r, hr, hh⟩
    rcases List.mem_append.mp hr with hr | hr
    · exact Or.inl ⟨b, a, r, hr, hh⟩
    · exact (hrep j b a r (List.mem_singleton.mp hr).symm).elim
  · exact fun term el hel => (h.counted _ term el hel).mono hsub

lemma ElectionInv.change {cfg : Config ι σ ρ} {s t : Cluster ι σ ρ} (h : ElectionInv s)
    {P : Message ι → Prop} (ht : Change cfg P s t) : ElectionInv t := by
  cases ht with
  | quiet i n obs hl =>
    have hcore := hl.core
    have hobs := hl.not_elected
    refine h.move rfl hcore.moves (hcore.durable (h.durable i)) ?_ (fun _ hm => hm)
      (fun _ _ _ hm => Or.inl hm) (fun _ _ _ hm => Or.inl hm) (fun _ _ _ hg => Or.inl hg) ?_
    · intro j term
      simp [hobs j term]
    · intro term el hel
      rw [hcore.elections] at hel
      exact h.counted i term el hel
  | startElection i n hn => exact h.starts hn
  | sendRequestVote i term peer args ha =>
    refine h.sends i ?_ nofun nofun
    rintro dst boot args' hm
    cases hm
    obtain ⟨el, hel, hask, rfl⟩ := requestVoteArgs_eq ha
    rw [h.nodeId i]
    rintro rfl
    exact (h.counted _ term el hel).1 hask
  | loses i term n hn => exact h.loses hn
  | wins i term n hn =>
    exact h.win hn
  | sendAppendEntries i peer args ha =>
    refine h.sends i nofun ?_ nofun
    rintro dst boot args' hm
    cases hm
    obtain ⟨hl, -, hterm, -⟩ := appendEntriesArgs_eq ha
    exact ⟨i, hterm ▸ h.leader i hl⟩
  | requestVote dst boot args hm => exact h.vote hm
  | requestVoteReply src boot args reply n hm hn => exact h.countVote hm hn
  | appendEntries dst boot args hm => exact h.append_entries hm
  | appendEntriesReply src boot args reply hm _ hb =>
    refine h.moveOnly (handleAppendEntriesReply_moves src args reply)
      (Node.handleAppendEntriesReply_durable (h.durable _)) fun term el hel => ?_
    rw [handleAppendEntriesReply_elections] at hel
    exact h.counted _ term el hel
  | voteCrash dst boot args hm =>
    have hd := Node.stepDownForVote_durable (h.durable dst) args.term
    exact h.moveOnly (restart_moves cfg (stepDownForVote_moves _) hd) (Node.restart_durable cfg) nofun
  | appendCrash dst boot args hm hle =>
    have hd := Node.stepDownForAppend_durable (h.durable dst) args.term
    exact h.moveOnly (restart_moves cfg (stepDownForAppend_moves hle fun ht =>
      ht ▸ h.append dst boot args hm) hd) (Node.restart_durable cfg) nofun
  | appendEntry i cmd n w hn =>
    refine h.moveOnly (appendEntry_moves hn) (Node.appendEntry_durable (h.durable i) hn)
      fun term el hel => ?_
    obtain ⟨-, -, -, -, -, he⟩ := appendEntry_eq hn
    rw [he] at hel
    exact h.counted i term el hel
  | crash i =>
    exact h.moveOnly (restart_moves cfg (.refl _) (h.durable i)) (Node.restart_durable cfg) nofun

lemma electionInv {cfg : Config ι σ ρ} {C : Cluster ι σ ρ → Event ι → Prop} {s : Cluster ι σ ρ}
    (h : Reachable cfg C s) : ElectionInv s :=
  Run.invariant (fun _ _ _ hi _ hs => hi.change (step_change_free hs)) h (init_electionInv cfg)

/-- At most one node becomes leader in a term, and at most one is leader of it at any moment. -/
theorem election_safety {cfg : Config ι σ ρ} {s : Cluster ι σ ρ} (h : Reachable cfg Free s) :
    (∀ i j term, .elected i term ∈ s.trace → .elected j term ∈ s.trace → i = j) ∧
    ∀ i j, (s.nodes i).state = .leader → (s.nodes j).state = .leader →
      (s.nodes i).currentTerm = (s.nodes j).currentTerm → i = j := by
  have hinv := electionInv h
  refine ⟨hinv.unique, fun i j hi hj hterm => ?_⟩
  exact hinv.unique i j _ (hinv.leader i hi) (hterm ▸ hinv.leader j hj)

/-- Node 1 is a candidate of term 1 when node 0 wins it, and loses its vote to node 0's first
request. -/
def erasedVote : List (Event (Fin 3)) :=
  [.timerFires 1, .startElection 1] ++ campaign 0 1 0 [2] ++ replicate 0 1 2

theorem election_safety_erased_vote : ∃ s, Reachable (stateless 3) Free s ∧
    .elected 0 1 ∈ s.trace ∧ (s.nodes 1).votedFor = none ∧ (s.nodes 1).currentTerm = 1 ∧
    ∀ j, .elected j 1 ∈ s.trace → j = 0 := by
  obtain ⟨s, hs, hel, hv, ht⟩ := Run.exists_of_execute (step (stateless 3)) (init (stateless 3)) erasedVote
    (fun s => .elected 0 1 ∈ s.trace ∧ (s.nodes 1).votedFor = none ∧ (s.nodes 1).currentTerm = 1)
    (by decide +kernel)
  exact ⟨s, hs, hel, hv, ht, fun j hj => (election_safety hs).1 j 0 1 hj hel⟩

end Cluster

end DistributedStorage.Raft
