import DistributedStorage.Raft.Replaying
import DistributedStorage.Raft.StateMachineSafety

/-! How append requests rebuild a log that a snapshot has put a placeholder in. The log of every leader
begins with an entry without effect, and that is the one the placeholder stands for. -/

set_option linter.unusedSectionVars false

namespace DistributedStorage.Raft

open Library.LeaderLogs Library.Runs

variable {ι σ ρ : Type} [DecidableEq ι]

def BeginsWithNoop (l : List Entry) : Prop := ∀ e, l[0]? = some e → e.opType = .noop

variable {l k : List Entry}

lemma BeginsWithNoop.of_isPrefix (h : BeginsWithNoop k) (hp : l <+: k) : BeginsWithNoop l :=
  fun e he => h e (getElem?_of_isPrefix hp he)

lemma BeginsWithNoop.concat (h : BeginsWithNoop l) (term index : ℕ) :
    BeginsWithNoop (l ++ [noopEntry term index]) := by
  intro e he
  cases l with
  | nil =>
    cases he
    rfl
  | cons x l => exact h e he

lemma HeadStands.append (h : HeadStands l k) (es : List Entry) : HeadStands (l ++ es) (k ++ es) := by
  cases h with
  | refl => exact .refl _
  | head p e l hterm hp he hpos => exact .head p e (l ++ es) hterm hp he hpos

/-- The loop of the append handler looks at terms only. -/
lemma HeadStands.inserts (h : HeadStands l k) (pos : ℕ) (es : List Entry) :
    HeadStands (Node.insertEntries l pos es) (Node.insertEntries k pos es) := by
  induction es generalizing l k pos with
  | nil => exact h
  | cons e es ih =>
    have hterms := h.terms pos
    cases hl : l[pos]? with
    | none =>
      rw [hl, Option.map_none, eq_comm, Option.map_eq_none_iff] at hterms
      simp only [Node.insertEntries, hl, hterms]
      exact ih (h.append [e]) (pos + 1)
    | some old =>
      rw [hl, Option.map_some, eq_comm, Option.map_eq_some_iff] at hterms
      obtain ⟨old', hk, hterm⟩ := hterms
      simp only [Node.insertEntries, hl, hk, hterm]
      split_ifs
      · exact ih ((h.take pos).append [e]) (pos + 1)
      · exact ih h (pos + 1)

variable {n m : Node ι σ ρ}

lemma HeadStands.length_le_lastLogIndex (h : HeadStands n.log k) (hal : Aligned k) :
    n.log.length ≤ n.lastLogIndex := by
  rw [Node.lastLogIndex]
  generalize n.log = l at h ⊢
  cases h with
  | refl => exact hal.lastIndex.ge
  | head p e l hterm hp he hpos =>
    cases l with
    | nil => exact hpos
    | cons x l =>
      have hlast := hal.lastIndex
      rw [List.getLast?_cons_cons] at hlast ⊢
      exact hlast.ge

variable [Fintype ι]

namespace Cluster

variable {cfg : Config ι σ ρ} {P : Message ι → Prop} {s t : Cluster ι σ ρ} {a b : State ι Entry} {u : ℕ}

lemma Change.elected (h : Change cfg P s t) (hu : t.Elected u) : s.Elected u ∨
    ∃ i n, (s.nodes i).electionEnds u = some (n, true) ∧ t = (s.setNode i n).observe (.elected i u) := by
  obtain ⟨j, hj⟩ := hu
  cases h with
  | quiet i n obs hl =>
    rcases List.mem_append.mp hj with hj | hj
    · exact Or.inl ⟨j, hj⟩
    · exact (hl.not_elected j u hj).elim
  | wins i term n hn =>
    rcases List.mem_append.mp hj with hj | hj
    · exact Or.inl ⟨j, hj⟩
    · cases List.mem_singleton.mp hj
      exact Or.inr ⟨_, n, hn, rfl⟩
  | appendEntries dst boot args hm =>
    cases hr : ((s.nodes dst).handleAppendEntries args).2 with
    | none =>
      rw [hr] at hj
      exact Or.inl ⟨j, hj⟩
    | some reply =>
      rw [hr] at hj
      exact Or.inl ⟨j, hj⟩
  | startElection i n hn => exact Or.inl ⟨j, hj⟩
  | sendRequestVote i term peer args hm => exact Or.inl ⟨j, hj⟩
  | loses i term n hn => exact Or.inl ⟨j, hj⟩
  | sendAppendEntries i peer args hm => exact Or.inl ⟨j, hj⟩
  | requestVote dst boot args hm => exact Or.inl ⟨j, hj⟩
  | requestVoteReply src boot args reply n hm hn => exact Or.inl ⟨j, hj⟩
  | appendEntriesReply src boot args reply hm hp hb => exact Or.inl ⟨j, hj⟩
  | voteCrash dst boot args hm => exact Or.inl ⟨j, hj⟩
  | appendCrash dst boot args hm hle => exact Or.inl ⟨j, hj⟩
  | appendEntry i cmd n w hn => exact Or.inl ⟨j, hj⟩
  | crash i => exact Or.inl ⟨j, hj⟩

def LeadersBegin (a : State ι Entry) : Prop := ∀ u, BeginsWithNoop (a.leaderLog u)

lemma LeadersBegin.rooted (h : LeadersBegin a) (hl : Rooted Entry.term a l) : BeginsWithNoop l :=
  (h _).of_isPrefix hl.whole

lemma LeadersBegin.change (h : LeadersBegin a) (hg : Grows a b) (hs : Tracks s a) (ht : Tracks t b)
    (hc : Change cfg P s t) : LeadersBegin b := by
  intro u e he
  cases hu : a.leaderLog u with
  | cons x r =>
    obtain ⟨r', hr'⟩ := hg.leaderLog u
    rw [hu] at hr'
    rw [← hr'] at he
    cases he
    exact h u e (by rw [hu]; rfl)
  | nil =>
    -- the term is new, so its leader has just been elected
    have hne : b.leaderLog u ≠ [] := by
      intro hnil
      rw [hnil] at he
      cases he
    rcases hc.elected ((ht.refines.elected u).mp hne) with hold | ⟨i, n, hn, rfl⟩
    · exact ((hs.refines.elected u).mpr hold hu).elim
    · obtain ⟨el, -, -, hterm, -, rfl⟩ := electionEnds_won hn
      have hlead := (ht.refines.leader i (by rw [observe_nodes, setNode_nodes, Function.update_self]; rfl)).1
      rw [observe_nodes, setNode_nodes, Function.update_self] at hlead
      have hroot : BeginsWithNoop (s.nodes i).log := by
        rw [← hs.refines.log i]
        exact h.rooted (hs.inv.rooted_log i)
      have hlog : b.leaderLog u = (s.nodes i).log ++
          [noopEntry (s.nodes i).currentTerm ((s.nodes i).lastLogIndex + 1)] := by
        rw [← hterm]
        exact hlead
      rw [hlog] at he
      exact hroot.concat _ _ e he

end Cluster

/-- Of the log: it is one that a leader had, up to a placeholder at its head, and agrees with the chosen list
`p`; or it is a placeholder, and everything committed is applied. -/
inductive Rebuilds (a : State ι Entry) (p : List Entry) (n : Node ι σ ρ) : Prop
  | follows (L : List Entry) : Rooted Entry.term a L → HeadStands n.log L → (p <+: L ∨ L <+: p) →
      (n.commitIndex ≤ n.lastApplied ∨ n.commitIndex ≤ L.length) → Rebuilds a p n
  | placeholder (e : Entry) : n.log = [e] → e.opType = .noop → 0 < e.index →
      n.commitIndex ≤ n.lastApplied → Rebuilds a p n

/-- What the node has committed or applied is the chosen list `p`. -/
structure Rebuilding (a : State ι Entry) (p : List Entry) (n : Node ι σ ρ) : Prop where
  chosen : Chosen Entry.term a n.currentTerm p
  length : p.length = max n.commitIndex n.lastApplied
  log : Rebuilds a p n
  durable : n.Durable

variable {a b : State ι Entry} {p q : List Entry}

lemma start_rebuilding (cfg : Config ι σ ρ) (i : ι) :
    Rebuilding a [] (Node.start cfg i 0 none none) where
  chosen := Or.inl rfl
  length := rfl
  log := .follows [] .nil (.refl _) (Or.inl List.prefix_rfl) (Or.inl le_rfl)
  durable := Node.start_durable ..

lemma Rebuilding.grow (h : Rebuilding a p n) (hg : Grows a b) : Rebuilding b p n := by
  refine ⟨h.chosen.grow hg, h.length, ?_, h.durable⟩
  cases h.log with
  | follows L hL hlog hp hc => exact .follows L (hL.grow hg.leaderLog) hlog hp hc
  | placeholder e hlog he hpos hc => exact .placeholder e hlog he hpos hc

lemma Rebuilding.stays (h : Rebuilding a p n) (hterm : n.currentTerm ≤ m.currentTerm)
    (hlog : m.log = n.log) (hci : m.commitIndex = n.commitIndex)
    (hla : m.lastApplied = n.lastApplied ∨ (n.lastApplied ≤ n.commitIndex ∧ m.lastApplied = n.commitIndex))
    (hd : m.Durable) : Rebuilding a p m := by
  have hmax : max m.commitIndex m.lastApplied = max n.commitIndex n.lastApplied := by omega
  have hle : n.commitIndex ≤ n.lastApplied → m.commitIndex ≤ m.lastApplied := by omega
  refine ⟨h.chosen.mono hterm, by rw [hmax, h.length], ?_, hd⟩
  cases h.log with
  | follows L hL hs hp hc =>
    refine .follows L hL (hlog ▸ hs) hp ?_
    rw [hci] at hle ⊢
    exact hc.imp_left hle
  | placeholder e hs he hpos hc => exact .placeholder e (hlog.trans hs) he hpos (hle hc)

lemma Rebuilding.restart (h : Rebuilding a p n) (cfg : Config ι σ ρ) : Rebuilding a [] (n.restart cfg) where
  chosen := Or.inl rfl
  length := rfl
  log := by
    have hlog := h.durable.restart_log cfg
    cases h.log with
    | follows L hL hs hp hc =>
      refine .follows L hL ?_ (Or.inl List.nil_prefix) (Or.inl le_rfl)
      rw [hlog]
      exact hs
    | placeholder e hs he hpos hc => exact .placeholder e (hlog.trans hs) he hpos le_rfl
  durable := Node.restart_durable cfg

lemma Rebuilding.hasCommitted (h : Rebuilding a p n) (hlt : n.lastApplied < n.commitIndex) :
    HasCommitted p n := by
  have hlen := h.length
  refine ⟨by omega, ?_⟩
  cases h.log with
  | placeholder e hs he hpos hc => omega
  | follows L hL hs hp hc =>
    have hin : n.commitIndex ≤ L.length := hc.resolve_left (by omega)
    refine ⟨L, hs, ?_⟩
    rcases hp with hp | hp
    · exact (List.take_prefix _ _).trans hp
    · have hsame : p.take n.commitIndex = L.take n.commitIndex := take_eq_of_isPrefix hp hin
      rw [hsame]
      exact List.take_prefix _ _

lemma Rebuilding.length_le_lastLogIndex (h : Rebuilding a p n) (hal : ∀ u, Aligned (a.leaderLog u)) :
    n.log.length ≤ n.lastLogIndex := by
  cases h.log with
  | follows L hL hs hp hc =>
    exact hs.length_le_lastLogIndex ((hal _).of_isPrefix hL.whole)
  | placeholder e hs he hpos hc =>
    rw [Node.lastLogIndex, hs]
    exact hpos

lemma Rebuilding.ends (h : Rebuilding a p n) (hinv : Inv Entry.term a) (hal : ∀ u, Aligned (a.leaderLog u))
    (hq : Chosen Entry.term a n.currentTerm q) (hla : n.lastApplied ≤ q.length)
    (hcov : q.length = 0 ∨ n.lastLogIndex ≤ q.length) (lt : ℕ) :
    ∃ r, p <+: r ∧ q <+: r ∧ Rebuilding a r (n.snapshotEnds q.length lt) := by
  have hd := Node.snapshotEnds_durable h.durable q.length lt
  rcases hcov with hnil | hcov
  · have hqnil : q = [] := List.length_eq_zero_iff.mp hnil
    subst hqnil
    refine ⟨p, List.prefix_rfl, List.nil_prefix, h.stays le_rfl (snapshotEnds_log.mpr rfl)
      (Nat.max_zero _) (Or.inl (Nat.max_zero _)) hd⟩
  have hle : n.commitIndex ≤ q.length := by
    have hlog := h.length_le_lastLogIndex hal
    cases h.log with
    | follows L hL hs hp hc =>
      rw [hs.length_eq] at hlog
      omega
    | placeholder e hs he hpos hc => omega
  -- the snapshot is the longer list
  have hpq : p <+: q := by
    have hlen := h.length
    rcases hinv.chosen_comparable h.chosen hq with hpq | hqp
    · exact hpq
    · exact (hqp.eq_of_length_le (by omega)).symm ▸ List.prefix_rfl
  refine ⟨q, hpq, List.prefix_rfl, hq, ?_, ?_, hd⟩
  · change q.length = max (max n.commitIndex q.length) (max n.lastApplied q.length)
    omega
  · have hlog : (n.snapshotEnds q.length lt).log =
        if q.length ≤ n.lastLogIndex then n.log.drop q.length else [noopEntry lt q.length] := rfl
    have hcommit : (n.snapshotEnds q.length lt).commitIndex ≤ (n.snapshotEnds q.length lt).lastApplied := by
      change max n.commitIndex q.length ≤ max n.lastApplied q.length
      omega
    split_ifs at hlog with hall
    · have hnil : (n.snapshotEnds q.length lt).log = [] := by
        have hlast := h.length_le_lastLogIndex hal
        rw [hlog, List.drop_eq_nil_of_le (by omega)]
      exact .follows [] .nil (hnil ▸ .refl _) (Or.inr List.nil_prefix) (Or.inl hcommit)
    · exact .placeholder _ hlog rfl (by change 0 < q.length; omega) hcommit

lemma stepDownForAppend_process (n : Node ι σ ρ) (term : ℕ) :
    SameApplier n (n.stepDownForAppend term) ∧ (n.stepDownForAppend term).boot = n.boot := by
  simp only [Node.stepDownForAppend]
  split_ifs
  · exact ⟨⟨rfl, rfl, rfl, rfl⟩, rfl⟩
  · exact ⟨⟨rfl, rfl, rfl, rfl⟩, rfl⟩
  · exact ⟨⟨rfl, rfl, rfl, rfl⟩, rfl⟩

lemma handleAppendEntries_process (n : Node ι σ ρ) (args : AppendEntriesArgs ι) :
    SameApplier n (n.handleAppendEntries args).1 ∧ (n.handleAppendEntries args).1.boot = n.boot := by
  obtain ⟨⟨hla, hta, har, hsm⟩, hboot⟩ := stepDownForAppend_process n args.term
  simp only [Node.handleAppendEntries]
  split_ifs
  · exact ⟨⟨rfl, rfl, rfl, rfl⟩, rfl⟩
  split
  · exact ⟨⟨hla, hta, har, hsm⟩, hboot⟩
  · exact ⟨⟨hla, hta, har, hsm⟩, hboot⟩
  · obtain ⟨l, lf, ci, he⟩ := stored_eq (n := Node.resetElectionTimer
      { n.stepDownForAppend args.term with leaderId := some args.leaderId })
      args.prevLogIndex args.leaderCommit args.entries
    rw [he]
    exact ⟨⟨hla, hta, har, hsm⟩, hboot⟩

variable {view L : List Entry} {args : AppendEntriesArgs ι}

lemma HeadStands.accepts [Decidable (view <+: L)] (h : HeadStands l L) (hL : Rooted Entry.term a L)
    (hv : Rooted Entry.term a view) (hs : Slice view args) (hprev : args.prevLogIndex = 0 ∨
      (l[args.prevLogIndex - 1]?.map Entry.term) = some args.prevLogTerm) :
    HeadStands (Node.insertEntries l args.prevLogIndex args.entries) (accepted L view) := by
  rw [h.terms] at hprev
  rw [← hs.inserts (rooted_matching hL hv) hprev]
  exact h.inserts _ _

lemma placeholder_replaced {e v : Entry} {vs : List Entry} (hs : Slice (v :: vs) args)
    (hprev : args.prevLogIndex = 0 ∨
      ([e][args.prevLogIndex - 1]?.map Entry.term) = some args.prevLogTerm) (hne : e.term ≠ v.term) :
    Node.insertEntries [e] args.prevLogIndex args.entries = v :: vs := by
  obtain ⟨-, hes, hterm⟩ := hs
  have hzero : args.prevLogIndex = 0 := by
    by_contra hpos
    have hhead := hprev.resolve_left hpos
    have hview := hterm.resolve_left hpos
    cases hk : args.prevLogIndex - 1 with
    | zero =>
      rw [hk] at hhead hview
      exact hne (Option.some.inj (hhead.trans hview.symm))
    | succ k =>
      rw [hk] at hhead
      cases hhead
  rw [hes, hzero, List.drop_zero]
  simp only [Node.insertEntries, List.getElem?_cons_zero, hne, ne_eq, not_false_eq_true, if_true,
    List.take_zero, List.nil_append]
  exact insertEntries_end [v] vs

lemma Rebuilding.stores (h : Rebuilding a p n) (hbegin : Cluster.LeadersBegin a)
    (hv : Rooted Entry.term a view) (hs : Slice view args) (hne : view ≠ [])
    (hprev : args.prevLogIndex = 0 ∨
      (n.log[args.prevLogIndex - 1]?.map Entry.term) = some args.prevLogTerm)
    (hpv : p <+: view ∨ view <+: p) :
    ∃ L, Rooted Entry.term a L ∧ HeadStands (Node.insertEntries n.log args.prevLogIndex args.entries) L ∧
      view <+: L ∧ (p <+: L ∨ L <+: p) ∧
      (n.commitIndex ≤ n.lastApplied ∨ n.commitIndex ≤ L.length) := by
  classical
  cases h.log with
  | follows L hL hlog hp hc =>
    refine ⟨accepted L view, ?_, hlog.accepts hL hv hs hprev, prefix_accepted _ _, ?_⟩
    · rcases accepted_eq L view with he | he <;> rw [he]
      · exact hL
      · exact hv
    · unfold accepted
      split_ifs with hin
      · exact ⟨hp, hc⟩
      · refine ⟨hpv, hc.imp_right fun hle => ?_⟩
        by_contra hlt
        -- the batch cuts off only what was never committed
        have hlen := h.length
        have hvp : view <+: p := by
          rcases hpv with hpv | hvp
          · have := hpv.length_le
            omega
          · exact hvp
        rcases hp with hp | hp
        · exact hin (hvp.trans hp)
        · exact hin (List.prefix_of_prefix_length_le hvp hp (by omega))
  | placeholder e hlog he hpos hc =>
    rw [hlog] at hprev ⊢
    obtain ⟨v, vs, rfl⟩ := List.exists_cons_of_ne_nil hne
    by_cases hterm : e.term = v.term
    · have hv₁ : Rooted Entry.term a [v] := hv.of_isPrefix ⟨vs, rfl⟩
      have hstands : HeadStands [e] [v] := .head e v [] hterm he (hbegin.rooted hv v rfl) hpos
      have haccepts := hstands.accepts hv₁ hv hs hprev
      have hall : accepted [v] (v :: vs) = v :: vs := by
        unfold accepted
        split_ifs with hin
        · exact (List.IsPrefix.eq_of_length_le ⟨vs, rfl⟩ hin.length_le)
        · rfl
      rw [hall] at haccepts
      exact ⟨_, hv, haccepts, List.prefix_rfl, hpv, Or.inl hc⟩
    · rw [placeholder_replaced hs hprev hterm]
      exact ⟨_, hv, .refl _, List.prefix_rfl, hpv, Or.inl hc⟩

/-- The commit index rises to the length of `q`; the longer list covers what is committed and applied. -/
lemma raised_rebuilding {old : ℕ} (hp : Chosen Entry.term a m.currentTerm p)
    (hq : Chosen Entry.term a m.currentTerm q) (hpq : p <+: q ∨ q <+: p)
    (hlen : p.length = max old m.lastApplied) (hlt : old < q.length) (hci : m.commitIndex = q.length)
    (hL : Rooted Entry.term a L) (hs : HeadStands m.log L) (hpL : p <+: L ∨ L <+: p) (hqL : q <+: L)
    (hd : m.Durable) : ∃ r, p <+: r ∧ Rebuilding a r m := by
  rcases hpq with hpq | hqp
  · have hshort := hpq.length_le
    refine ⟨q, hpq, hq, by omega, .follows L hL hs (Or.inl hqL) (Or.inr ?_), hd⟩
    rw [hci]
    exact hqL.length_le
  · have hshort := hqp.length_le
    exact ⟨p, List.prefix_rfl, hp, by omega, .follows L hL hs hpL (Or.inl (by omega)), hd⟩

lemma Rebuilding.append (h : Rebuilding a p n) (hinv : Inv Entry.term a)
    (hbegin : Cluster.LeadersBegin a) (hal : ∀ u, Aligned (a.leaderLog u))
    (hne : a.leaderLog args.term ≠ []) (hview : view <+: a.leaderLog args.term) (hs : Slice view args)
    (hq : Chosen Entry.term a args.term q) (hcommit : q.length = args.leaderCommit)
    (hin : q.length ≤ view.length) :
    ∃ r, p <+: r ∧ Rebuilding a r (n.handleAppendEntries args).1 := by
  have hd := Node.handleAppendEntries_durable h.durable args
  have hla := (handleAppendEntries_process n args).1.lastApplied
  have happ := handleAppendEntries_appended n args
  generalize (n.handleAppendEntries args).2 = reply at happ
  generalize (n.handleAppendEntries args).1 = m at happ hd hla
  cases happ with
  | stale r hlt hr => exact ⟨p, List.prefix_rfl, h⟩
  | rejected _ _ hle hterm hlog hci hr =>
    exact ⟨p, List.prefix_rfl, h.stays (hle.trans hterm.ge) hlog hci (Or.inl hla) hd⟩
  | stored _ r hle hterm hprev hlog hci hr =>
    have hpl : p <+: a.leaderLog args.term := hinv.chosen_in_leader h.chosen hle hne
    have hql : q <+: a.leaderLog args.term := hinv.chosen_in_leader hq le_rfl hne
    by_cases hnil : view = []
    · -- an empty batch with nothing committed
      subst hnil
      have hes := hs.2.1
      rw [List.drop_nil] at hes
      rw [hes, Node.insertEntries] at hlog
      rw [List.length_nil] at hin
      refine ⟨p, List.prefix_rfl, h.stays (hle.trans hterm.ge) hlog ?_ (Or.inl hla) hd⟩
      rcases hci with hci | ⟨hlt, -⟩
      · exact hci
      · omega
    · have hv : Rooted Entry.term a view := (hinv.rooted_leader args.term).of_isPrefix hview
      obtain ⟨L, hL, hstands, hvL, hpL, hc⟩ := h.stores hbegin hv hs hnil (hprev.imp_right And.right)
        (List.prefix_or_prefix_of_prefix hpl hview)
      rw [← hlog] at hstands
      have hlen := h.length
      have hvlen := hvL.length_le
      have hlast := hstands.length_le_lastLogIndex ((hal _).of_isPrefix hL.whole)
      rw [hstands.length_eq] at hlast
      rcases hci with hci | ⟨hlt, hci⟩
      · refine ⟨p, List.prefix_rfl, h.chosen.mono (hle.trans hterm.ge), by rw [hci, hla, hlen],
          .follows L hL hstands hpL ?_, hd⟩
        rw [hci, hla]
        exact hc
      · have hciq : m.commitIndex = q.length := by omega
        have hqL : q <+: L := (List.prefix_of_prefix_length_le hql hview hin).trans hvL
        exact raised_rebuilding (h.chosen.mono (hle.trans hterm.ge)) (hterm ▸ hq)
          (List.prefix_or_prefix_of_prefix hpl hql) (by rw [hla, hlen]) (by omega) hciq hL hstands hpL hqL hd

end DistributedStorage.Raft
