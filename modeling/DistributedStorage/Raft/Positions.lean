import DistributedStorage.Raft.Bookkeeping
import DistributedStorage.Raft.Snapshots

/-! Log positions beside snapshots. Entry `i` of a log is at position `i - 1` until a snapshot that covers
something ends. -/

set_option linter.unusedSectionVars false

namespace DistributedStorage.Raft

open Library.LeaderLogs Library.Runs

variable {ι σ ρ : Type} [DecidableEq ι]

/-- Every entry is where its index says, and what is committed is in the log. -/
structure Positioned (n : Node ι σ ρ) : Prop where
  aligned : Aligned n.log
  committed : n.commitIndex ≤ n.log.length

variable {n m : Node ι σ ρ}

lemma Positioned.entry (h : Positioned n) {k : ℕ} {e : Entry} (hpos : 0 < k)
    (he : n.log[k - 1]? = some e) : e.index = k := by
  have hidx := h.aligned _ _ he
  omega

lemma aligned_drop {l : List Entry} (h : Aligned l) {k : ℕ} (hk : Aligned (l.drop k)) :
    k = 0 ∨ l.length ≤ k := by
  by_contra hne
  have hlt : k < l.length := by omega
  have hold := h k _ (List.getElem?_eq_getElem hlt)
  have hnew := hk 0 l[k] (by rw [List.getElem?_drop, Nat.add_zero, List.getElem?_eq_getElem hlt])
  omega

lemma snapshotEnds_positioned_iff (h : Positioned n) {li lt : ℕ} :
    Positioned (n.snapshotEnds li lt) ↔ li = 0 ∨ (li = 1 ∧ n.log = []) := by
  have hlast := h.aligned.lastLogIndex
  constructor
  · rintro ⟨haligned, hcommitted⟩
    change Aligned (if li ≤ n.lastLogIndex then n.log.drop li else [noopEntry lt li]) at haligned
    change max n.commitIndex li ≤
      (if li ≤ n.lastLogIndex then n.log.drop li else [noopEntry lt li]).length at hcommitted
    split_ifs at haligned hcommitted with hle
    · rw [List.length_drop] at hcommitted
      rcases aligned_drop h.aligned haligned with hli | hall
      · exact Or.inl hli
      · omega
    · have hidx : li = 1 := haligned 0 _ rfl
      exact Or.inr ⟨hidx, List.length_eq_zero_iff.mp (by omega)⟩
  · rintro (rfl | ⟨rfl, hnil⟩)
    · refine ⟨?_, ?_⟩
      · rw [snapshotEnds_log.mpr rfl]
        exact h.aligned
      · rw [snapshotEnds_log.mpr rfl]
        change max n.commitIndex 0 ≤ _
        rw [Nat.max_zero]
        exact h.committed
    · have hlog : (n.snapshotEnds 1 lt).log = [noopEntry lt 1] := by
        change (if 1 ≤ n.lastLogIndex then n.log.drop 1 else [noopEntry lt 1]) = _
        rw [if_neg (by rw [hlast, hnil]; decide)]
      refine ⟨?_, ?_⟩
      · rw [hlog]
        exact Aligned.concat (l := []) nofun rfl
      · have hci := h.committed
        rw [hnil, List.length_nil] at hci
        change max n.commitIndex 1 ≤ (n.snapshotEnds 1 lt).log.length
        rw [hlog, List.length_singleton]
        omega

lemma Positioned.takes (h : Positioned n) (hm : n.applierTakes = some m) {k : ℕ} {e : Entry}
    (hx : (k, e) ∈ m.toApply) : e.index = k ∧ n.lastApplied < k ∧ k ≤ n.commitIndex := by
  obtain ⟨-, hlt, rfl⟩ := applierTakes_eq hm
  obtain ⟨hlow, hhigh, he⟩ := mem_taken hx
  exact ⟨h.entry (by omega) he, hlow, by omega⟩

/-- A section that leaves the log, the commit index, the applier and the leader's bookkeeping alone. -/
structure Spares (n m : Node ι σ ρ) : Prop where
  settles : Settles n m
  steady : Steady n m
  nextIndex : m.nextIndex = n.nextIndex
  boot : m.boot = n.boot
  lastApplied : m.lastApplied = n.lastApplied
  toApply : m.toApply = n.toApply
  applyResult : m.applyResult = n.applyResult

lemma snapshotBegins_spares (n : Node ι σ ρ) (term : ℕ) (leaderId : ι) :
    Spares n (n.snapshotBegins term leaderId) := by
  have hset : Settles n (n.stepDownForVote term) := stepDownForVote_settles term
  change Spares n { n.stepDownForVote term with leaderId := some leaderId, timerArmed := true }
  rcases stepDownForVote_eq (n := n) term with he | ⟨-, he⟩
  · rw [he] at hset ⊢
    exact ⟨⟨hset.log, hset.term, hset.role, hset.elections⟩, ⟨fun hl => ⟨hl, rfl, rfl⟩, Or.inl rfl⟩,
      rfl, rfl, rfl, rfl, rfl⟩
  · rw [he] at hset ⊢
    exact ⟨⟨hset.log, hset.term, hset.role, hset.elections⟩, ⟨nofun, Or.inl rfl⟩,
      rfl, rfl, rfl, rfl, rfl⟩

lemma snapshotApplies_spares (applyFn : σ → Bytes → σ × Bool) (n : Node ι σ ρ) (data : Bytes) :
    Spares n (n.snapshotApplies applyFn data) :=
  ⟨.of_elections rfl le_rfl (Or.inr ⟨rfl, rfl⟩) rfl, ⟨fun hl => ⟨hl, rfl, rfl⟩, Or.inl rfl⟩,
    rfl, rfl, rfl, rfl, rfl⟩

lemma snapshotEnds_spares (n : Node ι σ ρ) (lt : ℕ) : Spares n (n.snapshotEnds 0 lt) :=
  ⟨.of_elections (snapshotEnds_log.mpr rfl) le_rfl (Or.inr ⟨rfl, rfl⟩) rfl,
    ⟨fun hl => ⟨hl, rfl, rfl⟩, Or.inl (Nat.max_zero _)⟩, rfl, rfl, Nat.max_zero _, rfl, rfl⟩

variable [Fintype ι]

namespace Cluster

variable {cfg : Config ι σ ρ} {s t : Cluster ι σ ρ} {a b : State ι Entry}

/-- What is known of a run apart from its state machines and callers. -/
structure Standing (s : Cluster ι σ ρ) (a : State ι Entry) : Prop where
  tracks : Tracks s a
  commits : Commits s a
  bounded : Bounded s
  boots : ∀ i boot, (s.nodes i).boot < boot → records s.trace i boot = []
  idle : ∀ i, (s.nodes i).toApply = [] → (s.nodes i).applyResult = none
  prefixes : Prefixes s a

lemma init_standing (cfg : Config ι σ ρ) : Standing (init cfg) (State.init ι Entry) where
  tracks := init_tracks cfg
  commits := init_commits cfg
  bounded := init_bounded cfg
  boots _ _ _ := rfl
  idle _ _ := rfl
  prefixes := init_prefixes cfg

lemma Standing.step {e : Event ι} (h : Standing s a) (hq : AtDelivery Current s e)
    (he : Cluster.step cfg s e = some t) :
    ∃ b, Relation.ReflTransGen (Step Entry.term) a b ∧ Standing t b := by
  obtain ⟨b, hab, hb⟩ := h.tracks.step he
  have hg := run_grows hab
  have htimely : AtDelivery Timely s e := by
    cases e with
    | deliver k => exact fun m hm => (hq m hm).timely
    | _ => trivial
  obtain ⟨i, hi⟩ := (step_change_free he).service.applier h.boots
  refine ⟨b, hab, hb, h.commits.change hg h.tracks hb (step_change he htimely),
    h.bounded.change hg h.tracks hb (step_change he hq), hi.boots h.boots, fun j => ?_,
    h.prefixes.service hg h.tracks h.commits (h.idle i) hi⟩
  by_cases hj : j = i
  · rw [hj]
    exact hi.moves.idle (h.idle i)
  · rw [hi.others j hj]
    exact h.idle j

lemma Standing.spares (h : Standing s a) {i : ι} {n : Node ι σ ρ} (hn : Spares (s.nodes i) n)
    (hel : ElectionInv (s.setNode i n)) :
    ∃ b, Relation.ReflTransGen (Step Entry.term) a b ∧ Standing (s.setNode i n) b := by
  obtain ⟨hab, hb⟩ := h.tracks.refines.settle hn.settles
  have hg := run_grows hab
  have hcases (j : ι) : (s.setNode i n).nodes j = s.nodes j ∨
      (j = i ∧ (s.setNode i n).nodes j = n) := by
    by_cases hj : j = i
    · exact Or.inr ⟨hj, by rw [hj, setNode_nodes, Function.update_self]⟩
    · exact Or.inl (by rw [setNode_nodes, Function.update_of_ne hj])
  refine ⟨_, hab, ⟨hel, run_inv h.tracks.inv hab, hb⟩, h.commits.stay hg rfl (fun _ _ _ hm => hm)
    hn.steady, ⟨h.bounded.hints, fun j hl p => ?_⟩, fun j boot hlt => ?_, fun j => ?_,
    fun j => ?_, fun j boot => ?_⟩
  · rcases hcases j with hj | ⟨rfl, hj⟩ <;> rw [hj] at hl ⊢
    · exact h.bounded.next j hl p
    · rw [hn.nextIndex, hn.settles.log]
      exact h.bounded.next j (hn.steady.matchIndex hl).1 p
  · rcases hcases j with hj | ⟨rfl, hj⟩ <;> rw [hj] at hlt
    · exact h.boots j boot hlt
    · exact h.boots j boot (hn.boot ▸ hlt)
  · rcases hcases j with hj | ⟨rfl, hj⟩ <;> rw [hj]
    · exact h.idle j
    · rw [hn.toApply, hn.applyResult]
      exact h.idle j
  · obtain ⟨p, hp, hlen, hall⟩ := h.prefixes.current j
    refine ⟨p, hp.grow hg, ?_⟩
    rcases hcases j with hj | ⟨rfl, hj⟩ <;> rw [hj]
    · exact ⟨hlen, hall⟩
    · refine ⟨hlen.trans hn.lastApplied.symm, ?_⟩
      rw [Node.unapplied, hn.applyResult, hn.toApply, hn.boot]
      exact hall
  · obtain ⟨p, hp, hall⟩ := h.prefixes.past j boot
    exact ⟨p, hp.grow hg, hall⟩

lemma Standing.positioned (h : Standing s a) (i : ι) : Positioned (s.nodes i) := by
  refine ⟨h.tracks.aligned i, ?_⟩
  obtain ⟨p, hp, hk⟩ := h.commits.kept i
  rw [← hp]
  exact (h.tracks.committed hk).1.length_le

end Cluster

namespace Installing

open Cluster

variable {cfg : Config ι σ ρ} {applyFn : σ → Bytes → σ × Bool} {x y : Installing ι σ ρ}
  {e : InstallEvent ι} {a b : State ι Entry}

/-- No snapshot that covers anything ends, and no leader takes a reply of an earlier term for news. -/
def CoversNothing (x : Installing ι σ ρ) : InstallEvent ι → Prop
  | .raft e => AtDelivery Current x.toCluster e
  | .begins .. => True
  | .resumes k => ∀ call ∈ x.installs[k]?, call.stage = .applied → call.args.lastIncludedIndex = 0

lemma SectionAt.spares {i : ι} {n : Node ι σ ρ} (h : SectionAt applyFn x e i n)
    (hk : CoversNothing x e) : Spares (x.nodes i) n := by
  cases h with
  | begins i args => exact snapshotBegins_spares _ _ _
  | applies k call hcall hstage => exact snapshotApplies_spares _ _ _
  | ends k call hcall hstage =>
    rw [hk call hcall hstage]
    exact snapshotEnds_spares _ _

lemma standing_step (h : Standing x.toCluster a) (hk : CoversNothing x e)
    (he : step cfg applyFn x e = some y) :
    ∃ b, Relation.ReflTransGen (Step Entry.term) a b ∧ Standing y.toCluster b := by
  rcases step_cases he with ⟨f, rfl, hf⟩ | ⟨i, n, hi, hy⟩
  · exact h.step hk hf
  · rw [hy]
    exact h.spares (hi.spares hk) (hi.electionInv h.tracks.election)

lemma standing_run (h : Standing x.toCluster a) (hr : Run (step cfg applyFn) CoversNothing x y) :
    ∃ b, Relation.ReflTransGen (Step Entry.term) a b ∧ Standing y.toCluster b :=
  Run.simulates (R := fun x a => Standing x.toCluster a)
    (fun _ _ _ _ hx hk he => standing_step hx hk he) hr h

instance (x : Installing ι σ ρ) (e : InstallEvent ι) : Decidable (CoversNothing x e) :=
  match e with
  | .raft e => inferInstanceAs (Decidable (AtDelivery Current x.toCluster e))
  | .begins .. => inferInstanceAs (Decidable True)
  | .resumes _ => inferInstanceAs (Decidable (∀ call ∈ _, (_ → _)))

/-- Node 1 installs a snapshot of nothing between two requests of its leader. -/
def coveredNothing : List (InstallEvent (Fin 3)) :=
  raftEvents (campaign 0 1 0 [1] ++ [.appendEntry 0 someCommand] ++ replicate 0 1 2) ++
    [.begins 1 ⟨1, 0, 0, 0, []⟩, .resumes 0, .resumes 0] ++ raftEvents (replicate 0 1 4)

/-- The snapshot covers the first of two entries; the next request of the leader follows the second. -/
def shifted : List (InstallEvent (Fin 3)) :=
  raftEvents (campaign 0 1 0 [1] ++ [.appendEntry 0 someCommand] ++ replicate 0 1 2) ++
    [.begins 1 ⟨1, 0, 1, 1, []⟩, .resumes 0, .resumes 0] ++ raftEvents [.sendAppendEntries 0 1]

end Installing

end DistributedStorage.Raft
