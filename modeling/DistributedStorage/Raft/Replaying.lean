import DistributedStorage.Raft.Commitment
import DistributedStorage.Raft.Snapshots

/-! The applier against the committed log, from any state a snapshot has put the state machine in. -/

set_option linter.unusedSectionVars false

namespace DistributedStorage.Raft

open Library.Runs

variable {ι σ ρ : Type} [DecidableEq ι]

def Config.replayFrom (cfg : Config ι σ ρ) (st : σ) (es : List Entry) : σ :=
  es.foldl (fun st e => (cfg.applyEntry st e).1) st

variable {cfg : Config ι σ ρ} {n m : Node ι σ ρ}

@[simp] lemma replayFrom_nil (st : σ) : cfg.replayFrom st [] = st := rfl

lemma replayFrom_append (st : σ) (es fs : List Entry) :
    cfg.replayFrom st (es ++ fs) = cfg.replayFrom (cfg.replayFrom st es) fs :=
  List.foldl_append ..

lemma replay_append (es fs : List Entry) :
    cfg.replay (es ++ fs) = cfg.replayFrom (cfg.replay es) fs :=
  List.foldl_append ..

lemma take_drop_succ {l : List Entry} {k j : ℕ} {e : Entry} (hk : k ≤ j) (he : l[j]? = some e) :
    (l.take (j + 1)).drop k = (l.take j).drop k ++ [e] := by
  have hlen : j < l.length := (List.getElem?_eq_some_iff.mp he).1
  rw [List.take_add_one, he, Option.toList_some, List.drop_append_of_le_length]
  rw [List.length_take]
  omega

/-- The lists agree, but for a first entry without effect that stands for another one of its term. -/
inductive HeadStands : List Entry → List Entry → Prop
  | refl (l : List Entry) : HeadStands l l
  | head (p e : Entry) (l : List Entry) : p.term = e.term → p.opType = .noop → e.opType = .noop →
      0 < p.index → HeadStands (p :: l) (e :: l)

variable {l k : List Entry}

lemma HeadStands.length_eq (h : HeadStands l k) : l.length = k.length := by
  cases h <;> rfl

lemma HeadStands.terms (h : HeadStands l k) (j : ℕ) : l[j]?.map Entry.term = k[j]?.map Entry.term := by
  cases h with
  | refl => rfl
  | head p e l hterm hp he hpos =>
    cases j with
    | zero => exact congrArg some hterm
    | succ j => rfl

lemma HeadStands.take (h : HeadStands l k) (j : ℕ) : HeadStands (l.take j) (k.take j) := by
  cases h with
  | refl => exact .refl _
  | head p e l hterm hp he hpos =>
    cases j with
    | zero => exact .refl _
    | succ j => exact .head p e _ hterm hp he hpos

lemma HeadStands.drop (h : HeadStands l k) (j : ℕ) : HeadStands (l.drop j) (k.drop j) := by
  cases h with
  | refl => exact .refl _
  | head p e l hterm hp he hpos =>
    cases j with
    | zero => exact .head p e l hterm hp he hpos
    | succ j => exact .refl _

lemma applyEntry_noop {e : Entry} (he : e.opType = .noop) (st : σ) : (cfg.applyEntry st e).1 = st := by
  rw [Config.applyEntry, if_pos he]

lemma HeadStands.replayFrom (h : HeadStands l k) (st : σ) :
    cfg.replayFrom st l = cfg.replayFrom st k := by
  cases h with
  | refl => rfl
  | head p e l hterm hp he hpos =>
    change cfg.replayFrom (cfg.applyEntry st p).1 l = cfg.replayFrom (cfg.applyEntry st e).1 l
    rw [applyEntry_noop hp, applyEntry_noop he]

lemma HeadStands.effect (h : HeadStands l k) {j : ℕ} {e : Entry} (he : l[j]? = some e) :
    ∃ f, k[j]? = some f ∧ ∀ st, (cfg.applyEntry st e).1 = (cfg.applyEntry st f).1 := by
  cases h with
  | refl => exact ⟨e, he, fun _ => rfl⟩
  | head p f l hterm hp hf hpos =>
    cases j with
    | zero =>
      cases he
      refine ⟨f, rfl, fun st => ?_⟩
      rw [applyEntry_noop hp, applyEntry_noop hf]
    | succ j => exact ⟨e, he, fun _ => rfl⟩

/-- What the node has committed is the start of `C`, at its place in the log. -/
structure HasCommitted (C : List Entry) (n : Node ι σ ρ) : Prop where
  bound : n.commitIndex ≤ C.length
  log : ∃ L, HeadStands n.log L ∧ C.take n.commitIndex <+: L

/-- How many entries are done: the ones in hand are still to come. -/
def Node.done (n : Node ι σ ρ) : ℕ := n.lastApplied - n.unapplied.length

/-- The state machine once the entries in hand are applied. -/
def Node.settled (cfg : Config ι σ ρ) (n : Node ι σ ρ) : σ :=
  cfg.replayFrom n.sm (n.unapplied.map Prod.snd)

/-- The state machine was put in state `base`, and has since applied the entries `k, …, j - 1` of `C`, with
those up to `lastApplied` in hand. -/
structure Replays (cfg : Config ι σ ρ) (C : List Entry) (base : σ) (k j : ℕ) (n : Node ι σ ρ) :
    Prop where
  start : k ≤ j
  upto : j ≤ n.lastApplied
  bound : n.lastApplied ≤ C.length
  inHand : ∃ D, HeadStands D (C.take n.lastApplied) ∧ n.unapplied = (numbered D).drop j
  sm : n.sm = cfg.replayFrom base ((C.take j).drop k)
  idle : n.toApply = [] → n.applyResult = none

variable {C : List Entry} {base : σ} {i j : ℕ}

lemma Replays.unapplied_length (h : Replays cfg C base i j n) :
    n.unapplied.length = n.lastApplied - j := by
  obtain ⟨D, hD, hun⟩ := h.inHand
  have hbound := h.bound
  rw [hun, List.length_drop, numbered_length, hD.length_eq, List.length_take]
  omega

lemma Replays.done (h : Replays cfg C base i j n) : n.done = j := by
  have hlen := h.unapplied_length
  have hupto := h.upto
  rw [Node.done]
  omega

lemma Replays.settled (h : Replays cfg C base i j n) :
    n.settled cfg = cfg.replayFrom base ((C.take n.lastApplied).drop i) := by
  obtain ⟨D, hD, hun⟩ := h.inHand
  have hstart := h.start
  have hupto := h.upto
  have hbound := h.bound
  rw [Node.settled, hun, List.map_drop, numbered_snd, (hD.drop j).replayFrom, h.sm,
    ← replayFrom_append]
  congr 1
  have hsplit : C.take n.lastApplied = C.take j ++ (C.take n.lastApplied).drop j := by
    conv_lhs => rw [← List.take_append_drop j (C.take n.lastApplied)]
    rw [List.take_take, min_eq_left hupto]
  conv_rhs => rw [hsplit]
  rw [List.drop_append_of_le_length]
  rw [List.length_take]
  omega

lemma Replays.same (h : Replays cfg C base i j n) (hs : SameApplier n m) :
    Replays cfg C base i j m where
  start := h.start
  upto := hs.lastApplied ▸ h.upto
  bound := hs.lastApplied ▸ h.bound
  inHand := by
    rw [hs.lastApplied, hs.unapplied]
    exact h.inHand
  sm := hs.sm.trans h.sm
  idle hnil := hs.applyResult.trans (h.idle (hs.toApply ▸ hnil))

lemma Replays.grow {D : List Entry} (h : Replays cfg C base i j n) (hp : C <+: D) :
    Replays cfg D base i j n := by
  have htake {t : ℕ} (ht : t ≤ n.lastApplied) : D.take t = C.take t := by
    obtain ⟨r, rfl⟩ := hp
    exact List.take_append_of_le_length (ht.trans h.bound)
  refine ⟨h.start, h.upto, h.bound.trans hp.length_le, ?_, ?_, h.idle⟩
  · rw [htake le_rfl]
    exact h.inHand
  · rw [htake h.upto]
    exact h.sm

lemma Replays.takes (h : Replays cfg C base i j n) (hc : HasCommitted C n) (hm : n.applierTakes = some m) :
    Replays cfg C base i j m := by
  obtain ⟨hun, hres, hun'⟩ := applierTakes_unapplied h.idle hm
  obtain ⟨-, hlt, rfl⟩ := applierTakes_eq hm
  have hdone : j = n.lastApplied := by
    have hlen := h.unapplied_length
    have hupto := h.upto
    rw [hun, List.length_nil] at hlen
    omega
  obtain ⟨L, hL, hpre⟩ := hc.log
  have hle : n.commitIndex ≤ n.log.length := by
    have hbound := hc.bound
    have hlen := hpre.length_le
    rw [List.length_take, ← hL.length_eq] at hlen
    omega
  refine ⟨h.start, h.upto.trans hlt.le, hc.bound, ⟨n.log.take n.commitIndex, ?_, ?_⟩, h.sm,
    fun _ => hres⟩
  · have hsame : L.take n.commitIndex = C.take n.commitIndex := by
      rw [List.prefix_iff_eq_take.mp hpre, List.length_take, min_eq_left hc.bound]
    rw [← hsame]
    exact hL.take _
  · have hin : n.lastApplied + (n.commitIndex - n.lastApplied) ≤ n.log.length := by omega
    have htaken := numbered_taken hin
    rw [Nat.add_sub_cancel' hlt.le] at htaken
    rw [hun', ← htaken, List.drop_left' (by rw [numbered_length, List.length_take]; omega)]

lemma getElem?_of_drop_eq_cons {l : List (ℕ × Entry)} {r : List (ℕ × Entry)} {x : ℕ × Entry}
    (h : l.drop j = x :: r) : l[j]? = some x ∧ l.drop (j + 1) = r := by
  refine ⟨?_, ?_⟩
  · have hhead := congrArg (fun t => t[0]?) h
    simpa [List.getElem?_drop] using hhead
  · rw [← List.drop_drop, h, List.drop_one, List.tail_cons]

lemma Replays.applies (h : Replays cfg C base i j n) {idx : ℕ} {e : Entry}
    {r : Option (Except (Error ι) ρ)} (hm : n.applierApplies cfg = some (m, idx, e, r)) :
    Replays cfg C base i (j + 1) m := by
  obtain ⟨hun, hla⟩ := applierApplies_unapplied hm
  obtain ⟨D, hD, hin⟩ := h.inHand
  rw [hun] at hin
  obtain ⟨hhead, hrest⟩ := getElem?_of_drop_eq_cons hin.symm
  have hDj : D[j]? = some e := by
    have hsnd := congrArg (fun t => t.map Prod.snd) hhead
    rwa [← List.getElem?_map, numbered_snd] at hsnd
  obtain ⟨f, hf, heffect⟩ : ∃ f, (C.take n.lastApplied)[j]? = some f ∧
      ∀ st, (cfg.applyEntry st e).1 = (cfg.applyEntry st f).1 := hD.effect hDj
  have hlt : j < n.lastApplied := by
    have hlen := (List.getElem?_eq_some_iff.mp hf).1
    rw [List.length_take] at hlen
    omega
  rw [List.getElem?_take_of_lt hlt] at hf
  obtain ⟨rest, hta, -, -, rfl⟩ := applierApplies_eq hm
  refine ⟨h.start.trans (Nat.le_succ j), hlt, h.bound, ⟨D, hD, hrest.symm⟩, ?_, fun hnil => ?_⟩
  · rw [take_drop_succ h.start hf, replayFrom_append, ← h.sm]
    exact heffect n.sm
  · cases hta.symm.trans hnil

lemma Replays.resolves (h : Replays cfg C base i j n) (hm : n.applierResolves cfg = some m) :
    Replays cfg C base i j m := by
  obtain ⟨hun, hla⟩ := applierResolves_unapplied hm
  obtain ⟨idx, e, rest, r, calls, waiters, -, -, rfl⟩ := applierResolves_eq hm
  refine ⟨h.start, h.upto, h.bound, ?_, h.sm, fun _ => rfl⟩
  rw [hun]
  exact h.inHand

lemma Replays.rebase (h : Replays cfg C base i j n) (st : σ) :
    Replays cfg C st j j { n with sm := st } where
  start := le_rfl
  upto := h.upto
  bound := h.bound
  inHand := h.inHand
  sm := by rw [List.drop_eq_nil_of_le (by rw [List.length_take]; omega), replayFrom_nil]
  idle := h.idle

lemma HasCommitted.begins (h : HasCommitted C n) (term : ℕ) (leaderId : ι) :
    HasCommitted C (n.snapshotBegins term leaderId) := by
  obtain ⟨hlog, hci, -, -⟩ := snapshotBegins_intact (n := n) term leaderId
  refine ⟨hci ▸ h.bound, ?_⟩
  rw [hlog, hci]
  exact h.log

lemma snapshotBegins_applier (n : Node ι σ ρ) (term : ℕ) (leaderId : ι) :
    SameApplier n (n.snapshotBegins term leaderId) := by
  change SameApplier n { n.stepDownForVote term with leaderId := some leaderId, timerArmed := true }
  rcases stepDownForVote_eq (n := n) term with he | ⟨-, he⟩ <;> rw [he]
  · exact ⟨rfl, rfl, rfl, rfl⟩
  · exact ⟨rfl, rfl, rfl, rfl⟩

lemma Replays.begins (h : Replays cfg C base i j n) (term : ℕ) (leaderId : ι) :
    Replays cfg C base i j (n.snapshotBegins term leaderId) :=
  h.same (snapshotBegins_applier n term leaderId)

lemma Serves.sameApplier (h : Serves cfg n m) (hb : m.boot = n.boot) : SameApplier n m := by
  cases h with
  | keeps hs _ _ => exact hs.applier
  | fails hs _ _ => exact ⟨hs.lastApplied, hs.toApply, hs.applyResult, hs.sm⟩
  | restarts hs hboot _ => omega

variable [Fintype ι]

/-- A section of another thread of the process than one that installs a snapshot, after which what the node
has committed is still the start of `C`. -/
def Beside (cfg : Config ι σ ρ) (C : List Entry) (n : Node ι σ ρ) (x : Section ι σ) : Prop :=
  (match x with
    | .snapshotBegins .. | .snapshotApplies .. | .snapshotEnds .. => False
    | _ => True) ∧
  ∀ m, n.perform cfg x = some m → m.boot = n.boot ∧ HasCommitted C m

lemma Replays.perform {x : Section ι σ} (h : Replays cfg C base i j n) (hc : HasCommitted C n)
    (hx : Beside cfg C n x) (hm : n.perform cfg x = some m) : ∃ t, Replays cfg C base i t m := by
  obtain ⟨hb, -⟩ := hx.2 m hm
  have hkind := hx.1
  cases x with
  | handleRequestVote args =>
    cases hm
    exact ⟨j, h.same ((handleRequestVote_serves args : Serves cfg n _).sameApplier hb)⟩
  | handleAppendEntries args =>
    cases hm
    exact ⟨j, h.same ((handleAppendEntries_serves args : Serves cfg n _).sameApplier hb)⟩
  | snapshotBegins term leaderId => exact hkind.elim
  | snapshotApplies restored => exact hkind.elim
  | snapshotEnds lastIdx lastTerm => exact hkind.elim
  | appendEntry cmd =>
    simp only [Node.perform] at hm
    split at hm
    · rename_i out happ
      cases hm
      exact ⟨j, h.same (appendEntry_applier happ).1⟩
    · cases hm
      exact ⟨j, h⟩
  | timerFires => exact ⟨j, h.same (timerFires_applier hm)⟩
  | startElection => exact ⟨j, h.same ((startElection_serves hm : Serves cfg n m).sameApplier hb)⟩
  | requestVoteReply peer term reply =>
    exact ⟨j, h.same ((handleRequestVoteReply_serves hm : Serves cfg n m).sameApplier hb)⟩
  | electionEnds term =>
    obtain ⟨out, hout, rfl⟩ := Option.map_eq_some_iff.mp hm
    exact ⟨j, h.same ((electionEnds_serves hout : Serves cfg n _).sameApplier hb)⟩
  | appendEntriesReply peer args reply =>
    cases hm
    exact ⟨j, h.same ((handleAppendEntriesReply_serves peer args reply : Serves cfg n _).sameApplier hb)⟩
  | callReturns w =>
    obtain ⟨out, hout, rfl⟩ := Option.map_eq_some_iff.mp hm
    exact ⟨j, h.same (callReturns_applier hout)⟩
  | callTimesOut w =>
    obtain ⟨out, hout, rfl⟩ := Option.map_eq_some_iff.mp hm
    exact ⟨j, h.same (callTimesOut_applier hout)⟩
  | applierTakes => exact ⟨j, h.takes hc hm⟩
  | applierApplies =>
    obtain ⟨out, hout, rfl⟩ := Option.map_eq_some_iff.mp hm
    exact ⟨j + 1, h.applies hout⟩
  | applierResolves => exact ⟨j, h.resolves hm⟩
  | setIsolated isolated =>
    cases hm
    exact ⟨j, h.same ⟨rfl, rfl, rfl, rfl⟩⟩
  | restart =>
    cases hm
    exact absurd hb (Nat.succ_ne_self _)

lemma Replays.run (h : Replays cfg C base i j n) (hc : HasCommitted C n)
    (hr : Run (Node.perform cfg) (Beside cfg C) n m) :
    HasCommitted C m ∧ ∃ t, Replays cfg C base i t m := by
  refine Run.invariant (I := fun m => HasCommitted C m ∧ ∃ t, Replays cfg C base i t m) ?_ hr
    ⟨hc, j, h⟩
  rintro n x m ⟨hc, t, h⟩ hx hm
  exact ⟨(hx.2 m hm).2, h.perform hc hx hm⟩

end DistributedStorage.Raft
