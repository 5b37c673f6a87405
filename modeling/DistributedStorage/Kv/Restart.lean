import DistributedStorage.Kv.Rollback
import DistributedStorage.Raft.Placeholders
import DistributedStorage.Raft.Positions

/-! A node that is sent snapshots, crashes and starts again from its two files with an empty state machine:
what it is once it has caught up again. -/

set_option linter.unusedSectionVars false

namespace DistributedStorage.Kv

open Library Raft Runs LeaderLogs Cluster

/-- One more node beside a cluster. It gets what the leaders send, to whomever, and snapshots of what the
cluster has committed; each call of `handle_install_snapshot` is a thread of its own. -/
structure Listening (ι : Type) extends Cluster ι KVStateMachine Result where
  host : Node ι KVStateMachine Result
  snapshots : List (InstallSnapshotArgs ι)
  installs : List (Installation ι)

/-- Messages, snapshots and calls are named by their positions. -/
inductive HostEvent (ι : Type)
  | cluster (e : Raft.Event ι)
  | takesSnapshot (i : ι) (lastIdx : ℕ)
  | appendEntries (k : ℕ)
  | appendEntriesAndCrash (k : ℕ)
  | begins (k : ℕ)
  | resumes (k : ℕ)
  | applierTakes
  | applierApplies
  | applierResolves
  | crash

variable {ι : Type} [DecidableEq ι]

namespace Listening

def init (cfg : Config ι KVStateMachine Result) (i : ι) : Listening ι :=
  ⟨Cluster.init cfg, Node.start cfg i 0 none none, [], []⟩

/-- The state at `lastIdx` of what node `i` has committed, in its term. -/
def snapshotOf (cfg : Config ι KVStateMachine Result) (x : Listening ι) (i : ι) (lastIdx : ℕ) :
    InstallSnapshotArgs ι :=
  ⟨(x.nodes i).currentTerm, i, lastIdx, ((x.nodes i).log[lastIdx - 1]?.map Entry.term).getD 0,
    (cfg.replay ((x.nodes i).log.take lastIdx)).snapshot⟩

def requestAt (x : Listening ι) (k : ℕ) : Option (AppendEntriesArgs ι) :=
  x.sent[k]?.bind fun
    | .appendEntries _ _ args => some args
    | _ => none

def setHost (x : Listening ι) (n : Node ι KVStateMachine Result) : Listening ι :=
  { x with host := n }

section

variable (x : Listening ι) (n : Node ι KVStateMachine Result)

@[simp] lemma setHost_toCluster : (x.setHost n).toCluster = x.toCluster := rfl
@[simp] lemma setHost_host : (x.setHost n).host = n := rfl
@[simp] lemma setHost_snapshots : (x.setHost n).snapshots = x.snapshots := rfl
@[simp] lemma setHost_installs : (x.setHost n).installs = x.installs := rfl

end

/-- Call `k` has put the snapshot into the state machine of the running process, and not yet ended. -/
def Half (x : Listening ι) (k : ℕ) : Prop :=
  ∃ call ∈ x.installs[k]?, call.boot = x.host.boot ∧ call.stage = .applied

def HalfInstalled (x : Listening ι) : Prop := ∃ k < x.installs.length, x.Half k

/-- Everything committed is applied, and no snapshot is half installed. -/
def CaughtUp (x : Listening ι) : Prop :=
  x.host.lastApplied = x.host.commitIndex ∧ x.host.unapplied = [] ∧ ¬ x.HalfInstalled

instance (x : Listening ι) (k : ℕ) : Decidable (x.Half k) :=
  inferInstanceAs (Decidable (∃ call ∈ x.installs[k]?, _))

instance (x : Listening ι) : Decidable x.HalfInstalled :=
  inferInstanceAs (Decidable (∃ k < x.installs.length, x.Half k))

lemma Half.lt {x : Listening ι} {k : ℕ} (h : x.Half k) : k < x.installs.length := by
  obtain ⟨call, hcall, -⟩ := h
  exact (List.getElem?_eq_some_iff.mp hcall).1

instance (x : Listening ι) : Decidable x.CaughtUp :=
  inferInstanceAs (Decidable (_ ∧ _ ∧ _))

lemma not_half {x : Listening ι} (h : ¬ x.HalfInstalled) (k : ℕ) : ¬ x.Half k :=
  fun hk => h ⟨k, hk.lt, hk⟩

variable [Fintype ι]

def step (cfg : Config ι KVStateMachine Result) (x : Listening ι) : HostEvent ι → Option (Listening ι)
  | .cluster e => (Cluster.step cfg x.toCluster e).map fun s => { x with toCluster := s }
  | .takesSnapshot i lastIdx =>
    if lastIdx ≤ (x.nodes i).commitIndex then
      some { x with snapshots := x.snapshots ++ [x.snapshotOf cfg i lastIdx] }
    else none
  | .appendEntries k => (x.requestAt k).map fun args => x.setHost (x.host.handleAppendEntries args).1
  | .appendEntriesAndCrash k => (x.requestAt k).bind fun args =>
    if args.term < x.host.currentTerm then none
    else some (x.setHost ((x.host.stepDownForAppend args.term).restart cfg))
  | .begins k => x.snapshots[k]?.map fun args =>
    { x with
      host := x.host.snapshotBegins args.term args.leaderId
      installs := x.installs ++ [⟨x.host.nodeId, x.host.boot, args, .began⟩] }
  | .resumes k => x.installs[k]?.bind fun call =>
    if x.host.boot = call.boot then
      (call.resume KVStateMachine.restore x.host).map fun out =>
        { x with
          host := out.1
          installs := x.installs.set k { call with stage := out.2 } }
    else none
  | .applierTakes => x.host.applierTakes.map x.setHost
  | .applierApplies => (x.host.applierApplies cfg).map fun out => x.setHost out.1
  | .applierResolves => (x.host.applierResolves cfg).map x.setHost
  | .crash => some (x.setHost (x.host.restart cfg))

/-- The next section of a call restores a state that is not behind, while nothing else changes the state
machine, or ends over a log that the snapshot covers as a whole or not at all. -/
def Covers (x : Listening ι) (call : Installation ι) : Prop :=
  match call.stage with
  | .began => x.host.unapplied = [] ∧ x.host.lastApplied ≤ call.args.lastIncludedIndex ∧ ¬ x.HalfInstalled
  | .applied => call.args.lastIncludedIndex = 0 ∨ x.host.lastLogIndex ≤ call.args.lastIncludedIndex
  | .ended => True

def Covered (x : Listening ι) : HostEvent ι → Prop
  | .cluster e => AtDelivery Timely x.toCluster e
  | .applierTakes => ¬ x.HalfInstalled
  | .resumes k => ∀ call ∈ x.installs[k]?, x.Covers call
  | _ => True

instance (x : Listening ι) (call : Installation ι) : Decidable (x.Covers call) := by
  unfold Covers
  split
  · infer_instance
  · infer_instance
  · infer_instance

instance (x : Listening ι) (e : HostEvent ι) : Decidable (x.Covered e) :=
  match e with
  | .cluster e => inferInstanceAs (Decidable (AtDelivery Timely x.toCluster e))
  | .applierTakes => inferInstanceAs (Decidable ¬ x.HalfInstalled)
  | .resumes k => inferInstanceAs (Decidable (∀ call ∈ x.installs[k]?, x.Covers call))
  | .takesSnapshot .. | .appendEntries .. | .appendEntriesAndCrash .. | .begins .. | .applierApplies
  | .applierResolves | .crash => inferInstanceAs (Decidable True)

/-- The data of a message is the state machine at its index of what is chosen up to term `t`. -/
def Truthful (cfg : Config ι KVStateMachine Result) (a : State ι Entry) (t : ℕ)
    (args : InstallSnapshotArgs ι) : Prop :=
  ∃ q, Chosen Entry.term a t q ∧ q.length = args.lastIncludedIndex ∧
    args.snapshotData = (cfg.replay q).snapshot

/-- The state machine is what the node has applied of the chosen list `p`, or what call `k` has restored. -/
inductive Phase (cfg : Config ι KVStateMachine Result) (a : State ι Entry) (p : List Entry)
    (x : Listening ι) : Prop
  | whole (j : ℕ) : (∀ k, ¬ x.Half k) → Replays cfg p cfg.init 0 j x.host → Phase cfg a p x
  | half (k : ℕ) (call : Installation ι) (q : List Entry) : x.installs[k]? = some call → x.Half k →
      (∀ l, x.Half l → l = k) → Chosen Entry.term a x.host.currentTerm q →
      q.length = call.args.lastIncludedIndex → x.host.sm = cfg.replay q →
      x.host.lastApplied ≤ q.length → x.host.unapplied = [] →
      (x.host.toApply = [] → x.host.applyResult = none) → Phase cfg a p x

structure Hosted (cfg : Config ι KVStateMachine Result) (a : State ι Entry) (p : List Entry)
    (x : Listening ι) : Prop where
  safe : Safe cfg x.toCluster a
  begins : LeadersBegin a
  host : Rebuilding a p x.host
  snapshots : ∀ args ∈ x.snapshots, Truthful cfg a args.term args
  installs : ∀ call ∈ x.installs, call.boot ≤ x.host.boot ∧ Truthful cfg a x.host.currentTerm call.args
  phase : Phase cfg a p x

variable {cfg : Config ι KVStateMachine Result} {a b : State ι Entry} {p r : List Entry}
  {x y : Listening ι} {t u : ℕ} {args : InstallSnapshotArgs ι} {n m : Node ι KVStateMachine Result}

lemma Truthful.grow (h : Truthful cfg a t args) (hg : Grows a b) : Truthful cfg b t args := by
  obtain ⟨q, hq, hlen, hdata⟩ := h
  exact ⟨q, hq.grow hg, hlen, hdata⟩

lemma Truthful.mono (h : Truthful cfg a t args) (htu : t ≤ u) : Truthful cfg a u args := by
  obtain ⟨q, hq, hlen, hdata⟩ := h
  exact ⟨q, hq.mono htu, hlen, hdata⟩

lemma init_hosted (cfg : Config ι KVStateMachine Result) (i : ι) :
    Hosted cfg (State.init ι Entry) [] (init cfg i) where
  safe := init_safe cfg
  begins _ _ he := by cases he
  host := start_rebuilding cfg i
  snapshots _ hargs := by cases hargs
  installs _ hcall := by cases hcall
  phase := .whole 0 (fun _ ⟨_, hcall, _⟩ => by cases hcall)
    ⟨le_rfl, le_rfl, le_rfl, ⟨[], .refl _, rfl⟩, rfl, fun _ => rfl⟩

lemma Phase.grow (h : Phase cfg a p x) (hg : Grows a b) : Phase cfg b p x := by
  cases h with
  | whole j hnone hr => exact .whole j hnone hr
  | half k call q hk hhalf honly hq hlen hsm hla hun hidle =>
    exact .half k call q hk hhalf honly (hq.grow hg) hlen hsm hla hun hidle

lemma Phase.beside (h : Phase cfg a p x) (hhost : y.host = x.host) (hcalls : y.installs = x.installs) :
    Phase cfg a p y := by
  have hhalf (k : ℕ) : y.Half k ↔ x.Half k := by rw [Half, Half, hhost, hcalls]
  cases h with
  | whole j hnone hr => exact .whole j (fun k hk => hnone k ((hhalf k).mp hk)) (hhost ▸ hr)
  | half k call q hk hrunning honly hq hlen hsm hla hun hidle =>
    exact .half k call q (hcalls ▸ hk) ((hhalf k).mpr hrunning) (fun l hl => honly l ((hhalf l).mp hl))
      (hhost ▸ hq) hlen (hhost ▸ hsm) (hhost ▸ hla) (hhost ▸ hun) (hhost ▸ hidle)

lemma half_setHost (hboot : m.boot = x.host.boot) (k : ℕ) : (x.setHost m).Half k ↔ x.Half k := by
  simp only [Half, setHost_installs, setHost_host, hboot]

lemma Phase.same (h : Phase cfg a p x) (hs : SameApplier x.host m) (hboot : m.boot = x.host.boot)
    (hterm : x.host.currentTerm ≤ m.currentTerm) (hpr : p <+: r) : Phase cfg a r (x.setHost m) := by
  cases h with
  | whole j hnone hr =>
    exact .whole j (fun k hk => hnone k ((half_setHost hboot k).mp hk)) ((hr.same hs).grow hpr)
  | half k call q hk hhalf honly hq hlen hsm hla hun hidle =>
    refine .half k call q hk ((half_setHost hboot k).mpr hhalf)
      (fun l hl => honly l ((half_setHost hboot l).mp hl)) (hq.mono hterm) hlen (hs.sm.trans hsm)
      (hs.lastApplied.trans_le hla) (hs.unapplied.trans hun) fun hnil => ?_
    exact hs.applyResult.trans (hidle (hs.toApply ▸ hnil))

lemma Hosted.moves (h : Hosted cfg a p x) (hm : Rebuilding a r m)
    (hterm : x.host.currentTerm ≤ m.currentTerm) (hboot : m.boot = x.host.boot)
    (hphase : Phase cfg a r (x.setHost m)) : Hosted cfg a r (x.setHost m) where
  safe := h.safe
  begins := h.begins
  host := hm
  snapshots := h.snapshots
  installs call hcall := by
    obtain ⟨hle, htrue⟩ := h.installs call hcall
    exact ⟨hle.trans hboot.ge, htrue.mono hterm⟩
  phase := hphase

/-- Nothing of a process is left in the next one, and no call of it goes on. -/
lemma Hosted.restarts (h : Hosted cfg a p x) (hn : Rebuilding a p n)
    (hterm : x.host.currentTerm ≤ n.currentTerm) (hboot : n.boot = x.host.boot) :
    Hosted cfg a [] (x.setHost (n.restart cfg)) where
  safe := h.safe
  begins := h.begins
  host := hn.restart cfg
  snapshots := h.snapshots
  installs call hcall := by
    obtain ⟨hle, htrue⟩ := h.installs call hcall
    refine ⟨(hle.trans hboot.ge).trans (Nat.le_succ _), htrue.mono (hterm.trans ?_)⟩
    exact (hn.durable.restart_currentTerm cfg).ge
  phase := by
    refine .whole 0 ?_ ⟨le_rfl, le_rfl, le_rfl, ⟨[], .refl _, rfl⟩, rfl, fun _ => rfl⟩
    rintro k ⟨call, hcall, hold, -⟩
    have hle := (h.installs call (List.mem_of_getElem? hcall)).1
    change call.boot = n.boot + 1 at hold
    omega

lemma Hosted.cluster {s : Cluster ι KVStateMachine Result} {e : Raft.Event ι} (h : Hosted cfg a p x)
    (hc : AtDelivery Timely x.toCluster e) (he : Cluster.step cfg x.toCluster e = some s) :
    ∃ b, Grows a b ∧ Hosted cfg b p { x with toCluster := s } := by
  obtain ⟨b, hab, hb⟩ := h.safe.step hc he
  have hg := run_grows hab
  refine ⟨b, hg, hb, ?_, h.host.grow hg, ?_, ?_, (h.phase.grow hg).beside rfl rfl⟩
  · exact h.begins.change hg h.safe.serving.tracks hb.serving.tracks (step_change_free he)
  · exact fun args hargs => (h.snapshots args hargs).grow hg
  · exact fun call hcall => ⟨(h.installs call hcall).1, (h.installs call hcall).2.grow hg⟩

lemma Hosted.snapshotOf (h : Hosted cfg a p x) {i : ι} {lastIdx : ℕ}
    (hle : lastIdx ≤ (x.nodes i).commitIndex) :
    Truthful cfg a (x.snapshotOf cfg i lastIdx).term (x.snapshotOf cfg i lastIdx) := by
  obtain ⟨q, hlen, hkept⟩ := h.safe.commits.kept i
  obtain ⟨hpre, hchosen⟩ := h.safe.serving.tracks.committed hkept
  refine ⟨(x.nodes i).log.take lastIdx, hchosen.of_isPrefix ?_, ?_, rfl⟩
  · rw [List.prefix_iff_eq_take.mp hpre, hlen]
    exact List.take_prefix_take_left hle
  · have hlong := hpre.length_le
    rw [List.length_take]
    change min lastIdx _ = lastIdx
    omega

lemma requestAt_sent {k : ℕ} {args : AppendEntriesArgs ι} (h : x.requestAt k = some args) :
    ∃ dst boot, .appendEntries dst boot args ∈ x.sent := by
  obtain ⟨msg, hmsg, hargs⟩ := Option.bind_eq_some_iff.mp h
  cases msg with
  | appendEntries dst boot as =>
    cases hargs
    exact ⟨dst, boot, List.mem_of_getElem? hmsg⟩
  | requestVote dst boot as => cases hargs
  | requestVoteReply src boot as reply => cases hargs
  | appendEntriesReply src boot as reply => cases hargs

lemma Hosted.appends (h : Hosted cfg a p x) {k : ℕ} {args : AppendEntriesArgs ι}
    (hk : x.requestAt k = some args) :
    ∃ r, Hosted cfg a r (x.setHost (x.host.handleAppendEntries args).1) := by
  obtain ⟨dst, boot, hm⟩ := requestAt_sent hk
  have htracks := h.safe.serving.tracks
  obtain ⟨view, hview, hs⟩ := htracks.refines.messages _ hm
  obtain ⟨q, hlen, hle, -, hq⟩ := h.safe.commits.sent _ _ _ hm
  have hne := (htracks.refines.elected args.term).mpr (htracks.election.append _ _ _ hm)
  obtain ⟨r, hpr, hr⟩ := h.host.append htracks.inv h.begins htracks.refines.aligned hne hview hs hq hlen
    (hle.trans hs.length_eq.le)
  obtain ⟨hsame, hboot⟩ := handleAppendEntries_process x.host args
  have hmoves : Moves True x.host (x.host.handleAppendEntries args).1 :=
    handleAppendEntries_moves fun _ => trivial
  exact ⟨r, h.moves hr hmoves.term_le hboot (h.phase.same hsame hboot hmoves.term_le hpr)⟩

lemma Hosted.crashes (h : Hosted cfg a p x) {args : AppendEntriesArgs ι}
    (hle : x.host.currentTerm ≤ args.term) :
    Hosted cfg a [] (x.setHost ((x.host.stepDownForAppend args.term).restart cfg)) := by
  obtain ⟨hterm, hlog, hci⟩ := stepDownForAppend_eq args.term hle
  have hd := Node.stepDownForAppend_durable h.host.durable args.term
  obtain ⟨hsame, hboot⟩ := stepDownForAppend_process x.host args.term
  exact h.restarts (h.host.stays (hle.trans hterm.ge) hlog hci (Or.inl hsame.lastApplied) hd)
    (hle.trans hterm.ge) hboot

lemma Hosted.calls (h : Hosted cfg a p x) {call : Installation ι} (hstage : call.stage = .began)
    (hboot : call.boot = x.host.boot) (htrue : Truthful cfg a x.host.currentTerm call.args) :
    Hosted cfg a p { x with installs := x.installs ++ [call] } := by
  have hback {l : ℕ} (hl : Half { x with installs := x.installs ++ [call] } l) : x.Half l := by
    obtain ⟨c, hc, hold, happlied⟩ := hl
    rcases lt_or_ge l x.installs.length with hlt | hge
    · exact ⟨c, (List.getElem?_append_left hlt).symm.trans hc, hold, happlied⟩
    · have hnew := (List.getElem?_append_right hge).symm.trans hc
      rw [List.mem_singleton.mp (List.mem_of_getElem? hnew), hstage] at happlied
      cases happlied
  refine ⟨h.safe, h.begins, h.host, h.snapshots, fun c hc => ?_, ?_⟩
  · rcases List.mem_append.mp hc with hc | hc
    · exact h.installs c hc
    · rw [List.mem_singleton.mp hc]
      exact ⟨hboot.le, htrue⟩
  · cases h.phase with
    | whole j hnone hr => exact .whole j (fun l hl => hnone l (hback hl)) hr
    | half k c q hk hhalf honly hq hlen hsm hla hun hidle =>
      have hleft : (x.installs ++ [call])[k]? = x.installs[k]? := List.getElem?_append_left hhalf.lt
      obtain ⟨d, hd, hrunning⟩ := hhalf
      exact .half k c q (hleft.trans hk) ⟨d, hleft.trans hd, hrunning⟩ (fun l hl => honly l (hback hl)) hq
        hlen hsm hla hun hidle

lemma Hosted.begin (h : Hosted cfg a p x) {args : InstallSnapshotArgs ι} (hargs : args ∈ x.snapshots) :
    Hosted cfg a p { x with
      host := x.host.snapshotBegins args.term args.leaderId
      installs := x.installs ++ [⟨x.host.nodeId, x.host.boot, args, .began⟩] } := by
  obtain ⟨hlog, hci, hla, -⟩ := snapshotBegins_intact (n := x.host) args.term args.leaderId
  have hterm := snapshotBegins_term x.host args.term args.leaderId
  have hle : x.host.currentTerm ≤ (x.host.snapshotBegins args.term args.leaderId).currentTerm := by omega
  have hboot := (snapshotBegins_spares x.host args.term args.leaderId).boot
  have hmoved := h.moves (h.host.stays hle hlog hci (Or.inl hla)
    (Node.snapshotBegins_durable h.host.durable _ _)) hle hboot
    (h.phase.same (snapshotBegins_applier _ _ _) hboot hle List.prefix_rfl)
  refine hmoved.calls rfl hboot.symm ((h.snapshots args hargs).mono ?_)
  exact (le_max_right _ _).trans hterm.ge

lemma set_half {k : ℕ} {call : Installation ι} {stage : Installation.Stage}
    (hk : x.installs[k]? = some call) (hboot : m.boot = x.host.boot) {l : ℕ}
    (hl : Half { x with
      host := m
      installs := x.installs.set k { call with stage := stage } } l) :
    (l = k ∧ stage = .applied) ∨ (l ≠ k ∧ x.Half l) := by
  obtain ⟨c, hc, hold, happlied⟩ := hl
  change (x.installs.set k { call with stage := stage })[l]? = some c at hc
  by_cases hlk : l = k
  · subst hlk
    rw [List.getElem?_set_self (List.getElem?_eq_some_iff.mp hk).1] at hc
    cases hc
    exact Or.inl ⟨rfl, happlied⟩
  · rw [List.getElem?_set_ne (Ne.symm hlk)] at hc
    exact Or.inr ⟨hlk, c, hc, hold.trans hboot, happlied⟩

lemma Hosted.resumes (h : Hosted cfg a p x) {k : ℕ} {call : Installation ι} {stage : Installation.Stage}
    (hk : x.installs[k]? = some call) (hm : Rebuilding a r m)
    (hterm : m.currentTerm = x.host.currentTerm) (hboot : m.boot = x.host.boot)
    (hphase : Phase cfg a r { x with
      host := m
      installs := x.installs.set k { call with stage := stage } }) :
    Hosted cfg a r { x with
      host := m
      installs := x.installs.set k { call with stage := stage } } := by
  refine ⟨h.safe, h.begins, hm, h.snapshots, fun c hc => ?_, hphase⟩
  change c.boot ≤ m.boot ∧ Truthful cfg a m.currentTerm c.args
  rw [hboot, hterm]
  rcases List.mem_or_eq_of_mem_set hc with hc | rfl
  · exact h.installs c hc
  · exact h.installs call (List.mem_of_getElem? hk)

lemma Hosted.ends (h : Hosted cfg a p x) {k : ℕ} {call : Installation ι}
    (hk : x.installs[k]? = some call) (hboot : x.host.boot = call.boot) (hstage : call.stage = .applied)
    (hcov : call.args.lastIncludedIndex = 0 ∨ x.host.lastLogIndex ≤ call.args.lastIncludedIndex) :
    ∃ r, Hosted cfg a r { x with
      host := x.host.snapshotEnds call.args.lastIncludedIndex call.args.lastIncludedTerm
      installs := x.installs.set k { call with stage := .ended } } := by
  have htracks := h.safe.serving.tracks
  cases h.phase with
  | whole j hnone hr => exact (hnone k ⟨call, hk, hboot.symm, hstage⟩).elim
  | half l c q hl hhalf honly hq hlen hsm hla hun hidle =>
    obtain rfl := honly k ⟨call, hk, hboot.symm, hstage⟩
    obtain rfl : c = call := Option.some.inj (hl.symm.trans hk)
    rw [← hlen] at hcov ⊢
    obtain ⟨r, -, hqr, hr⟩ := h.host.ends htracks.inv htracks.refines.aligned hq hla hcov
      c.args.lastIncludedTerm
    refine ⟨r, h.resumes hk hr rfl rfl (.whole q.length (fun l hl => ?_) ?_)⟩
    · rcases set_half hk rfl hl with ⟨-, hended⟩ | ⟨hne, hhalf⟩
      · cases hended
      · exact hne (honly l hhalf)
    · have hlast : (x.host.snapshotEnds q.length c.args.lastIncludedTerm).lastApplied = q.length :=
        max_eq_right hla
      have htake : r.take q.length = q := (List.prefix_iff_eq_take.mp hqr).symm
      refine ⟨Nat.zero_le _, hlast.ge, hlast.trans_le hqr.length_le, ⟨r.take q.length, ?_, ?_⟩, ?_, hidle⟩
      · rw [hlast]
        exact .refl _
      · rw [htake, List.drop_eq_nil_of_le (by rw [numbered_length])]
        exact hun
      · rw [htake, List.drop_zero]
        exact hsm

lemma Hosted.takes (h : Hosted cfg a p x) (hnone : ¬ x.HalfInstalled) (hm : x.host.applierTakes = some m) :
    Hosted cfg a p (x.setHost m) := by
  have hcore := applierTakes_core hm
  obtain ⟨-, hlt, he⟩ := applierTakes_eq hm
  have hla : m.lastApplied = x.host.commitIndex := congrArg Node.lastApplied he
  refine h.moves (h.host.stays hcore.currentTerm.ge hcore.log hcore.commitIndex (Or.inr ⟨hlt.le, hla⟩)
    (hcore.durable h.host.durable)) hcore.currentTerm.ge hcore.boot ?_
  cases h.phase with
  | whole j hno hr =>
    exact .whole j (fun k hk => hno k ((half_setHost hcore.boot k).mp hk))
      (hr.takes (h.host.hasCommitted hlt) hm)
  | half k call q hk hhalf honly hq hlen hsm hla' hun hidle => exact (hnone ⟨k, hhalf.lt, hhalf⟩).elim

lemma Hosted.applies (h : Hosted cfg a p x) {idx : ℕ} {e : Entry} {res : Option (Except (Error ι) Result)}
    (hm : x.host.applierApplies cfg = some (m, idx, e, res)) : Hosted cfg a p (x.setHost m) := by
  have hcore := applierApplies_core hm
  obtain ⟨hun, hla⟩ := applierApplies_unapplied hm
  refine h.moves (h.host.stays hcore.currentTerm.ge hcore.log hcore.commitIndex (Or.inl hla)
    (hcore.durable h.host.durable)) hcore.currentTerm.ge hcore.boot ?_
  cases h.phase with
  | whole j hno hr =>
    exact .whole (j + 1) (fun k hk => hno k ((half_setHost hcore.boot k).mp hk)) (hr.applies hm)
  | half k call q hk hhalf honly hq hlen hsm hla' hnil hidle =>
    rw [hnil] at hun
    cases hun

lemma Hosted.resolves (h : Hosted cfg a p x) (hm : x.host.applierResolves cfg = some m) :
    Hosted cfg a p (x.setHost m) := by
  have hcore := applierResolves_core hm
  obtain ⟨hun, hla⟩ := applierResolves_unapplied hm
  refine h.moves (h.host.stays hcore.currentTerm.ge hcore.log hcore.commitIndex (Or.inl hla)
    (hcore.durable h.host.durable)) hcore.currentTerm.ge hcore.boot ?_
  cases h.phase with
  | whole j hno hr =>
    exact .whole j (fun k hk => hno k ((half_setHost hcore.boot k).mp hk)) (hr.resolves hm)
  | half k call q hk hhalf honly hq hlen hsm hla' hnil hidle =>
    obtain ⟨i, e, rest, res, calls, waiters, -, -, rfl⟩ := applierResolves_eq hm
    exact .half k call q hk ((half_setHost hcore.boot k).mpr hhalf)
      (fun l hl => honly l ((half_setHost hcore.boot l).mp hl)) (hq.mono hcore.currentTerm.ge) hlen
      hsm hla' (hun.trans hnil) fun _ => rfl

section Restores

variable {loads : Bytes → Except String CasSpec} {M : ℕ} {address : ι → String}

lemma Hosted.restores (h : Hosted (kv loads M address) a p x) {k : ℕ} {call : Installation ι}
    (hk : x.installs[k]? = some call) (hboot : x.host.boot = call.boot) (hun : x.host.unapplied = [])
    (hla : x.host.lastApplied ≤ call.args.lastIncludedIndex) (hnone : ¬ x.HalfInstalled) :
    Hosted (kv loads M address) a p { x with
      host := x.host.snapshotApplies KVStateMachine.restore call.args.snapshotData
      installs := x.installs.set k { call with stage := .applied } } := by
  obtain ⟨-, q, hq, hlen, hdata⟩ := h.installs call (List.mem_of_getElem? hk)
  have hd := h.host.durable
  refine h.resumes hk (h.host.stays le_rfl rfl rfl (Or.inl rfl) ⟨hd.term, hd.vote, hd.log⟩) rfl rfl ?_
  cases h.phase with
  | half l c q' hl hhalf honly hq' hlen' hsm hla' hun' hidle => exact (hnone ⟨l, hhalf.lt, hhalf⟩).elim
  | whole j hno hr =>
    have hlt := (List.getElem?_eq_some_iff.mp hk).1
    have hsm : (x.host.sm.restore call.args.snapshotData).1 = (kv loads M address).replay q := by
      rw [hdata]
      exact restore_replay (replays_maxSessions hr) q
    refine .half k { call with stage := .applied } q (List.getElem?_set_self hlt)
      ⟨_, List.getElem?_set_self hlt, hboot.symm, rfl⟩ (fun l hl => ?_) hq hlen hsm (hlen ▸ hla) hun hr.idle
    rcases set_half hk rfl hl with ⟨hlk, -⟩ | ⟨-, hhalf⟩
    · exact hlk
    · exact (hno l hhalf).elim

lemma Hosted.step {e : HostEvent ι} (h : Hosted (kv loads M address) a p x) (hc : Covered x e)
    (he : step (kv loads M address) x e = some y) :
    ∃ b r, Grows a b ∧ Hosted (kv loads M address) b r y := by
  cases e with
  | cluster e =>
    obtain ⟨s, hs, rfl⟩ := Option.map_eq_some_iff.mp he
    obtain ⟨b, hg, hb⟩ := h.cluster hc hs
    exact ⟨b, p, hg, hb⟩
  | takesSnapshot i lastIdx =>
    simp only [Listening.step] at he
    split_ifs at he with hle
    cases he
    refine ⟨a, p, .refl a, h.safe, h.begins, h.host, fun args hargs => ?_, h.installs,
      h.phase.beside rfl rfl⟩
    rcases List.mem_append.mp hargs with hargs | hargs
    · exact h.snapshots args hargs
    · rw [List.mem_singleton.mp hargs]
      exact h.snapshotOf hle
  | appendEntries k =>
    obtain ⟨args, hargs, rfl⟩ := Option.map_eq_some_iff.mp he
    obtain ⟨r, hr⟩ := h.appends hargs
    exact ⟨a, r, .refl a, hr⟩
  | appendEntriesAndCrash k =>
    obtain ⟨args, -, hrest⟩ := Option.bind_eq_some_iff.mp he
    split_ifs at hrest with hlt
    cases hrest
    exact ⟨a, [], .refl a, h.crashes (not_lt.mp hlt)⟩
  | begins k =>
    obtain ⟨args, hargs, rfl⟩ := Option.map_eq_some_iff.mp he
    exact ⟨a, p, .refl a, h.begin (List.mem_of_getElem? hargs)⟩
  | resumes k =>
    obtain ⟨call, hcall, hrest⟩ := Option.bind_eq_some_iff.mp he
    have hcov : x.Covers call := hc call hcall
    unfold Covers at hcov
    split_ifs at hrest with hboot
    obtain ⟨out, hout, rfl⟩ := Option.map_eq_some_iff.mp hrest
    simp only [Installation.resume] at hout
    cases hstage : call.stage with
    | began =>
      rw [hstage] at hout hcov
      cases hout
      obtain ⟨hun, hla, hnone⟩ := hcov
      exact ⟨a, p, .refl a, h.restores hcall hboot hun hla hnone⟩
    | applied =>
      rw [hstage] at hout hcov
      cases hout
      obtain ⟨r, hr⟩ := h.ends hcall hboot hstage hcov
      exact ⟨a, r, .refl a, hr⟩
    | ended =>
      rw [hstage] at hout
      cases hout
  | applierTakes =>
    obtain ⟨m, hm, rfl⟩ := Option.map_eq_some_iff.mp he
    exact ⟨a, p, .refl a, h.takes hc hm⟩
  | applierApplies =>
    obtain ⟨⟨m, out⟩, hm, rfl⟩ := Option.map_eq_some_iff.mp he
    exact ⟨a, p, .refl a, h.applies hm⟩
  | applierResolves =>
    obtain ⟨m, hm, rfl⟩ := Option.map_eq_some_iff.mp he
    exact ⟨a, p, .refl a, h.resolves hm⟩
  | crash =>
    cases he
    exact ⟨a, [], .refl a, h.restarts h.host le_rfl rfl⟩

lemma Hosted.run (h : Hosted (kv loads M address) a p x)
    (hr : Run (Listening.step (kv loads M address)) Covered x y) :
    ∃ b r, Grows a b ∧ Hosted (kv loads M address) b r y := by
  refine Run.invariant (I := fun y => ∃ b r, Grows a b ∧ Hosted (kv loads M address) b r y) ?_ hr
    ⟨a, p, .refl a, h⟩
  rintro y e z ⟨b, r, hg, hb⟩ hc he
  obtain ⟨c, r', hg', hc'⟩ := hb.step hc he
  exact ⟨c, r', hg.trans hg', hc'⟩

/-- A node that has caught up is the chosen list of the length of its commit index. -/
lemma Hosted.caughtUp (h : Hosted cfg a p x) (hx : x.CaughtUp) :
    p.length = x.host.commitIndex ∧ x.host.sm = cfg.replay p := by
  obtain ⟨hla, hun, hnone⟩ := hx
  have hlen := h.host.length
  rw [hla, max_self] at hlen
  refine ⟨hlen, ?_⟩
  cases h.phase with
  | half k call q hk hhalf honly hq hl hsm hle hun' hidle => exact (hnone ⟨k, hhalf.lt, hhalf⟩).elim
  | whole j hno hr =>
    have hsettled := hr.settled
    rw [Node.settled, hun, List.map_nil, replayFrom_nil, List.drop_zero, hla, ← hlen, List.take_length]
      at hsettled
    exact hsettled

/-- However a node mixes append requests, snapshots, applied entries and crashes, as long as each snapshot is
restored over a state that is not ahead of it and covers the log it ends over as a whole or not at all: whenever
it has caught up with the same commit index, its state machine is the same. -/
theorem restart_restores_state {i : ι} {x y : Listening ι}
    (hx : Run (step (kv loads M address)) Covered (init (kv loads M address) i) x)
    (hy : Run (step (kv loads M address)) Covered x y) (hcx : x.CaughtUp) (hcy : y.CaughtUp)
    (hci : y.host.commitIndex = x.host.commitIndex) : y.host.sm = x.host.sm := by
  obtain ⟨a, p, -, ha⟩ := (init_hosted (kv loads M address) i).run hx
  obtain ⟨b, r, hg, hb⟩ := ha.run hy
  obtain ⟨hp, hsx⟩ := ha.caughtUp hcx
  obtain ⟨hr, hsy⟩ := hb.caughtUp hcy
  have hsame : r = p := by
    rcases hb.safe.serving.tracks.inv.chosen_comparable hb.host.chosen (ha.host.chosen.grow hg) with
      hrp | hpr
    · exact hrp.eq_of_length_le (by omega)
    · exact (hpr.eq_of_length_le (by omega)).symm
  rw [hsy, hsx, hsame]

end Restores

def inCluster (es : List (Raft.Event ι)) : List (HostEvent ι) := es.map .cluster

/-- Node 0 leads term 1, commits its first entry with node 1 and appends a put, which goes to node 2. -/
def putSent : List (HostEvent (Fin 3)) :=
  inCluster (campaign 0 1 0 [1] ++ replicate 0 1 2 ++
    [.appendEntry 0 ⟨.put, "k", [7], "c", 1⟩, .sendAppendEntries 0 2])

/-- The same, with the put committed before it goes to node 2. -/
def putCommitted : List (HostEvent (Fin 3)) :=
  inCluster (campaign 0 1 0 [1] ++ replicate 0 1 2 ++ [.appendEntry 0 ⟨.put, "k", [7], "c", 1⟩] ++
    replicate 0 1 4 ++ [.sendAppendEntries 0 2])

def appliesOne : List (HostEvent (Fin 3)) := [.applierApplies, .applierResolves]

def installsFrom (lastIdx : ℕ) : List (HostEvent (Fin 3)) :=
  [.takesSnapshot 0 lastIdx, .begins 0, .resumes 0, .resumes 0]

/-- The node gets both entries as a snapshot, crashes, and gets them again from the leader. -/
theorem restart_restores_state_whole_log : ∃ x y : Listening (Fin 3), x.CaughtUp ∧ y.CaughtUp ∧
    x.host.commitIndex = 2 ∧ y.host.commitIndex = 2 ∧ y.host.boot = x.host.boot + 1 ∧
      y.host.sm = x.host.sm := by
  obtain ⟨x, hx, ⟨hcx, hcix, hbx⟩, hrest⟩ := Run.exists_of_execute (guarded (step oneSession) Covered)
    (init oneSession 2) (putCommitted ++ installsFrom 2)
    (fun x => (x.CaughtUp ∧ x.host.commitIndex = 2 ∧ x.host.boot = 0) ∧
      (execute (guarded (step oneSession) Covered) x
        ([.crash, .appendEntries 6, .applierTakes] ++ appliesOne ++ appliesOne)).any (fun y =>
          y.CaughtUp ∧ y.host.commitIndex = 2 ∧ y.host.boot = 1) = true) (by decide +kernel)
  obtain ⟨y, hy, hcy, hciy, hby⟩ := Run.exists_of_execute _ x _ _ hrest
  refine ⟨x, y, hcx, hcy, hcix, hciy, by omega, ?_⟩
  exact restart_restores_state hx.of_guarded hy.of_guarded hcx hcy (hciy.trans hcix.symm)

/-- The node has applied the first of its two entries and gets the snapshot of it. It keeps only the other
entry, takes it for the first one when it starts again, and applies the put there. -/
theorem restart_restores_state_shifted : ¬ ∀ x y : Listening (Fin 3),
    Run (step oneSession) Free (init oneSession 2) x → Run (step oneSession) Free x y →
    x.CaughtUp → y.CaughtUp → y.host.commitIndex = x.host.commitIndex → y.host.sm = x.host.sm := by
  intro hall
  obtain ⟨x, hx, ⟨hcx, hcix, hsx⟩, hrest⟩ := Run.exists_of_execute (step oneSession)
    (init oneSession 2) (putSent ++ [.appendEntries 4, .applierTakes] ++ appliesOne)
    (fun x => (x.CaughtUp ∧ x.host.commitIndex = 1 ∧ x.host.sm = .init 1) ∧
      (execute (step oneSession) x
        (installsFrom 1 ++ [.crash, .appendEntries 4, .applierTakes] ++ appliesOne)).any (fun y =>
          y.CaughtUp ∧ y.host.commitIndex = 1 ∧ y.host.sm ≠ .init 1) = true) (by decide +kernel)
  obtain ⟨y, hy, hcy, hciy, hsy⟩ := Run.exists_of_execute _ x _ _ hrest
  exact hsy ((hall x y hx hy hcx hcy (hciy.trans hcix.symm)).trans hsx)

end Listening

end DistributedStorage.Kv
