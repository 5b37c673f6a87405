import DistributedStorage.Kv.Handlers
import DistributedStorage.Raft.StateMachineSafety

/-! The books are kept on every run of the system, and every run of the system is a run of the
cluster. -/

set_option linter.unusedSectionVars false

namespace DistributedStorage.Kv

open Library Raft Runs

variable {ι : Type} [DecidableEq ι] [Fintype ι]

lemma proceed_goes {cfg : Config ι KVStateMachine Result} {n : Node ι KVStateMachine Result}
    {request : Request} {stage next : Stage}
    (h : Handler.proceed cfg n request stage = some (.goes next)) : stage.early = true ∧
      (next.early = true ∨ (next = .reading ∧ ∃ key, request = .get key false)) := by
  cases stage with
  | checkingIsolation =>
    simp only [Handler.proceed] at h
    split_ifs at h with h1 h2
    · cases h
    · cases h
      exact ⟨rfl, .inl rfl⟩
    · cases h
      exact ⟨rfl, .inl rfl⟩
  | lookingUp =>
    simp only [Handler.proceed] at h
    split at h
    · cases h
    · cases h
      exact ⟨rfl, .inl rfl⟩
  | checkingLeader =>
    simp only [Handler.proceed] at h
    split_ifs at h with hl
    · cases h
      exact ⟨rfl, .inl rfl⟩
    · split at h
      · cases h
        exact ⟨rfl, .inr ⟨rfl, _, rfl⟩⟩
      · cases h
        exact ⟨rfl, .inl rfl⟩
  | redirecting => cases h
  | appending => cases h
  | waiting w => cases h
  | reading =>
    simp only [Handler.proceed] at h
    split at h <;> cases h

lemma finish_goes {request : Request} {value : Except (Error ι) (Option Result)} {next : Stage}
    (h : Handler.finish request value = .goes next) :
    next = .reading ∧ (∃ v, value = .ok v) ∧ ∃ key linearizable, request = .get key linearizable := by
  cases value with
  | error exc => cases h
  | ok v =>
    simp only [Handler.finish] at h
    cases request with
    | get key linearizable =>
      cases h
      exact ⟨rfl, ⟨v, rfl⟩, key, linearizable, rfl⟩
    | put key value clientId seqNum => cases v <;> cases h
    | delete key clientId seqNum => cases v <;> cases h
    | cas key expected newValue expectAbsent expectedVersion clientId seqNum =>
      cases v <;> cases h

namespace System

variable {cfg : Config ι KVStateMachine Result} {s t : System ι}
  {a : LeaderLogs.State ι Entry}

/-- A step of the system is a step of the cluster, or leaves the cluster alone. -/
lemma step_raft {Q : Cluster ι KVStateMachine Result → Message ι → Prop} {e : Event ι}
    (hc : AtRaft (Cluster.AtDelivery Q) s e) (h : step cfg s e = some t) : t.raft = s.raft ∨
      ∃ e', Cluster.AtDelivery Q s.raft e' ∧ Cluster.step cfg s.raft e' = some t.raft := by
  cases e with
  | raft e =>
    simp only [step] at h
    split_ifs at h
    obtain ⟨r, hr, rfl⟩ := Option.map_eq_some_iff.mp h
    exact .inr ⟨e, hc, hr⟩
  | receive i request =>
    cases h
    exact .inl rfl
  | proceed k =>
    obtain ⟨hd, -, h⟩ := Option.bind_eq_some_iff.mp h
    obtain ⟨p, -, rfl⟩ := Option.map_eq_some_iff.mp h
    exact .inl (advance_raft s k hd p)
  | append k =>
    obtain ⟨hd, -, h⟩ := Option.bind_eq_some_iff.mp h
    split_ifs at h
    cases h
    simp only [append]
    cases happ : (s.raft.nodes hd.node).appendEntry cfg hd.request.command with
    | ok out =>
      exact .inr ⟨.appendEntry hd.node hd.request.command, trivial, by simp only [Cluster.step, happ]⟩
    | error exc => exact .inl rfl
  | returns k =>
    obtain ⟨hd, -, h⟩ := Option.bind_eq_some_iff.mp h
    split at h
    · rename_i w _
      obtain ⟨out, -, h⟩ := Option.bind_eq_some_iff.mp h
      obtain ⟨r, hr, rfl⟩ := Option.map_eq_some_iff.mp h
      exact .inr ⟨.callReturns hd.node w, trivial, by rw [hr, advance_raft]⟩
    · cases h
  | timesOut k =>
    obtain ⟨hd, -, h⟩ := Option.bind_eq_some_iff.mp h
    split at h
    · rename_i w _
      obtain ⟨out, -, h⟩ := Option.bind_eq_some_iff.mp h
      obtain ⟨r, hr, rfl⟩ := Option.map_eq_some_iff.mp h
      exact .inr ⟨.callTimesOut hd.node w, trivial, by rw [hr, advance_raft]⟩
    · cases h

lemma run_raft {Q : Cluster ι KVStateMachine Result → Message ι → Prop}
    (h : Run (step cfg) (AtRaft (Cluster.AtDelivery Q)) s t) :
    Run (Cluster.step cfg) (Cluster.AtDelivery Q) s.raft t.raft := by
  induction h with
  | refl => exact Run.refl
  | @tail u v _ he ih =>
    obtain ⟨e, hc, hs⟩ := he
    rcases step_raft hc hs with heq | ⟨e', hc', hs'⟩
    · rwa [heq]
    · exact ih.tail hc' hs'

/-- The end of a call takes its own frame away. -/
lemma Accounts.ends (ha : Accounts s) (hs : Cluster.Serving cfg s.raft a) {h : ℕ} {hd : Handler ι}
    {w : ℕ} {r : Cluster ι KVStateMachine Result} {e : Raft.Event ι} {m : Node ι KVStateMachine Result}
    {p : Progress ι} (hlive : s.live h = some hd) (hstage : hd.stage = .waiting w)
    (hstep : Cluster.step cfg s.raft e = some r)
    (hnodes : r.nodes = Function.update s.raft.nodes hd.node m)
    (hcalls : m.calls = Function.update (s.raft.nodes hd.node).calls w none)
    (hp : ∀ stage, p = .goes stage → stage = .reading) (hread : p = .goes .reading → s.Barred h hd) :
    Accounts ({ s with raft := r }.advance h hd p) := by
  obtain ⟨hh, hboot⟩ := live_eq hlive
  have hc := (Cluster.step_change_free hstep).service
  rw [advance_withRaft]
  refine (ha.advance hh (fun stage hgo hearly => ?_) (fun v hgo => ?_) hread).withRaft ?_ ?_ ?_
  · rw [hp stage hgo] at hearly
    cases hearly
  · cases hp _ hgo
  · rw [advance_raft]
    exact hc.boot_le hs.applier
  · rw [advance_raft]
    exact hc.trace
  · intro k kd v c hk hst hb _ hcall
    rw [advance_raft] at hb hcall
    rw [advance_handlers] at hk
    by_cases hkh : k = h
    · subst hkh
      rw [Function.update_self] at hk
      cases p with
      | goes stage =>
        cases hk
        rw [hp stage rfl] at hst
        cases hst
      | replies reply => cases hk
    · rw [Function.update_of_ne hkh] at hk
      refine ⟨c, ?_, rfl, rfl⟩
      by_cases hn : kd.node = hd.node
      · have hvw : v ≠ w := by
          rintro rfl
          refine hkh (ha.owner k kd h hd v hk hh hst hstage hn ?_ hb)
          rw [← hb, hn, hboot]
        rw [hn] at hcall
        rw [hnodes, hn, Function.update_self, hcalls, Function.update_of_ne hvw, hcall]
      · rw [hnodes, Function.update_of_ne hn, hcall]

lemma Accounts.change (ha : Accounts s) (hs : Cluster.Serving cfg s.raft a) (hc : Change cfg s t) :
    Accounts t := by
  cases hc with
  | raft e r he hr =>
    have hsv := (Cluster.step_change_free hr).service
    exact ha.withRaft (hsv.boot_le hs.applier) hsv.trace fun h hd w c _ _ hb hb' hcall =>
      Cluster.engine_frame hs he hr hcall (hb'.trans hb.symm)
  | receive i request => exact ha.receive i request
  | proceeds h hd p hlive hp =>
    obtain ⟨hh, -⟩ := live_eq hlive
    refine ha.advance hh (fun stage hgo _ => ?_) (fun w hgo => ?_) (fun hgo => ?_)
    · exact (proceed_goes (hgo ▸ hp)).1
    · rcases (proceed_goes (hgo ▸ hp)).2 with hw | ⟨hw, -⟩ <;> cases hw
    · rcases (proceed_goes (hgo ▸ hp)).2 with hw | ⟨-, key, hreq⟩
      · cases hw
      · exact ⟨key, false, hreq, nofun⟩
  | appends h hd m w hlive hstage hm =>
    obtain ⟨hh, hboot⟩ := live_eq hlive
    obtain ⟨-, rfl, -, hcalls, -, -, -⟩ := appendEntry_frame hm
    have hb := (appendEntry_applier hm).2
    -- frames are numbered below the next one
    have hlt : ∀ {i v c}, (s.raft.nodes i).calls v = some c → v < (s.raft.nodes i).nextCall :=
      fun {i v c} hcall => ((hs.waiters.waits i).call v c hcall).1
    have hraft : Accounts { s with raft := s.raft.setNode hd.node m } := by
      refine ha.withRaft (fun i => ?_) List.prefix_rfl fun k kd v c _ _ _ _ hcall => ?_
      · by_cases hi : i = hd.node
        · rw [hi, Cluster.setNode_nodes, Function.update_self, hb]
        · rw [Cluster.setNode_nodes, Function.update_of_ne hi]
      · refine ⟨c, ?_, rfl, rfl⟩
        by_cases hi : kd.node = hd.node
        · rw [hi] at hcall
          rw [hi, Cluster.setNode_nodes, Function.update_self, hcalls,
            Function.update_of_ne (hlt hcall).ne, hcall]
        · rw [Cluster.setNode_nodes, Function.update_of_ne hi, hcall]
    refine hraft.append hh hstage (c := ⟨(s.raft.nodes hd.node).lastLogIndex + 1,
      hd.request.command.entry (s.raft.nodes hd.node).currentTerm
        ((s.raft.nodes hd.node).lastLogIndex + 1), (s.raft.nodes hd.node).currentTerm,
      hd.request.command.clientId, hd.request.command.seqNum, false, none⟩) ?_ rfl rfl ?_
    · rw [Cluster.setNode_nodes, Function.update_self, hcalls, Function.update_self]
    · intro k kd hk hst hn hbk
      have hold : (s.raft.nodes kd.node).boot = kd.boot := by
        rw [← hbk, hn, Cluster.setNode_nodes, Function.update_self, hb]
      obtain ⟨c, hcall, -⟩ := ha.frame k kd _ hk hst hold
      rw [hn] at hcall
      exact (hlt hcall).false
  | refused h hd exc hlive _ _ =>
    exact ha.advance (live_eq hlive).1 nofun nofun nofun
  | returns h hd w m c value r hlive hstage hret hr =>
    obtain ⟨hh, hboot⟩ := live_eq hlive
    obtain ⟨-, hcall, hcalls, -, hrec⟩ := (hs.waiters.waits hd.node).callReturns hret
    refine ha.ends hs hlive hstage hr (Cluster.ended_nodes hr hret) hcalls (fun stage hgo => (finish_goes hgo).1)
      fun hgo => ?_
    obtain ⟨-, ⟨v, hv⟩, key, lin, hreq⟩ := finish_goes hgo
    obtain ⟨d, hd', happ, hidx⟩ := ha.frame h hd w hh hstage hboot
    rw [hcall] at hd'
    cases hd'
    exact ⟨key, lin, hreq, fun _ => ⟨c.entry, _, happ, by rw [hidx, ← hboot]; exact hrec v hv⟩⟩
  | timesOut h hd w m c r hlive hstage hret hr =>
    obtain ⟨-, hcall, hcalls, -⟩ := (hs.waiters.waits hd.node).callTimesOut hret
    exact ha.ends hs hlive hstage hr (Cluster.expired_nodes hr hret) hcalls nofun nofun

/-- The entry is a leader's noop, or a handler has appended it. -/
def Asked (s : System ι) (e : Entry) : Prop :=
  (∃ term idx, e = noopEntry term idx) ∨ ∃ h, .appended h e ∈ s.history

lemma Asked.grow {e : Entry} (h : s.Asked e) (hist : ∀ x ∈ s.history, x ∈ t.history) : t.Asked e :=
  h.imp_right fun ⟨k, hk⟩ => ⟨k, hist _ hk⟩

lemma Change.history (hc : Change cfg s t) : ∃ new, t.history = s.history ++ new := by
  cases hc with
  | raft e r _ _ => exact ⟨[], (List.append_nil _).symm⟩
  | receive i request => exact ⟨_, rfl⟩
  | proceeds h hd p _ _ => exact ⟨_, advance_history s h hd p⟩
  | appends h hd m w _ _ _ => exact ⟨_, rfl⟩
  | refused h hd exc _ _ _ => exact ⟨_, advance_history s h hd _⟩
  | returns h hd w m c value r _ _ _ _ => exact ⟨_, advance_history _ h hd _⟩
  | timesOut h hd w m c r _ _ _ _ => exact ⟨_, advance_history _ h hd _⟩

lemma run_history {C : System ι → Event ι → Prop} (h : Run (step cfg) C s t) :
    s.history <+: t.history := by
  refine Run.relation (I := fun _ => True) (R := fun u v => u.history <+: v.history)
    (fun _ => List.prefix_rfl) List.IsPrefix.trans (fun _ _ _ _ _ _ => trivial) ?_ h trivial
  intro u e v _ _ he
  obtain ⟨new, hnew⟩ := (step_change he).history
  exact hnew ▸ List.prefix_append _ _

lemma asked_change (hk : Cluster.Holding s.Asked s.raft) (hs : Cluster.Serving cfg s.raft a)
    (hc : Change cfg s t) : Cluster.Holding t.Asked t.raft := by
  have hgrow : ∀ e, s.Asked e → t.Asked e := by
    obtain ⟨new, hnew⟩ := hc.history
    exact fun e he => he.grow fun x hx => hnew ▸ List.mem_append_left _ hx
  have hnoop : ∀ term idx, t.Asked (noopEntry term idx) := fun term idx => .inl ⟨term, idx, rfl⟩
  have hk' := hk.mono hgrow
  cases hc with
  | raft e r he hr => exact hk'.engine hs he hr hnoop
  | receive i request => exact hk'
  | proceeds h hd p _ _ =>
    rw [advance_raft]
    exact hk'
  | appends h hd m w _ _ hm =>
    have hstep : Cluster.step cfg s.raft (.appendEntry hd.node hd.request.command) =
        some (s.raft.setNode hd.node m) := by simp only [Cluster.step, hm]
    obtain ⟨-, -, hlog, -⟩ := appendEntry_frame hm
    refine hk'.change hs (Cluster.step_change_free hstep) hnoop fun i e he hnc => .inr ⟨h, ?_⟩
    by_cases hi : i = hd.node
    · subst hi
      rw [Cluster.setNode_nodes, Function.update_self, hlog] at he
      rw [← List.singleton_inj.mp (List.append_cancel_left he)]
      exact List.mem_append_right _ (List.mem_singleton.mpr rfl)
    · rw [Cluster.setNode_nodes, Function.update_of_ne hi] at hnc
      omega
  | refused h hd exc _ _ _ => exact hk'
  | returns h hd w m c value r _ _ hret hr =>
    rw [advance_raft]
    obtain ⟨-, -, -, hsame, -⟩ := (hs.waiters.waits hd.node).callReturns hret
    exact hk'.ended hs hr (Cluster.ended_nodes hr hret) hsame hnoop
  | timesOut h hd w m c r _ _ hret hr =>
    rw [advance_raft]
    obtain ⟨-, -, -, hsame⟩ := (hs.waiters.waits hd.node).callTimesOut hret
    exact hk'.ended hs hr (Cluster.expired_nodes hr hret) hsame hnoop

/-- What is known of every reachable state of the system. -/
structure Sound (cfg : Config ι KVStateMachine Result) (s : System ι) : Prop where
  serving : ∃ a, Cluster.Serving cfg s.raft a
  accounts : Accounts s
  asked : Cluster.Holding s.Asked s.raft

lemma Sound.step {e : Event ι} (h : Sound cfg s) (he : System.step cfg s e = some t) :
    Sound cfg t := by
  obtain ⟨a, ha⟩ := h.serving
  have hc := step_change he
  refine ⟨?_, h.accounts.change ha hc, asked_change h.asked ha hc⟩
  have hfree : AtRaft (Cluster.AtDelivery fun _ _ => True) s e := by
    cases e with
    | raft e => cases e <;> simp [AtRaft, Cluster.AtDelivery]
    | _ => trivial
  rcases step_raft hfree he with heq | ⟨e', -, hs'⟩
  · exact ⟨a, heq ▸ ha⟩
  · obtain ⟨b, -, hb⟩ := ha.step hs'
    exact ⟨b, hb⟩

lemma init_sound (cfg : Config ι KVStateMachine Result) : Sound cfg (init cfg) where
  serving := ⟨_, Cluster.init_tracks cfg, Cluster.init_waiterInv cfg, Cluster.init_applierInv cfg⟩
  accounts := init_accounts cfg
  asked := Cluster.init_holding cfg

lemma Sound.run {C : System ι → Event ι → Prop} (hs : Sound cfg s) (h : Run (System.step cfg) C s t) :
    Sound cfg t :=
  Run.invariant (fun _ _ _ hi _ he => hi.step he) h hs

lemma sound {C : System ι → Event ι → Prop} (h : Run (System.step cfg) C (init cfg) s) :
    Sound cfg s :=
  (init_sound cfg).run h

end System

end DistributedStorage.Kv
