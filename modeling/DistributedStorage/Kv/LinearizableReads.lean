import DistributedStorage.Kv.Acknowledged

/-! Reads behind a barrier: the noop is newer than all that was chosen when the read arrived, so a
process that has applied it has applied all of that. -/

set_option linter.unusedSectionVars false

namespace DistributedStorage.Kv

open Library Library.LeaderLogs Raft Runs

variable {ι : Type} [DecidableEq ι] [Fintype ι] {loads : Bytes → Except String CasSpec} {M : ℕ}
  {address : ι → String}

namespace System

variable {cfg : Config ι KVStateMachine Result} {s t : System ι} {a b : State ι Entry}

lemma safe_step {e : Event ι} (h : Cluster.Safe cfg s.raft a)
    (hc : AtRaft (Cluster.AtDelivery Cluster.Timely) s e) (he : step cfg s e = some t) :
    ∃ b, Grows a b ∧ Cluster.Safe cfg t.raft b := by
  rcases step_raft hc he with heq | ⟨e', hc', hs'⟩
  · exact ⟨a, .refl a, heq ▸ h⟩
  · obtain ⟨b, hab, hb⟩ := h.step hc' hs'
    exact ⟨b, run_grows hab, hb⟩

/-- Calls from `h₀` on append their entries behind the leader logs of `a`. -/
def Later (a : State ι Entry) (h₀ : ℕ) (s : System ι) : Prop :=
  ∀ h e, h₀ ≤ h → .appended h e ∈ s.history → (a.leaderLog e.term).length < e.index

lemma receive_later {a : State ι Entry} (ha : Accounts s) (i : ι) (request : Request) :
    Later a s.nextHandler (s.receive i request) := by
  intro h e hle hm
  rcases List.mem_append.mp hm with hm | hm
  · obtain ⟨j, b, req, hrec, -⟩ := ha.appended h e hm
    exact absurd (ha.numbered h j b req hrec) (by omega)
  · cases List.mem_singleton.mp hm

/-- A leader appends behind its leader log, which has only grown. -/
lemma Later.change {h₀ : ℕ} (h : Later a h₀ s) (hs : Cluster.Serving cfg s.raft b) (hg : Grows a b)
    (hc : Change cfg s t) : Later a h₀ t := by
  have hold : ∀ {k p}, Later a h₀ { s with history := s.history ++ told k p } := by
    intro k p l e hle hm
    rcases List.mem_append.mp hm with hm | hm
    · exact h l e hle hm
    · exact (appended_told k p hm).elim
  cases hc with
  | raft e r _ _ => exact h
  | receive i request =>
    intro l e hle hm
    rcases List.mem_append.mp hm with hm | hm
    · exact h l e hle hm
    · cases List.mem_singleton.mp hm
  | proceeds k hd p _ _ => exact fun l e hle hm => hold l e hle (advance_history s k hd p ▸ hm)
  | appends k hd m w _ _ hm =>
    intro l e hle hx
    rcases List.mem_append.mp hx with hx | hx
    · exact h l e hle hx
    · cases List.mem_singleton.mp hx
      obtain ⟨hlead, -⟩ := appendEntry_frame hm
      have hlog := (hs.tracks.refines.leader hd.node hlead).1
      have hlen := (hg.leaderLog (s.raft.nodes hd.node).currentTerm).length_le
      rw [hlog] at hlen
      have hidx := (hs.tracks.aligned hd.node).lastLogIndex
      change (a.leaderLog (s.raft.nodes hd.node).currentTerm).length <
        (s.raft.nodes hd.node).lastLogIndex + 1
      omega
  | refused k hd exc _ _ _ => exact fun l e hle hm => hold l e hle (advance_history s k hd _ ▸ hm)
  | returns k hd w m c value r _ _ _ _ =>
    exact fun l e hle hm => hold l e hle (advance_history _ k hd _ ▸ hm)
  | timesOut k hd w m c r _ _ _ _ =>
    exact fun l e hle hm => hold l e hle (advance_history _ k hd _ ▸ hm)

/-- A process that has applied an entry newer than `a` has applied all that was applied then. -/
lemma applied_before {s₀ : System ι} (h₀ : Cluster.Safe cfg s₀.raft a) (h : Cluster.Safe cfg s.raft b)
    (hg : Grows a b) {i : ι} {boot : ℕ} {x : Applied ι Result} (hx : x ∈ records s.raft.trace i boot)
    (hnew : (a.leaderLog x.2.1.term).length < x.1) (j : ι) (c : ℕ) :
    s₀.applied j c <+: s.applied i boot := by
  obtain ⟨⟨_, -, -, hp⟩, -⟩ := h₀.applied j c
  obtain ⟨⟨_, -, -, hq⟩, hat⟩ := h.applied i boot
  obtain ⟨hpos, he⟩ := hat x hx
  exact h₀.serving.tracks.inv.chosen_before h.serving.tracks.inv hg hp hq he (by omega)

/-- The value was read from a machine that had executed, in log order, all that any process had
applied in `s₀`. -/
structure ReadSince (loads : Bytes → Except String CasSpec) (M : ℕ) (s₀ s : System ι) (i : ι)
    (boot : ℕ) (key : String) (value : Option Bytes × ℕ × Bool) (es : List Entry) : Prop where
  isPrefix : es <+: s.applied i boot
  value : value = ((KVStateMachine.init M).run loads es).get key
  since : ∀ j b, s₀.applied j b <+: es

/-- Every linearizable read among the calls from `h₀` on has seen what was applied in `s₀`. -/
def ReadsSince (loads : Bytes → Except String CasSpec) (M : ℕ) (s₀ : System ι) (h₀ : ℕ)
    (s : System ι) : Prop :=
  ∀ h value, h₀ ≤ h → .replied h (.read value) ∈ s.history → ∃ i boot key linearizable,
    .received h i boot (.get key linearizable) ∈ s.history ∧ (linearizable = true →
      ∃ es, ReadSince loads M s₀ s i boot key value es)

lemma proceed_read {n : Node ι KVStateMachine Result} {request : Request} {stage : Stage}
    {value : Option Bytes × ℕ × Bool}
    (h : Handler.proceed cfg n request stage = some (.replies (.read value))) :
    stage = .reading ∧ ∃ key linearizable, request = .get key linearizable ∧
      value = n.sm.get key := by
  cases stage with
  | checkingIsolation =>
    simp only [Handler.proceed] at h
    split_ifs at h <;> cases h
  | lookingUp =>
    simp only [Handler.proceed] at h
    split at h <;> cases h
  | checkingLeader =>
    simp only [Handler.proceed] at h
    split_ifs at h
    · cases h
    · split at h <;> cases h
  | redirecting => cases h
  | appending => cases h
  | waiting w => cases h
  | reading =>
    simp only [Handler.proceed] at h
    split at h
    · cases h
      exact ⟨rfl, _, _, rfl, rfl⟩
    · cases h

lemma finish_not_read {request : Request} {out : Except (Error ι) (Option Result)}
    {value : Option Bytes × ℕ × Bool} : Handler.finish request out ≠ .replies (.read value) := by
  intro h
  cases out with
  | error exc => cases h
  | ok v =>
    simp only [Handler.finish] at h
    split_ifs at h
    cases v <;> cases h

/-- A read that is answered in a step was served from the machine as it was. -/
lemma step_read {e : Event ι} {h : ℕ} {value : Option Bytes × ℕ × Bool} (he : step cfg s e = some t)
    (hm : .replied h (.read value) ∈ t.history) : .replied h (.read value) ∈ s.history ∨
      ∃ hd key linearizable, s.live h = some hd ∧ hd.stage = .reading ∧
        hd.request = .get key linearizable ∧ value = (s.raft.nodes hd.node).sm.get key := by
  rcases step_replied he hm with hold | ⟨-, hreplies⟩
  · exact .inl hold
  · cases hreplies with
    | proceeds hd reply hlive hp =>
      obtain ⟨hst, key, lin, hreq, hval⟩ := proceed_read hp
      exact .inr ⟨hd, key, lin, hlive, hst, hreq, hval⟩
    | returns hd w m c v reply _ _ _ hfinish => exact (finish_not_read hfinish).elim

lemma ReadSince.mono {s₀ : System ι} {i : ι} {boot : ℕ} {key : String}
    {value : Option Bytes × ℕ × Bool} {es : List Entry} (h : ReadSince loads M s₀ s i boot key value es)
    (hc : Change cfg s t) : ReadSince loads M s₀ t i boot key value es :=
  ⟨h.isPrefix.trans (applied_mono hc.trace i boot), h.value, h.since⟩

lemma ReadsSince.step {e : Event ι} {s₀ : System ι} {h₀ : ℕ} (h : ReadsSince loads M s₀ h₀ s)
    (hs : Sound (kv loads M address) s) (ha : Cluster.Safe (kv loads M address) s₀.raft a)
    (hb : Cluster.Safe (kv loads M address) s.raft b) (hg : Grows a b) (hl : Later a h₀ s)
    (he : System.step (kv loads M address) s e = some t) : ReadsSince loads M s₀ h₀ t := by
  have hc := step_change he
  obtain ⟨new, hnew⟩ := hc.history
  have hgrow : ∀ x ∈ s.history, x ∈ t.history := fun x hx => hnew ▸ List.mem_append_left _ hx
  intro k value hle hm
  rcases step_read he hm with hm | ⟨hd, key, lin, hlive, hst, hreq, hval⟩
  · obtain ⟨i, boot, key, lin, hrec, hread⟩ := h k value hle hm
    refine ⟨i, boot, key, lin, hgrow _ hrec, fun hlin => ?_⟩
    obtain ⟨es, hes⟩ := hread hlin
    exact ⟨es, hes.mono hc⟩
  · obtain ⟨hh, hboot⟩ := live_eq hlive
    refine ⟨hd.node, hd.boot, key, lin, hgrow _ (hreq ▸ hs.accounts.known k hd hh), fun hlin => ?_⟩
    obtain ⟨key', lin', hreq', hbar⟩ := hs.accounts.reading k hd hh hst
    obtain ⟨rfl, rfl⟩ : key = key' ∧ lin = lin' := by
      rw [hreq] at hreq'
      cases hreq'
      exact ⟨rfl, rfl⟩
    obtain ⟨e, r, happ, hrec⟩ := hbar hlin
    refine ⟨s.applied hd.node hd.boot, applied_mono hc.trace _ _, ?_, fun j b =>
      applied_before ha hb hg hrec (hl k e hle happ) j b⟩
    rw [hval, hs.sm hd.node, hboot]

/-- What is known of every run from `s₀` on. -/
structure Since (loads : Bytes → Except String CasSpec) (M : ℕ) (address : ι → String)
    (s₀ : System ι) (a : State ι Entry) (h₀ : ℕ) (s : System ι) : Prop where
  sound : Sound (kv loads M address) s
  safe : ∃ b, Grows a b ∧ Cluster.Safe (kv loads M address) s.raft b
  later : Later a h₀ s
  reads : ReadsSince loads M s₀ h₀ s

lemma Since.step {s₀ : System ι} {h₀ : ℕ} {e : Event ι} (h : Since loads M address s₀ a h₀ s)
    (ha : Cluster.Safe (kv loads M address) s₀.raft a)
    (hc : AtRaft (Cluster.AtDelivery Cluster.Timely) s e)
    (he : System.step (kv loads M address) s e = some t) : Since loads M address s₀ a h₀ t := by
  obtain ⟨b, hg, hb⟩ := h.safe
  obtain ⟨b', hg', hb'⟩ := safe_step hb hc he
  exact ⟨h.sound.step he, ⟨b', hg.trans hg', hb'⟩, h.later.change hb.serving hg (step_change he),
    h.reads.step h.sound ha hb hg h.later he⟩

lemma Since.run {s₀ u : System ι} {h₀ : ℕ} (h : Since loads M address s₀ a h₀ u)
    (ha : Cluster.Safe (kv loads M address) s₀.raft a)
    (hr : Run (System.step (kv loads M address)) (AtRaft (Cluster.AtDelivery Cluster.Timely)) u s) :
    Since loads M address s₀ a h₀ s :=
  Run.invariant (fun _ _ _ hi hc he => hi.step ha hc he) hr h

lemma init_since : Since loads M address (init (kv loads M address)) (State.init ι Entry) 0
    (init (kv loads M address)) where
  sound := init_sound _
  safe := ⟨_, .refl _, Cluster.init_safe _⟩
  later _ _ _ hm := (List.not_mem_nil hm).elim
  reads _ _ _ hm := (List.not_mem_nil hm).elim

lemma receive_since {s₀ : System ι}
    (h : Reachable (kv loads M address) (Cluster.AtDelivery Cluster.Timely) s₀)
    (ha : Cluster.Safe (kv loads M address) s₀.raft a) (i : ι) (request : Request) :
    Since loads M address s₀ a s₀.nextHandler (s₀.receive i request) := by
  have hsound := sound h
  refine ⟨hsound.step (e := .receive i request) rfl, ⟨a, .refl a, ha⟩,
    receive_later hsound.accounts i request, fun k value hle hm => ?_⟩
  rcases List.mem_append.mp hm with hm | hm
  · -- whoever has been answered had been received
    have hfirst : Since loads M address (init (kv loads M address)) (State.init ι Entry) 0 s₀ :=
      init_since.run (Cluster.init_safe _) h
    obtain ⟨j, b, key, lin, hrec, -⟩ := hfirst.reads k value k.zero_le hm
    exact absurd (hsound.accounts.numbered k j b _ hrec) (by omega)
  · cases List.mem_singleton.mp hm

/-- Among `es` are what the client of call `h` was told: its write was executed with this result, or
the answer is the stale one and a later request of the client was executed. -/
inductive Reflects (loads : Bytes → Except String CasSpec) (M : ℕ) (s : System ι) (es : List Entry)
    (h : ℕ) (req : Request) (r : Result) : Prop
  | executed (e : Entry) : s.WriteOf h req.clientId req.seqNum e → Executed loads M es e r →
      Reflects loads M s es h req r
  | stale (e : Entry) (r' : Result) : r = staleResult → e.clientId = req.clientId →
      req.seqNum < e.seqNum → Executed loads M es e r' → Reflects loads M s es h req r

/-- Entries that go on from what was applied when a write was acknowledged reflect it. -/
lemma Attested.reflects {h : ℕ} {r : Result} (ht : Attested loads M s h r) (ha : Accounts s)
    {es : List Entry} (hes : ∀ j b, s.applied j b <+: es) {i : ι} {boot : ℕ} {req : Request}
    (hrec : .received h i boot req ∈ s.history) : Reflects loads M s es h req r := by
  obtain ⟨j, b, req', hrec', -, hev⟩ := ht
  obtain ⟨-, -, rfl⟩ := ha.unique h _ _ _ _ _ _ hrec hrec'
  rcases hev with ⟨e, happ, hex⟩ | hans
  · exact .executed e (.inr happ) (hex.mono (hes j b))
  · cases hans with
    | executed e ht hc hq hex => exact .executed e (.inl ⟨ht, hc, hq⟩) (hex.mono (hes j b))
    | stale e r' ht hr hc hq hex => exact .stale e r' hr hc hq (hex.mono (hes j b))

/-- A linearizable read that arrived in `s₀` reads a state that has executed, in log order, every write
acknowledged before, apart from those that were answered as stale. -/
theorem linearizable_read (loads : Bytes → Except String CasSpec) (M : ℕ) (address : ι → String)
    (s₀ s : System ι)
    (h₀ : Reachable (kv loads M address) (Cluster.AtDelivery Cluster.Timely) s₀) (i : ι) (key : String)
    (hrun : Run (System.step (kv loads M address)) (AtRaft (Cluster.AtDelivery Cluster.Timely))
      (s₀.receive i (.get key true)) s) (value : Option Bytes × ℕ × Bool)
    (hread : .replied s₀.nextHandler (.read value) ∈ s.history) :
    ∃ es, ReadSince loads M s₀ s i (s₀.raft.nodes i).boot key value es ∧
      es <+: (s.raft.nodes i).log ∧
      ∀ h j b req r, .received h j b req ∈ s₀.history → .replied h (.written r) ∈ s₀.history →
        Reflects loads M s₀ es h req r := by
  have hsound := sound h₀
  obtain ⟨a, ha⟩ := Cluster.safe (run_raft h₀)
  have hend := (receive_since h₀ ha i (.get key true)).run ha hrun
  obtain ⟨b, -, hb⟩ := hend.safe
  obtain ⟨j, boot, key', lin, hrec, hsince⟩ := hend.reads _ _ le_rfl hread
  have hself : .received s₀.nextHandler i (s₀.raft.nodes i).boot (.get key true) ∈ s.history := by
    exact (run_history hrun).subset (List.mem_append_right _ (List.mem_singleton.mpr rfl))
  obtain ⟨rfl, rfl, hreq⟩ := hend.sound.accounts.unique _ _ _ _ _ _ _ hself hrec
  cases hreq
  obtain ⟨es, hes⟩ := hsince rfl
  refine ⟨es, hes, hes.isPrefix.trans (hb.serving.tracks.committed (hb.applied i _).1).1, ?_⟩
  intro h j b req r hr hw
  exact (answered h₀ h r hw).reflects hsound.accounts hes.since hr

/-- Call `h`, a linearizable read at node 0, gets to its wait. -/
def barrier (h : ℕ) : List (Event (Fin 3)) := [.proceed h, .proceed h, .append h]

/-- Node 0 commits the barrier of call 2 with node 1 and answers the read. -/
def barrierRead : List (Event (Fin 3)) :=
  barrier 2 ++ (Cluster.replicate 0 1 4).map .raft ++ [.raft (.applierTakes 0)] ++ applies 0 ++
    [.returns 2, .proceed 2]

lemma late_put_then_read : ∃ s₀ s : System (Fin 3),
    Reachable three (Cluster.AtDelivery Cluster.Timely) s₀ ∧
    Run (System.step three) (AtRaft (Cluster.AtDelivery Cluster.Timely))
      (s₀.receive 0 (.get "k" true)) s ∧
    s₀.nextHandler = 2 ∧ (s₀.raft.nodes 0).boot = 0 ∧
    s₀.history = [.received 0 0 0 (.put "k" [2] "c" 2), .appended 0 secondEntry,
      .replied 0 (.written secondReply), .received 1 0 0 (.put "k" [1] "c" 1),
      .replied 1 (.written staleResult)] ∧
    s.history = s₀.history ++ [.received 2 0 0 (.get "k" true),
      .appended 2 ⟨1, 3, .noop, "", [], "", 0⟩, .replied 2 (.read (some [2], 1, true))] := by
  obtain ⟨s₀, hs₀, hnext, hboot, hh, hread⟩ := Run.exists_of_execute
    (guarded (System.step three) (AtRaft (Cluster.AtDelivery Cluster.Timely))) (init three) lateFirst
    (fun s => s.nextHandler = 2 ∧ (s.raft.nodes 0).boot = 0 ∧
      s.history = [.received 0 0 0 (.put "k" [2] "c" 2), .appended 0 secondEntry,
        .replied 0 (.written secondReply), .received 1 0 0 (.put "k" [1] "c" 1),
        .replied 1 (.written staleResult)] ∧
      (execute (guarded (System.step three) (AtRaft (Cluster.AtDelivery Cluster.Timely)))
        (s.receive 0 (.get "k" true)) barrierRead).any (fun t =>
          t.history = s.history ++ [.received 2 0 0 (.get "k" true),
            .appended 2 ⟨1, 3, .noop, "", [], "", 0⟩,
            .replied 2 (.read (some [2], 1, true))]) = true) (by decide +kernel)
  obtain ⟨s, hs, ht⟩ := Run.exists_of_execute _ _ barrierRead _ hread
  exact ⟨s₀, s, hs₀.of_guarded, hs.of_guarded, hnext, hboot, hh, ht⟩

/-- A late put of client `c` is told success before the read, and no process has applied it at the end
of it. -/
theorem linearizable_read_late_put : ∃ s₀ s : System (Fin 3),
    Reachable three (Cluster.AtDelivery Cluster.Timely) s₀ ∧
    Run (System.step three) (AtRaft (Cluster.AtDelivery Cluster.Timely))
      (s₀.receive 0 (.get "k" true)) s ∧
    .received 1 0 0 (.put "k" [1] "c" 1) ∈ s₀.history ∧
    (∃ reply : Reply (Fin 3), .replied 1 reply ∈ s₀.history ∧ reply.put = some ⟨true, 0, none⟩) ∧
    .replied s₀.nextHandler (.read (some [2], 1, true)) ∈ s.history ∧
    ∀ j boot e, e ∈ s.applied j boot → ¬ (e.clientId = "c" ∧ e.seqNum = 1) := by
  obtain ⟨s₀, s, hs₀, hs, hnext, -, hh, ht⟩ := late_put_then_read
  refine ⟨s₀, s, hs₀, hs, by simp [hh], ⟨.written staleResult, by simp [hh], rfl⟩,
    by simp [ht, hnext], ?_⟩
  rintro j boot e he ⟨hc, hq⟩
  have hall : Run (System.step three) (AtRaft (Cluster.AtDelivery Cluster.Timely)) (init three) s :=
    (Run.tail (e := Event.receive 0 (.get "k" true)) hs₀ trivial rfl).trans hs
  obtain ⟨k, i, b, req, happ, -⟩ := (sound hall).appender he (by rw [hc, hq]; decide)
  rw [ht, hh] at happ
  simp only [List.cons_append, List.nil_append, List.mem_cons, Exchange.appended.injEq, reduceCtorEq,
    List.not_mem_nil, or_false, false_or] at happ
  rcases happ with ⟨-, rfl⟩ | ⟨-, rfl⟩
  · cases hq
  · exact absurd hc (by decide)

theorem linearizable_read_second_first : ∃ (s₀ s : System (Fin 3)) (es : List Entry),
    ReadSince noCas 10 s₀ s 0 0 "k" (some [2], 1, true) es ∧
    Reflects noCas 10 s₀ es 0 (.put "k" [2] "c" 2) secondReply := by
  obtain ⟨s₀, s, hs₀, hs, hnext, hboot, hh, ht⟩ := late_put_then_read
  obtain ⟨es, hes, -, hall⟩ := linearizable_read noCas 10 (fun _ => "") s₀ s hs₀ 0 "k" hs
    (some [2], 1, true) (by simp [ht, hnext])
  rw [hboot] at hes
  exact ⟨s₀, s, es, hes, hall 0 0 0 _ _ (by simp [hh]) (by simp [hh])⟩

end System

end DistributedStorage.Kv
