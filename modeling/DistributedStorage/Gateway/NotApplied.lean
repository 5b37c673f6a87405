import DistributedStorage.Gateway.Attempts

/-! What a client may conclude when the gateway finds the cluster unavailable: its write is in no log, unless
a node that had appended it answered that it is not the leader. -/

set_option linter.unusedSectionVars false

namespace DistributedStorage

open Library Raft Kv Runs

variable {ι : Type} [DecidableEq ι] [Fintype ι] {cfg : Config ι KVStateMachine Result}

namespace Kv.System

variable {s t : System ι}

lemma Change.done (hc : Change cfg s t) {h : ℕ} (hh : s.handlers h = none) (hlt : h < s.nextHandler) :
    t.handlers h = none := by
  have hlive : ∀ {k hd}, s.live k = some hd → h ≠ k := by
    rintro k hd hk rfl
    rw [(live_eq hk).1] at hh
    cases hh
  have hold : ∀ {r : System ι} {k hd p}, s.live k = some hd → r.handlers = s.handlers →
      (r.advance k hd p).handlers h = none := by
    intro r k hd p hk hr
    rw [advance_handlers, Function.update_of_ne (hlive hk), hr, hh]
  cases hc with
  | raft e r _ _ => exact hh
  | receive i request => exact (Function.update_of_ne hlt.ne _ _).trans hh
  | proceeds k hd p hk _ => exact hold hk rfl
  | appends k hd m w hk _ _ => exact (Function.update_of_ne (hlive hk) _ _).trans hh
  | refused k hd exc hk _ _ => exact hold hk rfl
  | returns k hd w m c value r hk _ _ _ => exact hold hk rfl
  | timesOut k hd w m c r hk _ _ _ => exact hold hk rfl

/-- Only a handler that is at work appends. -/
lemma Change.appended (hc : Change cfg s t) {h : ℕ} {f : Entry} (hh : s.handlers h = none)
    (hm : .appended h f ∈ t.history) : .appended h f ∈ s.history := by
  have hold : ∀ {k p}, t.history = s.history ++ told k p → .appended h f ∈ s.history := by
    intro k p hist
    rw [hist] at hm
    rcases List.mem_append.mp hm with hm | hm
    · exact hm
    · exact (appended_told k p hm).elim
  cases hc with
  | raft e r _ _ => exact hm
  | receive i request =>
    rcases List.mem_append.mp hm with hm | hm
    · exact hm
    · cases List.mem_singleton.mp hm
  | proceeds k hd p _ _ => exact hold (advance_history s k hd p)
  | appends k hd m w hlive _ _ =>
    rcases List.mem_append.mp hm with hm | hm
    · exact hm
    · cases List.mem_singleton.mp hm
      rw [(live_eq hlive).1] at hh
      cases hh
  | refused k hd exc _ _ _ => exact hold (advance_history s k hd _)
  | returns k hd w m c value r _ _ _ _ => exact hold (advance_history _ k hd _)
  | timesOut k hd w m c r _ _ _ _ => exact hold (advance_history _ k hd _)

/-- What is known of the handlers that have replied: they are done, and one that replied with an error that
`K` accepts had appended nothing. -/
structure Closed (K : Error ι → Prop) (s : System ι) (h : ℕ) : Prop where
  done : ∀ reply, .replied h reply ∈ s.history → s.handlers h = none
  refused : ∀ exc, K exc → .replied h (.failure exc) ∈ s.history → ∀ f, .appended h f ∉ s.history

/-- Handler `h` waits for its commit, and its waiter has been handed an error that `K` accepts. -/
def Failed (K : Error ι → Prop) (s : System ι) (h : ℕ) : Prop :=
  ∃ hd w c exc, s.live h = some hd ∧ hd.stage = .waiting w ∧ (s.raft.nodes hd.node).calls w = some c ∧
    c.result = some (.error exc) ∧ K exc

lemma callReturns_error {n m : Node ι KVStateMachine Result} {w : ℕ} {c : Call ι Result} {exc : Error ι}
    (h : n.callReturns w = some (m, c, .error exc)) : n.calls w = some c ∧ c.result = some (.error exc) := by
  simp only [Node.callReturns] at h
  split at h
  · rename_i d hd
    split_ifs at h
    split at h
    · cases h
    · cases h
    · rename_i e hres
      cases h
      exact ⟨hd, hres⟩
  · cases h

/-- A failure comes from before the append, from the waiter, or from the clock. -/
lemma Replies.failure {e : Event ι} {h : ℕ} {exc : Error ι} (hr : Replies cfg s h e (.failure exc)) :
    (∃ hd, s.handlers h = some hd ∧ hd.stage.early = true) ∨
      (e = .returns h ∧ ∀ K : Error ι → Prop, K exc → Failed K s h) ∨ ∃ idx, exc = .timeout idx := by
  cases hr with
  | proceeds hd reply hlive hp =>
    refine .inl ⟨hd, (live_eq hlive).1, ?_⟩
    cases hst : hd.stage with
    | waiting w =>
      rw [hst] at hp
      cases hp
    | reading =>
      rw [hst] at hp
      simp only [Handler.proceed] at hp
      split at hp <;> cases hp
    | _ => rfl
  | refused hd exc hlive hst _ => exact .inl ⟨hd, (live_eq hlive).1, by rw [hst]; rfl⟩
  | returns hd w m c value reply hlive hst hret hfinish =>
    refine .inr (.inl ⟨rfl, fun K hK => ?_⟩)
    cases value with
    | error e =>
      cases hfinish
      obtain ⟨hcall, hres⟩ := callReturns_error hret
      exact ⟨hd, w, c, exc, hlive, hst, hcall, hres, hK⟩
    | ok v =>
      simp only [Handler.finish] at hfinish
      split_ifs at hfinish
      cases v <;> cases hfinish
  | timesOut hd w m c _ _ _ => exact .inr (.inr ⟨c.index, rfl⟩)

lemma Closed.step {K : Error ι → Prop} {e : Event ι} {h : ℕ} (hk : Closed K s h) (ha : Accounts s)
    (hlt : h < s.nextHandler) (he : System.step cfg s e = some t) (htime : ∀ idx, ¬ K (.timeout idx))
    (hfail : e = .returns h → ¬ Failed K s h) : Closed K t h := by
  have hc := step_change he
  constructor
  · intro reply hm
    rcases step_replied he hm with hm | ⟨⟨-, hnone⟩, -⟩
    · exact hc.done (hk.done reply hm) hlt
    · exact hnone
  · intro exc hK hm f hf
    rcases step_replied he hm with hm | ⟨⟨hist, -⟩, hr⟩
    · exact hk.refused exc hK hm f (hc.appended (hk.done _ hm) hf)
    · rw [hist] at hf
      have hf : .appended h f ∈ s.history := by simpa using hf
      rcases hr.failure with ⟨hd, hh, hearly⟩ | ⟨rfl, hfailed⟩ | ⟨idx, rfl⟩
      · exact ha.early h hd f hh hearly hf
      · exact hfail rfl (hfailed K hK)
      · exact htime idx hK

/-- Who is answered has been received. -/
def Heard (s : System ι) : Prop :=
  ∀ h reply, .replied h reply ∈ s.history → ∃ i boot req, .received h i boot req ∈ s.history

lemma Replies.live {e : Event ι} {h : ℕ} {reply : Reply ι} (hr : Replies cfg s h e reply) :
    ∃ hd, s.handlers h = some hd := by
  cases hr with
  | proceeds hd reply hlive _ => exact ⟨hd, (live_eq hlive).1⟩
  | refused hd exc hlive _ _ => exact ⟨hd, (live_eq hlive).1⟩
  | returns hd w m c value reply hlive _ _ _ => exact ⟨hd, (live_eq hlive).1⟩
  | timesOut hd w m c hlive _ _ => exact ⟨hd, (live_eq hlive).1⟩

lemma Heard.step {e : Event ι} (hh : Heard s) (ha : Accounts s) (he : System.step cfg s e = some t) :
    Heard t := by
  obtain ⟨new, hnew⟩ := (step_change he).history
  intro h reply hm
  rcases step_replied he hm with hm | ⟨-, hr⟩
  · obtain ⟨i, boot, req, hrec⟩ := hh h reply hm
    exact ⟨i, boot, req, hnew ▸ List.mem_append_left _ hrec⟩
  · obtain ⟨hd, hhd⟩ := hr.live
    exact ⟨hd.node, hd.boot, hd.request, hnew ▸ List.mem_append_left _ (ha.known h hd hhd)⟩

end Kv.System

namespace Gateway

/-- Nothing that the call has met speaks for its write having been appended. -/
def Undecided {ρ : Type} : Loop ⊕ CallOutcome ρ → Prop
  | .inl l => l.maybeApplied = false
  | .inr (.clusterUnavailable _) => True
  | .inr _ => False

lemma giveUp_undecided {ρ : Type} {c : RaftCluster} {l : Loop}
    (h : Undecided (.inr (c.giveUp l) : Loop ⊕ CallOutcome ρ)) : l.maybeApplied = false := by
  rw [RaftCluster.giveUp] at h
  split_ifs at h with hmaybe
  · exact h.elim
  · simpa using hmaybe

lemma goOn_undecided {ρ : Type} {c : RaftCluster} {deadline : ℚ} {t : Turn ρ} {l : Loop}
    (h : Undecided (c.goOn deadline t l).1) : l.maybeApplied = false := by
  simp only [RaftCluster.goOn, RaftCluster.pause] at h
  split_ifs at h
  · exact giveUp_undecided h
  · exact h

/-- After a turn of a write, only an attempt that was sent on leaves it so. -/
lemma turn_undecided {ρ : Type} {c : RaftCluster} {deadline : ℚ} {t : Turn ρ} {l : Loop}
    (h : Undecided (c.turn true deadline l t).1) (htime : ¬ min c.rpcTimeout (deadline - t.now) ≤ 0) :
    l.maybeApplied = false ∧ ∃ message resp, t.answer = .response false message resp ∧
      "NOT_LEADER:".toList <+: message.toList := by
  rw [RaftCluster.turn, if_neg htime] at h
  cases hans : t.answer with
  | rpcError code details =>
    rw [hans] at h
    dsimp only at h
    split_ifs at h
    · have hmaybe := goOn_undecided h
      simp at hmaybe
    · exact h.elim
  | response success message resp =>
    rw [hans] at h
    dsimp only at h
    split_ifs at h with hsuccess hprefix
    · exact h.elim
    · obtain rfl : success = false := by simpa using hsuccess
      refine ⟨?_, message, resp, rfl, hprefix⟩
      split at h
      · exact h.elim
      · split_ifs at h
        · exact h
        · have hmaybe := goOn_undecided h
          exact hmaybe
      · have hmaybe := goOn_undecided h
        exact hmaybe
    · exact h.elim

namespace Write

variable {w : Write ι} {s t : Frontend ι}

/-- The gateway takes the error for the answer of a node that is not the leader. -/
def Redirects (w : Write ι) (exc : Error ι) : Prop :=
  "NOT_LEADER:".toList <+: (w.errorMessage exc).toList

lemma not_redirects_timeout (idx : ℕ) : ¬ w.Redirects (.timeout idx) := by
  intro h
  simp only [Redirects, errorMessage, String.toList_append] at h
  obtain ⟨rest, hrest⟩ := h
  have hhead := congrArg List.head? hrest
  simp at hhead

/-- No handler of the write that waits for its commit returns to find such an error in its waiter. -/
def KeepsWaiting (w : Write ι) (s : Frontend ι) : FrontEvent ι → Prop
  | .system (.returns h) => h ∈ s.handlers → ¬ s.system.Failed w.Redirects h
  | _ => True

lemma replyTo_mem {s : System ι} {h : ℕ} {reply : Reply ι} (hr : replyTo s h = some reply) :
    .replied h reply ∈ s.history := by
  obtain ⟨x, hx, hfound⟩ := List.exists_of_findSome?_eq_some hr
  cases x with
  | replied k r =>
    dsimp only at hfound
    split_ifs at hfound with hk
    cases hfound
    exact hk ▸ hx
  | received k i boot request => cases hfound
  | appended k e => cases hfound

/-- The handlers of the write, and what they have answered as long as the call is undecided. -/
structure Inv (cfg : Config ι KVStateMachine Result) (w : Write ι) (s : Frontend ι) : Prop where
  sound : System.Sound cfg s.system
  heard : s.system.Heard
  mine : ∀ h ∈ s.handlers, ∃ i boot, .received h i boot w.request ∈ s.system.history
  closed : ∀ h ∈ s.handlers, System.Closed w.Redirects s.system h
  begun : ∀ a, s.attempt = some a → (∃ l, s.call = .inl l) ∧
    ¬ min w.cluster.rpcTimeout (w.deadline - a.now) ≤ 0
  answered : Undecided s.call → s.inTransit = [] ∧ ∀ h ∈ s.handlers,
    (∃ a, s.attempt = some a ∧ a.handler = some h) ∨
      ∃ exc, w.Redirects exc ∧ .replied h (.failure exc) ∈ s.system.history

lemma init_inv : Inv cfg w (w.init cfg) where
  sound := System.init_sound cfg
  heard _ _ hm := (List.not_mem_nil hm).elim
  mine _ hm := (List.not_mem_nil hm).elim
  closed _ hm := (List.not_mem_nil hm).elim
  begun _ ha := by cases ha
  answered _ := ⟨rfl, fun _ hm => (List.not_mem_nil hm).elim⟩

variable {e : FrontEvent ι}

lemma Inv.numbered (hi : Inv cfg w s) {h : ℕ} (hh : h ∈ s.handlers) : h < s.system.nextHandler := by
  obtain ⟨i, boot, hrec⟩ := hi.mine h hh
  exact hi.sound.accounts.numbered h i boot _ hrec

lemma Inv.arrive (hi : Inv cfg w s) (i : ι) : System.Sound cfg (w.arrive s i).system ∧
    (w.arrive s i).system.Heard ∧ ∀ h ∈ (w.arrive s i).handlers,
      (∃ j boot, .received h j boot w.request ∈ (w.arrive s i).system.history) ∧
        System.Closed w.Redirects (w.arrive s i).system h := by
  have he : System.step cfg s.system (.receive i w.request) = some (w.arrive s i).system := rfl
  refine ⟨hi.sound.step he, hi.heard.step hi.sound.accounts he, fun h hm => ?_⟩
  have hrec : .received s.system.nextHandler i (s.system.raft.nodes i).boot w.request ∈
      (w.arrive s i).system.history := List.mem_append_right _ (List.mem_singleton.mpr rfl)
  rcases List.mem_append.mp hm with hm | hm
  · refine ⟨?_, (hi.closed h hm).step hi.sound.accounts (hi.numbered hm) he not_redirects_timeout ?_⟩
    · obtain ⟨j, boot, hold⟩ := hi.mine h hm
      exact ⟨j, boot, List.mem_append_left _ hold⟩
    · intro heq
      cases heq
  · -- nobody has answered a handler that has not been there
    obtain rfl := List.mem_singleton.mp hm
    have hquiet : ∀ reply, .replied s.system.nextHandler reply ∉ (w.arrive s i).system.history := by
      intro reply hreply
      rcases List.mem_append.mp hreply with hreply | hreply
      · obtain ⟨j, boot, req, hold⟩ := hi.heard _ _ hreply
        exact (hi.sound.accounts.numbered _ _ _ _ hold).false
      · cases List.mem_singleton.mp hreply
    exact ⟨⟨i, _, hrec⟩, fun reply hreply => (hquiet reply hreply).elim,
      fun exc _ hreply => (hquiet _ hreply).elim⟩

lemma Inv.step (hi : Inv cfg w s) (hc : w.KeepsWaiting s e) (he : w.step cfg s e = some t) :
    Inv cfg w t := by
  cases step_moves he with
  | system e r hr =>
    obtain ⟨new, hnew⟩ := (System.step_change hr).history
    have hgrow : ∀ x ∈ s.system.history, x ∈ r.history := fun x hx => hnew ▸ List.mem_append_left _ hx
    refine ⟨hi.sound.step hr, hi.heard.step hi.sound.accounts hr, fun h hm => ?_, fun h hm => ?_, hi.begun,
      fun hu => ?_⟩
    · obtain ⟨i, boot, hrec⟩ := hi.mine h hm
      exact ⟨i, boot, hgrow _ hrec⟩
    · refine (hi.closed h hm).step hi.sound.accounts (hi.numbered hm) hr not_redirects_timeout ?_
      rintro rfl
      exact hc hm
    · obtain ⟨htransit, hanswered⟩ := hi.answered hu
      refine ⟨htransit, fun h hm => (hanswered h hm).imp_right ?_⟩
      rintro ⟨exc, hexc, hreply⟩
      exact ⟨exc, hexc, hgrow _ hreply⟩
  | late now l hl hattempt hlate =>
    refine ⟨hi.sound, hi.heard, hi.mine, hi.closed, ?_, fun hu => hi.answered ?_⟩
    · intro a ha
      rw [hattempt] at ha
      cases ha
    · rw [hl]
      exact giveUp_undecided hu
  | begins now l hl hattempt hlate =>
    refine ⟨hi.sound, hi.heard, hi.mine, hi.closed, ?_, fun hu => ?_⟩
    · rintro a ha
      cases ha
      exact ⟨⟨l, hl⟩, hlate⟩
    · obtain ⟨htransit, hanswered⟩ := hi.answered hu
      refine ⟨htransit, fun h hm => ?_⟩
      rcases hanswered h hm with ⟨a, ha, -⟩ | hreply
      · rw [hattempt] at ha
        cases ha
      · exact .inr hreply
  | arrives now l hl hattempt =>
    obtain ⟨hsound, hheard, hmine⟩ := hi.arrive (w.server l.node)
    refine ⟨hsound, hheard, fun h hm => (hmine h hm).1, fun h hm => (hmine h hm).2, ?_, fun hu => ?_⟩
    · rintro a ha
      cases ha
      exact hi.begun ⟨now, none⟩ hattempt
    · obtain ⟨htransit, hanswered⟩ := hi.answered hu
      refine ⟨htransit, fun h hm => ?_⟩
      rcases List.mem_append.mp hm with hm | hm
      · rcases hanswered h hm with ⟨a, ha, hhandler⟩ | ⟨exc, hexc, hreply⟩
        · rw [hattempt] at ha
          cases ha
          cases hhandler
        · exact .inr ⟨exc, hexc, List.mem_append_left _ hreply⟩
      · exact .inl ⟨_, rfl, congrArg some (List.mem_singleton.mp hm).symm⟩
  | arrivesLate k i hk =>
    obtain ⟨hsound, hheard, hmine⟩ := hi.arrive i
    refine ⟨hsound, hheard, fun h hm => (hmine h hm).1, fun h hm => (hmine h hm).2, hi.begun, fun hu => ?_⟩
    rw [(hi.answered hu).1] at hk
    cases hk
  | answered jitter later now l h reply answer hl hattempt hreply hanswer =>
    refine ⟨hi.sound, hi.heard, hi.mine, hi.closed, ?_, fun hu => ?_⟩
    · rintro a ha
      cases ha
    have hu : Undecided (w.cluster.turn true w.deadline l ⟨now, answer, jitter, later⟩).1 := hu
    obtain ⟨hmaybe, message, resp, hresponse, hprefix⟩ := turn_undecided hu (hi.begun ⟨now, some h⟩ hattempt).2
    obtain ⟨htransit, hanswered⟩ := hi.answered (by rw [hl]; exact hmaybe)
    refine ⟨htransit, fun k hm => .inr ?_⟩
    rcases hanswered k hm with ⟨a, ha, hhandler⟩ | hold
    · rw [hattempt] at ha
      cases ha
      cases hhandler
      obtain rfl : answer = .response false message resp := hresponse
      cases reply with
      | failure exc =>
        cases hanswer
        exact ⟨exc, hprefix, replyTo_mem hreply⟩
      | aborted => cases hanswer
      | written result => cases hanswer
      | read value => cases hanswer
    · exact hold
  | fails code details jitter later l a hl hattempt =>
    refine ⟨hi.sound, hi.heard, hi.mine, hi.closed, ?_, fun hu => ?_⟩
    · rintro a ha
      cases ha
    have hu : Undecided (w.cluster.turn true w.deadline l ⟨a.now, .rpcError code details, jitter, later⟩).1 := hu
    obtain ⟨-, message, resp, hresponse, -⟩ := turn_undecided hu (hi.begun a hattempt).2
    cases hresponse

/-- When the gateway finds the cluster unavailable, no request of the call has appended anything, then or
later: whatever has the identity of the write, in a log or applied, was appended for somebody else. -/
theorem unavailable_not_applied (w : Write ι) (cfg : Config ι KVStateMachine Result) (s : Frontend ι)
    (hrun : Run (w.step cfg) w.KeepsWaiting (w.init cfg) s) (message : String)
    (h : s.call = .inr (.clusterUnavailable message)) :
    (∀ k ∈ s.handlers, ∀ e, .appended k e ∉ s.system.history) ∧
      ∀ e : Entry, Tracked w.request.clientId w.request.seqNum → e.clientId = w.request.clientId →
        e.seqNum = w.request.seqNum →
        ((∃ i, e ∈ (s.system.raft.nodes i).log) ∨ ∃ i boot, e ∈ s.system.applied i boot) →
        ∃ k, k ∉ s.handlers ∧ .appended k e ∈ s.system.history := by
  have hi : Inv cfg w s := Run.invariant (I := Inv cfg w) (fun _ _ _ hu hc he => hu.step hc he) hrun init_inv
  have hnone : ∀ k ∈ s.handlers, ∀ e, .appended k e ∉ s.system.history := by
    intro k hk
    have hu : Undecided s.call := by
      rw [h]
      trivial
    rcases (hi.answered hu).2 k hk with ⟨a, ha, -⟩ | ⟨exc, hexc, hreply⟩
    · obtain ⟨⟨l, hl⟩, -⟩ := hi.begun a ha
      rw [h] at hl
      cases hl
    · exact (hi.closed k hk).refused exc hexc hreply
  refine ⟨hnone, fun e ht hc hq hmem => ?_⟩
  have hasked : s.system.Asked e := by
    rcases hmem with ⟨i, he⟩ | ⟨i, boot, he⟩
    · exact hi.sound.asked.log i e he
    · obtain ⟨idx, r, hr⟩ := System.mem_applied.mp he
      exact (hi.sound.asked.applied i boot _ hr).1
  obtain ⟨term, n, rfl⟩ | ⟨k, happ⟩ := hasked
  · exact (ht.1 hc.symm).elim
  · exact ⟨k, fun hk => hnone k hk e happ, happ⟩

/-- The call is given two seconds. -/
def threeNodes : RaftCluster where
  addresses := ["a:1", "b:2", "c:3"]
  nonempty := by decide
  rpcTimeout := 3
  requestDeadline := 2
  deadlineText := "2"
  isDigit := Char.isDigit
  decimal := asciiDigit

def putOne : Write (Fin 3) where
  cluster := threeNodes
  server := Fin.ofNat 3
  idText i := toString i.val
  exceptionName := "Exception"
  request := .put "k" [1] "c" 1
  isWrite := rfl
  hint := 0
  start := 0

def unavailable : String := "no leader reachable within 2s (a:1 is not the leader)"

/-- The call sends its request to node 0, and the handler gets to its wait. -/
def sends : List (FrontEvent (Fin 3)) :=
  [.begins 0, .arrives] ++ (System.submits 0).map .system

/-- Node 1 stores the entry of node 0 and is elected with the vote of node 0. The handler at node 0 hears
that it is not the leader any more, and the deadline of the call has come. -/
def deposed : List (FrontEvent (Fin 3)) :=
  (Cluster.campaign 0 1 0 [1]).map (.system ∘ .raft) ++ sends ++
    List.map (.system ∘ .raft) ([.sendAppendEntries 0 1, .deliver 2] ++ Cluster.campaign 1 2 4 [0]) ++
    [.system (.returns 0), .answered 1 2]

/-- Node 1 commits the entry with node 2 and applies it. -/
def commits : List (FrontEvent (Fin 3)) :=
  List.map (.system ∘ .raft) (Cluster.replicate 1 2 6 ++ Cluster.replicate 1 2 8 ++ [.applierTakes 1]) ++
    List.map .system (System.applies 1 ++ System.applies 1 ++ System.applies 1)

/-- The handler answers that its node is not the leader, having appended the entry. The gateway finds the
cluster unavailable, and the entry is applied after that. -/
theorem unavailable_applied : ∃ s t : Frontend (Fin 3),
    Run (putOne.step System.three) Free (putOne.init System.three) s ∧
    s.call = .inr (.clusterUnavailable unavailable) ∧ Run (putOne.step System.three) Free s t ∧
    t.call = s.call ∧ t.system.history = [.received 0 0 0 putOne.request,
      .appended 0 ⟨1, 2, .put, "k", [1], "c", 1⟩, .replied 0 (.failure (.notLeader none none))] ∧
    ∃ e ∈ t.system.applied 1 0, e.clientId = putOne.request.clientId ∧ e.seqNum = putOne.request.seqNum := by
  obtain ⟨s, hs, hcall, ht⟩ := Run.exists_of_execute (putOne.step System.three) (putOne.init System.three)
    deposed (fun s => s.call = .inr (.clusterUnavailable unavailable) ∧
      (execute (putOne.step System.three) s commits).any (fun t => t.call = s.call ∧
        t.system.history = [.received 0 0 0 putOne.request,
          .appended 0 ⟨1, 2, .put, "k", [1], "c", 1⟩, .replied 0 (.failure (.notLeader none none))] ∧
        ∃ e ∈ t.system.applied 1 0, e.clientId = putOne.request.clientId ∧
          e.seqNum = putOne.request.seqNum) = true) (by decide +kernel)
  obtain ⟨t, ht, hsame, hhistory, happlied⟩ := Run.exists_of_execute _ _ _ _ ht
  exact ⟨s, t, hs, hcall, ht, hsame, hhistory, happlied⟩

/-- A wait ends. -/
def returning : FrontEvent ι → Bool
  | .system (.returns _) => true
  | _ => false

lemma keepsWaiting_of_returning (h : returning e = false) : w.KeepsWaiting s e := by
  cases e with
  | system e =>
    cases e with
    | returns k => cases h
    | _ => trivial
  | _ => trivial

/-- No node leads. -/
def leaderless : List (FrontEvent (Fin 3)) :=
  [.begins 0, .arrives] ++ List.map .system [.proceed 0, .proceed 0, .proceed 0, .proceed 0] ++ [.answered 1 2]

theorem unavailable_not_applied_leaderless : ∃ s : Frontend (Fin 3), s.handlers = [0] ∧
    s.call = .inr (.clusterUnavailable unavailable) ∧ ∀ e, .appended 0 e ∉ s.system.history := by
  obtain ⟨s, hs, hhandlers, hcall⟩ := Run.exists_of_execute
    (guarded (putOne.step System.three) fun _ e => returning e = false) (putOne.init System.three) leaderless
    (fun s => s.handlers = [0] ∧ s.call = .inr (.clusterUnavailable unavailable)) (by decide +kernel)
  have hrun : Run (putOne.step System.three) putOne.KeepsWaiting (putOne.init System.three) s :=
    hs.of_guarded.mono fun _ _ => keepsWaiting_of_returning
  exact ⟨s, hhandlers, hcall, (unavailable_not_applied putOne System.three s hrun unavailable hcall).1 0
    (by rw [hhandlers]; exact List.mem_singleton.mpr rfl)⟩

end Write

end Gateway

end DistributedStorage
