import DistributedStorage.Kv.LinearizableReads
import DistributedStorage.Kv.VersionedMap
import DistributedStorage.Library.Paths

/-! The history of the cluster as its clients see it, and the books that tie it to the log: which call
appended an entry, which call was received when, and that a call is answered once. -/

set_option linter.unusedSectionVars false

namespace DistributedStorage.Kv

open Library Library.LeaderLogs Library.Linearizability Raft Runs

/-- An operation goes by the identity its client gave it, if it has one: a retry is the same operation. -/
inductive OpName
  | client (clientId : String) (seqNum : ℤ)
  | call (h : ℕ)
  deriving DecidableEq

namespace Request

def name (req : Request) (h : ℕ) : OpName :=
  if Tracked req.clientId req.seqNum then .client req.clientId req.seqNum else .call h

/-- The operation on the map. A default read promises nothing. -/
def mapOp : Request → Option MapOp
  | .get key linearizable => if linearizable then some (.get key) else none
  | .put key value _ _ => some (.write (.put key value))
  | .delete key _ _ => some (.write (.delete key))
  | .cas key expected newValue expectAbsent expectedVersion _ _ =>
    some (.write (.cas key ⟨expectAbsent, expectedVersion, expected, newValue⟩))

lemma mapOp_write {req : Request} (h : req.isGet = false) : req.mapOp = some (.write req.operation) := by
  cases req with
  | get key linearizable => cases h
  | _ => rfl

lemma mapOp_get {key : String} {linearizable : Bool} {op : MapOp}
    (h : (Request.get key linearizable).mapOp = some op) : linearizable = true ∧ op = .get key := by
  cases linearizable with
  | false => cases h
  | true =>
    cases h
    exact ⟨rfl, rfl⟩

lemma name_get (key : String) (linearizable : Bool) (h : ℕ) : (Request.get key linearizable).name h = .call h :=
  if_neg fun ht => ht.1 rfl

/-- Operations of one name carry one identity or are one call. -/
lemma name_inj {req req' : Request} {h h' : ℕ} (heq : req.name h = req'.name h') :
    (Tracked req.clientId req.seqNum ∧ req'.clientId = req.clientId ∧ req'.seqNum = req.seqNum) ∨ h = h' := by
  simp only [name] at heq
  split_ifs at heq with ht ht'
  · obtain ⟨hc, hq⟩ := OpName.client.inj heq
    exact Or.inl ⟨ht, hc.symm, hq.symm⟩
  · exact Or.inr (OpName.call.inj heq)

lemma command_not_noop {req : Request} (h : req.isGet = false) (term idx : ℕ) :
    (req.command.entry term idx).opType ≠ .noop := by
  cases req <;> simp_all [command, Command.entry, isGet]

end Request

/-- The answer an operation is counted with. The stale answer says no more than that the client has moved
on, and a failure or an abort leaves open whether the operation takes effect. -/
def Reply.mapAnswer {ι : Type} : Reply ι → Option MapAnswer
  | .written result => if result = staleResult then none else some (.written result)
  | .read value => some (.read value)
  | .aborted => none
  | .failure _ => none

namespace System

variable {ι : Type}

/-- What call `h` asked for. -/
def request (s : System ι) (h : ℕ) : Option Request :=
  s.history.findSome? fun
    | .received k _ _ req => if k = h then some req else none
    | _ => none

def operation (s : System ι) : Exchange ι → Option (Happening OpName MapOp MapAnswer)
  | .received h _ _ req => req.mapOp.map (.invoked (req.name h))
  | .appended _ _ => none
  | .replied h reply => (s.request h).bind fun req =>
    if req.mapOp.isSome then reply.mapAnswer.map (.answered (req.name h)) else none

/-- The writes and linearizable reads that clients see, in the order in which they see them. -/
def operations (s : System ι) : List (Happening OpName MapOp MapAnswer) :=
  s.history.filterMap s.operation

/-- Calls with one identity repeat one request. -/
def Repeats (s : System ι) : Prop :=
  ∀ h i b req k j c req', .received h i b req ∈ s.history → .received k j c req' ∈ s.history →
    Tracked req.clientId req.seqNum → req'.clientId = req.clientId → req'.seqNum = req.seqNum → req = req'

variable [DecidableEq ι] [Fintype ι] {cfg : Config ι KVStateMachine Result} {s t : System ι}

lemma Accounts.request_eq (ha : Accounts s) {h : ℕ} {i : ι} {b : ℕ} {req : Request}
    (hrec : .received h i b req ∈ s.history) : s.request h = some req := by
  have hall : ∀ l ⊆ s.history, .received h i b req ∈ l → (l.findSome? fun
      | .received k _ _ req => if k = h then some req else none
      | _ => none) = some req := by
    intro l
    induction l with
    | nil => exact fun _ hm => (List.not_mem_nil hm).elim
    | cons x l ih =>
      intro hsub hm
      obtain ⟨hx, hl⟩ := List.cons_subset.mp hsub
      cases x with
      | received k j c req' =>
        by_cases hk : k = h
        · subst hk
          obtain ⟨-, -, rfl⟩ := ha.unique k _ _ _ _ _ _ hrec hx
          simp
        · have htail : .received h i b req ∈ l := by simpa [Ne.symm hk] using hm
          simp [hk, ih hl htail]
      | appended k e => simpa using ih hl (by simpa using hm)
      | replied k reply => simpa using ih hl (by simpa using hm)
  exact hall s.history (List.Subset.refl _) hrec

/-- A step adds one exchange to the history at most. -/
lemma Change.adds (hc : Change cfg s t) : t.history = s.history ∨ ∃ x, t.history = s.history ++ [x] := by
  have htold : ∀ {r : System ι} {h hd p}, r.history = s.history →
      (r.advance h hd p).history = s.history ∨ ∃ x, (r.advance h hd p).history = s.history ++ [x] := by
    intro r h hd p hr
    rw [advance_history, hr]
    cases p with
    | goes stage => exact Or.inl (List.append_nil _)
    | replies reply => exact Or.inr ⟨_, rfl⟩
  cases hc with
  | raft e r _ _ => exact Or.inl rfl
  | receive i request => exact Or.inr ⟨_, rfl⟩
  | proceeds h hd p _ _ => exact htold rfl
  | appends h hd m w _ _ _ => exact Or.inr ⟨_, rfl⟩
  | refused h hd exc _ _ _ => exact htold rfl
  | returns h hd w m c value r _ _ _ _ => exact htold rfl
  | timesOut h hd w m c r _ _ _ _ => exact htold rfl

/-- Calls received later have later numbers. -/
def Renumbers (s t : System ι) : Prop :=
  s.nextHandler ≤ t.nextHandler ∧ ∀ h i b req, .received h i b req ∈ t.history →
    .received h i b req ∈ s.history ∨ s.nextHandler ≤ h

lemma Change.renumbers (hc : Change cfg s t) : Renumbers s t := by
  have hold : ∀ {r : System ι} {h hd p}, r.history = s.history → r.nextHandler = s.nextHandler →
      Renumbers s (r.advance h hd p) := by
    intro r h hd p hr hn
    refine ⟨?_, fun k i b req hm => Or.inl ?_⟩
    · rw [advance_nextHandler, hn]
    · rw [advance_history, hr] at hm
      exact (List.mem_append.mp hm).resolve_right (received_told h p)
  cases hc with
  | raft e r _ _ => exact ⟨le_rfl, fun h i b req hm => Or.inl hm⟩
  | receive i request =>
    refine ⟨Nat.le_succ _, fun h j b req hm => ?_⟩
    rcases List.mem_append.mp hm with hm | hm
    · exact Or.inl hm
    · cases List.mem_singleton.mp hm
      exact Or.inr le_rfl
  | proceeds h hd p _ _ => exact hold rfl rfl
  | appends h hd m w _ _ _ =>
    refine ⟨le_rfl, fun k i b req hm => Or.inl ?_⟩
    rcases List.mem_append.mp hm with hm | hm
    · exact hm
    · cases List.mem_singleton.mp hm
  | refused h hd exc _ _ _ => exact hold rfl rfl
  | returns h hd w m c value r _ _ _ _ => exact hold rfl rfl
  | timesOut h hd w m c r _ _ _ _ => exact hold rfl rfl

lemma run_renumbers {C : System ι → Event ι → Prop} (h : Run (System.step cfg) C s t) : Renumbers s t := by
  refine Run.relation (I := fun _ => True) (R := Renumbers) (fun u => ⟨le_rfl, fun h i b req hm => Or.inl hm⟩)
    ?_ (fun _ _ _ _ _ _ => trivial) (fun _ _ _ _ _ he => (step_change he).renumbers) h trivial
  intro u v w huv hvw
  refine ⟨huv.1.trans hvw.1, fun h i b req hm => ?_⟩
  rcases hvw.2 h i b req hm with hv | hle
  · exact huv.2 h i b req hv
  · exact Or.inr (huv.1.trans hle)

/-- A call that has been answered is over, and was answered once. -/
structure Concluded (s : System ι) : Prop where
  ended : ∀ h reply, .replied h reply ∈ s.history → h < s.nextHandler ∧ s.handlers h = none
  once : ∀ h reply reply', .replied h reply ∈ s.history → .replied h reply' ∈ s.history → reply = reply'

lemma Concluded.advance (h : Concluded s) {r : System ι} (hr : r.history = s.history)
    (hn : r.nextHandler = s.nextHandler) (hh : r.handlers = s.handlers) {k : ℕ} {hd : Handler ι}
    (hlive : s.handlers k = some hd) (hlt : k < s.nextHandler) (p : Progress ι) :
    Concluded (r.advance k hd p) := by
  have hnot : ∀ reply, .replied k reply ∉ s.history := by
    intro reply hm
    rw [(h.ended k reply hm).2] at hlive
    cases hlive
  refine ⟨fun l reply hm => ?_, fun l reply reply' hm hm' => ?_⟩
  · rw [advance_history, hr] at hm
    rw [advance_nextHandler, hn, advance_handlers, hh]
    rcases List.mem_append.mp hm with hold | hm
    · obtain ⟨hl, hnone⟩ := h.ended l reply hold
      have hne : l ≠ k := by
        rintro rfl
        exact hnot reply hold
      exact ⟨hl, by rw [Function.update_of_ne hne, hnone]⟩
    · obtain ⟨rfl, rfl⟩ := told_replied hm
      exact ⟨hlt, by rw [Function.update_self, next]⟩
  · rw [advance_history, hr] at hm hm'
    rcases List.mem_append.mp hm with hold | hm
    · rcases List.mem_append.mp hm' with hold' | hm'
      · exact h.once l reply reply' hold hold'
      · obtain ⟨rfl, -⟩ := told_replied hm'
        exact (hnot reply hold).elim
    · obtain ⟨rfl, rfl⟩ := told_replied hm
      rcases List.mem_append.mp hm' with hold' | hm'
      · exact (hnot reply' hold').elim
      · obtain ⟨-, heq⟩ := told_replied hm'
        cases heq
        rfl

lemma Concluded.change (h : Concluded s) (ha : Accounts s) (hc : Change cfg s t) : Concluded t := by
  have hlt : ∀ {k hd}, s.live k = some hd → s.handlers k = some hd ∧ k < s.nextHandler := by
    intro k hd hlive
    obtain ⟨hh, -⟩ := live_eq hlive
    exact ⟨hh, ha.numbered k _ _ _ (ha.known k hd hh)⟩
  cases hc with
  | raft e r _ _ => exact ⟨h.ended, h.once⟩
  | receive i request =>
    have hold : ∀ {l reply}, .replied l reply ∈ (s.receive i request).history →
        .replied l reply ∈ s.history := by
      intro l reply hm
      rcases List.mem_append.mp hm with hm | hm
      · exact hm
      · cases List.mem_singleton.mp hm
    refine ⟨fun l reply hm => ?_, fun l reply reply' hm hm' => h.once l _ _ (hold hm) (hold hm')⟩
    obtain ⟨hl, hnone⟩ := h.ended l reply (hold hm)
    exact ⟨Nat.lt_succ_of_lt hl, (Function.update_of_ne hl.ne ..).trans hnone⟩
  | proceeds k hd p hlive _ => exact h.advance rfl rfl rfl (hlt hlive).1 (hlt hlive).2 p
  | appends k hd m w hlive _ _ =>
    have hold : ∀ {l reply}, .replied l reply ∈ s.history ++ [Exchange.appended (ι := ι) k
        (hd.request.command.entry (s.raft.nodes hd.node).currentTerm
          ((s.raft.nodes hd.node).lastLogIndex + 1))] → .replied l reply ∈ s.history := by
      intro l reply hm
      rcases List.mem_append.mp hm with hm | hm
      · exact hm
      · cases List.mem_singleton.mp hm
    refine ⟨fun l reply hm => ?_, fun l reply reply' hm hm' => h.once l _ _ (hold hm) (hold hm')⟩
    obtain ⟨hl, hnone⟩ := h.ended l reply (hold hm)
    have hne : l ≠ k := by
      rintro rfl
      rw [(hlt hlive).1] at hnone
      cases hnone
    exact ⟨hl, (Function.update_of_ne hne ..).trans hnone⟩
  | refused k hd exc hlive _ _ => exact h.advance rfl rfl rfl (hlt hlive).1 (hlt hlive).2 _
  | returns k hd w m c value r hlive _ _ _ =>
    exact h.advance (r := { s with raft := r }) rfl rfl rfl (hlt hlive).1 (hlt hlive).2 _
  | timesOut k hd w m c r hlive _ _ _ =>
    exact h.advance (r := { s with raft := r }) rfl rfl rfl (hlt hlive).1 (hlt hlive).2 _

lemma concluded {C : System ι → Event ι → Prop} (h : Run (System.step cfg) C (init cfg) s) : Concluded s := by
  induction h with
  | refl => exact ⟨fun _ _ hm => (List.not_mem_nil hm).elim, fun _ _ _ hm => (List.not_mem_nil hm).elim⟩
  | tail hrun he ih =>
    obtain ⟨e, -, hs⟩ := he
    exact ih.change (sound hrun).accounts (step_change hs)

lemma appendEntry_leads {n m : Node ι KVStateMachine Result} {cmd : Command} {w : ℕ}
    (h : n.appendEntry cfg cmd = .ok (m, w)) : m.currentTerm = n.currentTerm ∧ m.state = .leader := by
  simp only [Node.appendEntry] at h
  split_ifs at h with hl
  cases h
  exact ⟨rfl, not_not.mp hl⟩

/-- The entries that calls appended are in the leader logs, each appended by one call. -/
structure Logged (a : State ι Entry) (s : System ι) : Prop where
  within : ∀ h e, .appended h e ∈ s.history → e.index ≤ (a.leaderLog e.term).length
  once : ∀ h k e, .appended h e ∈ s.history → .appended k e ∈ s.history → h = k

lemma Logged.grow {a b : State ι Entry} (h : Logged a s) (hg : Grows a b)
    (ht : ∀ k e, .appended k e ∈ t.history → .appended k e ∈ s.history) : Logged b t where
  within k e hm := (h.within k e (ht k e hm)).trans (hg.leaderLog e.term).length_le
  once k l e hm hm' := h.once k l e (ht k e hm) (ht l e hm')

lemma Logged.change {a b : State ι Entry} (h : Logged a s) (ha : Cluster.Serving cfg s.raft a) (hg : Grows a b)
    (hb : Cluster.Serving cfg t.raft b) (hc : Change cfg s t) : Logged b t := by
  have hold : ∀ {r : System ι} {l hd p}, r.history = s.history → ∀ k e,
      .appended k e ∈ (r.advance l hd p).history → .appended k e ∈ s.history := by
    intro r l hd p hr k e hm
    rw [advance_history, hr] at hm
    exact (List.mem_append.mp hm).resolve_right (appended_told l p)
  cases hc with
  | raft e r _ _ => exact h.grow hg fun _ _ hm => hm
  | receive i request =>
    refine h.grow hg fun k e hm => ?_
    rcases List.mem_append.mp hm with hm | hm
    · exact hm
    · cases List.mem_singleton.mp hm
  | proceeds l hd p _ _ => exact h.grow hg (hold rfl)
  | refused l hd exc _ _ _ => exact h.grow hg (hold rfl)
  | returns l hd w m c value r _ _ _ _ => exact h.grow hg (hold rfl)
  | timesOut l hd w m c r _ _ _ _ => exact h.grow hg (hold rfl)
  | appends l hd m w _ _ hm =>
    obtain ⟨hlead, -, hlog, -⟩ := appendEntry_frame hm
    obtain ⟨hterm, hstate⟩ := appendEntry_leads hm
    have hself : (s.raft.setNode hd.node m).nodes hd.node = m := by
      rw [Cluster.setNode_nodes, Function.update_self]
    have hbefore := (ha.tracks.refines.leader hd.node hlead).1
    have hafter := (hb.tracks.refines.leader hd.node (by rw [hself]; exact hstate)).1
    have hidx := (ha.tracks.aligned hd.node).lastLogIndex
    rw [hself, hterm, hlog] at hafter
    have hnew : ∀ {k f}, .appended k f ∈ s.history → f ≠ hd.request.command.entry
        (s.raft.nodes hd.node).currentTerm ((s.raft.nodes hd.node).lastLogIndex + 1) := by
      rintro k _ hk rfl
      have hle := h.within k _ hk
      change (s.raft.nodes hd.node).lastLogIndex + 1 ≤
        (a.leaderLog (s.raft.nodes hd.node).currentTerm).length at hle
      rw [hbefore] at hle
      omega
    refine ⟨fun k f hk => ?_, fun k k' f hk hk' => ?_⟩
    · rcases List.mem_append.mp hk with hk | hk
      · exact (h.within k f hk).trans (hg.leaderLog f.term).length_le
      · cases List.mem_singleton.mp hk
        change (s.raft.nodes hd.node).lastLogIndex + 1 ≤
          (b.leaderLog (s.raft.nodes hd.node).currentTerm).length
        rw [hafter, List.length_append, List.length_singleton]
        omega
    · rcases List.mem_append.mp hk with hk | hk
      · rcases List.mem_append.mp hk' with hk' | hk'
        · exact h.once k k' f hk hk'
        · cases List.mem_singleton.mp hk'
          exact (hnew hk rfl).elim
      · cases List.mem_singleton.mp hk
        rcases List.mem_append.mp hk' with hk' | hk'
        · exact (hnew hk' rfl).elim
        · cases List.mem_singleton.mp hk'
          rfl

lemma logged {Q : Cluster ι KVStateMachine Result → Message ι → Prop}
    (h : Run (System.step cfg) (AtRaft (Cluster.AtDelivery Q)) (init cfg) s) :
    ∃ a, Cluster.Serving cfg s.raft a ∧ Logged a s := by
  induction h with
  | refl =>
    exact ⟨_, ⟨Cluster.init_tracks cfg, Cluster.init_waiterInv cfg, Cluster.init_applierInv cfg⟩,
      fun _ _ hm => (List.not_mem_nil hm).elim, fun _ _ _ hm => (List.not_mem_nil hm).elim⟩
  | tail _ he ih =>
    obtain ⟨e, hc, hs⟩ := he
    obtain ⟨a, ha, hlogged⟩ := ih
    rcases step_raft hc hs with heq | ⟨e', -, hs'⟩
    · exact ⟨a, heq ▸ ha, hlogged.change ha (.refl a) (heq ▸ ha) (step_change hs)⟩
    · obtain ⟨b, hab, hb⟩ := ha.step hs'
      exact ⟨b, hb, hlogged.change ha (run_grows hab) hb (step_change hs)⟩

end System

end DistributedStorage.Kv
