import DistributedStorage.Kv.Accounts
import DistributedStorage.Kv.Sessions

/-! What a handler's answer stands for: every result it reports was given by executing an entry on the
process that answered. -/

set_option linter.unusedSectionVars false

namespace DistributedStorage.Kv

open Library Raft Runs

variable {ι : Type} [DecidableEq ι]

/-- No entry restores a snapshot, and noops have no client. -/
def Plain (es : List Entry) : Prop :=
  ∀ e ∈ es, e.opType ≠ .snapshot ∧ (e.opType = .noop → e.clientId = "")

variable {loads : Bytes → Except String CasSpec} {M : ℕ} {address : ι → String}

lemma apply_noop (m : KVStateMachine) {e : Entry} (hop : e.opType = .noop) (hc : e.clientId = "") :
    m.apply loads e = (m, .ok (.ofPairs [("success", .bool true)])) := by
  have hs : e.opType ≠ .snapshot := by simp [hop]
  have ht : ¬ Tracked e.clientId e.seqNum := fun ht => ht.1 hc
  rw [KVStateMachine.apply, if_neg hs]
  simp only [if_neg ht, Tables.applyOp, hop]

lemma applyEntry_fst (m : KVStateMachine) {e : Entry} (hc : e.opType = .noop → e.clientId = "") :
    ((kv loads M address).applyEntry m e).1 = (m.apply loads e).1 := by
  by_cases hop : e.opType = .noop
  · rw [apply_noop m hop (hc hop), Config.applyEntry, if_pos hop]
  · rw [Config.applyEntry, if_neg hop]
    rfl

/-- The node's machine is the machine run over the entries. -/
lemma replay_eq {es : List Entry} (h : Plain es) :
    (kv loads M address).replay es = (KVStateMachine.init M).run loads es := by
  induction es using List.reverseRecOn with
  | nil => rfl
  | append_singleton es e ih =>
    rw [Config.replay_concat, KVStateMachine.run_concat, ih fun f hf => h f (by simp [hf])]
    exact applyEntry_fst _ (h e (by simp)).2

lemma applyEntry_snd {m : KVStateMachine} {e : Entry} {r : Result}
    (h : ((kv loads M address).applyEntry m e).2 = some (.ok r)) :
    e.opType ≠ .noop ∧ (m.apply loads e).2 = .ok r := by
  by_cases hop : e.opType = .noop
  · rw [Config.applyEntry, if_pos hop] at h
    cases h
  · rw [Config.applyEntry, if_neg hop] at h
    refine ⟨hop, ?_⟩
    have h' := Option.some.inj h
    change ((m.apply loads e).2.mapError _) = _ at h'
    cases hr : (m.apply loads e).2 with
    | error exc =>
      rw [hr] at h'
      cases h'
    | ok r' =>
      rw [hr] at h'
      cases h'
      rfl

section

variable [Fintype ι]

lemma entry_opType (req : Request) (term idx : ℕ) :
    (req.command.entry term idx).opType ≠ .snapshot ∧
      ((req.command.entry term idx).opType = .noop → (req.command.entry term idx).clientId = "") := by
  cases req <;> simp [Request.command, Command.entry]

namespace System

variable {cfg : Config ι KVStateMachine Result} {s t : System ι}

lemma Asked.plain {e : Entry} (ha : Accounts s) (h : s.Asked e) :
    e.opType ≠ .snapshot ∧ (e.opType = .noop → e.clientId = "") := by
  rcases h with ⟨term, idx, rfl⟩ | ⟨h, happ⟩
  · simp [noopEntry]
  · obtain ⟨i, b, req, -, he⟩ := ha.appended h e happ
    rw [he]
    exact entry_opType req e.term e.index

/-- What process `boot` of node `i` has applied. -/
def applied (s : System ι) (i : ι) (boot : ℕ) : List Entry := entries (records s.raft.trace i boot)

lemma mem_applied {i : ι} {boot : ℕ} {e : Entry} :
    e ∈ s.applied i boot ↔ ∃ idx r, (idx, e, r) ∈ records s.raft.trace i boot := by
  simp [applied, entries]

lemma Sound.plain (h : Sound cfg s) (i : ι) (boot : ℕ) : Plain (s.applied i boot) := by
  intro e he
  obtain ⟨idx, r, hr⟩ := mem_applied.mp he
  exact (h.asked.applied i boot _ hr).1.plain h.accounts

lemma Change.trace (hc : Change cfg s t) : s.raft.trace <+: t.raft.trace := by
  have hraft {e : Raft.Event ι} {r : Cluster ι KVStateMachine Result}
      (hr : Cluster.step cfg s.raft e = some r) : s.raft.trace <+: r.trace :=
    (Cluster.step_change_free hr).service.trace
  cases hc with
  | raft e r _ hr => exact hraft hr
  | receive i request => exact List.prefix_rfl
  | proceeds h hd p _ _ => rw [advance_raft]
  | appends h hd m w _ _ _ => exact List.prefix_rfl
  | refused h hd exc _ _ _ => exact List.prefix_rfl
  | returns h hd w m c value r _ _ _ hr =>
    rw [advance_raft]
    exact hraft hr
  | timesOut h hd w m c r _ _ _ hr =>
    rw [advance_raft]
    exact hraft hr

lemma applied_mono (h : s.raft.trace <+: t.raft.trace) (i : ι) (boot : ℕ) :
    s.applied i boot <+: t.applied i boot := by
  obtain ⟨obs, hobs⟩ := h
  rw [applied, applied, ← hobs, records_append, entries, entries, List.map_append]
  exact List.prefix_append _ _

lemma Sound.sm {s : System ι} (h : Sound (kv loads M address) s) (i : ι) :
    (s.raft.nodes i).sm =
      (KVStateMachine.init M).run loads (s.applied i (s.raft.nodes i).boot) := by
  obtain ⟨a, ha⟩ := h.serving
  rw [(ha.applier.applies i).sm]
  exact replay_eq (h.plain i _)

/-- The result in a record, and the place where the entry was applied. -/
lemma Sound.record_at (h : Sound (kv loads M address) s) {i : ι} {boot idx : ℕ} {e : Entry}
    {r : Result} (hr : (idx, e, some (.ok r)) ∈ records s.raft.trace i boot) :
    ∃ pre, pre ++ [e] <+: s.applied i boot ∧ (Executed loads M (pre ++ [e]) e r ∨
      Answers loads M (pre ++ [e]) e.clientId e.seqNum r) := by
  obtain ⟨a, ha⟩ := h.serving
  obtain ⟨pre, post, hsplit⟩ := List.append_of_mem hr
  have happ : entries pre ++ [e] <+: s.applied i boot := by
    rw [applied, hsplit]
    simp [entries]
  have hplain := h.plain i boot
  have hpre : Plain (entries pre) := fun f hf =>
    hplain f (happ.subset (List.mem_append_left _ hf))
  have hrep := ha.applier.replayed i boot pre _ post hsplit
  rw [replay_eq hpre] at hrep
  obtain ⟨-, hok⟩ := applyEntry_snd hrep.symm
  have hans := apply_answers (fun f hf => (hplain f (happ.subset hf)).1) hok
  exact ⟨entries pre, happ, hans.imp_right fun hx => hx.mono (List.prefix_append _ _)⟩

lemma Sound.record (h : Sound (kv loads M address) s) {i : ι} {boot idx : ℕ} {e : Entry} {r : Result}
    (hr : (idx, e, some (.ok r)) ∈ records s.raft.trace i boot) :
    Executed loads M (s.applied i boot) e r ∨
      Answers loads M (s.applied i boot) e.clientId e.seqNum r := by
  obtain ⟨pre, hpre, hans⟩ := h.record_at hr
  exact hans.imp (fun hx => hx.mono hpre) fun hx => hx.mono hpre

/-- The evidence behind a result that was handed to the client of call `h`. -/
def Attested (loads : Bytes → Except String CasSpec) (M : ℕ) (s : System ι) (h : ℕ) (r : Result) :
    Prop :=
  ∃ i boot req, .received h i boot req ∈ s.history ∧ req.isGet = false ∧
    ((∃ e, .appended h e ∈ s.history ∧ Executed loads M (s.applied i boot) e r) ∨
      Answers loads M (s.applied i boot) req.clientId req.seqNum r)

lemma Attested.grow {h : ℕ} {r : Result} (ha : Attested loads M s h r) (hc : Change cfg s t) :
    Attested loads M t h r := by
  obtain ⟨new, hnew⟩ := hc.history
  have hgrow : ∀ x ∈ s.history, x ∈ t.history := fun x hx => hnew ▸ List.mem_append_left _ hx
  have hmono := applied_mono hc.trace
  obtain ⟨i, boot, req, hrec, hget, ⟨e, happ, hex⟩ | hans⟩ := ha
  · exact ⟨i, boot, req, hgrow _ hrec, hget, .inl ⟨e, hgrow _ happ, hex.mono (hmono i boot)⟩⟩
  · exact ⟨i, boot, req, hgrow _ hrec, hget, .inr (hans.mono (hmono i boot))⟩

lemma proceed_written {n : Node ι KVStateMachine Result} {request : Request} {stage : Stage}
    {r : Result} (h : Handler.proceed cfg n request stage = some (.replies (.written r))) :
    stage = .lookingUp ∧ n.sm.lookupSession request.clientId request.seqNum = some r := by
  cases stage with
  | checkingIsolation =>
    simp only [Handler.proceed] at h
    split_ifs at h <;> cases h
  | lookingUp =>
    simp only [Handler.proceed] at h
    split at h
    · rename_i cached hcached
      cases h
      exact ⟨rfl, hcached⟩
    · cases h
  | checkingLeader =>
    simp only [Handler.proceed] at h
    split_ifs at h
    · cases h
    · split at h <;> cases h
  | redirecting => cases h
  | appending => cases h
  | waiting w => cases h
  | reading =>
    simp only [Handler.proceed] at h
    split at h <;> cases h

lemma finish_written {request : Request} {value : Except (Error ι) (Option Result)} {r : Result}
    (h : Handler.finish request value = .replies (.written r)) :
    value = .ok (some r) ∧ request.isGet = false := by
  cases value with
  | error exc => cases h
  | ok v =>
    simp only [Handler.finish] at h
    split_ifs at h with hget
    cases v with
    | none => cases h
    | some r' =>
      cases h
      exact ⟨rfl, by simpa using hget⟩

lemma isGet_clientId {req : Request} (h : req.isGet = true) : req.clientId = "" := by
  cases req with
  | get key lin => rfl
  | _ => cases h

lemma lookupSession_get {m : KVStateMachine} {req : Request} {r : Result}
    (h : m.lookupSession req.clientId req.seqNum = some r) : req.isGet = false := by
  by_contra hget
  rw [isGet_clientId (by simpa using hget)] at h
  cases h

/-- Every answer is attested. -/
def Answered (loads : Bytes → Except String CasSpec) (M : ℕ) (s : System ι) : Prop :=
  ∀ h r, .replied h (.written r) ∈ s.history → Attested loads M s h r

lemma Answered.step {e : Event ι} (ha : Answered loads M s) (hs : Sound (kv loads M address) s)
    (he : System.step (kv loads M address) s e = some t) : Answered loads M t := by
  have hc := step_change he
  have hknown : ∀ {h hd}, s.live h = some hd →
      .received h hd.node hd.boot hd.request ∈ s.history ∧
        (s.raft.nodes hd.node).boot = hd.boot := fun hl =>
    ⟨hs.accounts.known _ _ (live_eq hl).1, (live_eq hl).2⟩
  have hmono := applied_mono hc.trace
  obtain ⟨new, hnew⟩ := hc.history
  have hgrow : ∀ x ∈ s.history, x ∈ t.history := fun x hx => hnew ▸ List.mem_append_left _ hx
  intro k r hm
  rcases step_replied he hm with hm | ⟨-, hreplies⟩
  · exact (ha k r hm).grow hc
  cases hreplies with
  | proceeds hd reply hlive hp =>
    obtain ⟨hrec, hboot⟩ := hknown hlive
    obtain ⟨-, hlook⟩ := proceed_written hp
    refine ⟨hd.node, hd.boot, hd.request, hgrow _ hrec, lookupSession_get hlook, .inr ?_⟩
    rw [hs.sm hd.node, hboot] at hlook
    exact (lookupSession_answers (fun f hf => (hs.plain _ _ f hf).1) hlook).mono (hmono _ _)
  | returns hd w m c value reply hlive hstage hret hw =>
    obtain ⟨hrec, hboot⟩ := hknown hlive
    obtain ⟨rfl, hget⟩ := finish_written hw
    obtain ⟨a, hsv⟩ := hs.serving
    obtain ⟨-, hcall, -, -, hres⟩ := (hsv.waiters.waits hd.node).callReturns hret
    obtain ⟨c', hc', happ, -⟩ := hs.accounts.frame k hd w (live_eq hlive).1 hstage hboot
    rw [hcall] at hc'
    cases hc'
    have hattest := hs.record (hres (some r) rfl)
    rw [hboot] at hattest
    refine ⟨hd.node, hd.boot, hd.request, hgrow _ hrec, hget, ?_⟩
    refine hattest.imp (fun hex => ⟨c.entry, hgrow _ happ, hex.mono (hmono _ _)⟩) fun hans => ?_
    -- the entry carries the identity of the request
    obtain ⟨j, b, req, hrec', hentry⟩ := hs.accounts.appended k c.entry happ
    obtain ⟨-, -, rfl⟩ := hs.accounts.unique k _ _ _ _ _ _ hrec hrec'
    rw [hentry] at hans
    exact hans.mono (hmono _ _)

lemma answered {C : System ι → Event ι → Prop}
    (h : Run (System.step (kv loads M address)) C (init (kv loads M address)) s) :
    Answered loads M s := by
  induction h with
  | refl => exact fun k r hm => (List.not_mem_nil hm).elim
  | tail hrun he ih =>
    obtain ⟨e, -, hs⟩ := he
    exact ih.step (sound hrun) hs

end System

end

end DistributedStorage.Kv
