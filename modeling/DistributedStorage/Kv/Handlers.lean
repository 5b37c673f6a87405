import DistributedStorage.Kv.Servicer
import DistributedStorage.Raft.Provenance

/-! What one event can do to the handlers and the history: the inversion of `System.step`, and the
bookkeeping that ties handlers, frames of calls and the history together. -/

set_option linter.unusedSectionVars false

namespace DistributedStorage.Kv

open Library Raft Runs

variable {ι : Type} [DecidableEq ι] [Fintype ι]

namespace System

/-- Steps by their effect on the consensus engine and the handlers. -/
inductive Change (cfg : Config ι KVStateMachine Result) (s : System ι) : System ι → Prop
  | raft (e : Raft.Event ι) (r : Cluster ι KVStateMachine Result) : engine e = true →
      Cluster.step cfg s.raft e = some r → Change cfg s { s with raft := r }
  | receive (i : ι) (request : Request) : Change cfg s (s.receive i request)
  | proceeds (h : ℕ) (hd : Handler ι) (progress : Progress ι) : s.live h = some hd →
      Handler.proceed cfg (s.raft.nodes hd.node) hd.request hd.stage = some progress →
      Change cfg s (s.advance h hd progress)
  | appends (h : ℕ) (hd : Handler ι) (m : Node ι KVStateMachine Result) (w : ℕ) :
      s.live h = some hd → hd.stage = .appending →
      (s.raft.nodes hd.node).appendEntry cfg hd.request.command = .ok (m, w) →
      Change cfg s { s with
        raft := s.raft.setNode hd.node m
        handlers := Function.update s.handlers h (some { hd with stage := .waiting w })
        history := s.history ++ [.appended h (hd.request.command.entry
          (s.raft.nodes hd.node).currentTerm ((s.raft.nodes hd.node).lastLogIndex + 1))] }
  | refused (h : ℕ) (hd : Handler ι) (exc : Error ι) : s.live h = some hd →
      hd.stage = .appending →
      (s.raft.nodes hd.node).appendEntry cfg hd.request.command = .error exc →
      Change cfg s (s.advance h hd (.replies (.failure exc)))
  | returns (h : ℕ) (hd : Handler ι) (w : ℕ) (m : Node ι KVStateMachine Result)
      (c : Call ι Result) (value : Except (Error ι) (Option Result))
      (r : Cluster ι KVStateMachine Result) : s.live h = some hd → hd.stage = .waiting w →
      (s.raft.nodes hd.node).callReturns w = some (m, c, value) →
      Cluster.step cfg s.raft (.callReturns hd.node w) = some r →
      Change cfg s ({ s with raft := r }.advance h hd (Handler.finish hd.request value))
  | timesOut (h : ℕ) (hd : Handler ι) (w : ℕ) (m : Node ι KVStateMachine Result)
      (c : Call ι Result) (r : Cluster ι KVStateMachine Result) : s.live h = some hd →
      hd.stage = .waiting w → (s.raft.nodes hd.node).callTimesOut w = some (m, c) →
      Cluster.step cfg s.raft (.callTimesOut hd.node w) = some r →
      Change cfg s ({ s with raft := r }.advance h hd (.replies (.failure (.timeout c.index))))

variable {cfg : Config ι KVStateMachine Result} {s t : System ι}

lemma step_change {e : Event ι} (h : step cfg s e = some t) : Change cfg s t := by
  cases e with
  | raft e =>
    simp only [step] at h
    split_ifs at h with he
    obtain ⟨r, hr, rfl⟩ := Option.map_eq_some_iff.mp h
    exact .raft e r he hr
  | receive i request =>
    cases h
    exact .receive i request
  | proceed k =>
    obtain ⟨hd, hlive, h⟩ := Option.bind_eq_some_iff.mp h
    obtain ⟨progress, hp, rfl⟩ := Option.map_eq_some_iff.mp h
    exact .proceeds k hd progress hlive hp
  | append k =>
    obtain ⟨hd, hlive, h⟩ := Option.bind_eq_some_iff.mp h
    split_ifs at h with hstage
    cases h
    simp only [append]
    cases happ : (s.raft.nodes hd.node).appendEntry cfg hd.request.command with
    | ok out => exact .appends k hd out.1 out.2 hlive hstage happ
    | error exc => exact .refused k hd exc hlive hstage happ
  | returns k =>
    obtain ⟨hd, hlive, h⟩ := Option.bind_eq_some_iff.mp h
    split at h
    · rename_i w hstage
      obtain ⟨⟨m, c, value⟩, hret, h⟩ := Option.bind_eq_some_iff.mp h
      obtain ⟨r, hr, rfl⟩ := Option.map_eq_some_iff.mp h
      exact .returns k hd w m c value r hlive hstage hret hr
    · cases h
  | timesOut k =>
    obtain ⟨hd, hlive, h⟩ := Option.bind_eq_some_iff.mp h
    split at h
    · rename_i w hstage
      obtain ⟨⟨m, c⟩, hret, h⟩ := Option.bind_eq_some_iff.mp h
      obtain ⟨r, hr, rfl⟩ := Option.map_eq_some_iff.mp h
      exact .timesOut k hd w m c r hlive hstage hret hr
    · cases h

lemma live_eq {h : ℕ} {hd : Handler ι} (hl : s.live h = some hd) :
    s.handlers h = some hd ∧ (s.raft.nodes hd.node).boot = hd.boot := by
  obtain ⟨hh, hb⟩ := Option.filter_eq_some_iff.mp hl
  exact ⟨hh, by simpa using hb⟩

/-- What a handler adds to the history. -/
def told (h : ℕ) : Progress ι → List (Exchange ι)
  | .goes _ => []
  | .replies reply => [.replied h reply]

def next (hd : Handler ι) : Progress ι → Option (Handler ι)
  | .goes stage => some { hd with stage := stage }
  | .replies _ => none

section

variable (s : System ι) (h : ℕ) (hd : Handler ι) (p : Progress ι)

@[simp] lemma advance_raft : (s.advance h hd p).raft = s.raft := by cases p <;> rfl

@[simp] lemma advance_nextHandler : (s.advance h hd p).nextHandler = s.nextHandler := by
  cases p <;> rfl

lemma advance_handlers :
    (s.advance h hd p).handlers = Function.update s.handlers h (next hd p) := by cases p <;> rfl

lemma advance_history : (s.advance h hd p).history = s.history ++ told h p := by
  cases p with
  | goes stage => exact (List.append_nil _).symm
  | replies reply => rfl

lemma advance_withRaft (r : Cluster ι KVStateMachine Result) :
    { s with raft := r }.advance h hd p = { s.advance h hd p with raft := r } := by
  cases p <;> rfl

@[simp] lemma received_told {k b : ℕ} {i : ι} {req : Request} :
    .received k i b req ∉ told h p := by cases p <;> simp [told]

@[simp] lemma appended_told {k : ℕ} {e : Entry} : .appended k e ∉ told h p := by
  cases p <;> simp [told]

end

/-- How a handler comes to reply. -/
inductive Replies (cfg : Config ι KVStateMachine Result) (s : System ι) (h : ℕ) : Event ι → Reply ι → Prop
  | proceeds (hd : Handler ι) (reply : Reply ι) : s.live h = some hd →
      Handler.proceed cfg (s.raft.nodes hd.node) hd.request hd.stage = some (.replies reply) →
      Replies cfg s h (.proceed h) reply
  | refused (hd : Handler ι) (exc : Error ι) : s.live h = some hd → hd.stage = .appending →
      (s.raft.nodes hd.node).appendEntry cfg hd.request.command = .error exc →
      Replies cfg s h (.append h) (.failure exc)
  | returns (hd : Handler ι) (w : ℕ) (m : Node ι KVStateMachine Result) (c : Call ι Result)
      (value : Except (Error ι) (Option Result)) (reply : Reply ι) : s.live h = some hd →
      hd.stage = .waiting w → (s.raft.nodes hd.node).callReturns w = some (m, c, value) →
      Handler.finish hd.request value = .replies reply → Replies cfg s h (.returns h) reply
  | timesOut (hd : Handler ι) (w : ℕ) (m : Node ι KVStateMachine Result) (c : Call ι Result) :
      s.live h = some hd → hd.stage = .waiting w →
      (s.raft.nodes hd.node).callTimesOut w = some (m, c) →
      Replies cfg s h (.timesOut h) (.failure (.timeout c.index))

lemma told_replied {h k : ℕ} {p : Progress ι} {reply : Reply ι} (hm : .replied k reply ∈ told h p) :
    k = h ∧ p = .replies reply := by
  cases p with
  | goes stage => cases hm
  | replies reply =>
    cases List.mem_singleton.mp hm
    exact ⟨rfl, rfl⟩

/-- A reply is there already, or is given in this step and ends its handler. -/
lemma step_replied {e : Event ι} {h : ℕ} {reply : Reply ι} (he : step cfg s e = some t)
    (hm : .replied h reply ∈ t.history) : .replied h reply ∈ s.history ∨
      (t.history = s.history ++ [.replied h reply] ∧ t.handlers h = none) ∧ Replies cfg s h e reply := by
  have hnew : ∀ {r : System ι} {k hd p}, t = r.advance k hd p → r.history = s.history →
      .replied h reply ∈ s.history ∨ h = k ∧ p = .replies reply ∧
        t.history = s.history ++ [.replied h reply] ∧ t.handlers h = none := by
    intro r k hd p ht hr
    rw [ht, advance_history, hr] at hm
    rcases List.mem_append.mp hm with hm | hm
    · exact .inl hm
    · obtain ⟨rfl, rfl⟩ := told_replied hm
      refine .inr ⟨rfl, rfl, ?_, ?_⟩
      · rw [ht, advance_history, hr, told]
      · rw [ht, advance_handlers, Function.update_self, next]
  cases e with
  | raft e =>
    simp only [step] at he
    split_ifs at he
    obtain ⟨r, -, rfl⟩ := Option.map_eq_some_iff.mp he
    exact .inl hm
  | receive i request =>
    cases he
    rcases List.mem_append.mp hm with hm | hm
    · exact .inl hm
    · cases List.mem_singleton.mp hm
  | proceed k =>
    obtain ⟨hd, hlive, he⟩ := Option.bind_eq_some_iff.mp he
    obtain ⟨p, hp, rfl⟩ := Option.map_eq_some_iff.mp he
    refine (hnew rfl rfl).imp_right ?_
    rintro ⟨rfl, rfl, hist⟩
    exact ⟨hist, .proceeds hd reply hlive hp⟩
  | append k =>
    obtain ⟨hd, hlive, he⟩ := Option.bind_eq_some_iff.mp he
    split_ifs at he with hstage
    cases he
    simp only [append] at hm hnew ⊢
    cases happ : (s.raft.nodes hd.node).appendEntry cfg hd.request.command with
    | ok out =>
      rw [happ] at hm
      rcases List.mem_append.mp hm with hm | hm
      · exact .inl hm
      · cases List.mem_singleton.mp hm
    | error exc =>
      rw [happ] at hnew
      refine (hnew rfl rfl).imp_right ?_
      rintro ⟨rfl, hreply, hist⟩
      cases hreply
      exact ⟨hist, .refused hd exc hlive hstage happ⟩
  | returns k =>
    obtain ⟨hd, hlive, he⟩ := Option.bind_eq_some_iff.mp he
    split at he
    · rename_i w hstage
      obtain ⟨⟨m, c, value⟩, hret, he⟩ := Option.bind_eq_some_iff.mp he
      obtain ⟨r, -, rfl⟩ := Option.map_eq_some_iff.mp he
      refine (hnew rfl rfl).imp_right ?_
      rintro ⟨rfl, hfinish, hist⟩
      exact ⟨hist, .returns hd w m c value reply hlive hstage hret hfinish⟩
    · cases he
  | timesOut k =>
    obtain ⟨hd, hlive, he⟩ := Option.bind_eq_some_iff.mp he
    split at he
    · rename_i w hstage
      obtain ⟨⟨m, c⟩, hret, he⟩ := Option.bind_eq_some_iff.mp he
      obtain ⟨r, -, rfl⟩ := Option.map_eq_some_iff.mp he
      refine (hnew rfl rfl).imp_right ?_
      rintro ⟨rfl, hreply, hist⟩
      cases hreply
      exact ⟨hist, .timesOut hd w m c hlive hstage hret⟩
    · cases he

end System

/-- The stages before the log has been asked for anything. -/
def Stage.early : Stage → Bool
  | .waiting _ => false
  | .reading => false
  | _ => true

namespace System

/-- The evidence a reading handler has: its barrier, if it asked for one, has been applied. -/
def Barred (s : System ι) (h : ℕ) (hd : Handler ι) : Prop :=
  ∃ key linearizable, hd.request = .get key linearizable ∧ (linearizable = true →
    ∃ e r, .appended h e ∈ s.history ∧ (e.index, e, r) ∈ records s.raft.trace hd.node hd.boot)

/-- The books of the handlers. -/
structure Accounts (s : System ι) : Prop where
  numbered : ∀ h i boot req, .received h i boot req ∈ s.history → h < s.nextHandler
  unique : ∀ h i boot req j b req', .received h i boot req ∈ s.history →
    .received h j b req' ∈ s.history → i = j ∧ boot = b ∧ req = req'
  known : ∀ h hd, s.handlers h = some hd → .received h hd.node hd.boot hd.request ∈ s.history
  boot_le : ∀ h hd, s.handlers h = some hd → hd.boot ≤ (s.raft.nodes hd.node).boot
  early : ∀ h hd e, s.handlers h = some hd → hd.stage.early = true → .appended h e ∉ s.history
  frame : ∀ h hd w, s.handlers h = some hd → hd.stage = .waiting w →
    (s.raft.nodes hd.node).boot = hd.boot → ∃ c, (s.raft.nodes hd.node).calls w = some c ∧
      .appended h c.entry ∈ s.history ∧ c.entry.index = c.index
  owner : ∀ h hd k kd w, s.handlers h = some hd → s.handlers k = some kd →
    hd.stage = .waiting w → kd.stage = .waiting w → hd.node = kd.node → hd.boot = kd.boot →
    (s.raft.nodes hd.node).boot = hd.boot → h = k
  appended : ∀ h e, .appended h e ∈ s.history → ∃ i boot req,
    .received h i boot req ∈ s.history ∧ e = req.command.entry e.term e.index
  once : ∀ h e f, .appended h e ∈ s.history → .appended h f ∈ s.history → e = f
  reading : ∀ h hd, s.handlers h = some hd → hd.stage = .reading → s.Barred h hd

lemma init_accounts (cfg : Config ι KVStateMachine Result) : Accounts (init cfg) where
  numbered _ _ _ _ h := (List.not_mem_nil h).elim
  unique _ _ _ _ _ _ _ h := (List.not_mem_nil h).elim
  known _ _ h := by cases h
  boot_le _ _ h := by cases h
  early _ _ _ h := by cases h
  frame _ _ _ h := by cases h
  owner _ _ _ _ _ h := by cases h
  appended _ _ h := (List.not_mem_nil h).elim
  once _ _ _ h := (List.not_mem_nil h).elim
  reading _ _ h := by cases h

variable {cfg : Config ι KVStateMachine Result} {s t : System ι}

lemma Barred.grow {h : ℕ} {hd : Handler ι} (hb : s.Barred h hd)
    (hist : ∀ x ∈ s.history, x ∈ t.history) (htrace : s.raft.trace <+: t.raft.trace) :
    t.Barred h hd := by
  obtain ⟨key, lin, hreq, hbar⟩ := hb
  refine ⟨key, lin, hreq, fun hl => ?_⟩
  obtain ⟨e, r, happ, hrec⟩ := hbar hl
  obtain ⟨obs, hobs⟩ := htrace
  refine ⟨e, r, hist _ happ, ?_⟩
  rw [← hobs, records_append]
  exact List.mem_append_left _ hrec

/-- The consensus engine moves, and the frames that handlers wait on stay. -/
lemma Accounts.withRaft (ha : Accounts s) {r : Cluster ι KVStateMachine Result}
    (hboot : ∀ i, (s.raft.nodes i).boot ≤ (r.nodes i).boot) (htrace : s.raft.trace <+: r.trace)
    (hframe : ∀ h hd w c, s.handlers h = some hd → hd.stage = .waiting w →
      (s.raft.nodes hd.node).boot = hd.boot → (r.nodes hd.node).boot = hd.boot →
      (s.raft.nodes hd.node).calls w = some c →
      ∃ d, (r.nodes hd.node).calls w = some d ∧ d.entry = c.entry ∧ d.index = c.index) :
    Accounts { s with raft := r } where
  numbered := ha.numbered
  unique := ha.unique
  known := ha.known
  boot_le h hd hh := (ha.boot_le h hd hh).trans (hboot _)
  early := ha.early
  frame h hd w hh hst hb := by
    have hold : (s.raft.nodes hd.node).boot = hd.boot :=
      le_antisymm (hb ▸ hboot hd.node) (ha.boot_le h hd hh)
    obtain ⟨c, hc, happ, hidx⟩ := ha.frame h hd w hh hst hold
    obtain ⟨d, hdc, he, hi⟩ := hframe h hd w c hh hst hold hb hc
    exact ⟨d, hdc, he ▸ happ, by rw [he, hi, hidx]⟩
  owner h hd k kd w hh hk hst hkst hn hb hlive :=
    ha.owner h hd k kd w hh hk hst hkst hn hb
      (le_antisymm (hlive ▸ hboot hd.node) (ha.boot_le h hd hh))
  appended := ha.appended
  once := ha.once
  reading h hd hh hst := (ha.reading h hd hh hst).grow (fun _ hx => hx) htrace

lemma Accounts.advance (ha : Accounts s) {h : ℕ} {hd : Handler ι} {p : Progress ι}
    (hh : s.handlers h = some hd) (hearly : ∀ stage, p = .goes stage → stage.early = true →
      hd.stage.early = true) (hwait : ∀ w, p ≠ .goes (.waiting w))
    (hread : p = .goes .reading → s.Barred h hd) : Accounts (s.advance h hd p) := by
  have hrec : ∀ {k i b req}, .received k i b req ∈ (s.advance h hd p).history ↔
      .received k i b req ∈ s.history := by
    intro k i b req
    rw [advance_history, List.mem_append]
    exact or_iff_left (received_told h p)
  have happ : ∀ {k e}, .appended k e ∈ (s.advance h hd p).history ↔
      .appended k e ∈ s.history := by
    intro k e
    rw [advance_history, List.mem_append]
    exact or_iff_left (appended_told h p)
  have hold : ∀ {k kd}, (s.advance h hd p).handlers k = some kd →
      (k ≠ h ∧ s.handlers k = some kd) ∨
        (k = h ∧ ∃ stage, p = .goes stage ∧ kd = { hd with stage := stage }) := by
    intro k kd hk
    rw [advance_handlers] at hk
    by_cases hkh : k = h
    · subst hkh
      rw [Function.update_self] at hk
      cases p with
      | goes stage =>
        cases hk
        exact .inr ⟨rfl, stage, rfl, rfl⟩
      | replies reply => cases hk
    · rw [Function.update_of_ne hkh] at hk
      exact .inl ⟨hkh, hk⟩
  refine ⟨fun k i b req hm => ?_, fun k i b req j b' req' hm hm' => ?_, fun k kd hk => ?_,
    fun k kd hk => ?_, fun k kd e hk hst hm => ?_, fun k kd w hk hst hb => ?_,
    fun k kd l ld w hk hl hst hlst hn hb hlive => ?_, fun k e hm => ?_, fun k e f hm hm' => ?_,
    fun k kd hk hst => ?_⟩
  · rw [advance_nextHandler]
    exact ha.numbered k i b req (hrec.mp hm)
  · exact ha.unique k i b req j b' req' (hrec.mp hm) (hrec.mp hm')
  · rw [hrec]
    rcases hold hk with ⟨-, hk⟩ | ⟨rfl, stage, -, rfl⟩
    · exact ha.known k kd hk
    · exact ha.known k hd hh
  · rw [advance_raft]
    rcases hold hk with ⟨-, hk⟩ | ⟨rfl, stage, -, rfl⟩
    · exact ha.boot_le k kd hk
    · exact ha.boot_le k hd hh
  · rcases hold hk with ⟨-, hk⟩ | ⟨rfl, stage, hp, rfl⟩
    · exact ha.early k kd e hk hst (happ.mp hm)
    · exact ha.early k hd e hh (hearly stage hp hst) (happ.mp hm)
  · rw [advance_raft] at hb ⊢
    rcases hold hk with ⟨-, hk⟩ | ⟨rfl, stage, hp, rfl⟩
    · obtain ⟨c, hc, hm, hi⟩ := ha.frame k kd w hk hst hb
      exact ⟨c, hc, happ.mpr hm, hi⟩
    · exact (hwait w (hst ▸ hp)).elim
  · rw [advance_raft] at hlive
    rcases hold hk with ⟨-, hk⟩ | ⟨rfl, stage, hp, rfl⟩
    · rcases hold hl with ⟨-, hl⟩ | ⟨rfl, stage, hp, rfl⟩
      · exact ha.owner k kd l ld w hk hl hst hlst hn hb hlive
      · exact (hwait w (hlst ▸ hp)).elim
    · exact (hwait w (hst ▸ hp)).elim
  · obtain ⟨i, b, req, hr, he⟩ := ha.appended k e (happ.mp hm)
    exact ⟨i, b, req, hrec.mpr hr, he⟩
  · exact ha.once k e f (happ.mp hm) (happ.mp hm')
  · have hgrow : ∀ x ∈ s.history, x ∈ (s.advance h hd p).history := by
      intro x hx
      rw [advance_history]
      exact List.mem_append_left _ hx
    rcases hold hk with ⟨-, hk⟩ | ⟨rfl, stage, hp, rfl⟩
    · exact (ha.reading k kd hk hst).grow hgrow (by rw [advance_raft])
    · exact (hread (hst ▸ hp)).grow hgrow (by rw [advance_raft])

lemma Accounts.receive (ha : Accounts s) (i : ι) (request : Request) :
    Accounts (s.receive i request) := by
  have hnew : ∀ {j b req}, .received s.nextHandler j b req ∉ s.history := fun hm =>
    (ha.numbered _ _ _ _ hm).false
  have hrec : ∀ {k j b req}, .received k j b req ∈ (s.receive i request).history →
      .received k j b req ∈ s.history ∨
        (k = s.nextHandler ∧ j = i ∧ b = (s.raft.nodes i).boot ∧ req = request) := by
    intro k j b req hm
    rcases List.mem_append.mp hm with hm | hm
    · exact .inl hm
    · cases List.mem_singleton.mp hm
      exact .inr ⟨rfl, rfl, rfl, rfl⟩
  have happ : ∀ {k e}, .appended k e ∈ (s.receive i request).history →
      .appended k e ∈ s.history := by
    intro k e hm
    rcases List.mem_append.mp hm with hm | hm
    · exact hm
    · cases List.mem_singleton.mp hm
  have hgrow : ∀ x ∈ s.history, x ∈ (s.receive i request).history :=
    fun x hx => List.mem_append_left _ hx
  have hold : ∀ {k kd}, (s.receive i request).handlers k = some kd →
      (k ≠ s.nextHandler ∧ s.handlers k = some kd) ∨ (k = s.nextHandler ∧
        kd = ⟨i, (s.raft.nodes i).boot, request, .checkingIsolation⟩) := by
    intro k kd hk
    simp only [System.receive] at hk
    by_cases hkh : k = s.nextHandler
    · subst hkh
      rw [Function.update_self] at hk
      cases hk
      exact .inr ⟨rfl, rfl⟩
    · rw [Function.update_of_ne hkh] at hk
      exact .inl ⟨hkh, hk⟩
  refine ⟨fun k j b req hm => ?_, fun k j b req j' b' req' hm hm' => ?_, fun k kd hk => ?_,
    fun k kd hk => ?_, fun k kd e hk hst hm => ?_, fun k kd w hk hst hb => ?_,
    fun k kd l ld w hk hl hst hlst => ?_, fun k e hm => ?_,
    fun k e f hm hm' => ha.once k e f (happ hm) (happ hm'), fun k kd hk hst => ?_⟩
  · rcases hrec hm with hm | ⟨rfl, -⟩
    · exact (ha.numbered k j b req hm).trans (Nat.lt_succ_self _)
    · exact Nat.lt_succ_self _
  · rcases hrec hm with hm | ⟨rfl, rfl, rfl, rfl⟩
    · rcases hrec hm' with hm' | ⟨rfl, -⟩
      · exact ha.unique k j b req j' b' req' hm hm'
      · exact (hnew hm).elim
    · rcases hrec hm' with hm' | ⟨-, rfl, rfl, rfl⟩
      · exact (hnew hm').elim
      · exact ⟨rfl, rfl, rfl⟩
  · rcases hold hk with ⟨-, hk⟩ | ⟨rfl, rfl⟩
    · exact hgrow _ (ha.known k kd hk)
    · exact List.mem_append_right _ (List.mem_singleton.mpr rfl)
  · rcases hold hk with ⟨-, hk⟩ | ⟨rfl, rfl⟩
    · exact ha.boot_le k kd hk
    · exact le_rfl
  · rcases hold hk with ⟨-, hk⟩ | ⟨rfl, rfl⟩
    · exact ha.early k kd e hk hst (happ hm)
    · obtain ⟨j, b, req, hr, -⟩ := ha.appended _ e (happ hm)
      exact hnew hr
  · rcases hold hk with ⟨-, hk⟩ | ⟨rfl, rfl⟩
    · obtain ⟨c, hc, hm, hi⟩ := ha.frame k kd w hk hst hb
      exact ⟨c, hc, hgrow _ hm, hi⟩
    · cases hst
  · rcases hold hk with ⟨-, hk⟩ | ⟨rfl, rfl⟩
    · rcases hold hl with ⟨-, hl⟩ | ⟨rfl, rfl⟩
      · exact ha.owner k kd l ld w hk hl hst hlst
      · cases hlst
    · cases hst
  · obtain ⟨j, b, req, hr, he⟩ := ha.appended k e (happ hm)
    exact ⟨j, b, req, hgrow _ hr, he⟩
  · rcases hold hk with ⟨-, hk⟩ | ⟨rfl, rfl⟩
    · exact (ha.reading k kd hk hst).grow hgrow List.prefix_rfl
    · cases hst

/-- A handler's entry is in the log and its frame is `w`, which no other handler waits on. -/
lemma Accounts.append (ha : Accounts s) {h : ℕ} {hd : Handler ι} {w : ℕ} {c : Call ι Result}
    (hh : s.handlers h = some hd) (hstage : hd.stage = .appending)
    (hc : (s.raft.nodes hd.node).calls w = some c) (hidx : c.entry.index = c.index)
    (hentry : c.entry = hd.request.command.entry c.entry.term c.entry.index)
    (hw : ∀ k kd, s.handlers k = some kd → kd.stage = .waiting w → kd.node = hd.node →
      (s.raft.nodes kd.node).boot ≠ kd.boot) :
    Accounts { s with
      handlers := Function.update s.handlers h (some { hd with stage := .waiting w })
      history := s.history ++ [.appended h c.entry] } := by
  have hrec : ∀ {k j b req}, .received k j b req ∈ s.history ++ [.appended h c.entry] →
      .received k j b req ∈ s.history := by
    intro k j b req hm
    rcases List.mem_append.mp hm with hm | hm
    · exact hm
    · cases List.mem_singleton.mp hm
  have happ : ∀ {k e}, .appended k e ∈ s.history ++ [.appended h c.entry] →
      .appended k e ∈ s.history ∨ (k = h ∧ e = c.entry) := by
    intro k e hm
    rcases List.mem_append.mp hm with hm | hm
    · exact .inl hm
    · cases List.mem_singleton.mp hm
      exact .inr ⟨rfl, rfl⟩
  have hgrow : ∀ x ∈ s.history, x ∈ s.history ++ [.appended h c.entry] :=
    fun x hx => List.mem_append_left _ hx
  have hself : .appended h c.entry ∈ s.history ++ [.appended h c.entry] :=
    List.mem_append_right _ (List.mem_singleton.mpr rfl)
  have hnone : ∀ e, .appended h e ∉ s.history := fun e =>
    ha.early h hd e hh (by rw [hstage]; rfl)
  have hold : ∀ {k kd}, Function.update s.handlers h (some { hd with stage := .waiting w }) k =
      some kd → (k ≠ h ∧ s.handlers k = some kd) ∨
        (k = h ∧ kd = { hd with stage := .waiting w }) := by
    intro k kd hk
    by_cases hkh : k = h
    · subst hkh
      rw [Function.update_self] at hk
      cases hk
      exact .inr ⟨rfl, rfl⟩
    · rw [Function.update_of_ne hkh] at hk
      exact .inl ⟨hkh, hk⟩
  refine ⟨fun k j b req hm => ha.numbered k j b req (hrec hm),
    fun k j b req j' b' req' hm hm' => ha.unique k j b req j' b' req' (hrec hm) (hrec hm'),
    fun k kd hk => ?_, fun k kd hk => ?_, fun k kd e hk hst hm => ?_,
    fun k kd v hk hst hb => ?_, fun k kd l ld v hk hl hst hlst hn hb hlive => ?_,
    fun k e hm => ?_, fun k e f hm hm' => ?_, fun k kd hk hst => ?_⟩
  · rcases hold hk with ⟨-, hk⟩ | ⟨rfl, rfl⟩
    · exact hgrow _ (ha.known k kd hk)
    · exact hgrow _ (ha.known k hd hh)
  · rcases hold hk with ⟨-, hk⟩ | ⟨rfl, rfl⟩
    · exact ha.boot_le k kd hk
    · exact ha.boot_le k hd hh
  · rcases hold hk with ⟨hne, hk⟩ | ⟨rfl, rfl⟩
    · rcases happ hm with hm | ⟨rfl, -⟩
      · exact ha.early k kd e hk hst hm
      · exact hne rfl
    · cases hst
  · rcases hold hk with ⟨-, hk⟩ | ⟨rfl, rfl⟩
    · obtain ⟨d, hd', hm, hi⟩ := ha.frame k kd v hk hst hb
      exact ⟨d, hd', hgrow _ hm, hi⟩
    · cases hst
      exact ⟨c, hc, hself, hidx⟩
  · rcases hold hk with ⟨-, hkold⟩ | ⟨rfl, rfl⟩
    · rcases hold hl with ⟨-, hl⟩ | ⟨rfl, rfl⟩
      · exact ha.owner k kd l ld v hkold hl hst hlst hn hb hlive
      · cases hlst
        exact (hw k kd hkold hst hn hlive).elim
    · cases hst
      rcases hold hl with ⟨-, hl⟩ | ⟨rfl, rfl⟩
      · exact (hw l ld hl hlst hn.symm (by rw [← hn, ← hb]; exact hlive)).elim
      · rfl
  · rcases happ hm with hm | ⟨rfl, rfl⟩
    · obtain ⟨j, b, req, hr, he⟩ := ha.appended k e hm
      exact ⟨j, b, req, hgrow _ hr, he⟩
    · exact ⟨_, _, _, hgrow _ (ha.known k hd hh), hentry⟩
  · rcases happ hm with hmold | ⟨rfl, rfl⟩
    · rcases happ hm' with hm' | ⟨rfl, -⟩
      · exact ha.once k e f hmold hm'
      · exact (hnone _ hmold).elim
    · rcases happ hm' with hm' | ⟨-, rfl⟩
      · exact (hnone _ hm').elim
      · rfl
  · rcases hold hk with ⟨-, hk⟩ | ⟨rfl, rfl⟩
    · exact (ha.reading k kd hk hst).grow hgrow List.prefix_rfl
    · cases hst

end System

end DistributedStorage.Kv
