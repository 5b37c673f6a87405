import DistributedStorage.Kv.Operations

/-! The cluster is one map to its clients: the committed log puts the writes in order, each linearizable
read goes to the place up to which its process had applied the log, and neither goes against real time. -/

set_option linter.unusedSectionVars false

namespace DistributedStorage.Kv

open Library Library.LeaderLogs Library.Linearizability Raft Runs

variable {M : ℕ}

/-- The map that the machine is after the entries. -/
def mapAfter (M : ℕ) (es : List Entry) : VersionedMap :=
  ((KVStateMachine.init M).run loadCas es).toTables.toMap

lemma ExecutedAt.tables {loads : Bytes → Except String CasSpec} {pre : List Entry} {e : Entry} {r : Result}
    (hop : e.opType ≠ .snapshot) (h : ExecutedAt loads M pre e r) :
    ((KVStateMachine.init M).run loads (pre ++ [e])).toTables =
      (((KVStateMachine.init M).run loads pre).toTables.applyOp loads e).1 := by
  rw [KVStateMachine.run_concat]
  have hout := ((KVStateMachine.init M).run loads pre).outcome loads hop
  generalize ((KVStateMachine.init M).run loads pre).apply loads e = out at hout ⊢
  obtain ⟨m, result⟩ := out
  dsimp only at hout ⊢
  cases hout with
  | answered r' ht hs =>
    rw [h.unanswered ht] at hs
    cases hs
  | raised exc hu hr =>
    rw [h.result] at hr
    cases hr
  | applied r' hu hr => split_ifs <;> rfl

/-- Where nothing is executed the tables stay. -/
lemma tables_kept {loads : Bytes → Except String CasSpec} {pre : List Entry} {e : Entry}
    (hop : e.opType ≠ .snapshot) (h : ∀ r, ¬ ExecutedAt loads M pre e r) :
    ((KVStateMachine.init M).run loads (pre ++ [e])).toTables =
      ((KVStateMachine.init M).run loads pre).toTables := by
  rw [KVStateMachine.run_concat]
  have hout := ((KVStateMachine.init M).run loads pre).outcome loads hop
  generalize ((KVStateMachine.init M).run loads pre).apply loads e = out at hout ⊢
  obtain ⟨m, result⟩ := out
  dsimp only at hout ⊢
  cases hout with
  | answered r' ht hs => rfl
  | raised exc hu hr => rfl
  | applied r' hu hr => exact (h r' ⟨hu, hr⟩).elim

/-- Executing the entry of a request is the operation on the map. -/
lemma ExecutedAt.performs {pre : List Entry} {e : Entry} {r : Result} {req : Request}
    (he : e = req.command.entry e.term e.index) (h : ExecutedAt loadCas M pre e r) :
    (mapAfter M pre).perform req.operation = (mapAfter M (pre ++ [e]), r) := by
  have happ := applyOp_operation ((KVStateMachine.init M).run loadCas pre).toTables req e.term e.index
  rw [← he] at happ
  have hop : e.opType ≠ .snapshot := he ▸ (entry_opType req e.term e.index).1
  have hr := h.result
  rw [happ] at hr
  cases hr
  rw [mapAfter, mapAfter, h.tables hop, happ, Tables.run_toMap]

lemma take_concat {L : List Entry} {m : ℕ} {e : Entry} (h : L[m]? = some e) :
    L.take m ++ [e] = L.take (m + 1) := by
  rw [List.take_add_one, h]
  rfl

variable {ι : Type} [DecidableEq ι] [Fintype ι] {address : ι → String}

namespace System

variable {s t : System ι} {n : ℕ} {σ : ℕ → System ι} {L : List Entry}

lemma applied_comparable {cfg : Config ι KVStateMachine Result} {a : State ι Entry}
    (h : Cluster.Safe cfg s.raft a) (i j : ι) (b c : ℕ) :
    s.applied i b <+: s.applied j c ∨ s.applied j c <+: s.applied i b := by
  obtain ⟨⟨_, -, -, hp⟩, -⟩ := h.applied i b
  obtain ⟨⟨_, -, -, hq⟩, -⟩ := h.applied j c
  exact h.serving.tracks.inv.chosen_comparable hp hq

lemma applied_length (s : System ι) (i : ι) (b : ℕ) : (s.applied i b).length ≤ s.raft.trace.length := by
  rw [applied, entries, List.length_map]
  exact List.length_filterMap_le ..

/-- Some process has applied all that any process has applied. -/
lemma exists_longest {cfg : Config ι KVStateMachine Result} {a : State ι Entry}
    (h : Cluster.Safe cfg s.raft a) : ∃ L, (∀ i b, s.applied i b <+: L) ∧ (L = [] ∨ ∃ i b, L = s.applied i b) := by
  rcases isEmpty_or_nonempty ι with hι | ⟨⟨i₀⟩⟩
  · exact ⟨[], fun i => hι.elim i, Or.inl rfl⟩
  · have hbound : BddAbove {k | ∃ i b, (s.applied i b).length = k} := by
      refine ⟨s.raft.trace.length, ?_⟩
      rintro k ⟨i, b, rfl⟩
      exact s.applied_length i b
    have hsome : {k | ∃ i b, (s.applied i b).length = k}.Nonempty := ⟨_, i₀, 0, rfl⟩
    obtain ⟨i, b, hmax⟩ := Nat.sSup_mem hsome hbound
    refine ⟨s.applied i b, fun j c => ?_, Or.inr ⟨i, b, rfl⟩⟩
    rcases applied_comparable h j i c b with hpre | hpre
    · exact hpre
    · have hle : (s.applied j c).length ≤ (s.applied i b).length := hmax ▸ le_csSup hbound ⟨j, c, rfl⟩
      rw [hpre.eq_of_length_le hle]

/-- Entry `e` carries out the write `req`, which goes by `k`. -/
def Carries (s : System ι) (e : Entry) (k : OpName) (req : Request) : Prop :=
  ∃ h i b, .received h i b req ∈ s.history ∧ .appended h e ∈ s.history ∧
    e = req.command.entry e.term e.index ∧ req.isGet = false ∧ k = req.name h

/-- The write that is executed at place `m` of the log. -/
def WriteAt (M : ℕ) (s : System ι) (L : List Entry) (m : ℕ) (x : Served OpName MapOp MapAnswer) : Prop :=
  ∃ e k req r, L[m]? = some e ∧ Carries s e k req ∧ ExecutedAt loadCas M (L.take m) e r ∧
    x = ⟨k, .write req.operation, .written r⟩

/-- The read that call `h` is answered in a step of the run, and how much of the log its process had applied. -/
def ReadBy (M : ℕ) (n : ℕ) (σ : ℕ → System ι) (h : ℕ) (x : ℕ × Served OpName MapOp MapAnswer) : Prop :=
  ∃ l i b key value, l < n ∧ .received h i b (.get key true) ∈ (σ l).history ∧
    .replied h (.read value) ∉ (σ l).history ∧ .replied h (.read value) ∈ (σ (l + 1)).history ∧
    (∃ e r, .appended h e ∈ (σ l).history ∧ (e.index, e, r) ∈ records (σ l).raft.trace i b) ∧
    value = ((KVStateMachine.init M).run loadCas ((σ l).applied i b)).get key ∧
    x = (((σ l).applied i b).length, ⟨.call h, .get key, .read value⟩)

/-- A run that starts anew knows nothing yet of the calls to come. -/
lemma arrives_since {a : State ι Entry}
    (h : Reachable (kv loadCas M address) (Cluster.AtDelivery Cluster.Timely) s)
    (ha : Cluster.Safe (kv loadCas M address) s.raft a) :
    Since loadCas M address s a s.nextHandler s := by
  have hs := sound h
  refine ⟨hs, ⟨a, .refl a, ha⟩, fun k e hle hm => ?_, fun k value hle hm => ?_⟩
  · obtain ⟨j, b, req, hrec, -⟩ := hs.accounts.appended k e hm
    exact absurd (hs.accounts.numbered k j b req hrec) (by omega)
  · exact absurd ((concluded h).ended k _ hm).1 (by omega)

lemma request_mem {h : ℕ} {req : Request} (hreq : s.request h = some req) :
    ∃ i b, .received h i b req ∈ s.history := by
  obtain ⟨x, hx, hfound⟩ := List.exists_of_findSome?_eq_some hreq
  cases x with
  | received k i b req' =>
    dsimp only at hfound
    split_ifs at hfound with hk
    cases hfound
    exact ⟨i, b, hk ▸ hx⟩
  | appended k e => cases hfound
  | replied k reply => cases hfound

/-- A run to `s`, and the log behind what processes have applied in `s`. -/
structure Chronicle (M : ℕ) (address : ι → String) (s : System ι) (n : ℕ) (σ : ℕ → System ι) (L : List Entry) :
    Prop where
  path : Path (System.step (kv loadCas M address)) (AtRaft (Cluster.AtDelivery Cluster.Timely))
    (init (kv loadCas M address)) s n σ
  log : ∀ i b, s.applied i b <+: L
  own : L = [] ∨ ∃ i b, L = s.applied i b
  repeats : s.Repeats
  room : ∀ i b, (trackedClients (s.applied i b)).dedup.length ≤ M

namespace Chronicle

variable (hc : Chronicle M address s n σ L)
include hc

lemma reachable {k : ℕ} (hk : k ≤ n) :
    Reachable (kv loadCas M address) (Cluster.AtDelivery Cluster.Timely) (σ k) := hc.path.upto hk

lemma soundAt {k : ℕ} (hk : k ≤ n) : Sound (kv loadCas M address) (σ k) := sound (hc.reachable hk)

lemma soundEnd : Sound (kv loadCas M address) s := hc.path.last ▸ hc.soundAt le_rfl

lemma history {k : ℕ} (hk : k ≤ n) : (σ k).history <+: s.history := run_history (hc.path.onto hk)

lemma grows {k l : ℕ} (hkl : k ≤ l) (hl : l ≤ n) (i : ι) (b : ℕ) : (σ k).applied i b <+: (σ l).applied i b := by
  refine applied_mono ?_ i b
  refine Run.relation (I := fun _ => True) (R := fun u v : System ι => u.raft.trace <+: v.raft.trace)
    (fun _ => List.prefix_rfl) List.IsPrefix.trans (fun _ _ _ _ _ _ => trivial) ?_ (hc.path.run hkl hl) trivial
  exact fun _ _ _ _ _ he => (step_change he).trace

lemma within {k : ℕ} (hk : k ≤ n) (i : ι) (b : ℕ) : (σ k).applied i b <+: L := by
  have hgrow := hc.grows hk le_rfl i b
  rw [hc.path.last] at hgrow
  exact hgrow.trans (hc.log i b)

lemma asked {e : Entry} (he : e ∈ L) : s.Asked e := by
  rcases hc.own with rfl | ⟨i, b, rfl⟩
  · exact (List.not_mem_nil he).elim
  · obtain ⟨idx, r, hr⟩ := mem_applied.mp he
    exact (hc.soundEnd.asked.applied i b _ hr).1

lemma plain {e : Entry} (he : e ∈ L) : e.opType ≠ .snapshot := by
  have hplain := (hc.asked he).plain hc.soundEnd.accounts
  exact hplain.1

lemma nodup : L.Nodup := by
  rcases hc.own with rfl | ⟨i, b, rfl⟩
  · exact List.nodup_nil
  · exact hc.soundEnd.applied_nodup i b

lemma roomy : (trackedClients L).dedup.length ≤ M := by
  rcases hc.own with rfl | ⟨i, b, rfl⟩
  · exact M.zero_le
  · exact hc.room i b

/-- An entry that carries a write is no noop. -/
lemma carried {e : Entry} (he : e ∈ L) (hop : e.opType ≠ .noop) : ∃ h, .appended h e ∈ s.history := by
  rcases hc.asked he with ⟨term, idx, rfl⟩ | happ
  · exact (hop rfl).elim
  · exact happ

lemma appended_once {h k : ℕ} {e : Entry} (he : .appended h e ∈ s.history) (hk : .appended k e ∈ s.history) :
    h = k := by
  obtain ⟨a, -, hlogged⟩ := logged (hc.path.last ▸ hc.reachable le_rfl)
  exact hlogged.once h k e he hk

lemma carries_unique {e : Entry} {k k' : OpName} {req req' : Request} (h : Carries s e k req)
    (h' : Carries s e k' req') : k = k' ∧ req = req' := by
  obtain ⟨j, i, b, hrec, happ, -, -, rfl⟩ := h
  obtain ⟨j', i', b', hrec', happ', -, -, rfl⟩ := h'
  obtain rfl := hc.appended_once happ happ'
  obtain ⟨-, -, rfl⟩ := hc.soundEnd.accounts.unique j _ _ _ _ _ _ hrec hrec'
  exact ⟨rfl, rfl⟩

/-- A write that goes by one name is executed at one place. -/
lemma place_once {m m' : ℕ} {x x' : Served OpName MapOp MapAnswer} (hx : WriteAt M s L m x)
    (hx' : WriteAt M s L m' x') (heq : x.call = x'.call) : m = m' := by
  obtain ⟨e, k, req, r, he, ⟨h, i, b, hrec, happ, hentry, -, rfl⟩, hex, rfl⟩ := hx
  obtain ⟨e', k', req', r', he', ⟨h', i', b', hrec', happ', hentry', -, rfl⟩, hex', rfl⟩ := hx'
  have hlen : (L.take m).length = m :=
    List.length_take_of_le (List.getElem?_eq_some_iff.mp he).1.le
  have hlen' : (L.take m').length = m' :=
    List.length_take_of_le (List.getElem?_eq_some_iff.mp he').1.le
  rcases Request.name_inj heq with ⟨ht, hcid, hseq⟩ | rfl
  · have hpre : L.take m ++ [e] <+: L := take_concat he ▸ List.take_prefix _ _
    have hpre' : L.take m' ++ [e'] <+: L := take_concat he' ▸ List.take_prefix _ _
    have hid : e.clientId = req.clientId ∧ e.seqNum = req.seqNum := by
      rw [hentry]
      exact ⟨rfl, rfl⟩
    have hid' : e'.clientId = req'.clientId ∧ e'.seqNum = req'.seqNum := by
      rw [hentry']
      exact ⟨rfl, rfl⟩
    have hle := hex.unique (fun f hf => hc.plain hf) hc.roomy hpre hpre' hex' (by rw [hid.1, hid.2]; exact ht)
      (by rw [hid.1, hid'.1, hcid]) (by rw [hid.2, hid'.2, hseq])
    have hge := hex'.unique (fun f hf => hc.plain hf) hc.roomy hpre' hpre hex
      (by rw [hid'.1, hid'.2, hcid, hseq]; exact ht) (by rw [hid.1, hid'.1, hcid]) (by rw [hid.2, hid'.2, hseq])
    rw [hlen, hlen'] at hle hge
    omega
  · obtain rfl := hc.soundEnd.accounts.once h e e' happ happ'
    exact (List.getElem?_inj (List.getElem?_eq_some_iff.mp he).1 hc.nodup).mp (he.trans he'.symm)

/-- A write that has been answered was executed, with this result, among what was applied by then. -/
lemma answered_write {k : ℕ} (hk : k ≤ n) {h : ℕ} {i : ι} {b : ℕ} {req : Request} {r : Result}
    (hrec : .received h i b req ∈ s.history) (hrep : .replied h (.written r) ∈ (σ k).history)
    (hr : r ≠ staleResult) : req.isGet = false ∧
      ∃ m j c, WriteAt M s L m ⟨req.name h, .write req.operation, .written r⟩ ∧
        m < ((σ k).applied j c).length := by
  have hs := hc.soundEnd
  obtain ⟨j, c, req', hrec', hget, hev⟩ := answered (hc.reachable hk) h r hrep
  obtain ⟨-, -, rfl⟩ := hs.accounts.unique h _ _ _ _ _ _ hrec ((hc.history hk).subset hrec')
  refine ⟨hget, ?_⟩
  have hat : ∀ {e pre}, Carries s e (req.name h) req → pre ++ [e] <+: (σ k).applied j c →
      ExecutedAt loadCas M pre e r → ∃ m j c,
        WriteAt M s L m ⟨req.name h, .write req.operation, .written r⟩ ∧ m < ((σ k).applied j c).length := by
    intro e pre hcarries hpre hex
    have hin : pre ++ [e] <+: L := hpre.trans (hc.within hk j c)
    have htake : L.take pre.length = pre := by
      rw [← List.prefix_iff_eq_take.mp ((List.prefix_append _ _).trans hin)]
    refine ⟨pre.length, j, c, ⟨e, _, _, r, ?_, hcarries, htake.symm ▸ hex, rfl⟩, ?_⟩
    · obtain ⟨post, rfl⟩ := hin
      simp
    · have hlen := hpre.length_le
      rw [List.length_append, List.length_singleton] at hlen
      omega
  rcases hev with ⟨e, happ, pre, hpre, hex⟩ | hans
  · have happ' := (hc.history hk).subset happ
    obtain ⟨i', b', req', hrec', hentry⟩ := hs.accounts.appended h e happ'
    obtain ⟨-, -, rfl⟩ := hs.accounts.unique h _ _ _ _ _ _ hrec hrec'
    exact hat ⟨h, i, b, hrec, happ', hentry, hget, rfl⟩ hpre hex
  · cases hans with
    | stale e r' ht hstale _ _ _ => exact (hr hstale).elim
    | executed e ht hcid hseq hex =>
      have hmem : e ∈ L := (hc.within hk j c).subset hex.mem
      obtain ⟨pre, hpre, hexat⟩ := hex
      have hop : e.opType ≠ .noop := by
        intro hnoop
        have hplain := ((hc.asked hmem).plain hs.accounts).2 hnoop
        rw [hcid] at hplain
        exact ht.1 hplain
      obtain ⟨h', happ⟩ := hc.carried hmem hop
      obtain ⟨i', b', req', hrec'', hentry⟩ := hs.accounts.appended h' e happ
      have hid : req'.clientId = req.clientId ∧ req'.seqNum = req.seqNum := by
        have hcl := congrArg Entry.clientId hentry
        have hsq := congrArg Entry.seqNum hentry
        rw [hcid] at hcl
        rw [hseq] at hsq
        exact ⟨hcl.symm, hsq.symm⟩
      obtain rfl := hc.repeats h i b req h' i' b' req' hrec hrec'' ht hid.1 hid.2
      have hname : req.name h = req.name h' := by rw [Request.name, Request.name, if_pos ht, if_pos ht]
      exact hat ⟨h', i', b', hrec'', happ, hentry, hget, hname⟩ hpre hexat

/-- A write that nobody had asked for is executed behind all that was applied by then. -/
lemma unasked_write {k : ℕ} (hk : k ≤ n) {m : ℕ} {x : Served OpName MapOp MapAnswer} (hx : WriteAt M s L m x)
    (hun : ∀ h i b req, .received h i b req ∈ (σ k).history → req.mapOp.isSome → req.name h ≠ x.call)
    (i : ι) (b : ℕ) : ((σ k).applied i b).length ≤ m := by
  obtain ⟨e, name, req, r, he, hcarries, -, rfl⟩ := hx
  by_contra hlt
  have hmem : e ∈ (σ k).applied i b := by
    obtain ⟨post, hpost⟩ := hc.within hk i b
    rw [← hpost, List.getElem?_append_left (not_le.mp hlt)] at he
    exact List.mem_of_getElem? he
  obtain ⟨idx, res, hr⟩ := mem_applied.mp hmem
  have hs := hc.soundAt hk
  obtain ⟨h', i', b', hrec', happ', hentry, hget, rfl⟩ := hcarries
  rcases (hs.asked.applied i b _ hr).1 with ⟨term, index, hnoop⟩ | ⟨h, happ⟩
  · apply Request.command_not_noop hget e.term e.index
    rw [← hentry]
    exact (congrArg Entry.opType hnoop).trans rfl
  · obtain ⟨j, c, req₁, hrec, hentry₁⟩ := hs.accounts.appended h e happ
    obtain rfl := hc.appended_once ((hc.history hk).subset happ) happ'
    obtain ⟨-, -, rfl⟩ := hc.soundEnd.accounts.unique h _ _ _ _ _ _ ((hc.history hk).subset hrec) hrec'
    exact hun h j c req₁ hrec (by rw [Request.mapOp_write hget]; rfl) rfl

/-- A linearizable read that was answered was served in a step of the run. -/
lemma answered_read {h : ℕ} {i : ι} {b : ℕ} {key : String} {value : Option Bytes × ℕ × Bool}
    (hrec : .received h i b (.get key true) ∈ s.history) (hrep : .replied h (.read value) ∈ s.history) :
    ∃ x, ReadBy M n σ h x ∧ x.2 = ⟨.call h, .get key, .read value⟩ := by
  obtain ⟨l, hl, hbefore, hafter⟩ := hc.path.becomes
    (P := fun u : System ι => .replied h (.read value) ∈ u.history) List.not_mem_nil hrep
  obtain ⟨e, -, hs⟩ := hc.path.moves l hl
  have hsound := hc.soundAt hl.le
  rcases step_read hs hafter with hold | ⟨hd, key', lin, hlive, hstage, hreq, hval⟩
  · exact (hbefore hold).elim
  obtain ⟨hh, hboot⟩ := live_eq hlive
  have hknown := hsound.accounts.known h hd hh
  obtain ⟨rfl, rfl, hsame⟩ := hc.soundEnd.accounts.unique h _ _ _ _ _ _ hrec ((hc.history hl.le).subset hknown)
  obtain ⟨key'', lin', hreq', hbarred⟩ := hsound.accounts.reading h hd hh hstage
  rw [hreq] at hsame hreq'
  cases hsame
  cases hreq'
  rw [hsound.sm hd.node, hboot] at hval
  exact ⟨_, ⟨l, hd.node, hd.boot, key, value, hl, hreq ▸ hknown, hbefore, hafter, hbarred rfl, hval, rfl⟩, rfl⟩

lemma read_request {h : ℕ} {i : ι} {b : ℕ} {req : Request} {value : Option Bytes × ℕ × Bool}
    (hrec : .received h i b req ∈ s.history) (hrep : .replied h (.read value) ∈ s.history) :
    ∃ key linearizable, req = .get key linearizable := by
  obtain ⟨l, hl, hbefore, hafter⟩ := hc.path.becomes
    (P := fun u : System ι => .replied h (.read value) ∈ u.history) List.not_mem_nil hrep
  obtain ⟨e, -, hs⟩ := hc.path.moves l hl
  rcases step_read hs hafter with hold | ⟨hd, key, lin, hlive, -, hreq, -⟩
  · exact (hbefore hold).elim
  have hknown := (hc.soundAt hl.le).accounts.known h hd (live_eq hlive).1
  obtain ⟨-, -, rfl⟩ := hc.soundEnd.accounts.unique h _ _ _ _ _ _ hrec ((hc.history hl.le).subset hknown)
  exact ⟨key, lin, hreq⟩

/-- A read that nobody had asked for has seen all that was applied by then. -/
lemma unasked_read {k : ℕ} (hk : k ≤ n) {h : ℕ} {x : ℕ × Served OpName MapOp MapAnswer} (hx : ReadBy M n σ h x)
    (hun : ∀ i b req, .received h i b req ∈ (σ k).history → req.mapOp.isSome → req.name h ≠ x.2.call)
    (i : ι) (b : ℕ) : ((σ k).applied i b).length ≤ x.1 := by
  obtain ⟨l, i', b', key, value, hl, hrec, hbefore, hafter, ⟨e, r, happ, hrecord⟩, hval, rfl⟩ := hx
  have hnot : .received h i' b' (.get key true) ∉ (σ k).history := fun hm =>
    hun i' b' _ hm rfl (Request.name_get key true h)
  have hkl : k ≤ l := by
    by_contra hlt
    exact hnot ((run_history (hc.path.run (not_le.mp hlt).le hk)).subset hrec)
  have hrun := hc.path.run hkl hl.le
  have hlate : (σ k).nextHandler ≤ h := ((run_renumbers hrun).2 h _ _ _ hrec).resolve_left hnot
  obtain ⟨a, ha⟩ := Cluster.safe (run_raft (hc.reachable hk))
  have hsince := (arrives_since (hc.reachable hk) ha).run ha hrun
  obtain ⟨a', hg, ha'⟩ := hsince.safe
  exact (applied_before ha ha' hg hrecord (hsince.later h e hlate happ) i b).length_le

/-- What precedes a call in the history has been answered in a state that has not received the call. -/
lemma precedes_state {k k' : OpName} (h : Precedes s.operations k k') : ∃ l ≤ n, ∃ h i b req reply,
    .received h i b req ∈ s.history ∧ .replied h reply ∈ (σ l).history ∧ req.name h = k ∧ req.mapOp.isSome ∧
    reply.mapAnswer.isSome ∧ ∀ h' i' b' req', .received h' i' b' req' ∈ (σ l).history → req'.mapOp.isSome →
      req'.name h' ≠ k' := by
  obtain ⟨p, ⟨q, hpq⟩, ⟨ans, hans⟩, hun⟩ := h
  obtain ⟨p', q', hsplit, rfl, -⟩ := List.filterMap_eq_append_iff.mp hpq.symm
  obtain ⟨x, hx, hop⟩ := List.mem_filterMap.mp hans
  have hpre : p' <+: s.history := ⟨q', hsplit.symm⟩
  cases x with
  | received j i b req =>
    obtain ⟨op, -, hop⟩ := Option.map_eq_some_iff.mp hop
    cases hop
  | appended j e => cases hop
  | replied j reply =>
    obtain ⟨req, hreq, hop⟩ := Option.bind_eq_some_iff.mp hop
    split_ifs at hop with hsome
    obtain ⟨ans', hans', hop⟩ := Option.map_eq_some_iff.mp hop
    cases hop
    obtain ⟨i, b, hrec⟩ := request_mem hreq
    -- the state in which nothing but `p'` had happened
    obtain ⟨l, hl, hbeginning⟩ := hc.path.beginning (f := System.history) rfl
      (fun u v ⟨_, _, hs⟩ => (step_change hs).adds) hpre
    refine ⟨l, hl, j, i, b, req, reply, hrec, hbeginning ▸ hx, rfl, hsome, by rw [hans']; rfl, ?_⟩
    intro h' i' b' req' hrec' hsome' hname
    obtain ⟨op, hmap⟩ := Option.isSome_iff_exists.mp hsome'
    refine hun op (List.mem_filterMap.mpr ⟨_, hbeginning ▸ hrec', ?_⟩)
    rw [operation, hmap, Option.map_some, hname]

/-- A write that precedes a call had been executed when the call was yet to be received. -/
lemma write_precedes {m : ℕ} {x : Served OpName MapOp MapAnswer} (hx : WriteAt M s L m x) {k' : OpName}
    (hp : Precedes s.operations x.call k') : ∃ l ≤ n, (∃ j c, m < ((σ l).applied j c).length) ∧
      ∀ h' i' b' req', .received h' i' b' req' ∈ (σ l).history → req'.mapOp.isSome → req'.name h' ≠ k' := by
  obtain ⟨l, hl, h, i, b, req, reply, hrec, hrep, hname, -, hans, hun⟩ := hc.precedes_state hp
  refine ⟨l, hl, ?_, hun⟩
  cases reply with
  | aborted => cases hans
  | failure exc => cases hans
  | written r =>
    have hr : r ≠ staleResult := by
      rintro rfl
      cases hans
    obtain ⟨-, m', j, c, hx', hlt⟩ := hc.answered_write hl hrec hrep hr
    obtain rfl := hc.place_once hx hx' hname.symm
    exact ⟨j, c, hlt⟩
  | read value =>
    obtain ⟨key, lin, rfl⟩ := hc.read_request hrec ((hc.history hl).subset hrep)
    obtain ⟨e, k, req', r, -, ⟨h', i', b', hrec', -, -, hget, rfl⟩, -, rfl⟩ := hx
    rcases Request.name_inj hname with ⟨ht, -⟩ | rfl
    · exact (ht.1 rfl).elim
    · obtain ⟨-, -, rfl⟩ := hc.soundEnd.accounts.unique h _ _ _ _ _ _ hrec hrec'
      cases hget

/-- A read that precedes a call had been served when the call was yet to be received. -/
lemma read_precedes {h : ℕ} {x : ℕ × Served OpName MapOp MapAnswer} (hx : ReadBy M n σ h x) {k' : OpName}
    (hp : Precedes s.operations x.2.call k') : ∃ l ≤ n, (∃ j c, x.1 ≤ ((σ l).applied j c).length) ∧
      h < (σ l).nextHandler ∧
      ∀ h' i' b' req', .received h' i' b' req' ∈ (σ l).history → req'.mapOp.isSome → req'.name h' ≠ k' := by
  obtain ⟨k, i', b', key, value, hk, hrec', hbefore, hafter, -, -, rfl⟩ := hx
  obtain ⟨l, hl, h', i, b, req, reply, hrec, hrep, hname, -, hans, hun⟩ := hc.precedes_state hp
  have hsame : h' = h := by
    rw [Request.name] at hname
    split_ifs at hname with ht
    exact OpName.call.inj hname
  subst hsame
  have hreply := (hc.path.last ▸ concluded (hc.path.upto le_rfl) : s.Concluded).once h' _ _
    ((hc.history hl).subset hrep) ((hc.history hk).subset hafter)
  subst hreply
  have hkl : k ≤ l := by
    by_contra hlt
    exact hbefore ((run_history (hc.path.run (not_le.mp hlt).le hk.le)).subset hrep)
  have hended := (concluded (hc.reachable hl)).ended h' _ hrep
  exact ⟨l, hl, ⟨i', b', (hc.grows hkl hl i' b').length_le⟩, hended.1, hun⟩

lemma write_unique {m : ℕ} {x y : Served OpName MapOp MapAnswer} (hx : WriteAt M s L m x)
    (hy : WriteAt M s L m y) : x = y := by
  obtain ⟨e, k, req, r, he, hcarries, hex, rfl⟩ := hx
  obtain ⟨e', k', req', r', he', hcarries', hex', rfl⟩ := hy
  obtain rfl := Option.some.inj (he.symm.trans he')
  obtain ⟨rfl, rfl⟩ := hc.carries_unique hcarries hcarries'
  have hres := hex.result
  rw [hex'.result] at hres
  cases hres
  rfl

omit hc in
lemma read_call {h : ℕ} {x : ℕ × Served OpName MapOp MapAnswer} (hx : ReadBy M n σ h x) : x.2.call = .call h := by
  obtain ⟨l, i, b, key, value, -, -, -, -, -, -, rfl⟩ := hx
  rfl

lemma read_unique {h : ℕ} {x y : ℕ × Served OpName MapOp MapAnswer} (hx : ReadBy M n σ h x)
    (hy : ReadBy M n σ h y) : x = y := by
  obtain ⟨l, i, b, key, value, hl, hrec, hbefore, hafter, -, -, rfl⟩ := hx
  obtain ⟨l', i', b', key', value', hl', hrec', hbefore', hafter', -, -, rfl⟩ := hy
  obtain ⟨rfl, rfl, hreq⟩ := hc.soundEnd.accounts.unique h _ _ _ _ _ _ ((hc.history hl.le).subset hrec)
    ((hc.history hl'.le).subset hrec')
  cases hreq
  have hreply := (hc.path.last ▸ concluded (hc.path.upto le_rfl) : s.Concluded).once h _ _
    ((hc.history hl).subset hafter) ((hc.history hl').subset hafter')
  cases hreply
  have hll : ∀ {k k'}, k' ≤ n → .replied h (.read value) ∈ (σ (k + 1)).history →
      .replied h (.read value) ∉ (σ k').history → k' ≤ k := by
    intro k k' hk' hin hout
    by_contra hlt
    exact hout ((run_history (hc.path.run (not_le.mp hlt) hk')).subset hin)
  obtain rfl : l = l' := le_antisymm (hll hl.le hafter' hbefore) (hll hl'.le hafter hbefore')
  rfl

lemma apart {m h : ℕ} {x : Served OpName MapOp MapAnswer} {y : ℕ × Served OpName MapOp MapAnswer}
    (hx : WriteAt M s L m x) (hy : ReadBy M n σ h y) : x.call ≠ y.2.call := by
  obtain ⟨e, k, req, r, -, ⟨h', i, b, hrec, -, -, hget, rfl⟩, -, rfl⟩ := hx
  obtain ⟨l, i', b', key, value, hl, hrec', -, -, -, -, rfl⟩ := hy
  intro heq
  have hcall : h' = h := by
    rw [Request.name] at heq
    split_ifs at heq with ht
    exact OpName.call.inj heq
  subst hcall
  obtain ⟨-, -, rfl⟩ := hc.soundEnd.accounts.unique h' _ _ _ _ _ _ hrec ((hc.history hl.le).subset hrec')
  cases hget

/-- All calls under one name ask for one operation. -/
lemma asks {h : ℕ} {i : ι} {b : ℕ} {req : Request} {op : MapOp} (hrec : .received h i b req ∈ s.history)
    (hinv : .invoked (req.name h) op ∈ s.operations) : req.mapOp = some op := by
  obtain ⟨x, hx, hop⟩ := List.mem_filterMap.mp hinv
  cases x with
  | received k j c req' =>
    obtain ⟨o, ho, heq⟩ := Option.map_eq_some_iff.mp hop
    obtain ⟨hname, rfl⟩ := Happening.invoked.inj heq
    rcases Request.name_inj hname.symm with ⟨ht, hcid, hseq⟩ | rfl
    · rw [hc.repeats h i b req k j c req' hrec hx ht hcid hseq]
      exact ho
    · obtain ⟨-, -, rfl⟩ := hc.soundEnd.accounts.unique h _ _ _ _ _ _ hrec hx
      exact ho
  | appended k e => cases hop
  | replied k reply =>
    obtain ⟨req', -, hop⟩ := Option.bind_eq_some_iff.mp hop
    split_ifs at hop
    obtain ⟨ans, -, heq⟩ := Option.map_eq_some_iff.mp hop
    cases heq

variable {write : ℕ → Option (Served OpName MapOp MapAnswer)}
  {read : ℕ → Option (ℕ × Served OpName MapOp MapAnswer)}

lemma skipped (hw : ∀ m x, write m = some x ↔ WriteAt M s L m x) {m : ℕ} (hnone : write m = none) :
    mapAfter M (L.take (m + 1)) = mapAfter M (L.take m) := by
  cases he : L[m]? with
  | none =>
    have hlen := List.getElem?_eq_none_iff.mp he
    rw [List.take_of_length_le hlen, List.take_of_length_le (hlen.trans m.le_succ)]
  | some e =>
    have hmem := List.mem_of_getElem? he
    rw [← take_concat he, mapAfter, mapAfter]
    by_cases hop : e.opType = .noop
    · have hcid := ((hc.asked hmem).plain hc.soundEnd.accounts).2 hop
      rw [KVStateMachine.run_concat, apply_noop _ hop hcid]
    · obtain ⟨h, happ⟩ := hc.carried hmem hop
      obtain ⟨i, b, req, hrec, hentry⟩ := hc.soundEnd.accounts.appended h e happ
      have hget : req.isGet = false := by
        cases req with
        | get key lin =>
          rw [hentry] at hop
          exact (hop rfl).elim
        | _ => rfl
      rw [tables_kept (hc.plain hmem)]
      intro r hex
      have hy := (hw m _).mpr ⟨e, _, req, r, he, ⟨h, i, b, hrec, happ, hentry, hget, rfl⟩, hex, rfl⟩
      rw [hnone] at hy
      cases hy

lemma explained (hw : ∀ m x, write m = some x ↔ WriteAt M s L m x)
    (hr : ∀ h x, read h = some x ↔ ReadBy M n σ h x)
    {k : OpName} {op : MapOp} {ans : MapAnswer} (hinv : .invoked k op ∈ s.operations)
    (hans : .answered k ans ∈ s.operations) : (∃ m, write m = some ⟨k, op, ans⟩) ∨
      ∃ q, (q, ⟨k, op, ans⟩) ∈ (List.range s.nextHandler).filterMap read := by
  obtain ⟨x, hx, hop⟩ := List.mem_filterMap.mp hans
  cases x with
  | received j i b req =>
    obtain ⟨o, -, hop⟩ := Option.map_eq_some_iff.mp hop
    cases hop
  | appended j e => cases hop
  | replied j reply =>
    obtain ⟨req, hreq, hop⟩ := Option.bind_eq_some_iff.mp hop
    split_ifs at hop with hsome
    obtain ⟨ans', hans', hop⟩ := Option.map_eq_some_iff.mp hop
    cases hop
    obtain ⟨i, b, hrec⟩ := request_mem hreq
    have hmap := hc.asks hrec hinv
    cases reply with
    | aborted => cases hans'
    | failure exc => cases hans'
    | written r =>
      simp only [Reply.mapAnswer] at hans'
      split_ifs at hans' with hstale
      cases hans'
      obtain ⟨hget, m, -, -, hwrite, -⟩ := hc.answered_write le_rfl hrec (hc.path.last.symm ▸ hx) hstale
      rw [Request.mapOp_write hget] at hmap
      cases hmap
      exact Or.inl ⟨m, (hw m _).mpr hwrite⟩
    | read value =>
      cases hans'
      obtain ⟨key, lin, rfl⟩ := hc.read_request hrec hx
      obtain ⟨rfl, rfl⟩ := Request.mapOp_get hmap
      obtain ⟨y, hy, heq⟩ := hc.answered_read hrec hx
      refine Or.inr ⟨y.1, List.mem_filterMap.mpr ⟨j, ?_, ?_⟩⟩
      · exact List.mem_range.mpr (hc.soundEnd.accounts.numbered j _ _ _ hrec)
      · rw [(hr j y).mpr hy, Request.name_get, ← heq]

/-- Where each write is executed and each read is served explains what clients see. -/
lemma explains (hw : ∀ m x, write m = some x ↔ WriteAt M s L m x)
    (hr : ∀ h x, read h = some x ↔ ReadBy M n σ h x) :
    Log VersionedMap.object s.operations L.length (fun m => mapAfter M (L.take m)) write
      ((List.range s.nextHandler).filterMap read) where
  init := rfl
  writes m x hx := by
    obtain ⟨e, k, req, r, he, ⟨-, -, -, -, -, hentry, -⟩, hex, rfl⟩ := (hw m x).mp hx
    refine ⟨(List.getElem?_eq_some_iff.mp he).1, ?_⟩
    simp only [VersionedMap.object, hex.performs hentry, take_concat he]
  skips m hnone := hc.skipped hw hnone
  serves x hx := by
    obtain ⟨h, -, hh⟩ := List.mem_filterMap.mp hx
    obtain ⟨l, i, b, key, value, hl, -, -, -, -, hval, rfl⟩ := (hr h x).mp hh
    have hpre := hc.within hl.le i b
    refine ⟨hpre.length_le, ?_⟩
    simp only [VersionedMap.object]
    rw [← List.prefix_iff_eq_take.mp hpre, hval, Tables.get_toMap]
    rfl
  write_invoked m x hx := by
    obtain ⟨e, k, req, r, he, ⟨h, i, b, hrec, -, -, hget, rfl⟩, -, rfl⟩ := (hw m x).mp hx
    refine List.mem_filterMap.mpr ⟨_, hrec, ?_⟩
    rw [operation, Request.mapOp_write hget]
    rfl
  read_invoked x hx := by
    obtain ⟨h, -, hh⟩ := List.mem_filterMap.mp hx
    obtain ⟨l, i, b, key, value, hl, hrec, -, -, -, -, rfl⟩ := (hr h x).mp hh
    refine List.mem_filterMap.mpr ⟨_, (hc.history hl.le).subset hrec, ?_⟩
    exact congrArg (fun k => some (Happening.invoked k (MapOp.get key))) (Request.name_get key true h)
  answered _ _ _ hinv hans := hc.explained hw hr hinv hans
  write_write m m' x y hx hy hlt := by
    have hwx := (hw m x).mp hx
    have hwy := (hw m' y).mp hy
    refine ⟨fun heq => hlt.ne (hc.place_once hwx hwy heq), fun hp => ?_⟩
    obtain ⟨l, hl, ⟨j, c, hlong⟩, hun⟩ := hc.write_precedes hwy hp
    have hshort := hc.unasked_write hl hwx hun j c
    omega
  write_read m x r hx hrm hlt := by
    obtain ⟨h, -, hh⟩ := List.mem_filterMap.mp hrm
    have hwx := (hw m x).mp hx
    have hry := (hr h r).mp hh
    refine ⟨hc.apart hwx hry, fun hp => ?_⟩
    obtain ⟨l, hl, ⟨j, c, hlong⟩, -, hun⟩ := hc.read_precedes hry hp
    have hshort := hc.unasked_write hl hwx hun j c
    omega
  read_write r m y hrm hy hle := by
    obtain ⟨h, -, hh⟩ := List.mem_filterMap.mp hrm
    have hrx := (hr h r).mp hh
    have hwy := (hw m y).mp hy
    refine ⟨(hc.apart hwy hrx).symm, fun hp => ?_⟩
    obtain ⟨l, hl, ⟨j, c, hlong⟩, hun⟩ := hc.write_precedes hwy hp
    have hshort := hc.unasked_read hl hrx (hun h) j c
    omega
  read_read r r' hrm hrm' hlt := by
    obtain ⟨h, -, hh⟩ := List.mem_filterMap.mp hrm
    obtain ⟨h', -, hh'⟩ := List.mem_filterMap.mp hrm'
    have hrx := (hr h r).mp hh
    have hry := (hr h' r').mp hh'
    refine ⟨fun heq => ?_, fun hp => ?_⟩
    · rw [read_call hrx, read_call hry] at heq
      obtain rfl := OpName.call.inj heq
      rw [hc.read_unique hrx hry] at hlt
      exact hlt.false
    · obtain ⟨l, hl, ⟨j, c, hlong⟩, -, hun⟩ := hc.read_precedes hry hp
      have hshort := hc.unasked_read hl hrx (hun h) j c
      omega
  read_again := by
    refine List.pairwise_filterMap.mpr (List.pairwise_lt_range.imp fun {h h'} hlt r hh r' hh' _ => ?_)
    have hrx := (hr h r).mp hh
    have hry := (hr h' r').mp hh'
    refine ⟨fun heq => ?_, fun hp => ?_⟩
    · rw [read_call hrx, read_call hry] at heq
      exact hlt.ne (OpName.call.inj heq)
    · -- the later call had been received when the earlier one was not
      obtain ⟨l, hl, -, hnext, hun⟩ := hc.read_precedes hry hp
      obtain ⟨k, i, b, key, value, hk, hrec, -, -, -, -, rfl⟩ := hrx
      rcases (run_renumbers (hc.path.onto hl)).2 h _ _ _ ((hc.history hk.le).subset hrec) with hold | hle
      · exact hun h i b _ hold rfl (Request.name_get key true h)
      · omega

lemma linearized : Linearizable VersionedMap.object s.operations := by
  obtain ⟨write, hw⟩ := exists_function fun m x y => hc.write_unique (m := m) (x := x) (y := y)
  obtain ⟨read, hr⟩ := exists_function fun m x y => hc.read_unique (h := m) (x := x) (y := y)
  exact (hc.explains hw hr).linearized

end Chronicle

lemma exists_chronicle (h : Reachable (kv loadCas M address) (Cluster.AtDelivery Cluster.Timely) s)
    (hrepeats : s.Repeats) (hroom : ∀ i b, (trackedClients (s.applied i b)).dedup.length ≤ M) :
    ∃ n σ L, Chronicle M address s n σ L := by
  obtain ⟨n, σ, hpath⟩ := Run.path h
  obtain ⟨a, ha⟩ := Cluster.safe (run_raft h)
  obtain ⟨L, hlog, hown⟩ := exists_longest ha
  exact ⟨n, σ, L, hpath, hlog, hown, hrepeats, hroom⟩

/-- The cluster is linearizable. In runs where every reply comes in its sender's term, where retries repeat
their request and where no session is evicted, there is an order of the writes and linearizable reads, made
one after the other on a versioned map, that gives every answer that was given and never puts a call before
one that had been answered when it was made. -/
theorem linearizable (h : Reachable (kv loadCas M address) (Cluster.AtDelivery Cluster.Timely) s)
    (hrepeats : s.Repeats) (hroom : ∀ i b, (trackedClients (s.applied i b)).dedup.length ≤ M) :
    Linearizable VersionedMap.object s.operations := by
  obtain ⟨_, _, _, hc⟩ := exists_chronicle h hrepeats hroom
  exact hc.linearized

/-- A put is retried after it was answered, and the key is read. -/
def retriedAndRead : List (Event (Fin 3)) :=
  secondFirst ++ [.receive 0 (.put "k" [2] "c" 2), .proceed 1, .proceed 1, .receive 0 (.get "k" true)] ++
    barrierRead

theorem linearizable_retried : ∃ s : System (Fin 3),
    s.history = [.received 0 0 0 (.put "k" [2] "c" 2), .appended 0 secondEntry,
      .replied 0 (.written secondReply), .received 1 0 0 (.put "k" [2] "c" 2),
      .replied 1 (.written secondReply), .received 2 0 0 (.get "k" true),
      .appended 2 ⟨1, 3, .noop, "", [], "", 0⟩, .replied 2 (.read (some [2], 1, true))] ∧
    Linearizable VersionedMap.object s.operations := by
  obtain ⟨s, hs, hh⟩ := Run.exists_of_execute
    (guarded (System.step (kv loadCas 10 fun _ => "")) (AtRaft (Cluster.AtDelivery Cluster.Timely)))
    (init (kv loadCas 10 fun _ => "")) retriedAndRead
    (fun s => s.history = [.received 0 0 0 (.put "k" [2] "c" 2), .appended 0 secondEntry,
      .replied 0 (.written secondReply), .received 1 0 0 (.put "k" [2] "c" 2),
      .replied 1 (.written secondReply), .received 2 0 0 (.get "k" true),
      .appended 2 ⟨1, 3, .noop, "", [], "", 0⟩, .replied 2 (.read (some [2], 1, true))]) (by decide +kernel)
  have hreceived : ∀ {h i b req}, .received h i b req ∈ s.history → Tracked req.clientId req.seqNum →
      req = .put "k" [2] "c" 2 := by
    intro h i b req hm ht
    rw [hh] at hm
    simp only [List.mem_cons, Exchange.received.injEq, reduceCtorEq, List.not_mem_nil, or_false, false_or] at hm
    rcases hm with ⟨-, -, -, rfl⟩ | ⟨-, -, -, rfl⟩ | ⟨-, -, -, rfl⟩
    · rfl
    · rfl
    · exact (ht.1 rfl).elim
  refine ⟨s, hh, linearizable hs.of_guarded ?_ fun i b => ?_⟩
  · intro h i b req k j c req' hm hm' ht hcid hseq
    rw [hreceived hm ht, hreceived hm' (by rw [hcid, hseq]; exact ht)]
  · have hclients : trackedClients (s.applied i b) ⊆ ["c"] := by
      intro c hmem
      obtain ⟨e, he, rfl⟩ := List.mem_map.mp hmem
      obtain ⟨hin, ht⟩ := List.mem_filter.mp he
      obtain ⟨k, j, b', req, -, hrec, hentry⟩ := (sound hs.of_guarded).appender hin (of_decide_eq_true ht)
      have hid : e.clientId = req.clientId ∧ e.seqNum = req.seqNum := by
        rw [hentry]
        exact ⟨rfl, rfl⟩
      have hreq := hreceived hrec (hid.1 ▸ hid.2 ▸ of_decide_eq_true ht)
      rw [hid.1, hreq]
      exact List.mem_singleton.mpr rfl
    have hle := (List.nodup_dedup (trackedClients (s.applied i b))).subperm
      (fun c hmem => hclients (List.mem_dedup.mp hmem)) |>.length_le
    exact hle.trans (by decide)

end System

end DistributedStorage.Kv
