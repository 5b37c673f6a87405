import DistributedStorage.Kv.StateMachine

/-! The machine with its session table against the plain one: duplicates and late requests leave no
trace. -/

namespace DistributedStorage.Kv

open Library Raft

variable (loads : Bytes → Except String CasSpec)

/-- `_apply_op` alone, entry by entry. -/
def Tables.run (es : List Entry) : Tables :=
  es.foldl (fun t e => (t.applyOp loads e).1) ⟨.empty, .empty⟩

def KVStateMachine.run (m : KVStateMachine) (es : List Entry) : KVStateMachine :=
  es.foldl (fun m e => (m.apply loads e).1) m

/-- After the effective entries `acc`, an entry is effective if it is untracked or newer than all of its
client's, and its operation does not raise. -/
def Effective (acc : List Entry) (e : Entry) : Prop :=
  (Tracked e.clientId e.seqNum → ∀ f ∈ acc, f.clientId = e.clientId → f.seqNum < e.seqNum) ∧
    ((Tables.run loads acc).applyOp loads e).2.isOk = true

instance (acc : List Entry) (e : Entry) : Decidable (Effective loads acc e) :=
  inferInstanceAs (Decidable (_ ∧ _))

def effective (es : List Entry) : List Entry :=
  es.foldl (fun acc e => if Effective loads acc e then acc ++ [e] else acc) []

/-- The clients that appear with a tracked identity. -/
def trackedClients (es : List Entry) : List String :=
  (es.filter fun e => Tracked e.clientId e.seqNum).map Entry.clientId

variable {loads}

@[simp] lemma Tables.run_concat (es : List Entry) (e : Entry) :
    Tables.run loads (es ++ [e]) = ((Tables.run loads es).applyOp loads e).1 := by
  simp [Tables.run]

@[simp] lemma KVStateMachine.run_concat (m : KVStateMachine) (es : List Entry) (e : Entry) :
    m.run loads (es ++ [e]) = ((m.run loads es).apply loads e).1 := by
  simp [KVStateMachine.run]

lemma effective_concat (es : List Entry) (e : Entry) : effective loads (es ++ [e]) =
    if Effective loads (effective loads es) e then effective loads es ++ [e]
    else effective loads es := by
  rw [effective, List.foldl_concat]
  rfl

/-- The session table has nothing to say about the entry. -/
def Unanswered (m : KVStateMachine) (e : Entry) : Prop :=
  Tracked e.clientId e.seqNum → m.sessionResult e.clientId e.seqNum = none

/-- The three ways an entry is applied. -/
inductive Outcome (loads : Bytes → Except String CasSpec) (m : KVStateMachine) (e : Entry) :
    KVStateMachine → Except String Result → Prop
  | answered (r : Result) : Tracked e.clientId e.seqNum →
      m.sessionResult e.clientId e.seqNum = some r → Outcome loads m e m (.ok r)
  | raised (exc : String) : Unanswered m e →
      (m.toTables.applyOp loads e).2 = .error exc → Outcome loads m e m (.error exc)
  | applied (r : Result) : Unanswered m e → (m.toTables.applyOp loads e).2 = .ok r →
      Outcome loads m e
        (if Tracked e.clientId e.seqNum then
          { m with toTables := (m.toTables.applyOp loads e).1 }.remember e.clientId e.seqNum r
        else { m with toTables := (m.toTables.applyOp loads e).1 }) (.ok r)

variable (loads) in
lemma KVStateMachine.outcome (m : KVStateMachine) {e : Entry} (h : e.opType ≠ .snapshot) :
    Outcome loads m e (m.apply loads e).1 (m.apply loads e).2 := by
  simp only [KVStateMachine.apply, if_neg h]
  split
  · rename_i r hr
    split_ifs at hr with ht
    exact .answered r ht hr
  · rename_i hr
    have hu : Unanswered m e := fun ht => by rwa [if_pos ht] at hr
    split
    · rename_i t exc hop
      have ht : t = m.toTables := Tables.applyOp_error hop
      subst ht
      exact .raised exc hu (congrArg Prod.snd hop)
    · rename_i t r hop
      have hh := Outcome.applied r hu (congrArg Prod.snd hop)
      rwa [congrArg Prod.fst hop] at hh

/-- Where nothing is evicted, remembering touches one session. -/
lemma remember_get {m : KVStateMachine} {c c' : String} {seq : ℤ} {r : Result}
    (h : ((m.sessions.set c ⟨seq, r⟩).moveToEnd c).size ≤ m.maxSessions) :
    (m.remember c seq r).sessions.get c' =
      if c = c' then some ⟨seq, r⟩ else m.sessions.get c' := by
  simp only [KVStateMachine.remember, OrderedDict.popFirst_of_le h, OrderedDict.get_moveToEnd_set]

/-- What the machine holds after `es`: the plain machine's tables, and for each tracked client its latest
effective request. -/
structure Remembers (loads : Bytes → Except String CasSpec) (es : List Entry) (m : KVStateMachine) :
    Prop where
  tables : m.toTables = Tables.run loads (effective loads es)
  keys : ∀ c ∈ m.sessions.keys, c ∈ trackedClients es
  absent : ∀ c, m.sessions.get c = none → ∀ f ∈ effective loads es, f.clientId = c →
    ¬ Tracked f.clientId f.seqNum
  latest : ∀ c s, m.sessions.get c = some s → (∃ f ∈ effective loads es, f.clientId = c ∧
    f.seqNum = s.seq ∧ Tracked f.clientId f.seqNum) ∧ ∀ f ∈ effective loads es, f.clientId = c → f.seqNum ≤ s.seq

variable {es : List Entry} {m : KVStateMachine} {e : Entry}

/-- The session table is silent exactly about the entries that are new. -/
lemma Remembers.unanswered_iff (h : Remembers loads es m) : Unanswered m e ↔
    (Tracked e.clientId e.seqNum → ∀ f ∈ effective loads es, f.clientId = e.clientId →
      f.seqNum < e.seqNum) := by
  refine forall_congr' fun ht => ?_
  simp only [KVStateMachine.sessionResult]
  cases hs : m.sessions.get e.clientId with
  | none =>
    refine iff_of_true rfl fun f hf hc => ?_
    have hnt := h.absent _ hs f hf hc
    by_contra hle
    exact hnt ⟨hc ▸ ht.1, by have := ht.2; omega⟩
  | some s =>
    obtain ⟨⟨f, hf, hfc, hfs, -⟩, hall⟩ := h.latest _ _ hs
    dsimp only
    split_ifs with hlt heq
    · exact iff_of_true rfl fun g hg hgc => (hall g hg hgc).trans_lt hlt
    · exact iff_of_false (fun h => by cases h) fun hnew => hlt (hfs ▸ hnew f hf hfc)
    · exact iff_of_false (fun h => by cases h) fun hnew => hlt (hfs ▸ hnew f hf hfc)

lemma trackedClients_concat (es : List Entry) (e : Entry) : trackedClients (es ++ [e]) =
    trackedClients es ++ if Tracked e.clientId e.seqNum then [e.clientId] else [] := by
  simp only [trackedClients, List.filter_append, List.map_append]
  by_cases ht : Tracked e.clientId e.seqNum
  · simp [ht]
  · simp [ht]

lemma Remembers.unchanged (h : Remembers loads es m)
    (he : effective loads (es ++ [e]) = effective loads es) : Remembers loads (es ++ [e]) m where
  tables := he ▸ h.tables
  keys c hc := by
    rw [trackedClients_concat]
    exact List.mem_append_left _ (h.keys c hc)
  absent := he ▸ h.absent
  latest := he ▸ h.latest

/-- There is room in the session table for one more request of `e`'s client. -/
lemma Remembers.room (h : Remembers loads es m) (ht : Tracked e.clientId e.seqNum)
    (hM : (trackedClients (es ++ [e])).dedup.length ≤ m.maxSessions) (s : Session) :
    ((m.sessions.set e.clientId s).moveToEnd e.clientId).size ≤ m.maxSessions := by
  refine (OrderedDict.size_le_of_keys fun c hc => ?_).trans hM
  rw [trackedClients_concat, if_pos ht]
  rcases OrderedDict.mem_keys_moveToEnd_set.mp hc with rfl | hc
  · exact List.mem_append_right _ (List.mem_singleton.mpr rfl)
  · exact List.mem_append_left _ (h.keys c hc)

lemma Remembers.get_remember (h : Remembers loads es m) (ht : Tracked e.clientId e.seqNum)
    (hM : (trackedClients (es ++ [e])).dedup.length ≤ m.maxSessions) (t : Tables) (r : Result)
    (c : String) : ({ m with toTables := t }.remember e.clientId e.seqNum r).sessions.get c =
      if e.clientId = c then some ⟨e.seqNum, r⟩ else m.sessions.get c :=
  remember_get (m := { m with toTables := t }) (h.room ht hM ⟨e.seqNum, r⟩)

lemma Remembers.applied (h : Remembers loads es m) (hu : Unanswered m e) {r : Result}
    (hr : (m.toTables.applyOp loads e).2 = .ok r)
    (hM : (trackedClients (es ++ [e])).dedup.length ≤ m.maxSessions) :
    Remembers loads (es ++ [e]) (if Tracked e.clientId e.seqNum then
      { m with toTables := (m.toTables.applyOp loads e).1 }.remember e.clientId e.seqNum r
    else { m with toTables := (m.toTables.applyOp loads e).1 }) := by
  have hnew := h.unanswered_iff.mp hu
  have heff : effective loads (es ++ [e]) = effective loads es ++ [e] := by
    rw [effective_concat, if_pos]
    refine ⟨hnew, ?_⟩
    rw [← h.tables, hr]
    rfl
  have htables : (m.toTables.applyOp loads e).1 = Tables.run loads (effective loads (es ++ [e])) := by
    rw [heff, Tables.run_concat, ← h.tables]
  by_cases ht : Tracked e.clientId e.seqNum
  · rw [if_pos ht]
    have hget := h.get_remember ht hM (m.toTables.applyOp loads e).1 r
    refine ⟨htables, fun c hc => ?_, fun c hc f hf hfc => ?_, fun c s hs => ?_⟩
    · by_contra hnot
      refine OrderedDict.get_eq_none.not.mpr (not_not.mpr hc) ?_
      rw [trackedClients_concat, if_pos ht, List.mem_append, List.mem_singleton, not_or] at hnot
      rw [hget, if_neg (Ne.symm hnot.2)]
      exact OrderedDict.get_eq_none.mpr fun hk => hnot.1 (h.keys c hk)
    · rw [hget] at hc
      split_ifs at hc with hec
      rw [heff] at hf
      rcases List.mem_append.mp hf with hf | hf
      · exact h.absent c hc f hf hfc
      · rw [List.mem_singleton.mp hf] at hfc
        exact (hec hfc).elim
    · rw [hget] at hs
      rw [heff]
      split_ifs at hs with hec
      · cases hs
        refine ⟨⟨e, List.mem_append_right _ (List.mem_singleton.mpr rfl), hec, rfl, ht⟩, ?_⟩
        intro f hf hfc
        rcases List.mem_append.mp hf with hf | hf
        · exact (hnew ht f hf (hfc.trans hec.symm)).le
        · rw [List.mem_singleton.mp hf]
      · obtain ⟨⟨f, hf, hfs⟩, hall⟩ := h.latest c s hs
        refine ⟨⟨f, List.mem_append_left _ hf, hfs⟩, fun g hg hgc => ?_⟩
        rcases List.mem_append.mp hg with hg | hg
        · exact hall g hg hgc
        · rw [List.mem_singleton.mp hg] at hgc
          exact (hec hgc).elim
  · rw [if_neg ht]
    refine ⟨htables, fun c hc => ?_, fun c hc f hf hfc => ?_, fun c s hs => ?_⟩
    · rw [trackedClients_concat]
      exact List.mem_append_left _ (h.keys c hc)
    · rw [heff] at hf
      rcases List.mem_append.mp hf with hf | hf
      · exact h.absent c hc f hf hfc
      · rw [List.mem_singleton.mp hf]
        exact ht
    · obtain ⟨⟨f, hf, hfc, hfs, hft⟩, hall⟩ := h.latest c s hs
      rw [heff]
      refine ⟨⟨f, List.mem_append_left _ hf, hfc, hfs, hft⟩, fun g hg hgc => ?_⟩
      rcases List.mem_append.mp hg with hg | hg
      · exact hall g hg hgc
      · -- an untracked entry of a client that has a session
        rw [List.mem_singleton.mp hg] at hgc ⊢
        have hne : e.clientId ≠ "" := by
          rw [hgc, ← hfc]
          exact hft.1
        have hle : e.seqNum ≤ 0 := not_lt.mp fun hpos => ht ⟨hne, hpos⟩
        have := hft.2
        omega

lemma Remembers.apply (h : Remembers loads es m) (hop : e.opType ≠ .snapshot)
    (hM : (trackedClients (es ++ [e])).dedup.length ≤ m.maxSessions) :
    Remembers loads (es ++ [e]) (m.apply loads e).1 ∧
      (m.apply loads e).1.maxSessions = m.maxSessions := by
  have hout := m.outcome loads hop
  generalize m.apply loads e = out at hout
  obtain ⟨m', result⟩ := out
  dsimp only at hout ⊢
  cases hout with
  | answered r ht hr =>
    refine ⟨h.unchanged ?_, rfl⟩
    rw [effective_concat, if_neg]
    rintro ⟨hnew, -⟩
    have hu := h.unanswered_iff.mpr hnew ht
    rw [hr] at hu
    cases hu
  | raised exc hu hr =>
    refine ⟨h.unchanged ?_, rfl⟩
    rw [effective_concat, if_neg]
    rintro ⟨-, hok⟩
    rw [← h.tables, hr] at hok
    cases hok
  | applied r hu hr =>
    refine ⟨h.applied hu hr hM, ?_⟩
    split_ifs <;> rfl

lemma trackedClients_mono {es fs : List Entry} (h : es <+: fs) :
    (trackedClients es).dedup.length ≤ (trackedClients fs).dedup.length := by
  refine (List.Nodup.subperm (List.nodup_dedup _) fun c hc => ?_).length_le
  have hsub : (trackedClients es).Sublist (trackedClients fs) := (h.sublist.filter _).map _
  exact List.mem_dedup.mpr (hsub.subset (List.mem_dedup.mp hc))

variable (loads) in
lemma run_remembers {M : ℕ} (es : List Entry) (hop : ∀ e ∈ es, e.opType ≠ .snapshot)
    (hM : (trackedClients es).dedup.length ≤ M) :
    Remembers loads es ((KVStateMachine.init M).run loads es) ∧
      ((KVStateMachine.init M).run loads es).maxSessions = M := by
  induction es using List.reverseRecOn with
  | nil =>
    refine ⟨⟨rfl, fun c hc => (List.not_mem_nil hc).elim, fun c _ f hf => ?_, fun c s hs => ?_⟩, rfl⟩
    · exact (List.not_mem_nil hf).elim
    · cases hs
  | append_singleton es e ih =>
    obtain ⟨hr, hmax⟩ := ih (fun f hf => hop f (List.mem_append_left _ hf))
      ((trackedClients_mono (List.prefix_append _ _)).trans hM)
    rw [KVStateMachine.run_concat]
    obtain ⟨hr', hmax'⟩ := hr.apply (hop e (by simp)) (by rw [hmax]; exact hM)
    exact ⟨hr', hmax'.trans hmax⟩

/-- The session a client's effective request leaves behind. -/
lemma Remembers.effective_session (h : Remembers loads es m) (hop : e.opType ≠ .snapshot)
    (ht : Tracked e.clientId e.seqNum) (he : Effective loads (effective loads es) e)
    (hM : (trackedClients (es ++ [e])).dedup.length ≤ m.maxSessions) :
    ∃ r, (m.apply loads e).2 = .ok r ∧
      (m.apply loads e).1.sessions.get e.clientId = some ⟨e.seqNum, r⟩ := by
  have hu := h.unanswered_iff.mpr he.1
  have hout := m.outcome loads hop
  generalize m.apply loads e = out at hout
  obtain ⟨m', result⟩ := out
  dsimp only at hout ⊢
  cases hout with
  | answered r _ hr =>
    rw [hu ht] at hr
    cases hr
  | raised exc _ hr =>
    have hok := he.2
    rw [← h.tables, hr] at hok
    cases hok
  | applied r _ hr =>
    refine ⟨r, rfl, ?_⟩
    rw [if_pos ht, h.get_remember ht hM, if_pos rfl]

/-- A session stays while its client has no newer effective request. -/
lemma Remembers.session_stays (h : Remembers loads es m) (hop : e.opType ≠ .snapshot)
    (hM : (trackedClients (es ++ [e])).dedup.length ≤ m.maxSessions) {c : String} {s : Session}
    (hs : m.sessions.get c = some s)
    (hlast : ∀ g ∈ effective loads (es ++ [e]), g.clientId = c → g.seqNum ≤ s.seq) :
    (m.apply loads e).1.sessions.get c = some s := by
  have hout := m.outcome loads hop
  generalize m.apply loads e = out at hout
  obtain ⟨m', result⟩ := out
  dsimp only at hout ⊢
  cases hout with
  | answered r _ hr => exact hs
  | raised exc _ hr => exact hs
  | applied r hu hr =>
    by_cases ht : Tracked e.clientId e.seqNum
    · rw [if_pos ht, h.get_remember ht hM, if_neg]
      · exact hs
      · intro hec
        have hnew := hu ht
        simp only [KVStateMachine.sessionResult, hec, hs] at hnew
        split_ifs at hnew with hlt
        have heff : e ∈ effective loads (es ++ [e]) := by
          rw [effective_concat, if_pos]
          · exact List.mem_append_right _ (List.mem_singleton.mpr rfl)
          · refine ⟨h.unanswered_iff.mp hu, ?_⟩
            rw [← h.tables, hr]
            rfl
        exact absurd (hlast e heff hec) (not_le.mpr hlt)
    · rw [if_neg ht]
      exact hs

lemma effective_isPrefix (es : List Entry) (e : Entry) :
    effective loads es <+: effective loads (es ++ [e]) := by
  rw [effective_concat]
  split_ifs
  · exact List.prefix_append _ _
  · exact List.prefix_rfl

lemma effective_mono {es fs : List Entry} (h : es <+: fs) :
    effective loads es <+: effective loads fs := by
  obtain ⟨mid, rfl⟩ := h
  induction mid using List.reverseRecOn with
  | nil => rw [List.append_nil]
  | append_singleton mid x ih =>
    rw [← List.append_assoc]
    exact ih.trans (effective_isPrefix _ x)

lemma session_kept {M : ℕ} {es mid : List Entry} {c : String} {s : Session}
    (hop : ∀ e ∈ es ++ mid, e.opType ≠ .snapshot) (hM : (trackedClients (es ++ mid)).dedup.length ≤ M)
    (hs : ((KVStateMachine.init M).run loads es).sessions.get c = some s)
    (hlast : ∀ g ∈ effective loads (es ++ mid), g.clientId = c → g.seqNum ≤ s.seq) :
    ((KVStateMachine.init M).run loads (es ++ mid)).sessions.get c = some s := by
  induction mid using List.reverseRecOn with
  | nil => rwa [List.append_nil]
  | append_singleton mid x ih =>
    rw [← List.append_assoc] at hop hM hlast ⊢
    have hop' : ∀ e ∈ es ++ mid, e.opType ≠ .snapshot := fun e he =>
      hop e (List.mem_append_left _ he)
    have hM' := (trackedClients_mono (List.prefix_append (es ++ mid) [x])).trans hM
    obtain ⟨hrem, hmax⟩ := run_remembers loads (es ++ mid) hop' hM'
    have hold := ih hop' hM' fun g hg => hlast g ((effective_isPrefix _ x).subset hg)
    rw [KVStateMachine.run_concat]
    exact hrem.session_stays (hop x (by simp)) (by rw [hmax]; exact hM) hold hlast

/-- Sessions for all tracked clients: the machine holds what the plain one holds after the effective
entries, and a repeat of a client's latest effective request is answered as the request was. -/
theorem exactly_once (loads : Bytes → Except String CasSpec) (M : ℕ) (es : List Entry)
    (hop : ∀ e ∈ es, e.opType ≠ .snapshot) (hM : (trackedClients es).dedup.length ≤ M) :
    ((KVStateMachine.init M).run loads es).toTables = Tables.run loads (effective loads es) ∧
    ∀ pre e mid f, pre ++ e :: mid ++ [f] <+: es → Tracked e.clientId e.seqNum →
      Effective loads (effective loads pre) e → f.clientId = e.clientId → f.seqNum = e.seqNum →
      (∀ g ∈ effective loads (pre ++ e :: mid), g.clientId = e.clientId → g.seqNum ≤ e.seqNum) →
      (((KVStateMachine.init M).run loads (pre ++ e :: mid)).apply loads f).2 =
        (((KVStateMachine.init M).run loads pre).apply loads e).2 := by
  refine ⟨(run_remembers loads es hop hM).1.tables, fun pre e mid f hpre ht he hc hs hlast => ?_⟩
  have hmem {fs : List Entry} (h : fs <+: pre ++ e :: mid ++ [f]) : ∀ g ∈ fs, g.opType ≠ .snapshot :=
    fun g hg => hop g ((h.trans hpre).subset hg)
  have hroom {fs : List Entry} (h : fs <+: pre ++ e :: mid ++ [f]) :
      (trackedClients fs).dedup.length ≤ M := (trackedClients_mono (h.trans hpre)).trans hM
  have hfirst : pre ++ [e] <+: pre ++ e :: mid ++ [f] := by simp
  obtain ⟨hrem, hmax⟩ := run_remembers loads pre
    (hmem ((List.prefix_append _ _).trans hfirst)) (hroom ((List.prefix_append _ _).trans hfirst))
  obtain ⟨r, hr, hsess⟩ := hrem.effective_session (hmem hfirst e (by simp)) ht he
    (by rw [hmax]; exact hroom hfirst)
  -- the session survives the entries in between
  have hkeep : ((KVStateMachine.init M).run loads (pre ++ e :: mid)).sessions.get e.clientId =
      some ⟨e.seqNum, r⟩ := by
    have hmid : pre ++ [e] ++ mid <+: pre ++ e :: mid ++ [f] := by simp
    rw [List.append_cons] at hlast ⊢
    refine session_kept (hmem hmid) (hroom hmid) ?_ hlast
    rw [KVStateMachine.run_concat]
    exact hsess
  have hfop : f.opType ≠ .snapshot := hmem List.prefix_rfl f (by simp)
  rw [hr, KVStateMachine.apply, if_neg hfop]
  simp only [hc, hs, if_pos ht, KVStateMachine.sessionResult, hkeep, lt_irrefl, if_false, if_true]

/-- A put, a late older one, and the first one again. -/
def newPut : Entry := ⟨1, 2, .put, "k", [1], "c", 2⟩

def latePut : Entry := ⟨1, 3, .put, "k", [2], "c", 1⟩

def noCas (_ : Bytes) : Except String CasSpec := .error ""

theorem exactly_once_late_and_repeated :
    ((KVStateMachine.init 1).run noCas [newPut, latePut, newPut]).toTables =
      Tables.run noCas [newPut] ∧
    (((KVStateMachine.init 1).run noCas [newPut, latePut]).apply noCas newPut).2 =
      ((KVStateMachine.init 1).apply noCas newPut).2 := by
  obtain ⟨htables, hrepeat⟩ := exactly_once noCas 1 [newPut, latePut, newPut] (by decide) (by decide)
  have heff : effective noCas [newPut, latePut, newPut] = [newPut] := by decide
  rw [heff] at htables
  exact ⟨htables, hrepeat [] newPut [latePut] newPut List.prefix_rfl (by decide) (by decide) rfl rfl
    (by decide)⟩

end DistributedStorage.Kv
