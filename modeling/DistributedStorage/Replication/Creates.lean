import DistributedStorage.Replication.RaftFiles

/-! Creates of one file over the Raft cluster: when no two clients are both told that they created it. -/

set_option linter.unusedSectionVars false

namespace DistributedStorage.Replication

open Library Library.Runs Files

namespace RaftDSFSServicer

variable {s : RaftDSFSServicer} {a : RaftAnswer} {c c' : RaftCall} {r : Reply} {who : Caller}

lemma run_goesOn (h : (s.run a c).2 = .goesOn c') : c'.identity = c.identity ∧
    (∀ p, c'.creates = some p → c.creates = some p) ∧
    ∀ who, c' = .createStore who → ∃ f v, c = .createWait f who ∧ a.result = .applied v := by
  cases c with
  | createDedup f who =>
    simp only [run] at h
    split at h
    · cases h
    · cases h
      exact ⟨rfl, fun p hp => hp, fun who hw => by cases hw⟩
  | createWait f who =>
    simp only [run] at h
    split at h
    · rename_i v hv
      cases h
      refine ⟨rfl, fun p hp => ?_, fun who hw => ?_⟩
      · cases hp
      · cases hw
        exact ⟨f, v, rfl, hv⟩
    · cases h
    · cases h
  | closeDedup handle data who =>
    simp only [run] at h
    split at h
    · cases h
    · cases h
      exact ⟨rfl, fun p hp => hp, fun who hw => by cases hw⟩
  | closePop handle data who =>
    simp only [run] at h
    split at h
    · cases h
    · dsimp only at h
      split_ifs at h
      all_goals
        cases h
        exact ⟨rfl, fun p hp => hp, fun who hw => by cases hw⟩
  | closeWait f who =>
    simp only [run] at h
    split at h
    · cases h
      exact ⟨rfl, fun p hp => hp, fun who hw => by cases hw⟩
    · cases h
    · cases h
  | createStore who => cases h
  | closeStore v who => cases h
  | openSection f mode data => cases h
  | testSection f => cases h
  | openRead f mode =>
    cases h
    exact ⟨rfl, fun p hp => hp, fun who hw => by cases hw⟩
  | _ =>
    simp only [run] at h
    split_ifs at h
    all_goals
      cases h
      exact ⟨rfl, fun p hp => hp, fun who hw => by cases hw⟩

lemma run_returns (h : (s.run a c).2 = .returns r) (hr : r.Succeeds) (hc : c.identity = some (.create, who)) :
    (∃ f, c = .createDedup f who ∧ s.checkIdempotent who = some r) ∨ c = .createStore who := by
  cases c with
  | createDedup f who' =>
    obtain rfl : who' = who := congrArg Prod.snd (Option.some.inj hc)
    simp only [run] at h
    split at h
    · rename_i cached hcached
      cases h
      exact .inl ⟨f, rfl, hcached⟩
    · cases h
  | createStore who' =>
    obtain rfl : who' = who := congrArg Prod.snd (Option.some.inj hc)
    exact .inr rfl
  | createWait f who' =>
    simp only [run] at h
    split at h
    · cases h
    · cases h
      cases hr
    · cases h
      cases hr
  | create f who' =>
    simp only [run] at h
    split_ifs at h
    cases h
    cases hr
  | createRole f who' =>
    simp only [run] at h
    split_ifs at h
    cases h
    cases hr
  | createExists f who' =>
    simp only [run] at h
    split_ifs at h
    cases h
    cases hr
  | createAppend f who' =>
    simp only [run] at h
    split_ifs at h
    cases h
    cases hr
  | _ => cases hc

lemma run_dedupCache (a : RaftAnswer) (s : RaftDSFSServicer) (c : RaftCall) :
    (s.run a c).1.dedupCache = s.dedupCache ∨ ∃ who r, (c = .createStore who ∨ ∃ v, c = .closeStore v who) ∧
      who.Keyed ∧ (s.run a c).1.dedupCache =
        Function.update s.dedupCache who.clientId (some (who.seqNum, r)) := by
  have hstore : ∀ who r, (s.cacheResp who r).dedupCache = s.dedupCache ∨ who.Keyed ∧
      (s.cacheResp who r).dedupCache = Function.update s.dedupCache who.clientId (some (who.seqNum, r)) := by
    intro who r
    rw [cacheResp]
    split_ifs with hwho
    · exact .inr ⟨hwho, rfl⟩
    · exact .inl rfl
  cases c with
  | createStore who =>
    refine (hstore who .created).imp id ?_
    rintro ⟨hwho, hcache⟩
    exact ⟨who, .created, .inl rfl, hwho, hcache⟩
  | closeStore v who =>
    refine (hstore who (.closed v)).imp id ?_
    rintro ⟨hwho, hcache⟩
    exact ⟨who, .closed v, .inr ⟨v, rfl⟩, hwho, hcache⟩
  | createDedup f who =>
    refine .inl ?_
    simp only [run]
    split <;> rfl
  | createWait f who =>
    refine .inl ?_
    simp only [run]
    split <;> rfl
  | closeDedup handle data who =>
    refine .inl ?_
    simp only [run]
    split <;> rfl
  | closePop handle data who =>
    refine .inl ?_
    simp only [run]
    split <;> rfl
  | closeWait f who =>
    refine .inl ?_
    simp only [run]
    split <;> rfl
  | «open» f mode fetchData =>
    refine .inl ?_
    simp only [run]
    split_ifs <;> rfl
  | _ => exact .inl rfl

lemma checkIdempotent_eq_some (h : s.checkIdempotent who = some r) :
    who.Keyed ∧ ∃ d, s.dedupCache who.clientId = some d ∧ who.seqNum ≤ d.1 ∧ d.2 = r := by
  rw [checkIdempotent] at h
  split_ifs at h with hwho
  rw [not_or] at hwho
  obtain ⟨d, hd, hr⟩ := Option.bind_eq_some_iff.mp h
  split_ifs at hr with hle
  exact ⟨⟨hwho.1, Int.not_le.mp hwho.2⟩, d, hd, hle, Option.some.inj hr⟩

end RaftDSFSServicer

namespace RaftFiles

variable {ι : Type} [DecidableEq ι]

/-- Some node has applied an entry that creates `f` for `who`. -/
def Done (x : RaftFiles ι) (f : String) (who : Caller) : Prop :=
  ∃ i boot k e r, (k, e, r) ∈ Raft.records x.raft.trace i boot ∧ Creates f e ∧ caller e = who

/-- The books of the handlers, the caches and the answers. -/
structure Books (x : RaftFiles ι) : Prop where
  numbered : ∀ h hd, x.handlers h = some hd → h < x.nextHandler
  boot_le : ∀ h hd, x.handlers h = some hd → hd.boot ≤ (x.raft.nodes hd.node).boot
  owner : ∀ h hd k kd w, x.handlers h = some hd → x.handlers k = some kd → hd.frame = some w →
    kd.frame = some w → hd.node = kd.node → hd.boot = kd.boot → (x.raft.nodes hd.node).boot = hd.boot → h = k
  frame : ∀ h hd w, x.handlers h = some hd → hd.frame = some w → (x.raft.nodes hd.node).boot = hd.boot →
    ∃ c, (x.raft.nodes hd.node).calls w = some c ∧
      ∀ f who, hd.stage = .createWait f who → Creates f c.entry ∧ caller c.entry = who
  waits : ∀ h hd w, x.handlers h = some hd → hd.frame = some w → hd.stage.Waits = true
  request : ∀ h hd, x.handlers h = some hd → hd.request.IsRequest = true
  identity : ∀ h hd, x.handlers h = some hd → hd.stage.identity = hd.request.identity
  creates : ∀ h hd p, x.handlers h = some hd → hd.stage.creates = some p → hd.request = .create p.1 p.2
  stores : ∀ h hd who, x.handlers h = some hd → hd.stage = .createStore who →
    ∃ f, hd.request = .create f who ∧ x.Done f who
  asks : ∀ h hd p, x.handlers h = some hd → hd.request.operation = some p → p.2.Keyed → x.asked p.2 = some p.1
  slots : ∀ i clientId d, (x.servers i).dedupCache clientId = some d → Caller.Keyed ⟨clientId, d.1⟩ ∧
    ∃ op, x.asked ⟨clientId, d.1⟩ = some op ∧ ∀ f, op = .create f → x.Done f ⟨clientId, d.1⟩
  answered : ∀ f who r, (.create f who, r) ∈ x.answers → r.Succeeds → x.Done f who

lemma init_books (address : ι → String) (disk : ι → String → Option FileData) : Books (init address disk) := by
  constructor
  · intro h hd hh
    cases hh
  · intro h hd hh
    cases hh
  · intro h hd k kd w hh
    cases hh
  · intro h hd w hh
    cases hh
  · intro h hd w hh
    cases hh
  · intro h hd hh
    cases hh
  · intro h hd hh
    cases hh
  · intro h hd p hh
    cases hh
  · intro h hd who hh
    cases hh
  · intro h hd p hh
    cases hh
  · intro i clientId d hd
    cases hd
  · intro f who r hr
    cases hr

variable {x : RaftFiles ι}

lemma Done.grow {y : RaftFiles ι} {f : String} {who : Caller} (h : x.Done f who)
    (htrace : x.raft.trace <+: y.raft.trace) : y.Done f who := by
  obtain ⟨i, boot, k, e, r, hrec, he⟩ := h
  obtain ⟨obs, hobs⟩ := htrace
  refine ⟨i, boot, k, e, r, ?_, he⟩
  rw [← hobs, Raft.records_append]
  exact List.mem_append_left _ hrec

/-- The nodes move, and the frames that handlers wait on stay. -/
lemma Books.withRaft (hb : x.Books) {raft : Raft.Cluster ι (String → Option ℕ) ApplyResult}
    {servers : ι → RaftDSFSServicer} {appended : List (List Raft.Entry × Raft.Entry)}
    (hboot : ∀ i, (x.raft.nodes i).boot ≤ (raft.nodes i).boot) (htrace : x.raft.trace <+: raft.trace)
    (hframe : ∀ h hd w c, x.handlers h = some hd → hd.frame = some w → (x.raft.nodes hd.node).boot = hd.boot →
      (raft.nodes hd.node).boot = hd.boot → (x.raft.nodes hd.node).calls w = some c →
      ∃ d, (raft.nodes hd.node).calls w = some d ∧ d.entry = c.entry)
    (hcache : ∀ i clientId d, (servers i).dedupCache clientId = some d →
      (x.servers i).dedupCache clientId = some d) :
    Books { x with raft := raft, servers := servers, appended := appended } where
  numbered := hb.numbered
  boot_le h hd hh := (hb.boot_le h hd hh).trans (hboot _)
  owner h hd k kd w hh hk hw hkw hn hbt hlive := by
    have hold := le_antisymm (hlive ▸ hboot hd.node) (hb.boot_le h hd hh)
    exact hb.owner h hd k kd w hh hk hw hkw hn hbt hold
  frame h hd w hh hw hlive := by
    have hold := le_antisymm (hlive ▸ hboot hd.node) (hb.boot_le h hd hh)
    obtain ⟨c, hc, he⟩ := hb.frame h hd w hh hw hold
    obtain ⟨d, hd', hde⟩ := hframe h hd w c hh hw hold hlive hc
    exact ⟨d, hd', hde ▸ he⟩
  waits := hb.waits
  request := hb.request
  identity := hb.identity
  creates := hb.creates
  stores h hd who hh hs := by
    obtain ⟨f, hreq, hdone⟩ := hb.stores h hd who hh hs
    exact ⟨f, hreq, hdone.grow htrace⟩
  asks := hb.asks
  slots i clientId d hd := by
    obtain ⟨hwho, op, hop, hdone⟩ := hb.slots i clientId d (hcache i clientId d hd)
    exact ⟨hwho, op, hop, fun f hf => (hdone f hf).grow htrace⟩
  answered f who r hr hs := (hb.answered f who r hr hs).grow htrace

section Runs

variable {h : ℕ} {hd : RaftHandler ι} {a : RaftAnswer} {frame : Option ℕ}

lemma runs_raft : (x.runs h hd a frame).raft = x.raft := by
  simp only [runs]
  split <;> rfl

lemma runs_nextHandler : (x.runs h hd a frame).nextHandler = x.nextHandler := by
  simp only [runs]
  split <;> rfl

lemma runs_asked : (x.runs h hd a frame).asked = x.asked := by
  simp only [runs]
  split <;> rfl

lemma runs_appended : (x.runs h hd a frame).appended = x.appended := by
  simp only [runs]
  split <;> rfl

lemma runs_servers : (x.runs h hd a frame).servers =
    Function.update x.servers hd.node ((x.servers hd.node).run a hd.stage).1 := by
  simp only [runs]
  split <;> rfl

lemma runs_withRaft (raft : Raft.Cluster ι (String → Option ℕ) ApplyResult) :
    { x with raft := raft }.runs h hd a frame = { x.runs h hd a frame with raft := raft } := by
  simp only [runs]
  split <;> rfl

lemma runs_handlers {k : ℕ} {kd : RaftHandler ι} (hk : (x.runs h hd a frame).handlers k = some kd) :
    k ≠ h ∧ x.handlers k = some kd ∨
      k = h ∧ ∃ c, ((x.servers hd.node).run a hd.stage).2 = .goesOn c ∧
        kd = { hd with stage := c, frame := frame } := by
  simp only [runs] at hk
  split at hk
  · rename_i c hc
    obtain ⟨hkh, hkd⟩ | hold := of_update_some hk
    · exact .inr ⟨hkh, c, hc, hkd⟩
    · exact .inl hold
  · exact .inl (of_update_none hk)

lemma runs_answers {c : RaftCall} {r : Reply} (hm : (c, r) ∈ (x.runs h hd a frame).answers) :
    (c, r) ∈ x.answers ∨ c = hd.request ∧ ((x.servers hd.node).run a hd.stage).2 = .returns r := by
  simp only [runs] at hm
  split at hm
  · exact .inl hm
  · rename_i r' hr
    obtain hold | hnew := List.mem_append.mp hm
    · exact .inl hold
    · obtain ⟨rfl, rfl⟩ := Prod.mk.injEq .. ▸ List.mem_singleton.mp hnew
      exact .inr ⟨rfl, hr⟩

/-- The identity of a request that has one belongs to its operation. -/
lemma operation_of_identity {c : RaftCall} {q : Rpc × Caller} (hc : c.IsRequest = true)
    (hq : c.identity = some q) :
    ∃ op, c.operation = some (op, q.2) ∧ (q.1 = .close → ∀ f, op ≠ .create f) := by
  cases c with
  | create f who =>
    obtain rfl := Option.some.inj hq
    exact ⟨.create f, rfl, fun h => by cases h⟩
  | close handle data who =>
    obtain rfl := Option.some.inj hq
    exact ⟨.close handle, rfl, fun _ f h => by cases h⟩
  | «open» f mode fetchData => cases hq
  | testVersionNumber f => cases hq
  | _ => cases hc

lemma Books.done_of_returns (hb : x.Books) (hh : x.handlers h = some hd) {f : String} {who : Caller} {r : Reply}
    (hreq : hd.request = .create f who) (hr : r.Succeeds)
    (hout : ((x.servers hd.node).run a hd.stage).2 = .returns r)
    (hslot : ∀ f who, hd.stage = .createDedup f who → ∀ d ∈ (x.servers hd.node).dedupCache who.clientId,
      who.seqNum ≤ d.1 → d.1 = who.seqNum) : x.Done f who := by
  have hid : hd.stage.identity = some (.create, who) := by
    rw [hb.identity h hd hh, hreq]
    rfl
  obtain ⟨g, hstage, hcached⟩ | hstage := RaftDSFSServicer.run_returns hout hr hid
  · -- answered from the cache, with the response to the same identity
    obtain ⟨hwho, d, hd', hle, -⟩ := RaftDSFSServicer.checkIdempotent_eq_some hcached
    obtain ⟨-, op, hop, hdone⟩ := hb.slots hd.node who.clientId d hd'
    rw [hslot g who hstage d hd' hle] at hop hdone
    have hasked := hb.asks h hd (.create f, who) hh (by rw [hreq]; rfl) hwho
    exact hdone f (Option.some.inj (hop.symm.trans hasked))
  · obtain ⟨g, hreq', hdone⟩ := hb.stores h hd who hh hstage
    obtain ⟨rfl, -⟩ := RaftCall.create.inj (hreq.symm.trans hreq')
    exact hdone

lemma Books.runs_slots (hb : x.Books) (hh : x.handlers h = some hd) {i : ι} {clientId : String} {d : ℤ × Reply}
    (hd' : ((x.runs h hd a frame).servers i).dedupCache clientId = some d) : Caller.Keyed ⟨clientId, d.1⟩ ∧
    ∃ op, x.asked ⟨clientId, d.1⟩ = some op ∧ ∀ f, op = .create f → x.Done f ⟨clientId, d.1⟩ := by
  rw [runs_servers, Function.update_apply] at hd'
  split_ifs at hd' with hi
  · subst hi
    obtain hsame | ⟨who, r, hstage, hwho, hcache⟩ := RaftDSFSServicer.run_dedupCache a (x.servers hd.node) hd.stage
    · exact hb.slots hd.node clientId d (hsame ▸ hd')
    · rw [hcache, Function.update_apply] at hd'
      split_ifs at hd' with hclient
      · obtain rfl := Option.some.inj hd'
        subst hclient
        obtain hcreate | ⟨v, hclose⟩ := hstage
        · obtain ⟨f, hreq, hdone⟩ := hb.stores h hd who hh hcreate
          refine ⟨hwho, .create f, hb.asks h hd (.create f, who) hh (by rw [hreq]; rfl) hwho, fun g hg => ?_⟩
          obtain rfl := Operation.create.inj hg
          exact hdone
        · have hid : hd.request.identity = some (.close, who) := by
            rw [← hb.identity h hd hh, hclose]
            rfl
          obtain ⟨op, hop, hnot⟩ := operation_of_identity (hb.request h hd hh) hid
          exact ⟨hwho, op, hb.asks h hd (op, who) hh hop hwho, fun f hf => absurd hf (hnot rfl f)⟩
      · exact hb.slots hd.node clientId d hd'
  · exact hb.slots i clientId d hd'

lemma Books.runs (hb : x.Books) (hh : x.handlers h = some hd)
    (hframe : ∀ w c, frame = some w → ((x.servers hd.node).run a hd.stage).2 = .goesOn c →
      c.Waits = true ∧ ∃ d, (x.raft.nodes hd.node).calls w = some d ∧
        ∀ f who, c = .createWait f who → Creates f d.entry ∧ caller d.entry = who)
    (howner : ∀ w k kd, frame = some w → x.handlers k = some kd → kd.frame = some w → hd.node = kd.node →
      hd.boot = kd.boot → k = h)
    (hwait : ∀ f who v, hd.stage = .createWait f who → a.result = .applied v → x.Done f who)
    (hslot : ∀ f who, hd.stage = .createDedup f who → ∀ d ∈ (x.servers hd.node).dedupCache who.clientId,
      who.seqNum ≤ d.1 → d.1 = who.seqNum) : (x.runs h hd a frame).Books := by
  have hgrow : ∀ f who, x.Done f who → (x.runs h hd a frame).Done f who := by
    intro f who hdone
    refine hdone.grow ?_
    rw [runs_raft]
  refine ⟨fun k kd hk => ?_, fun k kd hk => ?_, fun k kd l ld w hk hl hw hlw hn hbt hlive => ?_,
    fun k kd w hk hw hlive => ?_, fun k kd w hk hw => ?_, fun k kd hk => ?_, fun k kd hk => ?_,
    fun k kd p hk hp => ?_, fun k kd who hk hs => ?_, fun k kd p hk hp hwho => ?_, fun i clientId d hd' => ?_,
    fun f who r hm hr => ?_⟩
  · rw [runs_nextHandler]
    obtain ⟨-, hk⟩ | ⟨rfl, -⟩ := runs_handlers hk
    · exact hb.numbered k kd hk
    · exact hb.numbered k hd hh
  · rw [runs_raft]
    obtain ⟨-, hk⟩ | ⟨rfl, c, -, rfl⟩ := runs_handlers hk
    · exact hb.boot_le k kd hk
    · exact hb.boot_le k hd hh
  · rw [runs_raft] at hlive
    obtain ⟨-, hk'⟩ | ⟨hkh, c, -, rfl⟩ := runs_handlers hk
    · obtain ⟨-, hl'⟩ | ⟨hlh, c, -, rfl⟩ := runs_handlers hl
      · exact hb.owner k kd l ld w hk' hl' hw hlw hn hbt hlive
      · exact (howner w k kd hlw hk' hw hn.symm hbt.symm).trans hlh.symm
    · obtain ⟨-, hl'⟩ | ⟨hlh, c, -, rfl⟩ := runs_handlers hl
      · exact hkh.trans (howner w l ld hw hl' hlw hn hbt).symm
      · exact hkh.trans hlh.symm
  · rw [runs_raft] at hlive ⊢
    obtain ⟨-, hk⟩ | ⟨rfl, c, hc, rfl⟩ := runs_handlers hk
    · exact hb.frame k kd w hk hw hlive
    · exact (hframe w c hw hc).2
  · obtain ⟨-, hk⟩ | ⟨rfl, c, hc, rfl⟩ := runs_handlers hk
    · exact hb.waits k kd w hk hw
    · exact (hframe w c hw hc).1
  · obtain ⟨-, hk⟩ | ⟨rfl, c, -, rfl⟩ := runs_handlers hk
    · exact hb.request k kd hk
    · exact hb.request k hd hh
  · obtain ⟨-, hk⟩ | ⟨rfl, c, hc, rfl⟩ := runs_handlers hk
    · exact hb.identity k kd hk
    · exact (RaftDSFSServicer.run_goesOn hc).1.trans (hb.identity k hd hh)
  · obtain ⟨-, hk⟩ | ⟨rfl, c, hc, rfl⟩ := runs_handlers hk
    · exact hb.creates k kd p hk hp
    · exact hb.creates k hd p hh ((RaftDSFSServicer.run_goesOn hc).2.1 p hp)
  · obtain ⟨-, hk⟩ | ⟨rfl, c, hc, rfl⟩ := runs_handlers hk
    · obtain ⟨f, hreq, hdone⟩ := hb.stores k kd who hk hs
      exact ⟨f, hreq, hgrow f who hdone⟩
    · obtain ⟨f, v, hstage, hv⟩ := (RaftDSFSServicer.run_goesOn hc).2.2 who hs
      have hreq := hb.creates k hd (f, who) hh (by rw [hstage]; rfl)
      exact ⟨f, hreq, hgrow f who (hwait f who v hstage hv)⟩
  · rw [runs_asked]
    obtain ⟨-, hk⟩ | ⟨rfl, c, -, rfl⟩ := runs_handlers hk
    · exact hb.asks k kd p hk hp hwho
    · exact hb.asks k hd p hh hp hwho
  · obtain ⟨hwho, op, hop, hdone⟩ := hb.runs_slots hh hd'
    rw [runs_asked]
    exact ⟨hwho, op, hop, fun f hf => hgrow f _ (hdone f hf)⟩
  · obtain hold | ⟨hreq, hout⟩ := runs_answers hm
    · exact hgrow f who (hb.answered f who r hold hr)
    · exact hgrow f who (hb.done_of_returns hh hreq.symm hr hout hslot)

end Runs

lemma ask_of_asked {request : RaftCall} (hrepeats : x.Repeats request) {who : Caller} (hwho : who.Keyed)
    {op : Operation} (hasked : x.asked who = some op) : x.ask request.operation who = some op := by
  cases hc : request.operation with
  | none => exact hasked
  | some p =>
    rw [ask, Function.update_apply]
    split_ifs with hme
    · subst hme
      rw [hrepeats p hc hwho op hasked]
    · exact hasked

lemma Books.receive (hb : x.Books) (i : ι) {request : RaftCall} (hrequest : request.IsRequest = true)
    (hrepeats : x.Repeats request) : (x.receive i request).Books := by
  have hold : ∀ {k kd}, (x.receive i request).handlers k = some kd → x.handlers k = some kd ∨
      k = x.nextHandler ∧ kd = ⟨i, (x.raft.nodes i).boot, request, request, none⟩ := by
    intro k kd hk
    obtain hnew | ⟨-, hold⟩ := of_update_some hk
    · exact .inr hnew
    · exact .inl hold
  refine ⟨fun k kd hk => ?_, fun k kd hk => ?_, fun k kd l ld w hk hl hw hlw hn hbt hlive => ?_,
    fun k kd w hk hw hlive => ?_, fun k kd w hk hw => ?_, fun k kd hk => ?_, fun k kd hk => ?_,
    fun k kd p hk hp => ?_, fun k kd who hk hs => ?_, fun k kd p hk hp hwho => ?_, fun j clientId d hd => ?_,
    hb.answered⟩
  · obtain hk | ⟨rfl, -⟩ := hold hk
    · exact Nat.lt_succ_of_lt (hb.numbered k kd hk)
    · exact Nat.lt_succ_self _
  · obtain hk | ⟨rfl, rfl⟩ := hold hk
    · exact hb.boot_le k kd hk
    · exact le_refl _
  · obtain hk' | ⟨-, rfl⟩ := hold hk
    · obtain hl' | ⟨-, rfl⟩ := hold hl
      · exact hb.owner k kd l ld w hk' hl' hw hlw hn hbt hlive
      · cases hlw
    · cases hw
  · obtain hk | ⟨-, rfl⟩ := hold hk
    · exact hb.frame k kd w hk hw hlive
    · cases hw
  · obtain hk | ⟨-, rfl⟩ := hold hk
    · exact hb.waits k kd w hk hw
    · cases hw
  · obtain hk | ⟨-, rfl⟩ := hold hk
    · exact hb.request k kd hk
    · exact hrequest
  · obtain hk | ⟨-, rfl⟩ := hold hk
    · exact hb.identity k kd hk
    · rfl
  · obtain hk | ⟨-, rfl⟩ := hold hk
    · exact hb.creates k kd p hk hp
    · cases request with
      | create f who =>
        obtain rfl := Option.some.inj hp
        rfl
      | «open» f mode fetchData => cases hp
      | close handle data who => cases hp
      | testVersionNumber f => cases hp
      | _ => cases hrequest
  · obtain hk | ⟨-, rfl⟩ := hold hk
    · exact hb.stores k kd who hk hs
    · subst hs
      cases hrequest
  · obtain hk | ⟨-, rfl⟩ := hold hk
    · exact ask_of_asked hrepeats hwho (hb.asks k kd p hk hp hwho)
    · simp only [RaftFiles.receive]
      rw [hp, ask, Function.update_self]
  · obtain ⟨hwho, op, hop, hdone⟩ := hb.slots j clientId d hd
    exact ⟨hwho, op, ask_of_asked hrepeats hwho hop, hdone⟩

end RaftFiles

end DistributedStorage.Replication
