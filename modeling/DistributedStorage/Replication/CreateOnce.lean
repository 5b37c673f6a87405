import DistributedStorage.Replication.Creates

/-! Two entries that create one file cannot both be applied if the later one was appended after the earlier one
had been seen in the log. -/

set_option linter.unusedSectionVars false

namespace DistributedStorage.Replication

open Library Library.Runs Library.LeaderLogs Files

variable {ι : Type} [DecidableEq ι] [Fintype ι]

/-- Two places of what nodes have applied lie in one log. -/
lemma exists_common {σ ρ : Type} {cfg : Raft.Config ι σ ρ} {s : Raft.Cluster ι σ ρ} {a : State ι Raft.Entry}
    (hs : Raft.Cluster.Safe cfg s a) {i j : ι} {b b' : ℕ} {x y : Raft.Applied ι ρ}
    (hx : x ∈ Raft.records s.trace i b) (hy : y ∈ Raft.records s.trace j b') :
    0 < x.1 ∧ 0 < y.1 ∧ ∃ q, Rooted Raft.Entry.term a q ∧ q[x.1 - 1]? = some x.2.1 ∧ q[y.1 - 1]? = some y.2.1 := by
  obtain ⟨hp, hpx⟩ := hs.applied i b
  obtain ⟨hq, hqy⟩ := hs.applied j b'
  obtain ⟨hposx, hpx⟩ := hpx x hx
  obtain ⟨hposy, hqy⟩ := hqy y hy
  have hinv := hs.serving.tracks.inv
  refine ⟨hposx, hposy, ?_⟩
  obtain ⟨t, -, hpt, hcp⟩ := hp
  obtain ⟨u, -, hqu, hcq⟩ := hq
  obtain hpq | hqp := hinv.chosen_comparable hcp hcq
  · exact ⟨_, (hinv.rooted_leader u).of_isPrefix hqu, getElem?_of_isPrefix hpq hpx, hqy⟩
  · exact ⟨_, (hinv.rooted_leader t).of_isPrefix hpt, hpx, getElem?_of_isPrefix hqp hqy⟩

namespace RaftFiles

def Asked (x : RaftFiles ι) (e : Raft.Entry) : Prop :=
  (∃ term idx, e = Raft.noopEntry term idx) ∨ ∃ log, (log, e) ∈ x.appended

/-- A Create is answered from the cache only with the response to the same sequence number, and is appended
only to a log in which nobody else creates the file. -/
def InTurn (x : RaftFiles ι) : Act ι → Prop
  | .raft e => Raft.Cluster.AtDelivery Raft.Cluster.Timely x.raft e
  | .proceed h => ∀ hd ∈ x.live h, ∀ who ∈ hd.stage.checks, ∀ d ∈ (x.servers hd.node).dedupCache who.clientId,
      who.seqNum ≤ d.1 → d.1 = who.seqNum
  | .append h => ∀ hd ∈ x.live h, ∀ p ∈ hd.stage.creates, ∀ e ∈ (x.raft.nodes hd.node).log,
      Creates p.1 e → caller e = p.2
  | .receive .. | .returns _ | .timesOut _ => True

/-- What is known of every state that runs of this kind reach. -/
structure Sound (address : ι → String) (x : RaftFiles ι) : Prop where
  safe : ∃ a, Raft.Cluster.Safe (config address) x.raft a ∧
    ∀ p ∈ x.appended, p.1 ++ [p.2] <+: a.leaderLog p.2.term
  books : x.Books
  asked : Raft.Cluster.Holding x.Asked x.raft
  apart : ∀ p ∈ x.appended, ∀ f, Creates f p.2 → ∀ e ∈ p.1, Creates f e → caller e = caller p.2

variable {name address : ι → String} {x y : RaftFiles ι}

/-- Of two applied entries that create `f`, the later one was appended where the earlier one stood. -/
lemma Sound.caller_eq (hx : x.Sound address) {f : String} {i j : ι} {b b' k l : ℕ} {e e' : Raft.Entry}
    {r r' : Option (Except (Raft.Error ι) ApplyResult)} (hrec : (k, e, r) ∈ Raft.records x.raft.trace i b)
    (hrec' : (l, e', r') ∈ Raft.records x.raft.trace j b') (he : Creates f e) (he' : Creates f e') (hkl : k ≤ l) :
    caller e = caller e' := by
  obtain ⟨a, hsafe, happended⟩ := hx.safe
  obtain ⟨hk, hl, q, hroot, hqe, hqe'⟩ := exists_common hsafe hrec hrec'
  dsimp only at hk hl hqe hqe'
  obtain rfl | hlt := Nat.eq_or_lt_of_le hkl
  · rw [Option.some.inj (hqe.symm.trans hqe')]
  obtain ⟨hasked, hindex⟩ := hx.asked.applied j b' _ hrec'
  obtain ⟨term, idx, rfl⟩ | ⟨log, hlog⟩ := hasked
  · cases he'.1
  -- the log it was appended to ends just before its place
  have hlead := happended _ hlog
  have hlength : log.length + 1 = l := by
    have hplace : (a.leaderLog e'.term)[log.length]? = some e' :=
      getElem?_of_isPrefix hlead (by rw [List.getElem?_concat_length])
    rw [← hsafe.serving.tracks.refines.aligned e'.term _ _ hplace]
    exact hindex
  have hpre := hroot (l - 1) e' hqe'
  have hsame : q.take (l - 1 + 1) = log ++ [e'] := by
    have hlen : (q.take (l - 1 + 1)).length = (log ++ [e']).length := by
      have hbound := (List.getElem?_eq_some_iff.mp hqe').1
      rw [List.length_take, List.length_append, List.length_singleton]
      omega
    exact (List.prefix_of_prefix_length_le hpre hlead hlen.le).eq_of_length hlen
  have hmem : log[k - 1]? = some e := by
    have htake : (q.take (l - 1 + 1))[k - 1]? = some e := by
      rw [List.getElem?_take_of_lt (by omega)]
      exact hqe
    rw [hsame, List.getElem?_append_left (by omega)] at htake
    exact htake
  exact hx.apart _ hlog f he' e (List.mem_of_getElem? hmem) he

lemma Sound.done_unique (hx : x.Sound address) {f : String} {who who' : Caller} (h : x.Done f who)
    (h' : x.Done f who') : who = who' := by
  obtain ⟨i, b, k, e, r, hrec, he, rfl⟩ := h
  obtain ⟨j, b', l, e', r', hrec', he', rfl⟩ := h'
  obtain hle | hle := Nat.le_total k l
  · exact hx.caller_eq hrec hrec' he he' hle
  · exact (hx.caller_eq hrec' hrec he' he hle).symm

lemma init_sound (address : ι → String) (disk : ι → String → Option FileData) :
    Sound address (init address disk) where
  safe := ⟨_, Raft.Cluster.init_safe (config address), fun _ hp => (List.not_mem_nil hp).elim⟩
  books := init_books address disk
  asked := Raft.Cluster.init_holding (config address)
  apart _ hp := (List.not_mem_nil hp).elim

/-- What the nodes do to the servers: nothing, or one of them applies an entry or starts again. -/
lemma follow_cases (x : RaftFiles ι) (address : ι → String) (e : Raft.Event ι) : x.follow address e = x.servers ∨
    (∃ j entry, x.follow address e = Function.update x.servers j ((x.servers j).applyEntry entry)) ∨
    ∃ j, x.follow address e = Function.update x.servers j (x.servers j).restart := by
  have hcrash : ∀ o, x.recover o = x.servers ∨
      ∃ j, x.recover o = Function.update x.servers j (x.servers j).restart := by
    intro o
    cases o with
    | none => exact .inl rfl
    | some i => exact .inr ⟨i, rfl⟩
  cases e with
  | applierApplies i =>
    rw [follow]
    cases ((x.raft.nodes i).applierApplies (config address)).bind fun out => Entry.ofLog out.2.2.1 with
    | none => exact .inl rfl
    | some entry => exact .inr (.inl ⟨i, entry, rfl⟩)
  | _ =>
    simp only [follow]
    exact (hcrash _).imp id .inr

/-- No cache gets an answer from what the nodes do. -/
lemma follow_dedupCache (e : Raft.Event ι) (i : ι) {clientId : String} {d : ℤ × Reply}
    (hd : (x.follow address e i).dedupCache clientId = some d) : (x.servers i).dedupCache clientId = some d := by
  obtain hsame | ⟨j, entry, happly⟩ | ⟨j, hcrash⟩ := follow_cases x address e
  · exact hsame ▸ hd
  · have hcache : ((x.servers j).applyEntry entry).dedupCache = (x.servers j).dedupCache := by
      rw [RaftDSFSServicer.applyEntry]
      split <;> rfl
    rw [happly, Function.update_apply] at hd
    split_ifs at hd with hij
    · rw [hcache] at hd
      exact hij ▸ hd
    · exact hd
  · rw [hcrash, Function.update_apply] at hd
    split_ifs at hd
    · cases hd
    · exact hd

lemma live_eq {h : ℕ} {hd : RaftHandler ι} (hl : x.live h = some hd) :
    x.handlers h = some hd ∧ (x.raft.nodes hd.node).boot = hd.boot := by
  obtain ⟨hh, hboot⟩ := Option.filter_eq_some_iff.mp hl
  exact ⟨hh, of_decide_eq_true hboot⟩

/-- The nodes make a step, and the frames that handlers wait on stay. -/
lemma Sound.withRaft (hx : x.Sound address) {e : Raft.Event ι} {r : Raft.Cluster ι (String → Option ℕ) ApplyResult}
    {servers : ι → RaftDSFSServicer} {appended : List (List Raft.Entry × Raft.Entry)}
    (hturn : Raft.Cluster.AtDelivery Raft.Cluster.Timely x.raft e)
    (hr : Raft.Cluster.step (config address) x.raft e = some r)
    (hframe : ∀ h hd w c, x.handlers h = some hd → hd.frame = some w → (x.raft.nodes hd.node).boot = hd.boot →
      (r.nodes hd.node).boot = hd.boot → (x.raft.nodes hd.node).calls w = some c →
      ∃ d, (r.nodes hd.node).calls w = some d ∧ d.entry = c.entry)
    (hcache : ∀ i clientId d, (servers i).dedupCache clientId = some d →
      (x.servers i).dedupCache clientId = some d)
    (hasked : Raft.Cluster.Holding (Asked { x with appended := appended }) r)
    (hled : ∀ p ∈ appended, p ∈ x.appended ∨
      ∃ i, (r.nodes i).state = .leader ∧ (r.nodes i).currentTerm = p.2.term ∧ (r.nodes i).log = p.1 ++ [p.2])
    (hapart : ∀ p ∈ appended, p ∈ x.appended ∨
      ∀ f, Creates f p.2 → ∀ e ∈ p.1, Creates f e → caller e = caller p.2) :
    Sound address { x with raft := r, servers := servers, appended := appended } := by
  obtain ⟨a, hsafe, happended⟩ := hx.safe
  obtain ⟨b, hab, hb⟩ := hsafe.step hturn hr
  have hsv := (Raft.Cluster.step_change_free hr).service
  refine ⟨⟨b, hb, fun p hp => ?_⟩, ?_, hasked, fun p hp => ?_⟩
  · obtain hold | ⟨i, hlead, hterm, hlog⟩ := hled p hp
    · exact (happended p hold).trans ((run_grows hab).leaderLog _)
    · rw [← hterm, (hb.serving.tracks.refines.leader i hlead).1, hlog]
  · exact hx.books.withRaft (hsv.boot_le hsafe.serving.applier) hsv.trace hframe hcache
  · obtain hold | hnew := hapart p hp
    · exact hx.apart p hold
    · exact hnew

lemma Sound.raft (hx : x.Sound address) {e : Raft.Event ι} {r : Raft.Cluster ι (String → Option ℕ) ApplyResult}
    (he : Raft.engine e = true) (hturn : Raft.Cluster.AtDelivery Raft.Cluster.Timely x.raft e)
    (hr : Raft.Cluster.step (config address) x.raft e = some r) :
    Sound address { x with raft := r, servers := x.follow address e } := by
  obtain ⟨a, hsafe, -⟩ := hx.safe
  refine hx.withRaft hturn hr (fun h hd w c _ _ hold hnew hc => ?_)
    (fun i clientId d hd => follow_dedupCache e i hd) ?_ (fun p hp => .inl hp) (fun p hp => .inl hp)
  · obtain ⟨d, hd', hentry, -⟩ := Raft.Cluster.engine_frame hsafe.serving he hr hc (hnew.trans hold.symm)
    exact ⟨d, hd', hentry⟩
  · exact hx.asked.engine hsafe.serving he hr fun term idx => .inl ⟨term, idx, rfl⟩

lemma Sound.runs (hx : x.Sound address) {h : ℕ} {hd : RaftHandler ι} {a : RaftAnswer} {frame : Option ℕ}
    (hh : x.handlers h = some hd)
    (hframe : ∀ w c, frame = some w → ((x.servers hd.node).run a hd.stage).2 = .goesOn c →
      c.Waits = true ∧ ∃ d, (x.raft.nodes hd.node).calls w = some d ∧
        ∀ f who, c = .createWait f who → Creates f d.entry ∧ caller d.entry = who)
    (howner : ∀ w k kd, frame = some w → x.handlers k = some kd → kd.frame = some w → hd.node = kd.node →
      hd.boot = kd.boot → k = h)
    (hwait : ∀ f who v, hd.stage = .createWait f who → a.result = .applied v → x.Done f who)
    (hslot : ∀ f who, hd.stage = .createDedup f who → ∀ d ∈ (x.servers hd.node).dedupCache who.clientId,
      who.seqNum ≤ d.1 → d.1 = who.seqNum) : (x.runs h hd a frame).Sound address := by
  obtain ⟨c, hsafe, happended⟩ := hx.safe
  refine ⟨⟨c, ?_, ?_⟩, hx.books.runs hh hframe howner hwait hslot, ?_, ?_⟩
  · rw [runs_raft]
    exact hsafe
  · rw [runs_appended]
    exact happended
  · rw [runs_raft]
    refine hx.asked.mono fun e he => ?_
    rw [Asked, runs_appended]
    exact he
  · rw [runs_appended]
    exact hx.apart

lemma Sound.proceed (hx : x.Sound address) {h : ℕ} {hd : RaftHandler ι} {a : RaftAnswer}
    (hh : x.handlers h = some hd) (hstage : hd.stage.Waits = false) (hslot : ∀ who ∈ hd.stage.checks,
      ∀ d ∈ (x.servers hd.node).dedupCache who.clientId, who.seqNum ≤ d.1 → d.1 = who.seqNum) :
    (x.runs h hd a none).Sound address := by
  refine hx.runs hh (fun w c hw => ?_) (fun w k kd hw => ?_) (fun f who v hwait => ?_) fun f who hdedup => ?_
  · cases hw
  · cases hw
  · rw [hwait] at hstage
    cases hstage
  · exact hslot who (by rw [hdedup]; rfl)

/-- After its call of `append_entry` a handler waits for the entry it asked for. -/
lemma run_command {s : RaftDSFSServicer} {a : RaftAnswer} {c c' : RaftCall} {cmd : Raft.Command}
    (hc : c.command = some cmd) (h : (s.run a c).2 = .goesOn c') : c'.Waits = true ∧ ∀ f who,
      c' = .createWait f who → cmd.opType = .create ∧ cmd.filename = f ∧ ⟨cmd.clientId, cmd.seqNum⟩ = who := by
  cases c with
  | createAppend f who =>
    obtain rfl := Option.some.inj hc
    simp only [RaftDSFSServicer.run] at h
    split_ifs at h
    cases h
    refine ⟨rfl, fun g who' hwait => ?_⟩
    cases hwait
    exact ⟨rfl, rfl, rfl⟩
  | closeAppend f data who =>
    simp only [RaftDSFSServicer.run] at h
    split_ifs at h
    cases h
    exact ⟨rfl, fun g who' hwait => by cases hwait⟩
  | _ => cases hc

/-- What a handler appends creates the file it was asked for. -/
lemma creates_of_command {c : RaftCall} {cmd : Raft.Command} (hc : c.command = some cmd) {f : String}
    {term idx : ℕ} (he : Creates f (cmd.entry term idx)) : c.creates = some (f, caller (cmd.entry term idx)) := by
  cases c with
  | createAppend g who =>
    obtain rfl := Option.some.inj hc
    obtain ⟨-, rfl⟩ := he
    rfl
  | closeAppend g data who =>
    obtain rfl := Option.some.inj hc
    cases he.1
  | _ => cases hc

lemma waits_of_command {c : RaftCall} {cmd : Raft.Command} (hc : c.command = some cmd) :
    c.Waits = false ∧ c.checks = none := by
  cases c with
  | createAppend f who => exact ⟨rfl, rfl⟩
  | closeAppend f data who => exact ⟨rfl, rfl⟩
  | _ => cases hc

/-- A handler's entry is in the log of its leader, and the handler waits on its own frame. -/
lemma Sound.appends (hx : x.Sound address) {h : ℕ} {hd : RaftHandler ι} {a : RaftAnswer} {cmd : Raft.Command}
    {m : Raft.Node ι (String → Option ℕ) ApplyResult} {w : ℕ} (hlive : x.live h = some hd)
    (hcmd : hd.stage.command = some cmd)
    (hturn : ∀ p ∈ hd.stage.creates, ∀ e ∈ (x.raft.nodes hd.node).log, Creates p.1 e → caller e = p.2)
    (hm : (x.raft.nodes hd.node).appendEntry (config address) cmd = .ok (m, w)) :
    ({ x with
      raft := x.raft.setNode hd.node m
      appended := x.appended ++ [((x.raft.nodes hd.node).log, cmd.entry (x.raft.nodes hd.node).currentTerm
        ((x.raft.nodes hd.node).lastLogIndex + 1))] }.runs h hd a (some w)).Sound address := by
  obtain ⟨hh, hboot⟩ := live_eq hlive
  obtain ⟨c, hsafe, -⟩ := hx.safe
  obtain ⟨hlead, rfl, hlog, hcalls, -, hnext, -⟩ := Raft.appendEntry_frame hm
  obtain ⟨-, -, hterm, hstate, -⟩ := Raft.appendEntry_eq hm
  have hmboot := (Raft.appendEntry_applier hm).2
  have hstep : Raft.Cluster.step (config address) x.raft (.appendEntry hd.node cmd) =
      some (x.raft.setNode hd.node m) := by simp only [Raft.Cluster.step, hm]
  have hself : (x.raft.setNode hd.node m).nodes hd.node = m := by
    rw [Raft.Cluster.setNode_nodes, Function.update_self]
  -- frames are numbered below the next one
  have hlt : ∀ {i v d}, (x.raft.nodes i).calls v = some d → v < (x.raft.nodes i).nextCall :=
    fun {i v d} hcall => ((hsafe.serving.waiters.waits i).call v d hcall).1
  have hgrow : Raft.Cluster.Holding (Asked { x with
      appended := x.appended ++ [((x.raft.nodes hd.node).log, cmd.entry (x.raft.nodes hd.node).currentTerm
        ((x.raft.nodes hd.node).lastLogIndex + 1))] }) x.raft :=
    hx.asked.mono fun e he => he.imp_right (Exists.imp fun log hmem => List.mem_append_left _ hmem)
  have hraft := hx.withRaft (e := .appendEntry hd.node cmd) trivial hstep ?_ (fun _ _ _ hd => hd)
    (hgrow.change hsafe.serving (Raft.Cluster.step_change_free hstep) (fun term idx => .inl ⟨term, idx, rfl⟩)
      fun i e he hnc => .inr ⟨(x.raft.nodes hd.node).log, ?_⟩) ?_ ?_
  · refine hraft.runs hh (fun v c hv hc => ?_) (fun v k kd hv hk hkv hn hbt => ?_) (fun f who v hwait => ?_)
      fun f who hdedup => ?_
    · obtain rfl := Option.some.inj hv
      obtain ⟨hwaits, hentry⟩ := run_command hcmd hc
      have hown := congrFun hcalls (x.raft.nodes hd.node).nextCall
      rw [Function.update_self, ← hself] at hown
      refine ⟨hwaits, _, hown, fun f who hcw => ?_⟩
      obtain ⟨hop, hf, hwho⟩ := hentry f who hcw
      exact ⟨⟨hop, hf⟩, hwho⟩
    · obtain rfl := Option.some.inj hv
      obtain ⟨d, hcall, -⟩ := hx.books.frame k kd _ hk hkv (by rw [← hn, ← hbt, hboot])
      rw [← hn] at hcall
      exact ((hlt hcall).false).elim
    · rw [hwait] at hcmd
      cases hcmd
    · rw [hdedup] at hcmd
      cases hcmd
  · intro k kd v d _ _ _ _ hcall
    refine ⟨d, ?_, rfl⟩
    by_cases hn : kd.node = hd.node
    · rw [hn] at hcall ⊢
      rw [hself, hcalls, Function.update_of_ne (hlt hcall).ne, hcall]
    · rw [Raft.Cluster.setNode_nodes, Function.update_of_ne hn, hcall]
  · by_cases hi : i = hd.node
    · rw [hi, hself, hlog] at he
      rw [← List.singleton_inj.mp (List.append_cancel_left he)]
      exact List.mem_append_right _ (List.mem_singleton.mpr rfl)
    · rw [Raft.Cluster.setNode_nodes, Function.update_of_ne hi] at hnc
      omega
  · intro p hp
    obtain hold | hnew := List.mem_append.mp hp
    · exact .inl hold
    · obtain rfl := List.mem_singleton.mp hnew
      refine .inr ⟨hd.node, ?_, ?_, ?_⟩
      · rw [hself, hstate, hlead]
      · rw [hself, hterm]
        rfl
      · rw [hself, hlog]
  · intro p hp
    obtain hold | hnew := List.mem_append.mp hp
    · exact .inl hold
    · obtain rfl := List.mem_singleton.mp hnew
      exact .inr fun f hf e he hfe => hturn _ (creates_of_command hcmd hf) e he hfe

lemma Sound.ends (hx : x.Sound address) {h : ℕ} {hd : RaftHandler ι} {a : RaftAnswer} {w : ℕ} {e : Raft.Event ι}
    {r : Raft.Cluster ι (String → Option ℕ) ApplyResult} {m : Raft.Node ι (String → Option ℕ) ApplyResult}
    (hlive : x.live h = some hd) (hframe : hd.frame = some w)
    (hturn : Raft.Cluster.AtDelivery Raft.Cluster.Timely x.raft e)
    (hr : Raft.Cluster.step (config address) x.raft e = some r)
    (hnodes : r.nodes = Function.update x.raft.nodes hd.node m)
    (hcalls : m.calls = Function.update (x.raft.nodes hd.node).calls w none)
    (hnext : m.nextCall = (x.raft.nodes hd.node).nextCall)
    (hwait : ∀ f who v, hd.stage = .createWait f who → a.result = .applied v → x.Done f who) :
    ({ x with raft := r }.runs h hd a none).Sound address := by
  obtain ⟨hh, hboot⟩ := live_eq hlive
  have hwaits := hx.books.waits h hd w hh hframe
  have hruns : (x.runs h hd a none).Sound address := by
    refine hx.runs hh (fun v c hv => ?_) (fun v k kd hv => ?_) hwait fun f who hdedup => ?_
    · cases hv
    · cases hv
    · rw [hdedup] at hwaits
      cases hwaits
  obtain ⟨c, hsafe, -⟩ := hruns.safe
  have hturn' : Raft.Cluster.AtDelivery Raft.Cluster.Timely (x.runs h hd a none).raft e := by
    rw [runs_raft]
    exact hturn
  have hr' : Raft.Cluster.step (config address) (x.runs h hd a none).raft e = some r := by
    rw [runs_raft]
    exact hr
  have hnodes' : r.nodes = Function.update (x.runs h hd a none).raft.nodes hd.node m := by
    rw [runs_raft]
    exact hnodes
  rw [runs_withRaft]
  refine hruns.withRaft hturn' hr' (fun k kd v d hk hkv hbt _ hcall => ⟨d, ?_, rfl⟩) (fun _ _ _ hd => hd)
    (hruns.asked.ended hsafe.serving hr' hnodes' ?_ fun term idx => .inl ⟨term, idx, rfl⟩) (fun p hp => .inl hp)
    fun p hp => .inl hp
  · rw [runs_raft] at hbt hcall
    obtain ⟨hkh, hk⟩ | ⟨rfl, c, -, rfl⟩ := runs_handlers hk
    · by_cases hn : kd.node = hd.node
      · have hvw : v ≠ w := by
          rintro rfl
          refine hkh (hx.books.owner k kd h hd v hk hh hkv hframe hn ?_ hbt)
          rw [← hbt, hn, hboot]
        rw [hn] at hcall
        rw [hnodes, hn, Function.update_self, hcalls, Function.update_of_ne hvw, hcall]
      · rw [hnodes, Function.update_of_ne hn, hcall]
    · cases hkv
  · rw [runs_raft]
    exact hnext

lemma Sound.step (hx : x.Sound address) {e : Act ι} (hturn : x.InTurn e)
    (he : RaftFiles.step name address x e = some y) : y.Sound address := by
  obtain ⟨a, hsafe, -⟩ := hx.safe
  cases e with
  | raft e =>
    simp only [RaftFiles.step] at he
    split_ifs at he with hengine
    obtain ⟨r, hr, rfl⟩ := Option.map_eq_some_iff.mp he
    exact hx.raft hengine hturn hr
  | receive i request =>
    simp only [RaftFiles.step] at he
    split_ifs at he with hreq
    cases he
    exact ⟨hx.safe, hx.books.receive i hreq.1 hreq.2, hx.asked, hx.apart⟩
  | proceed h =>
    obtain ⟨hd, hlive, he⟩ := Option.bind_eq_some_iff.mp he
    split_ifs at he with hstage
    cases he
    exact hx.proceed (live_eq hlive).1 hstage.2 (hturn hd hlive)
  | append h =>
    obtain ⟨hd, hlive, he⟩ := Option.bind_eq_some_iff.mp he
    obtain ⟨cmd, hcmd, rfl⟩ := Option.map_eq_some_iff.mp he
    obtain ⟨hwaits, hchecks⟩ := waits_of_command hcmd
    simp only [append]
    cases happ : (x.raft.nodes hd.node).appendEntry (config address) cmd with
    | ok out => exact hx.appends hlive hcmd (hturn hd hlive) happ
    | error exc =>
      refine hx.proceed (live_eq hlive).1 hwaits fun who hwho => ?_
      rw [hchecks] at hwho
      cases hwho
  | returns h =>
    obtain ⟨hd, hlive, he⟩ := Option.bind_eq_some_iff.mp he
    obtain ⟨w, hframe, he⟩ := Option.bind_eq_some_iff.mp he
    obtain ⟨out, hout, he⟩ := Option.bind_eq_some_iff.mp he
    obtain ⟨r, hr, rfl⟩ := Option.map_eq_some_iff.mp he
    obtain ⟨hh, hboot⟩ := live_eq hlive
    obtain ⟨-, hcall, hcalls, hnext, hrec⟩ := (hsafe.serving.waiters.waits hd.node).callReturns hout
    refine hx.ends (e := .callReturns hd.node w) hlive hframe trivial hr (Raft.Cluster.ended_nodes hr hout) hcalls
      hnext fun f who v hwait hv => ?_
    obtain ⟨d, hd', hentry⟩ := hx.books.frame h hd w hh hframe hboot
    obtain rfl := Option.some.inj (hcall.symm.trans hd')
    obtain ⟨hcreates, hwho⟩ := hentry f who hwait
    have hok : ∃ value, out.2.2 = .ok value := by
      cases hvalue : out.2.2 with
      | ok value => exact ⟨value, rfl⟩
      | error exc =>
        rw [hvalue] at hv
        cases exc <;> cases hv
    obtain ⟨value, hvalue⟩ := hok
    exact ⟨_, _, _, _, _, hrec value hvalue, hcreates, hwho⟩
  | timesOut h =>
    obtain ⟨hd, hlive, he⟩ := Option.bind_eq_some_iff.mp he
    obtain ⟨w, hframe, he⟩ := Option.bind_eq_some_iff.mp he
    obtain ⟨out, hout, he⟩ := Option.bind_eq_some_iff.mp he
    obtain ⟨r, hr, rfl⟩ := Option.map_eq_some_iff.mp he
    obtain ⟨-, hcall, hcalls, hnext⟩ := (hsafe.serving.waiters.waits hd.node).callTimesOut hout
    refine hx.ends (e := .callTimesOut hd.node w) hlive hframe trivial hr (Raft.Cluster.expired_nodes hr hout)
      hcalls hnext fun f who v _ hv => ?_
    cases hv

lemma run_sound {disk : ι → String → Option FileData}
    (h : Run (RaftFiles.step name address) InTurn (init address disk) x) : x.Sound address :=
  Run.invariant (fun _ _ _ hx hturn he => hx.step hturn he) h (init_sound address disk)

/-- In a run whose steps are all in turn, nobody is told that they created a file that somebody else was told to
have created. -/
theorem create_succeeds_once {name address : ι → String} {disk : ι → String → Option FileData} {x : RaftFiles ι}
    (h : Run (RaftFiles.step name address) InTurn (init address disk) x) {f : String} {who who' : Caller}
    {r r' : Reply} (hr : (.create f who, r) ∈ x.answers) (hr' : (.create f who', r') ∈ x.answers)
    (hs : r.Succeeds) (hs' : r'.Succeeds) : who = who' := by
  have hx := run_sound h
  exact hx.done_unique (hx.books.answered f who r hr hs) (hx.books.answered f who' r' hr' hs')

instance (x : RaftFiles ι) (e : Act ι) : Decidable (x.InTurn e) :=
  match e with
  | .raft e => inferInstanceAs (Decidable (Raft.Cluster.AtDelivery Raft.Cluster.Timely x.raft e))
  | .proceed h => inferInstanceAs (Decidable (∀ hd ∈ x.live h, ∀ who ∈ hd.stage.checks,
      ∀ d ∈ (x.servers hd.node).dedupCache who.clientId, who.seqNum ≤ d.1 → d.1 = who.seqNum))
  | .append h => inferInstanceAs (Decidable (∀ hd ∈ x.live h, ∀ p ∈ hd.stage.creates,
      ∀ e ∈ (x.raft.nodes hd.node).log, Creates p.1 e → caller e = p.2))
  | .receive .. | .returns _ | .timesOut _ => inferInstanceAs (Decidable True)

/-- Node 0 is elected. -/
def elects : List (Act (Fin 3)) := (Raft.Cluster.campaign 0 1 0 [1]).map .raft

/-- A Create gets past its four checks. -/
def checks (h : ℕ) : List (Act (Fin 3)) := [.proceed h, .proceed h, .proceed h, .proceed h]

/-- Node 0 commits and applies the `k` entries it has. -/
def commits (k : ℕ) : List (Act (Fin 3)) :=
  (Raft.Cluster.replicate 0 1 2).map .raft ++ [.raft (.applierTakes 0)] ++
    (List.replicate k [.raft (.applierApplies 0), .raft (.applierResolves 0)]).flatten

/-- A Create, and a retry that is answered from the cache. -/
def retried : List (Act (Fin 3)) :=
  elects ++ [.receive 0 (.create "a" ⟨"A", 1⟩)] ++ checks 0 ++ [.append 0] ++ commits 2 ++
    [.returns 0, .proceed 0, .receive 0 (.create "a" ⟨"A", 1⟩), .proceed 1, .proceed 1]

/-- Two Creates pass the checks before either is in the log. -/
def together : List (Act (Fin 3)) :=
  elects ++ [.receive 0 (.create "a" ⟨"A", 1⟩), .receive 0 (.create "a" ⟨"B", 1⟩)] ++ checks 0 ++ checks 1 ++
    [.append 0, .append 1] ++ commits 3 ++ [.returns 0, .proceed 0, .returns 1, .proceed 1]

theorem create_succeeds_once_retried : ∃ x : RaftFiles (Fin 3),
    Run (RaftFiles.step (fun _ => "") fun _ => "") InTurn (init (fun _ => "") fun _ _ => none) x ∧
      x.answers = [(.create "a" ⟨"A", 1⟩, .created), (.create "a" ⟨"A", 1⟩, .created)] ∧
      (⟨"A", 1⟩ : Caller) = ⟨"A", 1⟩ := by
  obtain ⟨x, hx, hanswers⟩ := Run.exists_of_execute (guarded (RaftFiles.step (fun _ => "") fun _ => "") InTurn)
    (init (fun _ => "") fun _ _ => none) retried
    (fun x => x.answers = [(.create "a" ⟨"A", 1⟩, .created), (.create "a" ⟨"A", 1⟩, .created)]) (by decide +kernel)
  have hrun := Run.of_guarded hx
  have hmem : (.create "a" ⟨"A", 1⟩, .created) ∈ x.answers := by rw [hanswers]; exact List.mem_cons_self
  exact ⟨x, hrun, hanswers, create_succeeds_once hrun hmem hmem trivial trivial⟩

/-- Both clients are told that they created the file. -/
theorem create_succeeds_twice : ∃ x : RaftFiles (Fin 3),
    Run (RaftFiles.step (fun _ => "") fun _ => "") Free (init (fun _ => "") fun _ _ => none) x ∧
      (.create "a" ⟨"A", 1⟩, .created) ∈ x.answers ∧ (.create "a" ⟨"B", 1⟩, .created) ∈ x.answers := by
  obtain ⟨x, hx, hanswers⟩ := Run.exists_of_execute (RaftFiles.step (fun _ => "") fun _ => "")
    (init (fun _ => "") fun _ _ => none) together
    (fun x => x.answers = [(.create "a" ⟨"A", 1⟩, .created), (.create "a" ⟨"B", 1⟩, .created)]) (by decide +kernel)
  refine ⟨x, hx, ?_, ?_⟩
  · rw [hanswers]
    exact List.mem_cons_self
  · rw [hanswers]
    exact List.mem_cons_of_mem _ List.mem_cons_self

end RaftFiles

end DistributedStorage.Replication
