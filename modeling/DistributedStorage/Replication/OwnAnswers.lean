import DistributedStorage.Replication.Executions

/-! Repeated Create and Close requests at one server: when they get the answer of the one execution. -/

namespace DistributedStorage.Replication

open Library Library.Runs Files

/-- `calls` are the handlers under way, each after its request; `asked` is what was first asked for under an
identity, `executed` the operations that were begun, `responses` what their executions answered, `answers`
what was answered to whom. -/
structure Serving where
  node : ReplicatedDSFSServer
  calls : OrderedDict ℕ (Call × Call)
  asked : Caller → Option Operation
  executed : List Caller
  responses : List (Caller × Reply)
  answers : List (Call × Reply)

namespace Serving

inductive Act
  | call (t : ℕ) (c : Call)
  | run (t : ℕ)
  | around (e : NodeEvent)

/-- The server has just started. -/
def init (disk : String → Option FileData) : Serving where
  node := restarted disk
  calls := .empty
  asked _ := none
  executed := []
  responses := []
  answers := []

def ask (x : Serving) : Option (Operation × Caller) → Caller → Option Operation
  | some p => Function.update x.asked p.2 (some p.1)
  | none => x.asked

def begin (x : Serving) (t : ℕ) (c : Call) : Serving :=
  { x with calls := x.calls.set t (c, c), asked := x.ask c.operation }

/-- A handler has made its step. -/
def settle (x : Serving) (t : ℕ) (k : Call × Call) (node : ReplicatedDSFSServer) : Progress → Serving
  | .goesOn c =>
    { x with
      node := node
      calls := x.calls.set t (k.1, c)
      executed := x.executed ++ (k.2.tries.map Prod.snd).toList }
  | .returns r =>
    { x with
      node := node
      calls := x.calls.erase t
      responses := x.responses ++ (k.2.carries.map fun q => (q.2, r)).toList
      answers := x.answers ++ [(k.1, r)] }

/-- A request under the identity of an earlier one is a retry of it: the same RPC on the same file or handle. -/
def Repeats (x : Serving) (c : Call) : Prop :=
  ∀ p ∈ c.operation, p.2.Keyed → ∀ op ∈ x.asked p.2, op = p.1

instance (x : Serving) (c : Call) : Decidable (x.Repeats c) :=
  inferInstanceAs (Decidable (∀ p ∈ c.operation, p.2.Keyed → ∀ op ∈ x.asked p.2, op = p.1))

def step (peers : List ℕ) (x : Serving) : Act → Option Serving
  | .call t c => if x.calls.get t = none ∧ c.IsRequest = true ∧ x.Repeats c then some (x.begin t c) else none
  | .run t =>
    (x.calls.get t).map fun k => x.settle t k (x.node.run peers k.2).1 (x.node.run peers k.2).2
  | .around e => some { x with node := x.node.meets e }

def Answered (x : Serving) (op : Operation) (who : Caller) (r : Reply) : Prop :=
  ∃ c, (c, r) ∈ x.answers ∧ c.operation = some (op, who) ∧ ¬r.Aborts

/-- The operation under an identity is carried out at most once, and its calls get the response of that
execution; only where nothing was carried out is the answer a failure. -/
structure OwnAnswers (x : Serving) (who : Caller) : Prop where
  once : x.executed.count who ≤ 1
  single : ∀ r r', (who, r) ∈ x.responses → (who, r') ∈ x.responses → r = r'
  own : ∀ op r, x.Answered op who r →
    (who, r) ∈ x.responses ∧ op.rpc.Succeeds r ∨ r.Fails ∧ who ∉ x.executed

/-- The cache answers only with the response to the same sequence number, and lets pass only what no other
handler is at work on and, for a Close, a handle that was given out. -/
def Admits (x : Serving) (p : Operation × Caller) : Prop :=
  (∀ d ∈ x.node.dedupCache p.2.clientId, p.2.seqNum ≤ d.1 → d.1 = p.2.seqNum) ∧
    (x.node.checkIdempotent p.2 = none → (∀ k ∈ x.calls.items, ¬k.2.2.Works p.2) ∧ x.node.Given p.1)

/-- A look into the cache comes neither while the original is under way nor after the response to a later
request, and no response takes the place of one to a later request. -/
def InTurn (x : Serving) : Act → Prop
  | .run t => ∀ k ∈ x.calls.get t, (∀ p ∈ k.2.checks, p.2.Keyed → x.Admits p) ∧
      ∀ q ∈ k.2.stores, q.2.Keyed → ∀ d ∈ x.node.dedupCache q.2.clientId, d.1 ≤ q.2.seqNum
  | .call .. | .around _ => True

instance (c : Call) (who : Caller) : Decidable (c.Works who) :=
  inferInstanceAs (Decidable ((∃ p ∈ c.tries, p.2 = who) ∨ ∃ p ∈ c.carries, p.2 = who))

instance (s : ReplicatedDSFSServer) (op : Operation) : Decidable (s.Given op) :=
  match op with
  | .create _ => isTrue trivial
  | .close handle => inferInstanceAs (Decidable (handle < s.nextHandle))

instance (x : Serving) (p : Operation × Caller) : Decidable (x.Admits p) := inferInstanceAs (Decidable (_ ∧ _))

instance (x : Serving) (a : Act) : Decidable (x.InTurn a) :=
  match a with
  | .run t => inferInstanceAs (Decidable (∀ k ∈ x.calls.get t, (∀ p ∈ k.2.checks, p.2.Keyed → x.Admits p) ∧
      ∀ q ∈ k.2.stores, q.2.Keyed → ∀ d ∈ x.node.dedupCache q.2.clientId, d.1 ≤ q.2.seqNum))
  | .call .. | .around _ => isTrue trivial

/-- How far the requests under an identity have come. -/
inductive Stands (x : Serving) (op : Operation) (who : Caller) : Prop
  | waiting (hnone : ∀ t k, x.calls.get t = some k → ¬k.2.Works who) (hexec : x.executed.count who = 0)
      (hresp : ∀ r, (who, r) ∉ x.responses)
      (hans : ∀ op' r, x.Answered op' who r → r.Fails ∧ x.node.Refuses op ∧ x.node.Given op)
  | trying (t : ℕ) (k : Call × Call) (hk : x.calls.get t = some k) (htries : k.2.tries = some (op, who))
      (honly : ∀ t' k', x.calls.get t' = some k' → k'.2.Works who → t' = t) (hgiven : x.node.Given op)
      (hexec : x.executed.count who = 0) (hresp : ∀ r, (who, r) ∉ x.responses)
      (hans : ∀ op' r, x.Answered op' who r → r.Fails ∧ x.node.Refuses op ∧ x.node.Given op)
  | carrying (t : ℕ) (k : Call × Call) (hk : x.calls.get t = some k)
      (hcarries : k.2.carries = some (op.rpc, who))
      (honly : ∀ t' k', x.calls.get t' = some k' → k'.2.Works who → t' = t) (hexec : x.executed.count who = 1)
      (hresp : ∀ r, (who, r) ∉ x.responses) (hans : ∀ op' r, ¬x.Answered op' who r)
  | done (r : Reply) (hnone : ∀ t k, x.calls.get t = some k → ¬k.2.Works who) (hexec : x.executed.count who = 1)
      (hresp : ∀ r', (who, r') ∈ x.responses ↔ r' = r) (hsucceeds : op.rpc.Succeeds r)
      (hans : ∀ op' r', x.Answered op' who r' → r' = r)
      (hslot : ∃ d, x.node.dedupCache who.clientId = some d ∧ who.seqNum ≤ d.1)

/-- A handler is at its request, or carries it out. -/
inductive Follows (c : Call) : Call → Prop
  | waits {c' : Call} (h : c'.operation = c.operation) (hcarries : c'.carries = none) : Follows c c'
  | carries {c' : Call} {p : Operation × Caller} (hc : c.operation = some p)
      (h : c'.carries = some (p.1.rpc, p.2)) : Follows c c'

structure Sound (x : Serving) : Prop where
  stands : ∀ who op, who.Keyed → (∀ op' ∈ x.asked who, op' = op) → x.Stands op who
  slots : ∀ clientId d, x.node.dedupCache clientId = some d → (⟨clientId, d.1⟩, d.2) ∈ x.responses
  follows : ∀ t k, x.calls.get t = some k → Follows k.1 k.2
  asks : ∀ t k p, x.calls.get t = some k → k.1.operation = some p → p.2.Keyed → x.asked p.2 = some p.1
  answered : ∀ op who r, who.Keyed → x.Answered op who r → x.asked who = some op

section Caches

variable {s : ReplicatedDSFSServer} {who : Caller} {r : Reply}

lemma checkIdempotent_eq_some (h : s.checkIdempotent who = some r) :
    ∃ d, s.dedupCache who.clientId = some d ∧ who.seqNum ≤ d.1 ∧ d.2 = r := by
  rw [ReplicatedDSFSServer.checkIdempotent] at h
  split_ifs at h
  obtain ⟨d, hd, hr⟩ := Option.bind_eq_some_iff.mp h
  split_ifs at hr with hle
  exact ⟨d, hd, hle, Option.some.inj hr⟩

lemma checkIdempotent_eq_none (hwho : who.Keyed) (h : s.checkIdempotent who = none) {d : ℤ × Reply}
    (hd : s.dedupCache who.clientId = some d) : d.1 < who.seqNum := by
  rw [ReplicatedDSFSServer.checkIdempotent, if_neg (not_or.mpr ⟨hwho.1, Int.not_le.mpr hwho.2⟩), hd,
    Option.bind_some] at h
  split_ifs at h with hle
  exact Int.not_le.mp hle

lemma storeResponse_keyed (s : ReplicatedDSFSServer) (hwho : who.Keyed) (r : Reply) :
    (s.storeResponse who r).dedupCache = Function.update s.dedupCache who.clientId (some (who.seqNum, r)) := by
  have hc : who.clientId ≠ "" ∧ 0 < who.seqNum := hwho
  rw [ReplicatedDSFSServer.storeResponse, if_pos hc]

lemma storeResponse_unkeyed (s : ReplicatedDSFSServer) (hwho : ¬who.Keyed) (r : Reply) :
    s.storeResponse who r = s := by
  have hc : ¬(who.clientId ≠ "" ∧ 0 < who.seqNum) := hwho
  rw [ReplicatedDSFSServer.storeResponse, if_neg hc]

/-- No response takes the place of one to a later request. -/
lemma storeResponse_slot (hle : who.Keyed → ∀ d ∈ s.dedupCache who.clientId, d.1 ≤ who.seqNum) {clientId : String}
    (d : ℤ × Reply) (hd : s.dedupCache clientId = some d) :
    ∃ d', (s.storeResponse who r).dedupCache clientId = some d' ∧ d.1 ≤ d'.1 := by
  by_cases hwho : who.Keyed
  · rw [storeResponse_keyed s hwho]
    by_cases hclient : clientId = who.clientId
    · subst hclient
      exact ⟨(who.seqNum, r), Function.update_self .., hle hwho d hd⟩
    · exact ⟨d, (Function.update_of_ne hclient ..).trans hd, Int.le_refl _⟩
  · rw [storeResponse_unkeyed s hwho]
    exact ⟨d, hd, Int.le_refl _⟩

end Caches

variable {x y : Serving} {who : Caller} {op : Operation} {t : ℕ} {k : Call × Call}

/-- A step that does nothing for the requests under `who`. -/
structure Undisturbed (x y : Serving) (who : Caller) : Prop where
  calls : ∀ t k, k.2.Works who → (y.calls.get t = some k ↔ x.calls.get t = some k)
  executed : y.executed.count who = x.executed.count who
  responses : ∀ r, (who, r) ∈ y.responses ↔ (who, r) ∈ x.responses
  answers : ∀ op r, y.Answered op who r → x.Answered op who r
  later : x.node.Later y.node
  slot : ∀ d, x.node.dedupCache who.clientId = some d →
    ∃ d', y.node.dedupCache who.clientId = some d' ∧ d.1 ≤ d'.1

lemma Stands.undisturbed (h : x.Stands op who) (hu : x.Undisturbed y who) : y.Stands op who := by
  have hnobody : (∀ t k, x.calls.get t = some k → ¬k.2.Works who) →
      ∀ t k, y.calls.get t = some k → ¬k.2.Works who := by
    intro hnone t k hk hworks
    exact hnone t k ((hu.calls t k hworks).mp hk) hworks
  have hone : ∀ t, (∀ t' k', x.calls.get t' = some k' → k'.2.Works who → t' = t) →
      ∀ t' k', y.calls.get t' = some k' → k'.2.Works who → t' = t := by
    intro t honly t' k' hk' hworks
    exact honly t' k' ((hu.calls t' k' hworks).mp hk') hworks
  have hnoResp : (∀ r, (who, r) ∉ x.responses) → ∀ r, (who, r) ∉ y.responses := by
    intro hresp r hr
    exact hresp r ((hu.responses r).mp hr)
  have hfails : (∀ op' r, x.Answered op' who r → r.Fails ∧ x.node.Refuses op ∧ x.node.Given op) →
      ∀ op' r, y.Answered op' who r → r.Fails ∧ y.node.Refuses op ∧ y.node.Given op := by
    intro hans op' r hr
    obtain ⟨hf, href, hg⟩ := hans op' r (hu.answers op' r hr)
    exact ⟨hf, hu.later.refuses href hg⟩
  cases h with
  | waiting hnone hexec hresp hans =>
    exact .waiting (hnobody hnone) (hu.executed.trans hexec) (hnoResp hresp) (hfails hans)
  | trying t k hk htries honly hgiven hexec hresp hans =>
    have hk' := (hu.calls t k (.inl ⟨_, htries, rfl⟩)).mpr hk
    exact .trying t k hk' htries (hone t honly) (hu.later.of_given hgiven) (hu.executed.trans hexec)
      (hnoResp hresp) (hfails hans)
  | carrying t k hk hcarries honly hexec hresp hans =>
    have hk' := (hu.calls t k (.inr ⟨_, hcarries, rfl⟩)).mpr hk
    exact .carrying t k hk' hcarries (hone t honly) (hu.executed.trans hexec) (hnoResp hresp)
      fun op' r hr => hans op' r (hu.answers op' r hr)
  | done r hnone hexec hresp hsucceeds hans hslot =>
    obtain ⟨d, hd, hle⟩ := hslot
    obtain ⟨d', hd', hle'⟩ := hu.slot d hd
    exact .done r (hnobody hnone) (hu.executed.trans hexec) (fun r' => (hu.responses r').trans (hresp r'))
      hsucceeds (fun op' r' hr => hans op' r' (hu.answers op' r' hr)) ⟨d', hd', Int.le_trans hle hle'⟩

lemma begun_count (hworks : ¬k.2.Works who) : (k.2.tries.map Prod.snd).toList.count who = 0 := by
  rw [List.count_eq_zero]
  intro hmem
  obtain ⟨p, hp, hwho⟩ := Option.map_eq_some_iff.mp (Option.mem_toList.mp hmem)
  exact hworks (.inl ⟨p, hp, hwho⟩)

lemma responded_notMem (hworks : ¬k.2.Works who) (r r' : Reply) :
    (who, r) ∉ (k.2.carries.map fun q => (q.2, r')).toList := by
  intro hmem
  obtain ⟨q, hq, hpair⟩ := Option.map_eq_some_iff.mp (Option.mem_toList.mp hmem)
  exact hworks (.inr ⟨q, hq, congrArg Prod.fst hpair⟩)

lemma answered_settle {s' : ReplicatedDSFSServer} {r r' : Reply} :
    (x.settle t k s' (.returns r)).Answered op who r' ↔
      x.Answered op who r' ∨ r' = r ∧ k.1.operation = some (op, who) ∧ ¬r.Aborts := by
  constructor
  · rintro ⟨c, hmem, hc, hr⟩
    obtain hold | hnew := List.mem_append.mp hmem
    · exact .inl ⟨c, hold, hc, hr⟩
    · obtain ⟨rfl, rfl⟩ := Prod.mk.injEq .. ▸ List.mem_singleton.mp hnew
      exact .inr ⟨rfl, hc, hr⟩
  · rintro (⟨c, hold, hc, hr⟩ | ⟨rfl, hc, hr⟩)
    · exact ⟨c, List.mem_append_left _ hold, hc, hr⟩
    · exact ⟨k.1, List.mem_append_right _ (List.mem_singleton_self _), hc, hr⟩

lemma undisturbed_settle {s' : ReplicatedDSFSServer} {o : Progress} (hk : x.calls.get t = some k)
    (hbefore : ¬k.2.Works who) (hafter : ∀ c, o = .goesOn c → ¬c.Works who)
    (hans : ∀ r p, o = .returns r → k.1.operation = some p → p.2 = who → r.Aborts) (hlater : x.node.Later s')
    (hslot : ∀ d, x.node.dedupCache who.clientId = some d →
      ∃ d', s'.dedupCache who.clientId = some d' ∧ d.1 ≤ d'.1) :
    x.Undisturbed (x.settle t k s' o) who := by
  cases o with
  | goesOn c =>
    refine ⟨fun t' k' hworks => ?_, ?_, fun r => Iff.rfl, fun op r h => h, hlater, hslot⟩
    · simp only [settle]
      rw [OrderedDict.get_set]
      split_ifs with ht
      · subst ht
        rw [hk]
        constructor
        · rintro ⟨⟩
          exact absurd hworks (hafter c rfl)
        · rintro ⟨⟩
          exact absurd hworks hbefore
      · rfl
    · simp only [settle]
      rw [List.count_append, begun_count hbefore, Nat.add_zero]
  | returns r =>
    refine ⟨fun t' k' hworks => ?_, rfl, fun r' => ?_, fun op r' h => ?_, hlater, hslot⟩
    · simp only [settle]
      rw [OrderedDict.get_erase]
      split_ifs with ht
      · subst ht
        rw [hk]
        constructor
        · rintro ⟨⟩
        · rintro ⟨⟩
          exact absurd hworks hbefore
      · rfl
    · simp only [settle]
      rw [List.mem_append, or_iff_left (responded_notMem hbefore r' r)]
    · obtain hold | ⟨-, hop, hr⟩ := answered_settle.mp h
      · exact hold
      · exact absurd (hans r _ rfl hop rfl) hr

lemma not_works_of_operation {c : Call} {p : Operation × Caller} (hc : c.operation = some p)
    (htries : c.tries = none) (who : Caller) : ¬c.Works who := by
  rintro (⟨q, hq, -⟩ | ⟨q, hq, -⟩)
  · rw [htries] at hq
    cases hq
  · rw [Call.carries_of_operation hc] at hq
    cases hq

lemma not_works_of_none {c : Call} (hc : c.operation = none) (hcarries : c.carries = none) (who : Caller) :
    ¬c.Works who := by
  rintro (⟨q, hq, -⟩ | ⟨q, hq, -⟩)
  · rw [Call.operation_of_tries hq] at hc
    cases hc
  · rw [hcarries] at hq
    cases hq

/-- A handler at its decision is the only one at work, on an operation that nobody has carried out. -/
lemma Stands.of_tries (h : x.Stands op who) (hk : x.calls.get t = some k) {op' : Operation}
    (htries : k.2.tries = some (op', who)) :
    (∀ t' k', x.calls.get t' = some k' → k'.2.Works who → t' = t) ∧ x.node.Given op ∧ x.executed.count who = 0 ∧
      (∀ r, (who, r) ∉ x.responses) ∧
      ∀ op' r, x.Answered op' who r → r.Fails ∧ x.node.Refuses op ∧ x.node.Given op := by
  have hworks : k.2.Works who := .inl ⟨_, htries, rfl⟩
  cases h with
  | waiting hnone => exact absurd hworks (hnone t k hk)
  | trying t' k' hk' htries' honly hgiven hexec hresp hans =>
    obtain rfl := honly t k hk hworks
    exact ⟨honly, hgiven, hexec, hresp, hans⟩
  | carrying t' k' hk' hcarries honly =>
    obtain rfl := honly t k hk hworks
    obtain rfl := Option.some.inj (hk.symm.trans hk')
    rw [Call.carries_of_operation (Call.operation_of_tries htries)] at hcarries
    cases hcarries
  | done r hnone => exact absurd hworks (hnone t k hk)

/-- A handler that carries the operation out is the only one at work, and nothing has been answered. -/
lemma Stands.of_carries (h : x.Stands op who) (hk : x.calls.get t = some k) {rpc : Rpc}
    (hcarries : k.2.carries = some (rpc, who)) :
    (∀ t' k', x.calls.get t' = some k' → k'.2.Works who → t' = t) ∧ x.executed.count who = 1 ∧
      (∀ r, (who, r) ∉ x.responses) ∧ ∀ op' r, ¬x.Answered op' who r := by
  have hworks : k.2.Works who := .inr ⟨_, hcarries, rfl⟩
  cases h with
  | waiting hnone => exact absurd hworks (hnone t k hk)
  | trying t' k' hk' htries honly =>
    obtain rfl := honly t k hk hworks
    obtain rfl := Option.some.inj (hk.symm.trans hk')
    rw [Call.carries_of_operation (Call.operation_of_tries htries)] at hcarries
    cases hcarries
  | carrying t' k' hk' hcarries' honly hexec hresp hans =>
    obtain rfl := honly t k hk hworks
    exact ⟨honly, hexec, hresp, hans⟩
  | done r hnone => exact absurd hworks (hnone t k hk)

section Settle

variable {s' : ReplicatedDSFSServer} {c' : Call} {r : Reply}

lemma only_of_goesOn (honly : ∀ t' k', x.calls.get t' = some k' → k'.2.Works who → t' = t) :
    ∀ t' k', (x.settle t k s' (.goesOn c')).calls.get t' = some k' → k'.2.Works who → t' = t := by
  intro t' k' hk' hworks
  simp only [settle] at hk'
  rw [OrderedDict.get_set] at hk'
  split_ifs at hk' with ht
  · exact ht.symm
  · exact honly t' k' hk' hworks

lemma none_of_returns (honly : ∀ t' k', x.calls.get t' = some k' → k'.2.Works who → t' = t) :
    ∀ t' k', (x.settle t k s' (.returns r)).calls.get t' = some k' → ¬k'.2.Works who := by
  intro t' k' hk' hworks
  simp only [settle] at hk'
  rw [OrderedDict.get_erase] at hk'
  split_ifs at hk' with ht
  exact ht (honly t' k' hk' hworks).symm

/-- The handler of a retry is answered from the cache. -/
lemma Stands.cached (h : x.Stands op who) (hworks : ¬k.2.Works who) (hr : (who, r) ∈ x.responses) :
    (x.settle t k x.node (.returns r)).Stands op who := by
  cases h with
  | waiting hnone hexec hresp => exact absurd hr (hresp r)
  | trying t k hk htries honly hgiven hexec hresp => exact absurd hr (hresp r)
  | carrying t k hk hcarries honly hexec hresp => exact absurd hr (hresp r)
  | done r' hnone hexec hresp hsucceeds hans hslot =>
    obtain rfl := (hresp r).mp hr
    refine .done r (none_of_returns fun t' k' hk' hw => absurd hw (hnone t' k' hk')) hexec (fun r' => ?_) hsucceeds
      (fun op' r' hanswered => ?_) hslot
    · rw [← hresp r']
      simp only [settle]
      rw [List.mem_append, or_iff_left (responded_notMem hworks r' r)]
    · obtain hold | ⟨rfl, -⟩ := answered_settle.mp hanswered
      · exact hans op' r' hold
      · rfl

/-- The cache lets a first call pass, or one that has been refused. -/
lemma Stands.passes (h : x.Stands op who) (hwho : who.Keyed) (hworks : ¬k.2.Works who)
    (hmiss : x.node.checkIdempotent who = none) (hnone : ∀ t' k', x.calls.get t' = some k' → ¬k'.2.Works who)
    (hgiven : x.node.Given op) (hc' : c'.tries = some (op, who)) :
    (x.settle t k x.node (.goesOn c')).Stands op who := by
  cases h with
  | waiting _ hexec hresp hans =>
    refine .trying t (k.1, c') (OrderedDict.get_set_self ..) hc'
      (only_of_goesOn fun t' k' hk' hw => absurd hw (hnone t' k' hk')) hgiven ?_ hresp hans
    simp only [settle]
    rw [List.count_append, begun_count hworks, hexec]
  | trying t' k' hk' htries => exact absurd (.inl ⟨_, htries, rfl⟩) (hnone t' k' hk')
  | carrying t' k' hk' hcarries => exact absurd (.inr ⟨_, hcarries, rfl⟩) (hnone t' k' hk')
  | done r _ _ _ _ _ hslot =>
    obtain ⟨d, hd, hle⟩ := hslot
    exact absurd (checkIdempotent_eq_none hwho hmiss hd) (Int.not_lt.mpr hle)

lemma Stands.refuses (h : x.Stands op who) (hk : x.calls.get t = some k) (htries : k.2.tries = some (op, who))
    (href : x.node.Refuses op) (hr : r.Fails) : (x.settle t k x.node (.returns r)).Stands op who := by
  obtain ⟨honly, hgiven, hexec, hresp, hans⟩ := h.of_tries hk htries
  refine .waiting (none_of_returns honly) hexec (fun r' => ?_) (fun op' r' hanswered => ?_)
  · simp only [settle]
    rw [Call.carries_of_operation (Call.operation_of_tries htries)]
    rw [Option.map_none, Option.toList_none, List.append_nil]
    exact hresp r'
  · obtain hold | ⟨rfl, -⟩ := answered_settle.mp hanswered
    · exact hans op' r' hold
    · exact ⟨hr, href, hgiven⟩

lemma Stands.starts (h : x.Stands op who) (hk : x.calls.get t = some k) (htries : k.2.tries = some (op, who))
    (href : ¬x.node.Refuses op) (hc' : c'.carries = some (op.rpc, who)) :
    (x.settle t k s' (.goesOn c')).Stands op who := by
  obtain ⟨honly, hgiven, hexec, hresp, hans⟩ := h.of_tries hk htries
  refine .carrying t (k.1, c') (OrderedDict.get_set_self ..) hc' (only_of_goesOn honly) ?_ hresp
    (fun op' r' hanswered => href (hans op' r' hanswered).2.1)
  simp only [settle]
  rw [List.count_append, hexec, htries, Option.map_some, Option.toList_some, List.count_singleton_self]

lemma Stands.carries (h : x.Stands op who) (hk : x.calls.get t = some k)
    (hcarries : k.2.carries = some (op.rpc, who)) (hc' : c'.carries = some (op.rpc, who)) :
    (x.settle t k s' (.goesOn c')).Stands op who := by
  obtain ⟨honly, hexec, hresp, hans⟩ := h.of_carries hk hcarries
  refine .carrying t (k.1, c') (OrderedDict.get_set_self ..) hc' (only_of_goesOn honly) ?_ hresp hans
  have htries : k.2.tries = none := by
    cases htries : k.2.tries with
    | none => rfl
    | some p =>
      rw [Call.carries_of_operation (Call.operation_of_tries htries)] at hcarries
      cases hcarries
  simp only [settle]
  rw [htries, Option.map_none, Option.toList_none, List.append_nil, hexec]

lemma Stands.stores (h : x.Stands op who) (hwho : who.Keyed) (hk : x.calls.get t = some k)
    (hcarries : k.2.carries = some (op.rpc, who)) (hr : op.rpc.Succeeds r) :
    (x.settle t k (x.node.storeResponse who r) (.returns r)).Stands op who := by
  obtain ⟨honly, hexec, hresp, hans⟩ := h.of_carries hk hcarries
  refine .done r (none_of_returns honly) hexec (fun r' => ?_) hr (fun op' r' hanswered => ?_)
    ⟨(who.seqNum, r), ?_, Int.le_refl _⟩
  · simp only [settle]
    rw [hcarries, Option.map_some, Option.toList_some, List.mem_append, or_iff_right (hresp r'),
      List.mem_singleton, Prod.mk.injEq]
    exact and_iff_right rfl
  · obtain hold | ⟨rfl, -⟩ := answered_settle.mp hanswered
    · exact absurd hold (hans op' r')
    · rfl
  · simp only [settle]
    rw [storeResponse_keyed _ hwho, Function.update_self]

end Settle

lemma Sound.request_of_operation (hx : x.Sound) (hk : x.calls.get t = some k) {p : Operation × Caller}
    (hp : k.2.operation = some p) : k.1.operation = some p := by
  cases hx.follows t k hk with
  | waits h => exact h.symm.trans hp
  | carries hc h =>
    rw [Call.carries_of_operation hp] at h
    cases h

lemma Sound.request_of_carries (hx : x.Sound) (hk : x.calls.get t = some k) {q : Rpc × Caller}
    (hq : k.2.carries = some q) : ∃ op, k.1.operation = some (op, q.2) ∧ q.1 = op.rpc := by
  cases hx.follows t k hk with
  | waits h hcarries =>
    rw [hcarries] at hq
    cases hq
  | @carries p hc h =>
    obtain rfl := Option.some.inj (h.symm.trans hq)
    exact ⟨p.1, hc, rfl⟩

lemma Sound.request_of_none (hx : x.Sound) (hk : x.calls.get t = some k) (hc : k.2.operation = none)
    (hcarries : k.2.carries = none) : k.1.operation = none := by
  cases hx.follows t k hk with
  | waits h => exact h.symm.trans hc
  | carries hc h =>
    rw [hcarries] at h
    cases h

lemma works_unique {c : Call} {who' : Caller} (h : c.Works who) (h' : c.Works who') : who = who' := by
  obtain ⟨p, hp, rfl⟩ | ⟨q, hq, rfl⟩ := h
  · obtain ⟨p', hp', rfl⟩ | ⟨q', hq', rfl⟩ := h'
    · rw [Option.some.inj (hp.symm.trans hp')]
    · rw [Call.carries_of_operation (Call.operation_of_tries hp)] at hq'
      cases hq'
  · obtain ⟨p', hp', rfl⟩ | ⟨q', hq', rfl⟩ := h'
    · rw [Call.carries_of_operation (Call.operation_of_tries hp')] at hq
      cases hq
    · rw [Option.some.inj (hq.symm.trans hq')]

lemma Sound.settle_stands (hx : x.Sound) (hk : x.calls.get t = some k) (hturn : x.InTurn (.run t))
    {s' : ReplicatedDSFSServer} {o : Progress} (hlater : x.node.Later s') (hs : x.node.Serves k.2 s' o)
    (hwho : who.Keyed) (hop : ∀ op' ∈ x.asked who, op' = op) : (x.settle t k s' o).Stands op who := by
  have hstands := hx.stands who op hwho hop
  obtain ⟨hadmits, hstores⟩ := hturn k hk
  -- what the step is worth to an identity it is not made for
  have hapart : ∀ {s' : ReplicatedDSFSServer} {o : Progress}, ¬k.2.Works who →
      (∀ c, o = .goesOn c → ¬c.Works who) →
      (∀ r p, o = .returns r → k.1.operation = some p → p.2 = who → r.Aborts) → x.node.Later s' →
      s'.dedupCache = x.node.dedupCache → (x.settle t k s' o).Stands op who := by
    intro s' o hbefore hafter hans hlater hcache
    refine hstands.undisturbed (undisturbed_settle hk hbefore hafter hans hlater fun d hd => ?_)
    exact ⟨d, hcache ▸ hd, Int.le_refl _⟩
  have hasked : ∀ op', k.1.operation = some (op', who) → op' = op := by
    intro op' hop'
    exact hop op' (hx.asks t k _ hk hop' hwho)
  cases hs with
  | waits hc htries hc' htries' =>
    refine hapart (not_works_of_operation hc htries who) (fun c h => ?_) (fun r p h => by cases h) hlater rfl
    cases h
    exact not_works_of_operation hc' htries' who
  | aborts hc htries hr =>
    refine hapart (not_works_of_operation hc htries who) (fun c h => by cases h) (fun r p h _ _ => ?_) hlater rfl
    cases h
    exact hr
  | others hc hcarries hcache hgoes =>
    refine hapart (not_works_of_none hc hcarries who) (fun c h => ?_) (fun r p _ hp _ => ?_) hlater hcache
    · exact not_works_of_none (hgoes c h).1 (hgoes c h).2 who
    · rw [hx.request_of_none hk hc hcarries] at hp
      cases hp
  | @cached p r hc hr =>
    have hrequest := hx.request_of_operation hk (Call.operation_of_checks hc)
    have hbefore := not_works_of_operation (Call.operation_of_checks hc) (Call.tries_of_checks hc)
    by_cases hme : p.2 = who
    · subst hme
      obtain ⟨d, hd, hle, rfl⟩ := checkIdempotent_eq_some hr
      have hresp := hx.slots p.2.clientId d hd
      rw [(hadmits p hc hwho).1 d hd hle] at hresp
      exact hstands.cached (hbefore p.2) hresp
    · refine hapart (hbefore who) (fun c h => by cases h) (fun r' p' _ hp hp' => ?_) hlater rfl
      obtain rfl := Option.some.inj (hrequest.symm.trans hp)
      exact absurd hp' hme
  | @passes c' p hc hr hc' =>
    have hbefore := not_works_of_operation (Call.operation_of_checks hc) (Call.tries_of_checks hc)
    by_cases hme : p.2 = who
    · subst hme
      obtain rfl := hasked p.1 (hx.request_of_operation hk (Call.operation_of_checks hc))
      obtain ⟨hfree, hgiven⟩ := (hadmits p hc hwho).2 hr
      exact hstands.passes hwho (hbefore p.2) hr (fun t' k' hk' => hfree (t', k') (OrderedDict.get_eq_some.mp hk'))
        hgiven hc'
    · refine hapart (hbefore who) (fun c h => ?_) (fun r p' h => by cases h) hlater rfl
      cases h
      exact fun hworks => hme (works_unique (.inl ⟨p, hc', rfl⟩) hworks)
  | @refuses p r hc href hr =>
    have hrequest := hx.request_of_operation hk (Call.operation_of_tries hc)
    by_cases hme : p.2 = who
    · subst hme
      obtain rfl := hasked p.1 hrequest
      exact hstands.refuses hk hc href hr
    · refine hapart (fun hworks => hme (works_unique (.inl ⟨p, hc, rfl⟩) hworks)) (fun c h => by cases h)
        (fun r' p' _ hp hp' => ?_) hlater rfl
      obtain rfl := Option.some.inj (hrequest.symm.trans hp)
      exact absurd hp' hme
  | @starts c' p _ hc href hcache hc' =>
    by_cases hme : p.2 = who
    · subst hme
      obtain rfl := hasked p.1 (hx.request_of_operation hk (Call.operation_of_tries hc))
      exact hstands.starts hk hc href hc'
    · refine hapart (fun hworks => hme (works_unique (.inl ⟨p, hc, rfl⟩) hworks)) (fun c h => ?_)
        (fun r p' h => by cases h) hlater hcache
      cases h
      exact fun hworks => hme (works_unique (.inr ⟨_, hc', rfl⟩) hworks)
  | @carries c' q _ hc hcache hc' =>
    by_cases hme : q.2 = who
    · subst hme
      obtain ⟨op', hrequest, hrpc⟩ := hx.request_of_carries hk hc
      obtain rfl := hasked op' hrequest
      exact hstands.carries hk (hc.trans (congrArg some (Prod.ext hrpc rfl)))
        (hc'.trans (congrArg some (Prod.ext hrpc rfl)))
    · refine hapart (fun hworks => hme (works_unique (.inr ⟨q, hc, rfl⟩) hworks)) (fun c h => ?_)
        (fun r p' h => by cases h) hlater hcache
      cases h
      exact fun hworks => hme (works_unique (.inr ⟨q, hc', rfl⟩) hworks)
  | @stores q r hc hr =>
    have hcarries := Call.carries_of_stores hc
    obtain ⟨op', hrequest, hrpc⟩ := hx.request_of_carries hk hcarries
    by_cases hme : q.2 = who
    · subst hme
      obtain rfl := hasked op' hrequest
      rw [hrpc] at hr
      exact hstands.stores hwho hk (hcarries.trans (congrArg some (Prod.ext hrpc rfl))) hr
    · refine hstands.undisturbed (undisturbed_settle hk
        (fun hworks => hme (works_unique (.inr ⟨q, hcarries, rfl⟩) hworks)) (fun c h => by cases h)
        (fun r' p' _ hp hp' => ?_) hlater ?_)
      · obtain rfl := Option.some.inj (hrequest.symm.trans hp)
        exact absurd hp' hme
      · exact storeResponse_slot (hstores q hc)

lemma Follows.goesOn {c c' request : Call} {s s' : ReplicatedDSFSServer} (hf : Follows request c)
    (hs : s.Serves c s' (.goesOn c')) : Follows request c' := by
  have hrequest : ∀ p, c.operation = some p → request.operation = some p := by
    intro p hp
    cases hf with
    | waits h => exact h.symm.trans hp
    | carries hc h =>
      rw [Call.carries_of_operation hp] at h
      cases h
  cases hs with
  | waits hc htries hc' htries' =>
    exact .waits (hc'.trans (hrequest _ hc).symm) (Call.carries_of_operation hc')
  | passes hc hr hc' =>
    have hop := Call.operation_of_tries hc'
    exact .waits (hop.trans (hrequest _ (Call.operation_of_checks hc)).symm) (Call.carries_of_operation hop)
  | starts hc href hcache hc' => exact .carries (hrequest _ (Call.operation_of_tries hc)) hc'
  | carries hc hcache hc' =>
    cases hf with
    | waits h hcarries =>
      rw [hcarries] at hc
      cases hc
    | carries hreq h => exact .carries hreq (hc'.trans (hc.symm.trans h))
  | others hc hcarries hcache hgoes =>
    obtain ⟨hop, hcarries'⟩ := hgoes c' rfl
    cases hf with
    | waits h => exact .waits (hop.trans (hc.symm.trans h)) hcarries'
    | carries hreq h =>
      rw [hcarries] at h
      cases h

lemma Sound.settle_slots (hx : x.Sound) {s' : ReplicatedDSFSServer} {o : Progress} (hs : x.node.Serves k.2 s' o)
    {clientId : String} {d : ℤ × Reply} (hd : s'.dedupCache clientId = some d) :
    (⟨clientId, d.1⟩, d.2) ∈ (x.settle t k s' o).responses := by
  have hgrows : ∀ q ∈ x.responses, q ∈ (x.settle t k s' o).responses := by
    intro q hq
    cases o with
    | goesOn c => exact hq
    | returns r => exact List.mem_append_left _ hq
  have hkept : s'.dedupCache = x.node.dedupCache → (⟨clientId, d.1⟩, d.2) ∈ (x.settle t k s' o).responses := by
    intro hcache
    rw [hcache] at hd
    exact hgrows _ (hx.slots clientId d hd)
  cases hs with
  | @stores q r hc hr =>
    by_cases hwho : q.2.Keyed
    · rw [storeResponse_keyed _ hwho, Function.update_apply] at hd
      split_ifs at hd with hclient
      · obtain rfl := Option.some.inj hd
        subst hclient
        refine List.mem_append_right _ ?_
        rw [Call.carries_of_stores hc, Option.map_some, Option.toList_some]
        exact List.mem_singleton_self _
      · exact hgrows _ (hx.slots clientId d hd)
    · exact hkept (congrArg ReplicatedDSFSServer.dedupCache (storeResponse_unkeyed _ hwho r))
  | starts hc href hcache => exact hkept hcache
  | carries hc hcache => exact hkept hcache
  | others hc hcarries hcache => exact hkept hcache
  | _ => exact hkept rfl

lemma Sound.settle (hx : x.Sound) (hk : x.calls.get t = some k) (hturn : x.InTurn (.run t))
    {s' : ReplicatedDSFSServer} {o : Progress} (hlater : x.node.Later s') (hs : x.node.Serves k.2 s' o) :
    (x.settle t k s' o).Sound := by
  cases o with
  | goesOn c =>
    refine ⟨fun who op hwho hop => hx.settle_stands hk hturn hlater hs hwho hop,
      fun clientId d hd => hx.settle_slots hs hd,
      fun t' k' hk' => ?_, fun t' k' p hk' hp hwho => ?_, hx.answered⟩
    · simp only [Serving.settle] at hk'
      rw [OrderedDict.get_set] at hk'
      split_ifs at hk'
      · obtain rfl := Option.some.inj hk'
        exact (hx.follows t k hk).goesOn hs
      · exact hx.follows t' k' hk'
    · simp only [Serving.settle] at hk'
      rw [OrderedDict.get_set] at hk'
      split_ifs at hk'
      · obtain rfl := Option.some.inj hk'
        exact hx.asks t k p hk hp hwho
      · exact hx.asks t' k' p hk' hp hwho
  | returns r =>
    refine ⟨fun who op hwho hop => hx.settle_stands hk hturn hlater hs hwho hop,
      fun clientId d hd => hx.settle_slots hs hd,
      fun t' k' hk' => ?_, fun t' k' p hk' hp hwho => ?_, fun op who r' hwho hanswered => ?_⟩
    · simp only [Serving.settle] at hk'
      rw [OrderedDict.get_erase] at hk'
      split_ifs at hk'
      exact hx.follows t' k' hk'
    · simp only [Serving.settle] at hk'
      rw [OrderedDict.get_erase] at hk'
      split_ifs at hk'
      exact hx.asks t' k' p hk' hp hwho
    · obtain hold | ⟨-, hop, -⟩ := answered_settle.mp hanswered
      · exact hx.answered op who r' hwho hold
      · exact hx.asks t k (op, who) hk hop hwho

lemma ask_of_asked {c : Call} (hrepeats : x.Repeats c) (hwho : who.Keyed) (hasked : x.asked who = some op) :
    x.ask c.operation who = some op := by
  cases hc : c.operation with
  | none => exact hasked
  | some p =>
    rw [ask, Function.update_apply]
    split_ifs with hme
    · subst hme
      rw [hrepeats p hc hwho op hasked]
    · exact hasked

lemma Sound.begin (hx : x.Sound) {c : Call} (hfree : x.calls.get t = none) (hc : c.IsRequest = true)
    (hrepeats : x.Repeats c) : (x.begin t c).Sound := by
  have hcarries := Call.carries_of_isRequest hc
  have hidle : ∀ who, ¬c.Works who := by
    rintro who (⟨p, hp, -⟩ | ⟨q, hq, -⟩)
    · rw [Call.tries_of_isRequest hc] at hp
      cases hp
    · rw [hcarries] at hq
      cases hq
  have hget : ∀ t' k', (x.begin t c).calls.get t' = some k' → k' = (c, c) ∨ x.calls.get t' = some k' := by
    intro t' k' hk'
    simp only [Serving.begin] at hk'
    rw [OrderedDict.get_set] at hk'
    split_ifs at hk'
    · exact .inl (Option.some.inj hk').symm
    · exact .inr hk'
  refine ⟨fun who op hwho hop => ?_, hx.slots, fun t' k' hk' => ?_, fun t' k' p hk' hp hwho => ?_,
    fun op who r hwho hanswered => ask_of_asked hrepeats hwho (hx.answered op who r hwho hanswered)⟩
  · have hstands := hx.stands who op hwho fun op' hop' => hop op' (ask_of_asked hrepeats hwho hop')
    refine hstands.undisturbed ⟨fun t' k' hworks => ?_, rfl, fun r => Iff.rfl, fun op r h => h, .refl _,
      fun d hd => ⟨d, hd, Int.le_refl _⟩⟩
    simp only [Serving.begin]
    rw [OrderedDict.get_set]
    split_ifs with ht
    · subst ht
      rw [hfree]
      constructor
      · rintro ⟨⟩
        exact absurd hworks (hidle who)
      · rintro ⟨⟩
    · rfl
  · obtain rfl | hold := hget t' k' hk'
    · exact .waits rfl hcarries
    · exact hx.follows t' k' hold
  · obtain rfl | hold := hget t' k' hk'
    · simp only [Serving.begin]
      rw [hp, ask, Function.update_self]
    · exact ask_of_asked hrepeats hwho (hx.asks t' k' p hold hp hwho)

lemma Sound.around (hx : x.Sound) (e : NodeEvent) : Sound { x with node := x.node.meets e } := by
  refine ⟨fun who op hwho hop => ?_, fun clientId d hd => ?_, hx.follows, hx.asks, hx.answered⟩
  · refine (hx.stands who op hwho hop).undisturbed ⟨fun t' k' _ => Iff.rfl, rfl, fun r => Iff.rfl, fun op r h => h,
      x.node.meets_later e, fun d hd => ⟨d, ?_, Int.le_refl _⟩⟩
    rw [ReplicatedDSFSServer.meets_dedupCache]
    exact hd
  · rw [ReplicatedDSFSServer.meets_dedupCache] at hd
    exact hx.slots clientId d hd

lemma init_sound (disk : String → Option FileData) : (init disk).Sound := by
  have hans : ∀ op who r, ¬(init disk).Answered op who r := by
    rintro op who r ⟨c, hc, -⟩
    cases hc
  constructor
  · intro who op _ _
    refine .waiting (fun t k hk => ?_) rfl (fun r hr => ?_) fun op' r hr => absurd hr (hans op' who r)
    · cases hk
    · cases hr
  · intro clientId d hd
    cases hd
  · intro t k hk
    cases hk
  · intro t k p hk
    cases hk
  · intro op who r _ hr
    exact absurd hr (hans op who r)

lemma Sound.step {peers : List ℕ} (hx : x.Sound) {a : Act} (hturn : x.InTurn a) (hy : x.step peers a = some y) :
    y.Sound := by
  cases a with
  | call t c =>
    simp only [Serving.step] at hy
    split_ifs at hy with hcall
    obtain rfl := Option.some.inj hy
    exact hx.begin hcall.1 hcall.2.1 hcall.2.2
  | run t =>
    obtain ⟨k, hk, rfl⟩ := Option.map_eq_some_iff.mp hy
    exact hx.settle hk hturn (x.node.run_later peers k.2) (x.node.run_serves peers k.2)
  | around e =>
    obtain rfl := Option.some.inj hy
    exact hx.around e

lemma Stands.ownAnswers (h : x.Stands op who) (hasked : ∀ op' r, x.Answered op' who r → op' = op) :
    x.OwnAnswers who := by
  cases h with
  | waiting hnone hexec hresp hans =>
    have honce := Nat.le_trans (Nat.le_of_eq hexec) (Nat.zero_le 1)
    refine ⟨honce, fun r r' hr => absurd hr (hresp r), fun op' r hr => ?_⟩
    exact .inr ⟨(hans op' r hr).1, List.count_eq_zero.mp hexec⟩
  | trying t k hk htries honly hgiven hexec hresp hans =>
    have honce := Nat.le_trans (Nat.le_of_eq hexec) (Nat.zero_le 1)
    refine ⟨honce, fun r r' hr => absurd hr (hresp r), fun op' r hr => ?_⟩
    exact .inr ⟨(hans op' r hr).1, List.count_eq_zero.mp hexec⟩
  | carrying t k hk hcarries honly hexec hresp hans =>
    exact ⟨Nat.le_of_eq hexec, fun r r' hr => absurd hr (hresp r), fun op' r hr => absurd hr (hans op' r)⟩
  | done r hnone hexec hresp hsucceeds hans hslot =>
    refine ⟨Nat.le_of_eq hexec, fun r₁ r₂ h₁ h₂ => ?_, fun op' r' hr => ?_⟩
    · exact ((hresp r₁).mp h₁).trans ((hresp r₂).mp h₂).symm
    · obtain rfl := hans op' r' hr
      rw [hasked op' r' hr]
      exact .inl ⟨(hresp r').mpr rfl, hsucceeds⟩

/-- The server becomes primary. -/
def serving : List Act := [.around (.role true "localhost:50050"), .around .markReady]

def createA (seqNum : ℤ) : Call := .create "a" ⟨"A", seqNum⟩

/-- A request in the thread `t`, and the first `m` steps of its handler. -/
def asks (t : ℕ) (c : Call) (m : ℕ) : List Act := .call t c :: List.replicate m (.run t)

def closeA : Call := .close 1 [7] ⟨"A", 1⟩

end Serving

end DistributedStorage.Replication
