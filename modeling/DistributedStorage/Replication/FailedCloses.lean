import DistributedStorage.Replication.RaftServer

/-! What a Close that is answered with an error leaves of its handle. -/

namespace DistributedStorage.Replication

open Library Files

/-- What the other threads of a server do. -/
inductive Other
  | handler (c : RaftCall) (a : RaftAnswer)
  | apply (entry : Entry)
  | snapshot (fileBlobs : String → Option FileData) (fileVersions : String → Option ℕ)

/-- What a Close meets: Raft when it arrives, and then, before each of its further steps, what the others do
and what Raft answers. -/
structure Surroundings where
  arrival : RaftAnswer
  dedup : List Other × RaftAnswer
  pop : List Other × RaftAnswer
  role : List Other × RaftAnswer
  append : List Other × RaftAnswer
  wait : List Other × RaftAnswer
  store : List Other × RaftAnswer

/-- Raft takes the entry and applies it. -/
def Surroundings.Commits (env : Surroundings) : Prop :=
  env.role.2.isLeader = true ∧ env.append.2.isLeader = true ∧ ∃ v, env.wait.2.result = .applied v

namespace RaftDSFSServicer

def other (s : RaftDSFSServicer) : Other → RaftDSFSServicer
  | .handler c a => (s.run a c).1
  | .apply entry => s.applyEntry entry
  | .snapshot fileBlobs fileVersions => s.installSnapshot fileBlobs fileVersions

def others (s : RaftDSFSServicer) (l : List Other) : RaftDSFSServicer := l.foldl other s

/-- The steps of a handler from its stage `c` on. -/
def serve : List (List Other × RaftAnswer) → RaftDSFSServicer → RaftCall →
    RaftDSFSServicer × Outcome RaftCall
  | [], s, c => (s, .goesOn c)
  | x :: env, s, c =>
    match (s.others x.1).run x.2 c with
    | (s', .goesOn c') => serve env s' c'
    | (s', .returns r) => (s', .returns r)

/-- A Close from its arrival on. -/
def close (s : RaftDSFSServicer) (handle : ℤ) (data : FileData) (who : Caller) (env : Surroundings) :
    RaftDSFSServicer × Outcome RaftCall :=
  serve [([], env.arrival), env.dedup, env.pop, env.role, env.append, env.wait, env.store] s
    (.close handle data who)

section Preserved

variable {P : HandleTable → Prop}
  (hP : ∀ (c : RaftCall) (t t' : HandleTable) (o : Outcome RaftCall), raftBuild.Handling c t t' o → P t → P t')

include hP

lemma other_table {s : RaftDSFSServicer} (h : P s.table) (o : Other) : P (s.other o).table := by
  cases o with
  | handler c a => exact hP _ _ _ _ (s.run_handling a c) h
  | apply entry =>
    rw [other, applyEntry_table]
    exact h
  | snapshot fileBlobs fileVersions => exact h

lemma others_table {s : RaftDSFSServicer} (h : P s.table) (l : List Other) : P (s.others l).table := by
  induction l generalizing s with
  | nil => exact h
  | cons o l ih => exact ih (other_table hP h o)

lemma serve_table {s : RaftDSFSServicer} (h : P s.table) (env : List (List Other × RaftAnswer)) (c : RaftCall) :
    P (serve env s c).1.table := by
  induction env generalizing s c with
  | nil => exact h
  | cons x env ih =>
    have hrun := hP _ _ _ _ ((s.others x.1).run_handling x.2 c) (others_table hP h x.1)
    rw [serve]
    cases hout : (s.others x.1).run x.2 c with
    | mk s' o =>
      rw [hout] at hrun
      cases o with
      | goesOn c' => exact ih hrun c'
      | returns r => exact hrun

end Preserved

variable {s s' : RaftDSFSServicer} {env : List (List Other × RaftAnswer)} {x : List Other × RaftAnswer}
  {c : RaftCall}

lemma serve_returns {r : Reply} (h : (s.others x.1).run x.2 c = (s', .returns r)) :
    serve (x :: env) s c = (s', .returns r) := by
  rw [serve, h]

lemma serve_goesOn {c' : RaftCall} (h : (s.others x.1).run x.2 c = (s', .goesOn c')) :
    serve (x :: env) s c = serve env s' c' := by
  rw [serve, h]

/-- From its wait on, a Close is answered with an error exactly when Raft does not apply its entry. -/
lemma serve_closeWait (s : RaftDSFSServicer) (f : String) (who : Caller) (wait store : List Other × RaftAnswer) :
    ∃ s' r, serve [wait, store] s (.closeWait f who) = (s', .returns r) ∧
      ((∃ message, r = .failed message) ↔ ¬∃ v, wait.2.result = .applied v) := by
  cases hwait : wait.2.result with
  | applied v =>
    have hrun : (s.others wait.1).run wait.2 (.closeWait f who) =
        (s.others wait.1, .goesOn (.closeStore v who)) := by
      simp only [run, hwait]
    rw [serve_goesOn hrun, serve_returns rfl]
    refine ⟨_, _, rfl, iff_of_false ?_ (not_not.mpr ⟨v, rfl⟩)⟩
    rintro ⟨message, ⟨⟩⟩
  | notLeader =>
    have hrun : (s.others wait.1).run wait.2 (.closeWait f who) =
        (s.others wait.1, .returns wait.2.redirectError) := by
      simp only [run, hwait]
    rw [serve_returns hrun]
    refine ⟨_, _, rfl, iff_of_true ⟨_, rfl⟩ ?_⟩
    rintro ⟨v, ⟨⟩⟩
  | error message =>
    have hrun : (s.others wait.1).run wait.2 (.closeWait f who) =
        (s.others wait.1, .returns (.failed message)) := by
      simp only [run, hwait]
    rw [serve_returns hrun]
    refine ⟨_, _, rfl, iff_of_true ⟨_, rfl⟩ ?_⟩
    rintro ⟨v, ⟨⟩⟩

/-- From the leader check on, a Close is answered with an error exactly when Raft does not commit its entry. -/
lemma serve_closeRole (s : RaftDSFSServicer) (f : String) (data : FileData) (who : Caller) (env : Surroundings) :
    ∃ s' r, serve [env.role, env.append, env.wait, env.store] s (.closeRole f data who) = (s', .returns r) ∧
      ((∃ message, r = .failed message) ↔ ¬env.Commits) := by
  by_cases hrole : env.role.2.isLeader = true
  · have hrun : (s.others env.role.1).run env.role.2 (.closeRole f data who) =
        (s.others env.role.1, .goesOn (.closeAppend f data who)) := by
      rw [run, if_pos hrole]
    rw [serve_goesOn hrun]
    generalize s.others env.role.1 = s₁
    by_cases happend : env.append.2.isLeader = true
    · have hrun : (s₁.others env.append.1).run env.append.2 (.closeAppend f data who) =
          (s₁.others env.append.1, .goesOn (.closeWait f who)) := by
        rw [run, if_pos happend]
      rw [serve_goesOn hrun]
      obtain ⟨s', r, hserve, hfailed⟩ := serve_closeWait (s₁.others env.append.1) f who env.wait env.store
      refine ⟨s', r, hserve, hfailed.trans (not_congr ?_)⟩
      exact ⟨fun happlied => ⟨hrole, happend, happlied⟩, fun hc => hc.2.2⟩
    · have hrun : (s₁.others env.append.1).run env.append.2 (.closeAppend f data who) =
          (s₁.others env.append.1, .returns env.append.2.redirectError) := by
        rw [run, if_neg happend]
      rw [serve_returns hrun]
      exact ⟨_, _, rfl, iff_of_true ⟨_, rfl⟩ fun hc => happend hc.2.1⟩
  · have hrun : (s.others env.role.1).run env.role.2 (.closeRole f data who) =
        (s.others env.role.1, .returns env.role.2.redirectError) := by
      rw [run, if_neg hrole]
    rw [serve_returns hrun]
    exact ⟨_, _, rfl, iff_of_true ⟨_, rfl⟩ fun hc => hrole hc.1⟩

/-- The handle goes before Raft is asked, and stays away. -/
lemma serve_closePop {s : RaftDSFSServicer} {handle : ℤ} (f : String) (data : FileData) (who : Caller)
    (env : Surroundings) (hb : (s.others env.pop.1).table.Bounded)
    (hopen : (s.others env.pop.1).openFiles handle = some ⟨f, "w"⟩) :
    ∃ s' r, serve [env.pop, env.role, env.append, env.wait, env.store] s (.closePop handle data who) =
        (s', .returns r) ∧
      ((∃ message, r = .failed message) ↔ ¬env.Commits) ∧ s'.openFiles handle = none := by
  have hrun : (s.others env.pop.1).run env.pop.2 (.closePop handle data who) =
      ({ s.others env.pop.1 with openFiles := Function.update (s.others env.pop.1).openFiles handle none },
        .goesOn (.closeRole f data who)) := by
    simp only [run, hopen, if_true]
  rw [serve_goesOn hrun]
  generalize hpopped : ({ s.others env.pop.1 with
    openFiles := Function.update (s.others env.pop.1).openFiles handle none } : RaftDSFSServicer) = popped
  have hgone : popped.table.Gone handle := by
    rw [← hpopped]
    exact ⟨Function.update_self .., hb handle _ hopen⟩
  obtain ⟨s', r, hserve, hfailed⟩ := serve_closeRole popped f data who env
  have hgone' := serve_table (P := fun t => t.Gone handle) (fun _ _ _ _ h => h.gone) hgone
    [env.role, env.append, env.wait, env.store] (.closeRole f data who)
  rw [hserve] at hgone'
  exact ⟨s', r, hserve, hfailed, hgone'.1⟩

/-- What is open now and open later was open in between. -/
lemma open_between {l l' : List Other} {handle : ℤ} {info : OpenFile} (hb : s.table.Bounded)
    (hopen : s.openFiles handle = some info) (hlater : ((s.others l).others l').openFiles handle ≠ none) :
    (s.others l).openFiles handle = some info ∧ ((s.others l).others l').openFiles handle = some info := by
  have hholds : s.table.Holds handle info := by
    refine ⟨hb handle info hopen, fun i hi => ?_⟩
    exact Option.some.inj (hi.symm.trans hopen)
  have hbetween := others_table (P := fun t => t.Holds handle info) (fun _ _ _ _ h => h.holds) hholds l
  have hthen := others_table (P := fun t => t.Holds handle info) (fun _ _ _ _ h => h.holds) hbetween l'
  constructor
  · cases hmid : (s.others l).openFiles handle with
    | some i => exact congrArg some (hbetween.2 i hmid)
    | none =>
      have hgone : (s.others l).table.Gone handle := ⟨hmid, hbetween.1⟩
      have hgone' := others_table (P := fun t => t.Gone handle) (fun _ _ _ _ h => h.gone) hgone l'
      exact absurd hgone'.1 hlater
  · obtain ⟨i, hi⟩ := Option.ne_none_iff_exists'.mp hlater
    rw [hi, hthen.2 i hi]

/-- A Close on a handle that is open for writing, and that no other Close takes from it, keeps the handle when
it fails exactly if nothing fails after the handle is taken out: the node is isolated, the identity is
answered from the cache, or the entry is committed. -/
theorem failed_close_keeps_handle (s : RaftDSFSServicer) (hb : s.table.Bounded) (handle : ℤ) (f : String)
    (data : FileData) (who : Caller) (env : Surroundings) (hopen : s.openFiles handle = some ⟨f, "w"⟩)
    (hstill : ((s.others env.dedup.1).others env.pop.1).openFiles handle ≠ none) :
    ∃ s' r, s.close handle data who env = (s', .returns r) ∧
      (((∃ message, r = .failed message) → s'.openFiles handle = some ⟨f, "w"⟩) ↔
        env.arrival.isolated = true ∨ ((s.others env.dedup.1).checkIdempotent who).isSome = true ∨
          env.Commits) := by
  obtain ⟨hmid, hlast⟩ := open_between hb hopen hstill
  have hbound := others_table (fun _ _ _ _ h ht => h.bounded ht)
    (others_table (fun _ _ _ _ h ht => h.bounded ht) hb env.dedup.1) env.pop.1
  rw [close]
  by_cases hisolated : env.arrival.isolated = true
  · have hrun : (s.others []).run env.arrival (.close handle data who) = (s, .returns isolatedReply) := by
      rw [run, if_pos hisolated]
      rfl
    rw [serve_returns hrun]
    refine ⟨_, _, rfl, iff_of_true ?_ (.inl hisolated)⟩
    rintro ⟨message, ⟨⟩⟩
  have hrun : (s.others []).run env.arrival (.close handle data who) =
      (s, .goesOn (.closeDedup handle data who)) := by
    rw [run, if_neg hisolated]
    rfl
  rw [serve_goesOn hrun]
  cases hcached : (s.others env.dedup.1).checkIdempotent who with
  | some cached =>
    have hrun : (s.others env.dedup.1).run env.dedup.2 (.closeDedup handle data who) =
        (s.others env.dedup.1, .returns cached) := by
      simp only [run, hcached]
    rw [serve_returns hrun]
    exact ⟨_, _, rfl, iff_of_true (fun _ => hmid) (.inr (.inl rfl))⟩
  | none =>
    have hrun : (s.others env.dedup.1).run env.dedup.2 (.closeDedup handle data who) =
        (s.others env.dedup.1, .goesOn (.closePop handle data who)) := by
      simp only [run, hcached]
    rw [serve_goesOn hrun]
    obtain ⟨s', r, hserve, hfailed, hgone⟩ := serve_closePop f data who env hbound hlast
    refine ⟨s', r, hserve, ?_⟩
    constructor
    · intro hkeeps
      refine .inr (.inr ?_)
      by_contra hcommits
      have hkept := hkeeps (hfailed.mpr hcommits)
      rw [hgone] at hkept
      cases hkept
    · rintro (hno | hno | hcommits) hfail
      · exact absurd hno hisolated
      · cases hno
      · exact absurd hcommits (hfailed.mp hfail)

/-- A server on which a client has opened a file for writing, under the handle 1. -/
def opened : RaftDSFSServicer :=
  let fresh : RaftDSFSServicer :=
    ⟨fun f => if f = "a" then some [0] else none, fun _ => none, fun _ => none, 1, fun _ => none⟩
  (fresh.openHandle "a" "w" []).1

lemma opened_bounded : opened.table.Bounded := HandleTable.empty_bounded.issue

/-- Raft answers the same all along, and no other thread runs. -/
def quiet (a : RaftAnswer) : Surroundings := ⟨a, ([], a), ([], a), ([], a), ([], a), ([], a), ([], a)⟩

def asLeader : RaftAnswer := ⟨false, true, "0", "localhost:50051", .applied 2⟩

def asFollower : RaftAnswer := ⟨false, false, "0", "localhost:50051", .notLeader⟩

theorem failed_close_keeps_handle_committed : ∃ s' r,
    opened.close 1 [7] ⟨"A", 1⟩ (quiet asLeader) = (s', .returns r) ∧
      ((∃ message, r = .failed message) → s'.openFiles 1 = some ⟨"a", "w"⟩) := by
  obtain ⟨s', r, hclose, hkeeps⟩ := opened.failed_close_keeps_handle opened_bounded 1 "a" [7] ⟨"A", 1⟩
    (quiet asLeader) rfl (by decide)
  exact ⟨s', r, hclose, hkeeps.mpr (.inr (.inr ⟨rfl, rfl, 2, rfl⟩))⟩

/-- The Close is sent to a follower, which then becomes the leader and is sent the Close again. -/
theorem failed_close_loses_handle : opened.table.Bounded ∧ opened.openFiles 1 = some ⟨"a", "w"⟩ ∧
    (opened.close 1 [7] ⟨"A", 1⟩ (quiet asFollower)).2 = .returns (.failed "NOT_LEADER:0:localhost:50051") ∧
    (opened.close 1 [7] ⟨"A", 1⟩ (quiet asFollower)).1.openFiles 1 = none ∧
    ((opened.close 1 [7] ⟨"A", 1⟩ (quiet asFollower)).1.close 1 [7] ⟨"A", 1⟩ (quiet asLeader)).2 =
      .returns (.failed "Invalid file handle") :=
  ⟨opened_bounded, rfl, rfl, rfl, rfl⟩

end RaftDSFSServicer

end DistributedStorage.Replication
