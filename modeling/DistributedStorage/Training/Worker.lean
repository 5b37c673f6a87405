import DistributedStorage.Training.Ownership

/-! A worker: the rows it has loaded, the gradient it computes from them, and what one answer of the
coordinator makes of both. Assignments only ever add rows. -/

set_option linter.unusedSectionVars false

namespace DistributedStorage.Training

open Library.Runs

/-- The features of a line and its label. -/
abbrev Row (F : Type) : Type := List F × ℤ

/-- What is outside the worker: the lines of the shard files, and the exponential function. -/
structure Environment (F : Type) where
  files : String → List (Row F)
  exp : F → F

/-- The fields of an answer that are missing read as `[]`, 0, `[]` and `False`. -/
structure Reply (F : Type) where
  shards : List String
  epoch : ℤ
  weights : List F
  terminate : Bool

/-- `loaded` lists its members in the order in which they were added. `knownEpoch` is a variable of `run`. -/
structure Worker (F : Type) where
  workerId : String
  shards : List String
  data : List (Row F)
  loaded : List String
  pending : Option (ℤ × List F × ℕ)
  knownEpoch : ℤ

variable {F : Type}

namespace Worker

def new (wid : String) : Worker F := ⟨wid, [], [], [], none, -1⟩

/-- The request of one turn of `run`. -/
def request (w : Worker F) : Heartbeat F :=
  match w.pending with
  | none => ⟨w.workerId, false, -1, [], 0⟩
  | some (pe, pg, pc) => ⟨w.workerId, true, pe, pg, pc⟩

end Worker

/-- The rows of a file as the worker keeps them, with the 1 of the bias. -/
def Environment.rows [One F] (env : Environment F) (shard : String) : List (Row F) :=
  (env.files shard).map fun row => (row.1 ++ [1], row.2)

section Arithmetic

variable [Zero F] [One F] [Add F] [Sub F] [Mul F] [Div F] [Neg F] [IntCast F] [LT F]
  [DecidableRel fun a b : F => a < b]

def Environment.sigmoid (env : Environment F) (z : F) : F :=
  if z < ((-700 : ℤ) : F) then 0
  else if ((700 : ℤ) : F) < z then 1
  else 1 / (1 + env.exp (-z))

/-- The loop of `_gradient`. A row with fewer entries than there are weights is an `IndexError`. -/
def Environment.addRows (env : Environment F) (weights : List F) : List F → List (Row F) → Option (List F)
  | grad, [] => some grad
  | grad, (x, y) :: data =>
    if x.length < weights.length then none
    else
      let z := (List.zipWith (· * ·) weights x).foldl (· + ·) 0
      let err := env.sigmoid z - (y : F)
      env.addRows weights (List.zipWith (fun g xi => g + err * xi) grad x) data

def Environment.gradient (env : Environment F) (weights : List F) (data : List (Row F)) : Option (List F) :=
  env.addRows weights (List.replicate weights.length 0) data

namespace Worker

/-- One round of `_load_shards`. A `failure` is an `OSError` after that many rows. -/
def load (env : Environment F) (w : Worker F) (shard : String) (failure : Option ℕ) : Worker F :=
  if shard ∈ w.loaded then w
  else match failure with
    | none => { w with data := w.data ++ env.rows shard, loaded := w.loaded ++ [shard] }
    | some k => { w with data := w.data ++ (env.rows shard).take k }

def loadShards (env : Environment F) : Worker F → List String → List (Option ℕ) → Worker F
  | w, [], _ => w
  | w, shard :: shards, failures =>
    loadShards env (w.load env shard failures.head?.join) shards failures.tail

/-- The assignment of an answer is taken over where there is one and it is new. -/
def assign (env : Environment F) (w : Worker F) (new : List String) (failures : List (Option ℕ)) : Worker F :=
  if new ≠ [] ∧ new ≠ w.shards then { w with shards := new }.loadShards env new failures else w

/-- The gradient of an epoch, once. -/
def compute (env : Environment F) (w : Worker F) (epoch : ℤ) (weights : List F) : Option (Worker F) :=
  if weights ≠ [] ∧ w.shards ≠ [] ∧ epoch ≠ w.knownEpoch then
    (env.gradient weights w.data).map fun grad =>
      { w with pending := some (epoch, grad, w.data.length), knownEpoch := epoch }
  else some w

/-- What a turn of `run` does with the answer; nothing is left of a worker that returns or raises. -/
def handle (env : Environment F) (w : Worker F) (r : Reply F) (failures : List (Option ℕ)) :
    Option (Worker F) :=
  if r.terminate then none else (w.assign env r.shards failures).compute env r.epoch r.weights

end Worker

/-- A worker, as long as it runs, and the answers it has had. -/
structure Employment (F : Type) where
  worker : Option (Worker F)
  replies : List (Reply F)

/-- One turn: the call fails, or it is answered. -/
inductive Turn (F : Type)
  | fails
  | answered (r : Reply F) (failures : List (Option ℕ))

namespace Employment

def init (wid : String) : Employment F := ⟨some (.new wid), []⟩

def step (env : Environment F) (x : Employment F) (e : Turn F) : Option (Employment F) :=
  x.worker.map fun w =>
    match e with
    | .fails => x
    | .answered r failures => ⟨w.handle env r failures, x.replies ++ [r]⟩

/-- The shards of the last answer. -/
def latest (x : Employment F) : List String :=
  (x.replies.getLast?.map Reply.shards).getD []

end Employment

namespace Worker

variable {env : Environment F} {w v : Worker F} {r : Reply F} {failures : List (Option ℕ)}

/-- The data are the rows of the loaded files, each file once. -/
def Stocked (env : Environment F) (w : Worker F) : Prop :=
  w.data = w.loaded.flatMap env.rows ∧ w.loaded.Nodup

/-- The answer leaves the data and the assignment in step: every read comes to its end, no shard that is
loaded is given up, and a gradient that is pending when shards are added is replaced at once. -/
def Accepts (w : Worker F) (r : Reply F) (failures : List (Option ℕ)) : Prop :=
  (∀ f ∈ failures, f = none) ∧ (r.shards = [] → w.shards = []) ∧
    (r.shards ≠ [] → ∀ s ∈ w.loaded, s ∈ r.shards) ∧
    (w.pending.isNone = true ∨ (∀ s ∈ r.shards, s ∈ w.loaded) ∨
      (r.weights ≠ [] ∧ r.epoch ≠ w.knownEpoch))

instance (w : Worker F) (r : Reply F) (failures : List (Option ℕ)) : Decidable (w.Accepts r failures) :=
  inferInstanceAs (Decidable (_ ∧ _ ∧ _ ∧ _))

lemma load_stocked (h : w.Stocked env) (s : String) : (w.load env s none).Stocked env ∧
    ∀ t, t ∈ (w.load env s none).loaded ↔ t ∈ w.loaded ∨ t = s := by
  obtain ⟨hdata, hnodup⟩ := h
  simp only [load]
  split_ifs with hmem
  · refine ⟨⟨hdata, hnodup⟩, fun t => ⟨Or.inl, ?_⟩⟩
    rintro (ht | rfl)
    · exact ht
    · exact hmem
  · refine ⟨⟨?_, ?_⟩, fun t => by simp⟩
    · simp [hdata]
    · exact List.nodup_append.mpr ⟨hnodup, List.nodup_singleton s, by
        rintro a ha b hb rfl
        exact hmem (List.mem_singleton.mp hb ▸ ha)⟩

lemma load_frame (w : Worker F) (env : Environment F) (s : String) (failure : Option ℕ) :
    (w.load env s failure).shards = w.shards ∧ (w.load env s failure).pending = w.pending ∧
      (w.load env s failure).knownEpoch = w.knownEpoch := by
  simp only [load]
  split_ifs
  · exact ⟨rfl, rfl, rfl⟩
  · split <;> exact ⟨rfl, rfl, rfl⟩

lemma loadShards_frame (w : Worker F) (env : Environment F) (shards : List String)
    (failures : List (Option ℕ)) : (w.loadShards env shards failures).shards = w.shards ∧
    (w.loadShards env shards failures).pending = w.pending ∧
    (w.loadShards env shards failures).knownEpoch = w.knownEpoch := by
  induction shards generalizing w failures with
  | nil => exact ⟨rfl, rfl, rfl⟩
  | cons s shards ih =>
    obtain ⟨hs, hp, hk⟩ := w.load_frame env s failures.head?.join
    obtain ⟨hs', hp', hk'⟩ := ih (w.load env s failures.head?.join) failures.tail
    exact ⟨hs'.trans hs, hp'.trans hp, hk'.trans hk⟩

/-- Where every read comes to its end, the shards of the assignment are loaded besides the old ones. -/
lemma loadShards_stocked (h : w.Stocked env) (hf : ∀ f ∈ failures, f = none) (shards : List String) :
    (w.loadShards env shards failures).Stocked env ∧
    ∀ t, t ∈ (w.loadShards env shards failures).loaded ↔ t ∈ w.loaded ∨ t ∈ shards := by
  induction shards generalizing w failures with
  | nil => exact ⟨h, fun t => by simp [loadShards]⟩
  | cons s shards ih =>
    have hhead : failures.head?.join = none := by
      cases failures with
      | nil => rfl
      | cons f fs => exact hf f List.mem_cons_self
    obtain ⟨hload, hmem⟩ := load_stocked h s
    have hrest : ∀ f ∈ failures.tail, f = none := fun f hm => hf f (List.mem_of_mem_tail hm)
    obtain ⟨hall, hmem'⟩ := ih hload hrest
    rw [loadShards, hhead]
    refine ⟨hall, fun t => ?_⟩
    rw [hmem', hmem, List.mem_cons, or_assoc]

lemma assign_stocked (h : w.Stocked env) (hloaded : ∀ s, s ∈ w.loaded ↔ s ∈ w.shards)
    (ha : w.Accepts r failures) : (w.assign env r.shards failures).Stocked env ∧
    (w.assign env r.shards failures).shards = r.shards ∧
    (∀ s, s ∈ (w.assign env r.shards failures).loaded ↔ s ∈ r.shards) ∧
    (w.assign env r.shards failures).pending = w.pending ∧
    (w.assign env r.shards failures).knownEpoch = w.knownEpoch := by
  obtain ⟨hf, hnil, hsub, -⟩ := ha
  simp only [assign]
  split_ifs with hnew
  · have hold : Stocked env { w with shards := r.shards } := h
    obtain ⟨hst, hmem⟩ := loadShards_stocked hold hf r.shards
    obtain ⟨hs, hp, hk⟩ := loadShards_frame { w with shards := r.shards } env r.shards failures
    refine ⟨hst, hs, fun s => ?_, hp, hk⟩
    rw [hmem]
    exact ⟨fun hor => hor.elim (hsub hnew.1 s) id, Or.inr⟩
  · have hsame : w.shards = r.shards := by
      by_cases hne : r.shards = []
      · rw [hne, hnil hne]
      · by_contra hdiff
        exact hnew ⟨hne, fun heq => hdiff heq.symm⟩
    exact ⟨h, hsame, fun s => hsame ▸ hloaded s, rfl, rfl⟩

/-- The rows the worker holds are those of its shards, whatever the order. -/
lemma Stocked.perm (h : w.Stocked env) {shards : List String} (hloaded : ∀ s, s ∈ w.loaded ↔ s ∈ shards) :
    w.data.Perm (shards.dedup.flatMap env.rows) := by
  rw [h.1]
  refine List.Perm.flatMap_right _ ((List.perm_ext_iff_of_nodup h.2 shards.nodup_dedup).mpr fun s => ?_)
  rw [hloaded, List.mem_dedup]

/-- A gradient of the rows of `shards` at the weights of an answer. -/
def Covers (env : Environment F) (replies : List (Reply F)) (shards : List String)
    (report : ℤ × List F × ℕ) : Prop :=
  ∃ r ∈ replies, r.epoch = report.1 ∧ ∃ rows : List (Row F), rows.Perm (shards.dedup.flatMap env.rows) ∧
    env.gradient r.weights rows = some report.2.1 ∧ report.2.2 = rows.length

lemma Covers.congr {replies more : List (Reply F)} {shards shards' : List String}
    {report : ℤ × List F × ℕ} (h : Covers env replies shards report)
    (hsame : ∀ s, s ∈ shards ↔ s ∈ shards') : Covers env (replies ++ more) shards' report := by
  obtain ⟨r, hr, he, rows, hrows, hg, hn⟩ := h
  refine ⟨r, List.mem_append_left _ hr, he, rows, hrows.trans ?_, hg, hn⟩
  refine List.Perm.flatMap_right _
    ((List.perm_ext_iff_of_nodup shards.nodup_dedup shards'.nodup_dedup).mpr fun s => ?_)
  rw [List.mem_dedup, List.mem_dedup, hsame]

/-- What holds of a worker whose answers it all accepted. -/
structure InStep (env : Environment F) (x : Employment F) (w : Worker F) : Prop where
  latest : x.latest = w.shards
  stocked : w.Stocked env
  loaded : ∀ s, s ∈ w.loaded ↔ s ∈ w.shards
  pending : ∀ report, w.pending = some report → Covers env x.replies w.shards report

lemma InStep.handle {x : Employment F} (h : w.InStep env x) (ha : w.Accepts r failures)
    (hv : w.handle env r failures = some v) :
    v.InStep env ⟨some v, x.replies ++ [r]⟩ := by
  simp only [Worker.handle] at hv
  split_ifs at hv
  obtain ⟨hst, hshards, hloaded, hpending, hknown⟩ := assign_stocked h.stocked h.loaded ha
  have hlatest : (⟨some v, x.replies ++ [r]⟩ : Employment F).latest = r.shards := by
    simp [Employment.latest]
  have hlast : r ∈ x.replies ++ [r] := List.mem_append_right _ (List.mem_singleton_self r)
  generalize w.assign env r.shards failures = u at hv hst hshards hloaded hpending hknown
  simp only [compute] at hv
  split_ifs at hv with hnow
  · obtain ⟨grad, hgrad, rfl⟩ := Option.map_eq_some_iff.mp hv
    refine ⟨hlatest.trans hshards.symm, hst, fun s => hshards ▸ hloaded s, fun report hrep => ?_⟩
    obtain rfl := Option.some.inj hrep
    exact ⟨r, hlast, rfl, u.data, hshards ▸ hst.perm hloaded, hgrad, rfl⟩
  · obtain rfl := Option.some.inj hv
    refine ⟨hlatest.trans hshards.symm, hst, fun s => hshards ▸ hloaded s, fun report hrep => ?_⟩
    rw [hpending] at hrep
    -- a gradient that stays pending is of the same shards
    refine (h.pending report hrep).congr fun s => ?_
    rw [hshards, ← h.loaded]
    rcases ha.2.2.2 with hnone | hsub | ⟨hweights, hepoch⟩
    · simp [hrep] at hnone
    · by_cases hnil : r.shards = []
      · have hold : w.shards = [] := ha.2.1 hnil
        rw [h.loaded, hold, hnil]
      · exact ⟨ha.2.2.1 hnil s, hsub s⟩
    · by_cases hnil : r.shards = []
      · have hold : w.shards = [] := ha.2.1 hnil
        rw [h.loaded, hold, hnil]
      · exact absurd ⟨hweights, by rwa [hshards], by rwa [hknown]⟩ hnow

end Worker

namespace Employment

/-- Every answer of the turn is the last one or leaves data and assignment in step. -/
def Clean (x : Employment F) (e : Turn F) : Prop :=
  match x.worker, e with
  | some w, .answered r failures => r.terminate = true ∨ w.Accepts r failures
  | _, _ => True

instance (x : Employment F) (e : Turn F) : Decidable (Clean x e) := by
  unfold Clean
  split
  · infer_instance
  · infer_instance

variable {env : Environment F} {x y : Employment F} {e : Turn F}

lemma step_inStep (h : ∀ w, x.worker = some w → w.InStep env x) (hc : Clean x e)
    (hs : step env x e = some y) {v : Worker F} (hv : y.worker = some v) : v.InStep env y := by
  obtain ⟨w, hw, rfl⟩ := Option.map_eq_some_iff.mp hs
  cases e with
  | fails => exact h v hv
  | answered r failures =>
    simp only [Clean, hw] at hc
    change w.handle env r failures = some v at hv
    rcases hc with hterm | hacc
    · simp [Worker.handle, hterm] at hv
    · have hstep := (h w hw).handle hacc hv
      rwa [← hv] at hstep

/-- As long as every answer leaves data and assignment in step, each gradient that the worker reports is that
of the rows of the shards it was given last, each row once, at the weights of an answer for that epoch, and
the sample count is the number of these rows. -/
theorem gradient_covers_assignment {wid : String} (h : Run (step env) Clean (init wid) x) {w : Worker F}
    (hw : x.worker = some w) (hg : w.request.hasGradient = true) :
    ∃ r ∈ x.replies, r.epoch = w.request.epoch ∧ ∃ rows : List (Row F),
      rows.Perm (x.latest.dedup.flatMap env.rows) ∧
      env.gradient r.weights rows = some w.request.gradient ∧ w.request.sampleCount = rows.length := by
  have hin : ∀ w, x.worker = some w → w.InStep env x := by
    refine Run.invariant (I := fun x => ∀ w, x.worker = some w → w.InStep env x) ?_ h ?_
    · intro x e y hx hc hs v hv
      exact step_inStep hx hc hs hv
    · rintro w hw
      obtain rfl := Option.some.inj hw
      exact ⟨rfl, ⟨rfl, List.nodup_nil⟩, fun s => Iff.rfl, fun report hrep => by cases hrep⟩
  have hst := hin w hw
  cases hp : w.pending with
  | none => simp [Worker.request, hp] at hg
  | some report =>
    obtain ⟨r, hr, he, rows, hrows, hgrad, hn⟩ := hst.pending report hp
    refine ⟨r, hr, ?_, rows, hst.latest ▸ hrows, ?_, ?_⟩
    · simpa [Worker.request, hp] using he
    · simpa [Worker.request, hp] using hgrad
    · simp [Worker.request, hp, hn]

end Employment

end Arithmetic

/-- Two files with a row each, of one feature. -/
def twoRows : Environment ℤ where
  files shard := if shard = "shard_0.csv" then [([3], 1)] else [([5], 0)]
  exp _ := 0

theorem gradient_covers_assignment_first : ∃ x : Employment ℤ, ∃ w, x.worker = some w ∧
    w.request.sampleCount = 1 ∧ ∃ rows : List (Row ℤ),
      rows.Perm (x.latest.dedup.flatMap twoRows.rows) ∧ w.request.sampleCount = rows.length := by
  obtain ⟨x, hx, hg⟩ := Run.exists_of_execute (guarded (Employment.step twoRows) Employment.Clean)
    (.init "1") [.fails, .answered ⟨["shard_0.csv"], 0, [0, 0], false⟩ [],
      .answered ⟨["shard_0.csv"], 1, [2, 1], false⟩ []]
    (fun x => x.worker.any fun w => w.request.hasGradient && w.request.sampleCount == 1) (by decide +kernel)
  obtain ⟨w, hw, hone⟩ := Option.any_eq_true _ _ |>.mp hg
  simp only [Bool.and_eq_true, beq_iff_eq] at hone
  obtain ⟨-, -, -, rows, hrows, -, hn⟩ := Employment.gradient_covers_assignment hx.of_guarded hw hone.1
  exact ⟨x, w, hw, hone.2, rows, hrows, hn⟩

/-- A coordinator that was started again gives the worker the other shard: the old row stays. -/
theorem gradient_covers_assignment_reassigned : ¬ ∀ (x : Employment ℤ) (w : Worker ℤ),
    Run (Employment.step twoRows) Free (.init "1") x → x.worker = some w → w.request.hasGradient = true →
      w.request.sampleCount = ((x.latest.dedup.flatMap twoRows.rows).length : ℤ) := by
  intro hall
  obtain ⟨x, hx, hg⟩ := Run.exists_of_execute (Employment.step twoRows) (.init "1")
    [.answered ⟨["shard_0.csv"], 0, [0, 0], false⟩ [], .answered ⟨["shard_1.csv"], 1, [0, 0], false⟩ []]
    (fun x => (x.worker.any fun w => w.request.hasGradient && w.request.sampleCount == 2) = true ∧
      (x.latest.dedup.flatMap twoRows.rows).length = 1) (by decide +kernel)
  obtain ⟨w, hw, hone⟩ := Option.any_eq_true _ _ |>.mp hg.1
  simp only [Bool.and_eq_true, beq_iff_eq] at hone
  have hcount := hall x w hx hw hone.1
  rw [hone.2, hg.2] at hcount
  omega

end DistributedStorage.Training
