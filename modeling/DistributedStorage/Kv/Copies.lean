import DistributedStorage.Kv.Linearizability

/-! Copies of values: a version names one value of a key in the whole cluster, whichever process read it and
whenever. -/

set_option linter.unusedSectionVars false

namespace DistributedStorage.Kv

open Library Library.LeaderLogs Library.Linearizability Raft Runs

variable {M : ℕ}

namespace Slot

/-- What can become of a key: the version grows with every write, and the value only goes when it does not. -/
def Follows (a b : Slot) : Prop :=
  a.version ≤ b.version ∧ (a.version = b.version → b.value = none ∨ b.value = a.value)

lemma Follows.refl (a : Slot) : Follows a a := ⟨le_rfl, fun _ => Or.inr rfl⟩

lemma Follows.trans {a b c : Slot} (h : Follows a b) (h' : Follows b c) : Follows a c := by
  refine ⟨h.1.trans h'.1, fun heq => ?_⟩
  have hab : a.version = b.version := le_antisymm h.1 (heq ▸ h'.1)
  rcases h'.2 (hab.symm.trans heq) with hnone | hsame
  · exact Or.inl hnone
  · rw [hsame]
    exact h.2 hab

end Slot

namespace Tables

lemma KeyStep.follows {key : String} {t t' : Tables} {f : Option Effect} (h : KeyStep key t t' f) :
    Slot.Follows (t.toMap key) (t'.toMap key) := by
  cases h with
  | kept hstore htombs =>
    have hsame : t'.toMap key = t.toMap key := by rw [toMap, toMap, slot, slot, hstore, htombs]
    rw [hsame]
    exact Slot.Follows.refl _
  | wrote value hstore _ _ =>
    have hnew : t'.toMap key = ⟨t.nextVersion key, some value⟩ := slot_some hstore
    rw [hnew, nextVersion_slot]
    refine ⟨Nat.le_succ _, fun heq => ?_⟩
    exact absurd heq (Nat.lt_succ_self _).ne
  | deleted cur hcur hstore htombs =>
    have hold : t.toMap key = ⟨cur.version, some cur.value⟩ := slot_some hcur
    have hnew : t'.toMap key = ⟨cur.version, none⟩ := by rw [toMap, slot_none hstore, htombs, Option.getD_some]
    rw [hold, hnew]
    exact ⟨le_rfl, fun _ => Or.inl rfl⟩

end Tables

lemma mapAfter_follows (key : String) {pre es : List Entry} (hop : ∀ e ∈ es, e.opType ≠ .snapshot)
    (hp : pre <+: es) : Slot.Follows (mapAfter M pre key) (mapAfter M es key) := by
  induction es using List.reverseRecOn with
  | nil =>
    rw [List.prefix_nil.mp hp]
    exact Slot.Follows.refl _
  | append_singleton es e ih =>
    rcases List.prefix_concat_iff.mp hp with rfl | hp
    · exact Slot.Follows.refl _
    · have hrest := ih (fun f hf => hop f (List.mem_append_left _ hf)) hp
      refine hrest.trans ?_
      rw [mapAfter, mapAfter, KVStateMachine.run_concat]
      exact (apply_keyStep key (hop e (by simp))).follows

/-- One version is one value. -/
lemma mapAfter_value {key : String} {pre pre' es : List Entry} (hop : ∀ e ∈ es, e.opType ≠ .snapshot)
    (hp : pre <+: es) (hp' : pre' <+: es) {x y : Bytes} (hx : (mapAfter M pre key).value = some x)
    (hy : (mapAfter M pre' key).value = some y)
    (hv : (mapAfter M pre key).version = (mapAfter M pre' key).version) : x = y := by
  have hsame : ∀ {a b : Slot} {u v : Bytes}, Slot.Follows a b → a.version = b.version → a.value = some u →
      b.value = some v → u = v := by
    intro a b u v hab heq hu hv
    rcases hab.2 heq with hnone | hval
    · rw [hnone] at hv
      cases hv
    · rw [hu, hv] at hval
      exact (Option.some.inj hval).symm
  rcases List.prefix_or_prefix_of_prefix hp hp' with hle | hle
  · have hfollows := mapAfter_follows (M := M) key (fun e he => hop e (hp'.subset he)) hle
    exact hsame hfollows hv hx hy
  · have hfollows := mapAfter_follows (M := M) key (fun e he => hop e (hp.subset he)) hle
    exact (hsame hfollows hv.symm hy hx).symm

variable {ι : Type} [DecidableEq ι] [Fintype ι] {address : ι → String}

namespace System

variable {s t : System ι}

/-- Read `h` of a key has read what a process had applied. -/
def Served (M : ℕ) (s : System ι) (h : ℕ) (value : Option Bytes × ℕ × Bool) : Prop :=
  ∃ i b key linearizable pre, .received h i b (.get key linearizable) ∈ s.history ∧ pre <+: s.applied i b ∧
    value = (mapAfter M pre key).read

lemma served {C : System ι → Event ι → Prop}
    (h : Run (System.step (kv loadCas M address)) C (init (kv loadCas M address)) s) {k : ℕ}
    {value : Option Bytes × ℕ × Bool} (hm : .replied k (.read value) ∈ s.history) : Served M s k value := by
  induction h with
  | refl => cases hm
  | @tail u v hrun he ih =>
    obtain ⟨e, -, hs⟩ := he
    have hc := step_change hs
    obtain ⟨new, hnew⟩ := hc.history
    have hgrow : ∀ {x}, x ∈ u.history → x ∈ v.history := fun hx => hnew ▸ List.mem_append_left _ hx
    rcases step_read hs hm with hold | ⟨hd, key, lin, hlive, -, hreq, hval⟩
    · obtain ⟨i, b, key, lin, pre, hrec, hpre, hvalue⟩ := ih hold
      exact ⟨i, b, key, lin, pre, hgrow hrec, hpre.trans (applied_mono hc.trace i b), hvalue⟩
    · obtain ⟨hh, hboot⟩ := live_eq hlive
      have hsound := sound hrun
      refine ⟨hd.node, hd.boot, key, lin, u.applied hd.node hd.boot,
        hgrow (hreq ▸ hsound.accounts.known k hd hh), applied_mono hc.trace _ _, ?_⟩
      rw [hval, hsound.sm hd.node, hboot, Tables.get_toMap]
      rfl

/-- What two processes have applied fits one log without snapshots. -/
lemma exists_log {s : System ι} (h : Reachable (kv loadCas M address) (Cluster.AtDelivery Cluster.Timely) s)
    {i j : ι} {b c : ℕ} {pre pre' : List Entry} (hp : pre <+: s.applied i b) (hp' : pre' <+: s.applied j c) :
    ∃ es, (∀ e ∈ es, e.opType ≠ .snapshot) ∧ pre <+: es ∧ pre' <+: es := by
  have hsound := sound h
  obtain ⟨a, ha⟩ := Cluster.safe (run_raft h)
  rcases applied_comparable ha i j b c with hle | hle
  · exact ⟨s.applied j c, fun e he => (hsound.plain j c e he).1, hp.trans hle, hp'⟩
  · exact ⟨s.applied i b, fun e he => (hsound.plain i b e he).1, hp, hp'.trans hle⟩

end System

end DistributedStorage.Kv
