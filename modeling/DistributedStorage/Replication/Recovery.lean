import DistributedStorage.Replication.Replicated

/-! A backup that restarts holds every acknowledged write, if nothing is acknowledged between the snapshot
it gets and the start of its server. -/

namespace DistributedStorage.Replication

open Library Library.Runs Files

namespace Cluster

variable {peers : List ℕ} {x : Cluster}

instance (x : Cluster) (t : ℕ) (c : Call) : Decidable (x.InOrder t c) :=
  match c with
  | .createFile f _ => inferInstanceAs (Decidable (x.primary.content f = []))
  | .createVersion f _ => inferInstanceAs (Decidable (x.primary.version f = 1))
  | .closeUpdate f data _ => inferInstanceAs (Decidable (x.primary.content f = data ∨
      ∃ p ∈ x.calls.items, p.1 ≠ t ∧ p.2.updates = some (f, x.primary.content f)))
  | .replicateCreateFile f _ (b :: _) => inferInstanceAs (Decidable ((x.backups b).content f = []))
  | .replicateCreateVersion f _ (b :: _) => inferInstanceAs (Decidable ((x.backups b).version f = 1))
  | .replicateWrite f _ newVersion _ (b :: _) => by
    simp only [InOrder]
    exact match x.phase b with
    | .down => isTrue trivial
    | .listening => inferInstanceAs (Decidable (_ ≤ newVersion))
    | .synced _ | .installed | .ready => inferInstanceAs (Decidable (newVersion ≤ x.backupVersion b f))
  | .replicateCreateFile _ _ [] | .replicateCreateVersion _ _ [] | .replicateWrite _ _ _ _ []
  | .create .. | .createRole .. | .createDedup .. | .createExists .. | .replicateCreate ..
  | .createStore .. | .open .. | .openRole .. | .openExists .. | .openFetch .. | .openRead ..
  | .openSection .. | .close .. | .closeLookup .. | .closeRole .. | .closeDedup .. | .closePop ..
  | .closeFile .. | .closeStore .. | .testVersionNumber .. => isTrue trivial

instance (x : Cluster) (a : Label) : Decidable (x.Orderly a) :=
  match a with
  | .run t => inferInstanceAs (Decidable (∀ c ∈ x.calls.get t, x.InOrder t c))
  | .sync _ => inferInstanceAs
      (Decidable (∀ p ∈ x.calls.items, ∀ u ∈ p.2.updates, x.primary.fileVersions u.1 = none))
  | .call .. | .install _ | .markReady _ | .listen _ => isTrue trivial

/-- Whether the backup `b`, once it serves, holds the version of the write or a later one, and the bytes if
it is that version. -/
def Recovered (x : Cluster) (b : ℕ) (w : String × FileData × ℕ) : Prop :=
  x.phase b = .listening → w.2.2 ≤ (x.backups b).version w.1 ∧
    ((x.backups b).version w.1 = w.2.2 → (x.backups b).disk w.1 = some w.2.1)

lemma run_replicated {s : StoredFiles} {leftover : ℕ → Option (String → Option FileData)}
    (h : Run (step peers) Orderly (init s leftover) x) :
    Replicated peers (fun b => leftover b = none) x :=
  h.invariant (fun _ _ _ hi hc hs => (hi.step hs hc).2) (init_replicated s leftover)

def emptyNote (filename : String) : Option FileData := if filename = "a" then some [] else none

def oneNote : StoredFiles where
  disk := emptyNote
  fileVersions f := (emptyNote f).map fun _ => 1
  positive f v hv := by
    obtain ⟨data, -, rfl⟩ := Option.map_eq_some_iff.mp hv
    exact Nat.one_pos
  present f v hv := by
    obtain ⟨data, hdata, rfl⟩ := Option.map_eq_some_iff.mp hv
    exact hdata ▸ rfl

def anonymous : Caller := ⟨"", 0⟩

/-- An Open for writing and a Close, to the end of the call, in the thread `t`; `n` backups. -/
def writes (t n : ℕ) (handle : ℤ) (data : FileData) : List Label :=
  [.call t (.open "a" "w" false)] ++ List.replicate 5 (.run t) ++ [.call t (.close handle data anonymous)] ++
    List.replicate (9 + n) (.run t)

end Cluster

end DistributedStorage.Replication
