import DistributedStorage.Files.LockTable

/-! What a lock keeps out: a Close looks the lock up once, before it writes. -/

namespace DistributedStorage.Files

open Library Library.Runs

set_option linter.unusedSectionVars false

namespace LockTable

variable {t : LockTable} {now later : ℚ} {f g : String}

/-- The second table has no lock on a file that the first has none on. -/
def Less (t u : LockTable) : Prop := ∀ f, (u.fileLocks f).isSome → (t.fileLocks f).isSome

lemma Less.refl (t : LockTable) : t.Less t := fun _ h => h

lemma cancel_less (t : LockTable) (timer : ℕ) : t.Less (t.cancel timer) := fun _ h => h

lemma takeNotifications_less (t : LockTable) (clientId : String) : t.Less (t.takeNotifications clientId).1 :=
  fun _ h => h

lemma Ends.less {t u : LockTable} {a : LockStep} (h : Ends t u f a) : t.Less u := by
  intro g hg
  cases h with
  | stays hlocks => rwa [hlocks] at hg
  | ends l _ _ hlocks =>
    rw [hlocks] at hg
    obtain ⟨m, hm⟩ := Option.isSome_iff_exists.mp hg
    exact Option.isSome_iff_exists.mpr ⟨m, (of_update_none hm).2⟩

lemma cleanupExpired_less (t : LockTable) (now : ℚ) (f : String) : t.Less (t.cleanupExpired now f) :=
  (t.cleanupExpired_ends now f (.autoRelease f "")).less

lemma autoRelease_less (t : LockTable) (now : ℚ) (f owner : String) : t.Less (t.autoRelease now f owner) :=
  (t.autoRelease_ends now f owner (.autoRelease f owner)).less

lemma unlock_less (t : LockTable) (now : ℚ) (f clientId : String) : t.Less (t.unlock now f clientId).1 :=
  (t.unlock_ends now f clientId).less

/-- LockFile locks at most the file it is called for, and only one that has no lock. -/
lemma lock_less (t : LockTable) (now later : ℚ) (f : String) (timeoutSeconds : ℤ) (clientId : String)
    (hg : ((t.lock now f later timeoutSeconds clientId).1.fileLocks g).isSome) :
    (t.fileLocks g).isSome ∨ g = f ∧ ((t.cleanupExpired now f).fileLocks f).isNone := by
  simp only [lock] at hg
  split at hg
  · exact .inl (cleanupExpired_less t now f g hg)
  · rename_i hnone
    dsimp only at hg
    rw [Function.update_apply] at hg
    split_ifs at hg with hgf
    · exact .inr ⟨hgf, by rw [hnone]; rfl⟩
    · exact .inl (cleanupExpired_less t now f g hg)

end LockTable

namespace LockSystem

open DSFSServicer

variable {ι : Type} [DecidableEq ι] {x y : LockSystem ι} {t : ι} {f : String}

lemma lookedUp_less (s : DSFSServicer) (table : LockTable) (now : ℚ) (c : Call) :
    table.Less (s.lookedUp table now c) := by
  simp only [lookedUp]
  split
  · exact table.cleanupExpired_less now _
  · exact .refl table

/-- No step of a Create. -/
def Plain : LockCall → Prop
  | .file (.create _) | .file (.createFile _) | .file (.createVersion _) => False
  | _ => True

lemma request_plain {c : LockCall} (hc : c.IsRequest) : Plain c ∧ ∀ f, ¬Commits f c := by
  cases c with
  | file c =>
    cases c with
    | openExists | close | testVersionNumber => exact ⟨trivial, fun f => id⟩
    | _ => exact absurd hc id
  | lockFile | unlockFile | getLockNotifications => exact ⟨trivial, fun f => id⟩
  | lockSection | autoRelease => exact absurd hc id

lemma run_plain {s : DSFSServicer} {c d : Call} (hc : Plain (.file c)) (h : (s.run c).2 = .goesOn d) :
    Plain (.file d) := by
  cases c with
  | create | createFile | createVersion => exact absurd hc id
  | openExists | openFetch =>
    simp only [run] at h
    split_ifs at h
    all_goals cases h
    all_goals trivial
  | openRead =>
    simp only [run] at h
    split at h
    all_goals cases h
    all_goals trivial
  | close =>
    simp only [run, closeHandle] at h
    split at h
    · cases h
    · split_ifs at h
      cases h
      trivial
  | closeVersion =>
    simp only [run] at h
    split_ifs at h
    cases h
    trivial
  | closeFile =>
    cases h
    trivial
  | openSection | closeUpdate | testVersionNumber => cases h

/-- While a file is locked the handlers change neither its content nor its version, and none gets to write
it, unless one is already about to. -/
lemma run_under {s : DSFSServicer} {table : LockTable} (hf : (table.fileLocks f).isSome) {c : Call}
    (hplain : Plain (.file c)) (hc : ¬Commits f (.file c)) :
    state ((s.under table).run c).1 f = state s f ∧
      ∀ d, ((s.under table).run c).2 = .goesOn d → ¬Commits f (.file d) := by
  cases c with
  | create | createFile | createVersion => exact absurd hplain id
  | openExists | openFetch =>
    simp only [run]
    split_ifs
    all_goals refine ⟨rfl, fun d hd => ?_⟩
    all_goals cases hd
    all_goals exact id
  | openRead =>
    simp only [run]
    split
    all_goals refine ⟨rfl, fun d hd => ?_⟩
    all_goals cases hd
    all_goals exact id
  | openSection g mode data =>
    obtain ⟨hcontent, hversion, -⟩ := (s.under table).openHandle_spec g mode data
    exact ⟨Prod.ext (hcontent f) (hversion f), fun d hd => by cases hd⟩
  | close n data =>
    simp only [run, closeHandle]
    split
    · exact ⟨rfl, fun d hd => by cases hd⟩
    · rename_i info hinfo
      split_ifs with hlocked
      · exact ⟨rfl, fun d hd => by cases hd⟩
      · refine ⟨rfl, fun d hd => ?_⟩
        cases hd
        intro hcommits
        refine hlocked ⟨hcommits.1, ?_⟩
        rw [hcommits.2]
        exact hf
  | closeVersion info data =>
    simp only [run]
    split_ifs with hmode
    · refine ⟨rfl, fun d hd => ?_⟩
      cases hd
      exact fun hcommits => hc ⟨hmode, hcommits⟩
    · exact ⟨rfl, fun d hd => by cases hd⟩
  | closeFile g data current =>
    have hg : f ≠ g := fun h => hc h.symm
    refine ⟨Prod.ext ?_ rfl, fun d hd => ?_⟩
    · exact writeFile_content.trans (if_neg hg)
    · cases hd
      exact hc
  | closeUpdate g data current =>
    have hg : f ≠ g := fun h => hc h.symm
    refine ⟨Prod.ext rfl ?_, fun d hd => by cases hd⟩
    exact setVersion_version.trans (if_neg hg)
  | testVersionNumber g => exact ⟨rfl, fun d hd => by cases hd⟩

/-- A locked file is as it was when it was locked, and no Close is about to write it. -/
structure Kept (x : LockSystem ι) : Prop where
  plain : ∀ u, ∀ d ∈ x.calls u, Plain d
  state : ∀ f, (x.table.fileLocks f).isSome → state x.server f = x.atGrant f
  clear : ∀ f, (x.table.fileLocks f).isSome → ∀ u, ∀ d ∈ x.calls u, ¬Commits f d

lemma init_kept (disk : String → Option FileData) : (init disk : LockSystem ι).Kept where
  plain u d hd := by cases hd
  state f hf := by cases hf
  clear f hf := by cases hf

lemma Kept.moves (h : x.Kept) {s : DSFSServicer} {table : LockTable} (hless : x.table.Less table)
    (hstate : ∀ f, (table.fileLocks f).isSome → LockSystem.state s f = LockSystem.state x.server f)
    (p : LockProgress) (hnext : ∀ d, p = .goesOn d → Plain d)
    (hclear : ∀ d, p = .goesOn d → ∀ f, (table.fileLocks f).isSome → ¬Commits f d) :
    (({ x with server := s, table := table } : LockSystem ι).settle t p).Kept := by
  have hcalls : ∀ u, ∀ d ∈ (({ x with server := s, table := table } : LockSystem ι).settle t p).calls u,
      d ∈ x.calls u ∨ p = .goesOn d := by
    intro u d hd
    cases p with
    | goesOn c =>
      obtain ⟨-, rfl⟩ | ⟨-, hd⟩ := of_update_some hd
      · exact .inr rfl
      · exact .inl hd
    | returns r => exact .inl (of_update_none hd).2
    | ends => exact .inl (of_update_none hd).2
  refine ⟨fun u d hd => ?_, fun f hf => ?_, fun f hf u d hd => ?_⟩
  · exact (hcalls u d hd).elim (h.plain u d) (hnext d)
  · have hf : (table.fileLocks f).isSome := by cases p <;> exact hf
    have hkept := (hstate f hf).trans (h.state f (hless f hf))
    cases p <;> exact hkept
  · have hf : (table.fileLocks f).isSome := by cases p <;> exact hf
    exact (hcalls u d hd).elim (h.clear f (hless f hf) u d) fun hp => hclear d hp f hf

lemma Kept.locks (h : x.Kept) {now later : ℚ} {f : String} {timeoutSeconds : ℤ} {clientId : String}
    (hclear : ∀ g ∈ grants x.table now (.lockSection f timeoutSeconds clientId), ∀ u, ∀ d ∈ x.calls u,
      ¬Commits g d) {r : LockReply} {atGrant : String → FileData × ℕ}
    (hgrant : atGrant = match grants x.table now (.lockSection f timeoutSeconds clientId) with
      | some f => Function.update x.atGrant f (LockSystem.state x.server f)
      | none => x.atGrant) :
    (({ x with
      table := (x.table.lock now f later timeoutSeconds clientId).1
      atGrant := atGrant } : LockSystem ι).settle t (.returns r)).Kept := by
  have hcalls : ∀ u, ∀ d ∈ Function.update x.calls t none u, d ∈ x.calls u := fun u d hd => (of_update_none hd).2
  by_cases hfree : ((x.table.cleanupExpired now f).fileLocks f).isNone
  · -- the lock is granted: what the file holds is what is written down now
    have hf : grants x.table now (.lockSection f timeoutSeconds clientId) = some f := if_pos hfree
    rw [hf] at hgrant hclear
    subst hgrant
    refine ⟨fun u d hd => h.plain u d (hcalls u d hd), fun g hg => ?_, fun g hg u d hd => ?_⟩
    · dsimp only [settle]
      rw [Function.update_apply]
      split_ifs with hgf
      · rw [hgf]
      · exact h.state g ((LockTable.lock_less _ _ _ _ _ _ hg).resolve_right fun hnew => hgf hnew.1)
    · obtain hold | ⟨rfl, -⟩ := LockTable.lock_less _ _ _ _ _ _ hg
      · exact h.clear g hold u d (hcalls u d hd)
      · exact hclear g rfl u d (hcalls u d hd)
  · have hf : grants x.table now (.lockSection f timeoutSeconds clientId) = none := if_neg hfree
    rw [hf] at hgrant
    subst hgrant
    have hold : ∀ g, ((x.table.lock now f later timeoutSeconds clientId).1.fileLocks g).isSome →
        (x.table.fileLocks g).isSome := fun g hg =>
      (LockTable.lock_less _ _ _ _ _ _ hg).resolve_right fun hnew => hfree hnew.2
    exact ⟨fun u d hd => h.plain u d (hcalls u d hd), fun g hg => h.state g (hold g hg),
      fun g hg u d hd => h.clear g (hold g hg) u d (hcalls u d hd)⟩

lemma Kept.handles (h : x.Kept) {c : Call} (hc : x.calls t = some (.file c)) (now later : ℚ) :
    (({ x with
      server := (x.server.turn x.table now later (.file c)).1
      table := (x.server.turn x.table now later (.file c)).2.1 } : LockSystem ι).settle t
        (x.server.turn x.table now later (.file c)).2.2).Kept := by
  have hless := lookedUp_less x.server x.table now c
  have hplain := h.plain t _ hc
  have hnext : ∀ d, ((x.server.under (x.server.lookedUp x.table now c)).run c).2 = .goesOn d →
      Plain (.file d) := fun d hd => run_plain hplain hd
  have hrun : ∀ f, ((x.server.lookedUp x.table now c).fileLocks f).isSome → _ := fun f hf =>
    run_under (s := x.server) hf hplain (h.clear f (hless f hf) t _ hc)
  simp only [turn]
  cases hout : (x.server.under (x.server.lookedUp x.table now c)).run c with
  | mk s p =>
    rw [hout] at hnext hrun
    cases p with
    | goesOn d =>
      refine h.moves hless (fun f hf => (hrun f hf).1) _ (fun d' hd => ?_) fun d' hd f hf => ?_
      · cases hd
        exact hnext d rfl
      · cases hd
        exact (hrun f hf).2 d rfl
    | returns r =>
      exact h.moves hless (fun f hf => (hrun f hf).1) _ (fun d hd => by cases hd) fun d hd => by cases hd

/-- The lock section of LockFile is the only step that locks a file. -/
lemma Kept.step (h : x.Kept) {a : LockLabel ι} (hc : x.Clear a) (hs : x.step a = some y) : y.Kept := by
  cases a with
  | call t c =>
    simp only [LockSystem.step] at hs
    split_ifs at hs with hrequest
    obtain rfl := Option.some.inj hs
    obtain ⟨hplain, hcommits⟩ := request_plain hrequest.2
    refine h.moves (.refl x.table) (fun _ _ => rfl) (.goesOn c) (fun d hd => ?_) fun d hd f _ => ?_
    · cases hd
      exact hplain
    · cases hd
      exact hcommits f
  | fire t timer =>
    simp only [LockSystem.step] at hs
    split_ifs at hs
    obtain rfl := Option.some.inj hs
    refine h.moves (x.table.cancel_less timer.id) (fun _ _ => rfl)
      (.goesOn (.autoRelease timer.filename timer.owner)) (fun d hd => ?_) fun d hd f _ => ?_
    · cases hd
      trivial
    · cases hd
      exact id
  | run t now later =>
    obtain ⟨c, hcall, rfl⟩ := Option.map_eq_some_iff.mp hs
    cases c with
    | file c => exact h.handles hcall now later
    | lockSection f timeoutSeconds clientId => exact h.locks (hc _ hcall) rfl
    | lockFile f timeoutSeconds clientId =>
      simp only [turn]
      split_ifs
      · exact h.moves (.refl x.table) (fun _ _ => rfl) _ (fun d hd => by cases hd) fun d hd => by cases hd
      · exact h.moves (.refl x.table) (fun _ _ => rfl) _ (fun d hd => by cases hd) fun d hd => by cases hd
      · refine h.moves (.refl x.table) (fun _ _ => rfl) _ (fun d hd => ?_) fun d hd f _ => ?_
        · cases hd
          trivial
        · cases hd
          exact id
    | unlockFile f clientId =>
      refine h.moves (x.table.unlock_less now f clientId) (fun _ _ => rfl) (.returns _) (fun d hd => ?_)
        fun d hd => ?_
      all_goals cases hd
    | getLockNotifications clientId =>
      refine h.moves (x.table.takeNotifications_less clientId) (fun _ _ => rfl)
        (.returns _) (fun d hd => ?_) fun d hd => ?_
      all_goals cases hd
    | autoRelease f owner =>
      refine h.moves (x.table.autoRelease_less now f owner) (fun _ _ => rfl) .ends (fun d hd => ?_)
        fun d hd => ?_
      all_goals cases hd

instance (f : String) (c : LockCall) : Decidable (Commits f c) :=
  match c with
  | .file (.closeVersion info _) => inferInstanceAs (Decidable (info.mode = "w" ∧ info.filename = f))
  | .file (.closeFile g _ _) | .file (.closeUpdate g _ _) => inferInstanceAs (Decidable (g = f))
  | .file (.create _) | .file (.createFile _) | .file (.createVersion _) | .file (.openExists ..)
  | .file (.openFetch ..) | .file (.openRead ..) | .file (.openSection ..) | .file (.close ..)
  | .file (.testVersionNumber _) | .lockFile .. | .lockSection .. | .unlockFile .. | .getLockNotifications _
  | .autoRelease .. => isFalse id

instance [Fintype ι] (x : LockSystem ι) (a : LockLabel ι) : Decidable (x.Clear a) :=
  match a with
  | .run t now _ => inferInstanceAs (Decidable (∀ c ∈ x.calls t, ∀ f ∈ grants x.table now c, ∀ u,
      ∀ d ∈ x.calls u, ¬Commits f d))
  | .call .. | .fire .. => isTrue trivial

section Threads

/-- Two threads, and a file of one byte. -/
def oneByte : LockSystem Bool := init fun f => if f = "a" then some [0] else none

/-- The thread `t` opens the file for writing. -/
def opening (t : Bool) : List (LockLabel Bool) :=
  .call t (.file (.openExists "a" "w" false)) :: List.replicate 3 (.run t 0 0)

def locking (t : Bool) : List (LockLabel Bool) := [.call t (.lockFile "a" 60 "c"), .run t 0 0, .run t 0 0]

end Threads

end LockSystem

end DistributedStorage.Files
