import DistributedStorage.Files.GrpcClient

/-! What the calls of a client on one file leave of another. A file whose name begins with that of the first
and `_v` loses its copies. -/

namespace DistributedStorage.Files

open Library Library.Runs

section Paths

open Library.Json

variable {f g : String}

lemma not_v_mem_suffix (w : ℕ) : 'v' ∉ digits w ++ ['.', 'b', 'i', 'n'] := by
  intro hv
  obtain hv | hv := List.mem_append.mp hv
  · exact absurd (digits_isDigit w 'v' hv) (by decide)
  · exact absurd hv (by decide)

/-- Where the name and `_v` end after the name of the other file they end in its `_v`, at its `v`. -/
lemma isCachedVersion_other (hfg : f ≠ g) (w : ℕ) :
    isCachedVersion f (cachePath g w) = true ↔ (f ++ "_v").toList <+: g.toList := by
  rw [isCachedVersion, Bool.and_eq_true, List.isPrefixOf_iff_prefix, List.isSuffixOf_iff_suffix,
    cachePath_toList, String.toList_append]
  constructor
  · rintro ⟨⟨k, hk⟩, -⟩
    simp only [List.append_assoc] at hk
    rw [← List.append_assoc] at hk
    obtain ⟨k', hg, -⟩ | ⟨c, hf, hrest⟩ := List.append_eq_append_iff.mp hk
    · exact ⟨k', hg.symm⟩
    · rcases c with - | ⟨a, - | ⟨b, - | ⟨c, rest⟩⟩⟩
      · exact ⟨[], by rw [hf, List.append_nil, List.append_nil]⟩
      · have hlast := congrArg List.getLast? hf
        simp at hlast
        simp [← hlast] at hrest
      · have hcut := List.append_inj_left' hf rfl
        exact absurd (String.toList_inj.mp hcut) hfg
      · have hlast := congrArg List.getLast? hf
        have hv : 'v' ∈ c :: rest := by
          apply List.mem_of_getLast?
          simpa using hlast.symm
        have hrest' : digits w ++ ['.', 'b', 'i', 'n'] = (c :: rest) ++ k := by
          simpa using (List.cons.inj (List.cons.inj hrest).2).2
        exact absurd (hrest' ▸ List.mem_append_left k hv) (not_v_mem_suffix w)
  · rintro ⟨k, hk⟩
    refine ⟨⟨k ++ ['_', 'v'] ++ digits w ++ ['.', 'b', 'i', 'n'], ?_⟩, ⟨g.toList ++ ['_', 'v'] ++ digits w, rfl⟩⟩
    rw [← hk]
    simp only [List.append_assoc]

end Paths

/-- What belongs to the file `g` at the client is the same. -/
structure Untouched (g : String) (k k' : DSFSClientStub) : Prop where
  copies : ∀ w, k'.cacheDir (cachePath g w) = k.cacheDir (cachePath g w)
  entry : k'.cacheMetadata g = k.cacheMetadata g
  handles : ∀ n h, h.filename = g → (k'.activeHandles n = some h ↔ k.activeHandles n = some h)

variable {f g : String} {k k' : DSFSClientStub}

lemma Untouched.refl (g : String) (k : DSFSClientStub) : Untouched g k k :=
  ⟨fun _ => rfl, rfl, fun _ _ _ => Iff.rfl⟩

lemma Untouched.trans {k'' : DSFSClientStub} (h : Untouched g k k') (h' : Untouched g k' k'') :
    Untouched g k k'' where
  copies w := (h'.copies w).trans (h.copies w)
  entry := h'.entry.trans h.entry
  handles n a ha := (h'.handles n a ha).trans (h.handles n a ha)

namespace DSFSClientStub

lemma deleteOldCachedVersions_other (h : ∀ w, isCachedVersion f (cachePath g w) = false) (keep : String) (w : ℕ) :
    (k.deleteOldCachedVersions f keep).cacheDir (cachePath g w) = k.cacheDir (cachePath g w) := by
  simp [deleteOldCachedVersions, h w]

lemma deleteOldCachedVersions_gone {e keep : String} (h : isCachedVersion f e = true) (hne : e ≠ keep) :
    (k.deleteOldCachedVersions f keep).cacheDir e = none :=
  if_pos ⟨h, hne⟩

/-- Giving out a handle for `f` that is not in use. -/
lemma opened_untouched (hfg : f ≠ g) (h : ∀ w, isCachedVersion f (cachePath g w) = false)
    {r : DSFSLogic.OpenResponse} (hnew : k.activeHandles r.fileHandle = none) (fetchData : Bool) :
    Untouched g k (k.opened f fetchData r) := by
  have hhandles : ∀ path n a, a.filename = g →
      (Function.update k.activeHandles r.fileHandle (some ⟨path, f⟩) n = some a ↔ k.activeHandles n = some a) := by
    intro path n a ha
    rw [Function.update_apply]
    split_ifs with hn
    · rw [hn, hnew]
      constructor
      · intro hsome
        cases hsome
        exact absurd ha hfg
      · intro hnone
        cases hnone
    · exact Iff.rfl
  simp only [opened]
  split
  · refine ⟨fun w => ?_, Function.update_of_ne hfg.symm _ _, hhandles _⟩
    refine (deleteOldCachedVersions_other h _ w).trans ?_
    exact Function.update_of_ne (fun hpath => hfg (cachePath_injective hpath).1.symm) _ _
  · split
    · exact ⟨fun w => rfl, rfl, hhandles _⟩
    · exact .refl g k

lemma closed_untouched (hfg : f ≠ g) (h : ∀ w, isCachedVersion f (cachePath g w) = false) {a : ActiveHandle}
    (ha : a.filename = f) {u : ℕ} (hpath : a.path = cachePath a.filename u) (v : ℕ) :
    Untouched g k (k.closed a v) where
  copies w := by
    have hother : ∀ u, cachePath g w ≠ cachePath f u := fun u hpath => hfg (cachePath_injective hpath).1.symm
    rw [ha] at hpath
    simp only [closed, ha]
    refine (deleteOldCachedVersions_other h _ w).trans ?_
    dsimp only
    split_ifs
    · rfl
    · rw [replace_dir, hpath, if_neg (hother u), if_neg (hother v)]
  entry := by
    rw [closed_cacheMetadata, ha]
    exact Function.update_of_ne hfg.symm _ _
  handles n b hb := by rw [closed_activeHandles]

lemma released_untouched (hfg : f ≠ g) (h : ∀ w, isCachedVersion f (cachePath g w) = false) {a : ActiveHandle}
    (ha : a.filename = f) {u : ℕ} (hpath : a.path = cachePath a.filename u) {n : ℤ}
    (hn : k.activeHandles n = some a) (v : ℕ) : Untouched g k (k.released n a v) := by
  have hgone : Untouched g k { k with activeHandles := Function.update k.activeHandles n none } := by
    refine ⟨fun _ => rfl, rfl, fun m b hb => ?_⟩
    dsimp only
    rw [Function.update_apply]
    split_ifs with hm
    · rw [hm, hn]
      constructor
      · intro hnone
        cases hnone
      · intro hsome
        cases hsome
        exact absurd (ha.symm.trans hb) hfg
    · exact Iff.rfl
  simp only [released]
  split_ifs
  · exact hgone.trans (closed_untouched hfg h ha hpath v)
  · exact hgone

lemma write_untouched (hfg : f ≠ g) {n : ℤ} {a : ActiveHandle} (hn : k.activeHandles n = some a)
    (ha : a.filename = f) {u : ℕ} (hpath : a.path = cachePath a.filename u) {offset : ℕ} {data : FileData}
    (hk : k.write n offset data = some k') : Untouched g k k' := by
  simp only [write, hn, Option.bind_some, Option.map_eq_some_iff] at hk
  obtain ⟨old, -, rfl⟩ := hk
  refine ⟨fun w => Function.update_of_ne (fun heq => ?_) _ _, rfl, fun _ _ _ => Iff.rfl⟩
  rw [hpath, ha] at heq
  exact hfg (cachePath_injective heq).1.symm

end DSFSClientStub

namespace GrpcSystem

variable {x y : GrpcSystem}

/-- The calls of the client are on `f`. -/
def On (f : String) (x : GrpcSystem) : GrpcCall → Prop
  | .testVersion filename _ => filename = f
  | .openFile _ => ∀ p ∈ x.pending, p.filename = f
  | .read handle _ _ | .write handle _ _ | .close handle _ =>
    ∀ h ∈ x.client.activeHandles handle, h.filename = f
  | .others _ | .lock .. => True

lemma opens_untouched (hfg : f ≠ g) (h : ∀ w, isCachedVersion f (cachePath g w) = false) (hx : x.Tidy)
    {p : PendingOpen} (hp : p.filename = f) (fate : Fate) : Untouched g x.client (x.opens p fate).client := by
  obtain ⟨s, -, -, ho⟩ | ⟨-, s, -, -, -, -, -, -, ho⟩ := opens_cases hx p fate
  · rw [ho]
    exact .refl g x.client
  · have hnew : x.client.activeHandles x.server.nextHandle = none := by
      by_contra hsome
      obtain ⟨a, ha⟩ := Option.ne_none_iff_exists'.mp hsome
      exact lt_irrefl _ (hx.handle _ a ha).1
    rw [ho]
    simp only [receives]
    split_ifs <;> exact DSFSClientStub.opened_untouched (hp.symm ▸ hfg) (hp.symm ▸ h) hnew _

lemma step_untouched (hfg : f ≠ g) (h : ∀ w, isCachedVersion f (cachePath g w) = false) (hx : x.Tidy)
    {c : GrpcCall} (hc : x.On f c) (hs : x.step c = some y) : Untouched g x.client y.client := by
  cases c with
  | testVersion filename mode =>
    simp only [GrpcSystem.step] at hs
    split_ifs at hs
    obtain rfl := Option.some.inj hs
    exact .refl g x.client
  | openFile fate =>
    obtain ⟨p, hp, rfl⟩ := Option.map_eq_some_iff.mp hs
    exact opens_untouched hfg h hx (hc p hp) fate
  | read n offset length =>
    simp only [GrpcSystem.step] at hs
    split_ifs at hs
    obtain ⟨-, -, rfl⟩ := Option.map_eq_some_iff.mp hs
    exact .refl g x.client
  | write n offset data =>
    simp only [GrpcSystem.step] at hs
    split_ifs at hs
    obtain ⟨k', hk, rfl⟩ := Option.map_eq_some_iff.mp hs
    obtain ⟨a, ha, -⟩ := Option.bind_eq_some_iff.mp hk
    obtain ⟨-, ⟨u, hpath⟩, -⟩ := hx.handle n a ha
    exact DSFSClientStub.write_untouched hfg ha (hc a ha) hpath hk
  | close n fate =>
    simp only [GrpcSystem.step] at hs
    split_ifs at hs
    obtain ⟨a, ha, rfl⟩ := Option.map_eq_some_iff.mp hs
    obtain ⟨-, ⟨u, hpath⟩, -⟩ := hx.handle n a ha
    obtain ⟨s, -, -, hclose⟩ | ⟨-, s, data, v, -, -, -, -, hclose⟩ := closes_cases hx ha fate
    · rw [hclose]
      exact .refl g x.client
    · rw [hclose]
      exact DSFSClientStub.released_untouched hfg h (hc a ha) hpath ha v
  | others c =>
    simp only [GrpcSystem.step] at hs
    split_ifs at hs
    obtain ⟨out, -, rfl⟩ := Option.map_eq_some_iff.mp hs
    exact .refl g x.client
  | lock filename locked =>
    obtain rfl := Option.some.inj hs
    exact .refl g x.client

lemma run_untouched (hfg : f ≠ g) (h : ∀ w, isCachedVersion f (cachePath g w) = false) (hx : x.Tidy)
    (hrun : Run step (On f) x y) : Untouched g x.client y.client :=
  Run.relation (I := Tidy) (R := fun x y => Untouched g x.client y.client) (fun x => .refl g x.client)
    (fun h h' => h.trans h') (fun _ _ _ hi _ hs => hi.step hs)
    (fun _ _ _ hi hc hs => step_untouched hfg h hi hc hs) hrun hx

/-- Nothing keeps a client from opening a file for writing that it has not opened before and that is not
locked. -/
lemma exists_download (hpending : x.pending = none) (hmeta : x.client.cacheMetadata f = none)
    (hlock : ∀ g, x.server.fileLocks g = false) : ∃ y, Run step (On f) x y ∧ y.pending = none ∧
      (∀ g, y.server.fileLocks g = false) ∧ y.client = x.client.opened f true
        ⟨x.server.nextHandle, x.server.content f, x.server.version f⟩ := by
  have hfetch : x.client.fetches f (x.server.version f) = true := by rw [DSFSClientStub.fetches, hmeta]
  have hask : x.step (.testVersion f "w") = some { x with pending := some ⟨f, "w", true⟩ } := by
    simp [GrpcSystem.step, hpending, hfetch]
  have hhandle : x.server.handle (.openExists f "w" true) =
      some (x.server.openHandle f "w" (some (x.server.content f))) :=
    DSFSServicer.handle_open_section (by decide) (by simp) true
  have hfree : ¬("w" = "w" ∧ x.server.fileLocks f = true) := by simp [hlock f]
  obtain ⟨-, -, hreply⟩ := x.server.openHandle_spec f "w" (some (x.server.content f))
  have hreply := (hreply.resolve_left fun ho => hfree ⟨ho.1, ho.2.1⟩).2
  have hlocks : (x.server.openHandle f "w" (some (x.server.content f))).1.fileLocks = x.server.fileLocks := by
    rw [DSFSServicer.openHandle, if_neg hfree]
    dsimp only
    split_ifs <;> rfl
  have hopen : step { x with pending := some ⟨f, "w", true⟩ } (.openFile .answered) =
      some (({ x with pending := some ⟨f, "w", true⟩ } : GrpcSystem).opens ⟨f, "w", true⟩ .answered) := rfl
  have hon : x.On f (.testVersion f "w") := rfl
  refine ⟨_, (Run.single hon hask).tail ?_ hopen, ?_⟩
  · intro p hp
    obtain rfl := Option.mem_some_iff.mp hp
    rfl
  · obtain ⟨s, hs⟩ : ∃ s, x.server.openHandle f "w" (some (x.server.content f)) =
        (s, .opened f x.server.nextHandle (some (x.server.content f)) (x.server.version f)) :=
      ⟨_, Prod.ext rfl hreply⟩
    rw [hs] at hlocks hhandle
    simp only [opens, hhandle, receives, if_true, reduceCtorEq, if_false]
    exact ⟨trivial, fun g => (congrFun hlocks g).trans (hlock g), rfl⟩

lemma opened_copy (k : DSFSClientStub) (r : DSFSLogic.OpenResponse) :
    (k.opened f true r).cacheDir (cachePath f r.serverVersion) = some r.fileData := by
  simp [DSFSClientStub.opened, DSFSClientStub.deleteOldCachedVersions]

lemma exists_touched (hfg : f ≠ g) (hname : (f ++ "_v").toList <+: g.toList) :
    ∃ x y, Run step Free (init (fun _ => none) fun _ => none) x ∧ x.pending = none ∧ Run step (On f) x y ∧
      x.client.cacheDir (cachePath g 1) = some [] ∧ y.client.cacheDir (cachePath g 1) = none := by
  obtain ⟨x, hx, hpending, hlock, hclient⟩ := exists_download (f := g)
    (x := init (fun _ => none) fun _ => none) rfl rfl fun _ => rfl
  have hmeta : x.client.cacheMetadata f = none := by
    rw [hclient]
    exact Function.update_of_ne hfg _ _
  obtain ⟨y, hy, -, -, hclient'⟩ := exists_download hpending hmeta hlock
  refine ⟨x, y, hx.free, hpending, hy, ?_, ?_⟩
  · rw [hclient]
    exact opened_copy _ _
  · rw [hclient']
    exact DSFSClientStub.deleteOldCachedVersions_gone ((isCachedVersion_other hfg 1).mpr hname)
      fun hpath => hfg (cachePath_injective hpath).1.symm

/-- Distinct names never share a path. Looking for the old copies of `f`, and any calls on `f`, leave
everything of `g` as it was if and only if the name `g` does not begin with `f` and `_v`. -/
theorem other_file_untouched_iff (hfg : f ≠ g) :
    (∀ v w, cachePath f v ≠ cachePath g w) ∧
    ((∀ (k : DSFSClientStub) v w, (k.deleteOldCachedVersions f (cachePath f v)).cacheDir (cachePath g w) =
        k.cacheDir (cachePath g w)) ↔ ¬(f ++ "_v").toList <+: g.toList) ∧
    ((∀ disk cacheDir x y, Run step Free (init disk cacheDir) x → x.pending = none → Run step (On f) x y →
        Untouched g x.client y.client) ↔ ¬(f ++ "_v").toList <+: g.toList) := by
  have hother : ¬(f ++ "_v").toList <+: g.toList → ∀ w, isCachedVersion f (cachePath g w) = false := by
    intro hname w
    rw [Bool.eq_false_iff]
    exact fun hcached => hname ((isCachedVersion_other hfg w).mp hcached)
  have hpath : ∀ v w, cachePath f v ≠ cachePath g w := fun v w hsame => hfg (cachePath_injective hsame).1
  refine ⟨hpath, ⟨fun h hname => ?_, fun hname k v w => ?_⟩, ⟨fun h hname => ?_, fun hname => ?_⟩⟩
  · have hkept := h ⟨fun _ => some [], fun _ => none, fun _ => none⟩ 1 1
    have hcached := (isCachedVersion_other hfg 1).mpr hname
    cases (DSFSClientStub.deleteOldCachedVersions_gone hcached (hpath 1 1).symm).symm.trans hkept
  · exact DSFSClientStub.deleteOldCachedVersions_other (hother hname) _ w
  · obtain ⟨x, y, hx, hpending, hrun, hcopy, hgone⟩ := exists_touched hfg hname
    cases (hgone.symm.trans ((h _ _ x y hx hpending hrun).copies 1)).trans hcopy
  · intro disk cacheDir x y hx _ hrun
    exact run_untouched hfg (hother hname)
      (Run.invariant (fun _ _ _ hx _ hs => Tidy.step hx hs) hx (init_tidy disk cacheDir)) hrun

theorem other_file_untouched_notes : (∀ v w, cachePath "a" v ≠ cachePath "b" w) ∧
    ∀ disk cacheDir x y, Run step Free (init disk cacheDir) x → x.pending = none → Run step (On "a") x y →
      Untouched "b" x.client y.client := by
  obtain ⟨hpath, -, hrun⟩ := other_file_untouched_iff (f := "a") (g := "b") (by decide)
  exact ⟨hpath, hrun.mpr (by decide)⟩

/-- After the file `a_v1` has been opened, the client opens `a`: the copy of `a_v1` is deleted. -/
theorem other_file_copy_deleted : ∃ x y : GrpcSystem,
    Run step Free (init (fun _ => none) fun _ => none) x ∧ x.pending = none ∧ Run step (On "a") x y ∧
      x.client.cacheDir "a_v1_v1.bin" = some [] ∧ y.client.cacheDir "a_v1_v1.bin" = none :=
  exists_touched (f := "a") (g := "a_v1") (by decide) (by decide)

end GrpcSystem

end DistributedStorage.Files
