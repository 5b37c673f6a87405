import DistributedStorage.Files.CacheCoherence
import DistributedStorage.Files.Versions

/-! One client of the gRPC file server, among the others and under the locks. Each request is answered before
the next one arrives. -/

namespace DistributedStorage.Files

open Library Library.Runs

namespace DSFSServicer

/-- A handler with nothing between its steps. -/
def finish : ℕ → DSFSServicer → Call → Option (DSFSServicer × Reply)
  | 0, _, _ => none
  | n + 1, s, c =>
    match s.run c with
    | (t, .goesOn c') => t.finish n c'
    | (t, .returns r) => some (t, r)

/-- No handler has more than four steps. -/
def handle (s : DSFSServicer) (c : Call) : Option (DSFSServicer × Reply) := s.finish 4 c

variable {s t : DSFSServicer} {c : Call} {r : Reply} {f mode : String} {fetchData : Bool} {n : ℤ} {data : FileData}

lemma finish_succ (k : ℕ) : s.finish (k + 1) c =
    match s.run c with
    | (t, .goesOn c') => t.finish k c'
    | (t, .returns r) => some (t, r) := rfl

lemma handle_open_section (hmode : ¬(mode ≠ "r" ∧ mode ≠ "w")) (hthere : ¬((s.disk f).isNone = true ∧ mode = "r"))
    (fetchData : Bool) : s.handle (.openExists f mode fetchData) =
      some (s.openHandle f mode (if fetchData then some (s.content f) else none)) := by
  simp only [handle, finish_succ, run, if_neg hmode, if_neg hthere]
  cases fetchData with
  | false => simp
  | true =>
    cases hdisk : s.disk f with
    | none => simp [hdisk, content]
    | some d => simp [hdisk, content]

lemma handle_open (s : DSFSServicer) (f mode : String) (fetchData : Bool) :
    (∃ m, s.handle (.openExists f mode fetchData) = some (s, .failed m)) ∨
    s.handle (.openExists f mode fetchData) =
      some (s.openHandle f mode (if fetchData then some (s.content f) else none)) := by
  by_cases hmode : mode ≠ "r" ∧ mode ≠ "w"
  · exact .inl ⟨_, by simp only [handle, finish_succ, run, if_pos hmode]; rfl⟩
  by_cases hmissing : (s.disk f).isNone = true ∧ mode = "r"
  · exact .inl ⟨_, by simp only [handle, finish_succ, run, if_neg hmode, if_pos hmissing]; rfl⟩
  exact .inr (handle_open_section hmode hmissing fetchData)

lemma handle_close (s : DSFSServicer) (n : ℤ) (data : FileData) :
    (∃ m, s.handle (.close n data) = some (s, .failed m)) ∨ ∃ info, s.openFiles n = some info ∧
      s.handle (.close n data) = some (
        let t := { s with openFiles := Function.update s.openFiles n none }
        let v := s.version info.filename
        if info.mode = "w" then
          ((t.writeFile info.filename data).setVersion info.filename (v + 1),
            .closed info.filename (some data) (v + 1))
        else (t, .closed info.filename none 0)) := by
  cases hinfo : s.openFiles n with
  | none => exact .inl ⟨_, by simp only [handle, finish_succ, run, closeHandle, hinfo]; rfl⟩
  | some info =>
    by_cases hlocked : info.mode = "w" ∧ s.fileLocks info.filename = true
    · exact .inl ⟨_, by simp only [handle, finish_succ, run, closeHandle, hinfo, if_pos hlocked]; rfl⟩
    · refine .inr ⟨info, rfl, ?_⟩
      simp only [handle, finish_succ, run, closeHandle, hinfo, if_neg hlocked]
      by_cases hmode : info.mode = "w"
      · simp only [if_pos hmode]
        rfl
      · simp only [if_neg hmode]

lemma handle_create (s : DSFSServicer) (f : String) :
    (∃ m, s.handle (.create f) = some (s, .failed m)) ∨
    s.disk f = none ∧ s.handle (.create f) = some ((s.writeFile f []).setVersion f 1, .created f) := by
  by_cases hthere : (s.disk f).isSome = true
  · exact .inl ⟨_, by simp only [handle, finish_succ, run, if_pos hthere]; rfl⟩
  · refine .inr ⟨Option.not_isSome_iff_eq_none.mp hthere, ?_⟩
    simp only [handle, finish_succ, run, if_neg hthere]

lemma handle_testVersionNumber (s : DSFSServicer) (f : String) :
    s.handle (.testVersionNumber f) = some (s, .version f (s.version f)) := rfl

/-- Only a file that is there has a version, and handles are handed out upwards. -/
structure Sound (s : DSFSServicer) : Prop where
  absent : ∀ f, s.disk f = none → s.fileVersions f = none
  fresh : ∀ n, s.openFiles n ≠ none → n < s.nextHandle

/-- What the server keeps over time: a handle that is known is not handed out again, and a file is the same
or has a higher version. -/
structure Later (s t : DSFSServicer) : Prop where
  next : s.nextHandle ≤ t.nextHandle
  opened : ∀ n, n < s.nextHandle → ∀ info, t.openFiles n = some info → s.openFiles n = some info
  version : ∀ f, s.version f < t.version f ∨ t.version f = s.version f ∧ t.content f = s.content f

lemma Later.refl : Later s s := ⟨Int.le_refl _, fun _ _ _ h => h, fun _ => .inr ⟨rfl, rfl⟩⟩

/-- What the lock section of Open leaves at the server and answers. -/
lemma openHandle_later (h : s.Sound) (f mode : String) (d : Option FileData) : (s.openHandle f mode d).1.Sound ∧
    Later s (s.openHandle f mode d).1 ∧ ((∃ m, (s.openHandle f mode d).2 = .failed m) ∨
      (s.openHandle f mode d).2 = .opened f s.nextHandle d (s.version f) ∧
      s.nextHandle < (s.openHandle f mode d).1.nextHandle ∧
      (s.openHandle f mode d).1.openFiles s.nextHandle = some ⟨f, mode⟩) := by
  obtain ⟨hcontent, hversion, hreply⟩ := s.openHandle_spec f mode d
  have hsame : ∀ g, s.version g < (s.openHandle f mode d).1.version g ∨
      (s.openHandle f mode d).1.version g = s.version g ∧ (s.openHandle f mode d).1.content g = s.content g :=
    fun g => .inr ⟨hversion g, hcontent g⟩
  by_cases hlocked : mode = "w" ∧ s.fileLocks f = true
  · have hs : (s.openHandle f mode d).1 = s := by rw [openHandle, if_pos hlocked]
    rw [hs]
    exact ⟨h, Later.refl, .inl ⟨_, (hreply.resolve_right fun ho => ho.1 hlocked).2.2⟩⟩
  have hnext : (s.openHandle f mode d).1.nextHandle = s.nextHandle + 1 := by
    rw [openHandle, if_neg hlocked]
    dsimp only
    split_ifs <;> rfl
  have hopen : (s.openHandle f mode d).1.openFiles =
      Function.update s.openFiles s.nextHandle (some ⟨f, mode⟩) := by
    rw [openHandle, if_neg hlocked]
    dsimp only
    split_ifs <;> rfl
  have hdisk : (s.openHandle f mode d).1.disk = s.disk := by
    rw [openHandle, if_neg hlocked]
    dsimp only
    split_ifs <;> rfl
  refine ⟨⟨fun g hg => ?_, fun n hn => ?_⟩, ⟨by omega, fun n hn info hi => ?_, hsame⟩, .inr ⟨?_, by omega, ?_⟩⟩
  · rw [hdisk] at hg
    rw [openHandle, if_neg hlocked]
    dsimp only
    split_ifs with hfirst
    · have hgf : g ≠ f := by
        rintro rfl
        rw [hg] at hfirst
        exact absurd hfirst.2 Bool.false_ne_true
      exact (Function.update_of_ne hgf _ _).trans (h.absent g hg)
    · exact h.absent g hg
  · rw [hopen, Function.update_apply] at hn
    rw [hnext]
    split_ifs at hn with hsome
    · omega
    · exact Int.lt_add_one_of_le (Int.le_of_lt (h.fresh n hn))
  · rwa [hopen, Function.update_of_ne (Int.ne_of_lt hn)] at hi
  · exact (hreply.resolve_left fun ho => hlocked ⟨ho.1, ho.2.1⟩).2
  · rw [hopen, Function.update_self]

lemma commit_later (h : s.Sound) (f : String) (n : ℤ) (data : FileData) :
    let t := (({ s with openFiles := Function.update s.openFiles n none } : DSFSServicer).writeFile f
      data).setVersion f (s.version f + 1)
    t.Sound ∧ Later s t ∧ t.version f = s.version f + 1 ∧ t.content f = data := by
  intro t
  have hversion : ∀ g, t.version g = if g = f then s.version f + 1 else s.version g := fun g => setVersion_version
  have hcontent : ∀ g, t.content g = if g = f then data else s.content g := fun g => writeFile_content
  have hleft : ∀ m info, t.openFiles m = some info → s.openFiles m = some info := by
    intro m info hm
    exact (of_update_none hm).2
  refine ⟨⟨fun g hg => ?_, fun m hm => ?_⟩, ⟨Int.le_refl _, fun m _ => hleft m, fun g => ?_⟩, ?_, ?_⟩
  · change Function.update s.disk f (some data) g = none at hg
    change Function.update s.fileVersions f (some (s.version f + 1)) g = none
    rw [Function.update_apply] at hg ⊢
    split_ifs at hg with hgf
    rw [if_neg hgf]
    exact h.absent g hg
  · obtain ⟨info, hi⟩ := Option.ne_none_iff_exists'.mp hm
    exact h.fresh m (by rw [hleft m info hi]; exact Option.some_ne_none info)
  · rw [hversion, hcontent]
    split_ifs with hgf
    · rw [hgf]
      exact .inl (Nat.lt_succ_self _)
    · exact .inr ⟨rfl, rfl⟩
  · rw [hversion, if_pos rfl]
  · rw [hcontent, if_pos rfl]

lemma release_later (h : s.Sound) (n : ℤ) :
    Sound { s with openFiles := Function.update s.openFiles n none } ∧
      Later s { s with openFiles := Function.update s.openFiles n none } := by
  have hleft : ∀ m info, Function.update s.openFiles n none m = some info → s.openFiles m = some info := by
    intro m info hm
    exact (of_update_none hm).2
  refine ⟨⟨h.absent, fun m hm => ?_⟩, ⟨Int.le_refl _, fun m _ => hleft m, fun g => .inr ⟨rfl, rfl⟩⟩⟩
  obtain ⟨info, hi⟩ := Option.ne_none_iff_exists'.mp hm
  exact h.fresh m (by rw [hleft m info hi]; exact Option.some_ne_none info)

/-- A new file has the first version and no bytes, as it had before. -/
lemma create_later (h : s.Sound) (hf : s.disk f = none) :
    ((s.writeFile f []).setVersion f 1).Sound ∧ Later s ((s.writeFile f []).setVersion f 1) := by
  have hone : s.version f = 1 := by rw [version, h.absent f hf]; rfl
  refine ⟨⟨fun g hg => ?_, h.fresh⟩, ⟨Int.le_refl _, fun _ _ _ hi => hi, fun g => .inr ⟨?_, ?_⟩⟩⟩
  · change Function.update s.disk f (some []) g = none at hg
    change Function.update s.fileVersions f (some 1) g = none
    rw [Function.update_apply] at hg ⊢
    split_ifs at hg with hgf
    rw [if_neg hgf]
    exact h.absent g hg
  · rw [setVersion_version, writeFile_version]
    split_ifs with hgf
    · rw [hgf, hone]
    · rfl
  · rw [setVersion_content, writeFile_content]
    split_ifs with hgf
    · rw [hgf, content, hf]
      rfl
    · rfl

lemma handle_later (h : s.Sound) (hc : c.IsRequest) (hr : s.handle c = some (t, r)) : t.Sound ∧ Later s t := by
  cases c with
  | create f =>
    obtain ⟨m, hfail⟩ | ⟨hf, hdone⟩ := s.handle_create f
    · cases hfail.symm.trans hr
      exact ⟨h, Later.refl⟩
    · cases hdone.symm.trans hr
      exact create_later h hf
  | openExists f mode fetchData =>
    obtain ⟨m, hfail⟩ | hdone := s.handle_open f mode fetchData
    · cases hfail.symm.trans hr
      exact ⟨h, Later.refl⟩
    · have hopen := openHandle_later h f mode (if fetchData then some (s.content f) else none)
      rw [Option.some.inj (hdone.symm.trans hr)] at hopen
      exact ⟨hopen.1, hopen.2.1⟩
  | close n data =>
    obtain ⟨m, hfail⟩ | ⟨info, -, hdone⟩ := s.handle_close n data
    · cases hfail.symm.trans hr
      exact ⟨h, Later.refl⟩
    · by_cases hmode : info.mode = "w"
      · simp only [if_pos hmode] at hdone
        cases hdone.symm.trans hr
        obtain ⟨hsound, hlater, -⟩ := commit_later h info.filename n data
        exact ⟨hsound, hlater⟩
      · simp only [if_neg hmode] at hdone
        cases hdone.symm.trans hr
        exact release_later h n
  | testVersionNumber f =>
    cases (s.handle_testVersionNumber f).symm.trans hr
    exact ⟨h, Later.refl⟩
  | createFile _ | createVersion _ | openFetch | openRead | openSection | closeVersion | closeFile | closeUpdate =>
    exact absurd hc id

lemma handle_opened (h : s.Sound) {g : String} {d : Option FileData} {v : ℕ}
    (hr : s.handle (.openExists f mode fetchData) = some (t, .opened g n d v)) :
    n = s.nextHandle ∧ d = (if fetchData then some (s.content f) else none) ∧ v = s.version f ∧
      n < t.nextHandle ∧ t.openFiles n = some ⟨f, mode⟩ ∧ (∀ g, t.version g = s.version g) ∧
      ∀ g, t.content g = s.content g := by
  obtain ⟨m, hfail⟩ | hdone := s.handle_open f mode fetchData
  · cases hfail.symm.trans hr
  · have hopen := openHandle_later h f mode (if fetchData then some (s.content f) else none)
    have hsame := s.openHandle_spec f mode (if fetchData then some (s.content f) else none)
    rw [Option.some.inj (hdone.symm.trans hr)] at hopen hsame
    obtain ⟨-, -, ⟨m, hm⟩ | ⟨hreply, hlt, hinfo⟩⟩ := hopen
    · cases hm
    · cases hreply
      exact ⟨rfl, rfl, rfl, hlt, hinfo, hsame.2.1, hsame.1⟩

/-- What a Close that succeeds answers: 0 when the handle was not open for writing. -/
lemma handle_closed (h : s.Sound) {g : String} {d : Option FileData} {v : ℕ}
    (hr : s.handle (.close n data) = some (t, .closed g d v)) :
    ∃ info, s.openFiles n = some info ∧
      (info.mode = "w" ∧ 0 < v ∧ t.version info.filename = v ∧ t.content info.filename = data ∨ v = 0) := by
  obtain ⟨m, hfail⟩ | ⟨info, hinfo, hdone⟩ := s.handle_close n data
  · cases hfail.symm.trans hr
  · refine ⟨info, hinfo, ?_⟩
    by_cases hmode : info.mode = "w"
    · simp only [if_pos hmode] at hdone
      cases hdone.symm.trans hr
      obtain ⟨-, -, hversion, hcontent⟩ := commit_later h info.filename n data
      exact .inl ⟨hmode, Nat.succ_pos _, hversion, hcontent⟩
    · simp only [if_neg hmode] at hdone
      cases hdone.symm.trans hr
      exact .inr rfl

end DSFSServicer

namespace DSFSClientStub

/-- The bytes in the local file of a handle. -/
def copy (k : DSFSClientStub) (handle : ℤ) : Option FileData :=
  (k.activeHandles handle).bind fun h => k.cacheDir h.path

/-- What the gRPC client does with the answer to a Close; only then does it give up the handle. -/
def released (k : DSFSClientStub) (handle : ℤ) (h : ActiveHandle) (newVersion : ℕ) : DSFSClientStub :=
  let t := { k with activeHandles := Function.update k.activeHandles handle none }
  if 0 < newVersion then t.closed h newVersion else t

end DSFSClientStub

/-- How a request of the client fares: it may be lost, or its answer. -/
inductive Fate
  | answered
  | unsent
  | unheard
  deriving DecidableEq

/-- What the local file of a new handle holds that was opened without a download, and what the server holds
then. -/
structure Hit where
  copy : Option FileData
  held : FileData
  deriving DecidableEq

/-- `saved f` is what the client's copy of `f` was last downloaded or committed with. -/
structure GrpcSystem where
  server : DSFSServicer
  client : DSFSClientStub
  pending : Option PendingOpen
  saved : String → FileData
  hits : List Hit

inductive GrpcCall
  | testVersion (filename mode : String)
  | openFile (fate : Fate)
  | read (handle : ℤ) (offset length : ℕ)
  | write (handle : ℤ) (offset : ℕ) (data : FileData)
  | close (handle : ℤ) (fate : Fate)
  | others (c : Call)
  | lock (filename : String) (locked : Bool)

namespace GrpcSystem

/-- The cache directory may hold files from before. -/
def init (disk cacheDir : String → Option FileData) : GrpcSystem where
  server := .new disk
  client := ⟨cacheDir, fun _ => none, fun _ => none⟩
  pending := none
  saved _ := []
  hits := []

/-- The client has its answer to an Open. -/
def receives (x : GrpcSystem) (p : PendingOpen) (r : DSFSLogic.OpenResponse) : GrpcSystem :=
  let c := x.client.opened p.filename p.fetchData r
  if p.fetchData then
    { x with client := c, saved := Function.update x.saved p.filename r.fileData }
  else { x with client := c, hits := x.hits ++ [⟨c.copy r.fileHandle, x.server.content p.filename⟩] }

def opens (x : GrpcSystem) (p : PendingOpen) (fate : Fate) : GrpcSystem :=
  let y := { x with pending := none }
  if fate = .unsent then y
  else
    match x.server.handle (.openExists p.filename p.mode p.fetchData) with
    | some (s, .opened _ handle data v) =>
      let z := { y with server := s }
      if fate = .unheard then z else z.receives p ⟨handle, data.getD [], v⟩
    | some (s, _) => { y with server := s }
    | none => y

/-- The file a handle leads to is read first; it may be gone. -/
def closes (x : GrpcSystem) (handle : ℤ) (h : ActiveHandle) (fate : Fate) : GrpcSystem :=
  match x.client.cacheDir h.path with
  | none => x
  | some data =>
    if fate = .unsent then x
    else
      match x.server.handle (.close handle data) with
      | some (s, .closed _ _ v) =>
        let y := { x with server := s }
        if fate = .unheard then y
        else
          { y with
            client := y.client.released handle h v
            saved := if 0 < v then Function.update y.saved h.filename data else y.saved }
      | some (s, _) => { x with server := s }
      | none => x

/-- A client makes one call at a time. -/
def step (x : GrpcSystem) : GrpcCall → Option GrpcSystem
  | .testVersion f mode =>
    if x.pending.isNone ∧ (mode = "r" ∨ mode = "w") then
      some { x with pending := some ⟨f, mode, x.client.fetches f (x.server.version f)⟩ }
    else none
  | .openFile fate => x.pending.map fun p => x.opens p fate
  | .read handle offset length =>
    if x.pending.isNone then (x.client.read handle offset length).map fun _ => x else none
  | .write handle offset data =>
    if x.pending.isNone then (x.client.write handle offset data).map fun c => { x with client := c } else none
  | .close handle fate =>
    if x.pending.isNone then (x.client.activeHandles handle).map fun h => x.closes handle h fate else none
  | .others c =>
    if c.IsRequest then (x.server.handle c).map fun out => { x with server := out.1 } else none
  | .lock f locked =>
    some { x with server := { x.server with fileLocks := Function.update x.server.fileLocks f locked } }

/-- A handle leads to a copy of the file it was opened for, and so does the metadata. -/
structure Tidy (x : GrpcSystem) : Prop where
  sound : x.server.Sound
  handle : ∀ n h, x.client.activeHandles n = some h →
    n < x.server.nextHandle ∧ (∃ v, h.path = cachePath h.filename v) ∧
      ∀ info, x.server.openFiles n = some info → info.filename = h.filename
  path : ∀ f e, x.client.cacheMetadata f = some e → e.path = cachePath f e.version
  known : ∀ p ∈ x.pending, p.fetchData = false → x.client.cacheMetadata p.filename ≠ none

lemma init_tidy (disk cacheDir : String → Option FileData) : (init disk cacheDir).Tidy where
  sound := ⟨fun _ _ => rfl, fun n hn => absurd rfl hn⟩
  handle n h hn := by cases hn
  path f e he := by cases he
  known p hp := by cases hp

variable {x y : GrpcSystem}

lemma Tidy.later (h : x.Tidy) {s : DSFSServicer} (hs : s.Sound) (hlater : x.server.Later s) :
    Tidy { x with server := s } where
  sound := hs
  handle n a ha := by
    obtain ⟨hlt, hpath, hinfo⟩ := h.handle n a ha
    exact ⟨Int.lt_of_lt_of_le hlt hlater.next, hpath, fun info hi => hinfo info (hlater.opened n hlt info hi)⟩
  path := h.path
  known := h.known

lemma Tidy.receives (h : x.Tidy) {p : PendingOpen} {r : DSFSLogic.OpenResponse}
    (hnew : r.fileHandle < x.server.nextHandle)
    (hinfo : ∀ info, x.server.openFiles r.fileHandle = some info → info.filename = p.filename)
    (hpending : x.pending = none) : (x.receives p r).Tidy := by
  obtain ⟨f, mode, fetchData⟩ := p
  cases fetchData with
  | true =>
    refine ⟨h.sound, fun n a ha => ?_, fun g e he => ?_, fun q hq => ?_⟩
    · obtain ⟨rfl, rfl⟩ | ⟨-, ha⟩ := of_update_some ha
      · exact ⟨hnew, ⟨_, rfl⟩, hinfo⟩
      · exact h.handle n a ha
    · obtain ⟨rfl, rfl⟩ | ⟨-, he⟩ := of_update_some he
      · rfl
      · exact h.path g e he
    · exact absurd (hpending.symm.trans hq) (Option.some_ne_none q).symm
  | false =>
    have hmeta : ((x.receives ⟨f, mode, false⟩ r).client.cacheMetadata) = x.client.cacheMetadata := by
      change (x.client.opened f false r).cacheMetadata = _
      simp only [DSFSClientStub.opened, Bool.false_eq_true, if_false]
      split <;> rfl
    refine ⟨h.sound, fun n a ha => ?_, fun g e he => h.path g e (hmeta ▸ he), fun q hq => ?_⟩
    · change (x.client.opened f false r).activeHandles n = some a at ha
      simp only [DSFSClientStub.opened, Bool.false_eq_true, if_false] at ha
      split at ha
      · rename_i e he
        obtain ⟨rfl, rfl⟩ | ⟨-, ha⟩ := of_update_some ha
        · exact ⟨hnew, ⟨_, h.path f e he⟩, hinfo⟩
        · exact h.handle n a ha
      · exact h.handle n a ha
    · exact absurd (hpending.symm.trans hq) (Option.some_ne_none q).symm

lemma Tidy.idle (h : x.Tidy) : Tidy { x with pending := none } :=
  ⟨h.sound, h.handle, h.path, fun p hp => by cases hp⟩

lemma opens_cases (h : x.Tidy) (p : PendingOpen) (fate : Fate) :
    (∃ s, s.Sound ∧ x.server.Later s ∧ x.opens p fate = { x with server := s, pending := none }) ∨
    fate = .answered ∧ ∃ s, s.Sound ∧ x.server.Later s ∧ x.server.nextHandle < s.nextHandle ∧
      s.openFiles x.server.nextHandle = some ⟨p.filename, p.mode⟩ ∧
      (∀ f, s.version f = x.server.version f) ∧ (∀ f, s.content f = x.server.content f) ∧
      x.opens p fate = ({ x with server := s, pending := none } : GrpcSystem).receives p
        ⟨x.server.nextHandle, if p.fetchData then x.server.content p.filename else [],
          x.server.version p.filename⟩ := by
  cases hr : x.server.handle (.openExists p.filename p.mode p.fetchData) with
  | none =>
    refine .inl ⟨x.server, h.sound, .refl, ?_⟩
    simp only [GrpcSystem.opens, hr, ite_self]
  | some out =>
    obtain ⟨s, r⟩ := out
    obtain ⟨hs, hlater⟩ := DSFSServicer.handle_later h.sound (by trivial) hr
    cases fate with
    | unsent => exact .inl ⟨x.server, h.sound, .refl, rfl⟩
    | unheard =>
      refine .inl ⟨s, hs, hlater, ?_⟩
      cases r <;> simp [GrpcSystem.opens, hr]
    | answered =>
      cases r with
      | opened g n d v =>
        obtain ⟨rfl, rfl, rfl, hlt, hinfo, hversion, hcontent⟩ := DSFSServicer.handle_opened h.sound hr
        refine .inr ⟨rfl, s, hs, hlater, hlt, hinfo, hversion, hcontent, ?_⟩
        have hdata : (if p.fetchData then some (x.server.content p.filename) else none).getD [] =
            if p.fetchData then x.server.content p.filename else [] := by split_ifs <;> rfl
        simp [GrpcSystem.opens, hr, hdata]
      | created _ | closed | version | failed _ =>
        refine .inl ⟨s, hs, hlater, ?_⟩
        simp [GrpcSystem.opens, hr]

lemma Tidy.opens (h : x.Tidy) (p : PendingOpen) (fate : Fate) : (x.opens p fate).Tidy := by
  obtain ⟨s, hs, hlater, hx⟩ | ⟨-, s, hs, hlater, hlt, hinfo, -, -, hx⟩ := opens_cases h p fate
  · rw [hx]
    exact h.idle.later hs hlater
  · rw [hx]
    refine (h.idle.later hs hlater).receives hlt (fun info hi => ?_) rfl
    cases hinfo.symm.trans hi
    rfl

lemma Tidy.released (h : x.Tidy) {n : ℤ} {a : ActiveHandle} (v : ℕ) {saved : String → FileData}
    (hpending : x.pending = none) :
    Tidy { x with client := x.client.released n a v, saved := saved } := by
  have hactive : (x.client.released n a v).activeHandles = Function.update x.client.activeHandles n none := by
    simp only [DSFSClientStub.released]
    split_ifs
    · exact DSFSClientStub.closed_activeHandles
    · rfl
  refine ⟨h.sound, fun m b hb => ?_, fun f e he => ?_, fun q hq => ?_⟩
  · rw [hactive] at hb
    exact h.handle m b (of_update_none hb).2
  · simp only [DSFSClientStub.released] at he
    split_ifs at he
    · rw [DSFSClientStub.closed_cacheMetadata] at he
      obtain ⟨rfl, rfl⟩ | ⟨-, he⟩ := of_update_some he
      · rfl
      · exact h.path f e he
    · exact h.path f e he
  · exact absurd (hpending.symm.trans hq) (Option.some_ne_none q).symm

lemma closes_cases (h : x.Tidy) {n : ℤ} {a : ActiveHandle} (ha : x.client.activeHandles n = some a)
    (fate : Fate) :
    (∃ s, s.Sound ∧ x.server.Later s ∧ x.closes n a fate = { x with server := s }) ∨
    fate = .answered ∧ ∃ s data v, s.Sound ∧ x.server.Later s ∧ x.client.cacheDir a.path = some data ∧
      (0 < v → s.version a.filename = v ∧ s.content a.filename = data) ∧
      x.closes n a fate = { x with
        server := s
        client := x.client.released n a v
        saved := if 0 < v then Function.update x.saved a.filename data else x.saved } := by
  cases hdata : x.client.cacheDir a.path with
  | none =>
    refine .inl ⟨x.server, h.sound, .refl, ?_⟩
    simp only [GrpcSystem.closes, hdata]
  | some data =>
    cases hr : x.server.handle (.close n data) with
    | none =>
      refine .inl ⟨x.server, h.sound, .refl, ?_⟩
      simp only [GrpcSystem.closes, hdata, hr, ite_self]
    | some out =>
      obtain ⟨s, r⟩ := out
      obtain ⟨hs, hlater⟩ := DSFSServicer.handle_later h.sound (by trivial) hr
      cases fate with
      | unsent =>
        refine .inl ⟨x.server, h.sound, .refl, ?_⟩
        simp [GrpcSystem.closes, hdata]
      | unheard =>
        refine .inl ⟨s, hs, hlater, ?_⟩
        cases r <;> simp [GrpcSystem.closes, hdata, hr]
      | answered =>
        cases r with
        | closed g d v =>
          refine .inr ⟨rfl, s, data, v, hs, hlater, rfl, fun hpos => ?_, ?_⟩
          · obtain ⟨info, hinfo, ⟨-, -, hversion, hcontent⟩ | hzero⟩ := DSFSServicer.handle_closed h.sound hr
            · rw [← (h.handle n a ha).2.2 info hinfo]
              exact ⟨hversion, hcontent⟩
            · omega
          · simp [GrpcSystem.closes, hdata, hr]
        | created _ | opened | version | failed _ =>
          refine .inl ⟨s, hs, hlater, ?_⟩
          simp [GrpcSystem.closes, hdata, hr]

lemma Tidy.closes (h : x.Tidy) {n : ℤ} {a : ActiveHandle} (ha : x.client.activeHandles n = some a)
    (fate : Fate) (hpending : x.pending = none) : (x.closes n a fate).Tidy := by
  obtain ⟨s, hs, hlater, hx⟩ | ⟨-, s, data, v, hs, hlater, -, -, hx⟩ := closes_cases h ha fate
  · rw [hx]
    exact h.later hs hlater
  · rw [hx]
    exact (h.later hs hlater).released v hpending

lemma Tidy.write (h : x.Tidy) {n : ℤ} {offset : ℕ} {data : FileData} {c : DSFSClientStub}
    (hc : x.client.write n offset data = some c) : Tidy { x with client := c } := by
  simp only [DSFSClientStub.write, Option.bind_eq_some_iff, Option.map_eq_some_iff] at hc
  obtain ⟨a, -, old, -, rfl⟩ := hc
  exact ⟨h.sound, h.handle, h.path, h.known⟩

lemma Tidy.step (h : x.Tidy) {c : GrpcCall} (hs : x.step c = some y) : y.Tidy := by
  cases c with
  | testVersion f mode =>
    simp only [GrpcSystem.step] at hs
    split_ifs at hs
    obtain rfl := Option.some.inj hs
    refine ⟨h.sound, h.handle, h.path, fun p hp hfetch hnone => ?_⟩
    obtain rfl := Option.mem_some_iff.mp hp
    dsimp only at hnone hfetch
    rw [DSFSClientStub.fetches, hnone] at hfetch
    cases hfetch
  | openFile fate =>
    obtain ⟨p, -, rfl⟩ := Option.map_eq_some_iff.mp hs
    exact h.opens p fate
  | read n offset length =>
    simp only [GrpcSystem.step] at hs
    split_ifs at hs
    obtain ⟨-, -, rfl⟩ := Option.map_eq_some_iff.mp hs
    exact h
  | write n offset data =>
    simp only [GrpcSystem.step] at hs
    split_ifs at hs
    obtain ⟨c, hc, rfl⟩ := Option.map_eq_some_iff.mp hs
    exact h.write hc
  | close n fate =>
    simp only [GrpcSystem.step] at hs
    split_ifs at hs with hpending
    obtain ⟨a, ha, rfl⟩ := Option.map_eq_some_iff.mp hs
    exact h.closes ha fate (Option.isNone_iff_eq_none.mp hpending)
  | others c =>
    simp only [GrpcSystem.step] at hs
    split_ifs at hs with hc
    obtain ⟨out, hr, rfl⟩ := Option.map_eq_some_iff.mp hs
    obtain ⟨hsound, hlater⟩ := DSFSServicer.handle_later (r := out.2) h.sound hc hr
    exact h.later hsound hlater
  | lock f locked =>
    obtain rfl := Option.some.inj hs
    exact h.later ⟨h.sound.absent, h.sound.fresh⟩ ⟨Int.le_refl _, fun _ _ _ hi => hi, fun _ => .inr ⟨rfl, rfl⟩⟩

end GrpcSystem

end DistributedStorage.Files
