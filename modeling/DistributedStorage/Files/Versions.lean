import DistributedStorage.Files.Server
import Mathlib.Data.List.Basic
import Mathlib.Tactic.SplitIfs

/-! Concurrent calls at one file server. The system records beside the server which writes a file has had
and which of them its version stands for. -/

namespace DistributedStorage.Files

open Library Library.Runs

/-- `written f` starts with the content the server found; `seen t` is the number of contents `f` had had
when the handler in `t` read or wrote it, and `described f` that number for the write whose version is in
force. -/
structure System where
  server : DSFSServicer
  calls : ℕ → Option Call
  written : String → List FileData
  described : String → ℕ
  seen : ℕ → ℕ
  history : List Reply

/-- `lock` stands for LockFile, UnlockFile and the expiry of a lock. -/
inductive Label
  | call (t : ℕ) (c : Call)
  | run (t : ℕ)
  | lock (filename : String) (locked : Bool)

namespace System

def init (disk : String → Option FileData) : System where
  server := .new disk
  calls _ := none
  written f := [(disk f).getD []]
  described _ := 1
  seen _ := 0
  history := []

/-- What the step of the handler in `t` adds to the record. -/
def note (x : System) (t : ℕ) : Call → System
  | .openFetch f _ _ | .openRead f _ =>
    { x with seen := Function.update x.seen t (x.written f).length }
  | .closeFile f data _ =>
    { x with
      written := Function.update x.written f (x.written f ++ [data])
      seen := Function.update x.seen t ((x.written f).length + 1) }
  | .closeUpdate f _ _ => { x with described := Function.update x.described f (x.seen t) }
  | _ => x

def settle (x : System) (t : ℕ) : Progress → System
  | .goesOn c => { x with calls := Function.update x.calls t (some c) }
  | .returns r => { x with calls := Function.update x.calls t none, history := x.history ++ [r] }

def step (x : System) : Label → Option System
  | .call t c =>
    if x.calls t = none ∧ c.IsRequest then some { x with calls := Function.update x.calls t (some c) }
    else none
  | .run t =>
    match x.calls t with
    | some c =>
      let out := x.server.run c
      some (({ x with server := out.1 }.note t c).settle t out.2)
    | none => none
  | .lock f locked =>
    some { x with server := { x.server with fileLocks := Function.update x.server.fileLocks f locked } }

end System

/-- The content an answer ties to a version of a file. -/
def Reply.content? : Reply → Option (String × ℕ × FileData)
  | .opened f _ (some data) v => some (f, v, data)
  | .closed f (some data) v => some (f, v, data)
  | _ => none

/-- The version of a file an answer reports; a Close in mode `r` answers 0, which is none. -/
def Reply.version? : Reply → Option (String × ℕ)
  | .opened f _ _ v => some (f, v)
  | .closed f (some _) v => some (f, v)
  | .version f v => some (f, v)
  | _ => none

/-- A version stands for one content, and versions go up. -/
structure Lawful (history : List Reply) : Prop where
  content : ∀ r ∈ history, ∀ r' ∈ history, ∀ f v data data',
    r.content? = some (f, v, data) → r'.content? = some (f, v, data') → data = data'
  version : history.Pairwise fun r r' => ∀ f v v',
    r.version? = some (f, v) → r'.version? = some (f, v') → v ≤ v'

namespace System

/-- A Create truncates only what is empty and resets only what is 1. An Open that returns bytes enters its
lock section while the version in force is that of the last write before its read. A Close sets the version
only while it is still the one it read. -/
def InOrder (x : System) (t : ℕ) : Call → Prop
  | .createFile f => x.server.content f = []
  | .createVersion f => x.server.version f = 1
  | .openSection f mode (some _) => mode = "w" ∧ x.server.fileLocks f = true ∨ x.seen t = x.described f
  | .closeUpdate f _ current => x.server.version f = current
  | _ => True

def Orderly (x : System) : Label → Prop
  | .run t => ∀ c ∈ x.calls t, x.InOrder t c
  | _ => True

/-- What a handler holds agrees with the record. -/
def Holds (x : System) (t : ℕ) : Call → Prop
  | .openSection f _ (some data) => (x.written f)[x.seen t - 1]? = some data
  | .closeUpdate f data _ => (x.written f)[x.seen t - 1]? = some data
  | _ => True

structure Consistent (x : System) : Prop where
  nonempty : ∀ f, x.written f ≠ []
  disk : ∀ f, (x.written f).getLast? = some (x.server.content f)
  holds : ∀ t, ∀ c ∈ x.calls t, x.Holds t c
  bounded : ∀ r ∈ x.history, ∀ f v, r.version? = some (f, v) → v ≤ x.server.version f
  current : ∀ r ∈ x.history, ∀ f data, r.content? = some (f, x.server.version f, data) →
    (x.written f)[x.described f - 1]? = some data
  lawful : Lawful x.history

end System

lemma Reply.version_of_content {r : Reply} {f : String} {v : ℕ} {data : FileData}
    (h : r.content? = some (f, v, data)) : r.version? = some (f, v) := by
  cases r with
  | opened f' handle d v' =>
    cases d with
    | none => cases h
    | some d => cases h; rfl
  | closed f' d v' =>
    cases d with
    | none => cases h
    | some d => cases h; rfl
  | created f' => cases h
  | version f' v' => cases h
  | failed message => cases h

lemma Lawful.concat {history : List Reply} (h : Lawful history) {r' : Reply}
    (hversion : ∀ r ∈ history, ∀ f v v', r.version? = some (f, v) → r'.version? = some (f, v') → v ≤ v')
    (hcontent : ∀ r ∈ history, ∀ f v data data',
      r.content? = some (f, v, data) → r'.content? = some (f, v, data') → data = data') :
    Lawful (history ++ [r']) where
  content a ha b hb f v data data' hav hbv := by
    obtain hold | hnew := List.mem_append.mp ha
    · obtain hold' | hnew' := List.mem_append.mp hb
      · exact h.content a hold b hold' f v data data' hav hbv
      · obtain rfl := List.mem_singleton.mp hnew'
        exact hcontent a hold f v data data' hav hbv
    · obtain rfl := List.mem_singleton.mp hnew
      obtain hold' | hnew' := List.mem_append.mp hb
      · exact (hcontent b hold' f v data' data hbv hav).symm
      · obtain rfl := List.mem_singleton.mp hnew'
        cases hav.symm.trans hbv
        rfl
  version := by
    rw [List.pairwise_append]
    refine ⟨h.version, List.pairwise_singleton _ _, fun r hr r'' hr'' f v v' => ?_⟩
    obtain rfl := List.mem_singleton.mp hr''
    exact hversion r hr f v v'

namespace DSFSServicer

variable {s : DSFSServicer} {f g : String} {data : FileData} {v : ℕ}

@[simp] lemma writeFile_version : (s.writeFile f data).version g = s.version g := rfl

@[simp] lemma setVersion_content : (s.setVersion f v).content g = s.content g := rfl

lemma writeFile_content : (s.writeFile f data).content g = if g = f then data else s.content g := by
  simp only [content, writeFile, Function.update_apply]
  split <;> rfl

lemma setVersion_version : (s.setVersion f v).version g = if g = f then v else s.version g := by
  simp only [version, setVersion, Function.update_apply]
  split <;> rfl

lemma openHandle_spec (s : DSFSServicer) (f mode : String) (d : Option FileData) :
    (∀ g, (s.openHandle f mode d).1.content g = s.content g) ∧
    (∀ g, (s.openHandle f mode d).1.version g = s.version g) ∧
    ((mode = "w" ∧ s.fileLocks f = true ∧ (s.openHandle f mode d).2 = .failed (lockedMessage f)) ∨
      ¬(mode = "w" ∧ s.fileLocks f = true) ∧
        (s.openHandle f mode d).2 = .opened f s.nextHandle d (s.version f)) := by
  by_cases hlocked : mode = "w" ∧ s.fileLocks f = true
  · simp [openHandle, hlocked]
  · simp only [openHandle]
    rw [if_neg hlocked]
    split_ifs with hfirst
    · have hone : s.version f = 1 := by
        simp only [version, hfirst.1, Option.getD_none]
      refine ⟨fun g => rfl, fun g => ?_, .inr ⟨hlocked, ?_⟩⟩
      · rw [setVersion_version]
        split_ifs with hg
        · rw [hg, hone]
        · rfl
      · rw [setVersion_version, if_pos rfl, hone]
    · exact ⟨fun g => rfl, fun g => rfl, .inr ⟨hlocked, rfl⟩⟩

end DSFSServicer

namespace System

variable {x y : System} {t : ℕ} {c : Call}

lemma kept {l m : List FileData} (h : l <+: m) {i : ℕ} {data : FileData} (hi : l[i]? = some data) :
    m[i]? = some data := by
  obtain ⟨k, rfl⟩ := h
  obtain ⟨hlt, -⟩ := List.getElem?_eq_some_iff.mp hi
  rw [List.getElem?_append_left hlt, hi]

lemma Holds.frame {x y : System} {c : Call} {t' : ℕ} (h : x.Holds t' c) (hseen : y.seen t' = x.seen t')
    (hwritten : ∀ f, x.written f <+: y.written f) : y.Holds t' c := by
  cases c with
  | openSection f mode d =>
    cases d with
    | none => trivial
    | some data =>
      simp only [Holds] at h ⊢
      rw [hseen]
      exact kept (hwritten f) h
  | closeUpdate f data current =>
    simp only [Holds] at h ⊢
    rw [hseen]
    exact kept (hwritten f) h
  | _ => trivial

/-- The handler in `t` goes on, and neither a content nor a version changes. -/
lemma Consistent.goesOn (h : x.Consistent) (hcontent : ∀ f, y.server.content f = x.server.content f)
    (hversion : ∀ f, y.server.version f = x.server.version f) (hwritten : y.written = x.written)
    (hdescribed : y.described = x.described) (hseen : ∀ t', t' ≠ t → y.seen t' = x.seen t')
    (hhistory : y.history = x.history) (hcalls : y.calls = Function.update x.calls t (some c))
    (hholds : y.Holds t c) : y.Consistent where
  nonempty f := hwritten ▸ h.nonempty f
  disk f := by rw [hwritten, hcontent, h.disk]
  holds t' c' hc' := by
    rw [hcalls] at hc'
    by_cases ht : t' = t
    · subst ht
      rw [Function.update_self] at hc'
      obtain rfl := Option.mem_some_iff.mp hc'
      exact hholds
    · rw [Function.update_of_ne ht] at hc'
      exact (h.holds t' c' hc').frame (hseen t' ht) fun f => hwritten ▸ List.prefix_rfl
  bounded r hr f v hv := by
    rw [hhistory] at hr
    rw [hversion]
    exact h.bounded r hr f v hv
  current r hr f data hd := by
    rw [hhistory] at hr
    rw [hversion] at hd
    rw [hwritten, hdescribed]
    exact h.current r hr f data hd
  lawful := hhistory ▸ h.lawful

/-- The handler in `t` answers, no content and no version changes, and what it answers fits the record. -/
lemma Consistent.answers (h : x.Consistent) {r : Reply}
    (hcontent : ∀ f, y.server.content f = x.server.content f)
    (hversion : ∀ f, y.server.version f = x.server.version f) (hwritten : y.written = x.written)
    (hdescribed : y.described = x.described) (hseen : ∀ t', t' ≠ t → y.seen t' = x.seen t')
    (hhistory : y.history = x.history ++ [r]) (hcalls : y.calls = Function.update x.calls t none)
    (hreport : ∀ f v, r.version? = some (f, v) → v = x.server.version f)
    (hdata : ∀ f v data, r.content? = some (f, v, data) →
      (x.written f)[x.described f - 1]? = some data) : y.Consistent where
  nonempty f := hwritten ▸ h.nonempty f
  disk f := by rw [hwritten, hcontent, h.disk]
  holds t' c' hc' := by
    rw [hcalls] at hc'
    by_cases ht : t' = t
    · subst ht
      rw [Function.update_self] at hc'
      cases hc'
    · rw [Function.update_of_ne ht] at hc'
      exact (h.holds t' c' hc').frame (hseen t' ht) fun f => hwritten ▸ List.prefix_rfl
  bounded r' hr' f v hv := by
    rw [hversion]
    rw [hhistory] at hr'
    obtain hold | hnew := List.mem_append.mp hr'
    · exact h.bounded r' hold f v hv
    · obtain rfl := List.mem_singleton.mp hnew
      exact Nat.le_of_eq (hreport f v hv)
  current r' hr' f data hd := by
    rw [hversion] at hd
    rw [hwritten, hdescribed]
    rw [hhistory] at hr'
    obtain hold | hnew := List.mem_append.mp hr'
    · exact h.current r' hold f data hd
    · obtain rfl := List.mem_singleton.mp hnew
      exact hdata f _ data hd
  lawful := by
    rw [hhistory]
    apply h.lawful.concat
    · intro r' hr' f v v' hv hv'
      rw [hreport f v' hv']
      exact h.bounded r' hr' f v hv
    · intro r' hr' f v data data' hd hd'
      obtain rfl := hreport f v (Reply.version_of_content hd')
      exact Option.some.inj ((h.current r' hr' f data hd).symm.trans (hdata f _ data' hd'))

lemma Consistent.writes (h : x.Consistent) {f : String} {data : FileData} {current : ℕ}
    (hserver : y.server = x.server.writeFile f data)
    (hwritten : y.written = Function.update x.written f (x.written f ++ [data]))
    (hdescribed : y.described = x.described)
    (hseen : y.seen = Function.update x.seen t ((x.written f).length + 1)) (hhistory : y.history = x.history)
    (hcalls : y.calls = Function.update x.calls t (some (.closeUpdate f data current))) : y.Consistent := by
  have hgrows : ∀ g, x.written g <+: y.written g := by
    intro g
    rw [hwritten, Function.update_apply]
    split_ifs with hg
    · rw [hg]
      exact List.prefix_append _ _
    · exact List.prefix_rfl
  have hversion : ∀ g, y.server.version g = x.server.version g := fun g => by rw [hserver]; rfl
  refine ⟨fun g => ?_, fun g => ?_, fun t' c' hc' => ?_, fun r hr g v hv => ?_, fun r hr g d hd => ?_, ?_⟩
  · intro hnil
    exact h.nonempty g (List.prefix_nil.mp (hnil ▸ hgrows g))
  · rw [hwritten, hserver, DSFSServicer.writeFile_content, Function.update_apply]
    split_ifs with hg
    · rw [List.getLast?_concat]
    · exact h.disk g
  · rw [hcalls] at hc'
    by_cases ht : t' = t
    · subst ht
      rw [Function.update_self] at hc'
      obtain rfl := Option.mem_some_iff.mp hc'
      simp [Holds, hseen, hwritten]
    · rw [Function.update_of_ne ht] at hc'
      refine (h.holds t' c' hc').frame ?_ hgrows
      rw [hseen, Function.update_of_ne ht]
  · rw [hversion]
    exact h.bounded r (hhistory ▸ hr) g v hv
  · rw [hversion] at hd
    rw [hdescribed]
    exact kept (hgrows g) (h.current r (hhistory ▸ hr) g d hd)
  · exact hhistory ▸ h.lawful

lemma Consistent.updates (h : x.Consistent) {f : String} {data : FileData} {current : ℕ}
    (hc : x.calls t = some (.closeUpdate f data current)) (hcurrent : x.server.version f = current)
    (hserver : y.server = x.server.setVersion f (current + 1))
    (hwritten : y.written = x.written) (hdescribed : y.described = Function.update x.described f (x.seen t))
    (hseen : y.seen = x.seen) (hhistory : y.history = x.history ++ [.closed f (some data) (current + 1)])
    (hcalls : y.calls = Function.update x.calls t none) : y.Consistent := by
  have hheld : (x.written f)[x.seen t - 1]? = some data := h.holds t _ hc
  have hversion : ∀ g, y.server.version g = if g = f then current + 1 else x.server.version g := by
    intro g
    rw [hserver, DSFSServicer.setVersion_version]
  have hbelow : ∀ r ∈ x.history, ∀ v, r.version? = some (f, v) → v ≤ current := by
    intro r hr v hv
    exact hcurrent ▸ h.bounded r hr f v hv
  refine ⟨fun g => ?_, fun g => ?_, fun t' c' hc' => ?_, fun r hr g v hv => ?_, fun r hr g d hd => ?_, ?_⟩
  · exact hwritten ▸ h.nonempty g
  · rw [hwritten, hserver]
    exact h.disk g
  · rw [hcalls] at hc'
    by_cases ht : t' = t
    · subst ht
      rw [Function.update_self] at hc'
      cases hc'
    · rw [Function.update_of_ne ht] at hc'
      exact (h.holds t' c' hc').frame (congrFun hseen t') fun g => hwritten ▸ List.prefix_rfl
  · rw [hhistory] at hr
    rw [hversion]
    obtain hold | hnew := List.mem_append.mp hr
    · split_ifs with hg
      · subst hg
        exact Nat.le_succ_of_le (hbelow r hold v hv)
      · exact h.bounded r hold g v hv
    · obtain rfl := List.mem_singleton.mp hnew
      cases hv
      exact Nat.le_of_eq (if_pos rfl).symm
  · rw [hhistory] at hr
    rw [hversion] at hd
    rw [hwritten, hdescribed, Function.update_apply]
    obtain hold | hnew := List.mem_append.mp hr
    · split_ifs at hd ⊢ with hg
      · subst hg
        have hle := hbelow r hold _ (Reply.version_of_content hd)
        omega
      · exact h.current r hold g d hd
    · obtain rfl := List.mem_singleton.mp hnew
      simp only [Reply.content?, Option.some.injEq, Prod.mk.injEq] at hd
      obtain ⟨rfl, -, rfl⟩ := hd
      rw [if_pos rfl, hheld]
  · rw [hhistory]
    apply h.lawful.concat
    · intro r hr g v v' hv hv'
      cases hv'
      exact Nat.le_succ_of_le (hbelow r hr v hv)
    · intro r hr g v d d' hd hd'
      cases hd'
      have hle := hbelow r hr _ (Reply.version_of_content hd)
      omega

lemma init_consistent (disk : String → Option FileData) : (init disk).Consistent where
  nonempty f hf := by cases hf
  disk f := rfl
  holds t c hc := by cases hc
  bounded r hr := by cases hr
  current r hr := by cases hr
  lawful := ⟨fun r hr => (by cases hr), List.Pairwise.nil⟩

lemma Consistent.content_last (h : x.Consistent) (f : String) :
    (x.written f)[(x.written f).length - 1]? = some (x.server.content f) := by
  rw [← List.getLast?_eq_getElem?, h.disk]

lemma Consistent.called (h : x.Consistent) (hc : c.IsRequest) :
    Consistent { x with calls := Function.update x.calls t (some c) } := by
  refine h.goesOn (t := t) (c := c) (fun _ => rfl) (fun _ => rfl) rfl rfl (fun _ _ => rfl) rfl rfl ?_
  cases c <;> trivial

lemma Consistent.fails (h : x.Consistent) (message : String) :
    (x.settle t (.returns (.failed message))).Consistent :=
  h.answers (t := t) (fun _ => rfl) (fun _ => rfl) rfl rfl (fun _ _ => rfl) rfl rfl (fun _ _ hv => by cases hv)
    fun _ _ _ hd => by cases hd

lemma Consistent.passes (h : x.Consistent) (hc : ∀ f mode data, c ≠ .openSection f mode (some data))
    (hc' : ∀ f data current, c ≠ .closeUpdate f data current) : (x.settle t (.goesOn c)).Consistent := by
  refine h.goesOn (t := t) (c := c) (fun _ => rfl) (fun _ => rfl) rfl rfl (fun _ _ => rfl) rfl rfl ?_
  cases c with
  | openSection f mode data =>
    cases data with
    | none => trivial
    | some data => exact absurd rfl (hc f mode data)
  | closeUpdate f data current => exact absurd rfl (hc' f data current)
  | _ => trivial

/-- A handler has read the whole file and goes on to its lock section. -/
lemma Consistent.reads (h : x.Consistent) {f mode : String} {data : FileData}
    (hdata : x.server.content f = data) :
    Consistent { x with
      seen := Function.update x.seen t (x.written f).length
      calls := Function.update x.calls t (some (.openSection f mode (some data))) } := by
  refine h.goesOn (t := t) (fun _ => rfl) (fun _ => rfl) rfl rfl (fun t' ht => ?_) rfl rfl ?_
  · exact Function.update_of_ne ht _ _
  · simp only [Holds, Function.update_self]
    rw [h.content_last, hdata]

lemma Consistent.runs (h : x.Consistent) (hc : x.calls t = some c) (ho : x.Orderly (.run t)) :
    ((({ x with server := (x.server.run c).1 } : System).note t c).settle t (x.server.run c).2).Consistent := by
  have ho := ho c hc
  cases c with
  | create f =>
    simp only [DSFSServicer.run]
    split_ifs
    · exact h.fails _
    · exact h.passes (fun _ _ _ hx => by cases hx) fun _ _ _ hx => by cases hx
  | createFile f =>
    refine h.goesOn (t := t) (fun g => ?_) (fun _ => rfl) rfl rfl (fun _ _ => rfl) rfl rfl trivial
    change (x.server.writeFile f []).content g = x.server.content g
    rw [DSFSServicer.writeFile_content]
    split_ifs with hg
    · rw [hg, ho]
    · rfl
  | createVersion f =>
    refine h.answers (t := t) (fun _ => rfl) (fun g => ?_) rfl rfl (fun _ _ => rfl) rfl rfl (fun _ _ hv => by cases hv)
      fun _ _ _ hd => by cases hd
    change (x.server.setVersion f 1).version g = x.server.version g
    rw [DSFSServicer.setVersion_version]
    split_ifs with hg
    · rw [hg, ho]
    · rfl
  | openExists f mode fetchData =>
    simp only [DSFSServicer.run]
    split_ifs
    · exact h.fails _
    · exact h.fails _
    · exact h.passes (fun _ _ _ hx => by cases hx) fun _ _ _ hx => by cases hx
  | openFetch f mode fetchData =>
    simp only [DSFSServicer.run]
    split_ifs with hfetch hthere
    · refine h.goesOn (t := t) (fun _ => rfl) (fun _ => rfl) rfl rfl (fun t' ht => ?_) rfl rfl trivial
      exact Function.update_of_ne ht _ _
    · apply h.reads
      simp only [DSFSServicer.content]
      rw [Option.not_isSome_iff_eq_none.mp hthere]
      rfl
    · refine h.goesOn (t := t) (fun _ => rfl) (fun _ => rfl) rfl rfl (fun t' ht => ?_) rfl rfl trivial
      exact Function.update_of_ne ht _ _
  | openRead f mode =>
    simp only [DSFSServicer.run]
    split
    · rename_i data hdata
      apply h.reads
      simp only [DSFSServicer.content, hdata, Option.getD_some]
    · refine h.answers (t := t) (fun _ => rfl) (fun _ => rfl) rfl rfl (fun t' ht => ?_) rfl rfl
        (fun _ _ hv => by cases hv) fun _ _ _ hd => by cases hd
      exact Function.update_of_ne ht _ _
  | openSection f mode d =>
    obtain ⟨hcontent, hversion, hreply⟩ := x.server.openHandle_spec f mode d
    refine h.answers (t := t) hcontent hversion rfl rfl (fun _ _ => rfl) rfl rfl ?_ ?_
    · intro g v hv
      obtain ⟨-, -, hr⟩ | ⟨-, hr⟩ := hreply
      · rw [hr] at hv
        cases hv
      · rw [hr] at hv
        cases hv
        rfl
    · intro g v data hd
      obtain ⟨-, -, hr⟩ | ⟨hopen, hr⟩ := hreply
      · rw [hr] at hd
        cases hd
      · rw [hr] at hd
        cases d with
        | none => cases hd
        | some held =>
          cases hd
          have hheld : (x.written f)[x.seen t - 1]? = some data := h.holds t _ hc
          have hseen : x.seen t = x.described f := ho.resolve_left fun hl => hopen ⟨hl.1, hl.2⟩
          rw [← hseen]
          exact hheld
  | close handle data =>
    simp only [DSFSServicer.run, DSFSServicer.closeHandle]
    split
    · exact h.fails _
    · split_ifs
      · exact h.fails _
      · refine h.goesOn (t := t) (fun _ => rfl) (fun _ => rfl) rfl rfl (fun _ _ => rfl) rfl rfl trivial
  | closeVersion info data =>
    simp only [DSFSServicer.run]
    split_ifs
    · exact h.passes (fun _ _ _ hx => by cases hx) fun _ _ _ hx => by cases hx
    · exact h.answers (t := t) (fun _ => rfl) (fun _ => rfl) rfl rfl (fun _ _ => rfl) rfl rfl (fun _ _ hv => by cases hv)
        fun _ _ _ hd => by cases hd
  | closeFile f data current => exact h.writes rfl rfl rfl rfl rfl rfl
  | closeUpdate f data current => exact h.updates hc ho rfl rfl rfl rfl rfl rfl
  | testVersionNumber f =>
    refine h.answers (t := t) (fun _ => rfl) (fun _ => rfl) rfl rfl (fun _ _ => rfl) rfl rfl (fun g v hv => ?_)
      fun _ _ _ hd => by cases hd
    cases hv
    rfl

lemma Consistent.step (h : x.Consistent) {a : Label} (ho : x.Orderly a) (hs : x.step a = some y) :
    y.Consistent := by
  cases a with
  | call t c =>
    simp only [System.step] at hs
    split_ifs at hs with hidle
    obtain rfl := Option.some.inj hs
    exact h.called hidle.2
  | run t =>
    simp only [System.step] at hs
    split at hs
    · rename_i c hc
      obtain rfl := Option.some.inj hs
      exact h.runs hc ho
    · cases hs
  | lock f locked =>
    obtain rfl := Option.some.inj hs
    exact ⟨h.nonempty, h.disk, fun t c hc => (h.holds t c hc).frame rfl fun _ => List.prefix_rfl, h.bounded,
      h.current, h.lawful⟩

instance (x : System) (t : ℕ) (c : Call) : Decidable (x.InOrder t c) :=
  match c with
  | .createFile _ => inferInstanceAs (Decidable (_ = []))
  | .createVersion _ => inferInstanceAs (Decidable (_ = 1))
  | .openSection _ _ (some _) => inferInstanceAs (Decidable (_ ∧ _ ∨ _ = _))
  | .closeUpdate f _ current => inferInstanceAs (Decidable (x.server.version f = current))
  | .openSection _ _ none | .create _ | .openExists .. | .openFetch .. | .openRead .. | .close ..
  | .closeVersion .. | .closeFile .. | .testVersionNumber _ => isTrue trivial

instance (x : System) (a : Label) : Decidable (x.Orderly a) :=
  match a with
  | .run t => inferInstanceAs (Decidable (∀ c ∈ x.calls t, x.InOrder t c))
  | .call .. | .lock .. => isTrue trivial

/-- A file of one byte. -/
def oneFile (filename : String) : Option FileData := if filename = "a" then some [0] else none

/-- The thread `t` opens a file, to the end of the call. -/
def opens (t : ℕ) (mode : String) : List Label :=
  [.call t (.openExists "a" mode true), .run t, .run t, .run t, .run t]

def closes (t : ℕ) (handle : ℤ) (data : FileData) : List Label :=
  [.call t (.close handle data), .run t, .run t, .run t, .run t]

def tests (t : ℕ) (filename : String) : List Label := [.call t (.testVersionNumber filename), .run t]

/-- A Close comes between the read of an Open and its lock section. -/
def staleOpen : List Label :=
  opens 0 "w" ++ (opens 1 "r").take 4 ++ closes 0 1 [9] ++ [.run 1]

/-- Two Creates find no file; between them a Close commits. -/
def lateCreate : List Label :=
  [.call 0 (.create "b"), .run 0, .call 1 (.create "b"), .run 1, .run 1, .run 1,
    .call 1 (.openExists "b" "w" false), .run 1, .run 1, .run 1] ++ closes 1 1 [9] ++ tests 1 "b" ++
    [.run 0, .run 0] ++ tests 1 "b"

end System

end DistributedStorage.Files
