import DistributedStorage.Files.GrpcClient

/-! What an Open without a download finds in the cache. -/

namespace DistributedStorage.Files

open Library Library.Runs

namespace GrpcSystem

variable {x y : GrpcSystem}

/-- An Open without a download: the copy holds what it was last downloaded or committed with, and the file
has still the version the client has asked for. -/
def Unspoiled (x : GrpcSystem) : GrpcCall → Prop
  | .openFile .answered => ∀ p ∈ x.pending, p.fetchData = false → ∀ e ∈ x.client.cacheMetadata p.filename,
      x.client.cacheDir e.path = some (x.saved p.filename) ∧ x.server.version p.filename = e.version
  | _ => True

/-- What was saved under the version in force is what the server holds. -/
structure Fits (x : GrpcSystem) : Prop where
  tidy : x.Tidy
  entry : ∀ f e, x.client.cacheMetadata f = some e →
    e.version < x.server.version f ∨ x.server.version f = e.version ∧ x.saved f = x.server.content f
  hits : ∀ hit ∈ x.hits, hit.copy = some hit.held

lemma init_fits (disk cacheDir : String → Option FileData) : (init disk cacheDir).Fits where
  tidy := init_tidy disk cacheDir
  entry f e he := by cases he
  hits hit hh := by cases hh

lemma Fits.later (h : x.Fits) {s : DSFSServicer} (hs : s.Sound) (hlater : x.server.Later s) :
    Fits { x with server := s } where
  tidy := h.tidy.later hs hlater
  entry f e he := by
    dsimp only
    obtain hlt | ⟨hversion, hcontent⟩ := hlater.version f
    · obtain hold | ⟨hold, -⟩ := h.entry f e he
      · exact .inl (hold.trans hlt)
      · exact .inl (hold ▸ hlt)
    · rw [hversion, hcontent]
      exact h.entry f e he
  hits := h.hits

lemma Fits.idle (h : x.Fits) : Fits { x with pending := none } := ⟨h.tidy.idle, h.entry, h.hits⟩

lemma Fits.opens (h : x.Fits) {p : PendingOpen} (hp : x.pending = some p) {fate : Fate}
    (hc : x.Unspoiled (.openFile fate)) : (x.opens p fate).Fits := by
  have htidy := h.tidy.opens p fate
  obtain ⟨s, hs, hlater, hx⟩ | ⟨rfl, s, hs, hlater, -, -, hversion, hcontent, hx⟩ := opens_cases h.tidy p fate
  · rw [hx]
    exact h.idle.later hs hlater
  rw [hx] at htidy ⊢
  have hold := h.idle.later hs hlater
  obtain ⟨f, mode, fetchData⟩ := p
  cases fetchData with
  | true =>
    refine ⟨htidy, fun g e he => ?_, hold.hits⟩
    change e.version < s.version g ∨
      s.version g = e.version ∧ Function.update x.saved f (x.server.content f) g = s.content g
    obtain ⟨rfl, rfl⟩ | ⟨hg, he⟩ := of_update_some he
    · rw [Function.update_self]
      exact .inr ⟨hversion g, (hcontent g).symm⟩
    · rw [Function.update_of_ne hg]
      exact hold.entry g e he
  | false =>
    cases he : x.client.cacheMetadata f with
    | none => exact absurd he (h.tidy.known _ hp rfl)
    | some e =>
      obtain ⟨hcopy, hcurrent⟩ := hc _ hp rfl e he
      obtain hbehind | ⟨-, hsaved⟩ := h.entry f e he
      · exact absurd hcurrent (Nat.ne_of_gt hbehind)
      refine ⟨htidy, fun g e' he' => ?_, fun hit hh => ?_⟩
      · simp only [receives, DSFSClientStub.opened, Bool.false_eq_true, if_false, he] at he' ⊢
        exact hold.entry g e' he'
      · simp only [receives, DSFSClientStub.opened, Bool.false_eq_true, if_false, he] at hh
        obtain hh | hh := List.mem_append.mp hh
        · exact h.hits hit hh
        · obtain rfl := List.mem_singleton.mp hh
          simp only [DSFSClientStub.copy, Function.update_self, Option.bind_some]
          rw [hcopy, hsaved, hcontent]

lemma Fits.closes (h : x.Fits) {n : ℤ} {a : ActiveHandle} (ha : x.client.activeHandles n = some a)
    (fate : Fate) (hpending : x.pending = none) : (x.closes n a fate).Fits := by
  have htidy := h.tidy.closes ha fate hpending
  obtain ⟨s, hs, hlater, hx⟩ | ⟨-, s, data, v, hs, hlater, -, hcommit, hx⟩ := closes_cases h.tidy ha fate
  · rw [hx]
    exact h.later hs hlater
  rw [hx] at htidy ⊢
  have hold := h.later hs hlater
  refine ⟨htidy, fun g e he => ?_, hold.hits⟩
  dsimp only [DSFSClientStub.released] at he ⊢
  split_ifs at he ⊢ with hpos
  · obtain ⟨hversion, hcontent⟩ := hcommit hpos
    rw [DSFSClientStub.closed_cacheMetadata] at he
    obtain ⟨rfl, rfl⟩ | ⟨hg, he⟩ := of_update_some he
    · rw [Function.update_self]
      exact .inr ⟨hversion, hcontent.symm⟩
    · rw [Function.update_of_ne hg]
      exact hold.entry g e he
  · exact hold.entry g e he

lemma Fits.step (h : x.Fits) {c : GrpcCall} (hc : x.Unspoiled c) (hs : x.step c = some y) : y.Fits := by
  have htidy := h.tidy.step hs
  cases c with
  | testVersion f mode =>
    simp only [GrpcSystem.step] at hs
    split_ifs at hs
    obtain rfl := Option.some.inj hs
    exact ⟨htidy, h.entry, h.hits⟩
  | openFile fate =>
    obtain ⟨p, hp, rfl⟩ := Option.map_eq_some_iff.mp hs
    exact h.opens hp hc
  | read n offset length =>
    simp only [GrpcSystem.step] at hs
    split_ifs at hs
    obtain ⟨-, -, rfl⟩ := Option.map_eq_some_iff.mp hs
    exact h
  | write n offset data =>
    simp only [GrpcSystem.step] at hs
    split_ifs at hs
    obtain ⟨c, hwritten, rfl⟩ := Option.map_eq_some_iff.mp hs
    simp only [DSFSClientStub.write, Option.bind_eq_some_iff, Option.map_eq_some_iff] at hwritten
    obtain ⟨a, -, old, -, rfl⟩ := hwritten
    exact ⟨htidy, h.entry, h.hits⟩
  | close n fate =>
    simp only [GrpcSystem.step] at hs
    split_ifs at hs with hpending
    obtain ⟨a, ha, rfl⟩ := Option.map_eq_some_iff.mp hs
    exact h.closes ha fate (Option.isNone_iff_eq_none.mp hpending)
  | others c =>
    simp only [GrpcSystem.step] at hs
    split_ifs at hs with hrequest
    obtain ⟨out, hr, rfl⟩ := Option.map_eq_some_iff.mp hs
    obtain ⟨hsound, hlater⟩ := DSFSServicer.handle_later (r := out.2) h.tidy.sound hrequest hr
    exact h.later hsound hlater
  | lock f locked =>
    obtain rfl := Option.some.inj hs
    exact ⟨htidy, h.entry, h.hits⟩

instance (x : GrpcSystem) (c : GrpcCall) : Decidable (x.Unspoiled c) :=
  match c with
  | .openFile .answered => inferInstanceAs (Decidable (∀ p ∈ x.pending, p.fetchData = false →
      ∀ e ∈ x.client.cacheMetadata p.filename,
        x.client.cacheDir e.path = some (x.saved p.filename) ∧ x.server.version p.filename = e.version))
  | .openFile .unsent | .openFile .unheard | .testVersion .. | .read .. | .write .. | .close .. | .others _
  | .lock .. => isTrue trivial

def oneByte (filename : String) : Option FileData := if filename = "a" then some [0] else none

/-- An Open of the client, to the end of the call. -/
def opening (mode : String) : List GrpcCall := [.testVersion "a" mode, .openFile .answered]

/-- Another client commits a byte. -/
def elsewhere (handle : ℤ) : List GrpcCall :=
  [.others (.openExists "a" "w" false), .others (.close handle [7])]

end GrpcSystem

end DistributedStorage.Files
