import DistributedStorage.Files.LockTable
import DistributedStorage.Library.Leases

/-! What becomes of a lock: who takes it out of the table, when, and what its owner is told. -/

namespace DistributedStorage.Files

open Library Library.Runs Library.Leases

set_option linter.unusedSectionVars false

/-- The clock as it was last read, what has become of the locks, and the messages that GetLockNotifications has
given to each client. -/
structure LockRecord where
  clock : ℚ
  events : List (Event String LockInfo LockStep)
  fetched : String → List String

structure WatchedLocks (ι : Type) extends LockSystem ι where
  record : LockRecord

namespace LockTable

/-- What the step that changes the lock of `f` has ended and granted. -/
def changes (before after : LockTable) (f : String) (c : LockCall) (now later : ℚ) :
    List (Event String LockInfo LockStep) :=
  ((before.fileLocks f).filter fun l => after.fileLocks f ≠ some l).toList.map (.ended f · ⟨c, now⟩) ++
    ((after.fileLocks f).filter fun l => before.fileLocks f ≠ some l).toList.map (.granted f · ⟨c, later⟩)

/-- What the client is told by the event. -/
def notice (clientId : String) : Event String LockInfo LockStep → Option String
  | .granted .. => none
  | .ended f l a => if l.owner = clientId then some (farewell f l a) else none

end LockTable

/-- The answer to a LockFile that has got its lock. -/
def LockReply.isGrant : LockReply → Bool
  | .lockFile success _ _ => success
  | _ => false

def LockProgress.replies : LockProgress → List LockReply
  | .returns r => [r]
  | _ => []

/-- The file whose lock the step works on. -/
def DSFSServicer.locksAt (s : DSFSServicer) : LockCall → Option String
  | .file c => s.looksUp c
  | .lockSection f _ _ | .unlockFile f _ | .autoRelease f _ => some f
  | .lockFile .. | .getLockNotifications _ => none

def LockProgress.messages : LockProgress → List String
  | .returns (.lockNotification messages) => messages
  | _ => []

/-- The client that asks for its messages. -/
def LockCall.fetches : LockCall → Option String
  | .getLockNotifications clientId => some clientId
  | _ => none

namespace WatchedLocks

variable {ι : Type} [DecidableEq ι]

def start (disk : String → Option FileData) (clock : ℚ) : WatchedLocks ι where
  toLockSystem := .init disk
  record := ⟨clock, [], fun _ => []⟩

/-- The record after a step of the call `c` that has left the table `after` and made the progress `p`. -/
def note (x : WatchedLocks ι) (c : LockCall) (now later : ℚ) (after : LockTable) (p : LockProgress) :
    LockRecord where
  clock := later
  events := x.record.events ++
    (x.server.locksAt c).toList.flatMap fun f => x.table.changes after f c now later
  fetched clientId := x.record.fetched clientId ++ if c.fetches = some clientId then p.messages else []

def step (x : WatchedLocks ι) (a : LockLabel ι) : Option (WatchedLocks ι) :=
  (x.toLockSystem.step a).map fun y =>
    { toLockSystem := y
      record :=
        match a with
        | .run t now later =>
          match x.calls t with
          | some c => x.note c now later y.table (x.server.turn x.table now later c).2.2
          | none => x.record
        | .call .. | .fire .. => x.record }

/-- The clock does not go back. -/
def InTime (x : WatchedLocks ι) : LockLabel ι → Prop
  | .run _ now later => x.record.clock ≤ now ∧ now ≤ later
  | .call .. | .fire .. => True

/-- The locks that were granted, what ended them, and what their owners were told. -/
structure Accounted (x : WatchedLocks ι) : Prop where
  /-- A grant is an answer to LockFile, and the lock is its client's for as long as that asked. -/
  granted : ∀ f l a, .granted f l a ∈ x.record.events →
    ∃ timeoutSeconds : ℤ, a.call = .lockSection f timeoutSeconds l.owner ∧
      l.expiresAt = a.time + (timeoutSeconds : ℚ)
  answered : x.history.filter LockReply.isGrant = (x.record.events.filterMap Event.gives).map fun p =>
    .lockFile true "" (truncate (p.2.expiresAt * 1000))
  /-- A lock is in the table from its grant to its end. -/
  held : ∀ f l, x.table.fileLocks f = some l ↔
    (∃ a, .granted f l a ∈ x.record.events) ∧ ∀ a, .ended f l a ∉ x.record.events
  once : (x.record.events.filterMap Event.gives).Nodup ∧ (x.record.events.filterMap Event.takes).Nodup
  /-- Only the UnlockFile of its owner ends a lock before it expires. -/
  ended : ∀ f l a, .ended f l a ∈ x.record.events → a.call = .unlockFile f l.owner ∨ l.expiresAt ≤ a.time
  /-- When a lock is granted, the earlier locks on the file have been unlocked by their owners or have expired. -/
  exclusive : ∀ pre post f l a, x.record.events = pre ++ .granted f l a :: post → ∀ m b, .granted f m b ∈ pre →
    ∃ c, .ended f m c ∈ pre ∧ (c.call = .unlockFile f m.owner ∨ m.expiresAt ≤ a.time)
  /-- What a client has fetched and what is kept for it tell, one by one, of those of its locks that have ended. -/
  notified : ∀ clientId ≠ "", x.record.fetched clientId ++ x.table.notifications clientId =
    x.record.events.filterMap (LockTable.notice clientId)

end WatchedLocks

namespace LockTable

variable {t u w : LockTable} {f clientId : String} {now later : ℚ} {c : LockCall} {l : LockInfo} {a : LockStep}

lemma changes_same (h : u.fileLocks f = t.fileLocks f) : t.changes u f c now later = [] := by
  rw [changes, h]
  cases t.fileLocks f <;> simp [Option.filter]

lemma changes_ended (ht : t.fileLocks f = some l) (hu : u.fileLocks f = none) :
    t.changes u f c now later = [.ended f l ⟨c, now⟩] := by
  simp [changes, ht, hu, Option.filter]

/-- A lock that comes after the old one has gone is a change of its own. -/
lemma changes_granted (hu : u.fileLocks f = none) (hw : w.fileLocks f = some l) (ht : t.fileLocks f ≠ some l) :
    t.changes w f c now later = t.changes u f c now later ++ [.granted f l ⟨c, later⟩] := by
  cases hm : t.fileLocks f with
  | none => simp [changes, hm, hu, hw, Option.filter]
  | some m =>
    have hne : l ≠ m := fun h => ht (h ▸ hm)
    simp [changes, hm, hu, hw, hne, hne.symm, Option.filter]

/-- The record so far, with the table it is about and the answers that were given. -/
structure Sound (t : LockTable) (r : LockRecord) (history : List LockReply) : Prop where
  regular : Regular t.fileLocks r.events
  fresh : ∀ f l a, .granted f l a ∈ r.events → l.timer < t.nextTimer
  granted : ∀ f l a, .granted f l a ∈ r.events →
    ∃ timeoutSeconds : ℤ, a.call = .lockSection f timeoutSeconds l.owner ∧
      l.expiresAt = a.time + (timeoutSeconds : ℚ)
  answered : history.filter LockReply.isGrant = (r.events.filterMap Event.gives).map fun p =>
    .lockFile true "" (truncate (p.2.expiresAt * 1000))
  ended : ∀ f l a, .ended f l a ∈ r.events → a.call = .unlockFile f l.owner ∨ l.expiresAt ≤ a.time
  past : ∀ e ∈ r.events, e.note.time ≤ r.clock
  ordered : r.events.Pairwise fun e d => e.note.time ≤ d.note.time
  notified : ∀ clientId ≠ "", r.fetched clientId ++ t.notifications clientId = r.events.filterMap (notice clientId)

variable {r : LockRecord} {history : List LockReply}

lemma new_sound (clock : ℚ) : Sound new ⟨clock, [], fun _ => []⟩ [] where
  regular := .nil
  fresh _ _ _ h := by cases h
  granted _ _ _ h := by cases h
  answered := rfl
  ended _ _ _ h := by cases h
  past _ h := by cases h
  ordered := .nil
  notified _ _ := rfl

lemma Sound.ticks (h : Sound t r history) (hnow : r.clock ≤ now) : Sound t { r with clock := now } history :=
  { h with past := fun e he => (h.past e he).trans hnow }

lemma Sound.same (h : Sound t r history) (hlocks : u.fileLocks = t.fileLocks)
    (htold : u.notifications = t.notifications) (htimer : u.nextTimer = t.nextTimer) : Sound u r history where
  regular := hlocks ▸ h.regular
  fresh := htimer ▸ h.fresh
  granted := h.granted
  answered := h.answered
  ended := h.ended
  past := h.past
  ordered := h.ordered
  notified := htold ▸ h.notified

lemma Sound.replies (h : Sound t r history) {p : List LockReply} (hp : ∀ q ∈ p, q.isGrant = false) :
    Sound t r (history ++ p) := by
  have hnone : p.filter LockReply.isGrant = [] := List.filter_eq_nil_iff.mpr fun q hq => by simp [hp q hq]
  refine { h with answered := ?_ }
  rw [List.filter_append, hnone, List.append_nil]
  exact h.answered

lemma returns_replies {r : LockReply} (hr : r.isGrant = false) :
    ∀ q ∈ (LockProgress.returns r).replies, q.isGrant = false := fun q hq => by
  rw [List.mem_singleton.mp hq]
  exact hr

/-- One more event, at a time that is not past. -/
lemma Sound.ordered_concat (h : Sound t r history) {e : Event String LockInfo LockStep}
    (hclock : r.clock ≤ e.note.time) :
    (∀ d ∈ r.events ++ [e], d.note.time ≤ e.note.time) ∧
      (r.events ++ [e]).Pairwise fun e d => e.note.time ≤ d.note.time := by
  have hpast : ∀ d ∈ r.events, d.note.time ≤ e.note.time := fun d hd => (h.past d hd).trans hclock
  refine ⟨fun d hd => ?_, ?_⟩
  · rcases List.mem_append.mp hd with hd | hd
    · exact hpast d hd
    · rw [List.mem_singleton.mp hd]
  · refine List.pairwise_append.mpr ⟨h.ordered, List.pairwise_singleton _ _, fun d hd d' hd' => ?_⟩
    rw [List.mem_singleton.mp hd']
    exact hpast d hd

lemma Sound.ends (h : Sound t r history) (hends : Ends t u f a) (hclock : r.clock ≤ a.time) (later : ℚ) :
    Sound u { r with clock := a.time, events := r.events ++ t.changes u f a.call a.time later } history := by
  cases hends with
  | stays hlocks htold htimer =>
    rw [changes_same (congrFun hlocks f), List.append_nil]
    exact (h.same hlocks htold htimer).ticks hclock
  | ends l hl hwhy hlocks htold htimer =>
    rw [changes_ended hl (by rw [hlocks, Function.update_self])]
    obtain ⟨hpast, hordered⟩ := h.ordered_concat (e := .ended f l a) hclock
    have hgrants : ∀ g m b, .granted g m b ∈ r.events ++ [.ended f l a] → .granted g m b ∈ r.events :=
      fun g m b hm => (mem_concat (by simp)).mp hm
    refine ⟨hlocks ▸ h.regular.finish hl, fun g m b hm => ?_,
      fun g m b hm => h.granted g m b (hgrants g m b hm), ?_, fun g m b hm => ?_, hpast, hordered, fun client hclient => ?_⟩
    · exact htimer ▸ h.fresh g m b (hgrants g m b hm)
    · rw [List.filterMap_append, show [Event.ended f l a].filterMap Event.gives = [] from rfl, List.append_nil]
      exact h.answered
    · rcases List.mem_append.mp hm with hm | hm
      · exact h.ended g m b hm
      · cases List.mem_singleton.mp hm
        exact hwhy
    · have hnotice : [Event.ended f l a].filterMap (notice client) =
          if l.owner = client then [farewell f l a] else [] := by
        simp only [List.filterMap_cons, List.filterMap_nil, notice]
        split_ifs <;> rfl
      rw [htold, pushNotification_notifications hclient, ← List.append_assoc, h.notified client hclient,
        List.filterMap_append, hnotice]

lemma Sound.grants (h : Sound t r history) (hfree : t.fileLocks f = none) (hclock : r.clock ≤ later)
    (timeoutSeconds : ℤ) (hl : l = ⟨clientId, later + timeoutSeconds, t.nextTimer⟩) (timers : List Timer) :
    Sound ⟨Function.update t.fileLocks f (some l), t.notifications, timers, t.nextTimer + 1⟩
      { r with
        clock := later
        events := r.events ++ [.granted f l ⟨.lockSection f timeoutSeconds clientId, later⟩] }
      (history ++ [.lockFile true "" (truncate (l.expiresAt * 1000))]) := by
  subst hl
  have hnew : ∀ g b, .granted g ⟨clientId, later + timeoutSeconds, t.nextTimer⟩ b ∉ r.events := fun g b hm =>
    (h.fresh g _ b hm).false
  obtain ⟨hpast, hordered⟩ := h.ordered_concat
    (e := .granted f ⟨clientId, later + timeoutSeconds, t.nextTimer⟩
      ⟨.lockSection f timeoutSeconds clientId, later⟩) hclock
  refine ⟨h.regular.grant hfree hnew, fun g m b hm => ?_, fun g m b hm => ?_, ?_, fun g m b hm => ?_, hpast,
    hordered, fun client hclient => ?_⟩
  · rcases List.mem_append.mp hm with hm | hm
    · exact (h.fresh g m b hm).trans (Nat.lt_succ_self _)
    · cases List.mem_singleton.mp hm
      exact Nat.lt_succ_self _
  · rcases List.mem_append.mp hm with hm | hm
    · exact h.granted g m b hm
    · cases List.mem_singleton.mp hm
      exact ⟨timeoutSeconds, rfl, rfl⟩
  · rw [List.filter_append, List.filterMap_append, List.map_append, h.answered]
    rfl
  · exact h.ended g m b ((mem_concat (by simp)).mp hm)
  · rw [List.filterMap_append, show [Event.granted f _ _].filterMap (notice client) = [] from rfl, List.append_nil]
    exact h.notified client hclient

lemma Sound.locks (h : Sound t r history) (hnow : r.clock ≤ now) (hlater : now ≤ later) (f clientId : String)
    (timeoutSeconds : ℤ) :
    Sound (t.lock now f later timeoutSeconds clientId).1
      { r with
        clock := later
        events := r.events ++ t.changes (t.lock now f later timeoutSeconds clientId).1 f
          (.lockSection f timeoutSeconds clientId) now later }
      (history ++ [(t.lock now f later timeoutSeconds clientId).2]) := by
  set c : LockCall := .lockSection f timeoutSeconds clientId
  have hends : Ends t (t.cleanupExpired now f) f ⟨c, now⟩ := t.cleanupExpired_ends now f c
  have hcleaned := h.ends hends hnow later
  simp only [lock]
  cases hu : (t.cleanupExpired now f).fileLocks f with
  | some l => exact (hcleaned.ticks hlater).replies (returns_replies rfl)
  | none =>
    dsimp only
    set l : LockInfo := ⟨clientId, later + timeoutSeconds, (t.cleanupExpired now f).nextTimer⟩ with hl
    have hne : t.fileLocks f ≠ some l := fun hheld => by
      obtain ⟨b, hb⟩ := h.regular.granted_of_held hheld
      have hlt := h.fresh f l b hb
      rw [hl, hends.nextTimer_eq] at hlt
      exact hlt.false
    rw [changes_granted (u := t.cleanupExpired now f) (l := l) hu (Function.update_self ..) hne,
      ← List.append_assoc]
    exact hcleaned.grants hu hlater timeoutSeconds hl _

lemma Sound.fetches (h : Sound t r history) (clientId : String) :
    Sound (t.takeNotifications clientId).1
      { r with
        fetched := fun client => r.fetched client ++
          if some clientId = some client then t.notifications clientId else [] }
      history := by
  refine { h with notified := fun client hclient => ?_ }
  rw [← h.notified client hclient, takeNotifications]
  by_cases hc : clientId = client
  · subst hc
    simp
  · have hne : some clientId ≠ some client := fun heq => hc (Option.some.inj heq)
    simp only [if_neg hne, List.append_nil, Function.update_of_ne (Ne.symm hc)]

end LockTable

namespace WatchedLocks

open LockTable DSFSServicer

variable {ι : Type} [DecidableEq ι] {x y : WatchedLocks ι} {now later : ℚ} {c : LockCall}

lemma note_eq (hc : c.fetches = none) (after : LockTable) (p : LockProgress) :
    x.note c now later after p =
      { x.record with
        clock := later
        events := x.record.events ++
          (x.server.locksAt c).toList.flatMap fun f => x.table.changes after f c now later } := by
  simp [note, hc]

/-- A step that works on the lock of one file, and ends it at most. -/
lemma note_ends (h : Sound x.table x.record x.history) (hnow : x.record.clock ≤ now) (hlater : now ≤ later)
    (hc : c.fetches = none) {f : String} (hf : x.server.locksAt c = some f) {u : LockTable}
    (hends : Ends x.table u f ⟨c, now⟩) {p : LockProgress} (hp : ∀ q ∈ p.replies, q.isGrant = false) :
    Sound u (x.note c now later u p) (x.history ++ p.replies) := by
  rw [note_eq hc, hf]
  simp only [Option.toList_some, List.flatMap_cons, List.flatMap_nil, List.append_nil]
  exact ((h.ends hends hnow later).ticks hlater).replies hp

/-- A step that works on no lock. -/
lemma note_none (h : Sound x.table x.record x.history) (hnow : x.record.clock ≤ now) (hlater : now ≤ later)
    (hc : c.fetches = none) (hf : x.server.locksAt c = none) {p : LockProgress}
    (hp : ∀ q ∈ p.replies, q.isGrant = false) :
    Sound x.table (x.note c now later x.table p) (x.history ++ p.replies) := by
  rw [note_eq hc, hf]
  simp only [Option.toList_none, List.flatMap_nil, List.append_nil]
  exact (h.ticks (hnow.trans hlater)).replies hp

lemma turn_sound (h : Sound x.table x.record x.history) (hnow : x.record.clock ≤ now) (hlater : now ≤ later)
    (c : LockCall) :
    Sound (x.server.turn x.table now later c).2.1
      (x.note c now later (x.server.turn x.table now later c).2.1 (x.server.turn x.table now later c).2.2)
      (x.history ++ (x.server.turn x.table now later c).2.2.replies) := by
  cases c with
  | file c =>
    have htable : (x.server.turn x.table now later (.file c)).2.1 = x.server.lookedUp x.table now c := by
      simp only [turn]
      split <;> rfl
    have hreplies : ∀ q ∈ (x.server.turn x.table now later (.file c)).2.2.replies, q.isGrant = false := by
      simp only [turn]
      split
      · exact fun q hq => by cases hq
      · exact returns_replies rfl
    rw [htable, lookedUp]
    cases hf : x.server.looksUp c with
    | none => exact note_none (c := .file c) h hnow hlater rfl hf hreplies
    | some f => exact note_ends (c := .file c) h hnow hlater rfl hf (x.table.cleanupExpired_ends now f _) hreplies
  | lockFile f timeoutSeconds clientId =>
    simp only [turn]
    split_ifs
    · exact note_none h hnow hlater rfl rfl (returns_replies rfl)
    · exact note_none h hnow hlater rfl rfl (returns_replies rfl)
    · exact note_none h hnow hlater rfl rfl fun q hq => by cases hq
  | lockSection f timeoutSeconds clientId =>
    rw [note_eq rfl]
    simp only [locksAt, Option.toList_some, List.flatMap_cons, List.flatMap_nil, List.append_nil]
    exact h.locks hnow hlater f clientId timeoutSeconds
  | unlockFile f clientId =>
    refine note_ends h hnow hlater rfl rfl (x.table.unlock_ends now f clientId) (returns_replies ?_)
    simp only [unlock]
    split
    · rfl
    · split_ifs <;> rfl
  | getLockNotifications clientId =>
    have hsound := ((h.ticks (hnow.trans hlater)).fetches clientId).replies
      (returns_replies (r := .lockNotification (x.table.notifications clientId)) rfl)
    simpa [note, turn, LockCall.fetches, LockProgress.messages, LockProgress.replies, locksAt, takeNotifications]
      using hsound
  | autoRelease f owner =>
    exact note_ends h hnow hlater rfl rfl (x.table.autoRelease_ends now f owner _) fun q hq => by cases hq

lemma settle_spec (x : LockSystem ι) (t : ι) (p : LockProgress) :
    (x.settle t p).table = x.table ∧ (x.settle t p).history = x.history ++ p.replies := by
  cases p with
  | returns r => exact ⟨rfl, rfl⟩
  | goesOn c => exact ⟨rfl, (List.append_nil _).symm⟩
  | ends => exact ⟨rfl, (List.append_nil _).symm⟩

lemma step_sound (h : Sound x.table x.record x.history) {a : LockLabel ι} (ha : x.InTime a)
    (hs : x.step a = some y) :
    Sound y.table y.record y.history := by
  obtain ⟨z, hz, rfl⟩ := Option.map_eq_some_iff.mp hs
  cases a with
  | call t c =>
    simp only [LockSystem.step] at hz
    split_ifs at hz
    obtain rfl := Option.some.inj hz
    exact h
  | fire t timer =>
    simp only [LockSystem.step] at hz
    split_ifs at hz
    obtain rfl := Option.some.inj hz
    exact h.same rfl rfl rfl
  | run t now later =>
    obtain ⟨c, hc, rfl⟩ := Option.map_eq_some_iff.mp hz
    simp only [hc, settle_spec]
    exact turn_sound h ha.1 ha.2 c

lemma Accounted.of_sound (h : Sound x.table x.record x.history) : x.Accounted where
  granted := h.granted
  answered := h.answered
  held _ _ := h.regular.held_iff
  once := ⟨h.regular.gives_nodup, h.regular.takes_nodup⟩
  ended := h.ended
  exclusive pre post f l a hsplit m b hm := by
    have hregular := h.regular
    have hordered := h.ordered
    rw [hsplit] at hregular hordered
    obtain ⟨c, hc⟩ := hregular.ended_before hm
    have hle := (List.pairwise_append.mp hordered).2.2 _ hc _ (List.mem_cons_self ..)
    have hended := h.ended f m c (hsplit ▸ List.mem_append_left _ hc)
    exact ⟨c, hc, hended.imp_right fun hexpired => hexpired.trans hle⟩
  notified := h.notified

/-- With a clock that does not go back, a lock stays in the table until its owner unlocks it or it has expired; its
file is not locked again before; and its owner gets one message when it ends. -/
theorem lock_lifetime (disk : String → Option FileData) (clock : ℚ) (h : Run step InTime (start disk clock) x) :
    x.Accounted :=
  .of_sound (Run.invariant (I := fun x : WatchedLocks ι => Sound x.table x.record x.history)
    (fun _ _ _ hx hc hs => step_sound hx hc hs) h (new_sound clock))

instance decidableInTime (x : WatchedLocks ι) (a : LockLabel ι) : Decidable (x.InTime a) :=
  match a with
  | .run _ now later => inferInstanceAs (Decidable (x.record.clock ≤ now ∧ now ≤ later))
  | .call .. | .fire .. => isTrue trivial

/-- The client locks the file for ten seconds. -/
def lockingAt (time : ℚ) : List (LockLabel Bool) :=
  [.call false (.lockFile "a" 10 "c"), .run false time time, .run false time time]

def superseded : List (Event String LockInfo LockStep) :=
  [.granted "a" ⟨"c", 10, 1⟩ ⟨.lockSection "a" 10 "c", 0⟩, .ended "a" ⟨"c", 10, 1⟩ ⟨.lockSection "a" 10 "c", 11⟩,
    .granted "a" ⟨"c", 21, 2⟩ ⟨.lockSection "a" 10 "c", 11⟩, .ended "a" ⟨"c", 21, 2⟩ ⟨.unlockFile "a" "c", 13⟩]

/-- The first timer fires, but its callback runs only when the lock has been given to the client again. -/
theorem lock_lifetime_superseded : ∃ x : WatchedLocks Bool, x.record.events = superseded ∧
    x.record.fetched "c" = [LockTable.timedOut "a", LockTable.releasedExplicitly "a"] ∧ x.Accounted := by
  obtain ⟨x, hx, hevents, hfetched⟩ := Run.exists_of_execute (guarded step InTime)
    (start (fun f => if f = "a" then some [0] else none) 0)
    (lockingAt 0 ++ [.fire true ⟨1, "a", "c"⟩] ++ lockingAt 11 ++ [.run true 12 12,
      .call false (.unlockFile "a" "c"), .run false 13 13, .call false (.getLockNotifications "c"),
      .run false 14 14])
    (fun x => x.record.events = superseded ∧
      x.record.fetched "c" = [LockTable.timedOut "a", LockTable.releasedExplicitly "a"]) (by decide +kernel)
  exact ⟨x, hevents, hfetched, lock_lifetime _ _ hx.of_guarded⟩

end WatchedLocks

end DistributedStorage.Files
