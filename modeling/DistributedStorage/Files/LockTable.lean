import DistributedStorage.Files.Locks
import Mathlib.Algebra.Order.Ring.Unbundled.Rat

/-! What the handlers of the file server do to the table of locks. -/

namespace DistributedStorage.Files

/-- The step in which a lock was granted or ended, and what the clock showed. -/
structure LockStep where
  call : LockCall
  time : ℚ
  deriving DecidableEq

namespace LockTable

def releasedExplicitly (filename : String) : String := "Lock on '" ++ filename ++ "' was released explicitly."

/-- What the owner of a lock is told when it ends. -/
def farewell (f : String) (l : LockInfo) (a : LockStep) : String :=
  if a.call = .unlockFile f l.owner ∧ a.time < l.expiresAt then releasedExplicitly f else timedOut f

variable {t u : LockTable} {f clientId : String} {l : LockInfo} {a : LockStep}

lemma pushNotification_fileLocks (t : LockTable) (clientId message : String) :
    (t.pushNotification clientId message).fileLocks = t.fileLocks := by
  simp only [pushNotification]
  split_ifs <;> rfl

lemma pushNotification_nextTimer (t : LockTable) (clientId message : String) :
    (t.pushNotification clientId message).nextTimer = t.nextTimer := by
  simp only [pushNotification]
  split_ifs <;> rfl

lemma pushNotification_notifications {client : String} (hc : client ≠ "") (message : String) :
    (t.pushNotification clientId message).notifications client =
      t.notifications client ++ if clientId = client then [message] else [] := by
  simp only [pushNotification]
  by_cases hclient : clientId = client
  · subst hclient
    rw [if_neg hc, if_pos rfl]
    exact Function.update_self ..
  · rw [if_neg hclient, List.append_nil]
    split_ifs
    · rfl
    · exact Function.update_of_ne (Ne.symm hclient) ..

/-- The lock of `f` stays, or it ends and its owner is told. -/
inductive Ends (t u : LockTable) (f : String) (a : LockStep) : Prop
  | stays (hlocks : u.fileLocks = t.fileLocks) (htold : u.notifications = t.notifications)
    (htimer : u.nextTimer = t.nextTimer)
  | ends (l : LockInfo) (hl : t.fileLocks f = some l)
    (hwhy : a.call = .unlockFile f l.owner ∨ l.expiresAt ≤ a.time)
    (hlocks : u.fileLocks = Function.update t.fileLocks f none)
    (htold : u.notifications = (t.pushNotification l.owner (farewell f l a)).notifications)
    (htimer : u.nextTimer = t.nextTimer)

/-- A lock that has expired goes, whatever the call is. -/
lemma Ends.expires (hl : t.fileLocks f = some l) (he : ¬a.time < l.expiresAt) (timers : List Timer) :
    Ends t ((({ t with timers := timers } : LockTable).pop f).pushNotification l.owner (timedOut f)) f a := by
  have htold : farewell f l a = timedOut f := if_neg fun h => he h.2
  refine .ends l hl (.inr (not_lt.mp he)) (pushNotification_fileLocks ..) ?_ (pushNotification_nextTimer ..)
  rw [htold]
  simp only [pushNotification]
  split_ifs <;> rfl

lemma Ends.nextTimer_eq (h : Ends t u f a) : u.nextTimer = t.nextTimer := by
  cases h with
  | stays _ _ htimer => exact htimer
  | ends _ _ _ _ _ htimer => exact htimer

lemma cleanupExpired_cases (t : LockTable) (now : ℚ) (f : String) :
    (t.cleanupExpired now f = t ∧ ∀ l, t.fileLocks f = some l → now < l.expiresAt) ∨
      ∃ l, t.fileLocks f = some l ∧ ¬now < l.expiresAt ∧
        t.cleanupExpired now f = ((t.cancel l.timer).pop f).pushNotification l.owner (timedOut f) := by
  simp only [cleanupExpired]
  cases hl : t.fileLocks f with
  | none => exact .inl ⟨rfl, fun l h => by cases h⟩
  | some l =>
    by_cases hlt : now < l.expiresAt
    · exact .inl ⟨if_pos hlt, fun m hm => Option.some.inj hm ▸ hlt⟩
    · exact .inr ⟨l, rfl, hlt, if_neg hlt⟩

lemma cleanupExpired_ends (t : LockTable) (now : ℚ) (f : String) (c : LockCall) :
    Ends t (t.cleanupExpired now f) f ⟨c, now⟩ := by
  obtain ⟨hsame, -⟩ | ⟨l, hl, he, hgone⟩ := t.cleanupExpired_cases now f
  · rw [hsame]
    exact .stays rfl rfl rfl
  · rw [hgone]
    exact .expires hl he _

lemma autoRelease_ends (t : LockTable) (now : ℚ) (f owner : String) (c : LockCall) :
    Ends t (t.autoRelease now f owner) f ⟨c, now⟩ := by
  simp only [autoRelease]
  split
  · exact .stays rfl rfl rfl
  · rename_i l hl
    split_ifs with howner hlt
    · exact .stays rfl rfl rfl
    · exact .stays rfl rfl rfl
    · rw [← not_not.mp howner]
      exact .expires hl hlt _

lemma unlock_ends (t : LockTable) (now : ℚ) (f clientId : String) :
    Ends t (t.unlock now f clientId).1 f ⟨.unlockFile f clientId, now⟩ := by
  obtain ⟨hsame, hlt⟩ | ⟨l, hl, he, hgone⟩ := t.cleanupExpired_cases now f
  · simp only [unlock, hsame]
    cases hl : t.fileLocks f with
    | none => exact .stays rfl rfl rfl
    | some l =>
      dsimp only
      split_ifs with howner
      · exact .stays rfl rfl rfl
      · have hcall : LockCall.unlockFile f clientId = .unlockFile f l.owner := by rw [not_not.mp howner]
        have htold : farewell f l ⟨.unlockFile f clientId, now⟩ = releasedExplicitly f :=
          if_pos ⟨hcall, hlt l hl⟩
        refine .ends l hl (.inl hcall) (pushNotification_fileLocks ..) ?_ (pushNotification_nextTimer ..)
        rw [htold]
        simp only [pushNotification]
        split_ifs <;> rfl
  · -- the lock has gone before the owner is looked at
    have hnone : (t.cleanupExpired now f).fileLocks f = none := by
      rw [hgone, pushNotification_fileLocks]
      exact Function.update_self ..
    have hunlock : (t.unlock now f clientId).1 = t.cleanupExpired now f := by simp only [unlock, hnone]
    rw [hunlock]
    exact t.cleanupExpired_ends now f _

end LockTable

end DistributedStorage.Files
