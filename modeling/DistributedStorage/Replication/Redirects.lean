import DistributedStorage.Replication.Handles

/-! Clients that follow redirects: a Close that a client sent reaches any server, any number of times, with
the handle that one server gave out. -/

namespace DistributedStorage.Replication

open Library Library.Runs Files

structure Thread (S : Service) where
  node : ℕ
  epoch : ℕ
  request : Request
  stage : S.Stage

/-- `epoch n` counts the starts of the server `n`. `active` are the tables `active_handles` of the clients;
`offered` are the handles in answers to Opens, `acked` the Closes that were answered with success. -/
structure System (S : Service) where
  world : World S.Node S.Shared
  epoch : ℕ → ℕ
  threads : ℕ → Option (Thread S)
  active : ℕ → ℤ → Option Ticket
  offered : List (ℕ × Ticket)
  sent : List Sent
  acked : List Sent

inductive Act (S : Service)
  | call (t n : ℕ) (r : Request)
  | receive (client : ℕ) (ticket : Ticket)
  | close (client : ℕ) (handle : ℤ) (data : FileData) (who : Caller)
  | attempt (t n : ℕ) (q : Sent)
  | run (t : ℕ) (a : S.Answer)
  | turn (e : S.Event)
  | restart (n : ℕ)

namespace System

variable {S : Service}

/-- Every server has just started. -/
def init (w : ℕ → S.Node) : System S where
  world := ⟨fun n => S.restart (w n), S.fresh⟩
  epoch _ := 0
  threads _ := none
  active _ _ := none
  offered := []
  sent := []
  acked := []

def setThread (x : System S) (t : ℕ) (th : Option (Thread S)) : System S :=
  { x with threads := Function.update x.threads t th }

def begin (x : System S) (t n : ℕ) (r : Request) : System S :=
  x.setThread t (some ⟨n, x.epoch n, r, S.start r⟩)

def offer (x : System S) (th : Thread S) : Reply → List (ℕ × Ticket)
  | .opened handle _ _ =>
    match th.request with
    | .open client info _ => [(client, ⟨th.node, x.epoch th.node, handle, info⟩)]
    | _ => []
  | _ => []

def ack (th : Thread S) : Reply → List Sent
  | .closed _ => th.request.sent.toList
  | _ => []

/-- Where a handler gets to. -/
def settle (x : System S) (t : ℕ) (th : Thread S) : Outcome S.Stage → System S
  | .goesOn c => x.setThread t (some { th with stage := c })
  | .returns r =>
    { x.setThread t none with offered := x.offered ++ x.offer th r, acked := x.acked ++ ack th r }

def handle (x : System S) (t : ℕ) (th : Thread S) (a : S.Answer) : System S :=
  let out := S.run a x.world th.node th.request th.stage
  { x with world := out.1 }.settle t th out.2

def reboot (x : System S) (n : ℕ) : System S :=
  { x with
    world := x.world.setNode n (S.restart (x.world.nodes n))
    epoch := Function.update x.epoch n (x.epoch n + 1) }

def receive (x : System S) (client : ℕ) (ticket : Ticket) : System S :=
  let table := Function.update (x.active client) ticket.handle (some ticket)
  { x with active := Function.update x.active client table }

/-- The client gives its handle up before it sends the Close. -/
def close (x : System S) (client : ℕ) (handle : ℤ) (q : Sent) : System S :=
  let table := Function.update (x.active client) handle none
  { x with active := Function.update x.active client table, sent := x.sent ++ [q] }

def turn (x : System S) (e : S.Event) : System S := { x with world := S.turn e x.world }

def step (x : System S) : Act S → Option (System S)
  | .call t n r => if x.threads t = none ∧ r.sent = none then some (x.begin t n r) else none
  | .receive client ticket => if (client, ticket) ∈ x.offered then some (x.receive client ticket) else none
  | .close client handle data who =>
    (x.active client handle).map fun ticket => x.close client handle ⟨ticket, data, who⟩
  | .attempt t n q => if x.threads t = none ∧ q ∈ x.sent then some (x.begin t n (.close q)) else none
  | .run t a =>
    (x.threads t).bind fun th => if th.epoch = x.epoch th.node then some (x.handle t th a) else none
  | .turn e => some (x.turn e)
  | .restart n => some (x.reboot n)

/-- The Close a step is made for. -/
def onBehalf (x : System S) : Act S → Option Sent
  | .run t _ => (x.threads t).bind fun th => th.request.sent
  | .turn e => S.onBehalf e x.world.shared
  | _ => none

def table (x : System S) (n : ℕ) : HandleTable := S.table (x.world.nodes n)

/-- A Close takes an entry for writing out of a table only where its handle was given out, by the start of the
server that still runs, or where the entry happens to be the one the client opened. -/
def AtHome (x : System S) : Act S → Prop
  | .run t _ => ∀ th ∈ x.threads t, ∀ h ∈ S.pops th.stage, ∀ q ∈ th.request.sent,
      ∀ info ∈ (x.table th.node).openFiles h, info.mode = "w" →
        q.ticket.node = th.node ∧ q.ticket.epoch = x.epoch th.node ∨ info = q.ticket.opened
  | _ => True

/-- What the steps made for a Close change is the file that its client had opened for writing. -/
def Stays (x : System S) : Prop :=
  ∀ a y, x.AtHome a → x.step a = some y → ∀ q ∈ x.onBehalf a, ∀ f, S.Changes x.world y.world f →
    q.ticket.opened = ⟨f, "w"⟩

/-- Where a client's handle leads, if the server has not been started again. -/
def Good (x : System S) (ticket : Ticket) : Prop :=
  ticket.epoch < x.epoch ticket.node ∨
    ticket.epoch = x.epoch ticket.node ∧ (x.table ticket.node).Holds ticket.handle ticket.opened

/-- What a handler knows, it knows from its request. -/
structure Tied (S : Service) (th : Thread S) : Prop where
  info : (S.carried th.stage).info = th.request.carried.info
  handle : ∀ h ∈ (S.carried th.stage).handle, ∀ q ∈ th.request.sent, h = q.ticket.handle
  file : ∀ f ∈ (S.carried th.stage).file, ∀ q ∈ th.request.sent, q.ticket.opened = ⟨f, "w"⟩

structure Safe (x : System S) : Prop where
  bounded : ∀ n, (x.table n).Bounded
  active : ∀ k h ticket, x.active k h = some ticket → x.Good ticket
  offered : ∀ p ∈ x.offered, x.Good p.2
  sent : ∀ q ∈ x.sent, x.Good q.ticket
  threads : ∀ t th, x.threads t = some th → Tied S th ∧ ∀ q ∈ th.request.sent, q ∈ x.sent
  writes : ∀ p ∈ S.writes x.world.shared, p.1.ticket.opened = ⟨p.2, "w"⟩

variable {x y : System S}

lemma init_safe (d : S.Disciplined) (w : ℕ → S.Node) : Safe (init w) := by
  constructor
  case bounded =>
    intro n
    rw [table, init, d.restart]
    exact HandleTable.empty_bounded
  case active => exact fun k h ticket ht => by cases ht
  case offered => exact fun p hp => by cases hp
  case sent => exact fun q hq => by cases hq
  case threads => exact fun t th ht => by cases ht
  case writes =>
    intro p hp
    rw [init, d.fresh] at hp
    cases hp

/-- A step after which handles lead where they led. -/
structure Keeps (x y : System S) : Prop where
  bounded : ∀ n, (y.table n).Bounded
  good : ∀ ticket, x.Good ticket → y.Good ticket

lemma Safe.of_keeps (h : Safe x) (k : Keeps x y)
    (hactive : ∀ c handle ticket, y.active c handle = some ticket →
      (∃ handle', x.active c handle' = some ticket) ∨ y.Good ticket)
    (hoffered : ∀ p ∈ y.offered, p ∈ x.offered ∨ y.Good p.2)
    (hsent : ∀ q ∈ y.sent, q ∈ x.sent ∨ y.Good q.ticket) (hgrows : ∀ q ∈ x.sent, q ∈ y.sent)
    (hthreads : ∀ t th, y.threads t = some th →
      x.threads t = some th ∨ Tied S th ∧ ∀ q ∈ th.request.sent, q ∈ y.sent)
    (hwrites : ∀ p ∈ S.writes y.world.shared, p ∈ S.writes x.world.shared ∨
      p.1.ticket.opened = ⟨p.2, "w"⟩) : Safe y := by
  constructor
  case bounded => exact k.bounded
  case active =>
    intro c handle ticket ht
    obtain ⟨handle', hold⟩ | hnew := hactive c handle ticket ht
    · exact k.good ticket (h.active c handle' ticket hold)
    · exact hnew
  case offered =>
    intro p hp
    obtain hold | hnew := hoffered p hp
    · exact k.good p.2 (h.offered p hold)
    · exact hnew
  case sent =>
    intro q hq
    obtain hold | hnew := hsent q hq
    · exact k.good q.ticket (h.sent q hold)
    · exact hnew
  case threads =>
    intro t th ht
    obtain hold | hnew := hthreads t th ht
    · obtain ⟨htied, hs⟩ := h.threads t th hold
      exact ⟨htied, fun q hq => hgrows q (hs q hq)⟩
    · exact hnew
  case writes =>
    intro p hp
    obtain hold | hnew := hwrites p hp
    · exact h.writes p hold
    · exact hnew

lemma Keeps.of_table (h : Safe x) (htable : ∀ n, y.table n = x.table n) (hepoch : y.epoch = x.epoch) :
    Keeps x y := by
  constructor
  case bounded => exact fun n => htable n ▸ h.bounded n
  case good =>
    intro ticket hg
    rw [Good, htable, hepoch]
    exact hg

lemma Keeps.of_handling (h : Safe x) {n : ℕ} {c : S.Stage} {o : Outcome S.Stage}
    (hown : S.Handling c (x.table n) (y.table n) o) (hothers : ∀ m, m ≠ n → y.table m = x.table m)
    (hepoch : y.epoch = x.epoch) : Keeps x y := by
  have hbounded : (y.table n).Bounded := hown.bounded (h.bounded n)
  constructor
  case bounded =>
    intro m
    by_cases hm : m = n
    · exact hm ▸ hbounded
    · exact hothers m hm ▸ h.bounded m
  case good =>
    intro ticket hg
    rw [Good, hepoch]
    obtain hold | ⟨hnow, hh⟩ := hg
    · exact .inl hold
    · refine .inr ⟨hnow, ?_⟩
      by_cases hm : ticket.node = n
      · rw [hm] at hh ⊢
        exact hown.holds hh
      · rw [hothers _ hm]
        exact hh

@[simp] lemma settle_world (x : System S) (t : ℕ) (th : Thread S) (o : Outcome S.Stage) :
    (x.settle t th o).world = x.world := by
  cases o <;> rfl

@[simp] lemma settle_epoch (x : System S) (t : ℕ) (th : Thread S) (o : Outcome S.Stage) :
    (x.settle t th o).epoch = x.epoch := by
  cases o <;> rfl

@[simp] lemma settle_active (x : System S) (t : ℕ) (th : Thread S) (o : Outcome S.Stage) :
    (x.settle t th o).active = x.active := by
  cases o <;> rfl

@[simp] lemma settle_sent (x : System S) (t : ℕ) (th : Thread S) (o : Outcome S.Stage) :
    (x.settle t th o).sent = x.sent := by
  cases o <;> rfl

lemma setThread_threads {t t' : ℕ} {th : Option (Thread S)} {th' : Thread S}
    (h : (x.setThread t th).threads t' = some th') : th = some th' ∨ x.threads t' = some th' := by
  simp only [setThread, Function.update_apply] at h
  split_ifs at h
  · exact .inl h
  · exact .inr h

@[simp] lemma handle_epoch (x : System S) (t : ℕ) (th : Thread S) (a : S.Answer) :
    (x.handle t th a).epoch = x.epoch := settle_epoch ..

lemma handle_world (x : System S) (t : ℕ) (th : Thread S) (a : S.Answer) :
    (x.handle t th a).world = (S.run a x.world th.node th.request th.stage).1 := settle_world ..

lemma offer_of_not_open {th : Thread S} {r : Reply} (hinfo : th.request.carried.info = none) :
    x.offer th r = [] := by
  cases hr : th.request with
  | «open» client info fetchData =>
    rw [hr] at hinfo
    cases hinfo
  | _ => cases r <;> simp [offer, hr]

lemma offer_of_not_opened {th : Thread S} {r : Reply} (hr : ∀ handle data version, r ≠ .opened handle data version) :
    x.offer th r = [] := by
  cases r with
  | opened handle data version => exact absurd rfl (hr handle data version)
  | _ => rfl

lemma request_of_info {r : Request} {info : OpenFile} (h : r.carried.info = some info) :
    ∃ client fetchData, r = .open client info fetchData := by
  cases r with
  | «open» client info' fetchData =>
    cases h
    exact ⟨client, fetchData, rfl⟩
  | _ => cases h

/-- The guard is what the step that empties an entry needs; the other steps know their file already. -/
lemma Tied.next (h : Safe x) {t : ℕ} {th : Thread S} (ht : x.threads t = some th)
    {a : S.Answer} (hhome : x.AtHome (.run t a)) {table : HandleTable}
    {c : S.Stage} (hown : S.Handling th.stage (x.table th.node) table (.goesOn c)) :
    Tied S { th with stage := c } := by
  obtain ⟨⟨hinfo, hhandle, hfile⟩, hsent⟩ := h.threads t th ht
  generalize ho : Outcome.goesOn c = o at hown
  cases hown with
  | returns r hr => cases ho
  | issues info data version hi => cases ho
  | goesOn c' hin =>
    cases ho
    exact ⟨hin.info.trans hinfo, fun i hi => hhandle i (hin.handle i hi), fun f hf => hfile f (hin.file f hf)⟩
  | pops handle c' hpops hh hsame hdone hentry =>
    cases ho
    refine ⟨hsame.trans hinfo, fun i hi => ?_, fun f hf q hq => ?_⟩
    · rw [hdone] at hi
      cases hi
    · have hkey : handle = q.ticket.handle := hhandle handle hh q hq
      have hin : (x.table th.node).openFiles handle = some ⟨f, "w"⟩ := hentry f hf
      obtain ⟨hnode, hepoch⟩ | hsame := hhome th ht handle hpops q hq _ hin rfl
      · obtain hold | ⟨-, hholds⟩ := h.sent q (hsent q hq)
        · rw [hnode, hepoch] at hold
          exact absurd hold (Nat.lt_irrefl _)
        · rw [hnode, ← hkey] at hholds
          exact (hholds.2 _ hin).symm
      · exact hsame.symm

lemma Safe.handle (d : S.Disciplined) (h : Safe x) {t : ℕ} {th : Thread S} (ht : x.threads t = some th)
    {a : S.Answer} (hhome : x.AtHome (.run t a)) :
    Safe (x.handle t th a) := by
  have hown := d.own a x.world th.node th.request th.stage
  have hothers := d.others a x.world th.node th.request th.stage
  have hwrites := d.writes a x.world th.node th.request th.stage
  obtain ⟨⟨hinfo, hhandle, hfile⟩, hsent⟩ := h.threads t th ht
  have htable : ∀ n, (x.handle t th a).table n =
      S.table ((S.run a x.world th.node th.request th.stage).1.nodes n) := by
    intro n
    rw [table, handle_world]
  have hkeeps : Keeps x (x.handle t th a) := by
    have hown' : S.Handling th.stage (x.table th.node) ((x.handle t th a).table th.node) _ :=
      (htable th.node).symm ▸ hown
    exact Keeps.of_handling h hown' (fun m hm => (htable m).trans (hothers m hm)) (handle_epoch x t th a)
  apply h.of_keeps hkeeps
  case hactive =>
    intro k i ticket hk
    rw [System.handle, settle_active] at hk
    exact .inl ⟨i, hk⟩
  case hoffered =>
    intro p hp
    rw [System.handle] at hp
    generalize ho : (S.run a x.world th.node th.request th.stage).2 = o at hp hown
    cases o with
    | goesOn c => exact .inl hp
    | returns r =>
      obtain hold | hnew := List.mem_append.mp hp
      · exact .inl hold
      · right
        generalize ht' : S.table ((S.run a x.world th.node th.request th.stage).1.nodes th.node) = table at hown
        have hnode := (htable th.node).trans ht'
        cases hown with
        | returns r hr =>
          have hnone : offer { x with world := (S.run a x.world th.node th.request th.stage).1 } th r = [] := by
            obtain hclosed | hr := hr
            · exact offer_of_not_open (hinfo.symm.trans hclosed)
            · exact offer_of_not_opened hr
          rw [hnone] at hnew
          cases hnew
        | issues info data version hi =>
          obtain ⟨client, fetchData, hr⟩ := request_of_info (hinfo.symm.trans hi)
          simp only [offer, hr] at hnew
          obtain rfl := List.mem_singleton.mp hnew
          refine .inr ⟨(congrFun (handle_epoch x t th a) th.node).symm, ?_⟩
          rw [hnode]
          exact HandleTable.issue_holds _ info
  case hsent =>
    intro q hq
    rw [System.handle, settle_sent] at hq
    exact .inl hq
  case hgrows =>
    intro q hq
    rw [System.handle, settle_sent]
    exact hq
  case hthreads =>
    intro t' th' ht'
    rw [System.handle] at ht'
    have hsent' : ∀ q ∈ th.request.sent, q ∈ (x.handle t th a).sent := by
      rw [System.handle, settle_sent]
      exact hsent
    generalize ho : (S.run a x.world th.node th.request th.stage).2 = o at ht' hown
    cases o with
    | goesOn c =>
      obtain hth | hold := setThread_threads ht'
      · cases hth
        exact .inr ⟨Tied.next h ht hhome hown, hsent'⟩
      · exact .inl hold
    | returns r =>
      obtain hth | hold := setThread_threads ht'
      · cases hth
      · exact .inl hold
  case hwrites =>
    intro p hp
    rw [handle_world] at hp
    obtain hold | ⟨hq, hf⟩ := hwrites p hp
    · exact .inl hold
    · exact .inr (hfile p.2 hf p.1 hq)

lemma Safe.begin (d : S.Disciplined) (h : Safe x) {t n : ℕ} {r : Request} (hr : ∀ q ∈ r.sent, q ∈ x.sent) :
    Safe (x.begin t n r) := by
  apply h.of_keeps (Keeps.of_table (y := x.begin t n r) h (fun _ => rfl) rfl)
  case hactive => exact fun k i ticket hk => .inl ⟨i, hk⟩
  case hoffered => exact fun p hp => .inl hp
  case hsent => exact fun q hq => .inl hq
  case hgrows => exact fun q hq => hq
  case hwrites => exact fun p hp => .inl hp
  case hthreads =>
    intro t' th ht
    obtain hth | hold := setThread_threads ht
    · right
      cases hth
      refine ⟨⟨?_, fun i hi q hq => ?_, fun f hf q hq => ?_⟩, hr⟩
      · rw [d.start]
      · rw [d.start] at hi
        cases r <;> cases hq
        exact (Option.some.inj hi).symm
      · rw [d.start] at hf
        cases r <;> cases hq
        cases hf
    · exact .inl hold

lemma Safe.reboot (d : S.Disciplined) (h : Safe x) (n : ℕ) : Safe (x.reboot n) := by
  have hself : (x.reboot n).table n = .empty := by
    rw [table, System.reboot, World.setNode_self, d.restart]
  have hothers : ∀ m, m ≠ n → (x.reboot n).table m = x.table m := by
    intro m hm
    rw [table, System.reboot, World.setNode_of_ne _ _ hm]
    rfl
  have hepoch : ∀ m, (x.reboot n).epoch m = if m = n then x.epoch n + 1 else x.epoch m := fun m =>
    Function.update_apply ..
  have hkeeps : Keeps x (x.reboot n) := by
    constructor
    case bounded =>
      intro m
      by_cases hm : m = n
      · rw [hm, hself]
        exact HandleTable.empty_bounded
      · rw [hothers m hm]
        exact h.bounded m
    case good =>
      intro ticket hg
      by_cases hm : ticket.node = n
      · left
        rw [hepoch, if_pos hm, ← hm]
        obtain hold | ⟨hnow, -⟩ := hg
        · exact Nat.lt_succ_of_lt hold
        · exact Nat.lt_succ_of_le (Nat.le_of_eq hnow)
      · rw [Good, hepoch, if_neg hm, hothers _ hm]
        exact hg
  apply h.of_keeps hkeeps
  case hactive => exact fun k i ticket hk => .inl ⟨i, hk⟩
  case hoffered => exact fun p hp => .inl hp
  case hsent => exact fun q hq => .inl hq
  case hgrows => exact fun q hq => hq
  case hthreads => exact fun t th ht => .inl ht
  case hwrites => exact fun p hp => .inl hp

lemma Safe.receive (h : Safe x) {client : ℕ} {ticket : Ticket} (hoffer : (client, ticket) ∈ x.offered) :
    Safe (x.receive client ticket) := by
  apply h.of_keeps (Keeps.of_table (y := x.receive client ticket) h (fun _ => rfl) rfl)
  case hactive =>
    intro k i ticket' hk
    simp only [System.receive, Function.update_apply] at hk
    split_ifs at hk with hk'
    · rw [Function.update_apply] at hk
      split_ifs at hk
      · cases hk
        exact .inr (h.offered _ hoffer)
      · exact .inl ⟨i, hk' ▸ hk⟩
    · exact .inl ⟨i, hk⟩
  case hoffered => exact fun p hp => .inl hp
  case hsent => exact fun q hq => .inl hq
  case hgrows => exact fun q hq => hq
  case hthreads => exact fun t th ht => .inl ht
  case hwrites => exact fun p hp => .inl hp

lemma Safe.close (h : Safe x) {client : ℕ} {i : ℤ} {q : Sent} (hticket : x.active client i = some q.ticket) :
    Safe (x.close client i q) := by
  apply h.of_keeps (Keeps.of_table (y := x.close client i q) h (fun _ => rfl) rfl)
  case hactive =>
    intro k i' ticket' hk
    simp only [System.close, Function.update_apply] at hk
    split_ifs at hk with hk'
    · rw [Function.update_apply] at hk
      split_ifs at hk
      exact .inl ⟨i', hk' ▸ hk⟩
    · exact .inl ⟨i', hk⟩
  case hoffered => exact fun p hp => .inl hp
  case hsent =>
    intro q' hq
    obtain hold | hnew := List.mem_append.mp hq
    · exact .inl hold
    · obtain rfl := List.mem_singleton.mp hnew
      exact .inr (h.active client i _ hticket)
  case hgrows => exact fun q' hq => List.mem_append_left _ hq
  case hthreads =>
    intro t th ht
    exact .inl ht
  case hwrites => exact fun p hp => .inl hp

lemma Safe.turn (d : S.Disciplined) (h : Safe x) (e : S.Event) : Safe (x.turn e) := by
  apply h.of_keeps (Keeps.of_table (y := x.turn e) h (d.turnTable e x.world) rfl)
  case hactive => exact fun k i ticket hk => .inl ⟨i, hk⟩
  case hoffered => exact fun p hp => .inl hp
  case hsent => exact fun q hq => .inl hq
  case hgrows => exact fun q hq => hq
  case hthreads => exact fun t th ht => .inl ht
  case hwrites => exact fun p hp => .inl (d.turnWrites e x.world p hp)

lemma Safe.step (d : S.Disciplined) (h : Safe x) {a : Act S} (hs : x.step a = some y) (hhome : x.AtHome a) :
    Safe y := by
  cases a with
  | call t n r =>
    simp only [System.step, Option.ite_none_right_eq_some, Option.some.injEq] at hs
    obtain ⟨⟨-, hr⟩, rfl⟩ := hs
    exact h.begin d fun q hq => by rw [hr] at hq; cases hq
  | receive client ticket =>
    simp only [System.step, Option.ite_none_right_eq_some, Option.some.injEq] at hs
    obtain ⟨hoffer, rfl⟩ := hs
    exact h.receive hoffer
  | close client i data who =>
    obtain ⟨ticket, hticket, rfl⟩ := Option.map_eq_some_iff.mp hs
    exact h.close hticket
  | attempt t n q =>
    simp only [System.step, Option.ite_none_right_eq_some, Option.some.injEq] at hs
    obtain ⟨⟨-, hq⟩, rfl⟩ := hs
    apply h.begin d
    intro q' hq'
    cases hq'
    exact hq
  | run t b =>
    obtain ⟨th, ht, hrun⟩ := Option.bind_eq_some_iff.mp hs
    simp only [Option.ite_none_right_eq_some, Option.some.injEq] at hrun
    obtain ⟨-, rfl⟩ := hrun
    exact h.handle d ht hhome
  | turn e =>
    cases hs
    exact h.turn d e
  | restart n =>
    cases hs
    exact h.reboot d n

lemma Safe.stays (d : S.Disciplined) (h : Safe x) : x.Stays := by
  intro a y hhome hs q hq f hchange
  cases a with
  | run t b =>
    obtain ⟨th, ht, hrun⟩ := Option.bind_eq_some_iff.mp hs
    simp only [Option.ite_none_right_eq_some, Option.some.injEq] at hrun
    obtain ⟨-, rfl⟩ := hrun
    rw [onBehalf, ht, Option.bind_some] at hq
    rw [handle_world] at hchange
    exact (h.threads t th ht).1.file f (d.changes b x.world th.node th.request th.stage f hchange) q hq
  | turn e =>
    cases hs
    exact h.writes (q, f) (d.turnChanges e x.world q f hq hchange)
  | _ => cases hq

/-- Whatever the servers of a disciplined service do. -/
lemma stays_of_run (d : S.Disciplined) {w : ℕ → S.Node} (h : Run step AtHome (init w) x) : x.Stays :=
  (h.invariant (fun _ _ _ hi hc hs => hi.step d hs hc) (init_safe d w)).stays d

end System

end DistributedStorage.Replication
