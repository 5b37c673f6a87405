import DistributedStorage.Replication.Recovery

/-! Backups that are up from the start hold what the primary holds, once no handler is at work. -/

namespace DistributedStorage.Replication

open Library Library.Runs Files

/-- The handler has still to bring the version `n` of `f` to the backup `b`. -/
def Call.Delivers (b : ℕ) (f : String) (n : ℕ) : Call → Prop
  | .replicateWrite g _ m _ l => g = f ∧ m = n ∧ b ∈ l
  | _ => False

/-- The handler has still to create `f` at the backup `b`. -/
def Call.Creates (b : ℕ) (f : String) : Call → Prop
  | .createVersion g _ | .closeUpdate g _ _ => g = f
  | .replicateCreate g _ l | .replicateCreateFile g _ l | .replicateWrite g _ _ _ l => g = f ∧ b ∈ l
  | .replicateCreateVersion g _ l => g = f ∧ b ∈ l.tail
  | _ => False

namespace Cluster

variable {peers : List ℕ} {x y : Cluster}

def Pending (x : Cluster) (q : Call → Prop) : Prop := ∃ t c, x.calls.get t = some c ∧ q c

lemma Pending.moves {q : Call → Prop} {t : ℕ} {after : Option Call} (h : x.Pending q)
    (hmoves : x.Moves y t after) : (∃ c ∈ x.calls.get t, q c) ∨ y.Pending q := by
  obtain ⟨t', c, hc, hq⟩ := h
  by_cases ht : t = t'
  · subst ht
    exact .inl ⟨c, hc, hq⟩
  · right
    refine ⟨t', c, ?_, hq⟩
    rw [hmoves t', if_neg ht]
    exact hc

lemma Pending.of_moves {q : Call → Prop} {t : ℕ} {after : Option Call} (hmoves : x.Moves y t after) {c : Call}
    (hc : c ∈ after) (hq : q c) : y.Pending q :=
  ⟨t, c, (hmoves t).trans ((if_pos rfl).trans hc), hq⟩

/-- The backup `b` holds `f` as the primary does, or a handler is about to see to it. -/
structure Follows (x : Cluster) (b : ℕ) (f : String) : Prop where
  version : (x.backups b).version f = x.primary.version f ∨ x.Pending (Call.Delivers b f (x.primary.version f))
  created : (x.primary.disk f).isSome → ((x.backups b).disk f).isSome ∨ x.Pending (Call.Creates b f)
  known : ((x.backups b).disk f).isSome → (x.primary.disk f).isSome

/-- A step that changes no version and creates `f` nowhere but in a handler that will create it at `b`. -/
lemma Follows.moves {b t : ℕ} {f : String} {after : Option Call} (h : x.Follows b f)
    (hmoves : x.Moves y t after) (hversion : y.primary.version f = x.primary.version f)
    (hbackup : (y.backups b).version f = (x.backups b).version f)
    (hdisk : (x.primary.disk f).isSome → (y.primary.disk f).isSome)
    (hnew : (y.primary.disk f).isSome → (x.primary.disk f).isSome ∨ ∃ c ∈ after, c.Creates b f)
    (hheld : ((x.backups b).disk f).isSome → ((y.backups b).disk f).isSome)
    (hknown : ((y.backups b).disk f).isSome → ((x.backups b).disk f).isSome ∨ (y.primary.disk f).isSome)
    (hdelivers : ∀ c ∈ x.calls.get t, c.Delivers b f (x.primary.version f) →
      ∃ c' ∈ after, c'.Delivers b f (x.primary.version f))
    (hcreates : ∀ c ∈ x.calls.get t, c.Creates b f →
      ((y.backups b).disk f).isSome ∨ ∃ c' ∈ after, c'.Creates b f) : y.Follows b f := by
  constructor
  case version =>
    rw [hversion, hbackup]
    obtain hsame | hpending := h.version
    · exact .inl hsame
    · right
      obtain ⟨c, hc, hq⟩ | hpending := hpending.moves hmoves
      · obtain ⟨c', hc', hq'⟩ := hdelivers c hc hq
        exact Pending.of_moves hmoves hc' hq'
      · exact hpending
  case created =>
    intro hy
    obtain hx | ⟨c, hc, hq⟩ := hnew hy
    · obtain hb | hpending := h.created hx
      · exact .inl (hheld hb)
      · obtain ⟨c, hc, hq⟩ | hpending := hpending.moves hmoves
        · obtain hb | ⟨c', hc', hq'⟩ := hcreates c hc hq
          · exact .inl hb
          · exact .inr (Pending.of_moves hmoves hc' hq')
        · exact .inr hpending
    · exact .inr (Pending.of_moves hmoves hc hq)
  case known =>
    intro hb
    obtain hold | hnew := hknown hb
    · exact hdisk (h.known hold)
    · exact hnew

/-- The loop over the peers is over, or the handler has none. -/
def Idle : Call → Prop
  | .replicateWrite _ _ _ _ (_ :: _) | .replicateCreate _ _ (_ :: _) | .replicateCreateFile _ _ (_ :: _)
  | .replicateCreateVersion _ _ (_ :: _) => False
  | _ => True

lemma not_delivers_of_idle {c : Call} (hidle : Idle c) (b : ℕ) (f : String) (n : ℕ) : ¬c.Delivers b f n := by
  cases c with
  | replicateWrite g data m who l =>
    cases l with
    | nil => exact fun h => List.not_mem_nil h.2.2
    | cons b' l => cases hidle
  | _ => exact id

lemma not_creates_of_idle {c : Call} (hquiet : c.writes = false) (hidle : Idle c) (b : ℕ) (f : String) :
    ¬c.Creates b f := by
  cases c with
  | createVersion g who => cases hquiet
  | closeUpdate g data who => cases hquiet
  | replicateWrite g data m who l =>
    cases l with
    | nil => exact fun h => List.not_mem_nil h.2
    | cons b' l => cases hidle
  | replicateCreate g who l =>
    cases l with
    | nil => exact fun h => List.not_mem_nil h.2
    | cons b' l => cases hidle
  | replicateCreateFile g who l =>
    cases l with
    | nil => exact fun h => List.not_mem_nil h.2
    | cons b' l => cases hidle
  | replicateCreateVersion g who l =>
    cases l with
    | nil => exact fun h => List.not_mem_nil h.2
    | cons b' l => cases hidle
  | _ => exact id

lemma Follows.quiet {b t : ℕ} {f : String} {c : Call} (h : x.Follows b f) (hc : x.calls.get t = some c)
    (hquiet : c.writes = false) (hidle : Idle c) : (x.atPrimary peers t c).Follows b f := by
  have q := x.primary.run_quiet peers hquiet
  apply h.moves (atPrimary_moves t c)
  case hversion => rw [atPrimary_primary, q.version]
  case hbackup => rw [atPrimary_backups]
  case hdisk =>
    rw [atPrimary_primary, q.disk]
    exact id
  case hnew =>
    rw [atPrimary_primary, q.disk]
    exact .inl
  case hheld =>
    rw [atPrimary_backups]
    exact id
  case hknown =>
    rw [atPrimary_backups]
    exact .inl
  case hdelivers =>
    intro c' hc' hd
    cases hc.symm.trans hc'
    exact absurd hd (not_delivers_of_idle hidle b f _)
  case hcreates =>
    intro c' hc' hd
    cases hc.symm.trans hc'
    exact absurd hd (not_creates_of_idle hquiet hidle b f)

/-- A handler writes a file at the primary and goes on to see to the backups. -/
lemma Follows.writesFile {b t : ℕ} {f g : String} {data : FileData} {c d : Call} (h : x.Follows b f)
    (hc : x.calls.get t = some c) (hrun : x.primary.run peers c = (x.primary.writeFile g data, .goesOn d))
    (hcreates : g = f → d.Creates b f) (hdelivers : ∀ n, ¬c.Delivers b f n) (hnew : ¬c.Creates b f) :
    (x.atPrimary peers t c).Follows b f := by
  have hout : (x.primary.run peers c).2 = .goesOn d := congrArg Prod.snd hrun
  have hmoves : x.Moves (x.atPrimary peers t c) t (after (.goesOn d)) := hout ▸ atPrimary_moves t c
  have hprimary : (x.atPrimary peers t c).primary = x.primary.writeFile g data := by rw [atPrimary_primary, hrun]
  apply h.moves hmoves
  case hversion => rw [hprimary, ReplicatedDSFSServer.writeFile_version]
  case hbackup => rw [atPrimary_backups]
  case hdisk =>
    intro hf
    rw [hprimary, ReplicatedDSFSServer.writeFile_disk, hf]
    exact Bool.or_true _
  case hnew =>
    rw [hprimary, ReplicatedDSFSServer.writeFile_disk]
    intro hf
    obtain hfg | hold := Bool.or_eq_true_iff.mp hf
    · exact .inr ⟨d, rfl, hcreates (of_decide_eq_true hfg).symm⟩
    · exact .inl hold
  case hheld =>
    rw [atPrimary_backups]
    exact id
  case hknown =>
    rw [atPrimary_backups]
    exact .inl
  case hdelivers =>
    intro c' hc' hd
    cases hc.symm.trans hc'
    exact (hdelivers _ hd).elim
  case hcreates =>
    intro c' hc' hd
    cases hc.symm.trans hc'
    exact (hnew hd).elim

lemma Follows.createFile {b t : ℕ} {f g : String} {who : Caller} (h : x.Follows b f)
    (hc : x.calls.get t = some (.createFile g who)) : (x.atPrimary peers t (.createFile g who)).Follows b f :=
  h.writesFile hc rfl id (fun _ => id) id

lemma Follows.closeFile {b t : ℕ} {f g : String} {data : FileData} {who : Caller} (h : x.Follows b f)
    (hc : x.calls.get t = some (.closeFile g data who)) :
    (x.atPrimary peers t (.closeFile g data who)).Follows b f :=
  h.writesFile hc rfl id (fun _ => id) id

lemma Follows.createVersion {b t : ℕ} {f g : String} {who : Caller} (h : x.Follows b f) (hb : b ∈ peers)
    (hc : x.calls.get t = some (.createVersion g who)) (hfirst : x.primary.version g = 1) :
    (x.atPrimary peers t (.createVersion g who)).Follows b f := by
  apply h.moves (atPrimary_moves t _)
  case hversion =>
    rw [atPrimary_primary, ReplicatedDSFSServer.run, ReplicatedDSFSServer.setVersion_version]
    split_ifs with hf
    · rw [hf, hfirst]
    · rfl
  case hbackup => rfl
  case hdisk => exact id
  case hnew => exact .inl
  case hheld => exact id
  case hknown => exact .inl
  case hdelivers =>
    intro c' hc' hd
    cases hc.symm.trans hc'
    exact hd.elim
  case hcreates =>
    intro c' hc' hd
    cases hc.symm.trans hc'
    exact .inr ⟨_, rfl, hd, hb⟩

lemma Follows.closeUpdate {b t : ℕ} {f g : String} {data : FileData} {who : Caller} (h : x.Follows b f)
    (hb : b ∈ peers) (hc : x.calls.get t = some (.closeUpdate g data who)) :
    (x.atPrimary peers t (.closeUpdate g data who)).Follows b f := by
  have hmoves : x.Moves (x.atPrimary peers t (.closeUpdate g data who)) t _ := atPrimary_moves t _
  have hversion : (x.atPrimary peers t (.closeUpdate g data who)).primary.version f =
      if f = g then x.primary.version g + 1 else x.primary.version f := by
    rw [atPrimary_primary, ReplicatedDSFSServer.run, ReplicatedDSFSServer.setVersion_version]
  by_cases hf : f = g
  · subst hf
    rw [if_pos rfl] at hversion
    constructor
    case version =>
      right
      rw [hversion]
      exact Pending.of_moves hmoves rfl ⟨rfl, rfl, hb⟩
    case created => exact fun _ => .inr (Pending.of_moves hmoves rfl ⟨rfl, hb⟩)
    case known => exact h.known
  · rw [if_neg hf] at hversion
    apply h.moves hmoves hversion rfl id .inl id .inl
    · intro c' hc' hd
      cases hc.symm.trans hc'
      exact hd.elim
    · intro c' hc' hd
      cases hc.symm.trans hc'
      exact absurd hd.symm hf

/-- A handler goes on without a step at a server; only the name of the step it will make changes. -/
lemma Follows.skips {b t : ℕ} {f : String} {c c' : Call} (h : x.Follows b f) (hc : x.calls.get t = some c)
    (hdelivers : ∀ n, c.Delivers b f n → c'.Delivers b f n)
    (hcreates : c.Creates b f → ((x.backups b).disk f).isSome ∨ c'.Creates b f) :
    (x.goesOn t c').Follows b f := by
  apply h.moves (y := x.goesOn t c') (goesOn_moves t c') rfl rfl id .inl id .inl
  · intro d hd hq
    cases hc.symm.trans hd
    exact ⟨c', rfl, hdelivers _ hq⟩
  · intro d hd hq
    cases hc.symm.trans hd
    obtain hheld | hnext := hcreates hq
    · exact .inl hheld
    · exact .inr ⟨c', rfl, hnext⟩

lemma Follows.replicateCreate {b b' t : ℕ} {f g : String} {who : Caller} {l : List ℕ} (h : x.Follows b f)
    (hc : x.calls.get t = some (.replicateCreate g who (b' :: l))) (hup : x.listening b' = true) :
    (x.handle peers t (.replicateCreate g who (b' :: l))).Follows b f := by
  rw [Cluster.handle, if_pos hup]
  split_ifs with hexists
  · apply h.skips hc fun n hd => hd.elim
    rintro ⟨rfl, hb⟩
    obtain rfl | hb := List.mem_cons.mp hb
    · exact .inl hexists
    · exact .inr ⟨rfl, hb⟩
  · exact h.skips hc (fun n hd => hd.elim) .inr

lemma Follows.replicateCreateFile {b b' t : ℕ} {f g : String} {who : Caller} {l : List ℕ}
    (h : x.Follows b f) (hc : x.calls.get t = some (.replicateCreateFile g who (b' :: l)))
    (hdisk : (x.primary.disk g).isSome) :
    (x.handle peers t (.replicateCreateFile g who (b' :: l))).Follows b f := by
  let y := (x.setBackup b' ((x.backups b').writeFile g [])).goesOn t (.replicateCreateVersion g who (b' :: l))
  have hself : y.backups b' = (x.backups b').writeFile g [] := setBackup_self ..
  have hothers : b ≠ b' → y.backups b = x.backups b := setBackup_of_ne x _
  apply h.moves (y := y) (goesOn_moves t _) rfl _ id .inl
  case hheld =>
    intro hb
    by_cases hne : b = b'
    · subst hne
      rw [hself, ReplicatedDSFSServer.writeFile_disk, hb]
      exact Bool.or_true _
    · rw [hothers hne]
      exact hb
  case hknown =>
    intro hb
    by_cases hne : b = b'
    · subst hne
      rw [hself, ReplicatedDSFSServer.writeFile_disk] at hb
      obtain hfg | hold := Bool.or_eq_true_iff.mp hb
      · rw [of_decide_eq_true hfg]
        exact .inr hdisk
      · exact .inl hold
    · rw [hothers hne] at hb
      exact .inl hb
  case hdelivers =>
    intro d hd hq
    cases hc.symm.trans hd
    exact hq.elim
  case hcreates =>
    intro d hd hq
    cases hc.symm.trans hd
    obtain ⟨rfl, hb⟩ := hq
    obtain rfl | hb := List.mem_cons.mp hb
    · left
      rw [hself, ReplicatedDSFSServer.writeFile_disk, decide_eq_true rfl]
      exact Bool.true_or _
    · exact .inr ⟨_, rfl, rfl, hb⟩
  by_cases hne : b = b'
  · subst hne
    rw [hself, ReplicatedDSFSServer.writeFile_version]
  · rw [hothers hne]

lemma Follows.replicateCreateVersion {b b' t : ℕ} {f g : String} {who : Caller} {l : List ℕ}
    (h : x.Follows b f) (hc : x.calls.get t = some (.replicateCreateVersion g who (b' :: l)))
    (hfirst : (x.backups b').version g = 1) :
    (x.handle peers t (.replicateCreateVersion g who (b' :: l))).Follows b f := by
  let y := (x.setBackup b' ((x.backups b').setVersion g 1)).goesOn t (.replicateCreate g who l)
  have hself : y.backups b' = (x.backups b').setVersion g 1 := setBackup_self ..
  have hothers : b ≠ b' → y.backups b = x.backups b := setBackup_of_ne x _
  have hdisk : (y.backups b).disk = (x.backups b).disk := by
    by_cases hne : b = b'
    · subst hne
      rw [hself, ReplicatedDSFSServer.setVersion_disk]
    · rw [hothers hne]
  apply h.moves (y := y) (goesOn_moves t _) rfl _ id .inl
  case hheld =>
    rw [hdisk]
    exact id
  case hknown =>
    rw [hdisk]
    exact .inl
  case hdelivers =>
    intro d hd hq
    cases hc.symm.trans hd
    exact hq.elim
  case hcreates =>
    intro d hd hq
    cases hc.symm.trans hd
    exact .inr ⟨_, rfl, hq⟩
  by_cases hne : b = b'
  · subst hne
    rw [hself, ReplicatedDSFSServer.setVersion_version]
    split_ifs with hf
    · rw [hf, hfirst]
    · rfl
  · rw [hothers hne]

lemma Follows.replicateWrite {b b' t n : ℕ} {f g : String} {data : FileData} {who : Caller} {l : List ℕ}
    (h : x.Follows b f) (hc : x.calls.get t = some (.replicateWrite g data n who (b' :: l)))
    (hup : x.listening b' = true) (hdisk : (x.primary.disk g).isSome)
    (hrising : (x.backups b').version g ≤ n) (hlast : n ≤ x.primary.version g) :
    (x.handle peers t (.replicateWrite g data n who (b' :: l))).Follows b f := by
  rw [Cluster.handle, if_pos hup]
  let y := (x.setBackup b' ((x.backups b').replicateWrite g data n)).goesOn t (.replicateWrite g data n who l)
  have hmoves : x.Moves y t (some (.replicateWrite g data n who l)) := goesOn_moves t _
  have hself : y.backups b' = (x.backups b').replicateWrite g data n := setBackup_self ..
  have hothers : b ≠ b' → y.backups b = x.backups b := setBackup_of_ne x _
  by_cases hserved : b = b' ∧ f = g
  · obtain ⟨rfl, rfl⟩ := hserved
    have hversion : (y.backups b).version f = n := by
      rw [hself, ReplicatedDSFSServer.replicateWrite, ReplicatedDSFSServer.setVersion_version, if_pos rfl]
    have hheld : ((y.backups b).disk f).isSome := by
      rw [hself, ReplicatedDSFSServer.replicateWrite, ReplicatedDSFSServer.setVersion_disk,
        ReplicatedDSFSServer.writeFile_disk, decide_eq_true rfl]
      exact Bool.true_or _
    constructor
    case version =>
      show (y.backups b).version f = x.primary.version f ∨ y.Pending _
      rw [hversion]
      by_cases hn : n = x.primary.version f
      · exact .inl hn
      · obtain hsame | hpending := h.version
        · exact absurd (Nat.le_antisymm hlast (hsame ▸ hrising)) hn
        · obtain ⟨c, hc', hq⟩ | hpending := hpending.moves hmoves
          · cases hc.symm.trans hc'
            exact absurd hq.2.1 hn
          · exact .inr hpending
    case created => exact fun _ => .inl hheld
    case known => exact fun _ => hdisk
  · have hsame : (y.backups b).version f = (x.backups b).version f ∧
        ((y.backups b).disk f).isSome = ((x.backups b).disk f).isSome := by
      by_cases hne : b = b'
      · subst hne
        have hfg : f ≠ g := fun hfg => hserved ⟨rfl, hfg⟩
        rw [hself, ReplicatedDSFSServer.replicateWrite, ReplicatedDSFSServer.setVersion_version, if_neg hfg,
          ReplicatedDSFSServer.setVersion_disk, ReplicatedDSFSServer.writeFile_disk, decide_eq_false hfg]
        exact ⟨rfl, Bool.false_or _⟩
      · rw [hothers hne]
        exact ⟨rfl, rfl⟩
    apply h.moves (y := y) hmoves rfl hsame.1 id .inl
    case hheld =>
      rw [hsame.2]
      exact id
    case hknown =>
      rw [hsame.2]
      exact .inl
    case hdelivers =>
      intro d hd hq
      cases hc.symm.trans hd
      obtain ⟨rfl, rfl, hb⟩ := hq
      obtain rfl | hb := List.mem_cons.mp hb
      · exact absurd ⟨rfl, rfl⟩ hserved
      · exact ⟨_, rfl, rfl, rfl, hb⟩
    case hcreates =>
      intro d hd hq
      cases hc.symm.trans hd
      obtain ⟨rfl, hb⟩ := hq
      obtain rfl | hb := List.mem_cons.mp hb
      · exact absurd ⟨rfl, rfl⟩ hserved
      · exact .inr ⟨_, rfl, rfl, hb⟩

/-- The invariant of a cluster whose backups are all up. -/
structure Converging (peers : List ℕ) (x : Cluster) : Prop where
  replicated : Replicated peers (fun _ => True) x
  follows : ∀ b ∈ peers, ∀ f, x.Follows b f

lemma Converging.handle (h : Converging peers x) {t : ℕ} {c : Call} (hc : x.calls.get t = some c)
    (horder : x.InOrder t c) {b : ℕ} (hb : b ∈ peers) (f : String) : (x.handle peers t c).Follows b f := by
  have hf := h.follows b hb f
  have hup : ∀ b', x.phase b' = .listening := fun b' => h.replicated.up b' trivial
  have hmade := h.replicated.made t c hc
  cases c with
  | createFile g who => exact hf.createFile hc
  | createVersion g who => exact hf.createVersion hb hc horder
  | closeFile g data who => exact hf.closeFile hc
  | closeUpdate g data who => exact hf.closeUpdate hb hc
  | replicateCreate g who l =>
    cases l with
    | nil => exact hf.quiet hc rfl trivial
    | cons b' l => exact hf.replicateCreate hc (listening_iff.mpr (hup b'))
  | replicateCreateFile g who l =>
    cases l with
    | nil => exact hf.quiet hc rfl trivial
    | cons b' l => exact hf.replicateCreateFile hc hmade.1
  | replicateCreateVersion g who l =>
    cases l with
    | nil => exact hf.quiet hc rfl trivial
    | cons b' l => exact hf.replicateCreateVersion hc horder
  | replicateWrite g data n who l =>
    cases l with
    | nil => exact hf.quiet hc rfl trivial
    | cons b' l =>
      obtain ⟨⟨hn, hle, hdata, hdisk⟩, -⟩ := hmade
      simp only [InOrder, hup b'] at horder
      exact hf.replicateWrite hc (listening_iff.mpr (hup b')) hdisk horder hle
  | _ => exact hf.quiet hc rfl trivial

lemma Converging.step (h : Converging peers x) {a : Label} (hs : x.step peers a = some y)
    (horder : x.Orderly a) : Converging peers y := by
  have hup : ∀ b, x.phase b = .listening := fun b => h.replicated.up b trivial
  refine ⟨(h.replicated.step hs horder).2, fun b hb f => ?_⟩
  cases a with
  | call t c =>
    simp only [Cluster.step, Option.ite_none_right_eq_some, Option.some.injEq] at hs
    obtain ⟨⟨hfree, hrequest⟩, rfl⟩ := hs
    apply (h.follows b hb f).moves (y := x.goesOn t c) (goesOn_moves t c) rfl rfl id .inl id .inl
    · intro d hd
      cases hfree.symm.trans hd
    · intro d hd
      cases hfree.symm.trans hd
  | run t =>
    obtain ⟨c, hc, rfl⟩ := Option.map_eq_some_iff.mp hs
    exact h.handle hc (horder c hc) hb f
  | sync b' =>
    simp only [Cluster.step, hup b'] at hs
    cases hs
  | install b' =>
    simp only [Cluster.step, hup b'] at hs
    cases hs
  | markReady b' =>
    simp only [Cluster.step, hup b'] at hs
    cases hs
  | listen b' =>
    simp only [Cluster.step, hup b'] at hs
    cases hs

lemma init_converging (s : StoredFiles) : Converging peers (init s fun _ => none) := by
  refine ⟨?_, fun b _ f => ⟨.inl rfl, .inl, id⟩⟩
  have hall : (fun b : ℕ => (fun _ => none : ℕ → Option (String → Option FileData)) b = none) = fun _ => True :=
    funext fun _ => eq_true rfl
  exact hall ▸ init_replicated s fun _ => none

lemma run_converging {s : StoredFiles} (h : Run (step peers) Orderly (init s fun _ => none) x) :
    Converging peers x :=
  h.invariant (fun _ _ _ hi hc hs => hi.step hs hc) (init_converging s)

lemma Converging.version_le (h : Converging peers x) {a : Label} (hs : x.step peers a = some y)
    (horder : x.Orderly a) (b : ℕ) (f : String) : (x.backups b).version f ≤ (y.backups b).version f := by
  obtain ⟨g, hy⟩ := h.replicated.step hs horder
  have hx := h.replicated.up b trivial
  have hup : ∀ z : Cluster, z.phase b = .listening → z.phase b ≠ .down := fun z hz hdown => by
    rw [hz] at hdown
    cases hdown
  have hle := h.replicated.version b f (hup x hx)
  have hcovered := g.covered b f _ hle (.inr (Nat.le_refl _))
  rw [← backupVersion_of_listening hx, ← backupVersion_of_listening (hy.up b trivial)]
  exact hcovered.resolve_left (hup y (hy.up b trivial))

/-- With no handler at work, a backup holds what the primary holds. -/
def Converged (peers : List ℕ) (x : Cluster) : Prop :=
  x.calls.items = [] → ∀ b ∈ peers, ∀ f,
    (x.backups b).disk f = x.primary.disk f ∧ (x.backups b).version f = x.primary.version f

lemma Converging.converged (h : Converging peers x) : Converged peers x := by
  intro hdone b hb f
  have hnone : ∀ q, ¬x.Pending q := by
    rintro q ⟨t, c, hc, -⟩
    have hmem := OrderedDict.get_eq_some.mp hc
    rw [hdone] at hmem
    cases hmem
  have hlistening := h.replicated.up b trivial
  have hup : x.phase b ≠ .down := fun hdown => by
    rw [hlistening] at hdown
    cases hdown
  have hf := h.follows b hb f
  have hversion : (x.backups b).version f = x.primary.version f := hf.version.resolve_right (hnone _)
  refine ⟨?_, hversion⟩
  have hcontent : (x.backups b).content f = x.primary.content f := by
    have hbackup := h.replicated.content b f hup (.inr trivial)
    rw [backupContent_of_listening hlistening, backupVersion_of_listening hlistening, hversion] at hbackup
    obtain hprimary | ⟨t, c, hc, -⟩ := h.replicated.latest f
    · exact hbackup.trans hprimary.symm
    · exact absurd ⟨t, c, hc, trivial⟩ (hnone fun _ => True)
  have hpresent : ((x.backups b).disk f).isSome ↔ (x.primary.disk f).isSome :=
    ⟨hf.known, fun hp => (hf.created hp).resolve_right (hnone _)⟩
  rw [ReplicatedDSFSServer.content, ReplicatedDSFSServer.content] at hcontent
  cases hbackup : (x.backups b).disk f <;> cases hprimary : x.primary.disk f <;>
    simp [hbackup, hprimary] at hcontent hpresent ⊢
  exact hcontent

/-- Two Closes of one file; the later one has reached the backup, the earlier one is under way. -/
def crossed : List Label :=
  [.call 0 (.open "a" "w" false)] ++ List.replicate 5 (.run 0) ++ [.call 0 (.open "a" "w" false)] ++
    List.replicate 5 (.run 0) ++ [.call 0 (.close 1 [7] anonymous)] ++ List.replicate 7 (.run 0) ++
    [.call 1 (.close 2 [8] anonymous)] ++ List.replicate 10 (.run 1)

end Cluster

end DistributedStorage.Replication
