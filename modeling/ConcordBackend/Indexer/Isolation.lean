import ConcordBackend.Indexer.EventLog
import ConcordBackend.Indexer.Process

/-!
# What escrows have to do with each other

The rows of an escrow are those of `escrows`, `milestones` and `disputes` whose key holds its
id. A statement about another escrow neither changes them nor looks at them, so what a list of
events leaves of an escrow is decided by the events whose topic names it (`escrow_isolation`),
whatever the others are and however they fail.

The id is also all there is to tell escrows apart: the contract of an event is a column of the
row its creation inserts and no part of any key.
-/

namespace ConcordBackend

variable {crates : Crates} {e : Int64}

/-! ### The rows of one escrow -/

/-- Two views have the same rows of the escrow `e`. -/
structure View.AgreeOn (e : Int64) (v v' : View) : Prop where
  escrow : v.escrow e = v'.escrow e
  milestone : ∀ m, v.milestone (e, m) = v'.milestone (e, m)
  dispute : ∀ m, v.dispute (e, m) = v'.dispute (e, m)

/-- No table holds a row of the escrow `e`. -/
def View.Lacks (e : Int64) (v : View) : Prop := v.AgreeOn e View.empty

namespace View

variable {v v' v'' : View} {w : Write} {ws : List Write}

theorem AgreeOn.refl (v : View) : v.AgreeOn e v := ⟨rfl, fun _ => rfl, fun _ => rfl⟩

theorem AgreeOn.symm (h : v.AgreeOn e v') : v'.AgreeOn e v :=
  ⟨h.escrow.symm, fun m => (h.milestone m).symm, fun m => (h.dispute m).symm⟩

theorem AgreeOn.trans (h : v.AgreeOn e v') (h' : v'.AgreeOn e v'') : v.AgreeOn e v'' :=
  ⟨h.escrow.trans h'.escrow, fun m => (h.milestone m).trans (h'.milestone m),
    fun m => (h.dispute m).trans (h'.dispute m)⟩

/-- A write does the same to the rows of an escrow wherever they are the same. -/
theorem AgreeOn.apply (h : v.AgreeOn e v') (w : Write) : (v.apply w).AgreeOn e (v'.apply w) where
  escrow := congrArg (fun o => w.onEscrow e o) h.escrow
  milestone := fun m => congrArg (fun o => w.onMilestone (e, m) o) (h.milestone m)
  dispute := fun m => congrArg (fun o => w.onDispute (e, m) o) (h.dispute m)

/-- The row of a write belongs to the escrow the write is about. -/
theorem escrowId_row (w : Write) : w.row.escrowId = w.escrowId := by
  cases w <;> rfl

/-- A write about another escrow leaves the rows of an escrow alone. -/
theorem agreeOn_apply (h : w.escrowId ≠ e) (v : View) : (v.apply w).AgreeOn e v := by
  have hrow : ∀ key : RowKey, key.escrowId = e → w.row ≠ key := by
    rintro key hkey rfl
    exact h ((escrowId_row w).symm.trans hkey)
  constructor
  · exact Write.onEscrow_of_row_ne (hrow (.escrow e) rfl) _
  · intro m
    exact Write.onMilestone_of_row_ne (hrow (.milestone (e, m)) rfl) _
  · intro m
    exact Write.onDispute_of_row_ne (hrow (.dispute (e, m)) rfl) _

/-- Writes about other escrows leave the rows of an escrow alone. -/
theorem agreeOn_run (h : ∀ w ∈ ws, w.escrowId ≠ e) (v : View) : (run ws v).AgreeOn e v := by
  refine Replay.run_invariant View.apply (I := fun v' => v'.AgreeOn e v) ?_ (.refl v)
  intro w hw v' hv'
  exact (agreeOn_apply (h w hw) v').trans hv'

/-- Statements about an escrow are performed the same wherever its rows are the same. -/
theorem AgreeOn.perform (h : v.AgreeOn e v') (hws : ∀ w ∈ ws, w.escrowId = e) :
    (perform ws v).AgreeOn e (perform ws v') := by
  induction ws generalizing v v' with
  | nil => exact h
  | cons w ws ih =>
    have hadm : v.Admits w ↔ v'.Admits w := by
      rw [Admits, Admits, hws w List.mem_cons_self, h.escrow]
    unfold View.perform
    by_cases hw : v.Admits w
    · rw [if_pos hw, if_pos (hadm.mp hw)]
      exact ih (h.apply w) fun w' hw' => hws w' (List.mem_cons_of_mem w hw')
    · rw [if_neg hw, if_neg (hadm.not.mp hw)]
      exact h

/-- Without rows of an escrow, only its `upsert_escrow` adds one: updates match no row and the
foreign keys reject the other insertions. -/
theorem Lacks.apply (h : v.Lacks e) (hadm : v.Admits w) (hw : w.createdEscrow? = none) :
    (v.apply w).Lacks e := by
  have hsame := AgreeOn.apply h w
  by_cases he : w.escrowId = e
  · refine hsame.trans ⟨?_, fun m => ?_, fun m => ?_⟩
    all_goals
      cases w with
      | upsertEscrow a => cases hw
      | upsertMilestone a => simp_all [Admits, Write.needsEscrow, h.escrow, empty]
      | insertDispute e' m' raisedBy reason =>
        simp_all [Admits, Write.needsEscrow, h.escrow, empty]
      | _ => simp [View.apply, empty, Write.onEscrow, Write.onMilestone, Write.onDispute]
  · exact (agreeOn_apply he v).trans h

theorem Lacks.perform (h : v.Lacks e) (hws : ∀ w ∈ ws, w.createdEscrow? = none) :
    (perform ws v).Lacks e := by
  induction ws generalizing v with
  | nil => exact h
  | cons w ws ih =>
    unfold View.perform
    split
    · rename_i hadm
      exact ih (h.apply hadm (hws w List.mem_cons_self)) fun w' hw' =>
        hws w' (List.mem_cons_of_mem w hw')
    · exact h

end View

/-! ### Events about one escrow -/

/-- The escrow an event's topic names, if that topic decodes. -/
def escrowTopic? (crates : Crates) (event : RpcEvent) : Option UInt64 :=
  event.topic[1]?.bind fun topic => ((decodeScvalBase64 crates topic).bind scValToU64).toOption

/-- The events about an escrow. -/
def about (crates : Crates) (e : UInt64) (event : RpcEvent) : Bool :=
  escrowTopic? crates event = some e

/-- An event that decodes is about the escrow its topic names. -/
theorem escrowTopic?_of_decodeHead {event : RpcEvent} {head : EventHead}
    (h : decodeHead crates event = .ok head) : escrowTopic? crates event = some head.escrowId := by
  obtain ⟨vals, hvals, h⟩ := Except.bind_eq_ok.mp h
  obtain ⟨data, -, h⟩ := Except.bind_eq_ok.mp h
  generalize htopic : event.topic = topics at hvals
  rw [escrowTopic?, htopic]
  rcases Except.mapM_eq_ok_iff.mp hvals with _ | ⟨-, _ | ⟨hsecond, -⟩⟩
  · cases h
  · obtain ⟨name, -, h⟩ := Except.bind_eq_ok.mp h
    cases h
  · obtain ⟨name, -, h⟩ := Except.bind_eq_ok.mp h
    obtain ⟨escrowId, hid, h⟩ := Except.bind_eq_ok.mp h
    obtain rfl := Except.ok.inj h
    change ((decodeScvalBase64 crates _).bind scValToU64).toOption = some escrowId
    rw [hsecond]
    exact congrArg Except.toOption hid

/-- What an event sends is about the escrow its topic names. -/
theorem escrowId_of_about {event : RpcEvent} {w : Write}
    (hw : w ∈ (processEvent crates event).writes) :
    ∃ e, escrowTopic? crates event = some e ∧ w.escrowId = e.toInt64 := by
  obtain ⟨head, r, hhead, hd⟩ := exists_dispatched_of_mem hw
  exact ⟨head.escrowId, escrowTopic?_of_decodeHead hhead, (hd.about hw).1⟩

/-- An event about another escrow leaves the rows of an escrow alone. -/
theorem View.agreeOn_processEvent {e : UInt64} {event : RpcEvent}
    (h : about crates e event = false) (v : View) :
    (View.processEvent crates event v).AgreeOn e.toInt64 v := by
  obtain ⟨done, hpre, hrun⟩ := View.processEvent_eq_run crates event v
  rw [hrun]
  refine View.agreeOn_run (fun w hw => ?_) v
  obtain ⟨e', he', hw'⟩ := escrowId_of_about (hpre.subset hw)
  rw [hw']
  intro heq
  obtain rfl := toInt64_inj heq
  simp [about, he'] at h

/-- An event about an escrow does the same to its rows wherever they are the same. -/
theorem View.AgreeOn.processEvent {e : UInt64} {event : RpcEvent} {v v' : View}
    (h : v.AgreeOn e.toInt64 v') (hab : about crates e event = true) :
    (View.processEvent crates event v).AgreeOn e.toInt64
      (View.processEvent crates event v') := by
  unfold View.processEvent
  split
  · refine h.perform fun w hw => ?_
    obtain ⟨e', he', hw'⟩ := escrowId_of_about hw
    obtain rfl : e' = e := by simpa [about, he'] using hab
    exact hw'
  · exact h

/-- **The events about an escrow decide its rows.** -/
theorem View.process_agreeOn (e : UInt64) (events : List RpcEvent) (v : View) :
    (View.process crates events v).AgreeOn e.toInt64
      (View.process crates (events.filter (about crates e)) v) := by
  refine Replay.run_filter _ (R := View.AgreeOn e.toInt64) ?_ ?_ events (.refl v)
  · intro event hab v v' h
    exact h.processEvent hab
  · intro event hab v v' h
    exact (View.agreeOn_processEvent hab v).trans h

/-- Without its creation an escrow has no rows. -/
theorem View.lacks_process {e : UInt64} {events : List RpcEvent}
    (h : ∀ event ∈ events, ∀ head, decodeHead crates event = .ok head →
      head.escrowId = e → head.name ≠ "escrow_created") {v : View} (hv : v.Lacks e.toInt64) :
    (View.process crates events v).Lacks e.toInt64 := by
  refine Replay.run_invariant _ (I := View.Lacks e.toInt64) ?_ hv
  intro event hev v hv
  rcases hab : about crates e event with _ | _
  · exact (View.agreeOn_processEvent hab v).trans hv
  · unfold View.processEvent
    split
    · refine View.Lacks.perform hv fun w hw => ?_
      obtain ⟨head, r, hhead, hd⟩ := exists_dispatched_of_mem hw
      have htopic := escrowTopic?_of_decodeHead hhead
      obtain rfl : head.escrowId = e := by simpa [about, htopic] using hab
      exact hd.createdEscrow?_eq_none (h event hev head hhead rfl) hw
    · exact hv

/-- **Isolation of escrows.** Two lists of events with the same events about an escrow leave the
same rows of it, up to the wall-clock columns; without its creation there are none; and no two
ids of the chain are one id of the tables. -/
theorem escrow_isolation (crates : Crates) (e : UInt64) {events events' : List RpcEvent}
    {db db' : Db} (hdb : Processed crates events Db.migrated db)
    (hdb' : Processed crates events' Db.migrated db') :
    (events.filter (about crates e) = events'.filter (about crates e) →
        db.view.AgreeOn e.toInt64 db'.view) ∧
      ((∀ event ∈ events, ∀ head, decodeHead crates event = .ok head →
          head.escrowId = e → head.name ≠ "escrow_created") →
        db.escrows.find? e.toInt64 = none ∧
          ∀ m, db.milestones.find? (e.toInt64, m) = none ∧
            db.disputes.find? (e.toInt64, m) = none) ∧
      ∀ e' : UInt64, e.toInt64 = e'.toInt64 → e = e' := by
  refine ⟨fun heq => ?_, fun hnone => ?_, fun e' => toInt64_inj⟩
  · rw [hdb.view, hdb'.view]
    refine (View.process_agreeOn e events _).trans (heq ▸ ?_)
    exact (View.process_agreeOn e events' _).symm
  · have hlacks := View.lacks_process hnone (v := Db.migrated.view) (.refl _)
    rw [← hdb.view] at hlacks
    refine ⟨Option.map_eq_none_iff.mp hlacks.escrow, fun m => ⟨?_, ?_⟩⟩
    · exact Option.map_eq_none_iff.mp (hlacks.milestone m)
    · exact Option.map_eq_none_iff.mp (hlacks.dispute m)

/-- An event without topics. -/
def untitledEvent : RpcEvent := { fundedEvent sampleContract 1 with topic := [] }

theorem escrowTopic?_sampleEvent (contractId : String) (ledger : UInt32) (name value : String) :
    escrowTopic? sampleCrates (sampleEvent contractId ledger name value) = some 1 := (rfl)

/-- An event without topics changes nothing of the sample's escrow, and escrow 2 is not there. -/
theorem escrow_isolation_sample : ∃ db db',
    Processed sampleCrates sampleLog Db.migrated db ∧
      Processed sampleCrates (untitledEvent :: sampleLog) Db.migrated db' ∧
      db.view.AgreeOn 1 db'.view ∧ db.escrows.find? 2 = none := by
  obtain ⟨db, hdb⟩ := Processed.exists_of sampleCrates sampleLog Db.migrated
  obtain ⟨db', hdb'⟩ := Processed.exists_of sampleCrates (untitledEvent :: sampleLog) Db.migrated
  have hskip : about sampleCrates 1 untitledEvent = false := rfl
  have hagree := (escrow_isolation sampleCrates 1 hdb hdb').1
    (List.filter_cons_of_neg (by simp [hskip])).symm
  have hnone : ∀ event ∈ sampleLog, ∀ head, decodeHead sampleCrates event = .ok head →
      head.escrowId = 2 → head.name ≠ "escrow_created" := by
    intro event hev head hhead htwo
    have hone : escrowTopic? sampleCrates event = some 1 := by
      simp only [sampleLog, List.mem_cons, List.not_mem_nil, or_false] at hev
      rcases hev with rfl | rfl | rfl <;> exact escrowTopic?_sampleEvent ..
    rw [escrowTopic?_of_decodeHead hhead, htwo] at hone
    exact absurd hone (by decide)
  exact ⟨db, db', hdb, hdb', hagree, ((escrow_isolation sampleCrates 2 hdb hdb').2.1 hnone).1⟩

end ConcordBackend
