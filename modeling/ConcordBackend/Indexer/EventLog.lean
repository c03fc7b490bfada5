import ConcordBackend.Indexer.Dispatch
import ConcordBackend.Library.Sha256

/-!
# Event logs as the contract emits them

`LogEntry` is what an event says about the protocol: the escrow it is about, and whether it
creates the escrow (listing its milestones), moves the escrow, moves a milestone, or raises or
resolves a dispute. `CreatedFirst` and `Protocol` are the orders the contract promises on such
entries, and `WellFormedLog` is a log of decodable events of successful calls in that order.

The rows an event writes, and which of them it creates, are determined by its entry
(`processEvent_tags`). So the statements of a well-formed log are ordered as replaying needs
them (`WellFormedLog.precedes`) and never meet a missing escrow (`CreatedFirst.ready`).
-/

namespace ConcordBackend

/-- What an event does in the protocol; milestone ids are the contract's. -/
inductive EventKind where
  /-- `escrow_created`, with the milestones it lists -/
  | created (milestones : List UInt32)
  /-- `escrow_funded`, `escrow_cancelled`, `escrow_mutually_cancelled`, `escrow_completed` -/
  | status
  /-- `milestone_submitted` -/
  | submitted (milestone : UInt32)
  /-- `milestone_approved`, `milestone_auto_released`, `milestone_expired` -/
  | milestone (milestone : UInt32)
  /-- `dispute_raised` -/
  | raised (milestone : UInt32)
  /-- `dispute_resolved` -/
  | resolved (milestone : UInt32)
  deriving DecidableEq, Repr

/-- The milestone an event after the creation names. -/
def EventKind.milestone? : EventKind → Option UInt32
  | .created _ => none
  | .status => none
  | .submitted m => some m
  | .milestone m => some m
  | .raised m => some m
  | .resolved m => some m

/-- A recognized event: the escrow it is about and what it does. -/
structure LogEntry where
  escrowId : UInt64
  kind : EventKind
  deriving DecidableEq, Repr

/-- The entry creates its escrow. -/
def LogEntry.IsCreation (x : LogEntry) : Prop := ∃ ms, x.kind = .created ms

/-- What an event of a given name and data does, if it is recognized and decodes. -/
def kindOf (name : String) (data : ScVal) : Option EventKind :=
  match name with
  | "escrow_created" => (milestonesOf data).toOption.map fun ms => .created (ms.map (·.id))
  | "escrow_funded" => some .status
  | "escrow_cancelled" => some .status
  | "escrow_mutually_cancelled" => some .status
  | "escrow_completed" => some .status
  | "milestone_submitted" => (milestoneIdOf data).toOption.map .submitted
  | "milestone_approved" => (milestoneIdOf data).toOption.map .milestone
  | "milestone_auto_released" => (milestoneIdOf data).toOption.map .milestone
  | "milestone_expired" => (milestoneIdOf data).toOption.map .milestone
  | "dispute_raised" => (milestoneIdOf data).toOption.map .raised
  | "dispute_resolved" => (milestoneIdOf data).toOption.map .resolved
  | _ => none

/-- The entry of an event. -/
def logEntry (crates : Crates) (event : RpcEvent) : Option LogEntry :=
  match decodeHead crates event with
  | .ok head => (kindOf head.name head.data).map fun kind => ⟨head.escrowId, kind⟩
  | .error _ => none

/-- Each escrow is created once, and before every other event about it. -/
structure CreatedFirst (entries : List LogEntry) : Prop where
  once : entries.Pairwise fun a b => a.escrowId = b.escrowId → ¬ b.IsCreation
  before : ∀ pre x post, entries = pre ++ x :: post → ¬ x.IsCreation →
    ∃ c ∈ pre, c.escrowId = x.escrowId ∧ c.IsCreation

/-- The order of events the contract promises. -/
structure Protocol (entries : List LogEntry) : Prop extends CreatedFirst entries where
  distinct : ∀ e ms, ⟨e, .created ms⟩ ∈ entries → ms.Nodup
  listed : ∀ e ms x, ⟨e, .created ms⟩ ∈ entries → x ∈ entries → x.escrowId = e →
    ∀ m ∈ x.kind.milestone?, m ∈ ms
  raised_once : entries.Pairwise fun a b => a.escrowId = b.escrowId →
    ∀ m, a.kind = .raised m → b.kind ≠ .raised m
  resolved_after : ∀ pre x post, entries = pre ++ x :: post → ∀ m, x.kind = .resolved m →
    ⟨x.escrowId, .raised m⟩ ∈ pre

/-- A log of decodable events of successful calls, in the order the contract promises. -/
structure WellFormedLog (crates : Crates) (log : List RpcEvent) : Prop where
  successful : ∀ event ∈ log, event.inSuccessfulContractCall = true
  decodes : ∀ event ∈ log, ∃ r, (processEvent crates event).outcome = .ok r
  ledgers : log.Pairwise fun a b => a.ledger ≤ b.ledger
  protocol : Protocol (log.filterMap (logEntry crates))

/-! ### The rows an entry writes -/

/-- The row of a write, and whether the write creates it. -/
def Write.tag (w : Write) : RowKey × Bool := (w.row, w.creates)

/-- The rows an entry writes in order, with those it creates marked. -/
def LogEntry.tags (x : LogEntry) : List (RowKey × Bool) :=
  let e := x.escrowId.toInt64
  match x.kind with
  | .created ms => (.escrow e, true) :: ms.map fun m => (.milestone (e, m.toInt32), true)
  | .status => [(.escrow e, false)]
  | .submitted m => [(.escrow e, false), (.milestone (e, m.toInt32), false)]
  | .milestone m => [(.milestone (e, m.toInt32), false)]
  | .raised m => [(.milestone (e, m.toInt32), false), (.dispute (e, m.toInt32), true)]
  | .resolved m => [(.milestone (e, m.toInt32), false), (.dispute (e, m.toInt32), false)]

private theorem map_tag_of_forall₂ {e : Int64} {ms : List DecodedMilestone} {ws : List Write}
    (h : List.Forall₂ (fun m w => milestoneWrite e m = .ok w) ms ws) :
    ws.map Write.tag = (ms.map (·.id)).map fun m => (.milestone (e, m.toInt32), true) := by
  induction h with
  | nil => rfl
  | cons hw _ ih =>
    obtain ⟨deadline, -, rfl⟩ := milestoneWrite_eq hw
    rw [List.map_cons, List.map_cons, List.map_cons, ih]
    rfl

private theorem kindOf_of_statusOf {name status : String} {data : ScVal}
    (h : statusOf name = some status) : kindOf name data = some .status := by
  unfold statusOf at h
  split at h
  on_goal 5 => cases h
  all_goals rfl

private theorem kindOf_of_viaOf {name via : String} {data : ScVal}
    (h : viaOf name = some via) :
    kindOf name data = (milestoneIdOf data).toOption.map .milestone := by
  unfold viaOf at h
  split at h
  on_goal 3 => cases h
  all_goals rfl

private theorem kindOf_of_not_mem {name : String} {data : ScVal}
    (h : name ∉ recognizedNames) : kindOf name data = none := by
  unfold kindOf
  split
  all_goals first | rfl | exact absurd (by decide) h

/-- An event about one milestone. -/
theorem kindOf_of_one {name : String} {data : ScVal} {f : UInt32 → EventKind}
    {m : UInt32} (h : kindOf name data = (milestoneIdOf data).toOption.map f)
    (hm : milestoneIdOf data = .ok m) : kindOf name data = some (f m) := by
  rw [h, hm]
  rfl

theorem kindOf_created (data : ScVal) : kindOf "escrow_created" data =
    (milestonesOf data).toOption.map fun ms => .created (ms.map (·.id)) := rfl

/-- The writes of a dispatch that ends without an error act on the rows of its entry. -/
private theorem map_tag_of_dispatched {crates : Crates} {event : RpcEvent} {e : UInt64}
    {ledger : Int64} {data : ScVal} {name : String} {ws : List Write} {r : Except Error Bool}
    (h : Dispatched crates event e.toInt64 ledger data name ws r) {b : Bool} (hr : r = .ok b) :
    ws.map Write.tag = ((kindOf name data).map fun kind => LogEntry.tags ⟨e, kind⟩).getD [] := by
  cases h with
  | unrecognized hname =>
    rw [kindOf_of_not_mem hname]
    rfl
  | undecoded => cases hr
  | status hs =>
    rw [kindOf_of_statusOf hs]
    rfl
  | submitted hm _ =>
    have hkind : kindOf "milestone_submitted" data = some (.submitted _) := kindOf_of_one rfl hm
    rw [hkind]
    rfl
  | released hv hm =>
    rw [kindOf_of_viaOf hv, hm]
    rfl
  | expired hm =>
    have hkind : kindOf "milestone_expired" data = some (.milestone _) := kindOf_of_one rfl hm
    rw [hkind]
    rfl
  | raised hm _ _ =>
    have hkind : kindOf "dispute_raised" data = some (.raised _) := kindOf_of_one rfl hm
    rw [hkind]
    rfl
  | resolved hm _ =>
    have hkind : kindOf "dispute_resolved" data = some (.resolved _) := kindOf_of_one rfl hm
    rw [hkind]
    rfl
  | createdOnly => cases hr
  | created ha hms hloop =>
    rename_i r'
    rcases r' with err | u
    · cases hr
    · have hid := (createdFrom_of_createdEscrow ha).id
      rw [kindOf_created, hms, List.map_cons, map_tag_of_forall₂ hloop.forall₂]
      simp [Write.tag, Write.row, Write.creates, hid, LogEntry.tags, Except.toOption]

/-- **The rows of an event.** An event that decodes writes the rows of its entry, in order,
and creates those the entry creates. -/
theorem processEvent_tags {crates : Crates} {event : RpcEvent} {r : Option (Int64 × String)}
    (h : (processEvent crates event).outcome = .ok r) :
    (processEvent crates event).writes.map Write.tag =
      ((logEntry crates event).map LogEntry.tags).getD [] := by
  obtain ⟨head, b, hhead, hd, -⟩ := exists_dispatched_of_ok h
  rw [map_tag_of_dispatched hd rfl]
  simp only [logEntry, hhead, Option.map_map]
  rfl

/-- Every statement of an event is about the escrow of its entry. -/
theorem escrowId_of_logEntry {crates : Crates} {event : RpcEvent} {x : LogEntry}
    (h : logEntry crates event = some x) {w : Write}
    (hw : w ∈ (processEvent crates event).writes) : w.escrowId = x.escrowId.toInt64 := by
  unfold logEntry at h
  split at h
  · rename_i head hhead
    obtain ⟨kind, -, rfl⟩ := Option.map_eq_some_iff.mp h
    exact processEvent_escrowId hhead hw
  · cases h

/-! ### The order of the statements of a log -/

theorem toInt64_inj {e e' : UInt64} (h : e.toInt64 = e'.toInt64) : e = e' :=
  congrArg Int64.toUInt64 h

theorem toInt32_inj {m m' : UInt32} (h : m.toInt32 = m'.toInt32) : m = m' :=
  congrArg Int32.toUInt32 h

/-- The ledger columns hold the ledgers as they are. -/
theorem toInt_ledgerI64 (event : RpcEvent) : event.ledgerI64.toInt = event.ledger.toNat := by
  have hlt := event.ledger.toNat_lt
  have htoInt : event.ledgerI64.toInt = event.ledger.toUInt64.toBitVec.toInt := rfl
  rw [htoInt, BitVec.toInt_eq_toNat_of_lt]
  · simp
  · simp only [UInt64.toNat_toBitVec, UInt32.toNat_toUInt64]
    omega

/-- Later ledgers stay later in the columns. -/
theorem ledgerI64_le {a b : RpcEvent} (h : a.ledger ≤ b.ledger) : a.ledgerI64 ≤ b.ledgerI64 := by
  rw [Int64.le_iff_toInt_le, toInt_ledgerI64, toInt_ledgerI64]
  exact Int.ofNat_le.mpr (UInt32.le_iff_toNat_le.mp h)

/-- The rows one entry writes are pairwise distinct. -/
theorem LogEntry.tags_pairwise {x : LogEntry} (h : ∀ ms, x.kind = .created ms → ms.Nodup) :
    x.tags.Pairwise fun t t' => t.1 ≠ t'.1 := by
  obtain ⟨e, kind⟩ := x
  cases kind with
  | created ms =>
    refine List.pairwise_cons.mpr ⟨fun t ht => ?_, ?_⟩
    · obtain ⟨m, -, rfl⟩ := List.mem_map.mp ht
      exact RowKey.noConfusion
    · rw [List.pairwise_map]
      refine (h ms rfl).imp fun {m m'} hne heq => hne ?_
      exact toInt32_inj (Prod.mk.inj (RowKey.milestone.inj heq)).2
  | _ => simp [LogEntry.tags]

/-- The entry of a row determines the escrow. -/
private theorem escrowId_eq_of_tags {x y : LogEntry} {t t' : RowKey × Bool} (ht : t ∈ x.tags)
    (ht' : t' ∈ y.tags) (h : t.1 = t'.1) : x.escrowId = y.escrowId := by
  have key : ∀ {z : LogEntry} {t : RowKey × Bool}, t ∈ z.tags → t.1.escrowId = z.escrowId.toInt64 := by
    intro z t hz
    obtain ⟨e, kind⟩ := z
    cases kind with
    | created ms =>
      rcases List.mem_cons.mp hz with rfl | hz
      · rfl
      · obtain ⟨m, -, rfl⟩ := List.mem_map.mp hz
        rfl
    | _ =>
      simp only [LogEntry.tags, List.mem_cons, List.not_mem_nil, or_false] at hz
      rcases hz with rfl | rfl <;> rfl
  refine toInt64_inj ?_
  rw [← key ht, ← key ht', h]

/-- An entry creates rows only by creating the escrow or by raising the dispute. -/
private theorem creates_of_tags {x : LogEntry} {t : RowKey × Bool} (ht : t ∈ x.tags)
    (hc : t.2 = true) : x.IsCreation ∨
      ∃ m, x.kind = .raised m ∧ t.1 = .dispute (x.escrowId.toInt64, m.toInt32) := by
  obtain ⟨e, kind⟩ := x
  cases kind with
  | created ms => exact Or.inl ⟨ms, rfl⟩
  | raised m =>
    simp only [LogEntry.tags, List.mem_cons, List.not_mem_nil, or_false] at ht
    rcases ht with rfl | rfl
    · cases hc
    · exact Or.inr ⟨m, rfl, rfl⟩
  | _ =>
    simp only [LogEntry.tags, List.mem_cons, List.not_mem_nil, or_false] at ht
    rcases ht with rfl | rfl <;> cases hc

/-- An entry that writes a dispute raises or resolves it. -/
private theorem raised_or_resolved_of_tags {x : LogEntry} {e : UInt64} {m : UInt32} {b : Bool}
    (h : (.dispute (e.toInt64, m.toInt32), b) ∈ x.tags) :
    x.kind = .raised m ∨ x.kind = .resolved m := by
  obtain ⟨e', kind⟩ := x
  have hm : ∀ {m' : UInt32}, RowKey.dispute (e.toInt64, m.toInt32) =
      RowKey.dispute (e'.toInt64, m'.toInt32) → m' = m := fun heq =>
    (toInt32_inj (Prod.mk.inj (RowKey.dispute.inj heq)).2).symm
  cases kind with
  | raised m' =>
    simp only [LogEntry.tags, List.mem_cons, List.not_mem_nil, or_false] at h
    rcases h with h | h
    · cases h
    · exact Or.inl (congrArg _ (hm (Prod.mk.inj h).1))
  | resolved m' =>
    simp only [LogEntry.tags, List.mem_cons, List.not_mem_nil, or_false] at h
    rcases h with h | h
    · cases h
    · exact Or.inr (congrArg _ (hm (Prod.mk.inj h).1))
  | _ => simp [LogEntry.tags] at h

/-- **Creations come first.** No entry of a log creates a row an earlier entry writes. -/
theorem Protocol.tags_pairwise {entries : List LogEntry} (h : Protocol entries) :
    entries.Pairwise fun x y => ∀ t ∈ x.tags, ∀ t' ∈ y.tags, t.1 = t'.1 → t'.2 = false := by
  rw [List.pairwise_iff_getElem]
  intro i j hi hj hij t ht t' ht' heq
  by_contra hc
  have hesc : entries[i].escrowId = entries[j].escrowId := escrowId_eq_of_tags ht ht' heq
  rcases creates_of_tags ht' (Bool.not_eq_false _ ▸ hc) with hcre | ⟨m, hraised, hrow⟩
  · exact List.pairwise_iff_getElem.mp h.once i j hi hj hij hesc hcre
  · have honce := List.pairwise_iff_getElem.mp h.raised_once
    rcases raised_or_resolved_of_tags (b := t.2) (by rw [← hrow, ← heq]; exact ht) with hi' | hi'
    · exact honce i j hi hj hij hesc m hi' hraised
    · -- a resolution follows the raise of its dispute, which would be raised twice
      obtain ⟨k, hk, hget⟩ := List.mem_iff_getElem.mp
        (h.resolved_after (entries.take i) entries[i] (entries.drop (i + 1)) (by simp) m hi')
      rw [List.length_take] at hk
      rw [List.getElem_take] at hget
      have hki : k < entries.length := by omega
      refine honce k j hki hj (by omega) ?_ m ?_ hraised
      · rw [hget, hesc]
      · rw [hget]

/-- The statements of one event are about different rows. -/
theorem WellFormedLog.rows_pairwise {crates : Crates} {log : List RpcEvent}
    (h : WellFormedLog crates log) {event : RpcEvent} (hev : event ∈ log) :
    (processEvent crates event).writes.Pairwise fun w w' => w.row ≠ w'.row := by
  obtain ⟨r, hr⟩ := h.decodes event hev
  have hpair : ((processEvent crates event).writes.map Write.tag).Pairwise
      fun t t' => t.1 ≠ t'.1 := by
    rw [processEvent_tags hr]
    rcases hx : logEntry crates event with _ | ⟨e, kind⟩
    · exact .nil
    · refine LogEntry.tags_pairwise fun ms hms => h.protocol.distinct e ms ?_
      exact List.mem_filterMap.mpr ⟨event, hev, hx.trans (by rw [← hms])⟩
  rwa [List.pairwise_map] at hpair

/-- **The statements of a well-formed log are ordered.** -/
theorem WellFormedLog.precedes {crates : Crates} {log : List RpcEvent}
    (h : WellFormedLog crates log) :
    (log.flatMap fun event => (processEvent crates event).writes).Pairwise Write.Precedes := by
  rw [List.pairwise_flatMap]
  have htags : ∀ event ∈ log, ∀ w ∈ (processEvent crates event).writes,
      ∃ x, logEntry crates event = some x ∧ w.tag ∈ x.tags := by
    intro event hev w hw
    obtain ⟨r, hr⟩ := h.decodes event hev
    have hmem : w.tag ∈ (processEvent crates event).writes.map Write.tag :=
      List.mem_map_of_mem hw
    rw [processEvent_tags hr] at hmem
    rcases hx : logEntry crates event with _ | x
    · rw [hx] at hmem
      cases hmem
    · rw [hx] at hmem
      exact ⟨x, rfl, hmem⟩
  refine ⟨fun event hev => ?_, ?_⟩
  · exact (h.rows_pairwise hev).imp fun hne heq => absurd heq hne
  · have hentries := List.pairwise_filterMap.mp h.protocol.tags_pairwise
    refine (hentries.and h.ledgers).imp_of_mem ?_
    intro a b ha hb ⟨hab, hle⟩ w hw w' hw' hrow
    obtain ⟨x, hx, hwx⟩ := htags a ha w hw
    obtain ⟨y, hy, hwy⟩ := htags b hb w' hw'
    refine ⟨hab x hx y hy _ hwx _ hwy hrow, fun l hl l' hl' => ?_⟩
    rw [processEvent_ledger hw hl, processEvent_ledger hw' hl']
    exact ledgerI64_le hle

/-! ### Every escrow is there when it is needed -/

/-- A statement that creates an escrow inserts it. -/
private theorem createdEscrow?_of_tag {w : Write} {e : Int64} (h : w.tag = (.escrow e, true)) :
    w.createdEscrow? = some e := by
  cases w with
  | upsertEscrow a => exact congrArg some (RowKey.escrow.inj (Prod.mk.inj h).1)
  | upsertMilestone a => cases (Prod.mk.inj h).1
  | insertDispute e' m raisedBy reason => cases (Prod.mk.inj h).1
  | _ => cases (Prod.mk.inj h).2

/-- The statements of a creation start with the escrow. -/
theorem writes_of_isCreation {crates : Crates} {event : RpcEvent}
    {r : Option (Int64 × String)} (hr : (processEvent crates event).outcome = .ok r)
    {x : LogEntry} (hx : logEntry crates event = some x) (hc : x.IsCreation) :
    ∃ w ws, (processEvent crates event).writes = w :: ws ∧
      w.createdEscrow? = some x.escrowId.toInt64 := by
  obtain ⟨ms, hms⟩ := hc
  have htags := processEvent_tags hr
  simp only [hx, LogEntry.tags, hms, Option.map_some, Option.getD_some] at htags
  obtain ⟨w, ws, hws, hw, -⟩ := List.map_eq_cons_iff.mp htags
  exact ⟨w, ws, hws, createdEscrow?_of_tag hw⟩

private theorem needsEscrow_of_createdEscrow? {w : Write} {e : Int64}
    (h : w.createdEscrow? = some e) : w.needsEscrow = false := by
  cases w with
  | upsertEscrow a => rfl
  | _ => cases h

/-- The statements of an event meet no missing escrow, if the event creates its escrow or finds
it there. -/
theorem ready_of_entry {crates : Crates} {event : RpcEvent} {r : Option (Int64 × String)}
    (hr : (processEvent crates event).outcome = .ok r) {x : LogEntry}
    (hx : logEntry crates event = some x) {v : View}
    (h : ¬ x.IsCreation → (v.escrow x.escrowId.toInt64).isSome = true) :
    v.Ready (processEvent crates event).writes := by
  have habout := fun w hw => escrowId_of_logEntry hx (w := w) hw
  by_cases hc : x.IsCreation
  · -- the first statement inserts the escrow, which the others then find
    obtain ⟨w, ws, hws, hw⟩ := writes_of_isCreation hr hx hc
    rw [hws] at habout ⊢
    have hadm : v.Admits w := fun hn =>
      absurd (hn.symm.trans (needsEscrow_of_createdEscrow? hw)) (by decide)
    have hsome := (View.isSome_apply w v _).mpr (Or.inr hw)
    exact ⟨hadm, View.ready_of_isSome hsome fun w' hw' =>
      habout w' (List.mem_cons_of_mem w hw')⟩
  · exact View.ready_of_isSome (h hc) habout

/-- After a creation the escrow is there. -/
theorem isSome_of_isCreation {crates : Crates} {event : RpcEvent}
    {r : Option (Int64 × String)} (hr : (processEvent crates event).outcome = .ok r)
    {x : LogEntry} (hx : logEntry crates event = some x) (hc : x.IsCreation) (v : View) :
    ((v.run (processEvent crates event).writes).escrow x.escrowId.toInt64).isSome = true := by
  obtain ⟨w, ws, hws, hw⟩ := writes_of_isCreation hr hx hc
  rw [hws, View.run_cons]
  exact View.escrowsIn_run ws _ _ ((View.isSome_apply w v _).mpr (Or.inr hw))

/-- The statements of a log meet no missing escrow, if the escrows its events are about exist
from the start or are created before them. -/
theorem ready_of_created {crates : Crates} {log : List RpcEvent}
    (hdec : ∀ event ∈ log, ∃ r, (processEvent crates event).outcome = .ok r) {v : View}
    (h : ∀ pre x post, log.filterMap (logEntry crates) = pre ++ x :: post → ¬ x.IsCreation →
      (v.escrow x.escrowId.toInt64).isSome = true ∨
        ∃ c ∈ pre, c.escrowId = x.escrowId ∧ c.IsCreation) :
    v.Ready (log.flatMap fun event => (processEvent crates event).writes) := by
  induction log generalizing v with
  | nil => trivial
  | cons event log ih =>
    obtain ⟨r, hr⟩ := hdec event List.mem_cons_self
    have hdec' := fun event' hev => hdec event' (List.mem_cons_of_mem event hev)
    rw [List.flatMap_cons, View.ready_append]
    rcases hx : logEntry crates event with _ | x
    · have hnil : (processEvent crates event).writes = [] := by
        simpa [hx] using processEvent_tags hr
      rw [List.filterMap_cons_none hx] at h
      rw [hnil]
      exact ⟨trivial, ih hdec' h⟩
    rw [List.filterMap_cons_some hx] at h
    refine ⟨ready_of_entry hr hx fun hc => ?_, ih hdec' fun pre y post heq hy => ?_⟩
    · rcases h [] x _ rfl hc with hsome | ⟨c, hmem, -⟩
      · exact hsome
      · cases hmem
    · rcases h (x :: pre) y post (congrArg (x :: ·) heq) hy with hsome | ⟨c, hmem, hce, hcc⟩
      · exact Or.inl (View.escrowsIn_run _ v _ hsome)
      · rcases List.mem_cons.mp hmem with rfl | hmem
        · exact Or.inl (hce ▸ isSome_of_isCreation hr hx hcc v)
        · exact Or.inr ⟨c, hmem, hce, hcc⟩

/-- Nothing about an escrow comes before its creation. -/
theorem CreatedFirst.ne_of_creation {pre post : List LogEntry} {x y : LogEntry}
    (h : CreatedFirst (pre ++ x :: post)) (hx : x.IsCreation) (hy : y ∈ pre) :
    y.escrowId ≠ x.escrowId := by
  intro heq
  have honce := (List.pairwise_append.mp h.once).2.2
  by_cases hc : y.IsCreation
  · exact honce y hy x List.mem_cons_self heq hx
  · obtain ⟨before, after, rfl⟩ := List.append_of_mem hy
    obtain ⟨c, hmem, hce, -⟩ := h.before before y (after ++ x :: post) (by simp) hc
    exact honce c (List.mem_append_left _ hmem) x List.mem_cons_self (hce.trans heq) hx

theorem CreatedFirst.of_append {entries rest : List LogEntry}
    (h : CreatedFirst (entries ++ rest)) : CreatedFirst entries where
  once := (List.pairwise_append.mp h.once).1
  before pre x post heq hx := h.before pre x (post ++ rest) (by rw [heq]; simp) hx

/-- **No statement of a log meets a missing escrow** where creations come first. -/
theorem CreatedFirst.ready {crates : Crates} {log : List RpcEvent}
    (h : CreatedFirst (log.filterMap (logEntry crates)))
    (hdec : ∀ event ∈ log, ∃ r, (processEvent crates event).outcome = .ok r) (v : View) :
    v.Ready (log.flatMap fun event => (processEvent crates event).writes) :=
  ready_of_created hdec fun pre x post heq hx => Or.inr (h.before pre x post heq hx)

/-! ### A sample log -/

/-- The bytes of an ASCII text. -/
def ascii (text : String) : List UInt8 := text.toList.map fun c => c.toNat.toUInt8

/-- The data of an `escrow_created` with one milestone, encoded and decoded. -/
def sampleCreated : String × ScVal :=
  ("AAAAEQAAAAEAAAAJAAAADwAAAAphcmJpdHJhdG9yAAAAAAASAAAAAAAAAAAAAAAAAAAAAAAAAAAAAAAAAAAAAAAA" ++
    "AAAAAAAAAAAAAAAAAA8AAAAGY2xpZW50AAAAAAASAAAAAAAAAAABAQEBAQEBAQEBAQEBAQEBAQEBAQEBAQEBAQEB" ++
    "AQEBAQAAAA8AAAAKY3JlYXRlZF9hdAAAAAAABQAAAAAAAABkAAAADwAAAAxtZXRhZGF0YV91cmkAAAAOAAAAAAAA" ++
    "AA8AAAAKbWlsZXN0b25lcwAAAAAAEAAAAAEAAAABAAAAEQAAAAEAAAAEAAAADwAAAAZhbW91bnQAAAAAAAoAAAAA" ++
    "AAAAAAAAAAAAAAAFAAAADwAAAAhkZWFkbGluZQAAAAUAAAAAAAADhAAAAA8AAAALZGVzY3JpcHRpb24AAAAADgAA" ++
    "AAFhAAAAAAAADwAAAAJpZAAAAAAAAwAAAAAAAAAPAAAACHByb3ZpZGVyAAAAEgAAAAAAAAAAAgICAgICAgICAgIC" ++
    "AgICAgICAgICAgICAgICAgICAgIAAAAPAAAADXJldmlld19wZXJpb2QAAAAAAAAFAAAAAAAAADwAAAAPAAAABXRp" ++
    "dGxlAAAAAAAADgAAAAF0AAAAAAAADwAAAAV0b2tlbgAAAAAAABIAAAABAwMDAwMDAwMDAwMDAwMDAwMDAwMDAwMD" ++
    "AwMDAwMDAwM=",
  .map (some [
    (.symbol (ascii "arbitrator"), .address (.account (.replicate 32 0))),
    (.symbol (ascii "client"), .address (.account (.replicate 32 1))),
    (.symbol (ascii "created_at"), .u64 100),
    (.symbol (ascii "metadata_uri"), .string []),
    (.symbol (ascii "milestones"), .vec (some [.map (some [
      (.symbol (ascii "amount"), .i128 0 5),
      (.symbol (ascii "deadline"), .u64 900),
      (.symbol (ascii "description"), .string (ascii "a")),
      (.symbol (ascii "id"), .u32 0)])])),
    (.symbol (ascii "provider"), .address (.account (.replicate 32 2))),
    (.symbol (ascii "review_period"), .u64 60),
    (.symbol (ascii "title"), .string (ascii "t")),
    (.symbol (ascii "token"), .address (.contract (.replicate 32 3)))]))

/-- The data of a `milestone_submitted` with evidence. -/
def sampleSubmitted : String × ScVal :=
  ("AAAAEQAAAAEAAAADAAAADwAAAA1ldmlkZW5jZV9oYXNoAAAAAAAADQAAACAHBwcHBwcHBwcHBwcHBwcHBwcHBwcH" ++
    "BwcHBwcHBwcHBwAAAA8AAAAMZXZpZGVuY2VfdXJpAAAADgAAAAFlAAAAAAAADwAAAAxtaWxlc3RvbmVfaWQAAAAD" ++
    "AAAAAA==",
  .map (some [
    (.symbol (ascii "evidence_hash"), .bytes (.replicate 32 7)),
    (.symbol (ascii "evidence_uri"), .string (ascii "e")),
    (.symbol (ascii "milestone_id"), .u32 0)]))

/-- The data of a `dispute_raised` by the client. -/
def sampleRaised : String × ScVal :=
  ("AAAAEQAAAAEAAAADAAAADwAAAAxtaWxlc3RvbmVfaWQAAAADAAAAAAAAAA8AAAAJcmFpc2VkX2J5AAAAAAAAEgAA" ++
    "AAAAAAAAAQEBAQEBAQEBAQEBAQEBAQEBAQEBAQEBAQEBAQEBAQEAAAAPAAAABnJlYXNvbgAAAAAADgAAAARsYXRl",
  .map (some [
    (.symbol (ascii "milestone_id"), .u32 0),
    (.symbol (ascii "raised_by"), .address (.account (.replicate 32 1))),
    (.symbol (ascii "reason"), .string (ascii "late"))]))

/-- The data of a `dispute_resolved` by a split. -/
def sampleResolved : String × ScVal :=
  ("AAAAEQAAAAEAAAACAAAADwAAAAxtaWxlc3RvbmVfaWQAAAADAAAAAAAAAA8AAAAKcmVzb2x1dGlvbgAAAAAAEAAA" ++
    "AAEAAAACAAAADwAAAAVTcGxpdAAAAAAAAAMAAA+g",
  .map (some [
    (.symbol (ascii "milestone_id"), .u32 0),
    (.symbol (ascii "resolution"), .vec (some [.symbol (ascii "Split"), .u32 4000]))]))

/-- The encodings of the values of the sample events. -/
def sampleValues : List (String × ScVal) :=
  [("AAAADwAAAA5lc2Nyb3dfY3JlYXRlZAAA", .symbol (ascii "escrow_created")),
    ("AAAADwAAAA1lc2Nyb3dfZnVuZGVkAAAA", .symbol (ascii "escrow_funded")),
    ("AAAADwAAABJtaWxlc3RvbmVfYXBwcm92ZWQAAA==", .symbol (ascii "milestone_approved")),
    ("AAAABQAAAAAAAAAB", .u64 1),
    ("AAAAAQ==", .other "Void"),
    ("AAAAEQAAAAEAAAABAAAADwAAAAxtaWxlc3RvbmVfaWQAAAADAAAAAA==",
      .map (some [(.symbol (ascii "milestone_id"), .u32 0)])),
    ("AAAADwAAABNtaWxlc3RvbmVfc3VibWl0dGVkAA==", .symbol (ascii "milestone_submitted")),
    ("AAAADwAAAA5kaXNwdXRlX3JhaXNlZAAA", .symbol (ascii "dispute_raised")),
    ("AAAADwAAABBkaXNwdXRlX3Jlc29sdmVk", .symbol (ascii "dispute_resolved")),
    sampleSubmitted, sampleRaised, sampleResolved, sampleCreated]

/-- The crates on the values of the sample events. -/
def sampleCrates : Crates where
  fromXdrBase64 := fun b64 => (sampleValues.find? fun v => v.1 = b64).map Prod.snd
  publicKeyToString := fun ed25519 =>
    if ed25519 = .replicate 32 0 then "GAAAAAAAAAAAAAAAAAAAAAAAAAAAAAAAAAAAAAAAAAAAAAAAAAAAAWHF"
    else if ed25519 = .replicate 32 1 then
      "GAAQCAIBAEAQCAIBAEAQCAIBAEAQCAIBAEAQCAIBAEAQCAIBAEAQDZ7H"
    else "GABAEAQCAIBAEAQCAIBAEAQCAIBAEAQCAIBAEAQCAIBAEAQCAIBAEJXA"
  contractToString := fun _ => "CABQGAYDAMBQGAYDAMBQGAYDAMBQGAYDAMBQGAYDAMBQGAYDAMBQGCK3"
  hmacSha256 := Sha256.hmac

/-- An event of escrow 1; the ledger is also its id. -/
def sampleEvent (contractId : String) (ledger : UInt32) (name value : String) : RpcEvent where
  contractId := contractId
  ledger := ledger
  ledgerClosedAt := .ofSeconds 1000
  id := toString ledger.toNat
  topic := [name, "AAAABQAAAAAAAAAB"]
  value := value
  inSuccessfulContractCall := true

/-- The contract of the sample log. -/
def sampleContract : String := "CACAIBAEAQCAIBAEAQCAIBAEAQCAIBAEAQCAIBAEAQCAIBAEAQCAINCW"

/-- An `escrow_created` of escrow 1, with the milestone 0. -/
def createdEvent (contractId : String) (ledger : UInt32) : RpcEvent :=
  sampleEvent contractId ledger "AAAADwAAAA5lc2Nyb3dfY3JlYXRlZAAA" sampleCreated.1

/-- An `escrow_funded` of escrow 1. -/
def fundedEvent (contractId : String) (ledger : UInt32) : RpcEvent :=
  sampleEvent contractId ledger "AAAADwAAAA1lc2Nyb3dfZnVuZGVkAAAA" "AAAAAQ=="

/-- A `milestone_approved` of the milestone 0 of escrow 1. -/
def approvedEvent (contractId : String) (ledger : UInt32) : RpcEvent :=
  sampleEvent contractId ledger "AAAADwAAABJtaWxlc3RvbmVfYXBwcm92ZWQAAA=="
    "AAAAEQAAAAEAAAABAAAADwAAAAxtaWxlc3RvbmVfaWQAAAADAAAAAA=="

/-- A `milestone_submitted` of the milestone 0 of escrow 1. -/
def submittedEvent (contractId : String) (ledger : UInt32) : RpcEvent :=
  sampleEvent contractId ledger "AAAADwAAABNtaWxlc3RvbmVfc3VibWl0dGVkAA==" sampleSubmitted.1

/-- A `dispute_raised` about the milestone 0 of escrow 1. -/
def raisedEvent (contractId : String) (ledger : UInt32) : RpcEvent :=
  sampleEvent contractId ledger "AAAADwAAAA5kaXNwdXRlX3JhaXNlZAAA" sampleRaised.1

/-- A `dispute_resolved` about the milestone 0 of escrow 1. -/
def resolvedEvent (contractId : String) (ledger : UInt32) : RpcEvent :=
  sampleEvent contractId ledger "AAAADwAAABBkaXNwdXRlX3Jlc29sdmVk" sampleResolved.1

/-- Escrow 1 is created, funded, and its milestone approved. -/
def sampleLog : List RpcEvent :=
  [createdEvent sampleContract 1, fundedEvent sampleContract 2, approvedEvent sampleContract 3]

/-- The values of the escrow row the sample creates. -/
def sampleEscrow (contractId : String) (ledger : UInt32) : UpsertEscrow where
  id := 1
  contractId := contractId
  client := "GAAQCAIBAEAQCAIBAEAQCAIBAEAQCAIBAEAQCAIBAEAQCAIBAEAQDZ7H"
  provider := "GABAEAQCAIBAEAQCAIBAEAQCAIBAEAQCAIBAEAQCAIBAEAQCAIBAEJXA"
  arbitrator := "GAAAAAAAAAAAAAAAAAAAAAAAAAAAAAAAAAAAAAAAAAAAAAAAAAAAAWHF"
  token := "CABQGAYDAMBQGAYDAMBQGAYDAMBQGAYDAMBQGAYDAMBQGAYDAMBQGCK3"
  status := "created"
  ledger := ledger.toUInt64.toInt64
  reviewPeriod := 60
  chainCreatedAt := .ofSeconds 100
  title := some "t"
  metadataUri := none
  metadataHash := none

/-- The values of the milestone row the sample creates. -/
def sampleMilestone : UpsertMilestone where
  escrowId := 1
  milestoneId := 0
  description := "a"
  amount := 5
  status := "pending"
  deadline := .ofSeconds 900

/-- An event's head, from the values its texts encode. -/
theorem decodeHead_of_values {crates : Crates} {event : RpcEvent} {nameB64 idB64 name : String}
    {bytes : List UInt8} {id : UInt64} {data : ScVal} (htopic : event.topic = [nameB64, idB64])
    (hnameB64 : crates.fromXdrBase64 nameB64 = some (.symbol bytes))
    (hname : StringM.display bytes = name)
    (hid : crates.fromXdrBase64 idB64 = some (.u64 id))
    (hdata : crates.fromXdrBase64 event.value = some data) :
    decodeHead crates event = .ok ⟨name, id, data⟩ := by
  subst hname
  simp only [decodeHead, htopic, List.mapM_cons, List.mapM_nil, decodeScvalBase64, hnameB64, hid,
    hdata]
  rfl

/-- A text is looked up behind others. -/
theorem find?_value {values pre post : List (String × ScVal)} {x : String × ScVal}
    (hvalues : values = pre ++ x :: post) (hpre : ∀ v ∈ pre, v.1 ≠ x.1) :
    (values.find? fun v => v.1 = x.1).map Prod.snd = some x.2 := by
  have hfind : values.find? (fun v => v.1 = x.1) = some x := by
    refine List.find?_eq_some_iff_append.mpr ⟨decide_eq_true rfl, pre, post, hvalues, fun v hv => ?_⟩
    simpa using hpre v hv
  rw [hfind, Option.map_some]

/-- The dispatch decodes no text. -/
theorem dispatch_fromXdrBase64 (crates : Crates) (f : String → Option ScVal) :
    dispatch { crates with fromXdrBase64 := f } = dispatch crates := rfl

section Sample

set_option maxRecDepth 4000

theorem fromXdrBase64_sampleCrates (b64 : String) : sampleCrates.fromXdrBase64 b64 =
    (sampleValues.find? fun v => v.1 = b64).map Prod.snd := (rfl)

theorem fromXdrBase64_sampleCreated :
    sampleCrates.fromXdrBase64 sampleCreated.1 = some sampleCreated.2 := by
  rw [fromXdrBase64_sampleCrates]
  exact @find?_value sampleValues sampleValues.dropLast [] _ rfl (by decide)

variable (contractId : String) (ledger : UInt32)

theorem decodeHead_createdEvent :
    decodeHead sampleCrates (createdEvent contractId ledger) =
      .ok ⟨"escrow_created", 1, sampleCreated.2⟩ :=
  decodeHead_of_values rfl rfl rfl rfl fromXdrBase64_sampleCreated

theorem createdEscrow_createdEvent :
    createdEscrow sampleCrates (createdEvent contractId ledger) 1
      (createdEvent contractId ledger).ledgerI64 sampleCreated.2 =
        .ok (sampleEscrow contractId ledger) := (rfl)

theorem decodeHead_fundedEvent :
    decodeHead sampleCrates (fundedEvent contractId ledger) =
      .ok ⟨"escrow_funded", 1, .other "Void"⟩ := (rfl)

theorem processEvent_createdEvent :
    processEvent sampleCrates (createdEvent contractId ledger) =
      .write (.upsertEscrow (sampleEscrow contractId ledger))
        (.write (.upsertMilestone sampleMilestone)
          (.done (some (1, "escrow_created")))) := by
  rw [processEvent, decodeHead_createdEvent]
  rfl

theorem processEvent_fundedEvent :
    processEvent sampleCrates (fundedEvent contractId ledger) =
      .write (.setEscrowStatus 1 "funded" ledger.toUInt64.toInt64)
        (.done (some (1, "escrow_funded"))) := (rfl)

theorem processEvent_approvedEvent :
    processEvent sampleCrates (approvedEvent contractId ledger) =
      .write (.releaseMilestone 1 0 "approved") (.done (some (1, "milestone_approved"))) := (rfl)

theorem processEvent_submittedEvent :
    processEvent sampleCrates (submittedEvent contractId ledger) =
      .write (.setEscrowStatus 1 "in_progress" ledger.toUInt64.toInt64)
        (.write (.markMilestoneSubmitted 1 0 (some "e") (some (hexEncode (.replicate 32 7)))
            (.ofSeconds 1000))
          (.done (some (1, "milestone_submitted")))) := (rfl)

theorem processEvent_raisedEvent :
    processEvent sampleCrates (raisedEvent contractId ledger) =
      .write (.setMilestoneStatus 1 0 "disputed")
        (.write (.insertDispute 1 0 (sampleEscrow contractId ledger).client "late")
          (.done (some (1, "dispute_raised")))) := (rfl)

theorem processEvent_resolvedEvent :
    processEvent sampleCrates (resolvedEvent contractId ledger) =
      .write (.setMilestoneStatus 1 0 "resolved")
        (.write (.resolveDispute 1 0 "split" (some 4000))
          (.done (some (1, "dispute_resolved")))) := (rfl)

theorem logEntry_createdEvent :
    logEntry sampleCrates (createdEvent contractId ledger) = some ⟨1, .created [0]⟩ := by
  rw [logEntry, decodeHead_createdEvent]
  rfl

theorem logEntry_fundedEvent :
    logEntry sampleCrates (fundedEvent contractId ledger) = some ⟨1, .status⟩ := (rfl)

theorem logEntry_approvedEvent :
    logEntry sampleCrates (approvedEvent contractId ledger) = some ⟨1, .milestone 0⟩ := (rfl)

end Sample

/-- A log about one escrow that starts with its creation. -/
theorem createdFirst_cons {c : LogEntry} {rest : List LogEntry} (hc : c.IsCreation)
    (hrest : ∀ x ∈ rest, x.escrowId = c.escrowId ∧ ¬ x.IsCreation) : CreatedFirst (c :: rest) where
  once := by
    refine List.pairwise_cons.mpr ⟨fun x hx _ => (hrest x hx).2, ?_⟩
    exact List.pairwise_of_forall_mem_list fun x _ y hy _ => (hrest y hy).2
  before pre x post heq hx := by
    rcases pre with _ | ⟨c', pre⟩
    · obtain rfl := (List.cons.inj heq).1
      exact absurd hc hx
    · obtain ⟨rfl, hrest'⟩ := List.cons.inj heq
      have hmem : x ∈ rest := by
        rw [hrest']
        exact List.mem_append_right _ List.mem_cons_self
      exact ⟨c, List.mem_cons_self, (hrest x hmem).1.symm, hc⟩

/-- **The sample log is well formed.** -/
theorem sampleLog_wellFormed : WellFormedLog sampleCrates sampleLog where
  successful := by simp [sampleLog, createdEvent, fundedEvent, approvedEvent, sampleEvent]
  decodes := by
    intro event hev
    simp only [sampleLog, List.mem_cons, List.not_mem_nil, or_false] at hev
    rcases hev with rfl | rfl | rfl
    · exact ⟨_, congrArg Script.outcome (processEvent_createdEvent ..)⟩
    · exact ⟨_, congrArg Script.outcome (processEvent_fundedEvent ..)⟩
    · exact ⟨_, congrArg Script.outcome (processEvent_approvedEvent ..)⟩
  ledgers := by decide
  protocol := by
    have hentries : sampleLog.filterMap (logEntry sampleCrates) =
        [⟨1, .created [0]⟩, ⟨1, .status⟩, ⟨1, .milestone 0⟩] := by
      simp [sampleLog, logEntry_createdEvent, logEntry_fundedEvent, logEntry_approvedEvent]
    rw [hentries]
    refine ⟨createdFirst_cons ⟨_, rfl⟩ ?_, ?_, ?_, ?_, ?_⟩
    · simp [LogEntry.IsCreation]
    · simp
    · intro e ms x hc hx _ m hm
      obtain ⟨-, rfl⟩ : e = 1 ∧ ms = [0] := by simpa using hc
      simp only [List.mem_cons, List.not_mem_nil, or_false] at hx
      rcases hx with rfl | rfl | rfl
      · cases hm
      · cases hm
      · exact List.mem_singleton.mpr (Option.some.inj hm).symm
    · simp
    · intro pre x post heq m hm
      have hmem : x ∈ ([⟨1, .created [0]⟩, ⟨1, .status⟩, ⟨1, .milestone 0⟩] :
          List LogEntry) := by
        rw [heq]
        exact List.mem_append_right _ List.mem_cons_self
      simp only [List.mem_cons, List.not_mem_nil, or_false] at hmem
      rcases hmem with rfl | rfl | rfl <;> cases hm


end ConcordBackend
