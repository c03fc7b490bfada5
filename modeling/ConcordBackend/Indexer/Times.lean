import ConcordBackend.Indexer.Stored
import ConcordBackend.Library.Casts

/-!
# The times of a creation

`unix_seconds_to_datetime` casts the seconds of the chain from `u64` to `i64` and lets
`DateTime::from_timestamp` check the range, so the check sees the wrapped number: of the
seconds no `DateTime` represents, those from `2 ^ 64 - 8334601228800` on pass it as instants
before the epoch (`unixSecondsToDatetime_eq`). An `escrow_created` therefore stores its times
exactly, and errs where one of them is out of range, if and only if the first of its times
that is out of range is not one of these (`storesTimes_iff`).
-/

namespace ConcordBackend

/-- A `DateTime` can hold the instant `secs` seconds after the epoch. -/
def Representable (secs : UInt64) : Prop := (secs.toNat : Int) ≤ DateTime.maxSeconds

instance (secs : UInt64) : Decidable (Representable secs) := inferInstanceAs (Decidable (_ ≤ _))

/-- The cast makes of `secs` a negative number that a `DateTime` can hold. -/
def Wraps (secs : UInt64) : Prop := 2 ^ 64 + DateTime.minSeconds ≤ (secs.toNat : Int)

instance (secs : UInt64) : Decidable (Wraps secs) := inferInstanceAs (Decidable (_ ≤ _))

/-- **The conversion of seconds**, over the whole range of `u64`. -/
theorem unixSecondsToDatetime_eq (secs : UInt64) : unixSecondsToDatetime secs =
    if Representable secs then .ok (.ofSeconds secs.toNat)
    else if Wraps secs then .ok (.ofSeconds (secs.toNat - 2 ^ 64))
    else .error (.timestampOutOfRange secs) := by
  have hlt := secs.toNat_lt
  -- from `2 ^ 63` on the cast to `i64` subtracts `2 ^ 64`
  have hcast : secs.toInt64.toInt = secs.toNat ∧ secs.toNat < 2 ^ 63 ∨
      secs.toInt64.toInt = secs.toNat - 2 ^ 64 ∧ 2 ^ 63 ≤ secs.toNat := by
    rw [UInt64.toInt_toInt64]
    split <;> omega
  unfold unixSecondsToDatetime DateTime.fromTimestamp DateTime.minSeconds DateTime.maxSeconds
  by_cases hr : Representable secs
  · have hle : (secs.toNat : Int) ≤ 8210266876799 := hr
    have hval : secs.toInt64.toInt = secs.toNat := by omega
    have hrange : -8334601228800 ≤ secs.toInt64.toInt ∧ secs.toInt64.toInt ≤ 8210266876799 := by
      omega
    rw [if_pos hr, if_pos hrange, hval]
  rw [if_neg hr]
  have hgt : ¬ (secs.toNat : Int) ≤ 8210266876799 := hr
  by_cases hw : Wraps secs
  · have hwle : 2 ^ 64 + -8334601228800 ≤ (secs.toNat : Int) := hw
    have hval : secs.toInt64.toInt = secs.toNat - 2 ^ 64 := by omega
    have hrange : -8334601228800 ≤ secs.toInt64.toInt ∧ secs.toInt64.toInt ≤ 8210266876799 := by
      omega
    rw [if_pos hw, if_pos hrange, hval]
  · have hwgt : ¬ 2 ^ 64 + -8334601228800 ≤ (secs.toNat : Int) := hw
    have hrange :
        ¬ (-8334601228800 ≤ secs.toInt64.toInt ∧ secs.toInt64.toInt ≤ 8210266876799) := by omega
    rw [if_neg hw, if_neg hrange]

/-- The conversion errs only where the seconds neither fit nor wrap, and names them. -/
theorem unixSecondsToDatetime_eq_error {secs : UInt64} {err : Error} :
    unixSecondsToDatetime secs = .error err ↔
      ¬ Representable secs ∧ ¬ Wraps secs ∧ err = .timestampOutOfRange secs := by
  rw [unixSecondsToDatetime_eq]
  split
  · simp [*]
  · split
    · simp [*]
    · simp [*, eq_comm]

/-- Where the seconds do not wrap the conversion is exact. -/
theorem unixSecondsToDatetime_eq_ok {secs : UInt64} (hwrap : ¬ Wraps secs) {t : DateTime} :
    unixSecondsToDatetime secs = .ok t ↔ Representable secs ∧ t = .ofSeconds secs.toNat := by
  rw [unixSecondsToDatetime_eq, if_neg hwrap]
  split
  · simp [*, eq_comm]
  · simp [*]

/-! ### The times of an event -/

/-- The first of some times that no `DateTime` represents. -/
def firstOutOfRange (times : List UInt64) : Option UInt64 :=
  times.find? fun secs => ¬ Representable secs

/-- An `escrow_created` that decodes but for the conversion of its times, `createdAt` and the
deadlines of `milestones`. -/
structure TimedCreation (crates : Crates) (event : RpcEvent) (head : EventHead)
    (createdAt : UInt64) (milestones : List DecodedMilestone) : Prop where
  decodes : decodeHead crates event = .ok head
  named : head.name = "escrow_created"
  created : (mapGet head.data "created_at").bind scValToU64 = .ok createdAt
  listed : milestonesOf head.data = .ok milestones
  addresses : ∀ field ∈ ["client", "provider", "arbitrator", "token"],
    ∃ addr, (mapGet head.data field).bind (scValToAddress crates) = .ok addr
  reviewPeriod : ∃ period, (mapGet head.data "review_period").bind scValToU64 = .ok period
  title : ∃ title, (mapGet head.data "title").bind scValToString = .ok title
  metadata : ∃ uri, (mapGet head.data "metadata_uri").bind scValToString = .ok uri ∧
    ∃ hash, hashFor (emptyAsNone uri) head.data "metadata_hash" = .ok hash

/-- The times of a creation, in the order its code converts them. -/
def timesOf (createdAt : UInt64) (milestones : List DecodedMilestone) : List UInt64 :=
  createdAt :: milestones.map DecodedMilestone.deadline

/-- What the processing of a creation should do with its times. The rows are read after any run
of the event, whatever failed in it and from whatever database it started. -/
structure StoresTimes (crates : Crates) (event : RpcEvent) (head : EventHead)
    (createdAt : UInt64) (milestones : List DecodedMilestone) : Prop where
  /-- a new escrow row holds the instant of `created_at` -/
  escrow : ∀ {E : Env} (r : EventRun E crates), r.event = event → ∀ row,
    r.before.db.getEscrow head.escrowId.toInt64 = none →
      r.after.db.getEscrow head.escrowId.toInt64 = some row →
        row.chainCreatedAt = some (.ofSeconds createdAt.toNat)
  /-- a new milestone row holds the instant of the deadline listed for it -/
  milestone : ∀ {E : Env} (r : EventRun E crates), r.event = event → ∀ k row,
    r.before.db.milestones.find? (head.escrowId.toInt64, k) = none →
      r.after.db.milestones.find? (head.escrowId.toInt64, k) = some row →
        ∃ m ∈ milestones, m.id.toInt32 = k ∧
          row.deadline = some (.ofSeconds m.deadline.toNat)
  /-- after an `Ok` the rows are there -/
  complete : ∀ {E : Env} (r : EventRun E crates), r.event = event → r.rest = .done () →
    (r.after.db.getEscrow head.escrowId.toInt64).isSome = true ∧
      ∀ m ∈ milestones,
        (r.after.db.milestones.find? (head.escrowId.toInt64, m.id.toInt32)).isSome = true
  /-- the first time that is out of range is the error the event ends with -/
  rejected : ∀ secs, firstOutOfRange (timesOf createdAt milestones) = some secs →
    (processEvent crates event).outcome = .error (.timestampOutOfRange secs)

/-- The first of the times, or of the rest if it is in range. -/
theorem firstOutOfRange_cons (secs : UInt64) (times : List UInt64) :
    firstOutOfRange (secs :: times) =
      if Representable secs then firstOutOfRange times else some secs := by
  unfold firstOutOfRange
  split
  · rw [List.find?_cons_of_neg (by simpa)]
  · rw [List.find?_cons_of_pos (by simpa)]

section Loop

variable {e : Int64} {ms : List DecodedMilestone} {ws : List Write} {r : Except Error Unit}

/-- Where the first deadline out of range does not wrap, a milestone loop writes exact
deadlines up to it, and ends with its error. -/
theorem MilestoneLoop.times (h : MilestoneLoop e ms ws r)
    (hwrap : ∀ secs ∈ firstOutOfRange (ms.map DecodedMilestone.deadline), ¬ Wraps secs) :
    (∀ a, .upsertMilestone a ∈ ws → ∃ m ∈ ms, m.id.toInt32 = a.milestoneId ∧
      a.deadline = .ofSeconds m.deadline.toNat) ∧
    ∀ secs, firstOutOfRange (ms.map DecodedMilestone.deadline) = some secs →
      r = .error (.timestampOutOfRange secs) := by
  induction h with
  | nil => exact ⟨fun a ha => (by cases ha), fun secs hs => (by cases hs)⟩
  | @cons m w ms ws r hw _ ih =>
    obtain ⟨deadline, hd, rfl⟩ := milestoneWrite_eq hw
    rw [List.map_cons, firstOutOfRange_cons] at hwrap ⊢
    -- the deadline converts, so out of range it would have wrapped
    have hrep : Representable m.deadline := by
      by_contra hrep
      rw [if_neg hrep] at hwrap
      exact hrep ((unixSecondsToDatetime_eq_ok (hwrap _ rfl)).mp hd).1
    rw [if_pos hrep] at hwrap ⊢
    obtain ⟨hexact, herr⟩ := ih hwrap
    refine ⟨fun a ha => ?_, herr⟩
    rcases List.mem_cons.mp ha with ha | ha
    · obtain rfl := Write.upsertMilestone.inj ha
      rw [unixSecondsToDatetime_eq, if_pos hrep] at hd
      exact ⟨m, List.mem_cons_self, rfl, (Except.ok.inj hd).symm⟩
    · obtain ⟨m', hm', h⟩ := hexact a ha
      exact ⟨m', List.mem_cons_of_mem _ hm', h⟩
  | @stop m ms err hw =>
    refine ⟨fun a ha => (by cases ha), fun secs hs => ?_⟩
    obtain ⟨hrep, -, rfl⟩ := unixSecondsToDatetime_eq_error.mp (milestoneWrite_eq_error hw)
    rw [List.map_cons, firstOutOfRange_cons, if_neg hrep] at hs
    rw [Option.some.inj hs]

end Loop

section Creation

variable {crates : Crates} {event : RpcEvent} {head : EventHead} {createdAt : UInt64}
  {milestones : List DecodedMilestone}

/-- The escrow row of a creation decodes as far as its time converts. -/
theorem TimedCreation.createdEscrow_eq
    (h : TimedCreation crates event head createdAt milestones) :
    ∃ f : DateTime → UpsertEscrow, (∀ t, (f t).chainCreatedAt = t) ∧
      createdEscrow crates event head.escrowId.toInt64 event.ledgerI64 head.data =
        (unixSecondsToDatetime createdAt).map f := by
  obtain ⟨client, hclient⟩ := h.addresses "client" (by simp)
  obtain ⟨provider, hprovider⟩ := h.addresses "provider" (by simp)
  obtain ⟨arbitrator, harbitrator⟩ := h.addresses "arbitrator" (by simp)
  obtain ⟨token, htoken⟩ := h.addresses "token" (by simp)
  obtain ⟨period, hperiod⟩ := h.reviewPeriod
  obtain ⟨title, htitle⟩ := h.title
  obtain ⟨uri, huri, hash, hhash⟩ := h.metadata
  have hcreated := h.created
  obtain ⟨_, hclient, hclient'⟩ := Except.bind_eq_ok.mp hclient
  obtain ⟨_, hprovider, hprovider'⟩ := Except.bind_eq_ok.mp hprovider
  obtain ⟨_, harbitrator, harbitrator'⟩ := Except.bind_eq_ok.mp harbitrator
  obtain ⟨_, htoken, htoken'⟩ := Except.bind_eq_ok.mp htoken
  obtain ⟨_, hperiod, hperiod'⟩ := Except.bind_eq_ok.mp hperiod
  obtain ⟨_, hcreated, hcreated'⟩ := Except.bind_eq_ok.mp hcreated
  obtain ⟨_, htitle, htitle'⟩ := Except.bind_eq_ok.mp htitle
  obtain ⟨_, huri, huri'⟩ := Except.bind_eq_ok.mp huri
  refine ⟨fun t => {
    id := head.escrowId.toInt64, contractId := event.contractId, client, provider, arbitrator,
    token, status := "created", ledger := event.ledgerI64, reviewPeriod := period.toInt64,
    chainCreatedAt := t, title := emptyAsNone title, metadataUri := emptyAsNone uri,
    metadataHash := hash }, fun t => rfl, ?_⟩
  simp only [createdEscrow, hclient, hclient', hprovider, hprovider', harbitrator, harbitrator',
    htoken, htoken', hperiod, hperiod', hcreated, hcreated', htitle, htitle', huri, huri',
    Except.bind, bind]
  rcases unixSecondsToDatetime createdAt with err | t
  · rfl
  · simp only [hhash]
    rfl

/-- **The run of a creation.** It ends with the error of its own time before it writes anything,
or runs the milestone loop after the escrow row. -/
theorem TimedCreation.spec (h : TimedCreation crates event head createdAt milestones) :
    (∃ err, unixSecondsToDatetime createdAt = .error err ∧
      (processEvent crates event).writes = [] ∧ (processEvent crates event).outcome = .error err) ∨
    ∃ a ws r, unixSecondsToDatetime createdAt = .ok a.chainCreatedAt ∧
      MilestoneLoop head.escrowId.toInt64 milestones ws r ∧
      (processEvent crates event).writes = .upsertEscrow a :: ws ∧
      a.id = head.escrowId.toInt64 ∧
      ∀ err, r = .error err ↔ (processEvent crates event).outcome = .error err := by
  obtain ⟨f, hf, hcreated⟩ := h.createdEscrow_eq
  rw [processEvent_writes h.decodes, processEvent_outcome h.decodes, h.named]
  rcases ht : unixSecondsToDatetime createdAt with err | t
  · rw [ht] at hcreated
    rw [dispatch_uncreated hcreated]
    exact Or.inl ⟨err, rfl, rfl, rfl⟩
  · rw [ht] at hcreated
    obtain ⟨ws, r, hloop, hwrites, hout⟩ := dispatch_created hcreated h.listed
    refine Or.inr ⟨f t, ws, r, by rw [hf t], hloop, hwrites,
      (createdFrom_of_createdEscrow hcreated).id, fun err => ?_⟩
    rw [hout]
    rcases r with err' | u <;> simp [Except.map]

/-- A creation whose own time is out of range writes nothing. -/
private theorem storesTimes_of_nil (hrep : ¬ Representable createdAt)
    (hnil : (processEvent crates event).writes = [])
    (hout : (processEvent crates event).outcome = .error (.timestampOutOfRange createdAt)) :
    StoresTimes crates event head createdAt milestones := by
  constructor
  · rintro E r rfl row hnew hrow
    obtain ⟨a, ha, -⟩ := r.escrow hnew hrow
    rw [hnil] at ha
    cases ha
  · rintro E r rfl k row hnew hrow
    obtain ⟨a, ha, -⟩ := r.milestone hnew hrow
    rw [hnil] at ha
    cases ha
  · rintro E r rfl hdone
    obtain ⟨o, hok, -⟩ := r.executed_of_done hdone
    cases hok.symm.trans hout
  · intro secs hsecs
    rw [timesOf, firstOutOfRange_cons, if_neg hrep] at hsecs
    rw [hout, Option.some.inj hsecs]

/-- After a creation that ended without an error the rows are there. -/
private theorem isSome_of_done {E : Env} (r : EventRun E crates) (hdone : r.rest = .done ())
    {a : UpsertEscrow} {ws : List Write}
    (hloop : MilestoneLoop a.id milestones ws (.ok ()))
    (hwrites : (processEvent crates r.event).writes = .upsertEscrow a :: ws) :
    (r.after.db.getEscrow a.id).isSome = true ∧
      ∀ m ∈ milestones, (r.after.db.milestones.find? (a.id, m.id.toInt32)).isSome = true := by
  refine ⟨r.isSome_escrow hdone (hwrites ▸ List.mem_cons_self), fun m hm => ?_⟩
  obtain ⟨w, hw, hmw⟩ := hloop.exists_mem rfl hm
  obtain ⟨deadline, -, rfl⟩ := milestoneWrite_eq hmw
  exact r.isSome_milestone hdone (hwrites ▸ List.mem_cons_of_mem _ hw)

/-- The rows of a creation hold its times, where the first of them that is out of range does not
wrap. -/
private theorem storesTimes_of_not_wraps (h : TimedCreation crates event head createdAt milestones)
    (hwrap : ∀ secs, firstOutOfRange (timesOf createdAt milestones) = some secs → ¬ Wraps secs) :
    StoresTimes crates event head createdAt milestones := by
  rcases h.spec with ⟨err, herr, hnil, hout⟩ | ⟨a, ws, res, ht, hloop, hwrites, hid, hout⟩
  · -- the time of the escrow itself is out of range
    obtain ⟨hrep, -, rfl⟩ := unixSecondsToDatetime_eq_error.mp herr
    exact storesTimes_of_nil hrep hnil hout
  rw [timesOf, firstOutOfRange_cons] at hwrap
  have hrep : Representable createdAt := by
    by_contra hrep
    rw [if_neg hrep] at hwrap
    exact hrep ((unixSecondsToDatetime_eq_ok (hwrap _ rfl)).mp ht).1
  rw [if_pos hrep] at hwrap
  obtain ⟨hexact, hfail⟩ := hloop.times hwrap
  rw [unixSecondsToDatetime_eq, if_pos hrep] at ht
  constructor
  · rintro E r rfl row hnew hrow
    obtain ⟨a', ha', -, hkeeps⟩ := r.escrow hnew hrow
    -- the loop inserts no escrow, so the row is the one the creation decodes to
    have hmem : a' = a := by
      rw [hwrites] at ha'
      rcases List.mem_cons.mp ha' with ha' | ha'
      · exact Write.upsertEscrow.inj ha'
      · obtain ⟨m, -, hm⟩ := hloop.mem ha'
        obtain ⟨deadline, -, hw⟩ := milestoneWrite_eq hm
        cases hw
    have hcol : row.unclocked.chainCreatedAt = some a'.chainCreatedAt := by
      rw [hkeeps]
      rfl
    rw [hmem, ← Except.ok.inj ht] at hcol
    exact hcol
  · rintro E r rfl k row hnew hrow
    obtain ⟨a', ha', hkey, hkeeps⟩ := r.milestone hnew hrow
    rw [hwrites] at ha'
    rcases List.mem_cons.mp ha' with ha' | ha'
    · cases ha'
    · obtain ⟨m, hm, hmid, hdeadline⟩ := hexact a' ha'
      have hcol : row.unclocked.deadline = some a'.deadline := by
        rw [hkeeps]
        rfl
      rw [hdeadline] at hcol
      exact ⟨m, hm, hmid.trans (Prod.mk.inj hkey).2, hcol⟩
  · rintro E r rfl hdone
    obtain ⟨o, hok, -⟩ := r.executed_of_done hdone
    obtain rfl : res = .ok () := by
      rcases res with err | u
      · cases hok.symm.trans ((hout err).mp rfl)
      · rfl
    exact hid ▸ isSome_of_done r hdone (hid ▸ hloop) hwrites
  · intro secs hsecs
    rw [timesOf, firstOutOfRange_cons, if_pos hrep] at hsecs
    exact (hout _).mp (hfail secs hsecs)

/-- **Times of creations.** The rows of a creation hold exactly its times, and one that is out of
range makes it end with that error, if and only if the first of its times that is out of range
does not wrap. -/
theorem storesTimes_iff (h : TimedCreation crates event head createdAt milestones) :
    StoresTimes crates event head createdAt milestones ↔
      ∀ secs, firstOutOfRange (timesOf createdAt milestones) = some secs → ¬ Wraps secs := by
  refine ⟨fun hst secs hsecs => ?_, storesTimes_of_not_wraps h⟩
  -- only a conversion of these very seconds ends with their error
  have hfails : unixSecondsToDatetime secs = .error (.timestampOutOfRange secs) := by
    have hout := hst.rejected secs hsecs
    have hsame : ∀ {u : UInt64}, unixSecondsToDatetime u = .error (.timestampOutOfRange secs) →
        u = secs := fun hu =>
      (Error.timestampOutOfRange.inj (unixSecondsToDatetime_eq_error.mp hu).2.2).symm
    rcases h.spec with ⟨err, herr, -, hout'⟩ | ⟨a, ws, r, -, hloop, -, -, hout'⟩
    · obtain rfl := Except.error.inj (hout'.symm.trans hout)
      exact hsame herr ▸ herr
    · obtain ⟨m, -, herr⟩ := hloop.error_inv ((hout' _).mpr hout)
      exact hsame herr ▸ herr
  exact (unixSecondsToDatetime_eq_error.mp hfails).2.1

end Creation

/-- The data of an `escrow_created` like that of the sample but for a `created_at` of
`2 ^ 64 - 1`, encoded and decoded. -/
def wrappedCreated : String × ScVal :=
  ("AAAAEQAAAAEAAAAJAAAADwAAAAphcmJpdHJhdG9yAAAAAAASAAAAAAAAAAAAAAAAAAAAAAAAAAAAAAAAAAAAAAAA" ++
    "AAAAAAAAAAAAAAAAAA8AAAAGY2xpZW50AAAAAAASAAAAAAAAAAABAQEBAQEBAQEBAQEBAQEBAQEBAQEBAQEBAQEB" ++
    "AQEBAQAAAA8AAAAKY3JlYXRlZF9hdAAAAAAABf//////////AAAADwAAAAxtZXRhZGF0YV91cmkAAAAOAAAAAAAA" ++
    "AA8AAAAKbWlsZXN0b25lcwAAAAAAEAAAAAEAAAABAAAAEQAAAAEAAAAEAAAADwAAAAZhbW91bnQAAAAAAAoAAAAA" ++
    "AAAAAAAAAAAAAAAFAAAADwAAAAhkZWFkbGluZQAAAAUAAAAAAAADhAAAAA8AAAALZGVzY3JpcHRpb24AAAAADgAA" ++
    "AAFhAAAAAAAADwAAAAJpZAAAAAAAAwAAAAAAAAAPAAAACHByb3ZpZGVyAAAAEgAAAAAAAAAAAgICAgICAgICAgIC" ++
    "AgICAgICAgICAgICAgICAgICAgIAAAAPAAAADXJldmlld19wZXJpb2QAAAAAAAAFAAAAAAAAADwAAAAPAAAABXRp" ++
    "dGxlAAAAAAAADgAAAAF0AAAAAAAADwAAAAV0b2tlbgAAAAAAABIAAAABAwMDAwMDAwMDAwMDAwMDAwMDAwMDAwMD" ++
    "AwMDAwMDAwM=",
  .map (some [
    (.symbol (ascii "arbitrator"), .address (.account (.replicate 32 0))),
    (.symbol (ascii "client"), .address (.account (.replicate 32 1))),
    (.symbol (ascii "created_at"), .u64 18446744073709551615),
    (.symbol (ascii "metadata_uri"), .string []),
    (.symbol (ascii "milestones"), .vec (some [.map (some [
      (.symbol (ascii "amount"), .i128 0 5),
      (.symbol (ascii "deadline"), .u64 900),
      (.symbol (ascii "description"), .string (ascii "a")),
      (.symbol (ascii "id"), .u32 0)])])),
    (.symbol (ascii "provider"), .address (.account (.replicate 32 2))),
    (.symbol (ascii "review_period"), .u64 60),
    (.symbol (ascii "title"), .string (ascii "t")),
    (.symbol (ascii "token"), .address (.contract (.replicate 32 3)))]))

/-- The crates on the values of the sample and of the wrapped creation. -/
def wrappedCrates : Crates :=
  { sampleCrates with
    fromXdrBase64 := fun b64 =>
      ((wrappedCreated :: sampleValues).find? fun v => v.1 = b64).map Prod.snd }

/-- An `escrow_created` of escrow 1 at the last second that `u64` counts. -/
def wrappedEvent : RpcEvent :=
  sampleEvent sampleContract 1 "AAAADwAAAA5lc2Nyb3dfY3JlYXRlZAAA" wrappedCreated.1

section Sample

set_option maxRecDepth 4000

theorem timedCreation_createdEvent : TimedCreation sampleCrates (createdEvent sampleContract 1)
    ⟨"escrow_created", 1, sampleCreated.2⟩ 100 [⟨0, "a", 5, 900⟩] where
  decodes := decodeHead_createdEvent ..
  named := rfl
  created := rfl
  listed := rfl
  addresses field hfield := by
    simp only [List.mem_cons, List.not_mem_nil, or_false] at hfield
    rcases hfield with rfl | rfl | rfl | rfl <;> exact ⟨_, rfl⟩
  reviewPeriod := ⟨_, rfl⟩
  title := ⟨_, rfl⟩
  metadata := ⟨_, rfl, _, rfl⟩

theorem fromXdrBase64_wrappedCrates (b64 : String) : wrappedCrates.fromXdrBase64 b64 =
    ((wrappedCreated :: sampleValues).find? fun v => v.1 = b64).map Prod.snd := (rfl)

theorem decodeHead_wrappedEvent : decodeHead wrappedCrates wrappedEvent =
    .ok ⟨"escrow_created", 1, wrappedCreated.2⟩ := by
  have hdata : wrappedCrates.fromXdrBase64 wrappedCreated.1 = some wrappedCreated.2 := by
    rw [fromXdrBase64_wrappedCrates]
    exact @find?_value _ [] sampleValues _ rfl (by simp)
  exact decodeHead_of_values rfl rfl rfl rfl hdata

theorem timedCreation_wrappedEvent : TimedCreation wrappedCrates wrappedEvent
    ⟨"escrow_created", 1, wrappedCreated.2⟩ 18446744073709551615 [⟨0, "a", 5, 900⟩] where
  decodes := decodeHead_wrappedEvent
  named := rfl
  created := rfl
  listed := rfl
  addresses field hfield := by
    simp only [List.mem_cons, List.not_mem_nil, or_false] at hfield
    rcases hfield with rfl | rfl | rfl | rfl <;> exact ⟨_, rfl⟩
  reviewPeriod := ⟨_, rfl⟩
  title := ⟨_, rfl⟩
  metadata := ⟨_, rfl, _, rfl⟩

theorem processEvent_wrappedEvent : processEvent wrappedCrates wrappedEvent =
    .write (.upsertEscrow { sampleEscrow sampleContract 1 with chainCreatedAt := .ofSeconds (-1) })
      (.write (.upsertMilestone sampleMilestone)
        (.done (some (1, "escrow_created")))) := by
  rw [processEvent, decodeHead_wrappedEvent]
  rfl

end Sample

/-- The times of the sample's creation are stored exactly. -/
theorem storesTimes_sample : StoresTimes sampleCrates (createdEvent sampleContract 1)
    ⟨"escrow_created", 1, sampleCreated.2⟩ 100 [⟨0, "a", 5, 900⟩] := by
  have hnone : firstOutOfRange (timesOf 100 [⟨0, "a", 5, 900⟩]) = none := by decide
  refine (storesTimes_iff timedCreation_createdEvent).mpr fun secs hsecs => ?_
  rw [hnone] at hsecs
  cases hsecs

/-- A creation at second `2 ^ 64 - 1`, which no `DateTime` represents, ends without an error and
leaves an escrow created one second before the epoch. -/
theorem wrapped_time_is_stored : ¬ ∀ (crates : Crates) (event : RpcEvent) (head : EventHead)
    (createdAt : UInt64) (milestones : List DecodedMilestone),
    TimedCreation crates event head createdAt milestones →
      StoresTimes crates event head createdAt milestones := by
  intro hstores
  have hst := hstores _ _ _ _ _ timedCreation_wrappedEvent
  obtain ⟨r, hev, hbefore, hdone, hview⟩ := EventRun.exists_done (E := openEnv) (fun _ => id)
    (congrArg Script.outcome processEvent_wrappedEvent)
    (congrArg Script.writes processEvent_wrappedEvent) (w := ⟨Db.migrated, ()⟩)
    ⟨fun hn => (by cases hn), fun _ => rfl, trivial⟩
  have hnew : r.before.db.getEscrow 1 = none := by
    rw [hbefore]
    rfl
  obtain ⟨row, hrow⟩ := Option.isSome_iff_exists.mp (hst.complete r hev hdone).1
  have hexact := hst.escrow r hev row hnew hrow
  have hcol : (r.after.db.view.escrow 1).bind EscrowRow.chainCreatedAt =
      some (.ofSeconds (-1)) := by
    rw [hview]
    rfl
  have hview' : r.after.db.view.escrow 1 = some row.unclocked :=
    congrArg (Option.map EscrowRow.unclocked) hrow
  rw [hview'] at hcol
  have hne : DateTime.ofSeconds (-1) ≠ DateTime.ofSeconds (18446744073709551615 : UInt64).toNat := by
    decide
  exact hne (Option.some.inj (hcol.symm.trans hexact))

end ConcordBackend
