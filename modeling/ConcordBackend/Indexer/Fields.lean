import ConcordBackend.Indexer.Texts
import ConcordBackend.Library.Lookup

/-!
# The fields an event is decoded from

`map_get` takes the first entry whose key prints as the field's name. Field names are plain, so
only the symbol of the very name prints so (`keyMatches_iff`), and in a map with distinct keys
the lookup sees neither the order of the entries nor entries under other keys. So the whole of
`process_event` is the same code for two events whose data differ in such ways only, in the
data map and in the maps of the milestones listed in it (`processEvent_eq_of_sameFields`).
-/

namespace ConcordBackend

/-- The field names that `process_event` looks up in the data of an event. -/
def dataFields : List String :=
  ["client", "provider", "arbitrator", "token", "review_period", "created_at", "title",
    "metadata_uri", "metadata_hash", "milestones", "milestone_id", "evidence_uri",
    "evidence_hash", "raised_by", "reason", "resolution"]

/-- The field names that `decode_milestones` looks up in an entry of the list. -/
def milestoneFields : List String := ["id", "description", "amount", "deadline"]

/-- The key of a field. -/
def fieldKey (field : String) : ScVal := .symbol (utf8 field)

/-- The entries of `m` in any order, and others under keys that are none of `fields`. -/
def Reshuffled (fields : List String) (m m' : List (ScVal × ScVal)) : Prop :=
  ∃ extra, m'.Perm (m ++ extra) ∧ ∀ x ∈ extra, ∀ field ∈ fields, x.1 ≠ fieldKey field

/-- Entries of a milestone list with the same fields. -/
inductive SameMilestone : ScVal → ScVal → Prop where
  | refl (val : ScVal) : SameMilestone val val
  | map {m m' : List (ScVal × ScVal)} (hdist : (m.map Prod.fst).Nodup)
      (h : Reshuffled milestoneFields m m') : SameMilestone (.map (some m)) (.map (some m'))

/-- Entries of a data map that differ at most in the maps of the milestones they list. -/
inductive SameEntry : ScVal × ScVal → ScVal × ScVal → Prop where
  | refl (x : ScVal × ScVal) : SameEntry x x
  | milestones {vec vec' : List ScVal} (h : List.Forall₂ SameMilestone vec vec') :
      SameEntry (fieldKey "milestones", .vec (some vec)) (fieldKey "milestones", .vec (some vec'))

/-- Data of events with the same fields: the maps of the milestones are changed first, the data
map after that. -/
inductive SameFields : ScVal → ScVal → Prop where
  | refl (data : ScVal) : SameFields data data
  | map {m m₁ m' : List (ScVal × ScVal)} (hdist : (m.map Prod.fst).Nodup)
      (hnested : List.Forall₂ SameEntry m m₁) (h : Reshuffled dataFields m₁ m') :
      SameFields (.map (some m)) (.map (some m'))

/-! ### Keys -/

/-- A plain text is printed for its own bytes only. -/
theorem display_eq_iff {field : String} (hplain : ∀ b ∈ utf8 field, Plain b) {bytes : List UInt8} :
    StringM.display bytes = field ↔ bytes = utf8 field := by
  constructor
  · intro h
    -- an escape would print a backslash
    have hall : ∀ b ∈ bytes, Plain b := by
      by_contra hnot
      obtain ⟨b, hb, hesc⟩ : ∃ b ∈ bytes, ¬ Plain b := by simpa using hnot
      have hslash : '\\' ∈ StringM.escapeByte b := by
        unfold StringM.escapeByte
        split_ifs with h₁ _ _ _ _ hrange
        on_goal 6 => exact absurd ⟨hrange.1, hrange.2, h₁⟩ hesc
        all_goals simp
      have hmem : '\\' ∈ field.toList := by
        rw [← h, StringM.display, String.toList_ofList]
        exact List.mem_flatMap.mpr ⟨b, hb, hslash⟩
      have hbyte : 0x5c ∈ utf8 field := by
        rw [utf8_eq_flatMap]
        exact List.mem_flatMap.mpr ⟨_, hmem, by decide⟩
      exact (hplain _ hbyte).2.2 rfl
    rw [← h]
    exact (utf8_print_of_asIs (fun _ => escapeByte_of_plain) hall).symm
  · rintro rfl
    exact (display_utf8_eq_iff field).mpr hplain

/-- The field names are plain. -/
theorem plain_of_mem_fields {field : String} (h : field ∈ dataFields ++ milestoneFields) :
    ∀ b ∈ utf8 field, Plain b := by
  have hall : (dataFields ++ milestoneFields).all fun field =>
      (utf8 field).all fun b => decide (Plain b) := by decide
  intro b hb
  exact of_decide_eq_true (List.all_eq_true.mp (List.all_eq_true.mp hall field h) b hb)

/-- The key test of `map_get` accepts the symbol of the field's name only. -/
theorem keyMatches_iff {field : String} (h : field ∈ dataFields ++ milestoneFields)
    (x : ScVal × ScVal) : keyMatches field x = true ↔ x.1 = fieldKey field := by
  obtain ⟨key, val⟩ := x
  cases key with
  | symbol s => simp [keyMatches, fieldKey, display_eq_iff (plain_of_mem_fields h)]
  | _ => simp [keyMatches, fieldKey]

/-- A looked up field is the same in a reshuffled map. -/
theorem find?_eq_of_reshuffled {fields : List String} {m m' : List (ScVal × ScVal)}
    (hdist : (m.map Prod.fst).Nodup) (h : Reshuffled fields m m') {field : String}
    (hfield : field ∈ fields) (hknown : field ∈ dataFields ++ milestoneFields) :
    m'.find? (keyMatches field) = m.find? (keyMatches field) := by
  obtain ⟨extra, hperm, hextra⟩ := h
  exact Lookup.find?_eq_of_perm (keyMatches_iff hknown) (Lookup.onceIn_of_nodup hdist _) hperm
    fun x hx => hextra x hx field hfield

/-! ### Milestone lists -/

theorem decodeMilestone_eq {val val' : ScVal} (h : SameMilestone val val') :
    decodeMilestone val' = decodeMilestone val := by
  cases h with
  | refl => rfl
  | @map m m' hdist hshuffle =>
    have hget : ∀ field ∈ milestoneFields,
        mapGet (.map (some m')) field = mapGet (.map (some m)) field := by
      intro field hfield
      have hfind := find?_eq_of_reshuffled hdist hshuffle hfield
        (List.mem_append_right dataFields hfield)
      simp only [mapGet, hfind]
    simp only [decodeMilestone, hget "id" (by simp [milestoneFields]),
      hget "description" (by simp [milestoneFields]), hget "amount" (by simp [milestoneFields]),
      hget "deadline" (by simp [milestoneFields])]

theorem decodeMilestones_eq {vec vec' : List ScVal} (h : List.Forall₂ SameMilestone vec vec') :
    decodeMilestones (.vec (some vec')) = decodeMilestones (.vec (some vec)) := by
  change vec'.mapM decodeMilestone = vec.mapM decodeMilestone
  induction h with
  | nil => rfl
  | cons hval _ ih => rw [List.mapM_cons, List.mapM_cons, decodeMilestone_eq hval, ih]

/-! ### The data of an event -/

theorem SameEntry.fst_eq {x x' : ScVal × ScVal} (h : SameEntry x x') : x'.1 = x.1 := by
  cases h with
  | refl => rfl
  | milestones _ => rfl

theorem map_fst_of_sameEntry {m m₁ : List (ScVal × ScVal)} (h : List.Forall₂ SameEntry m m₁) :
    m₁.map Prod.fst = m.map Prod.fst := by
  induction h with
  | nil => rfl
  | cons hx _ ih => rw [List.map_cons, List.map_cons, hx.fst_eq, ih]

/-- What a lookup finds before and after the change of the milestone maps. -/
theorem find?_of_sameEntry {m m₁ : List (ScVal × ScVal)} (h : List.Forall₂ SameEntry m m₁)
    (field : String) :
    m.find? (keyMatches field) = none ∧ m₁.find? (keyMatches field) = none ∨
      ∃ x x', m.find? (keyMatches field) = some x ∧ m₁.find? (keyMatches field) = some x' ∧
        SameEntry x x' := by
  induction h with
  | nil => exact Or.inl ⟨rfl, rfl⟩
  | @cons x x' m m₁ hx _ ih =>
    have hkey : keyMatches field x' = keyMatches field x := by
      rw [keyMatches, keyMatches, hx.fst_eq]
    by_cases hmatch : keyMatches field x = true
    · refine Or.inr ⟨x, x', List.find?_cons_of_pos hmatch, ?_, hx⟩
      exact List.find?_cons_of_pos (hkey.trans hmatch)
    · rw [List.find?_cons_of_neg hmatch, List.find?_cons_of_neg (by rwa [hkey])]
      exact ih

section Data

variable {data data' : ScVal}

/-- What `map_get` finds for a field of the data of an event. -/
private theorem mapGet_sameFields (h : SameFields data data') {field : String}
    (hfield : field ∈ dataFields) : mapGet data' field = mapGet data field ∨
      ∃ vec vec', List.Forall₂ SameMilestone vec vec' ∧ field = "milestones" ∧
        mapGet data field = .ok (.vec (some vec)) ∧
        mapGet data' field = .ok (.vec (some vec')) := by
  have hknown : field ∈ dataFields ++ milestoneFields := List.mem_append_left _ hfield
  cases h with
  | refl => exact Or.inl rfl
  | @map m m₁ m' hdist hnested hshuffle =>
    have hdist₁ : (m₁.map Prod.fst).Nodup := (map_fst_of_sameEntry hnested).symm ▸ hdist
    have hfind := find?_eq_of_reshuffled hdist₁ hshuffle hfield hknown
    rcases find?_of_sameEntry hnested field with ⟨hnone, hnone₁⟩ | ⟨x, x', hx, hx', hsame⟩
    · simp only [mapGet, hfind, hnone, hnone₁, true_or]
    · cases hsame with
      | refl => simp only [mapGet, hfind, hx, hx', true_or]
      | @milestones vec vec' hvec =>
        have hkey : fieldKey "milestones" = fieldKey field :=
          (keyMatches_iff hknown _).mp (List.find?_some hx)
        have hname : field = "milestones" := (utf8_inj.mp (ScVal.symbol.inj hkey)).symm
        refine Or.inr ⟨vec, vec', hvec, hname, ?_, ?_⟩
        · simp only [mapGet, hx]
        · simp only [mapGet, hfind, hx']

/-- Every field but the milestone list is the same value. -/
theorem mapGet_eq (h : SameFields data data') {field : String} (hfield : field ∈ dataFields)
    (hne : field ≠ "milestones") : mapGet data' field = mapGet data field := by
  rcases mapGet_sameFields h hfield with heq | ⟨_, _, -, hname, -⟩
  · exact heq
  · exact absurd hname hne

/-- The milestone list decodes to the same milestones. -/
theorem milestonesOf_eq (h : SameFields data data') : milestonesOf data' = milestonesOf data := by
  rcases mapGet_sameFields h (show "milestones" ∈ dataFields by decide) with
    heq | ⟨vec, vec', hvec, -, hget, hget'⟩
  · rw [milestonesOf, milestonesOf, heq]
  · rw [milestonesOf, milestonesOf, hget, hget']
    exact decodeMilestones_eq hvec

theorem milestoneIdOf_eq (h : SameFields data data') : milestoneIdOf data' = milestoneIdOf data := by
  rw [milestoneIdOf, milestoneIdOf, mapGet_eq h (by decide) (by decide)]

theorem hashFor_eq (h : SameFields data data') {field : String} (hfield : field ∈ dataFields)
    (hne : field ≠ "milestones") (uri : Option String) :
    hashFor uri data' field = hashFor uri data field := by
  cases uri with
  | none => rfl
  | some uri => rw [hashFor, hashFor, mapGet_eq h hfield hne]

theorem submittedEvidence_eq (h : SameFields data data') :
    submittedEvidence data' = submittedEvidence data := by
  simp only [submittedEvidence, mapGet_eq h (show "evidence_uri" ∈ dataFields by decide) (by decide),
    hashFor_eq h (show "evidence_hash" ∈ dataFields by decide) (by decide)]

theorem createdEscrow_eq (h : SameFields data data') (crates : Crates) (event : RpcEvent)
    (e ledger : Int64) :
    createdEscrow crates event e ledger data' = createdEscrow crates event e ledger data := by
  have hget : ∀ field ∈ dataFields, field ≠ "milestones" →
      mapGet data' field = mapGet data field := fun field hfield hne => mapGet_eq h hfield hne
  simp only [createdEscrow, hget "client" (by decide) (by decide),
    hget "provider" (by decide) (by decide), hget "arbitrator" (by decide) (by decide),
    hget "token" (by decide) (by decide), hget "review_period" (by decide) (by decide),
    hget "created_at" (by decide) (by decide), hget "title" (by decide) (by decide),
    hget "metadata_uri" (by decide) (by decide),
    hashFor_eq h (show "metadata_hash" ∈ dataFields by decide) (by decide)]

/-- The dispatch is the same code. -/
theorem dispatch_eq (h : SameFields data data') (crates : Crates) (event : RpcEvent)
    (name : String) (e ledger : Int64) :
    dispatch crates event name e ledger data' = dispatch crates event name e ledger data := by
  have hget : ∀ field ∈ dataFields, field ≠ "milestones" →
      mapGet data' field = mapGet data field := fun field hfield hne => mapGet_eq h hfield hne
  simp only [dispatch, escrowCreated, milestoneSubmitted, milestoneReleased, milestoneExpired,
    disputeRaised, disputeResolved, createdEscrow_eq h, milestonesOf_eq h, milestoneIdOf_eq h,
    submittedEvidence_eq h, hget "raised_by" (by decide) (by decide),
    hget "reason" (by decide) (by decide), hget "resolution" (by decide) (by decide)]

end Data

section Event

variable {crates : Crates} {event : RpcEvent} {value : String} {data data' : ScVal}

/-- Another value changes the data of the head only. -/
theorem decodeHead_of_value (hdata : decodeScvalBase64 crates event.value = .ok data)
    (hdata' : decodeScvalBase64 crates value = .ok data') :
    decodeHead crates { event with value } =
      (decodeHead crates event).map fun head => { head with data := data' } := by
  simp only [decodeHead, hdata, hdata']
  rcases event.topic.mapM (decodeScvalBase64 crates) with err | topics
  · rfl
  rcases topics with _ | ⟨topic, _ | ⟨second, topics⟩⟩
  · rfl
  · change (scValToString topic >>= fun name => _) = Except.map _ (scValToString topic >>= _)
    rcases scValToString topic with err | name
    · rfl
    · rfl
  · change (scValToString topic >>= fun name => _) = Except.map _ (scValToString topic >>= _)
    rcases scValToString topic with err | name
    · rfl
    change (scValToU64 second >>= fun escrowId => _) = Except.map _ (scValToU64 second >>= _)
    rcases scValToU64 second with err | escrowId
    · rfl
    · rfl

/-- The data of a head is what the value decodes to. -/
theorem decodeHead_data {head : EventHead} (h : decodeHead crates event = .ok head)
    (hdata : decodeScvalBase64 crates event.value = .ok data) : head.data = data := by
  have hself := decodeHead_of_value hdata hdata
  rw [h] at hself
  exact congrArg EventHead.data (Except.ok.inj hself)

/-- Two events that differ only in data with the same fields are processed by the same code. -/
theorem processEvent_eq_of_sameFields (hdata : decodeScvalBase64 crates event.value = .ok data)
    (hdata' : decodeScvalBase64 crates value = .ok data') (h : SameFields data data') :
    processEvent crates { event with value } = processEvent crates event := by
  have hhead' := decodeHead_of_value hdata hdata'
  rcases hhead : decodeHead crates event with err | head
  · rw [hhead] at hhead'
    rw [processEvent_of_error hhead', processEvent_of_error hhead]
  · rw [hhead] at hhead'
    obtain rfl := decodeHead_data hhead hdata
    have hdispatch : ∀ e ledger, dispatch crates { event with value } head.name e ledger data' =
        dispatch crates event head.name e ledger head.data := dispatch_eq h crates event head.name
    simp only [processEvent, hhead, hhead', Except.map, Script.bind_eq_bind, Script.liftM_ok,
      Script.done_bind, hdispatch]

/-- **Decoding depends only on the fields it names.** An event whose data has the same fields as
before is processed by the same code: from every store it can do exactly what it could, with
the same result and the same tables. -/
theorem runs_iff_of_sameFields (hdata : decodeScvalBase64 crates event.value = .ok data)
    (hdata' : decodeScvalBase64 crates value = .ok data') (h : SameFields data data') :
    (processEvent crates { event with value }).outcome = (processEvent crates event).outcome ∧
    (processEvent crates { event with value }).writes = (processEvent crates event).writes ∧
    ∀ {E : Env} (w : World E) tr q w',
      Runs E.handler (runEvent crates { event with value }) w tr q w' ↔
        Runs E.handler (runEvent crates event) w tr q w' := by
  have hsame := processEvent_eq_of_sameFields hdata hdata' h
  refine ⟨congrArg Script.outcome hsame, congrArg Script.writes hsame, fun w tr q w' => ?_⟩
  rw [runEvent, hsame, ← runEvent]

end Event

/-- The data of `sampleCreated` in the opposite order, with one more entry in each map. -/
def sampleShuffled : String × ScVal :=
  ("AAAAEQAAAAEAAAAKAAAAAwAAAAcAAAADAAAABwAAAA8AAAAFdG9rZW4AAAAAAAASAAAAAQMDAwMDAwMDAwMDAwMD" ++
    "AwMDAwMDAwMDAwMDAwMDAwMDAAAADwAAAAV0aXRsZQAAAAAAAA4AAAABdAAAAAAAAA8AAAANcmV2aWV3X3Blcmlv" ++
    "ZAAAAAAAAAUAAAAAAAAAPAAAAA8AAAAIcHJvdmlkZXIAAAASAAAAAAAAAAACAgICAgICAgICAgICAgICAgICAgIC" ++
    "AgICAgICAgICAgAAAA8AAAAKbWlsZXN0b25lcwAAAAAAEAAAAAEAAAABAAAAEQAAAAEAAAAFAAAADwAAAARub3Rl" ++
    "AAAADgAAAAFuAAAAAAAADwAAAAJpZAAAAAAAAwAAAAAAAAAPAAAAC2Rlc2NyaXB0aW9uAAAAAA4AAAABYQAAAAAA" ++
    "AA8AAAAIZGVhZGxpbmUAAAAFAAAAAAAAA4QAAAAPAAAABmFtb3VudAAAAAAACgAAAAAAAAAAAAAAAAAAAAUAAAAP" ++
    "AAAADG1ldGFkYXRhX3VyaQAAAA4AAAAAAAAADwAAAApjcmVhdGVkX2F0AAAAAAAFAAAAAAAAAGQAAAAPAAAABmNs" ++
    "aWVudAAAAAAAEgAAAAAAAAAAAQEBAQEBAQEBAQEBAQEBAQEBAQEBAQEBAQEBAQEBAQEAAAAPAAAACmFyYml0cmF0" ++
    "b3IAAAAAABIAAAAAAAAAAAAAAAAAAAAAAAAAAAAAAAAAAAAAAAAAAAAAAAAAAAAA",
  .map (some [
    (.u32 7, .u32 7),
    (.symbol (ascii "token"), .address (.contract (.replicate 32 3))),
    (.symbol (ascii "title"), .string (ascii "t")),
    (.symbol (ascii "review_period"), .u64 60),
    (.symbol (ascii "provider"), .address (.account (.replicate 32 2))),
    (.symbol (ascii "milestones"), .vec (some [.map (some [
      (.symbol (ascii "note"), .string (ascii "n")),
      (.symbol (ascii "id"), .u32 0),
      (.symbol (ascii "description"), .string (ascii "a")),
      (.symbol (ascii "deadline"), .u64 900),
      (.symbol (ascii "amount"), .i128 0 5)])])),
    (.symbol (ascii "metadata_uri"), .string []),
    (.symbol (ascii "created_at"), .u64 100),
    (.symbol (ascii "client"), .address (.account (.replicate 32 1))),
    (.symbol (ascii "arbitrator"), .address (.account (.replicate 32 0)))]))

/-- The crates on the values of the sample events and on the shuffled one. -/
def shuffledCrates : Crates :=
  { sampleCrates with
    fromXdrBase64 := fun b64 =>
      if b64 = sampleShuffled.1 then some sampleShuffled.2 else sampleCrates.fromXdrBase64 b64 }

/-- Entries in the opposite order, behind one under another key. -/
theorem reshuffled_of_reverse {fields : List String} {x : ScVal × ScVal}
    {m m' : List (ScVal × ScVal)} (hx : ∀ field ∈ fields, x.1 ≠ fieldKey field)
    (h : m' = x :: m.reverse) : Reshuffled fields m m' := by
  refine ⟨[x], ?_, ?_⟩
  · rw [h]
    exact ((List.reverse_perm m).cons x).trans (List.perm_append_singleton x m).symm
  · rintro y hy
    obtain rfl := List.mem_singleton.mp hy
    exact hx

section Sample

set_option maxRecDepth 4000

theorem sameFields_sampleShuffled : SameFields sampleCreated.2 sampleShuffled.2 := by
  have hnodup : ∀ names : List String, (names.map ascii).Nodup →
      (names.map fun name => ScVal.symbol (ascii name)).Nodup := by
    intro names hnames
    rw [show (fun name => ScVal.symbol (ascii name)) = ScVal.symbol ∘ ascii from rfl,
      ← List.map_map]
    exact hnames.map fun _ _ => ScVal.symbol.inj
  have hmilestone : SameMilestone
      (.map (some [(.symbol (ascii "amount"), .i128 0 5), (.symbol (ascii "deadline"), .u64 900),
        (.symbol (ascii "description"), .string (ascii "a")), (.symbol (ascii "id"), .u32 0)]))
      (.map (some [(.symbol (ascii "note"), .string (ascii "n")), (.symbol (ascii "id"), .u32 0),
        (.symbol (ascii "description"), .string (ascii "a")),
        (.symbol (ascii "deadline"), .u64 900), (.symbol (ascii "amount"), .i128 0 5)])) := by
    refine .map (hnodup ["amount", "deadline", "description", "id"] (by decide)) ?_
    refine reshuffled_of_reverse (fun field hfield heq => ?_) rfl
    have hne : ∀ f ∈ milestoneFields, ascii "note" ≠ utf8 f := by decide
    exact hne field hfield (ScVal.symbol.inj heq)
  have hkey : .symbol (ascii "milestones") = fieldKey "milestones" :=
    congrArg ScVal.symbol (by decide)
  refine .map (hnodup ["arbitrator", "client", "created_at", "metadata_uri", "milestones",
    "provider", "review_period", "title", "token"] (by decide))
    (.cons (.refl _) (.cons (.refl _) (.cons (.refl _) (.cons (.refl _) (.cons ?_
      (.cons (.refl _) (.cons (.refl _) (.cons (.refl _) (.cons (.refl _) .nil)))))))))
    (reshuffled_of_reverse (fun field _ heq => ScVal.noConfusion heq) rfl)
  rw [hkey]
  exact .milestones (.cons hmilestone .nil)

theorem fromXdrBase64_shuffledCrates (b64 : String) : shuffledCrates.fromXdrBase64 b64 =
    if b64 = sampleShuffled.1 then some sampleShuffled.2
    else sampleCrates.fromXdrBase64 b64 := (rfl)

/-- The creation from the shuffled data does what `createdEvent` does. -/
theorem runs_iff_of_sameFields_sample :
    (processEvent shuffledCrates
      { createdEvent sampleContract 1 with value := sampleShuffled.1 }).writes =
        [.upsertEscrow (sampleEscrow sampleContract 1), .upsertMilestone sampleMilestone] := by
  have hvalue : shuffledCrates.fromXdrBase64 sampleCreated.1 = some sampleCreated.2 := by
    have hne : sampleCreated.1 ≠ sampleShuffled.1 := by decide
    rw [fromXdrBase64_shuffledCrates, if_neg hne, fromXdrBase64_sampleCreated]
  have hvalue' : shuffledCrates.fromXdrBase64 sampleShuffled.1 = some sampleShuffled.2 := by
    rw [fromXdrBase64_shuffledCrates, if_pos rfl]
  have hdata : decodeScvalBase64 shuffledCrates (createdEvent sampleContract 1).value =
      .ok sampleCreated.2 := by
    have hb64 : (createdEvent sampleContract 1).value = sampleCreated.1 := rfl
    rw [hb64, decodeScvalBase64, hvalue]
  have hdata' : decodeScvalBase64 shuffledCrates sampleShuffled.1 = .ok sampleShuffled.2 := by
    rw [decodeScvalBase64, hvalue']
  have hcreated : (processEvent shuffledCrates (createdEvent sampleContract 1)).writes =
      [.upsertEscrow (sampleEscrow sampleContract 1), .upsertMilestone sampleMilestone] := by
    have hhead : decodeHead shuffledCrates (createdEvent sampleContract 1) =
        .ok ⟨"escrow_created", 1, sampleCreated.2⟩ :=
      decodeHead_of_values rfl rfl rfl rfl hvalue
    rw [processEvent_writes hhead, shuffledCrates, dispatch_fromXdrBase64,
      ← processEvent_writes (decodeHead_createdEvent ..), processEvent_createdEvent]
    rfl
  rw [← hcreated]
  exact (runs_iff_of_sameFields hdata hdata' sameFields_sampleShuffled).2.1

end Sample

end ConcordBackend
