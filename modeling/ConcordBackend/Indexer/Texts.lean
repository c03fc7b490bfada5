import ConcordBackend.Indexer.Stored
import ConcordBackend.Library.Utf8

/-!
# The texts of an event

`sc_val_to_string` prints the bytes of a text with the `Display` of `StringM`, which escapes every
byte but the printable ASCII ones other than the backslash. So a text comes back as the
contract emitted it exactly where all its bytes are such (`scValToString_eq_iff`), and an event
stores its texts verbatim exactly where this holds of all of them (`texts_verbatim_iff`). The
empty title and the empty uris are stored as `NULL`, as the contract means them.
-/

namespace ConcordBackend

/-- Printable ASCII other than the backslash. -/
def Plain (b : UInt8) : Prop := 0x20 ≤ b ∧ b ≤ 0x7e ∧ b ≠ 0x5c

instance (b : UInt8) : Decidable (Plain b) := inferInstanceAs (Decidable (_ ∧ _))

theorem escapeByte_of_plain {b : UInt8} (h : Plain b) :
    b.toNat < 128 ∧ StringM.escapeByte b = [Char.ofNat b.toNat] := by
  obtain ⟨hlow, hhigh, hslash⟩ := h
  have hlow' := UInt8.le_iff_toNat_le.mp hlow
  have hhigh' := UInt8.le_iff_toNat_le.mp hhigh
  have hcontrol : ∀ c : UInt8, c.toNat < 32 → b ≠ c := by
    rintro c hc rfl
    exact absurd hc (Nat.not_lt.mpr hlow')
  refine ⟨Nat.lt_of_le_of_lt hhigh' (by decide), ?_⟩
  rw [StringM.escapeByte, if_neg hslash, if_neg (hcontrol _ (by decide)),
    if_neg (hcontrol _ (by decide)), if_neg (hcontrol _ (by decide)),
    if_neg (hcontrol _ (by decide)), if_pos ⟨hlow, hhigh⟩]

theorem escapeByte_of_not_plain {b : UInt8} (h : ¬ Plain b) :
    2 ≤ (StringM.escapeByte b).length := by
  unfold StringM.escapeByte
  split_ifs with hslash _ _ _ _ hrange
  on_goal 6 => exact absurd ⟨hrange.1, hrange.2, hslash⟩ h
  all_goals simp [hexByte]

/-- The printed bytes of a text are the text again exactly where they are all plain. -/
theorem display_utf8_eq_iff (s : String) :
    StringM.display (utf8 s) = s ↔ ∀ b ∈ utf8 s, Plain b :=
  ofList_flatMap_eq_iff (fun _ => escapeByte_of_plain) (fun _ => escapeByte_of_not_plain) s

/-- **Decoding a text.** `sc_val_to_string` returns the text whose UTF-8 bytes it is given exactly
where they are all plain. -/
theorem scValToString_eq_iff (s : String) :
    scValToString (.string (utf8 s)) = .ok s ↔ ∀ b ∈ utf8 s, Plain b := by
  rw [← display_utf8_eq_iff]
  exact ⟨Except.ok.inj, congrArg Except.ok⟩

theorem emptyAsNone_inj {s t : String} : emptyAsNone s = emptyAsNone t ↔ s = t := by
  unfold emptyAsNone
  split <;> split <;> simp_all [eq_comm]

/-! ### The texts of an event -/

/-- A text of an event, and whether the empty text means that it is not set. -/
structure Text where
  text : String
  optional : Bool

/-- The column that stands for a text. -/
def Text.stored (t : Text) : Option String := if t.optional then emptyAsNone t.text else some t.text

/-- A text as `sc_val_to_string` reads it. -/
def Text.read (t : Text) : Text := { t with text := StringM.display (utf8 t.text) }

/-- What is read of a text is stored as the text itself exactly where its bytes are plain. -/
theorem Text.stored_read_iff (t : Text) :
    t.read.stored = t.stored ↔ ∀ b ∈ utf8 t.text, Plain b := by
  rw [← display_utf8_eq_iff]
  unfold Text.stored Text.read
  split
  · exact emptyAsNone_inj
  · exact Option.some_inj

/-- The text columns a write binds. -/
def Write.texts : Write → List (Option String)
  | upsertEscrow a => [a.title, a.metadataUri]
  | upsertMilestone a => [some a.description]
  | markMilestoneSubmitted _ _ evidenceUri _ _ => [evidenceUri]
  | insertDispute _ _ _ reason => [some reason]
  | _ => []

/-- `data` carries `text` under `field`, as the bytes of its encoding. -/
def Emits (data : ScVal) (field text : String) : Prop :=
  mapGet data field = .ok (.string (utf8 text))

/-- The texts that an event carries, in the order it stores them. -/
inductive Texts (head : EventHead) : List Text → Prop where
  | created {title uri : String} {entries : List ScVal} {descriptions : List String}
      (hname : head.name = "escrow_created") (htitle : Emits head.data "title" title)
      (huri : Emits head.data "metadata_uri" uri)
      (hlist : mapGet head.data "milestones" = .ok (.vec (some entries)))
      (hdesc : List.Forall₂ (fun entry => Emits entry "description") entries descriptions) :
      Texts head (⟨title, true⟩ :: ⟨uri, true⟩ :: descriptions.map (⟨·, false⟩))
  | submitted {uri : String} (hname : head.name = "milestone_submitted")
      (huri : Emits head.data "evidence_uri" uri) : Texts head [⟨uri, true⟩]
  | raised {reason : String} (hname : head.name = "dispute_raised")
      (hreason : Emits head.data "reason" reason) : Texts head [⟨reason, false⟩]

theorem Emits.bind {data : ScVal} {field text : String} (h : Emits data field text) :
    (mapGet data field).bind scValToString = .ok (StringM.display (utf8 text)) := by
  rw [h]
  rfl

section Statements

variable {crates : Crates} {event : RpcEvent} {head : EventHead} {texts : List Text}

/-- The milestones of a list whose entries emit their descriptions are described by these, as they
are read. -/
private theorem descriptions_of_entries {entries : List ScVal} {ms : List DecodedMilestone}
    {descriptions : List String}
    (hms : List.Forall₂ (fun entry m => decodeMilestone entry = .ok m) entries ms)
    (hdesc : List.Forall₂ (fun entry => Emits entry "description") entries descriptions) :
    ms.map (fun m => some m.description) =
      (descriptions.map fun d => (⟨d, false⟩ : Text)).map fun t => t.read.stored := by
  induction hms generalizing descriptions with
  | nil =>
    cases hdesc
    rfl
  | @cons entry m entries ms hm _ ih =>
    rcases hdesc with _ | ⟨hd, hrest⟩
    rw [List.map_cons, List.map_cons, List.map_cons, ih hrest]
    refine congrArg (· :: _) ?_
    simp only [decodeMilestone, Except.bind_eq_ok] at hm
    obtain ⟨_, -, id, -, v, hv, description, hdescription, _, -, amount, -, _, -, deadline, -, hm⟩ := hm
    obtain rfl := Except.ok.inj hm
    obtain rfl := Except.ok.inj (hv.symm.trans hd)
    obtain rfl := Except.ok.inj hdescription
    rfl

/-- The statements of a milestone loop hold the descriptions of its entries. -/
private theorem texts_of_forall₂ {e : Int64} {ms : List DecodedMilestone} {ws : List Write}
    (h : List.Forall₂ (fun m w => milestoneWrite e m = .ok w) ms ws) :
    ws.flatMap Write.texts = ms.map fun m => some m.description := by
  induction h with
  | nil => rfl
  | cons hw _ ih =>
    obtain ⟨deadline, -, rfl⟩ := milestoneWrite_eq hw
    rw [List.flatMap_cons, ih]
    rfl

/-- **The statements of an event** that decodes hold its texts as they are read. -/
theorem texts_of_event (hhead : decodeHead crates event = .ok head) (ht : Texts head texts)
    {o : Option (Int64 × String)} (hout : (processEvent crates event).outcome = .ok o) :
    (processEvent crates event).writes.flatMap Write.texts =
      texts.map fun t => t.read.stored := by
  obtain ⟨head', b, hhead', hd, -⟩ := exists_dispatched_of_ok hout
  obtain rfl := Except.ok.inj (hhead'.symm.trans hhead)
  generalize (processEvent crates event).writes = ws at hd
  cases ht with
  | @created title uri entries descriptions hname htitle huri hlist hdesc =>
    obtain ⟨a, ms, ws', ha, hms, rfl, hloop⟩ := hd.created_inv hname rfl
    have hvalues := createdValues_of_createdEscrow ha
    obtain ⟨s, hs, hrow⟩ := hvalues.title
    obtain rfl := Except.ok.inj (hs.symm.trans htitle.bind)
    obtain ⟨s', hs', hrow'⟩ := hvalues.metadataUri
    obtain rfl := Except.ok.inj (hs'.symm.trans huri.bind)
    have hdecoded : entries.mapM decodeMilestone = .ok ms := by
      obtain ⟨v, hv, hdec⟩ := Except.bind_eq_ok.mp hms
      obtain rfl := Except.ok.inj (hv.symm.trans hlist)
      exact hdec
    rw [List.flatMap_cons, texts_of_forall₂ hloop,
      descriptions_of_entries (Except.mapM_eq_ok_iff.mp hdecoded) hdesc, Write.texts, hrow, hrow']
    rfl
  | @submitted uri hname huri =>
    obtain ⟨m, uri', hash, -, hev, rfl⟩ := hd.submitted_inv hname rfl
    obtain ⟨⟨s, hs, rfl⟩, -⟩ := submittedEvidence_eq_ok hev
    obtain rfl := Except.ok.inj (hs.symm.trans huri.bind)
    rfl
  | @raised reason hname hreason =>
    obtain ⟨m, raisedBy, reason', -, hre, rfl⟩ := hd.raised_inv hname rfl
    obtain rfl := Except.ok.inj (hre.symm.trans hreason.bind)
    rfl

end Statements

/-! ### U+0000

PostgreSQL has no text with U+0000 in it. A contract may emit that byte; it is escaped as it is
read, so none of the statements is refused for it. -/

theorem toNat_ne_zero_of_mem_hexByte {b : UInt8} {c : Char} (h : c ∈ hexByte b) : c.toNat ≠ 0 := by
  have hdigit : ∀ i < 16, i.digitChar.toNat ≠ 0 := by decide
  have hb := b.toNat_lt
  rcases List.mem_pair.mp h with rfl | rfl
  · exact hdigit _ (by omega)
  · exact hdigit _ (by omega)

/-- No byte is printed as U+0000. -/
theorem toNat_ne_zero_of_mem_escapeByte {b : UInt8} {c : Char} (h : c ∈ StringM.escapeByte b) :
    c.toNat ≠ 0 := by
  by_cases hplain : Plain b
  · obtain ⟨hascii, hescape⟩ := escapeByte_of_plain hplain
    obtain rfl := List.mem_singleton.mp (hescape ▸ h)
    have hlow : 0x20 ≤ b.toNat := UInt8.le_iff_toNat_le.mp hplain.1
    rw [toNat_ofNat_of_ascii hascii]
    omega
  · unfold StringM.escapeByte at h
    split_ifs at h with hslash _ _ _ _ hrange
    on_goal 6 => exact absurd ⟨hrange.1, hrange.2, hslash⟩ hplain
    on_goal 6 =>
      -- `\x` and the two digits of the byte
      rcases List.mem_cons.mp h with rfl | h
      · decide
      · rcases List.mem_cons.mp h with rfl | h
        · decide
        · exact toNat_ne_zero_of_mem_hexByte h
    all_goals rcases List.mem_pair.mp h with rfl | rfl <;> decide

theorem storable_display (bytes : List UInt8) : storable (StringM.display bytes) = true := by
  refine List.all_eq_true.mpr fun c hc => ?_
  rw [StringM.display, String.toList_ofList] at hc
  obtain ⟨b, -, hb⟩ := List.mem_flatMap.mp hc
  exact decide_eq_true (toNat_ne_zero_of_mem_escapeByte hb)

theorem storable_of_scValToString {v : ScVal} {s : String} (h : scValToString v = .ok s) :
    storable s = true := by
  unfold scValToString at h
  split at h
  · exact Except.ok.inj h ▸ storable_display _
  · exact Except.ok.inj h ▸ storable_display _
  · cases h

theorem storable_of_emptyAsNone {data : ScVal} {field s text : String}
    (h : (mapGet data field).bind scValToString = .ok s) (htext : text ∈ emptyAsNone s) :
    storable text = true := by
  obtain ⟨v, -, hv⟩ := Except.bind_eq_ok.mp h
  unfold emptyAsNone at htext
  split at htext
  · cases htext
  · exact Option.some.inj htext ▸ storable_of_scValToString hv

theorem storable_of_decodeMilestone {entry : ScVal} {m : DecodedMilestone}
    (h : decodeMilestone entry = .ok m) : storable m.description = true := by
  simp only [decodeMilestone, Except.bind_eq_ok] at h
  obtain ⟨_, -, id, -, v, hv, description, hdescription, _, -, amount, -, _, -, deadline, -, h⟩ := h
  obtain rfl := Except.ok.inj h
  exact storable_of_scValToString hdescription

theorem storable_of_createdEscrow {crates : Crates} {event : RpcEvent} {e ledger : Int64}
    {data : ScVal} {a : UpsertEscrow} (h : createdEscrow crates event e ledger data = .ok a)
    {text : String} (htext : some text ∈ (Write.upsertEscrow a).texts) : storable text = true := by
  have hvalues := createdValues_of_createdEscrow h
  rcases List.mem_pair.mp htext with htitle | huri
  · obtain ⟨s, hs, hrow⟩ := hvalues.title
    exact storable_of_emptyAsNone hs (hrow ▸ htitle.symm)
  · obtain ⟨s, hs, hrow⟩ := hvalues.metadataUri
    exact storable_of_emptyAsNone hs (hrow ▸ huri.symm)

theorem Dispatched.storable {crates : Crates} {event : RpcEvent} {e ledger : Int64} {data : ScVal}
    {name : String} {ws : List Write} {r : Except Error Bool}
    (h : Dispatched crates event e ledger data name ws r) {w : Write} (hw : w ∈ ws)
    {text : String} (htext : some text ∈ w.texts) : storable text = true := by
  cases h with
  | unrecognized => cases hw
  | undecoded => cases hw
  | createdOnly ha =>
    obtain rfl := List.mem_singleton.mp hw
    exact storable_of_createdEscrow ha htext
  | created ha hms hloop =>
    rcases List.mem_cons.mp hw with rfl | hw
    · exact storable_of_createdEscrow ha htext
    · obtain ⟨m, hm, hwrite⟩ := hloop.mem hw
      obtain ⟨deadline, -, rfl⟩ := milestoneWrite_eq hwrite
      obtain rfl := Option.some.inj (List.mem_singleton.mp htext)
      exact forall_of_milestonesOf storable_of_decodeMilestone hms m hm
  | submitted hm hev =>
    rcases List.mem_pair.mp hw with rfl | rfl
    · cases htext
    · obtain ⟨⟨s, hs, rfl⟩, -⟩ := submittedEvidence_eq_ok hev
      exact storable_of_emptyAsNone hs (List.mem_singleton.mp htext).symm
  | raised hm hby hreason =>
    rcases List.mem_pair.mp hw with rfl | rfl
    · cases htext
    · obtain ⟨v, -, hv⟩ := Except.bind_eq_ok.mp hreason
      obtain rfl := Option.some.inj (List.mem_singleton.mp htext)
      exact storable_of_scValToString hv
  | resolved => rcases List.mem_pair.mp hw with rfl | rfl <;> cases htext
  | _ =>
    obtain rfl := List.mem_singleton.mp hw
    cases htext

/-- **No text of an event is refused**: whatever bytes the contract emitted, the titles, uris,
descriptions and reasons that the statements are bound hold no U+0000. -/
theorem storable_of_processEvent {crates : Crates} {event : RpcEvent} {w : Write} {text : String}
    (hw : w ∈ (processEvent crates event).writes) (htext : some text ∈ w.texts) :
    storable text = true := by
  obtain ⟨head, r, -, hd⟩ := exists_dispatched_of_mem hw
  exact hd.storable hw htext

/-! ### The rows -/

/-- The statements of a dispatch about one row of `escrows` or of `disputes` are one statement. -/
theorem Dispatched.eq_of_row {crates : Crates} {event : RpcEvent} {e ledger : Int64} {data : ScVal}
    {name : String} {ws : List Write} {r : Except Error Bool}
    (h : Dispatched crates event e ledger data name ws r) {w w' : Write} (hw : w ∈ ws)
    (hw' : w' ∈ ws) (hrow : w.row = w'.row) (hne : ∀ k, w.row ≠ .milestone k) : w = w' := by
  have hne' : ∀ k, w'.row ≠ .milestone k := fun k hk => hne k (hrow.trans hk)
  cases h with
  | unrecognized => cases hw
  | undecoded => cases hw
  | created ha hms hloop =>
    have hfirst : ∀ {a : UpsertEscrow} {ws : List Write} {r : Except Error Unit}
        {ms : List DecodedMilestone} {u : Write}, MilestoneLoop e ms ws r →
        u ∈ Write.upsertEscrow a :: ws → (∀ k, u.row ≠ .milestone k) → u = .upsertEscrow a := by
      intro a ws r ms u hloop hu hrow
      rcases List.mem_cons.mp hu with rfl | hu
      · rfl
      · obtain ⟨m, -, hm⟩ := hloop.mem hu
        obtain ⟨deadline, -, rfl⟩ := milestoneWrite_eq hm
        exact absurd rfl (hrow _)
    rw [hfirst hloop hw hne, hfirst hloop hw' hne']
  | _ =>
    simp only [List.mem_cons, List.not_mem_nil, or_false] at hw hw'
    rcases hw with rfl | rfl <;> rcases hw' with rfl | rfl <;>
      first | rfl | exact absurd rfl (hne _) | exact absurd rfl (hne' _)

/-- Only a submission marks a milestone submitted, after it has set the status of the escrow. -/
theorem Dispatched.of_submitted {crates : Crates} {event : RpcEvent} {e ledger : Int64}
    {data : ScVal} {name : String} {ws : List Write} {r : Except Error Bool}
    (h : Dispatched crates event e ledger data name ws r) {e' : Int64} {m : Int32}
    {uri hash : Option String} {at_ : DateTime}
    (hmem : .markMilestoneSubmitted e' m uri hash at_ ∈ ws) :
    ws = [.setEscrowStatus e "in_progress" ledger, .markMilestoneSubmitted e' m uri hash at_] := by
  cases h with
  | submitted hm hev =>
    rcases List.mem_cons.mp hmem with hw | hw
    · cases hw
    · rw [List.mem_singleton.mp hw]
  | created ha hms hloop =>
    rcases List.mem_cons.mp hmem with hw | hw
    · cases hw
    · obtain ⟨m', -, hm'⟩ := hloop.mem hw
      obtain ⟨deadline, -, hw⟩ := milestoneWrite_eq hm'
      cases hw
  | _ => simp at hmem

/-- The rows an event leaves hold the texts its statements bound: a new escrow, a new milestone, the
evidence of a milestone that is there, and a new dispute. -/
structure EventRun.HoldsTexts {E : Env} {crates : Crates} (r : EventRun E crates) : Prop where
  escrow : ∀ a, .upsertEscrow a ∈ (processEvent crates r.event).writes →
    r.before.db.getEscrow a.id = none → ∃ row, r.after.db.getEscrow a.id = some row ∧
      row.title = a.title ∧ row.metadataUri = a.metadataUri
  milestone : ∀ a, .upsertMilestone a ∈ (processEvent crates r.event).writes →
    r.before.db.milestones.find? (a.escrowId, a.milestoneId) = none →
      ∃ row a', r.after.db.milestones.find? (a.escrowId, a.milestoneId) = some row ∧
        .upsertMilestone a' ∈ (processEvent crates r.event).writes ∧
        (a'.escrowId, a'.milestoneId) = (a.escrowId, a.milestoneId) ∧
        row.description = a'.description
  evidence : ∀ e m uri hash at_,
    .markMilestoneSubmitted e m uri hash at_ ∈ (processEvent crates r.event).writes →
      ∀ old, r.before.db.milestones.find? (e, m) = some old →
        ∃ row, r.after.db.milestones.find? (e, m) = some row ∧ row.evidenceUri = uri
  dispute : ∀ e m raisedBy reason,
    .insertDispute e m raisedBy reason ∈ (processEvent crates r.event).writes →
      r.before.db.disputes.find? (e, m) = none →
        ∃ row, r.after.db.disputes.find? (e, m) = some row ∧ row.reason = reason

section Rows

variable {E : Env} {crates : Crates} {r : EventRun E crates}

/-- Two statements of an event about one row of `escrows` or of `disputes` are one. -/
private theorem eq_of_row {w w' : Write} (hw : w ∈ (processEvent crates r.event).writes)
    (hw' : w' ∈ (processEvent crates r.event).writes) (hrow : w.row = w'.row)
    (hne : ∀ k, w.row ≠ .milestone k) : w = w' := by
  obtain ⟨head, res, -, hd⟩ := exists_dispatched_of_mem hw
  exact hd.eq_of_row hw hw' hrow hne

/-- A submission sets the evidence of the milestone that is there. -/
private theorem evidence_of_submitted {e : Int64} {m : Int32} {uri hash : Option String}
    {at_ : DateTime}
    (h : .markMilestoneSubmitted e m uri hash at_ ∈ (processEvent crates r.event).writes)
    (hdone : r.rest = .done ()) {old : MilestoneRow}
    (hold : r.before.db.view.milestone (e, m) = some old) :
    r.after.db.view.milestone (e, m) = some (old.markSubmitted uri hash at_ 0) := by
  obtain ⟨head, res, -, hd⟩ := exists_dispatched_of_mem h
  rw [r.view_of_done hdone, hd.of_submitted h]
  simp [View.apply, Write.onMilestone, hold]

/-- The rows an event leaves when it ends without an error hold its texts. -/
theorem EventRun.holdsTexts (hdone : r.rest = .done ()) : r.HoldsTexts := by
  constructor
  · intro a ha hnew
    obtain ⟨row, hrow⟩ := Option.isSome_iff_exists.mp (r.isSome_escrow hdone ha)
    -- the row was inserted by an `upsert_escrow` of the event, and the event has no other
    obtain ⟨a', ha', hid, hkeeps⟩ := r.escrow hnew hrow
    obtain rfl := Write.upsertEscrow.inj
      (eq_of_row ha' ha (congrArg RowKey.escrow hid) fun k => RowKey.noConfusion)
    refine ⟨row, hrow, ?_, ?_⟩
    · have hcol : row.unclocked.title = a'.title := by rw [hkeeps]; rfl
      exact hcol
    · have hcol : row.unclocked.metadataUri = a'.metadataUri := by rw [hkeeps]; rfl
      exact hcol
  · intro a ha hnew
    obtain ⟨row, hrow⟩ := Option.isSome_iff_exists.mp (r.isSome_milestone hdone ha)
    obtain ⟨a', ha', hkey, hkeeps⟩ := r.milestone hnew hrow
    have hcol : row.unclocked.description = a'.description := by rw [hkeeps]; rfl
    exact ⟨row, a', hrow, ha', hkey, hcol⟩
  · intro e m uri hash at_ hmem old hold
    have hold' : r.before.db.view.milestone (e, m) = some old.unclocked :=
      congrArg (Option.map MilestoneRow.unclocked) hold
    have hafter := evidence_of_submitted hmem hdone hold'
    obtain ⟨row, hrow, heq⟩ := Option.map_eq_some_iff.mp hafter
    refine ⟨row, hrow, ?_⟩
    have hcol := congrArg MilestoneRow.evidenceUri heq
    exact hcol
  · intro e m raisedBy reason hmem hnew
    obtain ⟨row, hrow⟩ := Option.isSome_iff_exists.mp (r.isSome_dispute hdone hmem)
    obtain ⟨raisedBy', reason', hmem', hkeeps⟩ := r.dispute hnew hrow
    obtain ⟨-, -, -, rfl⟩ := Write.insertDispute.inj
      (eq_of_row hmem' hmem rfl fun k => RowKey.noConfusion)
    have hcol : row.unclocked.reason = reason' := by rw [hkeeps]; rfl
    exact ⟨row, hrow, hcol⟩

end Rows

/-- **Texts are stored verbatim exactly where they are plain.** `sc_val_to_string` returns the text
whose UTF-8 bytes it is given if and only if they are all plain; the statements of an event that
decodes bind the texts the contract emitted if and only if all bytes of these are plain; and
the rows the event leaves hold what its statements bound. -/
theorem texts_verbatim_iff (crates : Crates) :
    (∀ s, scValToString (.string (utf8 s)) = .ok s ↔ ∀ b ∈ utf8 s, Plain b) ∧
    ∀ event head texts, decodeHead crates event = .ok head → Texts head texts →
      ∀ o, (processEvent crates event).outcome = .ok o →
        ((processEvent crates event).writes.flatMap Write.texts = texts.map Text.stored ↔
          ∀ t ∈ texts, ∀ b ∈ utf8 t.text, Plain b) ∧
        ∀ {E : Env} (r : EventRun E crates), r.event = event → r.rest = .done () →
          r.HoldsTexts := by
  refine ⟨scValToString_eq_iff, fun event head texts hhead ht o hout => ⟨?_, ?_⟩⟩
  · rw [texts_of_event hhead ht hout, List.map_inj_left]
    exact forall₂_congr fun t _ => t.stored_read_iff
  · exact fun r _ hdone => r.holdsTexts hdone

/-- The texts of the sample's creation. -/
def sampleTextsCreated : List Text := [⟨"t", true⟩, ⟨"", true⟩, ⟨"a", false⟩]

theorem texts_createdEvent :
    Texts ⟨"escrow_created", 1, sampleCreated.2⟩ sampleTextsCreated := by
  have htitle : Emits sampleCreated.2 "title" "t" := rfl
  have huri : Emits sampleCreated.2 "metadata_uri" "" := rfl
  refine @Texts.created _ _ _ _ ["a"] rfl htitle huri rfl (.cons ?_ .nil)
  rfl

/-- The sample's creation is stored with its texts: a title, no uri, and a description. -/
theorem texts_verbatim_iff_sample : ∃ r : EventRun openEnv sampleCrates,
    r.event = createdEvent sampleContract 1 ∧ r.before = ⟨Db.migrated, ()⟩ ∧
      (processEvent sampleCrates r.event).writes.flatMap Write.texts =
        [some "t", none, some "a"] ∧
      r.HoldsTexts := by
  obtain ⟨r, hev, hbefore, hdone, -⟩ := exists_createdRun sampleContract 1 ⟨Db.migrated, ()⟩
  have hout : (processEvent sampleCrates (createdEvent sampleContract 1)).outcome =
      .ok (some (1, "escrow_created")) := congrArg Script.outcome (processEvent_createdEvent ..)
  obtain ⟨hstored, hholds⟩ := (texts_verbatim_iff sampleCrates).2 _ _ _
    (decodeHead_createdEvent ..) texts_createdEvent _ hout
  refine ⟨r, hev, hbefore, ?_, hholds r hev hdone⟩
  rw [hev]
  refine hstored.mpr fun t ht => ?_
  simp only [sampleTextsCreated, List.mem_cons, List.not_mem_nil, or_false] at ht
  have htitle : utf8 "t" = [0x74] := by decide
  have huri : utf8 "" = [] := by decide
  have hdescription : utf8 "a" = [0x61] := by decide
  rcases ht with rfl | rfl | rfl
  · rw [htitle]
    exact List.forall_mem_singleton.mpr (by decide)
  · rw [huri]
    exact List.forall_mem_nil _
  · rw [hdescription]
    exact List.forall_mem_singleton.mpr (by decide)

/-- A letter outside ASCII comes back as two escapes. -/
theorem accented_letter_is_escaped : utf8 "é" = [0xc3, 0xa9] ∧
    scValToString (.string [0xc3, 0xa9]) = .ok "\\xc3\\xa9" ∧
    ¬ ∀ s, scValToString (.string (utf8 s)) = .ok s := by
  have hbytes : utf8 "é" = [0xc3, 0xa9] := by decide
  have hprinted : scValToString (.string [0xc3, 0xa9]) = .ok "\\xc3\\xa9" := by rfl
  refine ⟨hbytes, hprinted, fun hverbatim => ?_⟩
  have hsame := hverbatim "é"
  rw [hbytes, hprinted] at hsame
  have hne : "\\xc3\\xa9" ≠ "é" := by decide
  exact hne (Except.ok.inj hsame)

end ConcordBackend
