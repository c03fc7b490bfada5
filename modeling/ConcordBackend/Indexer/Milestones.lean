import ConcordBackend.Indexer.Coherence
import ConcordBackend.Indexer.Fields
import ConcordBackend.Library.Casts
import ConcordBackend.Library.Numeric

/-!
# The milestone list of a new escrow

`decode_milestones` decodes a list of maps one after the other, and each map field by field. A
list of milestones encoded so, each in a map with distinct keys, in any order and among any
others, is decoded exactly: to the same milestones in the same order, their amounts put together
from their halves over the whole range of 128 bits, which the column of the amounts holds. A
value that is no list, and a list with an entry that is no map, or does not have one of the
fields in its kind, is an error, and nothing else is (`decodeMilestones_exact`).

The table gets its amounts from nowhere else, so that in every state reached by processing
events, the column stores each amount there as it is (`storesAmount_of_indexed`).
-/

namespace ConcordBackend

/-! ### Emitted milestones -/

/-- A text of the contract. -/
inductive ScText where
  | symbol (bytes : List UInt8)
  | string (bytes : List UInt8)

/-- The value of a text. -/
def ScText.val : ScText → ScVal
  | .symbol bytes => .symbol bytes
  | .string bytes => .string bytes

/-- A text as `sc_val_to_string` renders it. -/
def ScText.rendered : ScText → String
  | .symbol bytes => StringM.display bytes
  | .string bytes => StringM.display bytes

/-- A milestone as the contract emits it. -/
structure Milestone where
  id : UInt32
  description : ScText
  hi : Int64
  lo : UInt64
  deadline : UInt64

namespace Milestone

variable (m : Milestone)

/-- The amount the halves stand for. -/
def amount : Int := m.hi.toInt * 2 ^ 64 + m.lo.toNat

/-- The milestone to be decoded. -/
def decoded : DecodedMilestone where
  id := m.id
  description := m.description.rendered
  amount := m.amount
  deadline := m.deadline

/-- The entries of a milestone's map. -/
def entries : List (ScVal × ScVal) :=
  [(fieldKey "id", .u32 m.id), (fieldKey "description", m.description.val),
    (fieldKey "amount", .i128 m.hi m.lo), (fieldKey "deadline", .u64 m.deadline)]

end Milestone

/-- The value encodes the milestone: a map with distinct keys that has the milestone's entries,
in any order and among any others. -/
def Encodes (val : ScVal) (m : Milestone) : Prop :=
  ∃ map : List (ScVal × ScVal), val = .map (some map) ∧ (map.map Prod.fst).Nodup ∧
    m.entries ⊆ map

/-- The value is of the kind of the field. -/
def OfKind (field : String) (val : ScVal) : Prop :=
  match field with
  | "id" => ∃ v, val = .u32 v
  | "description" => ∃ text : ScText, val = text.val
  | "amount" => ∃ hi lo, val = .i128 hi lo
  | "deadline" => ∃ v, val = .u64 v
  | _ => False

/-- The value does not have the field: it is no map, or lacks the field, or holds a wrong kind
under it. What a map holds under a key is the value of the first entry, and where keys are
distinct, that of the only one (`Lookup.first_of_mem`). -/
inductive Misses (field : String) : ScVal → Prop where
  | notMap {val : ScVal} (h : ∀ map, val ≠ .map (some map)) : Misses field val
  | lacks {map : List (ScVal × ScVal)} (h : fieldKey field ∉ map.map Prod.fst) :
      Misses field (.map (some map))
  | wrongKind {map : List (ScVal × ScVal)} {val : ScVal}
      (hval : Lookup.First (fieldKey field) map val) (h : ¬ OfKind field val) :
      Misses field (.map (some map))

/-! ### Amounts -/

/-- The halves of an amount have no bit in common. -/
theorem i128OfParts_eq (hi : Int64) (lo : UInt64) :
    i128OfParts hi lo = hi.toInt * 2 ^ 64 + lo.toNat :=
  BitVec.toInt_signExtend_shiftLeft_or_zeroExtend (by omega) hi.toBitVec lo.toBitVec

/-- An integer of 128 bits has at most 39 digits. -/
theorem digits_i128OfParts_le (hi : Int64) (lo : UInt64) :
    (Nat.digits 10 (i128OfParts hi lo).natAbs).length ≤ 39 := by
  rw [Nat.digits_length_le_iff (by omega), i128OfParts_eq]
  have hlow := hi.le_toInt
  have hhigh := hi.toInt_lt
  have hlo := lo.toNat_lt
  omega

/-- The column of the amounts, `NUMERIC(39,0)`, stores the amount as it is. -/
def StoresAmount (amount : Int) : Prop :=
  numericColumn 39 0 amount = some (amount : ℚ)

theorem storesAmount_i128OfParts (hi : Int64) (lo : UInt64) :
    StoresAmount (i128OfParts hi lo) :=
  numericColumn_intCast (digits_i128OfParts_le hi lo)

/-! ### One milestone -/

section Fields

variable {field : String} (hfield : field ∈ milestoneFields)

include hfield

/-- What `map_get` finds in a map is what the map holds under the field's key. -/
theorem mapGet_eq_ok_iff {map : List (ScVal × ScVal)} {val : ScVal} :
    mapGet (.map (some map)) field = .ok val ↔ Lookup.First (fieldKey field) map val := by
  have hp := keyMatches_iff (List.mem_append_right dataFields hfield)
  rw [← Lookup.find?_eq_some_iff_first hp, mapGet]
  rcases hfind : map.find? (keyMatches field) with _ | ⟨key, v⟩
  · simp
  · have hkey : key = fieldKey field := (hp _).mp (List.find?_some hfind)
    simp [hkey]

/-- A field is found with its kind exactly where the value does not miss it. -/
theorem exists_mapGet_iff (val : ScVal) :
    (∃ v, mapGet val field = .ok v ∧ OfKind field v) ↔ ¬ Misses field val := by
  constructor
  · rintro ⟨v, hget, hkind⟩ hmisses
    cases hmisses with
    | notMap h =>
      unfold mapGet at hget
      split at hget
      · exact h _ rfl
      · cases hget
    | lacks h =>
      exact h (List.mem_map_of_mem ((mapGet_eq_ok_iff hfield).mp hget).mem)
    | wrongKind hval h =>
      obtain rfl := Except.ok.inj (((mapGet_eq_ok_iff hfield).mpr hval).symm.trans hget)
      exact h hkind
  · intro hmisses
    by_cases hmap : ∃ map, val = .map (some map)
    · obtain ⟨map, rfl⟩ := hmap
      have hp := keyMatches_iff (List.mem_append_right dataFields hfield)
      rcases hfind : map.find? (keyMatches field) with _ | ⟨key, v⟩
      · exact absurd (.lacks ((Lookup.find?_eq_none_iff hp).mp hfind)) hmisses
      · obtain rfl : key = fieldKey field := (hp _).mp (List.find?_some hfind)
        have hval := (Lookup.find?_eq_some_iff_first hp).mp hfind
        refine ⟨v, (mapGet_eq_ok_iff hfield).mpr hval, ?_⟩
        by_contra hkind
        exact hmisses (.wrongKind hval hkind)
    · exact absurd (.notMap fun map heq => hmap ⟨map, heq⟩) hmisses

end Fields

section Readers

variable (val : ScVal)

theorem exists_scValToU32_iff : (∃ v, scValToU32 val = .ok v) ↔ ∃ v, val = .u32 v := by
  cases val <;> simp [scValToU32]

theorem exists_scValToU64_iff : (∃ v, scValToU64 val = .ok v) ↔ ∃ v, val = .u64 v := by
  cases val <;> simp [scValToU64]

theorem exists_scValToI128_iff : (∃ v, scValToI128 val = .ok v) ↔ ∃ hi lo, val = .i128 hi lo := by
  cases val <;> simp [scValToI128]

theorem exists_scValToString_iff :
    (∃ s, scValToString val = .ok s) ↔ ∃ text : ScText, val = text.val := by
  constructor
  · rintro ⟨s, hs⟩
    cases val with
    | symbol bytes => exact ⟨.symbol bytes, rfl⟩
    | string bytes => exact ⟨.string bytes, rfl⟩
    | _ => cases hs
  · rintro ⟨text, rfl⟩
    cases text with
    | symbol bytes => exact ⟨_, rfl⟩
    | string bytes => exact ⟨_, rfl⟩

end Readers

/-- The four fields of a milestone, read one after the other. -/
theorem decodeMilestone_eq_ok_iff {val : ScVal} {d : DecodedMilestone} :
    decodeMilestone val = .ok d ↔
      (∃ v, mapGet val "id" = .ok v ∧ scValToU32 v = .ok d.id) ∧
      (∃ v, mapGet val "description" = .ok v ∧ scValToString v = .ok d.description) ∧
      (∃ v, mapGet val "amount" = .ok v ∧ scValToI128 v = .ok d.amount) ∧
      ∃ v, mapGet val "deadline" = .ok v ∧ scValToU64 v = .ok d.deadline := by
  simp only [decodeMilestone, Except.bind_eq_ok]
  constructor
  · rintro ⟨v₁, h₁, id, hid, v₂, h₂, description, hdescription, v₃, h₃, amount, hamount, v₄, h₄,
      deadline, hdeadline, h⟩
    obtain rfl := Except.ok.inj h
    exact ⟨⟨v₁, h₁, hid⟩, ⟨v₂, h₂, hdescription⟩, ⟨v₃, h₃, hamount⟩, ⟨v₄, h₄, hdeadline⟩⟩
  · rintro ⟨⟨v₁, h₁, hid⟩, ⟨v₂, h₂, hdescription⟩, ⟨v₃, h₃, hamount⟩, ⟨v₄, h₄, hdeadline⟩⟩
    exact ⟨v₁, h₁, _, hid, v₂, h₂, _, hdescription, v₃, h₃, _, hamount, v₄, h₄, _, hdeadline, rfl⟩

/-- A field that is read with its kind is one that is not missed. -/
theorem exists_read_iff {α : Type} {f : ScVal → Except Error α} {field : String}
    (hfield : field ∈ milestoneFields) (hf : ∀ v, (∃ a, f v = .ok a) ↔ OfKind field v)
    (val : ScVal) : (∃ a v, mapGet val field = .ok v ∧ f v = .ok a) ↔ ¬ Misses field val := by
  rw [← exists_mapGet_iff hfield, exists_comm]
  refine exists_congr fun v => ?_
  rw [exists_and_left, hf]

/-- **A milestone is decoded exactly where it misses none of its fields.** -/
theorem exists_decodeMilestone_iff (val : ScVal) :
    (∃ d, decodeMilestone val = .ok d) ↔ ∀ field ∈ milestoneFields, ¬ Misses field val := by
  have hid := exists_read_iff (show "id" ∈ milestoneFields by decide) exists_scValToU32_iff val
  have hdescription := exists_read_iff (show "description" ∈ milestoneFields by decide)
    exists_scValToString_iff val
  have hamount := exists_read_iff (show "amount" ∈ milestoneFields by decide)
    exists_scValToI128_iff val
  have hdeadline := exists_read_iff (show "deadline" ∈ milestoneFields by decide)
    exists_scValToU64_iff val
  simp only [milestoneFields, List.forall_mem_cons, ← hid, ← hdescription, ← hamount, ← hdeadline,
    decodeMilestone_eq_ok_iff]
  constructor
  · rintro ⟨d, h₁, h₂, h₃, h₄⟩
    exact ⟨⟨_, h₁⟩, ⟨_, h₂⟩, ⟨_, h₃⟩, ⟨_, h₄⟩, fun _ hx => by cases hx⟩
  · rintro ⟨⟨id, h₁⟩, ⟨description, h₂⟩, ⟨amount, h₃⟩, ⟨deadline, h₄⟩, -⟩
    exact ⟨⟨id, description, amount, deadline⟩, h₁, h₂, h₃, h₄⟩

/-- **An encoded milestone is decoded exactly.** -/
theorem decodeMilestone_of_encodes {val : ScVal} {m : Milestone} (h : Encodes val m) :
    decodeMilestone val = .ok m.decoded := by
  obtain ⟨map, rfl, hdist, hentries⟩ := h
  have hget : ∀ {field v}, field ∈ milestoneFields → (fieldKey field, v) ∈ m.entries →
      mapGet (.map (some map)) field = .ok v := fun hfield hv =>
    (mapGet_eq_ok_iff hfield).mpr (Lookup.first_of_mem hdist (hentries hv))
  refine decodeMilestone_eq_ok_iff.mpr ⟨⟨_, hget (by decide) (.head _), rfl⟩,
    ⟨_, hget (by decide) (.tail _ (.head _)), ?_⟩,
    ⟨_, hget (by decide) (.tail _ (.tail _ (.head _))), ?_⟩,
    ⟨_, hget (by decide) (.tail _ (.tail _ (.tail _ (.head _)))), rfl⟩⟩
  · rw [Milestone.decoded]
    cases m.description <;> rfl
  · exact congrArg Except.ok (i128OfParts_eq m.hi m.lo)

/-- Where keys are distinct, a field is missed if no entry of its kind is under its key. -/
theorem misses_iff_of_nodup {map : List (ScVal × ScVal)} (hdist : (map.map Prod.fst).Nodup)
    (field : String) : Misses field (.map (some map)) ↔
      ∀ v, (fieldKey field, v) ∈ map → ¬ OfKind field v := by
  constructor
  · rintro hmisses v hv hkind
    cases hmisses with
    | notMap h => exact h map rfl
    | lacks h => exact h (List.mem_map_of_mem hv)
    | wrongKind hval h =>
      have heq := Lookup.onceIn_of_nodup hdist _ _ hval.mem _ hv rfl rfl
      exact h ((Prod.mk.inj heq).2 ▸ hkind)
  · intro hnone
    by_cases hkey : fieldKey field ∈ map.map Prod.fst
    · obtain ⟨⟨key, v⟩, hv, rfl⟩ := List.mem_map.mp hkey
      exact .wrongKind (Lookup.first_of_mem hdist hv) (hnone v hv)
    · exact .lacks hkey

/-! ### The list -/

/-- **Milestone lists are decoded exactly.** A list of encoded milestones is decoded to the
milestones, in their order, with amounts of at most 39 digits, which their column neither
rejects nor rounds. An error is what a value is decoded to that is no list, or has an entry that
misses one of the fields, and no other. In a map with distinct keys, a field is missed where no
value of its kind is under its key. -/
theorem decodeMilestones_exact :
    (∀ vec ms, List.Forall₂ Encodes vec ms →
      decodeMilestones (.vec (some vec)) = .ok (ms.map Milestone.decoded) ∧
      ∀ m ∈ ms, (Nat.digits 10 m.amount.natAbs).length ≤ 39 ∧ StoresAmount m.amount) ∧
    (∀ val, (∃ err, decodeMilestones val = .error err) ↔
      (∀ vec, val ≠ .vec (some vec)) ∨
        ∃ vec, val = .vec (some vec) ∧ ∃ entry ∈ vec, ∃ field ∈ milestoneFields,
          Misses field entry) ∧
    ∀ map field, (map.map Prod.fst).Nodup → (Misses field (.map (some map)) ↔
      ∀ v, (fieldKey field, v) ∈ map → ¬ OfKind field v) := by
  refine ⟨fun vec ms h => ⟨?_, fun m _ => ?_⟩, fun val => ?_,
    fun map field hdist => misses_iff_of_nodup hdist field⟩
  · refine Except.mapM_eq_ok_iff.mpr ?_
    rw [List.forall₂_map_right_iff]
    exact h.imp fun _ _ => decodeMilestone_of_encodes
  · rw [Milestone.amount, ← i128OfParts_eq]
    exact ⟨digits_i128OfParts_le m.hi m.lo, storesAmount_i128OfParts m.hi m.lo⟩
  · by_cases hvec : ∃ vec, val = .vec (some vec)
    · obtain ⟨vec, rfl⟩ := hvec
      have hall : (∃ ms, decodeMilestones (.vec (some vec)) = .ok ms) ↔ _ := Except.exists_mapM_iff
      simp only [exists_decodeMilestone_iff] at hall
      rw [Except.exists_error_iff, hall]
      simp
    · refine iff_of_true ?_ (Or.inl fun vec heq => hvec ⟨vec, heq⟩)
      unfold decodeMilestones
      split
      · exact absurd ⟨_, rfl⟩ hvec
      · exact ⟨_, rfl⟩

/-- A milestone whose amount has a negative high half and the top bit of the low half set. -/
def negativeMilestone : Milestone := ⟨7, .string [111, 107], -1, 0x8000000000000001, 1700000000⟩

/-- Its entries in reverse, behind an entry of another key. -/
def negativeMilestoneMap : List (ScVal × ScVal) :=
  (.u32 0, .u32 0) :: negativeMilestone.entries.reverse

/-- The sample is decoded to its own amount. -/
theorem decodeMilestones_exact_sample :
    ∃ ms, decodeMilestones (.vec (some [.map (some negativeMilestoneMap)])) = .ok ms ∧
      ms.map DecodedMilestone.amount = [-0x7fffffffffffffff] := by
  have hdist : (negativeMilestoneMap.map Prod.fst).Nodup := by
    simp [negativeMilestoneMap, Milestone.entries, fieldKey, utf8_inj]
  have hencodes : Encodes (.map (some negativeMilestoneMap)) negativeMilestone :=
    ⟨negativeMilestoneMap, rfl, hdist, fun x hx => .tail _ (List.mem_reverse.mpr hx)⟩
  obtain ⟨hdecoded, -⟩ := decodeMilestones_exact.1 [_] [_] (.cons hencodes .nil)
  exact ⟨_, hdecoded, by decide⟩

/-! ### The table of the milestones -/

/-- What a milestone is decoded from, its amount has the size of. -/
theorem storesAmount_of_decodeMilestone {val : ScVal} {d : DecodedMilestone}
    (h : decodeMilestone val = .ok d) : StoresAmount d.amount := by
  obtain ⟨-, -, ⟨v, -, hv⟩, -⟩ := decodeMilestone_eq_ok_iff.mp h
  obtain ⟨hi, lo, rfl⟩ := (exists_scValToI128_iff v).mp ⟨_, hv⟩
  have hamount : i128OfParts hi lo = d.amount := Except.ok.inj hv
  exact hamount ▸ storesAmount_i128OfParts hi lo

/-- The milestones an event inserts have amounts the column stores. -/
theorem Dispatched.storesAmount {crates : Crates} {event : RpcEvent} {e ledger : Int64}
    {data : ScVal} {name : String} {ws : List Write} {r : Except Error Bool}
    (h : Dispatched crates event e ledger data name ws r) {a : UpsertMilestone}
    (ha : .upsertMilestone a ∈ ws) : StoresAmount a.amount := by
  cases h with
  | created _ hms hloop =>
    rcases List.mem_cons.mp ha with heq | hw
    · cases heq
    · obtain ⟨m, hm, hwrite⟩ := hloop.mem hw
      obtain ⟨deadline, -, heq⟩ := milestoneWrite_eq hwrite
      obtain rfl := Write.upsertMilestone.inj heq
      exact forall_of_milestonesOf storesAmount_of_decodeMilestone hms m hm
  | _ => simp at ha

theorem storesAmount_of_processEvent {crates : Crates} {event : RpcEvent} {a : UpsertMilestone}
    (ha : .upsertMilestone a ∈ (processEvent crates event).writes) : StoresAmount a.amount := by
  obtain ⟨head, r, -, hd⟩ := exists_dispatched_of_mem ha
  exact hd.storesAmount ha

/-- A statement leaves the amounts of the rows that are there. -/
theorem Write.amount_of_onMilestone {w : Write} {k : MilestoneKey} {o : Option MilestoneRow}
    {r : MilestoneRow} (hr : r ∈ w.onMilestone k o) :
    (∃ r' ∈ o, r.amount = r'.amount) ∨ ∃ a, w = .upsertMilestone a ∧ r.amount = a.amount := by
  cases o with
  | none =>
    obtain ⟨a, rfl, -, rfl⟩ := View.upsert_of_onMilestone_none hr
    exact .inr ⟨a, rfl, rfl⟩
  | some r' =>
    obtain ⟨r₁, hr₁, hkeeps⟩ := View.keeps_onMilestone w k r'
    obtain rfl := Option.mem_unique hr₁ hr
    exact .inl ⟨r', rfl, by rw [hkeeps]⟩

/-- **In every reachable state the column stores the amounts as they are.** -/
theorem storesAmount_of_indexed {E : Env} {crates : Crates} {w : World E}
    (h : Indexed E crates w) : ∀ r ∈ w.db.milestones.rows, StoresAmount r.amount := by
  have hview : ∀ k, ∀ r ∈ w.db.view.milestone k, StoresAmount r.amount := by
    refine h.invariant (I := fun v => ∀ k, ∀ r ∈ v.milestone k, StoresAmount r.amount)
      (fun _ _ hr => (by cases hr)) fun event wr hwr v hv k r hr => ?_
    rcases wr.amount_of_onMilestone hr with ⟨r', hr', hamount⟩ | ⟨a, rfl, hamount⟩
    · exact hamount ▸ hv k r' hr'
    · exact hamount ▸ storesAmount_of_processEvent hwr
  intro r hr
  exact hview r.key r.unclocked
    (congrArg (Option.map MilestoneRow.unclocked) (Table.mem_rows_iff.mp hr))

end ConcordBackend
