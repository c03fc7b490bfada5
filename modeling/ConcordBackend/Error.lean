import ConcordBackend.Xdr

/-!
# Errors

The `anyhow` errors of the indexer, one constructor for each place that raises one, carrying
what its message prints, and the errors the API answers requests with.
-/

namespace ConcordBackend

/-- Why a SQL statement failed: a constraint rejected it, the server has no such text, or the
connection, the server or the pool failed it. -/
inductive SqlError where
  | foreignKey
  | uniqueViolation
  /-- a text with U+0000 in it was bound (SQLSTATE 22021) -/
  | characterNotInRepertoire
  | transient
  deriving DecidableEq, Repr

/-- Errors of the indexer. -/
inductive Error where
  /-- "failed to decode ScVal from base64: {b64}" -/
  | scValBase64 (b64 : String)
  /-- "unsupported address type: {other:?}" -/
  | unsupportedAddress (addr : ScAddress)
  /-- "expected {what}, got {val:?}" -/
  | expected (what : String) (val : ScVal)
  /-- "timestamp out of range: {secs}" -/
  | timestampOutOfRange (secs : UInt64)
  /-- "missing field '{field}' in event data map" -/
  | missingField (field : String)
  /-- "empty Resolution vec" -/
  | emptyResolution
  /-- "expected Symbol as first element of Resolution vec" -/
  | resolutionHead
  /-- "Split resolution missing bps payload" -/
  | splitMissingBps
  /-- "unknown Resolution variant: {other}" -/
  | unknownResolution (variant : String)
  /-- "event has no topics" -/
  | noTopics
  /-- "event missing escrow_id topic" -/
  | missingEscrowId
  /-- a failed SQL statement -/
  | database (e : SqlError)
  /-- a failed call of the RPC, with the call's name -/
  | rpc (method : String)

/-- `AppError`, the errors a request is answered with. -/
inductive AppError where
  | notFound
  | badRequest (message : String)
  | unauthorized (message : String)
  | forbidden (message : String)
  | database (e : SqlError)
  | internal
  deriving DecidableEq, Repr

/-- A sequence of decoding steps returns exactly where each step does. -/
theorem Except.bind_eq_ok {ε α β : Type} {r : Except ε α} {f : α → Except ε β} {b : β} :
    (r >>= f) = .ok b ↔ ∃ a, r = .ok a ∧ f a = .ok b := by
  rcases r with err | a
  · refine ⟨fun h => (by cases h), ?_⟩
    rintro ⟨_, h, -⟩
    cases h
  · refine ⟨fun h => ⟨a, rfl, h⟩, ?_⟩
    rintro ⟨_, h, hf⟩
    cases h
    exact hf

theorem Except.exists_error_iff {ε α : Type} {r : Except ε α} :
    (∃ e, r = .error e) ↔ ¬ ∃ a, r = .ok a := by
  rcases r with e | a
  · simp
  · simp

/-- A list decodes exactly where its entries do, one by one. -/
theorem Except.mapM_eq_ok_iff {ε α β : Type} {f : α → Except ε β} {l : List α} {l' : List β} :
    l.mapM f = .ok l' ↔ List.Forall₂ (fun a b => f a = .ok b) l l' := by
  constructor
  · intro h
    induction l generalizing l' with
    | nil =>
      obtain rfl := Except.ok.inj h
      exact .nil
    | cons a l ih =>
      rw [List.mapM_cons] at h
      obtain ⟨b, hb, h⟩ := bind_eq_ok.mp h
      obtain ⟨l'', hl, h⟩ := bind_eq_ok.mp h
      obtain rfl := Except.ok.inj h
      exact .cons hb (ih hl)
  · intro h
    induction h with
    | nil => rfl
    | cons ha _ ih =>
      rw [List.mapM_cons, ha, ih]
      rfl

/-- Some list results exactly where no entry errs. -/
theorem Except.exists_mapM_iff {ε α β : Type} {f : α → Except ε β} {l : List α} :
    (∃ l', l.mapM f = .ok l') ↔ ∀ a ∈ l, ∃ b, f a = .ok b := by
  simp only [mapM_eq_ok_iff]
  induction l with
  | nil => exact iff_of_true ⟨[], .nil⟩ fun _ ha => by cases ha
  | cons a l ih =>
    rw [List.forall_mem_cons, ← ih]
    constructor
    · rintro ⟨-, _ | ⟨ha, hl⟩⟩
      exact ⟨⟨_, ha⟩, _, hl⟩
    · rintro ⟨⟨b, ha⟩, l', hl⟩
      exact ⟨b :: l', .cons ha hl⟩

end ConcordBackend
