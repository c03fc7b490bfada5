import ConcordBackend.Error

/-!
# Decoding of contract values

The functions of `indexer/decode.rs`, each in `Except Error`. Field lookup takes the first
entry whose key is a symbol that prints as the field's name; keys of other kinds are passed
over.
-/

namespace ConcordBackend

/-- `decode_scval_base64`. -/
def decodeScvalBase64 (crates : Crates) (b64 : String) : Except Error ScVal :=
  match crates.fromXdrBase64 b64 with
  | some val => .ok val
  | none => .error (.scValBase64 b64)

/-- `sc_address_to_string`. -/
def scAddressToString (crates : Crates) : ScAddress → Except Error String
  | .account ed25519 => .ok (crates.publicKeyToString ed25519)
  | .contract hash => .ok (crates.contractToString hash)
  | other => .error (.unsupportedAddress other)

/-- `sc_val_to_address`. -/
def scValToAddress (crates : Crates) : ScVal → Except Error String
  | .address addr => scAddressToString crates addr
  | other => .error (.expected "Address ScVal" other)

/-- `sc_val_to_u32`. -/
def scValToU32 : ScVal → Except Error UInt32
  | .u32 v => .ok v
  | other => .error (.expected "U32 ScVal" other)

/-- `sc_val_to_u64`. -/
def scValToU64 : ScVal → Except Error UInt64
  | .u64 v => .ok v
  | other => .error (.expected "U64 ScVal" other)

/-- `((hi as i128) << 64) | (lo as i128)`. -/
def i128OfParts (hi : Int64) (lo : UInt64) : Int :=
  ((hi.toBitVec.signExtend 128 <<< 64) ||| lo.toBitVec.zeroExtend 128).toInt

/-- `sc_val_to_i128`. -/
def scValToI128 : ScVal → Except Error Int
  | .i128 hi lo => .ok (i128OfParts hi lo)
  | other => .error (.expected "I128 ScVal" other)

/-- `sc_val_to_string`. -/
def scValToString : ScVal → Except Error String
  | .symbol sym => .ok (StringM.display sym)
  | .string s => .ok (StringM.display s)
  | other => .error (.expected "Symbol or String ScVal" other)

/-- `sc_val_to_bytes_hex`. -/
def scValToBytesHex : ScVal → Except Error String
  | .bytes bytes => .ok (hexEncode bytes)
  | other => .error (.expected "Bytes ScVal" other)

/-- `unix_seconds_to_datetime`: the seconds are cast to `i64` before the range check. -/
def unixSecondsToDatetime (secs : UInt64) : Except Error DateTime :=
  match DateTime.fromTimestamp secs.toInt64 with
  | some dt => .ok dt
  | none => .error (.timestampOutOfRange secs)

/-- `empty_as_none`. -/
def emptyAsNone (s : String) : Option String := if s = "" then none else some s

/-- The key test of `map_get`. -/
def keyMatches (field : String) (entry : ScVal × ScVal) : Bool :=
  match entry.1 with
  | .symbol s => StringM.display s = field
  | _ => false

/-- `map_get`. -/
def mapGet (val : ScVal) (field : String) : Except Error ScVal :=
  match val with
  | .map (some map) =>
    match map.find? (keyMatches field) with
    | some entry => .ok entry.2
    | none => .error (.missingField field)
  | other => .error (.expected "a Map ScVal for event data" other)

/-- `decode_resolution`: the kind of a resolution and its basis points. -/
def decodeResolution (val : ScVal) : Except Error (String × Option Int32) :=
  match val with
  | .vec (some []) => .error .emptyResolution
  | .vec (some (.symbol sym :: payload)) =>
    match StringM.display sym with
    | "ReleaseToProvider" => .ok ("release", none)
    | "RefundToClient" => .ok ("refund", none)
    | "Split" =>
      match payload.head? with
      | none => .error .splitMissingBps
      | some bpsVal => do
        let bps ← scValToU32 bpsVal
        .ok ("split", some bps.toInt32)
    | other => .error (.unknownResolution other)
  | .vec (some (_ :: _)) => .error .resolutionHead
  | other => .error (.expected "a Vec ScVal for Resolution" other)

/-- `DecodedMilestone`. -/
structure DecodedMilestone where
  id : UInt32
  description : String
  amount : Int
  deadline : UInt64
  deriving DecidableEq, Repr

/-- One entry of the milestone list. -/
def decodeMilestone (entry : ScVal) : Except Error DecodedMilestone := do
  let id ← scValToU32 (← mapGet entry "id")
  let description ← scValToString (← mapGet entry "description")
  let amount ← scValToI128 (← mapGet entry "amount")
  let deadline ← scValToU64 (← mapGet entry "deadline")
  return { id, description, amount, deadline }

/-- `decode_milestones`: the first entry that does not decode fails the list. -/
def decodeMilestones (val : ScVal) : Except Error (List DecodedMilestone) :=
  match val with
  | .vec (some vec) => vec.mapM decodeMilestone
  | other => .error (.expected "a Vec ScVal for milestones" other)

end ConcordBackend
