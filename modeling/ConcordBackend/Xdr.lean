import Mathlib.Data.List.Basic

/-!
# The XDR values a contract event is made of

Topics and data of a contract event are base64 XDR encodings of `ScVal`. The decoder reads
nine of its kinds; the others only ever reach its error branches and share the constructor
`ScVal.other`. `StringM`, the byte string behind `ScString` and `ScSymbol`, is turned into
text by its `Display`, which is an escaping printer (`StringM.display`).

The crates the indexer calls without their source being here are the fields of `Crates`.
-/

namespace ConcordBackend

/-- Instants, as nanoseconds since the Unix epoch (`chrono::DateTime<Utc>`). -/
abbrev DateTime := Int

/-- The instant `n` seconds after the Unix epoch. -/
def DateTime.ofSeconds (n : Int) : DateTime := n * 1000000000

/-- The seconds `DateTime::from_timestamp` accepts: from year -262143 to year 262142. -/
def DateTime.minSeconds : Int := -8334601228800

@[inherit_doc DateTime.minSeconds]
def DateTime.maxSeconds : Int := 8210266876799

/-- `DateTime::from_timestamp(secs, 0)`: exact on its range, `None` outside it. -/
def DateTime.fromTimestamp (secs : Int64) : Option DateTime :=
  if DateTime.minSeconds ≤ secs.toInt ∧ secs.toInt ≤ DateTime.maxSeconds then
    some (DateTime.ofSeconds secs.toInt)
  else none

/-- The two lower-case hexadecimal digits of a byte. -/
def hexByte (b : UInt8) : List Char := [(b.toNat / 16).digitChar, (b.toNat % 16).digitChar]

/-- `hex::encode`. -/
def hexEncode (bytes : List UInt8) : String := String.ofList (bytes.flatMap hexByte)

theorem hexByte_inj {b b' : UInt8} (h : hexByte b = hexByte b') : b = b' := by
  have hdigit : ∀ i < 16, ∀ j < 16, i.digitChar = j.digitChar → i = j := by decide
  obtain ⟨hhigh, hlow⟩ := List.cons.inj h
  have hb := b.toNat_lt
  have hb' := b'.toNat_lt
  have hdiv := hdigit _ (by omega) _ (by omega) hhigh
  have hmod := hdigit _ (by omega) _ (by omega) (List.cons.inj hlow).1
  exact UInt8.toNat_inj.mp (by omega)

/-- `hex::encode` forgets nothing. -/
theorem hexEncode_inj {bytes bytes' : List UInt8} (h : hexEncode bytes = hexEncode bytes') :
    bytes = bytes' := by
  have hchars := String.ofList_inj.mp h
  induction bytes generalizing bytes' with
  | nil =>
    cases bytes' with
    | nil => rfl
    | cons b' bytes' => cases hchars
  | cons b bytes ih =>
    cases bytes' with
    | nil => cases hchars
    | cons b' bytes' =>
      obtain ⟨hbyte, hrest⟩ := List.append_inj hchars rfl
      rw [hexByte_inj hbyte, ih (congrArg String.ofList hrest) hrest]

/-- How `Display` of a `StringM` prints one byte: printable ASCII other than the backslash
as is, everything else escaped. -/
def StringM.escapeByte (b : UInt8) : List Char :=
  if b = 0x5c then ['\\', '\\']
  else if b = 0x0a then ['\\', 'n']
  else if b = 0x0d then ['\\', 'r']
  else if b = 0x09 then ['\\', 't']
  else if b = 0x00 then ['\\', '0']
  else if 0x20 ≤ b ∧ b ≤ 0x7e then [Char.ofNat b.toNat]
  else '\\' :: 'x' :: hexByte b

/-- `to_string` on the bytes of an `ScString` or `ScSymbol`. -/
def StringM.display (bytes : List UInt8) : String :=
  String.ofList (bytes.flatMap StringM.escapeByte)

/-- Addresses; the kinds other than accounts and contracts are not supported. -/
inductive ScAddress where
  | account (ed25519 : Vector UInt8 32)
  | contract (hash : Vector UInt8 32)
  | other (kind : String)

/-- Contract values. A 128-bit integer comes as a signed high and an unsigned low half. -/
inductive ScVal where
  | u32 (v : UInt32)
  | u64 (v : UInt64)
  | i128 (hi : Int64) (lo : UInt64)
  | bytes (b : List UInt8)
  | string (s : List UInt8)
  | symbol (s : List UInt8)
  | vec (v : Option (List ScVal))
  | map (m : Option (List (ScVal × ScVal)))
  | address (a : ScAddress)
  | other (kind : String)

/-- What the indexer calls in `stellar_xdr`, `stellar_strkey` and `hmac`. -/
structure Crates where
  /-- `ScVal::from_xdr_base64`, `none` where it errs. -/
  fromXdrBase64 : String → Option ScVal
  /-- `stellar_strkey::ed25519::PublicKey::to_string`. -/
  publicKeyToString : Vector UInt8 32 → String
  /-- `stellar_strkey::Contract::to_string`. -/
  contractToString : Vector UInt8 32 → String
  /-- HMAC-SHA256 of a message under a key. -/
  hmacSha256 : List UInt8 → List UInt8 → List UInt8

end ConcordBackend
