import ConcordBackend.Error
import Mathlib.Data.Vector.Defs
import Mathlib.Logic.Function.Basic

/-!
# Wallet authentication

A client asks for a challenge for an address, signs its nonce with the address's key and
exchanges the signature for a JWT. `ChallengeStore` keeps at most one challenge for an
address: `issue` overwrites the one before it, and `verifyAndConsume` removes the entry of
its address before it looks at the nonce and the expiry.

Both functions of the store take what they read from outside, the random bytes and the
clock, as arguments.
-/

namespace ConcordBackend

/-- `CHALLENGE_TTL_SECS`. -/
def challengeTtlSecs : Int := 300

/-- `JWT_TTL_SECS`. -/
def jwtTtlSecs : Int := 3600

/-- The payload of a token. -/
structure Claims where
  sub : String
  exp : UInt64
  deriving DecidableEq, Repr

/-- What the authentication calls in `stellar_strkey`, `ed25519_dalek`, `base64` and
`jsonwebtoken`; `none` and `false` where the call errs. -/
structure AuthCrates where
  /-- `stellar_strkey::ed25519::PublicKey::from_string`. -/
  publicKeyFromString : String → Option (Vector UInt8 32)
  /-- `ed25519_dalek::VerifyingKey`. -/
  VerifyingKey : Type
  /-- `VerifyingKey::from_bytes`. -/
  verifyingKeyFromBytes : Vector UInt8 32 → Option VerifyingKey
  /-- `Verifier::verify`, of a message and the bytes of a signature. -/
  verify : VerifyingKey → ByteArray → Vector UInt8 64 → Bool
  /-- `STANDARD.decode`. -/
  base64Decode : String → Option (List UInt8)
  /-- `jsonwebtoken::encode` with the default header, under a secret. -/
  jwtEncode : String → Claims → Option String

/-! ### The challenge store -/

/-- The nonce and the expiry of the challenge of each address that has one. -/
structure ChallengeStore where
  challenges : String → Option (String × DateTime)

namespace ChallengeStore

/-- `ChallengeStore::new`. -/
def new : ChallengeStore := ⟨fun _ => none⟩

/-- `ChallengeStore::issue`: the nonce and the store it leaves. -/
def issue (store : ChallengeStore) (address : String) (nonceBytes : Vector UInt8 32)
    (now : DateTime) : String × ChallengeStore :=
  let nonce := hexEncode nonceBytes.toList
  let expiresAt := now + DateTime.ofSeconds challengeTtlSecs
  (nonce, ⟨Function.update store.challenges address (some (nonce, expiresAt))⟩)

/-- `ChallengeStore::verify_and_consume`: whether the nonce is that of the live challenge, and
the store it leaves. -/
def verifyAndConsume (store : ChallengeStore) (address nonce : String) (now : DateTime) :
    Bool × ChallengeStore :=
  let removed := store.challenges address
  let verified := match removed with
    | some (expectedNonce, expiresAt) =>
      if expiresAt > now then decide (expectedNonce = nonce) else false
    | none => false
  (verified, ⟨Function.update store.challenges address none⟩)

variable {store : ChallengeStore} {address nonce : String} {now : DateTime}

/-- An `issue` overwrites the challenge of its address and leaves the others alone. -/
theorem challenges_issue (nonceBytes : Vector UInt8 32) (a : String) :
    (store.issue address nonceBytes now).2.challenges a =
      if address = a then
        some (hexEncode nonceBytes.toList, now + DateTime.ofSeconds challengeTtlSecs)
      else store.challenges a := by
  refine (Function.update_apply store.challenges address _ a).trans ?_
  simp only [eq_comm]

/-- A `verifyAndConsume` removes the challenge of its address, whatever the nonce, and leaves
the others alone. -/
theorem challenges_verifyAndConsume (a : String) :
    (store.verifyAndConsume address nonce now).2.challenges a =
      if address = a then none else store.challenges a := by
  refine (Function.update_apply store.challenges address _ a).trans ?_
  simp only [eq_comm]

/-- A nonce is accepted where it is that of a challenge that has not expired. -/
theorem verifyAndConsume_eq_true :
    (store.verifyAndConsume address nonce now).1 = true ↔
      ∃ expiresAt, store.challenges address = some (nonce, expiresAt) ∧ now < expiresAt := by
  unfold verifyAndConsume
  rcases store.challenges address with _ | ⟨expectedNonce, expiresAt⟩
  · simp
  · simp only [gt_iff_lt, Bool.if_false_right, Bool.and_eq_true, decide_eq_true_eq,
      Option.some.injEq, Prod.mk.injEq]
    constructor
    · rintro ⟨hlt, rfl⟩
      exact ⟨expiresAt, ⟨rfl, rfl⟩, hlt⟩
    · rintro ⟨_, ⟨rfl, rfl⟩, hlt⟩
      exact ⟨hlt, rfl⟩

end ChallengeStore

/-! ### Signatures and tokens -/

/-- `challenge_message`. -/
def challengeMessage (nonce : String) : ByteArray := ("Concord auth challenge: " ++ nonce).toUTF8

/-- The message signed for a challenge is text. -/
theorem isValidUTF8_challengeMessage (nonce : String) : (challengeMessage nonce).IsValidUTF8 :=
  ("Concord auth challenge: " ++ nonce).isValidUTF8

/-- `try_into` from a slice to an array of `n` bytes. -/
def tryIntoArray (n : ℕ) (bytes : List UInt8) : Option (Vector UInt8 n) :=
  if h : bytes.length = n then some ⟨bytes.toArray, by simpa using h⟩ else none

theorem tryIntoArray_eq_some {n : ℕ} {bytes : List UInt8} {v : Vector UInt8 n} :
    tryIntoArray n bytes = some v ↔ bytes = v.toList := by
  unfold tryIntoArray
  constructor
  · intro h
    split at h
    · rw [← Option.some.inj h]
      rfl
    · cases h
  · rintro rfl
    rw [dif_pos v.length_toList]
    rfl

/-- The value of an option, or the error. -/
def okOr {α : Type} (x : Option α) (e : AppError) : Except AppError α :=
  match x with
  | some a => .ok a
  | none => .error e

@[simp] theorem okOr_eq_ok {α : Type} {x : Option α} {e : AppError} {a : α} :
    okOr x e = .ok a ↔ x = some a := by
  cases x <;> simp [okOr]

/-- `verify_wallet_signature`. -/
def verifyWalletSignature (crates : AuthCrates) (address : String) (message : ByteArray)
    (signature : List UInt8) : Except AppError Unit := do
  let publicKey ← okOr (crates.publicKeyFromString address) (.badRequest "invalid Stellar address")
  let verifyingKey ← okOr (crates.verifyingKeyFromBytes publicKey) (.badRequest "invalid public key")
  let signature ← okOr (tryIntoArray 64 signature) (.badRequest "signature must be 64 bytes")
  if crates.verify verifyingKey message signature then
    pure ()
  else
    throw (.unauthorized "signature verification failed")

/-- What a wallet signature is: 64 bytes that verify under the key the address encodes. -/
def AuthCrates.Signed (crates : AuthCrates) (address : String) (message : ByteArray)
    (signature : List UInt8) : Prop :=
  ∃ publicKey verifyingKey, ∃ bytes : Vector UInt8 64,
    crates.publicKeyFromString address = some publicKey ∧
      crates.verifyingKeyFromBytes publicKey = some verifyingKey ∧
        signature = bytes.toList ∧ crates.verify verifyingKey message bytes = true

/-- `verify_wallet_signature` accepts exactly the wallet signatures. -/
theorem verifyWalletSignature_eq_ok {crates : AuthCrates} {address : String}
    {message : ByteArray} {signature : List UInt8} :
    verifyWalletSignature crates address message signature = .ok () ↔
      crates.Signed address message signature := by
  unfold verifyWalletSignature
  simp only [Except.bind_eq_ok, okOr_eq_ok, tryIntoArray_eq_some]
  constructor
  · rintro ⟨publicKey, hpub, verifyingKey, hkey, bytes, rfl, hverify⟩
    refine ⟨publicKey, verifyingKey, bytes, hpub, hkey, rfl, ?_⟩
    by_contra hne
    rw [if_neg hne] at hverify
    cases hverify
  · rintro ⟨publicKey, verifyingKey, bytes, hpub, hkey, rfl, hverify⟩
    refine ⟨publicKey, hpub, verifyingKey, hkey, bytes, rfl, ?_⟩
    rw [if_pos hverify]
    rfl

/-- `DateTime::timestamp`. -/
def DateTime.timestamp (t : DateTime) : Int64 := Int64.ofInt (t / 1000000000)

/-- The claims `issue_jwt` puts into a token at `now`. -/
def jwtClaims (address : String) (now : DateTime) : Claims where
  sub := address
  exp := (now + DateTime.ofSeconds jwtTtlSecs).timestamp.toUInt64

/-- `issue_jwt`. -/
def issueJwt (crates : AuthCrates) (secret address : String) (now : DateTime) :
    Except AppError String :=
  okOr (crates.jwtEncode secret (jwtClaims address now)) .internal

end ConcordBackend
