import ConcordBackend.Auth
import ConcordBackend.Library.Server
import Mathlib

/-!
# The login endpoints

`challenge` and `verify` are programs over the operations that reach outside their request:
those of the shared challenge store, each atomic under its mutex, and the clock. A reply
carries the reading of the clock that the operation made, which the program never looks at.

`AuthWorld` is a challenge store and the latest reading of a clock that never runs
backwards. Both endpoints are open to everyone: a client is whoever sends a request.
-/

namespace ConcordBackend

/-- What an operation returned, with the reading of the clock it made. -/
structure Timed (α : Type) where
  value : α
  now : DateTime
  deriving DecidableEq, Repr

/-- The operations of the login endpoints. -/
inductive AuthOp where
  | issue (address : String)
  | verifyAndConsume (address nonce : String)
  | utcNow

/-- The replies to the operations of the login endpoints. -/
def AuthOp.Reply : AuthOp → Type
  | .issue _ => Timed String
  | .verifyAndConsume _ _ => Timed Bool
  | .utcNow => DateTime

/-- The signature of the login endpoints. -/
abbrev AuthService : Signature := ⟨AuthOp, AuthOp.Reply⟩

/-- Code of the login endpoints. -/
abbrev AuthM := Prog AuthService AppError

/-! ### The handlers -/

/-- `ChallengeRequest`. -/
structure ChallengeRequest where
  address : String

/-- `ChallengeResponse`. -/
structure ChallengeResponse where
  nonce : String
  message : String

/-- `challenge`. -/
def challenge (crates : AuthCrates) (req : ChallengeRequest) : AuthM ChallengeResponse :=
  if (crates.publicKeyFromString req.address).isNone then
    .fail (.badRequest "invalid Stellar address")
  else
    .call (.issue req.address) fun issued =>
      let nonce := issued.value
      let message := String.fromUTF8 (challengeMessage nonce) (isValidUTF8_challengeMessage nonce)
      .done { nonce, message }

/-- `VerifyRequest`. -/
structure VerifyRequest where
  address : String
  nonce : String
  signature : String

/-- `TokenResponse`. -/
structure TokenResponse where
  token : String
  deriving DecidableEq, Repr

/-- What `verify` does once the challenge is consumed. -/
def checkSignature (crates : AuthCrates) (req : VerifyRequest) : Except AppError Unit := do
  let signature ← okOr (crates.base64Decode req.signature)
    (.badRequest "signature must be base64-encoded")
  verifyWalletSignature crates req.address (challengeMessage req.nonce) signature

/-- The end of `verify`: a token for the address. -/
def issueToken (crates : AuthCrates) (jwtSecret address : String) : AuthM TokenResponse :=
  .call .utcNow fun now =>
    (Prog.ofExcept (issueJwt crates jwtSecret address now)).bind fun token => .done { token }

/-- `verify`. -/
def verify (crates : AuthCrates) (jwtSecret : String) (req : VerifyRequest) :
    AuthM TokenResponse :=
  .call (.verifyAndConsume req.address req.nonce) fun consumed =>
    if !consumed.value then
      .fail (.unauthorized "challenge not found, already used, or expired")
    else
      (Prog.ofExcept (checkSignature crates req)).bind fun _ =>
        issueToken crates jwtSecret req.address

/-- The requests to the login endpoints. -/
inductive AuthRequest where
  | challenge (req : ChallengeRequest)
  | verify (req : VerifyRequest)

/-- What the login endpoints answer. -/
inductive AuthResponse where
  | challenge (resp : ChallengeResponse)
  | token (resp : TokenResponse)

/-- The handler of a request. -/
def AuthRequest.serve (crates : AuthCrates) (jwtSecret : String) :
    AuthRequest → AuthM AuthResponse
  | .challenge req => (ConcordBackend.challenge crates req).bind fun resp => .done (.challenge resp)
  | .verify req => (ConcordBackend.verify crates jwtSecret req).bind fun resp => .done (.token resp)

/-- What is left of `verify` once the store has answered. -/
def verifyRest (crates : AuthCrates) (jwtSecret : String) (req : VerifyRequest) (ok : Bool) :
    AuthM AuthResponse :=
  (if !ok then
      .fail (.unauthorized "challenge not found, already used, or expired")
    else
      (Prog.ofExcept (checkSignature crates req)).bind fun _ =>
        issueToken crates jwtSecret req.address).bind fun resp => .done (.token resp)

/-! ### The world of the handlers -/

/-- The shared store, and the latest reading of the clock. -/
structure AuthWorld where
  challenges : ChallengeStore
  clock : DateTime

/-- What the store and the clock answer. The random bytes may be any; the clock never runs
backwards. -/
def authHandler : Handler AuthService AuthWorld
  | .issue address, w, issued, w' =>
    w.clock ≤ issued.now ∧ w'.clock = issued.now ∧
      ∃ nonceBytes, w.challenges.issue address nonceBytes issued.now = (issued.value, w'.challenges)
  | .verifyAndConsume address nonce, w, consumed, w' =>
    w.clock ≤ consumed.now ∧ w'.clock = consumed.now ∧
      w.challenges.verifyAndConsume address nonce consumed.now = (consumed.value, w'.challenges)
  | .utcNow, w, now, w' => w.clock ≤ now ∧ w'.clock = now ∧ w'.challenges = w.challenges

/-- Runs of the login endpoints from the start of the service at `now`. -/
abbrev AuthRun (crates : AuthCrates) (jwtSecret : String) (now : DateTime) :
    AuthService.History → List (AuthRequest × AuthM AuthResponse) → AuthWorld → Prop :=
  Serves authHandler (AuthRequest.serve crates jwtSecret) ⟨.new, now⟩

/-! ### What an operation does to the challenge of an address -/

/-- Whether an answered operation is an `issue` or a `verifyAndConsume` for the address. -/
def Names (address : String) : Sigma AuthService.Reply → Prop
  | ⟨.issue a, _⟩ => a = address
  | ⟨.verifyAndConsume a _, _⟩ => a = address
  | ⟨.utcNow, _⟩ => False

instance (address : String) (x : Sigma AuthService.Reply) : Decidable (Names address x) :=
  match x with
  | ⟨.issue a, _⟩ => decEq a address
  | ⟨.verifyAndConsume a _, _⟩ => decEq a address
  | ⟨.utcNow, _⟩ => inferInstanceAs (Decidable False)

/-- The challenge an answered operation leaves for the address it names. -/
def left? : Sigma AuthService.Reply → Option (String × DateTime)
  | ⟨.issue _, issued⟩ =>
    some (issued.value, issued.now + DateTime.ofSeconds challengeTtlSecs)
  | ⟨.verifyAndConsume _ _, _⟩ => none
  | ⟨.utcNow, _⟩ => none

variable {op : AuthOp} {w w' : AuthWorld} {r : op.Reply}

/-- The clock never runs backwards. -/
theorem authHandler_clock (h : authHandler op w r w') : w.clock ≤ w'.clock := by
  cases op with
  | issue address => exact h.2.1 ▸ h.1
  | verifyAndConsume address nonce => exact h.2.1 ▸ h.1
  | utcNow => exact h.2.1 ▸ h.1

/-- **What a step leaves of a challenge**: what it says, if it names the address, and otherwise
what was there. -/
theorem authHandler_challenges (h : authHandler op w r w') (address : String) :
    w'.challenges.challenges address =
      if Names address ⟨op, r⟩ then left? ⟨op, r⟩ else w.challenges.challenges address := by
  cases op with
  | issue a =>
    obtain ⟨-, -, nonceBytes, hissue⟩ := h
    obtain ⟨hvalue, hstore⟩ := Prod.mk.inj hissue
    have hleft := ChallengeStore.challenges_issue nonceBytes address
      |>.symm.trans (congrArg (fun s => s.2.challenges address) hissue)
    rw [← hleft]
    simp only [left?, ← hvalue]
    rfl
  | verifyAndConsume a nonce =>
    have hleft := ChallengeStore.challenges_verifyAndConsume address
      |>.symm.trans (congrArg (fun s => s.2.challenges address) h.2.2)
    rw [← hleft]
    rfl
  | utcNow =>
    rw [h.2.2]
    rfl

/-- **What a run leaves of a challenge**: what the last operation that names the address left,
and what was there at the start if there is none. -/
theorem challenges_of_answers {w₀ : AuthWorld} {tr : AuthService.Trace}
    (h : Answers authHandler w₀ tr w) (address : String) :
    w.challenges.challenges address =
      match (tr.filter fun x => decide (Names address x)).getLast? with
      | some x => left? x
      | none => w₀.challenges.challenges address := by
  induction h with
  | nil => rfl
  | @snoc tr w₁ w₂ op r h hop ih =>
    rw [authHandler_challenges hop, List.filter_append, ih]
    by_cases hn : Names address ⟨op, r⟩
    · simp [hn]
    · simp [hn]

/-! ### Serving a request at once -/

section Requests

variable {crates : AuthCrates} {jwtSecret : String} {start now : DateTime}
  {hist : AuthService.History} {ts : List (AuthRequest × AuthM AuthResponse)}

/-- A `challenge` can be served at any time. -/
theorem AuthRun.challenge (h : AuthRun crates jwtSecret start hist ts w) {address : String}
    {publicKey : Vector UInt8 32} (hkey : crates.publicKeyFromString address = some publicKey)
    (nonceBytes : Vector UInt8 32) (hclock : w.clock ≤ now) : ∃ resp,
      AuthRun crates jwtSecret start
        (hist ++ [(ts.length, ⟨.issue address, ⟨hexEncode nonceBytes.toList, now⟩⟩)])
        (ts ++ [(.challenge ⟨address⟩, .done (.challenge resp))])
        ⟨(w.challenges.issue address nonceBytes now).2, now⟩ := by
  have hserve : AuthRequest.serve crates jwtSecret (.challenge ⟨address⟩) =
      .call (.issue address) fun issued => .done (.challenge ⟨issued.value,
        String.fromUTF8 (challengeMessage issued.value)
          (isValidUTF8_challengeMessage issued.value)⟩) := by
    simp only [AuthRequest.serve, ConcordBackend.challenge, hkey]
    rfl
  have harrive := Serves.arrive h (.challenge ⟨address⟩)
  rw [hserve] at harrive
  have hissue : authHandler (.issue address) w ⟨hexEncode nonceBytes.toList, now⟩
      ⟨(w.challenges.issue address nonceBytes now).2, now⟩ := ⟨hclock, rfl, nonceBytes, rfl⟩
  have hanswer := harrive.answer List.getElem?_concat_length hissue
  rw [Serves.set_length_concat] at hanswer
  exact ⟨_, hanswer⟩

/-- The store can be asked to verify a nonce at any time. -/
theorem AuthRun.consume (h : AuthRun crates jwtSecret start hist ts w) (req : VerifyRequest)
    {accepted : Bool}
    (hacc : (w.challenges.verifyAndConsume req.address req.nonce now).1 = accepted)
    (hclock : w.clock ≤ now) :
    AuthRun crates jwtSecret start
      (hist ++ [(ts.length, ⟨.verifyAndConsume req.address req.nonce, ⟨accepted, now⟩⟩)])
      (ts ++ [(.verify req, verifyRest crates jwtSecret req accepted)])
      ⟨(w.challenges.verifyAndConsume req.address req.nonce now).2, now⟩ := by
  have hconsume : authHandler (.verifyAndConsume req.address req.nonce) w ⟨accepted, now⟩
      ⟨(w.challenges.verifyAndConsume req.address req.nonce now).2, now⟩ :=
    ⟨hclock, rfl, by rw [← hacc]⟩
  have hanswer := (Serves.arrive h (.verify req)).answer List.getElem?_concat_length hconsume
  rw [Serves.set_length_concat] at hanswer
  exact hanswer

/-- An accepted `verify` with a wallet signature can be served to its end. -/
theorem AuthRun.token {req : VerifyRequest} {token : String}
    (h : AuthRun crates jwtSecret start hist
      (ts ++ [(.verify req, verifyRest crates jwtSecret req true)]) w)
    (hsig : checkSignature crates req = .ok ())
    (hjwt : issueJwt crates jwtSecret req.address now = .ok token) (hclock : w.clock ≤ now) :
    AuthRun crates jwtSecret start (hist ++ [(ts.length, ⟨.utcNow, now⟩)])
      (ts ++ [(.verify req, .done (.token ⟨token⟩))]) ⟨w.challenges, now⟩ := by
  have hrest : verifyRest crates jwtSecret req true = .call .utcNow fun (t : DateTime) =>
      ((Prog.ofExcept (issueJwt crates jwtSecret req.address t)).bind fun token =>
        .done (TokenResponse.mk token)).bind fun resp => .done (.token resp) := by
    unfold verifyRest
    rw [hsig]
    rfl
  rw [hrest] at h
  have hread : authHandler .utcNow w now ⟨w.challenges, now⟩ := ⟨hclock, rfl, rfl⟩
  have hanswer := h.answer List.getElem?_concat_length hread
  rw [Serves.set_length_concat] at hanswer
  simp only [hjwt] at hanswer
  exact hanswer

end Requests

/-! ### One login -/

/-- The wallet address of the sample. -/
def sampleAddress : String := "GDVEU3DD4KOFECV66VIHWEZOYX4ZKR3WV27L464SIIPOU2IUI3JCZA57"

/-- The key the sample address encodes. -/
def samplePublicKey : Vector UInt8 32 :=
  #v[234, 74, 108, 99, 226, 156, 82, 10, 190, 245, 80, 123, 19, 46, 197, 249,
    149, 71, 118, 174, 190, 190, 123, 146, 66, 30, 234, 105, 20, 70, 210, 44]

/-- The random bytes of the sample challenge. -/
def sampleNonceBytes : Vector UInt8 32 := Vector.replicate 32 0x5a

/-- The nonce of the sample challenge. -/
def sampleNonce : String := hexEncode sampleNonceBytes.toList

/-- The wallet's signature over the sample challenge. -/
def sampleSignature : Vector UInt8 64 :=
  #v[162, 23, 168, 245, 120, 177, 82, 238, 178, 190, 81, 146, 122, 109, 35, 216,
    55, 41, 126, 124, 249, 1, 208, 150, 178, 8, 93, 233, 124, 131, 13, 181,
    23, 239, 60, 187, 176, 204, 110, 81, 143, 206, 85, 198, 25, 174, 37, 199,
    42, 177, 16, 152, 238, 81, 18, 245, 102, 3, 83, 34, 54, 221, 193, 3]

/-- The request that presents the sample challenge. -/
def sampleVerify : VerifyRequest where
  address := sampleAddress
  nonce := sampleNonce
  signature :=
    "oheo9XixUu6yvlGSem0j2Dcpfnz5AdCWsghd6XyDDbUX7zy7sMxuUY/OVcYZriXHKrEQmO5REvVmA1MiNt3BAw=="

/-- The token issued under the secret "secret" when the clock reads 1700000012 seconds. -/
def sampleToken : String :=
  "eyJ0eXAiOiJKV1QiLCJhbGciOiJIUzI1NiJ9.eyJzdWIiOiJHRFZFVTNERDRLT0ZFQ1Y2NlZJSFdFWk9ZWDRaS1I" ++
    "zV1YyN0w0NjRTSUlQT1UySVVJM0pDWkE1NyIsImV4cCI6MTcwMDAwMzYxMn0.yc_YiLPhCT3G87QMgjAbp7GWCO_" ++
    "K6uWjzBwa0q-AzWY"

/-- The crates on the values of the sample. -/
def sampleAuth : AuthCrates where
  publicKeyFromString := fun address =>
    if address = sampleAddress then some samplePublicKey else none
  VerifyingKey := Vector UInt8 32
  verifyingKeyFromBytes := fun bytes => if bytes = samplePublicKey then some bytes else none
  verify := fun key message signature =>
    key = samplePublicKey ∧ message = challengeMessage sampleNonce ∧ signature = sampleSignature
  base64Decode := fun s =>
    if s = sampleVerify.signature then some sampleSignature.toList else none
  jwtEncode := fun _ _ => some sampleToken

/-- An instant of the sample, in seconds after its start. -/
def sampleTime (n : Int) : DateTime := DateTime.ofSeconds (1700000000 + n)

theorem publicKey_sampleAddress :
    sampleAuth.publicKeyFromString sampleAddress = some samplePublicKey := by simp [sampleAuth]

/-- The signature of the sample request is a wallet signature. -/
theorem checkSignature_sampleVerify : checkSignature sampleAuth sampleVerify = .ok () := by
  have hdecode : sampleAuth.base64Decode sampleVerify.signature =
      some sampleSignature.toList := by simp [sampleAuth]
  have hkey : sampleAuth.verifyingKeyFromBytes samplePublicKey = some samplePublicKey := by
    simp [sampleAuth]
  have hverify : sampleAuth.verify samplePublicKey (challengeMessage sampleNonce)
      sampleSignature = true := by simp [sampleAuth]
  refine Except.bind_eq_ok.mpr ⟨_, okOr_eq_ok.mpr hdecode, ?_⟩
  exact verifyWalletSignature_eq_ok.mpr
    ⟨_, _, _, publicKey_sampleAddress, hkey, rfl, hverify⟩

/-- The sample challenge is accepted by the store it was issued in, for 300 seconds. -/
theorem accepted_sampleNonce (store : ChallengeStore) {issuedAt now : DateTime}
    (h : now < issuedAt + DateTime.ofSeconds challengeTtlSecs) :
    (((store.issue sampleAddress sampleNonceBytes issuedAt).2).verifyAndConsume sampleAddress
      sampleNonce now).1 = true := by
  refine ChallengeStore.verifyAndConsume_eq_true.mpr ⟨_, ?_, h⟩
  rw [ChallengeStore.challenges_issue, if_pos rfl]
  rfl

/-- A login that goes through. -/
theorem exists_sampleLogin : ∃ resp w, AuthRun sampleAuth "secret" (sampleTime 0)
    [(0, ⟨.issue sampleAddress, ⟨sampleNonce, sampleTime 0⟩⟩),
      (1, ⟨.verifyAndConsume sampleAddress sampleNonce, ⟨true, sampleTime 10⟩⟩),
      (1, ⟨.utcNow, sampleTime 12⟩)]
    [(.challenge ⟨sampleAddress⟩, .done (.challenge resp)),
      (.verify sampleVerify, .done (.token ⟨sampleToken⟩))] w := by
  have hstart : AuthRun sampleAuth "secret" (sampleTime 0) [] [] ⟨.new, sampleTime 0⟩ := .start
  obtain ⟨resp, h⟩ := hstart.challenge publicKey_sampleAddress sampleNonceBytes
    (Int.le_refl (sampleTime 0))
  have h := h.consume sampleVerify (accepted_sampleNonce .new (by decide))
    (by decide : sampleTime 0 ≤ sampleTime 10)
  exact ⟨resp, _, AuthRun.token h checkSignature_sampleVerify rfl
    (by decide : sampleTime 10 ≤ sampleTime 12)⟩

end ConcordBackend
