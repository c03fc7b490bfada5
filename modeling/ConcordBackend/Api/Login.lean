import ConcordBackend.Api.Auth
import Mathlib.Data.Set.Function

/-!
# Logins: challenges that are redeemed, and challenges that are lost

A `Redemption` is the stretch of a history from the issue of a challenge to the accepted
verification of its nonce: no operation in between names the address, and less than the
lifetime of a challenge has passed. Every accepted verification ends a redemption
(`exists_redemption`), and no two of them start at the same issue (`Redemption.eq_of_start`),
so that a token stands for one challenge of its own (`tokens_redeem_challenges`).

The same bookkeeping says when a login goes wrong: the two endpoints are open to everyone and
the store keeps one challenge for an address, so whoever names the address between the two
steps of a client takes the client's challenge away (`login_succeeds_iff`).
-/

namespace ConcordBackend

/-- The stretch of a history in which request `i` redeems the challenge with the nonce that
was issued for the address. -/
structure Redemption (hist : AuthService.History) (i : ℕ) (address nonce : String) where
  past : AuthService.History
  issuer : ℕ
  issuedAt : DateTime
  between : AuthService.History
  usedAt : DateTime
  future : AuthService.History
  hist_eq : hist = past ++ (issuer, ⟨.issue address, ⟨nonce, issuedAt⟩⟩) ::
    (between ++ (i, ⟨.verifyAndConsume address nonce, ⟨true, usedAt⟩⟩) :: future)
  ordered : issuedAt ≤ usedAt
  fresh : usedAt < issuedAt + DateTime.ofSeconds 300
  untouched : ∀ x ∈ between, ¬ Names address x.2

/-- The position of the issue a redemption starts from. -/
def Redemption.start {hist : AuthService.History} {i : ℕ} {address nonce : String}
    (r : Redemption hist i address nonce) : ℕ := r.past.length

/-! ### Paths through the handlers -/

section Paths

variable {crates : AuthCrates} {jwtSecret : String} {req : VerifyRequest}
  {tr : AuthService.Trace} {q : AuthM AuthResponse}

/-- The signature of the request is a wallet signature over its nonce. -/
def Signs (crates : AuthCrates) (req : VerifyRequest) : Prop :=
  ∃ signature, crates.base64Decode req.signature = some signature ∧
    crates.Signed req.address (challengeMessage req.nonce) signature

theorem checkSignature_eq_ok : checkSignature crates req = .ok () ↔ Signs crates req := by
  simp only [checkSignature, Except.bind_eq_ok, okOr_eq_ok, verifyWalletSignature_eq_ok, Signs]

/-- A `verify` that has sent something consumed the challenge first. -/
theorem verify_leads_inv (h : Leads (AuthRequest.serve crates jwtSecret (.verify req)) tr q)
    (htr : tr ≠ []) : ∃ consumed tr', tr = ⟨.verifyAndConsume req.address req.nonce, consumed⟩ :: tr' ∧
      Leads (verifyRest crates jwtSecret req consumed.value) tr' q := by
  rcases Runs.call_inv h with ⟨rfl, -, -⟩ | ⟨consumed, _, tr', -, rfl, hrun⟩
  · exact absurd rfl htr
  · exact ⟨consumed, tr', rfl, hrun⟩

/-- A rejected `verify` is over. -/
theorem verifyRest_rejected (h : Leads (verifyRest crates jwtSecret req false) tr q) :
    q = .fail (.unauthorized "challenge not found, already used, or expired") :=
  h.fail_inv.2.1

/-- An accepted `verify` with a wrong signature is over. -/
theorem verifyRest_unsigned {err : AppError} (hsig : checkSignature crates req = .error err)
    (h : Leads (verifyRest crates jwtSecret req true) tr q) : q = .fail err := by
  unfold verifyRest at h
  rw [hsig] at h
  exact h.fail_inv.2.1

/-- An accepted `verify` with a wallet signature only reads the clock and issues its token. -/
theorem verifyRest_signed (hsig : checkSignature crates req = .ok ())
    (h : Leads (verifyRest crates jwtSecret req true) tr q) :
    q = verifyRest crates jwtSecret req true ∨ ∃ now : DateTime,
      q = (Prog.ofExcept (issueJwt crates jwtSecret req.address now)).bind fun token =>
        .done (.token ⟨token⟩) := by
  have hrest : verifyRest crates jwtSecret req true =
      (issueToken crates jwtSecret req.address).bind fun resp => .done (.token resp) := by
    unfold verifyRest
    rw [hsig]
    rfl
  rw [hrest] at h ⊢
  rcases Runs.call_inv h with ⟨-, rfl, -⟩ | ⟨(now : DateTime), _, _, -, -, hrun⟩
  · exact Or.inl rfl
  · refine Or.inr ⟨now, ?_⟩
    rw [Prog.bind_assoc] at hrun
    rcases hjwt : issueJwt crates jwtSecret req.address now with err | token
    · simp only [hjwt] at hrun
      exact hrun.fail_inv.2.1
    · simp only [hjwt] at hrun
      exact hrun.done_inv.2.1

/-- A `verify` that returned a token consumed the challenge of its nonce, and its signature is a
wallet signature over that nonce. -/
theorem verify_leads_token {resp : TokenResponse}
    (h : Leads (AuthRequest.serve crates jwtSecret (.verify req)) tr (.done (.token resp))) :
    (∃ usedAt, ⟨.verifyAndConsume req.address req.nonce, (⟨true, usedAt⟩ : Timed Bool)⟩ ∈ tr) ∧
      Signs crates req ∧
        ∃ now, issueJwt crates jwtSecret req.address now = .ok resp.token := by
  have hne : tr ≠ [] := by
    rintro rfl
    rcases Runs.call_inv h with ⟨-, hq, -⟩ | ⟨_, _, _, -, hnil, -⟩
    · cases hq
    · cases hnil
  obtain ⟨⟨accepted, usedAt⟩, tr', rfl, hrest⟩ := verify_leads_inv h hne
  -- past the store and the signature there is only the clock between it and the token
  cases accepted with
  | false => cases verifyRest_rejected hrest
  | true =>
    refine ⟨⟨usedAt, List.mem_cons_self⟩, ?_⟩
    rcases hsig : checkSignature crates req with err | u
    · cases verifyRest_unsigned hsig hrest
    · refine ⟨checkSignature_eq_ok.mp hsig, ?_⟩
      rcases verifyRest_signed hsig hrest with hq | ⟨now, hq⟩
      · unfold verifyRest at hq
        rw [hsig] at hq
        cases hq
      · refine ⟨now, ?_⟩
        rcases hjwt : issueJwt crates jwtSecret req.address now with err | token
        · rw [hjwt] at hq
          cases hq
        · rw [hjwt] at hq
          obtain rfl := AuthResponse.token.inj (Prog.done.inj hq)
          rfl

end Paths

/-! ### Every accepted nonce redeems a challenge of its own -/

section Redemptions

variable {hist : AuthService.History} {w₀ w : AuthWorld} {i : ℕ} {address nonce : String}

/-- The last operation of a history that names an address. -/
def lastNaming (address : String) (hist : AuthService.History) :
    Option (ℕ × Sigma AuthService.Reply) :=
  hist.reverse.find? fun x => decide (Names address x.2)

/-- Nothing names the address after the last operation that does. -/
theorem lastNaming_eq_some {x : ℕ × Sigma AuthService.Reply}
    (h : lastNaming address hist = some x) : Names address x.2 ∧ ∃ past between,
      hist = past ++ x :: between ∧ ∀ y ∈ between, ¬ Names address y.2 := by
  obtain ⟨hx, between, past, heq, hbetween⟩ := List.find?_eq_some_iff_append.mp h
  refine ⟨by simpa using hx, past.reverse, between.reverse, ?_, ?_⟩
  · have hrev := congrArg List.reverse heq
    simpa using hrev
  · intro y hy
    simpa using hbetween y (List.mem_reverse.mp hy)

/-- The challenge of an address is what the last operation that names it left. -/
theorem challenges_of_history (h : Answers authHandler w₀ hist.trace w) (address : String) :
    w.challenges.challenges address =
      match lastNaming address hist with
      | some x => left? x.2
      | none => w₀.challenges.challenges address := by
  have hlast : (hist.trace.filter fun x => decide (Names address x)).getLast? =
      (lastNaming address hist).map Prod.snd := by
    rw [List.getLast?_filter, Signature.History.trace, ← List.map_reverse, List.find?_map]
    rfl
  rw [challenges_of_answers h, hlast]
  rcases lastNaming address hist with _ | x
  · rfl
  · rfl

/-- A history splits at any of its operations. -/
theorem answers_split {past future : AuthService.History} {x : ℕ × Sigma AuthService.Reply}
    (h : Answers authHandler w₀ (Signature.History.trace (past ++ x :: future)) w) :
    ∃ w₁ w₂, Answers authHandler w₀ past.trace w₁ ∧ authHandler x.2.1 w₁ x.2.2 w₂ ∧
      Answers authHandler w₂ future.trace w := by
  rw [Signature.History.trace, List.map_append, List.map_cons] at h
  exact h.split

theorem clock_le_of_answers {tr : AuthService.Trace} (h : Answers authHandler w₀ tr w) :
    w₀.clock ≤ w.clock :=
  h.invariant (I := fun w' => w₀.clock ≤ w'.clock)
    (fun _ _ _ _ hop hle => Int.le_trans hle (authHandler_clock hop)) (Int.le_refl _)

/-- An operation that leaves a challenge issued it. -/
theorem issue_of_left? {x : Sigma AuthService.Reply} {expiresAt : DateTime}
    (hname : Names address x) (h : left? x = some (nonce, expiresAt)) :
    ∃ issuedAt, x = ⟨.issue address, (⟨nonce, issuedAt⟩ : Timed String)⟩ ∧
      expiresAt = issuedAt + DateTime.ofSeconds challengeTtlSecs := by
  obtain ⟨op, r⟩ := x
  cases op with
  | issue a =>
    obtain rfl : a = address := hname
    obtain ⟨hvalue, hexp⟩ := Prod.mk.inj (Option.some.inj h)
    refine ⟨r.now, ?_, hexp.symm⟩
    rw [← hvalue]
    rfl
  | verifyAndConsume a n => cases h
  | utcNow => cases h

/-- **Every accepted verification redeems a challenge.** -/
theorem exists_redemption {now usedAt : DateTime}
    (h : Answers authHandler ⟨.new, now⟩ hist.trace w)
    (hmem : (i, ⟨.verifyAndConsume address nonce, (⟨true, usedAt⟩ : Timed Bool)⟩) ∈ hist) :
    Nonempty (Redemption hist i address nonce) := by
  obtain ⟨before, future, rfl⟩ := List.append_of_mem hmem
  obtain ⟨w₁, w₂, hbefore, ⟨hclock, -, hconsume⟩, -⟩ := answers_split h
  have htrue := congrArg Prod.fst hconsume
  obtain ⟨expiresAt, hentry, hlive⟩ := ChallengeStore.verifyAndConsume_eq_true.mp htrue
  -- the entry was left by the last operation that names the address
  rw [challenges_of_history hbefore address] at hentry
  rcases hlast : lastNaming address before with _ | ⟨issuer, x⟩
  · rw [hlast] at hentry
    cases hentry
  · rw [hlast] at hentry
    obtain ⟨hname, past, between, rfl, huntouched⟩ := lastNaming_eq_some hlast
    obtain ⟨issuedAt, rfl, rfl⟩ := issue_of_left? hname hentry
    obtain ⟨w₃, w₄, -, ⟨-, hissued, -⟩, hbetween⟩ := answers_split hbefore
    have hissued : w₄.clock = issuedAt := hissued
    have hle : issuedAt ≤ w₁.clock := hissued ▸ clock_le_of_answers hbetween
    exact ⟨{
      past, issuer, issuedAt, between, usedAt, future
      hist_eq := by rw [List.append_assoc, List.cons_append]
      ordered := Int.le_trans hle hclock
      fresh := hlive
      untouched := huntouched }⟩

/-- **No challenge is redeemed twice.** -/
theorem Redemption.eq_of_start {i' : ℕ} {address' nonce' : String}
    (r : Redemption hist i address nonce) (r' : Redemption hist i' address' nonce')
    (hstart : r.start = r'.start) : i = i' := by
  obtain ⟨-, htail⟩ := List.append_inj (r.hist_eq.symm.trans r'.hist_eq) hstart
  obtain ⟨hissue, hrest⟩ := List.cons.inj htail
  -- both redemptions are of the same address, and end at the first operation that names it
  obtain rfl : address = address' := by
    have hop := congrArg (fun x => (x : ℕ × Sigma AuthService.Reply).2.1) hissue
    exact AuthOp.issue.inj hop
  have hfirst : ∀ {j : ℕ} {n : String} (s : Redemption hist j address n),
      (s.between ++ (j, ⟨.verifyAndConsume address n, (⟨true, s.usedAt⟩ : Timed Bool)⟩) ::
        s.future).find? (fun x => decide (Names address x.2)) =
          some (j, ⟨.verifyAndConsume address n, (⟨true, s.usedAt⟩ : Timed Bool)⟩) := by
    intro j n s
    refine List.find?_eq_some_iff_append.mpr ⟨decide_eq_true rfl, s.between, s.future, rfl, ?_⟩
    intro x hx
    simpa using s.untouched x hx
  have heq := (hfirst r).symm.trans ((congrArg _ hrest).trans (hfirst r'))
  exact congrArg Prod.fst (Option.some.inj heq)

variable {crates : AuthCrates} {jwtSecret : String} {now : DateTime}
  {ts : List (AuthRequest × AuthM AuthResponse)}

/-- **Challenges are single-use, fresh and signed.** In every run of the login endpoints, each
request that got a token redeemed a challenge for its address and nonce, no two of them the
same one, and its signature is a wallet signature over that nonce. -/
theorem tokens_redeem_challenges (h : AuthRun crates jwtSecret now hist ts w) :
    ∃ origin : ℕ → ℕ,
      (∀ i req resp, ts[i]? = some (.verify req, .done (.token resp)) →
        (∃ r : Redemption hist i req.address req.nonce, r.start = origin i) ∧
          Signs crates req ∧
            ∃ t, crates.jwtEncode jwtSecret (jwtClaims req.address t) = some resp.token) ∧
      Set.InjOn origin
        {i | ∃ req resp, ts[i]? = some (.verify req, .done (.token resp))} := by
  -- a request that got no token has no challenge to redeem
  have hred : ∀ i, ∃ k, ∀ req resp, ts[i]? = some (.verify req, .done (.token resp)) →
      ∃ r : Redemption hist i req.address req.nonce, r.start = k := by
    intro i
    by_cases hi : ∃ req resp, ts[i]? = some (.verify req, .done (.token resp))
    · obtain ⟨req, resp, hi⟩ := hi
      obtain ⟨⟨usedAt, hmem⟩, -⟩ := verify_leads_token (h.leads hi)
      obtain ⟨r⟩ := exists_redemption h.answers (Signature.History.mem_of.mp hmem)
      refine ⟨r.start, fun req' resp' hi' => ?_⟩
      obtain ⟨hreq, -⟩ := Prod.mk.inj (Option.some.inj (hi.symm.trans hi'))
      obtain rfl := AuthRequest.verify.inj hreq
      exact ⟨r, rfl⟩
    · exact ⟨0, fun req resp hreq => absurd ⟨req, resp, hreq⟩ hi⟩
  choose origin horigin using hred
  refine ⟨origin, fun i req resp hi => ?_, ?_⟩
  · obtain ⟨-, hsigns, t, hjwt⟩ := verify_leads_token (h.leads hi)
    exact ⟨horigin i req resp hi, hsigns, t, okOr_eq_ok.mp hjwt⟩
  · rintro i ⟨req, resp, hi⟩ i' ⟨req', resp', hi'⟩ heq
    obtain ⟨r, hr⟩ := horigin i req resp hi
    obtain ⟨r', hr'⟩ := horigin i' req' resp' hi'
    exact r.eq_of_start r' (hr.trans (heq.trans hr'.symm))

theorem tokens_redeem_challenges_sample : ∃ hist : AuthService.History,
    Nonempty (Redemption hist 1 sampleAddress sampleNonce) ∧ Signs sampleAuth sampleVerify := by
  obtain ⟨resp, w, h⟩ := exists_sampleLogin
  obtain ⟨origin, htoken, -⟩ := tokens_redeem_challenges h
  obtain ⟨⟨r, -⟩, hsigns, -⟩ := htoken 1 sampleVerify ⟨sampleToken⟩ rfl
  exact ⟨_, ⟨r⟩, hsigns⟩

end Redemptions

/-! ### Who else names the address decides a login -/

section Attempts

variable {crates : AuthCrates} {jwtSecret : String} {now : DateTime}
  {hist : AuthService.History} {ts : List (AuthRequest × AuthM AuthResponse)} {w : AuthWorld}
  {req : VerifyRequest} {j : ℕ} {q : AuthM AuthResponse}

/-- A client's login in a run: a challenge was issued for the address, and request `j` presents
its nonce with a wallet signature before its time is over. -/
structure Attempt (crates : AuthCrates) (hist : AuthService.History)
    (ts : List (AuthRequest × AuthM AuthResponse)) (req : VerifyRequest) (j : ℕ)
    (q : AuthM AuthResponse) where
  past : AuthService.History
  issuer : ℕ
  issuedAt : DateTime
  between : AuthService.History
  accepted : Bool
  usedAt : DateTime
  future : AuthService.History
  hist_eq : hist = past ++ (issuer, ⟨.issue req.address, ⟨req.nonce, issuedAt⟩⟩) ::
    (between ++ (j, ⟨.verifyAndConsume req.address req.nonce, ⟨accepted, usedAt⟩⟩) :: future)
  challenged : ∃ q', ts[issuer]? = some (.challenge ⟨req.address⟩, q')
  presented : ts[j]? = some (.verify req, q)
  inTime : usedAt < issuedAt + DateTime.ofSeconds 300
  signed : Signs crates req

/-- Between the two steps nothing named the address, or what did so last was a challenge that
drew the same nonce. -/
def Attempt.Undisturbed (a : Attempt crates hist ts req j q) : Prop :=
  ∀ x, lastNaming req.address a.between = some x →
    ∃ t, x.2 = ⟨.issue req.address, (⟨req.nonce, t⟩ : Timed String)⟩

/-- However the request goes on, when it ends it has returned a token. -/
def ReturnsToken (q : AuthM AuthResponse) : Prop :=
  ∀ tr q', Leads q tr q' → q'.Finished → ∃ resp, q' = .done (.token resp)

/-- The last operation that names the address before the client's `verify`. -/
private theorem Attempt.lastNaming_before (a : Attempt crates hist ts req j q) :
    lastNaming req.address
        (a.past ++ (a.issuer, ⟨.issue req.address, (⟨req.nonce, a.issuedAt⟩ : Timed String)⟩) ::
          a.between) =
      (lastNaming req.address a.between).or
        (some (a.issuer, ⟨.issue req.address, ⟨req.nonce, a.issuedAt⟩⟩)) := by
  unfold lastNaming
  rw [List.reverse_append, List.reverse_cons, List.append_assoc, List.find?_append]
  congr 1
  exact List.find?_cons_of_pos (decide_eq_true rfl)

/-- The store accepts the nonce of a client exactly where the client was not disturbed. -/
theorem Attempt.accepted_iff (h : AuthRun crates jwtSecret now hist ts w)
    (a : Attempt crates hist ts req j q) : a.accepted = true ↔ a.Undisturbed := by
  have hans := h.answers
  rw [a.hist_eq, ← List.cons_append, ← List.append_assoc] at hans
  obtain ⟨w₁, w₂, hbefore, ⟨-, -, hconsume⟩, -⟩ := answers_split hans
  obtain ⟨w₃, w₄, -, ⟨-, hissued, -⟩, hbetween⟩ := answers_split hbefore
  have hissued : w₄.clock = a.issuedAt := hissued
  have hentry := challenges_of_history hbefore req.address
  rw [a.lastNaming_before] at hentry
  have hacc : a.accepted = true ↔ ∃ expiresAt,
      w₁.challenges.challenges req.address = some (req.nonce, expiresAt) ∧
        a.usedAt < expiresAt := by
    rw [← ChallengeStore.verifyAndConsume_eq_true, congrArg Prod.fst hconsume]
  rw [hacc]
  unfold Undisturbed
  rcases hlast : lastNaming req.address a.between with _ | ⟨k, x⟩
  · -- nothing named the address in between: the entry is the client's own challenge
    rw [hlast] at hentry
    constructor
    · intro _ x hx
      cases hx
    · intro _
      exact ⟨_, hentry, a.inTime⟩
  · -- the last operation that named it left the entry, if it was an `issue`
    rw [hlast] at hentry
    obtain ⟨hname, past, between, hsplit, -⟩ := lastNaming_eq_some hlast
    constructor
    · rintro ⟨expiresAt, hsome, -⟩ y hy
      obtain rfl := Option.some.inj hy
      obtain ⟨t, hx, -⟩ := issue_of_left? hname (hentry.symm.trans hsome)
      exact ⟨t, hx⟩
    · intro hund
      obtain ⟨t, hx⟩ := hund _ rfl
      obtain rfl : x = ⟨.issue req.address, (⟨req.nonce, t⟩ : Timed String)⟩ := hx
      refine ⟨t + DateTime.ofSeconds challengeTtlSecs, hentry, ?_⟩
      -- the later challenge was issued no earlier than the client's own
      rw [hsplit] at hbetween
      obtain ⟨w₅, w₆, hmid, ⟨hclock, -, -⟩, -⟩ := answers_split hbetween
      have hle : a.issuedAt ≤ t := hissued ▸ Int.le_trans (clock_le_of_answers hmid) hclock
      exact Int.lt_of_lt_of_le a.inTime (Int.add_le_add_right hle _)

/-- What is left of `verify` after the store has answered only reads the clock. -/
private theorem verifyRest_only (ok : Bool) :
    (verifyRest crates jwtSecret req ok).Only fun op => op = AuthOp.utcNow := by
  have hok : ∀ r : Except AppError String,
      ((Prog.ofExcept r : AuthM String).bind fun token => .done (TokenResponse.mk token)).Only
        fun op => op = AuthOp.utcNow := by
    intro r
    cases r <;> trivial
  refine Prog.Only.bind ?_ fun _ => trivial
  cases ok with
  | false => trivial
  | true =>
    refine Prog.Only.bind ?_ fun _ => ⟨rfl, fun now => hok _⟩
    cases checkSignature crates req <;> trivial

/-- The client's `verify` has gone on from the answer of the store. -/
theorem Attempt.leads (h : AuthRun crates jwtSecret now hist ts w)
    (a : Attempt crates hist ts req j q) :
    ∃ tr, Leads (verifyRest crates jwtSecret req a.accepted) tr q := by
  have hleads := h.leads a.presented
  have hmem : (⟨.verifyAndConsume req.address req.nonce, (⟨a.accepted, a.usedAt⟩ : Timed Bool)⟩ :
      Sigma AuthService.Reply) ∈ hist.of j := by
    refine Signature.History.mem_of.mpr ?_
    exact (congrArg (fun l => _ ∈ l) a.hist_eq).mpr (List.mem_append_right _
      (List.mem_cons_of_mem _ (List.mem_append_right _ List.mem_cons_self)))
  obtain ⟨consumed, tr, htr, hrest⟩ := verify_leads_inv hleads (List.ne_nil_of_mem hmem)
  rw [htr] at hmem
  rcases List.mem_cons.mp hmem with heq | hmem
  · obtain rfl : (⟨a.accepted, a.usedAt⟩ : Timed Bool) = consumed := eq_of_heq (Sigma.mk.inj heq).2
    exact ⟨tr, hrest⟩
  · cases hrest.only (verifyRest_only _) _ hmem

/-- **Other clients decide a login in progress.** A client that presents its nonce in time with
a wallet signature gets a token if it was not disturbed, and otherwise is told that its
challenge is gone. -/
theorem login_succeeds_iff (hjwt : ∀ claims, (crates.jwtEncode jwtSecret claims).isSome = true)
    (h : AuthRun crates jwtSecret now hist ts w) (a : Attempt crates hist ts req j q) :
    (a.Undisturbed → ReturnsToken q) ∧
      (¬ a.Undisturbed →
        q = .fail (.unauthorized "challenge not found, already used, or expired")) := by
  rw [← a.accepted_iff h]
  obtain ⟨tr, hleads⟩ := a.leads h
  have hsig := checkSignature_eq_ok.mpr a.signed
  constructor
  · intro hacc tr' q' hleads' hfin
    rw [hacc] at hleads
    rcases verifyRest_signed hsig (hleads.append hleads') with rfl | ⟨t, rfl⟩
    · unfold verifyRest at hfin
      rw [hsig] at hfin
      exact hfin.elim
    · obtain ⟨token, htoken⟩ := Option.isSome_iff_exists.mp (hjwt (jwtClaims req.address t))
      refine ⟨⟨token⟩, ?_⟩
      rw [issueJwt, htoken]
      rfl
  · intro hacc
    rw [Bool.eq_false_iff.mpr hacc] at hleads
    exact verifyRest_rejected hleads

theorem login_succeeds_iff_sample : ∃ (hist : AuthService.History)
    (ts : List (AuthRequest × AuthM AuthResponse)),
    ∃ a : Attempt sampleAuth hist ts sampleVerify 1 (.done (.token ⟨sampleToken⟩)),
      a.Undisturbed ∧ ReturnsToken (.done (.token ⟨sampleToken⟩)) := by
  obtain ⟨resp, w, h⟩ := exists_sampleLogin
  let a : Attempt sampleAuth
      [(0, ⟨.issue sampleAddress, ⟨sampleNonce, sampleTime 0⟩⟩),
        (1, ⟨.verifyAndConsume sampleAddress sampleNonce, ⟨true, sampleTime 10⟩⟩),
        (1, ⟨.utcNow, sampleTime 12⟩)]
      [(.challenge ⟨sampleAddress⟩, .done (.challenge resp)),
        (.verify sampleVerify, .done (.token ⟨sampleToken⟩))]
      sampleVerify 1 (.done (.token ⟨sampleToken⟩)) := {
    past := [], issuer := 0, issuedAt := sampleTime 0, between := [], accepted := true
    usedAt := sampleTime 10, future := [(1, ⟨.utcNow, sampleTime 12⟩)]
    hist_eq := rfl
    challenged := ⟨.done (.challenge resp), rfl⟩
    presented := rfl
    inTime := by decide
    signed := checkSignature_eq_ok.mp checkSignature_sampleVerify }
  have hund : a.Undisturbed := by
    intro x hx
    cases hx
  exact ⟨_, _, a, hund, (login_succeeds_iff (fun _ => rfl) h a).1 hund⟩

/-- The random bytes of another client's challenge. -/
def otherNonceBytes : Vector UInt8 32 := Vector.replicate 32 0x3c

/-- A challenge another client asks for takes the one before it away: whoever else presents the
nonce or does not, a client in the middle of its login can be turned down. -/
theorem other_client_cancels_login : ¬ ∀ (crates : AuthCrates) (jwtSecret : String)
    (now : DateTime) (hist : AuthService.History)
    (ts : List (AuthRequest × AuthM AuthResponse)) (w : AuthWorld) (req : VerifyRequest) (j : ℕ)
    (q : AuthM AuthResponse),
    (∀ claims, (crates.jwtEncode jwtSecret claims).isSome = true) →
      AuthRun crates jwtSecret now hist ts w → Attempt crates hist ts req j q →
        (∀ k req' q', ts[k]? = some (.verify req', q') → k ≠ j → req'.nonce ≠ req.nonce) →
          ReturnsToken q := by
  intro hall
  have hstart : AuthRun sampleAuth "secret" (sampleTime 0) [] [] ⟨.new, sampleTime 0⟩ := .start
  obtain ⟨resp, h⟩ := hstart.challenge publicKey_sampleAddress sampleNonceBytes
    (Int.le_refl (sampleTime 0))
  obtain ⟨resp', h⟩ := h.challenge publicKey_sampleAddress otherNonceBytes
    (by decide : sampleTime 0 ≤ sampleTime 5)
  -- the entry of the address is now the other client's, whose nonce differs
  have hne : hexEncode otherNonceBytes.toList ≠ sampleNonce := by decide
  have hrejected : ∀ store : ChallengeStore,
      (((store.issue sampleAddress otherNonceBytes (sampleTime 5)).2).verifyAndConsume
        sampleVerify.address sampleVerify.nonce (sampleTime 10)).1 = false := by
    intro store
    refine Bool.eq_false_iff.mpr fun hacc => ?_
    obtain ⟨expiresAt, hentry, -⟩ := ChallengeStore.verifyAndConsume_eq_true.mp hacc
    have hother : (store.issue sampleAddress otherNonceBytes (sampleTime 5)).2.challenges
        sampleAddress = _ := ChallengeStore.challenges_issue otherNonceBytes sampleAddress
    rw [if_pos rfl] at hother
    exact hne (Prod.mk.inj (Option.some.inj (hother.symm.trans hentry))).1
  have h := h.consume sampleVerify (hrejected _) (by decide : sampleTime 5 ≤ sampleTime 10)
  let a : Attempt sampleAuth
      [(0, ⟨.issue sampleAddress, ⟨sampleNonce, sampleTime 0⟩⟩),
        (1, ⟨.issue sampleAddress, ⟨hexEncode otherNonceBytes.toList, sampleTime 5⟩⟩),
        (2, ⟨.verifyAndConsume sampleAddress sampleNonce, ⟨false, sampleTime 10⟩⟩)]
      [(.challenge ⟨sampleAddress⟩, .done (.challenge resp)),
        (.challenge ⟨sampleAddress⟩, .done (.challenge resp')),
        (.verify sampleVerify, verifyRest sampleAuth "secret" sampleVerify false)]
      sampleVerify 2 (verifyRest sampleAuth "secret" sampleVerify false) := {
    past := [], issuer := 0, issuedAt := sampleTime 0
    between := [(1, ⟨.issue sampleAddress, ⟨hexEncode otherNonceBytes.toList, sampleTime 5⟩⟩)]
    accepted := false, usedAt := sampleTime 10, future := []
    hist_eq := rfl
    challenged := ⟨.done (.challenge resp), rfl⟩
    presented := rfl
    inTime := by decide
    signed := checkSignature_eq_ok.mp checkSignature_sampleVerify }
  have htoken := hall _ _ _ _ _ _ _ _ _ (fun _ => rfl) h a (by
    rintro (_ | _ | _ | k) req' q' hk hk2
    · cases hk
    · cases hk
    · exact absurd rfl hk2
    · cases hk)
  obtain ⟨resp, hdone⟩ := htoken [] _ (.refl _ _) trivial
  cases hdone

end Attempts

end ConcordBackend
