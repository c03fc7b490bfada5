import ConcordBackend.Api.Collection
import ConcordBackend.Api.Login
import ConcordBackend.Api.Server
import ConcordBackend.Indexer.Notices
import ConcordBackend.Library.Traces

/-!
# Who acts for an address

A webhook request acts for the address its token stands for. The token was answered to a
login, the login redeemed a challenge with a signature of the address's wallet, and all of it
happened before the request arrived: `Session` is this chain. Whatever requests, logins and
polls go on side by side, a webhook request has a session or it has touched nothing but the
clock (`webhook_request_authorized`), and a token opens one for 3660 seconds
(`session_lasts`).
-/

namespace ConcordBackend

variable {crates : SessionCrates} {indexer : Crates} {jwtSecret : String}

/-! ### What the jobs lead to -/

section Paths

/-- A login that returned a token has consumed its challenge and read the clock. -/
theorem verify_leads_issued {authCrates : AuthCrates} {req : VerifyRequest} {resp : TokenResponse}
    {tr : AuthService.Trace}
    (h : Leads (AuthRequest.serve authCrates jwtSecret (.verify req)) tr (.done (.token resp))) :
    ∃ (usedAt issuedAt : DateTime),
      tr = [⟨.verifyAndConsume req.address req.nonce, (⟨true, usedAt⟩ : Timed Bool)⟩,
        ⟨.utcNow, issuedAt⟩] ∧
      authCrates.jwtEncode jwtSecret (jwtClaims req.address issuedAt) = some resp.token := by
  have hne : tr ≠ [] := by
    rintro rfl
    rcases Runs.call_inv h with ⟨-, hq, -⟩ | ⟨_, _, _, -, hnil, -⟩
    · cases hq
    · cases hnil
  obtain ⟨⟨accepted, usedAt⟩, tr', rfl, hrest⟩ := verify_leads_inv h hne
  cases accepted with
  | false => cases verifyRest_rejected hrest
  | true =>
    rcases hsig : checkSignature authCrates req with err | u
    · cases verifyRest_unsigned hsig hrest
    · unfold verifyRest at hrest
      rw [hsig] at hrest
      obtain ⟨issuedAt, _, tr'', -, rfl, hend⟩ := Runs.call_inv_of_ne hrest fun hq => by cases hq
      refine ⟨usedAt, issuedAt, ?_⟩
      rcases hjwt : issueJwt authCrates jwtSecret req.address issuedAt with err | token
      · simp only [hjwt] at hend
        cases hend.fail_inv.2.1
      · simp only [hjwt] at hend
        obtain ⟨rfl, hdone, -⟩ := hend.done_inv
        obtain rfl := AuthResponse.token.inj (Prog.done.inj hdone)
        exact ⟨rfl, okOr_eq_ok.mp hjwt⟩

/-- A job of the login endpoints is a request to them. -/
theorem auth_leads {req : AuthRequest} {tr : Backend.Trace} {resp : AuthResponse}
    (h : Leads (Job.serve crates indexer jwtSecret (.auth (.ok req))) tr (.done (.auth resp))) :
    Leads (req.serve crates.toAuthCrates jwtSecret) tr.left (.done resp) := by
  obtain ⟨q', tr', hq, rfl, hrun⟩ := Runs.inl_inv h
  rw [Signature.Trace.left_inl]
  rcases hrun.bind_inv with ⟨p, -, hp, hne⟩ | ⟨resp', _, tr₁, tr₂, hresp, hend, rfl⟩
  · -- the request has not returned, so the job has not
    rw [hp] at hq
    cases p with
    | done a => exact absurd rfl (hne a)
    | fail e => cases hq
    | call op k => cases hq
  · obtain ⟨rfl, rfl, -⟩ := hend.done_inv
    obtain rfl := JobResult.auth.inj (Prog.done.inj hq)
    rw [List.append_nil]
    exact hresp

/-- A webhook request is refused, or reads the clock and is the request of an address. -/
theorem webhook_leads {bearer : Option String} {req : Except Rejection WebhookRequest}
    {tr : Backend.Trace} {q : BackendM JobResult}
    (h : Leads (Job.serve crates indexer jwtSecret (.webhook bearer req)) tr q) :
    (tr = [] ∧ (q.Finished → q = .fail (.unauthorized "missing bearer token"))) ∨
      ∃ (token : String) (now : DateTime) (tr' : Backend.Trace),
        bearer = some token ∧ tr = ⟨.inl .utcNow, now⟩ :: tr' ∧
        match crates.jwtDecode jwtSecret token now with
        | none => tr' = [] ∧ q = .fail (.unauthorized "invalid or expired token")
        | some claims => Leads (webhookFor req claims.sub) tr' q := by
  rcases Runs.bind_inv h with ⟨p, hrun, rfl, hne⟩ | ⟨address, _, tr₁, tr₂, hrun, hrest, rfl⟩
  · obtain ⟨p', tr', rfl, rfl, hauth⟩ := Runs.inl_inv hrun
    rcases authUser_leads hauth with ⟨rfl, hfail⟩ | ⟨token, now, rfl, rfl, rfl⟩
    · refine Or.inl ⟨rfl, fun hfin => ?_⟩
      cases p' with
      | done a => exact absurd rfl (hne a)
      | fail e =>
        obtain rfl := Prog.fail.inj (hfail trivial)
        rfl
      | call op k => exact hfin.elim
    · refine Or.inr ⟨token, now, [], rfl, rfl, ?_⟩
      rcases hdec : crates.jwtDecode jwtSecret token now with _ | claims
      · rw [verifyJwt_of_none hdec]
        exact ⟨rfl, rfl⟩
      · rw [verifyJwt_eq_ok.mpr ⟨claims, hdec, rfl⟩] at hne
        exact absurd rfl (hne claims.sub)
  · obtain ⟨p', tr', hp, rfl, hauth⟩ := Runs.inl_inv hrun
    rcases authUser_leads hauth with ⟨rfl, hfail⟩ | ⟨token, now, rfl, rfl, rfl⟩
    · cases p' with
      | done a => cases hfail trivial
      | fail e => cases hp
      | call op k => cases hp
    · refine Or.inr ⟨token, now, tr₂, rfl, rfl, ?_⟩
      rcases hdec : crates.jwtDecode jwtSecret token now with _ | claims
      · rw [verifyJwt_of_none hdec] at hp
        cases hp
      · rw [verifyJwt_eq_ok.mpr ⟨claims, hdec, rfl⟩] at hp
        obtain rfl := Prog.done.inj hp
        exact hrest

/-- A program over statements and the RPC does nothing else. -/
theorem onService_leads {ε α : Type} {p : Prog Service ε α} {tr : Backend.Trace}
    {q : Prog Backend ε α} (h : Leads (onService p) tr q) :
    ∃ (p' : Prog Service ε α) (tr' : Service.Trace), q = onService p' ∧
      tr = (tr'.inl : (Service.sum Listing).Trace).inr ∧ Leads p tr' p' := by
  obtain ⟨q₁, tr₁, rfl, rfl, h₁⟩ := Runs.inr_inv h
  obtain ⟨q₂, tr₂, rfl, rfl, h₂⟩ := Runs.inl_inv h₁
  exact ⟨q₂, tr₂, rfl, rfl, h₂⟩

/-- The request of an address sends what its handler does, and ends with its answer. -/
theorem webhookFor_leads {req : Except Rejection WebhookRequest} {address : String}
    {tr : Backend.Trace} {q : BackendM JobResult} (h : Leads (webhookFor req address) tr q) :
    match req with
    | .error rejection => tr = [] ∧ q = .done (.rejected rejection)
    | .ok req => ∃ (p : ApiM WebhookResponse) (tr' : Service.Trace),
      q = onService (p.bind fun resp => .done (.webhook resp)) ∧
        tr = (tr'.inl : (Service.sum Listing).Trace).inr ∧ Leads (req.serve address) tr' p := by
  rcases req with rejection | req
  · obtain ⟨rfl, rfl, -⟩ := h.done_inv
    exact ⟨rfl, rfl⟩
  · obtain ⟨p, tr', rfl, rfl, hrun⟩ := onService_leads h
    rcases hrun.bind_inv with ⟨p', hp, rfl, -⟩ | ⟨resp, _, tr₁, tr₂, hp, hend, rfl⟩
    · exact ⟨p', tr', rfl, rfl, hp⟩
    · obtain ⟨rfl, rfl, -⟩ := hend.done_inv
      refine ⟨.done resp, tr₁, rfl, ?_, hp⟩
      rw [List.append_nil]

/-- The request of an address does not touch the clock. -/
theorem webhookFor_left {req : Except Rejection WebhookRequest} {address : String}
    {tr : Backend.Trace} {q : BackendM JobResult} (h : Leads (webhookFor req address) tr q) :
    tr.left = [] := by
  have hlead := webhookFor_leads h
  rcases req with rejection | req
  · rw [hlead.1]
    rfl
  · obtain ⟨p, tr', -, rfl, -⟩ := hlead
    exact Signature.Trace.left_inr _

end Paths

/-! ### The clock of a run -/

/-- A reading of the clock lies between those at the start and at the end of a run. -/
theorem utcNow_mem_bounds {w₀ w : AuthWorld} {tr : AuthService.Trace} {now : DateTime}
    (h : Answers authHandler w₀ tr w) (hmem : ⟨.utcNow, now⟩ ∈ tr) :
    w₀.clock ≤ now ∧ now ≤ w.clock := by
  obtain ⟨past, future, rfl⟩ := List.append_of_mem hmem
  obtain ⟨w₁, w₂, hpast, ⟨hread, hclock, -⟩, hfuture⟩ := h.split
  refine ⟨Int.le_trans (clock_le_of_answers hpast) hread, ?_⟩
  exact Int.le_trans (Int.le_of_eq hclock.symm) (clock_le_of_answers hfuture)

/-! ### Sessions -/

/-- What lets request `i` act for an address at a time: before it arrived, a login redeemed a
challenge with a signature of the address's wallet, and was answered a token that is less than
3661 seconds old. -/
structure Session (crates : SessionCrates) (hist : Backend.History)
    (ts : List (Job × BackendM JobResult)) (i : ℕ) (address : String) (now : DateTime) where
  past : Backend.History
  future : Backend.History
  hist_eq : hist = past ++ future
  unsent : past.of i = []
  login : ℕ
  req : VerifyRequest
  token : TokenResponse
  issuedAt : DateTime
  answered : ts[login]? = some (.auth (.ok (.verify req)), .done (.auth (.token token)))
  address_eq : req.address = address
  redeemed : Redemption past.left login req.address req.nonce
  signed : Signs crates.toAuthCrates req
  issued : (login, ⟨.utcNow, issuedAt⟩) ∈ past.left
  fresh : now / 1000000000 ≤ issuedAt / 1000000000 + 3660

variable {E : Env} {start : DateTime} {w₀ : World E} {hist : Backend.History}
  {ts : List (Job × BackendM JobResult)} {w : AuthWorld × World E}

/-- A run as the challenge store and the clock see it. -/
theorem auth_of_serves
    (h : Serves E.backend (Job.serve crates indexer jwtSecret) (⟨.new, start⟩, w₀) hist ts w) :
    Answers authHandler ⟨.new, start⟩ hist.left.trace w.1 := by
  rw [Signature.History.trace_left]
  exact h.answers.left

/-- A login that was answered a token has redeemed a challenge. -/
theorem redeemed_of_serves
    (h : Serves E.backend (Job.serve crates indexer jwtSecret) (⟨.new, start⟩, w₀) hist ts w)
    {j : ℕ}
    {req : VerifyRequest} {token : TokenResponse}
    (hj : ts[j]? = some (.auth (.ok (.verify req)), .done (.auth (.token token)))) :
    Nonempty (Redemption hist.left j req.address req.nonce) ∧ Signs crates.toAuthCrates req ∧
      ∃ issuedAt : DateTime, (j, ⟨.utcNow, issuedAt⟩) ∈ hist.left ∧
        crates.jwtEncode jwtSecret (jwtClaims req.address issuedAt) = some token.token := by
  have hleads := auth_leads (h.leads hj)
  obtain ⟨usedAt, issuedAt, htr, hissue⟩ := verify_leads_issued hleads
  obtain ⟨-, hsigns, -⟩ := verify_leads_token hleads
  rw [← Signature.History.of_left] at htr
  have hused : (j, ⟨.verifyAndConsume req.address req.nonce, (⟨true, usedAt⟩ : Timed Bool)⟩) ∈
      hist.left := Signature.History.mem_of.mp (by rw [htr]; exact List.mem_cons_self)
  have hread : (j, ⟨.utcNow, issuedAt⟩) ∈ hist.left :=
    Signature.History.mem_of.mp (by rw [htr]; exact List.mem_cons_of_mem _ List.mem_cons_self)
  exact ⟨exists_redemption (auth_of_serves h) hused, hsigns, issuedAt, hread, hissue⟩

/-- The readings of the clock in a run. -/
theorem utcNow_bounds_of_serves
    (h : Serves E.backend (Job.serve crates indexer jwtSecret) (⟨.new, start⟩, w₀) hist ts w)
    {k : ℕ} {t : DateTime} (hmem : (k, ⟨.utcNow, t⟩) ∈ hist.left) : start ≤ t ∧ t ≤ w.1.clock :=
  utcNow_mem_bounds (auth_of_serves h) (List.mem_map_of_mem hmem)

/-- What a token of a login stands for at any time of a run. -/
theorem jwtDecode_of_serves (hreads : crates.ReadsTokens)
    (h : Serves E.backend (Job.serve crates indexer jwtSecret) (⟨.new, start⟩, w₀) hist ts w)
    (hstart : DateTime.ofSeconds 60 ≤ start)
    (hend : w.1.clock ≤ DateTime.ofSeconds DateTime.maxSeconds) {i j : ℕ} {address token : String}
    {issuedAt now : DateTime} (hissued : (j, ⟨.utcNow, issuedAt⟩) ∈ hist.left)
    (hissue : crates.jwtEncode jwtSecret (jwtClaims address issuedAt) = some token)
    (hnow : (i, ⟨.utcNow, now⟩) ∈ hist.left) :
    crates.jwtDecode jwtSecret token now =
      if now / 1000000000 ≤ issuedAt / 1000000000 + 3660 then some (jwtClaims address issuedAt)
      else none := by
  obtain ⟨hfrom, hto⟩ := utcNow_bounds_of_serves h hissued
  exact crates.jwtDecode_issued hreads hissue
    (Int.le_trans (by decide) (Int.le_trans hstart hfrom)) (Int.le_trans hto hend)
    (Int.le_trans hstart (utcNow_bounds_of_serves h hnow).1)

/-- **An accepted token opens a session.** -/
theorem session_of_converses (hreads : crates.ReadsTokens)
    (h : Converses E.backend (Job.serve crates indexer jwtSecret) (TokensKnown crates jwtSecret)
      (⟨.new, start⟩, w₀) hist ts w)
    (hstart : DateTime.ofSeconds 60 ≤ start)
    (hend : w.1.clock ≤ DateTime.ofSeconds DateTime.maxSeconds) {i : ℕ} {token : String}
    {req : Except Rejection WebhookRequest} {q : BackendM JobResult} {now : DateTime}
    {claims : Claims} (hi : ts[i]? = some (.webhook (some token) req, q))
    (hnow : (i, ⟨.utcNow, now⟩) ∈ hist.left)
    (hdec : crates.jwtDecode jwtSecret token now = some claims) :
    Nonempty (Session crates hist ts i claims.sub now) := by
  -- the token was answered to a login before the request arrived
  obtain ⟨past, ts₁, w₁, future, h₁, hknown, hhist, hlen, hgrow⟩ := h.arrival hi
  obtain ⟨j, login, hj⟩ := hknown token rfl ⟨now, by rw [hdec]; rfl⟩
  obtain ⟨⟨hred⟩, hsigns, issuedAt, hread, hissue⟩ := redeemed_of_serves h₁.serves hj
  have hissued : (j, ⟨.utcNow, issuedAt⟩) ∈ hist.left := by
    rw [hhist, Signature.History.left_append]
    exact List.mem_append_left _ hread
  rw [jwtDecode_of_serves hreads h.serves hstart hend hissued hissue hnow] at hdec
  split at hdec
  next hfresh =>
    obtain rfl := Option.some.inj hdec
    exact ⟨{
      past, future, hist_eq := hhist, unsent := h₁.of_eq_nil hlen.le, login := j, req := login
      token := ⟨token⟩, issuedAt, answered := hgrow.answered j _ hj trivial, address_eq := rfl
      redeemed := hred, signed := hsigns, issued := hread, fresh := hfresh }⟩
  next => cases hdec

/-- The reading of the clock a webhook request begins with. -/
theorem mem_left_of_of_eq {i : ℕ} {now : DateTime} {tr : Backend.Trace}
    (h : hist.of i = ⟨.inl .utcNow, now⟩ :: tr) : (i, ⟨.utcNow, now⟩) ∈ hist.left := by
  refine Signature.History.mem_left.mpr (Signature.History.mem_of.mp ?_)
  rw [h]
  exact List.mem_cons_self

/-- **Only a wallet's owner acts for its address.** Where clients present no accepted token that
they were not answered, a webhook request has done nothing, or read the clock and nothing else,
and is refused if it is answered; or it is the request of an address that has a session for
it. -/
theorem webhook_request_authorized (hreads : crates.ReadsTokens)
    (h : Converses E.backend (Job.serve crates indexer jwtSecret) (TokensKnown crates jwtSecret)
      (⟨.new, start⟩, w₀) hist ts w)
    (hstart : DateTime.ofSeconds 60 ≤ start)
    (hend : w.1.clock ≤ DateTime.ofSeconds DateTime.maxSeconds) {i : ℕ} {bearer : Option String}
    {req : Except Rejection WebhookRequest} {q : BackendM JobResult}
    (hi : ts[i]? = some (.webhook bearer req, q)) :
    ((hist.of i = [] ∨ ∃ now : DateTime, hist.of i = [⟨.inl .utcNow, now⟩]) ∧
        (q.Finished → ∃ message, q = .fail (.unauthorized message))) ∨
      ∃ (address : String) (now : DateTime) (tr : Backend.Trace),
        hist.of i = ⟨.inl .utcNow, now⟩ :: tr ∧ Leads (webhookFor req address) tr q ∧
          Nonempty (Session crates hist ts i address now) := by
  rcases webhook_leads (h.serves.leads hi) with ⟨hnil, hfail⟩ | ⟨token, now, tr, rfl, htr, hrest⟩
  · exact Or.inl ⟨Or.inl hnil, fun hfin => ⟨_, hfail hfin⟩⟩
  rcases hdec : crates.jwtDecode jwtSecret token now with _ | claims
  · rw [hdec] at hrest
    obtain ⟨rfl, rfl⟩ := hrest
    exact Or.inl ⟨Or.inr ⟨now, htr⟩, fun _ => ⟨_, rfl⟩⟩
  · rw [hdec] at hrest
    exact Or.inr ⟨claims.sub, now, tr, htr, hrest,
      session_of_converses hreads h hstart hend hi (mem_left_of_of_eq htr) hdec⟩

/-- **A session lasts for 3660 seconds**, whatever else goes on. From the token of a login, a
request that reads the clock in that time is the request of the address that has logged in, and
one that reads it later is refused without having touched anything else. -/
theorem session_lasts (hreads : crates.ReadsTokens)
    (h : Serves E.backend (Job.serve crates indexer jwtSecret) (⟨.new, start⟩, w₀) hist ts w)
    (hstart : DateTime.ofSeconds 60 ≤ start)
    (hend : w.1.clock ≤ DateTime.ofSeconds DateTime.maxSeconds) {i j : ℕ} {login : VerifyRequest}
    {token : TokenResponse} {req : Except Rejection WebhookRequest} {q : BackendM JobResult}
    {now : DateTime} (hj : ts[j]? = some (.auth (.ok (.verify login)), .done (.auth (.token token))))
    (hi : ts[i]? = some (.webhook (some token.token) req, q))
    (hnow : (i, ⟨.utcNow, now⟩) ∈ hist.left) :
    ∃ issuedAt : DateTime, (j, ⟨.utcNow, issuedAt⟩) ∈ hist.left ∧
      if now / 1000000000 ≤ issuedAt / 1000000000 + 3660 then
        ∃ tr, hist.of i = ⟨.inl .utcNow, now⟩ :: tr ∧ Leads (webhookFor req login.address) tr q
      else hist.of i = [⟨.inl .utcNow, now⟩] ∧
        q = .fail (.unauthorized "invalid or expired token") := by
  obtain ⟨-, -, issuedAt, hissued, hissue⟩ := redeemed_of_serves h hj
  refine ⟨issuedAt, hissued, ?_⟩
  rcases webhook_leads (h.leads hi) with ⟨hnil, -⟩ | ⟨token', now', tr, htoken, htr, hrest⟩
  · have hof := Signature.History.mem_of.mpr (Signature.History.mem_left.mp hnow)
    rw [hnil] at hof
    cases hof
  obtain rfl := Option.some.inj htoken
  rw [jwtDecode_of_serves hreads h hstart hend hissued hissue (mem_left_of_of_eq htr)] at hrest
  -- the request reads the clock once
  have hleft : tr.left = [] := by
    split at hrest
    next hnone => rw [hrest.1]; rfl
    next hsome => exact webhookFor_left hrest
  have hread : ⟨.utcNow, now⟩ ∈ Signature.Trace.left (hist.of i) := by
    rw [← Signature.History.of_left]
    exact Signature.History.mem_of.mpr hnow
  have hone : Signature.Trace.left (hist.of i) = [⟨.utcNow, now'⟩] := by
    rw [htr]
    exact congrArg (_ :: ·) hleft
  rw [hone, List.mem_singleton] at hread
  obtain rfl : now = now' := eq_of_heq (Sigma.mk.inj hread).2
  by_cases hfresh : now / 1000000000 ≤ issuedAt / 1000000000 + 3660
  · rw [if_pos hfresh] at hrest ⊢
    exact ⟨tr, htr, hrest⟩
  · rw [if_neg hfresh] at hrest ⊢
    obtain ⟨rfl, rfl⟩ := hrest
    exact ⟨htr, rfl⟩

/-! ### Who writes the table -/

section Writers

/-- The statements of `GET /escrows/{id}`. -/
inductive ReadsEscrow : ServiceOp → Prop where
  | escrow (id : Int64) : ReadsEscrow (.sql (.getEscrow id))
  | milestones (id : Int64) : ReadsEscrow (.sql (.listMilestones id))

/-- The statements of the webhook endpoints. -/
inductive ServesWebhooks : ServiceOp → Prop where
  | escrow (id : Int64) : ServesWebhooks (.sql (.getEscrow id))
  | insert (webhook : WebhookRow) : ServesWebhooks (.sql (.insertWebhook webhook))
  | delete (id : Uuid) (owner : String) : ServesWebhooks (.sql (.deleteWebhook id owner))
  | list (id : Int64) : ServesWebhooks (.sql (.listWebhooksForEscrow id))

/-- The operations of a poll. -/
inductive Polls : ServiceOp → Prop where
  | prepares {op : ServiceOp} (h : Prepares op) : Polls op
  | events (params : GetEventsParams) : Polls (.getEvents params)
  | processes {op : ServiceOp} (h : Processes op) : Polls op
  | store (ledger : Int64) (cursor : String) : Polls (.sql (.setCursor ledger cursor))

/-- What a job may ask of the database and the RPC provider. -/
def Job.Issues : Job → ServiceOp → Prop
  | .escrow _ => ReadsEscrow
  | .webhook _ _ => ServesWebhooks
  | .poll _ => Polls
  | _ => fun _ => False

/-- The list queries of a job, with what they are bound. -/
def Job.Lists : Job → ListOp → Prop
  | .escrows (.ok query), .escrows filter => escrowFilter query = .ok filter
  | .disputes (.ok query), .disputes status _ _ => disputeStatus query = .ok status
  | _, _ => False

/-- What a job sends: the operations it may issue, its list queries, and, unless it is a request
for a challenge or a login, no more to the challenge store than a reading of the clock. -/
def Job.Sends (job : Job) : Backend.Op → Prop
  | .inl op => (∀ req, job ≠ .auth req) → op = .utcNow
  | .inr (.inl op) => job.Issues op
  | .inr (.inr op) => job.Lists op

theorem query_only {A : ServiceOp → Prop} {q : Query} (hq : A (.sql q)) : (query q).Only A := by
  refine ⟨hq, fun r => ?_⟩
  rcases r with e | a
  · trivial
  · trivial

theorem pollOnce_only (crates : Crates) (contractId : String) :
    (pollOnce crates contractId).Only Polls := by
  refine (sql_only (.prepares .cursor)).bind ?_
  rintro ⟨lastLedger, lastCursor⟩
  have hstart : (startLedgerFor lastLedger lastCursor).Only Polls := by
    unfold startLedgerFor
    split
    · exact Prog.Only.bind ⟨.prepares .latest, Prog.ofExcept_only⟩ fun _ => trivial
    · trivial
  refine hstart.bind fun startLedger => ?_
  refine Prog.Only.bind ⟨.events _, Prog.ofExcept_only⟩ fun result => ?_
  refine ((runPage_only crates result.events 0).mono fun _ => .processes).bind fun processed => ?_
  refine Prog.Only.bind ?_ fun _ => trivial
  unfold storeCursor
  split
  · exact sql_only (.store _ _)
  · trivial

theorem getEscrow_only (id : Int64) : (getEscrow id).Only ReadsEscrow := by
  refine (query_only (.escrow id)).bind
    fun r => (Prog.ofExcept_only (okOr r .notFound)).bind fun escrow => ?_
  exact (query_only (.milestones id)).bind fun _ => trivial

/-- A webhook request sends statements of its endpoints. -/
theorem Confined.only {a : String} {p : ApiM WebhookResponse} (h : Confined a p) :
    p.Only ServesWebhooks := by
  induction h with
  | done => trivial
  | fail => trivial
  | getEscrow _ ih => exact ⟨.escrow _, ih⟩
  | insert _ _ ih => exact ⟨.insert _, ih⟩
  | delete _ ih => exact ⟨.delete _ _, ih⟩
  | list _ _ ih => exact ⟨.list _, ih⟩

theorem authUser_only (bearer : Option String) :
    (authUser crates jwtSecret bearer).Only fun op : AuthOp => op = .utcNow :=
  (Prog.ofExcept_only _).bind fun _ => ⟨rfl, fun _ => Prog.ofExcept_only _⟩

theorem listEscrows_only (query : ListEscrowsQuery) :
    (listEscrows query).Only (Job.escrows (.ok query)).Lists := by
  rcases hfilter : escrowFilter query with e | filter
  · rw [listEscrows, hfilter]
    trivial
  · rw [listEscrows, hfilter]
    refine ⟨hfilter, fun r => ?_⟩
    rcases r with e | escrows
    · trivial
    · trivial

theorem listDisputes_only (query : ListDisputesQuery) :
    (listDisputes query).Only (Job.disputes (.ok query)).Lists := by
  rcases hstatus : disputeStatus query with e | status
  · rw [listDisputes, hstatus]
    trivial
  · rw [listDisputes, hstatus]
    refine ⟨hstatus, fun r => ?_⟩
    rcases r with e | disputes
    · trivial
    · trivial

section Parts

variable {A : Backend.Op → Prop}

theorem onAuth_only {α : Type} {p : AuthM α} (hp : p.Only fun op => A (.inl op)) :
    (onAuth p).Only A := hp.inl fun _ h => h

theorem onService_only {ε α : Type} {p : Prog Service ε α}
    (hp : p.Only fun op => A (.inr (.inl op))) : (onService p).Only A :=
  Prog.Only.inr (A := fun op => A (.inr op)) (fun _ h => h) (hp.inl fun _ h => h)

theorem onLists_only {α : Type} {p : Prog Listing AppError α}
    (hp : p.Only fun op => A (.inr (.inr op))) : (onLists p).Only A :=
  Prog.Only.inr (A := fun op => A (.inr op)) (fun _ h => h) (hp.inr fun _ h => h)

end Parts

/-- Every job sends what it may. -/
theorem job_only (job : Job) : (Job.serve crates indexer jwtSecret job).Only job.Sends := by
  cases job with
  | auth req =>
    rcases req with rejection | req
    · trivial
    · exact onAuth_only (Prog.only_of_forall (fun _ h => absurd rfl (h _)) _)
  | escrows query =>
    rcases query with rejection | query
    · trivial
    · exact onLists_only ((listEscrows_only query).bind fun _ => trivial)
  | escrow id =>
    rcases id with rejection | id
    · trivial
    · exact onService_only ((getEscrow_only id).bind fun _ => trivial)
  | disputes query =>
    rcases query with rejection | query
    · trivial
    · exact onLists_only ((listDisputes_only query).bind fun _ => trivial)
  | webhook bearer req =>
    refine (onAuth_only ((authUser_only bearer).mono fun _ h _ => h)).bind fun address => ?_
    rcases req with rejection | req
    · trivial
    · exact onService_only ((confined_serve ⟨address, req⟩).only.bind fun _ => trivial)
  | poll contractId =>
    exact onService_only ((pollOnce_only indexer contractId).attempt.bind fun _ => trivial)

/-- The address an operation inserts or deletes a webhook for. -/
def webhookOwner? : ServiceOp → Option String
  | .sql (.insertWebhook webhook) => some webhook.ownerAddress
  | .sql (.deleteWebhook _ owner) => some owner
  | _ => none

/-- Who issues an operation on someone's webhooks is a webhook request. -/
theorem Job.Issues.of_owner {job : Job} {op : ServiceOp} {owner : String} (h : job.Issues op)
    (howner : webhookOwner? op = some owner) : ∃ bearer req, job = .webhook bearer req := by
  cases job with
  | webhook bearer req => exact ⟨bearer, req, rfl⟩
  | escrow id => cases h <;> cases howner
  | poll contractId =>
    rcases h with h | _ | h | _
    · cases h <;> cases howner
    · cases howner
    · rcases h with _ | h
      · cases howner
      · cases h <;> cases howner
    · cases howner
  | _ => exact h.elim

/-- What keeps to the rows of an owner writes none of another's. -/
theorem Confined.owner_only {a : String} {p : ApiM WebhookResponse} (h : Confined a p) :
    p.Only fun op => ∀ owner, webhookOwner? op = some owner → owner = a := by
  induction h with
  | done => trivial
  | fail => trivial
  | getEscrow _ ih => exact ⟨(by rintro _ ⟨⟩), ih⟩
  | insert hw _ ih => exact ⟨fun _ h => (Option.some.inj h).symm.trans hw, ih⟩
  | delete _ ih => exact ⟨fun _ h => (Option.some.inj h).symm, ih⟩
  | list _ _ ih => exact ⟨(by rintro _ ⟨⟩), ih⟩

/-- The statements and the calls of the RPC of a history. -/
abbrev serviceOf (hist : Backend.History) : Service.History := hist.right.left

/-- Who sends an operation may issue it. -/
theorem issues_of_mem {world : AuthWorld × World E}
    (h : Serves E.backend (Job.serve crates indexer jwtSecret) world hist ts w) {i : ℕ}
    {op : ServiceOp} {r : op.Reply} (hmem : (i, ⟨op, r⟩) ∈ serviceOf hist) :
    ∃ job q, ts[i]? = some (job, q) ∧ job.Issues op := by
  have hsent := Signature.History.mem_right.mp (Signature.History.mem_left.mp hmem)
  have hi := List.getElem?_eq_getElem (h.lt_length hsent)
  exact ⟨_, _, hi, (h.leads hi).only (job_only _) _ (Signature.History.mem_of.mpr hsent)⟩

/-- What a request has seen of the service. -/
theorem serviceOf_of (hist : Backend.History) (i : ℕ) :
    Signature.History.of (serviceOf hist) i = Signature.Trace.left (Signature.Trace.right (hist.of i)) := by
  rw [serviceOf, Signature.History.of_left, Signature.History.of_right]

/-- An operation on webhooks in a run: it is that of a request of its address. -/
structure Writer (crates : SessionCrates) (hist : Backend.History)
    (ts : List (Job × BackendM JobResult)) (i : ℕ) (owner : String) where
  bearer : Option String
  req : WebhookRequest
  rest : ApiM WebhookResponse
  now : DateTime
  mem : ts[i]? = some (.webhook bearer (.ok req),
    onService (rest.bind fun resp => .done (.webhook resp)))
  leads : Leads (req.serve owner) (Signature.History.of (serviceOf hist) i) rest
  session : Session crates hist ts i owner now

/-- A webhook request that has reached the database is the request of the address its token
stands for. -/
theorem webhook_leads_service {i : ℕ} {bearer : Option String}
    {req : Except Rejection WebhookRequest} {q : BackendM JobResult} {op : ServiceOp} {r : op.Reply}
    (h : Leads (Job.serve crates indexer jwtSecret (.webhook bearer req)) (hist.of i) q)
    (hmem : (i, ⟨op, r⟩) ∈ serviceOf hist) :
    ∃ (token : String) (now : DateTime) (claims : Claims) (req' : WebhookRequest)
      (p : ApiM WebhookResponse),
      bearer = some token ∧ req = .ok req' ∧ (i, ⟨.utcNow, now⟩) ∈ hist.left ∧
        crates.jwtDecode jwtSecret token now = some claims ∧
        q = onService (p.bind fun resp => .done (.webhook resp)) ∧
        Leads (req'.serve claims.sub) (Signature.History.of (serviceOf hist) i) p := by
  have hsent : ⟨.inr (.inl op), r⟩ ∈ hist.of i :=
    Signature.History.mem_of.mpr (Signature.History.mem_right.mp (Signature.History.mem_left.mp hmem))
  rcases webhook_leads h with ⟨hnil, -⟩ | ⟨token, now, tr, rfl, htr, hrest⟩
  · rw [hnil] at hsent
    cases hsent
  have hin : ⟨.inr (.inl op), r⟩ ∈ tr := by
    rw [htr] at hsent
    exact (List.mem_cons.mp hsent).resolve_left fun heq => by cases (Sigma.mk.inj heq).1
  rcases hdec : crates.jwtDecode jwtSecret token now with _ | claims
  · rw [hdec] at hrest
    rw [hrest.1] at hin
    cases hin
  rw [hdec] at hrest
  have hweb := webhookFor_leads hrest
  rcases req with rejection | req
  · rw [hweb.1] at hin
    cases hin
  obtain ⟨p, tr', rfl, rfl, hp⟩ := hweb
  have hof : Signature.History.of (serviceOf hist) i = tr' := by
    rw [serviceOf_of, htr]
    exact (congrArg _ (Signature.Trace.right_inr _)).trans (Signature.Trace.left_inl _)
  exact ⟨token, now, claims, req, p, rfl, rfl, mem_left_of_of_eq htr, hdec, rfl, hof.symm ▸ hp⟩

/-- **Who writes a webhook has a session for its owner.** -/
theorem writer_of_converses (hreads : crates.ReadsTokens)
    (h : Converses E.backend (Job.serve crates indexer jwtSecret) (TokensKnown crates jwtSecret)
      (⟨.new, start⟩, w₀) hist ts w)
    (hstart : DateTime.ofSeconds 60 ≤ start)
    (hend : w.1.clock ≤ DateTime.ofSeconds DateTime.maxSeconds) {i : ℕ} {op : ServiceOp}
    {r : op.Reply} {owner : String} (hmem : (i, ⟨op, r⟩) ∈ serviceOf hist)
    (howner : webhookOwner? op = some owner) : Nonempty (Writer crates hist ts i owner) := by
  obtain ⟨job, q, hi, hissues⟩ := issues_of_mem h.serves hmem
  obtain ⟨bearer, req, rfl⟩ := hissues.of_owner howner
  obtain ⟨token, now, claims, req', p, rfl, rfl, hread, hdec, rfl, hp⟩ :=
    webhook_leads_service (h.serves.leads hi) hmem
  obtain ⟨session⟩ := session_of_converses hreads h hstart hend hi hread hdec
  -- the handler keeps to the rows of its caller
  have hown : owner = claims.sub :=
    hp.only (confined_serve ⟨claims.sub, req'⟩).owner_only ⟨op, r⟩
      (Signature.History.mem_of.mpr hmem) owner howner
  subst hown
  exact ⟨⟨some token, req', p, now, hi, hp, session⟩⟩

/-- A run as the database sees it. -/
theorem service_of_serves {world : AuthWorld × World E}
    (h : Serves E.backend (Job.serve crates indexer jwtSecret) world hist ts w) :
    Answers E.unordered world.2 (serviceOf hist).trace w.2 := by
  rw [serviceOf, Signature.History.trace_left, Signature.History.trace_right]
  refine h.answers.right.left_of_frame fun op w r w' hop => ?_
  cases op with
  | escrows filter => exact hop.1
  | disputes status limit offset => exact hop.1

/-- An operation that writes no webhook of an owner leaves hers alone. -/
theorem webhooksOf_of_unordered {op : ServiceOp} {r : op.Reply} {w w' : World E} {owner : String}
    (h : E.unordered op w r w') (hop : webhookOwner? op ≠ some owner) :
    w'.db.webhooksOf owner = w.db.webhooksOf owner := by
  obtain ⟨r₀, h₀⟩ := exists_handler_of_unordered h
  by_cases hwrites : WritesWebhooks op
  · cases hwrites with
    | insert webhook =>
      have hne : webhook.ownerAddress ≠ owner := fun heq => hop (congrArg some heq)
      exact congrArg OwnRows.webhooks
        (ownRows_of_other hne h₀.1 (Or.inr (Or.inr (Or.inr ⟨_, rfl, rfl⟩))))
    | delete id caller =>
      have hne : caller ≠ owner := fun heq => hop (congrArg some heq)
      exact congrArg OwnRows.webhooks
        (ownRows_of_other hne h₀.1 (Or.inr (Or.inr (Or.inl ⟨_, rfl⟩))))
  · rw [Db.webhooksOf, webhooks_of_handler h₀ hwrites, Db.webhooksOf]

/-- A list that was answered is one of the caller's webhooks. -/
theorem listed_leads {req : WebhookRequest} {address : String} {tr : Service.Trace}
    {rows : List WebhookRow} (h : Leads (req.serve address) tr (.done (.listed rows))) :
    ∀ r ∈ rows, r.ownerAddress = address := by
  cases req with
  | register escrowId req drawn =>
    rcases Runs.bind_finished_inv h trivial with ⟨e, -, hq⟩ | ⟨a, _, _, _, -, hrest, -⟩
    · cases hq
    · cases hrest.done_inv.2.1
  | list escrowId =>
    rw [serve_list] at h
    obtain ⟨r, _, tr', -, -, hrest⟩ := h.call_inv_of_ne fun heq => by cases heq
    rcases r with e | webhooks
    · cases hrest.fail_inv.2.1
    · obtain ⟨-, hdone, -⟩ := hrest.done_inv
      obtain rfl := WebhookResponse.listed.inj (Prog.done.inj hdone)
      intro r hr
      simpa using (List.mem_filter.mp hr).2
  | delete escrowId id =>
    rcases Runs.bind_finished_inv h trivial with ⟨e, -, hq⟩ | ⟨a, _, _, _, -, hrest, -⟩
    · cases hq
    · cases hrest.done_inv.2.1

/-- **Without a signature of its wallet an address is out of reach.** In a run in which clients
present no accepted token that they were not answered, and no login for the address comes with a
signature of its wallet, the webhooks of the address stay as they were, and none of them is
listed to anyone. -/
theorem webhooks_of_unsigned (hreads : crates.ReadsTokens)
    (h : Converses E.backend (Job.serve crates indexer jwtSecret) (TokensKnown crates jwtSecret)
      (⟨.new, start⟩, w₀) hist ts w)
    (hstart : DateTime.ofSeconds 60 ≤ start)
    (hend : w.1.clock ≤ DateTime.ofSeconds DateTime.maxSeconds) {owner : String}
    (hunsigned : ∀ (j : ℕ) (login : VerifyRequest) (q : BackendM JobResult),
      ts[j]? = some (.auth (.ok (.verify login)), q) → login.address = owner →
        ¬ Signs crates.toAuthCrates login) :
    w.2.db.webhooksOf owner = w₀.db.webhooksOf owner ∧
      ∀ (i : ℕ) (bearer : Option String) (req : Except Rejection WebhookRequest)
        (rows : List WebhookRow),
        ts[i]? = some (.webhook bearer req, .done (.webhook (.listed rows))) →
          ∀ r ∈ rows, r.ownerAddress ≠ owner := by
  -- nobody has a session for the address
  have hnone : ∀ i now, Nonempty (Session crates hist ts i owner now) → False := by
    rintro i now ⟨s⟩
    exact hunsigned s.login s.req _ s.answered s.address_eq s.signed
  constructor
  · refine (service_of_serves h.serves).invariant_of_mem (P := fun x => webhookOwner? x.1 ≠ some owner)
      (I := fun w => w.db.webhooksOf owner = w₀.db.webhooksOf owner) ?_ ?_ rfl
    · exact fun op w r w' hop hstep hw => (webhooksOf_of_unordered hstep hop).trans hw
    · intro x hx howner
      obtain ⟨⟨i, op, r⟩, hmem, rfl⟩ := List.mem_map.mp hx
      obtain ⟨writer⟩ := writer_of_converses hreads h hstart hend hmem howner
      exact hnone i writer.now ⟨writer.session⟩
  · intro i bearer req rows hi r hr howner
    rcases webhook_leads (h.serves.leads hi) with ⟨-, hfail⟩ | ⟨token, now, tr, rfl, htr, hrest⟩
    · cases hfail trivial
    rcases hdec : crates.jwtDecode jwtSecret token now with _ | claims
    · rw [hdec] at hrest
      cases hrest.2
    rw [hdec] at hrest
    have hweb := webhookFor_leads hrest
    rcases req with rejection | req
    · cases hweb.2
    obtain ⟨p, tr', hq, -, hp⟩ := hweb
    cases p with
    | fail e => cases hq
    | call op k => cases hq
    | done resp =>
      obtain rfl := JobResult.webhook.inj (Prog.done.inj hq)
      have hsession := session_of_converses hreads h hstart hend hi (mem_left_of_of_eq htr) hdec
      rw [← listed_leads hp r hr, howner] at hsession
      exact hnone i now hsession

end Writers

/-! ### A sample session -/

section Sample

/-- A program over the challenge store can be run by itself. -/
theorem runs_onAuth {E : Env} {α : Type} {p q : AuthM α} {a a' : AuthWorld} {tr : AuthService.Trace}
    (h : Runs authHandler p a tr q a') (w : World E) :
    Runs E.backend (onAuth p) (a, w) tr.inl (onAuth q) (a', w) :=
  have hboth : Runs (fun op => E.backend (.inl op)) p (a, w) tr q (a', w) := h.first w
  hboth.inl

/-- A request to the login endpoints can be served by itself. -/
theorem runs_auth {E : Env} {req : AuthRequest} {resp : AuthResponse} {a a' : AuthWorld}
    {tr : AuthService.Trace}
    (h : Runs authHandler (req.serve crates.toAuthCrates jwtSecret) a tr (.done resp) a')
    (w : World E) :
    Runs E.backend (Job.serve crates indexer jwtSecret (.auth (.ok req))) (a, w) tr.inl
      (.done (.auth resp)) (a', w) := by
  have hrun : Runs authHandler ((req.serve crates.toAuthCrates jwtSecret).bind fun resp =>
      .done (.auth resp)) a tr (.done (.auth resp) : AuthM JobResult) a' := h.bind
  exact runs_onAuth hrun w

/-- A program of statements can be run by itself. -/
theorem runs_onService {E : Env} {ε α : Type} {p q : Prog Service ε α} {w w' : World E}
    {tr : Service.Trace} (h : Runs E.unordered p w tr q w') (a : AuthWorld) :
    Runs E.backend (onService p) (a, w) (tr.inl : (Service.sum Listing).Trace).inr (onService q)
      (a, w') :=
  have hservice : Runs (Handler.sum E.unordered E.listing) p.inl w tr.inl q.inl w' := Runs.inl h
  have hboth : Runs (fun op => E.backend (.inr op)) p.inl (a, w) tr.inl q.inl (a, w') :=
    hservice.second a
  hboth.inr

/-- A challenge, in one go. -/
theorem runs_challenge (authCrates : AuthCrates) (jwtSecret : String) {a : AuthWorld}
    {address : String} {publicKey : Vector UInt8 32} {now : DateTime}
    (hkey : authCrates.publicKeyFromString address = some publicKey)
    (nonceBytes : Vector UInt8 32) (hclock : a.clock ≤ now) : ∃ resp,
      Runs authHandler (AuthRequest.serve authCrates jwtSecret (.challenge ⟨address⟩)) a
        [⟨.issue address, ⟨hexEncode nonceBytes.toList, now⟩⟩] (.done (.challenge resp))
        ⟨(a.challenges.issue address nonceBytes now).2, now⟩ := by
  have hserve : AuthRequest.serve authCrates jwtSecret (.challenge ⟨address⟩) =
      .call (.issue address) fun issued => .done (.challenge ⟨issued.value,
        String.fromUTF8 (challengeMessage issued.value)
          (isValidUTF8_challengeMessage issued.value)⟩) := by
    simp only [AuthRequest.serve, ConcordBackend.challenge, hkey]
    rfl
  have hissue : authHandler (.issue address) a ⟨hexEncode nonceBytes.toList, now⟩
      ⟨(a.challenges.issue address nonceBytes now).2, now⟩ := ⟨hclock, rfl, nonceBytes, rfl⟩
  rw [hserve]
  exact ⟨_, .step hissue (.refl _ _)⟩

/-- A login, in one go. -/
theorem runs_verify {authCrates : AuthCrates} {a : AuthWorld} {req : VerifyRequest} {token : String}
    {usedAt now : DateTime}
    (haccepted : (a.challenges.verifyAndConsume req.address req.nonce usedAt).1 = true)
    (hsig : checkSignature authCrates req = .ok ())
    (hjwt : issueJwt authCrates jwtSecret req.address now = .ok token) (hused : a.clock ≤ usedAt)
    (hnow : usedAt ≤ now) :
    Runs authHandler (AuthRequest.serve authCrates jwtSecret (.verify req)) a
      [⟨.verifyAndConsume req.address req.nonce, (⟨true, usedAt⟩ : Timed Bool)⟩, ⟨.utcNow, now⟩]
      (.done (.token ⟨token⟩))
      ⟨(a.challenges.verifyAndConsume req.address req.nonce usedAt).2, now⟩ := by
  have hconsume : authHandler (.verifyAndConsume req.address req.nonce) a ⟨true, usedAt⟩
      ⟨(a.challenges.verifyAndConsume req.address req.nonce usedAt).2, usedAt⟩ :=
    ⟨hused, rfl, by rw [← haccepted]⟩
  have hrest : verifyRest authCrates jwtSecret req true = .call .utcNow fun (t : DateTime) =>
      ((Prog.ofExcept (issueJwt authCrates jwtSecret req.address t)).bind fun token =>
        .done (TokenResponse.mk token)).bind fun resp => .done (.token resp) := by
    unfold verifyRest
    rw [hsig]
    rfl
  refine .step hconsume ?_
  change Runs authHandler (verifyRest authCrates jwtSecret req true) _ _ _ _
  rw [hrest]
  have hread : ∀ store, authHandler .utcNow ⟨store, usedAt⟩ now ⟨store, now⟩ :=
    fun _ => ⟨hnow, rfl, rfl⟩
  refine .step (hread _) ?_
  simp only [hjwt]
  exact .refl _ _

/-- The claims of the sample's token. -/
def sampleClaims : Claims := ⟨sampleAddress, 1700003612⟩

/-- The crates on the values of the sample's session. -/
def sampleSession : SessionCrates where
  toAuthCrates := { sampleAuth with
    jwtEncode := fun secret claims =>
      if secret = "secret" ∧ claims = sampleClaims then some sampleToken else none }
  jwtDecode := fun secret token now =>
    if secret = "secret" ∧ token = sampleToken ∧ now / 1000000000 ≤ 1700003672 then
      some sampleClaims
    else none

theorem readsTokens_sampleSession : sampleSession.ReadsTokens := by
  intro secret claims token now hencode _
  have hencode : (if secret = "secret" ∧ claims = sampleClaims then some sampleToken else none) =
      some token := hencode
  split at hencode
  next h =>
    obtain ⟨rfl, rfl⟩ := h
    obtain rfl := Option.some.inj hencode
    have hexp : ((sampleClaims.exp.toNat : Int) + 60) = 1700003672 := by decide
    rw [hexp]
    simp [sampleSession]
  next => cases hencode

/-- A webhook request with an accepted token goes on as one of the token's address. -/
theorem runs_webhook {E : Env} {token : String} {req : WebhookRequest} {resp : WebhookResponse}
    {a : AuthWorld} {w w' : World E} {tr : Service.Trace} {now : DateTime} {claims : Claims}
    (hclock : a.clock ≤ now) (hdec : crates.jwtDecode jwtSecret token now = some claims)
    (h : Runs E.unordered (req.serve claims.sub) w tr (.done resp) w') :
    Runs E.backend (Job.serve crates indexer jwtSecret (.webhook (some token) (.ok req))) (a, w)
      (⟨.inl .utcNow, now⟩ :: (tr.inl : (Service.sum Listing).Trace).inr) (.done (.webhook resp))
      (⟨a.challenges, now⟩, w') := by
  have hread : E.backend (.inl .utcNow) (a, w) now (⟨a.challenges, now⟩, w) :=
    ⟨⟨hclock, rfl, rfl⟩, rfl⟩
  have hserve : Runs E.unordered
      ((req.serve claims.sub).bind fun resp => (.done (.webhook resp) : ApiM JobResult)) w tr
      (.done (.webhook resp)) w' := h.bind
  refine .step hread ?_
  have hok : verifyJwt crates jwtSecret token now = .ok claims.sub :=
    verifyJwt_eq_ok.mpr ⟨claims, hdec, rfl⟩
  simp only [hok]
  exact runs_onService hserve _

/-- The requests of the sample, with their answers. -/
def sampleJobs (resp : ChallengeResponse) (rows : List WebhookRow) :
    List (Job × BackendM JobResult) :=
  [(.auth (.ok (.challenge ⟨sampleAddress⟩)), .done (.auth (.challenge resp))),
    (.auth (.ok (.verify sampleVerify)), .done (.auth (.token ⟨sampleToken⟩))),
    (.webhook (some sampleToken) (.ok (.list 1)), .done (.webhook (.listed rows)))]

/-- What happens in the sample: a login, and a list of webhooks with its token. -/
def sampleHistory (rows : List WebhookRow) : Backend.History :=
  [(0, ⟨.inl (.issue sampleAddress), (⟨sampleNonce, sampleTime 0⟩ : Timed String)⟩),
    (1, ⟨.inl (.verifyAndConsume sampleAddress sampleNonce),
      (⟨true, sampleTime 10⟩ : Timed Bool)⟩),
    (1, ⟨.inl .utcNow, sampleTime 12⟩),
    (2, ⟨.inl .utcNow, sampleTime 20⟩),
    (2, ⟨.inr (.inl (.sql (.listWebhooksForEscrow 1))),
      (.ok rows : Except SqlError (List WebhookRow))⟩)]

/-- The wallet of the sample logs in and lists the webhooks of an escrow. -/
theorem exists_sampleSession (db : Db) : ∃ resp a, a.clock = sampleTime 20 ∧
    Converses openEnv.backend (Job.serve sampleSession sampleCrates "secret")
      (TokensKnown sampleSession "secret") (⟨.new, sampleTime 0⟩, ⟨db, ()⟩)
      (sampleHistory (db.listWebhooksForEscrow 1))
      (sampleJobs resp ((db.listWebhooksForEscrow 1).filter
        fun w => w.ownerAddress = sampleAddress)) (a, ⟨db, ()⟩) := by
  have hstart : Converses openEnv.backend (Job.serve sampleSession sampleCrates "secret")
      (TokensKnown sampleSession "secret") (⟨.new, sampleTime 0⟩, ⟨db, ()⟩) [] []
      (⟨.new, sampleTime 0⟩, ⟨db, ()⟩) := .start
  have hclock : (⟨.new, sampleTime 0⟩ : AuthWorld).clock ≤ sampleTime 0 := Int.le_refl _
  have hkey : sampleSession.publicKeyFromString sampleAddress = some samplePublicKey :=
    publicKey_sampleAddress
  obtain ⟨resp, hchallenge⟩ := runs_challenge sampleSession.toAuthCrates "secret" hkey
    sampleNonceBytes hclock
  have hverify : Runs authHandler
      (AuthRequest.serve sampleSession.toAuthCrates "secret" (.verify sampleVerify))
      ⟨(ChallengeStore.new.issue sampleAddress sampleNonceBytes (sampleTime 0)).2, sampleTime 0⟩ _
      (.done (.token ⟨sampleToken⟩)) ⟨_, sampleTime 12⟩ :=
    runs_verify (accepted_sampleNonce .new (by decide)) checkSignature_sampleVerify rfl
      (by decide : sampleTime 0 ≤ sampleTime 10) (by decide : sampleTime 10 ≤ sampleTime 12)
  have hfresh : sampleTime 20 / 1000000000 ≤ 1700003672 := by decide
  have hdec : sampleSession.jwtDecode "secret" sampleToken (sampleTime 20) =
      some sampleClaims := by
    simp [sampleSession, hfresh]
  have hlist := (runs_list (E := openEnv) ⟨db, ()⟩ 1 sampleClaims.sub).mono
    fun _ _ _ _ => unordered_of_handler
  have hfirst := hstart.run (fun _ h => by cases h) (runs_auth hchallenge _)
  have hsecond := hfirst.run (fun _ h => by cases h) (runs_auth hverify _)
  have hthird := hsecond.run (x := .webhook (some sampleToken) (.ok (.list 1)))
    (fun token htoken _ => ⟨1, sampleVerify, by cases htoken; rfl⟩)
    (runs_webhook (by decide : sampleTime 12 ≤ sampleTime 20) hdec hlist)
  exact ⟨resp, _, rfl, hthird⟩

/-- The sample's request is that of an address that has logged in. -/
theorem webhook_request_authorized_sample : ∃ resp address now, Nonempty (Session sampleSession
    (sampleHistory []) (sampleJobs resp []) 2 address now) := by
  obtain ⟨resp, a, hclock, hrun⟩ := exists_sampleSession Db.migrated
  rcases webhook_request_authorized readsTokens_sampleSession hrun (by decide)
    (by rw [hclock]; decide) (i := 2) rfl with
    ⟨hnil | ⟨now, hone⟩, -⟩ | ⟨address, now, -, -, -, hsession⟩
  · cases hnil
  · cases congrArg List.length hone
  · exact ⟨resp, address, now, hsession⟩

/-- The sample's request comes eight seconds after the login, and is in time. -/
theorem session_lasts_sample : ∃ issuedAt : DateTime,
    (1, ⟨.utcNow, issuedAt⟩) ∈ (sampleHistory []).left ∧
      sampleTime 20 / 1000000000 ≤ issuedAt / 1000000000 + 3660 := by
  obtain ⟨resp, a, hclock, hrun⟩ := exists_sampleSession Db.migrated
  have hnow : (2, ⟨.utcNow, sampleTime 20⟩) ∈ Signature.History.left (sampleHistory []) :=
    List.mem_cons_of_mem _ (List.mem_cons_of_mem _ (List.mem_cons_of_mem _ List.mem_cons_self))
  obtain ⟨issuedAt, hread, hrest⟩ := session_lasts readsTokens_sampleSession hrun.serves (by decide)
    (by rw [hclock]; decide) (i := 2) (j := 1) rfl rfl hnow
  refine ⟨issuedAt, hread, ?_⟩
  by_contra hlate
  rw [if_neg hlate] at hrest
  cases hrest.2

/-- The provider of an escrow, who has not logged in, has a webhook that the sample's request is
not answered. -/
theorem webhooks_of_unsigned_sample : ∃ db : Db,
    (db.webhooksOf (sampleEscrow sampleContract 1).provider).length = 1 ∧
      ∀ r ∈ (db.listWebhooksForEscrow 1).filter fun w => w.ownerAddress = sampleAddress,
        r.ownerAddress ≠ (sampleEscrow sampleContract 1).provider := by
  have hescrow : ownedDb.getEscrow 1 = some ((sampleEscrow sampleContract 1).row 0) := by rfl
  obtain ⟨db, -, hrows, -⟩ := runs_register (E := openEnv) (w := ⟨ownedDb, ()⟩)
    ⟨"https://example.com/hook"⟩ ⟨1, .replicate 32 7, 0⟩ hescrow (Or.inr (Or.inl rfl)) (by decide)
    (by decide) (by rfl)
  have hempty : ownedDb.webhooks.rows = [] := by rfl
  obtain ⟨resp, a, hclock, hrun⟩ := exists_sampleSession db
  refine ⟨db, by rw [Db.webhooksOf, hrows, hempty]; rfl, ?_⟩
  refine (webhooks_of_unsigned readsTokens_sampleSession hrun (by decide)
    (by rw [hclock]; decide) ?_).2 2 _ _ _ rfl
  intro j login q hj heq
  -- the only login is that of the sample's address
  rcases j with _ | _ | _ | j
  · cases hj
  · cases hj
    exact absurd heq (by decide)
  · cases hj
  · cases hj

end Sample

end ConcordBackend
