import ConcordBackend.Api.Notifications
import ConcordBackend.Api.Response
import ConcordBackend.Library.Erasure
import ConcordBackend.Library.Outcomes

/-!
# Requests that fail

A handler ends with the first thing that goes wrong, and the one statement with which it
changes a table is its last (`job_closes`). A statement that fails has no effect (`SqlStep`). So a
request that fails has changed no table, and the service might as well not have served it
(`failed_requests_unserved`). The exception is a login: `POST /auth/verify` uses up its challenge
before it checks anything.
-/

namespace ConcordBackend

variable {crates : SessionCrates} {indexer : Crates} {jwtSecret : String}

/-! ### What goes wrong, and what is done -/

/-- A statement failed. -/
def Refused : Sigma Service.Reply → Prop
  | ⟨.sql _, .error _⟩ => True
  | _ => False

/-- A request changed a table. -/
def TableChange : Sigma Service.Reply → Prop
  | ⟨.sql (.insertWebhook _), .ok _⟩ => True
  | ⟨.sql (.deleteWebhook _ _), .ok deleted⟩ => deleted = true
  | _ => False

/-- A list query failed. -/
def RefusedList : Sigma Listing.Reply → Prop
  | ⟨.escrows _, .error _⟩ => True
  | ⟨.disputes _ _ _, .error _⟩ => True
  | _ => False

/-- The token of a login could not be encoded. -/
def Unissued (crates : AuthCrates) (jwtSecret : String) (req : AuthRequest) :
    Sigma AuthService.Reply → Prop
  | ⟨.utcNow, now⟩ => ∃ login : VerifyRequest, req = .verify login ∧
      crates.jwtEncode jwtSecret (jwtClaims login.address now) = none
  | _ => False

/-- What may go wrong with a job on the side of the server. -/
def Job.Fault (crates : SessionCrates) (jwtSecret : String) (job : Job) :
    Sigma Backend.Reply → Prop
  | ⟨.inl op, r⟩ =>
    ∃ req, job = .auth (.ok req) ∧ Unissued crates.toAuthCrates jwtSecret req ⟨op, r⟩
  | ⟨.inr (.inl op), r⟩ => Refused ⟨op, r⟩
  | ⟨.inr (.inr op), r⟩ => RefusedList ⟨op, r⟩

/-- What a request does to the tables. -/
def Job.Change : Sigma Backend.Reply → Prop
  | ⟨.inr (.inl op), r⟩ => TableChange ⟨op, r⟩
  | _ => False

/-- The errors that are answered 500. -/
def AppError.IsInternal (e : AppError) : Prop := e.statusAndMessage.1 = 500

/-- The results of the requests that change a table. -/
def JobResult.IsChange : JobResult → Prop
  | .webhook (.created _) => True
  | .webhook .deleted => True
  | _ => False

/-- The same for the webhook endpoints. -/
def WebhookResponse.IsChange : WebhookResponse → Prop
  | .created _ => True
  | .deleted => True
  | .listed _ => False

/-! ### The handlers end with what goes wrong -/

theorem not_tableChange_error {q : Query} {e : SqlError} :
    ¬ TableChange ⟨.sql q, .error e⟩ := by
  cases q with
  | _ => exact id

/-- The end of a request whose statement fails. -/
theorem refused_closing {q : Query} {α : Type} {A : α → Prop} {rest : Prop} (e : SqlError) :
    Prog.Closing Refused TableChange AppError.IsInternal A rest ⟨.sql q, .error e⟩
      (.fail (.database e) : ApiM α) := .fault trivial not_tableChange_error rfl rfl

theorem getEscrow_closes (escrowId : Int64) {A : EscrowDetail → Prop} :
    (getEscrow escrowId).Closes Refused TableChange AppError.IsInternal A := by
  intro found
  rcases found with e | _ | escrow
  · exact refused_closing e
  · exact .rest id id (by rintro ⟨⟩)
  · refine .rest id id fun listed => ?_
    rcases listed with e | milestones
    · exact refused_closing e
    · exact .rest id id trivial

theorem webhookRequest_closes (address : String) (req : WebhookRequest) :
    (req.serve address).Closes Refused TableChange AppError.IsInternal
      WebhookResponse.IsChange := by
  cases req with
  | register e req drawn =>
    rw [serve_register]
    split_ifs with hhttp
    · intro found
      rcases found with err | _ | escrow
      · exact refused_closing err
      · exact .rest id id (by rintro ⟨⟩)
      · refine .rest id id ?_
        change (if escrow.IsParty address then insertFor (drawn.row e address req.url)
          else .fail (.forbidden
            "only the escrow's client, provider, or arbitrator may register a webhook") :
          ApiM WebhookResponse).Closes _ _ _ _
        split_ifs with hparty
        · intro inserted
          rcases inserted with err | row
          · exact refused_closing err
          · exact .effect trivial id rfl trivial
        · rintro ⟨⟩
    · rintro ⟨⟩
  | list e =>
    rw [serve_list]
    intro listed
    rcases listed with err | rows
    · exact refused_closing err
    · exact .rest id id trivial
  | delete e webhookId =>
    rw [serve_delete]
    intro deleted
    rcases deleted with err | _ | _
    · exact refused_closing err
    · exact .rest id (by rintro ⟨⟩) (by rintro ⟨⟩)
    · exact .effect rfl id rfl trivial

/-- What the client got wrong. -/
def BlamesClient {α : Type} (r : Except AppError α) : Prop := ∀ e, r = .error e → ¬ e.IsInternal

theorem BlamesClient.ok {α : Type} (a : α) : BlamesClient (.ok a : Except AppError α) := by
  rintro e ⟨⟩

theorem BlamesClient.okOr {α : Type} (x : Option α) {e : AppError} (he : ¬ e.IsInternal) :
    BlamesClient (okOr x e) := by
  rcases x with _ | a
  · rintro e ⟨⟩
    exact he
  · exact .ok a

theorem BlamesClient.bind {α β : Type} {r : Except AppError α} {f : α → Except AppError β}
    (hr : BlamesClient r) (hf : ∀ a, BlamesClient (f a)) : BlamesClient (r >>= f) := by
  rcases r with e | a
  · rintro e ⟨⟩
    exact hr e rfl
  · exact hf a

theorem blamesClient_escrowFilter (query : ListEscrowsQuery) :
    BlamesClient (escrowFilter query) := by
  refine BlamesClient.bind ?_ fun status => .ok _
  unfold escrowStatus
  split
  · exact .ok _
  · split
    · exact .ok _
    · rintro e ⟨⟩ ⟨⟩

theorem blamesClient_disputeStatus (query : ListDisputesQuery) :
    BlamesClient (disputeStatus query) := by
  unfold disputeStatus
  split
  · exact .ok _
  · exact .ok _
  · split
    · exact .ok _
    · rintro e ⟨⟩ ⟨⟩

theorem blamesClient_checkSignature (authCrates : AuthCrates) (req : VerifyRequest) :
    BlamesClient (checkSignature authCrates req) := by
  refine (BlamesClient.okOr _ (by rintro ⟨⟩)).bind fun signature => ?_
  refine (BlamesClient.okOr _ (by rintro ⟨⟩)).bind fun publicKey => ?_
  refine (BlamesClient.okOr _ (by rintro ⟨⟩)).bind fun verifyingKey => ?_
  refine (BlamesClient.okOr _ (by rintro ⟨⟩)).bind fun bytes => ?_
  split
  · exact .ok ()
  · rintro e ⟨⟩ ⟨⟩

theorem listEscrows_closes (query : ListEscrowsQuery) {A : List EscrowRow → Prop} :
    (listEscrows query).Closes RefusedList (fun _ => False) AppError.IsInternal A := by
  refine (Prog.Closes.ofExcept (blamesClient_escrowFilter query)).bind_quiet fun filter r => ?_
  rcases r with e | escrows
  · exact .fault trivial id rfl rfl
  · exact .rest id id trivial

theorem listDisputes_closes (query : ListDisputesQuery) {A : List DisputeRow → Prop} :
    (listDisputes query).Closes RefusedList (fun _ => False) AppError.IsInternal A := by
  refine (Prog.Closes.ofExcept (blamesClient_disputeStatus query)).bind_quiet fun status r => ?_
  rcases r with e | disputes
  · exact .fault trivial id rfl rfl
  · exact .rest id id trivial

/-- The token of a login is encoded, or the login ends with an internal error. -/
theorem issueToken_closes {authCrates : AuthCrates} (req : VerifyRequest)
    {A : TokenResponse → Prop} : (issueToken authCrates jwtSecret req.address).Closes
      (Unissued authCrates jwtSecret (.verify req)) (fun _ => False) AppError.IsInternal A := by
  intro (now : DateTime)
  change Prog.Closing _ _ _ _ _ _ ((Prog.ofExcept (issueJwt authCrates jwtSecret req.address now)).bind
    fun token => Prog.done (TokenResponse.mk token))
  rcases hjwt : authCrates.jwtEncode jwtSecret (jwtClaims req.address now) with _ | token
  · rw [issueJwt, hjwt]
    exact .fault ⟨req, rfl, hjwt⟩ id rfl rfl
  · refine .rest ?_ id ?_
    · rintro ⟨login, heq, hnone⟩
      obtain rfl := AuthRequest.verify.inj heq
      cases hjwt.symm.trans hnone
    · change ((Prog.ofExcept (issueJwt authCrates jwtSecret req.address now)).bind _).Closes _ _ _ _
      rw [issueJwt, hjwt]
      trivial

theorem authRequest_closes {authCrates : AuthCrates} (req : AuthRequest)
    {A : AuthResponse → Prop} :
    (req.serve authCrates jwtSecret).Closes (Unissued authCrates jwtSecret req) (fun _ => False)
      AppError.IsInternal A := by
  cases req with
  | challenge req =>
    refine Prog.Closes.bind_quiet ?_ fun resp => trivial
    unfold challenge
    split_ifs
    · rintro ⟨⟩
    · exact fun issued => .rest id id trivial
  | verify req =>
    refine Prog.Closes.bind_quiet (fun (consumed : Timed Bool) => .rest id id ?_) fun resp => trivial
    change (if (!consumed.value) = true then _ else _ : AuthM TokenResponse).Closes _ _ _ _
    split_ifs
    · rintro ⟨⟩
    · exact (Prog.Closes.ofExcept (blamesClient_checkSignature authCrates req)).bind_quiet
        fun _ => issueToken_closes req

/-- A token is rejected for the sake of its client. -/
theorem authUser_closes (bearer : Option String) {A : String → Prop} :
    (authUser crates jwtSecret bearer).Closes (fun _ => False) (fun _ => False)
      AppError.IsInternal A := by
  refine (Prog.Closes.ofExcept (BlamesClient.okOr bearer ?_)).bind_quiet
    fun token (now : DateTime) => .rest id id ?_
  · rintro ⟨⟩
  · exact .ofExcept ((BlamesClient.okOr _ (by rintro ⟨⟩)).bind fun claims => .ok claims.sub)

/-! ### Every job -/

/-- Whether a job is a request. -/
def Job.IsRequest : Job → Prop
  | .poll _ => False
  | _ => True

/-- The statements of a request. -/
theorem Job.Issues.of_request {job : Job} {op : ServiceOp} (h : job.Issues op)
    (hjob : job.IsRequest) : ReadsEscrow op ∨ ServesWebhooks op := by
  cases job with
  | escrow => exact Or.inl h
  | webhook => exact Or.inr h
  | poll => exact hjob.elim
  | _ => exact h.elim

section Jobs

variable {job : Job} {α : Type} {A : α → Prop}

theorem onAuth_closes {p : AuthM α} {Fault : Sigma AuthService.Reply → Prop}
    (hfault : ∀ op r, job.Fault crates jwtSecret ⟨.inl op, r⟩ ↔ Fault ⟨op, r⟩)
    (hp : p.Closes Fault (fun _ => False) AppError.IsInternal A) :
    (onAuth p).Closes (job.Fault crates jwtSecret) Job.Change AppError.IsInternal A :=
  hp.inl hfault fun _ _ => Iff.rfl

theorem onService_closes {p : ApiM α}
    (hp : p.Closes Refused TableChange AppError.IsInternal A) :
    (onService p).Closes (job.Fault crates jwtSecret) Job.Change AppError.IsInternal A := by
  have hinl : (p.inl : Prog (Service.sum Listing) AppError α).Closes
      (fun x => job.Fault crates jwtSecret ⟨.inr x.1, x.2⟩) (fun x => Job.Change ⟨.inr x.1, x.2⟩)
      AppError.IsInternal A := hp.inl (fun _ _ => Iff.rfl) fun _ _ => Iff.rfl
  exact hinl.inr (fun _ _ => Iff.rfl) fun _ _ => Iff.rfl

theorem onLists_closes {p : Prog Listing AppError α}
    (hp : p.Closes RefusedList (fun _ => False) AppError.IsInternal A) :
    (onLists p).Closes (job.Fault crates jwtSecret) Job.Change AppError.IsInternal A := by
  have hinr : (p.inr : Prog (Service.sum Listing) AppError α).Closes
      (fun x => job.Fault crates jwtSecret ⟨.inr x.1, x.2⟩) (fun x => Job.Change ⟨.inr x.1, x.2⟩)
      AppError.IsInternal A := hp.inr (fun _ _ => Iff.rfl) fun _ _ => Iff.rfl
  exact hinr.inr (fun _ _ => Iff.rfl) fun _ _ => Iff.rfl

end Jobs

/-- **Every request ends with what goes wrong, and with what it does.** -/
theorem job_closes {job : Job} (hjob : job.IsRequest) :
    (Job.serve crates indexer jwtSecret job).Closes (job.Fault crates jwtSecret) Job.Change
      AppError.IsInternal JobResult.IsChange := by
  cases job with
  | auth req =>
    rcases req with rejection | req
    · trivial
    · have hfault : ∀ op r, Job.Fault crates jwtSecret (.auth (.ok req)) ⟨.inl op, r⟩ ↔
          Unissued crates.toAuthCrates jwtSecret req ⟨op, r⟩ := by
        refine fun op r => ⟨?_, fun h => ⟨req, rfl, h⟩⟩
        rintro ⟨req', heq, h⟩
        cases heq
        exact h
      exact onAuth_closes hfault ((authRequest_closes req).bind_quiet fun resp => trivial)
  | escrows query =>
    rcases query with rejection | query
    · trivial
    · exact onLists_closes ((listEscrows_closes query).bind_quiet fun rows => trivial)
  | escrow escrowId =>
    rcases escrowId with rejection | escrowId
    · trivial
    · exact onService_closes ((getEscrow_closes escrowId).bind_quiet fun detail => trivial)
  | disputes query =>
    rcases query with rejection | query
    · trivial
    · exact onLists_closes ((listDisputes_closes query).bind_quiet fun rows => trivial)
  | webhook bearer req =>
    have hfault : ∀ op r, Job.Fault crates jwtSecret (.webhook bearer req) ⟨.inl op, r⟩ ↔ False :=
      fun op r => iff_of_false (by rintro ⟨req', ⟨⟩, -⟩) id
    refine (onAuth_closes hfault (authUser_closes bearer)).bind_quiet fun address => ?_
    rcases req with rejection | req
    · trivial
    · refine onService_closes ((webhookRequest_closes address req).bind (fun resp => trivial) ?_)
      rintro (webhook | rows | _) hresp
      · exact ⟨_, rfl, trivial⟩
      · exact hresp.elim
      · exact ⟨_, rfl, trivial⟩
  | poll escrowContractId => exact hjob.elim

/-! ### Requests that fail change nothing -/

/-- A request that has failed, or was rejected before its handler ran. A login is left out, as it
may have used up a challenge. -/
def failedRequest (ts : List (Job × BackendM JobResult)) (i : ℕ) : Bool :=
  match ts[i]? with
  | some (.auth (.ok (.verify _)), _) => false
  | some (.poll _, _) => false
  | some (_, .fail _) => true
  | some (_, .done (.rejected _)) => true
  | _ => false

/-- An answer that left the tables and the challenges alone. -/
inductive LeavesAlone : Sigma Backend.Reply → Prop where
  | clock (now : DateTime) : LeavesAlone ⟨.inl .utcNow, now⟩
  | service {op : ServiceOp} {r : op.Reply} (hop : ReadsEscrow op ∨ ServesWebhooks op)
      (hquiet : ¬ TableChange ⟨op, r⟩) : LeavesAlone ⟨.inr (.inl op), r⟩
  | list {op : ListOp} (r : op.Reply) : LeavesAlone ⟨.inr (.inr op), r⟩

/-- A statement of a request that has changed no table. -/
theorem eq_of_not_tableChange {E : Env} {op : ServiceOp} {r : op.Reply} {w w' : World E}
    (hop : ReadsEscrow op ∨ ServesWebhooks op) (hquiet : ¬ TableChange ⟨op, r⟩)
    (h : E.unordered op w r w') : w' = w := by
  obtain ⟨r₀, h₀⟩ := exists_handler_of_unordered h
  rcases hop with hop | hop
  · cases hop with
    | escrow e => exact World.eq_of (h₀.1.eq_of_reads fun _ => ⟨_, rfl⟩) h₀.2
    | milestones e => exact World.eq_of (h₀.1.eq_of_reads fun _ => ⟨_, rfl⟩) h₀.2
  · cases hop with
    | escrow e => exact World.eq_of (h₀.1.eq_of_reads fun _ => ⟨_, rfl⟩) h₀.2
    | list e => exact World.eq_of (h₀.1.eq_of_reads fun _ => ⟨_, rfl⟩) h₀.2
    | insert webhook =>
      rcases r with e | inserted
      · exact World.eq_of h.1.error_inv.1 h.2
      · exact absurd trivial hquiet
    | delete webhookId owner =>
      rcases r with e | deleted
      · exact World.eq_of h.1.error_inv.1 h.2
      · obtain ⟨now, hexec⟩ := h.1.ok_inv
        obtain ⟨hdeleted, hdb⟩ := Prod.mk.inj (Except.ok.inj hexec)
        have hnone : (w.db.deleteWebhook webhookId owner).1 = false :=
          hdeleted.trans (Bool.eq_false_of_not_eq_true hquiet)
        have hsame : w.db.deleteWebhook webhookId owner = (false, w.db) := by
          refine deleteWebhook_of_notOwn fun row hrow hid howner => ?_
          have hrow' := List.any_eq_false.mp hnone row hrow
          simp [hid, howner] at hrow'
        exact World.eq_of (hdb.symm.trans (congrArg Prod.snd hsame)) h.2

/-- What a request that failed ends with. -/
def Failed (q : BackendM JobResult) : Prop :=
  (∃ e, q = .fail e) ∨ ∃ rejection, q = .done (.rejected rejection)

/-- What has failed is a request other than a login. -/
theorem failedRequest_spec {ts : List (Job × BackendM JobResult)} {i : ℕ}
    (h : failedRequest ts i = true) : ∃ job q, ts[i]? = some (job, q) ∧
      (∀ login, job ≠ .auth (.ok (.verify login))) ∧ job.IsRequest ∧ Failed q := by
  have hrequest : ∀ job : Job, (∀ contractId, job = .poll contractId → False) → job.IsRequest := by
    intro job hpoll
    cases job with
    | poll contractId => exact hpoll contractId rfl
    | _ => trivial
  unfold failedRequest at h
  split at h
  next => cases h
  next => cases h
  next job e hlogin hpoll hi => exact ⟨job, _, hi, hlogin, hrequest job hpoll, Or.inl ⟨e, rfl⟩⟩
  next job rejection hlogin hpoll hi =>
    exact ⟨job, _, hi, hlogin, hrequest job hpoll, Or.inr ⟨rejection, rfl⟩⟩
  next => cases h

/-- A request for a challenge that failed has not got to the challenge store. -/
theorem challenge_leads_failed {req : ChallengeRequest} {q : BackendM JobResult}
    {tr : Backend.Trace} (hq : Failed q)
    (h : Leads (Job.serve crates indexer jwtSecret (.auth (.ok (.challenge req)))) tr q) :
    tr = [] := by
  have hserve : Leads (onAuth (((challenge crates.toAuthCrates req).bind fun resp =>
    .done (.challenge resp)).bind fun resp => .done (.auth resp))) tr q := h
  unfold challenge at hserve
  split_ifs at hserve
  · exact hserve.fail_inv.1
  · rcases Runs.call_inv hserve with ⟨hnil, -, -⟩ | ⟨issued, _, tr', -, -, hrest⟩
    · exact hnil
    · -- once a challenge is issued, the request has succeeded
      obtain ⟨-, rfl, -⟩ := hrest.done_inv
      rcases hq with ⟨e, heq⟩ | ⟨rejection, heq⟩
      · cases heq
      · cases heq

/-- A failed request leaves things alone. -/
theorem leavesAlone_of_failed {job : Job} {q : BackendM JobResult} {tr : Backend.Trace}
    (hlogin : ∀ login, job ≠ .auth (.ok (.verify login))) (hjob : job.IsRequest)
    (hq : Failed q) (h : Leads (Job.serve crates indexer jwtSecret job) tr q) :
    ∀ x ∈ tr, LeavesAlone x := by
  by_cases hauth : ∃ req, job = .auth req
  · -- a request for a challenge, or one that was rejected
    obtain ⟨rejection | req | login, rfl⟩ := hauth
    · obtain ⟨rfl, -, -⟩ := h.done_inv
      exact fun x hx => by cases hx
    · obtain rfl := challenge_leads_failed hq h
      exact fun x hx => by cases hx
    · exact absurd rfl (hlogin login)
  have hauth : ∀ req, job ≠ .auth req := fun req heq => hauth ⟨req, heq⟩
  rintro ⟨op | op | op, r⟩ hx
  · obtain rfl : op = .utcNow := h.only (job_only job) _ hx hauth
    exact .clock r
  · have hissues : job.Issues op := h.only (job_only job) _ hx
    refine .service (hissues.of_request hjob) fun hchange => ?_
    obtain ⟨a, rfl, hchanged⟩ := (job_closes hjob).effect h hx hchange
    rcases hq with ⟨e, heq⟩ | ⟨rejection, heq⟩
    · cases heq
    · obtain rfl := Prog.done.inj heq
      exact hchanged
  · exact .list r

/-- The worlds of two runs with the same challenges and database, the clock of the second not
being ahead. -/
def Lags {E : Env} (w v : AuthWorld × World E) : Prop :=
  w.1.challenges = v.1.challenges ∧ v.1.clock ≤ w.1.clock ∧ w.2 = v.2

theorem Lags.kept {E : Env} (op : Backend.Op) (w : AuthWorld × World E) (r : Backend.Reply op)
    (w' v : AuthWorld × World E) (h : E.backend op w r w') (hv : Lags w v) :
    ∃ v', E.backend op v r v' ∧ Lags w' v' := by
  obtain ⟨⟨challenges, clock⟩, world⟩ := v
  obtain ⟨⟨challenges', clock'⟩, world'⟩ := w'
  obtain ⟨rfl, hclock, rfl⟩ := hv
  rcases op with op | op
  · obtain ⟨hop, rfl⟩ := h
    refine ⟨(⟨challenges', clock'⟩, w.2), ⟨?_, rfl⟩, rfl, Int.le_refl _, rfl⟩
    cases op with
    | issue address => exact ⟨Int.le_trans hclock hop.1, hop.2⟩
    | verifyAndConsume address nonce => exact ⟨Int.le_trans hclock hop.1, hop.2⟩
    | utcNow => exact ⟨Int.le_trans hclock hop.1, hop.2⟩
  · obtain ⟨hop, heq⟩ := h
    have hstore : challenges' = w.1.challenges := congrArg AuthWorld.challenges heq
    have hread : clock' = w.1.clock := congrArg AuthWorld.clock heq
    exact ⟨(⟨w.1.challenges, clock⟩, world'), ⟨hop, rfl⟩, hstore,
      Int.le_trans hclock (Int.le_of_eq hread.symm), rfl⟩

theorem Lags.framed {E : Env} (op : Backend.Op) (w : AuthWorld × World E) (r : Backend.Reply op)
    (w' v : AuthWorld × World E) (halone : LeavesAlone ⟨op, r⟩) (h : E.backend op w r w')
    (hv : Lags w v) : Lags w' v := by
  obtain ⟨hchallenges, hclock, hworld⟩ := hv
  cases halone with
  | clock =>
    obtain ⟨⟨hread, hnow, hsame⟩, hrest⟩ := h
    refine ⟨hsame.trans hchallenges, Int.le_trans hclock ?_, hrest.trans hworld⟩
    rw [hnow]
    exact hread
  | service hop hquiet =>
    obtain ⟨hstep, hauth⟩ := h
    have hdb := eq_of_not_tableChange hop hquiet hstep
    rw [Lags, hauth, hdb]
    exact ⟨hchallenges, hclock, hworld⟩
  | @list op =>
    obtain ⟨hstep, hauth⟩ := h
    have hdb : w'.2 = w.2 := by
      cases op with
      | escrows filter => exact hstep.1
      | disputes status limit offset => exact hstep.1
    rw [Lags, hauth, hdb]
    exact ⟨hchallenges, hclock, hworld⟩

/-- **A request that failed might as well not have been served.** From any run of the service
the requests that have failed can be taken out, but for the logins: all other requests and polls
are answered the same, and the database, the provider and the challenges end up the same. -/
theorem failed_requests_unserved {E : Env} {a a' : AuthWorld} {w w' : World E}
    {hist : Backend.History} {ts : List (Job × BackendM JobResult)}
    (h : Serves E.backend (Job.serve crates indexer jwtSecret) (a, w) hist ts (a', w')) :
    ∃ b : AuthWorld, b.challenges = a'.challenges ∧ b.clock ≤ a'.clock ∧
      Serves E.backend (Job.serve crates indexer jwtSecret) (a, w)
        (hist.without (failedRequest ts))
        (unserved (Job.serve crates indexer jwtSecret) (failedRequest ts) ts) (b, w') := by
  have hstart : Lags (a, w) (a, w) := ⟨rfl, Int.le_refl _, rfl⟩
  have hfailed : ∀ x ∈ hist, failedRequest ts x.1 = true → LeavesAlone x.2 := by
    intro x hx hfailed
    obtain ⟨job, q, hi, hlogin, hjob, hq⟩ := failedRequest_spec hfailed
    exact leavesAlone_of_failed hlogin hjob hq (h.leads hi) x.2 (Signature.History.mem_of.mpr hx)
  obtain ⟨⟨b, v⟩, hrun, hchallenges, hclock, rfl⟩ := h.erase Lags.kept Lags.framed hfailed hstart
  exact ⟨b, hchallenges.symm, hclock, hrun⟩

/-! ### A sample run -/

section Sample

/-- A request that filters by a client with U+0000 in its name. -/
def nulQuery : ListEscrowsQuery := ⟨some "\x00", none, none, none, none⟩

/-- The filter of the request. -/
def nulFilter : EscrowFilter := ⟨some "\x00", none, none, limitOf none, offsetOf none⟩

/-- A poll and two requests for an escrow go on around each other. The statement of the first
request is failed by the connection, and a list of escrows by the server. -/
def busyHistory : Backend.History :=
  [(0, ⟨.inr (.inl (.sql .getCursor)), (.ok (0, none) : Except SqlError (Int64 × Option String))⟩),
    (2, ⟨.inr (.inl (.sql (.getEscrow 1))), (.ok (ownedDb.getEscrow 1) :
      Except SqlError (Option EscrowRow))⟩),
    (1, ⟨.inr (.inl (.sql (.getEscrow 1))), (.error .transient :
      Except SqlError (Option EscrowRow))⟩),
    (3, ⟨.inr (.inr (.escrows nulFilter)), (.error .characterNotInRepertoire :
      Except SqlError (List EscrowRow))⟩),
    (2, ⟨.inr (.inl (.sql (.listMilestones 1))), (.ok [] : Except SqlError (List MilestoneRow))⟩),
    (0, ⟨.inr (.inl .getLatestLedger), (.ok 17281 : Except Error UInt32)⟩)]

/-- The jobs of the sample, with what is left of the poll. -/
def busyJobs (poll : BackendM JobResult) (detail : EscrowDetail) :
    List (Job × BackendM JobResult) :=
  [(.poll sampleContract, poll), (.escrow (.ok 1), .fail (.database .transient)),
    (.escrow (.ok 1), .done (.escrow detail)),
    (.escrows (.ok nulQuery), .fail (.database .characterNotInRepertoire))]

/-- The world of the sample, which none of this changes. -/
def busyWorld : AuthWorld × World sampleFeed.env := (⟨.new, sampleTime 0⟩, ⟨ownedDb, ()⟩)

/-- A query of the sample. -/
theorem busy_sql (q : Query) (a : q.Reply) (hexec : q.exec 0 ownedDb = .ok (a, ownedDb)) :
    sampleFeed.env.backend (.inr (.inl (.sql q))) busyWorld (.ok a : Except SqlError q.Reply)
      busyWorld := by
  have hstep : sampleFeed.env.handler (.sql q) ⟨ownedDb, ()⟩ (.ok a : Except SqlError q.Reply)
      ⟨ownedDb, ()⟩ := ⟨.ok hexec, rfl⟩
  exact ⟨unordered_of_handler hstep, rfl⟩

theorem exists_busy : ∃ (poll : BackendM JobResult) (detail : EscrowDetail),
    Serves sampleFeed.env.backend (Job.serve sampleSession sampleCrates "secret") busyWorld
      busyHistory (busyJobs poll detail) busyWorld := by
  have hfault : sampleFeed.env.backend (.inr (.inl (.sql (.getEscrow 1)))) busyWorld
      (.error .transient : Except SqlError (Option EscrowRow)) busyWorld :=
    ⟨⟨.fault trivial, rfl⟩, rfl⟩
  have hnul : sampleFeed.env.backend (.inr (.inr (.escrows nulFilter))) busyWorld
      (.error .characterNotInRepertoire : Except SqlError (List EscrowRow)) busyWorld := by
    refine ⟨⟨rfl, Or.inr ⟨rfl, fun h => ?_⟩⟩, rfl⟩
    cases h "\x00" List.mem_cons_self
  have hlatest : sampleFeed.env.backend (.inr (.inl .getLatestLedger)) busyWorld
      (.ok 17281 : Except Error UInt32) busyWorld := ⟨⟨rfl, fun _ _ => trivial⟩, rfl⟩
  have hstart : Serves sampleFeed.env.backend (Job.serve sampleSession sampleCrates "secret")
      busyWorld [] [] busyWorld := .start
  have harrived := (((hstart.arrive (.poll sampleContract)).arrive (.escrow (.ok 1))).arrive
    (.escrow (.ok 1))).arrive (.escrows (.ok nulQuery))
  have hread := (harrived.answer (i := 0) rfl (busy_sql .getCursor (0, none) rfl)).answer (i := 2)
    rfl (busy_sql (.getEscrow 1) (ownedDb.getEscrow 1) rfl)
  have hfailed := (hread.answer (i := 1) rfl hfault).answer (i := 3) rfl hnul
  exact ⟨_, _, (hfailed.answer (i := 2) rfl (busy_sql (.listMilestones 1) [] rfl)).answer (i := 0)
    rfl hlatest⟩

/-- Without its failed requests the sample has only seen them arrive, and the poll and the other
request are answered the same. -/
theorem failed_requests_unserved_sample :
    ∃ (poll : BackendM JobResult) (detail : EscrowDetail) (b : AuthWorld),
    busyHistory.without (failedRequest (busyJobs poll detail)) =
      [(0, ⟨.inr (.inl (.sql .getCursor)),
          (.ok (0, none) : Except SqlError (Int64 × Option String))⟩),
        (2, ⟨.inr (.inl (.sql (.getEscrow 1))), (.ok (ownedDb.getEscrow 1) :
          Except SqlError (Option EscrowRow))⟩),
        (2, ⟨.inr (.inl (.sql (.listMilestones 1))),
          (.ok [] : Except SqlError (List MilestoneRow))⟩),
        (0, ⟨.inr (.inl .getLatestLedger), (.ok 17281 : Except Error UInt32)⟩)] ∧
      b.challenges = ChallengeStore.new ∧
      Serves sampleFeed.env.backend (Job.serve sampleSession sampleCrates "secret") busyWorld
        (busyHistory.without (failedRequest (busyJobs poll detail)))
        (unserved (Job.serve sampleSession sampleCrates "secret")
          (failedRequest (busyJobs poll detail)) (busyJobs poll detail)) (b, ⟨ownedDb, ()⟩) := by
  obtain ⟨poll, detail, h⟩ := exists_busy
  obtain ⟨b, hchallenges, -, hserves⟩ := failed_requests_unserved h
  exact ⟨poll, detail, b, rfl, hchallenges, hserves⟩

end Sample

end ConcordBackend
