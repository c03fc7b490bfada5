import ConcordBackend.Api.Detail
import ConcordBackend.Api.Disputes
import ConcordBackend.Api.Escrows
import ConcordBackend.Api.Owners
import ConcordBackend.Api.Session
import ConcordBackend.Library.Clients
import ConcordBackend.Library.Sum

/-!
# The whole service

`main` starts one indexer and one HTTP server over one database, one challenge store and one
clock. Here they are one server: its jobs are the requests to the routes of `router` and the
polls of the indexer, and the operations of all jobs are answered one at a time, in any order.

A request comes with what axum has extracted from its path, its query and its body, or with
the rejection that axum answers it with. Extractors run in the order of the handler's
arguments, so `AuthUser` comes before both of them.
-/

namespace ConcordBackend

/-! ### The list queries as operations -/

/-- The list queries of `db.rs`. -/
inductive ListOp where
  | escrows (filter : EscrowFilter)
  | disputes (status : Option String) (limit offset : Int)

/-- What the list queries return. -/
def ListOp.Reply : ListOp → Type
  | .escrows _ => Except SqlError (List EscrowRow)
  | .disputes _ _ _ => Except SqlError (List DisputeRow)

/-- The signature of the list queries. -/
abbrev Listing : Signature := ⟨ListOp, ListOp.Reply⟩

/-- The texts a list query is bound. -/
def ListOp.texts : ListOp → List String
  | .escrows filter => filter.client.toList ++ filter.provider.toList ++ filter.status.toList
  | .disputes status _ _ => status.toList

/-- The texts a list query is bound can all be bound. -/
def ListOp.Bindable (op : ListOp) : Prop := ∀ text ∈ op.texts, storable text = true

/-- Why a list query fails: the connection fails it, or it is bound a text the server refuses. -/
def ListOp.FailsWith (op : ListOp) (e : SqlError) : Prop :=
  e = .transient ∨ e = .characterNotInRepertoire ∧ ¬ op.Bindable

/-- A list query returns any page its `ORDER BY` allows, or fails. -/
def Env.listing (E : Env) : Handler Listing (World E)
  | .escrows filter, w, r, w' => w' = w ∧ match r with
      | .ok page => (ListOp.escrows filter).Bindable ∧ w.db.ListEscrows filter page
      | .error e => (ListOp.escrows filter).FailsWith e
  | .disputes status limit offset, w, r, w' => w' = w ∧ match r with
      | .ok page => (ListOp.disputes status limit offset).Bindable ∧
        w.db.ListDisputes status limit offset page
      | .error e => (ListOp.disputes status limit offset).FailsWith e

/-- `list_escrows`. -/
def listEscrows (query : ListEscrowsQuery) : Prog Listing AppError (List EscrowRow) :=
  (Prog.ofExcept (escrowFilter query)).bind fun filter =>
    .call (.escrows filter) fun
      | .ok escrows => .done escrows
      | .error e => .fail (.database e)

/-- `list_disputes`. -/
def listDisputes (query : ListDisputesQuery) : Prog Listing AppError (List DisputeRow) :=
  (Prog.ofExcept (disputeStatus query)).bind fun status =>
    .call (.disputes status (limitOf query.limit) (offsetOf query.offset)) fun
      | .ok disputes => .done disputes
      | .error e => .fail (.database e)

/-! ### Jobs -/

/-- The operations of the service: those of the challenge store and the clock, the statements
and the calls of the RPC, and the list queries. -/
abbrev Backend : Signature := AuthService.sum (Service.sum Listing)

/-- Code of the service. -/
abbrev BackendM := Prog Backend AppError

/-- What axum answers where an extractor rejects a request. -/
structure Rejection where
  status : ℕ
  body : String
  deriving DecidableEq, Repr

/-- What the service does: the requests to its routes, each with what was extracted from it,
and the polls of the indexer. -/
inductive Job where
  /-- `POST /auth/challenge` and `POST /auth/verify` -/
  | auth (req : Except Rejection AuthRequest)
  /-- `GET /escrows` -/
  | escrows (query : Except Rejection ListEscrowsQuery)
  /-- `GET /escrows/{id}` -/
  | escrow (id : Except Rejection Int64)
  /-- `GET /disputes` -/
  | disputes (query : Except Rejection ListDisputesQuery)
  /-- the routes under `/escrows/{id}/webhooks`, with the bearer token -/
  | webhook (bearer : Option String) (req : Except Rejection WebhookRequest)
  /-- `poll_once`, for the contract of the configuration -/
  | poll (escrowContractId : String)

/-- What a job ends with. -/
inductive JobResult where
  | auth (resp : AuthResponse)
  | escrows (rows : List EscrowRow)
  | escrow (detail : EscrowDetail)
  | disputes (rows : List DisputeRow)
  | webhook (resp : WebhookResponse)
  | rejected (rejection : Rejection)
  | polled (processed : Except Error ℕ)

/-- A program over the challenge store and the clock. -/
def onAuth {α : Type} (p : AuthM α) : BackendM α := p.inl

/-- A program over statements and the RPC. -/
def onService {ε α : Type} (p : Prog Service ε α) : Prog Backend ε α :=
  (p.inl : Prog (Service.sum Listing) ε α).inr

/-- A program over list queries. -/
def onLists {α : Type} (p : Prog Listing AppError α) : BackendM α :=
  (p.inr : Prog (Service.sum Listing) AppError α).inr

/-- A handler runs where the extractors before it have returned. -/
def extracted {α : Type} (x : Except Rejection α) (handler : α → BackendM JobResult) :
    BackendM JobResult :=
  match x with
  | .ok a => handler a
  | .error rejection => .done (.rejected rejection)

/-- A webhook endpoint once its caller is known. -/
def webhookFor (req : Except Rejection WebhookRequest) (address : String) : BackendM JobResult :=
  extracted req fun req => onService ((req.serve address).bind fun resp => .done (.webhook resp))

variable (crates : SessionCrates) (indexer : Crates) (jwtSecret : String)

/-- The program of a job. -/
def Job.serve : Job → BackendM JobResult
  | .auth req => extracted req fun req =>
    onAuth ((req.serve crates.toAuthCrates jwtSecret).bind fun resp => .done (.auth resp))
  | .escrows query => extracted query fun query =>
    onLists ((listEscrows query).bind fun rows => .done (.escrows rows))
  | .escrow id => extracted id fun id =>
    onService ((getEscrow id).bind fun detail => .done (.escrow detail))
  | .disputes query => extracted query fun query =>
    onLists ((listDisputes query).bind fun rows => .done (.disputes rows))
  | .webhook bearer req => (onAuth (authUser crates jwtSecret bearer)).bind (webhookFor req)
  | .poll escrowContractId =>
    onService ((pollOnce indexer escrowContractId).attempt.bind fun r => .done (.polled r))

/-- What surrounds the service answers its operations. -/
def Env.backend (E : Env) : Handler Backend (AuthWorld × World E) :=
  Handler.sum authHandler.first (Handler.sum E.unordered E.listing).second

/-- The token a job presents. -/
def Job.bearer : Job → Option String
  | .webhook bearer _ => bearer
  | _ => none

/-- Clients do not forge tokens: who presents one that `jsonwebtoken` accepts has been answered
it before, in the same run. Tokens of a process that ran before under the same secret are
accepted too, and not of this kind. -/
def TokensKnown (ts : List (Job × BackendM JobResult)) (job : Job) : Prop :=
  ∀ token ∈ job.bearer, (∃ now, (crates.jwtDecode jwtSecret token now).isSome) →
    ∃ (j : ℕ) (req : VerifyRequest),
      ts[j]? = some (Job.auth (.ok (.verify req)), Prog.done (.auth (.token ⟨token⟩)))

/-! ### The list endpoints -/

section Lists

variable {E : Env} {w w' : World E} {tr : Listing.Trace}

/-- **What the list of escrows is answered.** -/
theorem listEscrows_of_runs {query : ListEscrowsQuery} {q : Prog Listing AppError (List EscrowRow)}
    (h : Runs E.listing (listEscrows query) w tr q w') (hq : q.Finished) :
    w' = w ∧ ∃ r, q = Prog.ofExcept r ∧ ListEscrows w.db query r := by
  rcases hfilter : escrowFilter query with e | filter
  · rw [listEscrows, hfilter] at h
    obtain ⟨-, rfl, rfl⟩ := h.fail_inv
    exact ⟨rfl, .error e, rfl, .invalid hfilter⟩
  · rw [listEscrows, hfilter] at h
    obtain ⟨r, w₁, tr', ⟨rfl, hr⟩, rfl, hrest⟩ := Runs.call_inv_of_ne h fun heq => by
      rw [heq] at hq
      exact hq
    rcases r with e | page
    · obtain ⟨-, rfl, rfl⟩ := hrest.fail_inv
      exact ⟨rfl, .error (.database e), rfl, .failed e⟩
    · obtain ⟨-, rfl, rfl⟩ := hrest.done_inv
      exact ⟨rfl, .ok page, rfl, .page hfilter hr.2⟩

/-- **What the list of disputes is answered.** -/
theorem listDisputes_of_runs {query : ListDisputesQuery}
    {q : Prog Listing AppError (List DisputeRow)}
    (h : Runs E.listing (listDisputes query) w tr q w') (hq : q.Finished) :
    w' = w ∧ ∃ r, q = Prog.ofExcept r ∧ ListDisputes w.db query r := by
  rcases hstatus : disputeStatus query with e | status
  · rw [listDisputes, hstatus] at h
    obtain ⟨-, rfl, rfl⟩ := h.fail_inv
    exact ⟨rfl, .error e, rfl, .invalid hstatus⟩
  · rw [listDisputes, hstatus] at h
    obtain ⟨r, w₁, tr', ⟨rfl, hr⟩, rfl, hrest⟩ := Runs.call_inv_of_ne h fun heq => by
      rw [heq] at hq
      exact hq
    rcases r with e | page
    · obtain ⟨-, rfl, rfl⟩ := hrest.fail_inv
      exact ⟨rfl, .error (.database e), rfl, .failed e⟩
    · obtain ⟨-, rfl, rfl⟩ := hrest.done_inv
      exact ⟨rfl, .ok page, rfl, .page hstatus hr.2⟩

end Lists

end ConcordBackend
