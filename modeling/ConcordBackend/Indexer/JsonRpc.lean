import ConcordBackend.Indexer.Rpc
import ConcordBackend.Error
import ConcordBackend.Library.Struct

/-!
# JSON-RPC

How `indexer/rpc.rs` writes its requests and reads the responses to them. `call` returns a result
exactly where the body of the response is a JSON value that shows the result and no error
(`call_eq_ok_iff`), and for the results of `get_events` and `get_latest_ledger` what shows them
is a grammar (`GetEventsResult.Shows`, `GetLatestLedgerResult.Shows`) that leaves the order of
the members open and lets other members stand among them.
-/

namespace ConcordBackend

open Json

/-- What the client takes from `serde_json` and `chrono`. -/
structure JsonCrates where
  /-- `serde_json::from_slice`, as far as the text of a value -/
  parse : List UInt8 → Option Json
  /-- `impl Deserialize for DateTime<Utc>`, from a string -/
  dateTime : String → Option DateTime

/-! ### Events -/

/-- The fields of an `RpcEvent`. -/
inductive RpcEvent.Field where
  | contractId
  | ledger
  | ledgerClosedAt
  | id
  | topic
  | value
  | inSuccessfulContractCall
  deriving DecidableEq

namespace RpcEvent

/-- `impl Deserialize for RpcEvent`. -/
def schema : Schema where
  Field := RpcEvent.Field
  fields := [.contractId, .ledger, .ledgerClosedAt, .id, .topic, .value, .inSuccessfulContractCall]
  complete f := by cases f <;> decide
  name
    | .contractId => "contractId"
    | .ledger => "ledger"
    | .ledgerClosedAt => "ledgerClosedAt"
    | .id => "id"
    | .topic => "topic"
    | .value => "value"
    | .inSuccessfulContractCall => "inSuccessfulContractCall"
  names_nodup := by decide
  Value
    | .ledger => UInt32
    | .ledgerClosedAt => DateTime
    | .topic => List String
    | .inSuccessfulContractCall => Bool
    | _ => String
  missing _ := none

/-- The struct of the fields. -/
def ofRecord : schema.Record ≃ RpcEvent where
  toFun r := ⟨r .contractId, r .ledger, r .ledgerClosedAt, r .id, r .topic, r .value,
    r .inSuccessfulContractCall⟩
  invFun e
    | .contractId => e.contractId
    | .ledger => e.ledger
    | .ledgerClosedAt => e.ledgerClosedAt
    | .id => e.id
    | .topic => e.topic
    | .value => e.value
    | .inSuccessfulContractCall => e.inSuccessfulContractCall
  left_inv r := by
    funext f
    cases f <;> rfl
  right_inv _ := rfl

/-- How the fields of an event are read. -/
def reader (json : JsonCrates) : schema.Reader
  | .contractId => readString
  | .ledger => readU32
  | .ledgerClosedAt => fun value => (readString value).bind json.dateTime
  | .id => readString
  | .topic => readList readString
  | .value => readString
  | .inSuccessfulContractCall => readBool

/-- How the fields of an event are shown. -/
def shown (json : JsonCrates) : schema.Shown
  | .contractId, value, s => value = .str s
  | .ledger, value, n => value = .num (UInt32.toNat n)
  | .ledgerClosedAt, value, t => ∃ s, value = .str s ∧ json.dateTime s = some t
  | .id, value, s => value = .str s
  | .topic, value, l => ∃ values, value = .arr values ∧ List.Forall₂ (fun v s => v = .str s) values l
  | .value, value, s => value = .str s
  | .inSuccessfulContractCall, value, b => value = .bool b

/-- Read an event. -/
def read (json : JsonCrates) : Json → Option RpcEvent := schema.decodeAs (reader json) ofRecord

/-- The value shows an event. -/
def Shows (json : JsonCrates) : Json → RpcEvent → Prop := schema.ShowsAs ofRecord (shown json)

theorem read_eq_some {json : JsonCrates} {value : Json} {e : RpcEvent} :
    read json value = some e ↔ Shows json value e := by
  refine Schema.decodeAs_iff fun f value a => ?_
  cases f with
  | contractId => exact readString_eq_some
  | ledger => exact readU32_eq_some
  | ledgerClosedAt =>
    refine Option.bind_eq_some_iff.trans ?_
    simp only [readString_eq_some]
    rfl
  | id => exact readString_eq_some
  | topic => exact readList_eq_some fun _ _ => readString_eq_some
  | value => exact readString_eq_some
  | inSuccessfulContractCall => exact readBool_eq_some

end RpcEvent

/-! ### Results -/

/-- The fields of a `GetEventsResult`. -/
inductive GetEventsResult.Field where
  | events
  | latestLedger
  | cursor
  deriving DecidableEq

namespace GetEventsResult

/-- `impl Deserialize for GetEventsResult`. -/
def schema : Schema where
  Field := GetEventsResult.Field
  fields := [.events, .latestLedger, .cursor]
  complete f := by cases f <;> decide
  name
    | .events => "events"
    | .latestLedger => "latestLedger"
    | .cursor => "cursor"
  names_nodup := by decide
  Value
    | .events => List RpcEvent
    | .latestLedger => UInt32
    | .cursor => Option String
  missing
    | .events => none
    | .latestLedger => none
    | .cursor => some none

/-- The struct of the fields. -/
def ofRecord : schema.Record ≃ GetEventsResult where
  toFun r := ⟨r .events, r .latestLedger, r .cursor⟩
  invFun page
    | .events => page.events
    | .latestLedger => page.latestLedger
    | .cursor => page.cursor
  left_inv r := by
    funext f
    cases f <;> rfl
  right_inv _ := rfl

/-- How the fields of a page are read. -/
def reader (json : JsonCrates) : schema.Reader
  | .events => readList (RpcEvent.read json)
  | .latestLedger => readU32
  | .cursor => readOption readString

/-- How the fields of a page are shown. -/
def shown (json : JsonCrates) : schema.Shown
  | .events, value, l => ∃ values, value = .arr values ∧ List.Forall₂ (RpcEvent.Shows json) values l
  | .latestLedger, value, n => value = .num (UInt32.toNat n)
  | .cursor, value, o => ShowsOption (fun v s => v = .str s) value o

/-- Read a page. -/
def read (json : JsonCrates) : Json → Option GetEventsResult :=
  schema.decodeAs (reader json) ofRecord

/-- The value shows a page. -/
def Shows (json : JsonCrates) : Json → GetEventsResult → Prop :=
  schema.ShowsAs ofRecord (shown json)

theorem read_eq_some {json : JsonCrates} {value : Json} {page : GetEventsResult} :
    read json value = some page ↔ Shows json value page := by
  refine Schema.decodeAs_iff fun f value a => ?_
  cases f with
  | events => exact readList_eq_some fun _ _ => RpcEvent.read_eq_some
  | latestLedger => exact readU32_eq_some
  | cursor => exact readOption_eq_some (fun _ _ => readString_eq_some) rfl

end GetEventsResult

/-- `GetLatestLedgerResult`. -/
structure GetLatestLedgerResult where
  sequence : UInt32

namespace GetLatestLedgerResult

/-- `impl Deserialize for GetLatestLedgerResult`. -/
def schema : Schema where
  Field := Unit
  fields := [()]
  complete _ := List.mem_singleton_self _
  name _ := "sequence"
  names_nodup := List.nodup_singleton _
  Value _ := UInt32
  missing _ := none

/-- The struct of the field. -/
def ofRecord : schema.Record ≃ GetLatestLedgerResult where
  toFun r := ⟨r ()⟩
  invFun result _ := result.sequence
  left_inv _ := rfl
  right_inv _ := rfl

/-- How the field of a latest ledger is read. -/
def reader : schema.Reader := fun _ => readU32

/-- Read a latest ledger. -/
def read : Json → Option GetLatestLedgerResult := schema.decodeAs reader ofRecord

/-- The value shows a latest ledger. -/
def Shows : Json → GetLatestLedgerResult → Prop :=
  schema.ShowsAs ofRecord fun _ value n => value = .num (UInt32.toNat n)

theorem read_eq_some {value : Json} {result : GetLatestLedgerResult} :
    read value = some result ↔ Shows value result :=
  Schema.decodeAs_iff fun _ _ _ => readU32_eq_some

end GetLatestLedgerResult

/-! ### Responses -/

/-- `JsonRpcError`. -/
structure JsonRpcError where
  code : Int64
  message : String

/-- The fields of a `JsonRpcError`. -/
inductive JsonRpcError.Field where
  | code
  | message
  deriving DecidableEq

namespace JsonRpcError

/-- `impl Deserialize for JsonRpcError`. -/
def schema : Schema where
  Field := JsonRpcError.Field
  fields := [.code, .message]
  complete f := by cases f <;> decide
  name
    | .code => "code"
    | .message => "message"
  names_nodup := by decide
  Value
    | .code => Int64
    | .message => String
  missing _ := none

/-- The struct of the fields. -/
def ofRecord : schema.Record ≃ JsonRpcError where
  toFun r := ⟨r .code, r .message⟩
  invFun err
    | .code => err.code
    | .message => err.message
  left_inv r := by
    funext f
    cases f <;> rfl
  right_inv _ := rfl

/-- How the fields of an error are read. -/
def reader : schema.Reader
  | .code => readI64
  | .message => readString

/-- How the fields of an error are shown. -/
def shown : schema.Shown
  | .code, value, n => value = .num (Int64.toInt n)
  | .message, value, s => value = .str s

/-- Read an error. -/
def read : Json → Option JsonRpcError := schema.decodeAs reader ofRecord

/-- The value shows an error. -/
def Shows : Json → JsonRpcError → Prop := schema.ShowsAs ofRecord shown

theorem read_eq_some {value : Json} {err : JsonRpcError} :
    read value = some err ↔ Shows value err := by
  refine Schema.decodeAs_iff fun f value a => ?_
  cases f with
  | code => exact readI64_eq_some
  | message => exact readString_eq_some

end JsonRpcError

/-- `JsonRpcResponse<T>`. -/
structure JsonRpcResponse (α : Type) where
  result : Option α
  error : Option JsonRpcError

/-- The fields of a `JsonRpcResponse`. -/
inductive JsonRpcResponse.Field where
  | result
  | error
  deriving DecidableEq

namespace JsonRpcResponse

variable {α : Type}

/-- `impl Deserialize for JsonRpcResponse<T>`. -/
def schema (α : Type) : Schema where
  Field := JsonRpcResponse.Field
  fields := [.result, .error]
  complete f := by cases f <;> decide
  name
    | .result => "result"
    | .error => "error"
  names_nodup := by decide
  Value
    | .result => Option α
    | .error => Option JsonRpcError
  missing
    | .result => some none
    | .error => some none

/-- The struct of the fields. -/
def ofRecord : (schema α).Record ≃ JsonRpcResponse α where
  toFun r := ⟨r .result, r .error⟩
  invFun response
    | .result => response.result
    | .error => response.error
  left_inv r := by
    funext f
    cases f <;> rfl
  right_inv _ := rfl

/-- How the fields of a response are read. -/
def reader (readResult : Json → Option α) : (schema α).Reader
  | .result => readOption readResult
  | .error => readOption JsonRpcError.read

/-- How the fields of a response are shown. -/
def shown (showsResult : Json → α → Prop) : (schema α).Shown
  | .result, value, o => ShowsOption showsResult value o
  | .error, value, o => ShowsOption JsonRpcError.Shows value o

/-- Read a response. -/
def read (readResult : Json → Option α) : Json → Option (JsonRpcResponse α) :=
  (schema α).decodeAs (reader readResult) ofRecord

/-- The value shows a response. -/
def Shows (showsResult : Json → α → Prop) : Json → JsonRpcResponse α → Prop :=
  (schema α).ShowsAs ofRecord (shown showsResult)

theorem read_eq_some {readResult : Json → Option α} {showsResult : Json → α → Prop}
    (h : ∀ value a, readResult value = some a ↔ showsResult value a)
    (hnull : readResult .null = none) {value : Json} {response : JsonRpcResponse α} :
    read readResult value = some response ↔ Shows showsResult value response := by
  refine Schema.decodeAs_iff fun f value a => ?_
  cases f with
  | result => exact readOption_eq_some h hnull
  | error => exact readOption_eq_some (fun _ _ => JsonRpcError.read_eq_some) rfl

end JsonRpcResponse

/-! ### Requests -/

/-- A member that is left out where there is no value. -/
def member? {α : Type} (name : String) (f : α → Json) : Option α → List (String × Json)
  | some a => [(name, f a)]
  | none => []

/-- `JsonRpcRequest`. -/
def jsonRpcRequest (method : String) (params : Json) : Json :=
  .obj [("jsonrpc", .str "2.0"), ("id", .num 1), ("method", .str method), ("params", params)]

/-- `impl Serialize for EventFilter`, the filter for a contract. -/
def eventFilter (contractId : String) : Json :=
  .obj [("type", .str "contract"), ("contractIds", .arr [.str contractId])]

/-- `impl Serialize for Pagination`. -/
def pagination (cursor : Option String) (limit : UInt32) : Json :=
  .obj (member? "cursor" .str cursor ++ [("limit", .num limit.toNat)])

/-- `impl Serialize for GetEventsParams`. -/
def GetEventsParams.toJson (params : GetEventsParams) : Json :=
  .obj (member? "startLedger" (fun n : UInt32 => .num n.toNat) params.startLedger ++
    [("filters", .arr [eventFilter params.contractId]),
      ("pagination", pagination params.cursor params.limit)])

/-- The request of `get_events`. -/
def getEventsRequest (params : GetEventsParams) : Json := jsonRpcRequest "getEvents" params.toJson

/-- The request of `get_latest_ledger`. -/
def getLatestLedgerRequest : Json := jsonRpcRequest "getLatestLedger" (.obj [])

/-- The value of the one member with a name. -/
def memberNamed (name : String) : Json → Option Json
  | .obj members =>
    match valuesOf name members with
    | [value] => some value
    | _ => none
  | _ => none

/-- A request calls a method. -/
def Calls (method : String) (request : Json) : Prop :=
  memberNamed "method" request = some (.str method)

/-- What a request asks `getEvents` for. -/
structure AsksFor (request : Json) (params : GetEventsParams) : Prop where
  calls : Calls "getEvents" request
  startLedger : (memberNamed "params" request).bind (memberNamed "startLedger") =
    params.startLedger.map fun n : UInt32 => .num n.toNat
  filters : (memberNamed "params" request).bind (memberNamed "filters") =
    some (.arr [eventFilter params.contractId])
  cursor : ((memberNamed "params" request).bind (memberNamed "pagination")).bind
    (memberNamed "cursor") = params.cursor.map .str
  limit : ((memberNamed "params" request).bind (memberNamed "pagination")).bind
    (memberNamed "limit") = some (.num params.limit.toNat)

/-- The request asks for what it was made of. -/
theorem asksFor_getEventsRequest (params : GetEventsParams) :
    AsksFor (getEventsRequest params) params := by
  obtain ⟨startLedger, contractId, cursor, limit⟩ := params
  constructor
  · rfl
  · cases startLedger <;> rfl
  · cases startLedger <;> rfl
  · cases startLedger <;> cases cursor <;> rfl
  · cases startLedger <;> cases cursor <;> rfl

private theorem num_injective :
    Function.Injective fun n : UInt32 => Json.num (n.toNat : Int) :=
  fun _ _ h => UInt32.toNat_inj.mp (Int.ofNat_inj.mp (Json.num.inj h))

/-- And for nothing else. -/
theorem AsksFor.unique {request : Json} {params params' : GetEventsParams}
    (h : AsksFor request params) (h' : AsksFor request params') : params = params' := by
  have hledger : params.startLedger = params'.startLedger :=
    Option.map_injective num_injective (h.startLedger.symm.trans h'.startLedger)
  have hcursor : params.cursor = params'.cursor :=
    Option.map_injective (fun _ _ => Json.str.inj) (h.cursor.symm.trans h'.cursor)
  have hlimit : params.limit = params'.limit :=
    num_injective (Option.some.inj (h.limit.symm.trans h'.limit))
  have hcontract : params.contractId = params'.contractId := by
    have hfilters := h.filters.symm.trans h'.filters
    simpa [eventFilter] using hfilters
  cases params
  cases params'
  cases hledger
  cases hcursor
  cases hlimit
  cases hcontract
  rfl

/-- No request calls both methods. -/
theorem AsksFor.not_calls {request : Json} {params : GetEventsParams} (h : AsksFor request params) :
    ¬ Calls "getLatestLedger" request := by
  intro hcalls
  have hmethod := Json.str.inj (Option.some.inj (h.calls.symm.trans hcalls))
  exact absurd hmethod (by decide)

/-! ### Calls -/

/-- Why there is no body to read: the request was not sent, or its response broke off. -/
inductive HttpError where
  | send
  | body

/-- What the HTTP client has of a response. -/
abbrev HttpReply := Except HttpError (List UInt8)

/-- The errors of the client. -/
inductive RpcError where
  /-- "{method} request failed" -/
  | requestFailed (method : String)
  /-- "failed to parse {method} response" -/
  | unparsed (method : String)
  /-- "soroban rpc error {code}: {message}" -/
  | rpc (code : Int64) (message : String)
  /-- "{method} response had no result" -/
  | noResult (method : String)

/-- What `call` returns for a response: an error goes before a result. -/
def JsonRpcResponse.outcome {α : Type} (method : String) (response : JsonRpcResponse α) :
    Except RpcError α :=
  match response.error with
  | some err => .error (.rpc err.code err.message)
  | none =>
    match response.result with
    | some result => .ok result
    | none => .error (.noResult method)

/-- `call`, with what came back for its request. -/
def call {α : Type} (json : JsonCrates) (method : String) (readResult : Json → Option α)
    (reply : HttpReply) : Except RpcError α :=
  match reply with
  | .error .send => .error (.requestFailed method)
  | .error .body => .error (.unparsed method)
  | .ok body =>
    match (json.parse body).bind (JsonRpcResponse.read readResult) with
    | none => .error (.unparsed method)
    | some response => response.outcome method

/-- `get_events`, with what came back for its request. -/
def readEvents (json : JsonCrates) (reply : HttpReply) : Except RpcError GetEventsResult :=
  call json "getEvents" (GetEventsResult.read json) reply

/-- `get_latest_ledger`, with what came back for its request. -/
def readLatestLedger (json : JsonCrates) (reply : HttpReply) : Except RpcError UInt32 :=
  (call json "getLatestLedger" GetLatestLedgerResult.read reply).map (·.sequence)

/-- What came back shows a response. -/
def Responds {α : Type} (json : JsonCrates) (showsResult : Json → α → Prop) (reply : HttpReply)
    (response : JsonRpcResponse α) : Prop :=
  ∃ body value, reply = .ok body ∧ json.parse body = some value ∧
    JsonRpcResponse.Shows showsResult value response

section Calls

variable {α : Type} {json : JsonCrates} {method : String} {readResult : Json → Option α}
  {showsResult : Json → α → Prop} {reply : HttpReply}

theorem responds_iff (h : ∀ value a, readResult value = some a ↔ showsResult value a)
    (hnull : readResult .null = none) {response : JsonRpcResponse α} :
    Responds json showsResult reply response ↔ ∃ body, reply = .ok body ∧
      (json.parse body).bind (JsonRpcResponse.read readResult) = some response := by
  simp only [Option.bind_eq_some_iff, JsonRpcResponse.read_eq_some h hnull]
  exact ⟨fun ⟨body, value, hbody, hvalue⟩ => ⟨body, hbody, value, hvalue⟩,
    fun ⟨body, hbody, value, hvalue⟩ => ⟨body, value, hbody, hvalue⟩⟩

/-- At most one response is shown. -/
theorem Responds.unique (h : ∀ value a, readResult value = some a ↔ showsResult value a)
    (hnull : readResult .null = none) {response response' : JsonRpcResponse α}
    (hr : Responds json showsResult reply response)
    (hr' : Responds json showsResult reply response') : response = response' := by
  obtain ⟨body, rfl, hread⟩ := (responds_iff h hnull).mp hr
  obtain ⟨_, heq, hread'⟩ := (responds_iff h hnull).mp hr'
  cases heq
  exact Option.some.inj (hread.symm.trans hread')

/-- A call returns the outcome of the response that is shown, or fails before there is one. -/
theorem call_spec (json : JsonCrates) (method : String) (reply : HttpReply)
    (h : ∀ value a, readResult value = some a ↔ showsResult value a)
    (hnull : readResult .null = none) :
    (∃ response, Responds json showsResult reply response ∧
        call json method readResult reply = response.outcome method) ∨
      (∀ response, ¬ Responds json showsResult reply response) ∧
        (reply = .error .send ∧ call json method readResult reply = .error (.requestFailed method) ∨
          reply ≠ .error .send ∧ call json method readResult reply = .error (.unparsed method)) := by
  simp only [responds_iff h hnull]
  rcases reply with (_ | _) | body
  · exact Or.inr ⟨fun _ ⟨_, heq, _⟩ => (by cases heq), Or.inl ⟨rfl, rfl⟩⟩
  · exact Or.inr ⟨fun _ ⟨_, heq, _⟩ => (by cases heq), Or.inr ⟨fun heq => (by cases heq), rfl⟩⟩
  · rcases hread : (json.parse body).bind (JsonRpcResponse.read readResult) with _ | response
    · refine Or.inr ⟨fun response ⟨_, heq, hresponse⟩ => ?_, Or.inr ⟨fun heq => (by cases heq), ?_⟩⟩
      · cases heq
        rw [hread] at hresponse
        cases hresponse
      · rw [call, hread]
    · exact Or.inl ⟨response, ⟨body, rfl, hread⟩, by rw [call, hread]⟩

/-- A call has the outcome of a response exactly where such a response is shown. -/
theorem call_eq_iff (h : ∀ value a, readResult value = some a ↔ showsResult value a)
    (hnull : readResult .null = none) {outcome : Except RpcError α}
    {P : JsonRpcResponse α → Prop} (hP : ∀ response, response.outcome method = outcome ↔ P response)
    (hfailed : outcome ≠ .error (.requestFailed method))
    (hunparsed : outcome ≠ .error (.unparsed method)) :
    call json method readResult reply = outcome ↔
      ∃ response, P response ∧ Responds json showsResult reply response := by
  rcases call_spec json method reply h hnull with
    ⟨response, hr, heq⟩ | ⟨hnone, heq⟩
  · rw [heq, hP]
    refine ⟨fun hresponse => ⟨response, hresponse, hr⟩, fun ⟨response', hresponse', hr'⟩ => ?_⟩
    rwa [hr.unique h hnull hr']
  · refine ⟨fun hcall => ?_, fun ⟨response, _, hr⟩ => absurd hr (hnone response)⟩
    rcases heq with ⟨-, heq⟩ | ⟨-, heq⟩
    · exact absurd (hcall.symm.trans heq) hfailed
    · exact absurd (hcall.symm.trans heq) hunparsed

theorem JsonRpcResponse.outcome_eq_ok {response : JsonRpcResponse α} {a : α} :
    response.outcome method = .ok a ↔ response = ⟨some a, none⟩ := by
  obtain ⟨_ | result, _ | err⟩ := response <;> simp [outcome]

theorem JsonRpcResponse.outcome_eq_rpc {response : JsonRpcResponse α} {code : Int64}
    {message : String} : response.outcome method = .error (.rpc code message) ↔
      response.error = some ⟨code, message⟩ := by
  obtain ⟨_ | result, _ | ⟨code', message'⟩⟩ := response <;> simp [outcome]

theorem JsonRpcResponse.outcome_eq_noResult {response : JsonRpcResponse α} :
    response.outcome method = .error (.noResult method) ↔ response = ⟨none, none⟩ := by
  obtain ⟨_ | result, _ | err⟩ := response <;> simp [outcome]

theorem JsonRpcResponse.outcome_ne_unparsed (response : JsonRpcResponse α) :
    response.outcome method ≠ .error (.unparsed method) := by
  obtain ⟨_ | result, _ | err⟩ := response <;> simp [outcome]

/-- A call returns a result exactly where a response with the result and no error is shown. -/
theorem call_eq_ok_iff (h : ∀ value a, readResult value = some a ↔ showsResult value a)
    (hnull : readResult .null = none) {a : α} :
    call json method readResult reply = .ok a ↔
      Responds json showsResult reply ⟨some a, none⟩ := by
  rw [call_eq_iff h hnull (fun _ => JsonRpcResponse.outcome_eq_ok) (by simp) (by simp)]
  simp

end Calls

theorem readEvents_eq_ok_iff {json : JsonCrates} {reply : HttpReply} {page : GetEventsResult} :
    readEvents json reply = .ok page ↔
      Responds json (GetEventsResult.Shows json) reply ⟨some page, none⟩ :=
  call_eq_ok_iff (fun _ _ => GetEventsResult.read_eq_some) rfl

theorem readLatestLedger_eq_ok_iff {json : JsonCrates} {reply : HttpReply} {latest : UInt32} :
    readLatestLedger json reply = .ok latest ↔
      Responds json GetLatestLedgerResult.Shows reply ⟨some ⟨latest⟩, none⟩ := by
  have hcall : call json "getLatestLedger" GetLatestLedgerResult.read reply = .ok ⟨latest⟩ ↔
      Responds json GetLatestLedgerResult.Shows reply ⟨some ⟨latest⟩, none⟩ :=
    call_eq_ok_iff (fun _ _ => GetLatestLedgerResult.read_eq_some) rfl
  rw [← hcall, readLatestLedger]
  rcases call json "getLatestLedger" GetLatestLedgerResult.read reply with e | result
  · exact ⟨fun h => (by cases h), fun h => (by cases h)⟩
  · cases result
    exact ⟨fun h => congrArg Except.ok (congrArg _ (Except.ok.inj h)),
      fun h => congrArg Except.ok (congrArg GetLatestLedgerResult.sequence (Except.ok.inj h))⟩

/-- **What `get_events` returns.** The page or the error that the response shows, whatever the
order of its members and whatever else it holds; or else it says why there is no response. -/
theorem getEvents_spec (json : JsonCrates) (reply : HttpReply) :
    (∀ page, readEvents json reply = .ok page ↔
        Responds json (GetEventsResult.Shows json) reply ⟨some page, none⟩) ∧
      (∀ code message, readEvents json reply = .error (.rpc code message) ↔ ∃ result,
        Responds json (GetEventsResult.Shows json) reply ⟨result, some ⟨code, message⟩⟩) ∧
      (readEvents json reply = .error (.noResult "getEvents") ↔
        Responds json (GetEventsResult.Shows json) reply ⟨none, none⟩) ∧
      (readEvents json reply = .error (.unparsed "getEvents") ↔ reply ≠ .error .send ∧
        ∀ response, ¬ Responds json (GetEventsResult.Shows json) reply response) := by
  have hread : ∀ value page, GetEventsResult.read json value = some page ↔
      GetEventsResult.Shows json value page := fun _ _ => GetEventsResult.read_eq_some
  refine ⟨fun page => readEvents_eq_ok_iff, fun code message => ?_, ?_, ?_⟩
  · rw [readEvents, call_eq_iff hread rfl (fun _ => JsonRpcResponse.outcome_eq_rpc)
      (by simp) (by simp)]
    constructor
    · rintro ⟨⟨result, error⟩, rfl, hr⟩
      exact ⟨result, hr⟩
    · rintro ⟨result, hr⟩
      exact ⟨_, rfl, hr⟩
  · rw [readEvents, call_eq_iff hread rfl (fun _ => JsonRpcResponse.outcome_eq_noResult)
      (by simp) (by simp)]
    simp
  · rcases call_spec json "getEvents" reply hread rfl with
      ⟨response, hr, heq⟩ | ⟨hnone, ⟨hsend, heq⟩ | ⟨hsend, heq⟩⟩
    · rw [readEvents, heq]
      exact ⟨fun hunparsed => absurd hunparsed response.outcome_ne_unparsed,
        fun hnone => absurd hr (hnone.2 response)⟩
    · rw [readEvents, heq]
      exact ⟨fun h => (by cases h), fun h => absurd hsend h.1⟩
    · exact ⟨fun _ => ⟨hsend, hnone⟩, fun _ => heq⟩

end ConcordBackend
