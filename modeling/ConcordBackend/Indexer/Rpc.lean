import ConcordBackend.Xdr

/-!
# The Soroban RPC client

The messages of `indexer/rpc.rs` that the poll loop reads or sends.
-/

namespace ConcordBackend

/-- `RpcEvent`: `id` is the event's own cursor position. -/
structure RpcEvent where
  contractId : String
  ledger : UInt32
  ledgerClosedAt : DateTime
  id : String
  topic : List String
  value : String
  inSuccessfulContractCall : Bool
  deriving DecidableEq, Repr

/-- `GetEventsResult`. -/
structure GetEventsResult where
  events : List RpcEvent
  latestLedger : UInt32
  cursor : Option String
  deriving DecidableEq, Repr

/-- `GetEventsParams`, with the filter's one contract id and the pagination flattened. -/
structure GetEventsParams where
  startLedger : Option UInt32
  contractId : String
  cursor : Option String
  limit : UInt32
  deriving DecidableEq, Repr

/-- The request `get_events` sends: a cursor takes the place of the start ledger. -/
def getEventsParams (contractId : String) (startLedger : Option UInt32)
    (cursor : Option String) (limit : UInt32) : GetEventsParams where
  startLedger := if cursor.isSome then none else startLedger
  contractId := contractId
  cursor := cursor
  limit := limit

end ConcordBackend
