import ConcordBackend.Library.Program
import ConcordBackend.Library.Table
import ConcordBackend.Indexer.EventLog
import ConcordBackend.Indexer.Runs
import ConcordBackend.Indexer.Process
import ConcordBackend.Indexer.Cursor
import ConcordBackend.Indexer.Reconstruction
import ConcordBackend.Indexer.Failure
import ConcordBackend.Db
import ConcordBackend.Indexer.Poll
import ConcordBackend.Indexer.Redelivery
import ConcordBackend.Api.Auth
import ConcordBackend.Api.Disputes
import ConcordBackend.Api.Escrows
import ConcordBackend.Api.Login
import ConcordBackend.Api.Owners
import ConcordBackend.Indexer.Coherence
import ConcordBackend.Indexer.Fields
import ConcordBackend.Indexer.Milestones
import ConcordBackend.Indexer.Numbers
import ConcordBackend.Indexer.Signatures
import ConcordBackend.Indexer.Status
import ConcordBackend.Indexer.Times
import ConcordBackend.Api.Collection
import ConcordBackend.Api.Detail
import ConcordBackend.Api.Notifications
import ConcordBackend.Api.Secrets
import ConcordBackend.Indexer.Http
import ConcordBackend.Api.InternalErrors
