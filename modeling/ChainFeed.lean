import ChainFeed.Activity
import ChainFeed.Chain.Ascending
import ChainFeed.Chain.Block
import ChainFeed.Chain.Filter
import ChainFeed.Chain.Guard
import ChainFeed.Chain.Repository
import ChainFeed.Cli
import ChainFeed.Clock
import ChainFeed.Config.Basic
import ChainFeed.Config.Reader
import ChainFeed.Family.Evm
import ChainFeed.Family.Exchange
import ChainFeed.Family.Near
import ChainFeed.Family.Solana
import ChainFeed.Feed.Logs
import ChainFeed.Feed.Poller
import ChainFeed.Feed.Range
import ChainFeed.Feed.Source
import ChainFeed.Feed.Transactions
import ChainFeed.Json.Basic
import ChainFeed.Json.Member
import ChainFeed.Json.Printer
import ChainFeed.Json.Reader
import ChainFeed.Json.Record
import ChainFeed.Main
import ChainFeed.Metrics
import ChainFeed.Policy.Breaker
import ChainFeed.Policy.Retry
import ChainFeed.Policy.TokenBucket
import ChainFeed.Proofs.Activity
import ChainFeed.Proofs.Chain.Calls
import ChainFeed.Proofs.Chain.Failover
import ChainFeed.Proofs.Chain.Isolation
import ChainFeed.Proofs.Chain.Placeholders
import ChainFeed.Proofs.Chain.Records
import ChainFeed.Proofs.Chain.Refusals
import ChainFeed.Proofs.Chain.Rounds
import ChainFeed.Proofs.Counters
import ChainFeed.Proofs.Ends
import ChainFeed.Proofs.Except
import ChainFeed.Proofs.Family.Answers
import ChainFeed.Proofs.Family.Batches
import ChainFeed.Proofs.Family.Blocks
import ChainFeed.Proofs.Family.Chunks
import ChainFeed.Proofs.Family.Derived
import ChainFeed.Proofs.Family.Events
import ChainFeed.Proofs.Family.Links
import ChainFeed.Proofs.Family.Numbers
import ChainFeed.Proofs.Family.Paging
import ChainFeed.Proofs.Family.Pointwise
import ChainFeed.Proofs.Family.Quantities
import ChainFeed.Proofs.Family.Receipts
import ChainFeed.Proofs.Family.Requested
import ChainFeed.Proofs.Family.Scanning
import ChainFeed.Proofs.Family.Spelled
import ChainFeed.Proofs.Family.Steady
import ChainFeed.Proofs.Family.Turns
import ChainFeed.Proofs.Family.Watched
import ChainFeed.Proofs.Feed.Additive
import ChainFeed.Proofs.Feed.Coverage
import ChainFeed.Proofs.Feed.Cycles
import ChainFeed.Proofs.Feed.Dated
import ChainFeed.Proofs.Feed.Finishing
import ChainFeed.Proofs.Feed.Pace
import ChainFeed.Proofs.Feed.Selection
import ChainFeed.Proofs.Feed.Stamps
import ChainFeed.Proofs.Feed.Starting
import ChainFeed.Proofs.Interruption
import ChainFeed.Proofs.Journal
import ChainFeed.Proofs.Json.Forms
import ChainFeed.Proofs.Json.Printed
import ChainFeed.Proofs.Keyed
import ChainFeed.Proofs.List
import ChainFeed.Proofs.Policy.Admission
import ChainFeed.Proofs.Policy.Callers
import ChainFeed.Proofs.Policy.Onlookers
import ChainFeed.Proofs.Policy.Registers
import ChainFeed.Proofs.Policy.Uses
import ChainFeed.Proofs.Policy.Windows
import ChainFeed.Proofs.Queue.Decoding
import ChainFeed.Proofs.Queue.Desk
import ChainFeed.Proofs.Queue.Dispatch
import ChainFeed.Proofs.Queue.Exclusive
import ChainFeed.Proofs.Queue.Moves
import ChainFeed.Proofs.Queue.Outstanding
import ChainFeed.Proofs.Queue.Removal
import ChainFeed.Proofs.Queue.Settlement
import ChainFeed.Proofs.Queue.Storage
import ChainFeed.Proofs.Queue.Vigil
import ChainFeed.Proofs.Rpc.Contacts
import ChainFeed.Proofs.Rpc.Outage
import ChainFeed.Proofs.Rpc.Picks
import ChainFeed.Proofs.Rpc.Posts
import ChainFeed.Proofs.Rpc.Responses
import ChainFeed.Proofs.Rpc.Rotation
import ChainFeed.Proofs.Run
import ChainFeed.Proofs.Table
import ChainFeed.Proofs.Text.Numeral
import ChainFeed.Proofs.Text.Quantity
import ChainFeed.Proofs.Timestamp
import ChainFeed.Queue.Consumer
import ChainFeed.Queue.Event
import ChainFeed.Queue.Leases
import ChainFeed.Queue.Line
import ChainFeed.Rehearsal.Description
import ChainFeed.Rehearsal.Directory
import ChainFeed.Rehearsal.Leasing
import ChainFeed.Rehearsal.Node
import ChainFeed.Rehearsal.Polling
import ChainFeed.Rehearsal.Providers
import ChainFeed.Rehearsal.Question
import ChainFeed.Rehearsal.Server
import ChainFeed.Rehearsal.Session
import ChainFeed.Rehearsal.Stage
import ChainFeed.Rehearsal.World
import ChainFeed.Rpc.Http
import ChainFeed.Rpc.Message
import ChainFeed.Rpc.Pool
import ChainFeed.Rpc.Transport
import ChainFeed.Service
import ChainFeed.Table
import ChainFeed.Text.Decimal
import ChainFeed.Text.Letters
import ChainFeed.Text.Numeral
import ChainFeed.Text.Printable
import ChainFeed.Text.Quoted
import ChainFeed.Timestamp
import ChainFeed.Yaml.Basic
import ChainFeed.Yaml.Quoted
import ChainFeed.Yaml.Reader
