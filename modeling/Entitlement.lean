import Entitlement.Clock
import Entitlement.Session.Directory
import Entitlement.Session.Token
import Entitlement.Store.Snapshot
import Entitlement.Proofs.Fields
import Entitlement.Proofs.Path.Precedence
import Entitlement.Proofs.Path.Split
import Entitlement.Proofs.PathTree
import Entitlement.Proofs.Text.Bytes
import Entitlement.Proofs.Path.Cover
import Entitlement.Proofs.Path.Pattern
import Entitlement.Proofs.Grant.Containment
import Entitlement.Proofs.Store.Script
import Entitlement.Proofs.Session.Action
import Entitlement.Proofs.Session.Failure
import Entitlement.Proofs.Session.Restrict
import Entitlement.Proofs.Base64
import Entitlement.Proofs.Json.Escape
import Entitlement.Proofs.Json.Numeral
import Entitlement.Proofs.Json.Token
import Entitlement.Proofs.Text.Blank
import Entitlement.Proofs.Zlib.Bits
import Entitlement.Proofs.Zlib.Huffman
import Entitlement.Proofs.Zlib.Format
import Entitlement.Proofs.Zlib.Inflate
import Entitlement.Proofs.Zlib.Stored
import Entitlement.Proofs.Json.Raw
import Entitlement.Proofs.Json.Reader
import Entitlement.Proofs.Grant.Row
import Entitlement.Proofs.Grant.Blob
import Entitlement.Proofs.Session.Record
import Entitlement.Proofs.Text.Lowercase
import Entitlement.Proofs.Grant.Compaction
import Entitlement.Proofs.Session.Upkeep
import Entitlement.Proofs.Session.Compaction
import Entitlement.Proofs.Store.Guard
import Entitlement.Proofs.Session.Confinement
import Entitlement.Proofs.Session.Run
import Entitlement.Proofs.Decimal.Shortest
import Entitlement.Proofs.Json.Number
import Entitlement.Proofs.Json.Value
import Entitlement.Proofs.Session.FullList
import Entitlement.Proofs.Session.Course
import Entitlement.Proofs.Store.Effect
import Entitlement.Proofs.Session.Deed
import Entitlement.Proofs.Session.Isolation
import Entitlement.Proofs.Session.Service
import Entitlement.Proofs.Session.Ownership
import Entitlement.Proofs.Session.Endless
import Entitlement.Proofs.Session.Permanence
import Entitlement.Proofs.Session.Enlist
import Entitlement.Proofs.Session.Index
import Entitlement.Proofs.Session.CommonLifetime
import Entitlement.Proofs.Store.Trace
import Entitlement.Proofs.Store.Eager
import Entitlement.Proofs.Store.Snapshot
import Entitlement.Proofs.Grant.Selection
import Entitlement.Proofs.Store.Crowd
import Entitlement.Proofs.Session.Interleaving
import Entitlement.Proofs.Store.Recency
import Entitlement.Proofs.Session.Composition
import Entitlement.Proofs.Session.Recency
import Entitlement.Proofs.Store.Exchange
import Entitlement.Proofs.Session.Report
import Entitlement.Proofs.Session.Removal
import Entitlement.Proofs.Session.Reopening
import Entitlement.Proofs.Session.Uncached
import Entitlement.Proofs.Store.Repair
import Entitlement.Proofs.Session.Carrying
import Entitlement.Proofs.Session.Retry
import Entitlement.Proofs.Session.Loading
import Entitlement.Proofs.Session.History
import Entitlement.Proofs.Session.Writing
import Entitlement.Proofs.Session.Narrowing
import Entitlement.Proofs.Session.Survival
import Entitlement.Proofs.Session.Quiet
import Entitlement.Proofs.Session.Unsaved
import Entitlement.Proofs.Path.LeastCover
import Entitlement.Proofs.Store.Occurrence
import Entitlement.Proofs.Store.Deadline
import Entitlement.Proofs.Session.Sliding
import Entitlement.Proofs.Path.NormalForm
import Entitlement.Proofs.Grant.NormalForm
import Entitlement.Proofs.Grant.LetterCase
import Entitlement.Proofs.Session.Directory
import Entitlement.Proofs.PathTree.Routes
import Entitlement.Proofs.Session.Lazy
