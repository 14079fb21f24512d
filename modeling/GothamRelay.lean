import GothamRelay.Client.Framing
import GothamRelay.Client.Route
import GothamRelay.Client.Seal
import GothamRelay.Client.ShipPath
import GothamRelay.Client.Unwrap
import GothamRelay.Cover.Conservation
import GothamRelay.Cover.Loop
import GothamRelay.Cover.Visible
import GothamRelay.Data.ByteSource
import GothamRelay.Data.Bytes
import GothamRelay.Data.Chunks
import GothamRelay.Data.Eviction
import GothamRelay.Data.FileSystem
import GothamRelay.Data.IndexedQueue
import GothamRelay.Data.Json
import GothamRelay.Data.SlidingWindow
import GothamRelay.Data.TokenBucket
import GothamRelay.Data.Transition
import GothamRelay.Data.Unwinding
import GothamRelay.Delay
import GothamRelay.Enroll.Listing
import GothamRelay.Enroll.Loop
import GothamRelay.Enroll.Sequence
import GothamRelay.Io
import GothamRelay.Mailbox.Connection
import GothamRelay.Mailbox.Conservation
import GothamRelay.Mailbox.Hosted
import GothamRelay.Mailbox.Ownership
import GothamRelay.Mailbox.Retention
import GothamRelay.Mailbox.Snapshot
import GothamRelay.Mailbox.Startup
import GothamRelay.Mailbox.Store
import GothamRelay.Mailbox.System
import GothamRelay.Mailbox.Tracing
import GothamRelay.Mailbox.Wire
import GothamRelay.Path
import GothamRelay.Pool.Departures
import GothamRelay.Pool.Senders
import GothamRelay.Process.Admission
import GothamRelay.Process.Crypto
import GothamRelay.Process.Forged
import GothamRelay.Process.Relay
import GothamRelay.RateLimit.Bucket
import GothamRelay.RateLimit.Limiter
import GothamRelay.RateLimit.PerSource
import GothamRelay.RateLimit.Quota
import GothamRelay.RateLimit.Twin
import GothamRelay.RateLimit.WithinRate
import GothamRelay.Replay.Adoption
import GothamRelay.Replay.Alignment
import GothamRelay.Replay.AllOrNothing
import GothamRelay.Replay.Cache
import GothamRelay.Replay.Codec
import GothamRelay.Replay.History
import GothamRelay.Replay.OldestFirst
import GothamRelay.Replay.Persist
import GothamRelay.Replay.Restart
import GothamRelay.Replay.Restore
import GothamRelay.Replay.Saving
import GothamRelay.Replay.Sightings
import GothamRelay.Replay.Window
import GothamRelay.Replay.WriteEncoded
import GothamRelay.Time
import GothamRelay.Transport.Blobs
import GothamRelay.Transport.Buffer
import GothamRelay.Transport.Delivery
import GothamRelay.Transport.Grammar
import GothamRelay.Transport.Noise
import GothamRelay.Data.Ledger
import GothamRelay.Serve.Accounting
import GothamRelay.Serve.Linear
import GothamRelay.Data.Conversation
import GothamRelay.Serve.Sources
import GothamRelay.Transport.Peer
import GothamRelay.Transport.Handshake
import GothamRelay.Transport.Query
import GothamRelay.Transport.Frames
import GothamRelay.Data.Hex
import GothamRelay.Identity.KeyFile
import GothamRelay.Pool.Sending
import GothamRelay.Identity.Keygen
import GothamRelay.Mixnet.Legs
import GothamRelay.Mixnet.Network
import GothamRelay.Mixnet.Carriage
import GothamRelay.Mixnet.Delivery
import GothamRelay.Mixnet.Sealed
import GothamRelay.Serve.Endpoint
import GothamRelay.Serve.Gossip
import GothamRelay.Enroll.Watch
