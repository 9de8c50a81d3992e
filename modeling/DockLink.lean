import DockLink.Fault
import DockLink.BoundedQueue
import DockLink.Bytes.Field
import DockLink.Bytes.Hex
import DockLink.Bytes.Crc
import DockLink.Memory.Bucket
import DockLink.Memory.Pool
import DockLink.Memory.Packet
import DockLink.Memory.Holdings
import DockLink.Mating.Orientation
import DockLink.Mating.Sense
import DockLink.Mating.Flags
import DockLink.Mating.Lifecycle
import DockLink.Mating.Connector
import DockLink.Mating.Watch
import DockLink.Wire.Header
import DockLink.Wire.Blob
import DockLink.Wire.Channel
import DockLink.Wire.Station
import DockLink.Transfer.Event
import DockLink.Transfer.Segments
import DockLink.Transfer.Reassembly
import DockLink.Transfer.Framer
import DockLink.Transfer.Supervision
import DockLink.Control.Command
import DockLink.Control.Layout
import DockLink.Control.Decoder
import DockLink.Control.Responder
import DockLink.Control.Console
import DockLink.Proofs.Memory.FreeList
import DockLink.Proofs.Memory.Tenancy
import DockLink.Proofs.Memory.Ownership
import DockLink.Proofs.Memory.Room
import DockLink.Proofs.Memory.Contents
import DockLink.Proofs.Memory.Copies
import DockLink.Proofs.Memory.Requests
import DockLink.Proofs.Memory.Isolation
import DockLink.Proofs.Memory.ByteLists
import DockLink.Proofs.Wire.Format
import DockLink.Proofs.Transfer.Decoder
import DockLink.Proofs.Transfer.Receiving
import DockLink.Proofs.Transfer.Pushing
import DockLink.Proofs.Memory.Holder
import DockLink.Proofs.Transfer.Listening
import DockLink.Proofs.Transfer.Board
import DockLink.Proofs.Transfer.Cutting
import DockLink.Proofs.Transfer.Outline
import DockLink.Proofs.Transfer.Footing
import DockLink.Proofs.Transfer.Sending
import DockLink.Proofs.Transfer.Operating
import DockLink.Proofs.Transfer.Session
import DockLink.Proofs.Transfer.Conservation
import DockLink.Proofs.Transfer.Outcomes
import DockLink.Proofs.Transfer.Safety
import DockLink.Proofs.Transfer.Script
import DockLink.Proofs.Transfer.Progress
import DockLink.Proofs.Transfer.Unpacking
import DockLink.Proofs.Transfer.Delivery
import DockLink.Proofs.Transfer.Link
import DockLink.Proofs.Transfer.Losses
import DockLink.Proofs.Transfer.Splicing
import DockLink.Proofs.Transfer.Hearing
import DockLink.Proofs.Transfer.LossyLink
import DockLink.Proofs.Control.Transaction
import DockLink.Proofs.Control.Decoding
import DockLink.Proofs.Control.Responding
import DockLink.Proofs.Control.Service
import DockLink.Proofs.Control.Reading
import DockLink.Proofs.Control.Accounting
import DockLink.Proofs.Mating.Lifecycle
import DockLink.Proofs.Mating.Timer
import DockLink.Proofs.Mating.Traces
import DockLink.Proofs.Mating.Vigil
import DockLink.Proofs.Mating.Punctuality
import DockLink.Proofs.Mating.Handshake
import DockLink.Proofs.Transfer.Separation
import DockLink.Proofs.Transfer.Framing
import DockLink.Proofs.Transfer.Writing
import DockLink.Proofs.Transfer.Ledger
import DockLink.Proofs.Transfer.Silence
import DockLink.Proofs.Transfer.Gate
import DockLink.Proofs.Transfer.Guarding
import DockLink.Proofs.Transfer.Teardown
import DockLink.Proofs.Memory.Twins
import DockLink.Proofs.Memory.Alike
import DockLink.Proofs.Memory.Restoring
import DockLink.Proofs.Memory.Allocation
import DockLink.Proofs.Memory.Packing
import DockLink.Proofs.Memory.Duplication
import DockLink.Proofs.Transfer.TwinReceivers
import DockLink.Proofs.Transfer.TwinFramers
import DockLink.Proofs.Transfer.TwinSessions
import DockLink.Proofs.Transfer.Bench
import DockLink.Proofs.Transfer.Downtime
import DockLink.Proofs.Transfer.Restart
import DockLink.Proofs.Transfer.Slicing
import DockLink.Proofs.Transfer.Rejecting
import DockLink.Proofs.Transfer.Intact
import DockLink.Proofs.Transfer.Misuse
import DockLink.Proofs.Transfer.Admission
import DockLink.Proofs.Memory.CopyingOut
import DockLink.Proofs.Memory.Consuming
import DockLink.Proofs.Control.Answering
import DockLink.Proofs.Control.Exchanging
import DockLink.Proofs.Wire.Bursts
import DockLink.Proofs.Transfer.Chronicle
import DockLink.Proofs.Transfer.Streaks
import DockLink.Proofs.Transfer.Statistics
import DockLink.Proofs.Mating.Detection
import DockLink.Proofs.Control.Layout
import DockLink.Proofs.Mating.Forgetting
import DockLink.Proofs.Mating.Words
import DockLink.Proofs.Control.Reporting
import DockLink.Proofs.Transfer.Limits
import DockLink.Proofs.Handover
