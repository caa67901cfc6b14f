import InodeStore.Block
import InodeStore.Fault
import InodeStore.Event
import InodeStore.Action
import InodeStore.Device.RamDisk
import InodeStore.Device.ImageFile
import InodeStore.FreeMap
import InodeStore.Cache.Request
import InodeStore.Inode.Descriptor
import InodeStore.Routine
import InodeStore.Volume
import InodeStore.Cache.Threads
import InodeStore.Store.Writers
import InodeStore.Bench.Directory
import InodeStore.Main
import InodeStore.Proofs.Cache.Coherence
import InodeStore.Proofs.Cache.Acquisition
import InodeStore.Proofs.Cache.Operations
import InodeStore.Proofs.Cache.Requests
import InodeStore.Proofs.Cache.Transparency
import InodeStore.Proofs.FreeMap.Bits
import InodeStore.Proofs.FreeMap.FirstFit
import InodeStore.Proofs.FreeMap.Stored
import InodeStore.Proofs.Inode.Codec
import InodeStore.Proofs.Store.Plain
import InodeStore.Proofs.Store.Refinement
import InodeStore.Proofs.Store.Accesses
import InodeStore.Proofs.Inode.Layout
import InodeStore.Proofs.Inode.Hanging
import InodeStore.Proofs.Inode.Growing
import InodeStore.Proofs.Inode.Walk
import InodeStore.Proofs.Inode.Reading
import InodeStore.Proofs.Inode.Writing
import InodeStore.Proofs.Inode.Lengthening
import InodeStore.Proofs.Inode.Files
import InodeStore.Proofs.Inode.Making
import InodeStore.Proofs.FreeMap.Counting
import InodeStore.Proofs.FreeMap.Lowest
import InodeStore.Proofs.Inode.Handles
import InodeStore.Proofs.Inode.Room
import InodeStore.Proofs.Session.Ledger
import InodeStore.Proofs.Session.Archive
import InodeStore.Proofs.Session.Simulation
import InodeStore.Proofs.Session.Semantics
import InodeStore.Proofs.Session.Ownership
import InodeStore.Proofs.Session.Atomicity
import InodeStore.Proofs.Inode.Looking
import InodeStore.Proofs.Session.Allocated
import InodeStore.Proofs.Store.Sequences
import InodeStore.Proofs.Volume.Clients
import InodeStore.Proofs.Volume.Formatting
import InodeStore.Proofs.Volume.Usage
import InodeStore.Proofs.Volume.Durability
import InodeStore.Proofs.Cache.Outline
import InodeStore.Proofs.Store.Lockstep
import InodeStore.Proofs.Volume.Disclosure
import InodeStore.Proofs.Bench.Images
import InodeStore.Proofs.Cache.Shelf
import InodeStore.Proofs.Cache.Inclusion
import InodeStore.Proofs.Cache.Sharing
import InodeStore.Proofs.Cache.Staffing
import InodeStore.Proofs.Cache.Stepping
import InodeStore.Proofs.Cache.Interleaving
import InodeStore.Proofs.Store.Watching
import InodeStore.Proofs.Inode.Words
import InodeStore.Proofs.Inode.Parts
import InodeStore.Proofs.Session.Safety
import InodeStore.Proofs.Store.Interleaving
import InodeStore.Proofs.Session.Jobs
import InodeStore.Proofs.Session.Moments
import InodeStore.Proofs.Session.Turns
import InodeStore.Proofs.Session.Extending
import InodeStore.Proofs.Session.Writers
import InodeStore.Proofs.Session.Concurrency
import InodeStore.Proofs.Cache.Fitted
import InodeStore.Proofs.Cache.Outcome
import InodeStore.Proofs.Cache.Recency
import InodeStore.Proofs.Cache.Nesting
import InodeStore.Proofs.Cache.Pinning
import InodeStore.Proofs.Cache.Journal
import InodeStore.Proofs.Cache.Settling
import InodeStore.Proofs.Cache.Economy
import InodeStore.Proofs.Volume.Placement
import InodeStore.Proofs.FreeMap.Runs
import InodeStore.Proofs.FreeMap.Changes
import InodeStore.Proofs.FreeMap.Tail
import InodeStore.Proofs.FreeMap.Persistence
import InodeStore.Proofs.Volume.Space
import InodeStore.Proofs.Inode.Entries
import InodeStore.Proofs.Inode.Encoding
import InodeStore.Proofs.Volume.Addresses
import InodeStore.Proofs.Volume.Denial
import InodeStore.Proofs.Volume.Pristine
import InodeStore.Proofs.Session.Bystanders
import InodeStore.Proofs.Inode.Releasing
import InodeStore.Proofs.Inode.Roll
import InodeStore.Proofs.Session.Holders
import InodeStore.Proofs.Session.Denials
import InodeStore.Proofs.Cache.Handling
import InodeStore.Proofs.Store.Touches
import InodeStore.Proofs.Store.Warming
import InodeStore.Proofs.Store.Coalescing
import InodeStore.Proofs.Store.Treading
import InodeStore.Proofs.Inode.Ways
import InodeStore.Proofs.Inode.Handwork
import InodeStore.Proofs.Inode.Bytewise
import InodeStore.Proofs.Volume.Rereading
import InodeStore.Proofs.Store.Journaling
import InodeStore.Proofs.Volume.ByteWrites
import InodeStore.Proofs.Cache.Consistency
import InodeStore.Proofs.Volume.Interchange
