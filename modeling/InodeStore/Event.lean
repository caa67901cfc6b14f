import InodeStore.Block

/-!
# `InodeStore.Event` — the records of the log

What the parts of the store report while they work. An `Event` is data; `Event.level` says how
urgent it is, `Event.message` is its text, and `Level.shows` is the filter of a reader who asked for
no more than a given level.
-/

namespace InodeStore

/-- How urgent a record is. -/
inductive Level where
  | error
  | warn
  | info
  | debug
  | trace
  deriving DecidableEq, Repr

namespace Level

/-- The place of a level, the most urgent first. -/
def rank : Level → Nat
  | .error => 1
  | .warn => 2
  | .info => 3
  | .debug => 4
  | .trace => 5

/-- The word in front of a record. -/
def label : Level → String
  | .error => "ERROR"
  | .warn => "WARN"
  | .info => "INFO"
  | .debug => "DEBUG"
  | .trace => "TRACE"

/-- Does a reader with this limit see records of `level`? Without a limit nothing is seen. -/
def shows (limit : Option Level) (level : Level) : Bool :=
  match limit with
  | none => false
  | some l => level.rank ≤ l.rank

/-- A limit by its name; `off` is the limit that shows nothing. -/
def ofName? (name : String) : Option (Option Level) :=
  match name with
  | "off" => some none
  | "error" => some (some .error)
  | "warn" => some (some .warn)
  | "info" => some (some .info)
  | "debug" => some (some .debug)
  | "trace" => some (some .trace)
  | _ => none

end Level

/-- Something worth a record. -/
inductive Event where
  /-- No run of `count` free sectors was found. -/
  | mapExhausted (count : Nat)
  /-- A frame was taken from a sector. -/
  | evicted (sector : SectorId) (frame : Nat)
  /-- A frame holds a sector now. -/
  | loaded (sector : SectorId) (frame : Nat)
  /-- A changed sector goes to the device. -/
  | writtenBack (sector : SectorId)
  /-- The cache was emptied, but for `mapped` frames. -/
  | cacheReset (mapped : Nat)
  /-- A file of `length` bytes was made from `sectors` new sectors. -/
  | inodeCreated (inode : SectorId) (length sectors : Nat)
  /-- A file was lengthened with `sectors` new sectors. -/
  | inodeGrown (inode : SectorId) (oldLength newLength sectors : Nat)
  /-- A removed file gave back its descriptor and `sectors` other sectors. -/
  | inodeReleased (inode : SectorId) (sectors : Nat)
  /-- A write met a denial. -/
  | writeDenied (inode : SectorId)
  /-- A failed operation gave back the sectors it had taken. -/
  | rolledBack (sectors : Nat)
  /-- A handle was lost without being closed. -/
  | handleDropped (inode : SectorId)
  /-- A device was formatted. -/
  | formatted (sectors free : Nat)
  /-- A volume was mounted. -/
  | mounted (sectors free : Nat)
  /-- A volume was shut down. -/
  | shutDown (accesses hits deviceWrites : Nat)
  /-- A second read of a file met the cache no more often than the first. -/
  | noWarmer (bytes frames : Nat)
  deriving DecidableEq, Repr

namespace Event

/-- How urgent an event is. -/
def level : Event → Level
  | mapExhausted .. | handleDropped .. | noWarmer .. => .warn
  | formatted .. | mounted .. | shutDown .. => .info
  | cacheReset .. | inodeCreated .. | inodeGrown .. | inodeReleased .. | writeDenied ..
  | rolledBack .. => .debug
  | evicted .. | loaded .. | writtenBack .. => .trace

/-- The text of an event. -/
def message : Event → String
  | mapExhausted count => s!"free map exhausted, {count} sectors requested"
  | evicted sector frame => s!"evict sector {sector} from frame {frame}"
  | loaded sector frame => s!"load sector {sector} into frame {frame}"
  | writtenBack sector => s!"write back sector {sector}"
  | cacheReset mapped => s!"block cache reset, {mapped} frames still mapped"
  | inodeCreated inode length sectors =>
    s!"create inode {inode}: {length} bytes, {sectors} sectors"
  | inodeGrown inode oldLength newLength sectors =>
    s!"grow inode {inode} from {oldLength} to {newLength} bytes, {sectors} new sectors"
  | inodeReleased inode sectors => s!"release inode {inode} and its {sectors} sectors"
  | writeDenied inode => s!"write to inode {inode} denied"
  | rolledBack sectors => s!"roll back {sectors} newly allocated sectors"
  | handleDropped inode => s!"inode {inode} dropped without close"
  | formatted sectors free => s!"format: {sectors} sectors, {free} free"
  | mounted sectors free => s!"mount: {sectors} sectors, {free} free"
  | shutDown accesses hits deviceWrites =>
    s!"shutdown: {accesses} accesses, {hits} hits, {deviceWrites} device writes"
  | noWarmer bytes frames =>
    s!"warm read does not hit more often, {bytes} bytes may exceed {frames} frames"

/-- A record as it is written: the level, a blank, the text. -/
def record (event : Event) : String := s!"{event.level.label} {event.message}"

/-- The records of `events` that a reader with this limit sees. -/
def records (limit : Option Level) (events : List Event) : List String :=
  (events.filter fun event => Level.shows limit event.level).map record

end Event

end InodeStore
