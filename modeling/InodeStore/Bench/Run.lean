import InodeStore.Bench.Measure
import InodeStore.Bench.Options
import InodeStore.Bench.Tenths
import InodeStore.Device.ImageFile
import InodeStore.Text.Quoted

/-!
# `InodeStore.Bench.Run` — a run of the benchmark

A run takes an image, makes it a volume or mounts it, measures, and shuts the volume down. Its `Report`
holds the lines it prints, the way it ends and the events on the way; the image comes with it.

## Contents
- `Failure`, `Exit`, `Report` and their texts.
- `imageLine`, `passLine`, `writeLine`: the lines printed.
- `run`: the run on an image that may be missing.
-/

namespace InodeStore.Bench

/-! ## Reports -/

/-- Why a run fails in an orderly way. -/
inductive Failure where
  /-- There is no image. -/
  | noImage
  /-- The path to the image goes through a file. -/
  | notDirectory
  /-- A directory is where the image should be. -/
  | isDirectory
  /-- A name in the path, or all of the path, is too long. -/
  | nameTooLong
  /-- The image has too many sectors. -/
  | imageTooLarge
  /-- The store refused something. -/
  | refused (error : Error)
  /-- A sector of the file that was read is not what was written. -/
  | corrupted (sector : Nat)
  deriving DecidableEq, Repr

/-- The way a run ends. -/
inductive Exit where
  | success
  | failure (failure : Failure)
  | fault (fault : Fault)
  deriving DecidableEq, Repr

/-- What a run tells. -/
structure Report where
  /-- The lines printed, in order. -/
  lines : List String
  exit : Exit
  log : List Event

/-- The name of a refusal. -/
def refusalName : Error → String
  | .allocationExhausted => "AllocationExhausted"
  | .outOfRange => "OutOfRange"
  | .fileTooLarge => "FileTooLarge"

/-- An error that the host reports, as it is shown. -/
def hostError (code : Nat) (kind message : String) : String :=
  "Os \x7b code: " ++ toString code ++ ", kind: " ++ kind ++ ", message: \"" ++ message ++ "\" \x7d"

/-- An error of a given kind, as it is shown. -/
def customError (kind error : String) : String :=
  "Custom \x7b kind: " ++ kind ++ ", error: " ++ error ++ " \x7d"

/-- The text of a failure. -/
def Failure.message : Failure → String
  | noImage => hostError 2 "NotFound" "No such file or directory"
  | notDirectory => hostError 20 "NotADirectory" "Not a directory"
  | isDirectory => hostError 21 "IsADirectory" "Is a directory"
  | nameTooLong => hostError 36 "InvalidFilename" "File name too long"
  | imageTooLarge => customError "InvalidInput" ("\"" ++ ImageFile.tooLargeMessage ++ "\"")
  | refused e => customError "Other" (refusalName e)
  | corrupted sector =>
    customError "InvalidData" ("\"sector " ++ toString sector ++ " of the scratch file is corrupted\"")

namespace Exit

/-- The status a run ends with. A run that is stopped for want of memory has none. -/
def code : Exit → Option Nat
  | success => some 0
  | failure _ => some 1
  | fault (.memoryExhausted _) => none
  | fault _ => some 101

/-- What is said last if a run fails in an orderly way. -/
def complaint? : Exit → Option String
  | failure f => some ("Error: " ++ f.message)
  | _ => none

end Exit

/-! ## Lines -/

/-- The line that names the image. -/
def imageLine (o : Options) : String := "image=" ++ Text.quoted o.image

/-- The line of a pass over the file. -/
def passLine (label : String) (stats : CacheStats) : String :=
  label ++ s!": {stats.accesses} accesses, {stats.hits} hits (" ++ oneDecimal (stats.hitRate * 100.0)
    ++ s!"%), {stats.deviceReads} device reads"

/-- The line of the byte-by-byte writes. -/
def writeLine (bytes : Nat) (stats : CacheStats) : String :=
  s!"byte writes: {bytes} bytes in {dataBlocks bytes} sectors, " ++
    s!"{stats.deviceWrites} device writes, {stats.deviceReads} device reads"

/-! ## The run -/

variable {n : Nat}

/-- Give up a volume after a failure or fault. A run that is stopped does not get to that, and what is
    in the cache only is lost. -/
def giveUp (report : Report) (store : Store ImageFile n) : Report × HostFile :=
  match report.exit.code with
  | none => (report, store.cache.device.file)
  | some _ =>
    match Volume.discard store with
    | ⟨_, image, log⟩ => ({ report with log := report.log ++ log }, image.file)

/-- Measure on a volume, and shut it down. -/
def measure (o : Options) (report : Report) (store : Store ImageFile n) (limit : Nat := memoryLimit) :
    Report × HostFile :=
  match store.run (measureReads o.fileBytes n limit) with
  | ⟨.error e, store, log⟩ =>
    giveUp ⟨report.lines, .fault e, report.log ++ log⟩ store
  | ⟨.ok (.error e), store, log⟩ =>
    giveUp ⟨report.lines, .failure (.refused e), report.log ++ log⟩ store
  | ⟨.ok (.ok (.error k)), store, log⟩ =>
    giveUp ⟨report.lines, .failure (.corrupted k), report.log ++ log⟩ store
  | ⟨.ok (.ok (.ok passes)), store, log⟩ =>
    let lines :=
      report.lines ++ [passLine "cold read" passes.cold, passLine "warm read" passes.warm]
    let log := report.log ++ log
    match store.run (measureWrites o.writeBytes) with
    | ⟨.error e, store, log'⟩ => giveUp ⟨lines, .fault e, log ++ log'⟩ store
    | ⟨.ok (.error e), store, log'⟩ => giveUp ⟨lines, .failure (.refused e), log ++ log'⟩ store
    | ⟨.ok (.ok stats), store, log'⟩ =>
      let lines := lines ++ [writeLine o.writeBytes stats]
      let log := log ++ log'
      match Volume.shutdown store with
      | ⟨.error e, image, log'⟩ => (⟨lines, .fault e, log ++ log'⟩, image.file)
      | ⟨.ok (.error e), image, log'⟩ =>
        (⟨lines, .failure (.refused e), log ++ log'⟩, image.file)
      | ⟨.ok (.ok ()), image, log'⟩ => (⟨lines, .success, log ++ log'⟩, image.file)

/-- Run on the file an image is in. -/
def runOn (o : Options) (lines : List String) (file : HostFile) (limit : Nat := memoryLimit) :
    Report × HostFile :=
  match ImageFile.open? file with
  | none => (⟨lines, .failure .imageTooLarge, []⟩, file)
  | some image =>
    match if o.format then Volume.format o.frames image limit else Volume.mount o.frames image limit with
    | (.down (.refused e) image, log) => (⟨lines, .failure (.refused e), log⟩, image.file)
    | (.down (.faulted e) image, log) => (⟨lines, .fault e, log⟩, image.file)
    | (.up store, log) => measure o ⟨lines, .success, log⟩ store limit

/-- Run on an image that may be missing. To format makes a new file, whatever was there. -/
def run (o : Options) (file : Option HostFile) (limit : Nat := memoryLimit) : Report × Option HostFile :=
  let lines := [imageLine o]
  match if o.format then some (HostFile.zeros (o.sectors * sectorSize)) else file with
  | none => (⟨lines, .failure .noImage, []⟩, none)
  | some file =>
    match runOn o lines file limit with
    | (report, file) => (report, some file)

end InodeStore.Bench
