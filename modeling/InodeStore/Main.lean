import InodeStore.Bench.Run

/-!
# `InodeStore.Main` — the benchmark as a program

Reads the arguments and the image, runs the benchmark, prints its report and writes the image back.
The environment variable `LOG_LEVEL` tells which events are shown on standard error.
-/

namespace InodeStore.Bench

/-- The text of the help. -/
def usage : String :=
  String.intercalate "\n"
    [ "Measure the block cache of an inode store in an image",
      "",
      "Usage: bench [OPTIONS] --image <IMAGE>",
      "",
      "Options:",
      "  -i, --image <IMAGE>       Disk image",
      "  -f, --format              Format the image instead of mounting it",
      "  -s, --sectors <N>         Sectors of a newly formatted image [default: 32768]",
      "  -c, --cache-capacity <N>  Frames of the block cache [default: 64]",
      "  -b, --file-bytes <N>      Bytes of the file that is read twice [default: 24576]",
      "  -w, --write-bytes <N>     Bytes that are written one at a time [default: 65536]",
      "  -h, --help                Print help" ]

/-- The content of a file, if there is one. -/
def loadImage (path : String) : IO (Option HostFile) := do
  try
    return some (HostFile.ofBytes (← IO.FS.readBinFile path).data)
  catch
    | .noFileOrDirectory .. => return none
    | e => throw e

/-- Give a file a content. -/
def saveImage (path : String) (file : HostFile) : IO Unit := do
  let out ← IO.FS.Handle.mk path .write
  for k in [0:file.blockCount] do
    out.write ⟨file.part k⟩

/-- The status that stands for a run that was stopped. -/
def stoppedCode : Nat := 134

/-- Run the benchmark and tell what came of it. -/
def report (o : Options) : IO UInt32 := do
  let limit := ((← IO.getEnv "LOG_LEVEL").bind Level.ofName?).getD (some .error)
  let (report, image) := run o (← if o.format then pure none else loadImage o.image)
  for line in Event.records limit report.log do
    IO.eprintln line
  for line in report.lines do
    IO.println line
  if let some image := image then
    saveImage o.image image
  match report.exit with
  | .fault e => IO.eprintln e.message
  | exit =>
    if let some text := exit.complaint? then
      IO.eprintln text
  return UInt32.ofNat (report.exit.code.getD stoppedCode)

end InodeStore.Bench

open InodeStore.Bench in
/-- The benchmark. -/
def main (arguments : List String) : IO UInt32 := do
  match Options.ofArguments arguments with
  | .ok o => report o
  | .error .help =>
    IO.println usage
    return 0
  | .error .misuse =>
    IO.eprintln usage
    return 2
