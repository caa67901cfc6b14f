import InodeStore.Inode.Growth

/-!
# `InodeStore.Inode.File` — reading and writing through a handle

A range of bytes is cut at the block boundaries (`spans`), and each part is read or written in its
block. A part that is a whole block is replaced without being read.

## Contents
- `Span`, `spans`: a range cut at the block boundaries.
- `read`, `write`, and `overlay` for a caller who reads into a buffer.
- `length`, `isDir`, `sectorOfByte`, `close`.
-/

namespace InodeStore.Inode

open Routine

/-! ## Ranges of bytes -/

/-- The bytes of a file from `first` up to `last`, `last` left out, all in one block. -/
structure Span where
  first : Nat
  last : Nat
  deriving DecidableEq, Repr

/-- The part of the bytes from `first` up to `last` that lies in block `k`. -/
def Span.inBlock (first last k : Nat) : Span :=
  ⟨max first (sectorSize * k), min last (sectorSize * (k + 1))⟩

/-- The bytes from `first` up to `last`, cut at the block boundaries. -/
def spans (first last : Nat) : List Span :=
  if first < last then
    (List.range' (first / sectorSize) (dataBlocks last - first / sectorSize)).map
      (Span.inBlock first last)
  else []

/-! ## Reading -/

/-- Read spans one after the other and join the bytes; `parts` are those read before, the last one
    first. -/
def readSpans (d : Descriptor) (parts : List Bytes) : List Span → Routine Bytes
  | [] => return parts.reverse.foldl (· ++ ·) #[]
  | span :: rest =>
    match locate? d span.first with
    | none => return parts.reverse.foldl (· ++ ·) #[]
    | some place => do
      let block ← view (← follow d place)
      let part := block.slice (span.first % sectorSize) (span.last - span.first)
      readSpans d (part :: parts) rest

/-- The bytes of a file from `offset` on, `count` of them or as many as there are. -/
def read (handle : Handle) (offset count : Nat) : Routine Bytes := do
  let d ← load handle.sector
  readSpans d [] (spans offset (min (offset + count) d.size))

/-- A buffer with the bytes read put at its front. -/
def overlay (buffer bytes : Bytes) : Bytes := bytes ++ buffer.extract bytes.size buffer.size

/-! ## Writing -/

/-- Put bytes at an offset of a file, one span after the other; `origin` is the offset of the first of
    `bytes`, and `written` bytes are done. The answer is the number of all bytes done. -/
def writeSpans (d : Descriptor) (origin : Nat) (bytes : Bytes) (written : Nat) :
    List Span → Routine Nat
  | [] => return written
  | span :: rest =>
    match locate? d span.first with
    | none => return written
    | some place => do
      let sector ← follow d place
      let part := bytes.extract (span.first - origin) (span.last - origin)
      if part.size = sectorSize then store sector (Block.ofBytes part)
      else update sector fun block => block.splice (span.first % sectorSize) part
      writeSpans d origin bytes (written + part.size) rest

/-- Put bytes inside a file. -/
def writeInside (d : Descriptor) (offset : Nat) (bytes : Bytes) : Routine Nat :=
  writeSpans d offset bytes 0 (spans offset (offset + bytes.size))

/-- Put bytes into a file at an offset and lengthen it first if need be. The answer is the number of
    bytes written: none while writing is denied. Of several writers that have to lengthen one file
    only one does so at a time, and each looks at the length again when it is its turn. -/
def write (handle : Handle) (offset : Nat) (bytes : Bytes) : Routine Nat := do
  if ← isDenied handle then
    emit (.writeDenied handle.sector)
    return 0
  else if bytes.isEmpty then return 0
  else
    let last := offset + bytes.size
    if maxFileSize < last then refuse .fileTooLarge
    else
      let d ← load handle.sector
      if last ≤ d.size then writeInside d offset bytes
      else
        exclusively handle do
          let d ← load handle.sector
          let d ← if d.size < last then extend handle.sector d last else pure d
          writeInside d offset bytes

/-! ## The rest -/

/-- The length of a file in bytes. -/
def length (handle : Handle) : Routine Nat := return (← load handle.sector).size

/-- Is it a directory? -/
def isDir (handle : Handle) : Routine Bool := return (← load handle.sector).isDir

/-- The sector that holds byte `offset` of a file. -/
def sectorOfByte (handle : Handle) (offset : Nat) : Routine SectorId := do
  sectorAt (← load handle.sector) offset

/-- End a handle. The last one of a removed file gives the file's sectors back. -/
def close (handle : Handle) : Routine Unit := do
  if ← closeHandle handle then releaseInode handle.sector

end InodeStore.Inode
