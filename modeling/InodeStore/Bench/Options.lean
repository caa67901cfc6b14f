/-!
# `InodeStore.Bench.Options` — what the benchmark is asked to do

The arguments are read from left to right. A setting has a long and a short name; its value is part of
the argument (`--sectors=5`, `-s5`, `-s=5`) or the next argument, unless that is itself an option. A
switch has no value, and several switches may share one argument with a setting at its end (`-fs 5`).
Every setting and switch may be given once, and only the image has to be.

The first thing that is wrong decides, and a call for help ends the reading at once. A value that is an
argument of its own is looked at when the next option comes, or at the end.

## Contents
- `Options` and their defaults.
- `Setting`, `Switch` and their names; `Ending`: why nothing is to be run.
- **Numbers.** `sectorNumber?`, `size?`.
- **Reading.** `Draft`, `Draft.assign`, `Draft.settle`, `Draft.read`, `Options.ofArguments`.
-/

namespace InodeStore.Bench

/-- What the benchmark is asked to do. -/
structure Options where
  /-- The path of the image. -/
  image : String
  /-- Format the image instead of mounting it. -/
  format : Bool
  /-- Sectors of a newly formatted image. -/
  sectors : Nat
  /-- Frames of the block cache. -/
  frames : Nat
  /-- Bytes of the file that is read twice. -/
  fileBytes : Nat
  /-- Bytes that are written one at a time. -/
  writeBytes : Nat
  deriving DecidableEq, Repr

/-- Why nothing is to be run. -/
inductive Ending where
  /-- Help was asked for. -/
  | help
  /-- The arguments make no sense. -/
  | misuse
  deriving DecidableEq, Repr

/-- An option with a value. -/
inductive Setting where
  | image
  | sectors
  | frames
  | fileBytes
  | writeBytes
  deriving DecidableEq, Repr

/-- An option without a value. -/
inductive Switch where
  | format
  | help
  deriving DecidableEq, Repr

/-- An option, by its name. -/
inductive Name where
  | setting (setting : Setting)
  | switch (switch : Switch)

/-- The option with a long name. -/
def Name.ofLong? : String → Option Name
  | "image" => some (.setting .image)
  | "sectors" => some (.setting .sectors)
  | "cache-capacity" => some (.setting .frames)
  | "file-bytes" => some (.setting .fileBytes)
  | "write-bytes" => some (.setting .writeBytes)
  | "format" => some (.switch .format)
  | "help" => some (.switch .help)
  | _ => none

/-- The option with a short name. -/
def Name.ofShort? : Char → Option Name
  | 'i' => some (.setting .image)
  | 's' => some (.setting .sectors)
  | 'c' => some (.setting .frames)
  | 'b' => some (.setting .fileBytes)
  | 'w' => some (.setting .writeBytes)
  | 'f' => some (.switch .format)
  | 'h' => some (.switch .help)
  | _ => none

/-! ## Numbers -/

/-- A natural number in decimal digits, at least one of them. -/
def digits? (cs : List Char) : Option Nat :=
  if cs ≠ [] ∧ cs.all fun c => '0' ≤ c ∧ c ≤ '9' then
    some (cs.foldl (fun n c => 10 * n + (c.toNat - '0'.toNat)) 0)
  else none

/-- A count of sectors: digits behind an optional sign, below 2^32. -/
def sectorNumber? (text : String) : Option Nat :=
  let number := match text.toList with
    | '+' :: cs => digits? cs
    | '-' :: cs => (digits? cs).filter (· = 0)
    | cs => digits? cs
  number.filter (· < UInt32.size)

/-- A size: digits behind an optional plus sign, below 2^64. -/
def size? (text : String) : Option Nat :=
  let number := match text.toList with
    | '+' :: cs => digits? cs
    | cs => digits? cs
  number.filter (· < UInt64.size)

/-! ## Reading -/

/-- What is known when some arguments were read. -/
structure Draft where
  image : Option String := none
  format : Bool := false
  sectors : Option Nat := none
  frames : Option Nat := none
  fileBytes : Option Nat := none
  writeBytes : Option Nat := none
  /-- The last setting, if its value was not looked at yet, with that value if it was read. -/
  open? : Option (Setting × Option String) := none

namespace Draft

/-- Give a setting its value. -/
def assign (draft : Draft) (setting : Setting) (text : String) : Except Ending Draft :=
  match setting with
  | .image =>
    if draft.image.isSome ∨ text.isEmpty then .error .misuse
    else .ok { draft with image := some text }
  | .sectors =>
    match draft.sectors, sectorNumber? text with
    | none, some n => .ok { draft with sectors := some n }
    | _, _ => .error .misuse
  | .frames =>
    match draft.frames, size? text with
    | none, some n => .ok { draft with frames := some n }
    | _, _ => .error .misuse
  | .fileBytes =>
    match draft.fileBytes, size? text with
    | none, some n => .ok { draft with fileBytes := some n }
    | _, _ => .error .misuse
  | .writeBytes =>
    match draft.writeBytes, size? text with
    | none, some n => .ok { draft with writeBytes := some n }
    | _, _ => .error .misuse

/-- Look at the value of the last setting, if that was not done yet. There has to be one. -/
def settle (draft : Draft) : Except Ending Draft :=
  match draft.open? with
  | none => .ok draft
  | some (_, none) => .error .misuse
  | some (setting, some text) => { draft with open? := none }.assign setting text

/-- Turn a switch on. -/
def turnOn (draft : Draft) (switch : Switch) : Except Ending Draft := do
  let draft ← draft.settle
  match switch with
  | .help => .error .help
  | .format => if draft.format then .error .misuse else .ok { draft with format := true }

/-- A setting, with its value if that is part of the argument. -/
def begin (draft : Draft) (setting : Setting) (text : Option String) : Except Ending Draft := do
  let draft ← draft.settle
  match text with
  | some text => draft.assign setting text
  | none => .ok { draft with open? := some (setting, none) }

/-- Short options that share an argument. -/
def readShort (draft : Draft) : List Char → Except Ending Draft
  | [] => .ok draft
  | c :: rest =>
    match Name.ofShort? c with
    | none => .error .misuse
    | some (.switch switch) => do
      let draft ← draft.turnOn switch
      readShort draft rest
    | some (.setting setting) =>
      match rest with
      | [] => draft.begin setting none
      | '=' :: text => draft.begin setting (some (String.ofList text))
      | text => draft.begin setting (some (String.ofList text))

/-- A long option, with what follows its `=` if there is one. -/
def readLong (draft : Draft) (name : String) (text : Option String) : Except Ending Draft :=
  match Name.ofLong? name, text with
  | some (.setting setting), text => draft.begin setting text
  | some (.switch switch), none => draft.turnOn switch
  | _, _ => .error .misuse

/-- An argument that is no option has to be the value of the last setting. -/
def readValue (draft : Draft) (text : String) : Except Ending Draft :=
  match draft.open? with
  | some (setting, none) => .ok { draft with open? := some (setting, some text) }
  | _ => .error .misuse

/-- Read the arguments one after the other. Nothing may follow `--`. -/
def read (draft : Draft) : List String → Except Ending Draft
  | [] => draft.settle
  | argument :: rest => do
    match argument.toList with
    | ['-', '-'] => if rest.isEmpty then draft.settle else .error .misuse
    | '-' :: '-' :: name =>
      let (name, text) := (name.takeWhile (· ≠ '='), name.dropWhile (· ≠ '='))
      let draft ← draft.readLong (String.ofList name)
        (if text.isEmpty then none else some (String.ofList text.tail))
      read draft rest
    | '-' :: c :: more =>
      let draft ← draft.readShort (c :: more)
      read draft rest
    | _ =>
      let draft ← draft.readValue argument
      read draft rest

end Draft

/-- What a list of arguments asks for. -/
def Options.ofArguments (arguments : List String) : Except Ending Options := do
  let draft ← Draft.read {} arguments
  match draft.image with
  | none => .error .misuse
  | some image =>
    .ok
      { image
        format := draft.format
        sectors := draft.sectors.getD 32768
        frames := draft.frames.getD 64
        fileBytes := draft.fileBytes.getD 24576
        writeBytes := draft.writeBytes.getD 65536 }

end InodeStore.Bench
