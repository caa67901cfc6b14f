import InodeStore.Proofs.Inode.Looking
import InodeStore.Proofs.Store.Sequences

/-!
# `Proofs.Inode.Words` — the routines of the inode layer in machine words

The numbers of a routine are of any size. A machine has 64 bits for each, and stops where a sum or a
difference is no such number, where a part of a byte string ends behind the string, and where a slot is
none of its table. `Checked` are the routines with all of these checks in them. No check ever fails: where
the arguments are numbers of 64 bits, and there is memory for a list of a file's sectors, the checked
routines are the others (`create_eq`, `extend_eq`, `ownedSectors_eq`, `close_eq`).
-/

namespace InodeStore.Checked

open Routine Inode

variable {a b k first last length : Nat} {d : Descriptor}

/-! ## Arithmetic -/

/-- A sum of 64 bits. -/
def add (a b : Nat) : Except Fault Nat :=
  if a + b < UInt64.size then .ok (a + b) else .error .sumOverflow

/-- A difference, which may not be below zero. -/
def sub (a b : Nat) : Except Fault Nat := if b ≤ a then .ok (a - b) else .error .differenceUnderflow

/-- A quotient, rounded up. -/
def ceilDiv (a b : Nat) : Except Fault Nat := if a % b = 0 then .ok (a / b) else add (a / b) 1

/-- One more on a counter of 32 bits with a sign. -/
def countUp (a : Nat) : Except Fault Nat := if a + 1 < 2147483648 then .ok (a + 1) else .error .sumOverflow

/-- Something that has so many parts has those from `first` up to `last`. -/
def range (size first last : Nat) : Except Fault Unit :=
  if first ≤ last ∧ last ≤ size then .ok () else .error .indexOutOfBounds

theorem add_eq (h : a + b < UInt64.size) : add a b = .ok (a + b) := if_pos h

theorem sub_eq (h : b ≤ a) : sub a b = .ok (a - b) := if_pos h

theorem add_ok {c : Nat} (h : add a b = .ok c) : c = a + b := by
  unfold add at h
  split at h
  · exact (Except.ok.inj h).symm
  · cases h

theorem sub_ok {c : Nat} (h : sub a b = .ok c) : c = a - b := by
  unfold sub at h
  split at h
  · exact (Except.ok.inj h).symm
  · cases h

/-- Checked values come one after the other. -/
theorem of_bind {α β : Type} {value : Except Fault α} {f : α → Except Fault β} {result : β}
    (h : (value >>= f) = .ok result) : ∃ a, value = .ok a ∧ f a = .ok result := by
  cases value with
  | error e => cases h
  | ok a => exact ⟨a, rfl, h⟩

theorem range_eq {size : Nat} (h : first ≤ last) (h' : last ≤ size) : range size first last = .ok () :=
  if_pos ⟨h, h'⟩

/-- Blocks that `length` bytes fill or begin to fill. -/
def dataBlocks (length : Nat) : Except Fault Nat := ceilDiv length sectorSize

/-- So many blocks and the index block, if they need one. -/
def withIndex (blocks : Nat) : Except Fault Nat := if 12 < blocks then add blocks 1 else .ok blocks

/-- The second index block and the further ones that hang on it, if so many blocks need them. -/
def outerBlocks (blocks : Nat) : Except Fault Nat :=
  if 140 < blocks then do
    let rest ← sub blocks 140
    let indexes ← ceilDiv rest 128
    add 1 indexes
  else .ok 0

/-- Blocks of a file of `length` bytes, index blocks included and the descriptor left out. -/
def totalBlocks (length : Nat) : Except Fault Nat := do
  let blocks ← dataBlocks length
  let total ← withIndex blocks
  let outer ← outerBlocks blocks
  add total outer

/-- The slot of an index block. -/
def slot (k : Nat) : Except Fault (Fin 128) :=
  if h : k < 128 then .ok ⟨k, h⟩ else .error .indexOutOfBounds

/-- The place of block `k` of a file, if a file can have so many blocks. -/
def place? (k : Nat) : Except Fault (Option Position) :=
  if h : k < 12 then .ok (some (.direct ⟨k, h⟩))
  else if k < 140 then do
    let rest ← sub k 12
    return some (.indirect (← slot rest))
  else do
    let rest ← sub k 140
    if rest / 128 < 128 then return some (.doubly (← slot (rest / 128)) (← slot (rest % 128)))
    else return none

theorem ceilDiv_eq (hb : 0 < b) (h : a / b + 1 < UInt64.size) :
    ceilDiv a b = .ok ((a + (b - 1)) / b) := by
  have hsplit : a + (b - 1) = b * (a / b) + (a % b + (b - 1)) := by
    rw [← Nat.add_assoc, Nat.div_add_mod]
  have hmod := Nat.mod_lt a hb
  unfold ceilDiv
  rw [hsplit, Nat.mul_add_div hb]
  by_cases hexact : a % b = 0
  · rw [if_pos hexact, hexact, Nat.zero_add, Nat.div_eq_of_lt (Nat.sub_lt hb Nat.one_pos), Nat.add_zero]
  · have hone : (a % b + (b - 1)) / b = 1 := Nat.div_eq_of_lt_le (by omega) (by omega)
    rw [if_neg hexact, hone, add_eq h]

theorem dataBlocks_eq (h : length < UInt64.size) :
    dataBlocks length = .ok (InodeStore.dataBlocks length) := by
  have hsize : UInt64.size = 18446744073709551616 := rfl
  exact ceilDiv_eq (by decide) (by show length / 512 + 1 < _; omega)

theorem withIndex_eq {blocks : Nat} (hblocks : blocks < UInt32.size) :
    withIndex blocks = .ok (blocks + if 12 < blocks then 1 else 0) := by
  have hadd : add blocks 1 = .ok (blocks + 1) :=
    add_eq (Nat.lt_of_le_of_lt (Nat.succ_le_of_lt hblocks) (by decide))
  unfold withIndex
  by_cases hindex : 12 < blocks
  · rw [if_pos hindex, if_pos hindex, hadd]
  · rw [if_neg hindex, if_neg hindex, Nat.add_zero]

theorem outerBlocks_eq {blocks : Nat} (hblocks : blocks < UInt32.size) :
    outerBlocks blocks = .ok (if 140 < blocks then 1 + (blocks - 140 + 127) / 128 else 0) := by
  have hsize : UInt64.size = 18446744073709551616 := rfl
  have hsize' : UInt32.size = 4294967296 := rfl
  unfold outerBlocks
  by_cases hmany : 140 < blocks
  · have hsub : sub blocks 140 = .ok (blocks - 140) := sub_eq (Nat.le_of_lt hmany)
    have hdiv : ceilDiv (blocks - 140) 128 = .ok ((blocks - 140 + 127) / 128) :=
      ceilDiv_eq (by decide) (by omega)
    have hadd : add 1 ((blocks - 140 + 127) / 128) = .ok (1 + (blocks - 140 + 127) / 128) :=
      add_eq (by omega)
    rw [if_pos hmany, if_pos hmany, hsub]
    simp only [bind, Except.bind, hdiv, hadd]
  · rw [if_neg hmany, if_neg hmany]

theorem totalBlocks_eq (h : length < UInt32.size) :
    totalBlocks length = .ok (InodeStore.totalBlocks length) := by
  have hsize : UInt64.size = 18446744073709551616 := rfl
  have hsize' : UInt32.size = 4294967296 := rfl
  have hblocks : InodeStore.dataBlocks length < UInt32.size := by
    unfold InodeStore.dataBlocks
    omega
  unfold totalBlocks InodeStore.totalBlocks
  rw [dataBlocks_eq (Nat.lt_trans h (by decide))]
  simp only [bind, Except.bind, withIndex_eq hblocks, outerBlocks_eq hblocks]
  exact add_eq (by split <;> split <;> omega)

theorem slot_eq (h : k < 128) : slot k = .ok ⟨k, h⟩ := dif_pos h

/-- A block has its place without a check that fails. -/
theorem place?_eq (k : Nat) : place? k = .ok (Position.of? k) := by
  unfold place? Position.of?
  by_cases hdirect : k < 12
  · rw [dif_pos hdirect, dif_pos hdirect]
  rw [dif_neg hdirect, dif_neg hdirect]
  by_cases hindirect : k < 140
  · have hslot : k - 12 < 128 := by omega
    rw [if_pos hindirect, dif_pos hslot, sub_eq (Nat.le_of_not_lt hdirect)]
    simp only [bind, Except.bind, slot_eq hslot]
    rfl
  · have hslot : ¬ k - 12 < 128 := by omega
    rw [if_neg hindirect, dif_neg hslot, sub_eq (Nat.le_of_not_lt hindirect)]
    simp only [bind, Except.bind]
    by_cases houter : (k - 140) / 128 < 128
    · rw [if_pos houter, dif_pos houter, slot_eq houter, slot_eq (Nat.mod_lt _ (by decide))]
      rfl
    · rw [if_neg houter, dif_neg houter]
      rfl

/-- The place of the block that holds byte `offset`, if the file has that byte. -/
def locate? (d : Descriptor) (offset : Nat) : Except Fault (Option Position) :=
  if offset < d.size then place? (offset / sectorSize) else .ok none

theorem locate?_eq (d : Descriptor) (offset : Nat) :
    locate? d offset = .ok (Inode.locate? d offset) := by
  unfold locate? Inode.locate?
  by_cases h : offset < d.size
  · rw [if_pos h, if_pos h, place?_eq]
  · rw [if_neg h, if_neg h]

/-- A length is a number of 32 bits. -/
theorem size_lt (d : Descriptor) : d.size < UInt32.size := d.length.toNat_lt

theorem dataBlocks_size_eq (d : Descriptor) : dataBlocks d.size = .ok (InodeStore.dataBlocks d.size) :=
  dataBlocks_eq (Nat.lt_trans (size_lt d) (by decide))

/-- A bound on the sectors of a file whose length is a number of 32 bits. -/
theorem dataBlocks_le (d : Descriptor) : InodeStore.dataBlocks d.size ≤ 8388608 := by
  have hlength : d.size < 4294967296 := size_lt d
  unfold InodeStore.dataBlocks
  omega

/-! ## Routines -/

/-- Go on with a checked value. -/
def checked {α : Type} : Except Fault α → Routine α
  | .ok value => done value
  | .error e => fault e

/-! ### New files -/

/-- Hang `count` new blocks on a file from block `k` on. -/
def growFrom (k : Nat) (d : Descriptor) : (count : Nat) → Routine Descriptor
  | 0 => return d
  | count + 1 => do
    match ← checked (place? k) with
    | none => return d
    | some place => do
      let d ← attach d place
      growFrom (k + 1) d count

/-- The descriptor of a file lengthened to `length` bytes. -/
def grow (d : Descriptor) (length : Nat) : Routine Descriptor := do
  if maxFileSize < length then refuse .fileTooLarge
  else
    let old ← checked (dataBlocks d.size)
    let new ← checked (dataBlocks length)
    let d ← growFrom old d (new - old)
    return { d with length := UInt32.ofNat length }

/-- Make a file of `length` zeros at a sector. -/
def build (sector : SectorId) (length : Nat) (isDir : Bool) : Routine Unit := do
  let d ← grow (.empty isDir) length
  save sector d

/-- Make a file of `length` zeros. -/
def create (length : Nat) (isDir : Bool) : Routine SectorId := do
  let (sector, sectors) ← reserving do
    let sector ← allocate
    build sector length isDir
    return sector
  emit (.inodeCreated sector length sectors)
  return sector

/-- Make a file of `length` zeros at a sector the caller has reserved. -/
def createAt (sector : SectorId) (length : Nat) (isDir : Bool) : Routine Unit := do
  let ((), sectors) ← reserving (build sector length isDir)
  emit (.inodeCreated sector length sectors)

/-- Lengthen a file on record. -/
def extend (sector : SectorId) (d : Descriptor) (length : Nat) : Routine Descriptor := do
  let (grown, sectors) ← reserving do
    let grown ← grow d length
    save sector grown
    return grown
  emit (.inodeGrown sector d.size length sectors)
  return grown

theorem growFrom_eq (k : Nat) (d : Descriptor) (count : Nat) :
    growFrom k d count = Inode.growFrom k d count := by
  induction count generalizing k d with
  | zero => rfl
  | succ count ih =>
    unfold growFrom Inode.growFrom
    rw [place?_eq]
    show (match Position.of? k with
      | none => _
      | some place => _) = _
    cases Position.of? k with
    | none => rfl
    | some place => exact congrArg (attach d place >>= ·) (funext fun d => ih (k + 1) d)

theorem grow_eq (h : length < UInt64.size) : grow d length = Inode.grow d length := by
  unfold grow Inode.grow
  by_cases hlong : maxFileSize < length
  · rw [if_pos hlong, if_pos hlong]
  · rw [if_neg hlong, if_neg hlong, dataBlocks_size_eq d, dataBlocks_eq h]
    show (growFrom _ d _ >>= _) = _
    rw [growFrom_eq]

theorem build_eq {sector : SectorId} {isDir : Bool} (h : length < UInt64.size) :
    build sector length isDir = Inode.build sector length isDir := by
  unfold build Inode.build
  rw [grow_eq h]

theorem create_eq {isDir : Bool} (h : length < UInt64.size) :
    create length isDir = Inode.create length isDir := by
  unfold create Inode.create
  simp only [build_eq h]

theorem createAt_eq {sector : SectorId} {isDir : Bool} (h : length < UInt64.size) :
    createAt sector length isDir = Inode.createAt sector length isDir := by
  unfold createAt Inode.createAt
  rw [build_eq h]

theorem extend_eq {sector : SectorId} (h : length < UInt64.size) :
    extend sector d length = Inode.extend sector d length := by
  unfold extend Inode.extend
  rw [grow_eq h]

/-! ### All sectors -/

/-- Visit `count` blocks of a file from block `k` on. -/
def visitFrom {β : Type} (visit : β → SectorId → Routine β) (d : Descriptor) (k : Nat)
    (walk : Walk β) : (count : Nat) → Routine β
  | 0 => return walk.state
  | count + 1 => do
    match ← checked (place? k) with
    | none => return walk.state
    | some place => do
      let walk ← visitBlock visit d walk place
      visitFrom visit d (k + 1) walk count

/-- Visit the data and index blocks of a file in the order they were allocated in. -/
def visitOwned {β : Type} (visit : β → SectorId → Routine β) (state : β) (d : Descriptor) :
    Routine β := do
  let blocks ← checked (dataBlocks d.size)
  visitFrom visit d 0 ⟨Block.zero, Block.zero, state⟩ blocks

/-- Memory for so many sector numbers is asked for at once, where `limit` bytes are more than there is. -/
def demand (limit count : Nat) : Except Fault Unit :=
  match Fault.ofDemand? (4 * count) limit with
  | some e => .error e
  | none => .ok ()

/-- Bytes that the numbers of all sectors of the longest file take. -/
def listBytes : Nat := 4 * (InodeStore.totalBlocks maxFileSize + 1)

/-- All sectors of a file, in a list that has room for all of them from the start. -/
def ownedSectors (limit : Nat) (sector : SectorId) : Routine (List SectorId) := do
  let d ← load sector
  let total ← checked (totalBlocks d.size)
  let count ← checked (add total 1)
  checked (demand limit count)
  let visited ← visitOwned (fun visited s => return s :: visited) [] d
  return (sector :: visited).reverse

/-- Give a sector back and count it, if the counter goes so far. -/
def tallyChecked (released : Nat) (s : SectorId) : Routine Nat := do
  release s
  checked (countUp released)

/-- Give back all sectors of a file. -/
def releaseInode (sector : SectorId) : Routine Unit := do
  let d ← load sector
  let released ← visitOwned tallyChecked 0 d
  release sector
  emit (.inodeReleased sector released)

/-- End a handle. The last one of a removed file gives the file's sectors back. -/
def close (handle : Handle) : Routine Unit := do
  if ← closeHandle handle then releaseInode handle.sector

theorem visitFrom_eq {β : Type} (visit : β → SectorId → Routine β) (walk : Walk β) (count : Nat) :
    visitFrom visit d k walk count = Inode.visitFrom visit d k walk count := by
  induction count generalizing k walk with
  | zero => rfl
  | succ count ih =>
    unfold visitFrom Inode.visitFrom
    rw [place?_eq]
    show (match Position.of? k with
      | none => _
      | some place => _) = _
    cases Position.of? k with
    | none => rfl
    | some place => exact congrArg (visitBlock visit d walk place >>= ·) (funext fun walk => ih walk)

theorem visitOwned_eq {β : Type} (visit : β → SectorId → Routine β) (state : β) (d : Descriptor) :
    visitOwned visit state d = Inode.visitOwned visit state d := by
  unfold visitOwned
  rw [dataBlocks_size_eq d]
  exact visitFrom_eq visit _ _

/-! ### What a routine may yield -/

/-- Every value that a routine may yield is of a kind. -/
def Yields {α : Type} (P : α → Prop) : Routine α → Prop
  | .done a => P a
  | .halt _ => True
  | .call _ next => ∀ answer, Yields P (next answer)

namespace Yields

variable {α β : Type} {P : α → Prop} {Q : β → Prop} {r : Routine α}

theorem bind {f : α → Routine β} (h : Yields P r) (hnext : ∀ a, P a → Yields Q (f a)) :
    Yields Q (r >>= f) := by
  induction r with
  | done a => exact hnext a h
  | halt cause => trivial
  | call c next ih => exact fun answer => ih answer (h answer)

theorem perform (c : Call) : Yields (fun _ => True) (Routine.perform c) := fun answer => by
  cases answer <;> trivial

/-- What follows a routine matters for the values that it may yield. -/
theorem bind_congr {f g : α → Routine β} (h : Yields P r) (hnext : ∀ a, P a → f a = g a) :
    (r >>= f) = (r >>= g) := by
  induction r with
  | done a => exact hnext a h
  | halt cause => rfl
  | call c next ih => exact congrArg (Routine.call c) (funext fun answer => ih answer (h answer))

end Yields

/-- A descriptor that was read is that of a file that is not too long. -/
theorem load_yields (sector : SectorId) : Yields (fun d => d.size ≤ maxFileSize) (load sector) := by
  unfold load
  refine (Yields.perform (.view sector)).bind fun block _ => ?_
  dsimp only
  split
  · trivial
  · split
    · trivial
    · next hshort => exact Nat.le_of_not_lt hshort

/-- There is memory for the list of a file's sectors if there is for the longest one. -/
theorem demand_eq {limit : Nat} (hlimit : listBytes < limit) (hsize : d.size ≤ maxFileSize) :
    demand limit (InodeStore.totalBlocks d.size + 1) = .ok () := by
  have hcount : 4 * (InodeStore.totalBlocks d.size + 1) ≤ listBytes :=
    Nat.mul_le_mul_left 4 (Nat.succ_le_succ (totalBlocks_mono hsize))
  have hbytes : listBytes < memoryBound := by decide
  have hroom := (Fault.ofDemand?_eq_none_iff (4 * (InodeStore.totalBlocks d.size + 1)) limit).mpr
    ⟨Nat.lt_of_le_of_lt hcount hbytes, Nat.lt_of_le_of_lt hcount hlimit⟩
  unfold demand
  rw [hroom]

theorem ownedSectors_eq {limit : Nat} (hlimit : listBytes < limit) (sector : SectorId) :
    ownedSectors limit sector = Inode.ownedSectors sector := by
  unfold ownedSectors Inode.ownedSectors
  refine (load_yields sector).bind_congr fun d hd => ?_
  have htotal : InodeStore.totalBlocks d.size + 1 ≤ InodeStore.totalBlocks maxFileSize + 1 :=
    Nat.succ_le_succ (totalBlocks_mono hd)
  have hadd : add (InodeStore.totalBlocks d.size) 1 = .ok (InodeStore.totalBlocks d.size + 1) :=
    add_eq (Nat.lt_of_le_of_lt htotal (by decide))
  rw [totalBlocks_eq (size_lt d)]
  show (checked (add _ 1) >>= _) = _
  rw [hadd]
  show (checked (demand limit _) >>= _) = _
  rw [demand_eq hlimit hd]
  show (visitOwned _ _ d >>= _) = _
  rw [visitOwned_eq]

/-! ### The count of the sectors given back -/

variable {walk : Walk Nat}

/-- Give a sector back and count it. -/
def tally (released : Nat) (s : SectorId) : Routine Nat := do
  release s
  return released + 1

theorem tally_yields (released : Nat) (s : SectorId) : Yields (· = released + 1) (tally released s) :=
  (Yields.perform (.release s)).bind fun _ _ => rfl

theorem tallyChecked_eq {released : Nat} (h : released + 1 < 2147483648) (s : SectorId) :
    tallyChecked released s = tally released s := by
  have hcount : countUp released = .ok (released + 1) := if_pos h
  unfold tallyChecked tally
  rw [hcount]
  rfl

/-- An index block is given back if it begins with this block. -/
theorem index_yields {begins : Prop} [Decidable begins] (s : SectorId) {put : Nat → Block → Walk Nat}
    (hput : ∀ state b, (put state b).state = state) :
    Yields (fun after => after.state ≤ walk.state + 1)
      (if begins then tally walk.state s >>= fun state => view s >>= fun b => pure (put state b)
        else pure walk) := by
  split
  · apply (tally_yields walk.state s).bind
    rintro _ rfl
    exact (Yields.perform (.view s)).bind fun b _ => Nat.le_of_eq (hput _ b)
  · exact Nat.le_succ _

/-- Up to three sectors are given back with a block. -/
theorem visitBlock_yields (walk : Walk Nat) (place : Position) :
    Yields (fun after => after.state ≤ walk.state + 3) (visitBlock tally d walk place) := by
  have hone : ∀ {walk' : Walk Nat} (s : SectorId), walk'.state ≤ walk.state + 2 →
      Yields (fun after => after.state ≤ walk.state + 3)
        (tally walk'.state s >>= fun state => pure { walk' with state }) := by
    intro walk' s h
    apply (tally_yields walk'.state s).bind
    rintro _ rfl
    exact Nat.succ_le_succ h
  cases place with
  | direct slot => exact hone (d.direct.get slot) (by omega)
  | indirect slot =>
    rw [visitBlock_indirect]
    exact (index_yields d.indirect fun _ _ => rfl).bind fun after h => hone _ (by omega)
  | doubly outer inner =>
    rw [visitBlock_doubly]
    apply (index_yields d.doublyIndirect fun _ _ => rfl).bind
    intro first hfirst
    apply (index_yields (first.outerIndex.pointer outer) fun _ _ => rfl).bind
    intro second hsecond
    exact hone _ (by omega)

/-- Where the counter goes far enough, the check makes no difference. -/
theorem visitBlock_eq (h : walk.state + 3 < 2147483648) (place : Position) :
    visitBlock tallyChecked d walk place = visitBlock tally d walk place := by
  cases place with
  | direct slot =>
    have hone : walk.state + 1 < 2147483648 := by omega
    exact congrArg (· >>= fun state => pure { walk with state }) (tallyChecked_eq hone _)
  | indirect slot =>
    rw [visitBlock_indirect, visitBlock_indirect, tallyChecked_eq (by omega)]
    apply (index_yields d.indirect fun _ _ => rfl).bind_congr
    intro first hfirst
    rw [tallyChecked_eq (by omega)]
  | doubly outer inner =>
    rw [visitBlock_doubly, visitBlock_doubly, tallyChecked_eq (by omega)]
    apply (index_yields d.doublyIndirect fun _ _ => rfl).bind_congr
    intro first hfirst
    rw [tallyChecked_eq (by omega)]
    apply (index_yields (first.outerIndex.pointer outer) fun _ _ => rfl).bind_congr
    intro second hsecond
    rw [tallyChecked_eq (by omega)]

theorem tallies_eq (count : Nat) (h : walk.state + 3 * count < 2147483648) :
    Inode.visitFrom tallyChecked d k walk count = Inode.visitFrom tally d k walk count := by
  induction count generalizing k walk with
  | zero => rfl
  | succ count ih =>
    unfold Inode.visitFrom
    cases Position.of? k with
    | none => rfl
    | some place =>
      show (visitBlock tallyChecked d walk place >>= _) = _
      rw [visitBlock_eq (by omega)]
      apply (visitBlock_yields walk place).bind_congr
      intro after hafter
      exact ih (by omega)

theorem releaseInode_eq (sector : SectorId) : releaseInode sector = Inode.releaseInode sector := by
  unfold releaseInode Inode.releaseInode
  refine congrArg (load sector >>= ·) (funext fun d => ?_)
  have hblocks := dataBlocks_le d
  rw [visitOwned_eq]
  exact congrArg (· >>= _) (tallies_eq _ (by show 0 + 3 * _ < _; omega))

theorem close_eq (handle : Handle) : close handle = Inode.close handle := by
  unfold close Inode.close
  rw [releaseInode_eq]

end InodeStore.Checked
