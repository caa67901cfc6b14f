import InodeStore.Proofs.Inode.Parts
import InodeStore.Proofs.Store.Watching
import InodeStore.Proofs.Volume.Leading
import InodeStore.Proofs.Volume.Twins
import InodeStore.Proofs.Volume.Usage

/-!
# `Proofs.Session.Safety` — no operation stops the machine

Where a caller has got to, an operation is carried out in machine words, with every check that a machine
makes: those of the arithmetic (`InodeStore.Checked`), those of the search for a free sector
(`FreeMap.scanChecked`), that a sector's frame is filled when the sector is found in the cache, and that a
handle is counted before it is closed. None of them fails, and no operation faults, so all end with an
answer; and the device is asked for sectors that it has, and for no others (`operation_safe`).

Two counters only go up: the accesses of the cache since it was reset, and the unclosed handles of an inode.
A machine stops if one of them comes to 2^64.
-/

namespace InodeStore

open Checked

/-! ## The search for a free sector -/

namespace FreeMap

/-- The search for a run of free sectors, with its numbers and indices checked. -/
def scanChecked (map : FreeMap) (count bit run : Nat) : Except Fault (Option Nat) :=
  if _hbit : bit < map.sectors then
    match map.groups[bit / 64]? with
    | none => .error .indexOutOfBounds
    | some group =>
      if bit % 64 = 0 ∧ group = fullGroup then
        match _hnext : add bit 64 with
        | .error e => .error e
        | .ok next => scanChecked map count next 0
      else
        match _hnext : add bit 1 with
        | .error e => .error e
        | .ok next =>
          if hasBit group (bit % 64) then scanChecked map count next 0
          else do
            let longer ← add run 1
            if longer = count then return some (← sub next count)
            else scanChecked map count next longer
  else .ok none
termination_by map.sectors - bit
decreasing_by
  all_goals
    have := add_ok _hnext
    omega

/-- Take the first run of `count` free sectors, each of which has to have a bit. -/
def allocateChecked (count : Nat) : Action FreeMap (Except Error SectorId) := fun map =>
  if count = 0 then ⟨.error .emptyAllocation, map, []⟩
  else
    match map.scanChecked count 0 0 with
    | .error e => ⟨.error e, map, []⟩
    | .ok none => ⟨.ok (.error .allocationExhausted), map, [.mapExhausted count]⟩
    | .ok (some first) =>
      match add first count with
      | .error e => ⟨.error e, map, []⟩
      | .ok last =>
        if last ≤ 64 * map.groups.size then
          ⟨.ok (.ok (UInt32.ofNat first)), map.assignRun first true count, []⟩
        else ⟨.error .indexOutOfBounds, map, []⟩

/-- A map has a bit for each of its sectors, and each sector has a number. -/
structure Sized (map : FreeMap) : Prop where
  bits : map.sectors ≤ 64 * map.groups.size
  addressable : map.sectors ≤ UInt32.size

variable {map : FreeMap}

theorem Lawful.sized (h : map.Lawful) : map.Sized where
  bits := by
    rw [h.size]
    omega
  addressable := h.addressable

theorem Sized.congr {map' : FreeMap} (h : map.Sized) (hsectors : map'.sectors = map.sectors)
    (hsize : map'.groups.size = map.groups.size) : map'.Sized where
  bits := by
    rw [hsectors, hsize]
    exact h.bits
  addressable := by
    rw [hsectors]
    exact h.addressable

/-- No check of the search fails. -/
theorem Sized.scanChecked_eq (h : map.Sized) {count bit run : Nat} (hrun : run ≤ bit)
    (hcount : run < count) : map.scanChecked count bit run = .ok (map.scan count bit run) := by
  have hbits := h.bits
  have haddress := h.addressable
  have hsize : UInt32.size + 64 < UInt64.size := by decide
  have hgroup : ∀ {bit}, bit < map.sectors →
      map.groups[bit / 64]? = some (map.groups[bit / 64]?.getD fullGroup) := by
    intro bit hbit
    rw [Array.getElem?_eq_getElem (by omega)]
    rfl
  -- one step of the search in a group that is not full
  have hstep : ∀ {bit run}, bit < map.sectors →
      ¬ (bit % 64 = 0 ∧ map.groups[bit / 64]?.getD fullGroup = fullGroup) →
      map.scanChecked count bit run =
        if hasBit (map.groups[bit / 64]?.getD fullGroup) (bit % 64) then
          map.scanChecked count (bit + 1) 0
        else (do
          let longer ← add run 1
          if longer = count then return some (← sub (bit + 1) count)
          else map.scanChecked count (bit + 1) longer) := by
    intro bit run hbit hfull
    have hadd : add bit 1 = .ok (bit + 1) := add_eq (by omega)
    rw [scanChecked, dif_pos hbit, hgroup hbit]
    show (if bit % 64 = 0 ∧ _ = fullGroup then _ else _) = _
    rw [if_neg hfull]
    split
    · next e he =>
      rw [hadd] at he
      cases he
    · next next hnext =>
      rw [hadd] at hnext
      obtain rfl := Except.ok.inj hnext
      rfl
  induction bit, run using scan.induct map count with
  | case1 bit run hbit group hfull ih =>
    have hadd : add bit 64 = .ok (bit + 64) := add_eq (by omega)
    rw [scan, if_pos hbit, if_pos hfull, scanChecked, dif_pos hbit, hgroup hbit]
    show (if bit % 64 = 0 ∧ _ = fullGroup then _ else _) = _
    rw [if_pos hfull]
    split
    · next e he =>
      rw [hadd] at he
      cases he
    · next next hnext =>
      rw [hadd] at hnext
      obtain rfl := Except.ok.inj hnext
      exact ih (Nat.zero_le _) (by omega)
  | case2 bit run hbit group hfull htaken ih =>
    rw [scan, if_pos hbit, if_neg hfull, if_pos htaken, hstep hbit hfull, if_pos htaken]
    exact ih (Nat.zero_le _) (by omega)
  | case3 bit run hbit group hfull htaken hlast =>
    rw [scan, if_pos hbit, if_neg hfull, if_neg htaken, if_pos hlast, hstep hbit hfull, if_neg htaken,
      add_eq (by omega)]
    show (if run + 1 = count then _ else _) = _
    rw [if_pos hlast, sub_eq (by omega)]
    rfl
  | case4 bit run hbit group hfull htaken hlast ih =>
    rw [scan, if_pos hbit, if_neg hfull, if_neg htaken, if_neg hlast, hstep hbit hfull, if_neg htaken,
      add_eq (by omega)]
    show (if run + 1 = count then _ else _) = _
    rw [if_neg hlast]
    exact ih (by omega) (by omega)
  | case5 bit run hbit =>
    rw [scan, if_neg hbit, scanChecked, dif_neg hbit]

/-- No check of an allocation fails. -/
theorem Sized.allocateChecked_eq (h : map.Sized) : allocateChecked 1 map = allocate 1 map := by
  have hscan : map.scanChecked 1 0 0 = _ := h.scanChecked_eq (Nat.zero_le 0) Nat.one_pos
  unfold allocateChecked allocate firstFit?
  rw [if_neg Nat.one_ne_zero, if_neg Nat.one_ne_zero, hscan]
  cases hfirst : map.scan 1 0 0 with
  | none => rfl
  | some first =>
    have hle := (scan_sound (Nat.zero_le _) (by decide) (fun s hs hs' => by omega) hfirst).1
    have hbits := h.bits
    have haddress := h.addressable
    have hsize : UInt32.size < UInt64.size := by decide
    have hadd : add first 1 = .ok (first + 1) := add_eq (by omega)
    have hlast : first + 1 ≤ 64 * map.groups.size := by omega
    simp only [hadd, if_pos hlast]

end FreeMap

/-- No call changes how many sectors the free map is of. -/
theorem Answers.sized {guarded : Bool} {c : Call} {p p' : Plain} {answer : Except Fault c.Answer}
    (h : Answers guarded c p answer p') (hmap : p.freeMap.Sized) : p'.freeMap.Sized := by
  refine hmap.congr ?_ h.groups_size
  cases h with
  | allocate =>
    show (FreeMap.allocate 1 p.freeMap).state.sectors = _
    unfold FreeMap.allocate
    rw [if_neg Nat.one_ne_zero]
    cases p.freeMap.firstFit? 1 with
    | none => rfl
    | some first => rfl
  | @release s =>
    show (FreeMap.release s 1 p.freeMap).state.sectors = _
    unfold FreeMap.release
    split
    · unfold FreeMap.releaseRun
      split <;> rfl
    · rfl
  | @loadMap bytes =>
    show (FreeMap.load bytes p.freeMap).state.sectors = _
    unfold FreeMap.load
    split <;> rfl
  | _ => rfl

/-! ## Calls and routines -/

section Machine

variable {δ : Type} {n : Nat} {α : Type}

/-- If a frame has the number of a sector, it has the sector's content, too. -/
def Cache.filled (cache : Cache δ n) (s : SectorId) : Bool :=
  match cache.frameOf? s with
  | some i => (cache.frame i).valid
  | none => true

/-- The counters of accesses and hits are numbers of 64 bits. -/
def Cache.Countable (cache : Cache δ n) : Prop :=
  cache.accesses < UInt64.size ∧ cache.hits < UInt64.size

instance (cache : Cache δ n) : Decidable cache.Countable := inferInstanceAs (Decidable (_ ∧ _))

/-- Where counters do not go down, they were numbers of 64 bits before if they are afterwards. -/
theorem Cache.Countable.before {cache cache' : Cache δ n} (h : cache'.Countable)
    (hle : cache.stats ≤ cache'.stats) : cache.Countable :=
  ⟨Nat.lt_of_le_of_lt hle.1 h.1, Nat.lt_of_le_of_lt hle.2.1 h.2⟩

/-- The numbers of unclosed handles are such numbers, too. -/
def Store.Countable (store : Store δ n) : Prop :=
  store.cache.Countable ∧ ∀ handle, store.registry.openCount handle < UInt64.size

namespace Store

variable [BlockDevice δ]

/-- An access to a sector, with what has to be so before and after it. -/
def accessChecked (s : SectorId) (action : Action (Store δ n) α) (store : Store δ n) :
    Option (Reply (Store δ n) α) :=
  if store.cache.filled s ∧ (action store).state.cache.Countable then some (action store) else none

/-- Carry out a call with all checks; there is no answer if one of the cache's fails. -/
def performChecked : (c : Call) → Store δ n → Option (Reply (Store δ n) c.Answer)
  | .view s => accessChecked s (perform (.view s))
  | .store s block => accessChecked s (perform (.store s block))
  | .update s change => accessChecked s (perform (.update s change))
  | .allocate => fun store => some (onMap (FreeMap.allocateChecked 1) store)
  | c => fun store => some (perform c store)

/-- Carry out a routine, each call with all checks. -/
def runChecked : Routine α → Store δ n → Option (Reply (Store δ n) (Except Error α))
  | .done a, store => some ⟨.ok (.ok a), store, []⟩
  | .halt (.refused e), store => some ⟨.ok (.error e), store, []⟩
  | .halt (.faulted e), store => some ⟨.error e, store, []⟩
  | .call c next, store =>
    match performChecked c store with
    | none => none
    | some ⟨answer, store, log⟩ =>
      (runChecked (next answer) store).map fun reply => { reply with log := log ++ reply.log }

end Store

variable [BlockDevice δ] [LawfulDevice δ] {store store' : Store δ n} {guarded : Bool} {c : Call}
  {p p' : Plain} {r : Routine α}

/-- A frame in use is filled. -/
theorem Stands.filled (h : Stands store p) (s : SectorId) : store.cache.filled s = true := by
  unfold Cache.filled
  split
  · next i hi => exact (h.coherent.toSound.used i (Cache.carries_of_frameOf? hi).1).1
  · rfl

/-- **A call** passes its checks. -/
theorem Stands.performChecked_eq (h : Stands store p) (hmap : p.freeMap.Sized)
    (hcount : (Store.perform c store).state.cache.Countable) :
    Store.performChecked c store = some (Store.perform c store) := by
  cases c with
  | view s => exact if_pos ⟨h.filled s, hcount⟩
  | store s block => exact if_pos ⟨h.filled s, hcount⟩
  | update s change => exact if_pos ⟨h.filled s, hcount⟩
  | allocate =>
    have hsized : store.freeMap.Sized := h.freeMap ▸ hmap
    obtain ⟨cache, freeMap, registry⟩ := store
    have hsame : FreeMap.allocateChecked 1 freeMap = FreeMap.allocate 1 freeMap :=
      hsized.allocateChecked_eq
    show some (Store.onMap (FreeMap.allocateChecked 1) ⟨cache, freeMap, registry⟩) =
      some (Store.onMap (FreeMap.allocate 1) ⟨cache, freeMap, registry⟩)
    simp only [Store.onMap, hsame]
  | _ => rfl

/-- **A routine** passes its checks, call by call, if it does not start the counters anew. -/
theorem Runs.runChecked_eq {ending : Except Halt α} (h : Runs guarded r p ending p') (hn : 0 < n)
    (hs : Stands store p) (hmap : p.freeMap.Sized) (hkeeps : r.Only (Call.renews · = false))
    (hcount : (store.run r).state.cache.Countable) : store.runChecked r = some (store.run r) := by
  induction h generalizing store with
  | done => rfl
  | @halt cause p => cases cause <;> rfl
  | @call c next p p₁ p₂ answer ending hanswer _ ih =>
    obtain ⟨store₁, log, hperform, hs₁, -⟩ := hanswer.perform_eq hn hs
    have hrun : store.run (.call c next) = _ :=
      Store.runAfter_eq ((Store.perform c store).log.reverseAux []) (Store.perform c store).state
        (next (Store.perform c store).result)
    rw [hperform] at hrun
    rw [hrun] at hcount
    have hfirst : (Store.perform c store).state.cache.Countable := by
      rw [hperform]
      exact hcount.before (Store.run_counts (hkeeps.2 answer) store₁)
    rw [hrun, Store.runChecked, hs.performChecked_eq hmap hfirst, hperform]
    show (store₁.runChecked (next answer)).map _ = _
    rw [ih hs₁ (hanswer.sized hmap) (hkeeps.2 answer) hcount]
    simp

end Machine

/-! ## Routines that make files -/

/-- To give back what was taken does not start the counters anew. -/
theorem reservingFrom_keeps {α : Type} {r : Routine α} (h : r.Only (Call.renews · = false))
    (taken : List SectorId) : (Routine.reservingFrom taken r).Only (Call.renews · = false) := by
  induction r generalizing taken with
  | done a => trivial
  | halt cause => exact (Routine.Fills.rollBack _).keeps.bind fun _ => trivial
  | call c next ih =>
    rw [Runs.reservingFrom_call]
    exact ⟨h.1, fun answer => ih answer (h.2 answer) _⟩

/-- One call that is no reset. -/
theorem perform_keeps {c : Call} (h : c.renews = false) :
    (Routine.perform c).Only (Call.renews · = false) := Routine.Only.perform h

theorem build_keeps (x : SectorId) (length : Nat) (isDir : Bool) :
    (Inode.build x length isDir).Only (Call.renews · = false) :=
  (Inode.grow_fills length).keeps.bind fun _ => perform_keeps rfl

theorem create_keeps (length : Nat) (isDir : Bool) :
    (Inode.create length isDir).Only (Call.renews · = false) := by
  have hallocate : Routine.allocate.Only (Call.renews · = false) := by
    refine (perform_keeps (c := .allocate) rfl).bind fun answer => ?_
    cases answer <;> trivial
  have hmake : (do
      let sector ← Routine.allocate
      Inode.build sector length isDir
      return sector : Routine SectorId).Only (Call.renews · = false) :=
    hallocate.bind fun x => (build_keeps x length isDir).bind fun _ => trivial
  exact (reservingFrom_keeps hmake []).bind fun _ => (perform_keeps (c := .emit _) rfl).bind fun _ => trivial

theorem createAt_keeps (x : SectorId) (length : Nat) (isDir : Bool) :
    (Inode.createAt x length isDir).Only (Call.renews · = false) :=
  (reservingFrom_keeps (build_keeps x length isDir) []).bind fun _ => perform_keeps rfl

/-! ## Operations -/

namespace Operation

/-- The numbers that a caller gives are numbers of 64 bits. -/
def InWords : Operation → Prop
  | create size _ | createAt _ size _ => size < UInt64.size
  | read _ offset buffer => offset < UInt64.size ∧ buffer.size < UInt64.size
  | write _ offset data => offset < UInt64.size ∧ data.size < UInt64.size
  | sectorOfByte _ offset => offset < UInt64.size
  | _ => True

/-- The routine that an operation carries out, in machine words and where `limit` bytes are more than there is
    memory for. -/
def checked? (limit : Nat) : (o : Operation) → Option (Routine o.Answer)
  | create size directory => some (Checked.create size directory)
  | createAt sector size directory => some (Checked.createAt sector size directory)
  | close handle => some (Checked.close handle)
  | read handle offset buffer => some (Checked.read handle offset buffer)
  | write handle offset data => some (Checked.write handle offset data)
  | length handle => some (Inode.length handle)
  | isDir handle => some (Inode.isDir handle)
  | sectorOfByte handle offset => some (Checked.sectorOfByte handle offset)
  | ownedSectors handle => some (Checked.ownedSectors limit handle.sector)
  | _ => none

/-- A handle more is a number of 64 bits, and a handle less is none below zero. -/
def Counts (registry : Registry) : Operation → Prop
  | openInode sector => registry.openCount ⟨sector⟩ + 1 < UInt64.size
  | reopen handle => registry.openCount handle + 1 < UInt64.size
  | close handle => 0 < registry.openCount handle
  | _ => True

instance (registry : Registry) : (o : Operation) → Decidable (o.Counts registry)
  | openInode _ | reopen _ | close _ => inferInstanceAs (Decidable (_ < _))
  | create _ _ | createAt _ _ _ | drop _ | remove _ | denyWrite _ | allowWrite _ | read _ _ _
  | write _ _ _ | length _ | isDir _ | sectorOfByte _ _ | ownedSectors _ | openCount _ | isRemoved _
  | openInodes | flush | reset => inferInstanceAs (Decidable True)

/-- Carry out an operation in machine words; there is no reply if a check fails. -/
def runChecked {δ : Type} {n : Nat} [BlockDevice δ] (o : Operation) (limit : Nat) (store : Store δ n) :
    Option (Reply (Store δ n) (Except Error o.Answer)) :=
  if o.Counts store.registry then
    match o.checked? limit with
    | some r => store.runChecked r
    | none => some (o.run store)
  else none

/-- In machine words it is the same routine, and one that does not start the counters anew. -/
theorem routine?_of_checked? {o : Operation} {limit : Nat} {r : Routine o.Answer} (hwords : o.InWords)
    (hlimit : Checked.listBytes < limit) (h : o.checked? limit = some r) :
    o.routine? = some r ∧ r.Only (Call.renews · = false) := by
  cases o with
  | create size isDir =>
    cases h
    rw [Checked.create_eq hwords]
    exact ⟨rfl, create_keeps size isDir⟩
  | createAt s size isDir =>
    cases h
    rw [Checked.createAt_eq hwords]
    exact ⟨rfl, createAt_keeps s size isDir⟩
  | close handle =>
    cases h
    rw [Checked.close_eq]
    exact ⟨rfl, (routine?_fills (o := .close handle) rfl rfl).keeps⟩
  | read handle offset buffer =>
    cases h
    rw [Checked.read_eq hwords.2]
    exact ⟨rfl, (routine?_fills (o := .read handle offset buffer) rfl rfl).keeps⟩
  | write handle offset data =>
    cases h
    rw [Checked.write_eq]
    exact ⟨rfl, (routine?_fills (o := .write handle offset data) rfl rfl).keeps⟩
  | length handle =>
    cases h
    exact ⟨rfl, (routine?_fills (o := .length handle) rfl rfl).keeps⟩
  | isDir handle =>
    cases h
    exact ⟨rfl, (routine?_fills (o := .isDir handle) rfl rfl).keeps⟩
  | sectorOfByte handle offset =>
    cases h
    rw [Checked.sectorOfByte_eq]
    exact ⟨rfl, (routine?_fills (o := .sectorOfByte handle offset) rfl rfl).keeps⟩
  | ownedSectors handle =>
    cases h
    rw [Checked.ownedSectors_eq hlimit]
    exact ⟨rfl, (routine?_fills (o := .ownedSectors handle) rfl rfl).keeps⟩
  | _ => cases h

end Operation

section Reached

variable {δ : Type} {n : Nat} [BlockDevice δ] [LawfulDevice δ] {store store' : Store δ n}
  {ledger : Ledger} {o : Operation} {p : Plain} {a : Archive}

/-- An operation that opens or closes a handle keeps count of the handles. -/
theorem Represents.counts (h : Represents p a) (hs : Stands store p) (hpermits : a.ledger.Permits o)
    (hcount : (o.run store).state.Countable) : o.Counts store.registry := by
  have hopened : ∀ s, (Registry.openInode s store.registry).state.openCount ⟨s⟩ =
      store.registry.openCount ⟨s⟩ + 1 := by
    intro s
    show ((store.registry.set s _).find? s |>.getD .fresh).openCount = _
    rw [Registry.find?_set, if_pos rfl]
    rfl
  cases o with
  | openInode s =>
    have hafter : (Registry.openInode s store.registry).state.openCount ⟨s⟩ < _ := hcount.2 ⟨s⟩
    rw [hopened] at hafter
    exact hafter
  | reopen handle =>
    have hafter : (Registry.openInode handle.sector store.registry).state.openCount ⟨handle.sector⟩ < _ :=
      hcount.2 ⟨handle.sector⟩
    rw [hopened] at hafter
    exact hafter
  | close handle =>
    have hentry : store.registry.entry handle = a.ledger.entry handle :=
      hs.registry ▸ h.entry handle
    show 0 < (store.registry.entry handle).openCount
    rw [hentry]
    exact (h.open_live hpermits).2
  | _ => trivial

/-- A store stands for the same blocks when its device is watched. -/
theorem Stands.watched (h : Stands store p) : Stands (store.watched []) p :=
  show Stands (store.mapDevice fun d => (⟨d, []⟩ : Watched δ)) p from
    h.mapDevice ⟨h.coherent.device, nofun⟩ rfl rfl

omit [LawfulDevice δ] in
/-- An operation does not notice that the device is watched. -/
theorem Operation.run_watched (o : Operation) : Store.Watches (δ := δ) (n := n) o.run o.run :=
  .of_follows fun asked => o.run_follows (Watched.shadows asked)

/-- An operation passes all checks, as long as the counters are numbers of 64 bits. -/
theorem Represents.runChecked_eq (h : Represents p a) (hn : 0 < n) (hs : Stands store p)
    (hpermits : a.ledger.Permits o) (hwords : o.InWords) {limit : Nat} (hlimit : Checked.listBytes < limit)
    (hcount : (o.run store).state.Countable) : o.runChecked limit store = some (o.run store) := by
  have hcounts := h.counts hs hpermits hcount
  unfold Operation.runChecked
  rw [if_pos hcounts]
  cases hchecked : o.checked? limit with
  | none => rfl
  | some r =>
    obtain ⟨hr, hkeeps⟩ := Operation.routine?_of_checked? hwords hlimit hchecked
    obtain ⟨p', hrun, -⟩ := h.gives hpermits hr
    have hmap : p.freeMap.Sized := h.lawful.sized
    rw [Operation.run_eq_of_routine? hr] at hcount ⊢
    exact hrun.runChecked_eq hn hs hmap hkeeps hcount.1

/-- **No operation stops the machine.** Wherever a caller has got to, with a store or a volume, an operation
    that may be asked for ends with an answer, whatever numbers of 64 bits it is given; the device is asked for
    sectors that it has, and for no others; and no check that a machine makes on the way fails, if there is
    memory for a list of all sectors of the longest file. The machine's counters are numbers of 64 bits as long
    as the cache was accessed less than 2^64 times since it was reset, and no inode has 2^64 unclosed handles
    (`Store.Countable`). -/
theorem operation_safe (h : Reached store ledger ∨ InUse store ledger) (hpermits : ledger.Permits o)
    (hwords : o.InWords) :
    ∃ answer store' log asked,
      o.run store = ⟨.ok answer, store', log⟩ ∧
      o.run (store.watched []) = ⟨.ok answer, store'.watched asked, log⟩ ∧
      (∀ s ∈ asked, s.toNat < BlockDevice.sectorCount store.cache.device) ∧
      ∀ limit, Checked.listBytes < limit → store'.Countable →
        o.runChecked limit store = some ⟨.ok answer, store', log⟩ := by
  obtain ⟨hn, p, a, hstands, hrepresents, rfl⟩ := represented h
  obtain ⟨store', log, p', hrun, hstands', -⟩ := hrepresents.answered_count hn hstands hpermits
  obtain ⟨asked, hwatched⟩ := o.run_watched store []
  obtain ⟨store₁, log₁, p₁, hrun₁, hstands₁, -, hcount₁⟩ :=
    hrepresents.answered_count hn hstands.watched hpermits
  rw [List.append_nil, hrun] at hwatched
  rw [hwatched] at hrun₁
  obtain ⟨-, rfl, -⟩ := Reply.mk.inj hrun₁
  refine ⟨_, store', log, asked, hrun, hwatched, ?_, fun limit hlimit hcount => ?_⟩
  · -- a watched device is sound only if it was asked for nothing that it does not have
    have hinside : Watched.Inside ⟨store'.cache.device, asked⟩ := hstands₁.coherent.device.2
    have hsame : BlockDevice.sectorCount store'.cache.device =
        BlockDevice.sectorCount store.cache.device :=
      hstands₁.count.trans (hcount₁.trans hstands.count.symm)
    intro s hs
    exact hsame ▸ hinside s hs
  · rw [← hrun]
    refine hrepresents.runChecked_eq hn hstands hpermits hwords hlimit ?_
    rw [hrun]
    exact hcount

end Reached

/-- A byte beyond the end of an empty file, through a cache of one frame. -/
theorem operation_safe_grown :
    openedLedger.Permits (.write ⟨0⟩ 3 #[7]) ∧
      ∃ answer store' log asked,
        (Operation.write ⟨0⟩ 3 #[7]).run openedStore = ⟨.ok answer, store', log⟩ ∧
        (Operation.write ⟨0⟩ 3 #[7]).run (openedStore.watched []) =
          ⟨.ok answer, store'.watched asked, log⟩ ∧
        (∀ s ∈ asked, s.toNat < BlockDevice.sectorCount openedStore.cache.device) ∧
        ∀ limit, Checked.listBytes < limit → store'.Countable →
          (Operation.write ⟨0⟩ 3 #[7]).runChecked limit openedStore = some ⟨.ok answer, store', log⟩ :=
  ⟨by decide +kernel, operation_safe (.inl openedStore_reached) (by decide +kernel) ⟨by decide, by decide⟩⟩

/-- No file has a byte at the last offset there is. -/
example : ((Operation.read ⟨0⟩ 18446744073709551615 #[1, 1]).run openedStore).result =
    .ok (.ok (0, #[1, 1])) := by
  decide +kernel

end InodeStore
