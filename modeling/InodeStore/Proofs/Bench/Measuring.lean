import InodeStore.Proofs.Bench.Scratch
import InodeStore.Proofs.Volume.Twins

/-!
# `Proofs.Bench.Measuring` — what the measurements come to

Both measurements get done without a fault on a volume in use, and whether they are refused is known from
the free map alone: the first writes a file at once (`measureReads_leads`), the second byte by byte
(`measureWrites_leads`), and each byte may need a sector more (`claimEach`). The free map is in the end what
it was. So is the free-map file where the first measurement is refused; but where the second is, the file has
the free map with the scratch file in it.
-/

namespace InodeStore

open Inode Volume Bench

/-! ## Archives -/

namespace Archive

variable {a a' : Archive} {x : SectorId} {data : Bytes}

/-- What is written over nothing is the content. -/
theorem written_empty {f : FileRecord} (hf : f.bytes = #[]) (data : Bytes) (new : List SectorId) :
    (f.written 0 data new).bytes = data := by
  have hsize : (f.written 0 data new).bytes.size = data.size := by
    rw [size_written, hf, Nat.zero_add]
    exact Nat.max_eq_right (Nat.zero_le _)
  have hpadded : (padded f.bytes (max f.bytes.size (0 + data.size))).size = data.size := by
    rw [size_padded (Nat.le_max_left _ _), hf, Nat.zero_add]
    exact Nat.max_eq_right (Nat.zero_le _)
  have hfront : (f.written 0 data new).bytes.extract 0 data.size = data :=
    extract_patched (Nat.le_of_eq hpadded.symm)
  rw [← hsize, Array.extract_size] at hfront
  exact hfront

/-- A new scratch file is empty. -/
theorem new_scratch (a : Archive) (x : SectorId) : (a.withScratch x).record ⟨x⟩ = .zeros false 0 [] :=
  a.record_filed x _ [x]

/-- Some bytes are written into a scratch file. -/
theorem Scratch.write_eq (h : a.Scratch x a') (offset : Nat) (hdata : data.size ≠ 0) :
    a'.write ⟨x⟩ offset data =
      match claim a'.freeMap (a'.record ⟨x⟩).bytes.size (offset + data.size) with
      | .ok new => (.ok data.size, a'.filed x ((a'.record ⟨x⟩).written offset data new) new)
      | .error e => (.error e, a') := by
  have hskips : ¬ a'.ledger.Skips ⟨x⟩ data := by
    unfold Ledger.Skips
    rw [h.entry]
    exact fun hskips => hskips.elim (Nat.lt_irrefl 0) hdata
  exact if_neg hskips

/-- All bytes at once are written into a new scratch file, or none if they cannot be. -/
theorem Vacant.fill (h : a.Vacant x) (data : Bytes) :
    match claim (a.freeMap.assign x.toNat true) 0 data.size with
    | .error e => (a.withScratch x).write ⟨x⟩ 0 data = (.error e, a.withScratch x)
    | .ok _ => ((a.withScratch x).write ⟨x⟩ 0 data).1 = .ok data.size ∧
        (((a.withScratch x).write ⟨x⟩ 0 data).2.record ⟨x⟩).bytes = data := by
  by_cases hdata : data.size = 0
  · have hskips : (a.withScratch x).ledger.Skips ⟨x⟩ data := .inr hdata
    have hclaim : claim (a.freeMap.assign x.toNat true) 0 data.size = .ok [] :=
      claim_inside _ (Nat.le_of_eq hdata) (Nat.zero_le _)
    rw [hclaim]
    unfold Archive.write
    dsimp only
    rw [if_pos hskips, new_scratch, hdata]
    exact ⟨rfl, (Array.eq_empty_of_size_eq_zero hdata).symm⟩
  · have hwrite := h.scratch.write_eq 0 hdata
    rw [new_scratch, Nat.zero_add] at hwrite
    have hwrite : (a.withScratch x).write ⟨x⟩ 0 data =
        match claim (a.freeMap.assign x.toNat true) 0 data.size with
        | .ok new => _
        | .error e => _ := hwrite
    rw [hwrite]
    cases claim (a.freeMap.assign x.toNat true) 0 data.size with
    | error e => rfl
    | ok new =>
      exact ⟨rfl, (congrArg FileRecord.bytes (record_filed _ x _ new)).trans (written_empty rfl data new)⟩

/-- To persist the volume leaves every other file as it is. -/
theorem Kept.record_persisted (hkept : a'.Kept) (hs : a'.Sound)
    (hlong : (a'.record freeMapFile).bytes.size ≤ maxFileSize) (hx : x ≠ freeMapSector) :
    a'.persisted.record? x = a'.record? x := by
  rw [hkept.persisted_eq hs hlong]
  exact Function.update_of_ne hx _ _

end Archive

/-! ## Reading -/

/-- The part of a file up to a byte that may be beyond its end. -/
theorem extract_min (bytes : Bytes) (first last : Nat) :
    bytes.extract first (min last bytes.size) = bytes.extract first last := by
  apply Array.ext_getElem?
  intro i
  rw [Array.getElem?_extract, Array.getElem?_extract, Nat.min_assoc, Nat.min_self]

/-- A file is what it is compared with. -/
theorem Inode.FileAt.checkFrom_runs {p : Plain} {x : SectorId} {d : Descriptor} {f : FileRecord}
    (h : FileAt p x d f) (k count : Nat) :
    Runs true (checkFrom ⟨x⟩ f.bytes k count) p (.ok none) p := by
  induction count generalizing k with
  | zero => exact Runs.pure none
  | succ count ih =>
    apply h.read_runs.bind
    rw [extract_min, ← Nat.mul_succ, if_neg (not_not_intro rfl)]
    exact ih (k + 1)

theorem checkFrom_renews (handle : Handle) (expected : Bytes) (k count : Nat) :
    (checkFrom handle expected k count).Only (Call.renews · = false) := by
  induction count generalizing k with
  | zero => trivial
  | succ count ih =>
    refine (read_looks _ _).fills_of_view.keeps.bind fun found => ?_
    split
    · trivial
    · exact ih (k + 1)

section Volumes

variable {δ : Type} {n : Nat} [BlockDevice δ] [LawfulDevice δ] {store : Store δ n} {p : Plain}
  {a a' : Archive} {x : SectorId}

/-- What was counted since an earlier sample can be told. -/
theorem Serves.countedSince (h : Serves store p a) {base : CacheStats} (hbase : base ≤ store.cache.stats) :
    Leads store (countedSince base) fun answer _ a' => ∃ counted, answer = .ok counted ∧ a' = a := by
  obtain ⟨counted, hcounted⟩ := CacheStats.since_ok hbase
  refine Leads.cacheStats ?_
  rw [hcounted]
  exact .pure h ⟨counted, rfl, rfl⟩

/-- **A pass over a file** finds nothing else than what is in it. -/
theorem Serves.passOver (h : Serves store p a) {f : FileRecord} (hf : a.record? x = some f) :
    Leads store (passOver ⟨x⟩ f.bytes) fun answer _ a' =>
      ∃ found, answer = .ok found ∧ ∃ counted, found = .ok counted ∧ a' = a := by
  obtain ⟨d, hfile⟩ := h.represents.fileAt hf
  have hgives : Gives true (checkFrom ⟨x⟩ f.bytes 0 (dataBlocks f.bytes.size)) p (.ok none, a) :=
    ⟨p, hfile.checkFrom_runs 0 _, h.represents⟩
  have hcheck := (h.gives hgives h.kept rfl).counting (checkFrom_renews _ _ _ _)
  refine Leads.cacheStats (hcheck.bind (fun hserves hmid => ?_) fun hmid => ?_)
  · obtain ⟨hcounts, hanswer, ha⟩ := hmid
    cases hanswer
    refine (hserves.countedSince hcounts).next fun hserves hmid => ?_
    exact .pure hserves ⟨_, rfl, _, rfl, hmid.trans ha⟩
  · cases hmid.2.1

/-- A scratch file may be written to. -/
theorem Archive.Vacant.admits_write (h : a.Vacant x) (hscratch : a.Scratch x a') (offset : Nat)
    (data : Bytes) : a'.ledger.Admits (.write ⟨x⟩ offset data) :=
  ⟨hscratch.hasOpen, fun he => absurd (congrArg Handle.sector (Option.some.inj he)) h.apart⟩

/-- What the first measurement comes to, with a scratch file at `x`, and what the free-map file is then:
    there has to be room for all bytes. -/
def ReadsTo (a : Archive) (x : SectorId) (bytes : Nat) (answer : Except Error (Except Nat Passes))
    (mapFile : FileRecord) : Prop :=
  match claim (a.freeMap.assign x.toNat true) 0 (pattern bytes).size with
  | .error e => answer = .error e ∧ mapFile = a.record freeMapFile
  | .ok _ => ∃ passes, answer = .ok (.ok passes)

/-- What is done with the scratch file. -/
theorem readTwice_leads (hx : a.Vacant x) (h : Serves store p (a.withScratch x)) (bytes frames : Nat) :
    Leads store (do
      let data := pattern bytes
      let _ ← Inode.write ⟨x⟩ 0 data
      Volume.persist
      Routine.resetCache
      match ← passOver ⟨x⟩ data with
      | .error k => return .error k
      | .ok cold =>
        match ← passOver ⟨x⟩ data with
        | .error k => return .error k
        | .ok warm =>
          if warm.hitRate ≤ cold.hitRate then Routine.emit (.noWarmer bytes frames)
          return .ok ⟨cold, warm⟩) fun answer _ a' =>
      a.Scratch x a' ∧ ReadsTo a x bytes answer (a'.record freeMapFile) := by
  have hfill := hx.fill (pattern bytes)
  have hscratch := hx.scratch.write 0 (pattern bytes)
  have hwrite := h.replies (hx.admits_write hx.scratch 0 (pattern bytes)) rfl
  dsimp only [Archive.reply] at hwrite
  unfold ReadsTo
  cases hclaim : claim (a.freeMap.assign x.toNat true) 0 (pattern bytes).size with
  | error e =>
    rw [hclaim] at hfill
    dsimp only at hfill
    rw [hfill] at hwrite
    refine hwrite.bind (fun _ hmid => nomatch hmid.1) fun hmid => ?_
    obtain ⟨hanswer, rfl⟩ := hmid
    cases hanswer
    exact ⟨hx.scratch, rfl, hx.record_withScratch⟩
  | ok new =>
    rw [hclaim] at hfill
    obtain ⟨hanswer, hbytes⟩ := hfill
    rw [hanswer] at hwrite
    generalize ((a.withScratch x).write ⟨x⟩ 0 (pattern bytes)).2 = a₁ at *
    refine hwrite.step fun h₁ => ?_
    obtain ⟨f, hf⟩ := Option.isSome_iff_exists.mp (h₁.represents.open_live hscratch.hasOpen).1
    have hrecord : a₁.record ⟨x⟩ = f := congrArg (Option.getD · _) hf
    have hdata : f.bytes = pattern bytes := hrecord ▸ hbytes
    have hscratch₂ := hscratch.persisted h₁.kept h₁.represents.sound h₁.mapFile_size
    have hf₂ := (h₁.kept.record_persisted h₁.represents.sound h₁.mapFile_size hx.apart).trans hf
    refine h₁.persists.step fun {_ p₂} h₂ => ?_
    have hreset : Gives true Routine.resetCache p₂ (.ok (), a₁.persisted) :=
      ⟨p₂, Runs.perform .resetCache, h₂.represents⟩
    refine (h₂.gives hreset h₂.kept rfl).step fun h₃ => ?_
    rw [← hdata]
    refine (h₃.passOver hf₂).next fun h₄ hcold => ?_
    obtain ⟨cold, rfl, rfl⟩ := hcold
    refine (h₄.passOver hf₂).next fun h₅ hwarm => ?_
    obtain ⟨warm, rfl, rfl⟩ := hwarm
    dsimp only
    split
    · have hemit : Gives true (Routine.emit (.noWarmer bytes frames)) _ (.ok (), _) :=
        ⟨_, Runs.emit _, h₅.represents⟩
      refine (h₅.gives hemit h₅.kept rfl).step fun h₆ => .pure h₆ ?_
      exact ⟨hscratch₂, _, rfl⟩
    · exact .pure h₅ ⟨hscratch₂, _, rfl⟩

/-- Where no sector is free, nothing is measured. -/
theorem measureReads_exhausted (h : Serves store p a) (hx : a.freeMap.nextFree? = none) {bytes limit : Nat}
    (hroom : Fault.ofDemand? bytes limit = none) (frames : Nat) :
    Leads store (measureReads bytes frames limit) fun answer _ a' =>
      answer = .error .allocationExhausted ∧ a' = a := by
  unfold measureReads
  rw [hroom]
  exact onScratchFile_exhausted h hx

/-- **The first measurement** is refused only if its file finds no room, and then nothing was put into the
    free-map file. -/
theorem measureReads_leads (h : Serves store p a) (hx : a.freeMap.nextFree? = some x) {bytes limit : Nat}
    (hroom : Fault.ofDemand? bytes limit = none) (frames : Nat) :
    Leads store (measureReads bytes frames limit) fun answer _ a' => a'.freeMap = a.freeMap ∧
      ReadsTo a x bytes answer (a'.record freeMapFile) := by
  unfold measureReads
  rw [hroom]
  exact onScratchFile_leads h hx fun h' =>
    readTwice_leads (h.kept.vacant h.represents.sound hx) h' bytes frames

/-! ## Writing -/

/-- The sectors for a file that grows byte by byte: how that ends, from `size` bytes on. -/
def claimEach (map : FreeMap) (size : Nat) : (count : Nat) → Except Error Unit
  | 0 => .ok ()
  | count + 1 =>
    match claim map size (size + 1) with
    | .ok new => claimEach (map.takeAll new) (size + 1) count
    | .error e => .error e

/-- **Bytes are written one by one** to the end of a scratch file, and no other file changes. -/
theorem writeEach_leads (hx : a.Vacant x) {a₁ : Archive} (h : Serves store p a₁) (hscratch : a.Scratch x a₁)
    (count : Nat) :
    Leads store (writeEach ⟨x⟩ (a₁.record ⟨x⟩).bytes.size count) fun answer _ a' =>
      answer = claimEach a₁.freeMap (a₁.record ⟨x⟩).bytes.size count ∧ a.Scratch x a' ∧
        a'.record freeMapFile = a₁.record freeMapFile := by
  induction count generalizing store p a₁ with
  | zero => exact .pure h ⟨rfl, hscratch, rfl⟩
  | succ count ih =>
    -- one byte more, for which there may have to be a sector
    generalize hsize : (a₁.record ⟨x⟩).bytes.size = size at *
    have hone : (#[UInt8.ofNat size] : Bytes).size ≠ 0 := Nat.one_ne_zero
    have hwrite := h.replies (hx.admits_write hscratch size #[UInt8.ofNat size]) rfl
    have hscratch' := hscratch.write size #[UInt8.ofNat size]
    dsimp only [Archive.reply] at hwrite
    rw [hscratch.write_eq size hone, hsize] at hwrite hscratch'
    unfold claimEach
    cases hclaim : claim a₁.freeMap size (size + 1) with
    | error e =>
      have hclaim : claim a₁.freeMap size (size + (#[UInt8.ofNat size] : Bytes).size) = _ := hclaim
      rw [hclaim] at hwrite
      refine hwrite.bind (fun _ hmid => nomatch hmid.1) fun hmid => ?_
      obtain ⟨hanswer, rfl⟩ := hmid
      cases hanswer
      exact ⟨rfl, hscratch, rfl⟩
    | ok new =>
      have hclaim : claim a₁.freeMap size (size + (#[UInt8.ofNat size] : Bytes).size) = _ := hclaim
      rw [hclaim] at hwrite hscratch'
      refine hwrite.step fun h₁ => ?_
      have hgrown : ((a₁.record ⟨x⟩).written size #[UInt8.ofNat size] new).bytes.size = size + 1 := by
        rw [Archive.size_written, hsize]
        exact Nat.max_eq_right (Nat.le_succ size)
      have hrest := ih h₁ hscratch'
      rw [Archive.record_filed, hgrown] at hrest
      refine hrest.mono fun ⟨hanswer, hscratch, hrecord⟩ => ⟨hanswer, hscratch, hrecord.trans ?_⟩
      exact congrArg (Option.getD · _) (Function.update_of_ne hx.apart.symm _ _)

/-- What the second measurement comes to, with a scratch file at `x`, and what the free-map file is then if
    it is refused: it begins with the free map that has the scratch file's sector taken. -/
def WritesTo (a : Archive) (x : SectorId) (bytes : Nat) (answer : Except Error CacheStats)
    (mapFile : FileRecord) : Prop :=
  match claimEach (a.freeMap.assign x.toNat true) 0 bytes with
  | .error e => answer = .error e ∧
      mapFile.bytes.extract 0 a.freeMap.byteLength = (a.freeMap.assign x.toNat true).toBytes
  | .ok () => ∃ stats, answer = .ok stats

theorem writeEach_renews (handle : Handle) (offset count : Nat) :
    (writeEach handle offset count).Only (Call.renews · = false) := by
  induction count generalizing offset with
  | zero => trivial
  | succ count ih => exact (write_fills _ _).keeps.bind fun _ => ih (offset + 1)

/-- **The second measurement** has put the free map with its scratch file into the free-map file before it
    is known whether there is room for its bytes. -/
theorem measureWrites_leads (h : Serves store p a) (hx : a.freeMap.nextFree? = some x) (bytes : Nat) :
    Leads store (measureWrites bytes) fun answer _ a' => a'.freeMap = a.freeMap ∧
      WritesTo a x bytes answer (a'.record freeMapFile) := by
  have hvacant := h.kept.vacant h.represents.sound hx
  refine onScratchFile_leads h hx fun h₀ => ?_
  have hscratch := hvacant.scratch.persisted h₀.kept h₀.represents.sound h₀.mapFile_size
  have hmapFile := h₀.kept.extract_persisted h₀.represents.sound h₀.mapFile_size
  have hempty : ((a.withScratch x).persisted.record ⟨x⟩).bytes.size = 0 := by
    unfold Archive.record
    rw [h₀.kept.record_persisted h₀.represents.sound h₀.mapFile_size hvacant.apart]
    exact congrArg (·.bytes.size) (a.new_scratch x)
  have hmap : (a.withScratch x).persisted.freeMap = a.freeMap.assign x.toNat true := h₀.freeMap_persisted
  refine h₀.persists.step fun h₁ => Leads.cacheStats ?_
  have hwrites := (writeEach_leads hvacant h₁ hscratch bytes).counting (writeEach_renews _ _ _)
  rw [hempty, hmap] at hwrites
  unfold WritesTo
  cases hclaim : claimEach (a.freeMap.assign x.toNat true) 0 bytes with
  | error e =>
    rw [hclaim] at hwrites
    refine hwrites.bind (fun _ hmid => nomatch hmid.2.1) fun hmid => ?_
    obtain ⟨-, hanswer, hscratch, hrecord⟩ := hmid
    cases hanswer
    exact ⟨hscratch, rfl, hrecord ▸ hmapFile⟩
  | ok _ =>
    rw [hclaim] at hwrites
    refine hwrites.bind (fun h₂ hmid => ?_) fun hmid => nomatch hmid.2.1
    obtain ⟨hwritten, -, hscratch, -⟩ := hmid
    have hscratch' := hscratch.persisted h₂.kept h₂.represents.sound h₂.mapFile_size
    refine (h₂.persists.counting persist_fills.keeps).bind (fun h₃ hmid => ?_) fun hmid => nomatch hmid.2.1
    obtain ⟨hpersisted, -, rfl⟩ := hmid
    refine (h₃.countedSince (CacheStats.le_trans hwritten hpersisted)).mono ?_
    rintro _ _ _ ⟨counted, rfl, rfl⟩
    exact ⟨hscratch', counted, rfl⟩

end Volumes

end InodeStore
