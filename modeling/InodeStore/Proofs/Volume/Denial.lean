import InodeStore.Proofs.Volume.Durability

/-!
# `Proofs.Volume.Denial` — clients that keep the volume from writing its free map

The free map is written to its file like any other bytes, and clients may have opened that file too and denied
writing to it. The write is then answered with 0, which the volume takes for done: it goes on to write back what
the cache holds, and reports success. So a volume can always be persisted and shut down, whatever its clients have
done (`Exposed`), but the device has the free map of that moment only where writing to its file is not denied, and
else what the file had before (`persisted_unless_denied`).
-/

namespace InodeStore

open Inode Volume

section Denial

variable {δ : Type} [BlockDevice δ] {n : Nat}

/-- What a store reads off the free-map file, of as many bytes as its free map has. -/
def Volume.readMap (store : Store δ n) : Except Fault (Except Error Bytes) :=
  (store.run (Inode.read freeMapFile 0 store.freeMap.byteLength)).result

/-- A store that finds all it knows on a device. -/
def Volume.untouched (device : δ) : Store δ 1 :=
  ⟨Cache.blank 1 device, .blank (BlockDevice.sectorCount device), .empty⟩

variable [LawfulDevice δ] {m : Nat} {store : Store δ n} {ledger : Ledger} {device : δ} {p : Plain} {a : Archive}

/-- The volumes that clients can get to who may also keep them from writing to the free-map file. What is mounted
    is left of a volume of which the device has the free map. -/
inductive Exposed : {n : Nat} → Store δ n → Ledger → Prop where
  /-- A device was made a volume. -/
  | formatted {n limit : Nat} {device : δ} {store : Store δ n} (hdevice : LawfulDevice.Sound device)
      (hup : (format n device limit).1 = .up store) : Exposed store (.formatted store.freeMap)
  /-- A client has asked for something. -/
  | step {n : Nat} {store store' : Store δ n} {ledger : Ledger} {o : Operation}
      {answer : Except Error o.Answer} {log : List Event} (h : Exposed store ledger)
      (hconcedes : ledger.Concedes o) (hrun : o.run store = ⟨.ok answer, store', log⟩) :
      Exposed store' (ledger.after o answer)
  /-- The volume was persisted. -/
  | persisted {n : Nat} {store store' : Store δ n} {ledger : Ledger} {log : List Event}
      (h : Exposed store ledger) (hrun : store.run persist = ⟨.ok (.ok ()), store', log⟩) :
      Exposed store' (ledger.persisted store.freeMap)
  /-- The volume was persisted, left and taken up again. -/
  | mounted {n m limit : Nat} {store : Store δ n} {store' : Store δ m} {ledger : Ledger} {device : δ}
      (h : Exposed store ledger) (hleaves : Leaves store device)
      (hstored : readMap (untouched device) = .ok (.ok store.freeMap.toBytes))
      (hup : (mount m device limit).1 = .up store') : Exposed store' (ledger.persisted store.freeMap).mounted

/-! ## The stored free map -/

/-- A store reads the front of the free-map file. -/
theorem Hosts.readMap_eq (h : Hosts store p a) :
    readMap store = .ok (.ok ((a.record freeMapFile).bytes.extract 0 a.freeMap.byteLength)) := by
  obtain ⟨f, hf, hrecord, hlong⟩ := h.houses.record_eq
  obtain ⟨d, hfile⟩ := h.represents.fileAt hf
  have hread : Runs true (Inode.read freeMapFile 0 a.freeMap.byteLength) p _ p := hfile.read_runs
  rw [Nat.zero_add, Nat.min_eq_left hlong] at hread
  rw [readMap, h.freeMap_eq, hrecord]
  exact hread.result_eq h.frames h.stands

/-- The same can be read off the device of a volume that was persisted. -/
theorem Leaves.readMap_eq (hleaves : Leaves store device) (h : Hosts store p a) :
    readMap (untouched device) =
      .ok (.ok ((a.persisted.record freeMapFile).bytes.extract 0 a.freeMap.byteLength)) := by
  obtain ⟨p', hrepresents, hcount, hwritten⟩ := hleaves.written h
  have hhouses : a.persisted.Houses fun _ => True := h.houses.write 0 _
  have hmap := h.houses.freeMap_persisted h.represents.sound (h.represents.mapFile_size h.houses)
  obtain ⟨f, hf, hrecord, hlong⟩ := hhouses.record_eq
  obtain ⟨d, hfile⟩ := hwritten.record hrepresents hf
  have hsectors := hwritten.count.trans hcount
  have hread := OnRecord.reads (p := Plain.unmounted device (.blank (BlockDevice.sectorCount device))) hfile
    hrepresents.sound.lawful hsectors (hrepresents.sound.nodup hf) (fun y => hrepresents.sound.owned hf) 0
    a.persisted.freeMap.byteLength
  rw [Nat.zero_add, Nat.min_eq_left hlong, hmap] at hread
  have hlength : (FreeMap.blank (BlockDevice.sectorCount device)).byteLength = a.freeMap.byteLength := by
    rw [hsectors, hmap]
    rfl
  have hresult := hread.runs.result_eq (n := 1) Nat.one_pos (unmounted_stands hwritten.sound _)
  rw [readMap, untouched, hlength, hrecord]
  exact hresult

/-! ## Volumes -/

/-- A device on which the free map was stored has all of the volume that is mounted from it. -/
theorem Leaves.remounts (hleaves : Leaves store device) (h : Hosts store p a)
    (hstored : readMap (untouched device) = .ok (.ok store.freeMap.toBytes)) :
    OnDevice device a.persisted.mounted := by
  have hread := hleaves.readMap_eq h
  have hmap := h.houses.freeMap_persisted h.represents.sound (h.represents.mapFile_size h.houses)
  obtain ⟨p', hrepresents, hcount, hwritten⟩ := hleaves.written h
  have hhouses : a.persisted.Houses fun _ => True := h.houses.write 0 _
  obtain ⟨f, hf, -⟩ := hhouses.mapFile
  refine ⟨hwritten.sound, hwritten.count.trans hcount, ?_, hhouses.mounted, hwritten.record hrepresents, ?_⟩
  · exact hrepresents.sound.mounted (congrArg Option.isSome hf)
  · have hsame := Except.ok.inj (Except.ok.inj (hread.symm.trans hstored))
    show (a.persisted.record freeMapFile).bytes.extract 0 a.persisted.freeMap.byteLength =
      a.persisted.freeMap.toBytes
    rw [hmap, hsame, h.freeMap_eq]

/-- **A volume of such clients** is that of an archive with the caller's ledger. -/
theorem Exposed.hosts (h : Exposed store ledger) : ∃ p a, Hosts store p a ∧ a.ledger = ledger := by
  induction h with
  | formatted hdevice hup =>
    obtain ⟨p, a, hserves, hledger⟩ := format_serves hdevice hup
    exact ⟨p, a, hserves.hosts, hserves.freeMap_eq ▸ hledger⟩
  | step _ hconcedes hrun ih =>
    obtain ⟨p, a, hhosts, rfl⟩ := ih
    obtain ⟨store₁, log₁, p', hrun', hhosts'⟩ := hhosts.answered hconcedes
    cases hrun.symm.trans hrun'
    exact ⟨p', _, hhosts', (hhosts.represents.expected _ hconcedes.1).2⟩
  | persisted _ hrun ih =>
    obtain ⟨p, a, hhosts, rfl⟩ := ih
    obtain ⟨saved, log₁, p', hrun', hsaved, -⟩ := hhosts.persist
    cases hrun.symm.trans hrun'
    exact ⟨p', _, hsaved, hhosts.freeMap_eq ▸ Archive.ledger_persisted hhosts.represents hhosts.houses⟩
  | mounted _ hleaves hstored hup ih =>
    obtain ⟨p, a, hhosts, rfl⟩ := ih
    obtain ⟨hm, hroom⟩ := mount_up hup
    obtain ⟨store₁, p', hup', hmounted⟩ := (hleaves.remounts hhosts hstored).mounts hm hroom
    cases hup.symm.trans hup'
    refine ⟨p', _, hmounted.hosts, ?_⟩
    rw [hhosts.freeMap_eq, ← Archive.ledger_persisted hhosts.represents hhosts.houses]
    rfl

/-- A client goes on from the answer. -/
theorem Exposed.next (h : Exposed store ledger) {o : Operation} {answer : Except Error o.Answer}
    (hconcedes : ledger.Concedes o) (hanswer : (o.run store).result = .ok answer) :
    Exposed (o.leads store) (ledger.after o answer) := by
  have hrun : o.run store = ⟨.ok answer, o.leads store, (o.run store).log⟩ := by
    rw [← hanswer]
    rfl
  exact h.step hconcedes hrun

/-- **A volume reports success** when it is persisted or shut down, whatever its clients have done. If writing to
    the free-map file is not denied the device then has the free map of that moment there, and else what was there
    before. -/
theorem persisted_unless_denied (h : Exposed store ledger) :
    (store.run persist).result = .ok (.ok ()) ∧ (shutdown store).result = .ok (.ok ()) ∧
      ∀ {device : δ}, Leaves store device → readMap (untouched device) =
        if store.registry.isDenied freeMapFile then readMap store else .ok (.ok store.freeMap.toBytes) := by
  obtain ⟨p, a, hhosts, rfl⟩ := h.hosts
  obtain ⟨saved, log, p', hpersist, -⟩ := hhosts.persist
  obtain ⟨-, hshutdown, -⟩ := hhosts.shutdown
  refine ⟨congrArg Reply.result hpersist, hshutdown, fun {device} hleaves => ?_⟩
  have hentry : store.registry.entry freeMapFile = a.ledger.entry freeMapFile := by
    rw [hhosts.stands.registry]
    exact hhosts.represents.entry freeMapFile
  rw [hleaves.readMap_eq hhosts, Registry.isDenied, hentry]
  by_cases hdeny : (a.ledger.entry freeMapFile).denyCount = 0
  · have hserves := hhosts.serves (hhosts.houses.kept hdeny)
    rw [hdeny, if_neg (by decide), hhosts.freeMap_eq,
      hserves.kept.extract_persisted hserves.represents.sound hserves.mapFile_size]
  · rw [if_pos (decide_eq_true (Nat.pos_of_ne_zero hdeny)), Archive.persisted_denied hdeny, hhosts.readMap_eq]

end Denial

/-! ## A volume kept from writing -/

/-- A client opens the free-map file of a small volume, … -/
def watchedVolume : Store RamDisk 1 := (Operation.openInode freeMapSector).leads smallVolume

/-- … denies writing to it, … -/
def deniedVolume : Store RamDisk 1 := (Operation.denyWrite freeMapFile).leads watchedVolume

/-- … and makes another file. -/
def outdatedVolume : Store RamDisk 1 := (Operation.create 0 false).leads deniedVolume

/-- What the client keeps in mind about these. -/
def watchedLedger : Ledger := (Ledger.formatted smallVolume.freeMap).after (.openInode freeMapSector) (.ok freeMapFile)

def deniedLedger : Ledger := watchedLedger.after (.denyWrite freeMapFile) (.ok ())

def outdatedLedger : Ledger := deniedLedger.after (.create 0 false) (.ok 3)

/-- All that the volume is asked for may be asked for and is done. -/
theorem outdatedVolume_steps :
    ((Ledger.formatted smallVolume.freeMap).Concedes (.openInode freeMapSector) ∧
      ((Operation.openInode freeMapSector).run smallVolume).result = .ok (.ok freeMapFile)) ∧
    (watchedLedger.Concedes (.denyWrite freeMapFile) ∧
      ((Operation.denyWrite freeMapFile).run watchedVolume).result = .ok (.ok ())) ∧
    (deniedLedger.Concedes (.create 0 false) ∧
      ((Operation.create 0 false).run deniedVolume).result = .ok (.ok 3)) ∧
    (smallVolume.run persist).result = .ok (.ok ()) ∧ (outdatedVolume.run persist).result = .ok (.ok ()) := by
  decide +kernel

/-- Between them the free map has changed, and its file has not. -/
theorem outdatedVolume_stored :
    smallVolume.registry.isDenied freeMapFile = false ∧ outdatedVolume.registry.isDenied freeMapFile = true ∧
      outdatedVolume.freeMap.toBytes = #[0xef] ∧
      readMap (untouched (haltedDevice outdatedVolume)) = .ok (.ok #[0xe7]) := by
  decide +kernel

theorem smallVolume_exposed : Exposed smallVolume (.formatted smallVolume.freeMap) :=
  .formatted trivial (Opening.eq_up smallVolume_up)

theorem outdatedVolume_exposed : Exposed outdatedVolume outdatedLedger := by
  obtain ⟨hopen, hdeny, hcreate, -⟩ := outdatedVolume_steps
  have hwatched : Exposed watchedVolume watchedLedger := smallVolume_exposed.next hopen.1 hopen.2
  have hdenied : Exposed deniedVolume deniedLedger := hwatched.next hdeny.1 hdeny.2
  exact hdenied.next hcreate.1 hcreate.2

/-- The small volume is on its device with its free map, and later with what the client has left of that. -/
theorem persisted_unless_denied_outdated :
    Exposed smallVolume (.formatted smallVolume.freeMap) ∧
      readMap (untouched (haltedDevice smallVolume)) = .ok (.ok smallVolume.freeMap.toBytes) ∧
      Exposed outdatedVolume outdatedLedger ∧
      readMap (untouched (haltedDevice outdatedVolume)) = readMap outdatedVolume := by
  obtain ⟨-, -, -, hpersist, hpersist'⟩ := outdatedVolume_steps
  obtain ⟨hfree, hdenied, -⟩ := outdatedVolume_stored
  have hstored := (persisted_unless_denied smallVolume_exposed).2.2 (haltedDevice_left hpersist)
  have hstored' := (persisted_unless_denied outdatedVolume_exposed).2.2 (haltedDevice_left hpersist')
  rw [hfree] at hstored
  rw [hdenied] at hstored'
  exact ⟨smallVolume_exposed, hstored, outdatedVolume_exposed, hstored'⟩

/-- The volume reports that it is persisted, but on the device the sector of the new file is free. -/
theorem reported_not_persisted : Exposed outdatedVolume outdatedLedger ∧
    (outdatedVolume.run persist).result = .ok (.ok ()) ∧
    Leaves outdatedVolume (haltedDevice outdatedVolume) ∧
    readMap (untouched (haltedDevice outdatedVolume)) ≠ .ok (.ok outdatedVolume.freeMap.toBytes) := by
  have hpersist := outdatedVolume_steps.2.2.2.2
  obtain ⟨-, -, hmap, hstored⟩ := outdatedVolume_stored
  refine ⟨outdatedVolume_exposed, hpersist, haltedDevice_left hpersist, ?_⟩
  rw [hmap, hstored]
  decide

end InodeStore
