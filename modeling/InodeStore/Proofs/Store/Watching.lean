import InodeStore.Proofs.Device.Lawful
import InodeStore.Proofs.Store.Following

/-!
# `Proofs.Store.Watching` — which sectors a device is asked for

`Watched δ` is a device `δ` that writes down every sector it is asked for. It is as lawful as `δ` is, and
sound only while every sector asked for is one it has.

A device is shadowed by itself being watched (`Watched.shadows`), so that nothing else of a store depends on it.
A store is then a watched store with the list left out (`Store.run_watched`), and what is shown of the list holds
of the device itself.
-/

namespace InodeStore

/-- A device that writes down what it is asked for. -/
structure Watched (δ : Type) where
  device : δ
  /-- The sectors that were read or written, the last one first. -/
  asked : List SectorId

namespace Watched

variable {δ : Type} [BlockDevice δ]

instance : BlockDevice (Watched δ) where
  sectorCount watched := BlockDevice.sectorCount watched.device
  read s watched :=
    ((BlockDevice.read s watched.device).1, ⟨(BlockDevice.read s watched.device).2, s :: watched.asked⟩)
  write s b watched :=
    ((BlockDevice.write s b watched.device).1,
      ⟨(BlockDevice.write s b watched.device).2, s :: watched.asked⟩)

/-- No sector was asked for that the device does not have. -/
def Inside (watched : Watched δ) : Prop :=
  ∀ s ∈ watched.asked, s.toNat < BlockDevice.sectorCount watched.device

/-- One more sector of the device is asked for. -/
theorem Inside.cons {watched : Watched δ} (h : watched.Inside) {s : SectorId} {d : δ}
    (hs : s.toNat < BlockDevice.sectorCount watched.device)
    (hd : BlockDevice.sectorCount d = BlockDevice.sectorCount watched.device) :
    Inside ⟨d, s :: watched.asked⟩ := by
  intro t ht
  show t.toNat < BlockDevice.sectorCount d
  rw [hd]
  rcases List.mem_cons.mp ht with rfl | ht
  · exact hs
  · exact h t ht

/-- A device is shadowed by itself with a list, which gets longer. -/
theorem shadows (asked : List SectorId) :
    Shadows (fun _ => True) fun (d : δ) (watched : Watched δ) => ∃ more, watched = ⟨d, more ++ asked⟩ where
  read_before := id
  write_before := id
  read := by
    rintro s d _ ⟨more, rfl⟩ -
    exact ⟨_, rfl, s :: more, rfl⟩
  write := by
    rintro s b d _ ⟨more, rfl⟩ -
    exact ⟨_, rfl, s :: more, rfl⟩

variable [LawfulDevice δ]

instance : LawfulDevice (Watched δ) where
  Sound watched := LawfulDevice.Sound watched.device ∧ watched.Inside
  block watched := LawfulDevice.block watched.device
  read_eq {watched s} hd hs := by
    obtain ⟨d, hread, hsound, hcount, hblock⟩ := LawfulDevice.read_eq hd.1 hs
    refine ⟨⟨d, s :: watched.asked⟩, ?_, ⟨hsound, hd.2.cons hs hcount⟩, hcount, hblock⟩
    show ((BlockDevice.read s watched.device).1, Watched.mk (BlockDevice.read s watched.device).2 _) = _
    rw [hread]
  write_eq {watched s} b hd hs := by
    obtain ⟨d, hwrite, hsound, hcount, hblock⟩ := LawfulDevice.write_eq b hd.1 hs
    refine ⟨⟨d, s :: watched.asked⟩, ?_, ⟨hsound, hd.2.cons hs hcount⟩, hcount, hblock⟩
    show ((BlockDevice.write s b watched.device).1,
      Watched.mk (BlockDevice.write s b watched.device).2 _) = _
    rw [hwrite]

end Watched

variable {δ : Type} {n : Nat} {α : Type}

/-- A cache whose device is watched from now on, after some sectors were asked for. -/
def Cache.watched (cache : Cache δ n) (asked : List SectorId) : Cache (Watched δ) n where
  device := ⟨cache.device, asked⟩
  frames := cache.frames
  recency := cache.recency
  free := cache.free
  evicting := cache.evicting
  accesses := cache.accesses
  hits := cache.hits
  deviceReads := cache.deviceReads
  deviceWrites := cache.deviceWrites

namespace Store

/-- A store whose device is watched from now on, after some sectors were asked for. -/
def watched (store : Store δ n) (asked : List SectorId) : Store (Watched δ) n :=
  ⟨store.cache.watched asked, store.freeMap, store.registry⟩

/-- The second action is the first one on a store with a watched device. -/
def Watches (action : Action (Store δ n) α) (action' : Action (Store (Watched δ) n) α) : Prop :=
  ∀ store asked, ∃ more, action' (store.watched asked) =
    ⟨(action store).result, (action store).state.watched (more ++ asked), (action store).log⟩

theorem Watches.of_follows {action : Action (Store δ n) α} {action' : Action (Store (Watched δ) n) α}
    (h : ∀ asked, Follows (fun _ => True) (fun d watched => ∃ more, watched = ⟨d, more ++ asked⟩) action action') :
    Watches action action' := by
  intro store asked
  obtain ⟨_, hrun, _, ⟨more, rfl⟩, rfl⟩ := (h asked).same (s := store) ⟨_, ⟨[], rfl⟩, rfl⟩ trivial
  exact ⟨more, hrun⟩

/-- **A routine does not notice** that the device is watched. -/
theorem run_watched [BlockDevice δ] (r : Routine α) : Watches (δ := δ) (n := n) (run r) (run r) :=
  .of_follows fun asked => run_follows (Watched.shadows asked) r

end Store

end InodeStore
