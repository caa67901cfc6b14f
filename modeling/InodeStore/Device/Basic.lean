import InodeStore.Fault

/-!
# `InodeStore.Device.Basic` — what a device can do

A device stores blocks under sector numbers. It works one sector at a time and has no refusals: what
it cannot do is a fault, and a fault leaves it as it was.
-/

namespace InodeStore

/-- A store of numbered sectors. -/
class BlockDevice (δ : Type) where
  /-- The number of sectors. -/
  sectorCount : δ → Nat
  /-- The content of a sector. -/
  read : SectorId → δ → Except Fault Block × δ
  /-- Replace the content of a sector. -/
  write : SectorId → Block → δ → Except Fault Unit × δ

end InodeStore
