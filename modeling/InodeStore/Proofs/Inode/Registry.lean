import InodeStore.Inode.Registry
import Mathlib.Data.Set.Card

/-!
# `Proofs.Inode.Registry` — the open inodes as a function of the sector

`Lists registry opened` says that a registry is the function `opened`: it has the entries of that function
and none twice. In which order it has them, which every change of an entry changes, nobody can tell: each
operation of the registry is one on the function.
-/

namespace InodeStore.Registry

variable {registry : Registry} {opened : SectorId → Option OpenInode} {s : SectorId}

/-- The registry has the entries of a function, each of them once. -/
structure Lists (registry : Registry) (opened : SectorId → Option OpenInode) : Prop where
  find : ∀ s, registry.find? s = opened s
  distinct : (registry.entries.map Prod.fst).Nodup

/-! ## Entries -/

/-- What is taken away is not found, and all else is. -/
theorem find?_erase (registry : Registry) (s t : SectorId) :
    (registry.erase s).find? t = if t = s then none else registry.find? t := by
  unfold erase find?
  induction registry.entries with
  | nil => simp
  | cons e rest ih =>
    obtain ⟨u, inode⟩ := e
    by_cases hu : u = s
    · -- the entry is dropped, and it is the one looked for exactly if `t` is `s`
      rw [List.filter_cons_of_neg (by simp [hu]), ih]
      by_cases ht : t = s
      · rw [if_pos ht, if_pos ht]
      · rw [if_neg ht, if_neg ht, List.lookup_cons, beq_false_of_ne fun h => ht (h.trans hu)]
    · rw [List.filter_cons_of_pos (by simp [hu]), List.lookup_cons, List.lookup_cons, ih]
      by_cases ht : t = u
      · simp [ht, hu]
      · rw [beq_false_of_ne ht]

/-- What is set is found, and all else as before. -/
theorem find?_set (registry : Registry) (s : SectorId) (inode : OpenInode) (t : SectorId) :
    (registry.set s inode).find? t = if t = s then some inode else registry.find? t := by
  have herase := find?_erase registry s t
  unfold find? erase at herase
  unfold set find?
  rw [List.lookup_cons]
  by_cases ht : t = s
  · rw [if_pos ht, ht, beq_self_eq_true]
  · rw [beq_false_of_ne ht, herase, if_neg ht, if_neg ht]

/-- An entry is found exactly for the sectors that have one. -/
theorem mem_sectors (registry : Registry) (s : SectorId) :
    s ∈ registry.entries.map Prod.fst ↔ (registry.find? s).isSome := by
  unfold find?
  rw [List.lookup_isSome_iff, List.mem_map]
  simp [Prod.exists]

/-! ## The registry of a function -/

theorem lists_empty : Lists .empty fun _ => none := ⟨fun _ => rfl, List.nodup_nil⟩

theorem Lists.entry (h : Lists registry opened) (s : SectorId) :
    registry.entry ⟨s⟩ = (opened s).getD .fresh := congrArg (Option.getD · _) (h.find s)

theorem Lists.erase (h : Lists registry opened) (s : SectorId) :
    Lists (registry.erase s) (Function.update opened s none) := by
  refine ⟨?_, h.distinct.sublist (List.Sublist.map _ List.filter_sublist)⟩
  intro t
  rw [find?_erase, Function.update_apply, h.find]

theorem Lists.set (h : Lists registry opened) (s : SectorId) (inode : OpenInode) :
    Lists (registry.set s inode) (Function.update opened s (some inode)) := by
  refine ⟨?_, List.nodup_cons.mpr ⟨?_, (h.erase s).distinct⟩⟩
  · intro t
    rw [find?_set, Function.update_apply, h.find]
  · intro hmem
    have hfound := (mem_sectors (registry.erase s) s).mp hmem
    rw [find?_erase, if_pos rfl] at hfound
    cases hfound

theorem Lists.change (h : Lists registry opened) (s : SectorId) (f : OpenInode → OpenInode) :
    Lists (registry.change ⟨s⟩ f)
      (Function.update opened s (some (f ((opened s).getD .fresh)))) :=
  h.entry s ▸ h.set s (f (registry.entry ⟨s⟩))

/-- The number of entries. -/
theorem Lists.size (h : Lists registry opened) :
    registry.size = Set.ncard {s | (opened s).isSome = true} := by
  have hset : {s | (opened s).isSome = true} =
      ((registry.entries.map Prod.fst).toFinset : Set SectorId) := by
    ext s
    rw [Set.mem_ofPred_eq, ← h.find, List.coe_toFinset, Set.mem_ofPred_eq, mem_sectors]
  rw [hset, Set.ncard_coe_finset, List.toFinset_card_of_nodup h.distinct, List.length_map]
  rfl

/-- Two registries of one function give the same answers. -/
theorem Lists.same {registry' : Registry} (h : Lists registry opened) (h' : Lists registry' opened) :
    (∀ s, registry'.find? s = registry.find? s) ∧ registry'.size = registry.size :=
  ⟨fun s => (h'.find s).trans (h.find s).symm, h'.size.trans h.size.symm⟩

/-! ## Growth -/

/-- Lengthening a file leaves no trace in the registry. -/
theorem Lists.regrown {inode : OpenInode} (h : Lists registry opened) (hs : opened s = some inode)
    (hidle : inode.growing = false) :
    Lists (setGrowing ⟨s⟩ false (setGrowing ⟨s⟩ true registry).state).state opened := by
  have hgrown := (h.change s fun inode => { inode with growing := true }).change s
    fun inode => { inode with growing := false }
  have hsame : { inode with growing := false } = inode := by rw [← hidle]
  have hupdate := Function.update_eq_self s opened
  rw [hs, ← hsame] at hupdate
  rw [Function.update_self, Function.update_idem, hs, Option.getD_some, Option.getD_some] at hgrown
  exact hupdate ▸ hgrown

end InodeStore.Registry
