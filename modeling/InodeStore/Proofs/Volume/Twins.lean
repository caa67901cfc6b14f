import InodeStore.Proofs.Store.Lockstep
import InodeStore.Proofs.Volume.Formatting

/-!
# `Proofs.Volume.Twins` — volumes that differ in free sectors

Two volumes of one archive are `Paired` if they have the same blocks in the taken sectors and their caches
have one outline. Whatever clients ask for is answered by both in the same way, and so are their persists;
they stay paired (`Paired.answered`, `Paired.persisted`). What they leave on their devices when they are
shut down is taken up again as a pair (`Paired.shutdown`, `mounts_paired`). And to format two devices with
as many sectors makes a pair of them, whatever was on them (`format_paired`).
-/

namespace InodeStore

open Inode Volume Routine

/-! ## What operations learn -/

section Learning

variable {p p' : Plain} {a : Archive} {known : SectorId → Prop}

/-- The operation makes a file, or starts the counters anew. -/
def Operation.isSpecial : Operation → Bool
  | .create _ _ | .createAt _ _ _ | .reset => true
  | _ => false

/-- The routine of any other operation fills what it takes. -/
theorem Operation.routine?_fills {o : Operation} {r : Routine o.Answer} (hr : o.routine? = some r)
    (hplain : o.isSpecial = false) : r.Fills none := by
  cases o with
  | create | createAt | reset => cases hplain
  | close handle =>
    cases hr
    refine (Fills.perform (c := .close handle) rfl).bind fun last => ?_
    cases last with
    | false => rfl
    | true => exact (load_looks _).fills_of_view.bind fun _ => giveBack_fills _
  | read handle offset buffer =>
    cases hr
    exact (read_looks _ _).fills_of_view.bind fun _ => Fills.pure _
  | write handle offset data =>
    cases hr
    exact write_fills _ _
  | length handle =>
    cases hr
    exact length_looks.fills_of_view
  | isDir handle =>
    cases hr
    exact isDir_looks.fills_of_view
  | sectorOfByte handle offset =>
    cases hr
    exact (sectorOfByte_looks _).fills_of_view
  | ownedSectors handle =>
    cases hr
    exact (ownedSectors_looks _).fills_of_view
  | flush =>
    cases hr
    exact Fills.perform (c := .flushCache) rfl
  | _ => cases hr

/-- **A client's operation** looks at known blocks only, if every taken sector is known. -/
theorem Represents.learns (h : Represents p a) (hkept : a.Kept) {o : Operation}
    (hadmits : a.ledger.Admits o) {r : Routine o.Answer} (hr : o.routine? = some r)
    {ending : Except Halt o.Answer} (hrun : Runs false r p ending p')
    (hknown : ∀ t, p.Permits true t → known t) : Learns false known r p ending p' := by
  by_cases hcloses : a.ledger.Closes o
  · obtain ⟨handle, rfl, hopen, -, -⟩ := hcloses
    cases hr
    obtain ⟨d, -, hfile, -⟩ := h.open_file hopen
    exact close_learns hrun (hknown _ hfile.permits) hknown
  obtain ⟨p₁, hguarded, -⟩ := h.gives_guarded hadmits.1 hcloses hr
  obtain ⟨rfl, rfl⟩ := hguarded.unique hrun
  cases hspecial : o.isSpecial with
  | false => exact Informed.unguarded (hguarded.learns (Operation.routine?_fills hr hspecial) hknown)
  | true =>
    cases o with
    | create length isDir =>
      cases hr
      exact Informed.unguarded (create_learns h.lawful h.inside hguarded)
    | createAt x length isDir =>
      have hspare : a.spare x = true := hadmits.1
      rw [hkept.noSpare] at hspare
      cases hspare
    | reset =>
      cases hr
      cases hguarded with
      | call hanswer hnext =>
        cases hanswer
        cases hnext
        exact Learns.perform nofun .resetCache rfl
    | _ => cases hspecial

/-- To persist a volume is to look at known blocks, too. -/
theorem persist_fills : persist.Fills none :=
  (Fills.perform (c := .mapBytes) rfl).bind fun _ => (write_fills _ _).bind fun _ =>
    Fills.perform (c := .flushCache) rfl

end Learning

/-! ## Pairs of volumes -/

section Paired

variable {δ₁ δ₂ : Type} {n : Nat} {α : Type} [BlockDevice δ₁] [BlockDevice δ₂] [LawfulDevice δ₁]
  [LawfulDevice δ₂] {store₁ : Store δ₁ n} {store₂ : Store δ₂ n} {p p' q : Plain} {a : Archive}
  {guarded : Bool} {known known' : SectorId → Prop}

/-- Two volumes of one archive, whose stores differ in the blocks of free sectors, if at all. -/
structure Paired (store₁ : Store δ₁ n) (store₂ : Store δ₂ n) (p q : Plain) (a : Archive) : Prop where
  first : Serves store₁ p a
  second : Serves store₂ q a
  twins : Twins a.freeMap.HasTaken store₁ store₂ p q

/-- Twins are paired if what is taken is known. -/
theorem Twins.paired (ht : Twins known store₁ store₂ p q) (hn : 0 < n) (hp : Represents p a)
    (hq : Represents q a) (hkept : a.Kept) (hcount : p.count = a.freeMap.sectors)
    (hknown : ∀ t, a.freeMap.HasTaken t → known t) : Paired store₁ store₂ p q a :=
  ⟨⟨hn, ht.left, hp, hkept, hcount⟩, ⟨hn, ht.right, hq, hkept, ht.agree.count ▸ hcount⟩,
    ht.left, ht.right, ht.agree.narrow hknown, ht.outline⟩

/-- **Twins give one answer** to a routine that learns what it takes, and are then a pair. -/
theorem Twins.gives (ht : Twins known store₁ store₂ p q) (hn : 0 < n)
    (hknown : ∀ t, p.Permits true t → known t) {r : Routine α} {reply : Except Error α × Archive}
    (hlearns : Learns guarded known r p (ending reply.1) p') (hp : Represents p' reply.2)
    (hq : Gives false r q reply) (hkept : reply.2.Kept) (hcount : p.count = reply.2.freeMap.sectors) :
    ∃ store₁' store₂' log q', store₁.run r = ⟨.ok reply.1, store₁', log⟩ ∧
      store₂.run r = ⟨.ok reply.1, store₂', log⟩ ∧ Paired store₁' store₂' p' q' reply.2 := by
  obtain ⟨q₁, hrun, hq'⟩ := hq
  obtain ⟨store₁', store₂', log, q', hrun₁, hrun₂, hruns, htwins⟩ := hlearns.lockstep hn ht
  obtain ⟨-, rfl⟩ := hruns.unique hrun
  rw [toResult_ending] at hrun₁ hrun₂
  have hstays : p'.count = p.count := hlearns.runs.count_eq
  refine ⟨store₁', store₂', log, q₁, hrun₁, hrun₂,
    htwins.paired hn hp hq' hkept (hstays.trans hcount) ?_⟩
  intro t ht
  exact learned_taken hstays hknown t ((hp.permits_iff (hstays.trans hcount)).mpr ht)

namespace Paired

variable (h : Paired store₁ store₂ p q a)
include h

theorem taken (t : SectorId) (ht : p.Permits true t) : a.freeMap.HasTaken t :=
  (h.first.represents.permits_iff h.first.count).mp ht

/-- **A client's operation** is answered alike by both volumes. -/
theorem answered {o : Operation} (hadmits : a.ledger.Admits o) :
    ∃ store₁' store₂' log p' q', o.run store₁ = ⟨.ok (a.reply o).1, store₁', log⟩ ∧
      o.run store₂ = ⟨.ok (a.reply o).1, store₂', log⟩ ∧
      Paired store₁' store₂' p' q' (a.reply o).2 := by
  have hkept := h.first.kept.reply h.first.represents.sound hadmits
  have hcount := h.first.count.trans (a.sectors_reply o).symm
  rcases o.routine?_or_asks? with ⟨r, hr⟩ | ⟨action, hasks⟩
  · obtain ⟨p', hrun, hp⟩ := h.first.represents.gives hadmits.1 hr
    have hlearns := h.first.represents.learns h.first.kept hadmits hr hrun h.taken
    obtain ⟨store₁', store₂', log, q', hrun₁, hrun₂, hpaired⟩ :=
      h.twins.gives h.first.frames h.taken hlearns hp (h.second.represents.gives hadmits.1 hr) hkept hcount
    rw [← Operation.run_eq_of_routine? hr] at hrun₁ hrun₂
    exact ⟨store₁', store₂', log, p', q', hrun₁, hrun₂, hpaired⟩
  · -- the registry is the same in both, and no block is used
    obtain ⟨answer, hreply, registry, log, haction, hp⟩ := h.first.represents.opens hadmits.1 hasks
    obtain ⟨answer', hreply', registry', log', haction', hq⟩ := h.second.represents.opens hadmits.1 hasks
    rw [← h.twins.agree.registry, haction] at haction'
    obtain ⟨hanswer, rfl, -⟩ := Reply.mk.inj haction'
    obtain ⟨store₁', log₁, hrun₁, hs₁⟩ := h.first.stands.asked haction
    rw [h.twins.agree.registry] at haction
    obtain ⟨store₂', log₂, hrun₂, hs₂⟩ := h.second.stands.asked haction
    obtain ⟨houtline, rfl⟩ := Store.onRegistry_agree (Except.ok <$> action) hrun₁ hrun₂ h.twins.outline
    have hagree := h.twins.agree
    have htwins : Twins a.freeMap.HasTaken store₁' store₂' { p with registry } { q with registry } :=
      ⟨hs₁, hs₂, ⟨hagree.block, hagree.count, hagree.freeMap, rfl⟩, houtline⟩
    rw [hreply, Operation.run_eq_of_asks? hasks, Operation.run_eq_of_asks? hasks]
    refine ⟨store₁', store₂', log₁, _, _, hrun₁, hrun₂,
      htwins.paired h.first.frames hp hq hkept hcount ?_⟩
    intro t ht
    exact h.taken t ((hp.permits_iff hcount).mpr ht)

/-- **Both volumes are persisted.** -/
theorem persisted : ∃ store₁' store₂' log p' q',
    store₁.run persist = ⟨.ok (.ok ()), store₁', log⟩ ∧
      store₂.run persist = ⟨.ok (.ok ()), store₂', log⟩ ∧
      Paired store₁' store₂' p' q' a.persisted := by
  obtain ⟨p', hrun, hp⟩ := h.first.represents.persist h.first.kept
  have hkept : a.persisted.Kept := h.first.kept.write 0 _
  obtain ⟨store₁', store₂', log, q', hrun₁, hrun₂, hpaired⟩ :=
    h.twins.gives h.first.frames h.taken (hrun.learns persist_fills h.taken) hp
      (h.second.represents.persist h.second.kept).unguarded hkept
      (h.first.count.trans (congrArg FreeMap.sectors h.first.freeMap_persisted).symm)
  exact ⟨store₁', store₂', log, p', q', hrun₁, hrun₂, hpaired⟩

end Paired

/-! ## Leaving and coming back -/

/-- Both stores are ended, and report the same. -/
theorem Twins.discard (ht : Twins known store₁ store₂ p q) :
    ∃ device₁ device₂ log, store₁.discard = ⟨.ok (), device₁, log⟩ ∧
      store₂.discard = ⟨.ok (), device₂, log⟩ ∧ Written device₁ p ∧ Written device₂ q := by
  obtain ⟨device₁, log₁, hdiscard₁, hwritten₁⟩ := ht.left.discard
  obtain ⟨device₂, log₂, hdiscard₂, hwritten₂⟩ := ht.right.discard
  have hresult₁ : (Cache.flush store₁.cache).result = .ok () := congrArg Reply.result hdiscard₁
  have hresult₂ : (Cache.flush store₂.cache).result = .ok () := congrArg Reply.result hdiscard₂
  have hflush₁ : Cache.flush store₁.cache = ⟨.ok (), (Cache.flush store₁.cache).state,
      (Cache.flush store₁.cache).log⟩ := by rw [← hresult₁]
  have hflush₂ : Cache.flush store₂.cache = ⟨.ok (), (Cache.flush store₂.cache).state,
      (Cache.flush store₂.cache).log⟩ := by rw [← hresult₂]
  obtain ⟨-, hlogs⟩ := Cache.flush_outlines.agree Cache.flush_outlines hflush₁ hflush₂
    (congrArg Store.cache ht.outline)
  have hlog₁ : (Cache.flush store₁.cache).log = log₁ := congrArg Reply.log hdiscard₁
  have hlog₂ : (Cache.flush store₂.cache).log = log₂ := congrArg Reply.log hdiscard₂
  rw [hlog₁, hlog₂] at hlogs
  subst hlogs
  exact ⟨device₁, device₂, log₁, hdiscard₁, hdiscard₂, hwritten₁, hwritten₂⟩

omit [BlockDevice δ₁] [BlockDevice δ₂] [LawfulDevice δ₁] [LawfulDevice δ₂] in
/-- Two stores with one outline count alike. -/
theorem stats_of_outline (h : store₁.outline = store₂.outline) : store₁.cache.stats = store₂.cache.stats :=
  congrArg (fun store => Cache.stats store.cache) h

/-- **Both volumes are shut down**, and what they leave differs in free sectors only. -/
theorem Paired.shutdown (h : Paired store₁ store₂ p q a) :
    ∃ device₁ device₂ log, Volume.shutdown store₁ = ⟨.ok (.ok ()), device₁, log⟩ ∧
      Volume.shutdown store₂ = ⟨.ok (.ok ()), device₂, log⟩ ∧ OnDevice device₁ a.persisted ∧
      OnDevice device₂ a.persisted ∧
      ∀ t, a.persisted.freeMap.HasTaken t → LawfulDevice.block device₁ t = LawfulDevice.block device₂ t := by
  obtain ⟨saved₁, saved₂, log, p₁, q₁, hpersist₁, hpersist₂, hsaved⟩ := h.persisted
  have hopen := hsaved.first.kept.hasOpen
  obtain ⟨p₂, hclose, hblock, hcount⟩ := hsaved.first.represents.close_block hopen
  obtain ⟨q₂, hclose', hblock', hcount'⟩ := hsaved.second.represents.close_block hopen
  -- the end of the volume's handle is one of those that look at known blocks
  obtain ⟨d, -, hfile, -⟩ := hsaved.first.represents.open_file hopen
  have hlearns := close_learns hclose (hsaved.taken _ hfile.permits) hsaved.taken
  obtain ⟨closed₁, closed₂, log', q₃, hrun₁, hrun₂, hruns, htwins⟩ :=
    hlearns.lockstep hsaved.first.frames hsaved.twins
  obtain ⟨-, rfl⟩ := hruns.unique hclose'
  obtain ⟨device₁, device₂, log'', hdiscard₁, hdiscard₂, hwritten₁, hwritten₂⟩ := htwins.discard
  have hdown₁ := shutdown_eq hpersist₁ hrun₁ hdiscard₁
  have hdown₂ := shutdown_eq hpersist₂ hrun₂ hdiscard₂
  rw [← stats_of_outline htwins.outline] at hdown₂
  have hleft₁ : Written device₁ p₁ := hwritten₁.of_block hblock hcount
  have hleft₂ : Written device₂ q₁ := hwritten₂.of_block hblock' hcount'
  refine ⟨device₁, device₂, _, hdown₁, hdown₂,
    hleft₁.onDevice h.first hsaved.first.represents hsaved.first.count,
    hleft₂.onDevice h.second hsaved.second.represents hsaved.second.count, ?_⟩
  intro t ht
  rw [hleft₁.block (hsaved.first.count.symm ▸ ht.1), hleft₂.block (hsaved.second.count.symm ▸ ht.1)]
  exact hsaved.twins.agree.block ht

/-- Both volumes are brought up with the same report, or neither is and the cause is the same. -/
def OpenedAlike (opened₁ : Opening δ₁ n × List Event) (opened₂ : Opening δ₂ n × List Event)
    (R : Store δ₁ n → Store δ₂ n → Prop) : Prop :=
  (∃ store₁ store₂ log, opened₁ = (.up store₁, log) ∧ opened₂ = (.up store₂, log) ∧ R store₁ store₂) ∨
    ∃ cause device₁ device₂ log, opened₁ = (.down cause device₁, log) ∧
      opened₂ = (.down cause device₂, log)

omit [BlockDevice δ₁] [BlockDevice δ₂] [LawfulDevice δ₁] [LawfulDevice δ₂] in
theorem OpenedAlike.mono {opened₁ : Opening δ₁ n × List Event} {opened₂ : Opening δ₂ n × List Event}
    {R R' : Store δ₁ n → Store δ₂ n → Prop} (h : OpenedAlike opened₁ opened₂ R)
    (hmono : ∀ {store₁ store₂}, R store₁ store₂ → R' store₁ store₂) : OpenedAlike opened₁ opened₂ R' := by
  rcases h with ⟨store₁, store₂, log, h₁, h₂, h⟩ | hdown
  · exact .inl ⟨store₁, store₂, log, h₁, h₂, hmono h⟩
  · exact .inr hdown

variable {device₁ : δ₁} {device₂ : δ₂}

omit [BlockDevice δ₁] [BlockDevice δ₂] [LawfulDevice δ₁] [LawfulDevice δ₂] in
/-- Whether a cache can be set up does not depend on the device. -/
theorem create_alike (n limit : Nat) (device₁ : δ₁) (device₂ : δ₂) :
    (∃ e, Cache.create n device₁ limit = .error e ∧ Cache.create n device₂ limit = .error e) ∨
      0 < n ∧ Cache.create n device₁ limit = .ok (Cache.blank n device₁) ∧
        Cache.create n device₂ limit = .ok (Cache.blank n device₂) := by
  rcases Nat.eq_zero_or_pos n with rfl | hn
  · exact .inl ⟨_, rfl, rfl⟩
  cases hroom : Fault.ofDemand? (n * Frame.footprint) limit with
  | none => exact .inr ⟨hn, create_eq hn hroom, create_eq hn hroom⟩
  | some e =>
    refine .inl ⟨e, ?_, ?_⟩ <;>
    · unfold Cache.create
      rw [if_neg (Nat.ne_of_gt hn), hroom]

/-- Stores on two devices of which nothing else is known than that they have as many sectors. -/
theorem unmounted_twins (h₁ : LawfulDevice.Sound device₁) (h₂ : LawfulDevice.Sound device₂)
    (hcount : BlockDevice.sectorCount device₁ = BlockDevice.sectorCount device₂) (map : FreeMap)
    (hblock : ∀ {t}, known t → LawfulDevice.block device₁ t = LawfulDevice.block device₂ t) :
    Twins (n := n) known ⟨Cache.blank n device₁, map, .empty⟩ ⟨Cache.blank n device₂, map, .empty⟩
      (Plain.unmounted device₁ map) (Plain.unmounted device₂ map) where
  left := unmounted_stands h₁ map
  right := unmounted_stands h₂ map
  agree := ⟨hblock, hcount, rfl, rfl⟩
  outline := by
    unfold Store.outline
    rw [Cache.blank_outline, Cache.blank_outline]

/-- **To mount both devices** is to have a pair again. -/
theorem mounts_paired (h₁ : OnDevice device₁ a) (h₂ : OnDevice device₂ a)
    (hblock : ∀ t, a.freeMap.HasTaken t → LawfulDevice.block device₁ t = LawfulDevice.block device₂ t)
    (n limit : Nat) :
    OpenedAlike (mount n device₁ limit) (mount n device₂ limit) fun store₁ store₂ =>
      ∃ p q, Paired store₁ store₂ p q a.mounted := by
  unfold Volume.mount
  rcases create_alike n limit device₁ device₂ with ⟨e, hcreate₁, hcreate₂⟩ | ⟨hn, hcreate₁, hcreate₂⟩
  · rw [hcreate₁, hcreate₂]
    exact .inr ⟨_, _, _, _, rfl, rfl⟩
  rw [hcreate₁, hcreate₂, h₁.count, h₂.count]
  have htwins : Twins (n := n) a.freeMap.HasTaken _ _ _ _ := unmounted_twins h₁.working h₂.working
    (h₁.count.trans h₂.count.symm) (.blank a.freeMap.sectors) (hblock _)
  obtain ⟨store₁, store₂, log, q, hrun₁, hrun₂, hruns, htwins⟩ := h₁.holds.takesOver.lockstep hn htwins
  obtain ⟨-, rfl⟩ := hruns.unique h₂.holds.takesOver.runs
  refine .inl ⟨store₁, store₂, _, bringUp_done _ hrun₁, ?_, _, _, h₁.serves hn htwins.left,
    h₂.serves hn htwins.right, htwins⟩
  rw [show store₁.freeMap = store₂.freeMap from congrArg Store.freeMap htwins.outline]
  exact bringUp_done _ hrun₂

/-- **To format two devices** with as many sectors is to make a pair of them, whatever was on them. -/
theorem format_paired (h₁ : LawfulDevice.Sound device₁) (h₂ : LawfulDevice.Sound device₂)
    (hcount : BlockDevice.sectorCount device₁ = BlockDevice.sectorCount device₂) (n limit : Nat) :
    OpenedAlike (format n device₁ limit) (format n device₂ limit) fun store₁ store₂ =>
      ∃ p q a, Paired store₁ store₂ p q a ∧ a.ledger = .formatted a.freeMap := by
  unfold Volume.format
  rw [hcount]
  generalize hsectors : BlockDevice.sectorCount device₂ = sectors at hcount
  dsimp only
  split
  · exact .inr ⟨_, _, _, _, rfl, rfl⟩
  next map log hreserved =>
  obtain ⟨htwo, rfl⟩ := reserved_ok hreserved
  rcases create_alike n limit device₁ device₂ with ⟨e, hcreate₁, hcreate₂⟩ | ⟨hn, hcreate₁, hcreate₂⟩
  · rw [hcreate₁, hcreate₂]
    exact .inr ⟨_, _, _, _, rfl, rfl⟩
  rw [hcreate₁, hcreate₂]
  have htwins : Twins (n := n) (fun _ => False) _ _ _ _ :=
    unmounted_twins h₁ h₂ (hcount.trans hsectors.symm) (formatMap sectors) False.elim
  cases hclaim : claim (formatMap sectors) 0 (formatMap sectors).byteLength with
  | error e =>
    obtain ⟨p', hrefused⟩ := makeFiles_refused hcount htwo hclaim
    obtain ⟨store₁, store₂, log, q, hrun₁, hrun₂, -, htwins⟩ := hrefused.lockstep hn htwins
    obtain ⟨left₁, left₂, log', hdiscard₁, hdiscard₂, -⟩ := htwins.discard
    refine .inr ⟨.refused e, left₁, left₂, log ++ log', (bringUp_refused _ hrun₁).trans ?_,
      (bringUp_refused _ hrun₂).trans ?_⟩
    · rw [hdiscard₁]
    · rw [hdiscard₂]
  | ok new =>
    -- both files are made, then the first is opened and the volume persisted
    obtain ⟨p₁, hmade, hp₁⟩ := makeFiles_informed hcount htwo hclaim
    obtain ⟨q₁, hmade', hq₁⟩ := makeFiles_informed hsectors htwo hclaim
    obtain ⟨store₁, store₂, log, q, hrun₁, hrun₂, hruns, htwins⟩ := hmade.lockstep hn htwins
    obtain ⟨-, rfl⟩ := hruns.unique hmade'.runs
    have hcount₁ : p₁.count = (Archive.twoFiles sectors new).freeMap.sectors :=
      (hmade.runs.count_eq.trans hcount).trans (Archive.sectors_twoFiles sectors new).symm
    have hknown : ∀ t, p₁.Permits true t → (Archive.twoFiles sectors new).freeMap.HasTaken t := fun t =>
      (hp₁.permits_iff hcount₁).mp
    have hfills : (do let _ ← Routine.openInode freeMapSector; persist : Routine Unit).Fills none :=
      (Fills.perform (c := .openInode freeMapSector) rfl).bind fun _ => persist_fills
    obtain ⟨hkept, hmap, hledger⟩ := Archive.twoFiles_persisted htwo hp₁
    obtain ⟨p₂, hpersist, hp₂⟩ := twoFiles_persists htwo hp₁
    obtain ⟨saved₁, saved₂, log', q₂, hsaved₁, hsaved₂, hpaired⟩ :=
      htwins.gives hn hknown (hpersist.learns hfills hknown) hp₂ (twoFiles_persists htwo hq₁).unguarded
        hkept (hmap ▸ hcount₁)
    refine .inl ⟨saved₁, saved₂, log ++ (log' ++ [.formatted saved₁.freeMap.sectors
      saved₁.freeMap.freeCount]), (bringUp_done _ hrun₁).trans ?_, (bringUp_done _ hrun₂).trans ?_,
      p₂, q₂, _, hpaired, hledger⟩
    · rw [bringUp_done _ hsaved₁]
    · rw [bringUp_done _ hsaved₂,
        show saved₁.freeMap = saved₂.freeMap from congrArg Store.freeMap hpaired.twins.outline]

end Paired

end InodeStore
