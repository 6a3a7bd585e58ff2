import DemandPaging.Proofs.Departure
import DemandPaging.Proofs.Provenance
import DemandPaging.Proofs.Shortage

/-!
What is moved for a frame. If a frame is free it is taken and nothing moves. Otherwise one page
leaves its frame, for swap or for its file, and if none can, no page has moved at all.
-/

namespace DemandPaging

variable {arch : Architecture}

namespace Tenants

variable {tenants start after : Tenants arch} {ownerOf : FrameNumber → Option UserPage}
  {page : UserPage} {space : AddressSpace arch} {entry : PageEntry} {frame : FrameNumber}

/-- Where a page goes that leaves its frame: to a slot that takes what it held, or to its file,
which takes it too if it had changed. -/
inductive Retreats (tenants after : Tenants arch) (page : UserPage) (contents : Page)
    (entry : PageEntry) : Backing → Prop
  | swap (slot : SwapSlot) (taken : after.swap.isAllocated slot = true)
      (stored : after.swap.page slot = contents) : Retreats tenants after page contents entry (.swap slot)
  | file (id : MappingId) (mapping : Mapping) (belongs : entry.mapping = some id)
      (live : tenants.mappings.get? id = some mapping)
      (filed : mapping.evictsToFile page.2 = .ok true)
      (saved : tenants.dirtyAt page = true → ∃ files,
        mapping.writePage files page.2 contents = .ok (.ok (), after.files)) :
      Retreats tenants after page contents entry (.file id)

/-- A page that held these contents in a frame has left it, and no other page has moved. -/
def Displaces (tenants : Tenants arch) (contents : Page) (frame : FrameNumber) (page : UserPage)
    (after : Tenants arch) : Prop :=
  ∃ entry backing, tenants.entryAt page = some entry ∧ entry.backing = .frame frame ∧
    after.entryAt = Function.update tenants.entryAt page (some { entry with backing }) ∧
    tenants.Retreats after page contents entry backing

theorem Displaces.of_agrees {contents : Page}
    (displaces : tenants.Displaces contents frame page after) (agrees : start.Agrees tenants) :
    start.Displaces contents frame page after := by
  obtain ⟨entry, backing, found, resident, entries, retreats⟩ := displaces
  rw [agrees.entries] at found entries
  refine ⟨entry, backing, found, resident, entries, ?_⟩
  cases retreats with
  | swap slot taken stored => exact .swap slot taken stored
  | file id mapping belongs live filed saved =>
      rw [agrees.mappings] at live
      rw [agrees.dirty] at saved
      exact .file id mapping belongs live filed saved

theorem setSpace_entryAt_update (tenants : Tenants arch) {placed : Option PageEntry}
    {left : AddressSpace arch}
    (found : tenants.spaces[page.1]? = some space) (places : space.Places page.2 placed left) :
    (tenants.setSpace page.1 left).entryAt = Function.update tenants.entryAt page placed := by
  funext other
  rw [setSpace_entryAt tenants found places, Function.update_apply]

section Evict

variable (consistent : tenants.Consistent (fun _ => True) ownerOf)
  (found : tenants.spaces[page.1]? = some space) (listed : space.entries[page.2]? = some entry)
  (resident : entry.backing = .frame frame) (contents : Page)
include consistent found listed resident

theorem evictToSwap_displaces :
    (tenants.evictToSwap page.1 space page.2 contents).Satisfies (fun _ => True)
      fun (result, after) => result = .ok () → tenants.Displaces contents frame page after := by
  have present : tenants.entryAt page = some entry := (entryAt_of_space found page.2).trans listed
  have coherent := (consistent.spaces page.1 space found).2
  unfold evictToSwap
  refine .bind (SwapTable.store_satisfies consistent.swap contents) ?_
  rintro ⟨result, swap⟩ ⟨_, stored⟩
  cases result with
  | error cause => exact .pure (by rintro ⟨⟩)
  | ok slot =>
      obtain ⟨_, allocated, pages⟩ := stored
      refine .bind (.lift (AddressSpace.evictToSwap_satisfies coherent listed resident slot)) ?_
      rintro ⟨_, left⟩ places
      refine .pure fun _ => ⟨entry, .swap slot, present, resident, ?_, .swap slot ?_ ?_⟩
      · exact setSpace_entryAt_update { tenants with swap } found places
      · exact (allocated slot).mpr (.inl rfl)
      · change swap.page slot = contents
        rw [pages, Function.update_self]

theorem evictToFile_displaces {id : MappingId} {mapping : Mapping}
    (belongs : entry.mapping = some id) (live : tenants.mappings.get? id = some mapping)
    (filed : mapping.evictsToFile page.2 = .ok true) :
    (tenants.evictToFile page.1 space mapping page.2 contents).Satisfies (fun _ => True)
      fun (result, after) => result = .ok () → tenants.Displaces contents frame page after := by
  have present : tenants.entryAt page = some entry := (entryAt_of_space found page.2).trans listed
  have coherent := (consistent.spaces page.1 space found).2
  have leaves : ∀ files, (tenants.dirtyAt page = true → ∃ before,
      mapping.writePage before page.2 contents = .ok (.ok (), files)) →
      (space.evictToFile page.2).Satisfies (fun _ => True) fun left =>
        tenants.Displaces contents frame page
          (({ tenants with files } : Tenants arch).setSpace page.1 left.2) := by
    intro files saved
    refine .mono (AddressSpace.evictToFile_satisfies coherent listed resident belongs) ?_
    rintro ⟨_, left⟩ places
    exact ⟨entry, .file id, present, resident,
      setSpace_entryAt_update { tenants with files } found places,
      .file id mapping belongs live filed saved⟩
  have dirtyAt : tenants.dirtyAt page = space.directory.isDirty page.2 :=
    dirtyAt_of_space found page.2
  unfold evictToFile
  split
  · refine .bind (.lift (.of_errors fun _ _ => trivial)) ?_
    rintro ⟨result, files⟩ written
    cases result with
    | error cause => exact .pure (by rintro ⟨⟩)
    | ok _ =>
        refine .bind (.lift (leaves files fun _ => ⟨_, written⟩)) ?_
        exact fun _ displaces => .pure fun _ => displaces
  · rename_i clean
    rw [pure_bind]
    refine .bind (.lift (leaves tenants.files fun dirty => absurd (dirtyAt ▸ dirty) clean)) ?_
    exact fun _ displaces => .pure fun _ => displaces

omit found listed resident in
/-- A page that gives up its frame is the only one that moves. -/
theorem evict_displaces (owned : ownerOf frame = some page) :
    (tenants.evict page.1 page.2 contents).Satisfies (fun _ => True)
      fun (result, after) => result = .ok () → tenants.Displaces contents frame page after := by
  obtain ⟨entry, present, resident⟩ := (consistent.owners frame page).mp owned
  obtain ⟨space, found, listed⟩ := space_of_entryAt present
  unfold evict
  simp only [found, mappingOf?_eq listed]
  cases belongs : entry.mapping with
  | none => exact evictToSwap_displaces consistent found listed resident contents
  | some id =>
      obtain ⟨mapping, live, _⟩ :=
        ((consistent.sound fun _ => contents).admits page entry present).mapped id belongs
      change tenants.mappings.get? id = some mapping at live
      simp only [Option.bind_some, live]
      refine .bind (.lift (.of_errors fun _ _ => trivial)) ?_
      intro filed decided
      cases filed with
      | true =>
          exact evictToFile_displaces consistent found listed resident contents belongs live decided
      | false => exact evictToSwap_displaces consistent found listed resident contents

end Evict

end Tenants

namespace SwapDevice

variable {device written : SwapDevice} {sector : Nat} {data : Sector}

def Reads (device : SwapDevice) (sector : Nat) : Prop :=
  device.failingReads.contains sector = false ∧ sector < device.disk.size

theorem reads_write (write : device.write sector data = .ok written) :
    written.Reads = device.Reads := by
  unfold SwapDevice.write Disk.write at write
  split at write
  · cases write
  · split at write
    · cases write
      rfl
    · cases write

theorem reads_writeSectors (device : SwapDevice) (first : Nat) (page : Page)
    (indices : List (Fin sectorsPerPage)) :
    (device.writeSectors first page indices).2.Reads = device.Reads := by
  induction indices generalizing device with
  | nil => rfl
  | cons index rest ih =>
      unfold writeSectors
      split
      · rfl
      · rename_i written write
        exact (ih written).trans (reads_write write)

end SwapDevice

theorem SwapTable.store_reads (swap : SwapTable) (contents : Page) :
    (swap.store contents).Satisfies (fun _ => True) fun (_, after) =>
      after.device.Reads = swap.device.Reads := by
  unfold store
  refine .bind (.lift .any) fun allocated _ => ?_
  split
  · exact .pure rfl
  · refine .bind (.lift .any) fun first _ => ?_
    have same := swap.device.reads_writeSectors first contents (List.finRange sectorsPerPage)
    split
    · rename_i cause device write
      unfold SwapDevice.writePage at write
      rw [write] at same
      exact .bind (.lift .any) fun _ _ => .pure same
    · rename_i device write
      unfold SwapDevice.writePage at write
      rw [write] at same
      exact .bind .log fun _ _ => .pure same

namespace Tenants

/-- What no search for a frame touches: the mappings, and what the device reads. -/
structure Abides (tenants after : Tenants arch) : Prop where
  mappings : after.mappings = tenants.mappings
  reads : after.swap.device.Reads = tenants.swap.device.Reads

variable {tenants after : Tenants arch}

theorem Abides.refl (tenants : Tenants arch) : tenants.Abides tenants := ⟨rfl, rfl⟩

theorem Abides.trans {last : Tenants arch} (first : tenants.Abides after)
    (later : after.Abides last) : tenants.Abides last :=
  ⟨later.mappings.trans first.mappings, later.reads.trans first.reads⟩

theorem testAndClearAccessed_abides (tenants : Tenants arch) (owner : ProcessId)
    (page : PageNumber) : tenants.Abides (tenants.testAndClearAccessed owner page).2 := by
  unfold testAndClearAccessed
  split <;> exact ⟨rfl, rfl⟩

theorem evict_abides (tenants : Tenants arch) (owner : ProcessId) (page : PageNumber)
    (contents : Page) :
    (tenants.evict owner page contents).Satisfies (fun _ => True) fun (_, after) =>
      tenants.Abides after := by
  have toSwap : ∀ space, (tenants.evictToSwap owner space page contents).Satisfies
      (fun _ => True) fun (_, after) => tenants.Abides after := by
    intro space
    refine .bind (SwapTable.store_reads tenants.swap contents) ?_
    rintro ⟨result, swap⟩ same
    cases result with
    | error cause => exact .pure ⟨rfl, same⟩
    | ok slot => exact .bind .any fun _ _ => .pure ⟨rfl, same⟩
  have toFile : ∀ space mapping, (tenants.evictToFile owner space mapping page contents).Satisfies
      (fun _ => True) fun (_, after) => tenants.Abides after := by
    intro space mapping
    unfold evictToFile
    dsimp only
    split
    on_goal 1 => refine .bind .any ?_
    on_goal 2 => rw [pure_bind]; exact .bind .any fun _ _ => .pure ⟨rfl, rfl⟩
    rintro ⟨result, files⟩ _
    cases result with
    | error cause => exact .pure ⟨rfl, rfl⟩
    | ok _ => exact .bind .any fun _ _ => .pure ⟨rfl, rfl⟩
  unfold evict
  split
  · trivial
  · rename_i space _
    split
    · exact toSwap space
    · rename_i mapping _
      refine .bind .any fun filed _ => ?_
      split
      · exact toFile space mapping
      · exact toSwap space

end Tenants

namespace Vm

variable {vm : Vm arch}

theorem acquireFrame_abides (request : FrameRequest) (process : ProcessId) (page : PageNumber) :
    (vm.acquireFrame request process page).Satisfies (fun _ => True) fun (_, held) =>
      vm.toTenants.Abides held.toTenants := by
  have tests : ∀ (tenants : Tenants arch) owner page, vm.toTenants.Abides tenants →
      vm.toTenants.Abides (Tenants.owners.testAndClearAccessed tenants owner page).2 :=
    fun tenants owner page abides => abides.trans (tenants.testAndClearAccessed_abides owner page)
  have evicts : ∀ (tenants : Tenants arch) owner page contents, vm.toTenants.Abides tenants →
      (Tenants.owners.evict tenants owner page contents).Satisfies (fun _ => True)
        fun (result, after) => vm.toTenants.Abides after ∧ ∀ cause, result = .error cause → True :=
    fun tenants owner page contents abides =>
      .mono (tenants.evict_abides owner page contents) fun _ later =>
        ⟨abides.trans later, fun _ _ => trivial⟩
  unfold acquireFrame
  refine .bind (FrameTable.acquire_keeps tests evicts (fun _ _ => trivial) request process page
    (.refl vm.toTenants)) ?_
  rintro ⟨result, frames, tenants⟩ ⟨abides, _⟩
  exact .pure abides

/-- What becomes of frames and pages when a frame is asked for: nothing if none is obtained; if
one is, it was the first free one, or none was free and a page has left it. -/
def Spends (vm held : Vm arch) : Except VmError FrameNumber → Prop
  | .error _ => held.entryAt = vm.entryAt ∧ held.frames.pool.free = vm.frames.pool.free
  | .ok frame =>
    (held.entryAt = vm.entryAt ∧ vm.frames.pool.free = frame :: held.frames.pool.free) ∨
      vm.frames.pool.free = [] ∧ held.frames.pool.free = [] ∧ ∃ page,
        vm.toTenants.Displaces (vm.frames.pool.page frame) frame page held.toTenants

theorem acquireFrame_spends (consistent : vm.Consistent fun _ => True)
    (regular : vm.layout.Regular) {request : FrameRequest} (optional : request.required = false)
    (process : ProcessId) (page : PageNumber) :
    (vm.acquireFrame request process page).Satisfies (fun _ => True) fun (result, held) =>
      vm.Spends held result := by
  obtain ⟨ring, wellFormed, settled⟩ := consistent.frames
  have answers : (Tenants.owners : FrameOwners (Tenants arch)).Answers (fun _ => True)
      vm.frames.ownerOf vm.frames.pool.page ring (Tenants.Searched vm.frames vm.toTenants)
      (fun frame left => ∀ page, vm.frames.ownerOf frame = some page →
        vm.toTenants.Displaces (vm.frames.pool.page frame) frame page left)
      (fun tenants => ring.countP fun frame =>
        (vm.frames.ownerOf frame).any tenants.accessedAt) := by
    refine (Tenants.owners_answer (fun _ => True) vm.frames ring vm.layout).and ?_ ?_ ?_
    · intro frame owner tenants _ _ ⟨searching, _⟩ agrees
      exact agrees.trans (searching.agrees_cleared owner)
    · intro frame owner tenants _ owned ⟨searching, path⟩ agrees
      refine .mono ((Tenants.evict_decides searching (regular.moves path) owned _).and
        (Tenants.evict_displaces searching (vm.frames.pool.page frame) owned)) ?_
      rintro ⟨result, left⟩ ⟨⟨_, same⟩, displaces⟩
      cases result with
      | error cause => exact agrees.trans (same rfl).1
      | ok _ =>
          intro page named
          cases owned.symm.trans named
          exact (displaces rfl).of_agrees agrees
    · intro frame left unowned page owned
      cases unowned.symm.trans owned
  unfold acquireFrame
  refine .bind (((FrameTable.acquire_satisfies wellFormed answers settled consistent.searched
    optional process page).and (FrameTable.acquire_free request process page)).and
      (FrameTable.acquire_extent request process page)) ?_
  rintro ⟨result, frames, tenants⟩ ⟨⟨outcome, free⟩, extent⟩
  cases result with
  | error cause =>
      obtain ⟨_, _, _, _, agrees⟩ := outcome
      exact .pure ⟨agrees.entries, free⟩
  | ok frame =>
      obtain ⟨displaces, _, owners, ring', wellFormed', _⟩ := outcome
      refine .pure ?_
      obtain ⟨same, first⟩ | ⟨full, still⟩ := free
      · exact .inl ⟨congrArg Tenants.entryAt same, first⟩
      · -- a frame of the pool that is not free belongs to a page
        have tracked : frame ∈ frames := by
          rw [← FrameTable.ownerOf_isSome, owners, Function.update_self]
          rfl
        have inside : vm.frames.pool.contains frame = true := by
          rw [← FramePool.contains_congr extent]
          exact wellFormed'.inside_of_tracked tracked
        have used := (wellFormed.contains frame).mp inside
        rw [full] at used
        obtain ⟨victim, owned⟩ := Option.isSome_iff_exists.mp
          (FrameTable.ownerOf_isSome.mpr (used.resolve_left List.not_mem_nil))
        exact .inr ⟨full, still, victim, displaces victim owned⟩

end Vm
end DemandPaging
