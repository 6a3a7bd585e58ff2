import DemandPaging.Proofs.Reachable

/-!
Pages of mappings away from their files. A page of a mapping that is in a frame or in swap
was read from its file at some time, so the part of the file behind it is one that can be
found again; and only a page that may be written is ever dirty.
-/

namespace DemandPaging

variable {arch : Architecture} {tolerated : Violation → Prop}

theorem Mapping.fileRange_of_readPage {mapping : Mapping} {files : FileStore} {page : PageNumber}
    {dest contents : Page} (read : mapping.readPage files page dest = .ok contents) :
    ∃ range, mapping.fileRange page = .ok range := by
  unfold readPage at read
  cases found : mapping.fileRange page with
  | ok range => exact ⟨range, rfl⟩
  | error violation =>
      rw [found] at read
      cases read

namespace Layout

variable {layout middle moved : Layout} {page : UserPage} {entry : PageEntry} {frame : FrameNumber}

/-- A page that its entry has elsewhere than in a file can be looked up in the file of its
mapping. -/
def Locates (layout : Layout) (page : UserPage) (entry : PageEntry) : Prop :=
  (∀ id, entry.backing ≠ .file id) → ∀ id, entry.mapping = some id →
    ∃ mapping range, layout.mapping id = some mapping ∧ mapping.fileRange page.2 = .ok range

/-- Pages that are away from their files are located there, and dirty ones can be written. -/
structure Regular (layout : Layout) : Prop where
  locates : ∀ page entry, layout.entry page = some entry → layout.Locates page entry
  dirty : ∀ page, layout.dirty page = true →
    ∃ entry, layout.entry page = some entry ∧ entry.writable = true

namespace Regular

theorem congr (regular : layout.Regular) (entries : moved.entry = layout.entry)
    (dirty : moved.dirty = layout.dirty) (mappings : moved.mapping = layout.mapping) :
    moved.Regular := by
  refine ⟨fun page entry found away id belongs => ?_, fun page set => ?_⟩
  · rw [entries] at found
    rw [mappings]
    exact regular.locates page entry found away id belongs
  · rw [entries]
    rw [dirty] at set
    exact regular.dirty page set

theorem place (regular : layout.Regular) {entry : Option PageEntry}
    (locates : ∀ placed, entry = some placed → layout.Locates page placed) :
    (layout.place page entry).Regular := by
  refine ⟨fun other placed found => ?_, fun other set => ?_⟩
  · rw [place_entry] at found
    split at found
    · rename_i same
      subst same
      exact locates placed found
    · exact regular.locates other placed found
  · change Function.update layout.dirty page false other = true at set
    rw [Function.update_apply] at set
    split at set
    · cases set
    · rename_i apart
      rw [place_entry, if_neg apart]
      exact regular.dirty other set

theorem shift (regular : layout.Regular) (step : Shift layout moved) : moved.Regular := by
  cases step with
  | scratchSlot | scratchFrame | writeBack => exact regular.congr rfl rfl rfl
  | toSwap page entry frame slot found resident =>
      refine regular.place ?_
      rintro _ ⟨⟩ _
      exact regular.locates page entry found (by simp [resident])
  | toFile page entry frame id =>
      refine regular.place ?_
      rintro _ ⟨⟩ away
      exact absurd rfl (away id)

theorem moves (regular : layout.Regular) (path : Relation.ReflTransGen Shift layout moved) :
    moved.Regular := by
  induction path with
  | refl => exact regular
  | tail _ step ih => exact ih.shift step

theorem shrink {ended : MappingId → Prop} (regular : layout.Regular)
    (step : Shrink ended layout moved) : moved.Regular := by
  cases step with
  | shift step => exact regular.shift step
  | remove =>
      refine regular.place ?_
      rintro _ ⟨⟩
  | leave => exact regular.congr rfl rfl rfl
  | unmap id ending unused =>
      refine ⟨fun page entry found away other belongs => ?_, regular.dirty⟩
      have differs : other ≠ id := fun same => unused page entry found (same ▸ belongs)
      change ∃ mapping range, Function.update layout.mapping id none other = some mapping ∧ _
      rw [Function.update_of_ne differs]
      exact regular.locates page entry found away other belongs

theorem shrinks {ended : MappingId → Prop} (regular : layout.Regular)
    (path : Relation.ReflTransGen (Shrink ended) layout moved) : moved.Regular := by
  induction path with
  | refl => exact regular
  | tail _ step ih => exact ih.shrink step

theorem arrive (regular : layout.Regular) (sound : layout.Sound tolerated)
    (arrival : Arrival page frame layout moved) : moved.Regular := by
  have filled : ∀ contents, (layout.fillFrame frame contents).Regular := fun _ =>
    regular.congr rfl rfl rfl
  cases arrival with
  | fresh =>
      refine (filled _).place ?_
      rintro _ ⟨⟩ _ id ⟨⟩
  | swapped entry slot idle found source =>
      refine (filled _).place ?_
      rintro _ ⟨⟩ _
      exact regular.locates page entry found (by simp [source])
  | filed entry id mapping dest contents idle found source live read =>
      refine (filled _).place ?_
      rintro _ ⟨⟩ _ other belongs
      cases ((sound.admits page entry found).filed id source).symm.trans belongs
      obtain ⟨range, located⟩ := Mapping.fileRange_of_readPage read
      exact ⟨mapping, range, live, located⟩

theorem reach (regular : layout.Regular) (sound : layout.Sound tolerated)
    (reach : Reach page layout moved) : moved.Regular := by
  cases reach with
  | here => exact regular
  | brought middle frame moved path arrival =>
      exact (regular.moves path).arrive (sound.moves path) arrival

theorem stored (regular : layout.Regular) (sound : layout.Sound tolerated) {process : ProcessId}
    {piece : RangePiece} {source : Bytes} (stored : Stored process piece source layout moved) :
    moved.Regular := by
  obtain ⟨middle, frame, reach, ⟨entry, found, _, allowed⟩, rfl⟩ := stored
  have reached := regular.reach sound reach
  refine ⟨reached.locates, fun other set => ?_⟩
  change (middle.use _ true).dirty other = true at set
  rw [use_dirty] at set
  split at set
  · rename_i same
    exact ⟨entry, same ▸ found, allowed rfl⟩
  · exact reached.dirty other set

theorem extend (regular : layout.Regular) {mapping : Mapping}
    (fresh : layout.mapping mapping.id = none)
    (free : ∀ page, mapping.contains page → layout.entry (mapping.owner, page) = none) :
    (layout.extend mapping).Regular := by
  refine ⟨fun page entry found away id belongs => ?_, fun page set => ?_⟩
  · rw [extend_entry] at found
    split at found
    · cases found
      exact absurd rfl (away mapping.id)
    · obtain ⟨known, range, live, located⟩ := regular.locates page entry found away id belongs
      refine ⟨known, range, ?_, located⟩
      rw [extend_mapping, if_neg]
      · exact live
      · rintro rfl
        exact absurd (fresh.symm.trans live) (by simp)
  · obtain ⟨entry, found, writable⟩ := regular.dirty page set
    refine ⟨entry, ?_, writable⟩
    rw [extend_entry, if_neg]
    · exact found
    · rintro ⟨owner, inside⟩
      have absent := free page.2 inside
      rw [← owner] at absent
      exact absurd (absent.symm.trans found) (by simp)

theorem effect (regular : layout.Regular) (sound : layout.Sound tolerated)
    {operation : Vm.Operation} (effect : Vm.Effect operation layout moved) : moved.Regular := by
  cases effect with
  | moves _ path => exact regular.moves path
  | brings page frame middle _ path arrival =>
      exact (regular.moves path).arrive (sound.moves path) arrival
  | loses ended _ path => exact regular.shrinks path
  | spawns | refiles => exact regular.congr rfl rfl rfl
  | maps mapping fresh live free => exact regular.extend fresh free

end Regular
end Layout

namespace Vm

variable {vm after : Vm arch}

theorem Consistent.layout_sound (consistent : vm.Consistent tolerated) :
    vm.layout.Sound tolerated :=
  consistent.tenants.sound vm.frames.pool.page

theorem copyToUser_regular (consistent : vm.Consistent tolerated) (regular : vm.layout.Regular)
    (process : ProcessId) (address : VirtualAddress) (data : Bytes)
    (stackPointer : VirtualAddress) :
    (vm.copyToUser process address data stackPointer).Satisfies tolerated fun (_, after) =>
      after.layout.Regular := by
  unfold copyToUser
  split
  · refine .mono (writePieces_satisfies (fun _ _ now => now.layout.Regular)
      (fun _ last => last.layout.Regular) ?_ ?_ (fun _ holds => holds)
      (RangePiece.tiles_ofRange address data.size) consistent regular) fun _ h => h.2.2
    · exact fun _ _ _ _ _ consistent holds _ _ _ _ stored =>
        holds.stored consistent.layout_sound stored
    · exact fun _ _ _ _ _ _ _ holds _ _ path => holds.moves path
  · exact .pure regular

theorem copyFromUser_regular (consistent : vm.Consistent tolerated)
    (regular : vm.layout.Regular) (process : ProcessId) (address : VirtualAddress)
    (buffer : Bytes) (stackPointer : VirtualAddress) :
    (vm.copyFromUser process address buffer stackPointer).Satisfies tolerated
      fun (_, _, after) => after.layout.Regular := by
  unfold copyFromUser
  split
  · refine .mono (readPieces_satisfies (fun _ _ _ now => now.layout.Regular)
      (fun _ _ last => last.layout.Regular) ?_ ?_ (fun _ _ holds => holds) rfl
      (RangePiece.tiles_ofRange address buffer.size) consistent regular) fun _ h => h.2.2
    · rintro _ _ _ _ _ _ _ consistent _ holds _ _ _ _ ⟨_, reach, _⟩
      exact holds.reach consistent.layout_sound reach
    · exact fun _ _ _ _ _ _ _ _ holds _ path => holds.moves path
  · exact .pure regular

theorem Booted.regular (booted : vm.Booted) : vm.layout.Regular := by
  obtain ⟨config, base, total, access, contents, device, files, pool, _, _, yields⟩ := booted
  rw [(boot_yields yields).2]
  refine ⟨fun page entry found => ?_, fun page set => ?_⟩
  · simp [layout, Tenants.layout, Tenants.entryAt] at found
  · simp [layout, Tenants.layout, Tenants.dirtyAt] at set

/-- In every state, the pages of mappings that are away from their files can be located there. -/
theorem Reachable.regular (reachable : Reachable vm) : vm.layout.Regular := by
  induction reachable with
  | boot booted => exact booted.regular
  | @step vm after operation answer reachable yields ih =>
      have consistent := reachable.consistent
      cases course_of_yields consistent yields with
      | stored process address data stackPointer outcome copied =>
          exact (copyToUser_regular consistent ih process address data
            stackPointer).of_yields copied
      | fetched process address buffer stackPointer outcome filled copied =>
          exact (copyFromUser_regular consistent ih process address buffer
            stackPointer).of_yields copied
      | other _ _ _ effect => exact ih.effect consistent.layout_sound effect

end Vm
end DemandPaging
