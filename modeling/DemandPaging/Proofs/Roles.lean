import DemandPaging.Proofs.Reachable

/-!
What pages are for. Whatever an operation does, a page that has an entry keeps its
permission and its mapping, wherever its contents go, until the entry is removed; and the
entry of a page of a mapping is removed with the mapping only.
-/

namespace DemandPaging

variable {arch : Architecture} {tolerated : Violation → Prop}

namespace Layout

variable {layout middle moved : Layout} {page : UserPage}

theorem role_eq_some {writable : Bool} {belongs : Option MappingId}
    (role : layout.role page = some (writable, belongs)) :
    ∃ entry, layout.entry page = some entry ∧ entry.writable = writable ∧
      entry.mapping = belongs := by
  obtain ⟨entry, found, same⟩ := Option.map_eq_some_iff.mp role
  exact ⟨entry, found, Prod.ext_iff.mp same⟩

/-- Entries come, but none goes or changes its role, and the mappings stay. -/
structure Persists (layout moved : Layout) : Prop where
  roles : ∀ page, (layout.entry page).isSome → moved.role page = layout.role page
  mapping : moved.mapping = layout.mapping

theorem Persists.refl (layout : Layout) : layout.Persists layout :=
  ⟨fun _ _ => rfl, rfl⟩

theorem Persists.trans (first : layout.Persists middle) (last : middle.Persists moved) :
    layout.Persists moved := by
  refine ⟨fun page known => ?_, last.mapping.trans first.mapping⟩
  have same := first.roles page known
  refine (last.roles page ?_).trans same
  rwa [← role_isSome, same, role_isSome]

theorem Persists.moves (path : Relation.ReflTransGen Shift layout moved) :
    layout.Persists moved :=
  ⟨fun page _ => role_of_moves path page, mapping_of_moves path⟩

theorem Persists.arrival {frame : FrameNumber} (arrival : Arrival page frame layout moved) :
    layout.Persists moved :=
  ⟨fun _ known => role_of_arrival arrival known, mapping_of_arrival arrival⟩

theorem Persists.reach (reach : Reach page layout moved) : layout.Persists moved :=
  ⟨fun _ known => reach.role known, reach.mapping⟩

theorem Persists.stored {process : ProcessId} {piece : RangePiece} {source : Bytes}
    (stored : Stored process piece source layout moved) : layout.Persists moved := by
  obtain ⟨middle, frame, reach, _, rfl⟩ := stored
  exact (Persists.reach reach).trans ⟨fun _ _ => rfl, rfl⟩

/-- A page keeps its role, or has none any more, and then its mapping has ended. -/
def Retains (page : UserPage) (ended : MappingId → Prop) (layout moved : Layout) : Prop :=
  moved.role page = layout.role page ∨ moved.role page = none ∧
    ∀ writable id, layout.role page = some (writable, some id) → ended id

theorem retains_of_shrink {ended : MappingId → Prop} (step : Shrink ended layout moved)
    (page : UserPage) : Retains page ended layout moved := by
  cases step with
  | shift step => exact .inl (role_of_moves (.single step) page)
  | unmap | leave => exact .inl rfl
  | remove other entry found belongs saved =>
      by_cases here : page = other
      · subst here
        refine .inr ⟨by rw [role, place_entry, if_pos rfl]; rfl, ?_⟩
        intro writable id role
        unfold Layout.role at role
        rw [found, Option.map_some, Option.some.injEq, Prod.mk.injEq] at role
        exact belongs id role.2
      · exact .inl (by rw [role, place_entry, if_neg here]; rfl)

/-- On the way to the end of mappings, an entry goes only if its mapping does. -/
theorem retains_of_shrinks {ended : MappingId → Prop}
    (path : Relation.ReflTransGen (Shrink ended) layout moved) (page : UserPage) :
    Retains page ended layout moved := by
  induction path with
  | refl => exact .inl rfl
  | tail _ step ih =>
      obtain kept | ⟨gone, ends⟩ := ih
      · unfold Retains
        rw [← kept]
        exact retains_of_shrink step page
      · refine .inr ⟨?_, ends⟩
        obtain same | ⟨again, _⟩ := retains_of_shrink step page
        · exact same.trans gone
        · exact again

theorem retains_of_effect {operation : Vm.Operation}
    (effect : Vm.Effect operation layout moved) (known : (layout.entry page).isSome) :
    Retains page (fun id => moved.mapping id = none) layout moved := by
  cases effect with
  | moves _ path => exact .inl (role_of_moves path page)
  | brings other frame middle _ path arrival =>
      exact .inl (((Persists.moves path).trans (.arrival arrival)).roles page known)
  | spawns | refiles => exact .inl rfl
  | loses ended _ path ending =>
      refine (retains_of_shrinks path page).imp_right fun gone => ⟨gone.1, ?_⟩
      exact fun writable id role => ending id (gone.2 writable id role)
  | maps mapping fresh live free =>
      refine .inl ?_
      unfold role
      rw [extend_entry, if_neg]
      -- pages of the new mapping had no entry
      rintro ⟨owner, inside⟩
      have absent := free page.2 inside
      rw [← owner] at absent
      rw [absent] at known
      cases known

theorem mapping_of_effect {operation : Vm.Operation}
    (effect : Vm.Effect operation layout moved) {id : MappingId} {mapping : Mapping}
    (live : moved.mapping id = some mapping) :
    layout.mapping id = some mapping ∨ id = mapping.id ∧ moved = layout.extend mapping := by
  cases effect with
  | moves _ path => exact .inl ((congrFun (mapping_of_moves path) id).symm.trans live)
  | brings page frame middle _ path arrival =>
      have same := ((Persists.moves path).trans (.arrival arrival)).mapping
      exact .inl ((congrFun same id).symm.trans live)
  | spawns | refiles => exact .inl live
  | loses ended _ path ending =>
      refine .inl ?_
      clear ending
      induction path with
      | refl => exact live
      | tail path step ih =>
          refine ih ?_
          cases step with
          | shift step => exact (congrFun (mapping_of_moves (.single step)) id).symm.trans live
          | remove | leave => exact live
          | unmap => exact mapping_of_unmap live
  | maps added fresh alive free =>
      rw [extend_mapping] at live
      split at live
      · rename_i same
        cases live
        exact .inr ⟨same, rfl⟩
      · exact .inl live

end Layout

namespace Vm

variable {vm after : Vm arch}

theorem copyToUser_persists (consistent : vm.Consistent tolerated) (process : ProcessId)
    (address : VirtualAddress) (data : Bytes) (stackPointer : VirtualAddress) :
    (vm.copyToUser process address data stackPointer).Satisfies tolerated fun (_, after) =>
      vm.layout.Persists after.layout := by
  unfold copyToUser
  split
  · refine .mono (writePieces_satisfies (fun _ _ now => vm.layout.Persists now.layout)
      (fun _ last => vm.layout.Persists last.layout) ?_ ?_ (fun _ holds => holds)
      (RangePiece.tiles_ofRange address data.size) consistent (.refl _)) fun _ h => h.2.2
    · exact fun _ _ _ _ _ _ holds _ _ _ _ stored => holds.trans (.stored stored)
    · exact fun _ _ _ _ _ _ _ holds _ _ path => holds.trans (.moves path)
  · exact .pure (.refl _)

theorem copyFromUser_persists (consistent : vm.Consistent tolerated) (process : ProcessId)
    (address : VirtualAddress) (buffer : Bytes) (stackPointer : VirtualAddress) :
    (vm.copyFromUser process address buffer stackPointer).Satisfies tolerated
      fun (_, _, after) => vm.layout.Persists after.layout := by
  unfold copyFromUser
  split
  · refine .mono (readPieces_satisfies (fun _ _ _ now => vm.layout.Persists now.layout)
      (fun _ _ last => vm.layout.Persists last.layout) ?_ ?_ (fun _ _ holds => holds)
      rfl (RangePiece.tiles_ofRange address buffer.size) consistent (.refl _)) fun _ h => h.2.2
    · rintro _ _ _ _ _ _ _ _ _ holds _ _ _ _ ⟨_, reach, _⟩
      exact holds.trans (.reach reach)
    · exact fun _ _ _ _ _ _ _ _ holds _ path => holds.trans (.moves path)
  · exact .pure (.refl _)

theorem persists_or_effect (consistent : vm.Consistent fun _ => True) {operation : Operation}
    {answer : Answer} (yields : (vm.step operation).Yields (answer, after)) :
    vm.layout.Persists after.layout ∨ Effect operation vm.layout after.layout := by
  cases course_of_yields consistent yields with
  | stored process address data stackPointer outcome copied =>
      exact .inl ((copyToUser_persists consistent process address data stackPointer).of_yields copied)
  | fetched process address buffer stackPointer outcome filled copied =>
      exact .inl
        ((copyFromUser_persists consistent process address buffer stackPointer).of_yields copied)
  | other _ _ _ effect => exact .inr effect

/-- Through any operation, a page that has an entry keeps its role or loses the entry with its
mapping. -/
theorem step_retains (consistent : vm.Consistent fun _ => True) {operation : Operation}
    {answer : Answer} (yields : (vm.step operation).Yields (answer, after)) {page : UserPage}
    (known : (vm.layout.entry page).isSome) :
    Layout.Retains page (fun id => after.layout.mapping id = none) vm.layout after.layout := by
  obtain persists | effect := persists_or_effect consistent yields
  · exact .inl (persists.roles page known)
  · exact Layout.retains_of_effect effect known

end Vm
end DemandPaging
