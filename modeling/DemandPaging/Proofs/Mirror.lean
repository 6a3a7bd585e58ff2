import DemandPaging.Proofs.Plain
import DemandPaging.Proofs.Processes
import DemandPaging.Proofs.Queue
import DemandPaging.Proofs.RoundTrip

/-!
Address spaces and what they were told. Whatever the operations on a space and on the bits of its
translations, entries and translations say the same, and a page is dirty only if it was written
since it last came into a frame. So destroying the space leaves no translation.
-/

namespace DemandPaging

variable {arch : Architecture}

namespace PageDirectory

variable {directory : PageDirectory arch} {page : PageNumber} {frame : FrameNumber}

theorem translate_eq_some {flags : PageFlags}
    (translated : directory.translate page = some (frame, flags)) :
    directory.route page = some (some frame, flags.has .writable) := by
  unfold translate at translated
  obtain ⟨entry, found, leads⟩ := Option.bind_eq_some_iff.mp translated
  obtain ⟨led, here, same⟩ := Option.bind_eq_some_iff.mp leads
  cases same
  unfold route
  rw [found, Option.map_some, here]

theorem exists_translate {writable : Bool}
    (routed : directory.route page = some (some frame, writable)) :
    ∃ flags, directory.translate page = some (frame, flags) := by
  obtain ⟨entry, found, leads⟩ := Option.map_eq_some_iff.mp routed
  refine ⟨entry.flags, ?_⟩
  unfold translate
  rw [found, Option.bind_eq_bind, Option.bind_some, (Prod.mk.inj leads).1]
  rfl

end PageDirectory

namespace PageEntry

def isSwapped (entry : PageEntry) : Bool :=
  match entry.backing with
  | .swap _ => true
  | _ => false

end PageEntry

namespace AddressSpace

/-- An operation on an address space, or one on the bits of its translations. What a page that is
removed lived in goes back to the stores at hand. -/
inductive Operation (arch : Architecture) where
  | installFrame (page : PageNumber) (frame : FrameNumber) (writable : Bool)
  | installFile (mapping : Mapping) (page : PageNumber)
  | faultIn (page : PageNumber) (frame : FrameNumber)
  | evictToFile (page : PageNumber)
  | evictToSwap (page : PageNumber) (slot : SwapSlot)
  | uninstall (stores : Stores arch) (mapping : Mapping) (page : PageNumber)
  | update (operation : PageDirectory.Operation)

inductive Answer where
  | done
  /-- Whether the page was installed or removed. -/
  | changed (done : Bool)
  | left (frame : FrameNumber)
  | updated (answer : PageDirectory.Answer)

/-- Pages are mapped and unmapped by the space alone. -/
def Operation.Legal : Operation arch → Prop
  | .update operation => operation.maps = false
  | _ => True

def perform (space : AddressSpace arch) : Operation arch → Run (Answer × AddressSpace arch)
  | .installFrame page frame writable => do
    let (installed, after) ← space.installFrame page frame writable
    return (.changed installed, after)
  | .installFile mapping page =>
    return (.changed (space.installFile mapping page).1, (space.installFile mapping page).2)
  | .faultIn page frame => do return (.done, ← space.faultIn page frame)
  | .evictToFile page => do
    let (frame, after) ← space.evictToFile page
    return (.left frame, after)
  | .evictToSwap page slot => do
    let (frame, after) ← space.evictToSwap page slot
    return (.left frame, after)
  | .uninstall stores mapping page => do
    let (removed, after, _) ← space.uninstall stores mapping page
    return (.changed removed, after)
  | .update operation => do
    let (answer, directory) ← space.directory.perform operation
    return (.updated answer, { space with directory })

/-- Whether the call has brought the page into a frame. -/
def brings (page : PageNumber) : Operation arch × Answer → Bool
  | (.installFrame other _ _, .changed true) => other = page
  | (.faultIn other _, _) => other = page
  | _ => false

/-- Whether the call has set the page's dirty bit, by an update or by a write that was allowed. -/
def dirties (page : PageNumber) : Operation arch × Answer → Bool
  | (.update (.setDirty other true), _) => other = page
  | (.update (.recordAccess other true), .updated (.frame (some _))) => other = page
  | _ => false

/-- The page's dirty bit was set after the page last came into a frame. The calls are listed the
latest first. -/
def Dirtied (page : PageNumber) : List (Operation arch × Answer) → Prop
  | [] => False
  | call :: earlier => dirties page call = true ∨ brings page call = false ∧ Dirtied page earlier

/-- An address space that was created and then changed as the trace says. -/
inductive Traced (owner : ProcessId) (stackBottom : PageNumber) :
    List (Operation arch × Answer) → AddressSpace arch → Prop
  | new : Traced owner stackBottom [] { owner, stackBottom }
  | step {trace : List (Operation arch × Answer)} {space after : AddressSpace arch}
      {operation : Operation arch} {answer : Answer} (traced : Traced owner stackBottom trace space)
      (yields : (space.perform operation).Yields (answer, after)) (legal : operation.Legal) :
      Traced owner stackBottom ((operation, answer) :: trace) after

def count (space : AddressSpace arch) (kind : PageEntry → Bool) : Nat :=
  space.entries.toList.countP fun item => kind item.2

variable {owner : ProcessId} {stackBottom : PageNumber} {trace : List (Operation arch × Answer)}
  {space placed : AddressSpace arch} {page : PageNumber} {entry : PageEntry}
  {call : Operation arch × Answer}

/-- Entries and translations agree, a page in a file is a page of the file's mapping, and a dirty
page was written since it came. -/
structure Faithful (trace : List (Operation arch × Answer)) (space : AddressSpace arch) : Prop where
  coherent : space.Coherent
  filed : ∀ (page : PageNumber) entry id, space.entries[page]? = some entry →
    entry.backing = .file id → entry.mapping = some id
  dirtied : ∀ page, space.directory.isDirty page = true → Dirtied page trace

namespace Faithful

theorem keep (faithful : Faithful trace space) (brings : ∀ page, brings page call = false) :
    Faithful (call :: trace) space :=
  ⟨faithful.coherent, faithful.filed,
    fun page dirty => .inr ⟨brings page, faithful.dirtied page dirty⟩⟩

theorem place (faithful : Faithful trace space) {placing : Option PageEntry}
    (places : space.Places page placing placed)
    (filed : ∀ entry id, placing = some entry → entry.backing = .file id → entry.mapping = some id)
    (brings : ∀ other, other ≠ page → brings other call = false) :
    Faithful (call :: trace) placed := by
  refine ⟨places.coherent, ?_, ?_⟩
  · intro other entry id found source
    rw [places.entries] at found
    split at found
    · exact filed entry id found source
    · exact faithful.filed other entry id found source
  · intro other dirty
    rw [places.dirty] at dirty
    split at dirty
    · cases dirty
    · rename_i apart
      exact .inr ⟨brings other apart, faithful.dirtied other dirty⟩

end Faithful

theorem residentEntry_eq_ok {frame : FrameNumber}
    (done : space.residentEntry page = .ok (frame, entry)) :
    space.entries[page]? = some entry ∧ entry.backing = .frame frame := by
  unfold residentEntry at done
  split at done
  · rename_i found
    split at done
    · rename_i resident
      cases done
      exact ⟨found, resident⟩
    · cases done
  · cases done

theorem Coherent.route_cases (coherent : space.Coherent) (page : PageNumber) :
    space.directory.route page = none ∨
      ∃ frame writable, space.directory.route page = some (some frame, writable) := by
  rw [coherent]
  cases space.entries[page]? with
  | none => exact .inl rfl
  | some entry =>
      cases resident : entry.frame? with
      | none => exact .inl (by simp [PageEntry.translation, resident])
      | some frame => exact .inr ⟨frame, entry.writable, by simp [PageEntry.translation, resident]⟩

/-- Only an update of the dirty bit and a write that is allowed make a page dirty. -/
theorem Coherent.dirties (coherent : space.Coherent) {operation : PageDirectory.Operation}
    {answer : PageDirectory.Answer} {directory : PageDirectory arch}
    (kept : operation.maps = false)
    (done : space.directory.perform operation = .ok (answer, directory)) {page : PageNumber}
    (dirty : directory.isDirty page = true) : space.directory.isDirty page = true ∨
      dirties page ((.update operation, .updated answer) : Operation arch × Answer) = true := by
  cases operation with
  | map | unmap => cases kept
  | setAccessed other value =>
      cases done
      unfold PageDirectory.isDirty PageDirectory.setAccessed at dirty
      rw [PageDirectory.modifyFlags_has, if_neg fun h => nomatch h.2] at dirty
      exact .inl dirty
  | setDirty other value =>
      cases done
      unfold PageDirectory.isDirty PageDirectory.setDirty at dirty
      rw [PageDirectory.modifyFlags_has] at dirty
      split at dirty
      · rename_i own
        obtain ⟨-, rfl⟩ := (Bool.and_eq_true _ _).mp dirty
        exact .inr (decide_eq_true own.1.symm)
      · exact .inl dirty
  | testAndClearAccessed other =>
      cases done
      rw [PageDirectory.testAndClearAccessed_isDirty] at dirty
      exact .inl dirty
  | recordAccess other write =>
      cases done
      obtain unmapped | ⟨frame, writable, mapped⟩ := coherent.route_cases other
      · rw [PageDirectory.recordAccess_of_unmapped unmapped] at dirty
        exact .inl dirty
      · by_cases allowed : write = true → writable = true
        · obtain ⟨answered, -, bits⟩ := PageDirectory.recordAccess_of_allowed mapped allowed
          rw [answered]
          rw [bits] at dirty
          split at dirty
          · rename_i own
            subst own
            cases write with
            | false => exact .inl dirty
            | true => exact .inr (decide_eq_true rfl)
          · exact .inl dirty
        · obtain ⟨rfl, readOnly⟩ := Classical.not_imp.mp allowed
          rw [Bool.not_eq_true] at readOnly
          rw [PageDirectory.recordAccess_of_readOnly (readOnly ▸ mapped)] at dirty
          exact .inl dirty
  | translate | isMapped | isAccessed | isDirty | size =>
      cases done
      exact .inl dirty

namespace Faithful

theorem installFrame (faithful : Faithful trace space) (page : PageNumber) (frame : FrameNumber)
    (writable : Bool) :
    (space.installFrame page frame writable).Satisfies (fun _ => True) fun (installed, after) =>
      Faithful ((.installFrame page frame writable, .changed installed) :: trace) after := by
  cases listed : space.entries.contains page with
  | true =>
      unfold AddressSpace.installFrame
      rw [if_pos listed]
      exact .pure (faithful.keep fun _ => rfl)
  | false =>
      have absent := NumberMap.contains_eq_false.mp listed
      refine .mono (installFrame_satisfies faithful.coherent absent (fun _ _ => trivial)
        writable) ?_
      rintro ⟨installed, after⟩ ⟨rfl, places⟩
      refine faithful.place places ?_ fun other apart => decide_eq_false apart.symm
      rintro entry id ⟨⟩ ⟨⟩

theorem installFile (faithful : Faithful trace space) (mapping : Mapping) (page : PageNumber) :
    Faithful ((.installFile mapping page, .changed (space.installFile mapping page).1) :: trace)
      (space.installFile mapping page).2 := by
  unfold AddressSpace.installFile
  split
  · rename_i available
    have absent : ∀ entry, space.entries[page]? = some entry → entry.isResident = false := by
      intro entry found
      rw [(isAvailable_iff.mp available).2] at found
      cases found
    let filed : PageEntry := ⟨.file mapping.id, mapping.segment.writable, some mapping.id⟩
    have elsewhere : ∀ entry, some filed = some entry → entry.isResident = false := by
      rintro entry ⟨⟩
      rfl
    have places := faithful.coherent.places_elsewhere absent elsewhere
      (NumberMap.getElem?_insert space.entries page · filed)
    refine faithful.place places ?_ fun _ _ => rfl
    rintro entry id ⟨⟩ ⟨⟩
    rfl
  · exact faithful.keep fun _ => rfl

theorem faultIn (faithful : Faithful trace space) (page : PageNumber) (frame : FrameNumber) :
    (space.faultIn page frame).Satisfies (fun _ => True) fun after =>
      Faithful ((.faultIn page frame, .done) :: trace) after := by
  cases found : space.entries[page]? with
  | none =>
      unfold AddressSpace.faultIn
      rw [found]
      trivial
  | some entry =>
      cases resident : entry.isResident with
      | true =>
          unfold AddressSpace.faultIn require
          simp only [found, resident]
          trivial
      | false =>
          refine .mono (faultIn_satisfies faithful.coherent found resident fun _ _ => trivial) ?_
          intro after places
          refine faithful.place places ?_ fun other apart => decide_eq_false apart.symm
          rintro entry id ⟨⟩ ⟨⟩

theorem evictToFile (faithful : Faithful trace space) (page : PageNumber) :
    (space.evictToFile page).Satisfies (fun _ => True) fun (frame, after) =>
      Faithful ((.evictToFile page, .left frame) :: trace) after := by
  unfold AddressSpace.evictToFile
  refine .bind (.of_errors fun _ _ => trivial) ?_
  rintro ⟨frame, entry⟩ resident
  obtain ⟨found, source⟩ := residentEntry_eq_ok resident
  dsimp only
  split
  · trivial
  · rename_i id belongs
    refine .pure (faithful.place (moveOut_places faithful.coherent entry (by simp)) ?_
      fun _ _ => rfl)
    rintro placed other ⟨⟩ ⟨⟩
    exact belongs

theorem evictToSwap (faithful : Faithful trace space) (page : PageNumber) (slot : SwapSlot) :
    (space.evictToSwap page slot).Satisfies (fun _ => True) fun (frame, after) =>
      Faithful ((.evictToSwap page slot, .left frame) :: trace) after := by
  unfold AddressSpace.evictToSwap
  refine .bind (.of_errors fun _ _ => trivial) ?_
  rintro ⟨frame, entry⟩ resident
  refine .pure (faithful.place (moveOut_places faithful.coherent entry (by simp)) ?_
    fun _ _ => rfl)
  rintro placed other ⟨⟩ ⟨⟩

theorem uninstall (faithful : Faithful trace space) (stores : Stores arch) (mapping : Mapping)
    (page : PageNumber) :
    (space.uninstall stores mapping page).Satisfies (fun _ => True) fun (removed, after, _) =>
      Faithful ((.uninstall stores mapping page, .changed removed) :: trace) after := by
  have coherent := faithful.coherent
  unfold AddressSpace.uninstall
  cases found : space.entries[page]? with
  | none => exact .pure (faithful.keep fun _ => rfl)
  | some entry =>
      dsimp only
      split
      · exact .pure (faithful.keep fun _ => rfl)
      · cases source : entry.backing with
        | file id =>
            have places := coherent.erase found (PageEntry.isResident_eq_false (by simp [source]))
            exact .pure (faithful.place places (fun _ _ h => nomatch h) fun _ _ => rfl)
        | swap slot =>
            have places := coherent.erase found (PageEntry.isResident_eq_false (by simp [source]))
            refine .bind .any fun swap _ => ?_
            exact .pure (faithful.place places (fun _ _ h => nomatch h) fun _ _ => rfl)
        | frame frame =>
            refine .bind .any fun files _ => .bind .any fun frames _ => ?_
            exact .pure (faithful.place (coherent.unmap page) (fun _ _ h => nomatch h)
              fun _ _ => rfl)

theorem update (faithful : Faithful trace space) {operation : PageDirectory.Operation}
    {answer : PageDirectory.Answer} {directory : PageDirectory arch}
    (kept : operation.maps = false)
    (done : space.directory.perform operation = .ok (answer, directory)) :
    Faithful ((.update operation, .updated answer) :: trace) { space with directory } := by
  refine ⟨fun page => ?_, faithful.filed, fun page dirty => ?_⟩
  · exact (PageDirectory.perform_route kept done page).trans (faithful.coherent page)
  · refine (faithful.coherent.dirties kept done dirty).elim (fun before => ?_) .inl
    exact .inr ⟨rfl, faithful.dirtied page before⟩

theorem step_satisfies (faithful : Faithful trace space) {operation : Operation arch}
    (legal : operation.Legal) :
    (space.perform operation).Satisfies (fun _ => True) fun (answer, after) =>
      Faithful ((operation, answer) :: trace) after := by
  cases operation with
  | installFrame page frame writable =>
      exact .bind (.lift (faithful.installFrame page frame writable)) fun _ kept => .pure kept
  | installFile mapping page => exact .pure (faithful.installFile mapping page)
  | faultIn page frame => exact .bind (.lift (faithful.faultIn page frame)) fun _ kept => .pure kept
  | evictToFile page => exact .bind (.lift (faithful.evictToFile page)) fun _ kept => .pure kept
  | evictToSwap page slot =>
      exact .bind (.lift (faithful.evictToSwap page slot)) fun _ kept => .pure kept
  | uninstall stores mapping page =>
      exact .bind (faithful.uninstall stores mapping page) fun _ kept => .pure kept
  | update operation =>
      refine .bind (.lift (.of_errors fun _ _ => trivial)) ?_
      rintro ⟨answer, directory⟩ done
      exact .pure (faithful.update legal done)

end Faithful

theorem Traced.faithful (traced : Traced owner stackBottom trace space) : Faithful trace space := by
  induction traced with
  | new =>
      refine ⟨fun page => ?_, fun page entry id found => ?_, fun page dirty => ?_⟩
      · simp [PageDirectory.route]
      · simp at found
      · simp [PageDirectory.isDirty, PageDirectory.has] at dirty
  | step traced yields legal ih => exact (ih.step_satisfies legal).of_yields yields

/-- There are as many translations as resident pages. -/
theorem Coherent.size_eq (coherent : space.Coherent) :
    space.directory.size = space.count PageEntry.isResident := by
  let resident := space.entries.filter fun _ entry => entry.isResident
  have same : space.directory.entries.map (fun _ _ => ()) = resident.map fun _ _ => () := by
    apply Std.ExtTreeMap.ext_getElem?
    intro page
    have routed := congrArg (Option.map fun _ => ()) (coherent page)
    unfold PageDirectory.route at routed
    rw [Option.map_map] at routed
    rw [Std.ExtTreeMap.getElem?_map, Std.ExtTreeMap.getElem?_map, Std.ExtTreeMap.getElem?_filter']
    refine routed.trans ?_
    cases space.entries[page]? with
    | none => rfl
    | some entry =>
        cases found : entry.frame? <;>
          simp [PageEntry.translation, PageEntry.isResident, Option.filter, found]
  have sizes := congrArg Std.ExtTreeMap.size same
  rw [Std.ExtTreeMap.size_map, Std.ExtTreeMap.size_map] at sizes
  unfold PageDirectory.size count
  rw [sizes, ← Std.ExtTreeMap.length_toList, Std.ExtTreeMap.toList_filter,
    List.countP_eq_length_filter]

/-- While a space is destroyed: what is freed is counted, and the pages still mapped are among
those to come. -/
structure Counting (frames slots : Nat) (rest : List (PageNumber × PageEntry))
    (destruction : Destruction arch) : Prop where
  frames : destruction.released.frames + rest.countP (·.2.isResident) = frames
  slots : destruction.released.swapSlots + rest.countP (·.2.isSwapped) = slots
  routed : ∀ page, destruction.directory.route page ≠ none →
    ∃ entry, (page, entry) ∈ rest ∧ entry.isResident = true

theorem Counting.dropEntry_satisfies {frames slots : Nat} {rest : List (PageNumber × PageEntry)}
    {destruction : Destruction arch} (counting : Counting frames slots ((page, entry) :: rest)
      destruction) :
    (destruction.dropEntry (page, entry)).Satisfies (fun _ => True)
      (Counting frames slots rest) := by
  obtain ⟨directory, stores, released⟩ := destruction
  obtain ⟨frames', slots', routed⟩ := counting
  rw [List.countP_cons] at frames' slots'
  have later : ∀ other, directory.route other ≠ none → (other = page → entry.isResident = false) →
      ∃ entry, (other, entry) ∈ rest ∧ entry.isResident = true := by
    intro other mapped elsewhere
    obtain ⟨listed, member, resident⟩ := routed other mapped
    obtain ⟨⟨⟩⟩ | member := List.mem_cons.mp member
    · rw [elsewhere rfl] at resident
      cases resident
    · exact ⟨listed, member, resident⟩
  unfold Destruction.dropEntry
  cases source : entry.backing with
  | frame frame =>
      have resident : entry.isResident = true := PageEntry.isResident_of_frame source
      have unswapped : entry.isSwapped = false := by simp [PageEntry.isSwapped, source]
      simp only [resident, unswapped, if_true, Bool.false_eq_true, if_false] at frames' slots'
      refine .bind .any fun frames _ => .pure ⟨?_, slots', ?_⟩
      · dsimp only at frames' ⊢
        omega
      · intro other mapped
        rw [PageDirectory.unmap_route] at mapped
        split at mapped
        · exact absurd rfl mapped
        · rename_i apart
          exact later other mapped fun same => absurd same apart
  | swap slot =>
      have elsewhere : entry.isResident = false :=
        PageEntry.isResident_eq_false (by simp [source])
      have swapped : entry.isSwapped = true := by simp [PageEntry.isSwapped, source]
      simp only [elsewhere, swapped, if_true, Bool.false_eq_true, if_false] at frames' slots'
      refine .bind .any fun swap _ => .pure ⟨frames', ?_, fun other mapped => ?_⟩
      · dsimp only at slots' ⊢
        omega
      · exact later other mapped fun _ => elsewhere
  | file id =>
      have elsewhere : entry.isResident = false :=
        PageEntry.isResident_eq_false (by simp [source])
      have unswapped : entry.isSwapped = false := by simp [PageEntry.isSwapped, source]
      simp only [elsewhere, unswapped, Bool.false_eq_true, if_false] at frames' slots'
      exact .pure ⟨frames', slots', fun other mapped => later other mapped fun _ => elsewhere⟩

theorem Coherent.drops (coherent : space.Coherent) (stores : Stores arch) :
    (space.entries.toList.foldlM Destruction.dropEntry
      { directory := space.directory, stores }).Satisfies (fun _ => True) fun destruction =>
        destruction.directory.isEmpty = true ∧
          destruction.released =
            ⟨space.count PageEntry.isResident, space.count PageEntry.isSwapped⟩ := by
  have start : Counting (space.count PageEntry.isResident) (space.count PageEntry.isSwapped)
      space.entries.toList { directory := space.directory, stores } := by
    refine ⟨Nat.zero_add _, Nat.zero_add _, fun page mapped => ?_⟩
    rw [coherent] at mapped
    obtain ⟨⟨frame, writable⟩, routed⟩ := Option.ne_none_iff_exists'.mp mapped
    obtain ⟨entry, found, calls⟩ := Option.bind_eq_some_iff.mp routed
    obtain ⟨frame, resident, -⟩ := Option.map_eq_some_iff.mp calls
    refine ⟨entry, Std.ExtTreeMap.mem_toList_iff_getElem?_eq_some.mpr found, ?_⟩
    exact PageEntry.isResident_of_frame (PageEntry.frame?_eq_some.mp resident)
  refine (Checked.Satisfies.foldlM (Counting _ _) start fun item rest destruction counting =>
    counting.dropEntry_satisfies).mono ?_
  rintro destruction ⟨frames, slots, routed⟩
  refine ⟨PageDirectory.isEmpty_of_route fun page => ?_, ?_⟩
  · by_contra mapped
    obtain ⟨entry, member, -⟩ := routed page mapped
    cases member
  · cases destruction with
    | mk directory stores released => exact congrArg₂ Released.mk frames slots

/-- The stores have what the listed entries live in, for each entry its own. -/
structure Owed (stores : Stores arch) (rest : List (PageNumber × PageEntry)) : Prop where
  frames : ∃ ring, stores.frames.WellFormed (fun _ => True) ring
  swap : stores.swap.WellFormed
  tracked : ∀ item ∈ rest, ∀ frame, item.2.backing = .frame frame →
    frame ∈ stores.frames
  allocated : ∀ item ∈ rest, ∀ slot, item.2.backing = .swap slot →
    stores.swap.isAllocated slot = true
  distinct : rest.Pairwise fun first later =>
    first.2.backing.IsExclusive → later.2.backing ≠ first.2.backing

theorem Owed.dropEntry_satisfies {rest : List (PageNumber × PageEntry)}
    {destruction : Destruction arch} {item : PageNumber × PageEntry}
    (owed : Owed destruction.stores (item :: rest)) :
    (destruction.dropEntry item).Satisfies (fun _ => False) fun dropped =>
      Owed dropped.stores rest := by
  obtain ⟨directory, stores, released⟩ := destruction
  obtain ⟨⟨ring, wellFormed⟩, swap, tracked, allocated, distinct⟩ := owed
  obtain ⟨fresh, distinct⟩ := List.pairwise_cons.mp distinct
  have tracked' := fun other member => tracked other (List.mem_cons_of_mem item member)
  have allocated' := fun other member => allocated other (List.mem_cons_of_mem item member)
  unfold Destruction.dropEntry
  cases source : item.2.backing with
  | frame frame =>
      refine .bind (FrameTable.release_satisfies wellFormed
        (tracked item List.mem_cons_self frame source)) ?_
      rintro frames ⟨wellFormed', -, owners⟩
      refine .pure ⟨⟨_, wellFormed'⟩, swap, ?_, allocated', distinct⟩
      intro other member kept resident
      have apart : kept ≠ frame := by
        rintro rfl
        exact fresh other member (source ▸ trivial) (resident.trans source.symm)
      rw [← FrameTable.ownerOf_isSome, owners, Function.update_of_ne apart]
      exact FrameTable.ownerOf_isSome.mpr (tracked' other member kept resident)
  | swap slot =>
      refine .bind (SwapTable.release_satisfies swap
        (allocated item List.mem_cons_self slot source)) ?_
      rintro released ⟨wellFormed', -, remaining⟩
      refine .pure ⟨⟨ring, wellFormed⟩, wellFormed', tracked', ?_, distinct⟩
      intro other member kept swapped
      refine (remaining kept).mpr ⟨?_, allocated' other member kept swapped⟩
      rintro rfl
      exact fresh other member (source ▸ trivial) (swapped.trans source.symm)
  | file id => exact .pure ⟨⟨ring, wellFormed⟩, swap, tracked', allocated', distinct⟩

theorem Owed.drops {stores : Stores arch} (owed : Owed stores space.entries.toList) :
    ∃ destruction, space.entries.toList.foldlM Destruction.dropEntry
      { directory := space.directory, stores } = .ok destruction := by
  have dropped : (space.entries.toList.foldlM Destruction.dropEntry
      { directory := space.directory, stores }).Satisfies (fun _ => False) fun destruction =>
        Owed destruction.stores [] :=
    .foldlM (fun rest (destruction : Destruction arch) => Owed destruction.stores rest) owed
      fun item rest destruction owed => owed.dropEntry_satisfies
  obtain ⟨destruction, done, -⟩ := dropped.exists_ok
  exact ⟨destruction, done⟩

/-- Whatever a space was told, its translations are those its entries call for, with their
permission, and a dirty page was written since it came into its frame. Destroying the space then
leaves no translation, reports the entries with frames and with slots, and goes through if the
stores have what they live in. -/
theorem Traced.mirrors (traced : Traced owner stackBottom trace space) :
    (∀ page frame, (∃ flags, space.directory.translate page = some (frame, flags)) ↔
      ∃ entry, space.entries[page]? = some entry ∧ entry.backing = .frame frame) ∧
      (∀ page frame flags entry, space.directory.translate page = some (frame, flags) →
        space.entries[page]? = some entry → flags.has .writable = entry.writable) ∧
      (∀ page, space.directory.isDirty page = true → Dirtied page trace) ∧
      (∀ (page : PageNumber) entry id, space.entries[page]? = some entry →
        entry.backing = .file id → entry.mapping = some id) ∧
      space.directory.size = space.count PageEntry.isResident ∧
      (∀ stores destruction, space.entries.toList.foldlM Destruction.dropEntry
          { directory := space.directory, stores } = .ok destruction →
        destruction.directory.isEmpty = true ∧ space.destroy stores =
          .ok (⟨space.count PageEntry.isResident, space.count PageEntry.isSwapped⟩,
            destruction.stores)) ∧
      ∀ stores, Owed stores space.entries.toList →
        ∃ destruction, space.entries.toList.foldlM Destruction.dropEntry
          { directory := space.directory, stores } = .ok destruction := by
  obtain ⟨coherent, filed, dirtied⟩ := traced.faithful
  refine ⟨?translates, ?permits, dirtied, filed, coherent.size_eq, ?destroys, fun _ => Owed.drops⟩
  case translates =>
    intro page frame
    constructor
    · rintro ⟨flags, translated⟩
      have routed := (coherent page).symm.trans (PageDirectory.translate_eq_some translated)
      obtain ⟨entry, found, calls⟩ := Option.bind_eq_some_iff.mp routed
      obtain ⟨led, resident, same⟩ := Option.map_eq_some_iff.mp calls
      obtain rfl := Option.some.inj (Prod.mk.inj same).1
      exact ⟨entry, found, PageEntry.frame?_eq_some.mp resident⟩
    · rintro ⟨entry, found, resident⟩
      exact PageDirectory.exists_translate (coherent.route_eq_some found resident)
  case permits =>
    intro page frame flags entry translated found
    have routed := (coherent page).symm.trans (PageDirectory.translate_eq_some translated)
    rw [found] at routed
    obtain ⟨led, resident, same⟩ := Option.map_eq_some_iff.mp routed
    exact (Prod.mk.inj same).2.symm
  case destroys =>
    intro stores destruction dropped
    have spec := coherent.drops stores
    rw [dropped] at spec
    obtain ⟨empty, released⟩ := spec
    refine ⟨empty, ?_⟩
    unfold destroy
    dsimp only
    rw [dropped, Checked.ok_bind, require, if_pos empty, ← released]
    rfl

/-- One page is written in its frame and another is moved to a slot. -/
theorem mirrors_two_pages : ∃ (trace : List (Operation .scaleModel × Answer))
    (space : AddressSpace .scaleModel) (stores : Stores .scaleModel) (after : Stores .scaleModel),
    Traced ⟨1⟩ ⟨8⟩ trace space ∧ space.directory.isDirty ⟨1⟩ = true ∧ Dirtied ⟨1⟩ trace ∧
      space.directory.size = space.count PageEntry.isResident ∧
      space.destroy stores = .ok (⟨1, 1⟩, after) := by
  let start : AddressSpace .scaleModel := { owner := ⟨1⟩, stackBottom := ⟨8⟩ }
  let table : FrameTable .scaleModel :=
    { pool := { base := ⟨16⟩, total := 1, free := [⟨16⟩], access := .hosted } }
  let device : SwapDevice := { disk := { size := 8 }, sectorCount := 8 }
  have passes : (start.perform (.installFrame ⟨1⟩ ⟨16⟩ true)).passes (fun one =>
      (one.2.perform (.update (.recordAccess ⟨1⟩ true))).passes fun two =>
        (two.2.perform (.installFrame ⟨2⟩ ⟨17⟩ false)).passes fun three =>
          (three.2.perform (.evictToSwap ⟨2⟩ ⟨0⟩)).passes fun four =>
            (table.acquire OwnerScript.owners {} {} ⟨1⟩ ⟨1⟩).passes fun obtained =>
              (SwapTable.new device).passes fun swap => (swap.step (.store Page.zero)).passes
                fun stored => four.2.directory.isDirty ⟨1⟩ &&
                  four.2.entries.toList == [(⟨1⟩, ⟨.frame ⟨16⟩, true, none⟩),
                    (⟨2⟩, ⟨.swap ⟨0⟩, false, none⟩)] &&
                  decide (⟨16⟩ ∈ obtained.2.1) && stored.2.isAllocated ⟨0⟩) = true := by
    decide +kernel
  simp only [Run.passes_iff, Bool.and_eq_true, Prod.exists, beq_iff_eq] at passes
  obtain ⟨_, one, first, _, two, second, _, three, third, _, four, fourth, _, frames, _, acquired,
    new, made, _, swap, stored, ⟨⟨dirty, entries⟩, tracked⟩, allocated⟩ := passes
  have traced : Traced ⟨1⟩ ⟨8⟩ _ four :=
    (((Traced.new.step first trivial).step second rfl).step third trivial).step fourth trivial
  have pool : FramePool.new ⟨16⟩ 1 .hosted = .ok table.pool := rfl
  have owed : Owed { frames, swap } four.entries.toList := by
    rw [entries]
    refine ⟨(FrameTable.Reachable.acquire (.new pool ∅) acquired).wellFormed,
      (((SwapTable.Traced.new made).step stored trivial).recalls (by decide)).wellFormed,
      ?_, ?_, ?_⟩
    · simpa using tracked
    · simpa using allocated
    · simp
  obtain ⟨-, -, dirtied, -, size, destroys, drops⟩ := traced.mirrors
  obtain ⟨destruction, dropped⟩ := drops _ owed
  have destroyed := (destroys _ destruction dropped).2
  unfold count at destroyed
  rw [entries] at destroyed
  exact ⟨_, four, _, _, traced, dirty, dirtied ⟨1⟩ dirty, size, destroyed⟩

end AddressSpace
end DemandPaging
