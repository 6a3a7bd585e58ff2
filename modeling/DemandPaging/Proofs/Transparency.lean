import DemandPaging.Proofs.Following

/-!
Paging does not show. User memory is followed beside the machine as a flat memory: a page
starts with what it holds when it is first in a frame, changes only where bytes are stored,
and is forgotten with its entry. A page that never moves to a file holds, wherever it lives,
what the flat memory says.
-/

namespace DemandPaging

variable {arch : Architecture}

/-- The contents of the pages that have been in a frame. -/
abbrev UserMemory := UserPage → Option Page

namespace Layout

variable {layout moved : Layout} {page : UserPage} {entry : PageEntry} {memory : UserMemory}
  {tolerated : Violation → Prop}

/-- What a page holds when it first comes into a frame: zeros, or what is read for it from the
file of its mapping. -/
def firstContents (layout : Layout) (page : UserPage) (entry : PageEntry) : Option Page :=
  match entry.mapping with
  | none => some Page.zero
  | some id => (layout.mapping id).bind fun mapping =>
      (mapping.readPage layout.files page.2 Page.zero).toOption

/-- Whether a page with this entry stays out of files: it belongs to no mapping, or to one
that keeps it in swap. -/
def StaysOut (layout : Layout) (page : UserPage) (entry : PageEntry) : Prop :=
  ∀ id mapping, entry.mapping = some id → layout.mapping id = some mapping →
    mapping.evictsToFile page.2 = .ok false

/-- Contents that are in a frame or in a slot. -/
def contents? (layout : Layout) : Backing → Option Page
  | .frame frame => some (layout.frame frame)
  | .swap slot => some (layout.slot slot)
  | .file _ => none

end Layout

namespace UserMemory

/-- The memory after the machine has come to a layout: pages without entry are forgotten, and
those that are in a frame for the first time have their first contents. -/
def observe (memory : UserMemory) (layout : Layout) : UserMemory := fun page =>
  (layout.entry page).bind fun entry =>
    (memory page).or (if entry.isResident then layout.firstContents page entry else none)

/-- The memory after bytes of one page have been overwritten. -/
def store (memory : UserMemory) (page : UserPage) (start : Nat) (source : Bytes) : UserMemory :=
  Function.update memory page ((memory page).map fun contents => contents.overwrite start source)

theorem observe_some {memory : UserMemory} {layout : Layout} {page : UserPage}
    {entry : PageEntry} {contents : Page} (present : layout.entry page = some entry)
    (known : memory page = some contents) : memory.observe layout page = some contents := by
  unfold observe
  rw [present, known]
  rfl

theorem observe_absent {memory : UserMemory} {layout : Layout} {page : UserPage}
    (absent : layout.entry page = none) : memory.observe layout page = none := by
  unfold observe
  rw [absent]
  rfl

theorem observe_elsewhere {memory : UserMemory} {layout : Layout} {page : UserPage}
    {entry : PageEntry} (present : layout.entry page = some entry)
    (elsewhere : entry.isResident = false) : memory.observe layout page = memory page := by
  unfold observe
  rw [present, Option.bind_some, elsewhere]
  simp

end UserMemory

namespace Layout

variable {layout moved : Layout} {page : UserPage} {entry : PageEntry} {memory : UserMemory}
  {tolerated : Violation → Prop}

/-- A page that stays out of files holds what the memory says, wherever it lives. -/
def Mirrors (layout : Layout) (memory : UserMemory) : Prop :=
  ∀ page entry, layout.entry page = some entry → layout.StaysOut page entry →
    memory page = layout.contents? entry.backing

/-- Nothing is remembered of pages without entry. -/
def Forgets (layout : Layout) (memory : UserMemory) : Prop :=
  ∀ page, layout.entry page = none → memory page = none

theorem observe_eq (present : layout.entry page = some entry)
    (known : memory page = layout.contents? entry.backing) :
    memory.observe layout page = layout.contents? entry.backing := by
  cases source : entry.backing with
  | frame frame =>
      rw [source] at known
      exact UserMemory.observe_some present known
  | swap slot =>
      rw [source] at known
      exact UserMemory.observe_some present known
  | file id =>
      rw [source] at known
      refine (UserMemory.observe_elsewhere present ?_).trans known
      exact PageEntry.isResident_eq_false (by simp [source])

theorem Mirrors.observe (mirrors : layout.Mirrors memory) :
    layout.Mirrors (memory.observe layout) := by
  intro page entry present out
  exact observe_eq present (mirrors page entry present out)

theorem forgets_observe (layout : Layout) (memory : UserMemory) :
    layout.Forgets (memory.observe layout) :=
  fun _ => UserMemory.observe_absent

theorem Mirrors.place (mirrors : layout.Mirrors memory) {backing : Backing}
    (present : layout.entry page = some entry)
    (same : layout.StaysOut page entry →
      layout.contents? backing = layout.contents? entry.backing) :
    (layout.place page (some { entry with backing })).Mirrors memory := by
  intro other found listed out
  rw [place_entry] at listed
  split at listed
  · rename_i here
    subst here
    cases listed
    exact (mirrors other entry present out).trans (same out).symm
  · exact mirrors other found listed out

theorem Mirrors.scratch (mirrors : layout.Mirrors memory)
    (entries : moved.entry = layout.entry) (mappings : moved.mapping = layout.mapping)
    (same : ∀ page backing, layout.Backs page backing →
      moved.contents? backing = layout.contents? backing) : moved.Mirrors memory := by
  intro page entry present out
  rw [entries] at present
  unfold StaysOut at out
  rw [mappings] at out
  rw [mirrors page entry present out, same page entry.backing ⟨entry, present, rfl⟩]

theorem contents?_fillFrame {frame : FrameNumber} (idle : ∀ page, ¬layout.Backs page (.frame frame))
    (contents : Page) (page : UserPage) (backing : Backing) (backs : layout.Backs page backing) :
    (layout.fillFrame frame contents).contents? backing = layout.contents? backing := by
  cases backing with
  | file id => rfl
  | swap slot => rfl
  | frame other =>
      have differs : other ≠ frame := by
        rintro rfl
        exact idle page backs
      change some (Function.update layout.frame frame contents other) = _
      rw [Function.update_of_ne differs]
      rfl

theorem contents?_fillSlot {slot : SwapSlot} (idle : ∀ page, ¬layout.Backs page (.swap slot))
    (contents : Page) (page : UserPage) (backing : Backing) (backs : layout.Backs page backing) :
    (layout.fillSlot slot contents).contents? backing = layout.contents? backing := by
  cases backing with
  | file id => rfl
  | frame frame => rfl
  | swap other =>
      have differs : other ≠ slot := by
        rintro rfl
        exact idle page backs
      change some (Function.update layout.slot slot contents other) = _
      rw [Function.update_of_ne differs]
      rfl

/-- Moving contents between stores does not show in a page that stays out of files. -/
theorem Mirrors.shift (mirrors : layout.Mirrors memory) (step : Shift layout moved) :
    moved.Mirrors memory := by
  cases step with
  | scratchSlot slot contents idle =>
      exact mirrors.scratch rfl rfl (contents?_fillSlot idle contents)
  | scratchFrame frame contents idle =>
      exact mirrors.scratch rfl rfl (contents?_fillFrame idle contents)
  | writeBack => exact mirrors.scratch rfl rfl fun _ _ _ => rfl
  | toSwap page entry frame slot found resident idle copied kept =>
      refine mirrors.place found fun _ => ?_
      rw [resident]
      exact congrArg some copied
  | toFile page entry frame id mapping found resident belongs live filed saved =>
      refine mirrors.place found fun out => ?_
      have kept := out id mapping belongs live
      rw [filed] at kept
      cases kept

theorem Mirrors.moves (mirrors : layout.Mirrors memory)
    (path : Relation.ReflTransGen Shift layout moved) : moved.Mirrors memory := by
  induction path with
  | refl => exact mirrors
  | tail _ step ih => exact ih.shift step

theorem absent_iff_role : layout.entry page = none ↔ layout.role page = none := by
  unfold role
  rw [Option.map_eq_none_iff]

theorem Forgets.moves (forgets : layout.Forgets memory)
    (path : Relation.ReflTransGen Shift layout moved) : moved.Forgets memory := by
  intro page absent
  rw [absent_iff_role, role_of_moves path, ← absent_iff_role] at absent
  exact forgets page absent

theorem observe_first (present : layout.entry page = some entry)
    (unknown : memory page = none) (resident : entry.isResident = true) :
    memory.observe layout page = layout.firstContents page entry := by
  unfold UserMemory.observe
  rw [present, Option.bind_some, unknown, resident]
  rfl

theorem Mirrors.arrive (mirrors : layout.Mirrors memory) (forgets : layout.Forgets memory)
    (sound : layout.Sound tolerated) {frame : FrameNumber}
    (arrival : Arrival page frame layout moved) : moved.Mirrors (memory.observe moved) := by
  have settle : ∀ (contents : Page) (arrived : PageEntry),
      (∀ other, ¬layout.Backs other (.frame frame)) → arrived.backing = .frame frame →
      (((layout.fillFrame frame contents).place page (some arrived)).StaysOut page arrived →
        memory.observe ((layout.fillFrame frame contents).place page (some arrived)) page =
          some contents) →
      ((layout.fillFrame frame contents).place page (some arrived)).Mirrors
        (memory.observe ((layout.fillFrame frame contents).place page (some arrived))) := by
    intro contents arrived idle resident here other entry present out
    have filled : (layout.fillFrame frame contents).Mirrors memory :=
      mirrors.scratch rfl rfl (contents?_fillFrame idle contents)
    have listed := present
    rw [place_entry] at listed
    split at listed
    · rename_i same
      subst same
      cases listed
      rw [here out, resident]
      change _ = some (Function.update layout.frame frame contents frame)
      rw [Function.update_self]
    · exact observe_eq present (filled other entry listed out)
  have present : ∀ (contents : Page) (arrived : PageEntry),
      ((layout.fillFrame frame contents).place page (some arrived)).entry page =
        some arrived := by
    intro contents arrived
    rw [place_entry, if_pos rfl]
  cases arrival with
  | fresh writable idle new =>
      refine settle _ _ idle rfl fun _ => ?_
      exact observe_first (present _ _) (forgets page new) rfl
  | swapped entry slot idle found source =>
      refine settle _ _ idle rfl fun out => ?_
      have known := mirrors page entry found out
      rw [source] at known
      exact UserMemory.observe_some (present _ _) known
  | filed entry id mapping dest contents idle found source live read =>
      refine settle _ _ idle rfl fun out => ?_
      have unknown := mirrors page entry found out
      rw [source] at unknown
      refine (observe_first (present _ _) unknown rfl).trans ?_
      have belongs := (sound.admits page entry found).filed id source
      unfold firstContents
      simp only [belongs]
      change ((layout.mapping id).bind fun mapping =>
        (mapping.readPage layout.files page.2 Page.zero).toOption) = some contents
      rw [live, Option.bind_some, Mapping.readPage_dest read Page.zero]
      rfl

/-- Everything that is remembered is right, and nothing else is remembered. -/
structure Agrees (layout : Layout) (memory : UserMemory) : Prop where
  mirrors : layout.Mirrors memory
  forgets : layout.Forgets memory

theorem Mirrors.agrees (mirrors : layout.Mirrors memory) :
    layout.Agrees (memory.observe layout) :=
  ⟨mirrors.observe, forgets_observe layout memory⟩

theorem Agrees.brings (agrees : layout.Agrees memory) (sound : layout.Sound tolerated)
    {middle : Layout} {frame : FrameNumber} (path : Relation.ReflTransGen Shift layout middle)
    (arrival : Arrival page frame middle moved) : moved.Agrees (memory.observe moved) :=
  ⟨(agrees.mirrors.moves path).arrive (agrees.forgets.moves path) (sound.moves path) arrival,
    forgets_observe moved memory⟩

theorem Agrees.reach (agrees : layout.Agrees memory) (sound : layout.Sound tolerated)
    (reach : Reach page layout moved) : moved.Agrees (memory.observe moved) := by
  cases reach with
  | here => exact agrees.mirrors.agrees
  | brought middle frame moved path arrival => exact agrees.brings sound path arrival

theorem Agrees.write (agrees : layout.Agrees memory) (sound : layout.Sound tolerated)
    {frame : FrameNumber} (grants : layout.Grants page frame true) (start : Nat)
    (source : Bytes) :
    ((layout.use page true).fillFrame frame
      ((layout.frame frame).overwrite start source)).Agrees (memory.store page start source) := by
  obtain ⟨entry, found, resident, _⟩ := grants
  refine ⟨?_, ?_⟩
  · intro other present listed out
    have known := agrees.mirrors other present listed out
    unfold UserMemory.store
    rw [Function.update_apply]
    split
    · rename_i same
      subst same
      cases found.symm.trans listed
      rw [known, resident]
      change _ = some (Function.update layout.frame frame _ frame)
      rw [Function.update_self]
      rfl
    · rename_i differs
      rw [known]
      cases source' : present.backing with
      | file id => rfl
      | swap slot => rfl
      | frame another =>
          have apart : another ≠ frame := by
            rintro rfl
            exact differs (sound.unique (.frame another) trivial ⟨entry, found, resident⟩
              ⟨present, listed, source'⟩)
          change _ = some (Function.update layout.frame frame _ another)
          rw [Function.update_of_ne apart]
          rfl
  · intro other absent
    unfold UserMemory.store
    rw [Function.update_apply]
    split
    · rename_i same
      subst same
      rw [agrees.forgets other absent]
      rfl
    · exact agrees.forgets other absent

theorem Mirrors.shrink {ended : MappingId → Prop} (mirrors : layout.Mirrors memory)
    (step : Shrink ended layout moved) : moved.Mirrors memory := by
  cases step with
  | shift step => exact mirrors.shift step
  | leave => exact mirrors.scratch rfl rfl fun _ _ _ => rfl
  | remove page entry found =>
      intro other present listed out
      rw [place_entry] at listed
      split at listed
      · cases listed
      · exact mirrors other present listed out
  | unmap id ending unused =>
      intro other present listed out
      refine mirrors other present listed fun named mapping belongs live => ?_
      refine out named mapping belongs ?_
      change Function.update layout.mapping id none named = some mapping
      rw [Function.update_of_ne]
      · exact live
      · rintro rfl
        exact unused other present listed belongs

theorem Mirrors.shrinks {ended : MappingId → Prop} (mirrors : layout.Mirrors memory)
    (path : Relation.ReflTransGen (Shrink ended) layout moved) : moved.Mirrors memory := by
  induction path with
  | refl => exact mirrors
  | tail _ step ih => exact ih.shrink step

theorem Agrees.mirrors_extend (agrees : layout.Agrees memory) {mapping : Mapping}
    (fresh : layout.mapping mapping.id = none)
    (free : ∀ page, mapping.contains page → layout.entry (mapping.owner, page) = none) :
    (layout.extend mapping).Mirrors memory := by
  intro other present listed out
  rw [extend_entry] at listed
  split at listed
  · rename_i inside
    cases listed
    refine agrees.forgets other ?_
    rw [← free other.2 inside.2, ← inside.1]
  · refine agrees.mirrors other present listed fun id known belongs live => ?_
    refine out id known belongs ?_
    rw [extend_mapping, if_neg]
    · exact live
    · rintro rfl
      exact absurd (fresh.symm.trans live) (by simp)

theorem Agrees.effect (agrees : layout.Agrees memory) (sound : layout.Sound tolerated)
    {operation : Vm.Operation} (effect : Vm.Effect operation layout moved) :
    moved.Agrees (memory.observe moved) := by
  cases effect with
  | moves _ path => exact (agrees.mirrors.moves path).agrees
  | brings page frame middle _ path arrival => exact agrees.brings sound path arrival
  | spawns => exact Mirrors.agrees (agrees.mirrors.scratch rfl rfl fun _ _ _ => rfl)
  | refiles => exact Mirrors.agrees (agrees.mirrors.scratch rfl rfl fun _ _ _ => rfl)
  | maps mapping fresh live free => exact (agrees.mirrors_extend fresh free).agrees
  | loses ended _ path => exact (agrees.mirrors.shrinks path).agrees

end Layout

namespace UserMemory

/-- The memory after a copy into user memory, of which these pieces are left to store. -/
def storePieces (process : ProcessId) (base : VirtualAddress) (data : Bytes)
    (stackPointer : VirtualAddress) (memory : UserMemory) (vm : Vm arch) :
    List RangePiece → UserMemory
  | [] => memory
  | piece :: rest =>
    let start := piece.address.value - base.value
    let source := data.extract start (start + piece.length)
    match (vm.storePiece process piece source stackPointer).outcome with
    | .ok (.ok (), after) =>
      storePieces process base data stackPointer ((memory.observe after.layout).store
        (process, piece.address.page) piece.address.offset source) after rest
    | .ok (.error _, after) => memory.observe after.layout
    | .error _ => memory

/-- The memory after a copy from user memory, of which these pieces are left to fetch. -/
def fetchPieces (process : ProcessId) (stackPointer : VirtualAddress) (memory : UserMemory)
    (vm : Vm arch) : List RangePiece → UserMemory
  | [] => memory
  | piece :: rest =>
    match (vm.fetchPiece process piece stackPointer).outcome with
    | .ok (.ok _, after) =>
      fetchPieces process stackPointer (memory.observe after.layout) after rest
    | .ok (.error _, after) => memory.observe after.layout
    | .error _ => memory

/-- The memory after an operation. Copies are followed piece by piece, since a page may come
into its first frame between two pieces. -/
def after (memory : UserMemory) (vm : Vm arch) : Vm.Operation → UserMemory
  | .copyToUser process address data stackPointer =>
    if Vm.inUserSpace arch address data.size then
      memory.storePieces process address data stackPointer vm
        (RangePiece.ofRange address data.size)
    else
      memory
  | .copyFromUser process address buffer stackPointer =>
    if Vm.inUserSpace arch address buffer.size then
      memory.fetchPieces process stackPointer vm (RangePiece.ofRange address buffer.size)
    else
      memory
  | operation =>
    match (vm.step operation).outcome with
    | .ok (_, after) => memory.observe after.layout
    | .error _ => memory

def follower : Follower UserMemory :=
  ⟨fun memory _ moved => memory.observe moved, store⟩

theorem storePieces_eq (process : ProcessId) (base : VirtualAddress) (data : Bytes)
    (stackPointer : VirtualAddress) (pieces : List RangePiece) (memory : UserMemory)
    (vm : Vm arch) : memory.storePieces process base data stackPointer vm pieces =
      follower.storePieces process base data stackPointer memory vm pieces := by
  induction pieces generalizing memory vm with
  | nil => rfl
  | cons piece rest ih =>
      simp only [storePieces, Follower.storePieces, ih]
      rfl

theorem fetchPieces_eq (process : ProcessId) (stackPointer : VirtualAddress)
    (pieces : List RangePiece) (memory : UserMemory) (vm : Vm arch) :
    memory.fetchPieces process stackPointer vm pieces =
      follower.fetchPieces process stackPointer memory vm pieces := by
  induction pieces generalizing memory vm with
  | nil => rfl
  | cons piece rest ih =>
      simp only [fetchPieces, Follower.fetchPieces, ih]
      rfl

theorem after_eq (memory : UserMemory) (vm : Vm arch) (operation : Vm.Operation) :
    memory.after vm operation = follower.after memory vm operation := by
  cases operation with
  | copyToUser process address data stackPointer =>
      simp only [after, Follower.after, storePieces_eq]
  | copyFromUser process address buffer stackPointer =>
      simp only [after, Follower.after, fetchPieces_eq]
  | _ => rfl

theorem after_of_yields {memory : UserMemory} {vm last : Vm arch} {operation : Vm.Operation}
    {answer : Vm.Answer} (quiet : ¬operation.IsCopy)
    (yields : (vm.step operation).Yields (answer, last)) :
    memory.after vm operation = memory.observe last.layout := by
  rw [after_eq, Follower.after_of_yields quiet yields]
  rfl

end UserMemory

namespace Vm

variable {vm : Vm arch} {memory : UserMemory} {process : ProcessId}
  {base stackPointer : VirtualAddress} {tolerated : Violation → Prop}

/-- A state that some run of operations leads to, with the memory that was followed on the
way. -/
inductive Observed : Vm arch → UserMemory → Prop
  | boot {vm : Vm arch} (booted : vm.Booted) : Observed vm fun _ => none
  | step {vm after : Vm arch} {memory : UserMemory} {operation : Operation} {answer : Answer}
      (observed : Observed vm memory) (yields : (vm.step operation).Yields (answer, after)) :
      Observed after (memory.after vm operation)

theorem Observed.reachable (observed : Observed vm memory) : Reachable vm := by
  induction observed with
  | boot booted => exact .boot booted
  | step _ yields ih => exact .step ih yields

/-- The bytes of a range from `base` to `stop` that lie in pages that stay out of files are in
the buffer as the memory has them. -/
def Filled (process : ProcessId) (base : VirtualAddress) (layout : Layout)
    (memory : UserMemory) (buffer : Bytes) (stop : Nat) : Prop :=
  ∀ i, i < stop → ∃ entry,
    layout.entry (process, (⟨base.value + i⟩ : VirtualAddress).page) = some entry ∧
      (layout.StaysOut (process, (⟨base.value + i⟩ : VirtualAddress).page) entry →
        ∃ contents, memory (process, (⟨base.value + i⟩ : VirtualAddress).page) = some contents ∧
          buffer[i]? = contents[(⟨base.value + i⟩ : VirtualAddress).offset]?)

theorem Filled.keep {layout moved : Layout} {buffer : Bytes} {stop : Nat}
    (filled : Filled process base layout memory buffer stop)
    (roles : ∀ page, (layout.entry page).isSome → moved.role page = layout.role page)
    (mappings : moved.mapping = layout.mapping) :
    Filled process base moved (memory.observe moved) buffer stop := by
  intro i small
  obtain ⟨entry, present, known⟩ := filled i small
  obtain ⟨entry', present', _, belongs⟩ :=
    Layout.entry_of_role (roles _ (Option.isSome_iff_exists.mpr ⟨entry, present⟩)) present
  refine ⟨entry', present', fun out => ?_⟩
  have out' : layout.StaysOut (process, (⟨base.value + i⟩ : VirtualAddress).page) entry := by
    unfold Layout.StaysOut at out ⊢
    rwa [mappings, belongs] at out
  obtain ⟨contents, remembered, byte⟩ := known out'
  exact ⟨contents, UserMemory.observe_some present' remembered, byte⟩

theorem Filled.fetched {layout : Layout} {buffer bytes : Bytes} {start : Nat}
    {piece : RangePiece} {frame : FrameNumber}
    (filled : Filled process base layout memory buffer start) (agrees : layout.Agrees memory)
    (place : piece.address.value = base.value + start)
    (fits : piece.address.offset + piece.length ≤ pageSize)
    (within : start + piece.length ≤ buffer.size)
    (grants : layout.Grants (process, piece.address.page) frame false)
    (taken : bytes = (layout.frame frame).slice piece.address.offset piece.length) :
    Filled process base layout memory (buffer.overwrite start bytes) (start + piece.length) := by
  obtain ⟨entry, present, resident, _⟩ := grants
  have size : bytes.size = piece.length := by
    rw [taken]
    exact Page.size_slice _ fits
  intro i small
  by_cases before : i < start
  · obtain ⟨entry, present, known⟩ := filled i before
    refine ⟨entry, present, fun out => ?_⟩
    obtain ⟨contents, remembered, byte⟩ := known out
    refine ⟨contents, remembered, ?_⟩
    rw [Bytes.getElem?_overwrite, if_neg (by omega)]
    exact byte
  · obtain ⟨page, offset⟩ := RangePiece.place_of_mem place fits (Nat.not_lt.mp before) small
    rw [page, offset]
    refine ⟨entry, present, fun out => ⟨layout.frame frame, ?_, ?_⟩⟩
    · rw [agrees.mirrors _ entry present out, resident]
      rfl
    · rw [Bytes.getElem?_overwrite, if_pos (by omega), taken, Page.getElem?_slice]
      omega

theorem Filled.stored {layout : Layout} {data : Bytes} {start : Nat} {piece : RangePiece}
    {frame : FrameNumber} (filled : Filled process base layout memory data start)
    (agrees : layout.Agrees memory) (place : piece.address.value = base.value + start)
    (fits : piece.address.offset + piece.length ≤ pageSize)
    (within : start + piece.length ≤ data.size)
    (grants : layout.Grants (process, piece.address.page) frame true) :
    Filled process base layout (memory.store (process, piece.address.page) piece.address.offset
      (data.extract start (start + piece.length))) data (start + piece.length) := by
  obtain ⟨entry, present, resident, _⟩ := grants
  have bound : ∀ j, (⟨base.value + j⟩ : VirtualAddress).offset < pageSize :=
    fun j => Nat.mod_lt _ (by decide)
  intro i small
  unfold UserMemory.store
  by_cases before : i < start
  · obtain ⟨entry, present, known⟩ := filled i before
    refine ⟨entry, present, fun out => ?_⟩
    obtain ⟨contents, remembered, byte⟩ := known out
    rw [Function.update_apply]
    split
    · rename_i same
      have page := (Prod.mk.inj same).2
      rw [page] at remembered
      rw [remembered]
      refine ⟨_, rfl, ?_⟩
      have := RangePiece.offset_lt place before page
      rw [Page.getElem?_overwrite _ _ _ (bound i), if_neg (by omega)]
      exact byte
    · exact ⟨contents, remembered, byte⟩
  · obtain ⟨page, offset⟩ := RangePiece.place_of_mem place fits (Nat.not_lt.mp before) small
    have inside := bound i
    rw [offset] at inside
    rw [page, offset]
    refine ⟨entry, present, fun out => ⟨(layout.frame frame).overwrite piece.address.offset
      (data.extract start (start + piece.length)), ?_, ?_⟩⟩
    · rw [Function.update_self, agrees.mirrors _ entry present out, resident]
      rfl
    · rw [Page.getElem?_overwrite _ _ _ inside, Nat.add_sub_cancel_left, Array.size_extract,
        if_pos (by omega), Array.getElem?_extract, if_pos (by omega)]
      congr 1
      omega

/-- Pages that were remembered still are, and their bytes outside of a range from `base` to
`stop` are the same. -/
def Retained (process : ProcessId) (base : VirtualAddress) (before : UserMemory)
    (layout : Layout) (memory : UserMemory) (stop : Nat) : Prop :=
  ∀ page contents, before page = some contents → (layout.entry page).isSome ∧
    ∃ present, memory page = some present ∧ ∀ offset, offset < pageSize →
      (∀ i, i < stop → page = (process, (⟨base.value + i⟩ : VirtualAddress).page) →
        offset ≠ (⟨base.value + i⟩ : VirtualAddress).offset) →
      present[offset]? = contents[offset]?

theorem Retained.keep {layout moved : Layout} {before : UserMemory} {stop : Nat}
    (retained : Retained process base before layout memory stop)
    (roles : ∀ page, (layout.entry page).isSome → moved.role page = layout.role page) :
    Retained process base before moved (memory.observe moved) stop := by
  intro page contents known
  obtain ⟨present, now, remembered, same⟩ := retained page contents known
  have present' : (moved.entry page).isSome := by
    rwa [← Layout.role_isSome, roles page present, Layout.role_isSome]
  obtain ⟨entry, found⟩ := Option.isSome_iff_exists.mp present'
  exact ⟨present', now, UserMemory.observe_some found remembered, same⟩

theorem Retained.remembers {layout : Layout} {before : UserMemory} {page : UserPage}
    {contents : Page} (retained : Retained process base before layout memory 0)
    (known : before page = some contents) : memory page = some contents := by
  obtain ⟨_, present, remembered, same⟩ := retained page contents known
  rw [remembered, Option.some_inj]
  refine Vector.ext fun i small => ?_
  rw [← Option.some_inj, ← Vector.getElem?_eq_getElem, ← Vector.getElem?_eq_getElem]
  exact same i small fun j before => absurd before (Nat.not_lt_zero j)

theorem Retained.stored {layout : Layout} {before : UserMemory} {source : Bytes} {start : Nat}
    {piece : RangePiece} (retained : Retained process base before layout memory start)
    (place : piece.address.value = base.value + start)
    (fits : piece.address.offset + piece.length ≤ pageSize) (size : source.size = piece.length) :
    Retained process base before layout
      (memory.store (process, piece.address.page) piece.address.offset source)
      (start + piece.length) := by
  intro page contents known
  obtain ⟨present, now, remembered, same⟩ := retained page contents known
  refine ⟨present, ?_⟩
  unfold UserMemory.store
  rw [Function.update_apply]
  split
  · rename_i here
    subst here
    rw [remembered]
    refine ⟨_, rfl, fun offset inside apart => ?_⟩
    rw [Page.getElem?_overwrite _ _ _ inside, if_neg]
    · exact same offset inside fun i small => apart i (by omega)
    · rintro ⟨above, below⟩
      obtain ⟨page, known⟩ := RangePiece.place_of_mem (i := start + (offset - piece.address.offset))
        place fits (by omega) (by omega)
      refine apart (start + (offset - piece.address.offset)) (by omega) ?_ ?_
      · rw [page]
      · rw [known]
        omega
  · exact ⟨now, remembered, fun offset inside apart =>
      same offset inside fun i small => apart i (by omega)⟩

/-- What is known of the memory while bytes are copied to or from it, of which those up to `stop`
have been copied, and those up to `changed` to it. -/
structure Copying (process : ProcessId) (base : VirtualAddress) (bytes : Bytes)
    (before : UserMemory) (layout : Layout) (memory : UserMemory) (stop changed : Nat) :
    Prop where
  agrees : layout.Agrees memory
  filled : Filled process base layout memory bytes stop
  retained : Retained process base before layout memory changed

namespace Copying

variable {layout moved : Layout} {before : UserMemory} {bytes : Bytes} {stop changed : Nat}
  {piece : RangePiece}

theorem start (agrees : layout.Agrees memory) (process : ProcessId) (base : VirtualAddress)
    (bytes : Bytes) : Copying process base bytes memory layout memory 0 0 := by
  refine ⟨agrees, fun i small => absurd small (Nat.not_lt_zero i), fun page contents known => ?_⟩
  refine ⟨?_, contents, known, fun _ _ _ => rfl⟩
  cases present : layout.entry page with
  | some entry => rfl
  | none =>
      rw [agrees.forgets page present] at known
      cases known

theorem moves (copying : Copying process base bytes before layout memory stop changed)
    (path : Relation.ReflTransGen Shift layout moved) :
    Copying process base bytes before moved (memory.observe moved) stop changed :=
  ⟨(copying.agrees.mirrors.moves path).agrees,
    copying.filled.keep (fun page _ => Layout.role_of_moves path page)
      (Layout.mapping_of_moves path),
    copying.retained.keep fun page _ => Layout.role_of_moves path page⟩

theorem reach {page : UserPage}
    (copying : Copying process base bytes before layout memory stop changed)
    (sound : layout.Sound tolerated) (reach : Reach page layout moved) :
    Copying process base bytes before moved (memory.observe moved) stop changed :=
  ⟨copying.agrees.reach sound reach, copying.filled.keep (fun _ => reach.role) reach.mapping,
    copying.retained.keep fun _ => reach.role⟩

theorem stored (copying : Copying process base bytes before layout memory stop stop)
    (sound : layout.Sound tolerated) (place : piece.address.value = base.value + stop)
    (fits : piece.address.offset + piece.length ≤ pageSize)
    (within : stop + piece.length ≤ bytes.size)
    (stored : Stored process piece (bytes.extract stop (stop + piece.length)) layout moved) :
    Copying process base bytes before moved ((memory.observe moved).store
      (process, piece.address.page) piece.address.offset
      (bytes.extract stop (stop + piece.length))) (stop + piece.length)
      (stop + piece.length) := by
  obtain ⟨middle, frame, reach, grants, layout⟩ := stored
  obtain ⟨agrees, filled, retained⟩ := copying.reach sound reach
  rw [layout]
  refine ⟨agrees.write (sound.reach reach) grants _ _, filled.stored agrees place fits within grants,
    retained.stored place fits ?_⟩
  rw [Array.size_extract]
  omega

theorem fetched {taken : Bytes}
    (copying : Copying process base bytes before layout memory stop changed)
    (sound : layout.Sound tolerated) (place : piece.address.value = base.value + stop)
    (fits : piece.address.offset + piece.length ≤ pageSize)
    (within : stop + piece.length ≤ bytes.size)
    (fetched : Fetched process piece taken layout moved) :
    Copying process base (bytes.overwrite stop taken) before moved (memory.observe moved)
      (stop + piece.length) changed := by
  obtain ⟨frame, reach, grants, slice⟩ := fetched
  obtain ⟨agrees, filled, retained⟩ := copying.reach sound reach
  exact ⟨agrees, filled.fetched agrees place fits within grants slice, retained⟩

end Copying

/-- A copy into user memory does to the machine what it does to the memory: the data is there as
far as it has been copied, and nothing else is forgotten or changed. -/
theorem copyToUser_copying (agrees : vm.layout.Agrees memory)
    (consistent : vm.Consistent tolerated) (process : ProcessId) (address : VirtualAddress)
    (data : Bytes) (stackPointer : VirtualAddress) :
    (vm.copyToUser process address data stackPointer).Satisfies tolerated fun (outcome, last) =>
      Copying process address data memory last.layout
        (memory.after vm (.copyToUser process address data stackPointer)) outcome.copied
        outcome.copied := by
  rw [UserMemory.after_eq]
  refine Follower.copyToUser_follows
    (fun stop layout now => Copying process address data memory layout now stop stop)
    (fun stop layout now => Copying process address data memory layout now stop stop)
    ?_ ?_ ?_ consistent (.start agrees process address data)
  · intro stop piece layout moved now sound copying place fits within stored
    exact copying.stored sound place fits within stored
  · intro stop layout moved now copying path
    exact copying.moves path
  · intro stop layout now copying
    exact copying

theorem copyFromUser_copying (agrees : vm.layout.Agrees memory)
    (consistent : vm.Consistent tolerated) (process : ProcessId) (address : VirtualAddress)
    (buffer : Bytes) (stackPointer : VirtualAddress) :
    (vm.copyFromUser process address buffer stackPointer).Satisfies tolerated
      fun (outcome, filled, last) => Copying process address filled memory last.layout
        (memory.after vm (.copyFromUser process address buffer stackPointer))
        outcome.copied 0 := by
  rw [UserMemory.after_eq]
  refine Follower.copyFromUser_follows
    (fun stop filled layout now => Copying process address filled memory layout now stop 0)
    (fun stop filled layout now => Copying process address filled memory layout now stop 0)
    ?_ ?_ ?_ consistent (.start agrees process address buffer)
  · intro stop piece filled taken layout moved now sound full copying place fits within fetched
    exact copying.fetched sound place fits (full ▸ within) fetched
  · intro stop filled layout moved now copying path
    exact copying.moves path
  · intro stop filled layout now copying
    exact copying

/-- In every state a page that stays out of files holds what the memory says. -/
theorem Observed.agrees (observed : Observed vm memory) : vm.layout.Agrees memory := by
  induction observed with
  | boot booted =>
      refine ⟨fun page entry present => ?_, fun _ _ => rfl⟩
      exact absurd ((booted.empty.1 page).symm.trans present) (by simp)
  | @step vm after memory operation answer observed yields ih =>
      have consistent := observed.reachable.consistent
      cases course_of_yields consistent yields with
      | stored process address data stackPointer outcome copied =>
          exact ((copyToUser_copying ih consistent process address data stackPointer).of_yields
            copied).agrees
      | fetched process address buffer stackPointer outcome filled copied =>
          exact ((copyFromUser_copying ih consistent process address buffer
            stackPointer).of_yields copied).agrees
      | other _ _ quiet effect =>
          have sound : vm.layout.Sound fun _ => True := consistent.tenants.sound _
          -- no other operation writes to user memory
          rw [UserMemory.after_of_yields quiet yields]
          exact ih.effect sound effect

/-- A page that never lives in a file: it belongs to no mapping, or its mapping keeps it in
swap. -/
def SwapKept (vm : Vm arch) (process : ProcessId) (page : PageNumber) : Prop :=
  ∃ space entry, vm.spaces[process]? = some space ∧ space.entries[page]? = some entry ∧
    ∀ id mapping, entry.mapping = some id → vm.mappings.get? id = some mapping →
      mapping.evictsToFile page = .ok false

theorem swapKept_iff {page : PageNumber} : vm.SwapKept process page ↔
    ∃ entry, vm.layout.entry (process, page) = some entry ∧
      vm.layout.StaysOut (process, page) entry := by
  constructor
  · rintro ⟨space, entry, found, listed, kept⟩
    exact ⟨entry, (Tenants.entryAt_of_space found page).trans listed, kept⟩
  · rintro ⟨entry, present, kept⟩
    obtain ⟨space, found, listed⟩ := Tenants.space_of_entryAt present
    exact ⟨space, entry, found, listed, kept⟩

theorem swapKept_of_anonymous {page : PageNumber} {entry : PageEntry}
    (present : vm.layout.entry (process, page) = some entry)
    (anonymous : entry.mapping.isNone = true) : vm.SwapKept process page := by
  refine swapKept_iff.mpr ⟨entry, present, fun id mapping belongs => ?_⟩
  rw [belongs] at anonymous
  cases anonymous

theorem Observed.run {last : Vm arch} (observed : Observed vm memory)
    {operations : List Operation} (ran : vm.run? operations = some last) :
    ∃ memory', Observed last memory' := by
  refine run?_induction (motive := fun vm => ∃ memory, Observed vm memory) ?_ ⟨memory, observed⟩ ran
  rintro vm after operation answer ⟨memory, observed⟩ yields
  exact ⟨_, .step observed yields⟩

theorem Filled.byte {after : Vm arch} {buffer : Bytes} {stop i : Nat}
    (filled : Filled process base after.layout memory buffer stop) (small : i < stop)
    (kept : after.SwapKept process (⟨base.value + i⟩ : VirtualAddress).page) :
    ∃ contents, memory (process, (⟨base.value + i⟩ : VirtualAddress).page) = some contents ∧
      buffer[i]? = contents[(⟨base.value + i⟩ : VirtualAddress).offset]? := by
  obtain ⟨entry, present, known⟩ := filled i small
  obtain ⟨entry', present', out⟩ := swapKept_iff.mp kept
  cases present.symm.trans present'
  exact known out

/-- Paging is transparent for pages that never live in a file. Once such a page has been in a
frame it is not read from a file again. Bytes that are copied to it are remembered until others
are copied to their place, and every byte that is copied from it to a buffer is the one that is
remembered there, however often the page was moved in between. -/
theorem Observed.transparent (observed : Observed vm memory) :
    (∀ process page id, vm.SwapKept process page → memory (process, page) ≠ none →
      ¬vm.layout.Backs (process, page) (.file id)) ∧
    (∀ process address data stackPointer outcome after,
      (vm.copyToUser process address data stackPointer).Yields (outcome, after) →
        (∀ i, i < outcome.copied →
          after.SwapKept process (⟨address.value + i⟩ : VirtualAddress).page →
            ∃ contents, memory.after vm (.copyToUser process address data stackPointer)
                (process, (⟨address.value + i⟩ : VirtualAddress).page) = some contents ∧
              data[i]? = contents[(⟨address.value + i⟩ : VirtualAddress).offset]?) ∧
        ∀ page contents, memory page = some contents →
          ∃ present, memory.after vm (.copyToUser process address data stackPointer) page =
              some present ∧ ∀ offset, offset < pageSize →
            (∀ i, i < outcome.copied →
              page = (process, (⟨address.value + i⟩ : VirtualAddress).page) →
                offset ≠ (⟨address.value + i⟩ : VirtualAddress).offset) →
            present[offset]? = contents[offset]?) ∧
    ∀ process address buffer stackPointer outcome filled after,
      (vm.copyFromUser process address buffer stackPointer).Yields (outcome, filled, after) →
        (∀ i, i < outcome.copied →
          after.SwapKept process (⟨address.value + i⟩ : VirtualAddress).page →
            ∃ contents, memory.after vm (.copyFromUser process address buffer stackPointer)
                (process, (⟨address.value + i⟩ : VirtualAddress).page) = some contents ∧
              filled[i]? = contents[(⟨address.value + i⟩ : VirtualAddress).offset]?) ∧
        ∀ page contents, memory page = some contents →
          memory.after vm (.copyFromUser process address buffer stackPointer) page =
            some contents := by
  have agrees := observed.agrees
  have consistent := observed.reachable.consistent
  refine ⟨?_, ?_, ?_⟩
  · rintro process page id kept known ⟨entry, present, source⟩
    obtain ⟨entry', present', out⟩ := swapKept_iff.mp kept
    cases present.symm.trans present'
    rw [agrees.mirrors _ entry present out, source] at known
    exact known rfl
  · intro process address data stackPointer outcome after yields
    have copying := (copyToUser_copying agrees consistent process address data
      stackPointer).of_yields yields
    refine ⟨fun i small kept => copying.filled.byte small kept, fun page contents known => ?_⟩
    exact (copying.retained page contents known).2
  · intro process address buffer stackPointer outcome filled after yields
    have copying := (copyFromUser_copying agrees consistent process address buffer
      stackPointer).of_yields yields
    refine ⟨fun i small kept => copying.filled.byte small kept, fun page contents known => ?_⟩
    exact copying.retained.remembers known

/-- A byte is copied to a page, the page is moved to swap, and the byte is copied back. -/
theorem transparent_of_eviction : ∃ (vm after : Vm .scaleModel) (memory : UserMemory)
    (outcome : CopyOutcome) (filled : Bytes), vm.Observed memory ∧
      vm.layout.Backs (⟨1⟩, ⟨1⟩) (.swap ⟨0⟩) ∧
      (vm.copyFromUser ⟨1⟩ ⟨0x1001⟩ #[0] ⟨0⟩).Yields (outcome, filled, after) ∧
      0 < outcome.copied ∧ filled[0]? = some 7 := by
  have passes : (oneFrame.run? [.createProcess ⟨1⟩, .installPage ⟨1⟩ ⟨0x1000⟩ true]).any
      (fun vm => (vm.copyToUser ⟨1⟩ ⟨0x1001⟩ #[7] ⟨0⟩).passes fun (outcome, vm) =>
        outcome.copied == 1 &&
        (vm.layout.entry (⟨1⟩, ⟨1⟩)).any (fun entry => entry.mapping.isNone) &&
        (vm.step (.installPage ⟨1⟩ ⟨0x2000⟩ true)).passes fun (_, vm) =>
          (vm.layout.entry (⟨1⟩, ⟨1⟩)).any (fun entry => entry.backing == .swap ⟨0⟩) &&
          (vm.copyFromUser ⟨1⟩ ⟨0x1001⟩ #[0] ⟨0⟩).passes fun (outcome, _, vm) =>
            outcome.result.isOk &&
            (vm.layout.entry (⟨1⟩, ⟨1⟩)).any (fun entry => entry.mapping.isNone)) = true := by
    decide +kernel
  simp only [Option.any_eq_true _ _, Run.passes_iff, Bool.and_eq_true, Prod.exists,
    beq_iff_eq] at passes
  obtain ⟨vm, ran, stored, written, copied, ⟨all, _, present, anonymous⟩, _, evicted, installed,
    ⟨moved, listed, source⟩, fetched, filled, last, read, done, _, present', anonymous'⟩ := passes
  obtain ⟨memory, observed⟩ := (Observed.boot oneFrame_booted).run ran
  obtain ⟨contents, known, byte⟩ := (observed.transparent.2.1 _ _ _ _ _ _ copied).1 0
    (by omega) (swapKept_of_anonymous present anonymous)
  have observed' : Observed written (memory.after vm (.copyToUser ⟨1⟩ ⟨0x1001⟩ #[7] ⟨0⟩)) :=
    observed.step (Run.yields_bind.mpr ⟨_, copied, rfl⟩)
  have observed'' := observed'.step installed
  rw [UserMemory.after_of_yields id installed] at observed''
  have remembered := UserMemory.observe_some listed known
  obtain ⟨fills, keeps⟩ := observed''.transparent.2.2 _ _ _ _ _ _ _ read
  have full : fetched.copied = 1 := copyFromUser_copied read done
  obtain ⟨again, known', byte'⟩ := fills 0 (by omega) (swapKept_of_anonymous present' anonymous')
  cases known'.symm.trans (keeps _ _ remembered)
  exact ⟨evicted, last, _, fetched, filled, observed'', ⟨moved, listed, source⟩, read, by omega,
    byte'.trans byte.symm⟩

end Vm
end DemandPaging
