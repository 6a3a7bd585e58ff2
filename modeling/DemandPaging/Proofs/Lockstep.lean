import DemandPaging.Proofs.Loops
import DemandPaging.Proofs.Provenance
import DemandPaging.Proofs.Twins

/-!
Two machines that only the bytes of some processes tell apart. Whatever decides about frames,
slots and entries is the same in both, and it stays the same while pages are moved and faults
are resolved: the bytes of a page are looked at only on their way to a file, and the files of
those processes are hidden.
-/

namespace DemandPaging

variable {arch : Architecture} {σ : Type} {secret : ProcessId → Prop} {hidden : FileId → Prop}

/-- The owners of twin tables answer alike. What is known of their states is weaker once a page
has left its frame. -/
structure FrameOwners.Parallel (owners : FrameOwners σ)
    (ownerOf : FrameNumber → Option (ProcessId × PageNumber)) (page again : FrameNumber → Page)
    (kept vacated : σ → σ → Prop) : Prop where
  test : ∀ owner page state last, kept state last →
    SameAnswer kept (owners.testAndClearAccessed state owner page)
      (owners.testAndClearAccessed last owner page)
  evict : ∀ frame owner state last, ownerOf frame = some owner → kept state last →
    (owners.evict state owner.1 owner.2 (page frame)).Alike
      (fun answer other => SameAnswer vacated answer other ∧
        ∀ cause, answer.1 = .error cause → kept answer.2 other.2)
      (owners.evict last owner.1 owner.2 (again frame))
  weaker : ∀ state last, kept state last → vacated state last

namespace FrameTable

variable {table other : FrameTable arch} {owners : FrameOwners σ} {kept vacated : σ → σ → Prop}
  {state last : σ}

theorem ownerOf_of_record (sized : table.records.size = table.pool.total) {index : FrameIndex}
    {record : FrameRecord} (found : table.record index = .ok record) :
    table.ownerOf (table.pool.frameAt index) = some (record.owner, record.page) := by
  have held : table.records[index.value]? = some (some record) := by
    unfold FrameTable.record entry at found
    cases held : table.records[index.value]? with
    | none =>
        rw [held] at found
        cases found
    | some entry =>
        rw [held] at found
        cases entry with
        | none => cases found
        | some record =>
            cases found
            rfl
  refine ownerOf_of_find? (find?_eq_some.mpr
    ⟨index, FramePool.indexOf?_eq_some.mpr ⟨?_, rfl⟩, held⟩)
  rw [FramePool.contains_frameAt, ← sized]
  exact (Array.getElem?_eq_some_iff.mp held).1

theorem Twins.test (twins : table.Twins other)
    (parallel : owners.Parallel table.ownerOf table.pool.page other.pool.page kept vacated)
    (index : FrameIndex) (start : kept state last) :
    (table.test owners index state).Alike (Sum.LiftRel (SameAnswer kept) (SameAnswer kept))
      (other.test owners index last) := by
  unfold FrameTable.test
  rw [twins.record]
  refine .bind (.lift (.refl (table.record index))) ?_
  rintro record _ rfl
  have tested := parallel.test record.owner record.page state last start
  generalize owners.testAndClearAccessed state record.owner record.page = answer at tested ⊢
  generalize owners.testAndClearAccessed last record.owner record.page = again at tested ⊢
  obtain ⟨accessed, state⟩ := answer
  obtain ⟨_, last⟩ := again
  obtain ⟨rfl, kept⟩ := tested
  dsimp only
  split
  · exact .bind .log fun _ _ _ => .pure (.inl ⟨rfl, kept⟩)
  · exact .pure (.inr ⟨rfl, kept⟩)

/-- The search goes the same way through twin tables. -/
theorem Twins.scan (twins : table.Twins other)
    (parallel : owners.Parallel table.ownerOf table.pool.page other.pool.page kept vacated)
    (index : FrameIndex) (start : kept state last) :
    (table.scan owners index state).Alike (SameAnswer kept) (other.scan owners index last) := by
  unfold FrameTable.scan
  rw [twins.queued]
  refine .iterate (SameAnswer kept) ?_ _ _ ⟨rfl, start⟩
  rintro ⟨index, state⟩ ⟨_, last⟩ ⟨rfl, start⟩
  exact twins.test parallel index start

theorem Twins.evictWithin (twins : table.Twins other)
    (parallel : owners.Parallel table.ownerOf table.pool.page other.pool.page kept vacated)
    (sized : table.records.size = table.pool.total) (attempts : Nat) (start : kept state last) :
    (table.evictWithin owners attempts state).Alike
      (SameAnswer fun left right => left.1.Twins right.1 ∧ vacated left.2 right.2)
      (other.evictWithin owners attempts last) := by
  induction attempts using Nat.strong_induction_on generalizing table other state last with
  | _ attempts ih =>
      have hand : other.handIndex = table.handIndex := by
        obtain ⟨contents, rfl⟩ := twins
        rfl
      unfold FrameTable.evictWithin
      rw [hand]
      cases table.handIndex with
      | none => exact .pure ⟨rfl, twins, parallel.weaker state last start⟩
      | some hand =>
          refine .bind (twins.scan parallel hand start) ?_
          rintro ⟨victim, state⟩ ⟨_, last⟩ ⟨rfl, start⟩
          dsimp only
          rw [twins.record, twins.frameAt]
          refine .bind (.lift ((Checked.Alike.refl (table.record victim)).and
            (.of_errors fun _ _ => trivial) .any)) ?_
          rintro record _ ⟨rfl, found, _⟩
          refine .bind (.lift (twins.bytes _)) ?_
          rintro _ _ ⟨rfl, rfl⟩
          refine .bind (parallel.evict _ (record.owner, record.page) state last
            (ownerOf_of_record sized found) start) ?_
          rintro ⟨result, state⟩ ⟨_, last⟩ ⟨⟨rfl, vacated⟩, kept⟩
          -- the hand is at the same place in both tables
          have turned : ∀ handIndex : Option FrameIndex,
              ({ table with handIndex } : FrameTable arch).Twins { other with handIndex } := by
            obtain ⟨contents, rfl⟩ := twins
            exact fun handIndex => ⟨contents, rfl⟩
          cases result with
          | ok _ =>
              refine .bind (.lift ((turned (some victim)).drop victim)) ?_
              rintro dropped _ ⟨contents, rfl⟩
              exact .bind .log fun _ _ _ => .pure ⟨rfl, ⟨contents, rfl⟩, vacated⟩
          | error cause =>
              refine .bind .log fun _ _ _ => ?_
              obtain _ | _ | fewer := attempts
              · exact .violate _
              · exact .pure ⟨rfl, turned (some record.next), vacated⟩
              · exact ih (fewer + 1) (Nat.lt_succ_self _) (turned (some record.next)) parallel sized
                  (kept cause rfl)

theorem Twins.acquire (twins : table.Twins other)
    (parallel : owners.Parallel table.ownerOf table.pool.page other.pool.page kept vacated)
    (sized : table.records.size = table.pool.total) (request : FrameRequest) (owner : ProcessId)
    (page : PageNumber) (start : kept state last) :
    (table.acquire owners state request owner page).Alike
      (SameAnswer fun left right => left.1.Twins right.1 ∧ vacated left.2 right.2)
      (other.acquire owners last request owner page) := by
  have free : other.pool.free = table.pool.free := by
    obtain ⟨contents, rfl⟩ := twins
    rfl
  unfold FrameTable.acquire FramePool.allocate FrameTable.evict
  rw [free]
  cases table.pool.free with
  | cons frame rest =>
      have taken : ({ table with pool := { table.pool with free := rest } } :
          FrameTable arch).Twins { other with pool := { other.pool with free := rest } } := by
        obtain ⟨contents, rfl⟩ := twins
        exact ⟨contents, rfl⟩
      refine .bind (.lift (taken.track frame request owner page)) fun _ _ twins => ?_
      exact .pure ⟨rfl, twins, parallel.weaker state last start⟩
  | nil =>
      dsimp only
      rw [twins.queued]
      refine .bind (twins.evictWithin parallel sized _ start) ?_
      rintro ⟨result, table, state⟩ ⟨_, other, last⟩ ⟨rfl, twins, vacated⟩
      cases result with
      | ok frame =>
          refine .bind (.lift (twins.track frame request owner page)) fun _ _ twins => ?_
          exact .pure ⟨rfl, twins, vacated⟩
      | error cause =>
          dsimp only
          split
          · exact .violate _
          · exact .pure ⟨rfl, twins, vacated⟩

end FrameTable

namespace MappingTable

/-- The files behind the mappings of the processes in a set are the hidden ones among those that
are mapped. -/
def Separates (secret : ProcessId → Prop) (hidden : FileId → Prop) (table : MappingTable) : Prop :=
  ∀ id mapping, table.get? id = some mapping → (hidden mapping.segment.file ↔ secret mapping.owner)

theorem Separates.fewer {table other : MappingTable} (separate : table.Separates secret hidden)
    (fewer : ∀ id mapping, other.get? id = some mapping → table.get? id = some mapping) :
    other.Separates secret hidden :=
  fun id mapping found => separate id mapping (fewer id mapping found)

theorem Separates.congr {table other : MappingTable} (separate : table.Separates secret hidden)
    (same : other.get? = table.get?) : other.Separates secret hidden :=
  separate.fewer fun id _ found => (congrFun same id).symm.trans found

end MappingTable

namespace Tenants

variable {tenants other : Tenants arch} {ownerOf : FrameNumber → Option UserPage}

/-- The tenants agree in all but bytes in swap slots and in hidden files. -/
structure Twins (hidden : FileId → Prop) (tenants other : Tenants arch) : Prop where
  spaces : other.spaces = tenants.spaces
  mappings : other.mappings = tenants.mappings
  swap : tenants.swap.Twins other.swap
  files : tenants.files.Twins hidden other.files

namespace Twins

theorem setSpace (twins : tenants.Twins hidden other) (process : ProcessId)
    (space : AddressSpace arch) :
    (tenants.setSpace process space).Twins hidden (other.setSpace process space) := by
  refine ⟨?_, twins.mappings, twins.swap, twins.files⟩
  unfold Tenants.setSpace
  rw [twins.spaces]

theorem testAndClearAccessed (twins : tenants.Twins hidden other) (owner : ProcessId)
    (page : PageNumber) :
    SameAnswer (Twins hidden) (tenants.testAndClearAccessed owner page)
      (other.testAndClearAccessed owner page) := by
  unfold Tenants.testAndClearAccessed
  rw [twins.spaces]
  cases tenants.spaces[owner]? with
  | none => exact ⟨rfl, twins⟩
  | some space => exact ⟨rfl, twins.setSpace owner _⟩

theorem evictToSwap (twins : tenants.Twins hidden other) (owner : ProcessId)
    (space : AddressSpace arch) (page : PageNumber) (contents last : Page) :
    (tenants.evictToSwap owner space page contents).Alike (SameAnswer (Twins hidden))
      (other.evictToSwap owner space page last) := by
  unfold Tenants.evictToSwap
  refine .bind (twins.swap.store contents last) ?_
  rintro ⟨result, swap⟩ ⟨_, swap'⟩ ⟨rfl, swaps⟩
  have stored : ({ tenants with swap } : Tenants arch).Twins hidden { other with swap := swap' } :=
    ⟨twins.spaces, twins.mappings, swaps, twins.files⟩
  cases result with
  | error cause => exact .pure ⟨rfl, stored⟩
  | ok slot =>
      refine .bind (.lift (.refl (space.evictToSwap page slot))) ?_
      rintro ⟨frame, placed⟩ _ rfl
      exact .pure ⟨rfl, stored.setSpace owner placed⟩

theorem evictToFile (twins : tenants.Twins hidden other) (owner : ProcessId)
    (space : AddressSpace arch) {mapping : Mapping} (page : PageNumber) {contents last : Page}
    (same : ¬hidden mapping.segment.file → last = contents) :
    (tenants.evictToFile owner space mapping page contents).Alike (SameAnswer (Twins hidden))
      (other.evictToFile owner space mapping page last) := by
  have leave : ∀ left right : Tenants arch, left.Twins hidden right →
      Run.Alike (SameAnswer (Twins hidden))
        (liftM (space.evictToFile page) >>= fun moved =>
          pure ((.ok () : Except VmError Unit), left.setSpace owner moved.2))
        (liftM (space.evictToFile page) >>= fun moved =>
          pure (.ok (), right.setSpace owner moved.2)) := by
    intro left right twins
    refine .bind (.lift (.refl (space.evictToFile page))) ?_
    rintro ⟨frame, placed⟩ _ rfl
    exact .pure ⟨rfl, twins.setSpace owner placed⟩
  unfold Tenants.evictToFile
  split
  · refine .bind (.lift (twins.files.writePage mapping page same)) ?_
    rintro ⟨result, files⟩ ⟨_, files'⟩ ⟨rfl, written⟩
    have stored : ({ tenants with files } : Tenants arch).Twins hidden
        { other with files := files' } := ⟨twins.spaces, twins.mappings, twins.swap, written⟩
    cases result with
    | error cause => exact .pure ⟨rfl, stored⟩
    | ok _ => exact leave _ _ stored
  · exact leave tenants other twins

theorem evict (twins : tenants.Twins hidden other) (owner : UserPage) {contents last : Page}
    (same : ∀ space mapping, tenants.spaces[owner.1]? = some space →
      tenants.mappingOf? space owner.2 = some mapping → ¬hidden mapping.segment.file →
        last = contents) :
    (tenants.evict owner.1 owner.2 contents).Alike (SameAnswer (Twins hidden))
      (other.evict owner.1 owner.2 last) := by
  unfold Tenants.evict
  rw [twins.spaces]
  cases found : tenants.spaces[owner.1]? with
  | none => exact .violate _
  | some space =>
      have mapped : other.mappingOf? space owner.2 = tenants.mappingOf? space owner.2 := by
        unfold mappingOf?
        rw [twins.mappings]
      dsimp only
      rw [mapped]
      cases belongs : tenants.mappingOf? space owner.2 with
      | none => exact twins.evictToSwap owner.1 space owner.2 contents last
      | some mapping =>
          refine .bind (.lift (.refl (mapping.evictsToFile owner.2))) ?_
          rintro filed _ rfl
          split
          · exact twins.evictToFile owner.1 space owner.2 (same space mapping found belongs)
          · exact twins.evictToSwap owner.1 space owner.2 contents last

end Twins

theorem Consistent.hidden_iff (consistent : tenants.Consistent (fun _ => True) ownerOf)
    (separate : tenants.mappings.Separates secret hidden) {page : UserPage} {entry : PageEntry}
    {id : MappingId} {mapping : Mapping} (present : tenants.entryAt page = some entry)
    (belongs : entry.mapping = some id) (live : tenants.mappings.get? id = some mapping) :
    hidden mapping.segment.file ↔ secret page.1 := by
  obtain ⟨_, live', mine, _⟩ :=
    ((consistent.sound fun _ => Page.zero).admits page entry present).mapped id belongs
  cases live.symm.trans live'
  rw [separate id mapping live, mine]

theorem owners_parallel (page again : FrameNumber → Page)
    (same : ∀ frame owner, ownerOf frame = some owner → ¬secret owner.1 →
      again frame = page frame) :
    (owners : FrameOwners (Tenants arch)).Parallel ownerOf page again
      (fun tenants other => tenants.Twins hidden other ∧
        tenants.Consistent (fun _ => True) ownerOf ∧ tenants.mappings.Separates secret hidden)
      (Twins hidden) := by
  refine ⟨?_, ?_, fun _ _ => And.left⟩
  · rintro owner page tenants other ⟨twins, consistent, separate⟩
    obtain ⟨answer, cleared⟩ := twins.testAndClearAccessed owner page
    obtain ⟨_, consistent', layout, _⟩ := testAndClearAccessed_spec consistent (owner, page)
    have mappings := congrArg Layout.mapping (layout fun _ => Page.zero)
    exact ⟨answer, cleared, consistent', separate.congr mappings⟩
  · rintro frame owner tenants other owned ⟨twins, consistent, separate⟩
    have exposed : ∀ space mapping, tenants.spaces[owner.1]? = some space →
        tenants.mappingOf? space owner.2 = some mapping → ¬hidden mapping.segment.file →
          again frame = page frame := by
      intro space mapping found belongs shown
      obtain ⟨entry, present, _⟩ := (consistent.owners frame owner).mp owned
      have listed := (entryAt_of_space found owner.2).symm.trans present
      rw [mappingOf?_eq listed] at belongs
      obtain ⟨id, named, live⟩ := Option.bind_eq_some_iff.mp belongs
      have secrecy := consistent.hidden_iff separate present named live
      exact same frame owner owned (mt secrecy.mpr shown)
    have vacates : (tenants.evict owner.1 owner.2 (page frame)).Satisfies (fun _ => True)
        (tenants.Vacates (fun _ => True) ownerOf page frame) := evict_vacates consistent owned
    refine .mono ((twins.evict owner exposed).and vacates .any) ?_
    rintro ⟨result, after⟩ ⟨_, last⟩ ⟨⟨rfl, twins⟩, ⟨path, outcome⟩, _⟩
    refine ⟨⟨rfl, twins⟩, ?_⟩
    rintro cause rfl
    exact ⟨twins, outcome, separate.congr (Layout.mapping_of_moves path)⟩

end Tenants

namespace Vm

variable {vm other : Vm arch}

/-- The machines agree in all but bytes in frames, in swap slots and in hidden files. -/
structure Twins (hidden : FileId → Prop) (vm other : Vm arch) : Prop where
  stack : other.stack = vm.stack
  frames : vm.frames.Twins other.frames
  tenants : vm.toTenants.Twins hidden other.toTenants

/-- The machines are twins, and pages of processes outside the set hold the same in both. -/
structure Alike (secret : ProcessId → Prop) (hidden : FileId → Prop) (vm other : Vm arch) :
    Prop extends vm.Twins hidden other where
  contents : ∀ page, ¬secret page.1 → vm.layout.contentsOf page = other.layout.contentsOf page

/-- Machines that are alike, and what the steps they take together rely on. -/
structure Paired (secret : ProcessId → Prop) (hidden : FileId → Prop) (vm other : Vm arch) :
    Prop extends vm.Alike secret hidden other where
  first : vm.Consistent fun _ => True
  second : other.Consistent fun _ => True
  separate : vm.mappings.Separates secret hidden

namespace Twins

theorem entry (twins : vm.Twins hidden other) : other.layout.entry = vm.layout.entry := by
  funext page
  change other.toTenants.entryAt page = vm.toTenants.entryAt page
  unfold Tenants.entryAt
  rw [twins.tenants.spaces]

theorem backs (twins : vm.Twins hidden other) {page : UserPage} {backing : Backing}
    (backs : vm.layout.Backs page backing) : other.layout.Backs page backing := by
  unfold Layout.Backs
  rw [twins.entry]
  exact backs

theorem mapping (twins : vm.Twins hidden other) : other.layout.mapping = vm.layout.mapping := by
  change other.mappings.get? = vm.mappings.get?
  rw [twins.tenants.mappings]

theorem setSpace (twins : vm.Twins hidden other) {frames frames' : FrameTable arch}
    (table : frames.Twins frames') (process : ProcessId) (space : AddressSpace arch) :
    ({ vm with toTenants := vm.setSpace process space, frames } : Vm arch).Twins hidden
      { other with toTenants := other.setSpace process space, frames := frames' } :=
  ⟨twins.stack, table, twins.tenants.setSpace process space⟩

theorem populate (twins : vm.Twins hidden other) (frame : FrameNumber) (page : PageNumber)
    (source : PageSource) :
    (vm.populate frame page source).Alike (SameAnswer (Twins hidden))
      (other.populate frame page source) := by
  cases source with
  | zero => exact .pure ⟨rfl, twins⟩
  | swap slot =>
      refine .bind (.lift (twins.frames.bytes frame)) fun dest dest' _ => ?_
      refine .bind (twins.tenants.swap.load slot dest dest') ?_
      rintro ⟨result, filled, swap⟩ ⟨_, filled', swap'⟩ ⟨rfl, swaps⟩
      refine .bind (.lift (twins.frames.setBytes frame filled filled')) fun _ _ frames => ?_
      exact .pure ⟨rfl, twins.stack, frames, twins.tenants.spaces, twins.tenants.mappings, swaps,
        twins.tenants.files⟩
  | file id =>
      unfold Vm.populate
      dsimp only
      rw [twins.tenants.mappings]
      cases vm.mappings.get? id with
      | none => exact .violate _
      | some mapping =>
          refine .bind (.lift (twins.frames.bytes frame)) fun dest dest' _ => ?_
          refine .bind (.lift (mapping.readPage_alike vm.files other.files page dest dest')) ?_
          intro read read' _
          refine .bind (.lift (twins.frames.setBytes frame read read')) fun _ _ frames => ?_
          exact .pure ⟨rfl, twins.stack, frames, twins.tenants⟩

end Twins

theorem Paired.page_eq (paired : vm.Paired secret hidden other) {page : UserPage}
    {frame : FrameNumber} (backs : vm.layout.Backs page (.frame frame)) (shown : ¬secret page.1) :
    other.frames.pool.page frame = vm.frames.pool.page frame := by
  obtain ⟨entry, present, resident⟩ := backs
  have same := paired.contents page shown
  rw [Layout.contentsOf_eq present,
    Layout.contentsOf_eq ((congrFun paired.entry page).trans present), resident] at same
  exact (Option.some.inj same).symm

theorem Paired.acquireFrame_twins (paired : vm.Paired secret hidden other)
    (request : FrameRequest) (process : ProcessId) (page : PageNumber) :
    (vm.acquireFrame request process page).Alike (SameAnswer (Twins hidden))
      (other.acquireFrame request process page) := by
  have parallel : (Tenants.owners : FrameOwners (Tenants arch)).Parallel vm.frames.ownerOf
      vm.frames.pool.page other.frames.pool.page _ (Tenants.Twins hidden) :=
    Tenants.owners_parallel _ _ fun frame owner owned =>
      paired.page_eq ((paired.first.tenants.owners frame owner).mp owned)
  obtain ⟨ring, wellFormed, _⟩ := paired.first.frames
  unfold acquireFrame
  refine .bind (paired.frames.acquire parallel wellFormed.size request process page
    ⟨paired.tenants, paired.first.tenants, paired.separate⟩) ?_
  rintro ⟨result, frames, tenants⟩ ⟨_, frames', tenants'⟩ ⟨rfl, table, twins⟩
  exact .pure ⟨rfl, paired.stack, table, twins⟩

theorem Paired.bringIn_twins (paired : vm.Paired secret hidden other) (process : ProcessId)
    (page : PageNumber) (source : PageSource) :
    (vm.bringIn process page source).Alike (SameAnswer (Twins hidden))
      (other.bringIn process page source) := by
  unfold bringIn
  refine .bind (paired.acquireFrame_twins _ process page) ?_
  rintro ⟨acquired, held⟩ ⟨_, held'⟩ ⟨rfl, twins⟩
  cases acquired with
  | error cause => exact .pure ⟨rfl, twins⟩
  | ok frame =>
      refine .bind (twins.populate frame page source) ?_
      rintro ⟨populated, filled⟩ ⟨_, filled'⟩ ⟨rfl, twins⟩
      cases populated with
      | error cause =>
          refine .bind (.lift (twins.frames.release frame)) fun _ _ frames => ?_
          exact .pure ⟨rfl, twins.stack, frames, twins.tenants⟩
      | ok _ =>
          refine .bind (.lift (twins.frames.markNotReferenced frame)) ?_
          rintro ⟨marked, frames⟩ ⟨_, frames'⟩ ⟨rfl, table⟩
          dsimp only
          rw [twins.tenants.spaces]
          cases filled.spaces[process]? with
          | none => exact .violate _
          | some space =>
              refine .bind (.lift (.refl (settle space page frame source))) ?_
              rintro placed _ rfl
              exact .pure ⟨rfl, twins.setSpace table process placed⟩

theorem Paired.installPage_twins (paired : vm.Paired secret hidden other) (process : ProcessId)
    (address : VirtualAddress) (writable : Bool) :
    (vm.installPage process address writable).Alike (SameAnswer (Twins hidden))
      (other.installPage process address writable) := by
  unfold installPage
  split
  · exact .pure ⟨rfl, paired.toTwins⟩
  · dsimp only
    rw [paired.tenants.spaces]
    cases vm.spaces[process]? with
    | none => exact .pure ⟨rfl, paired.toTwins⟩
    | some space =>
        dsimp only
        split
        · exact .pure ⟨rfl, paired.toTwins⟩
        · refine .bind (paired.acquireFrame_twins { zeroed := true } process address.page) ?_
          rintro ⟨acquired, held⟩ ⟨_, held'⟩ ⟨rfl, twins⟩
          cases acquired with
          | error cause => exact .pure ⟨rfl, twins⟩
          | ok frame =>
              dsimp only
              rw [twins.tenants.spaces]
              cases held.spaces[process]? with
              | none => exact .violate _
              | some space =>
                  refine .bind (.lift (.refl (space.installFrame address.page frame writable))) ?_
                  rintro ⟨installed, placed⟩ _ rfl
                  refine .bind (.lift .require) fun _ _ _ => ?_
                  refine .bind (.lift (twins.frames.markNotReferenced frame)) ?_
                  rintro ⟨marked, frames⟩ ⟨_, frames'⟩ ⟨rfl, table⟩
                  exact .pure ⟨rfl, twins.setSpace table process placed⟩

theorem Twins.classify (twins : vm.Twins hidden other) (process : ProcessId) (fault : PageFault) :
    other.classify process fault = vm.classify process fault := by
  have source : ∀ entry, other.faultSource fault entry = vm.faultSource fault entry := by
    intro entry
    unfold faultSource
    rw [twins.stack]
  unfold Vm.classify
  rw [twins.tenants.spaces]
  simp only [source]

/-- Twins that have come from machines that are alike are alike, if each page holds what was
supplied for it. -/
theorem Paired.advance {after after' : Vm arch} (paired : vm.Paired secret hidden other)
    (twins : after.Twins hidden after') (supplies : vm.layout.Supplies after.layout)
    (supplies' : other.layout.Supplies after'.layout) : after.Alike secret hidden after' := by
  refine ⟨twins, fun page shown => ?_⟩
  refine Layout.contentsOf_congr supplies supplies' twins.entry ?_
  refine Layout.supply_eq paired.entry paired.mapping (paired.contents page shown) ?_
  rintro id mapping ⟨entry, present, source⟩ live
  have belongs := ((paired.first.tenants.sound _).admits page entry present).filed id source
  have secrecy := paired.first.tenants.hidden_iff paired.separate present belongs live
  exact twins.tenants.files.same _ (mt secrecy.mp shown)

theorem Paired.resolveFault_twins (paired : vm.Paired secret hidden other) (process : ProcessId)
    (fault : PageFault) :
    (vm.resolveFault process fault).Alike (SameAnswer (Twins hidden))
      (other.resolveFault process fault) := by
  unfold resolveFault
  rw [paired.toTwins.classify]
  refine .bind (.lift (.refl (vm.classify process fault))) ?_
  rintro decided _ rfl
  cases decided with
  | error cause => exact .pure ⟨rfl, paired.toTwins⟩
  | ok source =>
      refine .bind .log fun _ _ _ => ?_
      refine .bind (paired.bringIn_twins process fault.address.page source) ?_
      rintro ⟨result, after⟩ ⟨_, after'⟩ ⟨rfl, twins⟩
      exact .pure ⟨rfl, twins⟩

theorem Brings.supplies {ε : Type} {page : UserPage} {layout moved : Layout}
    {result : Except ε FrameNumber} (brings : Brings page layout moved result) :
    layout.Supplies moved := by
  cases result with
  | error cause => exact Layout.supplies_of_upholds (Layout.upholds_of_moves brings)
  | ok frame =>
      obtain ⟨away, ⟨middle, path, arrival⟩, _⟩ := brings
      exact Layout.supplies_of_arrival path arrival away

theorem Brings.mapping {ε : Type} {page : UserPage} {layout moved : Layout}
    {result : Except ε FrameNumber} (brings : Brings page layout moved result) :
    moved.mapping = layout.mapping := by
  cases result with
  | error cause => exact Layout.mapping_of_moves brings
  | ok frame =>
      obtain ⟨away, ⟨middle, path, arrival⟩, _⟩ := brings
      exact (Layout.mapping_of_arrival arrival).trans (Layout.mapping_of_moves path)

theorem Paired.resolveFault (paired : vm.Paired secret hidden other) (process : ProcessId)
    (fault : PageFault) :
    (vm.resolveFault process fault).Alike (SameAnswer (Paired secret hidden))
      (other.resolveFault process fault) := by
  have once : (vm.resolveFault process fault).Satisfies (fun _ => True) _ :=
    resolveFault_satisfies paired.first fun _ _ _ _ => trivial
  have again : (other.resolveFault process fault).Satisfies (fun _ => True) _ :=
    resolveFault_satisfies paired.second fun _ _ _ _ => trivial
  refine .mono ((paired.resolveFault_twins process fault).and once again) ?_
  rintro ⟨result, after⟩ ⟨_, after'⟩ ⟨⟨rfl, twins⟩, ⟨_, first, brings, _⟩, _, second, brings', _⟩
  exact ⟨rfl, paired.advance twins brings.supplies brings'.supplies, first, second,
    paired.separate.congr brings.mapping⟩

theorem Paired.access? (paired : vm.Paired secret hidden other) (process : ProcessId)
    (page : PageNumber) (write : Bool) :
    Option.Rel (fun left right => SameAnswer (Paired secret hidden) left right ∧
        left.2.layout.Backs (process, page) (.frame left.1))
      (vm.access? process page write) (other.access? process page write) := by
  have once := access?_spec paired.first process page write
  have again := access?_spec paired.second process page write
  have twins : Option.Rel (SameAnswer (Twins hidden)) (vm.access? process page write)
      (other.access? process page write) := by
    unfold Vm.access?
    rw [paired.tenants.spaces]
    cases vm.spaces[process]? with
    | none => exact .none
    | some space =>
        simp only [Option.bind_eq_bind, Option.bind_some]
        obtain ⟨frame, directory⟩ := space.directory.recordAccess page write
        cases frame with
        | none => exact .none
        | some frame => exact .some ⟨rfl, paired.toTwins.setSpace paired.frames process _⟩
  generalize vm.access? process page write = left at once twins ⊢
  generalize other.access? process page write = right at again twins ⊢
  cases twins with
  | none => exact .none
  | @some left right answer =>
      obtain ⟨frame, after⟩ := left
      obtain ⟨_, after'⟩ := right
      obtain ⟨rfl, twins⟩ := answer
      obtain ⟨⟨entry, present, resident, _⟩, _, first, _, layout⟩ := once
      obtain ⟨_, _, second, _, layout'⟩ := again
      refine .some ⟨⟨rfl, paired.advance twins ?_ ?_, first, second, ?_⟩, ?_⟩
      · rw [layout]
        exact Layout.supplies_of_upholds fun _ => .of_eq rfl
      · rw [layout']
        exact Layout.supplies_of_upholds fun _ => .of_eq rfl
      · exact paired.separate.congr (congrArg Layout.mapping layout)
      · rw [layout]
        exact ⟨entry, present, resident⟩

theorem Paired.userFrame (paired : vm.Paired secret hidden other) (process : ProcessId)
    (address : VirtualAddress) (write : Bool) (stackPointer : VirtualAddress) :
    (vm.userFrame process address write stackPointer).Alike
      (fun left right => SameAnswer (Paired secret hidden) left right ∧
        ∀ frame, left.1 = .ok frame → left.2.layout.Backs (process, address.page) (.frame frame))
      (other.userFrame process address write stackPointer) := by
  have granted : ∀ left right : FrameNumber × Vm arch,
      SameAnswer (Paired secret hidden) left right ∧
        left.2.layout.Backs (process, address.page) (.frame left.1) →
      Run.Alike (fun left right => SameAnswer (Paired secret hidden) left right ∧
        ∀ frame, left.1 = .ok frame → left.2.layout.Backs (process, address.page) (.frame frame))
        (pure ((.ok left.1 : Except VmError FrameNumber), left.2))
        (pure ((.ok right.1 : Except VmError FrameNumber), right.2)) := by
    rintro ⟨frame, after⟩ ⟨_, after'⟩ ⟨⟨rfl, paired⟩, backs⟩
    refine .pure ⟨⟨rfl, paired⟩, ?_⟩
    rintro _ ⟨⟩
    exact backs
  have reach := paired.access? process address.page write
  unfold Vm.userFrame
  rw [paired.tenants.spaces]
  split
  · exact .pure ⟨⟨rfl, paired⟩, nofun⟩
  · generalize vm.access? process address.page write = left at reach ⊢
    generalize other.access? process address.page write = right at reach ⊢
    cases reach with
    | some answer => exact granted _ _ answer
    | none =>
        refine .bind (paired.resolveFault process { address, write, stackPointer }) ?_
        rintro ⟨resolved, after⟩ ⟨_, after'⟩ ⟨rfl, paired⟩
        cases resolved with
        | error cause => exact .pure ⟨⟨rfl, paired⟩, nofun⟩
        | ok frame =>
            have reach := paired.access? process address.page write
            dsimp only
            generalize after.access? process address.page write = left at reach ⊢
            generalize after'.access? process address.page write = right at reach ⊢
            cases reach with
            | some answer => exact granted _ _ answer
            | none => exact .pure ⟨⟨rfl, paired⟩, nofun⟩

end Vm
end DemandPaging
