import DemandPaging.Proofs.Translation

/-!
Translations as plain records. A directory of packed words answers every sequence of operations
as a finite map from pages to records does, on either architecture: the address and the flags of
a word never run into each other.
-/

namespace DemandPaging

variable {arch : Architecture}

/-- The flags of a user page that is mapped, by their bits. -/
def PageFlags.ofFields (writable accessed dirty : Bool) : PageFlags :=
  ⟨0b101 ||| (if writable then 0b10 else 0) ||| (if accessed then 0b100000 else 0) |||
    (if dirty then 0b1000000 else 0)⟩

namespace PageFlags

theorem userPage_eq : ∀ writable, userPage writable = ofFields writable false false := by
  decide

theorem ofFields_has : ∀ writable accessed dirty,
    (ofFields writable accessed dirty).has .present = true ∧
      (ofFields writable accessed dirty).has .writable = writable ∧
      (ofFields writable accessed dirty).has .accessed = accessed ∧
      (ofFields writable accessed dirty).has .dirty = dirty := by
  decide

theorem ofFields_set_accessed : ∀ writable accessed dirty value,
    (ofFields writable accessed dirty).set .accessed value = ofFields writable value dirty := by
  decide

theorem ofFields_set_dirty : ∀ writable accessed dirty value,
    (ofFields writable accessed dirty).set .dirty value = ofFields writable accessed value := by
  decide

theorem ofFields_masked (arch : Architecture) : ∀ writable accessed dirty,
    (ofFields writable accessed dirty).bits &&& arch.flagsMask =
      (ofFields writable accessed dirty).bits := by
  cases arch <;> decide

end PageFlags

/-- A translation with a field for each thing it says. -/
structure PlainEntry where
  frame : FrameNumber
  writable : Bool
  accessed : Bool := false
  dirty : Bool := false
deriving DecidableEq

namespace PlainEntry

def setAccessed (entry : PlainEntry) (value : Bool) : PlainEntry :=
  { entry with accessed := value }

def setDirty (entry : PlainEntry) (value : Bool) : PlainEntry :=
  { entry with dirty := value }

def touch (entry : PlainEntry) (write : Bool) : PlainEntry :=
  { entry with accessed := true, dirty := entry.dirty || write }

def flags (entry : PlainEntry) : PageFlags :=
  .ofFields entry.writable entry.accessed entry.dirty

def packed (arch : Architecture) (entry : PlainEntry) : PackedEntry arch :=
  .pack ⟨entry.frame.value * pageSize⟩ entry.flags

def Valid (arch : Architecture) (entry : PlainEntry) : Prop :=
  arch.Accepts .physical (entry.frame.value * pageSize)

variable {entry : PlainEntry}

@[simp] theorem packed_flags : (entry.packed arch).flags = entry.flags :=
  PackedEntry.pack_flags _ (PageFlags.ofFields_masked arch _ _ _)

@[simp] theorem flags_has_writable : entry.flags.has .writable = entry.writable :=
  (PageFlags.ofFields_has _ _ _).2.1

@[simp] theorem flags_has_accessed : entry.flags.has .accessed = entry.accessed :=
  (PageFlags.ofFields_has _ _ _).2.2.1

@[simp] theorem flags_has_dirty : entry.flags.has .dirty = entry.dirty :=
  (PageFlags.ofFields_has _ _ _).2.2.2

theorem flags_setAccessed (entry : PlainEntry) (value : Bool) :
    entry.flags.set .accessed value = (entry.setAccessed value).flags :=
  PageFlags.ofFields_set_accessed _ _ _ value

theorem flags_setDirty (entry : PlainEntry) (value : Bool) :
    entry.flags.set .dirty value = (entry.setDirty value).flags :=
  PageFlags.ofFields_set_dirty _ _ _ value

theorem flags_touch (entry : PlainEntry) (write : Bool) :
    (if write then (entry.flags.set .accessed true).set .dirty true
      else entry.flags.set .accessed true) = (entry.touch write).flags := by
  rw [flags_setAccessed, flags_setDirty]
  cases write with
  | false => simp [touch, setAccessed]
  | true => simp [touch, setAccessed, setDirty]

theorem Valid.frameStart_eq (valid : entry.Valid arch) :
    entry.frame.frameStart arch = .ok ⟨entry.frame.value * pageSize⟩ := by
  unfold Number.frameStart Word.mul Address.new
  rw [if_pos valid.lt_wordLimit, Checked.ok_bind]
  exact if_pos valid

@[simp] theorem Valid.packed_frame (valid : entry.Valid arch) :
    (entry.packed arch).frame = some entry.frame :=
  PackedEntry.pack_frame valid.frameStart_eq (PageFlags.ofFields_has _ _ _).1

theorem packed_setFlags {changed : PlainEntry} (frame : changed.frame = entry.frame) :
    (entry.packed arch).setFlags changed.flags = changed.packed arch := by
  unfold packed
  rw [PackedEntry.pack_setFlags, frame]

end PlainEntry

namespace PageDirectory

/-- An operation on translations, or a question about them. -/
inductive Operation where
  | map (page : PageNumber) (frame : FrameNumber) (writable : Bool)
  | unmap (page : PageNumber)
  | setAccessed (page : PageNumber) (value : Bool)
  | setDirty (page : PageNumber) (value : Bool)
  | testAndClearAccessed (page : PageNumber)
  | recordAccess (page : PageNumber) (write : Bool)
  | translate (page : PageNumber)
  | isMapped (page : PageNumber)
  | isAccessed (page : PageNumber)
  | isDirty (page : PageNumber)
  | size
deriving DecidableEq

inductive Answer where
  | done
  | frame (found : Option FrameNumber)
  | bit (value : Bool)
  | translation (found : Option (FrameNumber × PageFlags))
  | count (pages : Nat)
deriving DecidableEq

/-- Whether the operation gives pages a translation or takes it away. -/
def Operation.maps : Operation → Bool
  | map _ _ _ => true
  | unmap _ => true
  | _ => false

def perform (directory : PageDirectory arch) :
    Operation → Checked (Answer × PageDirectory arch)
  | .map page frame writable => do return (.done, ← directory.map page frame writable)
  | .unmap page => return (.frame (directory.unmap page).1, (directory.unmap page).2)
  | .setAccessed page value => return (.done, directory.setAccessed page value)
  | .setDirty page value => return (.done, directory.setDirty page value)
  | .testAndClearAccessed page =>
    return (.bit (directory.testAndClearAccessed page).1, (directory.testAndClearAccessed page).2)
  | .recordAccess page write =>
    return (.frame (directory.recordAccess page write).1, (directory.recordAccess page write).2)
  | .translate page => return (.translation (directory.translate page), directory)
  | .isMapped page => return (.bit (directory.isMapped page), directory)
  | .isAccessed page => return (.bit (directory.isAccessed page), directory)
  | .isDirty page => return (.bit (directory.isDirty page), directory)
  | .size => return (.count directory.size, directory)

def run (directory : PageDirectory arch) :
    List Operation → Checked (List Answer × PageDirectory arch)
  | [] => return ([], directory)
  | operation :: rest => do
    let (answer, after) ← directory.perform operation
    let (answers, last) ← after.run rest
    return (answer :: answers, last)

theorem perform_route {directory after : PageDirectory arch} {operation : Operation}
    {answer : Answer} (kept : operation.maps = false)
    (done : directory.perform operation = .ok (answer, after)) (page : PageNumber) :
    after.route page = directory.route page := by
  cases operation with
  | map | unmap => cases kept
  | setAccessed other value =>
      cases done
      exact setAccessed_route directory other page value
  | setDirty other value =>
      cases done
      exact setDirty_route directory other page value
  | testAndClearAccessed other =>
      cases done
      exact testAndClearAccessed_route directory other page
  | recordAccess other write =>
      cases done
      exact recordAccess_route directory other page write
  | translate | isMapped | isAccessed | isDirty | size =>
      cases done
      rfl

end PageDirectory

/-- Translations as a finite map of records. -/
structure PlainDirectory where
  entries : NumberMap .page PlainEntry := ∅

namespace PlainDirectory

def modify (plain : PlainDirectory) (page : PageNumber) (change : PlainEntry → PlainEntry) :
    PlainDirectory :=
  ⟨plain.entries.modify page change⟩

def setAccessed (plain : PlainDirectory) (page : PageNumber) (value : Bool) : PlainDirectory :=
  plain.modify page (·.setAccessed value)

def setDirty (plain : PlainDirectory) (page : PageNumber) (value : Bool) : PlainDirectory :=
  plain.modify page (·.setDirty value)

/-- A user's access to a page: refused if the page has no record or the access would write a
page that is not writable. -/
def recordAccess (plain : PlainDirectory) (page : PageNumber) (write : Bool) :
    Option FrameNumber × PlainDirectory :=
  match plain.entries[page]? with
  | none => (none, plain)
  | some entry =>
    if write && !entry.writable then
      (none, plain)
    else
      (entry.frame, ⟨plain.entries.insert page (entry.touch write)⟩)

def perform (plain : PlainDirectory) :
    PageDirectory.Operation → PageDirectory.Answer × PlainDirectory
  | .map page frame writable => (.done, ⟨plain.entries.insert page { frame, writable }⟩)
  | .unmap page =>
    (.frame (plain.entries[page]?.map PlainEntry.frame), ⟨plain.entries.erase page⟩)
  | .setAccessed page value => (.done, plain.setAccessed page value)
  | .setDirty page value => (.done, plain.setDirty page value)
  | .testAndClearAccessed page =>
    (.bit (plain.entries[page]?.any PlainEntry.accessed), plain.setAccessed page false)
  | .recordAccess page write =>
    (.frame (plain.recordAccess page write).1, (plain.recordAccess page write).2)
  | .translate page =>
    (.translation (plain.entries[page]?.map fun entry => (entry.frame, entry.flags)), plain)
  | .isMapped page => (.bit (plain.entries.contains page), plain)
  | .isAccessed page => (.bit (plain.entries[page]?.any PlainEntry.accessed), plain)
  | .isDirty page => (.bit (plain.entries[page]?.any PlainEntry.dirty), plain)
  | .size => (.count plain.entries.size, plain)

def run (plain : PlainDirectory) :
    List PageDirectory.Operation → List PageDirectory.Answer × PlainDirectory
  | [] => ([], plain)
  | operation :: rest =>
    let (answer, after) := plain.perform operation
    let (answers, last) := after.run rest
    (answer :: answers, last)

/-- A page is mapped only while it is not, and to a frame with a physical address. -/
def Allows (arch : Architecture) (plain : PlainDirectory) : PageDirectory.Operation → Prop
  | .map page frame _ =>
    page ∉ plain.entries ∧ arch.Accepts .physical (frame.value * pageSize)
  | _ => True

instance (arch : Architecture) (plain : PlainDirectory) (operation : PageDirectory.Operation) :
    Decidable (plain.Allows arch operation) := by
  cases operation <;> unfold Allows <;> infer_instance

/-- Each of the operations is allowed when its turn comes. -/
def AllowsRun (arch : Architecture) (plain : PlainDirectory) :
    List PageDirectory.Operation → Prop
  | [] => True
  | operation :: rest =>
    plain.Allows arch operation ∧ (plain.perform operation).2.AllowsRun arch rest

instance decidableAllowsRun (arch : Architecture) (plain : PlainDirectory) :
    ∀ operations, Decidable (plain.AllowsRun arch operations)
  | [] => .isTrue trivial
  | operation :: rest =>
    have := decidableAllowsRun arch (plain.perform operation).2 rest
    inferInstanceAs (Decidable (_ ∧ _))

def packed (arch : Architecture) (plain : PlainDirectory) : PageDirectory arch :=
  ⟨plain.entries.map fun _ entry => entry.packed arch⟩

def Valid (arch : Architecture) (plain : PlainDirectory) : Prop :=
  ∀ (page : PageNumber) entry, plain.entries[page]? = some entry → PlainEntry.Valid arch entry

variable {plain : PlainDirectory}

@[simp] theorem packed_getElem? (page : PageNumber) :
    (plain.packed arch).entries[page]? = plain.entries[page]?.map (PlainEntry.packed arch) := by
  simp [packed]

theorem packed_has {flag : PageFlags.Flag} {field : PlainEntry → Bool}
    (reads : ∀ entry, entry.flags.has flag = field entry) (page : PageNumber) :
    (plain.packed arch).has page flag = plain.entries[page]?.any field := by
  unfold PageDirectory.has
  rw [packed_getElem?]
  cases plain.entries[page]? <;> simp [reads]

theorem packed_insert (page : PageNumber) (entry : PlainEntry) :
    packed arch ⟨plain.entries.insert page entry⟩ =
      ⟨(plain.packed arch).entries.insert page (entry.packed arch)⟩ := by
  unfold packed
  congr 1
  apply Std.ExtTreeMap.ext_getElem?
  intro other
  simp only [Std.ExtTreeMap.getElem?_map, NumberMap.getElem?_insert]
  split <;> rfl

theorem packed_erase (page : PageNumber) :
    packed arch ⟨plain.entries.erase page⟩ = ⟨(plain.packed arch).entries.erase page⟩ := by
  unfold packed
  congr 1
  apply Std.ExtTreeMap.ext_getElem?
  intro other
  simp only [Std.ExtTreeMap.getElem?_map, NumberMap.getElem?_erase]
  split <;> rfl

theorem packed_modify {change : PlainEntry → PlainEntry} {changeFlags : PageFlags → PageFlags}
    (flags : ∀ entry, changeFlags entry.flags = (change entry).flags)
    (frame : ∀ entry, (change entry).frame = entry.frame) (page : PageNumber) :
    (plain.packed arch).modifyFlags page changeFlags = (plain.modify page change).packed arch := by
  unfold PageDirectory.modifyFlags packed modify
  congr 1
  apply Std.ExtTreeMap.ext_getElem?
  intro other
  simp only [NumberMap.getElem?_modify, Std.ExtTreeMap.getElem?_map]
  split
  · cases plain.entries[other]? with
    | none => rfl
    | some entry =>
        simp only [Option.map_some, PlainEntry.packed_flags, flags]
        rw [PlainEntry.packed_setFlags (frame entry)]
  · rfl

theorem packed_setAccessed (page : PageNumber) (value : Bool) :
    (plain.packed arch).setAccessed page value = (plain.setAccessed page value).packed arch := by
  apply packed_modify
  · exact fun entry => entry.flags_setAccessed value
  · exact fun _ => rfl

theorem packed_setDirty (page : PageNumber) (value : Bool) :
    (plain.packed arch).setDirty page value = (plain.setDirty page value).packed arch := by
  apply packed_modify
  · exact fun entry => entry.flags_setDirty value
  · exact fun _ => rfl

theorem setAccessed_of_clear {page : PageNumber}
    (clear : plain.entries[page]?.any PlainEntry.accessed = false) :
    plain.setAccessed page false = plain := by
  unfold setAccessed modify
  congr 1
  apply Std.ExtTreeMap.ext_getElem?
  intro other
  rw [NumberMap.getElem?_modify]
  split
  · rename_i same
    subst same
    cases found : plain.entries[other]? with
    | none => rfl
    | some entry =>
        rw [found, Option.any_some] at clear
        rw [Option.map_some, PlainEntry.setAccessed, ← clear]
  · rfl

theorem packed_testAndClearAccessed (page : PageNumber) :
    (plain.packed arch).testAndClearAccessed page =
      (plain.entries[page]?.any PlainEntry.accessed,
        (plain.setAccessed page false).packed arch) := by
  have reads : (plain.packed arch).isAccessed page = plain.entries[page]?.any PlainEntry.accessed :=
    packed_has (fun _ => PlainEntry.flags_has_accessed) page
  unfold PageDirectory.testAndClearAccessed
  rw [reads]
  split
  · rename_i accessed
    rw [accessed, packed_setAccessed]
  · rename_i clear
    rw [Bool.not_eq_true] at clear
    rw [clear, setAccessed_of_clear clear]

theorem packed_recordAccess (valid : plain.Valid arch) (page : PageNumber) (write : Bool) :
    (plain.packed arch).recordAccess page write =
      ((plain.recordAccess page write).1, (plain.recordAccess page write).2.packed arch) := by
  unfold PageDirectory.recordAccess recordAccess
  rw [packed_getElem?]
  cases found : plain.entries[page]? with
  | none => rfl
  | some entry =>
      simp only [Option.map_some, PlainEntry.packed_flags, PlainEntry.flags_has_writable]
      split
      · rfl
      · have touched : (entry.packed arch).setFlags (entry.touch write).flags =
            (entry.touch write).packed arch := PlainEntry.packed_setFlags rfl
        have usable : (entry.touch write).Valid arch := valid page entry found
        simp only [PlainEntry.flags_touch, touched, packed_insert, usable.packed_frame]
        rfl

theorem Valid.insert (valid : plain.Valid arch) {entry : PlainEntry} (usable : entry.Valid arch)
    (page : PageNumber) : Valid arch ⟨plain.entries.insert page entry⟩ := by
  intro other listed found
  rw [NumberMap.getElem?_insert] at found
  split at found
  · cases found
    exact usable
  · exact valid other listed found

theorem Valid.modify (valid : plain.Valid arch) {change : PlainEntry → PlainEntry}
    (frame : ∀ entry, (change entry).frame = entry.frame) (page : PageNumber) :
    (plain.modify page change).Valid arch := by
  intro other entry found
  unfold PlainDirectory.modify at found
  rw [NumberMap.getElem?_modify] at found
  split at found
  · obtain ⟨before, listed, rfl⟩ := Option.map_eq_some_iff.mp found
    unfold PlainEntry.Valid
    rw [frame]
    exact valid other before listed
  · exact valid other entry found

theorem Valid.perform (valid : plain.Valid arch) {operation : PageDirectory.Operation}
    (allowed : plain.Allows arch operation) : (plain.perform operation).2.Valid arch := by
  cases operation with
  | map page frame writable =>
      have usable : PlainEntry.Valid arch { frame, writable } := allowed.2
      exact valid.insert usable page
  | unmap page =>
      intro other entry found
      simp only [PlainDirectory.perform, NumberMap.getElem?_erase] at found
      split at found
      · cases found
      · exact valid other entry found
  | setAccessed | setDirty | testAndClearAccessed =>
      apply Valid.modify valid
      exact fun _ => rfl
  | recordAccess page write =>
      simp only [PlainDirectory.perform, recordAccess]
      cases found : plain.entries[page]? with
      | none => exact valid
      | some entry =>
          dsimp only
          split
          · exact valid
          · have usable : (entry.touch write).Valid arch := valid page entry found
            exact valid.insert usable page
  | translate page | isMapped page | isAccessed page | isDirty page | size => exact valid

theorem packed_translate (valid : plain.Valid arch) (page : PageNumber) :
    (plain.packed arch).translate page =
      plain.entries[page]?.map fun entry => (entry.frame, entry.flags) := by
  unfold PageDirectory.translate
  rw [packed_getElem?]
  cases found : plain.entries[page]? with
  | none => rfl
  | some entry => simp [(valid page entry found).packed_frame]

/-- The directory of words answers each operation as the records do. -/
theorem packed_perform (valid : plain.Valid arch) {operation : PageDirectory.Operation}
    (allowed : plain.Allows arch operation) :
    (plain.packed arch).perform operation =
      .ok ((plain.perform operation).1, (plain.perform operation).2.packed arch) := by
  cases operation with
  | map page frame writable =>
      have usable : PlainEntry.Valid arch { frame, writable } := allowed.2
      have start : frame.frameStart arch = .ok ⟨frame.value * pageSize⟩ := usable.frameStart_eq
      have absent : page ∉ (plain.packed arch).entries := by simpa [packed] using allowed.1
      simp only [PageDirectory.perform, PageDirectory.map, start, require, if_pos absent,
        PageFlags.userPage_eq, PlainDirectory.perform, packed_insert]
      rfl
  | unmap page =>
      have led : (plain.entries[page]?.map (PlainEntry.packed arch)).bind PackedEntry.frame =
          plain.entries[page]?.map PlainEntry.frame := by
        cases found : plain.entries[page]? with
        | none => rfl
        | some entry => exact (valid page entry found).packed_frame
      simp only [PageDirectory.perform, PageDirectory.unmap, packed_getElem?, led,
        PlainDirectory.perform, packed_erase]
      rfl
  | setAccessed page value =>
      simp only [PageDirectory.perform, packed_setAccessed]
      rfl
  | setDirty page value =>
      simp only [PageDirectory.perform, packed_setDirty]
      rfl
  | testAndClearAccessed page =>
      simp only [PageDirectory.perform, packed_testAndClearAccessed]
      rfl
  | recordAccess page write =>
      simp only [PageDirectory.perform, packed_recordAccess valid]
      rfl
  | translate page =>
      simp only [PageDirectory.perform, packed_translate valid]
      rfl
  | isMapped page =>
      simp only [PageDirectory.perform, PageDirectory.isMapped, packed, Std.ExtTreeMap.contains_map]
      rfl
  | isAccessed page =>
      simp only [PageDirectory.perform, PageDirectory.isAccessed,
        packed_has (fun _ => PlainEntry.flags_has_accessed)]
      rfl
  | isDirty page =>
      simp only [PageDirectory.perform, PageDirectory.isDirty,
        packed_has (fun _ => PlainEntry.flags_has_dirty)]
      rfl
  | size =>
      simp only [PageDirectory.perform, PageDirectory.size, packed, Std.ExtTreeMap.size_map]
      rfl

theorem packed_run (valid : plain.Valid arch) {operations : List PageDirectory.Operation}
    (allowed : plain.AllowsRun arch operations) :
    (plain.packed arch).run operations =
      .ok ((plain.run operations).1, (plain.run operations).2.packed arch) := by
  induction operations generalizing plain with
  | nil => rfl
  | cons operation rest ih =>
      obtain ⟨first, later⟩ := allowed
      unfold PageDirectory.run
      rw [packed_perform valid first, Checked.ok_bind]
      dsimp only
      rw [ih (valid.perform first) later]
      rfl

theorem Valid.run (valid : plain.Valid arch) {operations : List PageDirectory.Operation}
    (allowed : plain.AllowsRun arch operations) : (plain.run operations).2.Valid arch := by
  induction operations generalizing plain with
  | nil => exact valid
  | cons operation rest ih => exact ih (valid.perform allowed.1) allowed.2

theorem AllowsRun.elsewhere {operations : List PageDirectory.Operation}
    (allowed : plain.AllowsRun arch operations)
    (low : ∀ page frame writable, .map page frame writable ∈ operations → frame.value < 0x100000)
    (other : Architecture) : plain.AllowsRun other operations := by
  induction operations generalizing plain with
  | nil => trivial
  | cons operation rest ih =>
      obtain ⟨first, later⟩ := allowed
      refine ⟨?_, ih later fun page frame writable listed =>
        low page frame writable (List.mem_cons_of_mem operation listed)⟩
      cases operation with
      | map page frame writable =>
          have small := low page frame writable List.mem_cons_self
          refine ⟨first.1, ?_⟩
          cases other <;> simp only [Architecture.Accepts, pageSize] <;> omega
      | _ => trivial

end PlainDirectory

/-- The directory answers as a map of records does. Its flags are present and user and those that
the record has; only mapping and unmapping a page changes where translations lead; writing a page
that is not writable changes nothing; and with low frames the architectures do not differ. -/
theorem PageDirectory.refines_records {operations : List PageDirectory.Operation}
    (allowed : PlainDirectory.AllowsRun arch {} operations) :
    ∃ directory : PageDirectory arch,
      PageDirectory.run {} operations = .ok ((PlainDirectory.run {} operations).1, directory) ∧
      (∀ (page : PageNumber) entry,
        (PlainDirectory.run {} operations).2.entries[page]? = some entry →
        (∃ flags, directory.translate page = some (entry.frame, flags) ∧
          flags.bits = 0b101 ||| (if entry.writable then 0b10 else 0) |||
            (if entry.accessed then 0b100000 else 0) ||| (if entry.dirty then 0b1000000 else 0)) ∧
        (entry.writable = false → directory.recordAccess page true = (none, directory))) ∧
      (∀ operation answer after, operation.maps = false →
        directory.perform operation = .ok (answer, after) →
          ∀ page, after.route page = directory.route page) ∧
      ((∀ page frame writable, .map page frame writable ∈ operations → frame.value < 0x100000) →
        ∀ other, (PageDirectory.run ({} : PageDirectory other) operations).map Prod.fst =
          .ok (PlainDirectory.run {} operations).1) := by
  have start (arch : Architecture) : PlainDirectory.Valid arch {} := by
    intro page entry found
    simp at found
  have empty (arch : Architecture) : PlainDirectory.packed arch {} = {} := by
    simp [PlainDirectory.packed]
  have valid := (start arch).run allowed
  have ran := PlainDirectory.packed_run (start arch) allowed
  rw [empty] at ran
  refine ⟨_, ran, ?_, fun operation answer after => PageDirectory.perform_route, ?_⟩
  · intro page entry found
    refine ⟨⟨entry.flags, ?_, rfl⟩, ?_⟩
    · rw [PlainDirectory.packed_translate valid, found]
      rfl
    · intro readOnly
      rw [PlainDirectory.packed_recordAccess valid, PlainDirectory.recordAccess, found]
      simp [readOnly]
  · intro low other
    have ran := PlainDirectory.packed_run (start other) (allowed.elsewhere low other)
    rw [empty] at ran
    rw [ran]
    rfl

/-- The highest frame of the scale model is written, a page that is not writable is not. -/
theorem PageDirectory.refines_records_two_pages :
    let operations := [.map ⟨1⟩ ⟨0xFFFFF⟩ true, .map ⟨2⟩ ⟨3⟩ false, .recordAccess ⟨1⟩ true,
      .recordAccess ⟨2⟩ true, .testAndClearAccessed ⟨1⟩, .translate ⟨1⟩, .translate ⟨2⟩,
      .unmap ⟨1⟩, .size]
    let answers : List PageDirectory.Answer := [.done, .done, .frame (some ⟨0xFFFFF⟩), .frame none,
      .bit true, .translation (some (⟨0xFFFFF⟩, ⟨0b1000111⟩)), .translation (some (⟨3⟩, ⟨0b101⟩)),
      .frame (some ⟨0xFFFFF⟩), .count 1]
    PlainDirectory.AllowsRun .scaleModel {} operations ∧
      (∃ directory : PageDirectory .scaleModel,
        PageDirectory.run {} operations = .ok (answers, directory)) ∧
      (PageDirectory.run ({} : PageDirectory .x86_64) operations).map Prod.fst = .ok answers := by
  intro operations answers
  have allowed : PlainDirectory.AllowsRun .scaleModel {} operations := by decide +kernel
  have answered : (PlainDirectory.run {} operations).1 = answers := by decide +kernel
  have low : ∀ page frame writable, .map page frame writable ∈ operations →
      frame.value < 0x100000 := by
    intro page frame writable listed
    simp [operations] at listed
    obtain ⟨-, rfl, -⟩ | ⟨-, rfl, -⟩ := listed <;> decide
  obtain ⟨directory, ran, -, -, alike⟩ := PageDirectory.refines_records allowed
  rw [answered] at ran alike
  exact ⟨allowed, ⟨directory, ran⟩, alike low .x86_64⟩

end DemandPaging
