import DemandPaging.Proofs.Outcome
import DemandPaging.Translation.Directory

/-!
What a translation directory says of a page: the frame its translation leads to, whether
it may be written, and the two bits the processor sets. A packed word keeps the address
of a frame and the flags apart, so changing flags never leads to another frame.
-/

namespace DemandPaging

variable {arch : Architecture}

namespace PackedEntry

private theorem addressMask_and_flagsMask (arch : Architecture) :
    arch.addressMask &&& arch.flagsMask = 0#64 := by
  cases arch <;> decide

private theorem getLsbD_flagsMask (arch : Architecture) (flag : PageFlags.Flag) :
    arch.flagsMask.getLsbD flag.position = true := by
  cases arch <;> cases flag <;> decide

private theorem getLsbD_addressMask (arch : Architecture) (flag : PageFlags.Flag) :
    arch.addressMask.getLsbD flag.position = false := by
  cases arch <;> cases flag <;> decide

private theorem packed_and_addressMask (address flags : BitVec 64) :
    ((address &&& arch.addressMask) ||| (flags &&& arch.flagsMask)) &&& arch.addressMask =
      address &&& arch.addressMask := by
  have disjoint := addressMask_and_flagsMask arch
  ext i hi
  have bit := congrArg (fun word => word.getLsbD i) disjoint
  simp at bit ⊢
  grind

private theorem packed_getLsbD (address flags : BitVec 64) (flag : PageFlags.Flag) :
    ((address &&& arch.addressMask) ||| (flags &&& arch.flagsMask)).getLsbD flag.position =
      flags.getLsbD flag.position := by
  simp [getLsbD_flagsMask, getLsbD_addressMask]

private theorem has_flags (entry : PackedEntry arch) (flag : PageFlags.Flag) :
    entry.flags.has flag = entry.word.getLsbD flag.position := by
  have mask := getLsbD_flagsMask arch flag
  cases arch with
  | scaleModel => simp [flags, PageFlags.ofBits, PageFlags.has, mask]
  | x86_64 =>
      change ((entry.word &&& Architecture.x86_64.flagsMask) &&&
        Architecture.x86_64.flagsMask).getLsbD flag.position = _
      simp only [BitVec.getLsbD_and, mask, Bool.and_true]

@[simp] theorem setFlags_has (entry : PackedEntry arch) (flags : PageFlags)
    (flag : PageFlags.Flag) : (entry.setFlags flags).flags.has flag = flags.has flag := by
  rw [has_flags]
  exact packed_getLsbD entry.word flags.bits flag

theorem setFlags_frame (entry : PackedEntry arch) (flags : PageFlags)
    (kept : flags.has .present = entry.flags.has .present) :
    (entry.setFlags flags).frame = entry.frame := by
  unfold frame
  rw [setFlags_has, kept]
  unfold setFlags
  rw [packed_and_addressMask]

/-- Flags among the bits that the architecture keeps for them are read back as they were. -/
theorem pack_flags (start : PhysicalAddress) {flags : PageFlags}
    (masked : flags.bits &&& arch.flagsMask = flags.bits) :
    (pack start flags : PackedEntry arch).flags = flags := by
  have disjoint := addressMask_and_flagsMask arch
  have apart : ((BitVec.ofNat 64 start.value &&& arch.addressMask) |||
      (flags.bits &&& arch.flagsMask)) &&& arch.flagsMask = flags.bits := by
    rw [BitVec.and_or_distrib_right, BitVec.and_assoc, disjoint, BitVec.and_assoc,
      BitVec.and_self, masked]
    simp
  unfold PackedEntry.flags pack
  rw [apart]
  cases arch with
  | scaleModel => rfl
  | x86_64 => exact PageFlags.ext masked

theorem pack_setFlags (start : PhysicalAddress) (flags changed : PageFlags) :
    (pack start flags : PackedEntry arch).setFlags changed = pack start changed := by
  unfold setFlags pack
  rw [packed_and_addressMask]

private def physicalWidth : Architecture → Nat
  | .scaleModel => 32
  | .x86_64 => 48

private theorem getElem_addressMask (arch : Architecture) :
    ∀ i : Fin 64, 12 ≤ i.val → i.val < physicalWidth arch →
      arch.addressMask.getLsbD i.val = true := by
  cases arch <;> decide

private theorem testBit_of_aligned {value i : Nat} (aligned : value % pageSize = 0)
    (low : i < 12) : value.testBit i = false := by
  obtain ⟨count, rfl⟩ : ∃ count, value = 2 ^ 12 * count := Nat.dvd_of_mod_eq_zero aligned
  rw [Nat.testBit_two_pow_mul]
  simp [Nat.not_le.mpr low]

private theorem toNat_ofNat_and_addressMask {value : Nat}
    (valid : arch.Accepts .physical value) (aligned : value % pageSize = 0) :
    (BitVec.ofNat 64 value &&& arch.addressMask).toNat = value := by
  have bound : value < 2 ^ 64 := valid.lt_wordLimit
  have narrow : value < 2 ^ physicalWidth arch := by
    cases arch <;> exact valid
  have same : BitVec.ofNat 64 value &&& arch.addressMask = BitVec.ofNat 64 value := by
    apply BitVec.eq_of_getLsbD_eq
    intro i hi
    rw [BitVec.getLsbD_and, BitVec.getLsbD_ofNat]
    by_cases low : i < 12
    · simp [testBit_of_aligned aligned low]
    · by_cases high : i < physicalWidth arch
      · simp [getElem_addressMask arch ⟨i, hi⟩ (Nat.not_lt.mp low) high]
      · have small : value < 2 ^ i :=
          Nat.lt_of_lt_of_le narrow (Nat.pow_le_pow_right (by decide) (Nat.not_lt.mp high))
        simp [Nat.testBit_lt_two_pow small]
  rw [same, BitVec.toNat_ofNat, Nat.mod_eq_of_lt bound]

@[simp] theorem pack_has (start : PhysicalAddress) (flags : PageFlags)
    (flag : PageFlags.Flag) :
    (pack start flags : PackedEntry arch).flags.has flag = flags.has flag := by
  rw [has_flags]
  exact packed_getLsbD (BitVec.ofNat 64 start.value) flags.bits flag

theorem pack_frame {frame : FrameNumber} {start : PhysicalAddress} {flags : PageFlags}
    (found : frame.frameStart arch = .ok start) (present : flags.has .present = true) :
    (pack start flags : PackedEntry arch).frame = some frame := by
  unfold Number.frameStart Word.mul Address.new at found
  split at found
  · change (if arch.Accepts .physical (frame.value * pageSize) then _ else _) = _ at found
    split at found
    · rename_i valid
      cases found
      unfold PackedEntry.frame
      rw [pack_has, if_pos present]
      unfold pack
      rw [packed_and_addressMask,
        toNat_ofNat_and_addressMask valid (Nat.mul_mod_left _ _)]
      simp [Address.frame]
    · cases found
  · cases found

end PackedEntry

namespace PageFlags

theorem set_has (flags : PageFlags) (flag other : Flag) (value : Bool) :
    (flags.set flag value).has other = if other = flag then value else flags.has other := by
  cases value <;> cases flag <;> cases other <;>
    simp [set, has, Flag.position]

@[simp] theorem userPage_has_present (writable : Bool) :
    (userPage writable).has .present = true := by
  simp [userPage, set_has]

@[simp] theorem userPage_has_writable (writable : Bool) :
    (userPage writable).has .writable = writable := by
  simp [userPage, set_has]

@[simp] theorem userPage_has_dirty (writable : Bool) :
    (userPage writable).has .dirty = false := by
  simp [userPage, set_has]
  simp [empty, has]

@[simp] theorem userPage_has_accessed (writable : Bool) :
    (userPage writable).has .accessed = false := by
  simp [userPage, set_has]
  simp [empty, has]

end PageFlags

namespace PageDirectory

/-- Where the translation of a page leads, and whether the page may be written. -/
def route (directory : PageDirectory arch) (page : PageNumber) :
    Option (Option FrameNumber × Bool) :=
  directory.entries[page]?.map fun entry => (entry.frame, entry.flags.has .writable)

theorem route_eq_none {directory : PageDirectory arch} {page : PageNumber} :
    directory.route page = none ↔ page ∉ directory.entries := by
  simp [route]

theorem has_of_route_eq_none {directory : PageDirectory arch} {page : PageNumber}
    (h : directory.route page = none) (flag : PageFlags.Flag) :
    directory.has page flag = false := by
  have absent : directory.entries[page]? = none := by simpa [route] using h
  simp [has, absent]

theorem map_satisfies {tolerated : Violation → Prop} {directory : PageDirectory arch}
    {page : PageNumber} {frame : FrameNumber} {writable : Bool}
    (unmapped : directory.route page = none)
    (start : ∀ violation, frame.frameStart arch = .error violation → tolerated violation) :
    (directory.map page frame writable).Satisfies tolerated fun mapped =>
      (∀ other, mapped.route other =
        if other = page then some (some frame, writable) else directory.route other) ∧
      ∀ other, mapped.isDirty other =
        if other = page then false else directory.isDirty other := by
  unfold map
  refine .bind (.of_errors start) ?_
  intro address found
  refine .bind (.require (route_eq_none.mp unmapped)) ?_
  intro _ _
  refine .pure ⟨?_, ?_⟩
  · intro other
    by_cases same : other = page
    · subst same
      simp [route, PackedEntry.pack_frame found]
    · simp [route, Std.ExtTreeMap.getElem?_insert, Ne.symm same, same]
  · intro other
    by_cases same : other = page
    · subst same
      simp [isDirty, has]
    · simp [isDirty, has, Std.ExtTreeMap.getElem?_insert, Ne.symm same, same]

theorem unmap_route (directory : PageDirectory arch) (page other : PageNumber) :
    (directory.unmap page).2.route other =
      if other = page then none else directory.route other := by
  by_cases same : other = page
  · subst same
    simp [unmap, route]
  · simp [unmap, route, Std.ExtTreeMap.getElem?_erase, Ne.symm same, same]

theorem unmap_isDirty (directory : PageDirectory arch) (page other : PageNumber) :
    (directory.unmap page).2.isDirty other =
      if other = page then false else directory.isDirty other := by
  by_cases same : other = page
  · subst same
    simp [unmap, isDirty, has]
  · simp [unmap, isDirty, has, Std.ExtTreeMap.getElem?_erase, Ne.symm same, same]

private theorem modifyFlags_route (directory : PageDirectory arch) (page other : PageNumber)
    {change : PageFlags → PageFlags}
    (present : ∀ flags, (change flags).has .present = flags.has .present)
    (writable : ∀ flags, (change flags).has .writable = flags.has .writable) :
    (directory.modifyFlags page change).route other = directory.route other := by
  unfold modifyFlags route
  rw [Std.ExtTreeMap.getElem?_modify]
  split
  · rename_i same
    cases Std.LawfulEqCmp.eq_of_compare same
    simp [PackedEntry.setFlags_frame, present, writable, Option.map_map, Function.comp_def]
  · rfl

theorem setAccessed_route (directory : PageDirectory arch) (page other : PageNumber)
    (value : Bool) : (directory.setAccessed page value).route other = directory.route other :=
  modifyFlags_route directory page other (by simp [PageFlags.set_has]) (by simp [PageFlags.set_has])

theorem setDirty_route (directory : PageDirectory arch) (page other : PageNumber)
    (value : Bool) : (directory.setDirty page value).route other = directory.route other :=
  modifyFlags_route directory page other (by simp [PageFlags.set_has]) (by simp [PageFlags.set_has])

theorem modifyFlags_has (directory : PageDirectory arch) (page other : PageNumber)
    (which flag : PageFlags.Flag) (value : Bool) :
    (directory.modifyFlags page fun flags => flags.set which value).has other flag =
      if other = page ∧ flag = which then directory.isMapped page && value
      else directory.has other flag := by
  unfold modifyFlags has isMapped
  rw [NumberMap.getElem?_modify, ← Std.ExtTreeMap.isSome_getElem?_eq_contains]
  by_cases same : other = page
  · subst same
    cases directory.entries[other]? with
    | none => simp
    | some entry => by_cases own : flag = which <;> simp [PageFlags.set_has, own]
  · simp [same]

theorem testAndClearAccessed_fst (directory : PageDirectory arch) (page : PageNumber) :
    (directory.testAndClearAccessed page).1 = directory.isAccessed page := by
  unfold testAndClearAccessed
  cases directory.isAccessed page <;> rfl

theorem testAndClearAccessed_route (directory : PageDirectory arch)
    (page other : PageNumber) :
    (directory.testAndClearAccessed page).2.route other = directory.route other := by
  unfold testAndClearAccessed
  split
  · exact setAccessed_route directory page other false
  · rfl

theorem testAndClearAccessed_isDirty (directory : PageDirectory arch)
    (page other : PageNumber) :
    (directory.testAndClearAccessed page).2.isDirty other = directory.isDirty other := by
  unfold testAndClearAccessed
  split
  · exact (modifyFlags_has directory page other .accessed .dirty false).trans
      (if_neg fun h => nomatch h.2)
  · rfl

theorem testAndClearAccessed_isAccessed (directory : PageDirectory arch)
    (page other : PageNumber) :
    (directory.testAndClearAccessed page).2.isAccessed other =
      if other = page then false else directory.isAccessed other := by
  unfold testAndClearAccessed
  by_cases accessed : directory.isAccessed page = true
  · rw [if_pos accessed]
    exact (modifyFlags_has directory page other .accessed .accessed false).trans
      (by simp [isAccessed])
  · rw [if_neg accessed]
    by_cases same : other = page
    · subst same
      simpa using accessed
    · rw [if_neg same]

theorem recordAccess_of_unmapped {directory : PageDirectory arch} {page : PageNumber}
    (unmapped : directory.route page = none) (write : Bool) :
    directory.recordAccess page write = (none, directory) := by
  have absent : directory.entries[page]? = none := by simpa [route] using unmapped
  simp [recordAccess, absent]

/-- The processor refuses to write a page that is mapped read-only. -/
theorem recordAccess_of_readOnly {directory : PageDirectory arch} {page : PageNumber}
    {frame : Option FrameNumber} (mapped : directory.route page = some (frame, false)) :
    directory.recordAccess page true = (none, directory) := by
  obtain ⟨entry, found, leads⟩ := Option.map_eq_some_iff.mp mapped
  have readOnly : entry.flags.has .writable = false := congrArg Prod.snd leads
  simp [recordAccess, found, readOnly]

theorem recordAccess_route (directory : PageDirectory arch) (page other : PageNumber)
    (write : Bool) : (directory.recordAccess page write).2.route other = directory.route other := by
  unfold recordAccess
  cases found : directory.entries[page]? with
  | none => rfl
  | some entry =>
      dsimp only
      split
      · rfl
      · by_cases same : other = page
        · subst same
          cases write <;> simp [route, found, PackedEntry.setFlags_frame, PageFlags.set_has]
        · simp [route, Std.ExtTreeMap.getElem?_insert, Ne.symm same]

theorem recordAccess_of_allowed {directory : PageDirectory arch} {page : PageNumber}
    {frame : FrameNumber} {writable write : Bool}
    (mapped : directory.route page = some (some frame, writable))
    (allowed : write = true → writable = true) :
    (directory.recordAccess page write).1 = some frame ∧
      (∀ other, (directory.recordAccess page write).2.route other = directory.route other) ∧
      ∀ other, (directory.recordAccess page write).2.isDirty other =
        if other = page then write || directory.isDirty page else directory.isDirty other := by
  obtain ⟨entry, found, leads⟩ := Option.map_eq_some_iff.mp mapped
  have hframe : entry.frame = some frame := congrArg Prod.fst leads
  have hwritable : entry.flags.has .writable = writable := congrArg Prod.snd leads
  have permitted : ¬(write && !entry.flags.has .writable) = true := by
    rw [hwritable]
    cases write <;> simp_all
  rw [and_left_comm]
  refine ⟨fun other => recordAccess_route directory page other write, ?_⟩
  unfold recordAccess
  rw [found]
  simp only [if_neg permitted]
  refine ⟨?_, ?_⟩
  · rw [← hframe]
    apply PackedEntry.setFlags_frame
    cases write <;> simp [PageFlags.set_has]
  · intro other
    by_cases same : other = page
    · subst same
      cases write <;> simp [isDirty, has, found, PageFlags.set_has]
    · simp [isDirty, has, Std.ExtTreeMap.getElem?_insert, Ne.symm same, same]

end PageDirectory
end DemandPaging
