import DemandPaging.Address.Arithmetic
import DemandPaging.Translation.Entry

/-!
The hardware translations of one address space. The pager maps and unmaps pages; the
processor only sets the accessed and dirty bits of a page that is used.
-/

namespace DemandPaging

structure PageDirectory (arch : Architecture) where
  entries : NumberMap .page (PackedEntry arch) := ∅

namespace PageDirectory

variable {arch : Architecture}

/-- Maps a page to a frame, with clear accessed and dirty bits. -/
def map (directory : PageDirectory arch) (page : PageNumber) (frame : FrameNumber)
    (writable : Bool) : Checked (PageDirectory arch) := do
  let entry := PackedEntry.pack (← frame.frameStart arch) (PageFlags.userPage writable)
  require (page ∉ directory.entries) (.alreadyMapped page)
  return ⟨directory.entries.insert page entry⟩

/-- Removes the translation of a page; the answer is the frame it led to. -/
def unmap (directory : PageDirectory arch) (page : PageNumber) :
    Option FrameNumber × PageDirectory arch :=
  (directory.entries[page]?.bind PackedEntry.frame, ⟨directory.entries.erase page⟩)

def translate (directory : PageDirectory arch) (page : PageNumber) :
    Option (FrameNumber × PageFlags) := do
  let entry ← directory.entries[page]?
  return (← entry.frame, entry.flags)

def isMapped (directory : PageDirectory arch) (page : PageNumber) : Bool :=
  directory.entries.contains page

def has (directory : PageDirectory arch) (page : PageNumber) (flag : PageFlags.Flag) :
    Bool :=
  directory.entries[page]?.any fun entry => entry.flags.has flag

def isAccessed (directory : PageDirectory arch) (page : PageNumber) : Bool :=
  directory.has page .accessed

def isDirty (directory : PageDirectory arch) (page : PageNumber) : Bool :=
  directory.has page .dirty

def modifyFlags (directory : PageDirectory arch) (page : PageNumber)
    (change : PageFlags → PageFlags) : PageDirectory arch :=
  ⟨directory.entries.modify page fun entry => entry.setFlags (change entry.flags)⟩

def setAccessed (directory : PageDirectory arch) (page : PageNumber) (value : Bool) :
    PageDirectory arch :=
  directory.modifyFlags page fun flags => flags.set .accessed value

def setDirty (directory : PageDirectory arch) (page : PageNumber) (value : Bool) :
    PageDirectory arch :=
  directory.modifyFlags page fun flags => flags.set .dirty value

/-- Reads and clears the accessed bit, which is clear for a page not mapped. -/
def testAndClearAccessed (directory : PageDirectory arch) (page : PageNumber) :
    Bool × PageDirectory arch :=
  if directory.isAccessed page then
    (true, directory.setAccessed page false)
  else
    (false, directory)

/-- What the processor does on a user's access: it sets the accessed bit, and the
dirty bit on a write, and uses the frame. There is none if the page is not mapped or
must not be written. -/
def recordAccess (directory : PageDirectory arch) (page : PageNumber) (write : Bool) :
    Option FrameNumber × PageDirectory arch :=
  match directory.entries[page]? with
  | none => (none, directory)
  | some entry =>
    if write && !entry.flags.has .writable then
      (none, directory)
    else
      let accessed := entry.flags.set .accessed true
      let entry := entry.setFlags (if write then accessed.set .dirty true else accessed)
      (entry.frame, ⟨directory.entries.insert page entry⟩)

def size (directory : PageDirectory arch) : Nat :=
  directory.entries.size

def isEmpty (directory : PageDirectory arch) : Bool :=
  directory.entries.isEmpty

end PageDirectory
end DemandPaging
