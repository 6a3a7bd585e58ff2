import DemandPaging.Contents

/-!
Files that memory can be mapped to, and the store that holds them. A file has a fixed
length and transfers stop at its end. Mappings reach it through a channel that may move
fewer bytes at a time than it is asked to, as files behind a device do.
-/

namespace DemandPaging

structure File where
  contents : Bytes := #[]
deriving DecidableEq, Repr

namespace File

def size (file : File) : Nat :=
  file.contents.size

def isEmpty (file : File) : Bool :=
  file.size == 0

/-- Up to `length` bytes from `offset` on. -/
def readAt (file : File) (offset length : Nat) : Bytes :=
  file.contents.extract offset (offset + length)

/-- Writes what fits of `source` at `offset`, and says how many bytes that is. -/
def writeAt (file : File) (offset : Nat) (source : Bytes) : Nat × File :=
  (min source.size (file.size - offset), ⟨file.contents.overwrite offset source⟩)

end File

/-- A file with the most bytes that one read and one write of it move. -/
structure FileChannel where
  file : File := {}
  readCap : Option Nat := none
  writeCap : Option Nat := none
deriving DecidableEq, Repr

namespace FileChannel

def capped (cap : Option Nat) (length : Nat) : Nat :=
  match cap with
  | none => length
  | some cap => min length cap

/-- Up to `length` bytes from `offset` on, as many as one read moves. -/
def readAt (channel : FileChannel) (offset length : Nat) : Bytes :=
  channel.file.readAt offset (capped channel.readCap length)

/-- Writes at `offset` what one write moves of `source`, and says how many bytes were
taken. -/
def writeAt (channel : FileChannel) (offset : Nat) (source : Bytes) : Nat × FileChannel :=
  let moved := source.extract 0 (capped channel.writeCap source.size)
  let (count, file) := channel.file.writeAt offset moved
  (count, { channel with file })

def replace (channel : FileChannel) (contents : Bytes) : FileChannel :=
  { channel with file := ⟨contents⟩ }

def setCaps (channel : FileChannel) (read write : Option Nat) : FileChannel :=
  { channel with readCap := read, writeCap := write }

end FileChannel

/-- The files that mappings refer to. -/
structure FileStore where
  channels : NumberMap .file FileChannel := ∅

namespace FileStore

/-- A file; one that is not there reads as empty. -/
def get (store : FileStore) (id : FileId) : FileChannel :=
  store.channels.getD id {}

def set (store : FileStore) (id : FileId) (channel : FileChannel) : FileStore :=
  ⟨store.channels.insert id channel⟩

def ofList (files : List File) : FileStore :=
  files.zipIdx.foldl (fun store (file, index) => store.set ⟨index⟩ { file }) {}

end FileStore
end DemandPaging
