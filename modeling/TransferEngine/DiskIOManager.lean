import TransferEngine.Torrent

/-!
# Pieces on disk

`DiskIOManager` of `disk_io.hpp`: a piece is a range of the concatenation of all files, and
is written and read file by file, to and from the part of the range that each file holds.
Before that the files are created with their sizes.

A disk is a partial function from files to contents, and a file may have several paths: `a` and
`./a` are one, and so are the ends of a link. Which file a path leads to is up to the file system
(`TransferEngine.OutputDir.resolve`).

What the operating system answers when a file is opened, written, read or created is an argument,
`io`. A write that throws may have written some of its bytes. One that returns need not have
written all of them: `write_piece` tests its stream before what is in the buffer of the stream
goes to the file, and that happens in the destructor, which tells nobody when it fails.
`TransferEngine.DiskIOManager.writePiece` answers with the exception it throws, if any, and the
disk as it is then; `TransferEngine.DiskIOManager.writeOutcome` tells the three cases apart.
-/

namespace TransferEngine

/-- What the file system knows a file by, whatever paths lead to it. -/
abbrev FileId := List UInt8

/-- The contents of the files. -/
abbrev Disk := FileId → Option (List UInt8)

/-- **The output directory.** -/
structure OutputDir where
  /-- `base_path_`. -/
  basePath : List UInt8
  /-- The file that a path leads to. -/
  resolve : List UInt8 → FileId

/-- An output directory where there are no links. Of a path without `..` only the names count:
several separators are one, and `.` stays where it is. -/
def OutputDir.plain (basePath : List UInt8) : OutputDir where
  basePath := basePath
  resolve := fun path =>
    (if path.head? = some 0x2f then [0x2f] else []) ++
      [0x2f].intercalate ((path.splitOn 0x2f).filter fun w => w ≠ [] ∧ w ≠ [0x2e])

/-- What becomes of opening a file and writing to it. -/
inductive IoOutcome
  | good
  | openFails
  /-- The stream is not good after the write, and only so many bytes are in the file. -/
  | writeFails (landed : ℕ)
  /-- The stream is good after the write, but the last `missing + 1` bytes of the write do not get
  from its buffer to the file. -/
  | lost (missing : ℕ)
  deriving DecidableEq, Repr

/-- What becomes of writing a piece. -/
inductive WriteOutcome
  /-- The write returned, and every byte is in its file. -/
  | landed
  /-- The write returned, but bytes of it are not in their file. -/
  | lost
  /-- The write threw. -/
  | threw
  deriving DecidableEq, Repr

/-- What becomes of opening a file and reading from it. -/
inductive ReadOutcome
  | good
  | openFails
  | readFails
  deriving DecidableEq, Repr

/-- What becomes of creating a file in its directory and setting its size. -/
inductive AllocOutcome
  | good
  | directoryFails
  | openFails
  | resizeFails
  deriving DecidableEq, Repr

/-- The exceptions of `DiskIOManager`. -/
inductive DiskError
  | outOfRange
  | openFailed (path : List UInt8)
  | writeFailed (path : List UInt8)
  | readOpenFailed (path : List UInt8)
  | readFailed (path : List UInt8)
  | createFailed (path : List UInt8)
  /-- An exception of `std::filesystem`. -/
  | filesystemError (path : List UInt8)
  /-- A buffer of a negative size. -/
  | lengthError
  deriving DecidableEq, Repr

/-- The text of an exception, where it is one of the source. -/
def DiskError.what : DiskError → List UInt8
  | .outOfRange => "DiskIOManager: piece index out of bounds".toUTF8.toList
  | .openFailed path => "DiskIOManager: failed to open file for writing: ".toUTF8.toList ++ path
  | .writeFailed path => "DiskIOManager: failed writing to file: ".toUTF8.toList ++ path
  | .readOpenFailed path => "DiskIOManager: failed to open file for reading: ".toUTF8.toList ++ path
  | .readFailed path => "DiskIOManager: failed reading from file: ".toUTF8.toList ++ path
  | .createFailed path =>
    "DiskIOManager: failed to open/create file for pre-allocation: ".toUTF8.toList ++ path
  | .filesystemError _ => []
  | .lengthError => []

namespace DiskIOManager

/-- `base / rel` of `std::filesystem`: an absolute path stands alone, and a separator is
put between the two where there is none. -/
def getFullPath (base rel : List UInt8) : List UInt8 :=
  if rel.head? = some 0x2f then rel
  else if base = [] ∨ base.getLast? = some 0x2f then base ++ rel
  else base ++ 0x2f :: rel

/-- The file that a path of the torrent leads to. -/
def fileAt (dir : OutputDir) (path : List UInt8) : FileId :=
  dir.resolve (getFullPath dir.basePath path)

/-- Contents after writing `w` at an offset; a gap before it reads as zeros. -/
def writeAt (contents : List UInt8) (off : ℕ) (w : List UInt8) : List UInt8 :=
  contents.take off ++ List.replicate (off - contents.length) 0 ++ w ++
    contents.drop (off + w.length)

/-- The body of the loop of `write_piece`: the part of the data that one file holds. -/
def writeFile (io : FileInfo → IoOutcome) (dir : OutputDir) (globalOffset : ℤ)
    (data : List UInt8) (file : FileInfo) (disk : Disk) : Option DiskError × Disk :=
  let bytesToWrite : ℤ := data.length
  let fileStart := file.offset
  let fileEnd := file.offset + file.length
  if globalOffset + bytesToWrite ≤ fileStart ∨ fileEnd ≤ globalOffset then (none, disk)
  else
    let overlapStart := max globalOffset fileStart
    let overlapEnd := min (globalOffset + bytesToWrite) fileEnd
    let overlapLen := (overlapEnd - overlapStart).toNat
    let offsetInFile := (overlapStart - fileStart).toNat
    let offsetInData := (overlapStart - globalOffset).toNat
    let fullPath := getFullPath dir.basePath file.path
    let window := (data.drop offsetInData).take overlapLen
    match disk (fileAt dir file.path), io file with
    | none, _ => (some (.openFailed fullPath), disk)
    | some _, .openFails => (some (.openFailed fullPath), disk)
    | some contents, .writeFails landed =>
      (some (.writeFailed fullPath), Function.update disk (fileAt dir file.path)
        (some (writeAt contents offsetInFile (window.take landed))))
    | some contents, .lost missing =>
      (none, Function.update disk (fileAt dir file.path)
        (some (writeAt contents offsetInFile (window.take (window.length - (missing + 1))))))
    | some contents, .good =>
      (none, Function.update disk (fileAt dir file.path)
        (some (writeAt contents offsetInFile window)))

/-- The loop of `write_piece`; an exception ends it. -/
def writeFiles (io : FileInfo → IoOutcome) (dir : OutputDir) (globalOffset : ℤ)
    (data : List UInt8) : List FileInfo → Disk → Option DiskError × Disk
  | [], disk => (none, disk)
  | file :: files, disk =>
    match writeFile io dir globalOffset data file disk with
    | (some e, disk) => (some e, disk)
    | (none, disk) => writeFiles io dir globalOffset data files disk

/-- **Write a piece** to the files it lies in. -/
def writePiece (T : Torrent) (io : FileInfo → IoOutcome) (dir : OutputDir) (pieceIdx : ℕ)
    (data : List UInt8) (disk : Disk) : Option DiskError × Disk :=
  if T.count ≤ pieceIdx then (some .outOfRange, disk)
  else writeFiles io dir (pieceIdx * T.pieceLength) data T.files disk

/-- Whether a file has no byte of a range. It is passed over by either loop, or opened for nothing,
if it is empty and lies within the range. -/
def Misses (globalOffset bytes : ℤ) (file : FileInfo) : Prop :=
  min (globalOffset + bytes) (file.offset + file.length) ≤ max globalOffset file.offset

instance (g n : ℤ) : DecidablePred (Misses g n) := fun _ => inferInstanceAs (Decidable (_ ≤ _))

/-- **What becomes of writing a piece.** -/
def writeOutcome (T : Torrent) (io : FileInfo → IoOutcome) (dir : OutputDir) (pieceIdx : ℕ)
    (data : List UInt8) (disk : Disk) : WriteOutcome :=
  if (writePiece T io dir pieceIdx data disk).1 ≠ none then .threw
  else if ∀ f ∈ T.files, Misses (pieceIdx * T.pieceLength) data.length f ∨ io f = .good then
    .landed
  else .lost

/-! ### Reading -/

/-- The body of the loop of `read_piece`: the part of the piece that one file holds. Where
the file ends early, less is read. -/
def readFile (io : FileInfo → ReadOutcome) (dir : OutputDir) (globalOffset bytesToRead : ℤ)
    (disk : Disk) (file : FileInfo) (data : List UInt8) : Except DiskError (List UInt8) :=
  let fileStart := file.offset
  let fileEnd := file.offset + file.length
  if globalOffset + bytesToRead ≤ fileStart ∨ fileEnd ≤ globalOffset then .ok data
  else
    let overlapStart := max globalOffset fileStart
    let overlapEnd := min (globalOffset + bytesToRead) fileEnd
    let overlapLen := (overlapEnd - overlapStart).toNat
    let offsetInFile := (overlapStart - fileStart).toNat
    let offsetInData := (overlapStart - globalOffset).toNat
    let fullPath := getFullPath dir.basePath file.path
    match disk (fileAt dir file.path), io file with
    | none, _ => .error (.readOpenFailed fullPath)
    | some _, .openFails => .error (.readOpenFailed fullPath)
    | some _, .readFails => .error (.readFailed fullPath)
    | some contents, .good =>
      .ok (writeAt data offsetInData ((contents.drop offsetInFile).take overlapLen))

/-- The loop of `read_piece`. -/
def readFiles (io : FileInfo → ReadOutcome) (dir : OutputDir) (globalOffset bytesToRead : ℤ)
    (disk : Disk) : List FileInfo → List UInt8 → Except DiskError (List UInt8)
  | [], data => .ok data
  | file :: files, data => do
    let data ← readFile io dir globalOffset bytesToRead disk file data
    readFiles io dir globalOffset bytesToRead disk files data

/-- The size of a piece: the common one, or what is left for the last piece. -/
def pieceSize (T : Torrent) (pieceIdx : ℕ) : ℤ :=
  if pieceIdx = (T.numPieces - 1).toNat then T.totalLength - (T.numPieces - 1) * T.pieceLength
  else T.pieceLength

/-- **Read a piece** from the files it lies in. -/
def readPiece (T : Torrent) (io : FileInfo → ReadOutcome) (dir : OutputDir) (pieceIdx : ℕ)
    (disk : Disk) : Except DiskError (List UInt8) :=
  if T.count ≤ pieceIdx then .error .outOfRange
  else if pieceSize T pieceIdx < 0 then .error .lengthError
  else
    readFiles io dir (pieceIdx * T.pieceLength) (pieceSize T pieceIdx) disk T.files
      (List.replicate (pieceSize T pieceIdx).toNat 0)

/-- **Check a piece on disk**: whether it can be read and has its digest. Every exception
of the reading is caught. -/
def verifyPiece (T : Torrent) (sha1 : List UInt8 → Digest) (io : FileInfo → ReadOutcome)
    (dir : OutputDir) (pieceIdx : ℕ) (disk : Disk) : Bool :=
  if T.count ≤ pieceIdx then false
  else
    match readPiece T io dir pieceIdx disk with
    | .error _ => false
    | .ok data => T.pieceHashes[pieceIdx]? == some (sha1 data)

/-! ### Allocating -/

/-- `std::filesystem::resize_file`: a longer file is cut, a shorter one filled with zeros. -/
def resize (contents : List UInt8) (n : ℕ) : List UInt8 :=
  contents.take n ++ List.replicate (n - contents.length) 0

/-- The body of the loop of `preallocate_files`. The file is created empty if it is not there;
a size that is negative is, as an unsigned one, more than there can be. -/
def allocFile (io : FileInfo → AllocOutcome) (dir : OutputDir) (file : FileInfo) (disk : Disk) :
    Option DiskError × Disk :=
  let fullPath := getFullPath dir.basePath file.path
  let contents := (disk (fileAt dir file.path)).getD []
  match io file with
  | .directoryFails => (some (.filesystemError fullPath), disk)
  | .openFails => (some (.createFailed fullPath), disk)
  | .resizeFails =>
    (some (.filesystemError fullPath), Function.update disk (fileAt dir file.path) (some contents))
  | .good =>
    if file.length < 0 then
      (some (.filesystemError fullPath),
        Function.update disk (fileAt dir file.path) (some contents))
    else
      (none, Function.update disk (fileAt dir file.path)
        (some (resize contents file.length.toNat)))

/-- **Create all files** with their sizes; an exception ends it. -/
def preallocateFiles (io : FileInfo → AllocOutcome) (dir : OutputDir) :
    List FileInfo → Disk → Option DiskError × Disk
  | [], disk => (none, disk)
  | file :: files, disk =>
    match allocFile io dir file disk with
    | (some e, disk) => (some e, disk)
    | (none, disk) => preallocateFiles io dir files disk

end DiskIOManager

end TransferEngine
