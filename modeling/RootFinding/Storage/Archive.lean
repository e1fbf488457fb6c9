import RootFinding.Nested
import RootFinding.Fault

namespace RootFinding.Archive

abbrev Bytes := List UInt8

def littleEndian (width n : Nat) : Bytes :=
  (List.range width).map fun k => UInt8.ofNat (n >>> (8 * k))

def crcBit (crc : UInt32) : UInt32 :=
  if crc &&& 1 = 1 then (crc >>> 1) ^^^ 0xEDB88320 else crc >>> 1

def crcByte (crc : UInt32) (b : UInt8) : UInt32 := Nat.repeat crcBit 8 (crc ^^^ b.toUInt32)

def crc (bytes : Bytes) : UInt32 := bytes.foldl crcByte 0xFFFFFFFF ^^^ 0xFFFFFFFF

def ascii (s : String) : Bytes := s.toList.map fun c => UInt8.ofNat c.toNat

def magic : Bytes := 0x93 :: ascii "NUMPY" ++ [1, 0]

/-- Describes an array of binary64 numbers; padded so that the numbers start at a multiple of 64. -/
def header (extents : List Nat) : Bytes :=
  let description := ascii ("\x7b'descr': '<f8', 'fortran_order': False, 'shape': " ++
    extentsText ", " extents ++ ", \x7d")
  let used := magic.length + 2 + description.length + 1
  let padded := description ++ List.replicate ((64 - used % 64) % 64) 0x20 ++ [0x0A]
  magic ++ littleEndian 2 padded.length ++ padded

def arrayFile (entries : Nested Float) : Bytes :=
  header entries.extents.shared ++
    entries.leaves.flatMap fun v => littleEndian 8 v.toBits.toNat

structure Stored where
  name : String
  bytes : Bytes

/-- What both headers of a file say about it: no compression, the first day there is, the check and
the sizes. -/
def Stored.particulars (s : Stored) : Bytes :=
  littleEndian 2 0 ++ littleEndian 2 0 ++ littleEndian 2 0x21 ++
    littleEndian 4 (crc s.bytes).toNat ++ littleEndian 4 s.bytes.length ++
    littleEndian 4 s.bytes.length ++ littleEndian 2 (ascii s.name).length ++ littleEndian 2 0

def Stored.entry (s : Stored) : Bytes :=
  littleEndian 4 0x04034B50 ++ littleEndian 2 20 ++ littleEndian 2 0 ++ s.particulars ++
    ascii s.name ++ s.bytes

def Stored.listed (s : Stored) (offset : Nat) : Bytes :=
  littleEndian 4 0x02014B50 ++ littleEndian 2 20 ++ littleEndian 2 20 ++ littleEndian 2 0 ++
    s.particulars ++ littleEndian 2 0 ++ littleEndian 2 0 ++ littleEndian 2 0 ++
    littleEndian 4 0 ++ littleEndian 4 offset ++ ascii s.name

/-- The files one after the other, and their entries for the directory at the end. -/
def lay : (offset : Nat) → List Stored → Bytes × Bytes
  | _, [] => ([], [])
  | offset, s :: rest =>
    let body := s.entry
    let (entries, listing) := lay (offset + body.length) rest
    (body ++ entries, s.listed offset ++ listing)

def container (files : List Stored) : Bytes :=
  let (entries, listing) := lay 0 files
  entries ++ listing ++ littleEndian 4 0x06054B50 ++ littleEndian 2 0 ++ littleEndian 2 0 ++
    littleEndian 2 files.length ++ littleEndian 2 files.length ++
    littleEndian 4 listing.length ++ littleEndian 4 entries.length ++ littleEndian 2 0

def encode (members : List (String × Nested Float)) : Bytes :=
  container (members.map fun (key, entries) => ⟨key ++ ".npy", arrayFile entries⟩)

end RootFinding.Archive
