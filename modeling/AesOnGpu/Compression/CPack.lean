import AesOnGpu.Compression.Buffer

/-! # C-Pack size accounting

Model of `c-pack.c` and of `CPack` in `compression.cpp`.  The directory comes
from `new` uninitialised, so an entry is an `Option`: `none` until it is
written during the call.  Reading such an entry, or an entry outside the array,
is undefined in the source and gives `none` here.  The entry count `numEntries`
is a file-level variable: `initialize_dic` runs with the value left by the
previous call, and only then is it set to the number of words of this line.

The `type` counters and the messages printed are left out; no size depends on
them.
-/

namespace AesOnGpu.Compression

/-- `m_entry` of an entry that is not valid is never read. -/
structure DirectoryEntry where
  m_valid : Bool
  m_entry : BitVec 32
  m_cnt : Int
  deriving DecidableEq

/-- The array of directory entries; `none` is an entry not yet written. -/
abbrev Directory := List (Option DirectoryEntry)

/-- The state an entry is put in by `initialize_dic`. -/
def DirectoryEntry.cleared : DirectoryEntry := ⟨false, 0, 0⟩

/-- The common loop of the match functions: the first valid entry that passes
    the test ends the search. -/
def matchDic (test : BitVec 32 → Bool) : Directory → Nat → Option Bool
  | _, 0 => some false
  | [], _ + 1 => none
  | none :: _, _ + 1 => none
  | some entry :: directory, numEntries + 1 =>
    if entry.m_valid && test entry.m_entry then some true else matchDic test directory numEntries

def matchDicMmmm (directory : Directory) (numEntries : Nat) (w : BitVec 32) : Option Bool :=
  matchDic (fun entry => entry == w) directory numEntries

def matchDicMmmx (directory : Directory) (numEntries : Nat) (w : BitVec 32) : Option Bool :=
  matchDic (fun entry => entry &&& 0xFFFFFF00#32 == w &&& 0xFFFFFF00#32) directory numEntries

def matchDicMmxx (directory : Directory) (numEntries : Nat) (w : BitVec 32) : Option Bool :=
  matchDic (fun entry => entry &&& 0xFFFF0000#32 == w &&& 0xFFFF0000#32) directory numEntries

/-- The first `numEntries` entries, all of which the counting loop of
    `insert_dic` reads. -/
def readEntries (directory : Directory) (numEntries : Nat) : Option (List DirectoryEntry) :=
  if directory.length < numEntries then none else (directory.take numEntries).mapM id

/-- The replacement branch of `insert_dic`: every entry with counter zero is
    overwritten, then all counters go down by one. -/
def replaceOldest (w : BitVec 32) (count : Nat) (entry : DirectoryEntry) : DirectoryEntry :=
  let entry := if entry.m_cnt = 0 then ⟨true, w, count⟩ else entry
  { entry with m_cnt := entry.m_cnt - 1 }

def insertDic (directory : Directory) (numEntries : Nat) (w : BitVec 32) : Option Directory := do
  let entries ← readEntries directory numEntries
  let count := entries.countP (·.m_valid)
  match entries.findIdx? (fun entry => !entry.m_valid) with
  | some i => return directory.set i (some ⟨true, w, count⟩)
  | none => return entries.map (fun entry => some (replaceOldest w count entry))
      ++ directory.drop numEntries

def initializeDic (directory : Directory) (numEntries : Nat) : Option Directory :=
  if directory.length < numEntries then none
  else some (List.replicate numEntries (some .cleared) ++ directory.drop numEntries)

def encodeWord (numEntries : Nat) (directory : Directory) (word : BitVec 64) :
    Option (Nat × Directory) := do
  if word == 0 then return (2, directory)
  if word &&& 0xFFFFFF00#64 == 0 then return (12, directory)
  let w := word.setWidth 32
  if ← matchDicMmmm directory numEntries w then return (6, directory)
  if ← matchDicMmmx directory numEntries w then return (16, directory)
  if ← matchDicMmxx directory numEntries w then return (24, directory)
  return (34, ← insertDic directory numEntries w)

/-- The loop over the words, with the bits summed up so far. -/
def encodeWords (numEntries : Nat) (start : Nat × Directory) (words : List (BitVec 64)) :
    Option (Nat × Directory) :=
  words.foldlM (fun state word => do
    let (bits, directory) ← encodeWord numEntries state.2 word
    return (state.1 + bits, directory)) start

/-- The size in bits, and whether the line is the zero block.  `numEntries` is
    the number of words by now. -/
def calculateCompressedSizeCPack (directory : Directory) (words : List (BitVec 64)) :
    Option (Nat × Bool) := do
  if words.all (· == 0) then return (0, true)
  let (lineBits, _) ← encodeWords words.length (0, directory) words
  return (if lineBits > words.length * 4 * 8 then words.length * 4 * 8 else lineBits, false)

/-- What one `CPack` call returns, and the entry count it leaves behind. -/
structure CPackCall where
  size : Option Nat
  numEntries : Nat

def cPackWords (buffer : List (BitVec 8)) : List (BitVec 64) :=
  convertBuffer2Array buffer buffer.length 4

def CPack (numEntries : Nat) (buffer : List (BitVec 8)) : CPackCall where
  size := do
    let directory ← initializeDic (List.replicate (buffer.length / 4 * 8) none) numEntries
    let (compSize, zeroBlock) ← calculateCompressedSizeCPack directory (cPackWords buffer)
    return if zeroBlock then 1 else (compSize + 7) / 8
  numEntries := buffer.length / 4

/-- The value `numEntries` is initialised with. -/
def initialNumEntries : Nat := 32

def numEntriesAfter (history : List (List (BitVec 8))) : Nat :=
  history.foldl (fun numEntries buffer => (CPack numEntries buffer).numEntries) initialNumEntries

theorem numEntriesAfter_eq (history : List (List (BitVec 8))) :
    numEntriesAfter history =
      (history.getLast?.map fun buffer => buffer.length / 4).getD initialNumEntries := by
  induction history using List.reverseRecOn with
  | nil => rfl
  | append_singleton history buffer _ => simp [numEntriesAfter, CPack]

end AesOnGpu.Compression
