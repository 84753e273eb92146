import AesOnGpu.Compression.Buffer

/-! # Base-delta-immediate size accounting

Model of the size functions of `compression.cpp` for base-delta-immediate
compression.  `exit(1)` on an unknown delta size is `none`.  Sizes are byte
counts of one line, far below `unsigned` overflow, and kept as `Nat`.

The base-collecting loop of `multBaseCompression` appends to the vector it
iterates over; `scanBases` keeps that order of events, and
`collectBases_eq` says which bases it ends with.
-/

namespace AesOnGpu.Compression

/-! ## The delta test -/

/-- The mask selected by the `switch` on the delta size. -/
def deltaLimit : Nat → Option (BitVec 64)
  | 1 => some 0xFF
  | 2 => some 0xFFFF
  | 4 => some 0xFFFFFFFF
  | _ => none

/-- `llabs` on two's complement values; the most negative value is its own image. -/
def llabs (x : BitVec 64) : BitVec 64 :=
  if x.slt 0 then -x else x

/-- `llabs((long long int)(base - value)) <= limit`, compared as unsigned. -/
def covers (limit base value : BitVec 64) : Bool :=
  (llabs (base - value)).ule limit

theorem covers_self (limit value : BitVec 64) : covers limit value value = true := by
  simp [covers, llabs, BitVec.ule]

/-! ## Collecting bases -/

/-- One inner loop over the vector of bases: `seen` is the part already passed,
    `todo` the part still ahead, and a far value is appended behind `todo`. -/
def scanBases (limit value : BitVec 64) (seen : List (BitVec 64)) :
    List (BitVec 64) → List (BitVec 64)
  | [] => seen
  | base :: todo =>
    scanBases limit value (seen ++ [base])
      (if covers limit base value then todo else todo ++ [value])
termination_by todo => todo.length + 2 * todo.countP (fun base => !covers limit base value)
decreasing_by
  all_goals
    simp only [List.length_cons, List.countP_cons]
    split <;> simp_all [List.countP_append, covers_self]
    try omega

/-- The outer loop, left as soon as `BASES` bases are there. -/
def collectBases (limit : BitVec 64) (BASES : Nat) :
    List (BitVec 64) → List (BitVec 64) → List (BitVec 64)
  | [], mbases => mbases
  | value :: values, mbases =>
    if BASES ≤ (scanBases limit value [] mbases).length then scanBases limit value [] mbases
    else collectBases limit BASES values (scanBases limit value [] mbases)

def compCount (limit : BitVec 64) (mbases values : List (BitVec 64)) : Nat :=
  values.countP fun value => mbases.any fun base => covers limit base value

def multBaseCompression (values : List (BitVec 64)) (blimit bsize : Nat) : Option Nat := do
  let limit ← deltaLimit blimit
  let first ← values[0]?
  let mbases := collectBases limit 2 values [first]
  let compCount := compCount limit mbases values
  return blimit * compCount + bsize * 2 + (values.length - compCount) * bsize

def singleBaseCompression (values : List (BitVec 64)) (blimit bsize : Nat) : Option Nat := do
  let limit ← deltaLimit blimit
  let first ← values[0]?
  let compCount := compCount limit [first] values
  if values.length ≠ compCount then return values.length * bsize
  return blimit * compCount + bsize * 1

def doubleExponentCompression (values : List (BitVec 64)) (blimit bsize : Nat) : Option Nat := do
  let limit ← match blimit with
    | 1 => some 56
    | 2 => some 48
    | _ => none
  let first ← values[0]?
  let compCount := values.countP fun value => first >>> limit == value >>> limit
  if compCount ≠ values.length then return values.length * bsize
  return values.length * bsize - (compCount - 1) * blimit

/-! ## The line compressors -/

def isZeroPackable (values : List (BitVec 64)) : Bool :=
  values.all (· == 0)

def isSameValuePackable (values : List (BitVec 64)) : Bool :=
  values.all (· == values.getD 0 0)

/-- The running variables of the `BDICompress` functions. -/
structure Sizes where
  bestCSize : Nat
  currCSize : Nat

/-- `bestCSize = bestCSize > currCSize ? currCSize : bestCSize`. -/
def Sizes.keep (s : Sizes) : Sizes :=
  { s with bestCSize := if s.bestCSize > s.currCSize then s.currCSize else s.bestCSize }

/-- The repeated-value test, which leaves `currCSize` as it is when it fails. -/
def Sizes.sameValue (values : List (BitVec 64)) (bsize : Nat) (s : Sizes) : Sizes :=
  (if isSameValuePackable values then { s with currCSize := bsize } else s).keep

/-- One candidate. -/
def Sizes.tryDelta (compression : List (BitVec 64) → Nat → Nat → Option Nat)
    (values : List (BitVec 64)) (bsize : Nat) (s : Sizes) (blimit : Nat) : Option Sizes := do
  let currCSize ← compression values blimit bsize
  return { s with currCSize := currCSize }.keep

/-- The delta sizes tried for elements of `bsize` bytes. -/
def Sizes.tryDeltas (compression : List (BitVec 64) → Nat → Nat → Option Nat)
    (values : List (BitVec 64)) (bsize : Nat) (blimits : List Nat) (s : Sizes) : Option Sizes :=
  blimits.foldlM (Sizes.tryDelta compression values bsize) s

/-- The elements narrower than 8 bytes; only those of 4 bytes have a repeated-value test. -/
def Sizes.tryNarrower (compression : List (BitVec 64) → Nat → Nat → Option Nat)
    (buffer : List (BitVec 8)) (s : Sizes) (pass : Nat × List Nat) : Option Sizes :=
  let values := convertBuffer2Array buffer buffer.length pass.1
  (if pass.1 = 4 then s.sameValue values 4 else s).tryDeltas compression values pass.1 pass.2

/-- The common body of the `BDICompress` variants: 8-byte elements with the zero
    and repeated-value tests, then the narrower elements of `narrower`, then the
    exponent passes. -/
def bdiCompressWith (compression : List (BitVec 64) → Nat → Nat → Option Nat)
    (narrower : List (Nat × List Nat)) (buffer : List (BitVec 8)) : Option Nat := do
  let size := buffer.length
  let values := convertBuffer2Array buffer size 8
  let s : Sizes := ⟨if isZeroPackable values then 1 else size, size⟩
  let s ← (s.sameValue values 8).tryDeltas compression values 8 [1, 2, 4]
  let s ← narrower.foldlM (Sizes.tryNarrower compression buffer) s
  let s ← s.tryDeltas doubleExponentCompression values 8 [2, 1]
  return s.bestCSize

def BDICompress (buffer : List (BitVec 8)) : Option Nat :=
  bdiCompressWith multBaseCompression [(4, [1, 2]), (2, [1])] buffer

def BDICompressSingle (buffer : List (BitVec 8)) : Option Nat :=
  bdiCompressWith singleBaseCompression [(4, [1, 2]), (2, [1])] buffer

def BDICompress4BOnly (buffer : List (BitVec 8)) : Option Nat :=
  bdiCompressWith multBaseCompression [(4, [1, 2])] buffer

def BDICompress8BOnly (buffer : List (BitVec 8)) : Option Nat :=
  bdiCompressWith multBaseCompression [] buffer

/-- The (element size, delta size) pairs that `BDICompress` and
    `BDICompressSingle` try. -/
def deltaPairs : List (Nat × Nat) :=
  [(8, 1), (8, 2), (8, 4), (4, 1), (4, 2), (2, 1)]

/-! ## What the base-collecting loop computes -/

theorem scanBases_eq (limit value : BitVec 64) (seen todo : List (BitVec 64)) :
    scanBases limit value seen todo =
      seen ++ todo ++
        List.replicate (todo.countP fun base => !covers limit base value) value := by
  induction seen, todo using scanBases.induct limit value with
  | case1 seen => simp [scanBases]
  | case2 seen base todo ih =>
    rw [scanBases]
    by_cases near : covers limit base value = true
    · rw [dif_pos near] at ih
      simp [near, ih]
    · rw [dif_neg near] at ih
      simp [near, ih, List.countP_append, covers_self, List.replicate_succ]

theorem collectBases_eq (limit first : BitVec 64) (values : List (BitVec 64)) :
    collectBases limit 2 values [first] =
      first :: (values.find? fun value => !covers limit first value).toList := by
  induction values with
  | nil => rfl
  | cons value values ih =>
    rw [collectBases, scanBases_eq]
    by_cases near : covers limit first value = true
    · simp [near, ih]
    · simp [near]

end AesOnGpu.Compression
