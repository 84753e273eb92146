import AesOnGpu.Lib.Packing
import AesOnGpu.MemAccess

/-! # Address decoding

`linear_to_raw_address_translation` of `gpgpu-sim/addrdec.h` and `addrdec.cc`.  A
linear address is split into the parts that name a place in DRAM, by masks that
come from a number or from a string in the configuration.  With a power of two of
channels the chip is a field of the address, otherwise (`gap`) a remainder.

`none` is a failed assertion or an operation that C++ leaves undefined: a shift by
a negative number or by the width and more, an overflow of an `int`, a division
by zero.
-/

namespace AesOnGpu.AddressDecoding

inductive Field where
  | CHIP
  | BK
  | ROW
  | COL
  | BURST
  deriving DecidableEq

/-- `addrdec_t`. -/
structure AddrDec where
  chip : BitVec 32
  bk : BitVec 32
  row : BitVec 32
  col : BitVec 32
  burst : BitVec 32
  sub_partition : BitVec 32
  deriving DecidableEq

/-- `linear_to_raw_address_translation`. -/
structure Translation where
  addrdec_option : Option (List Char)
  gpgpu_mem_address_mask : Int
  run_test : Bool
  ADDR_CHIP_S : Int
  addrdec_mklow : Field → Nat
  addrdec_mkhigh : Field → Nat
  addrdec_mask : Field → Address
  sub_partition_id_mask : Address
  gap : BitVec 32
  m_n_channel : BitVec 32
  m_n_sub_partition_in_channel : BitVec 32

/-- One of the five steps: is the logarithm at least `2 ^ k` more? -/
def logTurn (state : BitVec 32 × Nat) (step : BitVec 32 × Nat) : BitVec 32 × Nat :=
  if state.1 &&& step.1 ≠ 0 then (state.1 >>> (1 <<< step.2), state.2 ||| 1 <<< step.2) else state

def LOGB2_32 (v : BitVec 32) : Nat :=
  ([(0xFFFF0000, 4), (0xFF00, 3), (0xF0, 2), (0xC, 1), (0x2, 0)].foldl logTurn (v, 0)).2

def addrdec_packbits (mask val : Address) (high low : Nat) : Address :=
  ((List.range' low (high - low)).foldl
    (fun state i => if mask.getLsbD i then Packing.turn val state i else state) (0, 0)).1

/-- A turn of the loop of `addrdec_getmasklimit`; the state is `high`, `low` and
    `low_found`. -/
def limitTurn (mask : Address) (state : Nat × Nat × Bool) (i : Nat) : Nat × Nat × Bool :=
  if mask.getLsbD i then
    if state.2.2 then (i + 1, state.2.1, true) else (i + 1, i, true)
  else state

def addrdec_getmasklimit (mask : Address) : Nat × Nat × Bool :=
  (List.range 64).foldl (limitTurn mask) (64, 0, false)

/-! ## The mapping string -/

def isspace (c : Char) : Bool := c.isWhitespace || c.toNat == 11 || c.toNat == 12

/-- The number that `%d` reads; `none` if there is no digit. -/
def scanInt (text : List Char) : Option Int :=
  match text.dropWhile isspace with
  | '-' :: rest => (digits rest).map fun n => -(n : Int)
  | '+' :: rest => (digits rest).map Int.ofNat
  | rest => (digits rest).map Int.ofNat
where
  digits (text : List Char) : Option Nat :=
    match text.takeWhile Char.isDigit with
    | [] => none
    | ds => some (ds.foldl (fun n d => 10 * n + (d.toNat - 48)) 0)

/-- `sscanf(option, "dramid@%d", &dramid_start)`. -/
def scanDramid (option : List Char) : Option Int :=
  match "dramid@".toList.isPrefixOf? option with
  | some rest => scanInt rest
  | none => none

/-- What comes after the first `;`, or everything. -/
def cmapping (option : List Char) : List Char :=
  match option.dropWhile (· ≠ ';') with
  | [] => option
  | _ :: rest => rest

abbrev Masks := Field → Address

/-- One character of the mapping; bit `ofs` goes to the fields that it names. -/
def mappingTurn (dramid_parsed : Bool) (state : Masks × Int) (c : Char) : Option (Masks × Int) :=
  match c with
  | 'D' | 'd' => if dramid_parsed then none else select [.CHIP]
  | 'B' | 'b' => select [.BK]
  | 'R' | 'r' => select [.ROW]
  | 'C' | 'c' => select [.COL]
  | 'S' | 's' => select [.BURST, .COL]
  | '0' => some (state.1, state.2 - 1)
  | _ => some state -- separators, and characters that only print an error
where
  select (fields : List Field) : Option (Masks × Int) :=
    if 0 ≤ state.2 then
      some (fun field => if field ∈ fields then state.1 field ||| 1#64 <<< state.2.toNat
        else state.1 field, state.2 - 1)
    else none

namespace Translation

def addrdec_parseoption (t : Translation) (option : List Char) : Option Translation := do
  let dramid := scanDramid option
  -- what `%d` stores for a number that is no `int` is undefined
  if dramid.any fun start => start < -2 ^ 31 ∨ 2 ^ 31 ≤ start then none
  else
    let (addrdec_mask, ofs) ← (cmapping option).foldlM (mappingTurn dramid.isSome) (fun _ => 0, 63)
    if ofs = -1 then some { t with ADDR_CHIP_S := dramid.getD (-1), addrdec_mask } else none

/-! ## Initialization -/

def construct (addrdec_option : Option (List Char)) (gpgpu_mem_address_mask : Int)
    (run_test : Bool) : Translation where
  addrdec_option
  gpgpu_mem_address_mask
  run_test
  ADDR_CHIP_S := 10
  addrdec_mklow _ := 0
  addrdec_mkhigh _ := 64
  addrdec_mask
    | .CHIP => 0x1C00
    | .BK => 0x300
    | .ROW => 0xFFF0000
    | .COL => 0xE0FF
    | .BURST => 0xF
  sub_partition_id_mask := 0
  gap := 0
  m_n_channel := 0
  m_n_sub_partition_in_channel := 0

/-- The mapping string, if there is one, replaces the masks. -/
def readMapping (t : Translation) : Option Translation :=
  match t.addrdec_option with
  | some option => t.addrdec_parseoption option
  | none => some t

def selectMasks (t : Translation) : Translation :=
  match t.gpgpu_mem_address_mask with
  | 0 => known 10 0x300 0x7FFE000 0x1CFF
  | 1 => known 13 0x1800 0x7FFE000 0x7FF
  | 2 => known 11 0x1800 0x7FFE000 0x7FF
  | 3 => known 11 0x1800 0xFFFE000 0x7FF
  | 14 => known 14 0x1800 0x7FFE000 0x7FF
  | 15 => known 15 0x1800 0x7FFE000 0x7FF
  | 16 => known 16 0x1800 0x7FFE000 0x7FF
  | 6 => known 6 0x1800 0x7FFE000 0x7FF
  | 5 => known 5 0x1800 0x7FFE000 0x7FF
  | 100 => known 1 0x3 0x7FFE000 0x1FFC
  | 103 => known 3 0x3 0x7FFE000 0x1FFC
  | 106 => known 6 0x1800 0x7FFE000 0x7FF
  | 160 => known 6 0x300 0x7FFE000 0x1CFF
  | _ => t
where
  known (ADDR_CHIP_S : Int) (bk row col : Address) : Translation :=
    { t with
      ADDR_CHIP_S
      addrdec_mask := fun
        | .CHIP => 0
        | .BK => bk
        | .ROW => row
        | .COL => col
        | .BURST => t.addrdec_mask .BURST }

/-- Make room for the chip bits at `ADDR_CHIP_S` when their number is exact. -/
def insertChip (t : Translation) (nchipbits : Nat) : Option Translation :=
  if t.ADDR_CHIP_S ≠ -1 then
    if t.gap = 0 then
      if 0 ≤ t.ADDR_CHIP_S ∧ t.ADDR_CHIP_S < 64 ∧ t.ADDR_CHIP_S + nchipbits ≤ 64 then
        let start := t.ADDR_CHIP_S.toNat
        let mask : Address := 1#64 <<< start - 1
        let shifted (field : Field) :=
          (t.addrdec_mask field &&& ~~~mask) <<< nchipbits ||| t.addrdec_mask field &&& mask
        some { t with
          addrdec_mask := fun
            | .CHIP => (List.range' start nchipbits).foldl (fun chip i => chip ||| 1#64 <<< i)
                (t.addrdec_mask .CHIP)
            | .BURST => t.addrdec_mask .BURST
            | field => shifted field }
      else none
    else some t
  else if t.m_n_channel &&& (t.m_n_channel - 1) = 0 then some t
  else none

/-- The bits of the mask that are gone through, until `n` are found. -/
def idMask (mask : Address) (n : Nat) : List Nat → Address → Nat → Address
  | [], id, _ => id
  | i :: is, id, pos =>
    if mask.getLsbD i then
      if n ≤ pos + 1 then id ||| 1#64 <<< i else idMask mask n is (id ||| 1#64 <<< i) (pos + 1)
    else idMask mask n is id pos

def setLimits (t : Translation) : Translation :=
  { t with
    addrdec_mkhigh := fun field => (addrdec_getmasklimit (t.addrdec_mask field)).1
    addrdec_mklow := fun field => (addrdec_getmasklimit (t.addrdec_mask field)).2.1 }

def setIdMask (t : Translation) : Translation :=
  { t with
    sub_partition_id_mask :=
      if 1 < t.m_n_sub_partition_in_channel.toInt then
        idMask (t.addrdec_mask .BK) (LOGB2_32 t.m_n_sub_partition_in_channel)
          (List.range' (t.addrdec_mklow .BK) (t.addrdec_mkhigh .BK - t.addrdec_mklow .BK)) 0 0
      else 0 }

/-! ## Decoding -/

/-- The remainder and the rest of an address, split at `ADDR_CHIP_S`.  The mask of
    the lower part is made from an `int`. -/
def splitChip (t : Translation) (addr : Address) : Option (Address × Address) :=
  if 0 ≤ t.ADDR_CHIP_S ∧ t.ADDR_CHIP_S < 31 ∧ t.m_n_channel ≠ 0 then
    let start := t.ADDR_CHIP_S.toNat
    let n_channel := t.m_n_channel.signExtend 64
    some ((addr >>> start) % n_channel,
      ((addr >>> start) / n_channel) <<< start ||| addr &&& (1#64 <<< start - 1))
  else none

def partition_address (t : Translation) (addr : Address) : Option Address :=
  if t.gap = 0 then
    some (addrdec_packbits (~~~(t.addrdec_mask .CHIP ||| t.sub_partition_id_mask)) addr 64 0)
  else do
    let (_, partition_addr) ← t.splitChip addr
    return addrdec_packbits (~~~t.sub_partition_id_mask) partition_addr 64 0

/-- A field, cut to an `unsigned`. -/
def unpack (t : Translation) (field : Field) (addr : Address) : BitVec 32 :=
  (addrdec_packbits (t.addrdec_mask field) addr (t.addrdec_mkhigh field)
    (t.addrdec_mklow field)).setWidth 32

def chipAndRest (t : Translation) (addr : Address) : Option (BitVec 32 × Address) :=
  if t.gap = 0 then some (t.unpack .CHIP addr, addr)
  else (t.splitChip addr).map fun (addr_for_chip, rest_of_addr) =>
    (addr_for_chip.setWidth 32, rest_of_addr)

def addrdec_tlx (t : Translation) (addr : Address) : Option AddrDec := do
  let (chip, rest_of_addr) ← t.chipAndRest addr
  let bk := t.unpack .BK rest_of_addr
  let sub_partition_addr_mask := t.m_n_sub_partition_in_channel - 1
  return {
    chip
    bk
    row := t.unpack .ROW rest_of_addr
    col := t.unpack .COL rest_of_addr
    burst := t.unpack .BURST rest_of_addr
    sub_partition := chip * t.m_n_sub_partition_in_channel + (bk &&& sub_partition_addr_mask) }

/-! ## The sweep test -/

def sweepBound (t : Translation) : Option Address :=
  if t.ADDR_CHIP_S = -1 then some (1#64 <<< t.addrdec_mklow .CHIP)
  else if 0 ≤ t.ADDR_CHIP_S ∧ t.ADDR_CHIP_S < 64 then some (1#64 <<< t.ADDR_CHIP_S.toNat)
  else none

/-- Decode one more address, which must not be decoded as an earlier one. -/
def sweepTurn (t : Translation) (history : List AddrDec) (raw_addr : Address) :
    Option (List AddrDec) := do
  let tlx ← t.addrdec_tlx raw_addr
  let bound ← t.sweepBound
  let partition_addr ← t.partition_address raw_addr
  if tlx ∉ history ∧ tlx.chip.toInt < t.m_n_channel.toInt ∧
      (bound ≤ raw_addr → raw_addr ≠ partition_addr) then
    some (tlx :: history)
  else none

def sweep_test (t : Translation) : Option (List AddrDec) :=
  ((List.range' 1 (4 * 1024 * 1024 - 1)).map fun i => BitVec.ofNat 64 (4 * i)).foldlM t.sweepTurn []

def init (t : Translation) (n_channel n_sub_partition_in_channel : BitVec 32) :
    Option Translation := do
  let nchipbits := LOGB2_32 n_channel
  let gap := n_channel - BitVec.ofNat 32 (2 ^ nchipbits)
  let t := selectMasks { t with
    m_n_channel := n_channel
    m_n_sub_partition_in_channel := n_sub_partition_in_channel
    gap }
  let t ← t.readMapping
  let t ← t.insertChip (if gap = 0 then nchipbits else nchipbits + 1)
  -- the smallest `int` has no predecessor
  if n_sub_partition_in_channel ≠ BitVec.intMin 32 ∧
      n_sub_partition_in_channel &&& (n_sub_partition_in_channel - 1) = 0 then
    let t := t.setLimits.setIdMask
    if t.run_test then t.sweep_test.map fun _ => t else some t
  else none

end Translation

end AesOnGpu.AddressDecoding
