import AesOnGpu.Aes.Tables

/-! # The victim's AES

`AES_set_encrypt_key`, which the host runs, and the kernel `cudaRunner` of
`collector.cu`.  `none` as a result is an access outside of an array or a table.
-/

namespace AesOnGpu.Aes

open Fips197 (Byte)

/-! ## Bytes in memory -/

/-- An array of `size` bytes. -/
structure Buffer where
  size : Nat
  bytes : Nat → Byte

namespace Buffer

def load (buffer : Buffer) (i : Nat) : Option Byte :=
  if i < buffer.size then some (buffer.bytes i) else none

def store (buffer : Buffer) (i : Nat) (b : Byte) : Option Buffer :=
  if i < buffer.size then some { buffer with bytes := Function.update buffer.bytes i b } else none

end Buffer

/-- `GETU32` of four bytes. -/
def packU32 (b0 b1 b2 b3 : Byte) : U32 :=
  (b0.setWidth 64 <<< 24) ^^^ (b1.setWidth 64 <<< 16) ^^^ (b2.setWidth 64 <<< 8) ^^^ b3.setWidth 64

def GETU32 (buffer : Buffer) (pt : Nat) : Option U32 := do
  let b0 ← buffer.load pt
  let b1 ← buffer.load (pt + 1)
  let b2 ← buffer.load (pt + 2)
  let b3 ← buffer.load (pt + 3)
  return packU32 b0 b1 b2 b3

def PUTU32 (buffer : Buffer) (ct : Nat) (st : U32) : Option Buffer := do
  let buffer ← buffer.store ct ((st >>> 24).setWidth 8)
  let buffer ← buffer.store (ct + 1) ((st >>> 16).setWidth 8)
  let buffer ← buffer.store (ct + 2) ((st >>> 8).setWidth 8)
  buffer.store (ct + 3) (st.setWidth 8)

/-! ## The key schedule -/

/-- `4 *(AES_MAXNR + 1)` words. -/
abbrev RdKey := Vector U32 60

structure AesKey where
  rd_key : RdKey
  rounds : Nat

def RdKey.put (rk : RdKey) (i : Nat) (word : U32) : Option RdKey :=
  if h : i < 60 then some (rk.set i word) else none

def lookup (table : List U32) (i : U32) : Option U32 := table[i.toNat]?

/-- `(Te4[i0] & 0xff000000) ^ ... ^ (Te4[i3] & 0x000000ff)` -/
def te4Bytes (i0 i1 i2 i3 : U32) : Option U32 := do
  let x0 ← lookup Te4_h i0
  let x1 ← lookup Te4_h i1
  let x2 ← lookup Te4_h i2
  let x3 ← lookup Te4_h i3
  return (x0 &&& 0xff000000) ^^^ (x1 &&& 0x00ff0000) ^^^ (x2 &&& 0x0000ff00) ^^^
    (x3 &&& 0x000000ff)

/-- `rk[target] = rk[a] ^ rk[b]` -/
def xorInto (rk : RdKey) (target a b : Nat) : Option RdKey := do
  let x ← rk[a]?
  let y ← rk[b]?
  rk.put target (x ^^^ y)

/-- `temp = rk[last]`, then `rk[target] = rk[a] ^ ... ^ rcon[i]` with the bytes of `temp`
    rotated. -/
def rotatedInto (rk : RdKey) (target a last i : Nat) : Option RdKey := do
  let temp ← rk[last]?
  let x ← rk[a]?
  let word ← te4Bytes ((temp >>> 16) &&& 0xff) ((temp >>> 8) &&& 0xff) (temp &&& 0xff)
    (temp >>> 24)
  rk.put target (x ^^^ word ^^^ (← rcon[i]?))

/-- As `rotatedInto`, but not rotated and without a round constant. -/
def substitutedInto (rk : RdKey) (target a last : Nat) : Option RdKey := do
  let temp ← rk[last]?
  let x ← rk[a]?
  let word ← te4Bytes (temp >>> 24) ((temp >>> 16) &&& 0xff) ((temp >>> 8) &&& 0xff)
    (temp &&& 0xff)
  rk.put target (x ^^^ word)

/-- The loop for 128 bits, which is at turn `i` and has advanced `rk` by `base` words.  It
    ends within `fuel` turns. -/
def expand128 (fuel i base : Nat) (rk : RdKey) : Option RdKey :=
  match fuel with
  | 0 => none
  | fuel + 1 => do
    let rk ← rotatedInto rk (base + 4) base (base + 3) i
    let rk ← xorInto rk (base + 5) (base + 1) (base + 4)
    let rk ← xorInto rk (base + 6) (base + 2) (base + 5)
    let rk ← xorInto rk (base + 7) (base + 3) (base + 6)
    if i + 1 = 10 then return rk
    expand128 fuel (i + 1) (base + 4) rk

def expand192 (fuel i base : Nat) (rk : RdKey) : Option RdKey :=
  match fuel with
  | 0 => none
  | fuel + 1 => do
    let rk ← rotatedInto rk (base + 6) base (base + 5) i
    let rk ← xorInto rk (base + 7) (base + 1) (base + 6)
    let rk ← xorInto rk (base + 8) (base + 2) (base + 7)
    let rk ← xorInto rk (base + 9) (base + 3) (base + 8)
    if i + 1 = 8 then return rk
    let rk ← xorInto rk (base + 10) (base + 4) (base + 9)
    let rk ← xorInto rk (base + 11) (base + 5) (base + 10)
    expand192 fuel (i + 1) (base + 6) rk

def expand256 (fuel i base : Nat) (rk : RdKey) : Option RdKey :=
  match fuel with
  | 0 => none
  | fuel + 1 => do
    let rk ← rotatedInto rk (base + 8) base (base + 7) i
    let rk ← xorInto rk (base + 9) (base + 1) (base + 8)
    let rk ← xorInto rk (base + 10) (base + 2) (base + 9)
    let rk ← xorInto rk (base + 11) (base + 3) (base + 10)
    if i + 1 = 7 then return rk
    let rk ← substitutedInto rk (base + 12) (base + 4) (base + 11)
    let rk ← xorInto rk (base + 13) (base + 5) (base + 12)
    let rk ← xorInto rk (base + 14) (base + 6) (base + 13)
    let rk ← xorInto rk (base + 15) (base + 7) (base + 14)
    expand256 fuel (i + 1) (base + 8) rk

/-- `rk[i] = GETU32(userKey + 4 * i)` -/
def loadWord (userKey : Buffer) (rk : RdKey) (i : Nat) : Option RdKey := do
  rk.put i (← GETU32 userKey (4 * i))

/-- The code returned and the key; NULL is `none`. -/
def AES_set_encrypt_key (userKey : Option Buffer) (bits : Int) (key : Option AesKey) :
    Option (Int × Option AesKey) :=
  match userKey, key with
  | some userKey, some key =>
    if bits ≠ 128 ∧ bits ≠ 192 ∧ bits ≠ 256 then some (-2, some key)
    else do
      let rounds := if bits = 128 then 10 else if bits = 192 then 12 else 14
      let rk ← loadWord userKey key.rd_key 0
      let rk ← loadWord userKey rk 1
      let rk ← loadWord userKey rk 2
      let rk ← loadWord userKey rk 3
      if bits = 128 then return (0, some ⟨← expand128 10 0 0 rk, rounds⟩)
      let rk ← loadWord userKey rk 4
      let rk ← loadWord userKey rk 5
      if bits = 192 then return (0, some ⟨← expand192 8 0 0 rk, rounds⟩)
      let rk ← loadWord userKey rk 6
      let rk ← loadWord userKey rk 7
      return (0, some ⟨← expand256 7 0 0 rk, rounds⟩)
  | _, key => some (-1, key)

/-! ## The kernel -/

/-- The global memory.  `Te0` to `Te4` are copies of the host's tables. -/
structure Device where
  devState : Buffer
  dummy : Buffer

/-- `s0` to `s3`, or `t0` to `t3`. -/
structure Words where
  s0 : U32
  s1 : U32
  s2 : U32
  s3 : U32

/-- `Te0[i0] ^ Te1[i1] ^ Te2[i2] ^ Te3[i3]` -/
def teWord (i0 i1 i2 i3 : U32) : Option U32 := do
  let x0 ← lookup Te0_h i0
  let x1 ← lookup Te1_h i1
  let x2 ← lookup Te2_h i2
  let x3 ← lookup Te3_h i3
  return x0 ^^^ x1 ^^^ x2 ^^^ x3

def roundWord (rk : RdKey) (i : Nat) (s0 s1 s2 s3 : U32) : Option U32 := do
  let word ← teWord (s0 >>> 24) ((s1 >>> 16) &&& 0xff) ((s2 >>> 8) &&& 0xff) (s3 &&& 0xff)
  return word ^^^ (← rk[i]?)

/-- A round of the kernel, with the keys `rk[first]` to `rk[first + 3]`. -/
def tableRound (rk : RdKey) (first : Nat) (s : Words) : Option Words := do
  let t0 ← roundWord rk first s.s0 s.s1 s.s2 s.s3
  let t1 ← roundWord rk (first + 1) s.s1 s.s2 s.s3 s.s0
  let t2 ← roundWord rk (first + 2) s.s2 s.s3 s.s0 s.s1
  let t3 ← roundWord rk (first + 3) s.s3 s.s0 s.s1 s.s2
  return ⟨t0, t1, t2, t3⟩

def lastWord (rk : RdKey) (i : Nat) (t0 t1 t2 t3 : U32) : Option U32 := do
  let word ← te4Bytes (t0 >>> 24) ((t1 >>> 16) &&& 0xff) ((t2 >>> 8) &&& 0xff) (t3 &&& 0xff)
  return word ^^^ (← rk[i]?)

/-- `s0` to `s3` as the kernel begins. -/
def loadState (rk : RdKey) (devState : Buffer) (start : Nat) : Option Words := do
  let s0 := (← GETU32 devState start) ^^^ (← rk[0]?)
  let s1 := (← GETU32 devState (start + 4)) ^^^ (← rk[1]?)
  let s2 := (← GETU32 devState (start + 8)) ^^^ (← rk[2]?)
  let s3 := (← GETU32 devState (start + 12)) ^^^ (← rk[3]?)
  return ⟨s0, s1, s2, s3⟩

/-- The last round, which writes each word as soon as it is computed. -/
def storeLast (rk : RdKey) (first : Nat) (t : Words) (devState : Buffer) (start : Nat) :
    Option Buffer := do
  let devState ← PUTU32 devState start (← lastWord rk first t.s0 t.s1 t.s2 t.s3)
  let devState ← PUTU32 devState (start + 4) (← lastWord rk (first + 1) t.s1 t.s2 t.s3 t.s0)
  let devState ← PUTU32 devState (start + 8) (← lastWord rk (first + 2) t.s2 t.s3 t.s0 t.s1)
  PUTU32 devState (start + 12) (← lastWord rk (first + 3) t.s3 t.s0 t.s1 t.s2)

/-- `dummy[localid] += Te4[i]` for each entry. -/
def warmUp (dummy : Buffer) (localid : Nat) : Option Buffer :=
  Te4_h.foldlM (fun dummy entry => do
    dummy.store localid ((← dummy.load localid) + entry.setWidth 8)) dummy

/-- The thread with number `localid`. -/
def cudaRunner (ek : AesKey) (device : Device) (localid : Nat) : Option Device := do
  let dummy ← warmUp device.dummy localid
  let rk := ek.rd_key
  let s ← loadState rk device.devState (localid * 16)
  let t ← tableRound rk 4 s
  let s ← tableRound rk 8 t
  let t ← tableRound rk 12 s
  let s ← tableRound rk 16 t
  let t ← tableRound rk 20 s
  let s ← tableRound rk 24 t
  let t ← tableRound rk 28 s
  let s ← tableRound rk 32 t
  let t ← tableRound rk 36 s
  -- `rk += ek->rounds << 2`
  let devState ← storeLast rk (4 * ek.rounds) t device.devState (localid * 16)
  return { devState, dummy }

end AesOnGpu.Aes
