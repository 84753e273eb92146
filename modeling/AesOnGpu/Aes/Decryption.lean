import AesOnGpu.Aes.Encryption

/-! # The AES of the host

`aes.c` encrypts with the tables of the kernel, for each size of a key, and decrypts with tables of
its own and a schedule that begins at the end (`AES_decrypt_encrypts`).  `AES_enc` writes down what it
looks up, and with the ciphertext this gives the last round key away (`AES_enc_hits`).  `none` as a
result is an access outside of an array or a table.
-/

namespace AesOnGpu.Aes

open Fips197 (Byte Word State sBox mul addRoundKey stateAfter finalRound ofBytes encrypt
  inverseSchedule invStateAfter invFinalRound eqInvCipher)

/-! ## Encryption -/

/-- The loop over pairs of rounds, which takes `r` turns, with `rk` advanced by `first` words.  Where
    `r` is zero `--r` is negative and the loop leaves the key. -/
def fullRounds (round : Nat → Words → Option Words) : Nat → Nat → Words → Option (Words × Nat)
  | 0, _, _ => none
  | r + 1, first, s => do
    let t ← round (first + 4) s
    if r = 0 then return (t, first + 8)
    let s ← round (first + 8) t
    fullRounds round r (first + 8) s

/-- `in` and `out` can overlap. -/
def AES_encrypt (memory : Buffer) (inp out : Nat) (key : AesKey) : Option Buffer := do
  let s ← loadState key.rd_key memory inp
  let (t, first) ← fullRounds (tableRound key.rd_key) (key.rounds / 2) 0 s
  storeLast key.rd_key first t memory out

/-- `hits[i] = (s0 >> 24)` to `hits[i + 3] = (s3      ) & 0xff` -/
def storeHit (hits : Buffer) (i : Nat) (s0 s1 s2 s3 : U32) : Option Buffer := do
  let hits ← hits.store i ((s0 >>> 24).setWidth 8)
  let hits ← hits.store (i + 1) (((s1 >>> 16) &&& 0xff).setWidth 8)
  let hits ← hits.store (i + 2) (((s2 >>> 8) &&& 0xff).setWidth 8)
  hits.store (i + 3) ((s3 &&& 0xff).setWidth 8)

def storeHits (hits : Buffer) (round : Nat) (s : Words) : Option Buffer := do
  let hits ← storeHit hits (round * 16) s.s0 s.s1 s.s2 s.s3
  let hits ← storeHit hits (round * 16 + 4) s.s1 s.s2 s.s3 s.s0
  let hits ← storeHit hits (round * 16 + 8) s.s2 s.s3 s.s0 s.s1
  storeHit hits (round * 16 + 12) s.s3 s.s0 s.s1 s.s2

/-- `fullRounds` with the hits of each round. -/
def hitRounds (rk : RdKey) : Nat → Nat → Nat → Words → Buffer → Option (Words × Nat × Nat × Buffer)
  | 0, _, _, _, _ => none
  | r + 1, first, round, s, hits => do
    let t ← tableRound rk (first + 4) s
    let hits ← storeHits hits round s
    if r = 0 then return (t, first + 8, round + 1, hits)
    let s ← tableRound rk (first + 8) t
    let hits ← storeHits hits (round + 1) t
    hitRounds rk r (first + 8) (round + 2) s hits

/-- The memory and `hits` afterwards. -/
def AES_enc (memory : Buffer) (inp out : Nat) (key : AesKey) (hits : Buffer) :
    Option (Buffer × Buffer) := do
  let s ← loadState key.rd_key memory inp
  let (t, first, round, hits) ← hitRounds key.rd_key (key.rounds / 2) 0 0 s hits
  let memory ← storeLast key.rd_key first t memory out
  return (memory, ← storeHits hits round t)

/-! ## Decryption -/

/-- `Te4[i] & 0xff` -/
def te4Byte (i : U32) : Option U32 := do
  return (← lookup Te4_h i) &&& 0xff

/-- `Td0[i0] ^ Td1[i1] ^ Td2[i2] ^ Td3[i3]` -/
def tdWord (i0 i1 i2 i3 : U32) : Option U32 := do
  let x0 ← lookup Td0 i0
  let x1 ← lookup Td1 i1
  let x2 ← lookup Td2 i2
  let x3 ← lookup Td3 i3
  return x0 ^^^ x1 ^^^ x2 ^^^ x3

def swapWords (rk : RdKey) (i j : Nat) : Option RdKey := do
  let temp ← rk[i]?
  let rk' ← rk.put i (← rk[j]?)
  rk'.put j temp

/-- The loop that inverts the order of the round keys.  It ends within `fuel` turns. -/
def invertOrder (fuel i j : Nat) (rk : RdKey) : Option RdKey :=
  match fuel with
  | 0 => none
  | fuel + 1 =>
    if i < j then do
      let rk ← swapWords rk i j
      let rk ← swapWords rk (i + 1) (j + 1)
      let rk ← swapWords rk (i + 2) (j + 2)
      let rk ← swapWords rk (i + 3) (j + 3)
      invertOrder fuel (i + 4) (j - 4) rk
    else some rk

/-- `rk[i] = Td0[Te4[(rk[i] >> 24)       ] & 0xff] ^ ...` -/
def unmixInto (rk : RdKey) (i : Nat) : Option RdKey := do
  let word ← rk[i]?
  let i0 ← te4Byte (word >>> 24)
  let i1 ← te4Byte ((word >>> 16) &&& 0xff)
  let i2 ← te4Byte ((word >>> 8) &&& 0xff)
  let i3 ← te4Byte (word &&& 0xff)
  rk.put i (← tdWord i0 i1 i2 i3)

/-- Turn `i` of the loop that applies the inverse MixColumn transform. -/
def unmixTurn (rk : RdKey) (i : Nat) : Option RdKey := do
  let rk ← unmixInto rk (4 * i)
  let rk ← unmixInto rk (4 * i + 1)
  let rk ← unmixInto rk (4 * i + 2)
  unmixInto rk (4 * i + 3)

def AES_set_decrypt_key (userKey : Option Buffer) (bits : Int) (key : Option AesKey) :
    Option (Int × Option AesKey) := do
  let (status, key) ← AES_set_encrypt_key userKey bits key
  match key with
  | some key =>
    if status < 0 then return (status, some key)
    let rk ← invertOrder (key.rounds + 1) 0 (4 * key.rounds) key.rd_key
    let rk ← (List.range' 1 (key.rounds - 1)).foldlM unmixTurn rk
    return (0, some { key with rd_key := rk })
  | none => return (status, none)

/-- `(Td4[i0] & 0xff000000) ^ ... ^ (Td4[i3] & 0x000000ff)` -/
def td4Bytes (i0 i1 i2 i3 : U32) : Option U32 := do
  let x0 ← lookup Td4 i0
  let x1 ← lookup Td4 i1
  let x2 ← lookup Td4 i2
  let x3 ← lookup Td4 i3
  return (x0 &&& 0xff000000) ^^^ (x1 &&& 0x00ff0000) ^^^ (x2 &&& 0x0000ff00) ^^^
    (x3 &&& 0x000000ff)

def invRoundWord (rk : RdKey) (i : Nat) (s0 s3 s2 s1 : U32) : Option U32 := do
  let word ← tdWord (s0 >>> 24) ((s3 >>> 16) &&& 0xff) ((s2 >>> 8) &&& 0xff) (s1 &&& 0xff)
  return word ^^^ (← rk[i]?)

def invTableRound (rk : RdKey) (first : Nat) (s : Words) : Option Words := do
  let t0 ← invRoundWord rk first s.s0 s.s3 s.s2 s.s1
  let t1 ← invRoundWord rk (first + 1) s.s1 s.s0 s.s3 s.s2
  let t2 ← invRoundWord rk (first + 2) s.s2 s.s1 s.s0 s.s3
  let t3 ← invRoundWord rk (first + 3) s.s3 s.s2 s.s1 s.s0
  return ⟨t0, t1, t2, t3⟩

def invLastWord (rk : RdKey) (i : Nat) (t0 t3 t2 t1 : U32) : Option U32 := do
  let word ← td4Bytes (t0 >>> 24) ((t3 >>> 16) &&& 0xff) ((t2 >>> 8) &&& 0xff) (t1 &&& 0xff)
  return word ^^^ (← rk[i]?)

def invStoreLast (rk : RdKey) (first : Nat) (t : Words) (memory : Buffer) (out : Nat) :
    Option Buffer := do
  let memory ← PUTU32 memory out (← invLastWord rk first t.s0 t.s3 t.s2 t.s1)
  let memory ← PUTU32 memory (out + 4) (← invLastWord rk (first + 1) t.s1 t.s0 t.s3 t.s2)
  let memory ← PUTU32 memory (out + 8) (← invLastWord rk (first + 2) t.s2 t.s1 t.s0 t.s3)
  PUTU32 memory (out + 12) (← invLastWord rk (first + 3) t.s3 t.s2 t.s1 t.s0)

def AES_decrypt (memory : Buffer) (inp out : Nat) (key : AesKey) : Option Buffer := do
  let s ← loadState key.rd_key memory inp
  let (t, first) ← fullRounds (invTableRound key.rd_key) (key.rounds / 2) 0 s
  invStoreLast key.rd_key first t memory out

/-! ## The tables -/

theorem td_eq :
    (Td0 = Op.inv_sbox.map fun s => packU32 (mul 0x0e s) (mul 0x09 s) (mul 0x0d s) (mul 0x0b s)) ∧
    (Td1 = Op.inv_sbox.map fun s => packU32 (mul 0x0b s) (mul 0x0e s) (mul 0x09 s) (mul 0x0d s)) ∧
    (Td2 = Op.inv_sbox.map fun s => packU32 (mul 0x0d s) (mul 0x0b s) (mul 0x0e s) (mul 0x09 s)) ∧
    (Td3 = Op.inv_sbox.map fun s => packU32 (mul 0x09 s) (mul 0x0d s) (mul 0x0b s) (mul 0x0e s)) ∧
    (Td4 = Op.inv_sbox.map fun s => packU32 s s s s) := by
  simp only [Fips197.mul_eq]
  decide +kernel

theorem inv_sbox_getElem? (x : Byte) : Op.inv_sbox[x.toNat]? = some (Fips197.invSBox x) := by
  have numbers : Op.inv_sbox = (List.range 256).map fun n =>
      BitVec.ofNat 8 (Fips197.inverseNat (Fips197.invAffine (BitVec.ofNat 8 n)).toNat) := by
    decide +kernel
  have below : x.toNat < 256 := x.isLt
  rw [numbers, List.getElem?_map, List.getElem?_range below, Option.map_some, BitVec.ofNat_toNat,
    BitVec.setWidth_eq, ← Fips197.inverse_toNat, BitVec.ofNat_toNat, BitVec.setWidth_eq]
  rfl

theorem invLookup_spec {table : List U32} {entry : Byte → U32}
    (eq : table = Op.inv_sbox.map entry) (x : Byte) :
    lookup table (packU32 0#8 0#8 0#8 x) = some (entry (Fips197.invSBox x)) := by
  have index : (packU32 0#8 0#8 0#8 x).toNat = x.toNat := by
    rw [show packU32 0#8 0#8 0#8 x = x.setWidth 64 by simp [packU32]]
    exact BitVec.toNat_setWidth_of_le (by omega)
  rw [lookup, index, eq, List.getElem?_map, inv_sbox_getElem?]
  rfl

theorem te4Byte_spec (x : Byte) :
    te4Byte (packU32 0#8 0#8 0#8 x) = some (packU32 0#8 0#8 0#8 (sBox x)) := by
  obtain ⟨-, -, -, -, te4_eq⟩ := te_eq
  simp [te4Byte, lookup_spec te4_eq]

theorem td4Bytes_spec (w : Word) :
    td4Bytes (packU32 0#8 0#8 0#8 (w 0)) (packU32 0#8 0#8 0#8 (w 1)) (packU32 0#8 0#8 0#8 (w 2))
        (packU32 0#8 0#8 0#8 (w 3)) =
      some (packWord fun r => Fips197.invSBox (w r)) := by
  obtain ⟨-, -, -, -, td4_eq⟩ := td_eq
  simp [td4Bytes, invLookup_spec td4_eq, packWord]

theorem tdWord_spec (w : Word) :
    tdWord (packU32 0#8 0#8 0#8 (w 0)) (packU32 0#8 0#8 0#8 (w 1)) (packU32 0#8 0#8 0#8 (w 2))
        (packU32 0#8 0#8 0#8 (w 3)) =
      some (packWord (Fips197.invMixWord fun r => Fips197.invSBox (w r))) := by
  obtain ⟨td0_eq, td1_eq, td2_eq, td3_eq, -⟩ := td_eq
  simp only [tdWord, invLookup_spec td0_eq, invLookup_spec td1_eq, invLookup_spec td2_eq,
    invLookup_spec td3_eq, Option.bind_eq_bind, Option.bind_some, packU32_xor, packWord,
    Fips197.invMixWord]
  simp only [Fin.isValue, Fin.reduceAdd, zero_add]
  congr 2 <;> ac_rfl

/-! ## The schedule -/

section Schedule

variable {rk : RdKey} {word : Nat → U32} {count : Nat}

theorem Written.congr {word' : Nat → U32} (written : Written rk word count)
    (same : ∀ n < count, word n = word' n) : Written rk word' count :=
  fun n below => same n below ▸ written n below

theorem Written.put (written : Written rk word count) {i : Nat} (below : i < 60) (x : U32) :
    ∃ rk', rk.put i x = some rk' ∧ Written rk' (Function.update word i x) count := by
  refine ⟨_, dif_pos below, fun n inside => ?_⟩
  rw [Vector.getElem?_set below]
  split
  next same =>
    subst same
    rw [Function.update_self]
  next other => rw [Function.update_of_ne (Ne.symm other), written n inside]

theorem swapWords_spec (written : Written rk word count) (few : count ≤ 60) {i j : Nat}
    (first : i < count) (second : j < count) :
    ∃ rk', swapWords rk i j = some rk' ∧ Written rk' (word ∘ Equiv.swap i j) count := by
  obtain ⟨rk₁, put₁, written₁⟩ := written.put (i := i) (by omega) (word j)
  obtain ⟨rk₂, put₂, written₂⟩ := written₁.put (i := j) (by omega) (word i)
  refine ⟨rk₂, ?_, fun n inside => ?_⟩
  · rw [swapWords, written i first, written j second]
    simp only [Option.bind_eq_bind, Option.bind_some, put₁, put₂]
  · rw [written₂ n inside, Function.comp, Equiv.swap_apply_def]
    by_cases last : n = j
    · subst last
      by_cases same : n = i
      · simp [same]
      · simp [same]
    · by_cases here : n = i
      · subst here
        simp [last]
      · simp [last, here]

/-- Word `n` counted in groups of four from group `nr` back. -/
def mirrored (nr n : Nat) : Nat := 4 * (nr - n / 4) + n % 4

theorem swap_groups (i j n : Nat) (apart : i < j) :
    Equiv.swap (4 * i) (4 * j) (Equiv.swap (4 * i + 1) (4 * j + 1)
        (Equiv.swap (4 * i + 2) (4 * j + 2) (Equiv.swap (4 * i + 3) (4 * j + 3) n))) =
      if n / 4 = i then 4 * j + n % 4 else if n / 4 = j then 4 * i + n % 4 else n := by
  simp only [Equiv.swap_apply_def]
  split_ifs <;> omega

theorem invertOrder_spec {w : Nat → U32} {nr fuel i j : Nat} (sum : i + j = nr) (small : nr ≤ 14)
    (more : 0 < fuel) (turns : j < i + fuel)
    (written : Written rk (fun n => w (if n / 4 < i ∨ j < n / 4 then mirrored nr n else n))
      (4 * (nr + 1))) :
    ∃ rk', invertOrder fuel (4 * i) (4 * j) rk = some rk' ∧
      Written rk' (fun n => w (mirrored nr n)) (4 * (nr + 1)) := by
  induction fuel generalizing i j rk with
  | zero => exact absurd more (Nat.lt_irrefl 0)
  | succ fuel ih =>
    rw [invertOrder]
    by_cases apart : i < j
    · rw [if_pos (by omega)]
      -- the round keys outside of `i` and `j` are in their places already
      obtain ⟨rk₀, eq₀, written₀⟩ :=
        swapWords_spec written (i := 4 * i) (j := 4 * j) (by omega) (by omega) (by omega)
      obtain ⟨rk₁, eq₁, written₁⟩ := swapWords_spec written₀ (i := 4 * i + 1) (j := 4 * j + 1)
        (by omega) (by omega) (by omega)
      obtain ⟨rk₂, eq₂, written₂⟩ := swapWords_spec written₁ (i := 4 * i + 2) (j := 4 * j + 2)
        (by omega) (by omega) (by omega)
      obtain ⟨rk₃, eq₃, written₃⟩ := swapWords_spec written₂ (i := 4 * i + 3) (j := 4 * j + 3)
        (by omega) (by omega) (by omega)
      have exchanged : Written rk₃
          (fun n => w (if n / 4 < i + 1 ∨ j - 1 < n / 4 then mirrored nr n else n))
          (4 * (nr + 1)) := by
        refine written₃.congr fun n inside => ?_
        simp only [Function.comp, swap_groups i j n apart, mirrored]
        refine congrArg w ?_
        split_ifs <;> omega
      obtain ⟨rk', rest, written'⟩ :=
        ih (by omega) (by omega) (by omega) exchanged
      refine ⟨rk', ?_, written'⟩
      simp only [eq₀, eq₁, eq₂, eq₃, Option.bind_eq_bind, Option.bind_some]
      rwa [show 4 * j - 4 = 4 * (j - 1) by omega]
    · rw [if_neg (by omega)]
      refine ⟨rk, rfl, written.congr fun n inside => congrArg w ?_⟩
      simp only [mirrored]
      split_ifs <;> omega

theorem unmixInto_spec {w : Nat → Word} (written : Written rk (fun n => packWord (w n)) count)
    (few : count ≤ 60) {i : Nat} (inside : i < count) :
    ∃ rk', unmixInto rk i = some rk' ∧
      Written rk' (fun n => packWord (Function.update w i (Fips197.invMixWord (w i)) n)) count := by
  obtain ⟨rk', put, written'⟩ := written.put (i := i) (by omega)
    (packWord (Fips197.invMixWord (w i)))
  have unmixed := tdWord_spec fun r => sBox (w i r)
  simp only [Fips197.invSBox_sBox] at unmixed
  refine ⟨rk', ?_, written'.congr fun n _ => ?_⟩
  · rw [unmixInto, written i inside]
    simp only [packWord, packU32_shift24, packU32_shift16, packU32_shift8, Option.bind_eq_bind,
      Option.bind_some]
    simpa [te4Byte_spec, unmixed] using put
  · by_cases here : n = i
    · subst here
      simp only [Function.update_self]
    · simp only [Function.update_of_ne here]

theorem unmixTurn_spec {w : Nat → Word} (written : Written rk (fun n => packWord (w n)) count)
    (few : count ≤ 60) {i : Nat} (inside : 4 * i + 4 ≤ count) :
    ∃ rk', unmixTurn rk i = some rk' ∧ Written rk'
      (fun n => packWord (if n / 4 = i then Fips197.invMixWord (w n) else w n)) count := by
  obtain ⟨rk₀, eq₀, written₀⟩ := unmixInto_spec written few (i := 4 * i) (by omega)
  obtain ⟨rk₁, eq₁, written₁⟩ := unmixInto_spec written₀ few (i := 4 * i + 1) (by omega)
  obtain ⟨rk₂, eq₂, written₂⟩ := unmixInto_spec written₁ few (i := 4 * i + 2) (by omega)
  obtain ⟨rk₃, eq₃, written₃⟩ := unmixInto_spec written₂ few (i := 4 * i + 3) (by omega)
  refine ⟨rk₃, by simp only [unmixTurn, eq₀, eq₁, eq₂, eq₃, Option.bind_eq_bind,
    Option.bind_some], written₃.congr fun n _ => congrArg packWord ?_⟩
  simp only [Function.update_apply]
  split_ifs <;> grind

theorem unmixTurns_spec {w : Nat → Word} {nr turns i : Nat} (few : 4 * (nr + 1) ≤ 60)
    (first : 0 < i) (last : i + turns = nr)
    (written : Written rk (fun n => packWord (if 0 < n / 4 ∧ n / 4 < i then
      Fips197.invMixWord (w n) else w n)) (4 * (nr + 1))) :
    ∃ rk', (List.range' i turns).foldlM unmixTurn rk = some rk' ∧
      Written rk' (fun n => packWord (if 0 < n / 4 ∧ n / 4 < nr then Fips197.invMixWord (w n)
        else w n)) (4 * (nr + 1)) := by
  induction turns generalizing i rk with
  | zero =>
    obtain rfl : i = nr := by omega
    exact ⟨rk, rfl, written⟩
  | succ turns ih =>
    obtain ⟨rk₁, turn, written₁⟩ := unmixTurn_spec written few (i := i) (by omega)
    have unmixed : Written rk₁ (fun n => packWord (if 0 < n / 4 ∧ n / 4 < i + 1 then
        Fips197.invMixWord (w n) else w n)) (4 * (nr + 1)) := by
      refine written₁.congr fun n _ => congrArg packWord ?_
      split_ifs <;> first | rfl | omega
    obtain ⟨rk', rest, written'⟩ := ih (by omega) (by omega) unmixed
    refine ⟨rk', ?_, written'⟩
    rw [List.range'_succ, List.foldlM_cons, turn]
    exact rest

end Schedule

theorem AES_set_decrypt_key_spec {nk : Nat} (accepted : nk = 4 ∨ nk = 6 ∨ nk = 8)
    {userKey : Buffer} (size : 4 * nk ≤ userKey.size) (key : AesKey) :
    let w := Fips197.keyExpansion nk (Fips197.words userKey.bytes)
    ∃ dk, AES_set_decrypt_key (some userKey) (32 * nk) (some key) = some (0, some dk) ∧
      dk.rounds = Fips197.rounds nk ∧
      Written dk.rd_key (fun n => packWord (inverseSchedule w (Fips197.rounds nk) n))
        (4 * (Fips197.rounds nk + 1)) := by
  intro w
  obtain ⟨ek, expanded, rounds, written⟩ := AES_set_encrypt_key_spec accepted size key
  have few : Fips197.rounds nk ≤ 14 := by
    rw [Fips197.rounds]
    omega
  have many : 0 < Fips197.rounds nk := Nat.succ_pos _
  rw [rounds] at written
  generalize Fips197.rounds nk = nr at *
  have start : Written ek.rd_key (fun n => packWord (w (if n / 4 < 0 ∨ nr < n / 4 then
      mirrored nr n else n))) (4 * (nr + 1)) := by
    refine written.congr fun n below => congrArg (fun n => packWord (w n)) ?_
    rw [if_neg (by omega)]
  obtain ⟨rk₁, inverted, written₁⟩ := invertOrder_spec (w := fun n => packWord (w n)) (i := 0)
    (Nat.zero_add nr) few (Nat.succ_pos nr) (by omega) start
  have outer : Written rk₁ (fun n => packWord (if 0 < n / 4 ∧ n / 4 < 1 then
      Fips197.invMixWord (w (mirrored nr n)) else w (mirrored nr n))) (4 * (nr + 1)) := by
    refine written₁.congr fun n _ => congrArg packWord ?_
    rw [if_neg (by omega)]
  obtain ⟨rk₂, unmixed, written₂⟩ := unmixTurns_spec (w := fun n => w (mirrored nr n))
    (by omega) Nat.one_pos (Nat.add_sub_cancel' many) outer
  refine ⟨⟨rk₂, ek.rounds⟩, ?_, rounds, written₂.congr fun n below => congrArg packWord ?_⟩
  · rw [AES_set_decrypt_key, expanded]
    simp only [Option.bind_eq_bind, Option.bind_some, rounds, Int.lt_irrefl, if_false]
    rw [show 4 * 0 = 0 from rfl] at inverted
    rw [inverted, Option.bind_some, unmixed]
    rfl
  · rw [inverseSchedule]
    by_cases inner : 0 < n / 4 ∧ n / 4 < nr
    · rw [if_pos inner, if_neg (by omega)]
      rfl
    · rw [if_neg inner, if_pos (by omega)]
      rfl

/-! ## The rounds -/

theorem fullRounds_spec {r n : Nat} (round : Nat → Words → Option Words) (state : Nat → State)
    (positive : 0 < r) (step : ∀ m, n ≤ m → m + 1 < n + 2 * r →
      round (4 * (m + 1)) (toWords (state m)) = some (toWords (state (m + 1)))) :
    fullRounds round r (4 * n) (toWords (state n)) =
      some (toWords (state (n + 2 * r - 1)), 4 * (n + 2 * r)) := by
  induction r generalizing n with
  | zero => exact absurd positive (Nat.lt_irrefl 0)
  | succ r ih =>
    have first : round (4 * n + 4) (toWords (state n)) = some (toWords (state (n + 1))) :=
      step n (Nat.le_refl n) (by omega)
    rw [fullRounds, first, Option.bind_eq_bind, Option.bind_some]
    by_cases last : r = 0
    · subst last
      rfl
    · have second : round (4 * n + 8) (toWords (state (n + 1))) = some (toWords (state (n + 2))) :=
        step (n + 1) (by omega) (by omega)
      have rest := ih (n := n + 2) (by omega) fun m later sooner =>
        step m (by omega) (by omega)
      rw [if_neg last, second, Option.bind_some, show 4 * n + 8 = 4 * (n + 2) by omega, rest,
        show n + 2 + 2 * r = n + 2 * (r + 1) by omega]

section Rounds

variable {rk : RdKey} {w : Nat → Word} {count : Nat}

theorem invRoundWord_spec {n : Nat} {c : Fin 4}
    (key : rk[4 * n + c]? = some (packWord (w (4 * n + c)))) (s : State) :
    invRoundWord rk (4 * n + c) (column s c) (column s (c - 1)) (column s (c - 2))
        (column s (c - 3)) = some (column (Fips197.invRound w n s) c) := by
  have mixed := tdWord_spec fun r => s r (c - r)
  rw [invRoundWord, key]
  simp only [column, packWord, packU32_shift24, packU32_shift16, packU32_shift8]
  simp only [sub_zero] at mixed
  simp [mixed]
  exact (packWord_xor _ (w (4 * n + c))).symm

theorem columns_backward {α β : Type} {f : Nat → α → α → α → α → β} {start : Nat} {a : Fin 4 → α}
    {b : Fin 4 → β}
    (turn : ∀ c : Fin 4, f (start + c) (a c) (a (c - 1)) (a (c - 2)) (a (c - 3)) = b c) :
    f start (a 0) (a 3) (a 2) (a 1) = b 0 ∧ f (start + 1) (a 1) (a 0) (a 3) (a 2) = b 1 ∧
      f (start + 2) (a 2) (a 1) (a 0) (a 3) = b 2 ∧ f (start + 3) (a 3) (a 2) (a 1) (a 0) = b 3 :=
  ⟨turn 0, turn 1, turn 2, turn 3⟩

theorem invTableRound_spec {n : Nat} (written : Written rk (fun n => packWord (w n)) count)
    (last : 4 * n + 4 ≤ count) (s : State) :
    invTableRound rk (4 * n) (toWords s) = some (toWords (Fips197.invRound w n s)) := by
  obtain ⟨word0, word1, word2, word3⟩ := columns_backward fun c : Fin 4 =>
    invRoundWord_spec (written (4 * n + c) (by omega)) s
  simp only [invTableRound, toWords, word0, word1, word2, word3, Option.bind_eq_bind,
    Option.bind_some]
  rfl

theorem invLastWord_spec {n : Nat} {c : Fin 4}
    (key : rk[4 * n + c]? = some (packWord (w (4 * n + c)))) (s : State) :
    invLastWord rk (4 * n + c) (column s c) (column s (c - 1)) (column s (c - 2))
        (column s (c - 3)) = some (column (invFinalRound w n s) c) := by
  have substituted := td4Bytes_spec fun r => s r (c - r)
  rw [invLastWord, key]
  simp only [column, packWord, packU32_shift24, packU32_shift16, packU32_shift8]
  simp only [sub_zero] at substituted
  simp [substituted]
  exact (packWord_xor _ (w (4 * n + c))).symm

theorem invStoreLast_spec {memory : Buffer} {out n : Nat}
    (written : Written rk (fun n => packWord (w n)) count) (last : 4 * n + 4 ≤ count)
    (room : out + 16 ≤ memory.size) (s : State) :
    ∃ memory', invStoreLast rk (4 * n) (toWords s) memory out = some memory' ∧
      memory'.size = memory.size ∧
      (ofBytes fun i => memory'.bytes (out + i)) = invFinalRound w n s ∧
      ∀ i, i < out ∨ out + 16 ≤ i → memory'.bytes i = memory.bytes i := by
  obtain ⟨word0, word1, word2, word3⟩ := columns_backward fun c : Fin 4 =>
    invLastWord_spec (written (4 * n + c) (by omega)) s
  obtain ⟨b0, b1, b2, memory', put0, put1, put2, put3, size, columns, other⟩ :=
    storeColumns_spec room (invFinalRound w n s) id
  simp only [id] at put0 put1 put2 put3
  refine ⟨memory', ?_, size, ofBytes_columns columns, other⟩
  simp only [invStoreLast, toWords, word0, word1, word2, word3, Option.bind_eq_bind,
    Option.bind_some, put0, put1, put2, put3]

theorem storeHit_eq (hits : Buffer) (i : Nat) (s : State) (c : Fin 4) :
    storeHit hits i (column s c) (column s (c + 1)) (column s (c + 2)) (column s (c + 3)) =
      PUTU32 hits i (column (Fips197.shiftRows s) c) := by
  simp only [storeHit, PUTU32, column, packWord, packU32_shift24, packU32_shift16, packU32_shift8,
    packU32_setWidth]
  simp [Fips197.shiftRows]

theorem storeHits_spec (hits : Buffer) (round : Nat) (room : 16 * round + 16 ≤ hits.size)
    (s : State) :
    ∃ hits', storeHits hits round (toWords s) = some hits' ∧ hits'.size = hits.size ∧
      (ofBytes fun i => hits'.bytes (16 * round + i)) = Fips197.shiftRows s ∧
      ∀ i, i < 16 * round ∨ 16 * round + 16 ≤ i → hits'.bytes i = hits.bytes i := by
  obtain ⟨b0, b1, b2, hits', put0, put1, put2, put3, size, columns, other⟩ :=
    storeColumns_spec room (Fips197.shiftRows s) id
  simp only [id] at put0 put1 put2 put3
  refine ⟨hits', ?_, size, ofBytes_columns columns, other⟩
  have row (b : Buffer) (i : Nat) (c : Fin 4) := storeHit_eq b i s c
  have row0 (b : Buffer) (i : Nat) : storeHit b i (column s 0) (column s 1) (column s 2)
      (column s 3) = PUTU32 b i (column (Fips197.shiftRows s) 0) := row b i 0
  have row1 (b : Buffer) (i : Nat) : storeHit b i (column s 1) (column s 2) (column s 3)
      (column s 0) = PUTU32 b i (column (Fips197.shiftRows s) 1) := row b i 1
  have row2 (b : Buffer) (i : Nat) : storeHit b i (column s 2) (column s 3) (column s 0)
      (column s 1) = PUTU32 b i (column (Fips197.shiftRows s) 2) := row b i 2
  have row3 (b : Buffer) (i : Nat) : storeHit b i (column s 3) (column s 0) (column s 1)
      (column s 2) = PUTU32 b i (column (Fips197.shiftRows s) 3) := row b i 3
  simp only [storeHits, toWords, row0, row1, row2, row3, Nat.mul_comm round 16,
    Option.bind_eq_bind, put0, put1, put2, put3, Option.bind_some]

def Hits (hits : Buffer) (w : Nat → Word) (plain : State) (round : Nat) : Prop :=
  (ofBytes fun i => hits.bytes (16 * round + i)) = Fips197.shiftRows (stateAfter w plain round)

theorem Hits.congr {hits hits' : Buffer} {plain : State} {round : Nat}
    (recorded : Hits hits w plain round)
    (same : ∀ i, 16 * round ≤ i → i < 16 * round + 16 → hits'.bytes i = hits.bytes i) :
    Hits hits' w plain round := by
  refine Eq.trans (ofBytes_inj.mpr fun i below => ?_) recorded
  exact same (16 * round + i) (by omega) (by omega)

theorem hitRounds_spec (written : Written rk (fun n => packWord (w n)) count) (plain : State)
    {r n : Nat} (positive : 0 < r) (last : 4 * (n + 2 * r) ≤ count) (hits : Buffer)
    (room : 16 * (n + 2 * r) ≤ hits.size) :
    ∃ hits', hitRounds rk r (4 * n) n (toWords (stateAfter w plain n)) hits =
        some (toWords (stateAfter w plain (n + 2 * r - 1)), 4 * (n + 2 * r), n + 2 * r - 1, hits') ∧
      hits'.size = hits.size ∧
      (∀ m, n ≤ m → m < n + 2 * r - 1 → Hits hits' w plain m) ∧
      ∀ i, i < 16 * n → hits'.bytes i = hits.bytes i := by
  induction r generalizing n hits with
  | zero => exact absurd positive (Nat.lt_irrefl 0)
  | succ r ih =>
    have first : tableRound rk (4 * n + 4) (toWords (stateAfter w plain n)) =
        some (toWords (stateAfter w plain (n + 1))) :=
      tableRound_spec (n := n + 1) written (by omega) _
    obtain ⟨hits₁, stored₁, size₁, here₁, other₁⟩ :=
      storeHits_spec hits n (by omega) (stateAfter w plain n)
    simp only [hitRounds, first, stored₁, Option.bind_eq_bind, Option.bind_some]
    by_cases done : r = 0
    · subst done
      refine ⟨hits₁, rfl, size₁, fun m later sooner => ?_, fun i before => other₁ i (.inl before)⟩
      obtain rfl : m = n := by omega
      exact here₁
    · have second : tableRound rk (4 * n + 8) (toWords (stateAfter w plain (n + 1))) =
          some (toWords (stateAfter w plain (n + 2))) :=
        tableRound_spec (n := n + 2) written (by omega) _
      obtain ⟨hits₂, stored₂, size₂, here₂, other₂⟩ :=
        storeHits_spec hits₁ (n + 1) (by omega) (stateAfter w plain (n + 1))
      obtain ⟨hits', rest, size', recorded, other'⟩ :=
        ih (n := n + 2) (by omega) (by omega) hits₂ (by omega)
      refine ⟨hits', ?_, by omega, fun m later sooner => ?_, fun i before => ?_⟩
      · rw [show n + 2 * (r + 1) = n + 2 + 2 * r by omega, ← rest]
        simp only [if_neg done, second, stored₂, Option.bind_some]
        rfl
      · rcases Nat.lt_or_ge m (n + 2) with early | late
        · rcases Nat.lt_or_ge m (n + 1) with first | second
          · obtain rfl : m = n := by omega
            have kept : Hits hits₂ w plain m := Hits.congr here₁ fun i _ below =>
              other₂ i (by omega)
            exact kept.congr fun i _ below => other' i (by omega)
          · obtain rfl : m = n + 1 := by omega
            exact Hits.congr here₂ fun i _ below => other' i (by omega)
        · exact recorded m late (by omega)
      · rw [other' i (by omega), other₂ i (by omega), other₁ i (by omega)]

end Rounds

/-! ## Whole blocks -/

section Blocks

variable {w : Nat → Word} {nr : Nat} {key : AesKey} {memory : Buffer} {inp out : Nat}

def Buffer.block (memory : Buffer) (start : Nat) : State :=
  ofBytes fun i => memory.bytes (start + i)

theorem AES_encrypt_spec (rounds : key.rounds = nr) (even : nr % 2 = 0) (positive : 0 < nr)
    (written : Written key.rd_key (fun n => packWord (w n)) (4 * (nr + 1)))
    (readable : inp + 16 ≤ memory.size) (writable : out + 16 ≤ memory.size) :
    ∃ memory', AES_encrypt memory inp out key = some memory' ∧ memory'.size = memory.size ∧
      memory'.block out = Fips197.cipher w nr (memory.block inp) ∧
      ∀ i, i < out ∨ out + 16 ≤ i → memory'.bytes i = memory.bytes i := by
  have loaded := loadState_spec written (by omega) readable
  have full := fullRounds_spec (r := nr / 2) (n := 0) (tableRound key.rd_key)
    (stateAfter w (memory.block inp)) (by omega)
    fun m _ sooner => tableRound_spec written (by omega) _
  obtain ⟨memory', stored, size, block, other⟩ := storeLast_spec written (n := nr) (by omega)
    writable (stateAfter w (memory.block inp) (nr - 1))
  refine ⟨memory', ?_, size, block, other⟩
  rw [show 0 + 2 * (nr / 2) = nr by omega] at full
  rw [AES_encrypt, loaded, rounds]
  simp only [Option.bind_eq_bind, Option.bind_some]
  rw [show toWords (addRoundKey w 0 (ofBytes fun i => memory.bytes (inp + i))) =
    toWords (stateAfter w (memory.block inp) 0) from rfl, full]
  exact stored

theorem AES_enc_spec (rounds : key.rounds = nr) (even : nr % 2 = 0) (positive : 0 < nr)
    (written : Written key.rd_key (fun n => packWord (w n)) (4 * (nr + 1)))
    (readable : inp + 16 ≤ memory.size) (writable : out + 16 ≤ memory.size) {hits : Buffer}
    (room : 16 * nr ≤ hits.size) :
    ∃ memory' hits', AES_enc memory inp out key hits = some (memory', hits') ∧
      AES_encrypt memory inp out key = some memory' ∧
      ∀ round < nr, Hits hits' w (memory.block inp) round := by
  obtain ⟨memory', encrypted, -⟩ := AES_encrypt_spec rounds even positive written readable writable
  have loaded := loadState_spec written (by omega) readable
  have full := fullRounds_spec (r := nr / 2) (n := 0) (tableRound key.rd_key)
    (stateAfter w (memory.block inp)) (by omega)
    fun m _ sooner => tableRound_spec written (by omega) _
  obtain ⟨hits₁, recorded, size, before, -⟩ := hitRounds_spec written (memory.block inp)
    (r := nr / 2) (n := 0) (by omega) (by omega) hits (by omega)
  rw [show 0 + 2 * (nr / 2) = nr by omega] at full recorded
  obtain ⟨hits', last, -, here, other⟩ := storeHits_spec hits₁ (nr - 1) (by omega)
    (stateAfter w (memory.block inp) (nr - 1))
  have start : toWords (addRoundKey w 0 (ofBytes fun i => memory.bytes (inp + i))) =
    toWords (stateAfter w (memory.block inp) 0) := rfl
  refine ⟨memory', hits', ?_, encrypted, fun round below => ?_⟩
  · rw [AES_encrypt, loaded, rounds] at encrypted
    simp only [Option.bind_eq_bind, Option.bind_some] at encrypted
    rw [start, full] at encrypted
    simp only [Option.bind_some] at encrypted
    rw [AES_enc, loaded, rounds]
    simp only [Option.bind_eq_bind, Option.bind_some]
    rw [start, recorded]
    simp only [Option.bind_some, encrypted, last]
    rfl
  · by_cases final : round = nr - 1
    · exact final ▸ here
    · exact (before round (Nat.zero_le round) (by omega)).congr fun i _ below =>
        other i (by omega)

theorem AES_decrypt_spec (rounds : key.rounds = nr) (even : nr % 2 = 0) (positive : 0 < nr)
    (written : Written key.rd_key (fun n => packWord (inverseSchedule w nr n)) (4 * (nr + 1)))
    (readable : inp + 16 ≤ memory.size) (writable : out + 16 ≤ memory.size) :
    ∃ memory', AES_decrypt memory inp out key = some memory' ∧ memory'.size = memory.size ∧
      memory'.block out = eqInvCipher (inverseSchedule w nr) nr (memory.block inp) ∧
      ∀ i, i < out ∨ out + 16 ≤ i → memory'.bytes i = memory.bytes i := by
  have loaded := loadState_spec written (by omega) readable
  have full := fullRounds_spec (r := nr / 2) (n := 0) (invTableRound key.rd_key)
    (invStateAfter (inverseSchedule w nr) (memory.block inp)) (by omega)
    fun m _ sooner => invTableRound_spec written (by omega) _
  obtain ⟨memory', stored, size, block, other⟩ := invStoreLast_spec written (n := nr) (by omega)
    writable (invStateAfter (inverseSchedule w nr) (memory.block inp) (nr - 1))
  refine ⟨memory', ?_, size, block, other⟩
  rw [show 0 + 2 * (nr / 2) = nr by omega] at full
  rw [AES_decrypt, loaded, rounds]
  simp only [Option.bind_eq_bind, Option.bind_some]
  rw [show toWords (addRoundKey (inverseSchedule w nr) 0
      (ofBytes fun i => memory.bytes (inp + i))) =
    toWords (invStateAfter (inverseSchedule w nr) (memory.block inp) 0) from rfl, full]
  exact stored

end Blocks

section Keys

variable {nk : Nat} {userKey memory : Buffer} {inp mid out : Nat}

theorem rounds_even (accepted : nk = 4 ∨ nk = 6 ∨ nk = 8) :
    Fips197.rounds nk % 2 = 0 ∧ 0 < Fips197.rounds nk := by
  rw [Fips197.rounds]
  omega

/-- For each key size `AES_enc` writes the encryption of its block, as `AES_encrypt` does.  Its hits
    are the bytes that each round looks up, and those of the last round give the round key away. -/
theorem AES_enc_hits (accepted : nk = 4 ∨ nk = 6 ∨ nk = 8) (size : 4 * nk ≤ userKey.size)
    (key : AesKey) (readable : inp + 16 ≤ memory.size) (writable : out + 16 ≤ memory.size)
    {hits : Buffer} (room : 16 * Fips197.rounds nk ≤ hits.size) :
    let w := Fips197.keyExpansion nk (Fips197.words userKey.bytes)
    let nr := Fips197.rounds nk
    ∃ ek memory' hits',
      AES_set_encrypt_key (some userKey) (32 * nk) (some key) = some (0, some ek) ∧
      AES_enc memory inp out ek hits = some (memory', hits') ∧
      AES_encrypt memory inp out ek = some memory' ∧
      memory'.block out = encrypt nk userKey.bytes (fun i => memory.bytes (inp + i)) ∧
      (∀ round < nr, Hits hits' w (memory.block inp) round) ∧
      ∀ r c : Fin 4, w (4 * nr + c) r =
        memory'.block out r c ^^^ sBox (hits'.block (16 * (nr - 1)) r c) := by
  intro w nr
  obtain ⟨even, positive⟩ := rounds_even accepted
  obtain ⟨ek, expanded, rounds, written⟩ := AES_set_encrypt_key_spec accepted size key
  rw [rounds] at written
  obtain ⟨memory₁, first, -, block, -⟩ :=
    AES_encrypt_spec rounds even positive written readable writable
  obtain ⟨memory', hits', recorded, second, all⟩ :=
    AES_enc_spec rounds even positive written readable writable room
  obtain rfl := Option.some.inj (first.symm.trans second)
  refine ⟨ek, memory₁, hits', expanded, recorded, first, block, all, fun r c => ?_⟩
  have last : hits'.block (16 * (nr - 1)) = Fips197.shiftRows (stateAfter w (memory.block inp)
    (nr - 1)) := all (nr - 1) (Nat.sub_lt positive Nat.one_pos)
  have written : memory₁.block out r c =
      sBox (stateAfter w (memory.block inp) (nr - 1) r (c + r)) ^^^ w (4 * nr + c) r := by
    rw [block]
    rfl
  rw [written, last, Fips197.shiftRows, BitVec.xor_comm (sBox _), BitVec.xor_assoc,
    BitVec.xor_self, BitVec.xor_zero]

/-- For each key size a block is encrypted to one that decrypts to it, wherever the blocks are. -/
theorem AES_decrypt_encrypts (accepted : nk = 4 ∨ nk = 6 ∨ nk = 8) (size : 4 * nk ≤ userKey.size)
    (key key' : AesKey) (readable : inp + 16 ≤ memory.size) (between : mid + 16 ≤ memory.size)
    (writable : out + 16 ≤ memory.size) :
    ∃ ek dk memory₁ memory₂,
      AES_set_encrypt_key (some userKey) (32 * nk) (some key) = some (0, some ek) ∧
      AES_set_decrypt_key (some userKey) (32 * nk) (some key') = some (0, some dk) ∧
      AES_encrypt memory inp mid ek = some memory₁ ∧
      memory₁.block mid = encrypt nk userKey.bytes (fun i => memory.bytes (inp + i)) ∧
      AES_decrypt memory₁ mid out dk = some memory₂ ∧
      (∀ i < 16, memory₂.bytes (out + i) = memory.bytes (inp + i)) ∧
      ∀ i, (i < mid ∨ mid + 16 ≤ i) → (i < out ∨ out + 16 ≤ i) →
        memory₂.bytes i = memory.bytes i := by
  obtain ⟨even, positive⟩ := rounds_even accepted
  obtain ⟨ek, expanded, rounds, written⟩ := AES_set_encrypt_key_spec accepted size key
  obtain ⟨dk, inverted, rounds', written'⟩ := AES_set_decrypt_key_spec accepted size key'
  rw [rounds] at written
  obtain ⟨memory₁, encrypted, same, block, other⟩ :=
    AES_encrypt_spec rounds even positive written readable between
  obtain ⟨memory₂, decrypted, -, block', other'⟩ := AES_decrypt_spec rounds' even positive written'
    (by omega : mid + 16 ≤ memory₁.size) (by omega : out + 16 ≤ memory₁.size)
  refine ⟨ek, dk, memory₁, memory₂, expanded, inverted, encrypted, block, decrypted,
    ofBytes_inj.mp ?_, fun i apart apart' => (other' i apart').trans (other i apart)⟩
  rw [block, Fips197.eqInvCipher_cipher positive] at block'
  exact block'

/-- The other way round a block is decrypted to one that encrypts to it. -/
theorem AES_encrypt_decrypts (accepted : nk = 4 ∨ nk = 6 ∨ nk = 8) (size : 4 * nk ≤ userKey.size)
    (key key' : AesKey) (readable : inp + 16 ≤ memory.size) (between : mid + 16 ≤ memory.size)
    (writable : out + 16 ≤ memory.size) :
    ∃ ek dk memory₁ memory₂,
      AES_set_encrypt_key (some userKey) (32 * nk) (some key) = some (0, some ek) ∧
      AES_set_decrypt_key (some userKey) (32 * nk) (some key') = some (0, some dk) ∧
      AES_decrypt memory inp mid dk = some memory₁ ∧
      AES_encrypt memory₁ mid out ek = some memory₂ ∧
      ∀ i < 16, memory₂.bytes (out + i) = memory.bytes (inp + i) := by
  obtain ⟨even, positive⟩ := rounds_even accepted
  obtain ⟨ek, expanded, rounds, written⟩ := AES_set_encrypt_key_spec accepted size key
  obtain ⟨dk, inverted, rounds', written'⟩ := AES_set_decrypt_key_spec accepted size key'
  rw [rounds] at written
  obtain ⟨memory₁, decrypted, same, block, other⟩ :=
    AES_decrypt_spec rounds' even positive written' readable between
  obtain ⟨memory₂, encrypted, -, block', other'⟩ := AES_encrypt_spec rounds even positive written
    (by omega : mid + 16 ≤ memory₁.size) (by omega : out + 16 ≤ memory₁.size)
  refine ⟨ek, dk, memory₁, memory₂, expanded, inverted, decrypted, encrypted, ofBytes_inj.mp ?_⟩
  rw [block] at block'
  exact block'.trans (Fips197.cipher_eqInvCipher positive _)

end Keys

/-! ## A key and a block of zeros -/

theorem AES_enc_hits_zeros : ∃ ek memory' hits',
    AES_set_encrypt_key (some ⟨24, fun _ => 0⟩) 192 (some ⟨Vector.replicate 60 0, 0⟩) =
      some (0, some ek) ∧
    AES_enc ⟨16, fun _ => 0⟩ 0 0 ek ⟨192, fun _ => 0⟩ = some (memory', hits') ∧
    ∀ r c : Fin 4, Fips197.keyExpansion 6 (Fips197.words fun _ => 0) (48 + c) r =
      memory'.block 0 r c ^^^ sBox (hits'.block 176 r c) := by
  obtain ⟨ek, memory', hits', expanded, recorded, -, -, -, leak⟩ :=
    @AES_enc_hits 6 ⟨24, fun _ => 0⟩ ⟨16, fun _ => 0⟩ 0 0 (.inr (.inl rfl)) (by simp)
      ⟨Vector.replicate 60 0, 0⟩ (by simp) (by simp) ⟨192, fun _ => 0⟩ (by simp [Fips197.rounds])
  exact ⟨ek, memory', hits', expanded, recorded, leak⟩

/-- In place, with a key of 256 bits. -/
theorem AES_decrypt_encrypts_zeros : ∃ ek dk memory₁ memory₂,
    AES_set_encrypt_key (some ⟨32, fun _ => 0⟩) 256 (some ⟨Vector.replicate 60 0, 0⟩) =
      some (0, some ek) ∧
    AES_set_decrypt_key (some ⟨32, fun _ => 0⟩) 256 (some ⟨Vector.replicate 60 0, 0⟩) =
      some (0, some dk) ∧
    AES_encrypt ⟨16, fun _ => 0⟩ 0 0 ek = some memory₁ ∧
    AES_decrypt memory₁ 0 0 dk = some memory₂ ∧ ∀ i < 16, memory₂.bytes (0 + i) = 0 := by
  obtain ⟨ek, dk, memory₁, memory₂, expanded, inverted, encrypted, -, decrypted, back, -⟩ :=
    @AES_decrypt_encrypts 8 ⟨32, fun _ => 0⟩ ⟨16, fun _ => 0⟩ 0 0 0 (.inr (.inr rfl)) (by simp)
      ⟨Vector.replicate 60 0, 0⟩ ⟨Vector.replicate 60 0, 0⟩ (by simp) (by simp) (by simp)
  exact ⟨ek, dk, memory₁, memory₂, expanded, inverted, encrypted, decrypted, back⟩

/-- From one block to another. -/
theorem AES_encrypt_decrypts_zeros : ∃ ek dk memory₁ memory₂,
    AES_set_encrypt_key (some ⟨24, fun _ => 0⟩) 192 (some ⟨Vector.replicate 60 0, 0⟩) =
      some (0, some ek) ∧
    AES_set_decrypt_key (some ⟨24, fun _ => 0⟩) 192 (some ⟨Vector.replicate 60 0, 0⟩) =
      some (0, some dk) ∧
    AES_decrypt ⟨32, fun _ => 0⟩ 0 16 dk = some memory₁ ∧
    AES_encrypt memory₁ 16 0 ek = some memory₂ ∧ ∀ i < 16, memory₂.bytes (0 + i) = 0 :=
  @AES_encrypt_decrypts 6 ⟨24, fun _ => 0⟩ ⟨32, fun _ => 0⟩ 0 16 0 (.inr (.inl rfl)) (by simp)
    ⟨Vector.replicate 60 0, 0⟩ ⟨Vector.replicate 60 0, 0⟩ (by simp) (by simp) (by simp)

end AesOnGpu.Aes
