import AesOnGpu.Aes.KeySchedule

/-! # The kernel encrypts

The words `s0` to `s3` of a thread are the columns of the state.  A round of the kernel
takes from its tables what the standard's round computes, and the ten rounds are those of
a key of 128 bits.
-/

namespace AesOnGpu.Aes

open Fips197 (Byte Word State sBox mul addRoundKey stateAfter finalRound ofBytes encrypt)

def column (s : State) (c : Fin 4) : U32 := packWord fun r => s r c

def toWords (s : State) : Words := ⟨column s 0, column s 1, column s 2, column s 3⟩

/-- The plaintext of a thread, or the ciphertext in its place. -/
def Device.block (device : Device) (localid : Nat) : Nat → Byte :=
  fun i => device.devState.bytes (localid * 16 + i)

/-- What a thread accesses by its number is inside of the arrays. -/
def Device.InBounds (device : Device) (localid : Nat) : Prop :=
  localid * 16 + 16 ≤ device.devState.size ∧ localid < device.dummy.size

/-! ## Rounds -/

section Rounds

variable {rk : RdKey} {w : Nat → Word} {count : Nat}

theorem loadState_spec {devState : Buffer} {start : Nat}
    (written : Written rk (fun n => packWord (w n)) count) (first : 4 ≤ count)
    (room : start + 16 ≤ devState.size) :
    loadState rk devState start =
      some (toWords (addRoundKey w 0 (ofBytes fun i => devState.bytes (start + i)))) := by
  rw [loadState, GETU32_spec (by omega), GETU32_spec (by omega), GETU32_spec (by omega),
    GETU32_spec (by omega), written 0 (by omega), written 1 (by omega), written 2 (by omega),
    written 3 (by omega)]
  simp [toWords, column, packWord, addRoundKey, ofBytes]

theorem roundWord_spec {n : Nat} {c : Fin 4}
    (key : rk[4 * n + c]? = some (packWord (w (4 * n + c)))) (s : State) :
    roundWord rk (4 * n + c) (column s c) (column s (c + 1)) (column s (c + 2)) (column s (c + 3)) =
      some (column (Fips197.round w n s) c) := by
  rw [roundWord, key]
  simp only [column, packWord, packU32_shift24, packU32_shift16, packU32_shift8]
  simp [teWord_spec]
  -- the table for row `r` has the terms of the mixed column in another order
  simp only [Fips197.round, addRoundKey, Fips197.mixColumns, Fips197.shiftRows, Fips197.subBytes]
  simp
  congr 1 <;> ac_rfl

theorem columns_forward {α β : Type} {f : Nat → α → α → α → α → β} {start : Nat} {a : Fin 4 → α}
    {b : Fin 4 → β}
    (turn : ∀ c : Fin 4, f (start + c) (a c) (a (c + 1)) (a (c + 2)) (a (c + 3)) = b c) :
    f start (a 0) (a 1) (a 2) (a 3) = b 0 ∧ f (start + 1) (a 1) (a 2) (a 3) (a 0) = b 1 ∧
      f (start + 2) (a 2) (a 3) (a 0) (a 1) = b 2 ∧ f (start + 3) (a 3) (a 0) (a 1) (a 2) = b 3 :=
  ⟨turn 0, turn 1, turn 2, turn 3⟩

theorem tableRound_spec {n : Nat} (written : Written rk (fun n => packWord (w n)) count)
    (last : 4 * n + 4 ≤ count) (s : State) :
    tableRound rk (4 * n) (toWords s) = some (toWords (Fips197.round w n s)) := by
  obtain ⟨word0, word1, word2, word3⟩ := columns_forward fun c : Fin 4 =>
    roundWord_spec (written (4 * n + c) (by omega)) s
  simp only [tableRound, toWords, word0, word1, word2, word3, Option.bind_eq_bind,
    Option.bind_some]
  rfl

/-- The words of a thread after `n` rounds. -/
def wordsAfter (rk : RdKey) (devState : Buffer) (start : Nat) : Nat → Option Words
  | 0 => loadState rk devState start
  | n + 1 => do tableRound rk (4 * (n + 1)) (← wordsAfter rk devState start n)

theorem wordsAfter_spec {devState : Buffer} {start n : Nat}
    (written : Written rk (fun n => packWord (w n)) count) (last : 4 * n + 4 ≤ count)
    (room : start + 16 ≤ devState.size) :
    wordsAfter rk devState start n =
      some (toWords (stateAfter w (ofBytes fun i => devState.bytes (start + i)) n)) := by
  induction n with
  | zero => exact loadState_spec written last room
  | succ n ih =>
    rw [wordsAfter, ih (by omega)]
    exact tableRound_spec written last _

def nineRounds (rk : RdKey) (devState : Buffer) (start : Nat) : Option Words := do
  let s ← loadState rk devState start
  let t ← tableRound rk 4 s
  let s ← tableRound rk 8 t
  let t ← tableRound rk 12 s
  let s ← tableRound rk 16 t
  let t ← tableRound rk 20 s
  let s ← tableRound rk 24 t
  let t ← tableRound rk 28 s
  let s ← tableRound rk 32 t
  tableRound rk 36 s

theorem nineRounds_eq (rk : RdKey) (devState : Buffer) (start : Nat) :
    nineRounds rk devState start = wordsAfter rk devState start 9 := by
  simp only [nineRounds, wordsAfter, bind_assoc]

theorem lastWord_spec {n : Nat} {c : Fin 4}
    (key : rk[4 * n + c]? = some (packWord (w (4 * n + c)))) (s : State) :
    lastWord rk (4 * n + c) (column s c) (column s (c + 1)) (column s (c + 2)) (column s (c + 3)) =
      some (column (finalRound w n s) c) := by
  rw [lastWord, key]
  simp only [column, packWord, packU32_shift24, packU32_shift16, packU32_shift8]
  simp [te4Bytes_spec, finalRound, addRoundKey, Fips197.shiftRows, Fips197.subBytes]

end Rounds

/-! ## The memory -/

theorem PUTU32_spec {buffer : Buffer} {ct : Nat} (room : ct + 4 ≤ buffer.size) (s : State)
    (c : Fin 4) :
    ∃ buffer', PUTU32 buffer ct (column s c) = some buffer' ∧ buffer'.size = buffer.size ∧
      (∀ r : Fin 4, buffer'.bytes (ct + r) = s r c) ∧
      ∀ i, i < ct ∨ ct + 4 ≤ i → buffer'.bytes i = buffer.bytes i := by
  have store (content : Nat → Byte) (i : Nat) (b : Byte) (inside : i < buffer.size) :
      Buffer.store ⟨buffer.size, content⟩ i b = some ⟨buffer.size, Function.update content i b⟩ :=
    if_pos inside
  obtain ⟨size, bytes⟩ := buffer
  simp only at store room ⊢
  let written := Function.update (Function.update (Function.update (Function.update bytes ct (s 0 c))
    (ct + 1) (s 1 c)) (ct + 2) (s 2 c)) (ct + 3) (s 3 c)
  refine ⟨⟨size, written⟩, ?_, rfl, fun r => ?_, fun i outside => ?_⟩
  · simp only [PUTU32, column, packWord, packU32_shift24, packU32_shift16, packU32_shift8,
      packU32_setWidth, Option.bind_eq_bind]
    rw [store _ ct _ (by omega), Option.bind_some, store _ (ct + 1) _ (by omega), Option.bind_some,
      store _ (ct + 2) _ (by omega), Option.bind_some, store _ (ct + 3) _ (by omega)]
  · fin_cases r <;> simp [written]
  · simp [written, show i ≠ ct by omega, show i ≠ ct + 1 by omega,
      show i ≠ ct + 2 by omega, show i ≠ ct + 3 by omega]

theorem warmUp_spec {dummy : Buffer} {localid : Nat} (room : localid < dummy.size) :
    ∃ dummy', warmUp dummy localid = some dummy' ∧ dummy'.size = dummy.size := by
  rw [warmUp]
  generalize Te4_h = entries
  induction entries generalizing dummy with
  | nil => exact ⟨dummy, rfl, rfl⟩
  | cons entry entries ih =>
    have sum := @ih ⟨dummy.size,
      Function.update dummy.bytes localid (dummy.bytes localid + entry.setWidth 8)⟩ room
    obtain ⟨dummy', run, size⟩ := sum
    refine ⟨dummy', ?_, size⟩
    rw [List.foldlM_cons, Buffer.load, if_pos room, ← run]
    simp [Buffer.store, room]

theorem storeColumns_spec {devState : Buffer} {start : Nat} (room : start + 16 ≤ devState.size)
    (s : State) (order : Fin 4 → Fin 4) :
    ∃ b0 b1 b2 devState', PUTU32 devState start (column s (order 0)) = some b0 ∧
      PUTU32 b0 (start + 4) (column s (order 1)) = some b1 ∧
      PUTU32 b1 (start + 8) (column s (order 2)) = some b2 ∧
      PUTU32 b2 (start + 12) (column s (order 3)) = some devState' ∧
      devState'.size = devState.size ∧
      (∀ c r : Fin 4, devState'.bytes (start + 4 * c + r) = s r (order c)) ∧
      ∀ i, i < start ∨ start + 16 ≤ i → devState'.bytes i = devState.bytes i := by
  obtain ⟨b0, put0, size0, here0, other0⟩ := @PUTU32_spec devState start (by omega) s (order 0)
  obtain ⟨b1, put1, size1, here1, other1⟩ := @PUTU32_spec b0 (start + 4) (by omega) s (order 1)
  obtain ⟨b2, put2, size2, here2, other2⟩ := @PUTU32_spec b1 (start + 8) (by omega) s (order 2)
  obtain ⟨b3, put3, size3, here3, other3⟩ := @PUTU32_spec b2 (start + 12) (by omega) s (order 3)
  refine ⟨b0, b1, b2, b3, put0, put1, put2, put3, by omega, fun c r => ?_, fun i outside => ?_⟩
  · -- the words written later do not touch a column
    match c with
    | 0 =>
      rw [other3 _ (by simp; omega), other2 _ (by simp; omega), other1 _ (by simp)]
      exact here0 r
    | 1 =>
      rw [other3 _ (by simp; omega), other2 _ (by simp; omega)]
      exact here1 r
    | 2 =>
      rw [other3 _ (by simp; omega)]
      exact here2 r
    | 3 => exact here3 r
  · rw [other3 i (by omega), other2 i (by omega), other1 i (by omega), other0 i (by omega)]

theorem ofBytes_columns {bytes : Nat → Byte} {start : Nat} {s : State}
    (columns : ∀ c r : Fin 4, bytes (start + 4 * c + r) = s r c) :
    (ofBytes fun i => bytes (start + i)) = s := by
  funext r c
  rw [ofBytes, Nat.add_comm r.val, ← Nat.add_assoc, columns]

section LastRound

variable {rk : RdKey} {w : Nat → Word} {n count : Nat}

theorem storeLast_spec {devState : Buffer} {start : Nat}
    (written : Written rk (fun n => packWord (w n)) count) (last : 4 * n + 4 ≤ count)
    (room : start + 16 ≤ devState.size) (s : State) :
    ∃ devState', storeLast rk (4 * n) (toWords s) devState start = some devState' ∧
      devState'.size = devState.size ∧
      (ofBytes fun i => devState'.bytes (start + i)) = finalRound w n s ∧
      ∀ i, i < start ∨ start + 16 ≤ i → devState'.bytes i = devState.bytes i := by
  obtain ⟨word0, word1, word2, word3⟩ := columns_forward fun c : Fin 4 =>
    lastWord_spec (written (4 * n + c) (by omega)) s
  obtain ⟨b0, b1, b2, devState', put0, put1, put2, put3, size, columns, other⟩ :=
    storeColumns_spec room (finalRound w n s) id
  simp only [id] at put0 put1 put2 put3
  refine ⟨devState', ?_, size, ofBytes_columns columns, other⟩
  simp only [storeLast, toWords, word0, word1, word2, word3, Option.bind_eq_bind,
    Option.bind_some, put0, put1, put2, put3]

end LastRound

/-! ## The thread -/

theorem cudaRunner_eq (ek : AesKey) (device : Device) (localid : Nat) :
    cudaRunner ek device localid = do
      let dummy ← warmUp device.dummy localid
      let t ← wordsAfter ek.rd_key device.devState (localid * 16) 9
      let devState ← storeLast ek.rd_key (4 * ek.rounds) t device.devState (localid * 16)
      return { devState, dummy } := by
  simp only [cudaRunner, wordsAfter, bind_assoc]

theorem cudaRunner_spec {nk : Nat} (accepted : nk = 4 ∨ nk = 6 ∨ nk = 8)
    {userKey : Buffer} (size : 4 * nk ≤ userKey.size) (key : AesKey)
    {device : Device} {localid : Nat} (inBounds : device.InBounds localid) :
    let w := Fips197.keyExpansion nk (Fips197.words userKey.bytes)
    ∃ ek device', AES_set_encrypt_key (some userKey) (32 * nk) (some key) = some (0, some ek) ∧
      Written ek.rd_key (fun n => packWord (w n)) (4 * (Fips197.rounds nk + 1)) ∧
      cudaRunner ek device localid = some device' ∧
      ofBytes (device'.block localid) = finalRound w (Fips197.rounds nk)
        (stateAfter w (ofBytes (device.block localid)) 9) ∧
      ∀ i, i < localid * 16 ∨ localid * 16 + 16 ≤ i →
        device'.devState.bytes i = device.devState.bytes i := by
  intro w
  obtain ⟨room, few⟩ := inBounds
  obtain ⟨ek, expanded, rounds, written⟩ := AES_set_encrypt_key_spec accepted size key
  rw [rounds] at written
  have enough : 10 ≤ Fips197.rounds nk := by
    rw [Fips197.rounds]
    omega
  obtain ⟨dummy', warm, -⟩ := warmUp_spec few
  have nine := @wordsAfter_spec _ _ _ device.devState (localid * 16) 9 written (by omega) room
  obtain ⟨devState', store, -, here, other⟩ := storeLast_spec written (Nat.le_refl _) room
    (stateAfter w (ofBytes (device.block localid)) 9)
  refine ⟨ek, ⟨devState', dummy'⟩, expanded, written, ?_, here, other⟩
  rw [cudaRunner_eq, warm, nine, rounds, Option.bind_eq_bind, Option.bind_some]
  exact congrArg (Option.bind · _) store

theorem finalRound_inj {w : Nat → Word} {n : Nat} {s t : State} :
    finalRound w n s = finalRound w n t ↔ s = t := by
  refine ⟨fun same => ?_, fun same => by rw [same]⟩
  funext r c
  have entry := congrFun (congrFun same r) (c - r)
  simp only [finalRound, addRoundKey, Fips197.shiftRows, Fips197.subBytes, sub_add_cancel] at entry
  exact sBox_injective ((BitVec.xor_left_inj _).mp entry)

/-- With a key of 128 bits the kernel writes the encryption of its block, and nothing else to
    the state. -/
theorem cudaRunner_encrypts {userKey : Buffer} (size : 16 ≤ userKey.size) (key : AesKey)
    {device : Device} {localid : Nat} (inBounds : device.InBounds localid) :
    ∃ ek device', AES_set_encrypt_key (some userKey) 128 (some key) = some (0, some ek) ∧
      cudaRunner ek device localid = some device' ∧
      ofBytes (device'.block localid) = encrypt 4 userKey.bytes (device.block localid) ∧
      ∀ i, i < localid * 16 ∨ localid * 16 + 16 ≤ i →
        device'.devState.bytes i = device.devState.bytes i := by
  obtain ⟨ek, device', expanded, -, run, block, other⟩ :=
    @cudaRunner_spec 4 (Or.inl rfl) userKey size key device localid inBounds
  exact ⟨ek, device', expanded, run, block, other⟩

/-- A key and a block of zeros. -/
theorem cudaRunner_encrypts_zeros : ∃ ek device',
    AES_set_encrypt_key (some ⟨16, fun _ => 0⟩) 128 (some ⟨Vector.replicate 60 0, 0⟩) =
      some (0, some ek) ∧
    cudaRunner ek ⟨⟨16, fun _ => 0⟩, ⟨1, fun _ => 0⟩⟩ 0 = some device' ∧
    ofBytes (device'.block 0) = encrypt 4 (fun _ => 0) fun _ => 0 := by
  obtain ⟨ek, device', expanded, run, block, -⟩ :=
    @cudaRunner_encrypts ⟨16, fun _ => 0⟩ (by simp) ⟨Vector.replicate 60 0, 0⟩
      ⟨⟨16, fun _ => 0⟩, ⟨1, fun _ => 0⟩⟩ 0 ⟨by simp, by simp⟩
  exact ⟨ek, device', expanded, run, block⟩

/-- The last round key is that of the accepted key size, but the rounds are nine: for each size
    the kernel encrypts exactly if the rounds in between do nothing. -/
theorem cudaRunner_encrypts_iff {nk : Nat} (accepted : nk = 4 ∨ nk = 6 ∨ nk = 8)
    {userKey : Buffer} (size : 4 * nk ≤ userKey.size) (key : AesKey)
    {device : Device} {localid : Nat} (inBounds : device.InBounds localid) :
    ∃ ek device', AES_set_encrypt_key (some userKey) (32 * nk) (some key) = some (0, some ek) ∧
      cudaRunner ek device localid = some device' ∧
      (ofBytes (device'.block localid) = encrypt nk userKey.bytes (device.block localid) ↔
        nk = 4 ∨
          let w := Fips197.keyExpansion nk (Fips197.words userKey.bytes)
          let plain := ofBytes (device.block localid)
          stateAfter w plain 9 = stateAfter w plain (Fips197.rounds nk - 1)) := by
  obtain ⟨ek, device', expanded, -, run, block, -⟩ := cudaRunner_spec accepted size key inBounds
  refine ⟨ek, device', expanded, run, ?_⟩
  rw [block, encrypt, Fips197.cipher, finalRound_inj]
  dsimp only
  constructor
  · exact Or.inr
  · rintro (rfl | same)
    · rfl
    · exact same

/-- A key of 192 zero bits: the kernel leaves rounds 10 and 11 out. -/
theorem cudaRunner_encrypts_iff_zeros : ∃ ek device',
    AES_set_encrypt_key (some ⟨24, fun _ => 0⟩) 192 (some ⟨Vector.replicate 60 0, 0⟩) =
      some (0, some ek) ∧
    cudaRunner ek ⟨⟨16, fun _ => 0⟩, ⟨1, fun _ => 0⟩⟩ 0 = some device' ∧
    (ofBytes (device'.block 0) = encrypt 6 (fun _ => 0) (fun _ => 0) ↔
      let w := Fips197.keyExpansion 6 (Fips197.words fun _ => 0)
      stateAfter w (ofBytes fun _ => 0) 9 = stateAfter w (ofBytes fun _ => 0) 11) := by
  obtain ⟨ek, device', expanded, run, encrypts⟩ :=
    @cudaRunner_encrypts_iff 6 (by simp) ⟨24, fun _ => 0⟩ (by simp) ⟨Vector.replicate 60 0, 0⟩
      ⟨⟨16, fun _ => 0⟩, ⟨1, fun _ => 0⟩⟩ 0 ⟨by simp, by simp⟩
  exact ⟨ek, device', expanded, run, encrypts.trans (or_iff_right (by simp))⟩

theorem missing_rounds_matter : (do
    let expanded ← AES_set_encrypt_key (some ⟨24, fun _ => 0⟩) 192 (some ⟨Vector.replicate 60 0, 0⟩)
    let ek ← expanded.2
    let s ← wordsAfter ek.rd_key ⟨16, fun _ => 0⟩ 0 9
    let t ← wordsAfter ek.rd_key ⟨16, fun _ => 0⟩ 0 11
    return s.s0 == t.s0) = some false := by
  decide

theorem cudaRunner_192_differs : ¬ ∀ nk : Nat, nk = 4 ∨ nk = 6 ∨ nk = 8 →
    ∀ userKey : Buffer, 4 * nk ≤ userKey.size → ∀ (key : AesKey) (device : Device) (localid : Nat),
      device.InBounds localid → ∃ ek device',
        AES_set_encrypt_key (some userKey) (32 * nk) (some key) = some (0, some ek) ∧
        cudaRunner ek device localid = some device' ∧
        ofBytes (device'.block localid) = encrypt nk userKey.bytes (device.block localid) := by
  intro encrypts
  let userKey : Buffer := ⟨24, fun _ => 0⟩
  let key : AesKey := ⟨Vector.replicate 60 0, 0⟩
  let device : Device := ⟨⟨16, fun _ => 0⟩, ⟨1, fun _ => 0⟩⟩
  have inBounds : device.InBounds 0 := ⟨by simp [device], by simp [device]⟩
  obtain ⟨ek, device', expanded, run, block⟩ :=
    encrypts 6 (by simp) userKey (by simp [userKey]) key device 0 inBounds
  obtain ⟨ek', device'', expanded', written, run', block', -⟩ :=
    @cudaRunner_spec 6 (by simp) userKey (by simp [userKey]) key device 0 inBounds
  cases expanded.symm.trans expanded'
  cases run.symm.trans run'
  rw [block', encrypt, Fips197.cipher, finalRound_inj] at block
  have nine := @wordsAfter_spec _ _ _ device.devState 0 9 written (by decide) (by simp [device])
  have eleven := @wordsAfter_spec _ _ _ device.devState 0 11 written (by decide) (by simp [device])
  have differ : ((AES_set_encrypt_key (some userKey) (32 * (6 : Nat)) (some key)).bind fun expanded =>
      expanded.2.bind fun ek => (wordsAfter ek.rd_key device.devState 0 9).bind fun s =>
        (wordsAfter ek.rd_key device.devState 0 11).bind fun t => some (s.s0 == t.s0)) =
      some false := missing_rounds_matter
  let w := Fips197.keyExpansion 6 (Fips197.words userKey.bytes)
  let plain := ofBytes fun i => device.devState.bytes (0 + i)
  have same : stateAfter w plain 9 = stateAfter w plain 11 := block
  rw [expanded, Option.bind_some, Option.bind_some, nine, eleven, Option.bind_some,
    Option.bind_some, same, beq_self_eq_true] at differ
  cases differ

/-! ## Different blocks have different ciphertexts

Each step of the cipher keeps states apart, whatever the round keys are.
-/

theorem addRoundKey_injective (w : Nat → Word) (first : Nat) :
    Function.Injective (addRoundKey w first) := by
  intro s t same
  funext r c
  have entry := congrFun (congrFun same r) c
  exact (BitVec.xor_left_inj _).mp entry

theorem shiftRows_injective : Function.Injective Fips197.shiftRows := by
  intro s t same
  funext r c
  have entry := congrFun (congrFun same r) (c - r)
  simpa only [Fips197.shiftRows, sub_add_cancel] using entry

theorem subBytes_injective : Function.Injective Fips197.subBytes := by
  intro s t same
  funext r c
  exact sBox_injective (congrFun (congrFun same r) c)

theorem round_injective (w : Nat → Word) (n : Nat) : Function.Injective (Fips197.round w n) :=
  (addRoundKey_injective w _).comp
    (Fips197.mixColumns_injective.comp (shiftRows_injective.comp subBytes_injective))

theorem stateAfter_injective (w : Nat → Word) (n : Nat) :
    Function.Injective fun s => stateAfter w s n := by
  induction n with
  | zero => exact addRoundKey_injective w 0
  | succ n ih => exact (round_injective w (n + 1)).comp ih

theorem ofBytes_inj {block block' : Nat → Byte} :
    ofBytes block = ofBytes block' ↔ ∀ i < 16, block i = block' i := by
  constructor
  · intro same i inside
    have entry := congrFun (congrFun same ⟨i % 4, by omega⟩) ⟨i / 4, by omega⟩
    simpa only [ofBytes, Nat.mod_add_div] using entry
  · intro same
    funext r c
    exact same _ (by omega)

theorem encrypt_inj {nk : Nat} {key block block' : Nat → Byte} :
    encrypt nk key block = encrypt nk key block' ↔ ∀ i < 16, block i = block' i := by
  rw [encrypt, encrypt, Fips197.cipher, Fips197.cipher, finalRound_inj,
    (stateAfter_injective _ _).eq_iff, ofBytes_inj]

end AesOnGpu.Aes
