import AesOnGpu.Aes.Encryption

/-! # The instrumented kernel

`cudaRunner` of `test-collector.cu`, which has the tables, the key schedule and the first nine
rounds of the one of `collector.cu`.  It stores the last round's words once in another order, and
then computes them again from sixteen loads, of which it times the first.
-/

namespace AesOnGpu.Aes

open Fips197 (Byte Word State sBox stateAfter finalRound ofBytes)

namespace TestCollector

/-- The global memory; `times` has `times_size` entries. -/
structure Device where
  devState : Buffer
  times_size : Nat
  times : Nat → BitVec 64

/-- `Te4[(tt)]`, where `tt` is an `unsigned char`. -/
def loadTe4 (tt : Byte) : Option U32 := lookup Te4_h (tt.setWidth 64)

/-- Four loads put together, and a word of the key. -/
def recombine (ss1 ss2 ss3 ss4 key : U32) : U32 :=
  let s := ss1 &&& 0xff000000
  let s := s ^^^ (ss2 &&& 0x00ff0000)
  let s := s ^^^ (ss3 &&& 0x0000ff00)
  let s := s ^^^ (ss4 &&& 0x000000ff)
  s ^^^ key

/-- `PUTU32` of the four words of a block. -/
def storeWords (devState : Buffer) (start : Nat) (word0 word1 word2 word3 : U32) :
    Option Buffer := do
  let devState ← PUTU32 devState start word0
  let devState ← PUTU32 devState (start + 4) word1
  let devState ← PUTU32 devState (start + 8) word2
  PUTU32 devState (start + 12) word3

/-- The thread with number `localid`; `tmp` and `now` are what `clock` returns before and after the
    first load. -/
def cudaRunner (ek : AesKey) (tmp now : BitVec 64) (device : Device) (localid : Nat) :
    Option Device := do
  let rk := ek.rd_key
  let start := localid * 16
  let t ← nineRounds rk device.devState start
  -- `rk += ek->rounds << 2`
  let first := 4 * ek.rounds
  let s0 ← lastWord rk first t.s0 t.s1 t.s2 t.s3
  let s1 ← lastWord rk (first + 1) t.s1 t.s2 t.s3 t.s0
  let s2 ← lastWord rk (first + 2) t.s2 t.s3 t.s0 t.s1
  let s3 ← lastWord rk (first + 3) t.s3 t.s0 t.s1 t.s2
  let devState ← storeWords device.devState start s1 s2 s3 s0
  let tt1 : Byte := (t.s0 >>> 24).setWidth 8
  let tt2 : Byte := ((t.s1 >>> 16) &&& 0xff).setWidth 8
  let tt3 : Byte := ((t.s2 >>> 8) &&& 0xff).setWidth 8
  let tt4 : Byte := (t.s3 &&& 0xff).setWidth 8
  let tt5 : Byte := (t.s1 >>> 24).setWidth 8
  let tt6 : Byte := ((t.s2 >>> 16) &&& 0xff).setWidth 8
  let tt7 : Byte := ((t.s3 >>> 8) &&& 0xff).setWidth 8
  let tt8 : Byte := (t.s0 &&& 0xff).setWidth 8
  let tt9 : Byte := (t.s2 >>> 24).setWidth 8
  let tt10 : Byte := ((t.s3 >>> 16) &&& 0xff).setWidth 8
  let tt11 : Byte := ((t.s0 >>> 8) &&& 0xff).setWidth 8
  let tt12 : Byte := (t.s1 &&& 0xff).setWidth 8
  let tt13 : Byte := (t.s3 >>> 24).setWidth 8
  let tt14 : Byte := ((t.s0 >>> 16) &&& 0xff).setWidth 8
  let tt15 : Byte := ((t.s1 >>> 8) &&& 0xff).setWidth 8
  let tt16 : Byte := (t.s2 &&& 0xff).setWidth 8
  let ss1 ← loadTe4 tt1
  let times ← if localid < device.times_size then
    some (Function.update device.times localid (now - tmp)) else none
  let ss2 ← loadTe4 tt2
  let ss3 ← loadTe4 tt3
  let ss4 ← loadTe4 tt4
  let ss5 ← loadTe4 tt5
  let ss6 ← loadTe4 tt6
  let ss7 ← loadTe4 tt7
  let ss8 ← loadTe4 tt8
  let ss9 ← loadTe4 tt9
  let ss10 ← loadTe4 tt10
  let ss11 ← loadTe4 tt11
  let ss12 ← loadTe4 tt12
  let ss13 ← loadTe4 tt13
  let ss14 ← loadTe4 tt14
  let ss15 ← loadTe4 tt15
  let ss16 ← loadTe4 tt16
  let s0 := recombine ss1 ss2 ss3 ss4 (← rk[first]?)
  let s1 := recombine ss5 ss6 ss7 ss8 (← rk[first + 1]?)
  let s2 := recombine ss9 ss10 ss11 ss12 (← rk[first + 2]?)
  let s3 := recombine ss13 ss14 ss15 ss16 (← rk[first + 3]?)
  let devState ← storeWords devState start s0 s1 s2 s3
  return { device with devState, times }

/-! ## The loads -/

theorem loadTe4_spec (x : Byte) :
    loadTe4 x = some (packU32 (sBox x) (sBox x) (sBox x) (sBox x)) := by
  obtain ⟨-, -, -, -, te4_eq⟩ := te_eq
  have index : x.setWidth 64 = packU32 0#8 0#8 0#8 x := by simp [packU32]
  rw [loadTe4, index]
  exact lookup_spec te4_eq x

theorem column_index (s : State) (c : Fin 4) :
    (column s c >>> 24).setWidth 8 = s 0 c ∧ ((column s c >>> 16) &&& 0xff).setWidth 8 = s 1 c ∧
      ((column s c >>> 8) &&& 0xff).setWidth 8 = s 2 c ∧ (column s c &&& 0xff).setWidth 8 = s 3 c := by
  simp [column, packWord]

theorem recombine_spec (w : Nat → Word) (n : Nat) (s : State) {c c1 c2 c3 : Fin 4}
    (next : c1 = c + 1) (next2 : c2 = c + 2) (next3 : c3 = c + 3) :
    recombine
        (packU32 (sBox (s 0 c)) (sBox (s 0 c)) (sBox (s 0 c)) (sBox (s 0 c)))
        (packU32 (sBox (s 1 c1)) (sBox (s 1 c1)) (sBox (s 1 c1)) (sBox (s 1 c1)))
        (packU32 (sBox (s 2 c2)) (sBox (s 2 c2)) (sBox (s 2 c2)) (sBox (s 2 c2)))
        (packU32 (sBox (s 3 c3)) (sBox (s 3 c3)) (sBox (s 3 c3)) (sBox (s 3 c3)))
        (packWord (w (4 * n + c))) =
      column (finalRound w n s) c := by
  subst next next2 next3
  simp [recombine, column, packWord, finalRound, Fips197.addRoundKey, Fips197.shiftRows,
    Fips197.subBytes]

/-! ## The stores -/

theorem storeWords_spec {devState : Buffer} {start : Nat} (room : start + 16 ≤ devState.size)
    (s : State) (order : Fin 4 → Fin 4) :
    ∃ devState', storeWords devState start (column s (order 0)) (column s (order 1))
        (column s (order 2)) (column s (order 3)) = some devState' ∧
      devState'.size = devState.size ∧
      (∀ c r : Fin 4, devState'.bytes (start + 4 * c + r) = s r (order c)) ∧
      ∀ i, i < start ∨ start + 16 ≤ i → devState'.bytes i = devState.bytes i := by
  obtain ⟨b0, b1, b2, devState', put0, put1, put2, put3, size, columns, other⟩ :=
    storeColumns_spec room s order
  refine ⟨devState', ?_, size, columns, other⟩
  simp only [storeWords, put0, put1, put2, put3, Option.bind_eq_bind, Option.bind_some]

section Thread

variable {ek : AesKey} {w : Nat → Word}

theorem cudaRunner_spec (enough : 9 ≤ ek.rounds)
    (written : Written ek.rd_key (fun n => packWord (w n)) (4 * (ek.rounds + 1)))
    {device : Device} {localid : Nat} (room : localid * 16 + 16 ≤ device.devState.size)
    (timed : localid < device.times_size) (tmp now : BitVec 64) :
    ∃ device', cudaRunner ek tmp now device localid = some device' ∧
      (ofBytes fun i => device'.devState.bytes (localid * 16 + i)) = finalRound w ek.rounds
        (stateAfter w (ofBytes fun i => device.devState.bytes (localid * 16 + i)) 9) ∧
      ∀ i, i < localid * 16 ∨ localid * 16 + 16 ≤ i →
        device'.devState.bytes i = device.devState.bytes i := by
  have nine := @wordsAfter_spec _ _ _ device.devState (localid * 16) 9 written (by omega) room
  generalize stateAfter w (ofBytes fun i => device.devState.bytes (localid * 16 + i)) 9 = s at nine ⊢
  obtain ⟨word0, word1, word2, word3⟩ := columns_forward fun c : Fin 4 =>
    lastWord_spec (written (4 * ek.rounds + c) (by omega)) s
  -- first in the wrong order, and then again in the right one
  obtain ⟨rotated, store, size, -, other⟩ :=
    storeWords_spec room (finalRound w ek.rounds s) ![1, 2, 3, 0]
  obtain ⟨devState', restore, -, columns, other'⟩ :=
    storeWords_spec (size ▸ room) (finalRound w ek.rounds s) id
  simp only [Matrix.cons_val, id] at store restore
  have key (c : Fin 4) : ek.rd_key[4 * ek.rounds + c]? = some (packWord (w (4 * ek.rounds + c))) :=
    written _ (by omega)
  have key0 : ek.rd_key[4 * ek.rounds]? = _ := key 0
  have key1 : ek.rd_key[4 * ek.rounds + 1]? = _ := key 1
  have key2 : ek.rd_key[4 * ek.rounds + 2]? = _ := key 2
  have key3 : ek.rd_key[4 * ek.rounds + 3]? = _ := key 3
  refine ⟨⟨devState', device.times_size, Function.update device.times localid (now - tmp)⟩,
    ?_, ofBytes_columns columns, fun i outside => (other' i outside).trans (other i outside)⟩
  -- the loads first, while the words they are indexed with are not known
  simp only [cudaRunner, loadTe4_spec, nineRounds_eq, Option.bind_eq_bind, Option.bind_some]
  rw [nine, Option.bind_some]
  simp only [toWords, column_index, key0, key1, key2, key3]
  rw [word0, Option.bind_some, word1, Option.bind_some, word2, Option.bind_some, word3,
    Option.bind_some, store, Option.bind_some, if_pos timed]
  simp only [Option.bind_some]
  rw [@recombine_spec w ek.rounds s 0 1 2 3 rfl rfl rfl,
    @recombine_spec w ek.rounds s 1 2 3 0 rfl rfl rfl,
    @recombine_spec w ek.rounds s 2 3 0 1 rfl rfl rfl,
    @recombine_spec w ek.rounds s 3 0 1 2 rfl rfl rfl, restore, Option.bind_some]
  rfl

end Thread

/-! ## Both kernels -/

/-- A key of 128 bits: what the instrumented kernel leaves in the state is what the plain one
    leaves there, whatever the clock shows. -/
theorem cudaRunner_same {userKey : Buffer} (size : 16 ≤ userKey.size) (key : AesKey) :
    ∃ ek, AES_set_encrypt_key (some userKey) 128 (some key) = some (0, some ek) ∧
      ∀ (device : Aes.Device) (timed : Device) (localid : Nat) (tmp now : BitVec 64),
        device.InBounds localid → timed.devState = device.devState → localid < timed.times_size →
        ∃ device' timed', Aes.cudaRunner ek device localid = some device' ∧
          cudaRunner ek tmp now timed localid = some timed' ∧
          ∀ i, timed'.devState.bytes i = device'.devState.bytes i := by
  obtain ⟨ek, expanded, rounds, written⟩ := @AES_set_encrypt_key_spec 4 (by simp) userKey size key
  refine ⟨ek, expanded, fun device timed localid tmp now inBounds sameState slot => ?_⟩
  obtain ⟨ek', device', expanded', -, run, block, other⟩ :=
    @Aes.cudaRunner_spec 4 (by simp) userKey size key device localid inBounds
  cases expanded.symm.trans expanded'
  have room : localid * 16 + 16 ≤ timed.devState.size := sameState ▸ inBounds.1
  obtain ⟨timed', run', block', other'⟩ := cudaRunner_spec (by simp [rounds, Fips197.rounds])
    written room slot tmp now
  refine ⟨device', timed', run, run', fun i => ?_⟩
  by_cases outside : i < localid * 16 ∨ localid * 16 + 16 ≤ i
  · rw [other' i outside, other i outside, sameState]
  · have blocks : (ofBytes fun i => timed'.devState.bytes (localid * 16 + i)) =
        ofBytes (device'.block localid) := by
      rw [block', block, rounds, sameState]
      rfl
    have here := ofBytes_inj.mp blocks (i - localid * 16) (by omega)
    rwa [Device.block, show localid * 16 + (i - localid * 16) = i by omega] at here

/-- A key and a block of zeros. -/
theorem cudaRunner_same_zeros : ∃ ek device' timed',
    AES_set_encrypt_key (some ⟨16, fun _ => 0⟩) 128 (some ⟨Vector.replicate 60 0, 0⟩) =
      some (0, some ek) ∧
    Aes.cudaRunner ek ⟨⟨16, fun _ => 0⟩, ⟨1, fun _ => 0⟩⟩ 0 = some device' ∧
    cudaRunner ek 5 305 ⟨⟨16, fun _ => 0⟩, 1, fun _ => 0⟩ 0 = some timed' ∧
    ∀ i, timed'.devState.bytes i = device'.devState.bytes i := by
  obtain ⟨ek, expanded, same⟩ :=
    @cudaRunner_same ⟨16, fun _ => 0⟩ (by simp) ⟨Vector.replicate 60 0, 0⟩
  obtain ⟨device', timed', run, run', states⟩ := same ⟨⟨16, fun _ => 0⟩, ⟨1, fun _ => 0⟩⟩
    ⟨⟨16, fun _ => 0⟩, 1, fun _ => 0⟩ 0 5 305 ⟨by simp, by simp⟩ rfl (by simp)
  exact ⟨ek, device', timed', expanded, run, run', states⟩

end TestCollector
end AesOnGpu.Aes
