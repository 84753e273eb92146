import AesOnGpu.Lib.Coding
import AesOnGpu.Compression.Buffer

/-! # Frequent-pattern size accounting

`FPCCompress` puts every 32-bit word into the first class whose test it passes
and adds the bytes of that class.  `fpcClass_eq` rewrites the tests as
arithmetic on the word; the class sizes follow by counting.

The one-byte and two-byte tests compare the absolute value with the whole
unsigned range, so both classes hold almost twice as many words as their
payload can name.
-/

namespace AesOnGpu.Compression

open Coding

/-- The branches of the loop body, in the order in which they are tried. -/
inductive FpcClass where
  | zero
  | oneByte
  | twoBytes
  | lowHalfZero
  | twoHalfWords
  | repeatedByte
  | uncompressed
  deriving DecidableEq, Repr

/-- The bytes a branch adds to `compressable`. -/
def FpcClass.bytes : FpcClass → Nat
  | zero => 0
  | oneByte => 1
  | twoBytes => 2
  | lowHalfZero => 2
  | twoHalfWords => 2
  | repeatedByte => 1
  | uncompressed => 4

/-- `abs` on `int`. The language leaves its result for the most negative value open: `absMin` is
    what the machine makes of it. -/
def intAbs (absMin x : BitVec 32) : BitVec 32 :=
  if x = .intMin 32 then absMin else if x.slt 0 then -x else x

variable (absMin : BitVec 32)

def fpcClass (value : BitVec 64) : FpcClass :=
  if value == 0 then .zero
  else if (intAbs absMin (value.setWidth 32)).sle 0xFF#32 then .oneByte
  else if (intAbs absMin (value.setWidth 32)).sle 0xFFFF#32 then .twoBytes
  else if value &&& 0xFFFF#64 == 0 then .lowHalfZero
  else if (intAbs absMin ((value &&& 0xFFFF#64).setWidth 32)).sle 0xFF#32
      && (intAbs absMin (((value >>> 16) &&& 0xFFFF#64).setWidth 32)).sle 0xFF#32 then
    .twoHalfWords
  else
    let byte0 : BitVec 32 := (value &&& 0xFF#64).setWidth 32
    let byte1 : BitVec 32 := ((value >>> 8) &&& 0xFF#64).setWidth 32
    let byte2 : BitVec 32 := ((value >>> 16) &&& 0xFF#64).setWidth 32
    let byte3 : BitVec 32 := ((value >>> 24) &&& 0xFF#64).setWidth 32
    if byte0 == byte1 && byte0 == byte2 && byte0 == byte3 then .repeatedByte else .uncompressed

def compressable (values : List (BitVec 64)) : Nat :=
  values.foldl (fun compressable value => compressable + (fpcClass absMin value).bytes) 0

/-- `size` is the number of 32-bit words. -/
def FPCCompress (buffer : List (BitVec 8)) (size : Nat) : Nat :=
  let values := convertBuffer2Array buffer (size * 4) 4
  let compSize := compressable absMin values + size * 3 / 8
  if compSize < size * 4 then compSize else size * 4

/-! ## The class tests as arithmetic -/

theorem intAbs_sle (x : BitVec 32) {bound : Nat} (small : bound < 2 ^ 31) :
    (intAbs absMin x).sle (BitVec.ofNat 32 bound) = true ↔
      x.toNat ≤ bound ∨ 2 ^ 32 - x.toNat ≤ bound ∨
        x.toNat = 2 ^ 31 ∧ absMin.toInt ≤ bound := by
  have range := x.isLt
  have negated : (-x).toNat = (2 ^ 32 - x.toNat) % 2 ^ 32 := BitVec.toNat_neg _
  have least : x = .intMin 32 ↔ x.toNat = 2 ^ 31 := BitVec.toNat_inj.symm
  have sign : x.slt 0 = true ↔ 2 ^ 31 ≤ x.toNat := by
    rw [show x.slt 0 = x.msb from BitVec.slt_zero_eq_msb, BitVec.msb_eq_decide]
    simp
  have boundValue : (BitVec.ofNat 32 bound).toInt = bound := by
    rw [BitVec.toInt_eq_toNat_cond, BitVec.toNat_ofNat]; split <;> omega
  rw [BitVec.sle_iff_toInt_le, boundValue, intAbs]
  split
  next extreme =>
    have value := least.mp extreme
    omega
  next inside =>
    have value := mt least.mpr inside
    split
    next negative => have := sign.mp negative; rw [BitVec.toInt_eq_toNat_cond]; split <;> omega
    next positive => have := mt sign.mpr positive; rw [BitVec.toInt_eq_toNat_cond]; split <;> omega

theorem field_toNat (w : BitVec 32) (shift bits : Nat) (narrow : bits ≤ 32) :
    ((((w.setWidth 64) >>> shift) &&& BitVec.ofNat 64 (2 ^ bits - 1)).setWidth 32).toNat =
      w.toNat / 2 ^ shift % 2 ^ bits := by
  have range := w.isLt
  have maskRange : 2 ^ bits - 1 < 2 ^ 64 := by
    have := Nat.pow_le_pow_right (show 0 < 2 by omega) (show bits ≤ 64 by omega); omega
  have fieldRange : w.toNat / 2 ^ shift % 2 ^ bits < 2 ^ 32 :=
    lt_of_le_of_lt ((Nat.mod_le _ _).trans (Nat.div_le_self _ _)) range
  rw [BitVec.toNat_setWidth, BitVec.toNat_and, BitVec.toNat_ushiftRight, BitVec.toNat_setWidth,
    BitVec.toNat_ofNat, Nat.mod_eq_of_lt maskRange, Nat.and_two_pow_sub_one_eq_mod,
    Nat.shiftRight_eq_div_pow, Nat.mod_eq_of_lt (a := w.toNat) (by omega),
    Nat.mod_eq_of_lt fieldRange]

theorem lowHalf_eq_zero (w : BitVec 32) :
    (w.setWidth 64 &&& 0xFFFF#64 == 0) = true ↔ w.toNat % 65536 = 0 := by
  have range := w.isLt
  rw [beq_iff_eq, ← BitVec.toNat_inj, BitVec.toNat_and,
    show (0xFFFF#64).toNat = 2 ^ 16 - 1 from rfl, Nat.and_two_pow_sub_one_eq_mod,
    BitVec.toNat_setWidth, Nat.mod_eq_of_lt (a := w.toNat) (by omega)]
  rfl

theorem fpcClass_eq (w : BitVec 32) :
    fpcClass absMin (w.setWidth 64) =
      if w.toNat = 0 then .zero
      else if w.toNat ≤ 0xFF ∨ 2 ^ 32 - w.toNat ≤ 0xFF ∨
          w.toNat = 2 ^ 31 ∧ absMin.toInt ≤ 0xFF then .oneByte
      else if w.toNat ≤ 0xFFFF ∨ 2 ^ 32 - w.toNat ≤ 0xFFFF ∨
          w.toNat = 2 ^ 31 ∧ absMin.toInt ≤ 0xFFFF then .twoBytes
      else if w.toNat % 65536 = 0 then .lowHalfZero
      else if w.toNat % 65536 ≤ 0xFF ∧ w.toNat / 65536 ≤ 0xFF then .twoHalfWords
      else if w.toNat % 256 = w.toNat / 256 % 256 ∧ w.toNat % 256 = w.toNat / 65536 % 256 ∧
          w.toNat % 256 = w.toNat / 16777216 then .repeatedByte
      else .uncompressed := by
  have range := w.isLt
  have isZero : (w.setWidth 64 == (0 : BitVec 64)) = true ↔ w.toNat = 0 := by
    rw [beq_iff_eq, ← BitVec.toNat_inj, BitVec.toNat_setWidth]; simp; omega
  have word : (w.setWidth 64).setWidth 32 = w := by simp
  have lowHalf : (intAbs absMin ((w.setWidth 64 &&& 0xFFFF#64).setWidth 32)).sle 0xFF#32 = true ↔
      w.toNat % 65536 ≤ 0xFF := by
    have field := field_toNat w 0 16 (by omega)
    simp only [BitVec.ushiftRight_zero, pow_zero, Nat.div_one, Nat.reducePow, Nat.reduceSub] at field
    rw [intAbs_sle absMin _ (by omega), field]; omega
  have highHalf : (intAbs absMin (((w.setWidth 64 >>> 16) &&& 0xFFFF#64).setWidth 32)).sle 0xFF#32 =
      true ↔ w.toNat / 65536 ≤ 0xFF := by
    have field := field_toNat w 16 16 (by omega)
    simp only [Nat.reducePow, Nat.reduceSub] at field
    rw [intAbs_sle absMin _ (by omega), field]; omega
  have byte (shift : Nat) := field_toNat w shift 8 (by omega)
  have byte0 := byte 0
  have byte1 := byte 8
  have byte2 := byte 16
  have byte3 := byte 24
  simp only [BitVec.ushiftRight_zero, pow_zero, Nat.div_one, Nat.reducePow, Nat.reduceSub]
    at byte0 byte1 byte2 byte3
  have top : w.toNat / 16777216 % 256 = w.toNat / 16777216 := by omega
  simp only [fpcClass, isZero, word, intAbs_sle absMin w (show 0xFF < 2 ^ 31 by omega),
    intAbs_sle absMin w (show 0xFFFF < 2 ^ 31 by omega), lowHalf_eq_zero, Bool.and_eq_true, lowHalf,
    highHalf]
  simp only [beq_iff_eq, ← BitVec.toNat_inj, byte0, byte1, byte2, byte3, top, and_assoc,
    Nat.cast_ofNat]

/-! ## Class sizes -/

/-- The 32-bit words that fall into a class. -/
def wordsOf (c : FpcClass) : Finset (BitVec 32) :=
  Finset.univ.filter fun w => fpcClass absMin (w.setWidth 64) = c

variable {absMin}

@[simp] theorem mem_wordsOf {c : FpcClass} {w : BitVec 32} :
    w ∈ wordsOf absMin c ↔ fpcClass absMin (w.setWidth 64) = c := by
  simp [wordsOf]

theorem fpcClass_word {c : FpcClass} {w : BitVec 32} (inClass : fpcClass absMin (w.setWidth 64) = c) :
    match c with
    | .zero => w.toNat = 0
    | .lowHalfZero => w.toNat % 65536 = 0
    | .twoHalfWords => w.toNat % 65536 ≤ 0xFF ∧ w.toNat / 65536 ≤ 0xFF
    | .repeatedByte => w.toNat % 256 = w.toNat / 256 % 256 ∧
        w.toNat % 256 = w.toNat / 65536 % 256 ∧ w.toNat % 256 = w.toNat / 16777216
    | _ => True := by
  rw [fpcClass_eq] at inClass
  split_ifs at inClass <;> subst inClass <;> trivial

theorem zero_words : (wordsOf absMin .zero).card ≤ 256 ^ 0 := by
  refine card_le_of_encoder (fun _ => 0) (fun _ _ => by norm_num) ?_
  intro a aMember b bMember _
  have aWord := fpcClass_word (mem_wordsOf.mp aMember)
  have bWord := fpcClass_word (mem_wordsOf.mp bMember)
  exact BitVec.eq_of_toNat_eq (aWord.trans bWord.symm)

theorem lowHalfZero_words : (wordsOf absMin .lowHalfZero).card ≤ 256 ^ 2 := by
  refine card_le_of_encoder (fun w => w.toNat / 65536) (fun w _ => by have := w.isLt; omega) ?_
  intro a aMember b bMember equal
  have aWord := fpcClass_word (mem_wordsOf.mp aMember)
  have bWord := fpcClass_word (mem_wordsOf.mp bMember)
  dsimp only at aWord bWord equal
  exact BitVec.eq_of_toNat_eq (by omega)

theorem twoHalfWords_words : (wordsOf absMin .twoHalfWords).card ≤ 256 ^ 2 := by
  refine card_le_of_encoder (fun w => w.toNat % 65536 + 256 * (w.toNat / 65536)) ?_ ?_
  · intro w member
    have word := fpcClass_word (mem_wordsOf.mp member)
    dsimp only at word
    omega
  · intro a aMember b bMember equal
    have aWord := fpcClass_word (mem_wordsOf.mp aMember)
    have bWord := fpcClass_word (mem_wordsOf.mp bMember)
    dsimp only at aWord bWord equal
    exact BitVec.eq_of_toNat_eq (by omega)

theorem repeatedByte_words : (wordsOf absMin .repeatedByte).card ≤ 256 ^ 1 := by
  refine card_le_of_encoder (fun w => w.toNat % 256) (fun w _ => by omega) ?_
  intro a aMember b bMember equal
  have aWord := fpcClass_word (mem_wordsOf.mp aMember)
  have bWord := fpcClass_word (mem_wordsOf.mp bMember)
  dsimp only at aWord bWord equal
  have halves (w : BitVec 32) : w.toNat / 65536 = w.toNat / 256 / 256 ∧
      w.toNat / 16777216 = w.toNat / 256 / 256 / 256 := by omega
  have aHalves := halves a
  have bHalves := halves b
  exact BitVec.eq_of_toNat_eq (by omega)

theorem uncompressed_words : (wordsOf absMin .uncompressed).card ≤ 256 ^ 4 := by
  refine card_le_of_encoder BitVec.toNat (fun w _ => by have := w.isLt; omega) ?_
  intro a _ b _ equal
  exact BitVec.eq_of_toNat_eq equal

theorem oneByte_words : 256 ^ 1 < (wordsOf absMin .oneByte).card := by
  refine le_card_of_family
    (fun k => BitVec.ofNat 32 (if k < 255 then k + 1 else 2 ^ 32 - (k - 254))) (fun k inRange => ?_) ?_
  · rw [mem_wordsOf, fpcClass_eq, BitVec.toNat_ofNat]
    rw [if_neg (by split <;> omega), if_pos (by split <;> omega)]
  · intro a aRange b bRange equal
    simp only [Set.mem_Iio] at aRange bRange
    have values := congrArg BitVec.toNat equal
    simp only [BitVec.toNat_ofNat] at values
    split_ifs at values <;> omega

theorem twoBytes_words : 256 ^ 2 < (wordsOf absMin .twoBytes).card := by
  refine le_card_of_family (fun k => BitVec.ofNat 32
    (if k < 65280 then 256 + k else 2 ^ 32 - (256 + (k - 65280)))) (fun k inRange => ?_) ?_
  · rw [mem_wordsOf, fpcClass_eq, BitVec.toNat_ofNat]
    rw [if_neg (by split <;> omega), if_neg (by split <;> omega), if_pos (by split <;> omega)]
  · intro a aRange b bRange equal
    simp only [Set.mem_Iio] at aRange bRange
    have values := congrArg BitVec.toNat equal
    simp only [BitVec.toNat_ofNat] at values
    split_ifs at values <;> omega

theorem wordsOf_card_le_iff (c : FpcClass) :
    (wordsOf absMin c).card ≤ 256 ^ c.bytes ↔ c ≠ .oneByte ∧ c ≠ .twoBytes := by
  cases c with
  | zero => exact iff_of_true zero_words (by decide)
  | oneByte => exact iff_of_false oneByte_words.not_ge (by decide)
  | twoBytes => exact iff_of_false twoBytes_words.not_ge (by decide)
  | lowHalfZero => exact iff_of_true lowHalfZero_words (by decide)
  | twoHalfWords => exact iff_of_true twoHalfWords_words (by decide)
  | repeatedByte => exact iff_of_true repeatedByte_words (by decide)
  | uncompressed => exact iff_of_true uncompressed_words (by decide)

/-! ## What a line saves -/

/-- The words of the two absolute-value classes. -/
def NearZero (absMin : BitVec 32) (w : Nat) : Prop :=
  w ≠ 0 ∧ (w ≤ 0xFFFF ∨ 2 ^ 32 - w ≤ 0xFFFF ∨ w = 2 ^ 31 ∧ absMin.toInt ≤ 0xFFFF)

/-- The lower half is zero, or both halves are bytes. -/
def Halved (w : Nat) : Prop := w ≠ 0 ∧ (w % 65536 = 0 ∨ w % 65536 ≤ 0xFF ∧ w / 65536 ≤ 0xFF)

/-- Four times the same byte. -/
def Repeated (w : Nat) : Prop :=
  w ≠ 0 ∧ w % 256 = w / 256 % 256 ∧ w % 256 = w / 65536 % 256 ∧ w % 256 = w / 16777216

instance (w : Nat) : Decidable (Halved w) := inferInstanceAs (Decidable (_ ∧ _))

instance (w : Nat) : Decidable (Repeated w) := inferInstanceAs (Decidable (_ ∧ _))

def saved (words : List (BitVec 64)) : Nat :=
  4 * words.countP (·.toNat = 0) + 2 * words.countP (fun w => Halved w.toNat) +
    3 * words.countP (fun w => Repeated w.toNat)

theorem compressable_cons (value : BitVec 64) (values : List (BitVec 64)) :
    compressable absMin (value :: values) =
      (fpcClass absMin value).bytes + compressable absMin values := by
  have start : ∀ (values : List (BitVec 64)) (n : Nat),
      values.foldl (fun compressable value => compressable + (fpcClass absMin value).bytes) n =
        n + compressable absMin values := by
    intro values
    induction values with
    | nil => exact fun n => rfl
    | cons first rest ih =>
      intro n
      have here := ih (n + (fpcClass absMin first).bytes)
      have fresh := ih (0 + (fpcClass absMin first).bytes)
      rw [List.foldl_cons, here, show compressable absMin (first :: rest) = _ from fresh]
      omega
  rw [compressable, List.foldl_cons, start, Nat.zero_add]

theorem fpcClass_far_iff (w : BitVec 32) :
    fpcClass absMin (w.setWidth 64) ≠ .oneByte ∧ fpcClass absMin (w.setWidth 64) ≠ .twoBytes ↔
      ¬ NearZero absMin w.toNat := by
  rw [fpcClass_eq, NearZero]
  split_ifs <;> simp <;> omega

theorem bytes_add_saved (w : BitVec 32) (far : ¬ NearZero absMin w.toNat) :
    (fpcClass absMin (w.setWidth 64)).bytes + (4 * (if w.toNat = 0 then 1 else 0) +
      2 * (if Halved w.toNat then 1 else 0) + 3 * (if Repeated w.toNat then 1 else 0)) = 4 := by
  have range := w.isLt
  rw [NearZero] at far
  have notOneByte : ¬ (w.toNat ≤ 0xFF ∨ 2 ^ 32 - w.toNat ≤ 0xFF ∨
      w.toNat = 2 ^ 31 ∧ absMin.toInt ≤ 0xFF) ∨ w.toNat = 0 := by omega
  rw [fpcClass_eq]
  by_cases zero : w.toNat = 0
  · simp [zero, Halved, Repeated, FpcClass.bytes]
  · have small := notOneByte.resolve_right zero
    have near : ¬ (w.toNat ≤ 0xFFFF ∨ 2 ^ 32 - w.toNat ≤ 0xFFFF ∨
        w.toNat = 2 ^ 31 ∧ absMin.toInt ≤ 0xFFFF) := fun either => far ⟨zero, either⟩
    rw [if_neg zero, if_neg small, if_neg near, if_neg zero]
    by_cases halved : Halved w.toNat
    · have other : ¬ Repeated w.toNat := by
        have second : w.toNat % 65536 = w.toNat % 256 + 256 * (w.toNat / 256 % 256) := by omega
        have third : w.toNat / 65536 = w.toNat / 65536 % 256 + 256 * (w.toNat / 16777216) := by
          omega
        rw [Halved] at halved
        rw [Repeated]
        omega
      rw [if_pos halved, if_neg other]
      split
      · rfl
      · rename_i low
        rw [if_pos (halved.2.resolve_left low)]
        rfl
    · rw [if_neg halved, if_neg fun low => halved ⟨zero, .inl low⟩,
        if_neg fun bytes => halved ⟨zero, .inr bytes⟩]
      by_cases repeated : Repeated w.toNat
      · rw [if_pos repeated, if_pos repeated.2]
        rfl
      · rw [if_neg repeated, if_neg fun same => repeated ⟨zero, same⟩]
        rfl

theorem exists_word {value : BitVec 64} (narrow : value.toNat < 2 ^ 32) :
    ∃ w : BitVec 32, w.setWidth 64 = value ∧ w.toNat = value.toNat := by
  have low : (value.setWidth 32).toNat = value.toNat := by
    rw [BitVec.toNat_setWidth, Nat.mod_eq_of_lt narrow]
  refine ⟨value.setWidth 32, BitVec.eq_of_toNat_eq ?_, low⟩
  rw [BitVec.toNat_setWidth, low]
  omega

theorem compressable_add_saved {words : List (BitVec 64)}
    (narrow : ∀ value ∈ words, value.toNat < 2 ^ 32)
    (far : ∀ value ∈ words, ¬ NearZero absMin value.toNat) :
    compressable absMin words + saved words = 4 * words.length := by
  induction words with
  | nil => rfl
  | cons value rest ih =>
    have tail := ih (fun other here => narrow other (List.mem_cons_of_mem _ here))
      fun other here => far other (List.mem_cons_of_mem _ here)
    obtain ⟨w, whole, low⟩ := exists_word (narrow value List.mem_cons_self)
    have one := bytes_add_saved w (low ▸ far value List.mem_cons_self)
    rw [whole, low] at one
    rw [saved] at tail ⊢
    simp only [compressable_cons, List.countP_cons, List.length_cons, decide_eq_true_eq]
    omega

/-! ## Decodability of a line -/

/-- The words of a line of `size` words. -/
def fpcWords (buffer : List (BitVec 8)) (size : Nat) : List (BitVec 64) :=
  convertBuffer2Array buffer (size * 4) 4

/-- Every word of the line can be recovered from its class and its payload
    bytes, and the reported size pays for payload and three-bit tags, rounded up
    to whole bytes, unless it is the uncompressed size. -/
structure FpcDecodable (absMin : BitVec 32) (buffer : List (BitVec 8)) (size : Nat) : Prop where
  fewWords : ∀ value ∈ fpcWords buffer size,
    (wordsOf absMin (fpcClass absMin value)).card ≤ 256 ^ (fpcClass absMin value).bytes
  decoder : ∀ value ∈ fpcWords buffer size, Recoverable
    (wordsOf absMin (fpcClass absMin value)) (256 ^ (fpcClass absMin value).bytes)
  paid : compressable absMin (fpcWords buffer size) + (size * 3 + 7) / 8 ≤
      FPCCompress absMin buffer size ∨ FPCCompress absMin buffer size = size * 4

theorem fpc_paid_iff (buffer : List (BitVec 8)) (size : Nat) :
    (compressable absMin (fpcWords buffer size) + (size * 3 + 7) / 8 ≤
        FPCCompress absMin buffer size ∨ FPCCompress absMin buffer size = size * 4) ↔
      8 ∣ size ∨ size * 4 ≤ compressable absMin (fpcWords buffer size) + size * 3 / 8 := by
  have tags : 8 ∣ size * 3 ↔ 8 ∣ size := Nat.Coprime.dvd_mul_right (by decide)
  simp only [FPCCompress, fpcWords]
  split <;> omega

theorem fpcWords_class {buffer : List (BitVec 8)} {size : Nat} {value : BitVec 64}
    (member : value ∈ fpcWords buffer size) :
    fpcClass absMin value ≠ .oneByte ∧ fpcClass absMin value ≠ .twoBytes ↔
      ¬ NearZero absMin value.toNat := by
  obtain ⟨w, whole, low⟩ := exists_word (convertBuffer2Array_lt (by decide) member)
  have word := @fpcClass_far_iff absMin w
  rwa [whole, low] at word

theorem fpc_uncompressed_iff {buffer : List (BitVec 8)} {size : Nat}
    (far : ∀ value ∈ fpcWords buffer size, ¬ NearZero absMin value.toNat) :
    size * 4 ≤ compressable absMin (fpcWords buffer size) + size * 3 / 8 ↔
      saved (fpcWords buffer size) ≤ size * 3 / 8 := by
  have narrow : ∀ value ∈ fpcWords buffer size, value.toNat < 2 ^ 32 :=
    fun value member => convertBuffer2Array_lt (by decide) member
  have total := compressable_add_saved narrow far
  have length : (fpcWords buffer size).length = size := by
    rw [fpcWords, convertBuffer2Array_length]
    omega
  omega

/-- The classes that fit their payload are all but the two absolute-value
    classes; a line is decodable at the reported size exactly when none of its
    words is near zero and the tags of its words fill whole bytes or its words
    save no more than the tags cost. -/
theorem frequent_pattern_decodable_iff (absMin : BitVec 32) (c : FpcClass)
    (buffer : List (BitVec 8)) (size : Nat) :
    ((wordsOf absMin c).card ≤ 256 ^ c.bytes ↔ c ≠ .oneByte ∧ c ≠ .twoBytes) ∧
    (FpcDecodable absMin buffer size ↔
      (∀ value ∈ fpcWords buffer size, ¬ NearZero absMin value.toNat) ∧
      (8 ∣ size ∨ saved (fpcWords buffer size) ≤ size * 3 / 8)) := by
  refine ⟨wordsOf_card_le_iff c, ?_⟩
  constructor
  · intro decodable
    have far : ∀ value ∈ fpcWords buffer size, ¬ NearZero absMin value.toNat := by
      intro value member
      exact (fpcWords_class member).mp ((wordsOf_card_le_iff _).mp (decodable.fewWords value member))
    exact ⟨far, ((fpc_paid_iff buffer size).mp decodable.paid).imp_right
      (fpc_uncompressed_iff far).mp⟩
  · intro condition
    obtain ⟨far, charged⟩ := condition
    have few : ∀ value ∈ fpcWords buffer size,
        (wordsOf absMin (fpcClass absMin value)).card ≤ 256 ^ (fpcClass absMin value).bytes :=
      fun value member =>
        (wordsOf_card_le_iff _).mpr ((fpcWords_class member).mpr (far value member))
    exact ⟨few, fun value member => recoverable_of_card_le (few value member),
      (fpc_paid_iff buffer size).mpr (charged.imp_right (fpc_uncompressed_iff far).mpr)⟩

/-- A line of the single word one: its class has more words than a byte names,
    and no bit is charged for its tag. -/
theorem single_one_undecodable :
    ¬ FpcDecodable 0x80000000 [1, 0, 0, 0] 1 ∧
      ¬ (wordsOf 0x80000000 .oneByte).card ≤ 256 ^ FpcClass.oneByte.bytes := by
  refine ⟨fun decodable => ?_, oneByte_words.not_ge⟩
  have paid := (fpc_paid_iff _ _).mp decodable.paid
  revert paid
  decide

end AesOnGpu.Compression
