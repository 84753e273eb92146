import AesOnGpu.Aes.Encryption

/-! # The server

The loop of `server.cu`, which encrypts what it receives and sends 512 bytes back.  `none` as a
result is an access outside of an array or a table.
-/

namespace AesOnGpu.Aes.Server

open Fips197 (Byte Word ofBytes encrypt)

/-- `key`. -/
def key : Buffer := ⟨16, fun i => BitVec.ofNat 8 i⟩

/-- `sizeof in`. -/
def in_size : Nat := 1537

def cudaRunner (ek : AesKey) (devState : Buffer) (localid : Nat) : Option Buffer := do
  let t ← nineRounds ek.rd_key devState (localid * 16)
  -- `rk += ek->rounds << 2`
  storeLast ek.rd_key (4 * ek.rounds) t devState (localid * 16)

def cudaMemcpy (dst src : Buffer) (count : Nat) : Option Buffer :=
  if count ≤ dst.size ∧ count ≤ src.size then
    some { dst with bytes := fun i => if i < count then src.bytes i else dst.bytes i } else none

/-- `cudaMalloc` finds `garbage` in the memory. -/
def AES_CUDA (ek : AesKey) (garbage : Nat → Byte) (in_cipher cipher : Buffer) (count : Nat) :
    Option Buffer := do
  let devState : Buffer := ⟨count * 16, garbage⟩
  let devState ← cudaMemcpy devState in_cipher (count * 16)
  -- `<<<1,32>>>`: the threads access different bytes, so that their order does not matter
  let devState ← (List.range 32).foldlM (cudaRunner ek) devState
  cudaMemcpy cipher devState (count * 16)

def handle (ek : AesKey) (garbage : Nat → Byte) (out in_ : Buffer) (_len : Nat) : Option Buffer :=
  AES_CUDA ek garbage in_ out 32

/-- The static arrays, of `in_size` and 512 bytes. -/
structure Arrays where
  in_ : Nat → Byte
  out : Nat → Byte

def Arrays.initial : Arrays := ⟨fun _ => 0, fun _ => 0⟩

def recvfrom (arrays : Arrays) (datagram : List Byte) : Arrays × Nat :=
  let r := min datagram.length in_size
  ({ arrays with in_ := fun i => if i < r then datagram.getD i 0 else arrays.in_ i }, r)

structure Turn where
  datagram : List Byte
  garbage : Nat → Byte

def turn (ek : AesKey) (arrays : Arrays) (t : Turn) : Option (Arrays × Option (List Byte)) :=
  let (arrays, r) := recvfrom arrays t.datagram
  if r < 16 then some (arrays, none)
  else if in_size ≤ r then some (arrays, none)
  else do
    let out ← handle ek t.garbage ⟨512, arrays.out⟩ ⟨in_size, arrays.in_⟩ r
    return ({ arrays with out := out.bytes }, some (List.ofFn fun i : Fin 512 => out.bytes i))

def run (ek : AesKey) (history : List Turn) : Option Arrays :=
  history.foldlM (fun arrays t => (turn ek arrays t).map Prod.fst) Arrays.initial

def reply (ek : AesKey) (history : List Turn) (request : Turn) : Option (Option (List Byte)) := do
  let arrays ← run ek history
  let (_, sent) ← turn ek arrays request
  return sent

def Accepted (datagram : List Byte) : Prop := 16 ≤ datagram.length ∧ datagram.length < in_size

def DependsOnlyOnRequest (ek : AesKey) (datagram : List Byte) : Prop :=
  ∀ (history history' : List Turn) (garbage garbage' : Nat → Byte),
    reply ek history ⟨datagram, garbage⟩ = reply ek history' ⟨datagram, garbage'⟩

/-! ## A launch -/

/-- The `n`-th block of an array. -/
def block (bytes : Nat → Byte) (n : Nat) : Nat → Byte := fun i => bytes (n * 16 + i)

def Expanded (ek : AesKey) : Prop :=
  ek.rounds = 10 ∧
    Written ek.rd_key
      (fun n => packWord (Fips197.keyExpansion 4 (Fips197.words key.bytes) n)) 44

theorem cudaMemcpy_spec {dst src : Buffer} {count : Nat} (room : count ≤ dst.size)
    (inside : count ≤ src.size) :
    ∃ dst', cudaMemcpy dst src count = some dst' ∧ dst'.size = dst.size ∧
      ∀ i < count, dst'.bytes i = src.bytes i :=
  ⟨_, if_pos ⟨room, inside⟩, rfl, fun _ copied => if_pos copied⟩

section Launch

variable {ek : AesKey} (expanded : Expanded ek)
include expanded

theorem cudaRunner_spec {devState : Buffer} {localid : Nat}
    (room : localid * 16 + 16 ≤ devState.size) :
    ∃ devState', cudaRunner ek devState localid = some devState' ∧
      devState'.size = devState.size ∧
      ofBytes (block devState'.bytes localid) =
        encrypt 4 key.bytes (block devState.bytes localid) ∧
      ∀ i, i < localid * 16 ∨ localid * 16 + 16 ≤ i → devState'.bytes i = devState.bytes i := by
  obtain ⟨rounds, written⟩ := expanded
  have nine := @wordsAfter_spec _ _ _ devState (localid * 16) 9 written (by omega) room
  obtain ⟨devState', store, size, here, other⟩ := @storeLast_spec _ _ 10 _ _ _ written (by omega)
    room (Fips197.stateAfter _ (ofBytes (block devState.bytes localid)) 9)
  refine ⟨devState', ?_, size, here, other⟩
  rw [cudaRunner, nineRounds_eq, nine, rounds, Option.bind_eq_bind, Option.bind_some]
  exact store

theorem launch_spec {devState : Buffer} {n : Nat} (room : n * 16 ≤ devState.size) :
    ∃ devState', (List.range n).foldlM (cudaRunner ek) devState = some devState' ∧
      devState'.size = devState.size ∧
      (∀ localid < n, ofBytes (block devState'.bytes localid) =
        encrypt 4 key.bytes (block devState.bytes localid)) ∧
      ∀ i, n * 16 ≤ i → devState'.bytes i = devState.bytes i := by
  induction n with
  | zero => exact ⟨devState, rfl, rfl, fun _ absent => absurd absent (Nat.not_lt_zero _),
      fun _ _ => rfl⟩
  | succ n ih =>
    obtain ⟨before, run, size, done, rest⟩ := ih (by omega)
    obtain ⟨after, step, size', here, other⟩ :=
      @cudaRunner_spec _ expanded before n (by omega)
    refine ⟨after, ?_, size'.trans size, fun localid earlier => ?_, fun i later => ?_⟩
    · rw [List.range_succ, List.foldlM_append, run]
      simp [step]
    · rcases Nat.lt_succ_iff_lt_or_eq.mp earlier with earlier | rfl
      · rw [← done localid earlier]
        apply ofBytes_inj.mpr
        intro i inside
        exact other _ (Or.inl (by omega))
      · rw [here]
        apply congrArg
        funext i
        exact rest _ (by omega)
    · rw [other i (by omega), rest i (by omega)]

theorem AES_CUDA_spec (garbage : Nat → Byte) {in_cipher cipher : Buffer} {count : Nat}
    (enough : 32 ≤ count) (inside : count * 16 ≤ in_cipher.size) (room : count * 16 ≤ cipher.size) :
    ∃ cipher', AES_CUDA ek garbage in_cipher cipher count = some cipher' ∧
      ∀ localid < 32, ofBytes (block cipher'.bytes localid) =
        encrypt 4 key.bytes (block in_cipher.bytes localid) := by
  obtain ⟨devState, copyIn, size, plain⟩ :=
    @cudaMemcpy_spec ⟨count * 16, garbage⟩ in_cipher _ (Nat.le_refl _) inside
  simp only at size plain
  obtain ⟨devState', launch, size', done, -⟩ := @launch_spec _ expanded devState 32 (by omega)
  obtain ⟨cipher', copyOut, -, result⟩ := @cudaMemcpy_spec cipher devState' _ room (by omega)
  refine ⟨cipher', ?_, fun localid few => ?_⟩
  · simp only [AES_CUDA, copyIn, launch, copyOut, Option.bind_eq_bind, Option.bind_some]
  · have copied : ofBytes (block cipher'.bytes localid) = ofBytes (block devState'.bytes localid) :=
      ofBytes_inj.mpr fun i below => result _ (by omega)
    rw [copied, done localid few, encrypt_inj]
    exact fun i below => plain _ (by omega)

end Launch

/-! ## The loop -/

def received (arrays : Arrays) (datagram : List Byte) : Nat → Byte :=
  (recvfrom arrays datagram).1.in_

theorem received_eq {arrays : Arrays} {datagram : List Byte} (fits : datagram.length < in_size)
    (i : Nat) : received arrays datagram i =
      if i < datagram.length then datagram.getD i 0 else arrays.in_ i := by
  rw [received, recvfrom, Nat.min_eq_left (Nat.le_of_lt fits)]

theorem turn_skipped (ek : AesKey) (arrays : Arrays) {t : Turn} (skipped : ¬ Accepted t.datagram) :
    turn ek arrays t = some (⟨received arrays t.datagram, arrays.out⟩, none) := by
  by_cases short : min t.datagram.length in_size < 16
  · exact if_pos short
  · have long : in_size ≤ min t.datagram.length in_size := by
      simp only [Accepted, in_size] at skipped short ⊢
      omega
    exact (if_neg short).trans (if_pos long)

section Loop

variable {ek : AesKey} (expanded : Expanded ek)
include expanded

theorem turn_accepted (arrays : Arrays) {t : Turn} (accepted : Accepted t.datagram) :
    ∃ out, turn ek arrays t = some (⟨received arrays t.datagram, out⟩,
        some (List.ofFn fun i : Fin 512 => out i)) ∧
      ∀ localid < 32, ofBytes (block out localid) =
        encrypt 4 key.bytes (block (received arrays t.datagram) localid) := by
  obtain ⟨enough, fits⟩ := accepted
  obtain ⟨out, run, done⟩ := @AES_CUDA_spec _ expanded t.garbage
    ⟨in_size, received arrays t.datagram⟩ ⟨512, arrays.out⟩ 32 (Nat.le_refl _)
    (by simp [in_size]) (Nat.le_refl _)
  have length : min t.datagram.length in_size = t.datagram.length :=
    Nat.min_eq_left (Nat.le_of_lt fits)
  have long : ¬ min t.datagram.length in_size < 16 := by omega
  have short : ¬ in_size ≤ min t.datagram.length in_size := by omega
  refine ⟨out.bytes, (if_neg long).trans ((if_neg short).trans ?_), done⟩
  exact congrArg (Option.bind · _) run

theorem turn_total (arrays : Arrays) (t : Turn) : ∃ result, turn ek arrays t = some result := by
  by_cases accepted : Accepted t.datagram
  · obtain ⟨out, run, -⟩ := turn_accepted expanded arrays accepted
    exact ⟨_, run⟩
  · exact ⟨_, turn_skipped ek arrays accepted⟩

theorem run_total (history : List Turn) : ∃ arrays, run ek history = some arrays := by
  rw [run]
  generalize Arrays.initial = arrays
  induction history generalizing arrays with
  | nil => exact ⟨arrays, rfl⟩
  | cons t history ih =>
    obtain ⟨result, step⟩ := turn_total expanded arrays t
    obtain ⟨last, rest⟩ := ih result.1
    refine ⟨last, ?_⟩
    rw [List.foldlM_cons, step]
    exact rest

theorem reply_eq_iff {datagram : List Byte} (accepted : Accepted datagram)
    {history history' : List Turn} {arrays arrays' : Arrays} (ran : run ek history = some arrays)
    (ran' : run ek history' = some arrays') (garbage garbage' : Nat → Byte) :
    reply ek history ⟨datagram, garbage⟩ = reply ek history' ⟨datagram, garbage'⟩ ↔
      ∀ i < 512, received arrays datagram i = received arrays' datagram i := by
  obtain ⟨out, sent, blocks⟩ := @turn_accepted _ expanded arrays ⟨datagram, garbage⟩ accepted
  obtain ⟨out', sent', blocks'⟩ := @turn_accepted _ expanded arrays' ⟨datagram, garbage'⟩ accepted
  have replies : reply ek history ⟨datagram, garbage⟩ = reply ek history' ⟨datagram, garbage'⟩ ↔
      ∀ i < 512, out i = out' i := by
    simp only [reply, ran, ran', sent, sent', Option.bind_eq_bind, Option.bind_some, Option.pure_def,
      Option.some.injEq, List.ofFn_inj, funext_iff, Fin.forall_iff]
  have block_inj (bytes bytes' : Nat → Byte) : (∀ i < 512, bytes i = bytes' i) ↔
      ∀ localid < 32, ∀ i < 16, block bytes localid i = block bytes' localid i := by
    constructor
    · exact fun same localid few i below => same _ (by omega)
    · intro same i below
      have entry := same (i / 16) (by omega) (i % 16) (by omega)
      rwa [block, block, Nat.div_add_mod' i 16] at entry
  rw [replies, block_inj, block_inj]
  apply forall₂_congr
  intro localid few
  rw [← ofBytes_inj, blocks localid few, blocks' localid few, encrypt_inj]

theorem depends_short {datagram : List Byte} (accepted : Accepted datagram)
    (short : datagram.length < 512) : ¬ DependsOnlyOnRequest ek datagram := by
  intro depends
  let earlier : Turn := ⟨List.replicate (datagram.length + 1) 1, fun _ => 0⟩
  have fits : earlier.datagram.length < in_size := by
    rw [List.length_replicate, in_size]
    omega
  have accepted' : Accepted earlier.datagram := by
    refine ⟨?_, fits⟩
    rw [List.length_replicate]
    exact Nat.le_succ_of_le accepted.1
  obtain ⟨out, sent, -⟩ := turn_accepted expanded Arrays.initial accepted'
  have ran : run ek [earlier] = some ⟨received Arrays.initial earlier.datagram, out⟩ := by
    rw [run, List.foldlM_cons, sent]
    rfl
  have same := (reply_eq_iff expanded accepted (rfl : run ek [] = some Arrays.initial) ran _ _).mp
    (depends [] [earlier] (fun _ => 0) fun _ => 0) datagram.length short
  rw [received_eq accepted.2, received_eq accepted.2, if_neg (Nat.lt_irrefl _),
    if_neg (Nat.lt_irrefl _)] at same
  simp only [received_eq fits] at same
  simp [earlier, Arrays.initial] at same

theorem depends_full {datagram : List Byte} (accepted : Accepted datagram)
    (full : 512 ≤ datagram.length) : DependsOnlyOnRequest ek datagram := by
  intro history history' garbage garbage'
  obtain ⟨arrays, ran⟩ := run_total expanded history
  obtain ⟨arrays', ran'⟩ := run_total expanded history'
  apply (reply_eq_iff expanded accepted ran ran' garbage garbage').mpr
  intro i below
  have inside : i < datagram.length := by omega
  rw [received_eq accepted.2, received_eq accepted.2, if_pos inside, if_pos inside]

end Loop

/-! ## Histories -/

theorem expanded_key (uninitialized : AesKey) :
    ∃ ek, AES_set_encrypt_key (some key) 128 (some uninitialized) = some (0, some ek) ∧
      Expanded ek := by
  obtain ⟨ek, setup, rounds, written⟩ :=
    @AES_set_encrypt_key_spec 4 (by simp) key (Nat.le_refl _) uninitialized
  rw [rounds] at written
  exact ⟨ek, setup, rounds, written⟩

/-- The reply to an accepted datagram depends only on the datagram exactly if it fills all the
    blocks that are encrypted. -/
theorem depends_only_iff (uninitialized : AesKey) {datagram : List Byte}
    (accepted : Accepted datagram) :
    ∃ ek, AES_set_encrypt_key (some key) 128 (some uninitialized) = some (0, some ek) ∧
      (DependsOnlyOnRequest ek datagram ↔ 512 ≤ datagram.length) := by
  obtain ⟨ek, setup, expanded⟩ := expanded_key uninitialized
  refine ⟨ek, setup, fun depends => ?_, depends_full expanded accepted⟩
  by_contra short
  exact depends_short expanded accepted (Nat.lt_of_not_le short) depends

theorem accepted_replicate {n : Nat} (enough : 16 ≤ n) (fits : n < in_size) (b : Byte) :
    Accepted (List.replicate n b) := by
  rw [Accepted, List.length_replicate]
  exact ⟨enough, fits⟩

/-- The reply to 512 bytes depends on nothing else. -/
theorem depends_only_long : ∃ ek,
    AES_set_encrypt_key (some key) 128 (some ⟨Vector.replicate 60 0, 0⟩) = some (0, some ek) ∧
      DependsOnlyOnRequest ek (List.replicate 512 7) := by
  obtain ⟨ek, setup, depends⟩ := depends_only_iff ⟨Vector.replicate 60 0, 0⟩
    (@accepted_replicate 512 (by decide) (by decide) 7)
  exact ⟨ek, setup, depends.mpr (by rw [List.length_replicate])⟩

/-- The reply to one block encrypts the blocks of earlier clients too. -/
theorem short_request_leaks : ¬ ∀ (uninitialized ek : AesKey) (datagram : List Byte),
    AES_set_encrypt_key (some key) 128 (some uninitialized) = some (0, some ek) →
      Accepted datagram → DependsOnlyOnRequest ek datagram := by
  intro depends
  obtain ⟨ek, setup, expanded⟩ := expanded_key ⟨Vector.replicate 60 0, 0⟩
  have accepted : Accepted (List.replicate 16 7) := accepted_replicate (by decide) (by decide) 7
  have short : (List.replicate 16 (7 : Byte)).length < 512 := by
    rw [List.length_replicate]
    decide
  exact depends_short expanded accepted short (depends _ ek _ setup accepted)

end AesOnGpu.Aes.Server
