import AesOnGpu.Coalescing.Enabled

/-! # The bytes that an access covers

A transaction records the 32-byte chunk of the first byte of each request. The reduction keeps
the smallest aligned range that has all recorded chunks, so that a request which goes on into
the next chunk is cut off unless the other chunks of its segment keep the range large enough.
-/

namespace AesOnGpu.Coalescing

/-! ## The shape of a reduced range -/

/-- A range is aligned, and larger than 32 bytes only when the chunks need it. -/
structure Shape (q : Finset (Fin 4)) (addr size : Nat) : Prop where
  sizes : size = 32 ∨ size = 64 ∨ size = 128
  aligned : addr % size = 0
  half : size = 64 → ∃ chunk ∈ q, ∃ other ∈ q, chunk ≠ other
  whole : size = 128 → (∃ chunk ∈ q, chunk.val ≤ 1) ∧ ∃ chunk ∈ q, 2 ≤ chunk.val

theorem exists_lower (q : Finset (Fin 4)) :
    (∃ chunk ∈ q, chunk.val ≤ 1) ↔ 0 ∈ q ∨ 1 ∈ q := by
  revert q
  decide

theorem exists_upper (q : Finset (Fin 4)) :
    (∃ chunk ∈ q, 2 ≤ chunk.val) ↔ 2 ∈ q ∨ 3 ∈ q := by
  revert q
  decide

theorem reduceSegment_shape {q : Finset (Fin 4)} {addr : Address} {segment_size : Nat}
    (proper : ProperSegment segment_size) (aligned : addr.toNat % segment_size = 0)
    (low : addr.toNat < 2 ^ 32) {reduction : Reduction}
    (reduced : reduceSegment q addr segment_size = some reduction) :
    (reduction.size = 32 ∨ reduction.size = 64 ∨ reduction.size = 128) ∧
      reduction.addr.toNat % reduction.size = 0 ∧ reduction.addr.toNat < 2 ^ 33 ∧
      (0 ∈ reduction.h → 1 ∈ reduction.h → ∃ chunk ∈ q, ∃ other ∈ q, chunk ≠ other) ∧
      (reduction.size = 128 → (∃ chunk ∈ q, chunk.val ≤ 1) ∧ ∃ chunk ∈ q, 2 ≤ chunk.val) := by
  have moved : (addr + 64).toNat = addr.toNat + 64 := by
    have value : (64 : Address).toNat = 64 := rfl
    rw [BitVec.toNat_add, value]
    exact Nat.mod_eq_of_lt (by omega)
  have below : addr.toNat < 2 ^ 33 := by omega
  have distinct (first second : Fin 4) (different : first ≠ second)
      (marked : 0 ∈ halves (first ∈ q) (second ∈ q)) (marked' : 1 ∈ halves (first ∈ q) (second ∈ q)) :
      ∃ chunk ∈ q, ∃ other ∈ q, chunk ≠ other :=
    ⟨first, by simpa using marked, second, by simpa using marked', different⟩
  unfold reduceSegment at reduced
  rcases proper with rfl | rfl | rfl
  · cases reduced
    exact ⟨Or.inl rfl, aligned, below, fun marked => by simp at marked, fun is => by simp at is⟩
  · rw [if_neg (by decide), if_pos rfl] at reduced
    split at reduced
    next =>
      cases reduced
      exact ⟨Or.inr (Or.inl rfl), aligned, below, distinct 0 1 (by decide),
        fun is => by simp at is⟩
    next =>
      split at reduced
      next =>
        cases reduced
        exact ⟨Or.inr (Or.inl rfl), aligned, below, distinct 2 3 (by decide),
          fun is => by simp at is⟩
      next => cases reduced
  · rw [if_pos rfl] at reduced
    dsimp only at reduced
    split at reduced
    next =>
      cases reduced
      exact ⟨Or.inr (Or.inl rfl), show addr.toNat % 64 = 0 by omega, below,
        distinct 0 1 (by decide), fun is => by simp at is⟩
    next =>
      split at reduced
      next =>
        cases reduced
        exact ⟨Or.inr (Or.inl rfl), show (addr + 64).toNat % 64 = 0 by omega,
          show (addr + 64).toNat < 2 ^ 33 by omega, distinct 2 3 (by decide),
          fun is => by simp at is⟩
      next =>
        split at reduced
        next both =>
          cases reduced
          exact ⟨Or.inr (Or.inr rfl), aligned, below, fun marked => by simp at marked,
            fun _ => ⟨(exists_lower q).mpr both.1, (exists_upper q).mpr both.2⟩⟩
        next => cases reduced

theorem reduceHalf_shape {reduction : Reduction} {addr : Address} {size : Nat}
    (aligned : reduction.addr.toNat % reduction.size = 0) (low : reduction.addr.toNat < 2 ^ 33)
    (reduced : reduceHalf reduction = some (addr, size)) :
    size = 32 ∧ addr.toNat % 32 = 0 ∨
      addr = reduction.addr ∧ size = reduction.size ∧
        (size = 64 → 0 ∈ reduction.h ∧ 1 ∈ reduction.h) := by
  have moved : (reduction.addr + 32).toNat = reduction.addr.toNat + 32 := by
    have value : (32 : Address).toNat = 32 := rfl
    rw [BitVec.toNat_add, value]
    exact Nat.mod_eq_of_lt (by omega)
  unfold reduceHalf at reduced
  split at reduced
  next isHalf =>
    rw [isHalf] at aligned
    dsimp only at reduced
    split at reduced
    next =>
      cases reduced
      exact Or.inl ⟨rfl, by omega⟩
    next =>
      split at reduced
      next =>
        cases reduced
        exact Or.inl ⟨rfl, by omega⟩
      next =>
        split at reduced
        next both =>
          cases reduced
          exact Or.inr ⟨rfl, rfl, fun _ => both⟩
        next => cases reduced
  next notHalf =>
    cases reduced
    exact Or.inr ⟨rfl, rfl, fun isHalf => absurd isHalf notHalf⟩

theorem reduceAndSend_shape {warpSize : Nat} {is_write : Bool} {access_type : MemAccessType}
    {info : TransactionInfo warpSize} {addr : Address} {segment_size : Nat}
    {access : MemAccess warpSize} (proper : ProperSegment segment_size)
    (aligned : addr.toNat % segment_size = 0) (low : addr.toNat < 2 ^ 32)
    (sent : reduceAndSend is_write access_type info addr segment_size = some access) :
    Shape info.chunks access.m_addr.toNat access.m_req_size := by
  obtain ⟨_, _, reduction, first, second⟩ := reduceAndSend_sent sent
  obtain ⟨sizes, place, lowFirst, distinct, both⟩ := reduceSegment_shape proper aligned low first
  cases reduceHalf_shape place lowFirst second with
  | inl small =>
    obtain ⟨size, place'⟩ := small
    rw [size]
    exact ⟨Or.inl rfl, place', fun is => by simp at is, fun is => by simp at is⟩
  | inr same =>
    obtain ⟨sameAddr, sameSize, marked⟩ := same
    rw [sameAddr, sameSize]
    rw [sameSize] at marked
    exact ⟨sizes, place, fun is => distinct (marked is).1 (marked is).2, both⟩

/-- The chunk after a recorded one is kept exactly when another recorded chunk forces a range
that has both. -/
theorem next_covered_iff {q : Finset (Fin 4)} {addr size : Nat} (covers : Covers q addr size)
    (shape : Shape q addr size) {chunk : Fin 4} (member : chunk ∈ q) (next : chunk.val < 3) :
    32 * chunk.val + 64 ≤ addr % 128 + size ↔
      ∃ other ∈ q, if chunk = 1 then 2 ≤ other.val else other ≠ chunk := by
  have here := covers chunk member
  have place := shape.aligned
  constructor
  · intro covered
    rcases shape.sizes with isSize | isSize | isSize
    · omega
    · -- 64 bytes from an even chunk on, with two chunks recorded
      rw [isSize] at place covered here
      have even : chunk ≠ 1 := by
        rintro rfl
        simp only [Fin.val_one] at covered here
        omega
      obtain ⟨first, inFirst, second, inSecond, different⟩ := shape.half isSize
      simp only [if_neg even]
      by_cases same : first = chunk
      · exact ⟨second, inSecond, fun is => different (same.trans is.symm)⟩
      · exact ⟨first, inFirst, same⟩
    · obtain ⟨⟨lower, inLower, isLower⟩, upper, inUpper, isUpper⟩ := shape.whole isSize
      by_cases isOne : chunk = 1
      · simp only [if_pos isOne]
        exact ⟨upper, inUpper, isUpper⟩
      · simp only [if_neg isOne]
        by_cases isTwo : chunk = 2
        · exact ⟨lower, inLower, fun is => by rw [is, isTwo] at isLower; simp at isLower⟩
        · refine ⟨upper, inUpper, fun is => ?_⟩
          have isThree : chunk.val ≠ 2 := fun is => isTwo (Fin.ext is)
          rw [is] at isUpper
          omega
  · rintro ⟨other, inOther, forces⟩
    have there := covers other inOther
    have apart : chunk.val ≠ other.val := by
      intro same
      split at forces
      next isOne =>
        rw [isOne] at same
        simp only [Fin.val_one] at same
        omega
      next => exact forces (Fin.ext same.symm)
    have beyond : chunk.val = 1 → 2 ≤ other.val := by
      intro isOne
      have is : chunk = 1 := Fin.ext isOne
      rwa [if_pos is] at forces
    rcases shape.sizes with isSize | isSize | isSize <;> rw [isSize] at place here there ⊢ <;> omega

/-! ## What an access has to cover -/

/-- The byte, counted from the start of the 128-byte line, is in the range. -/
def MemAccess.HasByte {warpSize : Nat} (access : MemAccess warpSize) (byte : Fin 128) : Prop :=
  access.m_addr.toNat % 128 ≤ byte.val ∧
    byte.val < access.m_addr.toNat % 128 + access.m_req_size

/-- The access is sent for the request. A thread whose access is split has requests in other
segments as well. -/
def MemAccess.Serves {warpSize : Nat} (inst : WarpInst warpSize) (access : MemAccess warpSize)
    (request : Request warpSize) : Prop :=
  (splitAccess inst).2 = 1 ∨ (blockOf inst request.addr).toNat =
    access.m_addr.toNat / segmentSize inst.data_size * segmentSize inst.data_size

structure Covered {warpSize : Nat} (inst : WarpInst warpSize) (access : MemAccess warpSize) :
    Prop where
  mask : ∀ byte ∈ access.m_byte_mask, access.HasByte byte
  requested : ∀ thread ∈ access.m_warp_mask, ∀ request ∈ inst.requests thread,
    access.Serves inst request →
      ∀ i < (splitAccess inst).1, access.Contains (request.addr + .ofNat 64 i)

/-- The request goes on into the next 32-byte chunk. -/
def Crosses {warpSize : Nat} (inst : WarpInst warpSize) (addr : Address) : Prop :=
  32 < lineOffset addr % 32 + (splitAccess inst).1

/-- A request that goes on into the next chunk has another one beside it, in the same segment,
that starts where the range has to have both chunks. -/
def NextKept {warpSize : Nat} (inst : WarpInst warpSize) (requests : List (Request warpSize))
    (request : Request warpSize) : Prop :=
  Crosses inst request.addr → ∃ other ∈ requests,
    blockOf inst other.addr = blockOf inst request.addr ∧
      if chunkOf request.addr = 1 then 2 ≤ (chunkOf other.addr).val
      else chunkOf other.addr ≠ chunkOf request.addr

section

variable {warpSize : Nat} {inst : WarpInst warpSize} {requests : List (Request warpSize)}
  {key : Address}

theorem mem_bytes {byte : Fin 128} :
    byte ∈ ((transactionsOf inst).value requests key).bytes ↔
      ∃ request ∈ requests, blockOf inst request.addr = key ∧
        byte ∈ requestBytes inst request.addr :=
  (transactionsOf inst).value_iff (P := fun info => byte ∈ info.bytes)
    (Q := fun request => byte ∈ requestBytes inst request.addr) (Finset.notMem_empty byte)
    (fun info request => by simp [transactionsOf]) requests key

theorem chunkOf_val (addr : Address) : (chunkOf addr).val = addr.toNat % 128 / 32 := by
  show (lineOffset addr : Nat) / 32 = _
  rw [lineOffset_val]

structure AccessOf (inst : WarpInst warpSize) (requests : List (Request warpSize))
    (key : Address) (access : MemAccess warpSize) : Prop where
  mask : access.m_warp_mask = ((transactionsOf inst).value requests key).active
  bytes : access.m_byte_mask = ((transactionsOf inst).value requests key).bytes
  covers : Covers ((transactionsOf inst).value requests key).chunks access.m_addr.toNat
    access.m_req_size
  shape : Shape ((transactionsOf inst).value requests key).chunks access.m_addr.toNat
    access.m_req_size
  within : Within key.toNat (segmentSize inst.data_size) access.m_addr.toNat access.m_req_size

theorem AccessOf.line (valid : inst.ValidSize) {access : MemAccess warpSize}
    {request : Request warpSize} (of : AccessOf inst requests (blockOf inst request.addr) access)
    (low : request.addr.toNat < 2 ^ 32) :
    access.m_addr.toNat - access.m_addr.toNat % 128 =
      request.addr.toNat - request.addr.toNat % 128 := by
  have block := blockOf_toNat valid request.addr
  have within := of.within
  obtain ⟨start, stop, positive⟩ := within
  rw [block] at start stop
  rcases valid.proper with size | size | size <;> rw [size] at start stop <;> omega

theorem contains_add_iff {access : MemAccess warpSize} {addr : Address}
    (low : addr.toNat < 2 ^ 32) {i : Nat} (small : i < 128) :
    access.Contains (addr + .ofNat 64 i) ↔
      access.m_addr.toNat ≤ addr.toNat + i ∧
        addr.toNat + i < access.m_addr.toNat + access.m_req_size := by
  have moved : (addr + .ofNat 64 i).toNat = addr.toNat + i := by
    rw [BitVec.toNat_add, BitVec.toNat_ofNat, Nat.mod_eq_of_lt (show i < 2 ^ 64 by omega)]
    exact Nat.mod_eq_of_lt (by omega)
  rw [MemAccess.Contains, moved]

theorem AccessOf.request_covered_iff (valid : inst.ValidSize) {access : MemAccess warpSize}
    {request : Request warpSize} (of : AccessOf inst requests (blockOf inst request.addr) access)
    (made : request ∈ requests) (low : request.addr.toNat < 2 ^ 32)
    (inside : request.addr.toNat % segmentSize inst.data_size + (splitAccess inst).1 ≤
      segmentSize inst.data_size) :
    (∀ i < (splitAccess inst).1, access.Contains (request.addr + .ofNat 64 i)) ↔
      NextKept inst requests request := by
  have line := of.line valid low
  have chunk := chunkOf_val request.addr
  have recorded : chunkOf request.addr ∈
      ((transactionsOf inst).value requests (blockOf inst request.addr)).chunks :=
    mem_chunks.mpr ⟨request, made, rfl, rfl⟩
  have here := of.covers _ recorded
  obtain ⟨positive, few, _, _⟩ := valid.fits
  have aligned := of.shape.aligned
  have ends : (access.m_addr.toNat % 128 + access.m_req_size) % 32 = 0 := by
    rcases of.shape.sizes with size | size | size <;> rw [size] at aligned ⊢ <;> omega
  have inLine : request.addr.toNat % 128 + (splitAccess inst).1 ≤ 128 := by
    rcases valid.proper with size | size | size <;> rw [size] at inside <;> omega
  by_cases crosses : Crosses inst request.addr
  · have goesOn := crosses
    rw [Crosses, lineOffset_val] at goesOn
    have next : (chunkOf request.addr).val < 3 := by omega
    have covered : (∀ i < (splitAccess inst).1, access.Contains (request.addr + .ofNat 64 i)) ↔
        32 * (chunkOf request.addr).val + 64 ≤
          access.m_addr.toNat % 128 + access.m_req_size := by
      constructor
      · intro all
        have last := (contains_add_iff low (by omega)).mp
          (all ((splitAccess inst).1 - 1) (by omega))
        omega
      · intro reaches i small
        apply (contains_add_iff low (by omega)).mpr
        omega
    rw [covered, next_covered_iff of.covers of.shape recorded next]
    constructor
    · rintro ⟨other, inChunks, forces⟩ _
      obtain ⟨request', made', sameBlock, rfl⟩ := mem_chunks.mp inChunks
      exact ⟨request', made', sameBlock, forces⟩
    · intro kept
      obtain ⟨request', made', sameBlock, forces⟩ := kept crosses
      exact ⟨_, mem_chunks.mpr ⟨request', made', sameBlock, rfl⟩, forces⟩
  · have within := crosses
    rw [Crosses, lineOffset_val] at within
    refine ⟨fun _ goesOn => absurd goesOn crosses, fun _ i small => ?_⟩
    apply (contains_add_iff low (by omega)).mpr
    omega

/-- The access for a block covers what it is sent for exactly when its requests are below
2^32 and have their next chunks kept. -/
theorem AccessOf.covered_iff (valid : inst.ValidSize) {access : MemAccess warpSize}
    (of : AccessOf inst requests key access) (block : key.toNat < 2 ^ 32)
    (aligned : key.toNat % segmentSize inst.data_size = 0)
    (own : ∀ request ∈ requests, request ∈ inst.requests request.thread)
    (inside : ∀ request ∈ requests, request.addr.toNat % segmentSize inst.data_size +
      (splitAccess inst).1 ≤ segmentSize inst.data_size)
    (all : ∀ request ∈ requests, ∀ other ∈ inst.requests request.thread, other ∈ requests) :
    Covered inst access ↔ ∀ request ∈ requests, blockOf inst request.addr = key →
      request.addr.toNat < 2 ^ 32 ∧ NextKept inst requests request := by
  have segment : access.m_addr.toNat / segmentSize inst.data_size * segmentSize inst.data_size =
      key.toNat := by
    obtain ⟨start, stop, positive⟩ := of.within
    rcases valid.proper with size | size | size <;> rw [size] at aligned stop ⊢ <;> omega
  constructor
  · intro covered request made isBlock
    have inMask : request.thread ∈ access.m_warp_mask := by
      rw [of.mask]
      exact mem_active.mpr ⟨request, made, isBlock, rfl⟩
    have serves : access.Serves inst request := Or.inr (by rw [isBlock, segment])
    have contains := covered.requested request.thread inMask request (own request made) serves
    have low : request.addr.toNat < 2 ^ 32 := by
      have first := contains 0 valid.fits.1
      have same : request.addr + BitVec.ofNat 64 0 = request.addr := BitVec.add_zero _
      rw [same] at first
      obtain ⟨start, stop, _⟩ := of.within
      have beyond := first.2
      rcases valid.proper with size | size | size <;> rw [size] at aligned stop <;> omega
    subst isBlock
    exact ⟨low, (of.request_covered_iff valid made low (inside request made)).mp contains⟩
  · intro kept
    constructor
    case mask =>
      intro byte inMask
      rw [of.bytes] at inMask
      obtain ⟨request, made, isBlock, isByte⟩ := mem_bytes.mp inMask
      obtain ⟨low, next⟩ := kept request made isBlock
      subst isBlock
      have contains := (of.request_covered_iff valid made low (inside request made)).mpr next
      have line := of.line valid low
      simp only [requestBytes, Finset.mem_filter, Finset.mem_univ, true_and, lineOffset_val]
        at isByte
      have few := valid.fits.2.1
      have at' := (contains_add_iff low (by omega)).mp
        (contains (byte.val - request.addr.toNat % 128) (by omega))
      rw [MemAccess.HasByte]
      omega
    case requested =>
      intro thread inMask request mine serves
      rw [of.mask] at inMask
      obtain ⟨request', made', isBlock', rfl⟩ := mem_active.mp inMask
      have made : request ∈ requests := all request' made' request mine
      have isBlock : blockOf inst request.addr = key := by
        cases serves with
        | inl single =>
          -- the thread has no other request
          have first : inst.accesses = [0] := by
            rw [WarpInst.accesses, single]
            decide
          have mine' := own request' made'
          rw [WarpInst.requests, first, List.map_singleton, List.mem_singleton] at mine mine'
          rw [← isBlock', mine, mine']
        | inr sameBlock =>
          rw [segment] at sameBlock
          exact BitVec.eq_of_toNat_eq sameBlock
      obtain ⟨low, next⟩ := kept request made isBlock
      subst isBlock
      exact (of.request_covered_iff valid made low (inside request made)).mpr next

end

/-! ## The accesses of an instruction -/

section

variable {config : CoreConfig} {inst : WarpInst config.warp_size} {is_write : Bool}
  {access_type : MemAccessType} {subwarp : Nat}

theorem accessOf_reduced (valid : inst.ValidSize) {requests : List (Request config.warp_size)}
    {key : Address} {info : TransactionInfo config.warp_size}
    (member : (key, info) ∈ ((transactionsOf inst).collect requests).toList) :
    AccessOf inst requests key (reducedSegment inst is_write access_type (key, info)) ∧
      key.toNat < 2 ^ 32 ∧ key.toNat % segmentSize inst.data_size = 0 := by
  obtain ⟨sent, reducedTo⟩ := reduced is_write access_type valid member
  obtain ⟨⟨request, _, isKey⟩, rfl⟩ := (transactionsOf inst).mem_toList_collect.mp member
  have isBlock : blockOf inst request.addr = key := isKey
  have block := blockOf_spec valid request.addr
  rw [isBlock] at block
  obtain ⟨mask, bytes, _⟩ := reduceAndSend_sent sent
  exact ⟨⟨mask, bytes, reducedTo.covers,
    reduceAndSend_shape valid.proper block.1 block.2.1 sent, reducedTo.within⟩, block.2.1, block.1⟩

theorem subwarp_inside (valid : inst.ValidSize)
    (same : ∀ thread ∈ activeThreads config inst subwarp, inst.SameSegment thread)
    {request : Request config.warp_size} (made : request ∈ subwarpRequests config inst subwarp) :
    request.addr.toNat % segmentSize inst.data_size + (splitAccess inst).1 ≤
      segmentSize inst.data_size := by
  obtain ⟨active, mine⟩ := subwarpRequests_thread made
  obtain ⟨access, isMade, isRequest⟩ := mem_requests.mp mine
  have inside := (same request.thread active).inside valid isMade
  rw [isRequest]
  exact inside

/-- What the requests of the active threads have to be like. -/
def KeepsRequests (config : CoreConfig) (inst : WarpInst config.warp_size) : Prop :=
  ∀ subwarp < config.mem_warp_parts, ∀ request ∈ subwarpRequests config inst subwarp,
    request.addr.toNat < 2 ^ 32 ∧ NextKept inst (subwarpRequests config inst subwarp) request

theorem subwarp_covered_iff (valid : inst.ValidSize)
    (same : ∀ thread ∈ activeThreads config inst subwarp, inst.SameSegment thread) :
    (∀ access ∈ subwarpAccesses config inst is_write access_type subwarp, Covered inst access) ↔
      ∀ request ∈ subwarpRequests config inst subwarp, request.addr.toNat < 2 ^ 32 ∧
        NextKept inst (subwarpRequests config inst subwarp) request := by
  have each : ∀ key info,
      (key, info) ∈ ((transactionsOf inst).collect (subwarpRequests config inst subwarp)).toList →
      (Covered inst (reducedSegment inst is_write access_type (key, info)) ↔
        ∀ request ∈ subwarpRequests config inst subwarp, blockOf inst request.addr = key →
          request.addr.toNat < 2 ^ 32 ∧
            NextKept inst (subwarpRequests config inst subwarp) request) := by
    intro key info member
    obtain ⟨of, low, aligned⟩ := accessOf_reduced valid member
    apply of.covered_iff valid low aligned
    · exact fun request made => (subwarpRequests_thread made).2
    · exact fun request made => subwarp_inside valid same made
    · intro request made other mine
      exact mem_subwarpRequests.mpr ⟨request.thread, (subwarpRequests_thread made).1, mine⟩
  constructor
  · intro covered request made
    have entry := (transactionsOf inst).mem_toList_collect.mpr ⟨⟨request, made, rfl⟩, rfl⟩
    exact (each _ _ entry).mp (covered _ (List.mem_map_of_mem entry)) request made rfl
  · intro kept access sent
    obtain ⟨⟨key, info⟩, member, rfl⟩ := List.mem_map.mp sent
    exact (each key info member).mpr fun request made _ => kept request made

/-- With coalescing enabled every access covers what it is sent for, exactly when the requests
are below 2^32 and each one that goes on into the next 32-byte chunk has one beside it that
makes the reduction keep that chunk. -/
theorem enabled_covers_iff (enabled : coalDisabledLoc config inst = false)
    (valid : inst.ValidSize) (same : SameSegments config inst)
    (m_accessq : List (MemAccess config.warp_size)) :
    ∃ accesses, memoryCoalescingArch13 config inst is_write access_type m_accessq =
        some (m_accessq ++ accesses) ∧
      ((∀ access ∈ accesses, Covered inst access) ↔ KeepsRequests config inst) := by
  refine ⟨_, memoryCoalescing_enabled is_write access_type enabled valid same m_accessq, ?_⟩
  constructor
  · intro covered subwarp inside
    apply (subwarp_covered_iff valid (same subwarp inside)).mp
    intro access sent
    exact covered access (List.mem_flatMap.mpr ⟨subwarp, List.mem_range.mpr inside, sent⟩)
  · intro kept access sent
    obtain ⟨subwarp, inRange, sent⟩ := List.mem_flatMap.mp sent
    have inside := List.mem_range.mp inRange
    exact (subwarp_covered_iff valid (same subwarp inside)).mpr (kept subwarp inside) access sent

end

/-- The first request goes on into the chunk of the second one. -/
theorem enabled_covers_iff_load :
    ∃ accesses, memoryCoalescingArch13 ⟨4, 2, false, false, 0, by decide, by decide⟩
        (loadInst ![30, 34, 200, 12]) false .GLOBAL_ACC_R [] = some accesses ∧
      ∀ access ∈ accesses, Covered (loadInst ![30, 34, 200, 12]) access := by
  obtain ⟨accesses, run, covered⟩ :=
    @enabled_covers_iff ⟨4, 2, false, false, 0, by decide, by decide⟩
      (loadInst ![30, 34, 200, 12]) false .GLOBAL_ACC_R rfl
      (by simp [WarpInst.ValidSize, loadInst]) (by unfold SameSegments WarpInst.SameSegment; decide)
      []
  refine ⟨accesses, run, covered.mpr ?_⟩
  unfold KeepsRequests NextKept Crosses
  decide

/-- Four bytes from address 30 on are sent as the 32 bytes from 0 on. -/
theorem crossing_request_cut_off :
    ¬ ∀ accesses, memoryCoalescingArch13 ⟨1, 1, false, false, 0, by decide, by decide⟩
      (loadInst ![30]) false .GLOBAL_ACC_R [] = some accesses →
        ∀ access ∈ accesses, Covered (loadInst ![30]) access := by
  intro claim
  have cut : (memoryCoalescingArch13 ⟨1, 1, false, false, 0, by decide, by decide⟩
      (loadInst ![30]) false .GLOBAL_ACC_R []).any fun sent => ∃ access ∈ sent,
        33 ∈ access.m_byte_mask ∧ access.m_addr.toNat % 128 + access.m_req_size ≤ 33 := by decide
  obtain ⟨sent, run, found⟩ := (Option.any_eq_true _ _).mp cut
  obtain ⟨access, isSent, inMask, ends⟩ := of_decide_eq_true found
  exact absurd ((claim sent run access isSent).mask 33 inMask).2 (Nat.not_lt.mpr ends)

end AesOnGpu.Coalescing
