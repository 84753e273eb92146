import AesOnGpu.Atomics.Outstanding

/-! # The count of atomics is balanced

When no lane is skipped and all lanes are in a half of the warp, the masks of the
requests of an instruction are a partition of its threads.  Then the threads that a warp
waits for are those in the masks of its pending requests, once each.
-/

namespace AesOnGpu.Atomics

open Coalescing

variable {W : Nat}

/-! ## Threads in pending requests -/

/-- How many requests of the warp for the instruction have the thread. -/
def flying (pending : List (Pending W)) (warp_id inst : Nat) (t : Fin W) : Nat :=
  pending.countP fun request => request.warp_id = warp_id ∧ request.inst = inst ∧ t ∈ request.mask

/-- How many unanswered requests for the instruction have the thread. -/
def unanswered (pending : List (Pending W)) (inst : Nat) (t : Fin W) : Nat :=
  pending.countP fun request => request.inst = inst ∧ t ∈ request.mask ∧ request.answered = false

theorem perm_eraseIdx {pending : List (Pending W)} {k : Nat} {request : Pending W}
    (h : pending[k]? = some request) : pending.Perm (request :: pending.eraseIdx k) := by
  obtain ⟨hk, rfl⟩ := List.getElem?_eq_some_iff.mp h
  exact (List.getElem_cons_eraseIdx_perm hk).symm

theorem set_perm {pending : List (Pending W)} {k : Nat} {request : Pending W}
    (h : pending[k]? = some request) (request' : Pending W) :
    (pending.set k request').Perm (request' :: pending.eraseIdx k) := by
  obtain ⟨hk, -⟩ := List.getElem?_eq_some_iff.mp h
  exact List.set_perm_cons_eraseIdx hk request'

theorem flying_cons (pending : List (Pending W)) (request : Pending W) (warp_id inst : Nat)
    (t : Fin W) : flying (request :: pending) warp_id inst t = flying pending warp_id inst t +
      if request.warp_id = warp_id ∧ request.inst = inst ∧ t ∈ request.mask then 1 else 0 := by
  simp [flying, List.countP_cons]

theorem unanswered_cons (pending : List (Pending W)) (request : Pending W) (inst : Nat)
    (t : Fin W) : unanswered (request :: pending) inst t = unanswered pending inst t +
      if request.inst = inst ∧ t ∈ request.mask ∧ request.answered = false then 1 else 0 := by
  simp [unanswered, List.countP_cons]

theorem flying_perm {pending pending' : List (Pending W)} (h : pending.Perm pending')
    (warp_id inst : Nat) (t : Fin W) :
    flying pending warp_id inst t = flying pending' warp_id inst t :=
  h.countP_eq _

theorem unanswered_perm {pending pending' : List (Pending W)} (h : pending.Perm pending')
    (inst : Nat) (t : Fin W) : unanswered pending inst t = unanswered pending' inst t :=
  h.countP_eq _

theorem mem_named {inst inst' : Nat} {mask : Finset (Fin W)} {t : Fin W} :
    (inst', t) ∈ named inst mask ↔ inst' = inst ∧ t ∈ mask := by
  constructor
  · intro h
    obtain ⟨s, hs, heq⟩ := Finset.mem_map.mp h
    obtain ⟨rfl, rfl⟩ := Prod.mk.inj heq
    exact ⟨rfl, hs⟩
  · rintro ⟨rfl, ht⟩
    exact Finset.mem_map.mpr ⟨t, ht, rfl⟩

theorem named_card (inst : Nat) (mask : Finset (Fin W)) : (named inst mask).card = mask.card :=
  Finset.card_map _

/-! ## The requests of an instruction -/

theorem count_coveredThreads (config : CoreConfig) (inst : WarpInst config.warp_size)
    (t : Fin config.warp_size) :
    (coveredThreads (twoParts config) inst).count t =
      if t ∈ inst.m_warp_active_mask ∧ t.val < config.warp_size / 2 * 2 then 1 else 0 := by
  have hnodup : (coveredThreads (twoParts config) inst).Nodup :=
    ((List.nodup_finRange _).filter _).filter _
  have hmem : t ∈ coveredThreads (twoParts config) inst ↔
      t ∈ inst.m_warp_active_mask ∧ t.val < config.warp_size / 2 * 2 := by
    simp [coveredThreads]
  split
  next h => exact List.count_eq_one_of_mem hnodup (hmem.mpr h)
  next h => exact List.count_eq_zero_of_not_mem fun hin => h (hmem.mp hin)

theorem generate_mem_accesses_spec {config : CoreConfig} {atom : Atom config.warp_size}
    {mask : Finset (Fin config.warp_size)} {masks : List (Finset (Fin config.warp_size))}
    (h : generate_mem_accesses config atom mask = some masks) (t : Fin config.warp_size) :
    masks.countP (fun m => t ∈ m) =
      if t ∈ mask ∧ t.val < config.warp_size / 2 * 2 then 1 else 0 := by
  unfold generate_mem_accesses at h
  split at h
  next hempty =>
    cases h
    simp [Finset.card_eq_zero.mp hempty]
  next =>
    obtain ⟨accesses, hrun, rfl⟩ := Option.map_eq_some_iff.mp h
    have hmasked := memoryCoalescingArch13Atomic_masked hrun t
    have hnone : masked t ([] : List (MemAccess config.warp_size)) = 0 := rfl
    rw [count_coveredThreads, hnone, Nat.zero_add] at hmasked
    rw [List.countP_map]
    exact hmasked

/-- The fields that all requests of an instruction share. -/
structure Shares (atom : Atom W) (inst : Nat) (executing : Executing W) (request : Pending W) :
    Prop where
  inst_eq : request.inst = inst
  warp_eq : request.warp_id = atom.warp_id
  isatomic_eq : request.m_isatomic = executing.m_isatomic
  callbacks_eq : request.callbacks = executing.callbacks
  unanswered : request.answered = false

theorem requests_spec {config : CoreConfig} {atom : Atom config.warp_size} {inst : Nat}
    {executing : Executing config.warp_size} {pending : List (Pending config.warp_size)}
    (h : requests config atom inst executing = some pending) :
    (∀ request ∈ pending, Shares atom inst executing request) ∧
    ∀ t, pending.countP (fun request => t ∈ request.mask) =
      if t ∈ executing.m_warp_active_mask ∧
        (atom.space = .global_space → t.val < config.warp_size / 2 * 2) then 1 else 0 := by
  simp only [requests] at h
  cases hspace : atom.space with
  | global_space =>
    simp only [hspace] at h
    obtain ⟨masks, hmasks, rfl⟩ := Option.map_eq_some_iff.mp h
    constructor
    · intro request hrequest
      obtain ⟨mask, -, rfl⟩ := List.mem_map.mp hrequest
      exact ⟨rfl, rfl, rfl, rfl, rfl⟩
    · intro t
      rw [List.countP_map]
      simp only [forall_const]
      exact generate_mem_accesses_spec hmasks t
  | shared_space =>
    simp only [hspace] at h
    cases h
    constructor
    · intro request hrequest
      obtain rfl := List.mem_singleton.mp hrequest
      exact ⟨rfl, rfl, rfl, rfl, rfl⟩
    · intro t
      simp [List.countP_cons]

/-! ## The invariant -/

structure Partitioned (core : AtomicCore W) : Prop where
  pending_lt : ∀ request ∈ core.pending, request.inst < core.instructions
  waiting_lt : ∀ warp_id named, named ∈ core.waiting warp_id → named.1 < core.instructions
  executed_lt : ∀ named ∈ core.executed, named.1 < core.instructions
  isatomic : ∀ request ∈ core.pending, request.mask.Nonempty → request.m_isatomic = true
  callbacks : ∀ request ∈ core.pending, request.mask ⊆ request.callbacks
  count : ∀ warp_id, core.m_n_atomic warp_id = (core.waiting warp_id).card
  flies : ∀ warp_id inst t, flying core.pending warp_id inst t =
    if (inst, t) ∈ core.waiting warp_id then 1 else 0
  applies : ∀ inst t, core.applied inst t + unanswered core.pending inst t =
    if (inst, t) ∈ core.executed then 1 else 0

theorem Partitioned.new : Partitioned (AtomicCore.new : AtomicCore W) := by
  constructor <;> simp [AtomicCore.new, flying, unanswered]

theorem Partitioned.named_subset {core : AtomicCore W} (h : Partitioned core)
    {request : Pending W} (hrequest : request ∈ core.pending) :
    named request.inst request.mask ⊆ core.waiting request.warp_id := by
  rintro ⟨inst, t⟩ ht
  obtain ⟨rfl, hmem⟩ := mem_named.mp ht
  have hfly := h.flies request.warp_id request.inst t
  by_contra hnot
  rw [if_neg hnot] at hfly
  have hpos : 0 < flying core.pending request.warp_id request.inst t :=
    List.countP_pos_iff.mpr ⟨request, hrequest, by simp [hmem]⟩
  omega

/-! ## Steps -/

theorem flying_requests {atom : Atom W} {inst : Nat} {executing : Executing W}
    {pending : List (Pending W)} (hshares : ∀ request ∈ pending, Shares atom inst executing request)
    (warp_id inst' : Nat) (t : Fin W) :
    flying pending warp_id inst' t =
      if warp_id = atom.warp_id ∧ inst' = inst then
        pending.countP fun request => t ∈ request.mask else 0 := by
  split
  next h =>
    obtain ⟨rfl, rfl⟩ := h
    apply List.countP_congr
    intro request hrequest
    simp [(hshares request hrequest).warp_eq, (hshares request hrequest).inst_eq]
  next h =>
    apply List.countP_eq_zero.mpr
    intro request hrequest
    rw [decide_eq_true_eq, (hshares request hrequest).warp_eq, (hshares request hrequest).inst_eq]
    rintro ⟨rfl, rfl, -⟩
    exact h ⟨rfl, rfl⟩

theorem unanswered_requests {atom : Atom W} {inst : Nat} {executing : Executing W}
    {pending : List (Pending W)} (hshares : ∀ request ∈ pending, Shares atom inst executing request)
    (inst' : Nat) (t : Fin W) :
    unanswered pending inst' t =
      if inst' = inst then pending.countP fun request => t ∈ request.mask else 0 := by
  split
  next h =>
    subst h
    apply List.countP_congr
    intro request hrequest
    simp [(hshares request hrequest).inst_eq, (hshares request hrequest).unanswered]
  next h =>
    apply List.countP_eq_zero.mpr
    intro request hrequest
    rw [decide_eq_true_eq, (hshares request hrequest).inst_eq]
    exact fun heq => h heq.1.symm

theorem Partitioned.issue {config : CoreConfig} {core core' : AtomicCore config.warp_size}
    (h : Partitioned core) {atom : Atom config.warp_size}
    (hunskipped : Unskipped config (.issue atom))
    (hissue : core.issue_warp config atom = some core') : Partitioned core' := by
  obtain ⟨pending, hpending, rfl⟩ := Option.map_eq_some_iff.mp hissue
  obtain ⟨hmask, hcallbacks, hcount, hatomic⟩ :=
    execute_warp_inst_t_spec atom (core.m_n_atomic atom.warp_id)
  have hall : atom.active_mask.filter (atom.skip · = false) = atom.active_mask :=
    Finset.filter_true_of_mem fun t ht => (hunskipped t ht).1
  rw [hall] at hmask
  obtain ⟨hshares, hmasks⟩ := requests_spec hpending
  -- Each active thread is in the mask of one request, and no other thread is.
  have honce (t : Fin config.warp_size) : pending.countP (fun request => t ∈ request.mask) =
      if t ∈ atom.active_mask then 1 else 0 := by
    rw [hmasks t, hmask]
    by_cases ht : t ∈ atom.active_mask
    · rw [if_pos ⟨ht, (hunskipped t ht).2⟩, if_pos ht]
    · rw [if_neg fun hboth => ht hboth.1, if_neg ht]
  have hsubset (request : Pending config.warp_size) (hrequest : request ∈ pending) :
      request.mask ⊆ atom.active_mask := by
    intro t ht
    by_contra hnot
    have hpos : 0 < pending.countP fun request => t ∈ request.mask :=
      List.countP_pos_iff.mpr ⟨request, hrequest, by simpa using ht⟩
    rw [honce t, if_neg hnot] at hpos
    exact Nat.lt_irrefl 0 hpos
  have hfresh (warp_id : Nat) (t : Fin config.warp_size) :
      (core.instructions, t) ∉ core.waiting warp_id :=
    fun hin => Nat.lt_irrefl _ (h.waiting_lt warp_id _ hin)
  constructor
  case pending_lt =>
    intro request hrequest
    cases List.mem_append.mp hrequest with
    | inl hold => exact Nat.lt_succ_of_lt (h.pending_lt request hold)
    | inr hnew => exact (hshares request hnew).inst_eq ▸ Nat.lt_succ_self _
  case waiting_lt =>
    rintro warp_id ⟨inst, t⟩ hin
    by_cases hwarp : warp_id = atom.warp_id
    · simp only [hwarp, Function.update_self, Finset.mem_union] at hin
      cases hin with
      | inl hold => exact Nat.lt_succ_of_lt (h.waiting_lt _ _ hold)
      | inr hnew => exact (mem_named.mp hnew).1 ▸ Nat.lt_succ_self _
    · simp only [Function.update_of_ne hwarp] at hin
      exact Nat.lt_succ_of_lt (h.waiting_lt _ _ hin)
  case executed_lt =>
    rintro ⟨inst, t⟩ hin
    cases Finset.mem_union.mp hin with
    | inl hold => exact Nat.lt_succ_of_lt (h.executed_lt _ hold)
    | inr hnew => exact (mem_named.mp hnew).1 ▸ Nat.lt_succ_self _
  case isatomic =>
    intro request hrequest hsome
    cases List.mem_append.mp hrequest with
    | inl hold => exact h.isatomic request hold hsome
    | inr hnew =>
      rw [(hshares request hnew).isatomic_eq, hatomic]
      exact hsome.mono (hsubset request hnew)
  case callbacks =>
    intro request hrequest
    cases List.mem_append.mp hrequest with
    | inl hold => exact h.callbacks request hold
    | inr hnew =>
      rw [(hshares request hnew).callbacks_eq, hcallbacks]
      exact hsubset request hnew
  case count =>
    intro warp_id
    by_cases hwarp : warp_id = atom.warp_id
    · subst hwarp
      have hdisjoint : Disjoint (core.waiting atom.warp_id)
          (named core.instructions atom.active_mask) := by
        rw [Finset.disjoint_left]
        rintro ⟨inst, t⟩ hold hnew
        exact hfresh _ t ((mem_named.mp hnew).1 ▸ hold)
      simp only [Function.update_self, hcount, hmask]
      rw [Finset.card_union_of_disjoint hdisjoint, named_card, h.count]
    · simpa [hwarp] using h.count warp_id
  case flies =>
    intro warp_id inst t
    have happend : flying (core.pending ++ pending) warp_id inst t =
        flying core.pending warp_id inst t + flying pending warp_id inst t :=
      List.countP_append
    rw [happend, h.flies, flying_requests hshares, honce, hmask]
    by_cases hwarp : warp_id = atom.warp_id
    · subst hwarp
      by_cases hinst : inst = core.instructions
      · subst hinst
        simp [mem_named, hfresh]
      · simp [mem_named, hinst]
    · simp [hwarp]
  case applies =>
    intro inst t
    have happend : unanswered (core.pending ++ pending) inst t =
        unanswered core.pending inst t + unanswered pending inst t := List.countP_append
    rw [happend, ← Nat.add_assoc, h.applies, unanswered_requests hshares, honce, hmask]
    by_cases hinst : inst = core.instructions
    · subst hinst
      have hnot : (core.instructions, t) ∉ core.executed :=
        fun hin => Nat.lt_irrefl _ (h.executed_lt _ hin)
      simp [mem_named, hnot]
    · simp [mem_named, hinst]

def AtomicCore.applyRequest (core : AtomicCore W) (k : Nat) (request : Pending W) : AtomicCore W :=
  { core with
    pending := core.pending.set k { request with answered := true }
    applied := fun inst t =>
      core.applied inst t + if inst = request.inst ∧ t ∈ request.mask then 1 else 0 }

def AtomicCore.removeRequest (core : AtomicCore W) (k : Nat) (request : Pending W) : AtomicCore W :=
  { core with
    pending := core.pending.eraseIdx k
    m_n_atomic := Function.update core.m_n_atomic request.warp_id
      (core.m_n_atomic request.warp_id - request.mask.card)
    waiting := Function.update core.waiting request.warp_id
      (core.waiting request.warp_id \ named request.inst request.mask) }

theorem AtomicCore.do_atomic_eq (core : AtomicCore W) {request : Pending W}
    (hatomic : request.m_isatomic = true) (hcallbacks : request.mask ⊆ request.callbacks) :
    core.do_atomic request = some { core with
      applied := fun inst t =>
        core.applied inst t + if inst = request.inst ∧ t ∈ request.mask then 1 else 0 } := by
  have hmask : request.mask ∩ request.callbacks = request.mask :=
    Finset.inter_eq_left.mpr hcallbacks
  rw [do_atomic, if_pos hatomic, hmask]
  congr 2
  funext inst t
  split <;> rfl

theorem Partitioned.mask_eq_empty {core : AtomicCore W} (h : Partitioned core)
    {request : Pending W} (hrequest : request ∈ core.pending)
    (hatomic : ¬ request.m_isatomic = true) : request.mask = ∅ :=
  Finset.not_nonempty_iff_eq_empty.mp fun hsome => hatomic (h.isatomic request hrequest hsome)

theorem Partitioned.answer_eq {core : AtomicCore W} (h : Partitioned core) {k : Nat}
    {request : Pending W} (hk : core.pending[k]? = some request) :
    core.answer k request = some (core.applyRequest k request) := by
  have hrequest := List.mem_of_getElem? hk
  unfold AtomicCore.answer
  split
  next hatomic => exact AtomicCore.do_atomic_eq _ hatomic (h.callbacks request hrequest)
  next hatomic => simp [AtomicCore.applyRequest, h.mask_eq_empty hrequest hatomic]

theorem Partitioned.le_n_atomic {core : AtomicCore W} (h : Partitioned core)
    {request : Pending W} (hrequest : request ∈ core.pending) :
    request.mask.card ≤ core.m_n_atomic request.warp_id := by
  rw [h.count, ← named_card request.inst]
  exact Finset.card_le_card (h.named_subset hrequest)

theorem Partitioned.writeback_eq {core : AtomicCore W} (h : Partitioned core) {k : Nat}
    {request : Pending W} (hk : core.pending[k]? = some request) :
    core.writeback k request = some (core.removeRequest k request) := by
  have hrequest := List.mem_of_getElem? hk
  unfold AtomicCore.writeback
  split
  next => exact if_pos (h.le_n_atomic hrequest)
  next hatomic =>
    have hempty := h.mask_eq_empty hrequest hatomic
    simp [AtomicCore.removeRequest, hempty, named]

theorem Partitioned.shared_writeback_eq {core : AtomicCore W} (h : Partitioned core) {k : Nat}
    {request : Pending W} (hk : core.pending[k]? = some request) :
    core.shared_writeback k request =
      some ((core.applyRequest k request).removeRequest k { request with answered := true }) := by
  have hrequest := List.mem_of_getElem? hk
  have herase : (core.pending.set k { request with answered := true }).eraseIdx k =
      core.pending.eraseIdx k := List.eraseIdx_set_eq
  unfold AtomicCore.shared_writeback
  split
  next hatomic =>
    rw [AtomicCore.do_atomic_eq _ hatomic (h.callbacks request hrequest)]
    simp only [AtomicCore.removeRequest, AtomicCore.applyRequest, herase]
    exact if_pos (h.le_n_atomic hrequest)
  next hatomic =>
    have hempty := h.mask_eq_empty hrequest hatomic
    simp only [AtomicCore.removeRequest, AtomicCore.applyRequest, herase]
    simp [hempty, named]

theorem mem_of_mem_set {pending : List (Pending W)} {k : Nat} {request request' other : Pending W}
    (hk : pending[k]? = some request) (h : other ∈ pending.set k request') :
    other = request' ∨ other ∈ pending := by
  rw [(set_perm hk request').mem_iff, List.mem_cons] at h
  exact h.imp_right List.mem_of_mem_eraseIdx

theorem Partitioned.applyRequest {core : AtomicCore W} (h : Partitioned core) {k : Nat}
    {request : Pending W} (hk : core.pending[k]? = some request)
    (hanswered : request.answered = false) : Partitioned (core.applyRequest k request) where
  pending_lt other hother := by
    cases mem_of_mem_set hk hother with
    | inl heq => exact heq ▸ h.pending_lt request (List.mem_of_getElem? hk)
    | inr hold => exact h.pending_lt other hold
  waiting_lt := h.waiting_lt
  executed_lt := h.executed_lt
  isatomic other hother := by
    cases mem_of_mem_set hk hother with
    | inl heq => exact heq ▸ h.isatomic request (List.mem_of_getElem? hk)
    | inr hold => exact h.isatomic other hold
  callbacks other hother := by
    cases mem_of_mem_set hk hother with
    | inl heq => exact heq ▸ h.callbacks request (List.mem_of_getElem? hk)
    | inr hold => exact h.callbacks other hold
  count := h.count
  flies warp_id inst t := by
    have hbefore := h.flies warp_id inst t
    rw [flying_perm (perm_eraseIdx hk), flying_cons] at hbefore
    exact ((flying_perm (set_perm hk _) warp_id inst t).trans (flying_cons _ _ _ _ _)).trans hbefore
  applies inst t := by
    have hbefore := h.applies inst t
    have hafter := unanswered_perm (set_perm hk { request with answered := true }) inst t
    rw [unanswered_perm (perm_eraseIdx hk), unanswered_cons] at hbefore
    rw [unanswered_cons] at hafter
    refine Eq.trans ?_ hbefore
    simp only [AtomicCore.applyRequest, hafter, hanswered]
    by_cases hinst : inst = request.inst
    · by_cases hmem : t ∈ request.mask
      · simp [hinst, hmem]
        omega
      · simp [hmem]
    · have hne : request.inst ≠ inst := fun heq => hinst heq.symm
      simp [hinst, hne]

theorem Partitioned.removeRequest {core : AtomicCore W} (h : Partitioned core) {k : Nat}
    {request : Pending W} (hk : core.pending[k]? = some request)
    (hanswered : request.answered = true) : Partitioned (core.removeRequest k request) where
  pending_lt other hother := h.pending_lt other (List.mem_of_mem_eraseIdx hother)
  waiting_lt warp_id thread hthread := by
    by_cases hwarp : warp_id = request.warp_id
    · simp only [AtomicCore.removeRequest, hwarp, Function.update_self] at hthread
      exact h.waiting_lt _ _ (Finset.mem_sdiff.mp hthread).1
    · simp only [AtomicCore.removeRequest, Function.update_of_ne hwarp] at hthread
      exact h.waiting_lt _ _ hthread
  executed_lt := h.executed_lt
  isatomic other hother := h.isatomic other (List.mem_of_mem_eraseIdx hother)
  callbacks other hother := h.callbacks other (List.mem_of_mem_eraseIdx hother)
  count warp_id := by
    by_cases hwarp : warp_id = request.warp_id
    · subst hwarp
      have hsubset := h.named_subset (List.mem_of_getElem? hk)
      simp only [AtomicCore.removeRequest, Function.update_self]
      rw [Finset.card_sdiff_of_subset hsubset, named_card, h.count]
    · simpa [AtomicCore.removeRequest, hwarp] using h.count warp_id
  flies warp_id inst t := by
    have hbefore := h.flies warp_id inst t
    rw [flying_perm (perm_eraseIdx hk), flying_cons] at hbefore
    by_cases hin : request.warp_id = warp_id ∧ request.inst = inst ∧ t ∈ request.mask
    · -- The thread flew in this request alone.
      have hwaiting : (inst, t) ∈ core.waiting warp_id :=
        hin.1 ▸ h.named_subset (List.mem_of_getElem? hk) (mem_named.mpr ⟨hin.2.1.symm, hin.2.2⟩)
      rw [if_pos hin, if_pos hwaiting] at hbefore
      have hgone : flying (core.pending.eraseIdx k) warp_id inst t = 0 := by omega
      obtain ⟨rfl, rfl, hmem⟩ := hin
      simp [AtomicCore.removeRequest, hgone, mem_named, hmem]
    · rw [if_neg hin, Nat.add_zero] at hbefore
      refine hbefore.trans ?_
      by_cases hwarp : warp_id = request.warp_id
      · subst hwarp
        have hout : (inst, t) ∉ named request.inst request.mask := by
          rw [mem_named]
          exact fun hboth => hin ⟨rfl, hboth.1.symm, hboth.2⟩
        simp [AtomicCore.removeRequest, hout]
      · simp [AtomicCore.removeRequest, hwarp]
  applies inst t := by
    have hbefore := h.applies inst t
    rw [unanswered_perm (perm_eraseIdx hk), unanswered_cons] at hbefore
    simp only [hanswered, Bool.true_eq_false, and_false, if_false, Nat.add_zero] at hbefore
    exact hbefore

/-! ## Runs -/

def SharedUnanswered (core : AtomicCore W) : Prop :=
  ∀ request ∈ core.pending, request.space = .shared_space → request.answered = false

theorem Partitioned.step {config : CoreConfig} {core core' : AtomicCore config.warp_size}
    {event : Event config.warp_size} (h : Partitioned core) (hshared : SharedUnanswered core)
    (hstep : Step config core event (some core')) (hunskipped : Unskipped config event) :
    Partitioned core' ∧ SharedUnanswered core' := by
  generalize hresult : some core' = result at hstep
  cases hstep with
  | issue hissue =>
    obtain rfl := Option.some.inj hresult
    refine ⟨h.issue hunskipped hissue, ?_⟩
    obtain ⟨pending, hpending, rfl⟩ := Option.map_eq_some_iff.mp hissue
    intro request hrequest hspace
    cases List.mem_append.mp hrequest with
    | inl hold => exact hshared request hold hspace
    | inr hnew => exact ((requests_spec hpending).1 request hnew).unanswered
  | @answer k request hk hspace hanswered =>
    rw [h.answer_eq hk] at hresult
    obtain rfl := Option.some.inj hresult
    refine ⟨h.applyRequest hk hanswered, fun other hother hothers => ?_⟩
    cases mem_of_mem_set hk hother with
    | inl heq =>
      rw [heq, hspace] at hothers
      cases hothers
    | inr hold => exact hshared other hold hothers
  | @writeback k request hk hspace hanswered =>
    rw [h.writeback_eq hk] at hresult
    obtain rfl := Option.some.inj hresult
    exact ⟨h.removeRequest hk hanswered,
      fun other hother => hshared other (List.mem_of_mem_eraseIdx hother)⟩
  | @shared_writeback k request hk hspace =>
    rw [h.shared_writeback_eq hk] at hresult
    obtain rfl := Option.some.inj hresult
    obtain ⟨hlt, -⟩ := List.getElem?_eq_some_iff.mp hk
    have happlied := h.applyRequest hk (hshared request (List.mem_of_getElem? hk) hspace)
    have hk' : (core.applyRequest k request).pending[k]? =
        some { request with answered := true } := by
      simp [AtomicCore.applyRequest, hlt]
    refine ⟨happlied.removeRequest hk' rfl, fun other hother => ?_⟩
    have herase : (core.pending.set k { request with answered := true }).eraseIdx k =
        core.pending.eraseIdx k := List.eraseIdx_set_eq
    simp only [AtomicCore.removeRequest, AtomicCore.applyRequest, herase] at hother
    exact hshared other (List.mem_of_mem_eraseIdx hother)

theorem Run.partitioned {config : CoreConfig} {core : AtomicCore config.warp_size}
    (run : Run config (Unskipped config) core) : Partitioned core ∧ SharedUnanswered core := by
  induction run with
  | new => exact ⟨Partitioned.new, fun request hrequest => by cases hrequest⟩
  | step _ hstep hunskipped ih => exact ih.1.step ih.2 hstep hunskipped

theorem Partitioned.balanced {config : CoreConfig} {core : AtomicCore config.warp_size}
    (h : Partitioned core) : Balanced config core where
  counted := h.count
  asserts event hstep := by
    generalize hresult : (none : Option (AtomicCore config.warp_size)) = result at hstep
    cases hstep with
    | issue => cases hresult
    | answer hk =>
      rw [h.answer_eq hk] at hresult
      cases hresult
    | writeback hk =>
      rw [h.writeback_eq hk] at hresult
      cases hresult
    | shared_writeback hk =>
      rw [h.shared_writeback_eq hk] at hresult
      cases hresult
  atMostOnce inst t := by
    have hsum := h.applies inst t
    constructor
    · split at hsum <;> omega
    · intro hone
      by_contra hnot
      rw [if_neg hnot, hone] at hsum
      omega
  applied inst t hexecuted := by
    have hsum := h.applies inst t
    rw [if_pos hexecuted] at hsum
    by_cases hone : core.applied inst t = 1
    · exact .inl hone
    · have hpos : 0 < unanswered core.pending inst t := by omega
      obtain ⟨request, hrequest, hfields⟩ := List.countP_pos_iff.mp hpos
      exact .inr ⟨request, hrequest, of_decide_eq_true hfields⟩
  free warp_id hnone := by
    rw [h.count, Finset.card_eq_zero, Finset.eq_empty_iff_forall_notMem]
    rintro ⟨inst, t⟩ hwaiting
    have hfly := h.flies warp_id inst t
    have hzero : flying core.pending warp_id inst t = 0 := by
      apply List.countP_eq_zero.mpr
      intro request hrequest
      simp [hnone request hrequest]
    rw [if_pos hwaiting, hzero] at hfly
    cases hfly

/-- In a run in which no lane of an atomic is skipped, the count of each warp is the number
    of its threads that wait, and each atomic is applied once. -/
theorem atomics_balanced {config : CoreConfig} {core : AtomicCore config.warp_size}
    (run : Run config (Unskipped config) core) : Balanced config core :=
  run.partitioned.1.balanced

theorem counted_issue_iff {config : CoreConfig} {core core' : AtomicCore config.warp_size}
    {atom : Atom config.warp_size}
    (hcount : core.m_n_atomic atom.warp_id = (core.waiting atom.warp_id).card)
    (hfresh : ∀ named ∈ core.waiting atom.warp_id, named.1 < core.instructions)
    (hissue : core.issue_warp config atom = some core') :
    core'.m_n_atomic atom.warp_id = (core'.waiting atom.warp_id).card ↔
      ∀ t ∈ atom.active_mask, atom.skip t = false := by
  obtain ⟨pending, -, rfl⟩ := Option.map_eq_some_iff.mp hissue
  obtain ⟨hmask, -, hn_atomic, -⟩ :=
    execute_warp_inst_t_spec atom (core.m_n_atomic atom.warp_id)
  have hdisjoint : Disjoint (core.waiting atom.warp_id)
      (named core.instructions (atom.active_mask.filter (atom.skip · = false))) := by
    rw [Finset.disjoint_left]
    rintro ⟨inst, t⟩ hold hnew
    have hlt := hfresh _ hold
    rw [(mem_named.mp hnew).1] at hlt
    exact Nat.lt_irrefl _ hlt
  simp only [Function.update_self, hn_atomic, hmask]
  rw [Finset.card_union_of_disjoint hdisjoint, named_card, hcount, Nat.add_left_cancel_iff, eq_comm,
    Finset.card_filter_eq_iff]

abbrev twoLanes : CoreConfig := ⟨2, 1, false, false, 0, Nat.le_add_right 2 30, Nat.one_pos⟩

/-- An atomic of both lanes in shared memory, whose lanes from `skipped` on are skipped. -/
def sharedAtom (skipped : Nat) : Atom twoLanes.warp_size :=
  ⟨0, .shared_space, 4, 1, Finset.univ, fun t => decide (skipped ≤ t.val), fun _ => 0⟩

def afterIssue (skipped : Nat) : AtomicCore twoLanes.warp_size :=
  (AtomicCore.new.issue_warp twoLanes (sharedAtom skipped)).getD AtomicCore.new

theorem atomics_balanced_shared :
    (afterIssue 2).m_n_atomic 0 = 2 ∧ Balanced twoLanes (afterIssue 2) := by
  have run : Run twoLanes (Unskipped twoLanes) (afterIssue 2) :=
    .step .new (@Step.issue _ _ (sharedAtom 2) _ rfl) fun t _ => ⟨by revert t; decide, nofun⟩
  exact ⟨rfl, atomics_balanced run⟩

/-- A warp with a skipped lane is held after its atomic has come back. -/
theorem skipped_lane_held :
    ∃ core, Run twoLanes (fun _ => True) core ∧ core.pending = [] ∧ core.m_n_atomic 0 = 1 ∧
      ¬ Balanced twoLanes core := by
  let request := ((afterIssue 1).pending[0]?).get rfl
  let core := ((afterIssue 1).shared_writeback 0 request).getD AtomicCore.new
  have hback : Step twoLanes (afterIssue 1) (.shared_writeback 0) (some core) :=
    @Step.shared_writeback _ (afterIssue 1) 0 request (Option.some_get _).symm rfl
  have run : Run twoLanes (fun _ => True) core :=
    .step (.step .new (@Step.issue _ _ (sharedAtom 1) _ rfl) trivial) hback trivial
  refine ⟨core, run, rfl, rfl, fun h => ?_⟩
  have hfree := h.free 0 fun request hrequest => by cases hrequest
  cases hfree

end AesOnGpu.Atomics
