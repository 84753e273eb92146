import AesOnGpu.OperandCollector.Arbiter

/-! # Writes to the register banks

`opndcoll_rfu_t::writeback` takes a bank for each destination register of an instruction, one
after the other, and gives up at the first bank that is not idle.  `none` is a failed assertion.
-/

namespace AesOnGpu.OperandCollector

def MAX_REG_OPERANDS : Nat := 8

/-- Of `warp_inst_t`: a destination below 0 is none. -/
structure WarpInst where
  m_empty : Bool
  warp_id : Nat
  dst : Nat → Int

def get_regs_written (fvt : WarpInst) : List Nat :=
  (List.range MAX_REG_OPERANDS).filterMap fun op =>
    if 0 ≤ fvt.dst op then some (fvt.dst op).toNat else none

def register_bank (regnum wid num_banks bank_warp_shift : Nat) : Nat :=
  let bank := if bank_warp_shift ≠ 0 then (regnum + wid) % 2 ^ 32 else regnum
  bank % num_banks

def registerBanks (inst : WarpInst) (num_banks bank_warp_shift : Nat) (regs : List Nat) : List Nat :=
  regs.map fun reg => register_bank reg inst.warp_id num_banks bank_warp_shift

namespace Arbiter

variable (a : Arbiter)

def bank_idle (bank : Nat) : Bool := a.m_allocated_bank bank == .NO_ALLOC

def alloc_write (bank : Nat) : Arbiter :=
  { a with m_allocated_bank := Function.update a.m_allocated_bank bank .WRITE_ALLOC }

def allocate_bank_for_write (bank : Nat) : Option Arbiter :=
  if bank < a.m_num_banks ∧ a.bank_idle bank = true then some (a.alloc_write bank) else none

def writebackLoop (inst : WarpInst) (bank_warp_shift : Nat) :
    Arbiter → List Nat → Option (Bool × Arbiter)
  | a, [] => some (true, a)
  | a, reg :: regs =>
      let bank := register_bank reg inst.warp_id a.m_num_banks bank_warp_shift
      if a.bank_idle bank then do
        let a ← a.allocate_bank_for_write bank
        writebackLoop inst bank_warp_shift a regs
      else some (false, a)

def writeback (inst : WarpInst) (bank_warp_shift : Nat) : Option (Bool × Arbiter) :=
  if inst.m_empty then none else writebackLoop inst bank_warp_shift a (get_regs_written inst)

def writeBanks (inst : WarpInst) (bank_warp_shift : Nat) : List Nat :=
  registerBanks inst a.m_num_banks bank_warp_shift (get_regs_written inst)

/-! ## What writing back is for -/

structure TakenForWrites (banks : List Nat) (a' : Arbiter) : Prop where
  one_each : banks.Nodup
  idle : ∀ bank ∈ banks, bank < a.m_num_banks ∧ a.bank_idle bank = true
  taken : a' = { a with m_allocated_bank := fun bank =>
    if bank ∈ banks then .WRITE_ALLOC else a.m_allocated_bank bank }

def AllIdle : Prop := ∀ bank < a.m_num_banks, a.bank_idle bank = true

def WritesBack (inst : WarpInst) (bank_warp_shift : Nat) : Prop :=
  (∃ a', a.writeback inst bank_warp_shift = some (true, a') ∧
      a.TakenForWrites (a.writeBanks inst bank_warp_shift) a') ∨
    a.writeback inst bank_warp_shift = some (false, a) ∧ ¬ a.AllIdle

/-! ## The loop -/

variable {a}

theorem register_bank_lt (regnum wid bank_warp_shift : Nat) :
    register_bank regnum wid a.m_num_banks bank_warp_shift < a.m_num_banks :=
  Nat.mod_lt _ a.banks_pos

theorem alloc_write_idle {bank bank' : Nat} :
    (a.alloc_write bank).bank_idle bank' = true ↔ bank' ≠ bank ∧ a.bank_idle bank' = true := by
  by_cases hsame : bank' = bank
  · simp [hsame, bank_idle, alloc_write]
  · simp [hsame, bank_idle, alloc_write]

theorem takenForWrites_nil : a.TakenForWrites [] a where
  one_each := List.nodup_nil
  idle := by simp
  taken := by simp

theorem TakenForWrites.cons {bank : Nat} {banks : List Nat} {a' : Arbiter}
    (hlt : bank < a.m_num_banks) (hidle : a.bank_idle bank = true)
    (h : (a.alloc_write bank).TakenForWrites banks a') : a.TakenForWrites (bank :: banks) a' where
  one_each := List.nodup_cons.mpr
    ⟨fun hmem => (alloc_write_idle.mp (h.idle bank hmem).2).1 rfl, h.one_each⟩
  idle := by
    intro bank' hmem
    cases List.mem_cons.mp hmem with
    | inl hfirst => exact hfirst ▸ ⟨hlt, hidle⟩
    | inr hlater =>
        obtain ⟨hlt', hidle'⟩ := h.idle bank' hlater
        exact ⟨hlt', (alloc_write_idle.mp hidle').2⟩
  taken := by
    rw [h.taken, alloc_write]
    congr 1
    funext bank'
    by_cases hsame : bank' = bank
    · simp [hsame]
    · simp [hsame]

theorem writebackLoop_taken {inst : WarpInst} {bank_warp_shift : Nat} {regs : List Nat}
    (hnodup : (registerBanks inst a.m_num_banks bank_warp_shift regs).Nodup)
    (hidle : ∀ bank ∈ registerBanks inst a.m_num_banks bank_warp_shift regs,
      a.bank_idle bank = true) :
    ∃ a', writebackLoop inst bank_warp_shift a regs = some (true, a') ∧
      a.TakenForWrites (registerBanks inst a.m_num_banks bank_warp_shift regs) a' := by
  induction regs generalizing a with
  | nil => exact ⟨a, rfl, takenForWrites_nil⟩
  | cons reg regs ih =>
      have hlt := register_bank_lt (a := a) reg inst.warp_id bank_warp_shift
      obtain ⟨hfirst, hrest⟩ := List.nodup_cons.mp hnodup
      have hhere := hidle _ List.mem_cons_self
      obtain ⟨a', hrun, htaken⟩ := ih (a := a.alloc_write _) hrest fun bank hmem =>
        alloc_write_idle.mpr ⟨fun hsame => by
          subst hsame
          exact hfirst hmem, hidle bank (List.mem_cons_of_mem _ hmem)⟩
      refine ⟨a', ?_, htaken.cons hlt hhere⟩
      rw [writebackLoop, if_pos hhere, allocate_bank_for_write, if_pos ⟨hlt, hhere⟩]
      exact hrun

theorem writebackLoop_gives_up {inst : WarpInst} {bank_warp_shift : Nat} {regs : List Nat}
    (hnot : ¬ ((registerBanks inst a.m_num_banks bank_warp_shift regs).Nodup ∧
      ∀ bank ∈ registerBanks inst a.m_num_banks bank_warp_shift regs, a.bank_idle bank = true)) :
    ∃ taken a', writebackLoop inst bank_warp_shift a regs = some (false, a') ∧
      a.TakenForWrites taken a' ∧
      (taken = [] ↔ ∃ bank ∈ (registerBanks inst a.m_num_banks bank_warp_shift regs).head?,
        a.bank_idle bank = false) := by
  induction regs generalizing a with
  | nil => exact absurd ⟨List.nodup_nil, by simp [registerBanks]⟩ hnot
  | cons reg regs ih =>
      have hlt := register_bank_lt (a := a) reg inst.warp_id bank_warp_shift
      cases hhere : a.bank_idle (register_bank reg inst.warp_id a.m_num_banks bank_warp_shift) with
      | false =>
          refine ⟨[], a, ?_, takenForWrites_nil, iff_of_true rfl ⟨_, rfl, hhere⟩⟩
          rw [writebackLoop, hhere]
          rfl
      | true =>
          have hrest : ¬ ((registerBanks inst a.m_num_banks bank_warp_shift regs).Nodup ∧
              ∀ bank ∈ registerBanks inst a.m_num_banks bank_warp_shift regs,
                (a.alloc_write (register_bank reg inst.warp_id a.m_num_banks
                  bank_warp_shift)).bank_idle bank = true) := by
            intro h
            apply hnot
            refine ⟨List.nodup_cons.mpr ⟨fun hmem => ?_, h.1⟩, fun bank hmem => ?_⟩
            · exact (alloc_write_idle.mp (h.2 _ hmem)).1 rfl
            · cases List.mem_cons.mp hmem with
              | inl hfirst => exact hfirst ▸ hhere
              | inr hlater => exact (alloc_write_idle.mp (h.2 bank hlater)).2
          obtain ⟨taken, a', hrun, htaken, _⟩ := ih (a := a.alloc_write _) hrest
          refine ⟨_ :: taken, a', ?_, htaken.cons hlt hhere,
            iff_of_false (List.cons_ne_nil _ _) ?_⟩
          · rw [writebackLoop, if_pos hhere, allocate_bank_for_write, if_pos ⟨hlt, hhere⟩]
            exact hrun
          · simp [registerBanks, hhere]

theorem TakenForWrites.eq_self_iff {banks : List Nat} {a' : Arbiter} (h : a.TakenForWrites banks a') :
    a' = a ↔ banks = [] := by
  constructor
  · intro hsame
    cases banks with
    | nil => rfl
    | cons bank banks =>
        have hidle := (h.idle bank List.mem_cons_self).2
        rw [← hsame, h.taken] at hidle
        simp [bank_idle] at hidle
  · rintro rfl
    simp [h.taken]

/-- Writing back takes all banks or none, and succeeds with all banks idle, just when the banks are
different from each other and idle, or the first of them is not idle. -/
theorem writesBack_iff (a : Arbiter) (inst : WarpInst) (bank_warp_shift : Nat)
    (hinst : inst.m_empty = false) :
    a.WritesBack inst bank_warp_shift ↔
      ((a.writeBanks inst bank_warp_shift).Nodup ∧
        ∀ bank ∈ a.writeBanks inst bank_warp_shift, a.bank_idle bank = true) ∨
      ∃ bank ∈ (a.writeBanks inst bank_warp_shift).head?, a.bank_idle bank = false := by
  have hloop : a.writeback inst bank_warp_shift =
      writebackLoop inst bank_warp_shift a (get_regs_written inst) := by
    rw [writeback, hinst]
    rfl
  by_cases hfree : (a.writeBanks inst bank_warp_shift).Nodup ∧
      ∀ bank ∈ a.writeBanks inst bank_warp_shift, a.bank_idle bank = true
  · obtain ⟨a', hrun, htaken⟩ := writebackLoop_taken hfree.1 hfree.2
    exact iff_of_true (Or.inl ⟨a', hloop.trans hrun, htaken⟩) (Or.inl hfree)
  · obtain ⟨taken, a', hrun, htaken, hfirst⟩ := writebackLoop_gives_up hfree
    rw [or_iff_right hfree]
    constructor
    · intro h
      cases h with
      | inl hall =>
          obtain ⟨_, htrue, _⟩ := hall
          rw [hloop, hrun] at htrue
          cases htrue
      | inr hnone =>
          have hsame : a' = a := by
            have hfalse := hrun.symm.trans (hloop.symm.trans hnone.1)
            cases hfalse
            rfl
          exact hfirst.mp (htaken.eq_self_iff.mp hsame)
    · intro hbusy
      have hsame := htaken.eq_self_iff.mpr (hfirst.mpr hbusy)
      subst hsame
      refine Or.inr ⟨hloop.trans hrun, fun hidle => ?_⟩
      obtain ⟨bank, hbank, hnot⟩ := hbusy
      obtain ⟨reg, _, rfl⟩ := List.mem_map.mp (List.mem_of_mem_head? hbank)
      rw [hidle _ (register_bank_lt reg inst.warp_id bank_warp_shift)] at hnot
      cases hnot

def eightBanks : Arbiter where
  m_num_banks := 8
  m_num_collectors := 8
  m_queue _ := []
  m_allocated_bank _ := .NO_ALLOC
  m_last_cu := 0
  banks_pos := FinLiterals.eight_pos
  collectors_pos := FinLiterals.eight_pos
  oc_id_lt := by simp
  last_cu_lt := by decide

/-- A load into registers 0 and 8. -/
def loadTwo : WarpInst where
  m_empty := false
  warp_id := 0
  dst op := if op = 0 then 0 else if op = 1 then 8 else -1

/-- Register 9 instead of 8 is in a bank of its own. -/
theorem writesBack_iff_loadTwo :
    eightBanks.WritesBack { loadTwo with dst := fun op => if op < 2 then 9 * op else -1 } 5 :=
  (writesBack_iff eightBanks _ 5 rfl).mpr (Or.inl ⟨by decide, fun _ _ => rfl⟩)

/-- Registers 0 and 8 are both in bank 0. -/
theorem two_registers_in_one_bank :
    ¬ ∀ (a : Arbiter) (inst : WarpInst) (bank_warp_shift : Nat), inst.m_empty = false →
      a.WritesBack inst bank_warp_shift := by
  intro hall
  have hrefused : (eightBanks.writeback loadTwo 5).map Prod.fst = some false := by decide +kernel
  cases hall eightBanks loadTwo 5 rfl with
  | inl htrue =>
      obtain ⟨a', hrun, _⟩ := htrue
      rw [hrun] at hrefused
      cases hrefused
  | inr hfalse => exact hfalse.2 fun _ _ => rfl

/-- A retried write whose destinations share a bank is refused for ever. -/
theorem writeback_never {inst : WarpInst} {bank_warp_shift : Nat} (a' : Arbiter)
    (hshared : ¬ (a.writeBanks inst bank_warp_shift).Nodup)
    (hbanks : a'.m_num_banks = a.m_num_banks) :
    ¬ ∃ a'', a'.writeback inst bank_warp_shift = some (true, a'') := by
  rintro ⟨a'', hrun⟩
  rw [writeback] at hrun
  split at hrun
  next => cases hrun
  next =>
    have hnot : ¬ ((registerBanks inst a'.m_num_banks bank_warp_shift
        (get_regs_written inst)).Nodup ∧ ∀ bank ∈ registerBanks inst a'.m_num_banks bank_warp_shift
        (get_regs_written inst), a'.bank_idle bank = true) := by
      rw [hbanks]
      exact fun h => hshared h.1
    obtain ⟨_, _, hfalse, _⟩ := writebackLoop_gives_up hnot
    rw [hfalse] at hrun
    cases hrun

end Arbiter

end AesOnGpu.OperandCollector
