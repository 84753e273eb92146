import AesOnGpu.ControlFlow.Reconvergence

/-! # Points at the exit

The point of a branch whose block has the exit block as its immediate postdominator is a mark. The
mark is no PC, since instructions take 4 or 8 bytes; but as soon as there are instructions one of them
has PC 0.
-/

namespace AesOnGpu.ControlFlow

namespace FunctionInfo

variable (f : FunctionInfo)

def MeetsAtExit (p : Nat) : Prop :=
  ∃ inside : f.analysis.blocks.get_bb p < f.analysis.blocks.ptx_end.length + 1,
    (f.analysis.m_basic_blocks ⟨_, inside⟩).immediatepostdominator_id =
      f.analysis.blocks.ptx_end.length

instance (p : Nat) : Decidable (f.MeetsAtExit p) :=
  inferInstanceAs (Decidable (∃ _ : _, _))

/-- The function starts with two instructions, and `p` is the first of them. -/
def StartsBlockOfTwo (p : Nat) : Prop :=
  p = 0 ∧ ∃ pI', f.m_instructions[1]? = some (.instruction pI')

end FunctionInfo

namespace Loader

/-- `pI` is assembled at `pc`. -/
def At (loader : Loader) (pc : Nat) (pI : PtxInstruction) : Prop :=
  ∃ f ∈ loader.functions, ∃ p, f.m_instructions[p]? = some (.instruction pI) ∧ f.get_PC p = some pc

def IsPC (loader : Loader) (pc : Nat) : Prop := ∃ pI, loader.At pc pI

/-- `m_inst_size` is 8, or 4 for a short instruction. -/
def WordSized (loader : Loader) : Prop :=
  ∀ f ∈ loader.functions, ∀ pI, .instruction pI ∈ f.m_instructions →
    pI.inst_size = 4 ∨ pI.inst_size = 8

variable {loader : Loader} {pc : Nat} {pI : PtxInstruction}

/-! ## PCs -/

theorem WordSized.sizes (sizes : loader.WordSized) {f : FunctionInfo} (member : f ∈ loader.functions)
    (p : Nat) (pI : PtxInstruction) (here : f.m_instructions[p]? = some (.instruction pI)) :
    pI.inst_size = 4 ∨ pI.inst_size = 8 :=
  sizes f member pI (List.mem_of_getElem? here)

theorem Reachable.aligned (reachable : loader.Reachable) (sizes : loader.WordSized) :
    4 ∣ loader.g_assemble_code_next_pc ∧ ∀ f ∈ loader.functions, 4 ∣ f.m_start_PC := by
  induction reachable with
  | new => exact ⟨dvd_zero 4, nofun⟩
  | @assemble loader loader' fuel f _ run ih =>
    obtain ⟨⟨map, PC⟩, loads, run⟩ := Option.bind_eq_some_iff.mp run
    obtain ⟨analysis, -, run⟩ := Option.bind_eq_some_iff.mp run
    obtain rfl := Option.some.inj run
    obtain ⟨next, starts⟩ := ih fun g member => sizes g (List.mem_append_left _ member)
    have own := four_dvd_addressOf
      (sizes.sizes (List.mem_append_right _ (List.mem_singleton_self _))) f.m_instructions.length
    obtain ⟨-, order, -⟩ := loadTurns_spec loads
    rw [addressOf, ← List.length_map, Layout.start_length] at own
    have start : 4 ∣ loader.g_assemble_code_next_pc +
        loader.g_assemble_code_next_pc % MAX_INST_SIZE :=
      dvd_add next ((Nat.dvd_mod_iff (by decide)).mpr next)
    refine ⟨order ▸ dvd_add start own, fun g member => ?_⟩
    cases List.mem_append.mp member with
    | inl before => exact starts g before
    | inr last =>
      obtain rfl := List.mem_singleton.mp last
      exact start

theorem At.aligned (at_ : loader.At pc pI) (reachable : loader.Reachable)
    (sizes : loader.WordSized) : 4 ∣ pc := by
  obtain ⟨f, member, p, here, isPc⟩ := at_
  rw [FunctionInfo.get_PC_eq here] at isPc
  obtain rfl := Option.some.inj isPc
  exact dvd_add ((reachable.aligned sizes).2 f member) (four_dvd_addressOf (sizes.sizes member) p)

theorem At.size (at_ : loader.At pc pI) (sizes : loader.WordSized) :
    pI.inst_size = 4 ∨ pI.inst_size = 8 := by
  obtain ⟨f, member, p, here, -⟩ := at_
  exact sizes.sizes member p pI here

theorem Reachable.isPC_zero (reachable : loader.Reachable) :
    loader.g_assemble_code_next_pc = 0 ∨ loader.IsPC 0 := by
  induction reachable with
  | new => exact Or.inl rfl
  | @assemble loader loader' fuel f _ run ih =>
    obtain ⟨⟨map, PC⟩, loads, run⟩ := Option.bind_eq_some_iff.mp run
    obtain ⟨analysis, -, run⟩ := Option.bind_eq_some_iff.mp run
    obtain rfl := Option.some.inj run
    obtain ⟨-, order, -⟩ := loadTurns_spec loads
    cases ih with
    | inr used =>
      obtain ⟨pI, g, member, at_⟩ := used
      exact Or.inr ⟨pI, g, List.mem_append_left _ member, at_⟩
    | inl fresh =>
      rw [fresh, Nat.zero_mod, Nat.zero_add] at order
      -- labels before the first instruction take no bytes
      cases first : find_next_real_instruction f.m_instructions 0 with
      | none =>
        refine Or.inl (order.trans (List.sum_eq_zero fun bytes member => ?_))
        obtain ⟨statement, listed, rfl⟩ := List.mem_map.mp member
        cases statement with
        | label name => rfl
        | instruction pI =>
          obtain ⟨r, here⟩ := List.mem_iff_getElem?.mp listed
          exact absurd here (next_eq_none.mp first r pI (Nat.zero_le r))
      | some p =>
        obtain ⟨-, ⟨pI, here⟩, -⟩ := next_eq_some.mp first
        have address : addressOf f.m_instructions p = 0 :=
          (addressOf_next first).symm.trans Layout.start_zero
        refine Or.inr ⟨pI, _, List.mem_append_right _ (List.mem_singleton_self _), p, here, ?_⟩
        rw [FunctionInfo.get_PC_eq here]
        simp only [address, fresh, Nat.zero_mod, Nat.add_zero]

theorem At.isPC_zero (at_ : loader.At pc pI) (reachable : loader.Reachable) : loader.IsPC 0 := by
  obtain ⟨f, member, p, here, -⟩ := at_
  obtain ⟨k, inside⟩ := List.mem_iff_getElem?.mp member
  have below := (reachable.loaded.found k f p pI inside here).2.1
  exact reachable.isPC_zero.resolve_left (by omega)

/-! ## Points at the exit -/

variable {f : FunctionInfo} {k p : Nat}

theorem Loaded.meetsAtExit_iff (loaded : loader.Loaded) (member : loader.functions[k]? = some f)
    {i : Fin (f.analysis.blocks.ptx_end.length + 1)} (block : i.val = f.analysis.blocks.get_bb p)
    (notExit : i ≠ f.exitBlock)
    (reaches : FlowGraph.Reaches f.analysis.m_basic_blocks.Edge f.exitBlock i) :
    f.MeetsAtExit p ↔
      FlowGraph.ImmediatePostdominator f.analysis.m_basic_blocks.Edge f.exitBlock f.exitBlock i := by
  have exact_ := loaded.exact_ f (List.mem_of_getElem? member)
  obtain ⟨d, immediate, id⟩ := exact_.immediate i notExit
  have same : f.MeetsAtExit p ↔ d = f.exitBlock := by
    rw [FunctionInfo.MeetsAtExit, ← block, Fin.ext_iff]
    simp only [Fin.eta, id, i.isLt, exists_true_left]
    exact Int.natCast_inj
  rw [same]
  constructor
  · intro atExit
    rw [atExit] at immediate
    exact immediate
  · intro exits
    exact immediate.unique exits reaches

theorem Loaded.converge_at_exit (loaded : loader.Loaded) (member : loader.functions[k]? = some f)
    (here : f.m_instructions[p]? = some (.instruction pI)) (branch : pI.opcode = .BRA_OP)
    (apart : ¬ f.StartsBlockOfTwo p) (exits : f.MeetsAtExit p) (isPc : f.get_PC p = some pc) :
    loader.get_converge_point pc = some RECONVERGE_RETURN_PC := by
  have exact_ := loaded.exact_ f (List.mem_of_getElem? member)
  obtain ⟨points, run, members⟩ := FunctionInfo.exists_points exact_
  obtain ⟨inside, immediate⟩ := exits
  have behind : f.analysis.ptx_begin[f.analysis.blocks.ptx_end.length]? = none :=
    List.getElem?_eq_none exact_.length.le
  have target : f.targetPC (f.analysis.blocks.get_bb p) = some RECONVERGE_RETURN_PC := by
    rw [FunctionInfo.targetPC, dif_pos inside]
    simp only [immediate, Int.toNat_natCast, Int.natCast_nonneg, Nat.lt_succ_self, and_self,
      if_true, behind]
  have listed : ⟨pc, RECONVERGE_RETURN_PC⟩ ∈ points :=
    (members _).mpr ⟨_, p, branch_ends exact_.created here branch apart,
      FunctionInfo.is_branch_iff.mpr ⟨pI, here, branch⟩, isPc, target⟩
  exact loaded.get_converge_point member run listed

theorem Loaded.converge_unrecorded (loaded : loader.Loaded)
    (member : loader.functions[k]? = some f)
    (here : f.m_instructions[p]? = some (.instruction pI)) (first : f.StartsBlockOfTwo p)
    (isPc : f.get_PC p = some pc) :
    loader.get_converge_point pc = some NO_BRANCH_DIVERGENCE := by
  have exact_ := loaded.exact_ f (List.mem_of_getElem? member)
  obtain ⟨points, run, members⟩ := FunctionInfo.exists_points exact_
  have absent : points.find? (fun point => point.source_pc = pc) = none := by
    refine List.find?_eq_none.mpr fun point listed same => ?_
    rw [decide_eq_true_eq] at same
    obtain ⟨b, e, isEnd, branch, source, -⟩ := (members point).mp listed
    obtain ⟨pI', here', -⟩ := FunctionInfo.is_branch_iff.mp branch
    rw [same] at source
    obtain rfl := FunctionInfo.get_PC_inj here here' (isPc.trans source.symm)
    obtain ⟨rfl, pI', second⟩ := first
    exact first_ends_not exact_.created here second b isEnd
  have finfo := (loaded.found k f p pI member here).1
  rw [FunctionInfo.get_PC_eq here] at isPc
  rw [Option.some.inj isPc] at finfo
  simp only [Loader.get_converge_point, finfo, member, run, Option.bind_eq_bind, Option.bind_some,
    absent]
  rfl

end Loader

end AesOnGpu.ControlFlow
