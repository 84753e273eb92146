import AesOnGpu.Lib.Grouping
import AesOnGpu.LoadStore.Ledger

/-! # The release of the registers of loads

Every step of the load-store unit is a step of its ledger, or changes nothing there.
-/

namespace AesOnGpu.LoadStore

open Countdown (setAll)

/-! ## The loops over the registers -/

def keysOf (inst : Load) (registers : List Nat) : List WarpReg :=
  registers.map fun reg => (inst.warp_id, reg)

theorem keysOf_cons (inst : Load) (reg : Nat) (registers : List Nat) :
    keysOf inst (reg :: registers) = (inst.warp_id, reg) :: keysOf inst registers := rfl

theorem releaseRegisters_eq (inst : Load) (registers : List Nat) (unit : LdstUnit) :
    registers.foldl (fun unit reg => unit.releaseRegister inst reg) unit =
      { unit with
        reg_table := unit.reg_table \ (keysOf inst registers).toFinset
        released := unit.released ++ registers.map fun reg => (inst, reg) } := by
  induction registers generalizing unit with
  | nil => simp [keysOf]
  | cons reg registers ih =>
    rw [List.foldl_cons, ih, keysOf_cons, List.toFinset_cons]
    simp only [LdstUnit.releaseRegister, List.map_cons, List.append_assoc, List.singleton_append]
    congr 1
    rw [Finset.erase_sdiff_comm, Finset.sdiff_insert]

theorem counts_update {inst : Load} {reg : Nat} {registers : List Nat} (new : reg ∉ registers)
    {m_pending_writes : WarpReg → Option Nat} {before : Option Nat}
    (counts : ∀ other ∈ reg :: registers, m_pending_writes (inst.warp_id, other) = before)
    (after : Option Nat) : ∀ other ∈ registers,
      Function.update m_pending_writes (inst.warp_id, reg) after (inst.warp_id, other) = before := by
  intro other member
  have different : (inst.warp_id, other) ≠ (inst.warp_id, reg) := fun same =>
    new ((Prod.mk.inj same).2 ▸ member)
  rw [Function.update_of_ne different]
  exact counts other (List.mem_cons_of_mem reg member)

theorem foldlM_setPending {inst : Load} {registers : List Nat} (nodup : registers.Nodup)
    (before after : Option Nat) (step : LdstUnit → Nat → Option LdstUnit)
    (each : ∀ (unit : LdstUnit) (reg : Nat), unit.m_pending_writes (inst.warp_id, reg) = before →
      step unit reg = some (unit.setPending (inst.warp_id, reg) after)) {unit : LdstUnit}
    (counts : ∀ reg ∈ registers, unit.m_pending_writes (inst.warp_id, reg) = before) :
    registers.foldlM step unit = some { unit with
      m_pending_writes := setAll (keysOf inst registers) after unit.m_pending_writes } := by
  induction registers generalizing unit with
  | nil =>
    rw [keysOf, List.map_nil, Countdown.setAll_nil]
    rfl
  | cons reg registers ih =>
    obtain ⟨new, nodup⟩ := List.nodup_cons.mp nodup
    have rest : ∀ other ∈ registers, (unit.setPending (inst.warp_id, reg) after).m_pending_writes
        (inst.warp_id, other) = before :=
      counts_update new counts _
    rw [List.foldlM_cons, each unit reg (counts reg List.mem_cons_self), Option.bind_eq_bind,
      Option.bind_some, ih nodup rest]
    simp only [LdstUnit.setPending]
    rw [Countdown.setAll_cons, keysOf_cons]

theorem lowerPending_eq {inst : Load} {registers : List Nat} (nodup : registers.Nodup) {n : Nat}
    {unit : LdstUnit}
    (counts : ∀ reg ∈ registers, unit.m_pending_writes (inst.warp_id, reg) = some (n + 1)) :
    registers.foldlM (LdstUnit.lowerPending inst) unit = some { unit with
      m_pending_writes := setAll (keysOf inst registers) (some n) unit.m_pending_writes } := by
  apply foldlM_setPending nodup (some (n + 1)) (some n) _ _ counts
  intro unit reg count
  rw [LdstUnit.lowerPending, count]

theorem writeback_shared {inst : Load} (isShared : inst.space = .shared_space)
    (registers : List Nat) (unit : LdstUnit) :
    registers.foldlM (LdstUnit.writebackRegister inst) unit =
      some { unit with
        reg_table := unit.reg_table \ (keysOf inst registers).toFinset
        released := unit.released ++ registers.map fun reg => (inst, reg) } := by
  rw [← releaseRegisters_eq]
  apply List.foldlM_eq_some
  intro reg _ unit
  rw [LdstUnit.writebackRegister, if_pos isShared]

theorem writeback_pending {inst : Load} (notShared : inst.space ≠ .shared_space)
    {registers : List Nat} (nodup : registers.Nodup) {n : Nat} {unit : LdstUnit}
    (counts : ∀ reg ∈ registers, unit.m_pending_writes (inst.warp_id, reg) = some (n + 2)) :
    registers.foldlM (LdstUnit.writebackRegister inst) unit = some { unit with
      m_pending_writes := setAll (keysOf inst registers) (some (n + 1)) unit.m_pending_writes } := by
  apply foldlM_setPending nodup (some (n + 2)) (some (n + 1)) _ _ counts
  intro unit reg count
  rw [LdstUnit.writebackRegister, if_neg notShared, count]
  exact if_neg (Nat.succ_ne_zero n)

theorem writeback_last {inst : Load} (notShared : inst.space ≠ .shared_space)
    {registers : List Nat} (nodup : registers.Nodup) {unit : LdstUnit}
    (counts : ∀ reg ∈ registers, unit.m_pending_writes (inst.warp_id, reg) = some 1) :
    registers.foldlM (LdstUnit.writebackRegister inst) unit = some { unit with
      m_pending_writes := setAll (keysOf inst registers) none unit.m_pending_writes
      reg_table := unit.reg_table \ (keysOf inst registers).toFinset
      released := unit.released ++ registers.map fun reg => (inst, reg) } := by
  induction registers generalizing unit with
  | nil =>
    rw [keysOf, List.map_nil, Countdown.setAll_nil]
    simp
  | cons reg registers ih =>
    obtain ⟨new, nodup⟩ := List.nodup_cons.mp nodup
    have here : LdstUnit.writebackRegister inst unit reg =
        some ((unit.setPending (inst.warp_id, reg) none).releaseRegister inst reg) := by
      rw [LdstUnit.writebackRegister, if_neg notShared, counts reg List.mem_cons_self]
      exact if_pos rfl
    have rest : ∀ other ∈ registers, ((unit.setPending (inst.warp_id, reg) none).releaseRegister
        inst reg).m_pending_writes (inst.warp_id, other) = some 1 :=
      counts_update new counts _
    rw [List.foldlM_cons, here, Option.bind_eq_bind, Option.bind_some,
      ih nodup rest, keysOf_cons, List.toFinset_cons]
    simp only [LdstUnit.releaseRegister, LdstUnit.setPending, List.map_cons, List.append_assoc,
      List.singleton_append]
    rw [Countdown.setAll_cons, Finset.erase_sdiff_comm, Finset.sdiff_insert]

theorem raisePending_eq {inst : Load} {registers : List Nat} (nodup : registers.Nodup)
    {unit : LdstUnit}
    (counts : ∀ reg ∈ registers, unit.m_pending_writes (inst.warp_id, reg) = none) :
    registers.foldl (fun unit reg => unit.setPending (inst.warp_id, reg)
      (some ((unit.m_pending_writes (inst.warp_id, reg)).getD 0 + inst.accessq_count))) unit =
        { unit with
          m_pending_writes :=
            setAll (keysOf inst registers) (some inst.accessq_count) unit.m_pending_writes } := by
  have run := foldlM_setPending nodup none (some inst.accessq_count)
    (fun (unit : LdstUnit) reg => some (unit.setPending (inst.warp_id, reg)
      (some ((unit.m_pending_writes (inst.warp_id, reg)).getD 0 + inst.accessq_count))))
    (fun unit reg count => by rw [count, Option.getD_none, Nat.zero_add]) counts
  rw [List.foldlM_eq_some fun _ _ _ => rfl] at run
  exact Option.some.inj run

theorem reserveRegisters_eq {inst : Load} {registers : List Nat} (nodup : registers.Nodup)
    {unit : LdstUnit} (free : ∀ reg ∈ registers, (inst.warp_id, reg) ∉ unit.reg_table) :
    registers.foldlM (fun (unit : LdstUnit) reg =>
      if (inst.warp_id, reg) ∈ unit.reg_table then none
      else some { unit with reg_table := insert (inst.warp_id, reg) unit.reg_table }) unit =
        some { unit with reg_table := unit.reg_table ∪ (keysOf inst registers).toFinset } := by
  induction registers generalizing unit with
  | nil => simp [keysOf]
  | cons reg registers ih =>
    obtain ⟨new, nodup⟩ := List.nodup_cons.mp nodup
    have rest : ∀ other ∈ registers,
        (inst.warp_id, other) ∉ insert (inst.warp_id, reg) unit.reg_table := by
      intro other member isIn
      cases Finset.mem_insert.mp isIn with
      | inl same => exact new ((Prod.mk.inj same).2 ▸ member)
      | inr before => exact free other (List.mem_cons_of_mem reg member) before
    rw [List.foldlM_cons, if_neg (free reg List.mem_cons_self), Option.bind_eq_bind,
      Option.bind_some, ih nodup rest, keysOf_cons, List.toFinset_cons,
      Finset.insert_union, Finset.union_insert]

theorem pendingRequests_some {inst : Load} {reg : Nat} (registers : List Nat) {n : Nat}
    {m_pending_writes : WarpReg → Option Nat}
    (count : m_pending_writes (inst.warp_id, reg) = some (n + 1)) :
    pendingRequests inst (reg :: registers) m_pending_writes = (true, m_pending_writes) := by
  rw [pendingRequests, count]

theorem pendingRequests_zero {inst : Load} {registers : List Nat} (nodup : registers.Nodup)
    {m_pending_writes : WarpReg → Option Nat}
    (counts : ∀ reg ∈ registers, m_pending_writes (inst.warp_id, reg) = some 0) :
    pendingRequests inst registers m_pending_writes =
      (false, setAll (keysOf inst registers) none m_pending_writes) := by
  induction registers generalizing m_pending_writes with
  | nil =>
    rw [keysOf, List.map_nil, Countdown.setAll_nil]
    rfl
  | cons reg registers ih =>
    obtain ⟨new, nodup⟩ := List.nodup_cons.mp nodup
    have rest : ∀ other ∈ registers,
        Function.update m_pending_writes (inst.warp_id, reg) none (inst.warp_id, other) = some 0 :=
      counts_update new counts none
    rw [pendingRequests, counts reg List.mem_cons_self]
    show pendingRequests inst registers (Function.update m_pending_writes _ none) = _
    rw [ih nodup rest, Countdown.setAll_cons, keysOf_cons]

/-! ## The ledger of a unit -/

def LdstUnit.ledger (unit : LdstUnit) : Ledger where
  collector := unit.collector
  dispatch := unit.m_dispatch_reg.map fun reg => (reg.inst, reg.m_accessq)
  pipeline := ((unit.m_pipeline_reg 0).toList ++ (unit.m_pipeline_reg 1).toList ++
    (unit.m_pipeline_reg 2).toList : List Load)
  abroad := (unit.m_next_wb.toList ++ unit.m_next_global.toList ++ unit.sent.map Prod.snd :
    List Load)
  pending := unit.m_pending_writes
  reserved := unit.reg_table
  issued := unit.issued
  released := unit.released
  in_pipeline := unit.m_inst_in_pipeline
  in_buffer := unit.num_inst_in_buffer

open Ledger (Sound Settled)

variable {base : Nat → Nat} {env : Environment} {unit : LdstUnit} {inst : Load}

/-- What holds between the steps of a run. -/
def LdstUnit.Good (base : Nat → Nat) (unit : LdstUnit) : Prop :=
  Sound base unit.ledger ∧ Settled unit.ledger

theorem mem_keys {reg : Nat} (isRegister : reg ∈ inst.registers) :
    (inst.warp_id, reg) ∈ inst.keys :=
  List.mem_map_of_mem isRegister

/-! ## Issue -/

theorem issue_warp_good (good : unit.Good base) (possible : unit.Possible (.issue_warp inst)) :
    ∃ unit', unit.issue_warp inst = some unit' ∧ unit'.Good base := by
  obtain ⟨noCollision, buffered, newUid⟩ := possible
  obtain ⟨sound, settled⟩ := good
  have free : ∀ reg ∈ inst.registers, (inst.warp_id, reg) ∉ unit.reg_table := by
    intro reg isRegister
    have each := List.any_eq_false.mp noCollision reg (List.mem_append_left _ isRegister)
    simpa using each
  have new : inst ∉ unit.issued := fun isIssued => newUid inst isIssued rfl
  have freeKeys : ∀ key ∈ inst.keys, key ∉ unit.reg_table := by
    intro key isKey
    obtain ⟨reg, isRegister, rfl⟩ := List.mem_map.mp isKey
    exact free reg isRegister
  rw [LdstUnit.issue_warp, LdstUnit.reserveRegisters,
    reserveRegisters_eq inst.nodup_registers free]
  exact ⟨_, rfl, sound.issueWarp new freeKeys buffered, settled.all_sent, settled.active⟩

theorem issue_good (good : unit.Good base) (possible : unit.Possible (.issue inst)) :
    (unit.issue inst).Good base := by
  obtain ⟨waits, isFree⟩ := possible
  obtain ⟨sound, settled⟩ := good
  have free : unit.ledger.dispatch = none :=
    Option.map_eq_none_iff.mpr (Option.isNone_iff_eq_none.mp isFree)
  have inCollector : inst ∈ unit.ledger.collector := waits
  have notCounted : ∀ reg ∈ inst.registers, unit.m_pending_writes (inst.warp_id, reg) = none := by
    intro reg isRegister
    cases entry : unit.m_pending_writes (inst.warp_id, reg) with
    | none => rfl
    | some n =>
      obtain ⟨other, running, otherKey⟩ := sound.counted.owner _ n entry
      have present : inst ∈ unit.ledger.places := Ledger.mem_places.mpr (Or.inl inCollector)
      have same := sound.registered.apart other (Ledger.mem_places_of_running running) inst present
        _ otherKey (mem_keys isRegister)
      subst same
      have inUnit := running.1
      rw [Ledger.dispatched_of_none free, Multiset.zero_add] at inUnit
      exact absurd inUnit (sound.placed.not_sent other inCollector)
  have raised : (unit.issue inst).ledger = unit.ledger.enter inst := by
    rw [LdstUnit.issue, Ledger.enter]
    by_cases isShared : inst.space = .shared_space
    · simp only [if_pos isShared]
      rfl
    · simp only [if_neg isShared, LdstUnit.raisePending]
      rw [raisePending_eq inst.nodup_registers notCounted]
      rfl
  rw [LdstUnit.Good, raised]
  exact ⟨sound.enter inCollector free, Settled.enter sound inCollector⟩

/-! ## Writeback -/

theorem dec_inst_in_pipeline_eq (sound : Sound base unit.ledger)
    (isHeld : inst ∈ unit.ledger.held) :
    unit.dec_inst_in_pipeline inst.warp_id = some { unit with
      m_inst_in_pipeline := Function.update unit.m_inst_in_pipeline inst.warp_id
        (unit.m_inst_in_pipeline inst.warp_id - 1) } := by
  have counted : unit.m_inst_in_pipeline inst.warp_id = _ := sound.in_pipeline inst.warp_id
  have positive : 0 < unit.ledger.held.countP fun other => other.warp_id = inst.warp_id :=
    Multiset.countP_pos.mpr ⟨inst, isHeld, rfl⟩
  rw [LdstUnit.dec_inst_in_pipeline, if_pos (by omega)]

theorem writebackLoop_eq (good : unit.Good base) (isAbroad : inst ∈ unit.ledger.abroad) :
    inst.registers.foldlM (LdstUnit.writebackRegister inst) unit = some { unit with
      m_pending_writes := (unit.ledger.writeBack inst).pending
      reg_table := (unit.ledger.writeBack inst).reserved
      released := (unit.ledger.writeBack inst).released } := by
  obtain ⟨sound, settled⟩ := good
  have counts (notShared : inst.space ≠ .shared_space) : ∀ reg ∈ inst.registers,
      unit.m_pending_writes (inst.warp_id, reg) =
        some ((unit.ledger.comeHome inst).outstanding inst + 1) := by
    intro reg isRegister
    rw [← Ledger.outstanding_eq_comeHome isAbroad]
    exact sound.counted.count inst ⟨Multiset.mem_add.mpr (Or.inr isAbroad), notShared⟩ _
      (mem_keys isRegister)
  by_cases stays : inst ∈ (unit.ledger.comeHome inst).places
  · have notShared := sound.notShared_of_stays isAbroad stays
    obtain ⟨n, left⟩ := Nat.exists_eq_succ_of_ne_zero
      ((Ledger.outstanding_comeHome sound settled isAbroad notShared).mp stays)
    rw [Ledger.writeBack, if_pos stays, left]
    rw [left] at counts
    exact writeback_pending notShared inst.nodup_registers (counts notShared)
  · rw [Ledger.writeBack, if_neg stays]
    by_cases isShared : inst.space = .shared_space
    · have present : inst ∈ unit.ledger.places :=
        Ledger.mem_places.mpr (Or.inr (Or.inr (Or.inr isAbroad)))
      have uncounted := sound.pending_of_notRunning present fun running => running.2 isShared
      show _ = some { unit with
        m_pending_writes := setAll inst.keys none unit.ledger.pending
        reg_table := _
        released := _ }
      rw [Countdown.setAll_eq_self uncounted]
      exact writeback_shared isShared inst.registers unit
    · have none_left : (unit.ledger.comeHome inst).outstanding inst = 0 := by
        by_contra some_left
        exact stays ((Ledger.outstanding_comeHome sound settled isAbroad isShared).mpr some_left)
      rw [none_left] at counts
      exact writeback_last isShared inst.nodup_registers (counts isShared)

theorem Ledger.writeBack_eq (ledger : Ledger) (inst : Load) :
    ledger.writeBack inst = { ledger.comeHome inst with
      pending := (ledger.writeBack inst).pending
      reserved := (ledger.writeBack inst).reserved
      released := (ledger.writeBack inst).released } := by
  rw [Ledger.writeBack]
  split <;> rfl

theorem completeWriteback_good (env : Environment) (good : unit.Good base) :
    ∃ unit', unit.completeWriteback env = some unit' ∧ unit'.Good base := by
  rw [LdstUnit.completeWriteback]
  cases isNext : unit.m_next_wb with
  | none => exact ⟨unit, rfl, good⟩
  | some inst =>
    by_cases taken : env.writeback = true
    swap
    · exact ⟨unit, if_neg taken, good⟩
    have abroad : unit.ledger.abroad =
        inst ::ₘ ((unit.m_next_global.toList ++ unit.sent.map Prod.snd : List Load) :
          Multiset Load) := by
      show ((unit.m_next_wb.toList ++ _ ++ _ : List Load) : Multiset Load) = _
      rw [isNext]
      rfl
    have isAbroad : inst ∈ unit.ledger.abroad := by
      rw [abroad]
      exact Multiset.mem_cons_self inst _
    simp only [if_pos taken, writebackLoop_eq good isAbroad, Option.bind_eq_bind, Option.bind_some]
    refine ⟨_, rfl, ?_⟩
    have now : ({ unit with
        m_pending_writes := (unit.ledger.writeBack inst).pending
        reg_table := (unit.ledger.writeBack inst).reserved
        released := (unit.ledger.writeBack inst).released
        m_next_wb := none } : LdstUnit).ledger = unit.ledger.writeBack inst := by
      rw [Ledger.writeBack_eq]
      ext1
      case abroad =>
        show _ = unit.ledger.abroad.erase inst
        rw [abroad, Multiset.erase_cons_head]
        rfl
      all_goals rfl
    show Sound base (LdstUnit.ledger _) ∧ Settled (LdstUnit.ledger _)
    rw [now]
    exact ⟨good.1.writeBack isAbroad, good.2.writeBack⟩

theorem LdstUnit.Good.same {unit' : LdstUnit} (good : unit.Good base)
    (same : unit'.ledger = unit.ledger) : unit'.Good base := by
  rw [LdstUnit.Good, same]
  exact good

theorem nextAccess_perm {route : Route} {sent : List (Route × Load)}
    (ready : unit.nextAccess env route = some (inst, sent)) :
    (unit.sent.map Prod.snd).Perm (inst :: sent.map Prod.snd) := by
  rw [LdstUnit.nextAccess] at ready
  obtain ⟨position, _, ready⟩ := Option.bind_eq_some_iff.mp ready
  obtain ⟨access, found, ready⟩ := Option.bind_eq_some_iff.mp ready
  obtain ⟨inRange, rfl⟩ := List.getElem?_eq_some_iff.mp found
  split at ready
  · obtain ⟨rfl, rfl⟩ := Prod.mk.inj (Option.some.inj ready)
    have perm := (List.getElem_cons_eraseIdx_perm inRange).symm.map Prod.snd
    rwa [List.map_cons] at perm
  · cases ready

theorem takeReady_good (good : unit.Good base) (isFree : unit.m_next_wb = none) (route : Route) :
    (unit.takeReady env route).Good base := by
  rw [LdstUnit.takeReady]
  cases ready : unit.nextAccess env route with
  | none => exact good
  | some access =>
    obtain ⟨inst, sent⟩ := access
    apply good.same
    ext1
    case abroad =>
      apply Multiset.coe_eq_coe.mpr
      rw [isFree]
      show (inst :: (unit.m_next_global.toList ++ sent.map Prod.snd)).Perm
        (unit.m_next_global.toList ++ unit.sent.map Prod.snd)
      exact (List.perm_middle.symm.trans
        ((nextAccess_perm ready).symm.append_left unit.m_next_global.toList))
    all_goals rfl

theorem takeResponse_good (env : Environment) (good : unit.Good base) : (unit.takeResponse env).Good base := by
  rw [LdstUnit.takeResponse]
  split
  · rename_i isFree
    cases ready : unit.nextAccess env .icnt with
    | none => exact good
    | some access =>
      obtain ⟨inst, sent⟩ := access
      apply good.same
      ext1
      case abroad =>
        apply Multiset.coe_eq_coe.mpr
        rw [isFree]
        show (unit.m_next_wb.toList ++ [inst] ++ sent.map Prod.snd).Perm
          (unit.m_next_wb.toList ++ [] ++ unit.sent.map Prod.snd)
        rw [List.append_nil, List.append_assoc]
        exact (nextAccess_perm ready).symm.append_left unit.m_next_wb.toList
      all_goals rfl
  · exact good

theorem drain_good (env : Environment) (good : unit.Good base) (isFree : unit.m_next_wb = none)
    (isLast : unit.m_pipeline_reg 0 = some inst) :
    ∃ unit', unit.serveClient env 0 = some unit' ∧ unit'.Good base := by
  obtain ⟨sound, settled⟩ := good
  have pipeline : unit.ledger.pipeline = inst ::ₘ
      (((unit.m_pipeline_reg 1).toList ++ (unit.m_pipeline_reg 2).toList : List Load) :
        Multiset Load) := by
    show (((unit.m_pipeline_reg 0).toList ++ _ ++ _ : List Load) : Multiset Load) = _
    rw [isLast]
    rfl
  have isPiped : inst ∈ unit.ledger.pipeline := by
    rw [pipeline]
    exact Multiset.mem_cons_self inst _
  have isHeld : inst ∈ unit.ledger.held := Multiset.mem_add.mpr (Or.inr isPiped)
  simp only [LdstUnit.serveClient, isLast, dec_inst_in_pipeline_eq sound isHeld,
    Option.bind_eq_bind, Option.bind_some]
  refine ⟨_, rfl, ?_⟩
  have now : ({ unit with
      m_inst_in_pipeline := Function.update unit.m_inst_in_pipeline inst.warp_id
        (unit.m_inst_in_pipeline inst.warp_id - 1)
      m_next_wb := some inst
      m_pipeline_reg := Function.update unit.m_pipeline_reg 0 none } : LdstUnit).ledger =
        unit.ledger.drain inst := by
    ext1
    case pipeline =>
      show _ = unit.ledger.pipeline.erase inst
      rw [pipeline, Multiset.erase_cons_head]
      rfl
    case abroad =>
      show _ = inst ::ₘ unit.ledger.abroad
      show _ = inst ::ₘ ((unit.m_next_wb.toList ++ _ ++ _ : List Load) : Multiset Load)
      rw [isFree]
      rfl
    all_goals rfl
  show Sound base (LdstUnit.ledger _) ∧ Settled (LdstUnit.ledger _)
  rw [now]
  exact ⟨sound.drain isPiped, settled.drain sound isPiped⟩

theorem serveClient_good (env : Environment) (good : unit.Good base) (isFree : unit.m_next_wb = none)
    {next_client : Nat} (isClient : next_client < 5) :
    ∃ unit', unit.serveClient env next_client = some unit' ∧ unit'.Good base := by
  match next_client, isClient with
  | 0, _ =>
    cases isLast : unit.m_pipeline_reg 0 with
    | none =>
      rw [LdstUnit.serveClient, isLast]
      exact ⟨unit, rfl, good⟩
    | some inst => exact drain_good env good isFree isLast
  | 1, _ => exact ⟨_, rfl, takeReady_good good isFree .L1T⟩
  | 2, _ => exact ⟨_, rfl, takeReady_good good isFree .L1C⟩
  | 3, _ =>
    cases isGlobal : unit.m_next_global with
    | none =>
      rw [LdstUnit.serveClient, isGlobal]
      exact ⟨unit, rfl, good⟩
    | some inst =>
      rw [LdstUnit.serveClient, isGlobal]
      refine ⟨_, rfl, good.same ?_⟩
      ext1
      case abroad =>
        show _ = ((unit.m_next_wb.toList ++ unit.m_next_global.toList ++ _ : List Load) :
          Multiset Load)
        rw [isFree, isGlobal]
        rfl
      all_goals rfl
  | 4, _ => exact ⟨_, rfl, takeReady_good good isFree .L1D⟩

theorem writeback_good (env : Environment) (good : unit.Good base) :
    ∃ unit', unit.writeback env = some unit' ∧ unit'.Good base := by
  obtain ⟨completed, run, good⟩ := completeWriteback_good env good
  rw [LdstUnit.writeback, run, Option.bind_eq_bind, Option.bind_some]
  apply List.foldlM_invariant _ good
  intro c _ unit good
  rw [LdstUnit.serveTurn]
  cases isFree : unit.m_next_wb with
  | some inst => exact ⟨unit, rfl, good⟩
  | none =>
    have isClient : (c + completed.m_writeback_arb) % 5 < 5 := Nat.mod_lt _ (by decide)
    obtain ⟨served, serves, good⟩ := serveClient_good env good isFree isClient
    simp only [Option.isSome_none, Bool.false_eq_true, if_false, serves, Option.bind_eq_bind,
      Option.bind_some]
    refine ⟨_, rfl, good.same ?_⟩
    split <;> rfl

theorem moveStages_good (good : unit.Good base) :
    ((unit.moveStage 0 1).moveStage 1 2).Good base := by
  have moves (dst src : Fin 3) (adjacent : dst = 0 ∧ src = 1 ∨ dst = 1 ∧ src = 2)
      (unit : LdstUnit) : (unit.moveStage dst src).ledger = unit.ledger := by
    rw [LdstUnit.moveStage]
    split
    · rename_i isFree
      ext1
      case pipeline =>
        rcases adjacent with ⟨rfl, rfl⟩ | ⟨rfl, rfl⟩
        · simp [LdstUnit.ledger, isFree]
        · simp [LdstUnit.ledger, isFree]
      all_goals rfl
    · rfl
  apply good.same
  rw [moves 1 2 (Or.inr ⟨rfl, rfl⟩), moves 0 1 (Or.inl ⟨rfl, rfl⟩)]

/-! ## The memory stage -/

variable {reg : DispatchReg} {m_accessq : Nat}

theorem dispatch_eq (here : unit.m_dispatch_reg = some reg) :
    unit.ledger.dispatch = some (reg.inst, reg.m_accessq) := by
  show unit.m_dispatch_reg.map _ = _
  rw [here]
  rfl

theorem dispatch_counts (sound : Sound base unit.ledger) (here : unit.m_dispatch_reg = some reg)
    (notShared : reg.inst.space ≠ .shared_space) : ∀ r ∈ reg.inst.registers,
      unit.m_pending_writes (reg.inst.warp_id, r) =
        some (reg.m_accessq + unit.ledger.abroad.count reg.inst) := by
  intro r isRegister
  have isDispatched : reg.inst ∈ unit.ledger.dispatched := by
    rw [Ledger.dispatched_of_some (dispatch_eq here)]
    exact Multiset.mem_singleton_self reg.inst
  have count := sound.counted.count reg.inst
    ⟨Multiset.mem_add.mpr (Or.inl isDispatched), notShared⟩ _ (mem_keys isRegister)
  rw [Ledger.outstanding_of_some (dispatch_eq here), if_pos rfl] at count
  exact count

theorem send_sound (sound : Sound base unit.ledger) (here : unit.m_dispatch_reg = some reg)
    (notShared : reg.inst.space ≠ .shared_space) (left : reg.m_accessq = m_accessq + 1)
    (route : Route) :
    Sound base (LdstUnit.ledger
      { unit.accessqPopBack reg with sent := unit.sent ++ [(route, reg.inst)] }) := by
  have now : LdstUnit.ledger
      { unit.accessqPopBack reg with sent := unit.sent ++ [(route, reg.inst)] } =
        unit.ledger.send reg.inst m_accessq := by
    ext1
    case dispatch =>
      show some (reg.inst, reg.m_accessq - 1) = some (reg.inst, m_accessq)
      rw [left, Nat.add_sub_cancel]
    case abroad =>
      apply Multiset.coe_eq_coe.mpr
      rw [List.map_append, ← List.append_assoc]
      exact List.perm_append_singleton reg.inst _
    all_goals rfl
  have inDispatch := dispatch_eq here
  rw [left] at inDispatch
  rw [now]
  exact sound.send inDispatch notShared

theorem process_cache_access_sound (env : Environment) (sound : Sound base unit.ledger)
    (here : unit.m_dispatch_reg = some reg) (notShared : reg.inst.space ≠ .shared_space)
    (left : reg.m_accessq ≠ 0) (cache : Route) :
    ∃ unit', unit.process_cache_access env reg cache = some unit' ∧ Sound base unit'.ledger := by
  obtain ⟨m_accessq, left⟩ := Nat.exists_eq_succ_of_ne_zero left
  rw [LdstUnit.process_cache_access]
  cases env.status with
  | HIT =>
    have counts : ∀ r ∈ reg.inst.registers,
        (unit.accessqPopBack reg).m_pending_writes (reg.inst.warp_id, r) =
          some (m_accessq + unit.ledger.abroad.count reg.inst + 1) := by
      intro r isRegister
      have count := dispatch_counts sound here notShared r isRegister
      rw [left, Nat.succ_add] at count
      exact count
    have inDispatch := dispatch_eq here
    rw [left] at inDispatch
    refine ⟨_, lowerPending_eq reg.inst.nodup_registers counts, ?_⟩
    have now : LdstUnit.ledger { unit.accessqPopBack reg with
        m_pending_writes := setAll (keysOf reg.inst reg.inst.registers)
          (some (m_accessq + unit.ledger.abroad.count reg.inst)) unit.m_pending_writes } =
          unit.ledger.hit reg.inst m_accessq := by
      ext1
      case dispatch =>
        show some (reg.inst, reg.m_accessq - 1) = some (reg.inst, m_accessq)
        rw [left, Nat.succ_sub_one]
      all_goals rfl
    show Sound base (LdstUnit.ledger { unit.accessqPopBack reg with
      m_pending_writes := setAll _ _ unit.m_pending_writes })
    rw [now]
    exact sound.hit inDispatch notShared
  | RESERVATION_FAIL => exact ⟨unit, rfl, sound⟩
  | MISS => exact ⟨_, rfl, send_sound sound here notShared left cache⟩
  | HIT_RESERVED => exact ⟨_, rfl, send_sound sound here notShared left cache⟩

theorem process_memory_access_queue_sound (env : Environment) (sound : Sound base unit.ledger)
    (here : unit.m_dispatch_reg = some reg) (notShared : reg.inst.space ≠ .shared_space)
    (cache : Route) : ∃ unit', unit.process_memory_access_queue env reg cache = some unit' ∧
      Sound base unit'.ledger := by
  rw [LdstUnit.process_memory_access_queue]
  split
  · exact ⟨unit, rfl, sound⟩
  · rename_i left
    split
    · exact ⟨unit, rfl, sound⟩
    · exact process_cache_access_sound env sound here notShared left cache

theorem pushAccess_sound (env : Environment) (sound : Sound base unit.ledger)
    (here : unit.m_dispatch_reg = some reg) (notShared : reg.inst.space ≠ .shared_space)
    (left : reg.m_accessq ≠ 0) :
    ∃ unit', unit.pushAccess env reg = some unit' ∧ Sound base unit'.ledger := by
  rw [LdstUnit.pushAccess]
  split
  · exact ⟨unit, rfl, sound⟩
  · have pending : ∀ r ∈ reg.inst.registers,
        0 < (unit.m_pending_writes (reg.inst.warp_id, r)).getD 0 := by
      intro r isRegister
      rw [dispatch_counts sound here notShared r isRegister, Option.getD_some]
      omega
    obtain ⟨m_accessq, left⟩ := Nat.exists_eq_succ_of_ne_zero left
    rw [if_pos pending]
    exact ⟨_, rfl, send_sound sound here notShared left .icnt⟩

variable (bypassL1D : Load → Bool)

theorem memory_cycle_sound (env : Environment) (good : unit.Good base)
    (here : unit.m_dispatch_reg = some reg) (isMemory : reg.inst.space.IsMemory)
    (notShared : reg.inst.space ≠ .shared_space) :
    ∃ unit', unit.memory_cycle bypassL1D env reg = some unit' ∧ Sound base unit'.ledger := by
  obtain ⟨sound, settled⟩ := good
  rw [LdstUnit.memory_cycle]
  split
  · exact ⟨unit, rfl, sound⟩
  · rename_i isActive
    have left : reg.m_accessq ≠ 0 :=
      settled.active reg.inst reg.m_accessq (dispatch_eq here) isActive isMemory
    rw [if_neg left]
    split
    · exact pushAccess_sound env sound here notShared left
    · exact process_memory_access_queue_sound env sound here notShared .L1D

theorem cache_cycle_sound (env : Environment) (sound : Sound base unit.ledger)
    (here : unit.m_dispatch_reg = some reg) (notShared : reg.inst.space ≠ .shared_space)
    (cache : Route) :
    ∃ unit', unit.cache_cycle env reg cache = some unit' ∧ Sound base unit'.ledger := by
  rw [LdstUnit.cache_cycle]
  split
  · exact ⟨unit, rfl, sound⟩
  · exact process_memory_access_queue_sound env sound here notShared cache

theorem memoryStage_sound (env : Environment) (good : unit.Good base) :
    ∃ unit', unit.memoryStage bypassL1D env = some unit' ∧ Sound base unit'.ledger := by
  rw [LdstUnit.memoryStage]
  cases here : unit.m_dispatch_reg with
  | none => exact ⟨unit, rfl, good.1⟩
  | some reg =>
    have memory (isMemory : reg.inst.space.IsMemory) (notShared : reg.inst.space ≠ .shared_space) :=
      memory_cycle_sound bypassL1D env good here isMemory notShared
    cases isSpace : reg.inst.space with
    | shared_space =>
      simp only [isSpace]
      refine ⟨unit.shared_cycle reg, rfl, ?_⟩
      have same : (unit.shared_cycle reg).ledger = unit.ledger := by
        ext1
        case dispatch =>
          rw [dispatch_eq here]
          rfl
        all_goals rfl
      rw [same]
      exact good.1
    | const_space =>
      simp only [isSpace]
      exact cache_cycle_sound env good.1 here (by rw [isSpace]; decide) .L1C
    | param_space_kernel =>
      simp only [isSpace]
      exact cache_cycle_sound env good.1 here (by rw [isSpace]; decide) .L1C
    | tex_space =>
      simp only [isSpace]
      exact cache_cycle_sound env good.1 here (by rw [isSpace]; decide) .L1T
    | global_space =>
      simp only [isSpace]
      exact memory (Or.inl isSpace) (by rw [isSpace]; decide)
    | local_space =>
      simp only [isSpace]
      exact memory (Or.inr (Or.inl isSpace)) (by rw [isSpace]; decide)
    | param_space_local =>
      simp only [isSpace]
      exact memory (Or.inr (Or.inr isSpace)) (by rw [isSpace]; decide)

/-! ## Leaving the dispatch register -/

theorem pipe_good (sound : Sound base unit.ledger) (here : unit.m_dispatch_reg = some reg)
    (isShared : reg.inst.space = .shared_space) :
    ∃ unit', unit.leave reg.inst = some unit' ∧ unit'.Good base := by
  have stays : ∀ inst m_accessq, unit.ledger.dispatch = some (inst, m_accessq) →
      inst.space ≠ .shared_space → m_accessq ≠ 0 := by
    intro inst m_accessq inDispatch notShared
    rw [dispatch_eq here] at inDispatch
    obtain ⟨rfl, _⟩ := Prod.mk.inj (Option.some.inj inDispatch)
    exact absurd isShared notShared
  rw [LdstUnit.leave, if_pos isShared]
  by_cases isFree : unit.m_pipeline_reg 2 = none
  · rw [if_pos isFree]
    refine ⟨_, rfl, ?_⟩
    have now : LdstUnit.ledger { unit with
        m_pipeline_reg := Function.update unit.m_pipeline_reg 2 (some reg.inst)
        m_dispatch_reg := none } = unit.ledger.pipe reg.inst := by
      ext1
      case pipeline =>
        apply Multiset.coe_eq_coe.mpr
        rw [isFree]
        show ((unit.m_pipeline_reg 0).toList ++ (unit.m_pipeline_reg 1).toList ++ [reg.inst]).Perm
          (reg.inst :: ((unit.m_pipeline_reg 0).toList ++ (unit.m_pipeline_reg 1).toList ++ []))
        rw [List.append_nil]
        exact List.perm_append_singleton reg.inst _
      all_goals rfl
    rw [LdstUnit.Good, now]
    have piped := sound.pipe (dispatch_eq here) isShared
    exact ⟨piped, piped.settled fun _ _ none => by cases none⟩
  · rw [if_neg isFree]
    exact ⟨unit, rfl, sound, sound.settled stays⟩

theorem depart_good (sound : Sound base unit.ledger) (here : unit.m_dispatch_reg = some reg)
    (notShared : reg.inst.space ≠ .shared_space) (isEmpty : reg.m_accessq = 0) :
    ∃ unit', unit.leave reg.inst = some unit' ∧ unit'.Good base := by
  have inDispatch := dispatch_eq here
  rw [isEmpty] at inDispatch
  have isHeld : reg.inst ∈ unit.ledger.held := by
    rw [Ledger.held, Ledger.dispatched_of_some inDispatch]
    exact Multiset.mem_add.mpr (Or.inl (Multiset.mem_add.mpr
      (Or.inr (Multiset.mem_singleton_self reg.inst))))
  have counts := dispatch_counts sound here notShared
  rw [isEmpty, Nat.zero_add] at counts
  have departed := sound.depart inDispatch
  have settled : Settled (unit.ledger.depart reg.inst) := by
    apply departed.settled
    intro inst m_accessq now
    have free : (unit.ledger.depart reg.inst).dispatch = none := by
      rw [Ledger.depart]
      split <;> rfl
    rw [free] at now
    cases now
  have dec (counted : LdstUnit) (sameCount : counted.m_inst_in_pipeline = unit.m_inst_in_pipeline) :
      counted.dec_inst_in_pipeline reg.inst.warp_id = some { counted with
        m_inst_in_pipeline := Function.update unit.m_inst_in_pipeline reg.inst.warp_id
          (unit.m_inst_in_pipeline reg.inst.warp_id - 1) } := by
    have positive : 0 < unit.m_inst_in_pipeline reg.inst.warp_id := by
      have run := dec_inst_in_pipeline_eq sound isHeld
      by_contra zero
      rw [LdstUnit.dec_inst_in_pipeline, if_neg zero] at run
      cases run
    rw [LdstUnit.dec_inst_in_pipeline, sameCount, if_pos positive]
  rw [LdstUnit.leave, if_neg notShared]
  by_cases isAbroad : reg.inst ∈ unit.ledger.abroad
  · have stays : unit.ledger.depart reg.inst = unit.ledger.vacate reg.inst := if_pos isAbroad
    rw [stays] at departed settled
    have positive : 0 < unit.ledger.abroad.count reg.inst := Multiset.count_pos.mpr isAbroad
    obtain ⟨n, several⟩ := Nat.exists_eq_succ_of_ne_zero positive.ne'
    rw [several] at counts
    cases registers : reg.inst.registers with
    | nil =>
      -- there is nothing to release
      simp only [pendingRequests, LdstUnit.releaseRegisters, registers, List.foldl_nil,
        Bool.false_eq_true, if_false]
      rw [dec _ rfl]
      exact ⟨_, rfl, departed, settled⟩
    | cons r rest =>
      rw [registers] at counts
      rw [pendingRequests_some rest (counts r List.mem_cons_self)]
      simp only [if_true]
      rw [dec _ rfl]
      exact ⟨_, rfl, departed, settled⟩
  · have leaves : unit.ledger.depart reg.inst = (unit.ledger.vacate reg.inst).release reg.inst :=
      if_neg isAbroad
    rw [leaves] at departed settled
    rw [Multiset.count_eq_zero.mpr isAbroad] at counts
    rw [pendingRequests_zero reg.inst.nodup_registers counts]
    simp only [Bool.false_eq_true, if_false, LdstUnit.releaseRegisters]
    rw [releaseRegisters_eq, dec]
    · exact ⟨_, rfl, departed, settled⟩
    · rfl

theorem leaveDispatch_good (sound : Sound base unit.ledger) :
    ∃ unit', unit.leaveDispatch = some unit' ∧ unit'.Good base := by
  rw [LdstUnit.leaveDispatch]
  cases here : unit.m_dispatch_reg with
  | none =>
    refine ⟨unit, rfl, sound, sound.settled ?_⟩
    intro inst m_accessq inDispatch
    have free : unit.ledger.dispatch = none := Option.map_eq_none_iff.mpr here
    rw [free] at inDispatch
    cases inDispatch
  | some reg =>
    have isDone : reg.done = if reg.inst.space = .shared_space then decide (reg.cycles = 0)
      else decide (reg.inst.active_count = 0) || decide (reg.m_accessq = 0) := rfl
    cases done : reg.done with
    | true =>
      simp only [done, if_true]
      by_cases isShared : reg.inst.space = .shared_space
      · exact pipe_good sound here isShared
      · apply depart_good sound here isShared
        rw [isDone, if_neg isShared, Bool.or_eq_true, decide_eq_true_eq, decide_eq_true_eq] at done
        exact done.elim (sound.inactive reg.inst reg.m_accessq (dispatch_eq here)) id
    | false =>
      simp only [done, Bool.false_eq_true, if_false]
      refine ⟨unit, rfl, sound, sound.settled ?_⟩
      intro inst m_accessq inDispatch notShared
      rw [dispatch_eq here] at inDispatch
      obtain ⟨rfl, rfl⟩ := Prod.mk.inj (Option.some.inj inDispatch)
      rw [isDone, if_neg notShared, Bool.or_eq_false_iff, decide_eq_false_iff_not,
        decide_eq_false_iff_not] at done
      exact done.2

/-! ## Runs -/

theorem cycle_good (env : Environment) (good : unit.Good base) :
    ∃ unit', unit.cycle bypassL1D env = some unit' ∧ unit'.Good base := by
  obtain ⟨written, writes, good⟩ := writeback_good env good
  have good := takeResponse_good env (moveStages_good good)
  obtain ⟨stepped, steps, sound⟩ := memoryStage_sound bypassL1D env good
  simp only [LdstUnit.cycle, writes, steps, Option.bind_eq_bind, Option.bind_some]
  exact leaveDispatch_good sound

theorem decode_good (good : unit.Good base) (warp_id : Nat) : (unit.decode warp_id).Good base := by
  obtain ⟨sound, settled⟩ := good
  refine ⟨⟨sound.registered, ⟨sound.placed.held_once, sound.placed.not_sent, sound.placed.piped,
    sound.placed.shared_once⟩, sound.counted, ?_, sound.inactive⟩, settled.all_sent, settled.active⟩
  intro warp
  have before : unit.m_inst_in_pipeline warp = unit.num_inst_in_buffer warp + base warp +
    unit.ledger.held.countP fun inst => inst.warp_id = warp := sound.in_pipeline warp
  show Function.update unit.m_inst_in_pipeline warp_id _ warp =
    Function.update unit.num_inst_in_buffer warp_id _ warp + base warp +
      unit.ledger.held.countP fun inst => inst.warp_id = warp
  by_cases same : warp = warp_id
  · subst same
    rw [Function.update_self, Function.update_self]
    omega
  · rw [Function.update_of_ne same, Function.update_of_ne same]
    exact before

theorem step_good (good : unit.Good base) {event : Event} (possible : unit.Possible event) :
    ∃ unit', unit.step bypassL1D event = some unit' ∧ unit'.Good base := by
  cases event with
  | decode warp_id => exact ⟨_, rfl, decode_good good warp_id⟩
  | issue_warp inst => exact issue_warp_good good possible
  | issue inst => exact ⟨_, rfl, issue_good good possible⟩
  | cycle env => exact cycle_good bypassL1D env good

/-- `num_issued_inst_in_pipeline`. -/
def LdstUnit.num_issued_inst_in_pipeline (unit : LdstUnit) (warp_id : Nat) : Nat :=
  unit.m_inst_in_pipeline warp_id - unit.num_inst_in_buffer warp_id

theorem idle_good {initial : LdstUnit} (idle : initial.Idle) :
    initial.Good initial.num_issued_inst_in_pipeline := by
  have collector : initial.ledger.collector = 0 := by
    show ((initial.collector : List Load) : Multiset Load) = 0
    rw [idle.no_collector]
    rfl
  have dispatch : initial.ledger.dispatch = none := by
    show initial.m_dispatch_reg.map _ = none
    rw [idle.no_dispatch]
    rfl
  have pipeline : initial.ledger.pipeline = 0 := by
    show (((initial.m_pipeline_reg 0).toList ++ (initial.m_pipeline_reg 1).toList ++
      (initial.m_pipeline_reg 2).toList : List Load) : Multiset Load) = 0
    rw [idle.no_pipeline, idle.no_pipeline, idle.no_pipeline]
    rfl
  have abroad : initial.ledger.abroad = 0 := by
    show ((initial.m_next_wb.toList ++ initial.m_next_global.toList ++
      initial.sent.map Prod.snd : List Load) : Multiset Load) = 0
    rw [idle.no_wb, idle.no_global, idle.no_sent]
    rfl
  have held : initial.ledger.held = 0 := by
    rw [Ledger.held, collector, Ledger.dispatched_of_none dispatch, pipeline]
    rfl
  have places : initial.ledger.places = 0 := by
    rw [Ledger.places, held, abroad]
    rfl
  have absent (inst : Load) : inst ∉ initial.ledger.places := by
    rw [places]
    exact Multiset.notMem_zero inst
  have noRunning (inst : Load) : ¬ initial.ledger.Running inst := fun running =>
    absent inst (Ledger.mem_places_of_running running)
  have registered : Ledger.Registered (· ∈ initial.ledger.places) initial.issued initial.reg_table
      initial.released := by
    rw [idle.no_issued, idle.no_reserved, idle.no_released]
    constructor
    case known => exact fun inst present => absurd present (absent inst)
    case apart => exact fun inst present => absurd present (absent inst)
    case reserved =>
      intro key
      refine iff_of_false (Finset.notMem_empty key) fun found => ?_
      obtain ⟨inst, present, -⟩ := found
      exact absent inst present
    case unreleased => exact fun inst present => absurd present (absent inst)
    case once => exact fun inst isIssued => absurd isIssued List.not_mem_nil
    case logged => exact fun entry isEntry => absurd isEntry List.not_mem_nil
  have placed : Ledger.Placed initial.ledger := by
    constructor
    case held_once => exact fun inst => by rw [held]; exact Nat.zero_le 1
    case not_sent => exact fun inst waits => absurd (Ledger.mem_places.mpr (Or.inl waits)) (absent inst)
    case piped =>
      exact fun inst isPiped =>
        absurd (Ledger.mem_places.mpr (Or.inr (Or.inr (Or.inl isPiped)))) (absent inst)
    case shared_once => exact fun inst _ => by rw [places]; exact Nat.zero_le 1
  refine ⟨⟨registered, placed, ⟨?_, ?_⟩, ?_, ?_⟩, ?_, ?_⟩
  · exact fun inst running => absurd running (noRunning inst)
  · intro key n entry
    have none : initial.ledger.pending key = none := idle.no_pending key
    rw [none] at entry
    cases entry
  · intro warp_id
    have counted := idle.counted warp_id
    rw [held]
    show initial.m_inst_in_pipeline warp_id = initial.num_inst_in_buffer warp_id +
      (initial.m_inst_in_pipeline warp_id - initial.num_inst_in_buffer warp_id) + 0
    omega
  · intro inst m_accessq now
    rw [dispatch] at now
    cases now
  · intro inst now
    rw [dispatch] at now
    cases now
  · intro inst m_accessq now
    rw [dispatch] at now
    cases now

theorem reachable_good {initial : LdstUnit} (idle : initial.Idle)
    (reachable : LdstUnit.Reachable bypassL1D initial unit) :
    unit.Good initial.num_issued_inst_in_pipeline := by
  induction reachable with
  | initial => exact idle_good idle
  | step event _ possible run ih =>
    obtain ⟨unit', run', good⟩ := step_good bypassL1D ih possible
    rw [run] at run'
    exact Option.some.inj run' ▸ good

def LdstUnit.heldLoads (unit : LdstUnit) : List Load :=
  unit.collector ++ (unit.m_dispatch_reg.map DispatchReg.inst).toList ++
    ((unit.m_pipeline_reg 0).toList ++ (unit.m_pipeline_reg 1).toList ++
      (unit.m_pipeline_reg 2).toList)

/-- The loads of the accesses that are sent, answered or written back. -/
def LdstUnit.abroadLoads (unit : LdstUnit) : List Load :=
  unit.m_next_wb.toList ++ unit.m_next_global.toList ++ unit.sent.map Prod.snd

def LdstUnit.Complete (unit : LdstUnit) (inst : Load) : Prop :=
  inst ∉ unit.heldLoads ∧ inst ∉ unit.abroadLoads

structure LdstUnit.ReleasedWhenComplete (initial unit : LdstUnit) : Prop where
  released : ∀ inst ∈ unit.issued, unit.Complete inst → ∀ reg ∈ inst.registers,
    unit.released.count (inst, reg) = 1
  reserved : ∀ inst ∈ unit.issued, ¬ unit.Complete inst → ∀ reg ∈ inst.registers,
    unit.released.count (inst, reg) = 0 ∧ (inst.warp_id, reg) ∈ unit.reg_table
  no_entry : ∀ key, key ∉ unit.reg_table → unit.m_pending_writes key = none
  held_once : unit.heldLoads.Nodup
  buffered : ∀ warp_id, unit.num_inst_in_buffer warp_id ≤ unit.m_inst_in_pipeline warp_id
  in_pipeline : ∀ warp_id, unit.num_issued_inst_in_pipeline warp_id =
    initial.num_issued_inst_in_pipeline warp_id +
      unit.heldLoads.countP fun inst => inst.warp_id = warp_id

theorem held_eq (unit : LdstUnit) : unit.ledger.held = (unit.heldLoads : Multiset Load) := by
  have dispatched : unit.ledger.dispatched =
      ((unit.m_dispatch_reg.map DispatchReg.inst).toList : Multiset Load) := by
    cases here : unit.m_dispatch_reg with
    | none => exact Ledger.dispatched_of_none (Option.map_eq_none_iff.mpr here)
    | some reg => exact Ledger.dispatched_of_some (dispatch_eq here)
  rw [Ledger.held, dispatched, LdstUnit.heldLoads, ← Multiset.coe_add, ← Multiset.coe_add]
  rfl

theorem complete_iff : unit.Complete inst ↔ inst ∉ unit.ledger.places := by
  rw [Ledger.places, held_eq, Multiset.mem_add, not_or]
  rfl

/-- In every run in which loads are issued without a collision, no assertion fails, and the
registers of every load are released when it is complete. -/
theorem loads_released_when_complete {initial : LdstUnit} (idle : initial.Idle)
    (reachable : LdstUnit.Reachable bypassL1D initial unit) :
    initial.ReleasedWhenComplete unit ∧
      ∀ event, unit.Possible event → (unit.step bypassL1D event).isSome := by
  have good := reachable_good bypassL1D idle reachable
  have sound := good.1
  have counted (warp_id : Nat) : unit.m_inst_in_pipeline warp_id =
      unit.num_inst_in_buffer warp_id + initial.num_issued_inst_in_pipeline warp_id +
        unit.heldLoads.countP fun inst => inst.warp_id = warp_id := by
    have counted := sound.in_pipeline warp_id
    rw [held_eq, Multiset.coe_countP] at counted
    exact counted
  refine ⟨?_, ?_⟩
  · constructor
    case released =>
      intro inst isIssued complete
      exact sound.registered.once inst isIssued (complete_iff.mp complete)
    case reserved =>
      intro inst isIssued incomplete reg isRegister
      have present : inst ∈ unit.ledger.places := by
        by_contra absent
        exact incomplete (complete_iff.mpr absent)
      exact ⟨sound.registered.unreleased inst present reg,
        (sound.registered.reserved _).mpr ⟨inst, present, mem_keys isRegister⟩⟩
    case no_entry =>
      intro key notReserved
      cases entry : unit.m_pending_writes key with
      | none => rfl
      | some n =>
        obtain ⟨inst, running, isKey⟩ := sound.counted.owner key n entry
        exact absurd ((sound.registered.reserved key).mpr
          ⟨inst, Ledger.mem_places_of_running running, isKey⟩) notReserved
    case held_once =>
      rw [← Multiset.coe_nodup, ← held_eq, Multiset.nodup_iff_count_le_one]
      exact sound.placed.held_once
    case buffered =>
      intro warp_id
      have now := counted warp_id
      omega
    case in_pipeline =>
      intro warp_id
      rw [LdstUnit.num_issued_inst_in_pipeline, counted warp_id, Nat.add_assoc,
        Nat.add_sub_cancel_left]
  · intro event possible
    obtain ⟨unit', run, _⟩ := step_good bypassL1D good possible
    rw [run]
    rfl

/-- A load of register 5 with one access. -/
def oneAccess : Load :=
  { uid := 1, warp_id := 0, space := .global_space, out := ![5, 0, 0, 0], sources := [7],
    active_count := 32, accessq_count := 1, cycles := 0, distinct := by decide,
    inactive := by decide, active := fun _ _ => by decide }

def idleUnit : LdstUnit :=
  { m_pending_writes := fun _ => none, reg_table := ∅, m_inst_in_pipeline := fun _ => 0,
    num_inst_in_buffer := fun _ => 0, collector := [], m_dispatch_reg := none,
    m_pipeline_reg := fun _ => none, m_next_wb := none, m_next_global := none,
    m_writeback_arb := 0, sent := [], issued := [], released := [] }

theorem loads_released_when_complete_hit :
    ∃ unit, unit.released = [(oneAccess, 5)] ∧ idleUnit.ReleasedWhenComplete unit ∧
      ∀ event, unit.Possible event → (unit.step (fun _ => false) event).isSome := by
  have idle : idleUnit.Idle :=
    ⟨fun _ => rfl, rfl, rfl, rfl, fun _ => rfl, rfl, rfl, rfl, rfl, rfl, fun _ => le_rfl⟩
  have start : LdstUnit.Reachable (fun _ => false) idleUnit idleUnit := .initial
  have decoded := LdstUnit.Reachable.step (.decode 0) start trivial rfl
  have scheduled := LdstUnit.Reachable.step (.issue_warp oneAccess) decoded
    ⟨by decide, by decide, fun _ isIssued => absurd isIssued List.not_mem_nil⟩ rfl
  have issued := LdstUnit.Reachable.step (.issue oneAccess) scheduled ⟨by decide, rfl⟩ rfl
  have hit := LdstUnit.Reachable.step
    (.cycle ⟨true, fun _ => none, true, .HIT, false⟩) issued trivial rfl
  exact ⟨_, rfl, loads_released_when_complete (fun _ => false) idle hit⟩

end AesOnGpu.LoadStore
