import AesOnGpu.Lib.Countdown
import AesOnGpu.LoadStore.LdstUnit

/-! # Where the loads are

The ledger of a load-store unit tells which loads are on the way to it, in its dispatch register
with the accesses that are left, in its pipeline, and abroad: an access of them was sent and has
not been written back.  A load in shared memory is abroad while it is written back.

A load holds its registers as long as it is in one of these places.
-/

namespace AesOnGpu.LoadStore

open Countdown (setAll Counted Apart)

def Load.keys (inst : Load) : List WarpReg :=
  inst.registers.map fun reg => (inst.warp_id, reg)

theorem Load.nodup_registers (inst : Load) : inst.registers.Nodup := by
  rw [Load.registers, List.filter_map]
  refine List.Nodup.map_on ?_ ((List.nodup_finRange 4).filter _)
  intro r isRegister r' _ same
  have positive : 0 < inst.out r := by simpa using (List.mem_filter.mp isRegister).2
  exact (inst.distinct r r' same).resolve_right positive.ne'

@[ext]
structure Ledger where
  collector : Multiset Load
  dispatch : Option (Load × Nat)
  pipeline : Multiset Load
  abroad : Multiset Load
  pending : WarpReg → Option Nat
  reserved : Finset WarpReg
  issued : List Load
  released : List (Load × Nat)
  in_pipeline : Nat → Nat
  in_buffer : Nat → Nat

namespace Ledger

def dispatched (ledger : Ledger) : Multiset Load :=
  match ledger.dispatch with
  | none => 0
  | some (inst, _) => {inst}

def held (ledger : Ledger) : Multiset Load :=
  ledger.collector + ledger.dispatched + ledger.pipeline

def places (ledger : Ledger) : Multiset Load :=
  ledger.held + ledger.abroad

def outstanding (ledger : Ledger) (inst : Load) : Nat :=
  (match ledger.dispatch with
    | none => 0
    | some (inst', m_accessq) => if inst' = inst then m_accessq else 0) + ledger.abroad.count inst

/-- A load that is counted in `m_pending_writes`. -/
def Running (ledger : Ledger) (inst : Load) : Prop :=
  inst ∈ ledger.dispatched + ledger.abroad ∧ inst.space ≠ .shared_space

structure Registered (present : Load → Prop) (issued : List Load) (reserved : Finset WarpReg)
    (released : List (Load × Nat)) : Prop where
  known : ∀ inst, present inst → inst ∈ issued
  apart : Apart Load.keys present
  reserved : ∀ key, key ∈ reserved ↔ ∃ inst, present inst ∧ key ∈ inst.keys
  unreleased : ∀ inst, present inst → ∀ reg, released.count (inst, reg) = 0
  once : ∀ inst ∈ issued, ¬ present inst → ∀ reg ∈ inst.registers, released.count (inst, reg) = 1
  logged : ∀ entry ∈ released, entry.1 ∈ issued

structure Placed (ledger : Ledger) : Prop where
  held_once : ∀ inst, ledger.held.count inst ≤ 1
  not_sent : ∀ inst ∈ ledger.collector, inst ∉ ledger.abroad
  piped : ∀ inst ∈ ledger.pipeline, inst.space = .shared_space
  shared_once : ∀ inst, inst.space = .shared_space → ledger.places.count inst ≤ 1

/-- `base` are the instructions that were in the pipeline before. -/
structure Sound (base : Nat → Nat) (ledger : Ledger) : Prop where
  registered : Registered (· ∈ ledger.places) ledger.issued ledger.reserved ledger.released
  placed : Placed ledger
  counted : Counted Load.keys ledger.pending ledger.Running ledger.outstanding
  in_pipeline : ∀ warp_id, ledger.in_pipeline warp_id = ledger.in_buffer warp_id + base warp_id +
    ledger.held.countP fun inst => inst.warp_id = warp_id
  inactive : ∀ inst m_accessq, ledger.dispatch = some (inst, m_accessq) →
    inst.active_count = 0 → m_accessq = 0

/-- What holds between two cycles of the load in the dispatch register: it has accesses left
unless it never had one. -/
structure Settled (ledger : Ledger) : Prop where
  all_sent : ∀ inst, ledger.dispatch = some (inst, 0) → inst ∉ ledger.abroad
  active : ∀ inst m_accessq, ledger.dispatch = some (inst, m_accessq) →
    inst.active_count ≠ 0 → inst.space.IsMemory → m_accessq ≠ 0

/-! ## The steps -/

def issueWarp (ledger : Ledger) (inst : Load) : Ledger :=
  { ledger with
    collector := inst ::ₘ ledger.collector
    reserved := ledger.reserved ∪ inst.keys.toFinset
    issued := inst :: ledger.issued
    in_buffer := Function.update ledger.in_buffer inst.warp_id
      (ledger.in_buffer inst.warp_id - 1) }

def enter (ledger : Ledger) (inst : Load) : Ledger :=
  { ledger with
    collector := ledger.collector.erase inst
    dispatch := some (inst, inst.accessq_count)
    pending := if inst.space = .shared_space then ledger.pending
      else setAll inst.keys (some inst.accessq_count) ledger.pending }

def hit (ledger : Ledger) (inst : Load) (m_accessq : Nat) : Ledger :=
  { ledger with
    dispatch := some (inst, m_accessq)
    pending := setAll inst.keys (some (m_accessq + ledger.abroad.count inst)) ledger.pending }

def send (ledger : Ledger) (inst : Load) (m_accessq : Nat) : Ledger :=
  { ledger with
    dispatch := some (inst, m_accessq)
    abroad := inst ::ₘ ledger.abroad }

def leaveWarp (ledger : Ledger) (inst : Load) : Ledger :=
  { ledger with
    in_pipeline := Function.update ledger.in_pipeline inst.warp_id
      (ledger.in_pipeline inst.warp_id - 1) }

def pipe (ledger : Ledger) (inst : Load) : Ledger :=
  { ledger with
    dispatch := none
    pipeline := inst ::ₘ ledger.pipeline }

def drain (ledger : Ledger) (inst : Load) : Ledger :=
  { ledger.leaveWarp inst with
    pipeline := ledger.pipeline.erase inst
    abroad := inst ::ₘ ledger.abroad }

def release (ledger : Ledger) (inst : Load) : Ledger :=
  { ledger with
    pending := setAll inst.keys none ledger.pending
    reserved := ledger.reserved \ inst.keys.toFinset
    released := ledger.released ++ inst.registers.map fun reg => (inst, reg) }

def vacate (ledger : Ledger) (inst : Load) : Ledger :=
  { ledger.leaveWarp inst with dispatch := none }

/-- The load that leaves is done when none of its accesses is abroad. -/
def depart (ledger : Ledger) (inst : Load) : Ledger :=
  if inst ∈ ledger.abroad then ledger.vacate inst else (ledger.vacate inst).release inst

/-- An access comes home. -/
def comeHome (ledger : Ledger) (inst : Load) : Ledger :=
  { ledger with abroad := ledger.abroad.erase inst }

def writeBack (ledger : Ledger) (inst : Load) : Ledger :=
  if inst ∈ (ledger.comeHome inst).places then
    { ledger.comeHome inst with
      pending := setAll inst.keys (some ((ledger.comeHome inst).outstanding inst)) ledger.pending }
  else (ledger.comeHome inst).release inst

/-! ## Registers -/

section

variable {present present' : Load → Prop} {issued : List Load} {reserved : Finset WarpReg}
  {released : List (Load × Nat)} {inst : Load}

theorem Registered.congr (registered : Registered present issued reserved released)
    (same : ∀ inst, present' inst ↔ present inst) :
    Registered present' issued reserved released := by
  have : present' = present := funext fun inst => propext (same inst)
  rw [this]
  exact registered

theorem Registered.issue (registered : Registered present issued reserved released)
    (new : inst ∉ issued) (free : ∀ key ∈ inst.keys, key ∉ reserved)
    (joins : ∀ other, present' other ↔ other = inst ∨ present other) :
    Registered present' (inst :: issued) (reserved ∪ inst.keys.toFinset) released := by
  constructor
  case known =>
    intro other isPresent
    cases (joins other).mp isPresent with
    | inl same => exact same ▸ List.mem_cons_self
    | inr wasPresent => exact List.mem_cons_of_mem inst (registered.known other wasPresent)
  case apart =>
    intro a aPresent b bPresent key aKey bKey
    have notBoth (other : Load) (wasPresent : present other) (key : WarpReg)
        (isKey : key ∈ other.keys) : key ∉ inst.keys := fun mine =>
      free key mine ((registered.reserved key).mpr ⟨other, wasPresent, isKey⟩)
    rcases (joins a).mp aPresent with rfl | aWas <;> rcases (joins b).mp bPresent with rfl | bWas
    · rfl
    · exact absurd aKey (notBoth b bWas key bKey)
    · exact absurd bKey (notBoth a aWas key aKey)
    · exact registered.apart a aWas b bWas key aKey bKey
  case reserved =>
    intro key
    rw [Finset.mem_union, List.mem_toFinset, registered.reserved]
    constructor
    · rintro (⟨other, wasPresent, isKey⟩ | mine)
      · exact ⟨other, (joins other).mpr (Or.inr wasPresent), isKey⟩
      · exact ⟨inst, (joins inst).mpr (Or.inl rfl), mine⟩
    · rintro ⟨other, isPresent, isKey⟩
      cases (joins other).mp isPresent with
      | inl same => exact Or.inr (same ▸ isKey)
      | inr wasPresent => exact Or.inl ⟨other, wasPresent, isKey⟩
  case unreleased =>
    intro other isPresent reg
    cases (joins other).mp isPresent with
    | inl same =>
      rw [List.count_eq_zero]
      intro logged
      exact new (same ▸ registered.logged _ logged)
    | inr wasPresent => exact registered.unreleased other wasPresent reg
  case once =>
    intro other isIssued notPresent reg isRegister
    have notSame : other ≠ inst := fun same => notPresent ((joins other).mpr (Or.inl same))
    have notWas : ¬ present other := fun was => notPresent ((joins other).mpr (Or.inr was))
    have wasIssued := (List.mem_cons.mp isIssued).resolve_left notSame
    exact registered.once other wasIssued notWas reg isRegister
  case logged =>
    intro entry isEntry
    exact List.mem_cons_of_mem inst (registered.logged entry isEntry)

theorem count_releases (other : Load) (reg : Nat) (isRegister : reg ∈ other.registers) :
    (inst.registers.map fun reg => (inst, reg)).count (other, reg) =
      if other = inst then 1 else 0 := by
  split
  · rename_i same
    subst same
    rw [List.count_map_of_injective _ _ fun _ _ h => (Prod.mk.inj h).2]
    exact List.count_eq_one_of_mem other.nodup_registers isRegister
  · rename_i different
    rw [List.count_eq_zero, List.mem_map]
    rintro ⟨reg', _, same⟩
    exact different (Prod.mk.inj same).1.symm

theorem Registered.release (registered : Registered present issued reserved released)
    (isPresent : present inst) (leaves : ∀ other, present' other ↔ present other ∧ other ≠ inst) :
    Registered present' issued (reserved \ inst.keys.toFinset)
      (released ++ inst.registers.map fun reg => (inst, reg)) := by
  constructor
  case known => exact fun other stays => registered.known other ((leaves other).mp stays).1
  case apart =>
    intro a aPresent b bPresent
    exact registered.apart a ((leaves a).mp aPresent).1 b ((leaves b).mp bPresent).1
  case reserved =>
    intro key
    rw [Finset.mem_sdiff, List.mem_toFinset, registered.reserved]
    constructor
    · rintro ⟨⟨other, wasPresent, isKey⟩, notMine⟩
      exact ⟨other, (leaves other).mpr ⟨wasPresent, fun same => notMine (same ▸ isKey)⟩, isKey⟩
    · rintro ⟨other, stays, isKey⟩
      obtain ⟨wasPresent, different⟩ := (leaves other).mp stays
      exact ⟨⟨other, wasPresent, isKey⟩, fun mine =>
        different (registered.apart other wasPresent inst isPresent key isKey mine)⟩
  case unreleased =>
    intro other stays reg
    obtain ⟨wasPresent, different⟩ := (leaves other).mp stays
    have notLogged : (other, reg) ∉ inst.registers.map fun reg => (inst, reg) := by
      rw [List.mem_map]
      rintro ⟨_, _, same⟩
      exact different (Prod.mk.inj same).1.symm
    rw [List.count_append, registered.unreleased other wasPresent, List.count_eq_zero.mpr notLogged]
  case once =>
    intro other isIssued gone reg isRegister
    rw [List.count_append, count_releases other reg isRegister]
    by_cases same : other = inst
    · rw [same, registered.unreleased inst isPresent, if_pos rfl]
    · have wasGone : ¬ present other := fun was => gone ((leaves other).mpr ⟨was, same⟩)
      rw [registered.once other isIssued wasGone reg isRegister, if_neg same]
  case logged =>
    intro entry isEntry
    cases List.mem_append.mp isEntry with
    | inl before => exact registered.logged entry before
    | inr now =>
      obtain ⟨_, _, rfl⟩ := List.mem_map.mp now
      exact registered.known inst isPresent

end

/-! ## What the steps keep -/

variable {base : Nat → Nat} {ledger : Ledger} {inst : Load} {m_accessq : Nat}

theorem dispatched_of_none (free : ledger.dispatch = none) : ledger.dispatched = 0 := by
  rw [dispatched, free]

theorem dispatched_of_some (here : ledger.dispatch = some (inst, m_accessq)) :
    ledger.dispatched = {inst} := by
  rw [dispatched, here]

theorem outstanding_of_none (free : ledger.dispatch = none) (other : Load) :
    ledger.outstanding other = ledger.abroad.count other := by
  rw [outstanding, free, Nat.zero_add]

theorem outstanding_of_some (here : ledger.dispatch = some (inst, m_accessq)) (other : Load) :
    ledger.outstanding other =
      (if inst = other then m_accessq else 0) + ledger.abroad.count other := by
  rw [outstanding, here]

theorem mem_places {other : Load} :
    other ∈ ledger.places ↔ other ∈ ledger.collector ∨ other ∈ ledger.dispatched ∨
      other ∈ ledger.pipeline ∨ other ∈ ledger.abroad := by
  simp only [places, held, Multiset.mem_add, or_assoc]

theorem count_held (other : Load) :
    ledger.held.count other = ledger.collector.count other + ledger.dispatched.count other +
      ledger.pipeline.count other := by
  rw [held, Multiset.count_add, Multiset.count_add]

theorem count_places (other : Load) :
    ledger.places.count other = ledger.held.count other + ledger.abroad.count other := by
  rw [places, Multiset.count_add]

theorem Placed.collector_of_mem (placed : Placed ledger) (member : inst ∈ ledger.dispatched) :
    inst ∉ ledger.collector := by
  have once := placed.held_once inst
  have here := Multiset.one_le_count_iff_mem.mpr member
  rw [count_held] at once
  rw [← Multiset.one_le_count_iff_mem]
  omega

theorem mem_places_of_running {other : Load} (runs : ledger.Running other) :
    other ∈ ledger.places := by
  rw [mem_places]
  cases Multiset.mem_add.mp runs.1 with
  | inl inDispatch => exact Or.inr (Or.inl inDispatch)
  | inr isAbroad => exact Or.inr (Or.inr (Or.inr isAbroad))

theorem Registered.apart_running {issued : List Load} {reserved : Finset WarpReg}
    {released : List (Load × Nat)}
    (registered : Registered (· ∈ ledger.places) issued reserved released) :
    Apart Load.keys ledger.Running := by
  intro a aRuns b bRuns
  exact registered.apart a (mem_places_of_running aRuns) b (mem_places_of_running bRuns)

theorem Sound.issueWarp (sound : Sound base ledger) (new : inst ∉ ledger.issued)
    (free : ∀ key ∈ inst.keys, key ∉ ledger.reserved)
    (buffered : 0 < ledger.in_buffer inst.warp_id) : Sound base (ledger.issueWarp inst) := by
  have heldNow : (ledger.issueWarp inst).held = inst ::ₘ ledger.held := by
    show inst ::ₘ ledger.collector + ledger.dispatched + ledger.pipeline = _
    rw [held, Multiset.cons_add, Multiset.cons_add]
  have placesNow : (ledger.issueWarp inst).places = inst ::ₘ ledger.places := by
    rw [places, heldNow, places, Multiset.cons_add]
    rfl
  have absent : inst ∉ ledger.places := fun present => new (sound.registered.known inst present)
  have absentHeld : inst ∉ ledger.held := fun isHeld =>
    absent (Multiset.mem_add.mpr (Or.inl isHeld))
  constructor
  case registered =>
    apply sound.registered.issue new free
    intro other
    rw [placesNow, Multiset.mem_cons]
  case placed =>
    constructor
    case held_once =>
      intro other
      have once := sound.placed.held_once other
      rw [heldNow, Multiset.count_cons]
      split
      · rename_i same
        rw [same, Multiset.count_eq_zero.mpr absentHeld]
      · exact once
    case not_sent =>
      intro other waits isAbroad
      cases Multiset.mem_cons.mp waits with
      | inl same => exact absent (Multiset.mem_add.mpr (Or.inr (same ▸ isAbroad)))
      | inr before => exact sound.placed.not_sent other before isAbroad
    case piped => exact sound.placed.piped
    case shared_once =>
      intro other isShared
      have once := sound.placed.shared_once other isShared
      rw [placesNow, Multiset.count_cons]
      split
      · rename_i same
        rw [same, Multiset.count_eq_zero.mpr absent]
      · exact once
  case counted => exact sound.counted
  case in_pipeline =>
    intro warp_id
    have before := sound.in_pipeline warp_id
    rw [heldNow, Multiset.countP_cons]
    show ledger.in_pipeline warp_id = Function.update ledger.in_buffer inst.warp_id _ warp_id + _ + _
    by_cases same : warp_id = inst.warp_id
    · subst same
      rw [Function.update_self, if_pos rfl]
      omega
    · rw [Function.update_of_ne same, if_neg (Ne.symm same)]
      exact before
  case inactive => exact sound.inactive

theorem Placed.rearrange {ledger' : Ledger} (placed : Placed ledger)
    (heldSame : ledger'.held = ledger.held) (placesSame : ledger'.places = ledger.places)
    (collected : ∀ other ∈ ledger'.collector, other ∈ ledger.collector)
    (abroadSame : ledger'.abroad = ledger.abroad)
    (piped : ∀ other ∈ ledger'.pipeline, other.space = .shared_space) : Placed ledger' := by
  constructor
  case held_once =>
    intro other
    rw [heldSame]
    exact placed.held_once other
  case not_sent =>
    intro other waits
    rw [abroadSame]
    exact placed.not_sent other (collected other waits)
  case piped => exact piped
  case shared_once =>
    intro other isShared
    rw [placesSame]
    exact placed.shared_once other isShared

theorem Sound.enter (sound : Sound base ledger) (waits : inst ∈ ledger.collector)
    (free : ledger.dispatch = none) : Sound base (ledger.enter inst) := by
  have heldNow : (ledger.enter inst).held = ledger.held :=
    calc ledger.collector.erase inst + {inst} + ledger.pipeline
      _ = inst ::ₘ ledger.collector.erase inst + ledger.pipeline := by
          rw [Multiset.add_comm (ledger.collector.erase inst), Multiset.singleton_add]
      _ = ledger.held := by
          rw [Multiset.cons_erase waits, held, dispatched_of_none free, Multiset.add_zero]
  have placesNow : (ledger.enter inst).places = ledger.places := by
    rw [places, heldNow]
    rfl
  have notAbroad := sound.placed.not_sent inst waits
  have placed : Placed (ledger.enter inst) :=
    sound.placed.rearrange heldNow placesNow (fun _ => Multiset.mem_of_mem_erase) rfl
      sound.placed.piped
  have registered : Registered (· ∈ (ledger.enter inst).places) ledger.issued ledger.reserved
      ledger.released := by
    rw [placesNow]
    exact sound.registered
  have runs (other : Load) : (ledger.enter inst).Running other ↔
      ledger.Running other ∨ other = inst ∧ inst.space ≠ .shared_space := by
    have enters : (ledger.enter inst).Running other ↔
        (other = inst ∨ other ∈ ledger.abroad) ∧ other.space ≠ .shared_space := by
      rw [Running, Multiset.mem_add]
      exact and_congr_left fun _ => or_congr_left Multiset.mem_singleton
    rw [enters, Running, dispatched_of_none free, Multiset.zero_add]
    constructor
    · rintro ⟨rfl | isAbroad, notShared⟩
      · exact Or.inr ⟨rfl, notShared⟩
      · exact Or.inl ⟨isAbroad, notShared⟩
    · rintro (⟨isAbroad, notShared⟩ | ⟨rfl, notShared⟩)
      · exact ⟨Or.inr isAbroad, notShared⟩
      · exact ⟨Or.inl rfl, notShared⟩
  have others (other : Load) (different : other ≠ inst) :
      (ledger.enter inst).outstanding other = ledger.outstanding other := by
    rw [outstanding_of_none free]
    show (if inst = other then _ else 0) + _ = _
    rw [if_neg (Ne.symm different), Nat.zero_add]
    rfl
  refine ⟨registered, placed, ?counted, ?in_pipeline, ?inactive⟩
  case counted =>
    by_cases isShared : inst.space = .shared_space
    · have table : (ledger.enter inst).pending = ledger.pending := if_pos isShared
      rw [table]
      apply sound.counted.congr
      · intro other _
        rw [runs]
        exact ⟨fun now => now.resolve_right fun both => both.2 isShared, Or.inl⟩
      · intro other _ running
        exact others other fun same => running.2 (same ▸ isShared)
    · have own : (ledger.enter inst).outstanding inst = inst.accessq_count := by
        show (if inst = inst then inst.accessq_count else 0) + ledger.abroad.count inst = _
        rw [if_pos rfl, Multiset.count_eq_zero.mpr notAbroad, Nat.add_zero]
      have table : (ledger.enter inst).pending =
          setAll inst.keys (some inst.accessq_count) ledger.pending := if_neg isShared
      have joins (other : Load) : (ledger.enter inst).Running other ↔
          ledger.Running other ∨ other = inst := by
        rw [runs]
        exact or_congr_right (and_iff_left isShared)
      rw [table]
      exact sound.counted.set registered.apart_running joins others own
  case in_pipeline =>
    rw [heldNow]
    exact sound.in_pipeline
  case inactive =>
    intro other m_accessq here isInactive
    obtain ⟨rfl, rfl⟩ := Prod.mk.inj (Option.some.inj here)
    exact inst.inactive isInactive

theorem Sound.hit (sound : Sound base ledger)
    (here : ledger.dispatch = some (inst, m_accessq + 1)) (notShared : inst.space ≠ .shared_space) :
    Sound base (ledger.hit inst m_accessq) := by
  have dispatchedNow : (ledger.hit inst m_accessq).dispatched = ledger.dispatched := by
    rw [dispatched_of_some here]
    rfl
  have heldNow : (ledger.hit inst m_accessq).held = ledger.held := by
    rw [held, dispatchedNow]
    rfl
  have placesNow : (ledger.hit inst m_accessq).places = ledger.places := by
    rw [places, heldNow]
    rfl
  have runs (other : Load) : (ledger.hit inst m_accessq).Running other ↔ ledger.Running other := by
    rw [Running, dispatchedNow]
    rfl
  have running : ledger.Running inst := by
    refine ⟨Multiset.mem_add.mpr (Or.inl ?_), notShared⟩
    rw [dispatched_of_some here]
    exact Multiset.mem_singleton_self inst
  have registered : Registered (· ∈ (ledger.hit inst m_accessq).places) ledger.issued
      ledger.reserved ledger.released := by
    rw [placesNow]
    exact sound.registered
  refine ⟨registered, ?placed, ?counted, ?in_pipeline, ?inactive⟩
  case placed =>
    exact sound.placed.rearrange heldNow placesNow (fun _ waits => waits) rfl sound.placed.piped
  case counted =>
    apply sound.counted.set registered.apart_running
    · intro other
      rw [runs]
      exact (or_iff_left_of_imp fun same => same ▸ running).symm
    · intro other different
      rw [outstanding_of_some here, if_neg (Ne.symm different)]
      show (if inst = other then _ else 0) + _ = _
      rw [if_neg (Ne.symm different)]
      rfl
    · show (if inst = inst then m_accessq else 0) + ledger.abroad.count inst = _
      rw [if_pos rfl]
  case in_pipeline =>
    rw [heldNow]
    exact sound.in_pipeline
  case inactive =>
    intro other left now isInactive
    obtain ⟨rfl, rfl⟩ := Prod.mk.inj (Option.some.inj now)
    exact absurd (sound.inactive inst (m_accessq + 1) here isInactive) (Nat.succ_ne_zero m_accessq)

theorem Sound.send (sound : Sound base ledger)
    (here : ledger.dispatch = some (inst, m_accessq + 1)) (notShared : inst.space ≠ .shared_space) :
    Sound base (ledger.send inst m_accessq) := by
  have isDispatched : inst ∈ ledger.dispatched := by
    rw [dispatched_of_some here]
    exact Multiset.mem_singleton_self inst
  have dispatchedNow : (ledger.send inst m_accessq).dispatched = ledger.dispatched := by
    rw [dispatched_of_some here]
    rfl
  have heldNow : (ledger.send inst m_accessq).held = ledger.held := by
    rw [held, dispatchedNow]
    rfl
  have placesNow : (ledger.send inst m_accessq).places = inst ::ₘ ledger.places := by
    rw [places, heldNow]
    exact Multiset.add_cons inst ledger.held ledger.abroad
  have same (other : Load) :
      other ∈ (ledger.send inst m_accessq).places ↔ other ∈ ledger.places := by
    rw [placesNow, Multiset.mem_cons]
    apply or_iff_right_of_imp
    rintro rfl
    exact mem_places.mpr (Or.inr (Or.inl isDispatched))
  refine ⟨sound.registered.congr same, ?placed, ?counted, ?in_pipeline, ?inactive⟩
  case placed =>
    constructor
    case held_once =>
      intro other
      rw [heldNow]
      exact sound.placed.held_once other
    case not_sent =>
      intro other waits isAbroad
      cases Multiset.mem_cons.mp isAbroad with
      | inl same => exact sound.placed.collector_of_mem isDispatched (same ▸ waits)
      | inr before => exact sound.placed.not_sent other waits before
    case piped => exact sound.placed.piped
    case shared_once =>
      intro other isShared
      have different : other ≠ inst := fun same => notShared (same ▸ isShared)
      rw [placesNow, Multiset.count_cons_of_ne different]
      exact sound.placed.shared_once other isShared
  case counted =>
    apply sound.counted.congr
    · intro other _
      rw [Running, Running, dispatchedNow, Multiset.mem_add, Multiset.mem_add]
      apply and_congr_left
      intro _
      show _ ∨ other ∈ inst ::ₘ ledger.abroad ↔ _
      rw [Multiset.mem_cons]
      constructor
      · rintro (before | rfl | before)
        · exact Or.inl before
        · exact Or.inl isDispatched
        · exact Or.inr before
      · rintro (before | before)
        · exact Or.inl before
        · exact Or.inr (Or.inr before)
    · intro other _ _
      rw [outstanding_of_some here]
      show (if inst = other then m_accessq else 0) + (inst ::ₘ ledger.abroad).count other = _
      rw [Multiset.count_cons]
      by_cases mine : inst = other
      · rw [if_pos mine, if_pos mine, if_pos mine.symm]
        omega
      · rw [if_neg mine, if_neg mine, if_neg (Ne.symm mine)]
        omega
  case in_pipeline =>
    rw [heldNow]
    exact sound.in_pipeline
  case inactive =>
    intro other left now isInactive
    obtain ⟨rfl, rfl⟩ := Prod.mk.inj (Option.some.inj now)
    exact absurd (sound.inactive inst (m_accessq + 1) here isInactive) (Nat.succ_ne_zero m_accessq)

theorem Sound.pipe (sound : Sound base ledger) (here : ledger.dispatch = some (inst, m_accessq))
    (isShared : inst.space = .shared_space) : Sound base (ledger.pipe inst) := by
  have heldNow : (ledger.pipe inst).held = ledger.held := by
    rw [held, held, dispatched_of_some here]
    show ledger.collector + 0 + (inst ::ₘ ledger.pipeline) = _
    rw [Multiset.add_zero, Multiset.add_assoc, Multiset.singleton_add]
  have placesNow : (ledger.pipe inst).places = ledger.places := by
    rw [places, heldNow]
    rfl
  have registered : Registered (· ∈ (ledger.pipe inst).places) ledger.issued ledger.reserved
      ledger.released := by
    rw [placesNow]
    exact sound.registered
  refine ⟨registered, ?placed, ?counted, ?in_pipeline, ?inactive⟩
  case placed =>
    apply sound.placed.rearrange heldNow placesNow (fun _ waits => waits) rfl
    intro other isPiped
    cases Multiset.mem_cons.mp isPiped with
    | inl same => exact same ▸ isShared
    | inr before => exact sound.placed.piped other before
  case counted =>
    have different {other : Load} (notShared : other.space ≠ .shared_space) : other ≠ inst :=
      fun same => notShared (same ▸ isShared)
    apply sound.counted.congr
    · intro other _
      rw [Running, Running, dispatched_of_some here]
      apply and_congr_left
      intro notShared
      show other ∈ 0 + ledger.abroad ↔ _
      rw [Multiset.zero_add, Multiset.mem_add, Multiset.mem_singleton]
      exact (or_iff_right (different notShared)).symm
    · intro other _ running
      rw [outstanding_of_some here, if_neg (different running.2).symm]
      rfl
  case in_pipeline =>
    rw [heldNow]
    exact sound.in_pipeline
  case inactive =>
    intro other left now
    cases now

theorem Sound.drain (sound : Sound base ledger) (isPiped : inst ∈ ledger.pipeline) :
    Sound base (ledger.drain inst) := by
  have isShared := sound.placed.piped inst isPiped
  have heldBefore : ledger.held = inst ::ₘ (ledger.drain inst).held := by
    show ledger.collector + ledger.dispatched + ledger.pipeline =
      inst ::ₘ (ledger.collector + ledger.dispatched + ledger.pipeline.erase inst)
    rw [← Multiset.add_cons, Multiset.cons_erase isPiped]
  have placesNow : (ledger.drain inst).places = ledger.places := by
    rw [places, places, heldBefore]
    show _ + inst ::ₘ ledger.abroad = _
    rw [Multiset.add_cons, Multiset.cons_add]
  have notHeld : inst ∉ (ledger.drain inst).held := by
    have once := sound.placed.held_once inst
    rw [heldBefore, Multiset.count_cons_self] at once
    rw [← Multiset.one_le_count_iff_mem]
    omega
  have registered : Registered (· ∈ (ledger.drain inst).places) ledger.issued ledger.reserved
      ledger.released := by
    rw [placesNow]
    exact sound.registered
  refine ⟨registered, ?placed, ?counted, ?in_pipeline, sound.inactive⟩
  case placed =>
    constructor
    case held_once =>
      intro other
      have once := sound.placed.held_once other
      rw [heldBefore, Multiset.count_cons] at once
      omega
    case not_sent =>
      intro other waits isAbroad
      cases Multiset.mem_cons.mp isAbroad with
      | inl same =>
        apply notHeld
        rw [held, Multiset.mem_add, Multiset.mem_add]
        exact Or.inl (Or.inl (same ▸ waits))
      | inr before => exact sound.placed.not_sent other waits before
    case piped =>
      intro other stays
      exact sound.placed.piped other (Multiset.mem_of_mem_erase stays)
    case shared_once =>
      intro other isShared
      rw [placesNow]
      exact sound.placed.shared_once other isShared
  case counted =>
    have different {other : Load} (notShared : other.space ≠ .shared_space) : other ≠ inst :=
      fun same => notShared (same ▸ isShared)
    apply sound.counted.congr
    · intro other _
      apply and_congr_left
      intro notShared
      show other ∈ ledger.dispatched + inst ::ₘ ledger.abroad ↔ _
      rw [Multiset.add_cons, Multiset.mem_cons]
      exact or_iff_right (different notShared)
    · intro other _ running
      show _ + (inst ::ₘ ledger.abroad).count other = _
      rw [Multiset.count_cons_of_ne (different running.2)]
      rfl
  case in_pipeline =>
    intro warp_id
    have before := sound.in_pipeline warp_id
    rw [heldBefore, Multiset.countP_cons] at before
    show Function.update ledger.in_pipeline inst.warp_id _ warp_id = ledger.in_buffer warp_id + _ + _
    by_cases same : warp_id = inst.warp_id
    · subst same
      rw [if_pos rfl] at before
      rw [Function.update_self]
      omega
    · rw [if_neg (Ne.symm same)] at before
      rw [Function.update_of_ne same]
      exact before

theorem Sound.pending_of_notRunning (sound : Sound base ledger) (present : inst ∈ ledger.places)
    (notRunning : ¬ ledger.Running inst) : ∀ key ∈ inst.keys, ledger.pending key = none := by
  intro key isKey
  cases entry : ledger.pending key with
  | none => rfl
  | some n =>
    obtain ⟨other, running, otherKey⟩ := sound.counted.owner key n entry
    have same := sound.registered.apart other (mem_places_of_running running) inst present key
      otherKey isKey
    exact absurd (same ▸ running) notRunning

theorem Sound.release_last {ledger' : Ledger} (sound : Sound base ledger)
    (placesBefore : ledger.places = inst ::ₘ ledger'.places) (gone : inst ∉ ledger'.places)
    (pending : ledger'.pending = ledger.pending) (reserved : ledger'.reserved = ledger.reserved)
    (issued : ledger'.issued = ledger.issued) (released : ledger'.released = ledger.released)
    (placed : Placed ledger')
    (in_pipeline : ∀ warp_id, ledger'.in_pipeline warp_id = ledger'.in_buffer warp_id +
      base warp_id + ledger'.held.countP fun inst => inst.warp_id = warp_id)
    (inactive : ∀ inst m_accessq, ledger'.dispatch = some (inst, m_accessq) →
      inst.active_count = 0 → m_accessq = 0)
    (runs : ∀ other, ledger'.Running other ↔ ledger.Running other ∧ other ≠ inst)
    (others : ∀ other, other ≠ inst → ledger'.outstanding other = ledger.outstanding other) :
    Sound base (ledger'.release inst) := by
  have present : inst ∈ ledger.places := by
    rw [placesBefore]
    exact Multiset.mem_cons_self inst ledger'.places
  refine ⟨?registered, ⟨placed.held_once, placed.not_sent, placed.piped, placed.shared_once⟩,
    ?counted, in_pipeline, inactive⟩
  case registered =>
    have now : Registered (· ∈ ledger'.places) ledger.issued
        (ledger.reserved \ inst.keys.toFinset)
        (ledger.released ++ inst.registers.map fun reg => (inst, reg)) := by
      apply sound.registered.release present
      intro other
      rw [placesBefore, Multiset.mem_cons]
      constructor
      · intro stays
        exact ⟨Or.inr stays, fun same => gone (same ▸ stays)⟩
      · rintro ⟨same | stays, different⟩
        · exact absurd same different
        · exact stays
    rw [← reserved, ← issued, ← released] at now
    exact now
  case counted =>
    show Counted Load.keys (setAll inst.keys none ledger'.pending) ledger'.Running
      ledger'.outstanding
    rw [pending]
    by_cases wasRunning : ledger.Running inst
    · exact sound.counted.erase sound.registered.apart_running runs wasRunning others
    · -- only a load in shared memory is not running when it loses its last place
      rw [Countdown.setAll_eq_self (sound.pending_of_notRunning present wasRunning)]
      have different {other : Load} (running : ledger.Running other) : other ≠ inst :=
        fun same => wasRunning (same ▸ running)
      apply sound.counted.congr
      · intro other _
        rw [runs]
        exact and_iff_left_of_imp different
      · intro other _ running
        exact others other (different running)

theorem Placed.of_cons {ledger' : Ledger} (placed : Placed ledger)
    (heldLess : ∀ other, ledger'.held.count other ≤ ledger.held.count other)
    (placesBefore : ledger.places = inst ::ₘ ledger'.places)
    (collector : ledger'.collector = ledger.collector)
    (abroadLess : ∀ other ∈ ledger'.abroad, other ∈ ledger.abroad)
    (pipeline : ledger'.pipeline = ledger.pipeline) : Placed ledger' := by
  constructor
  case held_once => exact fun other => (heldLess other).trans (placed.held_once other)
  case not_sent =>
    rw [collector]
    exact fun other waits isAbroad => placed.not_sent other waits (abroadLess other isAbroad)
  case piped =>
    rw [pipeline]
    exact placed.piped
  case shared_once =>
    intro other isShared
    have once := placed.shared_once other isShared
    rw [placesBefore, Multiset.count_cons] at once
    omega

theorem Sound.depart (sound : Sound base ledger) (here : ledger.dispatch = some (inst, 0)) :
    Sound base (ledger.depart inst) := by
  have isDispatched : inst ∈ ledger.dispatched := by
    rw [dispatched_of_some here]
    exact Multiset.mem_singleton_self inst
  have heldBefore : ledger.held = inst ::ₘ (ledger.vacate inst).held := by
    rw [held, dispatched_of_some here]
    show _ = inst ::ₘ (ledger.collector + 0 + ledger.pipeline)
    rw [Multiset.add_zero, Multiset.add_comm ledger.collector, Multiset.singleton_add,
      Multiset.cons_add]
  have placesBefore : ledger.places = inst ::ₘ (ledger.vacate inst).places := by
    rw [places, heldBefore, Multiset.cons_add]
    rfl
  have notHeld : inst ∉ (ledger.vacate inst).held := by
    have once := sound.placed.held_once inst
    rw [heldBefore, Multiset.count_cons_self] at once
    rw [← Multiset.one_le_count_iff_mem]
    omega
  have heldLess (other : Load) : (ledger.vacate inst).held.count other ≤ ledger.held.count other := by
    rw [heldBefore]
    exact Multiset.count_le_count_cons other inst _
  have placed : Placed (ledger.vacate inst) :=
    sound.placed.of_cons heldLess placesBefore rfl (fun _ isAbroad => isAbroad) rfl
  have in_pipeline (warp_id : Nat) : (ledger.vacate inst).in_pipeline warp_id =
      (ledger.vacate inst).in_buffer warp_id + base warp_id +
        (ledger.vacate inst).held.countP fun other => other.warp_id = warp_id := by
    have before := sound.in_pipeline warp_id
    rw [heldBefore, Multiset.countP_cons] at before
    show Function.update ledger.in_pipeline inst.warp_id _ warp_id = ledger.in_buffer warp_id + _ + _
    by_cases same : warp_id = inst.warp_id
    · subst same
      rw [if_pos rfl] at before
      rw [Function.update_self]
      omega
    · rw [if_neg (Ne.symm same)] at before
      rw [Function.update_of_ne same]
      exact before
  have inactive : ∀ inst' m_accessq, (ledger.vacate inst).dispatch = some (inst', m_accessq) →
      inst'.active_count = 0 → m_accessq = 0 := by
    intro other n now
    cases now
  have outstandingNow (other : Load) :
      (ledger.vacate inst).outstanding other = ledger.outstanding other := by
    rw [outstanding_of_some here, ite_self]
    rfl
  have runs (other : Load) : (ledger.vacate inst).Running other ↔
      other ∈ ledger.abroad ∧ other.space ≠ .shared_space := by
    rw [Running]
    show other ∈ 0 + ledger.abroad ∧ _ ↔ _
    rw [Multiset.zero_add]
  have ran (other : Load) : ledger.Running other ↔
      (other = inst ∨ other ∈ ledger.abroad) ∧ other.space ≠ .shared_space := by
    rw [Running, dispatched_of_some here, Multiset.mem_add, Multiset.mem_singleton]
  by_cases isAbroad : inst ∈ ledger.abroad
  · -- the accesses that are abroad will release the registers
    rw [Ledger.depart, if_pos isAbroad]
    have present : inst ∈ (ledger.vacate inst).places :=
      mem_places.mpr (Or.inr (Or.inr (Or.inr isAbroad)))
    refine ⟨?registered, placed, ?counted, in_pipeline, inactive⟩
    case registered =>
      apply sound.registered.congr
      intro other
      rw [placesBefore, Multiset.mem_cons]
      exact (or_iff_right_of_imp fun same => same ▸ present).symm
    case counted =>
      apply sound.counted.congr
      · intro other _
        rw [runs, ran]
        exact and_congr_left fun _ => (or_iff_right_of_imp fun same => same ▸ isAbroad).symm
      · intro other _ _
        exact outstandingNow other
  · rw [Ledger.depart, if_neg isAbroad]
    have gone : inst ∉ (ledger.vacate inst).places := by
      rw [places, Multiset.mem_add]
      exact not_or_intro notHeld isAbroad
    apply sound.release_last placesBefore gone rfl rfl rfl rfl placed in_pipeline inactive
    · intro other
      rw [runs, ran]
      constructor
      · rintro ⟨stays, otherSpace⟩
        exact ⟨⟨Or.inr stays, otherSpace⟩, fun same => isAbroad (same ▸ stays)⟩
      · rintro ⟨⟨same | stays, otherSpace⟩, different⟩
        · exact absurd same different
        · exact ⟨stays, otherSpace⟩
    · exact fun other _ => outstandingNow other

theorem places_comeHome (isAbroad : inst ∈ ledger.abroad) :
    ledger.places = inst ::ₘ (ledger.comeHome inst).places := by
  show _ = inst ::ₘ (ledger.held + ledger.abroad.erase inst)
  rw [← Multiset.add_cons, Multiset.cons_erase isAbroad]
  rfl

theorem outstanding_eq_comeHome (isAbroad : inst ∈ ledger.abroad) :
    ledger.outstanding inst = (ledger.comeHome inst).outstanding inst + 1 := by
  have here := Multiset.one_le_count_iff_mem.mpr isAbroad
  show _ + ledger.abroad.count inst = _ + (ledger.abroad.erase inst).count inst + 1
  rw [Multiset.count_erase_self, Nat.add_assoc, Nat.sub_add_cancel here]
  rfl

theorem Sound.notShared_of_stays (sound : Sound base ledger) (isAbroad : inst ∈ ledger.abroad)
    (stays : inst ∈ (ledger.comeHome inst).places) : inst.space ≠ .shared_space := by
  intro isShared
  have once := sound.placed.shared_once inst isShared
  have twice := Multiset.one_le_count_iff_mem.mpr stays
  rw [places_comeHome isAbroad, Multiset.count_cons_self] at once
  omega

theorem outstanding_comeHome (sound : Sound base ledger) (settled : Settled ledger)
    (isAbroad : inst ∈ ledger.abroad) (notShared : inst.space ≠ .shared_space) :
    inst ∈ (ledger.comeHome inst).places ↔ (ledger.comeHome inst).outstanding inst ≠ 0 := by
  have notWaiting : inst ∉ ledger.collector := fun waits =>
    sound.placed.not_sent inst waits isAbroad
  have notPiped : inst ∉ ledger.pipeline := fun piped => notShared (sound.placed.piped inst piped)
  have places : inst ∈ (ledger.comeHome inst).places ↔
      inst ∈ ledger.dispatched ∨ 0 < (ledger.abroad.erase inst).count inst := by
    rw [mem_places, Multiset.count_pos]
    constructor
    · rintro (waits | here | piped | stays)
      · exact absurd waits notWaiting
      · exact Or.inl here
      · exact absurd piped notPiped
      · exact Or.inr stays
    · rintro (here | stays)
      · exact Or.inr (Or.inl here)
      · exact Or.inr (Or.inr (Or.inr stays))
  rw [places]
  cases inDispatch : ledger.dispatch with
  | none =>
    rw [dispatched_of_none inDispatch, @outstanding_of_none (ledger.comeHome inst) inDispatch]
    show _ ∨ _ ↔ (ledger.abroad.erase inst).count inst ≠ 0
    simp only [Multiset.notMem_zero, false_or]
    exact Nat.pos_iff_ne_zero
  | some entry =>
    obtain ⟨other, m_accessq⟩ := entry
    rw [dispatched_of_some inDispatch,
      @outstanding_of_some (ledger.comeHome inst) other m_accessq inDispatch, Multiset.mem_singleton]
    show _ ∨ _ ↔ _ + (ledger.abroad.erase inst).count inst ≠ 0
    by_cases same : other = inst
    · subst same
      have left : m_accessq ≠ 0 := by
        rintro rfl
        exact settled.all_sent other inDispatch isAbroad
      rw [if_pos rfl]
      simp only [true_or, true_iff]
      omega
    · rw [if_neg same, Nat.zero_add, or_iff_right (Ne.symm same)]
      exact Nat.pos_iff_ne_zero

theorem Sound.writeBack (sound : Sound base ledger) (isAbroad : inst ∈ ledger.abroad) :
    Sound base (ledger.writeBack inst) := by
  have abroadBefore : ledger.abroad = inst ::ₘ ledger.abroad.erase inst :=
    (Multiset.cons_erase isAbroad).symm
  have placesBefore := places_comeHome isAbroad
  have placed : Placed (ledger.comeHome inst) :=
    sound.placed.of_cons (fun _ => le_rfl) placesBefore rfl
      (fun _ stays => Multiset.mem_of_mem_erase stays) rfl
  have others (other : Load) (different : other ≠ inst) :
      (ledger.comeHome inst).outstanding other = ledger.outstanding other := by
    show _ + (ledger.abroad.erase inst).count other = _
    rw [Multiset.count_erase_of_ne different]
    rfl
  have ran (other : Load) : ledger.Running other ↔
      (ledger.comeHome inst).Running other ∨ other = inst ∧ inst.space ≠ .shared_space := by
    rw [Running, abroadBefore, Multiset.add_cons, Multiset.mem_cons, or_and_right, or_comm]
    apply or_congr_right
    constructor
    · rintro ⟨rfl, notShared⟩
      exact ⟨rfl, notShared⟩
    · rintro ⟨rfl, notShared⟩
      exact ⟨rfl, notShared⟩
  by_cases stays : inst ∈ (ledger.comeHome inst).places
  · rw [Ledger.writeBack, if_pos stays]
    have notShared := sound.notShared_of_stays isAbroad stays
    have running : (ledger.comeHome inst).Running inst := by
      refine ⟨Multiset.mem_add.mpr ?_, notShared⟩
      rcases mem_places.mp stays with waits | here | piped | isAbroad'
      · exact absurd isAbroad (sound.placed.not_sent inst waits)
      · exact Or.inl here
      · exact absurd (sound.placed.piped inst piped) notShared
      · exact Or.inr isAbroad'
    have registered : Registered (· ∈ (ledger.comeHome inst).places) ledger.issued ledger.reserved
        ledger.released := by
      apply sound.registered.congr
      intro other
      rw [placesBefore, Multiset.mem_cons]
      exact (or_iff_right_of_imp fun same => same ▸ stays).symm
    refine ⟨registered, ⟨placed.held_once, placed.not_sent, placed.piped, placed.shared_once⟩,
      ?counted, sound.in_pipeline, sound.inactive⟩
    case counted =>
      apply sound.counted.set registered.apart_running
      · intro other
        show (ledger.comeHome inst).Running other ↔ _
        rw [ran]
        constructor
        · exact fun now => Or.inl (Or.inl now)
        · rintro ((now | ⟨same, _⟩) | same)
          · exact now
          · exact same ▸ running
          · exact same ▸ running
      · exact others
      · rfl
  · rw [Ledger.writeBack, if_neg stays]
    apply sound.release_last placesBefore stays rfl rfl rfl rfl placed sound.in_pipeline
      sound.inactive
    · intro other
      rw [ran]
      have notRunning : ¬ (ledger.comeHome inst).Running inst := fun running =>
        stays (mem_places_of_running running)
      constructor
      · intro running
        exact ⟨Or.inl running, fun same => notRunning (same ▸ running)⟩
      · rintro ⟨running | ⟨same, _⟩, different⟩
        · exact running
        · exact absurd same different
    · exact others

/-! ## Between the cycles -/

theorem Sound.settled (sound : Sound base ledger)
    (left : ∀ inst m_accessq, ledger.dispatch = some (inst, m_accessq) →
      inst.space ≠ .shared_space → m_accessq ≠ 0) : Settled ledger := by
  constructor
  case all_sent =>
    intro other here isAbroad
    by_cases isShared : other.space = .shared_space
    · have once := sound.placed.shared_once other isShared
      have twice := Multiset.one_le_count_iff_mem.mpr isAbroad
      rw [count_places, count_held, dispatched_of_some here, Multiset.count_singleton_self] at once
      omega
    · exact left other 0 here isShared rfl
  case active =>
    intro other m_accessq here _ isMemory
    apply left other m_accessq here
    intro isShared
    rcases isMemory with isGlobal | isLocal | isParam
    · exact absurd (isShared.symm.trans isGlobal) (by decide)
    · exact absurd (isShared.symm.trans isLocal) (by decide)
    · exact absurd (isShared.symm.trans isParam) (by decide)

theorem Settled.enter (sound : Sound base ledger) (waits : inst ∈ ledger.collector) :
    Settled (ledger.enter inst) := by
  constructor
  case all_sent =>
    intro other here
    obtain ⟨rfl, _⟩ := Prod.mk.inj (Option.some.inj here)
    exact sound.placed.not_sent inst waits
  case active =>
    intro other m_accessq here isActive isMemory
    obtain ⟨rfl, rfl⟩ := Prod.mk.inj (Option.some.inj here)
    exact inst.active isActive isMemory

theorem Settled.writeBack (settled : Settled ledger) : Settled (ledger.writeBack inst) := by
  have dispatch : (ledger.writeBack inst).dispatch = ledger.dispatch := by
    rw [Ledger.writeBack]
    split <;> rfl
  have abroad : (ledger.writeBack inst).abroad = ledger.abroad.erase inst := by
    rw [Ledger.writeBack]
    split <;> rfl
  constructor
  case all_sent =>
    intro other here isAbroad
    rw [dispatch] at here
    rw [abroad] at isAbroad
    exact settled.all_sent other here (Multiset.mem_of_mem_erase isAbroad)
  case active =>
    rw [dispatch]
    exact settled.active

theorem Settled.drain (sound : Sound base ledger) (settled : Settled ledger)
    (isPiped : inst ∈ ledger.pipeline) : Settled (ledger.drain inst) := by
  constructor
  case all_sent =>
    intro other here isAbroad
    cases Multiset.mem_cons.mp isAbroad with
    | inl same =>
      subst same
      have once := sound.placed.held_once other
      have twice := Multiset.one_le_count_iff_mem.mpr isPiped
      have inDispatch : ledger.dispatch = some (other, 0) := here
      rw [count_held, dispatched_of_some inDispatch, Multiset.count_singleton_self] at once
      omega
    | inr before => exact settled.all_sent other here before
  case active => exact settled.active

end Ledger

end AesOnGpu.LoadStore
