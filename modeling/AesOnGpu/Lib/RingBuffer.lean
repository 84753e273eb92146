import Mathlib

/-! # Ring buffers

A queue of bounded length in an array: the oldest entry is at `tail`, and the next one
goes to `head`.  Slots are reused, but the slot of an entry does not change while the
entry is in the queue.
-/

universe u

structure RingBuffer (α : Type u) where
  size : Nat
  head : Nat
  tail : Nat
  num : Nat
  data : Nat → α
  num_le : num ≤ size
  head_eq : head = (tail + num) % size
  tail_lt : 0 < size → tail < size

namespace RingBuffer

variable {α : Type u}

def new (size : Nat) (data : Nat → α) : RingBuffer α where
  size
  head := 0
  tail := 0
  num := 0
  data
  num_le := Nat.zero_le size
  head_eq := (Nat.zero_mod size).symm
  tail_lt := id

def full (buffer : RingBuffer α) : Bool := buffer.num = buffer.size

def empty (buffer : RingBuffer α) : Bool := buffer.num = 0

/-- The entry is put in the slot at `head`. -/
def put (buffer : RingBuffer α) (e : α) (room : buffer.num ≠ buffer.size) : RingBuffer α :=
  { buffer with
    data := Function.update buffer.data buffer.head e
    head := (buffer.head + 1) % buffer.size
    num := buffer.num + 1
    num_le := Nat.lt_of_le_of_ne buffer.num_le room
    head_eq := by rw [buffer.head_eq, Nat.mod_add_mod, Nat.add_assoc] }

/-- The slot at `tail` is given up. -/
def drop (buffer : RingBuffer α) (nonempty : buffer.num ≠ 0) : RingBuffer α :=
  { buffer with
    tail := (buffer.tail + 1) % buffer.size
    num := buffer.num - 1
    num_le := Nat.le_trans (Nat.sub_le ..) buffer.num_le
    head_eq := by
      rw [buffer.head_eq, Nat.mod_add_mod, Nat.add_assoc, Nat.add_comm 1,
        Nat.sub_add_cancel (Nat.pos_of_ne_zero nonempty)]
    tail_lt := fun positive => Nat.mod_lt _ positive }

/-- Also returns the index of the slot; `none` if the buffer is full. -/
def push (buffer : RingBuffer α) (e : α) : Option (RingBuffer α × Nat) :=
  if room : buffer.num = buffer.size then none else some (buffer.put e room, buffer.head)

def pop (buffer : RingBuffer α) : Option (RingBuffer α × α) :=
  if nonempty : buffer.num = 0 then none
  else some (buffer.drop nonempty, buffer.data buffer.tail)

/-- The oldest entry. -/
def peek (buffer : RingBuffer α) : α := buffer.data buffer.tail

/-- The entry in a slot. -/
def peekAt (buffer : RingBuffer α) (index : Nat) : Option α :=
  if index < buffer.size then some (buffer.data index) else none

def modify (buffer : RingBuffer α) (index : Nat) (e : α) : RingBuffer α :=
  { buffer with data := Function.update buffer.data index e }

/-! ## Slots and contents -/

/-- The slot of the entry with `n` older ones. -/
def slot (buffer : RingBuffer α) (n : Nat) : Nat := (buffer.tail + n) % buffer.size

/-- The entries, the oldest first. -/
def contents (buffer : RingBuffer α) : List α :=
  (List.range buffer.num).map fun n => buffer.data (buffer.slot n)

variable {buffer : RingBuffer α}

@[simp] theorem length_contents : buffer.contents.length = buffer.num := by simp [contents]

@[simp] theorem contents_new (size : Nat) (data : Nat → α) : (new size data).contents = [] := rfl

theorem getElem?_contents {n : Nat} (below : n < buffer.num) :
    buffer.contents[n]? = some (buffer.data (buffer.slot n)) := by
  simp [contents, below]

theorem slot_inj {m n : Nat} (hm : m < buffer.size) (hn : n < buffer.size) :
    buffer.slot m = buffer.slot n ↔ m = n := by
  refine ⟨fun same => ?_, fun same => by rw [same]⟩
  have congruent : m ≡ n [MOD buffer.size] := Nat.ModEq.add_left_cancel' buffer.tail same
  exact Nat.ModEq.eq_of_lt_of_lt congruent hm hn

theorem slot_lt (positive : 0 < buffer.size) (n : Nat) : buffer.slot n < buffer.size :=
  Nat.mod_lt _ positive

theorem empty_iff : buffer.empty = true ↔ buffer.contents = [] := by
  rw [empty, decide_eq_true_iff, ← List.length_eq_zero_iff, length_contents]

theorem not_full_iff : buffer.full = false ↔ buffer.num < buffer.size := by
  have bound := buffer.num_le
  rw [full, decide_eq_false_iff_not]
  omega

/-! ## What the operations do -/

theorem push_spec (room : buffer.full = false) (e : α) :
    ∃ pushed, buffer.push e = some (pushed, buffer.slot buffer.num) ∧
      pushed.contents = buffer.contents ++ [e] ∧ pushed.size = buffer.size ∧
      ∀ n, pushed.slot n = buffer.slot n := by
  have below := not_full_iff.mp room
  have head : buffer.head = buffer.slot buffer.num := buffer.head_eq
  have room : buffer.num ≠ buffer.size := by omega
  rw [push, dif_neg room]
  refine ⟨buffer.put e room, by rw [← head], ?_, rfl, fun n => rfl⟩
  rw [contents, show (buffer.put e room).num = buffer.num + 1 from rfl, List.range_succ,
    List.map_append]
  -- the slot that is written holds none of the entries
  congr 1
  · apply List.map_congr_left
    intro n member
    have older := List.mem_range.mp member
    have apart : buffer.slot n ≠ buffer.head := by
      rw [head]
      intro same
      have := (slot_inj (by omega) (by omega)).mp same
      omega
    exact Function.update_of_ne apart _ _
  · rw [List.map_singleton]
    have last : Function.update buffer.data buffer.head e (buffer.slot buffer.num) = e := by
      rw [← head, Function.update_self]
    exact congrArg (fun entry => [entry]) last

theorem pop_spec {e : α} {rest : List α} (holds : buffer.contents = e :: rest) :
    ∃ popped, buffer.pop = some (popped, e) ∧ popped.contents = rest ∧
      popped.size = buffer.size ∧ ∀ n, popped.slot n = buffer.slot (n + 1) := by
  have count : buffer.num = rest.length + 1 := by rw [← length_contents, holds, List.length_cons]
  have bound := buffer.num_le
  have first : buffer.data buffer.tail = e := by
    have entry := @getElem?_contents _ buffer 0 (by omega)
    rw [holds, slot, Nat.add_zero, Nat.mod_eq_of_lt (buffer.tail_lt (by omega))] at entry
    exact (Option.some.inj entry).symm
  have nonempty : buffer.num ≠ 0 := by omega
  have shift (n : Nat) : (buffer.drop nonempty).slot n = buffer.slot (n + 1) := by
    rw [slot, slot, show (buffer.drop nonempty).tail = (buffer.tail + 1) % buffer.size from rfl,
      show (buffer.drop nonempty).size = buffer.size from rfl, Nat.mod_add_mod, Nat.add_assoc,
      Nat.add_comm 1]
  rw [pop, dif_neg nonempty]
  refine ⟨buffer.drop nonempty, by rw [first], ?_, rfl, shift⟩
  have fewer : (buffer.drop nonempty).num = rest.length := by
    rw [show (buffer.drop nonempty).num = buffer.num - 1 from rfl, count, Nat.add_sub_cancel]
  rw [contents, count, List.range_succ_eq_map, List.map_cons, List.map_map] at holds
  rw [contents, ← (List.cons.inj holds).2, fewer]
  exact List.map_congr_left fun n _ => congrArg buffer.data (shift n)

theorem peek_spec {e : α} {rest : List α} (holds : buffer.contents = e :: rest) :
    buffer.peek = e := by
  obtain ⟨popped, pop, -⟩ := pop_spec holds
  rw [RingBuffer.pop] at pop
  split at pop
  · cases pop
  · exact (Prod.mk.inj (Option.some.inj pop)).2

theorem peekAt_slot {n : Nat} {e : α} (holds : buffer.contents[n]? = some e) :
    buffer.peekAt (buffer.slot n) = some e := by
  have below : n < buffer.num := by
    rw [← length_contents]
    exact (List.getElem?_eq_some_iff.mp holds).1
  have bound := buffer.num_le
  rw [peekAt, if_pos (slot_lt (by omega) n), ← holds, getElem?_contents below]

theorem peekAt_tail {e : α} {rest : List α} (holds : buffer.contents = e :: rest) :
    buffer.peekAt buffer.tail = some e := by
  have count : buffer.num = rest.length + 1 := by rw [← length_contents, holds, List.length_cons]
  have bound := buffer.num_le
  have first : buffer.slot 0 = buffer.tail := Nat.mod_eq_of_lt (buffer.tail_lt (by omega))
  rw [← first]
  exact peekAt_slot (by rw [holds, List.getElem?_cons_zero])

theorem modify_spec {n : Nat} (below : n < buffer.num) (e : α) :
    (buffer.modify (buffer.slot n) e).contents = buffer.contents.set n e := by
  have bound := buffer.num_le
  apply List.ext_getElem?
  intro m
  by_cases inside : m < buffer.num
  · rw [@getElem?_contents _ (buffer.modify (buffer.slot n) e) m inside, List.getElem?_set]
    split
    · rename_i same
      subst same
      simp [below, modify, slot]
    · rename_i other
      have apart : buffer.slot m ≠ buffer.slot n := by
        rw [Ne, slot_inj (by omega) (by omega)]
        exact fun same => other same.symm
      rw [getElem?_contents inside]
      exact congrArg some (Function.update_of_ne apart _ _)
  · rw [List.getElem?_eq_none, List.getElem?_eq_none]
    · simpa using Nat.le_of_not_lt inside
    · simpa [modify] using Nat.le_of_not_lt inside

@[simp] theorem slot_modify (index n : Nat) (e : α) :
    (buffer.modify index e).slot n = buffer.slot n := rfl

end RingBuffer
