import Mathlib.Data.List.Basic
import Mathlib.Tactic.Common

/-!
# Slices and loops that may panic

An index or a range outside its slice panics, and so does a sum that overflows. `Checked` is a
computation with these operations: its result, or the panic that ended it.

A `Loop` is given by one turn, which leaves the loop or goes round again with a new state. It comes
with a size that every turn makes smaller, so it can be run. If the turns do not panic either and
keep the value of a function, the loop ends with that value, after at most as many rounds as the
size of the state it starts with.
-/

namespace Slices

inductive Panic where
  | index
  | range
  | overflow
  deriving DecidableEq

abbrev Checked (α : Type) := Except Panic α

variable {α β σ : Type}

@[simp] theorem pure_eq (a : α) : (pure a : Checked α) = .ok a := rfl

@[simp] theorem ok_bind (a : α) (f : α → Checked β) : (.ok a >>= f) = f a := rfl

@[simp] theorem map_ok (a : α) (f : α → β) : (f <$> .ok a : Checked β) = .ok (f a) := rfl

/-! ## Operations -/

/-- `s[i]` -/
def index (s : List α) (i : Nat) : Checked α :=
  match s[i]? with
  | some a => .ok a
  | none => .error .index

/-- `&s[start..stop]` -/
def range (s : List α) (start stop : Nat) : Checked (List α) :=
  if start ≤ stop ∧ stop ≤ s.length then .ok ((s.take stop).drop start) else .error .range

/-- `&s[start..]` -/
def rangeFrom (s : List α) (start : Nat) : Checked (List α) :=
  if start ≤ s.length then .ok (s.drop start) else .error .range

/-- `a + b` in a `usize` of 32 bits; a wider one overflows later. -/
def add (a b : Nat) : Checked Nat :=
  if a + b < UInt32.size then .ok (a + b) else .error .overflow

section Operations

variable {s : List α} {a : α} {i start stop : Nat}

@[simp] theorem index_zero : index (a :: s) 0 = .ok a := rfl

@[simp] theorem index_succ : index (a :: s) (i + 1) = index s i := rfl

/-- A range behind the elements in front is a range of the rest. -/
@[simp] theorem range_succ : range (a :: s) (start + 1) (stop + 1) = range s start stop := by
  simp [range]

@[simp] theorem rangeFrom_succ : rangeFrom (a :: s) (start + 1) = rangeFrom s start := by
  simp [rangeFrom]

theorem range_zero (h : stop ≤ s.length) : range s 0 stop = .ok (s.take stop) := by
  simp [range, h]

theorem rangeFrom_of_le (h : start ≤ s.length) : rangeFrom s start = .ok (s.drop start) := if_pos h

theorem add_of_lt {a b : Nat} (h : a + b < 4294967296) : add a b = .ok (a + b) := if_pos h

end Operations

/-! ## Loops -/

/-- How a turn of a loop ends. -/
inductive Turn (σ β : Type) where
  | leave (b : β)
  | again (s : σ)

/-- What comes of a turn if `f` is the result of the loop. -/
def Turn.result (f : σ → β) : Turn σ β → β
  | leave b => b
  | again s => f s

/-- A turn from `s` does not panic, `f` has the same value after it, and the state is smaller. -/
def Advances (turn : σ → Checked (Turn σ β)) (size : σ → Nat) (f : σ → β) (s : σ) : Prop :=
  ∃ t, turn s = .ok t ∧ t.result f = f s ∧ ∀ s', t = .again s' → size s' < size s

theorem Advances.shorter {turn : σ → Checked (Turn σ β)} {size : σ → Nat} {f : σ → β} {s s' : σ}
    (h : Advances turn size f s) (hs : turn s = .ok (.again s')) : size s' < size s := by
  obtain ⟨t, ht, _, hshorter⟩ := h
  exact hshorter s' (Except.ok.inj (ht.symm.trans hs))

structure Loop (σ β : Type) where
  turn : σ → Checked (Turn σ β)
  size : σ → Nat
  shorter : ∀ {s s'}, turn s = .ok (.again s') → size s' < size s

namespace Loop

def run (self : Loop σ β) (s : σ) : Checked β :=
  match _h : self.turn s with
  | .error p => .error p
  | .ok (.leave b) => .ok b
  | .ok (.again s') => self.run s'
termination_by self.size s
decreasing_by exact self.shorter _h

/-- The loop is left with this result after going round `n` times. -/
inductive Rounds (self : Loop σ β) : Nat → σ → β → Prop where
  | leave {s b} : self.turn s = .ok (.leave b) → Rounds self 0 s b
  | again {s s' n b} : self.turn s = .ok (.again s') → Rounds self n s' b → Rounds self (n + 1) s b

variable {s : σ} {b : β} {f : σ → β}

/-- A loop whose turns all advance ends with the value of `f` it started with. -/
theorem rounds_of_advances (self : Loop σ β) (h : ∀ s, Advances self.turn self.size f s) (s : σ) :
    ∃ n ≤ self.size s, self.Rounds n s (f s) := by
  induction s using Loop.run.induct self with
  | case1 s p hpanic =>
    obtain ⟨t, ht, _⟩ := h s
    cases hpanic.symm.trans ht
  | case2 s b hleave =>
    obtain ⟨t, ht, hf, _⟩ := h s
    cases hleave.symm.trans ht
    have hb : b = f s := hf
    exact ⟨0, Nat.zero_le _, hb ▸ .leave hleave⟩
  | case3 s s' hagain ih =>
    obtain ⟨t, ht, hf, hshorter⟩ := h s
    cases hagain.symm.trans ht
    have hs' : f s' = f s := hf
    have hlt := hshorter s' rfl
    obtain ⟨n, hn, hrounds⟩ := ih
    exact ⟨n + 1, by omega, .again hagain (hs' ▸ hrounds)⟩

variable {self : Loop σ β}

theorem run_of_leave (h : self.turn s = .ok (.leave b)) : self.run s = .ok b := by
  rw [Loop.run]
  split <;> simp_all

theorem run_of_again {s' : σ} (h : self.turn s = .ok (.again s')) : self.run s = self.run s' := by
  rw [Loop.run]
  split <;> simp_all

theorem Rounds.run {n : Nat} (h : self.Rounds n s b) : self.run s = .ok b := by
  induction h with
  | leave ht => exact run_of_leave ht
  | again ht _ ih => exact (run_of_again ht).trans ih

end Loop

end Slices
