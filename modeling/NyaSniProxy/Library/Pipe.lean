import Mathlib.Data.List.Basic
import Mathlib.Tactic.Common

/-!
# Bounded pipes

A `Pipe` is a FIFO of finite capacity that its writer may close. Its content fits by construction,
so only as much can be pushed as there is free space.
-/

structure Pipe (α : Type*) where
  cap : Nat
  buf : List α
  closed : Bool
  fits : buf.length ≤ cap

namespace Pipe

variable {α : Type*} (p : Pipe α) (n : Nat) {xs : List α}

def free : Nat := p.cap - p.buf.length

def push (xs : List α) (h : xs.length ≤ p.free) : Pipe α where
  cap := p.cap
  buf := p.buf ++ xs
  closed := p.closed
  fits := by
    have hfits := p.fits
    rw [List.length_append]
    unfold free at h
    omega

def pop : Pipe α where
  cap := p.cap
  buf := p.buf.drop n
  closed := p.closed
  fits := by
    have hfits := p.fits
    rw [List.length_drop]
    omega

def close : Pipe α := { p with closed := true }

@[simp] theorem buf_push (h : xs.length ≤ p.free) : (p.push xs h).buf = p.buf ++ xs := rfl
@[simp] theorem closed_push (h : xs.length ≤ p.free) : (p.push xs h).closed = p.closed := rfl
@[simp] theorem buf_pop : (p.pop n).buf = p.buf.drop n := rfl
@[simp] theorem closed_pop : (p.pop n).closed = p.closed := rfl
@[simp] theorem buf_close : p.close.buf = p.buf := rfl
@[simp] theorem closed_close : p.close.closed = true := rfl
@[simp] theorem free_close : p.close.free = p.free := rfl

@[simp] theorem free_push (h : xs.length ≤ p.free) : (p.push xs h).free = p.free - xs.length := by
  simp [free, push]
  omega

theorem free_le_pop : p.free ≤ (p.pop n).free := by
  simp [free, pop]
  omega

end Pipe
