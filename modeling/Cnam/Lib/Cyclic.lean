/-
  Cyclic buffers: the cells of a ring of a given size, read and written from any
  position on, whatever the number of turns. Positions are not reduced: the cell of a
  position is its remainder.
-/
import Mathlib.Data.Nat.ModEq
import Mathlib.Logic.Function.Basic
import Mathlib.Tactic.Common

namespace Cyclic

universe u
variable {α : Type u} {size : ℕ}

/-- The `n` cells from `pos` on. -/
def read (size : ℕ) (buf : ℕ → α) : ℕ → ℕ → List α
  | _, 0 => []
  | pos, n + 1 => buf (pos % size) :: read size buf (pos + 1) n

/-- The buffer with `src` in the cells from `pos` on. -/
def write (size : ℕ) (buf : ℕ → α) : ℕ → List α → ℕ → α
  | _, [] => buf
  | pos, a :: src => write size (Function.update buf (pos % size) a) (pos + 1) src

@[simp] theorem length_read (buf : ℕ → α) (pos n : ℕ) : (read size buf pos n).length = n := by
  induction n generalizing pos with
  | zero => rfl
  | succ n ih => simp [read, ih]

/-- Two positions less than a turn apart are different cells. -/
theorem mod_ne {a b : ℕ} (hab : a < b) (hturn : b < a + size) : a % size ≠ b % size := by
  intro h
  have hdvd : size ∣ b - a := (Nat.modEq_iff_dvd' hab.le).1 h
  have := Nat.le_of_dvd (by omega) hdvd
  omega

/-- Cells are read up to whole turns. -/
theorem read_congr (buf : ℕ → α) {p q : ℕ} (h : p % size = q % size) (n : ℕ) :
    read size buf p n = read size buf q n := by
  induction n generalizing p q with
  | zero => rfl
  | succ n ih =>
    have hnext : (p + 1) % size = (q + 1) % size := by
      rw [Nat.add_mod p, Nat.add_mod q, h]
    rw [read, read, h, ih hnext]

theorem read_mod (buf : ℕ → α) (p n : ℕ) : read size buf (p % size) n = read size buf p n :=
  read_congr buf (Nat.mod_mod p size) n

/-- Cells are written up to whole turns. -/
theorem write_congr (src : List α) {buf : ℕ → α} {p q : ℕ} (h : p % size = q % size) :
    write size buf p src = write size buf q src := by
  induction src generalizing buf p q with
  | nil => rfl
  | cons a src ih =>
    have hnext : (p + 1) % size = (q + 1) % size := by
      rw [Nat.add_mod p, Nat.add_mod q, h]
    rw [write, write, h, ih hnext]

theorem read_append (buf : ℕ → α) (pos m n : ℕ) :
    read size buf pos (m + n) = read size buf pos m ++ read size buf (pos + m) n := by
  induction m generalizing pos with
  | zero => simp [read]
  | succ m ih =>
    have hcons : m + 1 + n = m + n + 1 := by omega
    rw [hcons, read, read, ih, List.cons_append, Nat.add_assoc pos 1 m, Nat.add_comm 1 m]

theorem write_append (buf : ℕ → α) (pos : ℕ) (src rest : List α) :
    write size buf pos (src ++ rest) =
      write size (write size buf pos src) (pos + src.length) rest := by
  induction src generalizing buf pos with
  | nil => rfl
  | cons a src ih =>
    rw [List.cons_append, write, ih, write, List.length_cons, Nat.add_assoc,
      Nat.add_comm 1 src.length]

/-- **Frame.** A cell that no written position falls on keeps its content. -/
theorem write_frame (src : List α) {buf : ℕ → α} {pos k : ℕ}
    (hk : ∀ i < src.length, (pos + i) % size ≠ k) : write size buf pos src k = buf k := by
  induction src generalizing buf pos with
  | nil => rfl
  | cons a src ih =>
    rw [write, ih]
    · exact Function.update_of_ne (Ne.symm (hk 0 (by simp))) a buf
    · intro i hi
      have := hk (i + 1) (by simpa using hi)
      rwa [Nat.add_assoc, Nat.add_comm 1 i]

/-- Two buffers alike on the cells read give the same reading. -/
theorem read_eq_of {buf buf' : ℕ → α} {pos n : ℕ}
    (h : ∀ i < n, buf ((pos + i) % size) = buf' ((pos + i) % size)) :
    read size buf pos n = read size buf' pos n := by
  induction n generalizing pos with
  | zero => rfl
  | succ n ih =>
    have h0 : buf (pos % size) = buf' (pos % size) := h 0 (by omega)
    rw [read, read, h0, ih]
    intro i hi
    have := h (i + 1) (by omega)
    rwa [Nat.add_assoc, Nat.add_comm 1 i]

/-- What lies ahead of the written positions, within the turn that ends with them, is kept. -/
theorem read_write_disjoint {buf : ℕ → α} {a n b : ℕ} {src : List α} (hle : a + n ≤ b)
    (hturn : b + src.length ≤ a + size) :
    read size (write size buf b src) a n = read size buf a n := by
  refine read_eq_of fun i hi => write_frame src fun j hj => ?_
  exact Ne.symm (mod_ne (by omega) (by omega))

/-- **Read back.** What was written, of a turn at most, is read from where it was written. -/
theorem read_write_self (buf : ℕ → α) (pos : ℕ) {src : List α} (hsrc : src.length ≤ size) :
    read size (write size buf pos src) pos src.length = src := by
  induction src generalizing buf pos with
  | nil => rfl
  | cons a src ih =>
    rw [List.length_cons] at hsrc
    rw [List.length_cons, read, write, ih _ _ (by omega)]
    have hkept :
        write size (Function.update buf (pos % size) a) (pos + 1) src (pos % size) = a := by
      rw [write_frame src, Function.update_self]
      intro i hi
      exact Ne.symm (mod_ne (by omega) (by omega))
    rw [hkept]

/-- Nothing outside the ring is written. -/
theorem write_outside (hsize : 0 < size) (buf : ℕ → α) (pos : ℕ) (src : List α) {k : ℕ}
    (hk : size ≤ k) : write size buf pos src k = buf k := by
  refine write_frame src fun i _ => ?_
  have := Nat.mod_lt (pos + i) hsize
  omega

/-! The same through plain copies, in one piece or in two. -/

/-- `n` cells from `pos` on, without a turn. -/
def slice (buf : ℕ → α) (pos n : ℕ) : List α := (List.range n).map fun i => buf (pos + i)

/-- The buffer with `src` in the cells from `pos` on, without a turn. -/
def blit (buf : ℕ → α) (pos : ℕ) (src : List α) : ℕ → α := fun k =>
  if pos ≤ k then (src[k - pos]?).getD (buf k) else buf k

@[simp] theorem length_slice (buf : ℕ → α) (pos n : ℕ) : (slice buf pos n).length = n := by
  simp [slice]

theorem slice_succ (buf : ℕ → α) (pos n : ℕ) :
    slice buf pos (n + 1) = buf pos :: slice buf (pos + 1) n := by
  simp [slice, List.range_succ_eq_map, Function.comp_def, Nat.add_assoc, Nat.add_comm 1]

theorem blit_cons (buf : ℕ → α) (pos : ℕ) (a : α) (src : List α) :
    blit buf pos (a :: src) = blit (Function.update buf pos a) (pos + 1) src := by
  ext k
  rcases Nat.lt_trichotomy k pos with hk | rfl | hk
  · have h1 : ¬ pos ≤ k := by omega
    have h2 : ¬ pos + 1 ≤ k := by omega
    simp [blit, h1, h2, Function.update_of_ne hk.ne]
  · simp [blit]
  · have h1 : k - pos = k - (pos + 1) + 1 := by omega
    simp [blit, hk.le, Nat.succ_le_of_lt hk, h1, Function.update_of_ne hk.ne']

/-- Short of a turn, reading needs no reduction. -/
theorem read_slice (buf : ℕ → α) {pos n : ℕ} (h : pos + n ≤ size) :
    read size buf pos n = slice buf pos n := by
  induction n generalizing pos with
  | zero => rfl
  | succ n ih => rw [read, slice_succ, Nat.mod_eq_of_lt (by omega), ih (by omega)]

/-- Short of a turn, writing needs no reduction. -/
theorem write_blit (src : List α) {buf : ℕ → α} {pos : ℕ} (h : pos + src.length ≤ size) :
    write size buf pos src = blit buf pos src := by
  induction src generalizing buf pos with
  | nil => ext k; simp [write, blit]
  | cons a src ih =>
    rw [List.length_cons] at h
    rw [write, blit_cons, Nat.mod_eq_of_lt (by omega), ih (by omega)]

/-- A reading over the end of the buffer is two slices. -/
theorem read_split (buf : ℕ → α) {pos n : ℕ} (hpos : pos ≤ size) (hover : size ≤ pos + n)
    (hturn : n ≤ size) :
    read size buf pos n = slice buf pos (size - pos) ++ slice buf 0 (n + pos - size) := by
  have hn : n = (size - pos) + (n + pos - size) := by omega
  conv_lhs => rw [hn, read_append]
  have hback : (pos + (size - pos)) % size = 0 % size := by
    rw [Nat.add_sub_cancel' hpos, Nat.mod_self, Nat.zero_mod]
  rw [read_slice buf (by omega), read_congr buf hback, read_slice buf (by omega)]

/-- A writing over the end of the buffer is two copies. -/
theorem write_split (buf : ℕ → α) {pos : ℕ} {src : List α} (hpos : pos ≤ size)
    (hover : size ≤ pos + src.length) (hturn : src.length ≤ size) :
    write size buf pos src =
      blit (blit buf pos (src.take (size - pos))) 0 (src.drop (size - pos)) := by
  have hlen : (src.take (size - pos)).length = size - pos := by
    rw [List.length_take]; omega
  have hrest : 0 + (src.drop (size - pos)).length ≤ size := by
    rw [List.length_drop]; omega
  conv_lhs => rw [← List.take_append_drop (size - pos) src, write_append, hlen]
  have hback : (pos + (size - pos)) % size = 0 % size := by
    rw [Nat.add_sub_cancel' hpos, Nat.mod_self, Nat.zero_mod]
  rw [write_congr _ hback, write_blit _ hrest, write_blit _ (by omega)]

end Cyclic
