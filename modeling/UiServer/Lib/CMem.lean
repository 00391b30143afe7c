import Mathlib.Algebra.Group.Int.Defs
import Mathlib.Algebra.Group.Nat.Defs
import Mathlib.Data.List.GetD
import Mathlib.Data.List.TakeWhile

/-!
# Byte memory, C strings and little endian words

A region of memory is a function from offsets to bytes. `store` writes a run
of bytes and `read` reads one; every C primitive that the programs over this
library use is one store of a list computed from its arguments, so a proof
only ever meets `store`. Bytes beyond a region's end are not refused: where a
program's bounds matter, they are a statement about the offsets.

A C string is the part of a list before its first zero byte.
-/

namespace CMem

abbrev Bytes := List UInt8

/-- A region of memory, by offset. -/
abbrev Mem := Nat → UInt8

def store (m : Mem) (p : Nat) (bs : Bytes) : Mem := fun i =>
  if p ≤ i ∧ i - p < bs.length then bs.getD (i - p) 0 else m i

/-- The `n` bytes from offset `p`. -/
def read (m : Mem) (p n : Nat) : Bytes := (List.range n).map fun i => m (p + i)

theorem store_lt {m : Mem} {p i : Nat} {bs : Bytes} (h : i < p) :
    store m p bs i = m i := by
  rw [store, if_neg (by omega)]

theorem store_ge {m : Mem} {p i : Nat} {bs : Bytes} (h : p + bs.length ≤ i) :
    store m p bs i = m i := by
  rw [store, if_neg (by omega)]

@[simp] theorem store_nil (m : Mem) (p : Nat) : store m p [] = m := by
  funext i
  rw [store, if_neg (by simp)]

theorem store_at {m : Mem} {p i : Nat} {bs : Bytes} (h : i < bs.length) :
    store m p bs (p + i) = bs[i] := by
  rw [store, if_pos (by omega), Nat.add_sub_cancel_left, List.getD_eq_getElem _ _ h]

@[simp] theorem length_read (m : Mem) (p n : Nat) : (read m p n).length = n := by
  simp [read]

theorem getElem_read {m : Mem} {p n i : Nat} (h : i < (read m p n).length) :
    (read m p n)[i] = m (p + i) := by
  simp [read]

theorem read_congr {m m' : Mem} {p n : Nat} (h : ∀ i < n, m (p + i) = m' (p + i)) :
    read m p n = read m' p n :=
  List.map_congr_left fun i hi => h i (List.mem_range.1 hi)

@[simp] theorem read_store (m : Mem) (p : Nat) (bs : Bytes) :
    read (store m p bs) p bs.length = bs := by
  apply List.ext_getElem (by simp)
  intro i _ h
  rw [getElem_read, store_at h]

theorem read_store_part {m : Mem} {p k n : Nat} {bs : Bytes}
    (h : k + n ≤ bs.length) :
    read (store m p bs) (p + k) n = (bs.drop k).take n := by
  apply List.ext_getElem
  · simp only [length_read, List.length_take, List.length_drop]
    omega
  · intro i h₁ _
    rw [length_read] at h₁
    rw [getElem_read, Nat.add_assoc, store_at (by omega), List.getElem_take,
      List.getElem_drop]

/-- A read that ends before the stored run sees the old bytes. -/
theorem read_store_before {m : Mem} {p q n : Nat} {bs : Bytes} (h : q + n ≤ p) :
    read (store m p bs) q n = read m q n :=
  read_congr fun i hi => store_lt (by omega)

theorem read_append (m : Mem) (p a b : Nat) :
    read m p (a + b) = read m p a ++ read m (p + a) b := by
  rw [read, List.range_add, List.map_append, List.map_map]
  refine congrArg₂ _ rfl (List.map_congr_left fun i _ => ?_)
  simp only [Function.comp, Nat.add_assoc]

theorem read_inj {m m' : Mem} {p n : Nat} (h : read m p n = read m' p n) :
    ∀ i < n, m (p + i) = m' (p + i) := by
  intro i hi
  have hget := List.getElem_of_eq h (i := i) (by rw [length_read]; exact hi)
  rwa [getElem_read, getElem_read] at hget

/-- Memories that agree up to `p` agree up to the end of what both are given
there. -/
theorem store_agree {m m' : Mem} {p : Nat} {bs : Bytes} (h : ∀ i < p, m' i = m i) :
    ∀ i < p + bs.length, store m' p bs i = store m p bs i := by
  intro i hi
  by_cases hlt : i < p
  · rw [store_lt hlt, store_lt hlt, h i hlt]
  · have hin : p ≤ i ∧ i - p < bs.length := by omega
    rw [store, store, if_pos hin, if_pos hin]

theorem read_store_congr {m m' : Mem} {p q n : Nat} {bs : Bytes}
    (h : read m q n = read m' q n) : read (store m p bs) q n = read (store m' p bs) q n := by
  refine read_congr fun i hi => ?_
  rw [store, store]
  split
  · rfl
  · exact read_inj h i hi

/-- What a region holds from `p` on when a text has been put there. -/
structure Held (before m : Mem) (p : Nat) (text : Bytes) : Prop where
  kept : ∀ i < p, m i = before i
  text : read m p text.length = text

theorem held_nil (m : Mem) (p : Nat) : Held m m p [] := ⟨fun _ _ => rfl, rfl⟩

theorem held_store (m : Mem) (p : Nat) (text : Bytes) : Held m (store m p text) p text :=
  ⟨fun _ hi => store_lt hi, read_store m p text⟩

theorem Held.append {before m m' : Mem} {p : Nat} {a b : Bytes} (ha : Held before m p a)
    (hb : Held m m' (p + a.length) b) : Held before m' p (a ++ b) := by
  have hfirst : read m' p a.length = a := by
    rw [read_congr fun i hi => hb.kept _ (Nat.add_lt_add_left hi p), ha.text]
  refine ⟨fun i hi => (hb.kept i (by omega)).trans (ha.kept i hi), ?_⟩
  rw [List.length_append, read_append, hfirst, hb.text]

/-- The beginning of what is held. -/
theorem Held.left {before m : Mem} {p : Nat} {a b : Bytes} (h : Held before m p (a ++ b)) :
    Held before m p a := by
  have hall := h.text
  rw [List.length_append, read_append] at hall
  exact ⟨h.kept, (List.append_inj hall (length_read ..)).1⟩

/-! ## Copying

A copy is defined only when its two ranges have no byte in common. -/

def NoOverlap (p q n : Nat) : Prop := ∀ i < n, ∀ j < n, p + i ≠ q + j

theorem noOverlap_iff {p q n : Nat} :
    NoOverlap p q n ↔ n = 0 ∨ p + n ≤ q ∨ q + n ≤ p := by
  constructor
  · intro h
    by_contra hnot
    -- the later beginning lies in both ranges
    rcases Nat.le_total p q with hle | hle
    · exact h (q - p) (by omega) 0 (by omega) (by omega)
    · exact h 0 (by omega) (p - q) (by omega) (by omega)
  · intro h i hi j hj
    omega

/-- An `int` where `memcpy` asks for a `size_t`. -/
def copySize (n : Int) : Nat := (n % 2 ^ 64).toNat

theorem copySize_natCast {n : Nat} (h : n < 2 ^ 64) : copySize n = n := by
  rw [copySize]
  omega

/-! ## C strings

A string ends where its first zero is, so a list of bytes is a string when there
is none in it, and else its beginning is. -/

/-- The string at the start of `bs`: what comes before the first zero. -/
def cstr (bs : Bytes) : Bytes := bs.takeWhile (· != 0)

def NulFree (bs : Bytes) : Prop := ∀ b ∈ bs, b ≠ 0

instance (bs : Bytes) : Decidable (NulFree bs) := List.decidableBAll _ _

theorem cstr_of_nulFree {bs : Bytes} (h : NulFree bs) : cstr bs = bs := by
  rw [cstr, List.takeWhile_eq_self_iff]
  intro b hb
  simpa using h b hb

theorem nulFree_cstr (bs : Bytes) : NulFree (cstr bs) := by
  intro b hb
  simpa using List.mem_takeWhile_imp hb

theorem cstr_terminated {bs : Bytes} (h : NulFree bs) (rest : Bytes) :
    cstr (bs ++ 0 :: rest) = bs := by
  rw [cstr, List.takeWhile_append_of_pos fun b hb => by simpa using h b hb]
  exact List.append_nil bs

theorem NulFree.append {as bs : Bytes} (ha : NulFree as) (hb : NulFree bs) :
    NulFree (as ++ bs) := by
  intro b h
  rcases List.mem_append.1 h with h | h
  · exact ha b h
  · exact hb b h

theorem NulFree.sublist {as bs : Bytes} (hb : NulFree bs) (h : as.Sublist bs) :
    NulFree as := fun b hb' => hb b (h.subset hb')

/-- The `n` bytes `strncpy` writes: the string, cut at `n`, then zeros. -/
def strncpyBytes (src : Bytes) (n : Nat) : Bytes :=
  cstr (src.take n) ++ List.replicate (n - (cstr (src.take n)).length) 0

theorem strncpyBytes_of_nulFree {src : Bytes} {n : Nat} (h : NulFree src)
    (hn : n ≤ src.length) : strncpyBytes src n = src.take n := by
  have hc : cstr (src.take n) = src.take n :=
    cstr_of_nulFree (h.sublist (List.take_sublist n src))
  rw [strncpyBytes, hc, List.length_take, Nat.min_eq_left hn, Nat.sub_self]
  simp

@[simp] theorem length_strncpyBytes (src : Bytes) (n : Nat) :
    (strncpyBytes src n).length = n := by
  have hle : (cstr (src.take n)).length ≤ (src.take n).length :=
    (List.takeWhile_prefix _).length_le
  rw [List.length_take] at hle
  rw [strncpyBytes, List.length_append, List.length_replicate]
  omega

/-- The stretch of a text between two places, as `strncpy` copies it. -/
theorem strncpyBytes_drop {text : Bytes} {p q : Nat} (h : NulFree text)
    (hq : q ≤ text.length) :
    strncpyBytes (text.drop p) (q - p) = (text.take q).drop p := by
  rw [strncpyBytes_of_nulFree (h.sublist (List.drop_sublist p text))
    (by rw [List.length_drop]; omega), List.drop_take]

/-- What `snprintf` does to memory: at most `size - 1` bytes of the text and
a terminator, or nothing at all when there is no room. -/
def snprintf (m : Mem) (p size : Nat) (text : Bytes) : Mem :=
  match size with
  | 0 => m
  | size + 1 => store m p (text.take size ++ [0])

/-- What `snprintf` stores of a text in `size` bytes. -/
def printed (size : Nat) (text : Bytes) : Bytes :=
  match size with
  | 0 => []
  | size + 1 => text.take size ++ [0]

theorem length_printed (size : Nat) (text : Bytes) : (printed size text).length ≤ size := by
  cases size with
  | zero => exact Nat.le_refl 0
  | succ size =>
      rw [printed, List.length_append, List.length_take, List.length_singleton]
      omega

theorem printed_of_lt {size : Nat} {text : Bytes} (h : text.length < size) :
    printed size text = text ++ [0] := by
  obtain ⟨size, rfl⟩ : ∃ k, size = k + 1 := ⟨size - 1, by omega⟩
  rw [printed, List.take_of_length_le (by omega)]

/-- A text that fits is printed up to its last byte, which the terminator may
take. -/
theorem le_length_printed {size : Nat} {text : Bytes} (h : text.length ≤ size) :
    text.length ≤ (printed size text).length := by
  cases size with
  | zero => exact h
  | succ size =>
      rw [printed, List.length_append, List.length_take, List.length_singleton]
      omega

theorem snprintf_eq (m : Mem) (p size : Nat) (text : Bytes) :
    snprintf m p size text = store m p (printed size text) := by
  cases size with
  | zero => exact (store_nil m p).symm
  | succ size => rfl

def decimal (n : Nat) : Bytes :=
  (Nat.toDigits 10 n).map fun c => c.toNat.toUInt8

/-- The text `%d` prints for a 32-bit word. -/
def fmtD (w : UInt32) : Bytes :=
  if w.toNat < 2 ^ 31 then decimal w.toNat
  else 45 :: decimal (2 ^ 32 - w.toNat)

def ascii (s : String) : Bytes := s.toList.map fun c => c.toNat.toUInt8

/-! ## Little endian words

A word is its bytes with the least significant first, and what was stored as bytes
is loaded as the same word. -/

/-- The number whose bytes, least significant first, are `bs`. -/
def leNat : Bytes → Nat
  | [] => 0
  | b :: bs => b.toNat + 256 * leNat bs

/-- The `k` low bytes of `n`, least significant first. -/
def leBytes : Nat → Nat → Bytes
  | 0, _ => []
  | k + 1, n => UInt8.ofNat n :: leBytes k (n / 256)

@[simp] theorem length_leBytes (k n : Nat) : (leBytes k n).length = k := by
  induction k generalizing n with
  | zero => rfl
  | succ k ih => rw [leBytes, List.length_cons, ih]

theorem leNat_leBytes {k n : Nat} (h : n < 256 ^ k) : leNat (leBytes k n) = n := by
  induction k generalizing n with
  | zero =>
      rw [Nat.pow_zero] at h
      rw [leBytes, leNat]
      omega
  | succ k ih =>
      have hd : n / 256 < 256 ^ k := by
        rw [Nat.pow_succ] at h
        omega
      rw [leBytes, leNat, ih hd]
      simp only [UInt8.toNat_ofNat']
      omega

def u32 (m : Mem) (p : Nat) : UInt32 := UInt32.ofNat (leNat (read m p 4))

def u64 (m : Mem) (p : Nat) : UInt64 := UInt64.ofNat (leNat (read m p 8))

/-- A 32-bit word as it lies in memory. -/
def wordBytes (w : UInt32) : Bytes := leBytes 4 w.toNat

@[simp] theorem length_wordBytes (w : UInt32) : (wordBytes w).length = 4 := by
  simp [wordBytes]

theorem u32_of_read {m : Mem} {p : Nat} {w : UInt32}
    (h : read m p 4 = wordBytes w) : u32 m p = w := by
  have hw : w.toNat < 256 ^ 4 := w.toNat_lt
  rw [u32, h, wordBytes, leNat_leBytes hw, UInt32.ofNat_toNat]

/-- A signed amount that is not negative is converted as it is. -/
theorem u32_ofInt_natCast (n : Nat) : UInt32.ofInt (n : Int) = UInt32.ofNat n := by
  apply UInt32.toNat_inj.1
  rw [UInt32.ofInt, UInt32.toNat_ofNat', UInt32.toNat_ofNat']
  omega

end CMem
