import UiServer.Lib.Room

/-!
# Text that does not show what was there before

A text is written over memory that held something else. Two writers are alike
when they are at the same place with the same text in front of it; what lies
behind it may differ. A computation is blind when alike writers stay alike, or
both give up: the text it leaves is then the same on every memory.
-/

namespace CMem

structure Writer.Alike (w w' : Writer) : Prop where
  pbuf : w'.pbuf = w.pbuf
  nleft : w'.nleft = w.nleft
  text : ∀ i < w.pbuf, w'.mem i = w.mem i

/-- Two computations gave up, or they ended with writers that are alike. -/
def EndAlike : Except Mem Writer → Except Mem Writer → Prop
  | .ok w, .ok w' => w.Alike w'
  | .error _, .error _ => True
  | _, _ => False

def Blind (f : Writer → Except Mem Writer) : Prop :=
  ∀ w w' : Writer, w.Alike w' → EndAlike (f w) (f w')

theorem Writer.alike_start (m m' : Mem) (size : Nat) :
    Writer.Alike ⟨m, 0, size⟩ ⟨m', 0, size⟩ :=
  ⟨rfl, rfl, fun i hi => absurd hi (Nat.not_lt_zero i)⟩

/-- What is read back of the text is the same. -/
theorem Writer.Alike.read_eq {w w' : Writer} (h : w.Alike w') :
    read w'.mem 0 w.pbuf = read w.mem 0 w.pbuf := by
  refine read_congr fun i hi => ?_
  rw [Nat.zero_add]
  exact h.text i hi

theorem blind_ok : Blind .ok := fun _ _ h => h

theorem Blind.bind {f g : Writer → Except Mem Writer} (hf : Blind f) (hg : Blind g) :
    Blind fun w => f w >>= g := by
  intro w w' h
  have hend := hf w w' h
  show EndAlike (f w >>= g) (f w' >>= g)
  cases hw : f w with
  | error m =>
      cases hw' : f w' with
      | error m' => trivial
      | ok v' => rw [hw, hw'] at hend; exact hend.elim
  | ok v =>
      cases hw' : f w' with
      | error m' => rw [hw, hw'] at hend; exact hend.elim
      | ok v' => rw [hw, hw'] at hend; exact hg v v' hend

theorem Blind.congr {f g : Writer → Except Mem Writer} (h : Blind f)
    (hfg : ∀ w, g w = f w) : Blind g := by
  rwa [funext hfg]

theorem blind_foldlM {α : Type} {f : Writer → α → Except Mem Writer}
    (h : ∀ x, Blind fun w => f w x) (xs : List α) : Blind fun w => xs.foldlM f w := by
  induction xs with
  | nil => exact blind_ok
  | cons x xs ih => exact (h x).bind ih

/-- A step that gives up or goes on by `n` bytes, as the room alone decides, and
stores at least these. -/
theorem blind_step {f : Writer → Except Mem Writer} (bs : Nat → Bytes)
    (num : Nat → Option Nat) (hnum : ∀ room n, num room = some n → n ≤ (bs room).length)
    (hf : ∀ w : Writer, match num w.nleft with
      | none => ∃ mem, f w = .error mem
      | some n => f w = .ok ⟨store w.mem w.pbuf (bs w.nleft), w.pbuf + n, w.nleft - n⟩) :
    Blind f := by
  intro w w' h
  have hw := hf w
  have hw' := hf w'
  rw [h.nleft] at hw'
  cases hn : num w.nleft with
  | none =>
      rw [hn] at hw hw'
      obtain ⟨m, hm⟩ := hw
      obtain ⟨m', hm'⟩ := hw'
      rw [hm, hm']
      trivial
  | some n =>
      rw [hn] at hw hw'
      simp only [h.pbuf] at hw hw'
      rw [hw, hw']
      have hlen := hnum w.nleft n hn
      refine ⟨rfl, rfl, fun i hi => ?_⟩
      exact store_agree h.text i (Nat.lt_of_lt_of_le hi (Nat.add_le_add_left hlen _))

theorem blind_put (bs : Bytes) : Blind fun w => w.put bs := by
  refine blind_step (fun _ => bs) (fun room => if room < bs.length then none
    else some bs.length) ?_ ?_
  · intro room n h
    split at h
    · cases h
    · cases h
      exact Nat.le_refl _
  · intro w
    by_cases hlt : w.nleft < bs.length
    · simp only [Writer.put, hlt, if_true]
      exact ⟨_, rfl⟩
    · simp only [Writer.put, hlt, if_false]

theorem blind_print (bs : Bytes) : Blind fun w => w.print bs := by
  refine blind_step (fun room => printed room bs) (fun room => if room < bs.length
    then none else some bs.length) ?_ ?_
  · intro room n h
    split at h
    · cases h
    · next hfit =>
        cases h
        exact le_length_printed (Nat.not_lt.1 hfit)
  · intro w
    by_cases hlt : w.nleft < bs.length
    · simp only [Writer.print, hlt, if_true]
      exact ⟨_, rfl⟩
    · simp only [Writer.print, hlt, if_false, snprintf_eq]

theorem blind_close : Blind Writer.close :=
  blind_step (fun _ => [0]) (fun _ => some 0) (fun _ n h => by cases h; exact Nat.zero_le _)
    fun _ => rfl

theorem blind_refuse : Blind fun w => .error w.mem := fun _ _ _ => trivial

theorem blind_back (size : Nat) : Blind fun w => .ok (w.back size) := by
  intro w w' h
  show (w.back size).Alike (w'.back size)
  rw [Writer.back, Writer.back, h.nleft, h.pbuf]
  split
  · refine ⟨rfl, rfl, fun i hi => ?_⟩
    have hi' : i < w.pbuf - 1 := hi
    show store w'.mem (w.pbuf - 1) [0] i = store w.mem (w.pbuf - 1) [0] i
    rw [store_lt hi', store_lt hi', h.text i (by omega)]
  · exact h

end CMem
