import UiServer.Lib.Writer

/-!
# Staying inside a buffer

What a writer does to the room left depends on the room alone, and so does
whether it writes behind its buffer. A `Job` says both for one step, a list of
jobs is run by `after`, and `Spills` is the question whether some job on the way
writes too far. `Performs` connects a computation to its jobs.

The bytes a computation writes do not depend on what the buffer held before, so
they are an `Overlay` over it: at each offset a fixed byte, or the old one. A
write behind the buffer is then seen on some memory, whatever is written over it
later (`Overlay.within_iff`).
-/

namespace CMem

/-! ## What was written

The bytes that were written are told without what was there before, so a memory
can be chosen that differs from them. A byte written behind the end shows on that
memory. -/

/-- The last byte written at each offset, where one was. -/
abbrev Overlay := Nat → Option UInt8

def Overlay.on (o : Overlay) (m : Mem) : Mem := fun i => (o i).getD (m i)

def Overlay.stored (p : Nat) (bs : Bytes) : Overlay := fun i =>
  if p ≤ i ∧ i - p < bs.length then some (bs.getD (i - p) 0) else none

def Overlay.andThen (o o' : Overlay) : Overlay := fun i => (o' i).or (o i)

/-- Nothing was written from `size` on. -/
def Overlay.Within (o : Overlay) (size : Nat) : Prop := ∀ i, size ≤ i → o i = none

@[simp] theorem Overlay.stored_on (p : Nat) (bs : Bytes) (m : Mem) :
    (Overlay.stored p bs).on m = store m p bs := by
  funext i
  rw [Overlay.on, Overlay.stored, store]
  split <;> rfl

@[simp] theorem Overlay.andThen_on (o o' : Overlay) (m : Mem) :
    (o.andThen o').on m = o'.on (o.on m) := by
  funext i
  rw [Overlay.on, Overlay.andThen, Overlay.on, Overlay.on]
  cases o' i <;> rfl

theorem Overlay.within_andThen {o o' : Overlay} {size : Nat} :
    (o.andThen o').Within size ↔ o.Within size ∧ o'.Within size := by
  simp only [Overlay.Within, Overlay.andThen, Option.or_eq_none_iff]
  exact ⟨fun h => ⟨fun i hi => (h i hi).2, fun i hi => (h i hi).1⟩,
    fun h i hi => ⟨h.2 i hi, h.1 i hi⟩⟩

theorem Overlay.within_stored {p size : Nat} {bs : Bytes} (hp : p ≤ size) :
    (Overlay.stored p bs).Within size ↔ p + bs.length ≤ size := by
  rw [Overlay.Within]
  constructor
  · intro h
    by_contra hlt
    have hs := h size (Nat.le_refl _)
    rw [Overlay.stored, if_pos ⟨hp, by omega⟩] at hs
    cases hs
  · intro h i hi
    rw [Overlay.stored, if_neg (by omega)]

/-- A byte written from `size` on differs from what some memory held there. -/
theorem Overlay.within_iff {o : Overlay} {size : Nat} :
    o.Within size ↔ ∀ (m : Mem) (i : Nat), size ≤ i → o.on m i = m i := by
  constructor
  · intro h m i hi
    rw [Overlay.on, h i hi]
    rfl
  · intro h i hi
    cases ho : o i with
    | none => rfl
    | some b =>
        have hsame := h (fun _ => b + 1) i hi
        rw [Overlay.on, ho] at hsame
        exact absurd hsame (by simp)

/-! ## Jobs

The room left behind a step is a function of the room in front of it. So a list of
steps can be run on the room alone, and asked whether one of them goes too far. -/

/-- A step as the room sees it: the room that is left after it, unless it gives
up, and whether it writes further than the room. -/
structure Job where
  next : Nat → Option Nat
  spills : Nat → Prop

/-- A text of `n` bytes that is written only if it fits. -/
def Job.text (n : Nat) : Job where
  next := fun room => if room < n then none else some (room - n)
  spills := fun _ => False

theorem Job.text_next_le {n room left : Nat} (h : (Job.text n).next room = some left) :
    left ≤ room := by
  simp only [Job.text] at h
  split at h
  · cases h
  · cases h
    exact Nat.sub_le _ _

/-- The last byte is taken back, if the buffer of `size` bytes has one. -/
def Job.back (size : Nat) : Job where
  next := fun room => some (if room < size then room + 1 else room)
  spills := fun _ => False

/-- A terminator behind the text, for which nothing checks the room. -/
def Job.close : Job where
  next := some
  spills := fun room => room = 0

def Job.refuse : Job where
  next := fun _ => none
  spills := fun _ => False

/-- The room left after the jobs. -/
def after : List Job → Nat → Option Nat
  | [], room => some room
  | j :: js, room => (j.next room).bind (after js)

/-- One of the jobs is come to with too little room. -/
def Spills : List Job → Nat → Prop
  | [], _ => False
  | j :: js, room => j.spills room ∨ ∃ left, j.next room = some left ∧ Spills js left

theorem after_append {js ks : List Job} : ∀ {room : Nat},
    after (js ++ ks) room = (after js room).bind (after ks) := by
  induction js with
  | nil => intro room; rfl
  | cons j js ih =>
      intro room
      rw [List.cons_append, after, after]
      cases j.next room with
      | none => rfl
      | some left => exact ih

theorem spills_append {js ks : List Job} : ∀ {room : Nat},
    Spills (js ++ ks) room ↔
      Spills js room ∨ ∃ left, after js room = some left ∧ Spills ks left := by
  induction js with
  | nil =>
      intro room
      exact ⟨fun h => Or.inr ⟨room, rfl, h⟩, fun h => by
        obtain h | ⟨left, hleft, h⟩ := h
        · exact h.elim
        · cases hleft
          exact h⟩
  | cons j js ih =>
      intro room
      rw [List.cons_append, Spills, Spills, after]
      cases hj : j.next room with
      | none => simp
      | some next =>
          simp only [Option.some.injEq, exists_eq_left', Option.bind_some]
          rw [ih, or_assoc]

/-- Jobs that give no room back. -/
def Shrinks (js : List Job) : Prop :=
  ∀ j ∈ js, ∀ room left, j.next room = some left → left ≤ room

theorem Shrinks.after_le {js : List Job} (h : Shrinks js) : ∀ {room left : Nat},
    after js room = some left → left ≤ room := by
  induction js with
  | nil =>
      intro room left hleft
      cases hleft
      exact Nat.le_refl _
  | cons j js ih =>
      intro room left hleft
      rw [after, Option.bind_eq_some_iff] at hleft
      obtain ⟨next, hnext, hleft⟩ := hleft
      have := ih (fun k hk => h k (List.mem_cons_of_mem j hk)) hleft
      have := h j List.mem_cons_self room next hnext
      omega

/-! ## A computation and its jobs

The primitives perform one job each, and performing goes through composition. So
the jobs of a computation are put together as the computation is. -/

/-- From any place in a buffer of `size` bytes, `f` writes the same bytes
whatever the memory, ends as the jobs say, and stays inside the buffer exactly
if they do. -/
def Performs (size : Nat) (f : Writer → Except Mem Writer) (js : List Job) : Prop :=
  ∀ p room, p + room = size → ∃ o : Overlay, (o.Within size ↔ ¬ Spills js room) ∧
    match after js room with
    | none => ∀ mem, f ⟨mem, p, room⟩ = .error (o.on mem)
    | some left =>
        ∃ q, q + left = size ∧ ∀ mem, f ⟨mem, p, room⟩ = .ok ⟨o.on mem, q, left⟩

theorem performs_nil (size : Nat) : Performs size .ok [] := by
  intro p room hroom
  refine ⟨fun _ => none, ?_, p, hroom, fun mem => rfl⟩
  exact ⟨fun _ h => h, fun _ _ _ => rfl⟩

theorem Performs.bind {size : Nat} {f g : Writer → Except Mem Writer} {js ks : List Job}
    (hf : Performs size f js) (hg : Performs size g ks) :
    Performs size (fun w => f w >>= g) (js ++ ks) := by
  intro p room hroom
  obtain ⟨o, hwithin, hend⟩ := hf p room hroom
  rw [after_append]
  cases hleft : after js room with
  | none =>
      rw [hleft] at hend
      refine ⟨o, ?_, fun mem => ?_⟩
      · rw [hwithin, spills_append, hleft]
        simp
      · show (f ⟨mem, p, room⟩ >>= g) = _
        rw [hend mem]
        rfl
  | some left =>
      rw [hleft] at hend
      obtain ⟨q, hq, hok⟩ := hend
      obtain ⟨o', hwithin', hend'⟩ := hg q left hq
      have hboth : (o.andThen o').Within size ↔ ¬ Spills (js ++ ks) room := by
        rw [Overlay.within_andThen, hwithin, hwithin', spills_append, hleft]
        simp
      have hrun : ∀ mem, (f ⟨mem, p, room⟩ >>= g) = g ⟨o.on mem, q, left⟩ := by
        intro mem
        rw [hok mem]
        rfl
      refine ⟨o.andThen o', hboth, ?_⟩
      rw [Option.bind_some]
      cases hlast : after ks left with
      | none =>
          rw [hlast] at hend'
          intro mem
          rw [Overlay.andThen_on]
          exact (hrun mem).trans (hend' (o.on mem))
      | some last =>
          rw [hlast] at hend'
          obtain ⟨q', hq', hok'⟩ := hend'
          refine ⟨q', hq', fun mem => ?_⟩
          rw [Overlay.andThen_on]
          exact (hrun mem).trans (hok' (o.on mem))

theorem Performs.congr {size : Nat} {f g : Writer → Except Mem Writer} {js : List Job}
    (h : Performs size f js) (hfg : ∀ w, g w = f w) : Performs size g js := by
  rwa [funext hfg]

theorem not_spills_single {j : Job} {room : Nat} : ¬ Spills [j] room ↔ ¬ j.spills room := by
  simp [Spills]

theorem after_single {j : Job} {room : Nat} : after [j] room = j.next room := by
  rw [after]
  cases j.next room <;> rfl

theorem performs_put (size : Nat) (bs : Bytes) :
    Performs size (fun w => w.put bs) [.text bs.length] := by
  intro p room hroom
  rw [not_spills_single, after_single, Job.text]
  by_cases hlt : room < bs.length
  · refine ⟨fun _ => none, ⟨fun _ h => h, fun _ _ _ => rfl⟩, ?_⟩
    simp only [hlt, if_true]
    intro mem
    rw [Writer.put, if_pos hlt]
    rfl
  · refine ⟨.stored p bs, ?_, ?_⟩
    · rw [Overlay.within_stored (by omega)]
      exact ⟨fun _ h => h, fun _ => by omega⟩
    · simp only [hlt, if_false]
      refine ⟨p + bs.length, by omega, fun mem => ?_⟩
      rw [Writer.put, if_neg hlt, Overlay.stored_on]

/-- A step that stores `bs` and goes on, or gives up, as `next` says. -/
theorem performs_step (size : Nat) {f : Writer → Except Mem Writer} {j : Job}
    (bs : Nat → Bytes) (hnext : ∀ room left, j.next room = some left → left ≤ room)
    (hspills : ∀ room, j.spills room ↔ room < (bs room).length)
    (hf : ∀ w : Writer, f w =
      match j.next w.nleft with
      | none => .error (store w.mem w.pbuf (bs w.nleft))
      | some left => .ok ⟨store w.mem w.pbuf (bs w.nleft), w.pbuf + (w.nleft - left), left⟩) :
    Performs size f [j] := by
  intro p room hroom
  rw [not_spills_single, after_single]
  refine ⟨.stored p (bs room), ?_, ?_⟩
  · rw [Overlay.within_stored (by omega), hspills]
    omega
  · cases hj : j.next room with
    | none =>
        intro mem
        rw [hf]
        simp only [hj, Overlay.stored_on]
    | some left =>
        have := hnext room left hj
        refine ⟨p + (room - left), by omega, fun mem => ?_⟩
        rw [hf]
        simp only [hj, Overlay.stored_on]

/-- A print never gets behind the room, whether it fits or not. -/
theorem performs_print (size : Nat) (bs : Bytes) :
    Performs size (fun w => w.print bs) [.text bs.length] := by
  refine performs_step size (fun room => printed room bs) (fun _ _ => Job.text_next_le) ?_ ?_
  · intro room
    exact ⟨False.elim, Nat.not_lt.2 (length_printed room bs)⟩
  · intro w
    simp only [Job.text, Writer.print, snprintf_eq]
    split
    · rfl
    · next hfit =>
        simp only [Nat.sub_sub_self (Nat.not_lt.1 hfit)]

theorem performs_foldlM {α : Type} {size : Nat} {f : Writer → α → Except Mem Writer}
    {js : α → List Job} (h : ∀ x, Performs size (fun w => f w x) (js x)) (xs : List α) :
    Performs size (fun w => xs.foldlM f w) (xs.flatMap js) := by
  induction xs with
  | nil => exact performs_nil size
  | cons x xs ih => exact (h x).bind ih

theorem performs_back (size : Nat) :
    Performs size (fun w => .ok (w.back size)) [.back size] := by
  intro p room hroom
  rw [not_spills_single, after_single, Job.back]
  by_cases hlt : room < size
  · refine ⟨.stored (p - 1) [0], ?_, ?_⟩
    · rw [Overlay.within_stored (by omega), List.length_singleton]
      exact ⟨fun _ h => h, fun _ => by omega⟩
    · simp only [hlt, if_true]
      refine ⟨p - 1, by omega, fun mem => ?_⟩
      rw [Writer.back, if_pos hlt, Overlay.stored_on]
  · refine ⟨fun _ => none, ⟨fun _ h => h, fun _ _ _ => rfl⟩, ?_⟩
    simp only [hlt, if_false]
    refine ⟨p, hroom, fun mem => ?_⟩
    rw [Writer.back, if_neg hlt]
    rfl

/-- The terminator that nothing checks the room for. -/
def Writer.close (w : Writer) : Except Mem Writer :=
  .ok ⟨store w.mem w.pbuf [0], w.pbuf, w.nleft⟩

theorem performs_close (size : Nat) : Performs size Writer.close [.close] := by
  refine performs_step size (fun _ => [0]) ?_ ?_ ?_
  · intro room left h
    cases h
    exact Nat.le_refl _
  · intro room
    rw [List.length_singleton, Nat.lt_one_iff]
    rfl
  · intro w
    simp only [Job.close, Writer.close, Nat.sub_self, Nat.add_zero]

theorem performs_refuse (size : Nat) :
    Performs size (fun w => .error w.mem) [.refuse] := by
  intro p room hroom
  rw [not_spills_single, after_single]
  exact ⟨fun _ => none, ⟨fun _ h => h, fun _ _ _ => rfl⟩, fun mem => rfl⟩

/-! ## A text and its terminator

The terminator is written without a look at the room, so a text that fills the
buffer to the last byte spills with it. -/

/-- Nothing behind the buffer has changed, and a text that came about ends inside
it, with a terminator. -/
def Inside (size : Nat) (mem : Mem) : Except Mem Writer → Prop
  | .error m => ∀ i, size ≤ i → m i = mem i
  | .ok w => (∀ i, size ≤ i → w.mem i = mem i) ∧ w.pbuf < size ∧ w.mem w.pbuf = 0

/-- A computation with a terminator behind it stays inside its buffer, on every
memory, exactly if its jobs do. -/
theorem Performs.inside_iff {size p room : Nat} {f : Writer → Except Mem Writer}
    {js : List Job} (h : Performs size f js) (hroom : p + room = size) :
    (∀ mem, Inside size mem (f ⟨mem, p, room⟩ >>= Writer.close)) ↔
      ¬ Spills (js ++ [.close]) room := by
  obtain ⟨o, hwithin, hend⟩ := h p room hroom
  rw [spills_append, not_or, ← hwithin, Overlay.within_iff]
  cases hleft : after js room with
  | none =>
      rw [hleft] at hend
      have hrun : ∀ mem, (f ⟨mem, p, room⟩ >>= Writer.close) = .error (o.on mem) := by
        intro mem
        rw [hend mem]
        rfl
      simp only [hrun, Inside, reduceCtorEq, false_and, exists_false, not_false_eq_true,
        and_true]
  | some left =>
      rw [hleft] at hend
      obtain ⟨q, hq, hok⟩ := hend
      have hrun : ∀ mem, (f ⟨mem, p, room⟩ >>= Writer.close) =
          .ok ⟨store (o.on mem) q [0], q, left⟩ := by
        intro mem
        rw [hok mem]
        rfl
      simp only [hrun, Inside, Option.some.injEq, exists_eq_left', Spills, Job.close,
        and_false, exists_false, or_false]
      constructor
      · intro hin
        have hlt := (hin fun _ => 0).2.1
        refine ⟨fun m i hi => ?_, by omega⟩
        have hsame := (hin m).1 i hi
        rwa [store_ge (by rw [List.length_singleton]; omega)] at hsame
      · rintro ⟨hin, hne⟩ mem
        refine ⟨fun i hi => ?_, by omega, ?_⟩
        · rw [store_ge (by rw [List.length_singleton]; omega)]
          exact hin mem i hi
        · have hat : store (o.on mem) q [0] (q + 0) = 0 := store_at Nat.zero_lt_one
          exact hat

end CMem
