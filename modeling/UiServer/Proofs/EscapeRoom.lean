import UiServer.Proofs.Room
import UiServer.Util.Escape

/-!
# The room that is left for an escape

The renderer keeps the room left as a signed number that may come down to zero;
`quote_escape` subtracts one from it in 64 bits without a sign. A conversion that
escapes is called with no room when the text in front of its variable has filled
the buffer, and then nothing stops it (`escapes_inside_iff`).

`resConversions` lists the conversions a run makes, each with the room there is
for it.
-/

namespace UiServer

open CMem

instance (a : ResArgs) (v : ResVar) : Decidable (Escapes a v) :=
  inferInstanceAs (Decidable (_ ∧ _))

/-- Wherever its room is, the conversion changes nothing behind it, and the room
less one is what `quote_escape` goes by. -/
def EscapeInside (a : ResArgs) (v : ResVar) (room : Nat) : Prop :=
  (∀ (mem : Mem) (p i : Nat), p + room ≤ i →
      store mem p (convertVar a v room).stored i = mem i) ∧
    canPush room + 1 = room

theorem escapeInside_iff {a : ResArgs} {v : ResVar} {room : Nat} (h : Escapes a v) :
    EscapeInside a v room ↔ room ≠ 0 := by
  have hstored : room < (convertVar a v room).stored.length ↔ room = 0 := by
    rw [convertVar_stored, and_iff_left h]
  constructor
  · rintro ⟨_, hpush⟩ hzero
    rw [hzero] at hpush
    exact absurd hpush (by decide)
  · intro hroom
    have hfit : ¬ room < (convertVar a v room).stored.length := fun hlt => hroom (hstored.1 hlt)
    refine ⟨fun mem p i hi => store_ge (by omega), ?_⟩
    rw [canPush, if_neg hroom]
    omega

/-- In every run the strings are escaped inside the room that is left for them
exactly when there is some left each time. -/
theorem escapes_inside_iff (a : ResArgs) (text : Bytes) (vars : List ResVar) (w : Writer) :
    (∀ c ∈ resConversions a text vars 0 w, Escapes a c.1 → EscapeInside a c.1 c.2) ↔
      ∀ c ∈ resConversions a text vars 0 w, Escapes a c.1 → c.2 ≠ 0 :=
  forall₂_congr fun _ _ => forall_congr' escapeInside_iff

def escapeDir : TemplateDir :=
  { oneTemplate "resAbstract=result_node_abstract=0=str_to_escape_backslash"
      "<i>$resAbstract$" with conf := fun _ => ⟨1, ascii "%F %R"⟩ }

def escapeSet : TemplateSet := (templateLoad 8 escapeDir).get (by decide +kernel)

def quoteNode : ResultNode :=
  { ResultNode.zero with abstract := ⟨ascii "say \"hi\"", by decide, by decide⟩ }

def escapeArgs : ResArgs :=
  ⟨some quoteNode, .zero, (escapeSet.res 0).conf, epochLibc, .zero⟩

/-- `<i>` fills three bytes, and the abstract goes behind them. -/
theorem escapes_inside_fails :
    templateLoad 8 escapeDir = some escapeSet ∧
      (asTempMakeRes escapeArgs (escapeSet.res 0).text (escapeSet.res 0).vars
        ⟨fun _ => 1, 0, 3⟩).1 3 = 115 ∧
      ¬ ∀ (a : ResArgs) (text : Bytes) (vars : List ResVar) (w : Writer),
        ∀ c ∈ resConversions a text vars 0 w, Escapes a c.1 → EscapeInside a c.1 c.2 := by
  refine ⟨(Option.some_get _).symm, by decide +kernel, fun hall => ?_⟩
  have hcall : ∃ c ∈ resConversions escapeArgs (escapeSet.res 0).text
      (escapeSet.res 0).vars 0 ⟨fun _ => 1, 0, 3⟩, Escapes escapeArgs c.1 ∧ c.2 = 0 := by
    decide +kernel
  obtain ⟨c, hc, hescapes, hzero⟩ := hcall
  exact (escapeInside_iff hescapes).1 (hall _ _ _ _ c hc hescapes) hzero

end UiServer
