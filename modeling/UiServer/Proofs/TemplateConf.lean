import Mathlib.Data.List.Nodup
import Mathlib.Tactic.MkIffOfInductiveProp
import UiServer.Lib.Settled
import UiServer.Proofs.ConfRange
import UiServer.Proofs.Replaced
import UiServer.Template.Conf

/-!
# What the configuration of a template comes to

The lines of a `config.conf` are taken one after the other, and each of them makes the
setting that it names and no other. So a setting is what the last line that names it says,
and at its default if there is none (`tempLoadConfigFile_said`): that is what the template
is rendered with, and what its digest depends on (`templateLoad_settings`).
-/

namespace UiServer

open CMem

/-! ## The last line with a name

The names differ, and a key makes one setting only. So what a fold over the lines
leaves of a setting is what the last line with its name has made, and the six
settings are six uses of one lemma. -/

/-- What a line says of the setting with this name. -/
def saidBy (name : String) (line : ConfigLine) : Option Bytes :=
  if line.isKey (ascii name) then some line.value else none

/-- What the last line with the name says. -/
def lastSaid (name : String) (lines : List ConfigLine) : Option Bytes :=
  (lines.filterMap (saidBy name)).getLast?

/-- A number, where it was said. -/
def saidInt (d : Int) (said : Option Bytes) : Int := (said.map atoiText).getD d

/-- A string, where it was said, as far as its array takes it. -/
def saidStr (d : Bytes) (said : Option Bytes) : Bytes :=
  (said.map fun value => value.take (maxSettingLen - 2)).getD d

section

variable {enableDigest : Bool} {conf : TemplateSettings}

theorem templateKeys_nodup (enableDigest : Bool) :
    ((templateKeys enableDigest).map fun key => key.name.map toLower).Nodup := by
  cases enableDigest <;> decide

/-- `g` is what the key makes, and no other key makes it. -/
@[mk_iff] structure TemplateKey.Makes {β : Type} (key : TemplateKey) (enableDigest : Bool)
    (g : TemplateSettings → β) (read : Bytes → β) : Prop where
  mem : key ∈ templateKeys enableDigest
  own : ∀ conf v, g (key.assign conf v) = read v
  other : ∀ k ∈ templateKeys enableDigest, k.name ≠ key.name →
    ∀ conf v, g (k.assign conf v) = g conf

variable {β : Type} {key : TemplateKey} {g : TemplateSettings → β} {read : Bytes → β}

/-- A line makes the setting that it names, and leaves the others. -/
theorem TemplateKey.Makes.line {name : String} (h : key.Makes enableDigest g read)
    (hname : key.name = ascii name) (conf : TemplateSettings) (line : ConfigLine) :
    g (tempAssignConfItem enableDigest conf line) =
      ((saidBy name line).map read).getD (g conf) := by
  rw [tempAssignConfItem, saidBy, ← hname]
  cases hfind : (templateKeys enableDigest).find? fun k => line.isKey k.name with
  | none =>
      have hno := List.find?_eq_none.1 hfind _ h.mem
      rw [if_neg hno]
      rfl
  | some k =>
      have hmem := List.mem_of_find?_eq_some hfind
      have hkeyed : line.isKey k.name = true := by simpa using List.find?_some hfind
      by_cases hsaid : line.isKey key.name = true
      · have hsame : k = key := List.inj_on_of_nodup_map (templateKeys_nodup enableDigest) hmem
          h.mem (sameName_of_isKey hkeyed hsaid)
        rw [if_pos hsaid, hsame]
        exact h.own conf line.value
      · rw [if_neg hsaid]
        exact h.other k hmem (fun heq => hsaid (heq ▸ hkeyed)) conf line.value

theorem TemplateKey.Makes.loaded {name : String} (h : key.Makes enableDigest g read)
    (hname : key.name = ascii name) (stray : Nat → Bytes) (file : Option Bytes) :
    g (tempLoadConfigFile enableDigest stray file) =
      ((lastSaid name ((file.map (settings stray)).getD [])).map read).getD
        (g (tempConfInit enableDigest)) := by
  rw [tempLoadConfigFile, asyncLoadConf_eq]
  cases file with
  | none => rfl
  | some s =>
      have hstep : ∀ conf line, g (tempAssignConfItem enableDigest conf line) =
          ((saidBy name line).map read).getD (g conf) := h.line hname
      rw [Option.map_some, Option.getD_some, Option.map_some, Option.getD_some,
        Settled.foldl_last hstep, lastSaid, ← List.getLast?_map, List.map_filterMap]

/-- Nobody says anything of the digest of a template unless the server has it. -/
theorem enableDigest_off (stray : Nat → Bytes) (file : Option Bytes) :
    (tempLoadConfigFile false stray file).enableDigest = 0 := by
  have hkeep : ∀ key ∈ templateKeys false, ∀ conf v,
      (key.assign conf v).enableDigest = conf.enableDigest := by
    simp [templateKeys, templateStr, templateInt]
  rw [tempLoadConfigFile, asyncLoadConf_eq]
  cases file with
  | none => rfl
  | some s =>
      refine Settled.foldl_inv (I := fun conf : TemplateSettings => conf.enableDigest = 0)
        (P := fun _ => True) (fun {conf line} hI _ => ?_) rfl fun _ _ => trivial
      rw [tempAssignConfItem]
      cases hfind : (templateKeys false).find? fun k => line.isKey k.name with
      | none => exact hI
      | some k => exact (hkeep k (List.mem_of_find?_eq_some hfind) conf line.value).trans hI

theorem makes_action (enableDigest : Bool) :
    (templateStr "action" fun conf s => { conf with actionStr := s }).Makes enableDigest
      TemplateSettings.actionStr fun v => v.take (maxSettingLen - 2) := by
  cases enableDigest <;>
    simp [TemplateKey.makes_iff, templateKeys, templateStr, templateInt]

theorem makes_startTag (enableDigest : Bool) :
    (templateStr "high_light_start_tag" fun conf s =>
      { conf with highlightStartTag := s }).Makes enableDigest
        TemplateSettings.highlightStartTag fun v => v.take (maxSettingLen - 2) := by
  cases enableDigest <;>
    simp [TemplateKey.makes_iff, templateKeys, templateStr, templateInt]

theorem makes_endTag (enableDigest : Bool) :
    (templateStr "high_light_end_tag" fun conf s =>
      { conf with highlightEndTag := s }).Makes enableDigest
        TemplateSettings.highlightEndTag fun v => v.take (maxSettingLen - 2) := by
  cases enableDigest <;>
    simp [TemplateKey.makes_iff, templateKeys, templateStr, templateInt]

theorem makes_escape (enableDigest : Bool) :
    (templateInt "escape_backslash" fun conf n => { conf with escapeBackslash := n }).Makes
      enableDigest TemplateSettings.escapeBackslash atoiText := by
  cases enableDigest <;>
    simp [TemplateKey.makes_iff, templateKeys, templateStr, templateInt]

theorem makes_digest :
    (templateInt "enable_digest" fun conf n => { conf with enableDigest := n }).Makes true
      TemplateSettings.enableDigest atoiText := by
  simp [TemplateKey.makes_iff, templateKeys, templateStr, templateInt]

theorem makes_format (enableDigest : Bool) :
    (templateStr "strftime_fmt" fun conf s => { conf with strftimeFmt := s }).Makes enableDigest
      TemplateSettings.strftimeFmt fun v => v.take (maxSettingLen - 2) := by
  cases enableDigest <;>
    simp [TemplateKey.makes_iff, templateKeys, templateStr, templateInt]

/-- The settings when each is what was said of it last, and at its default where nothing
was. -/
def settingsSaid (enableDigest : Bool) (said : String → Option Bytes) : TemplateSettings where
  actionStr := saidStr [] (said "action")
  highlightStartTag := saidStr (ascii "<span class=\"kwcolor\">") (said "high_light_start_tag")
  highlightEndTag := saidStr (ascii "</span>") (said "high_light_end_tag")
  escapeBackslash := saidInt 0 (said "escape_backslash")
  enableDigest := if enableDigest then saidInt 1 (said "enable_digest") else 0
  strftimeFmt := saidStr (ascii "%F %R") (said "strftime_fmt")

/-- Whatever the file holds, and also without the file. -/
theorem tempLoadConfigFile_said (enableDigest : Bool) (stray : Nat → Bytes)
    (file : Option Bytes) :
    tempLoadConfigFile enableDigest stray file = settingsSaid enableDigest fun name =>
      lastSaid name ((file.map (settings stray)).getD []) := by
  have hdigest : (tempLoadConfigFile enableDigest stray file).enableDigest =
      if enableDigest then
        saidInt 1 (lastSaid "enable_digest" ((file.map (settings stray)).getD []))
      else 0 := by
    cases enableDigest with
    | false => exact enableDigest_off stray file
    | true => exact makes_digest.loaded rfl stray file
  exact TemplateSettings.ext ((makes_action enableDigest).loaded rfl stray file)
    ((makes_startTag enableDigest).loaded rfl stray file)
    ((makes_endTag enableDigest).loaded rfl stray file)
    ((makes_escape enableDigest).loaded rfl stray file) hdigest
    ((makes_format enableDigest).loaded rfl stray file)

end

/-! ## The templates

The load of the templates keeps the settings of each as its file has left them.
What it adds is the mode of the digest, which it finds out from the variables of
the result text. -/

/-- The digest is on, which is `2`, where the template asks for it and its result text has
a variable for it. -/
theorem digestMode_on (conf : TemplateSettings) (vars : List VarAttr) :
    digestMode conf vars = 2 ↔ conf.enableDigest ≠ 0 ∧ ∃ v ∈ vars, v.id = resDigest := by
  have hany : (vars.any fun v => v.id == resDigest) = true ↔ ∃ v ∈ vars, v.id = resDigest := by
    simp only [List.any_eq_true, beq_iff_eq]
  rw [digestMode]
  by_cases hasked : conf.enableDigest = 0
  · simp [hasked]
  · rw [if_pos hasked, ← hany]
    cases hvar : vars.any fun v => v.id == resDigest <;> simp [hasked]

/-- Whatever the files hold, the settings of a template that is loaded are what the last
lines of its own `config.conf` say, and the template is rendered with them; its digest is on
where they ask for it and the result text shows it. -/
theorem templateLoad_settings {n : Nat} {files : TemplateFiles} {enableDigest : Bool}
    {stray : Bytes → Nat → Bytes} {set : TemplateSet}
    (hload : templateLoad n (files.dir enableDigest stray) = some set) {index : Nat} {tn : Bytes}
    (htn : set.handle.tn[index]? = some tn) :
    let conf := settingsSaid enableDigest fun name =>
      lastSaid name (((files.conf tn).map (settings (stray tn))).getD [])
    files.settings enableDigest stray tn = conf ∧
      (set.res index).conf = ⟨conf.escapeBackslash, conf.strftimeFmt⟩ ∧
      ∃ scan, tempLoadResFile (files.res tn) = some scan ∧
        (digestMode conf scan.vars = 2 ↔
          conf.enableDigest ≠ 0 ∧ ∃ v ∈ scan.vars, v.id = resDigest) := by
  intro conf
  have hsaid : files.settings enableDigest stray tn = conf :=
    tempLoadConfigFile_said enableDigest (stray tn) (files.conf tn)
  obtain ⟨table, -, htemplate⟩ := templateLoad_get hload htn
  obtain ⟨-, -, -, hconf, scan, hscan, -⟩ := loadTemplate_parts htemplate
  refine ⟨hsaid, ?_, scan, hscan, digestMode_on _ _⟩
  rw [hconf, ← hsaid]
  rfl

/-- A template whose last line takes the first one back. -/
def quotedFiles : TemplateFiles :=
  { typedDir with
    conf := fun _ => some (ascii "escape_backslash: 1\nstrftime_fmt: %Y\nESCAPE_backslash : 0\n") }

def quotedSet : TemplateSet :=
  (templateLoad 8 (quotedFiles.dir true fun _ _ => [])).get (by decide +kernel)

theorem templateLoad_settings_quoted :
    quotedFiles.settings true (fun _ _ => []) (ascii "1") =
        { tempConfInit true with strftimeFmt := ascii "%Y" } ∧
      (quotedSet.res 0).conf = ⟨0, ascii "%Y"⟩ := by
  have hload : templateLoad 8 (quotedFiles.dir true fun _ _ => []) = some quotedSet :=
    (Option.some_get _).symm
  obtain ⟨hsettings, hconf, -⟩ := @templateLoad_settings 8 quotedFiles true (fun _ _ => [])
    quotedSet hload 0 (ascii "1") (by decide +kernel)
  exact ⟨hsettings.trans (by decide +kernel), hconf.trans (by decide +kernel)⟩

end UiServer
