import UiServer.Conf.Settings
import UiServer.Template.Table

/-!
# The configuration of a template

Beside its texts a template has a `config.conf`. Its settings are at their defaults before
the file is read, and `template_load` does not look at what `temp_load_config_file`
returns: a template without the file is loaded all the same.
-/

namespace UiServer

open CMem

/-- What the configuration of a `Template_t` sets. -/
@[ext] structure TemplateSettings where
  actionStr : Bytes
  highlightStartTag : Bytes
  highlightEndTag : Bytes
  escapeBackslash : Int
  enableDigest : Int
  strftimeFmt : Bytes
deriving DecidableEq, Repr

/-- `MAX_ACTION_LEN`, `MAX_TIME_FMT_LEN` and `MAX_HIGH_LIGHT_TAG_LEN`. -/
def maxSettingLen : Nat := 32

/-- `temp_conf_init`, where `enableDigest` is the setting of the server. -/
def tempConfInit (enableDigest : Bool) : TemplateSettings where
  actionStr := []
  highlightStartTag := (ascii "<span class=\"kwcolor\">").take (maxSettingLen - 1)
  highlightEndTag := (ascii "</span>").take (maxSettingLen - 1)
  escapeBackslash := 0
  enableDigest := enableDigest.toNat
  strftimeFmt := ascii "%F %R"

/-- A name and what its line assigns. -/
structure TemplateKey where
  name : Bytes
  assign : TemplateSettings → Bytes → TemplateSettings

def templateInt (name : String) (assign : TemplateSettings → Int → TemplateSettings) :
    TemplateKey :=
  ⟨ascii name, fun conf value => assign conf (atoiText value)⟩

/-- A string setting: `snprintf` is given one byte less than the array has. -/
def templateStr (name : String) (assign : TemplateSettings → Bytes → TemplateSettings) :
    TemplateKey :=
  ⟨ascii name, fun conf value => assign conf (value.take (maxSettingLen - 2))⟩

def templateKeys (enableDigest : Bool) : List TemplateKey :=
  [templateStr "action" fun conf s => { conf with actionStr := s },
    templateStr "high_light_start_tag" fun conf s => { conf with highlightStartTag := s },
    templateStr "high_light_end_tag" fun conf s => { conf with highlightEndTag := s },
    templateInt "escape_backslash" fun conf n => { conf with escapeBackslash := n }] ++
  (if enableDigest then
    [templateInt "enable_digest" fun conf n => { conf with enableDigest := n }]
  else []) ++
  [templateStr "strftime_fmt" fun conf s => { conf with strftimeFmt := s }]

/-- `temp_assign_conf_item`. -/
def tempAssignConfItem (enableDigest : Bool) (conf : TemplateSettings) (line : ConfigLine) :
    TemplateSettings :=
  match (templateKeys enableDigest).find? fun key => line.isKey key.name with
  | some key => key.assign conf line.value
  | none => conf

/-- `temp_load_config_file`: the settings, whether or not there is a file. -/
def tempLoadConfigFile (enableDigest : Bool) (stray : Nat → Bytes) (file : Option Bytes) :
    TemplateSettings :=
  (asyncLoadConf (tempAssignConfItem enableDigest) stray file (tempConfInit enableDigest)).getD
    (tempConfInit enableDigest)

/-- The number of `$resDigest$` among the variables of a result text. -/
def resDigest : Nat := 16

/-- What `template_load` makes of `enable_digest`, when the result text has the variables
`vars`. -/
def digestMode (conf : TemplateSettings) (vars : List VarAttr) : Int :=
  if conf.enableDigest ≠ 0 then
    if vars.any fun v => v.id == resDigest then 2 else 0
  else conf.enableDigest

/-- The files of the template directory, and of each template's own. -/
structure TemplateFiles where
  table : Option Bytes
  names : Option Bytes
  page : Bytes → Option Bytes
  none : Bytes → Option Bytes
  err : Bytes → Option Bytes
  res : Bytes → Option Bytes
  conf : Bytes → Option Bytes

namespace TemplateFiles

variable (files : TemplateFiles) (enableDigest : Bool) (stray : Bytes → Nat → Bytes)

def settings (tn : Bytes) : TemplateSettings :=
  tempLoadConfigFile enableDigest (stray tn) (files.conf tn)

/-- What `template_load` reads. -/
def dir : TemplateDir where
  table := files.table
  names := files.names
  page := files.page
  none := files.none
  err := files.err
  res := files.res
  conf := fun tn => ⟨(files.settings enableDigest stray tn).escapeBackslash,
    (files.settings enableDigest stray tn).strftimeFmt⟩

end TemplateFiles

example : resvar[resDigest]? = some (ascii "Digest") := by decide

end UiServer
