import UiServer.Conf.Line
import UiServer.Util.Text

/-!
# The settings of the server

`assign_conf_item` is called with each line of `ui.conf`. It compares the key with
one name after the other and returns at the one that is equal; between the names it
corrects settings that are out of range. So a line corrects what it gets to, and a
setting is not corrected by the line that makes it.
-/

namespace UiServer

open CMem

/-- `Conf_t`, the settings that are read from the file. -/
structure UiConf where
  listenPort : Int
  readTmout : Int
  writeTmout : Int
  threadCount : Int
  ipListType : Int
  enableMergeStat : Bool
  topPidNum : Int
  enableUniqueResult : Bool
  needDel : Int
  mustAnd : Int
  needSynonym : Int
  serverTmout : Int
  enablePidRel : Bool
  logPath : Bytes
  logName : Bytes
  logEvent : Int
  logOther : Int
  logSize : Int
  titleLength : Int
  highLightLength : Int
  searchSortDef : Int
  magicUiNum : Int
  magicServerNum : Int
  servType : Int
  magicCommandToken : Bytes
  magicCommand : Bytes
deriving DecidableEq, Inhabited, Repr

def searchSortDefault : Int := 0

def searchSortMin : Int := 0

def searchSortMax : Int := 5

def maxPathLen : Nat := 256

/-- `init_conf`. Nothing sets `serv_type`. -/
def initConf (conf : UiConf) : UiConf :=
  { conf with
    listenPort := 9110
    writeTmout := -1
    readTmout := -1
    threadCount := 4
    ipListType := 1
    enableMergeStat := false
    topPidNum := 10
    enableUniqueResult := true
    needDel := 0
    mustAnd := 0
    needSynonym := 1
    serverTmout := -1
    enablePidRel := false
    logPath := ascii "../logs"
    logName := ascii "ui"
    logEvent := 0xff
    logOther := 0xff
    logSize := 64000000
    titleLength := 0
    highLightLength := 256
    searchSortDef := searchSortDefault
    magicUiNum := 0
    magicServerNum := 0
    magicCommandToken := []
    magicCommand := [] }

/-! ## The keys

The names in the order in which they are compared, in the groups that the
corrections make. -/

/-- The test of `CONF_INT` and `CONF_STR`. -/
def ConfigLine.isKey (line : ConfigLine) (name : Bytes) : Bool :=
  decide (line.keyLen = name.length) && strncasecmpEq line.key name name.length

theorem isKey_iff {line : ConfigLine} {name : Bytes} :
    line.isKey name = true ↔ line.keyLen = name.length ∧
      (line.key.take name.length).map toLower = name.map toLower := by
  rw [ConfigLine.isKey, Bool.and_eq_true, decide_eq_true_iff, strncasecmpEq_iff,
    List.take_length]

/-- A name and what its line assigns. -/
structure ConfKey where
  name : Bytes
  assign : UiConf → Bytes → UiConf

def confInt (name : String) (assign : UiConf → Int → UiConf) : ConfKey :=
  ⟨ascii name, fun conf value => assign conf (atoiText value)⟩

/-- A string setting, in an array of `n` bytes. -/
def confStr (name : String) (n : Nat) (assign : UiConf → Bytes → UiConf) : ConfKey :=
  ⟨ascii name, fun conf value => assign conf (value.take (n - 1))⟩

/-- The names in front of the first correction. -/
def confKeysMerge : List ConfKey :=
  [confInt "Listen_port" fun conf n => { conf with listenPort := n },
    confInt "Read_timeout" fun conf n => { conf with readTmout := n },
    confInt "Write_timeout" fun conf n => { conf with writeTmout := n },
    confInt "Thread_num" fun conf n => { conf with threadCount := n },
    confInt "Ip_list_type" fun conf n => { conf with ipListType := n },
    confInt "Enable_merge_stat" fun conf n => { conf with enableMergeStat := n != 0 },
    confInt "Top_pid_num" fun conf n => { conf with topPidNum := n }]

def confKeysTitle : List ConfKey :=
  [confInt "Enable_unique_result" fun conf n => { conf with enableUniqueResult := n != 0 },
    confInt "Need_del" fun conf n => { conf with needDel := n },
    confInt "Must_and" fun conf n => { conf with mustAnd := n },
    confInt "Need_synonym" fun conf n => { conf with needSynonym := n },
    confInt "Server_read_timeout" fun conf n => { conf with serverTmout := n },
    confStr "Log_path" maxPathLen fun conf s => { conf with logPath := s },
    confStr "Log_name" maxPathLen fun conf s => { conf with logName := s },
    confInt "Log_event" fun conf n => { conf with logEvent := n },
    confInt "Log_other" fun conf n => { conf with logOther := n },
    confInt "Log_size" fun conf n => { conf with logSize := n },
    confInt "Title_length" fun conf n => { conf with titleLength := n }]

def confKeysHighLight : List ConfKey :=
  [confInt "High_light_length" fun conf n => { conf with highLightLength := n }]

def confKeysSort : List ConfKey :=
  [confInt "Def_search_sort" fun conf n => { conf with searchSortDef := n }]

def confKeysLast : List ConfKey :=
  [confInt "Magic_ui_num" fun conf n => { conf with magicUiNum := n },
    confInt "Magic_server_num" fun conf n => { conf with magicServerNum := n },
    confInt "Serv_type" fun conf n => { conf with servType := n },
    confStr "Magic_command_token" 32 fun conf s => { conf with magicCommandToken := s },
    confStr "Magic_command" 32 fun conf s => { conf with magicCommand := s }]

/-- What the line assigns if its key is one of these; the function returns then. -/
def tryKeys (keys : List ConfKey) (conf : UiConf) (line : ConfigLine) : Option UiConf :=
  (keys.find? fun key => line.isKey key.name).map fun key => key.assign conf line.value

/-! ## The corrections

A correction stands behind a group of names. A line gets to it when its key is
none of the names in front of it. -/

def UiConf.fixMerge (conf : UiConf) : UiConf :=
  if conf.topPidNum < 1 then { conf with enableMergeStat := false } else conf

def UiConf.fixTitle (conf : UiConf) : UiConf :=
  if conf.titleLength < 0 then { conf with titleLength := 0 } else conf

def UiConf.fixHighLight (conf : UiConf) : UiConf :=
  if conf.highLightLength < 0 then { conf with highLightLength := 0 } else conf

def UiConf.fixSort (conf : UiConf) : UiConf :=
  let conf :=
    if conf.searchSortDef < searchSortMin then
      { conf with searchSortDef := searchSortDefault }
    else conf
  if searchSortMax < conf.searchSortDef then { conf with searchSortDef := searchSortDefault }
  else conf

/-- Names, and the correction behind them. -/
structure ConfStage where
  keys : List ConfKey
  fix : UiConf → UiConf

def confStages : List ConfStage :=
  [⟨confKeysMerge, UiConf.fixMerge⟩, ⟨confKeysTitle, UiConf.fixTitle⟩,
    ⟨confKeysHighLight, UiConf.fixHighLight⟩, ⟨confKeysSort, UiConf.fixSort⟩, ⟨confKeysLast, id⟩]

def assignStages : List ConfStage → UiConf → ConfigLine → UiConf
  | [], conf, _ => conf
  | stage :: stages, conf, line =>
      match tryKeys stage.keys conf line with
      | some conf => conf
      | none => assignStages stages (stage.fix conf) line

/-- `assign_conf_item`. -/
def assignConfItem (conf : UiConf) (line : ConfigLine) : UiConf := assignStages confStages conf line

/-- `load_conf`, or nothing where it returns `-1`. -/
def loadConf (stray : Nat → Bytes) (file : Option Bytes) (conf : UiConf) : Option UiConf :=
  asyncLoadConf assignConfItem stray file (initConf conf)

end UiServer
