import Mathlib.Data.List.Nodup
import Mathlib.Tactic.MkIffOfInductiveProp
import UiServer.Proofs.ConfRange
import UiServer.Proofs.Written

/-!
# The settings are read back from a file that gives them

A configuration whose settings are in range comes out of `load_conf` as it was put
into the file, in whatever order the lines are, with the names in whatever case, and
whether or not the file repeats a setting or leaves out one that is at its default.
The corrections between the names would spoil this if a half-read configuration could
be out of range; `Partial` says why it is not.
-/

namespace UiServer

open CMem

/-! ## The settings of a configuration

A file gives a configuration when each of its lines gives one of the settings.
What the settings are is a list, in the order of the keys. -/

def uiKeys : List ConfKey := confStages.flatMap ConfStage.keys

def boolText (b : Bool) : Bytes := decimalInt b.toNat

/-- The texts the settings of `u` are written with, in the order of the keys. -/
def uiTexts (u : UiConf) : List Bytes :=
  [decimalInt u.listenPort, decimalInt u.readTmout, decimalInt u.writeTmout,
    decimalInt u.threadCount, decimalInt u.ipListType, boolText u.enableMergeStat,
    decimalInt u.topPidNum, boolText u.enableUniqueResult, decimalInt u.needDel,
    decimalInt u.mustAnd, decimalInt u.needSynonym, decimalInt u.serverTmout, u.logPath,
    u.logName, decimalInt u.logEvent, decimalInt u.logOther, decimalInt u.logSize,
    decimalInt u.titleLength, decimalInt u.highLightLength, decimalInt u.searchSortDef,
    decimalInt u.magicUiNum, decimalInt u.magicServerNum, decimalInt u.servType,
    u.magicCommandToken, u.magicCommand]

def uiInts (u : UiConf) : List Int :=
  [u.listenPort, u.readTmout, u.writeTmout, u.threadCount, u.ipListType, u.topPidNum,
    u.needDel, u.mustAnd, u.needSynonym, u.serverTmout, u.logEvent, u.logOther, u.logSize,
    u.titleLength, u.highLightLength, u.searchSortDef, u.magicUiNum, u.magicServerNum,
    u.servType]

/-- A configuration that a file can give: numbers of 32 bits, strings that their
arrays hold, and all in range. No line sets `enable_pid_rel`. -/
structure UiConf.Proper (u : UiConf) : Prop where
  ints : ∀ n ∈ uiInts u, -2 ^ 31 ≤ n ∧ n < 2 ^ 31
  logPath : u.logPath.length < maxPathLen
  logName : u.logName.length < maxPathLen
  token : u.magicCommandToken.length < 32
  command : u.magicCommand.length < 32
  range : InRange u
  pidRel : u.enablePidRel = false

/-- A key, with the text of a value. -/
structure Entry where
  key : ConfKey
  text : Bytes

def Entry.set (e : Entry) (conf : UiConf) : UiConf := e.key.assign conf e.text

def uiEntries (u : UiConf) : List Entry := (uiKeys.zip (uiTexts u)).map fun e => ⟨e.1, e.2⟩

/-- The line gives the setting; the case of its name does not matter. -/
def Written.Gives (w : Written) (e : Entry) : Prop :=
  sameName w.setting.key e.key.name ∧ w.setting.value = e.text

instance (w : Written) (e : Entry) : Decidable (w.Gives e) := inferInstanceAs (Decidable (_ ∧ _))

/-! ## The keys

No two keys set the same field and no two have the same name, so settings can be
made in either order and twice. That is why neither the order of the lines nor a
repetition matters. -/

/-- The keys set different settings. -/
def ConfKey.Apart (k k' : ConfKey) : Prop :=
  ∀ conf v v', k.assign (k'.assign conf v') v = k'.assign (k.assign conf v) v'

theorem uiKeys_apart : uiKeys.Pairwise ConfKey.Apart := by
  simp only [ConfKey.Apart, uiKeys, confStages, confKeysMerge, confKeysTitle, confKeysHighLight,
    confKeysSort, confKeysLast, confInt, confStr, List.flatMap_cons, List.flatMap_nil,
    List.cons_append, List.nil_append, List.pairwise_cons, List.forall_mem_cons,
    List.Pairwise.nil, List.not_mem_nil, false_imp_iff, implies_true, and_true]

theorem assign_assign : ∀ k ∈ uiKeys, ∀ conf v, k.assign (k.assign conf v) v = k.assign conf v := by
  simp only [uiKeys, confStages, confKeysMerge, confKeysTitle, confKeysHighLight,
    confKeysSort, confKeysLast, confInt, confStr, List.flatMap_cons, List.flatMap_nil,
    List.cons_append, List.nil_append, List.forall_mem_cons, List.not_mem_nil, false_imp_iff,
    implies_true, and_true]

theorem uiKeys_nodup : (uiKeys.map fun k => k.name.map toLower).Nodup := by decide

/-- The name tells the key. -/
theorem eq_of_sameName {k k' : ConfKey} (hk : k ∈ uiKeys) (hk' : k' ∈ uiKeys)
    (h : sameName k.name k'.name) : k = k' :=
  List.inj_on_of_nodup_map uiKeys_nodup hk hk' h

theorem mem_uiKeys {u : UiConf} {e : Entry} (h : e ∈ uiEntries u) : e.key ∈ uiKeys := by
  obtain ⟨p, hp, rfl⟩ := List.mem_map.1 h
  exact (List.of_mem_zip hp).1

/-- Entries of one key are one entry. -/
theorem entry_eq {u : UiConf} {e e' : Entry} (he : e ∈ uiEntries u) (he' : e' ∈ uiEntries u)
    (h : e.key = e'.key) : e = e' := by
  have hnodup : ((uiEntries u).map fun e => e.key.name.map toLower).Nodup := by
    have hkeys : (uiEntries u).map (fun e => e.key.name.map toLower) =
        uiKeys.map fun k => k.name.map toLower := by rfl
    rw [hkeys]
    exact uiKeys_nodup
  exact List.inj_on_of_nodup_map hnodup he he' (by rw [h])

/-- Two settings can be made in either order. -/
theorem set_comm {u : UiConf} {e e' : Entry} (he : e ∈ uiEntries u) (he' : e' ∈ uiEntries u)
    (conf : UiConf) : e.set (e'.set conf) = e'.set (e.set conf) := by
  by_cases hkey : e.key = e'.key
  · rw [entry_eq he he' hkey]
  · have hpair : uiKeys.Pairwise fun k k' => k ≠ k' → k.Apart k' :=
      uiKeys_apart.imp fun {k k'} h (_ : k ≠ k') => h
    have hflip : uiKeys.Pairwise (flip fun k k' => k ≠ k' → k.Apart k') :=
      uiKeys_apart.imp fun h _ conf v v' => (h conf v' v).symm
    exact List.Pairwise.forall_of_forall_of_flip (fun k _ hne => absurd rfl hne) hpair hflip
      (mem_uiKeys he) (mem_uiKeys he') hkey conf e.text e'.text

theorem set_set {u : UiConf} {e : Entry} (he : e ∈ uiEntries u) (conf : UiConf) :
    e.set (e.set conf) = e.set conf :=
  assign_assign e.key (mem_uiKeys he) conf e.text

/-! ## A configuration half read

The settings that have been read are those of `u` and the others are at their
defaults, and both are in range. So no correction changes anything, and a line
does what its key does. -/

/-- The settings that are corrected are at their defaults or as in `u`. -/
@[mk_iff] structure Partial (u conf : UiConf) : Prop where
  merge : conf.enableMergeStat = false ∨ conf.enableMergeStat = u.enableMergeStat
  topPid : conf.topPidNum = 10 ∨ conf.topPidNum = u.topPidNum
  title : conf.titleLength = 0 ∨ conf.titleLength = u.titleLength
  highLight : conf.highLightLength = 256 ∨ conf.highLightLength = u.highLightLength
  sort : conf.searchSortDef = searchSortDefault ∨ conf.searchSortDef = u.searchSortDef
  pidRel : conf.enablePidRel = false

theorem Partial.inRange {u conf : UiConf} (h : Partial u conf) (hu : InRange u) :
    InRange conf := by
  obtain ⟨hmerge, htop, htitle, hhigh, hsort, _⟩ := h
  refine ⟨?_, ?_, ?_, fun hlow => ?_⟩
  · have := hu.title
    omega
  · have := hu.highLight
    omega
  · rcases hsort with h | h <;> rw [h]
    · decide
    · exact hu.sort
  · rcases hmerge with h | h
    · exact h
    · rw [h]
      refine hu.merge ?_
      rcases htop with h | h
      · omega
      · rw [← h]
        exact hlow

/-- In range, nothing is corrected. -/
theorem fix_eq_self {conf : UiConf} (h : InRange conf) :
    ∀ stage ∈ confStages, stage.fix conf = conf := by
  have hmerge : conf.fixMerge = conf := by
    rw [UiConf.fixMerge]
    split
    · next hlow =>
        have hoff := h.merge hlow
        rw [← hoff]
    · rfl
  have htitle : conf.fixTitle = conf := if_neg (Int.not_lt.2 h.title)
  have hhigh : conf.fixHighLight = conf := if_neg (Int.not_lt.2 h.highLight)
  have hsort : conf.fixSort = conf := by
    obtain ⟨hmin, hmax⟩ := h.sort
    rw [UiConf.fixSort, if_neg (Int.not_lt.2 hmin)]
    exact if_neg (Int.not_lt.2 hmax)
  simp only [confStages, List.forall_mem_cons, List.not_mem_nil, false_imp_iff, implies_true,
    hmerge, htitle, hhigh, hsort, id, and_self]

/-- Then a line does what its key does. -/
theorem assignStages_of_fixed {conf : UiConf} {line : ConfigLine} :
    ∀ {stages : List ConfStage}, (∀ stage ∈ stages, stage.fix conf = conf) →
      assignStages stages conf line =
        (tryKeys (stages.flatMap ConfStage.keys) conf line).getD conf := by
  intro stages
  induction stages with
  | nil => exact fun _ => rfl
  | cons stage stages ih =>
      intro hfix
      obtain ⟨hone, hrest⟩ := List.forall_mem_cons.1 hfix
      rw [assignStages, List.flatMap_cons, tryKeys, tryKeys, List.find?_append]
      cases stage.keys.find? fun key => line.isKey key.name with
      | some key => rfl
      | none =>
          rw [Option.map_none, Option.none_or]
          show assignStages stages (stage.fix conf) line = _
          rw [hone, ih hrest, tryKeys]

/-- The line that is read tells the setting. -/
structure Tells (line : ConfigLine) (e : Entry) : Prop where
  key : line.isKey e.key.name = true
  value : line.value = e.text

theorem Written.Gives.tells {w : Written} {e : Entry} {line : ConfigLine} (h : w.Gives e)
    (hread : w.Read line) : Tells line e := by
  have hlen : w.setting.key.length = e.key.name.length := by
    simpa using congrArg List.length h.1
  have hkey := hread.back.key
  rw [hread.back.keyLen, Int.toNat_natCast, hlen] at hkey
  refine ⟨isKey_iff.2 ⟨by rw [hread.back.keyLen, hlen], ?_⟩, hread.back.value.trans h.2⟩
  rw [hkey]
  exact h.1

theorem Tells.assign {u conf : UiConf} {line : ConfigLine} {e : Entry} (h : Tells line e)
    (he : e ∈ uiEntries u) (hconf : InRange conf) : assignConfItem conf line = e.set conf := by
  rw [assignConfItem, assignStages_of_fixed (fix_eq_self hconf)]
  show (tryKeys uiKeys conf line).getD conf = e.set conf
  rw [tryKeys]
  cases hfind : uiKeys.find? fun key => line.isKey key.name with
  | none =>
      have hno := List.find?_eq_none.1 hfind e.key (mem_uiKeys he)
      exact absurd h.key hno
  | some key =>
      have hkey : key = e.key := eq_of_sameName (List.mem_of_find?_eq_some hfind)
        (mem_uiKeys he) (sameName_of_isKey (by simpa using List.find?_some hfind) h.key)
      rw [hkey, Option.map_some, Option.getD_some, h.value]
      rfl

/-! ## What the settings of a configuration make

Made one after the other the settings give the configuration. Then so does any
configuration that has them all, in whatever order it has come by them. -/

theorem atoiText_boolText (b : Bool) : (atoiText (boolText b) != 0) = b := by
  cases b <;> decide

theorem UiConf.Proper.partial_set {u conf : UiConf} (hu : u.Proper) (h : Partial u conf) :
    ∀ e ∈ uiEntries u, Partial u (e.set conf) := by
  have hatoi : ∀ n ∈ uiInts u, atoiText (decimalInt n) = n :=
    fun n hn => atoiText_decimalInt (hu.ints n hn).1 (hu.ints n hn).2
  obtain ⟨hmerge, htop, htitle, hhigh, hsort, hpid⟩ := h
  simp only [uiInts, List.forall_mem_cons] at hatoi
  simp only [uiEntries, uiKeys, uiTexts, confStages, confKeysMerge, confKeysTitle,
    confKeysHighLight, confKeysSort, confKeysLast, confInt, confStr, List.flatMap_cons,
    List.flatMap_nil, List.cons_append, List.nil_append, List.zip_cons_cons,
    List.zip_nil_left, List.map_cons, List.map_nil, List.forall_mem_cons, Entry.set,
    atoiText_boolText, hatoi, partial_iff, hmerge, htop, htitle, hhigh, hsort, hpid, or_true, and_self,
    List.not_mem_nil, false_imp_iff, implies_true]

/-- Made one after the other the settings are the configuration. -/
theorem UiConf.Proper.foldl_set {u : UiConf} (hu : u.Proper) (conf : UiConf) :
    (uiEntries u).foldl (fun conf e => e.set conf) conf =
      { u with enablePidRel := conf.enablePidRel } := by
  have hatoi : ∀ n ∈ uiInts u, atoiText (decimalInt n) = n :=
    fun n hn => atoiText_decimalInt (hu.ints n hn).1 (hu.ints n hn).2
  have hpath : u.logPath.take (maxPathLen - 1) = u.logPath :=
    List.take_of_length_le (Nat.le_sub_one_of_lt hu.logPath)
  have hname : u.logName.take (maxPathLen - 1) = u.logName :=
    List.take_of_length_le (Nat.le_sub_one_of_lt hu.logName)
  have htoken : u.magicCommandToken.take (32 - 1) = u.magicCommandToken :=
    List.take_of_length_le (Nat.le_sub_one_of_lt hu.token)
  have hcommand : u.magicCommand.take (32 - 1) = u.magicCommand :=
    List.take_of_length_le (Nat.le_sub_one_of_lt hu.command)
  simp only [uiInts, List.forall_mem_cons] at hatoi
  simp only [uiEntries, uiKeys, uiTexts, confStages, confKeysMerge, confKeysTitle,
    confKeysHighLight, confKeysSort, confKeysLast, confInt, confStr, List.flatMap_cons,
    List.flatMap_nil, List.cons_append, List.nil_append, List.zip_cons_cons,
    List.zip_nil_left, List.map_cons, List.map_nil, List.foldl_cons, List.foldl_nil, Entry.set,
    atoiText_boolText, hatoi, hpath, hname, htoken, hcommand]

/-- A configuration that agrees with every setting of `u` is `u`. -/
theorem UiConf.Proper.eq_of_set {u conf : UiConf} (hu : u.Proper) (hpid : conf.enablePidRel = false)
    (h : ∀ e ∈ uiEntries u, e.set conf = conf) : conf = u := by
  have hstay : ∀ es : List Entry, (∀ e ∈ es, e.set conf = conf) →
      es.foldl (fun conf e => e.set conf) conf = conf := by
    intro es
    induction es with
    | nil => exact fun _ => rfl
    | cons e es ih =>
        intro hes
        obtain ⟨he, hes⟩ := List.forall_mem_cons.1 hes
        rw [List.foldl_cons, he, ih hes]
  have hfold := hu.foldl_set conf
  rw [hstay _ h, hpid] at hfold
  rw [hfold, ← hu.pidRel]

/-! ## The file

Every line tells its setting, nothing is corrected in between, and a setting that
no line gives is at its default from the start. -/

theorem partial_init (u start : UiConf) : Partial u (initConf start) :=
  ⟨.inl rfl, .inl rfl, .inl rfl, .inl rfl, .inl rfl, rfl⟩

/-- Every line of the file gives a setting of `u`, and every setting of `u` is given
by a line or is at its default: then the file is loaded as `u`. -/
theorem loadConf_written {u start : UiConf} {stray : Nat → Bytes} {ws : List Written}
    (hu : u.Proper) (hgives : ∀ w ∈ ws, ∃ e ∈ uiEntries u, w.Gives e)
    (hall : ∀ e ∈ uiEntries u,
      (∃ w ∈ ws, w.Gives e) ∨ e.set (initConf start) = initConf start) :
    loadConf stray (some (written ws)) start = some u := by
  obtain ⟨hlines, hread⟩ := mem_of_forall₂ (settings_written stray ws)
  have hok : ∀ line ∈ settings stray (written ws), ∃ e ∈ uiEntries u, Tells line e := by
    intro line hline
    obtain ⟨w, hw, hwline⟩ := hread line hline
    obtain ⟨e, he, hgive⟩ := hgives w hw
    exact ⟨e, he, hgive.tells hwline⟩
  have hstep : ∀ {conf line}, Partial u conf → (∃ e ∈ uiEntries u, Tells line e) →
      Partial u (assignConfItem conf line) := by
    rintro conf line hconf ⟨e, he, htell⟩
    rw [htell.assign he (hconf.inRange hu.range)]
    exact hu.partial_set hconf e he
  -- a line settles its entry: from then on setting it does nothing
  have hown : ∀ {conf line e}, Partial u conf → (∃ e ∈ uiEntries u, Tells line e) →
      e ∈ uiEntries u → Tells line e → e.set (assignConfItem conf line) =
        assignConfItem conf line := by
    intro conf line e hconf _ he htell
    rw [htell.assign he (hconf.inRange hu.range), set_set he]
  have hkeep : ∀ {conf line e}, Partial u conf → (∃ e ∈ uiEntries u, Tells line e) →
      e ∈ uiEntries u → e.set conf = conf →
        e.set (assignConfItem conf line) = assignConfItem conf line := by
    rintro conf line e hconf ⟨e', he', htell⟩ he hset
    rw [htell.assign he' (hconf.inRange hu.range), set_comm he he', hset]
  have hend := Settled.foldl_inv hstep (partial_init u start) hok
  rw [loadConf, asyncLoadConf_eq, Option.map_some]
  refine congrArg some (hu.eq_of_set hend.pidRel fun e he => ?_)
  refine Settled.foldl_settled (I := Partial u) (K := fun e => e ∈ uiEntries u)
    (F := fun e conf => e.set conf = conf) hstep hown hkeep he (partial_init u start) hok ?_
  rcases hall e he with ⟨w, hw, hgive⟩ | hdefault
  · obtain ⟨line, hline, hwline⟩ := hlines w hw
    exact Or.inr ⟨line, hline, hgive.tells hwline⟩
  · exact Or.inl hdefault

def titleSetting : Setting :=
  ⟨ascii "title_LENGTH", ascii "30", by decide, by decide, by decide, by decide, by decide,
    by decide, by decide, by decide, by decide, by decide⟩

def commandSetting : Setting :=
  ⟨ascii "Magic_command", ascii "uptime -p", by decide, by decide, by decide, by decide,
    by decide, by decide, by decide, by decide, by decide, by decide⟩

/-- The command, then the length of a title, twice and with different line ends. -/
def shortFile : List Written :=
  [⟨commandSetting, 0, 0, 1, false, by decide, by decide, by decide⟩,
    ⟨titleSetting, 2, 1, 1, true, by decide, by decide, by decide⟩,
    ⟨titleSetting, 0, 1, 0, false, by decide, by decide, by decide⟩]

theorem loadConf_written_short :
    loadConf (fun _ => [58]) (some (written shortFile)) default =
      some { initConf default with titleLength := 30, magicCommand := ascii "uptime -p" } :=
  loadConf_written
    ⟨by decide, by decide, by decide, by decide, by decide,
      ⟨by decide, by decide, by decide, by decide⟩, rfl⟩
    (by decide +kernel) (by decide +kernel)

end UiServer
