import UiServer.Conf.Settings
import UiServer.Lib.Register

/-!
# Settings in range

A line of `ui.conf` corrects the settings whose names it is compared with in vain.
So a setting that is out of range is put right by a later line that gets past its
name, or by a later line of the same name, and by nothing else: when such a line
does not come, the setting stays as it is (`loadConf_inRange_iff`).
-/

namespace UiServer

open CMem

/-! ## What a line does to a setting

The names of `ui.conf` are tried in order and the corrections stand between them,
so a line that is assigned under a name does not come to the corrections behind
it. For one setting a line sets it, mends it, or does neither. -/

/-- Two names are one key. -/
def sameName (a b : Bytes) : Prop := a.map toLower = b.map toLower

instance (a b : Bytes) : Decidable (sameName a b) := inferInstanceAs (Decidable (_ = _))

theorem sameName_of_isKey {line : ConfigLine} {a b : Bytes} (ha : line.isKey a = true)
    (hb : line.isKey b = true) : sameName a b := by
  obtain ⟨hla, ha⟩ := isKey_iff.1 ha
  obtain ⟨hlb, hb⟩ := isKey_iff.1 hb
  have hlen : a.length = b.length := by omega
  rw [sameName, ← ha, ← hb, hlen]

theorem isKey_of_sameName {line : ConfigLine} {a b : Bytes} (h : sameName a b)
    (ha : line.isKey a = true) : line.isKey b = true := by
  obtain ⟨hla, ha⟩ := isKey_iff.1 ha
  have hlen : a.length = b.length := by simpa using congrArg List.length h
  rw [isKey_iff, ← hlen]
  exact ⟨hla, ha.trans h⟩

/-- The line is compared with each of the names in vain. -/
def ConfigLine.passes (line : ConfigLine) (keys : List ConfKey) : Prop :=
  ∀ key ∈ keys, line.isKey key.name = false

instance (line : ConfigLine) (keys : List ConfKey) : Decidable (line.passes keys) :=
  List.decidableBAll _ _

theorem passes_append {line : ConfigLine} {keys keys' : List ConfKey} :
    line.passes (keys ++ keys') ↔ line.passes keys ∧ line.passes keys' :=
  List.forall_mem_append

theorem tryKeys_eq_none {keys : List ConfKey} {conf : UiConf} {line : ConfigLine} :
    tryKeys keys conf line = none ↔ line.passes keys := by
  rw [tryKeys, Option.map_eq_none_iff, List.find?_eq_none]
  simp only [Bool.not_eq_true, ConfigLine.passes]

/-- The setting `item` is assigned under `name`, and under no other name. -/
def Assigns {β : Type} (item : UiConf → β) (name : Bytes) (value : Bytes → β)
    (keys : List ConfKey) : Prop :=
  ∀ key ∈ keys, ∀ conf v,
    item (key.assign conf v) = if sameName key.name name then value v else item conf

theorem tryKeys_item {β : Type} {item : UiConf → β} {name : Bytes} {value : Bytes → β}
    {keys : List ConfKey} (h : Assigns item name value keys) {conf conf' : UiConf}
    {line : ConfigLine} (ht : tryKeys keys conf line = some conf') :
    item conf' = if line.isKey name = true then value line.value else item conf := by
  obtain ⟨key, hfind, rfl⟩ := Option.map_eq_some_iff.1 ht
  have hkey : line.isKey key.name = true := by simpa using List.find?_some hfind
  rw [h key (List.mem_of_find?_eq_some hfind)]
  by_cases hname : line.isKey name = true
  · rw [if_pos hname, if_pos (sameName_of_isKey hkey hname)]
  · rw [if_neg hname, if_neg fun hsame => hname (isKey_of_sameName hsame hkey)]

/-- The corrections of these stages leave the setting alone. -/
def Leaves {β : Type} (item : UiConf → β) (stages : List ConfStage) : Prop :=
  ∀ stage ∈ stages, ∀ conf, item (stage.fix conf) = item conf

/-- Stages that do not correct a setting assign it or leave it. -/
theorem assignStages_item {β : Type} {item : UiConf → β} {name : Bytes} {value : Bytes → β}
    {line : ConfigLine} (hname : line.isKey name = false) : ∀ {stages : List ConfStage},
    (∀ stage ∈ stages, Assigns item name value stage.keys) → Leaves item stages →
    ∀ conf, item (assignStages stages conf line) = item conf := by
  intro stages
  induction stages with
  | nil => exact fun _ _ _ => rfl
  | cons stage stages ih =>
      intro hassign hleave conf
      obtain ⟨hkeys, hassign⟩ := List.forall_mem_cons.1 hassign
      obtain ⟨hfix, hleave⟩ := List.forall_mem_cons.1 hleave
      rw [assignStages]
      split
      · next conf' ht => rw [tryKeys_item hkeys ht, if_neg (by simp [hname])]
      · rw [ih hassign hleave, hfix]

/-- What a line does to a setting: it sets it, or it corrects it if it gets past the
names in front of the correction. -/
theorem assignStages_fixed {β : Type} {item : UiConf → β} {name : Bytes} {value : Bytes → β}
    {line : ConfigLine} {stage : ConfStage} {after : List ConfStage} {mend : UiConf → β}
    (hmend : ∀ conf, item (stage.fix conf) = mend conf)
    (hstage : Assigns item name value stage.keys)
    (hafter : ∀ s ∈ after, Assigns item name value s.keys) (hleave : Leaves item after)
    (hlisted : ∃ key ∈ stage.keys, sameName key.name name) :
    ∀ {front : List ConfStage}, (∀ s ∈ front, Assigns item name value s.keys) →
    Leaves item front → Leaves mend front → ∀ conf,
    item (assignStages (front ++ stage :: after) conf line) =
      if line.isKey name = true then value line.value
      else if line.passes (front.flatMap ConfStage.keys ++ stage.keys) then mend conf
      else item conf := by
  intro front
  induction front with
  | nil =>
      intro _ _ _ conf
      rw [List.nil_append, List.flatMap_nil, List.nil_append, assignStages]
      cases ht : tryKeys stage.keys conf line with
      | some conf' =>
          have hpass : ¬ line.passes stage.keys := fun h => by
            rw [tryKeys_eq_none.2 h] at ht
            cases ht
          rw [if_neg hpass]
          exact tryKeys_item hstage ht
      | none =>
          have hpass := tryKeys_eq_none.1 ht
          have hname : line.isKey name = false := by
            obtain ⟨key, hkey, hsame⟩ := hlisted
            refine Bool.eq_false_iff.2 fun h => ?_
            have := isKey_of_sameName hsame.symm h
            rw [hpass key hkey] at this
            cases this
          rw [if_neg (by simp [hname]), if_pos hpass]
          exact (assignStages_item hname hafter hleave _).trans (hmend conf)
  | cons s front ih =>
      intro hfront hleave' hsame conf
      obtain ⟨hkeys, hfront⟩ := List.forall_mem_cons.1 hfront
      obtain ⟨hfix, hleave'⟩ := List.forall_mem_cons.1 hleave'
      obtain ⟨hmendfix, hsame⟩ := List.forall_mem_cons.1 hsame
      rw [List.cons_append, List.flatMap_cons, List.append_assoc, assignStages]
      cases ht : tryKeys s.keys conf line with
      | some conf' =>
          have hpass : ¬ line.passes (s.keys ++ (front.flatMap ConfStage.keys ++ stage.keys)) :=
            fun h => by
              rw [tryKeys_eq_none.2 (passes_append.1 h).1] at ht
              cases ht
          rw [if_neg hpass]
          exact tryKeys_item hkeys ht
      | none =>
          have hpass := tryKeys_eq_none.1 ht
          show item (assignStages (front ++ stage :: after) (s.fix conf) line) = _
          rw [ih hfront hleave' hsame, hfix, hmendfix]
          simp only [passes_append, hpass, true_and]

/-! ## The settings with a range

Each of them has one name and one correction, and the other corrections leave it
alone. The lines are the changes of a register, whose library says when it ends in
range. -/

def mergeName : Bytes := ascii "Enable_merge_stat"

def topPidName : Bytes := ascii "Top_pid_num"

def titleName : Bytes := ascii "Title_length"

def highLightName : Bytes := ascii "High_light_length"

def sortName : Bytes := ascii "Def_search_sort"

def InSortRange (n : Int) : Prop := searchSortMin ≤ n ∧ n ≤ searchSortMax

instance (n : Int) : Decidable (InSortRange n) := inferInstanceAs (Decidable (_ ∧ _))

/-- Each of them is assigned under its own name only. -/
theorem assigns_range : ∀ stage ∈ confStages,
    Assigns UiConf.enableMergeStat mergeName (fun v => atoiText v != 0) stage.keys ∧
      Assigns UiConf.topPidNum topPidName atoiText stage.keys ∧
      Assigns UiConf.titleLength titleName atoiText stage.keys ∧
      Assigns UiConf.highLightLength highLightName atoiText stage.keys ∧
      Assigns UiConf.searchSortDef sortName atoiText stage.keys := by
  simp only [confStages, confKeysMerge, confKeysTitle, confKeysHighLight, confKeysSort,
    confKeysLast, Assigns, List.forall_mem_cons, List.not_mem_nil, false_implies,
    implies_true, and_true]
  repeat' apply And.intro
  all_goals exact fun _ _ => rfl

/-- A setting that is not what a correction is about. -/
theorem fixMerge_other {β : Type} {item : UiConf → β}
    (h : ∀ conf b, item { conf with enableMergeStat := b } = item conf) (conf : UiConf) :
    item conf.fixMerge = item conf := by
  rw [UiConf.fixMerge]
  split
  · exact h conf false
  · rfl

theorem fixTitle_other {β : Type} {item : UiConf → β}
    (h : ∀ conf n, item { conf with titleLength := n } = item conf) (conf : UiConf) :
    item conf.fixTitle = item conf := by
  rw [UiConf.fixTitle]
  split
  · exact h conf 0
  · rfl

theorem fixHighLight_other {β : Type} {item : UiConf → β}
    (h : ∀ conf n, item { conf with highLightLength := n } = item conf) (conf : UiConf) :
    item conf.fixHighLight = item conf := by
  rw [UiConf.fixHighLight]
  split
  · exact h conf 0
  · rfl

theorem fixSort_other {β : Type} {item : UiConf → β}
    (h : ∀ conf n, item { conf with searchSortDef := n } = item conf) (conf : UiConf) :
    item conf.fixSort = item conf := by
  simp only [UiConf.fixSort]
  split
  · split
    · exact (h _ _).trans (h conf _)
    · exact h conf _
  · split
    · exact h conf _
    · rfl

def mendLength (n : Int) : Int := if 0 ≤ n then n else 0

def mendSort (n : Int) : Int := if InSortRange n then n else searchSortDefault

theorem fixSort_sort (conf : UiConf) :
    conf.fixSort.searchSortDef = mendSort conf.searchSortDef := by
  simp only [UiConf.fixSort, mendSort]
  by_cases hlow : conf.searchSortDef < searchSortMin
  · have hrange : ¬ InSortRange conf.searchSortDef := fun h => absurd h.1 (Int.not_le.2 hlow)
    rw [if_pos hlow, if_neg hrange]
    rfl
  · rw [if_neg hlow]
    by_cases hhigh : searchSortMax < conf.searchSortDef
    · have hrange : ¬ InSortRange conf.searchSortDef := fun h => absurd h.2 (Int.not_le.2 hhigh)
      rw [if_pos hhigh, if_neg hrange]
    · have hrange : InSortRange conf.searchSortDef := ⟨Int.not_lt.1 hlow, Int.not_lt.1 hhigh⟩
      rw [if_neg hhigh, if_pos hrange]

/-- What a line does to a setting that is corrected behind `keys`. -/
def change (name : Bytes) (keys : List ConfKey) (line : ConfigLine) : Register.Change Int :=
  if line.isKey name = true then .set (atoiText line.value)
  else if line.passes keys then .fix
  else .keep

theorem change_apply {ok : Int → Prop} [DecidablePred ok] {d n : Int} {name : Bytes}
    {keys : List ConfKey} {line : ConfigLine} :
    (change name keys line).apply ok d n =
      if line.isKey name = true then atoiText line.value
      else if line.passes keys then (if ok n then n else d) else n := by
  rw [change]
  split
  · rfl
  · split <;> rfl

/-- The names a line is compared with before the title, the highlight and the order
are corrected. -/
def titleKeys : List ConfKey := confKeysMerge ++ confKeysTitle

def highLightKeys : List ConfKey := titleKeys ++ confKeysHighLight

def sortKeys : List ConfKey := highLightKeys ++ confKeysSort

/-- What a stage assigns holds of the stages of a part. -/
theorem assigns_part {β : Type} {item : UiConf → β} {name : Bytes} {value : Bytes → β}
    (h : ∀ stage ∈ confStages, Assigns item name value stage.keys) {part : List ConfStage}
    (hpart : part.Sublist confStages) : ∀ stage ∈ part, Assigns item name value stage.keys :=
  fun stage hstage => h stage (hpart.subset hstage)

theorem assignConfItem_topPid (conf : UiConf) (line : ConfigLine) :
    (assignConfItem conf line).topPidNum =
      if line.isKey topPidName = true then atoiText line.value else conf.topPidNum := by
  have hassign := fun stage hstage => (assigns_range stage hstage).2.1
  have hfix : ∀ conf : UiConf, conf.fixMerge.topPidNum = conf.topPidNum :=
    fixMerge_other fun _ _ => rfl
  have hafter : Leaves UiConf.topPidNum confStages.tail :=
    List.forall_mem_cons.2 ⟨fixTitle_other fun _ _ => rfl,
      List.forall_mem_cons.2 ⟨fixHighLight_other fun _ _ => rfl,
        List.forall_mem_cons.2 ⟨fixSort_other fun _ _ => rfl,
          List.forall_mem_singleton.2 fun _ => rfl⟩⟩⟩
  have h := @assignStages_fixed _ UiConf.topPidNum topPidName atoiText line
    ⟨confKeysMerge, UiConf.fixMerge⟩ confStages.tail UiConf.topPidNum hfix
    (hassign _ (List.mem_cons_self ..)) (assigns_part hassign (List.tail_sublist _)) hafter
    (by decide) [] nofun nofun nofun conf
  rw [assignConfItem]
  refine h.trans ?_
  split
  · rfl
  · split <;> rfl

theorem assignConfItem_merge (conf : UiConf) (line : ConfigLine) :
    (assignConfItem conf line).enableMergeStat =
      if line.isKey mergeName = true then atoiText line.value != 0
      else if line.passes confKeysMerge then
        (if conf.topPidNum < 1 then false else conf.enableMergeStat)
      else conf.enableMergeStat := by
  have hassign := fun stage hstage => (assigns_range stage hstage).1
  have hfix : ∀ conf : UiConf, conf.fixMerge.enableMergeStat =
      if conf.topPidNum < 1 then false else conf.enableMergeStat := by
    intro conf
    rw [UiConf.fixMerge]
    split <;> rfl
  have hafter : Leaves UiConf.enableMergeStat confStages.tail :=
    List.forall_mem_cons.2 ⟨fixTitle_other fun _ _ => rfl,
      List.forall_mem_cons.2 ⟨fixHighLight_other fun _ _ => rfl,
        List.forall_mem_cons.2 ⟨fixSort_other fun _ _ => rfl,
          List.forall_mem_singleton.2 fun _ => rfl⟩⟩⟩
  exact @assignStages_fixed _ UiConf.enableMergeStat mergeName (fun v => atoiText v != 0) line
    ⟨confKeysMerge, UiConf.fixMerge⟩ confStages.tail
    (fun conf => if conf.topPidNum < 1 then false else conf.enableMergeStat) hfix
    (hassign _ (List.mem_cons_self ..)) (assigns_part hassign (List.tail_sublist _)) hafter
    (by decide) [] nofun nofun nofun conf

theorem assignConfItem_title (conf : UiConf) (line : ConfigLine) :
    (assignConfItem conf line).titleLength =
      (change titleName titleKeys line).apply (0 ≤ ·) 0 conf.titleLength := by
  have hassign := fun stage hstage => (assigns_range stage hstage).2.2.1
  have hfix : ∀ conf : UiConf, conf.fixTitle.titleLength = mendLength conf.titleLength := by
    intro conf
    rw [UiConf.fixTitle, mendLength]
    split
    · next h => rw [if_neg (Int.not_le.2 h)]
    · next h => rw [if_pos (Int.not_lt.1 h)]
  have hfront : ∀ conf : UiConf, conf.fixMerge.titleLength = conf.titleLength :=
    fixMerge_other fun _ _ => rfl
  have hafter : Leaves UiConf.titleLength (confStages.drop 2) :=
    List.forall_mem_cons.2 ⟨fixHighLight_other fun _ _ => rfl,
      List.forall_mem_cons.2 ⟨fixSort_other fun _ _ => rfl,
        List.forall_mem_singleton.2 fun _ => rfl⟩⟩
  rw [change_apply]
  exact @assignStages_fixed _ UiConf.titleLength titleName atoiText line
    ⟨confKeysTitle, UiConf.fixTitle⟩ (confStages.drop 2)
    (fun conf => mendLength conf.titleLength) hfix
    (hassign _ (by simp [confStages])) (assigns_part hassign (List.drop_sublist 2 _)) hafter
    (by decide) (confStages.take 1) (assigns_part hassign (List.take_sublist 1 _))
    (List.forall_mem_singleton.2 hfront)
    (List.forall_mem_singleton.2 fun conf => congrArg mendLength (hfront conf)) conf

theorem assignConfItem_highLight (conf : UiConf) (line : ConfigLine) :
    (assignConfItem conf line).highLightLength =
      (change highLightName highLightKeys line).apply (0 ≤ ·) 0 conf.highLightLength := by
  have hassign := fun stage hstage => (assigns_range stage hstage).2.2.2.1
  have hfix : ∀ conf : UiConf,
      conf.fixHighLight.highLightLength = mendLength conf.highLightLength := by
    intro conf
    rw [UiConf.fixHighLight, mendLength]
    split
    · next h => rw [if_neg (Int.not_le.2 h)]
    · next h => rw [if_pos (Int.not_lt.1 h)]
  have hmerge : ∀ conf : UiConf, conf.fixMerge.highLightLength = conf.highLightLength :=
    fixMerge_other fun _ _ => rfl
  have htitle : ∀ conf : UiConf, conf.fixTitle.highLightLength = conf.highLightLength :=
    fixTitle_other fun _ _ => rfl
  have hafter : Leaves UiConf.highLightLength (confStages.drop 3) :=
    List.forall_mem_cons.2 ⟨fixSort_other fun _ _ => rfl,
      List.forall_mem_singleton.2 fun _ => rfl⟩
  rw [change_apply]
  exact @assignStages_fixed _ UiConf.highLightLength highLightName atoiText line
    ⟨confKeysHighLight, UiConf.fixHighLight⟩ (confStages.drop 3)
    (fun conf => mendLength conf.highLightLength) hfix
    (hassign _ (by simp [confStages])) (assigns_part hassign (List.drop_sublist 3 _)) hafter
    (by decide) (confStages.take 2) (assigns_part hassign (List.take_sublist 2 _))
    (List.forall_mem_cons.2 ⟨hmerge, List.forall_mem_singleton.2 htitle⟩)
    (List.forall_mem_cons.2 ⟨fun conf => congrArg mendLength (hmerge conf),
      List.forall_mem_singleton.2 fun conf => congrArg mendLength (htitle conf)⟩) conf

theorem assignConfItem_sort (conf : UiConf) (line : ConfigLine) :
    (assignConfItem conf line).searchSortDef =
      (change sortName sortKeys line).apply InSortRange searchSortDefault
        conf.searchSortDef := by
  have hassign := fun stage hstage => (assigns_range stage hstage).2.2.2.2
  have hmerge : ∀ conf : UiConf, conf.fixMerge.searchSortDef = conf.searchSortDef :=
    fixMerge_other fun _ _ => rfl
  have htitle : ∀ conf : UiConf, conf.fixTitle.searchSortDef = conf.searchSortDef :=
    fixTitle_other fun _ _ => rfl
  have hhigh : ∀ conf : UiConf, conf.fixHighLight.searchSortDef = conf.searchSortDef :=
    fixHighLight_other fun _ _ => rfl
  have hafter : Leaves UiConf.searchSortDef (confStages.drop 4) :=
    List.forall_mem_singleton.2 fun _ => rfl
  rw [change_apply]
  exact @assignStages_fixed _ UiConf.searchSortDef sortName atoiText line
    ⟨confKeysSort, UiConf.fixSort⟩ (confStages.drop 4)
    (fun conf => mendSort conf.searchSortDef) fixSort_sort
    (hassign _ (by simp [confStages])) (assigns_part hassign (List.drop_sublist 4 _)) hafter
    (by decide) (confStages.take 3) (assigns_part hassign (List.take_sublist 3 _))
    (List.forall_mem_cons.2 ⟨hmerge,
      List.forall_mem_cons.2 ⟨htitle, List.forall_mem_singleton.2 hhigh⟩⟩)
    (List.forall_mem_cons.2 ⟨fun conf => congrArg mendSort (hmerge conf),
      List.forall_mem_cons.2 ⟨fun conf => congrArg mendSort (htitle conf),
        List.forall_mem_singleton.2 fun conf => congrArg mendSort (hhigh conf)⟩⟩) conf

/-! ## The lines of a file

Over the lines of a file the register is set and mended. It ends in range if and
only if each change that takes it out of range has another behind it, and this is
read back in the words of the lines. -/

theorem foldl_range {item : UiConf → Int} {ok : Int → Prop} [DecidablePred ok] {d : Int}
    {name : Bytes} {keys : List ConfKey}
    (h : ∀ conf line,
      item (assignConfItem conf line) = (change name keys line).apply ok d (item conf)) :
    ∀ (lines : List ConfigLine) (conf : UiConf),
      item (lines.foldl assignConfItem conf) =
        Register.run ok d (lines.map (change name keys)) (item conf) := by
  intro lines
  induction lines with
  | nil => intro conf; rfl
  | cons line lines ih =>
      intro conf
      rw [List.foldl_cons, ih, h]
      rfl

/-- Each line that sets `name` out of range has a line behind it that sets it again
or gets past the names in front of the correction. -/
def Mends (ok : Int → Prop) (name : Bytes) (keys : List ConfKey) (lines : List ConfigLine) :
    Prop :=
  ∀ line post, line :: post <:+ lines → line.isKey name = true → ¬ ok (atoiText line.value) →
    ∃ l ∈ post, l.isKey name = true ∨ l.passes keys

theorem change_ne_keep {name : Bytes} {keys : List ConfKey} {line : ConfigLine} :
    change name keys line ≠ .keep ↔ line.isKey name = true ∨ line.passes keys := by
  rw [change]
  split
  · next h => simp [h]
  · next h =>
      split
      · next hpass => simp [hpass]
      · next hpass => simp [h, hpass]

theorem change_eq_set {name : Bytes} {keys : List ConfKey} {line : ConfigLine} {n : Int} :
    change name keys line = .set n ↔ line.isKey name = true ∧ atoiText line.value = n := by
  rw [change]
  split
  · next h => simp [h]
  · next h => split <;> simp [h]

theorem mends_cons {ok : Int → Prop} {name : Bytes} {keys : List ConfKey} {line : ConfigLine}
    {lines : List ConfigLine} :
    Mends ok name keys (line :: lines) ↔
      (line.isKey name = true → ¬ ok (atoiText line.value) →
        ∃ l ∈ lines, l.isKey name = true ∨ l.passes keys) ∧ Mends ok name keys lines := by
  constructor
  · intro h
    exact ⟨h line lines (List.suffix_refl _),
      fun l post hpost => h l post (hpost.trans (List.suffix_cons line lines))⟩
  · intro ⟨hhead, htail⟩ l post hpost
    rcases List.suffix_cons_iff.1 hpost with heq | hpost
    · obtain ⟨hl, hls⟩ := List.cons.inj heq
      rw [hl, hls]
      exact hhead
    · exact htail l post hpost

theorem mended_map {ok : Int → Prop} {name : Bytes} {keys : List ConfKey}
    (lines : List ConfigLine) :
    Register.Mended ok (lines.map (change name keys)) ↔ Mends ok name keys lines := by
  induction lines with
  | nil =>
      exact ⟨fun _ line post h => absurd (List.suffix_nil.1 h) (List.cons_ne_nil _ _),
        fun _ => Register.mended_nil⟩
  | cons line lines ih =>
      have hex : (∃ c ∈ lines.map (change name keys), c ≠ Register.Change.keep) ↔
          ∃ l ∈ lines, l.isKey name = true ∨ l.passes keys := by
        simp only [List.mem_map, exists_exists_and_eq_and, change_ne_keep]
      rw [List.map_cons, Register.mended_cons, mends_cons, ih, hex]
      simp only [change_eq_set, and_imp, forall_apply_eq_imp_iff]

/-! ### The statistics

They are switched off by a line that gets past `Top_pid_num` while that is below 1,
so the number that counts is the one at that line. -/

/-- `top_pid_num` behind a line. -/
def topPidStep (n : Int) (line : ConfigLine) : Int :=
  if line.isKey topPidName = true then atoiText line.value else n

/-- A line says anew whether there are statistics, or switches them off. -/
def Cleared : Int → List ConfigLine → Prop
  | _, [] => False
  | n, line :: lines =>
      line.isKey mergeName = true ∨ (line.passes confKeysMerge ∧ n < 1) ∨
        Cleared (topPidStep n line) lines

/-- Each line that asks for statistics has such a line behind it. -/
def MergeMends : Int → List ConfigLine → Prop
  | _, [] => True
  | n, line :: lines =>
      (line.isKey mergeName = true → atoiText line.value ≠ 0 →
        Cleared (topPidStep n line) lines) ∧ MergeMends (topPidStep n line) lines

theorem foldl_topPid (lines : List ConfigLine) : ∀ conf : UiConf,
    (lines.foldl assignConfItem conf).topPidNum = lines.foldl topPidStep conf.topPidNum := by
  induction lines with
  | nil => intro conf; rfl
  | cons line lines ih =>
      intro conf
      rw [List.foldl_cons, List.foldl_cons, ih, assignConfItem_topPid]
      rfl

theorem foldl_merge (lines : List ConfigLine) : ∀ conf : UiConf,
    (lines.foldl assignConfItem conf).enableMergeStat = false ↔
      (conf.enableMergeStat = true → Cleared conf.topPidNum lines) ∧
        MergeMends conf.topPidNum lines := by
  induction lines with
  | nil =>
      intro conf
      rw [List.foldl_nil, Cleared, MergeMends, and_true, imp_false, Bool.not_eq_true]
  | cons line lines ih =>
      intro conf
      have htop : (assignConfItem conf line).topPidNum = topPidStep conf.topPidNum line :=
        assignConfItem_topPid conf line
      rw [List.foldl_cons, ih, htop, assignConfItem_merge, Cleared, MergeMends]
      by_cases hname : line.isKey mergeName = true
      · rw [if_pos hname]
        simp [hname]
      · rw [if_neg hname]
        by_cases hpass : line.passes confKeysMerge
        · rw [if_pos hpass]
          by_cases hlow : conf.topPidNum < 1
          · simp [hname, hpass, hlow]
          · simp [hname, hlow]
        · rw [if_neg hpass]
          simp [hname, hpass]

/-! ## The file

The five settings together. None of them depends on another, apart from the
statistics, which a line switches off while the number of pids is too small. -/

structure InRange (conf : UiConf) : Prop where
  title : 0 ≤ conf.titleLength
  highLight : 0 ≤ conf.highLightLength
  sort : searchSortMin ≤ conf.searchSortDef ∧ conf.searchSortDef ≤ searchSortMax
  merge : conf.topPidNum < 1 → conf.enableMergeStat = false

/-- What is set out of range is put right by a later line. -/
structure AllMended (lines : List ConfigLine) : Prop where
  title : Mends (0 ≤ ·) titleName titleKeys lines
  highLight : Mends (0 ≤ ·) highLightName highLightKeys lines
  sort : Mends InSortRange sortName sortKeys lines
  merge : lines.foldl topPidStep 10 < 1 → MergeMends 10 lines

theorem foldl_inRange (lines : List ConfigLine) (conf : UiConf) :
    InRange (lines.foldl assignConfItem (initConf conf)) ↔ AllMended lines := by
  have hrange : InSortRange searchSortDefault := by decide
  have htitle := foldl_range assignConfItem_title lines (initConf conf)
  have hhigh := foldl_range assignConfItem_highLight lines (initConf conf)
  have hsort := foldl_range assignConfItem_sort lines (initConf conf)
  have htop := foldl_topPid lines (initConf conf)
  have hmerge := foldl_merge lines (initConf conf)
  have hokTitle : 0 ≤ (initConf conf).titleLength := Int.le_refl 0
  have hokHigh : 0 ≤ (initConf conf).highLightLength := by
    show (0 : Int) ≤ 256
    omega
  have hokSort : InSortRange (initConf conf).searchSortDef := hrange
  have hrunTitle := Register.run_ok_iff (Int.le_refl 0)
    (lines.map (change titleName titleKeys)) (initConf conf).titleLength
  have hrunHigh := Register.run_ok_iff (Int.le_refl 0)
    (lines.map (change highLightName highLightKeys)) (initConf conf).highLightLength
  have hrunSort := Register.run_ok_iff hrange (lines.map (change sortName sortKeys))
    (initConf conf).searchSortDef
  rw [← htitle, mended_map] at hrunTitle
  rw [← hhigh, mended_map] at hrunHigh
  rw [← hsort, mended_map] at hrunSort
  constructor
  · intro h
    refine ⟨(hrunTitle.1 h.title).2, (hrunHigh.1 h.highLight).2, (hrunSort.1 h.sort).2,
      fun hlow => ?_⟩
    exact (hmerge.1 (h.merge (htop ▸ hlow))).2
  · intro h
    refine ⟨hrunTitle.2 ⟨Or.inl hokTitle, h.title⟩, hrunHigh.2 ⟨Or.inl hokHigh, h.highLight⟩,
      hrunSort.2 ⟨Or.inl hokSort, h.sort⟩, fun hlow => ?_⟩
    exact hmerge.2 ⟨nofun, h.merge (htop ▸ hlow)⟩

/-- For every file that can be opened. -/
theorem loadConf_inRange_iff (stray : Nat → Bytes) (file : Bytes) (conf : UiConf) :
    ∃ conf', loadConf stray (some file) conf = some conf' ∧
      (InRange conf' ↔ AllMended (settings stray file)) := by
  refine ⟨(settings stray file).foldl assignConfItem (initConf conf), ?_,
    foldl_inRange (settings stray file) conf⟩
  rw [loadConf, asyncLoadConf_eq, Option.map_some]

/-- A title length below zero on the last line; and statistics asked for behind the
line that switches them off. -/
theorem loadConf_inRange_fails :
    (¬ ∃ conf, loadConf (fun _ => []) (some (ascii "Title_length: -5\n")) default = some conf ∧
        InRange conf) ∧
      ¬ ∃ conf, loadConf (fun _ => [])
        (some (ascii "Top_pid_num: 0\nNeed_del: 0\nEnable_merge_stat: 1\n")) default =
          some conf ∧ InRange conf := by
  constructor
  · rintro ⟨conf, hload, hrange⟩
    have htitle : (loadConf (fun _ => []) (some (ascii "Title_length: -5\n")) default).map
        UiConf.titleLength = some (-5) := by decide +kernel
    rw [hload] at htitle
    have h := hrange.title
    rw [Option.some.inj htitle] at h
    exact absurd h (by decide)
  · rintro ⟨conf, hload, hrange⟩
    have hmerge : (loadConf (fun _ => [])
        (some (ascii "Top_pid_num: 0\nNeed_del: 0\nEnable_merge_stat: 1\n")) default).map
        (fun conf => (conf.topPidNum, conf.enableMergeStat)) = some (0, true) := by
      decide +kernel
    rw [hload] at hmerge
    obtain ⟨htop, hon⟩ := Prod.mk.inj (Option.some.inj hmerge)
    have h := hrange.merge (by rw [htop]; decide)
    rw [hon] at h
    cases h

end UiServer
