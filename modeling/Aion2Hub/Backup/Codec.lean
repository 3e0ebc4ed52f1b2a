/-
Aion2Hub/Backup/Codec.lean

The decoder of a backup undoes its encoder.

For a row that the operations can write (`Storable`), with references the
backup knows, the entry of the backup goes through JSON unchanged and is read
back as the same row: one lemma per section (`parse…_…Js`).  Together they
say that parsing an exported backup gives its rows back
(`parseBackup_toJs`), and that the INSERTs change nothing in them
(`toBackup_rows`).
-/
import Aion2Hub.Backup.Parents

namespace Hub

open Sql

/-! ### Rows the operations can write -/

instance (s : String) : Decidable (Trimmed s) :=
  inferInstanceAs (Decidable (Text.trim s = s ∧ s ≠ ""))

/-- A stat as validation returns it. -/
def BuildScoreStat.Valid (s : BuildScoreStat) : Prop :=
  s.id ≠ "" ∧ s.label ≠ "" ∧ s.weight.isFinite = true

/-- What holds of every row that an operation writes: names are trimmed and
not empty, stats are validated, and quantities are non-negative integers. -/
def Storable : (t : Table) → Row t → Prop
  | .appSetting, r => r.key = "activeCharacterId" → r.value ≠ ""
  | .plannerSettings, r => r.weeklyResetDay.isFinite = true ∧
      (r.id = "default" ∨ ∃ server, Trimmed server ∧ r.id = plannerSettingsIdForServer server)
  | .plannerTemplate, r => IsNatural r.estimateMinutes ∧
      (∀ x ∈ r.rechargeHours, x.isFinite = true ∧ r.type = .charge) ∧
      ∀ x ∈ r.maxStacks, x.isFinite = true ∧ r.type = .charge
  | .plannerAssignment, r => ∀ x ∈ r.targetCount, x.isFinite = true
  | .plannerDuration, r => r.seconds.isFinite = true
  | .buildScore, r => Js.serialise r.dataJson = r.dataJson
  | .buildScorePreset, r => Trimmed r.name ∧
      ∃ stats, (∀ s ∈ stats, s.Valid) ∧ r.statsJson = statsJson stats
  | .economyItem, r => Trimmed r.name
  | .economyPrice, r => Trimmed r.server ∧ IsNatural r.price
  | .economyPriceWatch, r => Trimmed r.server ∧ IsNatural r.threshold
  | .lootRun, r => Trimmed r.content ∧ IsNatural r.seconds
  | .lootRunDrop, r => Trimmed r.itemName ∧ IsNatural r.qty ∧ r.qty ≠ 0
  | .lootRunCost, r => IsNatural r.qty ∧ IsNatural r.kinah ∧ (r.kind = .kinah → r.itemId = none)
  | _, _ => True

/-! ### Fields -/

@[simp] theorem serialise_textJs (s : Option String) : Js.serialise (textJs s) = textJs s := by
  cases s <;> rfl

theorem serialise_numJs {x : Option Number} (h : ∀ y ∈ x, y.isFinite = true) :
    Js.serialise (numJs x) = numJs x := by
  cases x with
  | none => rfl
  | some y => exact Js.serialise_num (h y rfl)

@[simp] theorem asString_textJs (s : Option String) : Js.asString (some (textJs s)) = s := by
  cases s <;> rfl

@[simp] theorem asNumber_numJs (x : Option Number) : Js.asNumber (some (numJs x)) = x := by
  cases x <;> rfl

@[simp] theorem asString_str (s : String) : Js.asString (some (.str s)) = some s := rfl

@[simp] theorem asNumber_num (x : Number) : Js.asNumber (some (.num x)) = some x := rfl

@[simp] theorem get_obj (fields : List (String × Js)) (key : String) :
    (Js.obj fields).get key = fields.lookup key := rfl

/-- A known id passes the check. -/
theorem knownId_of_mem {v : Js} {key id : String} {known : List String}
    (hv : text v key = some id) (h : id ∈ known) : knownId v key known = some id := by
  rw [knownId, hv]
  exact Option.filter_some_pos (decide_eq_true h)

/-- `natural` reads a non-negative integer as it is. -/
theorem natural_of_isNatural {v : Js} {key : String} {x : Number} (hv : number v key = some x)
    (h : IsNatural x) : natural v key = x := by
  rw [natural, hv]
  exact h.atLeast_floor

/-! ### Sections -/

section

variable {now : String} {ids : Table → List String}

theorem parseCharacter_characterJs (r : AppCharacter) :
    parseCharacter now (characterJs r) = some r := by
  simp [parseCharacter, characterJs, text, textOr, List.lookup_cons]

theorem parseItem_itemJs {r : EconomyItem} (h : Storable .economyItem r) :
    parseItem now (itemJs r) = some r := by
  have hname : trimmed (text (itemJs r) "name") = some r.name := trimmed_some h
  rw [parseItem, hname]
  simp [itemJs, text, textOr, List.lookup_cons]

theorem parsePrice_priceJs {r : EconomyPrice} (h : Storable .economyPrice r)
    (hids : RefersTo ids .economyPrice r) :
    parsePrice now (ids .economyItem) (priceJs r) = some r := by
  have hitem : knownId (priceJs r) "itemId" (ids .economyItem) = some r.itemId :=
    knownId_of_mem rfl (hids _ List.mem_cons_self _ rfl)
  have hserver : trimmed (text (priceJs r) "server") = some r.server := trimmed_some h.1
  have hprice : natural (priceJs r) "price" = r.price := natural_of_isNatural rfl h.2
  rw [parsePrice, hitem, hserver, hprice]
  simp [priceJs, text, textOr, List.lookup_cons]

theorem parseWatch_watchJs {r : EconomyPriceWatch} (h : Storable .economyPriceWatch r)
    (hids : RefersTo ids .economyPriceWatch r) :
    parseWatch now (ids .economyItem) (watchJs r) = some r := by
  have hitem : knownId (watchJs r) "itemId" (ids .economyItem) = some r.itemId :=
    knownId_of_mem rfl (hids _ List.mem_cons_self _ rfl)
  have hserver : trimmed (text (watchJs r) "server") = some r.server := trimmed_some h.1
  have hthreshold : natural (watchJs r) "threshold" = r.threshold := natural_of_isNatural rfl h.2
  rw [parseWatch, hitem, hserver, hthreshold]
  simp [watchJs, text, textOr, List.lookup_cons, Js.truthy]

theorem parseBuildScore_buildScoreJs {r : BuildScoreRow} (h : Storable .buildScore r)
    (hids : RefersTo ids .buildScore r) :
    parseBuildScore now (ids .appCharacter) (buildScoreJs r) = some r := by
  have hcharacter : knownId (buildScoreJs r) "characterId" (ids .appCharacter) =
      some r.characterId := knownId_of_mem rfl (hids _ List.mem_cons_self _ rfl)
  have hstate : Js.serialise (((buildScoreJs r).get "state").getD .null) = r.dataJson := h
  rw [parseBuildScore, hcharacter, hstate]
  simp [buildScoreJs, text, textOr, List.lookup_cons]

theorem asBuildScoreStat_toJs {s : BuildScoreStat} (h : s.Valid) :
    asBuildScoreStat s.toJs = some s := by
  obtain ⟨id, label, unit, enabled, weight⟩ := s
  obtain ⟨hid, hlabel, hweight⟩ := h
  have hweight' : (some weight).filter Number.isFinite = some weight :=
    Option.filter_some_pos hweight
  simp only [asBuildScoreStat, BuildScoreStat.toJs, requiredText, get_obj, List.lookup_cons]
  cases unit <;>
    simp [nonEmpty_some hid, nonEmpty_some hlabel, hweight', asBuildScoreUnit,
      BuildScoreUnit.text, Js.truthy]

/-- Validation accepts valid stats as they are. -/
theorem asBuildScoreStats_toJs {stats : List BuildScoreStat} (h : ∀ s ∈ stats, s.Valid) :
    asBuildScoreStats (some (.arr (stats.map BuildScoreStat.toJs))) = some stats := by
  show (stats.map BuildScoreStat.toJs).mapM asBuildScoreStat = some stats
  induction stats with
  | nil => rfl
  | cons s stats ih =>
      rw [List.map_cons, List.mapM_cons, asBuildScoreStat_toJs (h s List.mem_cons_self),
        ih fun t ht => h t (List.mem_cons_of_mem s ht)]
      rfl

theorem statsJson_eq {stats : List BuildScoreStat} (h : ∀ s ∈ stats, s.weight.isFinite = true) :
    statsJson stats = .arr (stats.map BuildScoreStat.toJs) := by
  have hone : ∀ s ∈ stats, Js.serialise s.toJs = s.toJs := by
    intro s hs
    simp [BuildScoreStat.toJs, Js.serialise_num (h s hs)]
  rw [statsJson, Js.serialise, Js.serialiseList_map hone]

/-- Validation accepts the stats it has returned, also after JSON. -/
theorem asBuildScoreStats_statsJson {stats : List BuildScoreStat} (h : ∀ s ∈ stats, s.Valid) :
    asBuildScoreStats (some (statsJson stats)) = some stats := by
  rw [statsJson_eq fun s hs => (h s hs).2.2, asBuildScoreStats_toJs h]

theorem parsePreset_presetJs {r : BuildScorePresetRow} (h : Storable .buildScorePreset r)
    (hids : RefersTo ids .buildScorePreset r) :
    parsePreset now (ids .appCharacter) (presetJs r) = some r := by
  obtain ⟨hname, stats, hvalid, hstats⟩ := h
  have hcharacter : knownId (presetJs r) "characterId" (ids .appCharacter) = some r.characterId :=
    knownId_of_mem rfl (hids _ List.mem_cons_self _ rfl)
  have hname : trimmed (text (presetJs r) "name") = some r.name := trimmed_some hname
  have hparsed : asBuildScoreStats ((presetJs r).get "stats") = some stats := by
    show asBuildScoreStats (some r.statsJson) = some stats
    rw [hstats, asBuildScoreStats_statsJson hvalid]
  rw [parsePreset, hcharacter, hname, hparsed]
  simp [presetJs, text, textOr, List.lookup_cons, ← hstats]

theorem parseLootRun_lootRunJs {r : LootRun} (h : Storable .lootRun r)
    (hids : RefersTo ids .lootRun r) :
    parseLootRun now (ids .appCharacter) (lootRunJs r) = some r := by
  have hcharacter : knownId (lootRunJs r) "characterId" (ids .appCharacter) = some r.characterId :=
    knownId_of_mem rfl (hids _ List.mem_cons_self _ rfl)
  have hcontent : trimmed (text (lootRunJs r) "content") = some r.content := trimmed_some h.1
  have hseconds : natural (lootRunJs r) "seconds" = r.seconds := natural_of_isNatural rfl h.2
  rw [parseLootRun, hcharacter, hcontent, hseconds]
  simp [lootRunJs, text, textOr, List.lookup_cons]

/-- An item id that may be null, checked against the known ids. -/
theorem knownId_textJs {v : Js} {key : String} {o : Option String} {known : List String}
    (hv : text v key = o) (h : ∀ id ∈ o, id ∈ known) : knownId v key known = o := by
  cases o with
  | none =>
      rw [knownId, hv]
      rfl
  | some id => exact knownId_of_mem hv (h id rfl)

theorem parseDrop_dropJs {r : LootRunDrop} (h : Storable .lootRunDrop r)
    (hids : RefersTo ids .lootRunDrop r) :
    parseDrop now (ids .lootRun) (ids .economyItem) (dropJs r) = some r := by
  obtain ⟨hname, hqty, hpos⟩ := h
  have hrun : knownId (dropJs r) "runId" (ids .lootRun) = some r.runId :=
    knownId_of_mem rfl (hids _ List.mem_cons_self _ rfl)
  have hitem : knownId (dropJs r) "itemId" (ids .economyItem) = r.itemId :=
    knownId_textJs (asString_textJs r.itemId)
      fun id hid => hids _ (List.mem_cons_of_mem _ List.mem_cons_self) id hid
  have hname : trimmed (text (dropJs r) "itemName") = some r.itemName := trimmed_some hname
  have hnatural : natural (dropJs r) "qty" = r.qty := natural_of_isNatural rfl hqty
  have hle : Number.le r.qty 0 = false := by
    obtain ⟨n, hn⟩ := hqty
    rw [hn] at hpos ⊢
    have hlt : ¬ ((n : ℚ) < ((0 : ℕ) : ℚ)) := by simp
    exact Bool.or_eq_false_iff.mpr ⟨decide_eq_false hpos, decide_eq_false hlt⟩
  rw [parseDrop, hrun, hitem, hname, hnatural, hle]
  simp [dropJs, text, textOr, List.lookup_cons]

theorem parseCost_costJs {r : LootRunCost} (h : Storable .lootRunCost r)
    (hids : RefersTo ids .lootRunCost r) :
    parseCost now (ids .lootRun) (ids .economyItem) (costJs r) = some r := by
  obtain ⟨hqty, hkinah, hkind⟩ := h
  have hrun : knownId (costJs r) "runId" (ids .lootRun) = some r.runId :=
    knownId_of_mem rfl (hids _ List.mem_cons_self _ rfl)
  have hknown : knownId (costJs r) "itemId" (ids .economyItem) = r.itemId :=
    knownId_textJs (asString_textJs r.itemId)
      fun id hid => hids _ (List.mem_cons_of_mem _ List.mem_cons_self) id hid
  have hitem : (if r.kind = .item then r.itemId else none) = r.itemId := by
    cases hk : r.kind with
    | item => rfl
    | kinah => exact (hkind hk).symm
  have hqty : natural (costJs r) "qty" = r.qty := natural_of_isNatural rfl hqty
  have hkinah : natural (costJs r) "kinah" = r.kinah := natural_of_isNatural rfl hkinah
  have hop : (text (costJs r) "kind").bind LootRunCostKind.ofText = some r.kind :=
    LootRunCostKind.ofText_text r.kind
  rw [parseCost, hrun, hknown, hqty, hkinah, hop]
  simp [costJs, text, textOr, List.lookup_cons, hitem]

theorem parseTemplate_templateJs (r : PlannerTemplate) :
    parseTemplate now (templateJs r) = some r := by
  have htype : (text (templateJs r) "type").bind PlannerTemplateType.ofText = some r.type :=
    PlannerTemplateType.ofText_text r.type
  rw [parseTemplate, htype]
  simp [templateJs, text, textOr, number, List.lookup_cons]

/-- A known id that is not empty passes both checks. -/
theorem nonEmpty_knownId {v : Js} {key id : String} {known : List String}
    (hv : text v key = some id) (h : id ∈ known) (hne : ∀ k ∈ known, k ≠ "") :
    nonEmpty (knownId v key known) = some id := by
  rw [knownId_of_mem hv h, nonEmpty_some (hne id h)]

section

variable (hcharacters : ∀ k ∈ ids .appCharacter, k ≠ "")
  (htemplates : ∀ k ∈ ids .plannerTemplate, k ≠ "")

include hcharacters htemplates

theorem parseAssignment_assignmentJs {r : PlannerAssignment} (h : Storable .plannerAssignment r)
    (hids : RefersTo ids .plannerAssignment r) :
    parseAssignment now (ids .appCharacter) (ids .plannerTemplate) (assignmentJs r) = some r := by
  have hcharacter : nonEmpty (knownId (assignmentJs r) "characterId" (ids .appCharacter)) =
      some r.characterId :=
    nonEmpty_knownId rfl (hids _ List.mem_cons_self _ rfl) hcharacters
  have htemplate : nonEmpty (knownId (assignmentJs r) "templateId" (ids .plannerTemplate)) =
      some r.templateId :=
    nonEmpty_knownId rfl (hids _ (List.mem_cons_of_mem _ List.mem_cons_self) _ rfl) htemplates
  have htarget : (number (assignmentJs r) "targetCount").bind Number.bind = r.targetCount := by
    show (Js.asNumber (some (numJs r.targetCount))).bind Number.bind = r.targetCount
    rw [asNumber_numJs]
    cases ht : r.targetCount with
    | none => rfl
    | some x => exact Number.bind_of_isFinite (h x ht)
  rw [parseAssignment, hcharacter, htemplate, htarget]
  simp [assignmentJs, text, textOr, List.lookup_cons, Js.truthy]

theorem parseCompletion_completionJs {r : PlannerCompletion}
    (hids : RefersTo ids .plannerCompletion r) :
    parseCompletion (ids .appCharacter) (ids .plannerTemplate) (completionJs r) = some r := by
  have hcharacter : nonEmpty (knownId (completionJs r) "characterId" (ids .appCharacter)) =
      some r.characterId :=
    nonEmpty_knownId rfl (hids _ List.mem_cons_self _ rfl) hcharacters
  have htemplate : nonEmpty (knownId (completionJs r) "templateId" (ids .plannerTemplate)) =
      some r.templateId :=
    nonEmpty_knownId rfl (hids _ (List.mem_cons_of_mem _ List.mem_cons_self) _ rfl) htemplates
  rw [parseCompletion, hcharacter, htemplate]
  simp [completionJs, text, List.lookup_cons]

theorem parseChargeUse_chargeUseJs {r : PlannerChargeUse}
    (hids : RefersTo ids .plannerChargeUse r) :
    parseChargeUse (ids .appCharacter) (ids .plannerTemplate) (chargeUseJs r) = some r := by
  have hcharacter : nonEmpty (knownId (chargeUseJs r) "characterId" (ids .appCharacter)) =
      some r.characterId :=
    nonEmpty_knownId rfl (hids _ List.mem_cons_self _ rfl) hcharacters
  have htemplate : nonEmpty (knownId (chargeUseJs r) "templateId" (ids .plannerTemplate)) =
      some r.templateId :=
    nonEmpty_knownId rfl (hids _ (List.mem_cons_of_mem _ List.mem_cons_self) _ rfl) htemplates
  rw [parseChargeUse, hcharacter, htemplate]
  simp [chargeUseJs, text, List.lookup_cons]

/-- Also without a template. -/
theorem parseDuration_durationJs {r : PlannerDuration} (hids : RefersTo ids .plannerDuration r) :
    parseDuration (ids .appCharacter) (ids .plannerTemplate) (durationJs r) = some r := by
  have hknown : ∀ k ∈ r.templateId, k ∈ ids .plannerTemplate := fun k hk =>
    hids _ (List.mem_cons_of_mem _ List.mem_cons_self) k hk
  have hcharacter : nonEmpty (knownId (durationJs r) "characterId" (ids .appCharacter)) =
      some r.characterId :=
    nonEmpty_knownId rfl (hids _ List.mem_cons_self _ rfl) hcharacters
  have htemplate : nonEmpty r.templateId = r.templateId := by
    cases ht : r.templateId with
    | none => rfl
    | some k => exact nonEmpty_some (htemplates k (hknown k ht))
  have htext : text (durationJs r) "templateId" = r.templateId := by
    show Js.asString (some (textJs (nonEmpty r.templateId))) = r.templateId
    rw [asString_textJs, htemplate]
  have hguard : (guard (∀ k ∈ nonEmpty (text (durationJs r) "templateId"),
      k ∈ ids .plannerTemplate) : Option Unit) = some () := by
    rw [Option.guard_eq_some', htext, htemplate]
    exact hknown
  rw [parseDuration, hcharacter, hguard, htext]
  simp [durationJs, text, number, List.lookup_cons]

end

/-- The settings of a server keep their id: the prefix that the encoder takes
off is put back. -/
theorem parseServerSettings_serverSettingsJs {r default : PlannerSettingsRow} {server : String}
    (hserver : Trimmed server) (hid : r.id = plannerSettingsIdForServer server) :
    parseServerSettings now default (serverSettingsJs r) = some r := by
  have hstrip : serverOfId r.id = server := by
    have hprefix : "server:".toList.isPrefixOf (r.id.toList) = true := by
      rw [hid, plannerSettingsIdForServer, String.toList_append]
      exact List.isPrefixOf_iff_prefix.mpr (List.prefix_append _ _)
    rw [serverOfId, if_pos hprefix, hid, plannerSettingsIdForServer, String.toList_append]
    exact String.ofList_toList
  have htrim : trimmed (text (serverSettingsJs r) "server") = some server := by
    show trimmed (some (serverOfId r.id)) = some server
    rw [hstrip, trimmed_some hserver]
  rw [parseServerSettings, htrim]
  simp [serverSettingsJs, text, textOr, number, List.lookup_cons, ← hid]

/-! ### JSON -/

/-- An entry of the backup goes through JSON unchanged. -/
theorem serialise_characterJs (r : AppCharacter) :
    Js.serialise (characterJs r) = characterJs r := by
  simp [characterJs]

theorem serialise_serverSettingsJs {r : PlannerSettingsRow} (h : Storable .plannerSettings r) :
    Js.serialise (serverSettingsJs r) = serverSettingsJs r := by
  simp [serverSettingsJs, Js.serialise_num h.1]

theorem serialise_templateJs {r : PlannerTemplate} (h : Storable .plannerTemplate r) :
    Js.serialise (templateJs r) = templateJs r := by
  obtain ⟨hminutes, hhours, hstacks⟩ := h
  simp [templateJs, Js.serialise_num hminutes.isFinite,
    serialise_numJs fun x hx => (hhours x hx).1, serialise_numJs fun x hx => (hstacks x hx).1]

theorem serialise_assignmentJs {r : PlannerAssignment} (h : Storable .plannerAssignment r) :
    Js.serialise (assignmentJs r) = assignmentJs r := by
  simp [assignmentJs, serialise_numJs h]

theorem serialise_completionJs (r : PlannerCompletion) :
    Js.serialise (completionJs r) = completionJs r := by
  simp [completionJs]

theorem serialise_chargeUseJs (r : PlannerChargeUse) :
    Js.serialise (chargeUseJs r) = chargeUseJs r := by
  simp [chargeUseJs]

theorem serialise_durationJs {r : PlannerDuration} (h : Storable .plannerDuration r) :
    Js.serialise (durationJs r) = durationJs r := by
  simp [durationJs, Js.serialise_num h]

theorem serialise_buildScoreJs {r : BuildScoreRow} (h : Storable .buildScore r) :
    Js.serialise (buildScoreJs r) = buildScoreJs r := by
  have hdata : Js.serialise r.dataJson = r.dataJson := h
  simp [buildScoreJs, hdata]

theorem serialise_presetJs {r : BuildScorePresetRow} (h : Storable .buildScorePreset r) :
    Js.serialise (presetJs r) = presetJs r := by
  obtain ⟨-, stats, -, hstats⟩ := h
  have hdata : Js.serialise r.statsJson = r.statsJson := by
    rw [hstats, statsJson, Js.serialise_serialise]
  simp [presetJs, hdata]

theorem serialise_itemJs (r : EconomyItem) : Js.serialise (itemJs r) = itemJs r := by
  simp [itemJs]

theorem serialise_priceJs {r : EconomyPrice} (h : Storable .economyPrice r) :
    Js.serialise (priceJs r) = priceJs r := by
  simp [priceJs, Js.serialise_num h.2.isFinite]

theorem serialise_watchJs {r : EconomyPriceWatch} (h : Storable .economyPriceWatch r) :
    Js.serialise (watchJs r) = watchJs r := by
  simp [watchJs, Js.serialise_num h.2.isFinite]

theorem serialise_lootRunJs {r : LootRun} (h : Storable .lootRun r) :
    Js.serialise (lootRunJs r) = lootRunJs r := by
  simp [lootRunJs, Js.serialise_num h.2.isFinite]

theorem serialise_dropJs {r : LootRunDrop} (h : Storable .lootRunDrop r) :
    Js.serialise (dropJs r) = dropJs r := by
  simp [dropJs, Js.serialise_num h.2.1.isFinite]

theorem serialise_costJs {r : LootRunCost} (h : Storable .lootRunCost r) :
    Js.serialise (costJs r) = costJs r := by
  simp [costJs, Js.serialise_num h.1.isFinite, Js.serialise_num h.2.1.isFinite]

end

/-! ### The whole backup -/

/-- The sections of the rows, by table. -/
def UserRows.table (u : UserRows) : (t : Table) → List (Row t)
  | .appCharacter => u.characters
  | .plannerSettings => u.perServer
  | .plannerTemplate => u.templates
  | .plannerAssignment => u.assignments
  | .plannerCompletion => u.completions
  | .plannerChargeUse => u.chargeUses
  | .plannerDuration => u.durations
  | .buildScore => u.buildScores
  | .buildScorePreset => u.presets
  | .economyItem => u.items
  | .economyPrice => u.prices
  | .economyPriceWatch => u.watches
  | .lootRun => u.runs
  | .lootRunDrop => u.drops
  | .lootRunCost => u.costs
  | _ => []

/-- The keys of the rows in a section. -/
def UserRows.ids (u : UserRows) (t : Table) : List String := (u.table t).map (key t)

/-- Rows that the operations can write, and that refer to each other only. -/
structure UserRows.Exportable (u : UserRows) : Prop where
  storable : ∀ t, ∀ r ∈ u.table t, Storable t r
  refersTo : ∀ t, ∀ r ∈ u.table t, RefersTo u.ids t r
  day : u.default.weeklyResetDay.isFinite = true
  servers : ∀ r ∈ u.perServer, r.id ≠ "default"
  characters : ∀ k ∈ u.ids .appCharacter, k ≠ ""
  templates : ∀ k ∈ u.ids .plannerTemplate, k ≠ ""

/-- The rows as an import at `now` reads them. -/
def UserRows.toBackup (u : UserRows) (now : String) : Backup where
  default := ⟨"default", u.default.dailyResetHhmm, u.default.weeklyResetDay, now⟩
  perServer := u.perServer
  activeCharacterId := u.activeCharacterId
  characters := u.characters
  items := u.items
  prices := u.prices
  watches := u.watches
  buildScores := u.buildScores
  presets := u.presets
  runs := u.runs
  drops := u.drops
  costs := u.costs
  templates := u.templates
  assignments := u.assignments
  completions := u.completions
  chargeUses := u.chargeUses
  durations := u.durations

theorem serialise_list {α : Type} {f : α → Js} {l : List α}
    (h : ∀ a ∈ l, Js.serialise (f a) = f a) : Js.serialise (.arr (l.map f)) = .arr (l.map f) := by
  rw [Js.serialise_arr, Js.serialiseList_map h]

theorem serialiseFields_append (l l' : List (String × Js)) :
    Js.serialiseFields (l ++ l') = Js.serialiseFields l ++ Js.serialiseFields l' := by
  induction l with
  | nil => rw [Js.serialiseFields_nil, List.nil_append, List.nil_append]
  | cons f l ih => rw [List.cons_append, Js.serialiseFields_cons, ih, Js.serialiseFields_cons,
      List.cons_append]

theorem serialiseFields_optionalSection {name : String} {present : Bool} {v : Js}
    (h : Js.serialise v = v) :
    Js.serialiseFields (optionalSection name present v) = optionalSection name present v := by
  cases present with
  | false => exact Js.serialiseFields_nil
  | true =>
      show Js.serialiseFields [(name, v)] = [(name, v)]
      rw [Js.serialiseFields_cons, h, Js.serialiseFields_nil]

variable {u : UserRows}

/-- The parts of the backup go through JSON unchanged. -/
theorem serialise_plannerJs (h : u.Exportable) : Js.serialise u.plannerJs = u.plannerJs := by
  have hservers : ∀ r ∈ u.perServer, Js.serialise (serverSettingsJs r) = serverSettingsJs r := fun r hr =>
    serialise_serverSettingsJs (h.storable .plannerSettings r hr)
  have htemplates : ∀ r ∈ u.templates, Js.serialise (templateJs r) = templateJs r := fun r hr =>
    serialise_templateJs (h.storable .plannerTemplate r hr)
  have hassignments : ∀ r ∈ u.assignments, Js.serialise (assignmentJs r) = assignmentJs r := fun r hr =>
    serialise_assignmentJs (h.storable .plannerAssignment r hr)
  have hdurations : ∀ r ∈ u.durations, Js.serialise (durationJs r) = durationJs r := fun r hr =>
    serialise_durationJs (h.storable .plannerDuration r hr)
  simp [UserRows.plannerJs, settingsJs, Js.serialise_num h.day, Js.serialiseList_map hservers,
    Js.serialiseList_map htemplates, Js.serialiseList_map hassignments,
    Js.serialiseList_map fun r _ => serialise_completionJs r,
    Js.serialiseList_map fun r _ => serialise_chargeUseJs r, Js.serialiseList_map hdurations]

theorem serialise_buildScoreSection (h : u.Exportable) :
    Js.serialiseFields u.buildScoreSection = u.buildScoreSection := by
  have hscores : ∀ r ∈ u.buildScores, Js.serialise (buildScoreJs r) = buildScoreJs r := fun r hr =>
    serialise_buildScoreJs (h.storable .buildScore r hr)
  have hpresets : ∀ r ∈ u.presets, Js.serialise (presetJs r) = presetJs r := fun r hr =>
    serialise_presetJs (h.storable .buildScorePreset r hr)
  refine serialiseFields_optionalSection ?_
  rw [Js.serialise_obj, Js.serialiseFields_cons, serialise_list hscores,
    serialiseFields_optionalSection (serialise_list hpresets)]

theorem serialise_economySection (h : u.Exportable) :
    Js.serialiseFields u.economySection = u.economySection := by
  have hprices : ∀ r ∈ u.prices, Js.serialise (priceJs r) = priceJs r := fun r hr =>
    serialise_priceJs (h.storable .economyPrice r hr)
  have hwatches : ∀ r ∈ u.watches, Js.serialise (watchJs r) = watchJs r := fun r hr =>
    serialise_watchJs (h.storable .economyPriceWatch r hr)
  refine serialiseFields_optionalSection ?_
  simp [Js.serialiseList_map fun r _ => serialise_itemJs r, Js.serialiseList_map hprices,
    Js.serialiseList_map hwatches]

theorem serialise_lootSection (h : u.Exportable) :
    Js.serialiseFields u.lootSection = u.lootSection := by
  have hruns : ∀ r ∈ u.runs, Js.serialise (lootRunJs r) = lootRunJs r := fun r hr =>
    serialise_lootRunJs (h.storable .lootRun r hr)
  have hdrops : ∀ r ∈ u.drops, Js.serialise (dropJs r) = dropJs r := fun r hr =>
    serialise_dropJs (h.storable .lootRunDrop r hr)
  have hcosts : ∀ r ∈ u.costs, Js.serialise (costJs r) = costJs r := fun r hr =>
    serialise_costJs (h.storable .lootRunCost r hr)
  refine serialiseFields_optionalSection ?_
  simp [Js.serialiseList_map hruns, Js.serialiseList_map hdrops, Js.serialiseList_map hcosts]

theorem serialise_toJs (h : u.Exportable) (exportedAt : String) :
    Js.serialise (u.toJs exportedAt) = u.toJs exportedAt := by
  have hversion : Js.serialise (.num 4) = .num 4 := Js.serialise_num rfl
  rw [UserRows.toJs, Js.serialise_obj, serialiseFields_append, serialiseFields_append,
    serialiseFields_append, serialise_buildScoreSection h, serialise_economySection h,
    serialise_lootSection h]
  simp [hversion, serialise_plannerJs h, Js.serialiseList_map fun r _ => serialise_characterJs r]

/-! ### Reading the backup -/

theorem lookup_optionalSection (name : String) (present : Bool) (v : Js)
    (rest : List (String × Js)) :
    (optionalSection name present v ++ rest).lookup name =
      if present = true then some v else rest.lookup name := by
  cases present with
  | false => rfl
  | true =>
      show ((name, v) :: rest).lookup name = some v
      rw [List.lookup_cons_self]

theorem lookup_optionalSection_of_ne {name k : String} (h : k ≠ name) (present : Bool) (v : Js)
    (rest : List (String × Js)) :
    (optionalSection name present v ++ rest).lookup k = rest.lookup k := by
  have hk : (k == name) = false := beq_eq_false_iff_ne.mpr h
  cases present with
  | false => rfl
  | true =>
      show ((name, v) :: rest).lookup k = rest.lookup k
      rw [List.lookup_cons, hk]

/-- The sections after the five that are always there. -/
theorem toJs_get (u : UserRows) (exportedAt k : String)
    (hk : k ∉ ["schemaVersion", "exportedAt", "activeCharacterId", "characters", "planner"]) :
    (u.toJs exportedAt).get k =
      (u.buildScoreSection ++ (u.economySection ++ (u.lootSection ++ []))).lookup k := by
  have hne : ∀ name ∈ ["schemaVersion", "exportedAt", "activeCharacterId", "characters",
      "planner"], (k == name) = false := fun name hname =>
    beq_eq_false_iff_ne.mpr fun h => hk (h ▸ hname)
  simp only [List.forall_mem_cons] at hne
  obtain ⟨h₁, h₂, h₃, h₄, h₅, -⟩ := hne
  simp only [UserRows.toJs, get_obj, List.append_assoc, List.cons_append, List.nil_append,
    List.append_nil, List.lookup_cons, h₁, h₂, h₃, h₄, h₅]

theorem get_buildScore (u : UserRows) (exportedAt : String) :
    (u.toJs exportedAt).get "buildScore" =
      if (!u.buildScores.isEmpty || !u.presets.isEmpty) = true then
        some (.obj (("perCharacter", .arr (u.buildScores.map buildScoreJs)) ::
          optionalSection "presets" (!u.presets.isEmpty) (.arr (u.presets.map presetJs))))
      else none := by
  rw [toJs_get u exportedAt "buildScore" (by decide), UserRows.buildScoreSection,
    lookup_optionalSection, UserRows.economySection, lookup_optionalSection_of_ne (by decide),
    UserRows.lootSection, lookup_optionalSection_of_ne (by decide), List.lookup_nil]

theorem get_economy (u : UserRows) (exportedAt : String) :
    (u.toJs exportedAt).get "economy" =
      if (!u.items.isEmpty || !u.prices.isEmpty || !u.watches.isEmpty) = true then
        some (.obj [("items", .arr (u.items.map itemJs)), ("prices", .arr (u.prices.map priceJs)),
          ("watches", .arr (u.watches.map watchJs))])
      else none := by
  rw [toJs_get u exportedAt "economy" (by decide), UserRows.buildScoreSection,
    lookup_optionalSection_of_ne (by decide), UserRows.economySection, lookup_optionalSection,
    UserRows.lootSection, lookup_optionalSection_of_ne (by decide), List.lookup_nil]

theorem get_loot (u : UserRows) (exportedAt : String) :
    (u.toJs exportedAt).get "loot" =
      if (!u.runs.isEmpty || !u.drops.isEmpty || !u.costs.isEmpty) = true then
        some (.obj [("runs", .arr (u.runs.map lootRunJs)), ("drops", .arr (u.drops.map dropJs)),
          ("costs", .arr (u.costs.map costJs))])
      else none := by
  rw [toJs_get u exportedAt "loot" (by decide), UserRows.buildScoreSection,
    lookup_optionalSection_of_ne (by decide), UserRows.economySection,
    lookup_optionalSection_of_ne (by decide), UserRows.lootSection, lookup_optionalSection,
    List.lookup_nil]

/-- A list in a part of the backup. -/
def listOf (raw : Js) (part name : String) : List Js :=
  Js.asArray ((Js.asRecord (raw.get part)).get name)

/-- A part is left out only when the list is empty. -/
theorem listOf_optional {l : List Js} {present : Bool} (hp : present = false → l.isEmpty = true)
    {raw : Js} {part name : String} {fields : List (String × Js)}
    (hraw : raw.get part = if present = true then some (.obj fields) else none)
    (h : fields.lookup name = some (.arr l)) : listOf raw part name = l := by
  rw [listOf, hraw]
  cases present with
  | true =>
      show Js.asArray (fields.lookup name) = l
      rw [h]
      rfl
  | false =>
      rw [List.isEmpty_iff.mp (hp rfl)]
      rfl

/-- The presets are left out on their own as well. -/
theorem listOf_presets (u : UserRows) (exportedAt : String) :
    listOf (u.toJs exportedAt) "buildScore" "presets" = u.presets.map presetJs := by
  have hraw := get_buildScore u exportedAt
  cases hpresets : u.presets with
  | nil =>
      rw [listOf, hraw, hpresets]
      cases u.buildScores <;> rfl
  | cons p ps =>
      rw [hpresets] at hraw
      exact listOf_optional (by simp) hraw rfl

/-- What the lists of a backup hold, part by part. -/
theorem listOf_buildScore (u : UserRows) (exportedAt : String) :
    listOf (u.toJs exportedAt) "buildScore" "perCharacter" = u.buildScores.map buildScoreJs := by
  have hempty : ∀ a b : Bool, (!a || !b) = false → a = true := by decide
  refine listOf_optional (fun he => ?_) (get_buildScore u exportedAt) rfl
  rw [List.isEmpty_map]
  exact hempty _ _ he

theorem listOf_economy (u : UserRows) (exportedAt : String) :
    listOf (u.toJs exportedAt) "economy" "items" = u.items.map itemJs ∧
      listOf (u.toJs exportedAt) "economy" "prices" = u.prices.map priceJs ∧
      listOf (u.toJs exportedAt) "economy" "watches" = u.watches.map watchJs := by
  have hempty : ∀ a b c : Bool, (!a || !b || !c) = false → a = true ∧ b = true ∧ c = true := by
    decide
  have hraw := get_economy u exportedAt
  refine ⟨listOf_optional (fun he => ?_) hraw rfl, listOf_optional (fun he => ?_) hraw rfl,
    listOf_optional (fun he => ?_) hraw rfl⟩ <;> rw [List.isEmpty_map]
  · exact (hempty _ _ _ he).1
  · exact (hempty _ _ _ he).2.1
  · exact (hempty _ _ _ he).2.2

theorem listOf_loot (u : UserRows) (exportedAt : String) :
    listOf (u.toJs exportedAt) "loot" "runs" = u.runs.map lootRunJs ∧
      listOf (u.toJs exportedAt) "loot" "drops" = u.drops.map dropJs ∧
      listOf (u.toJs exportedAt) "loot" "costs" = u.costs.map costJs := by
  have hempty : ∀ a b c : Bool, (!a || !b || !c) = false → a = true ∧ b = true ∧ c = true := by
    decide
  have hraw := get_loot u exportedAt
  refine ⟨listOf_optional (fun he => ?_) hraw rfl, listOf_optional (fun he => ?_) hraw rfl,
    listOf_optional (fun he => ?_) hraw rfl⟩ <;> rw [List.isEmpty_map]
  · exact (hempty _ _ _ he).1
  · exact (hempty _ _ _ he).2.1
  · exact (hempty _ _ _ he).2.2

theorem listOf_planner (u : UserRows) (exportedAt : String) :
    listOf (u.toJs exportedAt) "planner" "templates" = u.templates.map templateJs ∧
      listOf (u.toJs exportedAt) "planner" "assignments" = u.assignments.map assignmentJs ∧
      listOf (u.toJs exportedAt) "planner" "completions" = u.completions.map completionJs ∧
      listOf (u.toJs exportedAt) "planner" "chargeUses" = u.chargeUses.map chargeUseJs ∧
      listOf (u.toJs exportedAt) "planner" "durations" = u.durations.map durationJs :=
  ⟨rfl, rfl, rfl, rfl, rfl⟩

/-- Entries that are read back one by one. -/
theorem filterMap_objects {α : Type} {f : α → Js} (hf : ∀ a, (f a).isObject = true)
    {parse : Js → Option α} {l : List α} (h : ∀ a ∈ l, parse (f a) = some a) :
    ((l.map f).filter Js.isObject).filterMap parse = l := by
  have hobjects : (l.map f).filter Js.isObject = l.map f := by
    refine List.filter_eq_self.mpr fun v hv => ?_
    obtain ⟨a, -, rfl⟩ := List.mem_map.mp hv
    exact hf a
  rw [hobjects, List.filterMap_map]
  clear hobjects
  induction l with
  | nil => rfl
  | cons a l ih =>
      have ha : (parse ∘ f) a = some a := h a List.mem_cons_self
      rw [List.filterMap_cons_some ha, ih fun b hb => h b (List.mem_cons_of_mem a hb)]

section

variable {u : UserRows} (h : u.Exportable) (exportedAt now : String)

include h

theorem parse_buildScore :
    ((listOf (u.toJs exportedAt) "buildScore" "perCharacter").filter Js.isObject).filterMap
        (parseBuildScore now (u.ids .appCharacter)) = u.buildScores ∧
      ((listOf (u.toJs exportedAt) "buildScore" "presets").filter Js.isObject).filterMap
        (parsePreset now (u.ids .appCharacter)) = u.presets := by
  rw [listOf_buildScore, listOf_presets]
  exact ⟨filterMap_objects (fun _ => rfl) fun r hr => parseBuildScore_buildScoreJs
      (h.storable .buildScore r hr) (h.refersTo .buildScore r hr),
    filterMap_objects (fun _ => rfl) fun r hr => parsePreset_presetJs
      (h.storable .buildScorePreset r hr) (h.refersTo .buildScorePreset r hr)⟩

theorem parse_economy :
    ((listOf (u.toJs exportedAt) "economy" "items").filter Js.isObject).filterMap (parseItem now) = u.items ∧
      ((listOf (u.toJs exportedAt) "economy" "prices").filter Js.isObject).filterMap
        (parsePrice now (u.ids .economyItem)) = u.prices ∧
      ((listOf (u.toJs exportedAt) "economy" "watches").filter Js.isObject).filterMap
        (parseWatch now (u.ids .economyItem)) = u.watches := by
  obtain ⟨hitems, hprices, hwatches⟩ := listOf_economy u exportedAt
  rw [hitems, hprices, hwatches]
  exact ⟨filterMap_objects (fun _ => rfl) fun r hr => parseItem_itemJs (h.storable .economyItem r hr),
    filterMap_objects (fun _ => rfl) fun r hr => parsePrice_priceJs (h.storable .economyPrice r hr)
      (h.refersTo .economyPrice r hr),
    filterMap_objects (fun _ => rfl) fun r hr => parseWatch_watchJs (h.storable .economyPriceWatch r hr)
      (h.refersTo .economyPriceWatch r hr)⟩

theorem parse_loot :
    ((listOf (u.toJs exportedAt) "loot" "runs").filter Js.isObject).filterMap
        (parseLootRun now (u.ids .appCharacter)) = u.runs ∧
      ((listOf (u.toJs exportedAt) "loot" "drops").filter Js.isObject).filterMap
        (parseDrop now (u.ids .lootRun) (u.ids .economyItem)) = u.drops ∧
      ((listOf (u.toJs exportedAt) "loot" "costs").filter Js.isObject).filterMap
        (parseCost now (u.ids .lootRun) (u.ids .economyItem)) = u.costs := by
  obtain ⟨hruns, hdrops, hcosts⟩ := listOf_loot u exportedAt
  rw [hruns, hdrops, hcosts]
  exact ⟨filterMap_objects (fun _ => rfl) fun r hr => parseLootRun_lootRunJs (h.storable .lootRun r hr)
      (h.refersTo .lootRun r hr),
    filterMap_objects (fun _ => rfl) fun r hr => parseDrop_dropJs (h.storable .lootRunDrop r hr)
      (h.refersTo .lootRunDrop r hr),
    filterMap_objects (fun _ => rfl) fun r hr => parseCost_costJs (h.storable .lootRunCost r hr)
      (h.refersTo .lootRunCost r hr)⟩

theorem parse_planner :
    ((listOf (u.toJs exportedAt) "planner" "templates").filter Js.isObject).filterMap (parseTemplate now) =
        u.templates ∧
      ((listOf (u.toJs exportedAt) "planner" "assignments").filter Js.isObject).filterMap
        (parseAssignment now (u.ids .appCharacter) (u.ids .plannerTemplate)) = u.assignments ∧
      ((listOf (u.toJs exportedAt) "planner" "completions").filter Js.isObject).filterMap
        (parseCompletion (u.ids .appCharacter) (u.ids .plannerTemplate)) = u.completions ∧
      ((listOf (u.toJs exportedAt) "planner" "chargeUses").filter Js.isObject).filterMap
        (parseChargeUse (u.ids .appCharacter) (u.ids .plannerTemplate)) = u.chargeUses ∧
      ((listOf (u.toJs exportedAt) "planner" "durations").filter Js.isObject).filterMap
        (parseDuration (u.ids .appCharacter) (u.ids .plannerTemplate)) = u.durations := by
  obtain ⟨htemplates, hassignments, hcompletions, huses, hdurations⟩ :=
    listOf_planner u exportedAt
  rw [htemplates, hassignments, hcompletions, huses, hdurations]
  exact ⟨filterMap_objects (fun _ => rfl) fun r _ => parseTemplate_templateJs r,
    filterMap_objects (fun _ => rfl) fun r hr => parseAssignment_assignmentJs h.characters h.templates
      (h.storable .plannerAssignment r hr) (h.refersTo .plannerAssignment r hr),
    filterMap_objects (fun _ => rfl) fun r hr => parseCompletion_completionJs h.characters h.templates
      (h.refersTo .plannerCompletion r hr),
    filterMap_objects (fun _ => rfl) fun r hr => parseChargeUse_chargeUseJs h.characters h.templates
      (h.refersTo .plannerChargeUse r hr),
    filterMap_objects (fun _ => rfl) fun r hr => parseDuration_durationJs h.characters h.templates
      (h.refersTo .plannerDuration r hr)⟩

theorem parse_perServer (default : PlannerSettingsRow) :
    ((u.perServer.map serverSettingsJs).filter Js.isObject).filterMap
      (parseServerSettings now default) = u.perServer := by
  refine filterMap_objects (fun _ => rfl) fun r hr => ?_
  obtain hid | ⟨server, hserver, hid⟩ := (h.storable .plannerSettings r hr).2
  · exact absurd hid (h.servers r hr)
  · exact parseServerSettings_serverSettingsJs hserver hid

/-- Reading an exported backup gives its rows back. -/
theorem parseBackup_toJs : parseBackup (u.toJs exportedAt) 4 now = u.toBackup now := by
  obtain ⟨htemplates, hassignments, hcompletions, huses, hdurations⟩ :=
    parse_planner h exportedAt now
  obtain ⟨hscores, hpresets⟩ := parse_buildScore h exportedAt now
  obtain ⟨hitems, hprices, hwatches⟩ := parse_economy h exportedAt now
  obtain ⟨hruns, hdrops, hcosts⟩ := parse_loot h exportedAt now
  have hcharacters : (objects ((u.toJs exportedAt).get "characters")).filterMap
      (parseCharacter now) = u.characters :=
    filterMap_objects (fun _ => rfl) fun r _ => parseCharacter_characterJs r
  have hcharacterIds : u.characters.map (·.id) = u.ids .appCharacter := rfl
  have htemplateIds : u.templates.map (·.id) = u.ids .plannerTemplate := rfl
  have hitemIds : u.items.map (·.id) = u.ids .economyItem := rfl
  have hrunIds : u.runs.map (·.id) = u.ids .lootRun := rfl
  have hactive : text (u.toJs exportedAt) "activeCharacterId" = u.activeCharacterId :=
    asString_textJs u.activeCharacterId
  have hsettings : defaultSettingsJs 4 (Js.asRecord ((Js.asRecord
      ((u.toJs exportedAt).get "planner")).get "settings")) = settingsJs u.default := rfl
  have hservers : serverSettingsEntries 4 (Js.asRecord ((Js.asRecord
      ((u.toJs exportedAt).get "planner")).get "settings")) =
        (u.perServer.map serverSettingsJs).filter Js.isObject := rfl
  simp only [listOf, objects] at *
  simp only [parseBackup, objects, hcharacters, hitems, htemplates, hcharacterIds, htemplateIds, hitemIds,
    hruns, hrunIds, hprices, hwatches, hscores, hpresets, hdrops, hcosts, hassignments,
    hcompletions, huses, hdurations, hactive, hsettings, hservers, parse_perServer h]
  rfl

/-! ### What is bound -/

/-- The rows of the database that the import of an exported backup leaves. -/
def UserRows.restored (u : UserRows) (now : String) : Db Row
  | .appSetting => (u.activeCharacterId.map fun id => ⟨"activeCharacterId", id⟩).toList
  | .plannerSettings => (u.toBackup now).default :: u.perServer
  | t => u.table t

omit h in
theorem bind_chargeOnly {type : PlannerTemplateType} {x : Option Number}
    (hx : ∀ y ∈ x, y.isFinite = true ∧ type = .charge) : chargeOnly type x = x := by
  cases x with
  | none => cases type <;> rfl
  | some y =>
      obtain ⟨hy, rfl⟩ := hx y rfl
      exact Number.bind_of_isFinite hy

omit h in
theorem bound_template {r : PlannerTemplate} (hr : Storable .plannerTemplate r) :
    PlannerTemplate.bound r = some r := by
  obtain ⟨hminutes, hhours, hstacks⟩ := hr
  have hestimate : (estimate (some r.estimateMinutes)).bind = some r.estimateMinutes := by
    show (Number.atLeast 0 (Number.floor r.estimateMinutes)).bind = some r.estimateMinutes
    rw [hminutes.atLeast_floor, Number.bind_of_isFinite hminutes.isFinite]
  rw [PlannerTemplate.bound, hestimate, bind_chargeOnly hhours, bind_chargeOnly hstacks]
  rfl

omit h in
theorem bound_settings {r : PlannerSettingsRow} (hr : r.weeklyResetDay.isFinite = true) :
    PlannerSettingsRow.bound r = some r := by
  rw [PlannerSettingsRow.bound, Number.bind_of_isFinite hr]
  rfl

/-- The INSERTs change nothing in the rows of an exported backup. -/
theorem toBackup_rows (t : Table) (ht : t ≠ .appSetting) :
    (u.toBackup now).rows t = (u.restored now t).map some := by
  have hstore := h.storable t
  cases t with
  | appSetting => exact absurd rfl ht
  | plannerSettings =>
      refine List.map_congr_left fun r hr => ?_
      rcases List.mem_cons.mp hr with rfl | hr
      · exact bound_settings h.day
      · exact bound_settings (hstore r hr).1
  | plannerTemplate => exact List.map_congr_left fun r hr => bound_template (hstore r hr)
  | plannerDuration =>
      refine List.map_congr_left fun r hr => ?_
      rw [PlannerDuration.bound, Number.bind_of_isFinite (hstore r hr)]
      rfl
  | economyPrice =>
      refine List.map_congr_left fun r hr => ?_
      rw [EconomyPrice.bound, Number.bind_of_isFinite (hstore r hr).2.isFinite]
      rfl
  | economyPriceWatch =>
      refine List.map_congr_left fun r hr => ?_
      rw [EconomyPriceWatch.bound, Number.bind_of_isFinite (hstore r hr).2.isFinite]
      rfl
  | lootRun =>
      refine List.map_congr_left fun r hr => ?_
      rw [LootRun.bound, Number.bind_of_isFinite (hstore r hr).2.isFinite]
      rfl
  | lootRunDrop =>
      refine List.map_congr_left fun r hr => ?_
      rw [LootRunDrop.bound, Number.bind_of_isFinite (hstore r hr).2.1.isFinite]
      rfl
  | lootRunCost =>
      refine List.map_congr_left fun r hr => ?_
      rw [LootRunCost.bound, Number.bind_of_isFinite (hstore r hr).1.isFinite,
        Number.bind_of_isFinite (hstore r hr).2.1.isFinite]
      rfl
  | _ => rfl

end

end Hub
