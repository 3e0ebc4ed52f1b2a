/-
Aion2Hub/BuildScore/Files.lean

Preset files: `buildScorePreset:exportJson` and what
`importBuildScorePresetsFromJson` makes of a file, its own or any other.

A file offers items in one of three shapes (`Offers`).  An import adds one
preset for each item with valid stats and touches nothing else, and it throws
exactly when the file offers nothing.  Of a file that has been exported it makes
the presets that were exported exactly when their names and descriptions are
trimmed texts without a U+0000 (`presetFiles_iff`): an export reads them up to
the first one.
-/
import Aion2Hub.Backup.Codec
import Aion2Hub.Lib.Frame
import Aion2Hub.Lib.Numeral
import Aion2Hub.Planner.Toggle
import Aion2Hub.Storage.Reading

namespace Hub

open Sql Exec

/-! ### Exporting -/

/-- What a file says about its origin. -/
structure ExportInfo where
  appVersion : String
  platform : String
  exportedAt : String

def exportMeta (kind : String) (info : ExportInfo) : Js :=
  .obj [("kind", .str kind), ("appVersion", .str info.appVersion), ("platform", .str info.platform),
    ("exportedAt", .str info.exportedAt)]

def exportedPreset (p : BuildScorePreset) : Js :=
  .obj [("name", .str p.name), ("description", textJs p.description),
    ("stats", .arr (p.stats.map BuildScoreStat.toJs))]

/-- The payload for one preset. -/
def exportOne (presetId : String) (info : ExportInfo) : Prog Js := do
  let preset ← getBuildScorePreset presetId
  let preset ← Exec.ofOption "not_found" preset
  pure (.obj [("meta", exportMeta "buildScorePreset" info), ("preset", exportedPreset preset)])

/-- The payload for all presets of a character. -/
def exportAll (characterId : Option String) (info : ExportInfo) : Prog Js := do
  let characterId ← Exec.ofOption "no_character" (nonEmpty characterId)
  let presets ← listBuildScorePresetsFull characterId
  pure (.obj [("meta", exportMeta "buildScorePresets" info),
    ("presets", .arr (presets.map exportedPreset))])

/-- `buildScorePreset:exportJson`: the payload that is written to the file. -/
def buildScorePresetExportJson (input : Option Js) (info : ExportInfo) : Prog Js := do
  let characterId ← resolveCharacterId (Js.asRecord input)
  match nonEmpty (text (Js.asRecord input) "presetId") with
  | some presetId => exportOne presetId info
  | none =>
      if Js.truthy ((Js.asRecord input).get "all") then exportAll characterId info
      else Exec.throw "bad_request"

/-! ### Stored presets -/

/-- A preset as the operations on presets write it. -/
structure WrittenPreset (r : BuildScorePresetRow) : Prop where
  id_ne : Text.cut r.id ≠ ""
  stats : ∃ stats : List BuildScoreStat, (∀ s ∈ stats, s.Valid) ∧ r.statsJson = statsJson stats

def PresetsWritten (db : Db Row) : Prop := ∀ r ∈ db .buildScorePreset, WrittenPreset r

/-- Every id that is drawn is a new one. -/
structure FreshPresetIds (db : Db Row) (draws : ℕ → Draw) : Prop where
  injective : ∀ i j, (draws i).id = (draws j).id → i = j
  unused : ∀ i, ∀ r ∈ db .buildScorePreset, r.id ≠ (draws i).id

/-! ### Importing -/

/-- The file offers the item: in its list of presets, as its only preset, or as
the file itself. -/
inductive Offers (payload : Js) : Js → Prop where
  | listed {items : List Js} {it : Js} (h : payload.get "presets" = some (.arr items))
      (hit : it ∈ items) (hobject : it.isObject = true) : Offers payload it
  | single {it : Js} (hlist : ∀ items, payload.get "presets" ≠ some (.arr items))
      (h : payload.get "preset" = some it) (hobject : it.isObject = true) : Offers payload it
  | bare (hobject : payload.isObject = true)
      (hlist : ∀ items, payload.get "presets" ≠ some (.arr items))
      (hsingle : ∀ it, payload.get "preset" = some it → it.isObject = false)
      (hname : Js.truthy (payload.get "name") = true)
      (hstats : Js.truthy (payload.get "stats") = true) : Offers payload payload

theorem isObject_of_get {v x : Js} {key : String} (h : v.get key = some x) : v.isObject = true := by
  cases v with
  | obj fields => rfl
  | _ => cases h

section

variable {payload it : Js} {items : List Js}

theorem presetItems_of_list (h : payload.get "presets" = some (.arr items)) :
    presetItems payload = items.filter Js.isObject := by
  rw [presetItems, h]

theorem presetItems_of_single (hlist : ∀ items, payload.get "presets" ≠ some (.arr items))
    (h : payload.get "preset" = some it) (hobject : it.isObject = true) :
    presetItems payload = [it] := by
  rw [presetItems]
  split
  · rename_i items hitems
    exact absurd hitems (hlist items)
  · rw [h]
    exact if_pos hobject

theorem presetItems_of_bare (hlist : ∀ items, payload.get "presets" ≠ some (.arr items))
    (hsingle : ∀ it, payload.get "preset" = some it → it.isObject = false) :
    presetItems payload =
      if Js.truthy (payload.get "name") && Js.truthy (payload.get "stats") then [payload]
      else [] := by
  rw [presetItems]
  split
  · rename_i items hitems
    exact absurd hitems (hlist items)
  · split
    · rename_i it h
      rw [hsingle it h]
      rfl
    · rfl

/-- The items of an import are those that the file offers. -/
theorem mem_presetItems : payload.isObject = true ∧ it ∈ presetItems payload ↔ Offers payload it := by
  constructor
  · rintro ⟨hobject, hit⟩
    by_cases hlist : ∃ items, payload.get "presets" = some (.arr items)
    · obtain ⟨items, hitems⟩ := hlist
      rw [presetItems_of_list hitems] at hit
      obtain ⟨hmem, hitem⟩ := List.mem_filter.mp hit
      exact .listed hitems hmem hitem
    have hno : ∀ items, payload.get "presets" ≠ some (.arr items) := fun items h =>
      hlist ⟨items, h⟩
    by_cases hsingle : ∃ v, payload.get "preset" = some v ∧ v.isObject = true
    · obtain ⟨v, hv, hitem⟩ := hsingle
      rw [presetItems_of_single hno hv hitem] at hit
      obtain rfl := List.mem_singleton.mp hit
      exact .single hno hv hitem
    · have hbare : ∀ v, payload.get "preset" = some v → v.isObject = false := fun v hv =>
        Bool.eq_false_iff.mpr fun h => hsingle ⟨v, hv, h⟩
      rw [presetItems_of_bare hno hbare] at hit
      split at hit
      · rename_i hfields
        obtain rfl := List.mem_singleton.mp hit
        obtain ⟨hname, hstats⟩ := Bool.and_eq_true_iff.mp hfields
        exact .bare hobject hno hbare hname hstats
      · exact (List.not_mem_nil hit).elim
  · intro h
    cases h with
    | listed hitems hmem hitem =>
        refine ⟨isObject_of_get hitems, ?_⟩
        rw [presetItems_of_list hitems]
        exact List.mem_filter.mpr ⟨hmem, hitem⟩
    | single hno hv hitem =>
        refine ⟨isObject_of_get hv, ?_⟩
        rw [presetItems_of_single hno hv hitem]
        exact List.mem_cons_self
    | bare hobject hno hbare hname hstats =>
        refine ⟨hobject, ?_⟩
        rw [presetItems_of_bare hno hbare, if_pos (Bool.and_eq_true_iff.mpr ⟨hname, hstats⟩)]
        exact List.mem_cons_self

end

/-- The preset that is made of an item after `count` others. -/
structure MadeOf (characterId : String) (now : ℤ) (it : Js) (count : ℕ) (r : BuildScorePresetRow) :
    Prop where
  character : r.characterId = characterId
  name : r.name = presetName it count
  description : r.description = (Js.asString (it.get "description")).map Text.trim
  stats : ∃ stats, asBuildScoreStats (it.get "stats") = some stats ∧ r.statsJson = statsJson stats
  createdAt : r.createdAt = (Js.asString (it.get "createdAt")).getD (stamp now)
  updatedAt : r.updatedAt = (Js.asString (it.get "updatedAt")).getD (stamp now)

/-- The items whose stats are valid. -/
def validItems (items : List Js) : List Js :=
  items.filter fun it => (asBuildScoreStats (it.get "stats")).isSome

/-- The presets that an import has added. -/
structure PresetsAdded (characterId : String) (now : ℤ) (items : List Js) (count : ℕ)
    (rows : List BuildScorePresetRow) (c d : Conn) : Prop where
  presets : d.db .buildScorePreset = c.db .buildScorePreset ++ rows
  made : List.Forall₂ (fun p r => MadeOf characterId now p.1 p.2 r)
    ((validItems items).zipIdx count) rows
  fresh : ∀ r ∈ rows, ∀ q ∈ c.db .buildScorePreset, q.id ≠ r.id
  distinct : (rows.map (·.id)).Nodup
  others : ∀ t, t ≠ .buildScorePreset → d.db t = c.db t

theorem trim_presetName (it : Js) (count : ℕ) :
    Text.trim (presetName it count) = presetName it count ∧ presetName it count ≠ "" := by
  rw [presetName]
  split
  · -- the name that stands for a blank one
    refine ⟨Text.trim_eq_self (fun c hc => ?_) fun c hc => ?_, fun h => ?_⟩
    · rw [String.toList_append, String.toList_append] at hc
      obtain rfl := Option.some.inj hc
      decide
    · rw [String.toList_append, List.getLast?_append] at hc
      obtain rfl := Option.some.inj hc
      decide
    · have hempty := congrArg String.toList h
      rw [String.toList_append, String.toList_append] at hempty
      cases hempty
  · rename_i h
    exact ⟨Text.trim_trim _, h⟩

section

variable {characterId : String} {now : ℤ} {draws : ℕ → Draw}

/-- The row of a preset. -/
def presetRow (p : BuildScorePreset) : BuildScorePresetRow :=
  ⟨p.id, p.characterId, p.name, p.description, statsJson p.stats, p.createdAt, p.updatedAt⟩

/-- A preset with a new id is inserted. -/
theorem insertPreset_eq {p : BuildScorePreset} {c : Conn}
    (hcharacter : schema.hasKey c.db .appCharacter p.characterId)
    (hunused : ∀ r ∈ c.db .buildScorePreset, r.id ≠ p.id) :
    insertPreset p c = (.ok ⟨p.id, p.name, p.description, p.stats.length, p.createdAt, p.updatedAt⟩,
      { c with db := c.db.set .buildScorePreset (c.db .buildScorePreset ++ [presetRow p]) }) := by
  have hinsert : schema.insert .abort .buildScorePreset (presetRow p) c = (.ok (),
      { c with db := c.db.set .buildScorePreset (c.db .buildScorePreset ++ [presetRow p]) }) := by
    apply insert_fits_key rfl hunused
    intro _ fk hfk k hk
    obtain rfl := List.mem_singleton.mp hfk
    obtain rfl := Option.some.inj hk
    exact hcharacter
  rw [insertPreset]
  exact bind_of_ok hinsert

/-- The preset that is made of an item. -/
def itemPreset (characterId : String) (now : ℤ) (draw : Draw) (it : Js) (count : ℕ)
    (stats : List BuildScoreStat) : BuildScorePreset where
  id := draw.id
  characterId := characterId
  name := presetName it count
  description := (Js.asString (it.get "description")).map Text.trim
  stats := stats
  createdAt := (Js.asString (it.get "createdAt")).getD (stamp now)
  updatedAt := (Js.asString (it.get "updatedAt")).getD (stamp now)

/-- Creating a preset of an item is inserting it. -/
theorem createBuildScorePresetFromStats_eq (it : Js) (count : ℕ) (stats : List BuildScoreStat)
    (draw : Draw) (c : Conn) : createBuildScorePresetFromStats
      ⟨characterId, presetName it count, Js.asString (it.get "description")⟩ stats
      (some ((Js.asString (it.get "createdAt")).getD (stamp now)))
      (some ((Js.asString (it.get "updatedAt")).getD (stamp now))) draw c =
        insertPreset (itemPreset characterId now draw it count stats) c := by
  obtain ⟨htrim, hne⟩ := trim_presetName it count
  have hname : requireName (presetName it count) c = (.ok (presetName it count), c) := by
    rw [requireName, htrim, nonEmpty_some hne]
    rfl
  rw [createBuildScorePresetFromStats, bind_of_ok hname]
  rfl

theorem MadeOf.of_itemPreset {it : Js} {count : ℕ} {stats : List BuildScoreStat} {draw : Draw}
    (hstats : asBuildScoreStats (it.get "stats") = some stats) :
    MadeOf characterId now it count (presetRow (itemPreset characterId now draw it count stats)) := by
  refine ⟨?_, ?_, ?_, ⟨stats, hstats, ?_⟩, ?_, ?_⟩ <;> simp only [presetRow, itemPreset]

/-- The loop adds one preset for each item with valid stats. -/
theorem createPresets_ok {items : List Js} {created : List BuildScorePresetListItem} {c : Conn}
    (hinj : ∀ i j, (draws i).id = (draws j).id → i = j)
    (hunused : ∀ i, created.length ≤ i → ∀ r ∈ c.db .buildScorePreset, r.id ≠ (draws i).id)
    (hcharacter : schema.hasKey c.db .appCharacter characterId) :
    ∃ made d rows, createPresets characterId now draws items created c = (.ok (created ++ made), d) ∧
      made.length = rows.length ∧ PresetsAdded characterId now items created.length rows c d := by
  induction items generalizing created c with
  | nil =>
      refine ⟨[], c, [], by rw [List.append_nil]; rfl, rfl, ?_⟩
      exact ⟨(List.append_nil _).symm, .nil, fun r hr => (List.not_mem_nil hr).elim, List.nodup_nil,
        fun _ _ => rfl⟩
  | cons it items ih =>
      rw [createPresets]
      cases hstats : asBuildScoreStats (it.get "stats") with
      | none =>
          have hvalid : validItems (it :: items) = validItems items :=
            List.filter_cons_of_neg (by simp [hstats])
          obtain ⟨made, d, rows, hrun, hlen, hadded⟩ := ih hunused hcharacter
          refine ⟨made, d, rows, hrun, hlen, hadded.presets, ?_, hadded.fresh, hadded.distinct,
            hadded.others⟩
          rw [hvalid]
          exact hadded.made
      | some stats =>
          have hvalid : validItems (it :: items) = it :: validItems items :=
            List.filter_cons_of_pos (by simp [hstats])
          let p := itemPreset characterId now (draws created.length) it created.length stats
          let item : BuildScorePresetListItem :=
            ⟨p.id, p.name, p.description, p.stats.length, p.createdAt, p.updatedAt⟩
          let rows₁ : List (Row Table.buildScorePreset) := c.db .buildScorePreset ++ [presetRow p]
          let c₁ : Conn := { c with db := c.db.set .buildScorePreset rows₁ }
          have hone : insertPreset p c = (.ok item, c₁) :=
            insertPreset_eq hcharacter (hunused _ le_rfl)
          have hpresets : c₁.db .buildScorePreset = rows₁ := Db.set_self c.db .buildScorePreset rows₁
          have hothers : ∀ t, t ≠ .buildScorePreset → c₁.db t = c.db t := fun t ht =>
            Db.set_of_ne c.db ht rows₁
          have hlength : (created ++ [item]).length = created.length + 1 := by simp
          have hunused₁ : ∀ i, (created ++ [item]).length ≤ i →
              ∀ q ∈ c₁.db .buildScorePreset, q.id ≠ (draws i).id := by
            intro i hi q hq
            rw [hlength] at hi
            rw [hpresets] at hq
            rcases List.mem_append.mp hq with hold | hnew
            · exact hunused i (by omega) q hold
            · obtain rfl := List.mem_singleton.mp hnew
              intro heq
              have := hinj _ _ heq
              omega
          have hcharacter₁ : schema.hasKey c₁.db .appCharacter characterId := by
            obtain ⟨q, hq, hkey⟩ := hcharacter
            exact ⟨q, (hothers .appCharacter (by decide)).symm ▸ hq, hkey⟩
          obtain ⟨made, d, rows, hrun, hlen, hadded⟩ := ih hunused₁ hcharacter₁
          refine ⟨item :: made, d, presetRow p :: rows, ?_, by simp [hlen], ?_, ?_, ?_, ?_, ?_⟩
          · have hfirst := (createBuildScorePresetFromStats_eq it created.length stats
              (draws created.length) c).trans hone
            dsimp only
            rw [bind_of_ok hfirst, hrun, List.append_assoc]
            rfl
          · rw [hadded.presets, hpresets, List.append_assoc]
            rfl
          · rw [hvalid, List.zipIdx_cons]
            refine .cons (MadeOf.of_itemPreset hstats) ?_
            have hrest := hadded.made
            rwa [hlength] at hrest
          · intro q hq q' hq'
            rcases List.mem_cons.mp hq with rfl | hrest
            · exact hunused _ le_rfl q' hq'
            · refine hadded.fresh q hrest q' ?_
              rw [hpresets]
              exact List.mem_append_left _ hq'
          · rw [List.map_cons]
            refine List.nodup_cons.mpr ⟨fun hmem => ?_, hadded.distinct⟩
            obtain ⟨q, hq, heq⟩ := List.mem_map.mp hmem
            refine hadded.fresh q hq (presetRow p) ?_ heq.symm
            rw [hpresets]
            exact List.mem_append_right _ List.mem_cons_self
          · exact fun t ht => (hadded.others t ht).trans (hothers t ht)

end

/-- An import adds a preset for each item with valid stats, and throws exactly
when nothing is offered. -/
structure ImportsExactly (characterId : String) (payload : Js) (now : ℤ) (draws : ℕ → Draw)
    (c : Conn) : Prop where
  refused : (¬ ∃ it, Offers payload it) →
    importBuildScorePresetsFromJson characterId payload now draws c = (.error "bad_request", c)
  accepted : (∃ it, Offers payload it) → ∃ created d rows,
    importBuildScorePresetsFromJson characterId payload now draws c = (.ok created, d) ∧
      created.length = rows.length ∧
        PresetsAdded characterId now (presetItems payload) 0 rows c d

theorem importsExactly {characterId : String} (payload : Js) (now : ℤ) {draws : ℕ → Draw} {c : Conn}
    (hcharacter : schema.hasKey c.db .appCharacter characterId) (hfresh : FreshPresetIds c.db draws) :
    ImportsExactly characterId payload now draws c := by
  constructor
  · intro h
    refine congrFun (if_pos ?_) c
    by_contra hnot
    obtain ⟨hobject, hitems⟩ := not_or.mp hnot
    obtain ⟨it, hit⟩ := List.exists_mem_of_ne_nil _ hitems
    exact h ⟨it, mem_presetItems.mp ⟨by simpa using hobject, hit⟩⟩
  · rintro ⟨it, hit⟩
    obtain ⟨hobject, hmem⟩ := mem_presetItems.mpr hit
    have hrun : importBuildScorePresetsFromJson characterId payload now draws =
        createPresets characterId now draws (presetItems payload) [] := by
      refine if_neg (not_or.mpr ⟨by simp [hobject], ?_⟩)
      exact List.ne_nil_of_mem hmem
    obtain ⟨made, d, rows, hmade, hlen, hadded⟩ :=
      @createPresets_ok characterId now draws (presetItems payload) [] c hfresh.injective
        (fun i _ => hfresh.unused i) hcharacter
    exact ⟨made, d, rows, hrun ▸ hmade, hlen, hadded⟩

/-! ### What the operations write -/

theorem valid_of_asBuildScoreStats {value : Option Js} {stats : List BuildScoreStat}
    (h : asBuildScoreStats value = some stats) : ∀ s ∈ stats, s.Valid := by
  have hone : ∀ (v : Js) (s : BuildScoreStat), asBuildScoreStat v = some s → s.Valid := by
    intro v s hs
    unfold asBuildScoreStat at hs
    obtain ⟨id, hid, hrest⟩ := Option.bind_eq_some_iff.mp hs
    obtain ⟨label, hlabel, hpure⟩ := Option.bind_eq_some_iff.mp hrest
    cases hpure
    refine ⟨by simpa using (Option.filter_eq_some_iff.mp hid).2,
      by simpa using (Option.filter_eq_some_iff.mp hlabel).2, ?_⟩
    cases hweight : (Js.asNumber (v.get "weight")).filter Number.isFinite with
    | none => rfl
    | some x => exact (Option.filter_eq_some_iff.mp hweight).2
  unfold asBuildScoreStats at h
  split at h
  · rename_i elems
    induction elems generalizing stats with
    | nil =>
        cases h
        exact fun s hs => (List.not_mem_nil hs).elim
    | cons v elems ih =>
        rw [List.mapM_cons] at h
        obtain ⟨s, hs, hrest⟩ := Option.bind_eq_some_iff.mp h
        obtain ⟨rest, hrest', hpure⟩ := Option.bind_eq_some_iff.mp hrest
        cases hpure
        intro q hq
        rcases List.mem_cons.mp hq with rfl | hmem
        · exact hone v _ hs
        · exact ih hrest' q hmem
  · cases h

/-- The operations on presets. -/
def IsPresetOp : Op → Prop
  | .createBuildScorePreset _ _ _ => True
  | .importBuildScorePresetsFromJson _ _ _ _ => True
  | .updateBuildScorePreset _ _ _ _ => True
  | .cloneBuildScorePreset _ _ _ => True
  | .deleteBuildScorePreset _ => True
  | _ => False

/-- A preset as the operations on presets make it. -/
structure ValidPreset (p : BuildScorePreset) : Prop where
  id_ne : Text.cut p.id ≠ ""
  stats : ∀ s ∈ p.stats, s.Valid

theorem ValidPreset.written {p : BuildScorePreset} (h : ValidPreset p) :
    WrittenPreset (presetRow p) :=
  ⟨h.id_ne, p.stats, h.stats, rfl⟩

/-- A preset that has been written reads back as it is. -/
theorem WrittenPreset.stats_eq {r : BuildScorePresetRow} (h : WrittenPreset r) :
    ∃ stats : List BuildScoreStat, (∀ s ∈ stats, s.Valid) ∧ r.statsJson = statsJson stats ∧
      asBuildScoreStats (some r.statsJson) = some stats := by
  obtain ⟨stats, hvalid, hjson⟩ := h.stats
  exact ⟨stats, hvalid, hjson, by rw [hjson, asBuildScoreStats_statsJson hvalid]⟩

/-- It is also written as an export reads it. -/
theorem WrittenPreset.read {r : BuildScorePresetRow} (h : WrittenPreset r) :
    WrittenPreset (schema.read .buildScorePreset r) :=
  ⟨fun hempty => h.id_ne ((Text.cut_cut r.id).symm.trans hempty), h.stats⟩

theorem WrittenPreset.valid {r : BuildScorePresetRow} (h : WrittenPreset r) :
    ∀ s ∈ (asBuildScorePreset r).stats, s.Valid := by
  obtain ⟨stats, hvalid, -, hread⟩ := h.stats_eq
  rw [asBuildScorePreset, hread]
  exact hvalid

theorem keeps_insertPreset {p : BuildScorePreset} (hp : ValidPreset p) :
    Keeps (fun c : Conn => PresetsWritten c.db) (insertPreset p) := by
  refine Keeps.bind (keeps_append fun db hdb => ?_) fun _ => Keeps.pure
  let after : List (Row Table.buildScorePreset) := db .buildScorePreset ++ [presetRow p]
  have hset : (db.set .buildScorePreset after) .buildScorePreset = after :=
    Db.set_self db .buildScorePreset after
  intro r hr
  change r ∈ (db.set .buildScorePreset after) .buildScorePreset at hr
  rw [hset] at hr
  rcases List.mem_append.mp hr with hold | hnew
  · exact hdb r hold
  · obtain rfl := List.mem_singleton.mp hnew
    exact hp.written

theorem getBuildScorePreset_eq (presetId : String) (c : Conn) :
    getBuildScorePreset presetId c = (.ok (((((c.db .buildScorePreset).find?
      fun r : BuildScorePresetRow => r.id == presetId).map
        (schema.read .buildScorePreset)).filter fun r : BuildScorePresetRow => r.id ≠ "").map
          asBuildScorePreset), c) := rfl

/-- The stats of a preset are read as they have been written. -/
theorem valid_of_find {presetId : String} {c d : Conn} {p : BuildScorePreset}
    (hc : PresetsWritten c.db) (h : getBuildScorePreset presetId c = (.ok (some p), d)) :
    ∀ s ∈ p.stats, s.Valid := by
  rw [getBuildScorePreset_eq] at h
  obtain ⟨q, hq, rfl⟩ := Option.map_eq_some_iff.mp (Except.ok.inj (congrArg Prod.fst h))
  obtain ⟨r, hr, rfl⟩ := Option.map_eq_some_iff.mp (Option.filter_eq_some_iff.mp hq).1
  exact (hc r (List.mem_of_find?_eq_some hr)).read.valid

theorem stats_of_asBuildScoreState {value : Js} {now : ℤ} {parsed : BuildScoreState}
    (h : asBuildScoreState value now = some parsed) :
    asBuildScoreStats (value.get "stats") = some parsed.stats := by
  obtain ⟨-, -, hrest⟩ := Option.bind_eq_some_iff.mp h
  obtain ⟨stats, hstats, hrest⟩ := Option.bind_eq_some_iff.mp hrest
  obtain ⟨setA, -, hrest⟩ := Option.bind_eq_some_iff.mp hrest
  obtain ⟨setB, -, hpure⟩ := Option.bind_eq_some_iff.mp hrest
  cases hpure
  exact hstats

theorem keeps_createBuildScorePreset (input : PresetInput) (state : Js) (draw : Draw) :
    Keeps (fun c : Conn => PresetsWritten c.db) (createBuildScorePreset input state draw) := by
  rw [createBuildScorePreset]
  cases hstate : asBuildScoreState state draw.now with
  | none => exact Keeps.throw
  | some parsed =>
      rw [ofOption_some_bind, requireName]
      cases hname : nonEmpty (some (Text.trim input.name)) with
      | none => exact Keeps.throw
      | some name =>
          rw [ofOption_some_bind]
          have hstats := valid_of_asBuildScoreStats (stats_of_asBuildScoreState hstate)
          exact keeps_insertPreset ⟨draw.cut_ne, hstats⟩

theorem validPreset_itemPreset {characterId : String} {now : ℤ} {draw : Draw} {it : Js} {count : ℕ}
    {stats : List BuildScoreStat} (hstats : asBuildScoreStats (it.get "stats") = some stats) :
    ValidPreset (itemPreset characterId now draw it count stats) :=
  ⟨draw.cut_ne, valid_of_asBuildScoreStats hstats⟩

theorem keeps_importBuildScorePresetsFromJson (characterId : String) (payload : Js) (now : ℤ)
    (draws : ℕ → Draw) : Keeps (fun c : Conn => PresetsWritten c.db)
      (importBuildScorePresetsFromJson characterId payload now draws) := by
  have hloop : ∀ items created, Keeps (fun c : Conn => PresetsWritten c.db)
      (createPresets characterId now draws items created) := by
    intro items
    induction items with
    | nil => exact fun created => Keeps.pure
    | cons it items ih =>
        intro created
        rw [createPresets]
        cases hstats : asBuildScoreStats (it.get "stats") with
        | none => exact ih created
        | some stats =>
            dsimp only
            refine Keeps.bind (keeps_of_apply fun c hc => ?_) fun item => ih _
            rw [createBuildScorePresetFromStats_eq]
            exact (keeps_insertPreset (validPreset_itemPreset hstats)).apply hc
  rw [importBuildScorePresetsFromJson]
  split
  · exact Keeps.throw
  · exact hloop _ _

/-- An update that makes written presets of written ones. -/
theorem keeps_updatePresets {p : BuildScorePresetRow → Bool}
    {f : BuildScorePresetRow → BuildScorePresetRow}
    (hf : ∀ r, WrittenPreset r → WrittenPreset (f r)) :
    Keeps (fun c : Conn => PresetsWritten c.db) (schema.update .buildScorePreset p f) := by
  refine keeps_of_apply fun c hc => ?_
  unfold Schema.update
  dsimp only
  split
  · let after : List (Row Table.buildScorePreset) :=
      (c.db .buildScorePreset).map fun r : BuildScorePresetRow => if p r then f r else r
    have hset : (c.db.set .buildScorePreset after) .buildScorePreset = after :=
      Db.set_self c.db .buildScorePreset after
    intro r hr
    change r ∈ (c.db.set .buildScorePreset after) .buildScorePreset at hr
    rw [hset] at hr
    obtain ⟨q, hq, rfl⟩ := List.mem_map.mp hr
    split
    · exact hf q (hc q hq)
    · exact hc q hq
  · exact hc

theorem keeps_updateBuildScorePreset (presetId : String) (name : Option String)
    (description : Option (Option String)) (now : ℤ) :
    Keeps (fun c : Conn => PresetsWritten c.db)
      (updateBuildScorePreset presetId name description now) := by
  refine keeps_of_apply fun c hc => ?_
  rw [updateBuildScorePreset, bind_of_ok (getBuildScorePreset_eq presetId c)]
  generalize Option.map asBuildScorePreset _ = found
  cases found with
  | none => exact hc
  | some existing =>
      rw [ofOption_some_bind]
      cases hname : nonEmpty (some ((name.map Text.trim).getD existing.name)) with
      | none => exact hc
      | some newName =>
          rw [ofOption_some_bind]
          have hkeeps := Keeps.bind (f := fun _ => pure (⟨presetId, newName,
              (description.map (·.map Text.trim)).getD existing.description, existing.stats.length,
              existing.createdAt, stamp now⟩ : BuildScorePresetListItem))
            (@keeps_updatePresets (fun r => r.id == presetId) (fun r => { r with
              name := newName
              description := (description.map (·.map Text.trim)).getD existing.description
              updatedAt := stamp now }) fun r hr => ⟨hr.id_ne, hr.stats⟩)
            fun _ => Keeps.pure
          exact hkeeps.apply hc

theorem keeps_cloneBuildScorePreset (presetId : String) (newName : Option String) (draw : Draw) :
    Keeps (fun c : Conn => PresetsWritten c.db) (cloneBuildScorePreset presetId newName draw) := by
  refine keeps_of_apply fun c hc => ?_
  obtain ⟨found, hfound⟩ : ∃ found, getBuildScorePreset presetId c = (.ok found, c) :=
    ⟨_, getBuildScorePreset_eq presetId c⟩
  rw [cloneBuildScorePreset, bind_of_ok hfound]
  cases found with
  | none => exact hc
  | some existing =>
      rw [ofOption_some_bind]
      let p : BuildScorePreset := ⟨draw.id, existing.characterId, (nonEmpty (newName.map Text.trim)).getD
        (existing.name ++ " (복사)"), existing.description, existing.stats, stamp draw.now,
          stamp draw.now⟩
      have hstats : ∀ s ∈ existing.stats, s.Valid := valid_of_find hc hfound
      have hp : ValidPreset p := ⟨draw.cut_ne, hstats⟩
      exact (keeps_insertPreset hp).apply hc

/-- **The operations on presets keep the presets written**, also when they
throw. -/
theorem keeps_presetOp (host : Host) {op : Op} (hop : IsPresetOp op) :
    Keeps (fun c : Conn => PresetsWritten c.db) (op.run host) := by
  cases op with
  | createBuildScorePreset input state draw =>
      exact (keeps_createBuildScorePreset input state draw).discard
  | importBuildScorePresetsFromJson characterId payload now draws =>
      exact (keeps_importBuildScorePresetsFromJson characterId payload now draws).discard
  | updateBuildScorePreset presetId name description now =>
      exact (keeps_updateBuildScorePreset presetId name description now).discard
  | cloneBuildScorePreset presetId newName draw =>
      exact (keeps_cloneBuildScorePreset presetId newName draw).discard
  | deleteBuildScorePreset presetId =>
      refine keeps_of_apply fun c hc r hr => ?_
      obtain ⟨q, hq, -, hcases⟩ := deleteDb_mem hr
      rcases hcases with rfl | ⟨gone, rfl⟩ <;> exact hc _ hq
  | _ => cases hop

/-- So they are written in every state that operations on presets reach. -/
theorem presetsWritten_of_run {host : Host} {c d : Conn} (hc : PresetsWritten c.db)
    (h : Reaches host (fun _ s => ∃ op, s = .op op ∧ IsPresetOp op) c d) : PresetsWritten d.db := by
  apply h.induction hc
  rintro d s hd ⟨op, rfl, hop⟩
  exact (keeps_presetOp host hop).apply hd

/-! ### Files that have been exported -/

/-- The preset in a file. -/
def fileItem (r : BuildScorePresetRow) : Js :=
  .obj [("name", .str r.name), ("description", textJs r.description), ("stats", r.statsJson)]

theorem serialise_exportedPreset {r : BuildScorePresetRow} (h : WrittenPreset r) :
    Js.serialise (exportedPreset (asBuildScorePreset r)) = fileItem r := by
  obtain ⟨stats, -, hjson, hread⟩ := h.stats_eq
  have hstats : (asBuildScorePreset r).stats = stats := by
    rw [asBuildScorePreset, hread]
    rfl
  have hserialised : Js.serialise (.arr (stats.map BuildScoreStat.toJs)) = r.statsJson := hjson.symm
  rw [exportedPreset, hstats, Js.serialise_obj, Js.serialiseFields_cons, Js.serialiseFields_cons,
    Js.serialiseFields_cons, Js.serialiseFields_nil, hserialised, serialise_textJs,
    Js.serialise_str]
  rfl

/-- The copy of a preset that an import has made. -/
structure SamePreset (characterId : String) (r r' : BuildScorePresetRow) : Prop where
  character : r'.characterId = characterId
  name : r'.name = r.name
  description : r'.description = r.description
  stats : r'.statsJson = r.statsJson

/-- The name and the description are trimmed texts without a U+0000, and the
name is not blank. -/
structure FileTexts (r : BuildScorePresetRow) : Prop where
  name : Trimmed r.name ∧ Text.Plain r.name
  description : ∀ s, r.description = some s → Text.trim s = s ∧ Text.Plain s

theorem plain_presetName {it : Js} {name : String} (hit : it.get "name" = some (.str name))
    (hname : Text.Plain name) (count : ℕ) : Text.Plain (presetName it count) := by
  rw [presetName, hit]
  split
  · have hbefore : Text.Plain "가져온 프리셋 (" := by decide
    have hafter : Text.Plain ")" := by decide
    exact Text.plain_append.mpr ⟨Text.plain_append.mpr ⟨hbefore, Text.plain_repr _⟩, hafter⟩
  · exact hname.trim

/-- What is made of a preset in a file is a copy of it exactly when its texts
are those that the file can hold. -/
theorem MadeOf.same_iff {characterId : String} {now : ℤ} {count : ℕ}
    {r r' : BuildScorePresetRow} (h : WrittenPreset r)
    (hmade : MadeOf characterId now (fileItem (schema.read .buildScorePreset r)) count r') :
    SamePreset characterId r r' ↔ FileTexts r := by
  let it := fileItem (schema.read .buildScorePreset r)
  have hname : it.get "name" = some (.str (Text.cut r.name)) := rfl
  have hdescription : Js.asString (it.get "description") = r.description.map Text.cut :=
    asString_textJs (r.description.map Text.cut)
  have hstats : r'.statsJson = r.statsJson := by
    obtain ⟨stats, -, hjson, hread⟩ := h.stats_eq
    obtain ⟨stats', hstats', hjson'⟩ := hmade.stats
    have hget : it.get "stats" = some r.statsJson := rfl
    rw [hget, hread] at hstats'
    obtain rfl := Option.some.inj hstats'
    rw [hjson', hjson]
  constructor
  · intro hsame
    have hmadeName : r.name = presetName it count := hsame.name.symm.trans hmade.name
    have hplain : Text.Plain r.name :=
      hmadeName ▸ plain_presetName hname (Text.plain_cut r.name) count
    have htrim : Trimmed r.name := hmadeName ▸ trim_presetName it count
    refine ⟨⟨htrim, hplain⟩, fun s hs => ?_⟩
    have hmadeText : some s = some (Text.trim (Text.cut s)) := by
      rw [← hs, ← hsame.description, hmade.description, hdescription, hs]
      rfl
    have htext : s = Text.trim (Text.cut s) := Option.some.inj hmadeText
    refine ⟨?_, htext ▸ (Text.plain_cut s).trim⟩
    rw [htext, Text.trim_trim]
  · intro htexts
    refine ⟨hmade.character, ?_, ?_, hstats⟩
    · rw [hmade.name, presetName, hname, htexts.name.2.cut]
      have htrim : Text.trim ((Js.asString (some (.str r.name))).getD "") = r.name := htexts.name.1.1
      rw [htrim, if_neg htexts.name.1.2]
    · rw [hmade.description, hdescription]
      cases hd : r.description with
      | none => rfl
      | some s =>
          obtain ⟨htrim, hplain⟩ := htexts.description s hd
          exact congrArg some ((congrArg Text.trim hplain.cut).trans htrim)

/-- What a request exports: the preset that it names, or all presets of a
character. -/
inductive Exports (input : Option Js) (c : Conn) : List BuildScorePresetRow → Prop where
  | one {presetId : String} {r : BuildScorePresetRow}
      (hid : text (Js.asRecord input) "presetId" = some presetId) (hne : presetId ≠ "")
      (hr : (c.db .buildScorePreset).find? (fun r : BuildScorePresetRow => r.id == presetId) =
        some r) : Exports input c [r]
  | all {characterId : String} (hid : nonEmpty (text (Js.asRecord input) "presetId") = none)
      (hall : Js.truthy ((Js.asRecord input).get "all") = true)
      (hcharacter : resolveCharacterId (Js.asRecord input) c = (.ok (some characterId), c))
      (hne : characterId ≠ "") :
      Exports input c (orderBy newestPreset ((c.db .buildScorePreset).filter
        fun r : BuildScorePresetRow => r.characterId == characterId))

theorem Exports.subset {input : Option Js} {c : Conn} {rows : List BuildScorePresetRow}
    (h : Exports input c rows) : rows ⊆ c.db .buildScorePreset := by
  intro r hr
  cases h with
  | one hid hne hfind =>
      obtain rfl := List.mem_singleton.mp hr
      exact List.mem_of_find?_eq_some hfind
  | all => exact (List.mem_filter.mp ((orderBy_perm _ _).mem_iff.mp hr)).1

/-- The presets of a character, as they are read. -/
def presetsOf (characterId : String) (db : Db Row) : List BuildScorePresetRow :=
  (orderBy newestPreset ((db .buildScorePreset).filter
    fun r : BuildScorePresetRow => r.characterId == characterId)).map (schema.read .buildScorePreset)

/-- The stats of every stored preset are valid, so all are listed. -/
theorem listBuildScorePresetsFull_written {characterId : String} {c : Conn}
    (h : ∀ r ∈ presetsOf characterId c.db, WrittenPreset r) :
    listBuildScorePresetsFull characterId c =
      (.ok ((presetsOf characterId c.db).map asBuildScorePreset), c) := by
  have hlisted : (presetsOf characterId c.db).filterMap (fun r =>
      (asBuildScoreStats (some r.statsJson)).map fun stats =>
        (⟨r.id, r.characterId, r.name, r.description, stats, r.createdAt, r.updatedAt⟩ :
          BuildScorePreset)) = (presetsOf characterId c.db).map asBuildScorePreset := by
    rw [← List.filterMap_eq_map]
    apply List.filterMap_congr
    intro r hr
    obtain ⟨stats, -, -, hstats⟩ := (h r hr).stats_eq
    rw [Function.comp_apply, asBuildScorePreset, hstats]
    rfl
  exact congrArg (fun presets => (Except.ok presets, c)) hlisted

theorem serialiseList_exportedPreset {rows : List BuildScorePresetRow}
    (h : ∀ r ∈ rows, WrittenPreset r) :
    Js.serialiseList ((rows.map asBuildScorePreset).map exportedPreset) = rows.map fileItem := by
  rw [List.map_map]
  induction rows with
  | nil => rfl
  | cons r rows ih =>
      obtain ⟨hr, hrows⟩ := List.forall_mem_cons.mp h
      rw [List.map_cons, Js.serialiseList, ih hrows, Function.comp_apply, serialise_exportedPreset hr,
        List.map_cons]

/-- The file of an export offers exactly the presets that are exported, as they
are read. -/
theorem export_ok {input : Option Js} (info : ExportInfo) {c : Conn}
    (hc : PresetsWritten c.db) {rows : List BuildScorePresetRow} (h : Exports input c rows) :
    ∃ payload, buildScorePresetExportJson input info c = (.ok payload, c) ∧
      (Js.serialise payload).isObject = true ∧
        presetItems (Js.serialise payload) =
          (rows.map (schema.read .buildScorePreset)).map fileItem := by
  have hwritten : ∀ r ∈ rows, WrittenPreset r := fun r hr => hc r (h.subset hr)
  obtain ⟨resolved, hresolved⟩ : ∃ id, resolveCharacterId (Js.asRecord input) c = (.ok id, c) := by
    unfold resolveCharacterId
    cases text (Js.asRecord input) "characterId" <;> exact ⟨_, rfl⟩
  cases h with
  | one hid hne hr =>
      rename_i presetId r
      have hr' : WrittenPreset r := hwritten r List.mem_cons_self
      let p := asBuildScorePreset (schema.read .buildScorePreset r)
      have hget : getBuildScorePreset presetId c = (.ok (some p), c) := by
        have hid : (schema.read .buildScorePreset r : BuildScorePresetRow).id ≠ "" := hr'.id_ne
        rw [getBuildScorePreset_eq, hr, Option.map_some, Option.filter_some_pos (by simpa using hid)]
        rfl
      refine ⟨.obj [("meta", exportMeta "buildScorePreset" info), ("preset", exportedPreset p)],
        ?_, ?_, ?_⟩
      · rw [buildScorePresetExportJson, bind_of_ok hresolved, hid, nonEmpty_some hne]
        dsimp only
        rw [exportOne, bind_of_ok hget]
        rfl
      · rw [Js.serialise_obj]
        rfl
      · rw [Js.serialise_obj, Js.serialiseFields_cons, Js.serialiseFields_cons,
          Js.serialiseFields_nil, serialise_exportedPreset hr'.read]
        refine presetItems_of_single (fun items hitems => ?_) ?_ rfl
        · cases hitems
        · rfl
  | all hid hall hcharacter hne =>
      rename_i characterId
      have hread : ∀ r ∈ presetsOf characterId c.db, WrittenPreset r := by
        intro r hr
        obtain ⟨q, hq, rfl⟩ := List.mem_map.mp hr
        exact (hwritten q hq).read
      refine ⟨.obj [("meta", exportMeta "buildScorePresets" info),
        ("presets", .arr (((presetsOf characterId c.db).map asBuildScorePreset).map exportedPreset))],
        ?_, ?_, ?_⟩
      · rw [buildScorePresetExportJson, bind_of_ok hcharacter, hid]
        dsimp only
        rw [if_pos hall, exportAll, nonEmpty_some hne, ofOption_some_bind,
          bind_of_ok (listBuildScorePresetsFull_written hread)]
        rfl
      · rw [Js.serialise_obj]
        rfl
      · rw [Js.serialise_obj, Js.serialiseFields_cons, Js.serialiseFields_cons,
          Js.serialiseFields_nil, Js.serialise_arr, serialiseList_exportedPreset hread]
        rw [presetItems_of_list rfl]
        refine List.filter_eq_self.mpr fun it hit => ?_
        obtain ⟨r, -, rfl⟩ := List.mem_map.mp hit
        rfl

/-! ### Preset files -/

/-- Every item of an exported file is valid, and what is made of it is a copy
when its texts are those that the file can hold. -/
theorem same_iff_of_made {characterId : String} {now : ℤ} {rows new : List BuildScorePresetRow}
    (hwritten : ∀ r ∈ rows, WrittenPreset r) {n : ℕ}
    (h : List.Forall₂ (fun p r => MadeOf characterId now p.1 p.2 r)
      ((validItems ((rows.map (schema.read .buildScorePreset)).map fileItem)).zipIdx n) new) :
    new.length = rows.length ∧
      (List.Forall₂ (SamePreset characterId) rows new ↔ ∀ r ∈ rows, FileTexts r) := by
  induction rows generalizing n new with
  | nil =>
      cases h
      exact ⟨rfl, fun _ r hr => (List.not_mem_nil hr).elim, fun _ => .nil⟩
  | cons r rows ih =>
      have hr := hwritten r List.mem_cons_self
      obtain ⟨stats, -, -, hread⟩ := hr.stats_eq
      let it := fileItem (schema.read .buildScorePreset r)
      have hget : it.get "stats" = some r.statsJson := rfl
      have hvalid : validItems (((r :: rows).map (schema.read .buildScorePreset)).map fileItem) =
          it :: validItems ((rows.map (schema.read .buildScorePreset)).map fileItem) :=
        List.filter_cons_of_pos (by rw [hget, hread]; rfl)
      rw [hvalid, List.zipIdx_cons] at h
      cases h with
      | cons hmade hrest =>
          obtain ⟨hlen, hsame⟩ := ih (fun q hq => hwritten q (List.mem_cons_of_mem r hq)) hrest
          refine ⟨congrArg (· + 1) hlen, ?_⟩
          rw [List.forall₂_cons, hmade.same_iff hr, hsame, List.forall_mem_cons]

/-- Importing the file of an export makes a copy of each exported preset, and
nothing else. -/
def CopiesPresets (characterId : String) (now : ℤ) (draws : ℕ → Draw) (input : Option Js)
    (info : ExportInfo) (rows : List BuildScorePresetRow) (c : Conn) : Prop :=
  ∃ payload created d new, buildScorePresetExportJson input info c = (.ok payload, c) ∧
    importBuildScorePresetsFromJson characterId (Js.serialise payload) now draws c =
      (.ok created, d) ∧
    created.length = rows.length ∧ List.Forall₂ (SamePreset characterId) rows new ∧
    PresetsAdded characterId now (presetItems (Js.serialise payload)) 0 new c d

section

variable {c : Conn} {characterId : String} {draws : ℕ → Draw}

theorem copiesPresets_iff (hwritten : PresetsWritten c.db)
    (hcharacter : schema.hasKey c.db .appCharacter characterId) (now : ℤ)
    (hfresh : FreshPresetIds c.db draws) {input : Option Js} (info : ExportInfo)
    {rows : List BuildScorePresetRow} (hrows : Exports input c rows) (hne : rows ≠ []) :
    CopiesPresets characterId now draws input info rows c ↔ ∀ r ∈ rows, FileTexts r := by
  obtain ⟨payload, hexport, hobject, hitems⟩ := export_ok info hwritten hrows
  have hoffered : ∃ it, Offers (Js.serialise payload) it := by
    obtain ⟨r, hr⟩ := List.exists_mem_of_ne_nil rows hne
    refine ⟨fileItem (schema.read .buildScorePreset r), mem_presetItems.mp ⟨hobject, ?_⟩⟩
    rw [hitems]
    exact List.mem_map_of_mem (List.mem_map_of_mem hr)
  obtain ⟨created, d, new, hrun, hlen, hadded⟩ :=
    (importsExactly (Js.serialise payload) now hcharacter hfresh).accepted hoffered
  have hmade := hadded.made
  rw [hitems] at hmade
  obtain ⟨hcount, hsame⟩ := same_iff_of_made (fun r hr => hwritten r (hrows.subset hr)) hmade
  rw [← hsame]
  constructor
  · rintro ⟨payload', created', d', new', hexport', hrun', -, hcopies, hadded'⟩
    -- the export and the import have one result
    obtain rfl : payload' = payload :=
      Except.ok.inj (congrArg Prod.fst (hexport'.symm.trans hexport))
    obtain rfl : d' = d := congrArg Prod.snd (hrun'.symm.trans hrun)
    obtain rfl : new' = new :=
      List.append_cancel_left (hadded'.presets.symm.trans hadded.presets)
    exact hcopies
  · intro hcopies
    exact ⟨payload, created, d, new, hexport, hrun, hlen.trans hcount, hcopies, hadded⟩

/-- **Preset files never overwrite, and round trip up to U+0000**: any file adds
a preset for each of its valid items and leaves the others alone, and the file of
an export adds a copy of each exported preset exactly when all names and
descriptions in it are trimmed texts without a U+0000. -/
theorem presetFiles_iff (hcharacter : schema.hasKey c.db .appCharacter characterId) (now : ℤ)
    (hfresh : FreshPresetIds c.db draws) :
    (∀ payload, ImportsExactly characterId payload now draws c) ∧
      (PresetsWritten c.db → ∀ input info rows, Exports input c rows → rows ≠ [] →
        (CopiesPresets characterId now draws input info rows c ↔ ∀ r ∈ rows, FileTexts r)) :=
  ⟨fun payload => importsExactly payload now hcharacter hfresh,
    fun hwritten _ info _ hrows hne => copiesPresets_iff hwritten hcharacter now hfresh info hrows hne⟩

end

/-- A build score with one stat. -/
def attackState : Js :=
  .obj [("version", .num 1),
    ("stats", .arr [.obj [("id", .str "atk"), ("label", .str "공격력"), ("enabled", .bool true)]]),
    ("setA", .obj []), ("setB", .obj [])]

/-- A character with one preset of that name. -/
def withPreset (name : String) : Conn :=
  ((Step.op (.createBuildScorePreset ⟨"c1", name, none⟩ attackState
    ⟨"p1", 2, by decide, by decide⟩)).run
    (Host.iso (Zone.fixed 0)) withCharacter).2

/-- The row of that preset. -/
def attackRow (name : String) : BuildScorePresetRow :=
  ⟨"p1", "c1", name, none, statsJson [⟨"atk", "공격력", .flat, true, 0⟩], stamp 2, stamp 2⟩

theorem presetsWritten_withPreset (name : String) : PresetsWritten (withPreset name).db := by
  have hstart : PresetsWritten withCharacter.db := fun r hr => absurd hr List.not_mem_nil
  exact presetsWritten_of_run hstart (.step .start ⟨_, rfl, trivial⟩)

theorem freshPresetIds_longIds {name : String} {db : Db Row}
    (h : db .buildScorePreset = [attackRow name]) : FreshPresetIds db longIds := by
  refine ⟨freshDraws_longIds.injective, fun i r hr heq => ?_⟩
  rw [h] at hr
  obtain rfl := List.mem_singleton.mp hr
  have hid : "p1" = (longIds i).id := heq
  have hlong : "p1".toList.length = i + 3 := hid ▸ length_nthDraw (i + 2) 5
  have htwo : "p1".toList.length = 2 := rfl
  omega

/-- The request for the file of its preset. -/
def exportFirst : Option Js := some (.obj [("presetId", .str "p1")])

/-- A preset is copied from its file. -/
theorem presetFiles_iff_attack :
    (∀ payload, ImportsExactly "c1" payload 5 longIds (withPreset " PVE ")) ∧
      CopiesPresets "c1" 5 longIds exportFirst ⟨"1.0.0", "win32", stamp 4⟩ [attackRow "PVE"]
        (withPreset " PVE ") := by
  have hpresets : (withPreset " PVE ").db .buildScorePreset = [attackRow "PVE"] := rfl
  have hcharacter : schema.hasKey (withPreset " PVE ").db .appCharacter "c1" :=
    ⟨⟨"c1", "Kaisinel", none, none, stamp 1, stamp 1⟩, List.mem_singleton.mpr rfl, rfl⟩
  have hfresh : FreshPresetIds (withPreset " PVE ").db longIds :=
    freshPresetIds_longIds hpresets
  obtain ⟨himports, hcopies⟩ := presetFiles_iff hcharacter 5 hfresh
  refine ⟨himports, (hcopies (presetsWritten_withPreset " PVE ") _ _ _
    (.one rfl (by decide) rfl) (by decide)).mpr fun r hr => ?_⟩
  obtain rfl := List.mem_singleton.mp hr
  exact ⟨by decide, fun s hs => by cases hs⟩

/-- A preset named by a U+0000 is exported without a name. -/
theorem not_presetFiles_nameless :
    PresetsWritten (withPreset "\x00").db ∧
      Exports exportFirst (withPreset "\x00") [attackRow "\x00"] ∧
        ¬ CopiesPresets "c1" 5 longIds exportFirst ⟨"1.0.0", "win32", stamp 4⟩ [attackRow "\x00"]
          (withPreset "\x00") := by
  have hpresets : (withPreset "\x00").db .buildScorePreset = [attackRow "\x00"] := rfl
  have hcharacter : schema.hasKey (withPreset "\x00").db .appCharacter "c1" :=
    ⟨⟨"c1", "Kaisinel", none, none, stamp 1, stamp 1⟩, List.mem_singleton.mpr rfl, rfl⟩
  have hfresh : FreshPresetIds (withPreset "\x00").db longIds :=
    freshPresetIds_longIds hpresets
  have hrows : Exports exportFirst (withPreset "\x00") [attackRow "\x00"] :=
    .one rfl (by decide) rfl
  refine ⟨presetsWritten_withPreset "\x00", hrows, fun hcopies => ?_⟩
  have htexts := (copiesPresets_iff (presetsWritten_withPreset "\x00") hcharacter 5 hfresh _ hrows
    (by decide)).mp hcopies
  exact absurd (htexts _ List.mem_cons_self).name.2 (by decide)

end Hub
