/-
Aion2Hub/BuildScore/Score.lean

`computeScore` and `applyUserPreset` of the build score page.

Applying a preset walks over the stats with a map of the preset's stats: the
first stat with an id of the map becomes the preset's and uses it up, every
other stat is disabled, and what is left in the map comes last.  So the result
has the preset's stats and the other stats disabled, in some order
(`applyUserPreset_perm`), and without rounding the score depends on nothing
else (`userPresetScore`).
-/
import Aion2Hub.BuildScore.Files
import Aion2Hub.Economy.Items
import Aion2Hub.Lib.Arithmetic
import Aion2Hub.Lib.OrderedMap
import Aion2Hub.Lib.Record

namespace Hub

open Sql Exec

/-! ### Scores -/

inductive WhichSet where
  | a
  | b

/-- The values of a set: an object, which also answers for what it inherits. -/
def BuildScoreState.values (state : BuildScoreState) : WhichSet → Record Number
  | .a => state.setA.values
  | .b => state.setB.values

section

variable {α : Type} [Arithmetic α]

/-- `values[id] ?? 0`; neither a function nor an object is a number. -/
def statValue (values : Record Number) (id : String) : α :=
  match values.get id with
  | .undefined => 0
  | .inherited => Arithmetic.nan
  | .own x => Arithmetic.ofNumber x

def computeScore (state : BuildScoreState) (which : WhichSet) : α :=
  state.stats.foldl (fun sum s =>
    if s.enabled then sum + Arithmetic.ofNumber s.weight * statValue (state.values which) s.id
    else sum) 0

end

/-! ### Applying a preset -/

def BuildScoreStat.disabled (s : BuildScoreStat) : BuildScoreStat := { s with enabled := false }

/-- The walk over the stats: what they become, and what is left of the map. -/
def mergeStats : OrderedMap String BuildScoreStat → List BuildScoreStat →
    List BuildScoreStat × OrderedMap String BuildScoreStat
  | presetById, [] => ([], presetById)
  | presetById, s :: stats =>
      match presetById.lookup s.id with
      | some ps =>
          let rest := mergeStats (presetById.delete s.id) stats
          (ps :: rest.1, rest.2)
      | none =>
          let rest := mergeStats presetById stats
          (s.disabled :: rest.1, rest.2)

def applyUserPreset (state : BuildScoreState) (preset : BuildScorePreset) : BuildScoreState :=
  let presetById := OrderedMap.setAll [] (OrderedMap.byKey (·.id) preset.stats)
  let merged := mergeStats presetById state.stats
  { state with stats := merged.1 ++ merged.2.values }

/-- The stats but for the first with each of the ids. -/
def otherStats : List String → List BuildScoreStat → List BuildScoreStat
  | _, [] => []
  | ids, s :: stats =>
      if s.id ∈ ids then otherStats (ids.filter (· ≠ s.id)) stats else s :: otherStats ids stats

section

variable {m : OrderedMap String BuildScoreStat} {s ps : BuildScoreStat}

theorem mergeStats_of_some (h : m.lookup s.id = some ps) (stats : List BuildScoreStat) :
    mergeStats m (s :: stats) =
      (ps :: (mergeStats (m.delete s.id) stats).1, (mergeStats (m.delete s.id) stats).2) := by
  rw [mergeStats, h]

theorem mergeStats_of_none (h : m.lookup s.id = none) (stats : List BuildScoreStat) :
    mergeStats m (s :: stats) =
      (s.disabled :: (mergeStats m stats).1, (mergeStats m stats).2) := by
  rw [mergeStats, h]

/-- What the stats have become and what is left are the stats of the map and
the other stats disabled. -/
theorem mergeStats_perm (h : m.Keyed (·.id)) (stats : List BuildScoreStat) :
    ((mergeStats m stats).1 ++ (mergeStats m stats).2.values).Perm
      (m.values ++ (otherStats m.keys stats).map BuildScoreStat.disabled) := by
  induction stats generalizing m with
  | nil =>
      show m.values.Perm (m.values ++ [])
      rw [List.append_nil]
  | cons s stats ih =>
      cases hlookup : m.lookup s.id with
      | some ps =>
          have hmem : s.id ∈ m.keys := OrderedMap.mem_keys_iff.mpr (hlookup ▸ rfl)
          have hrest := ih (h.delete s.id)
          rw [OrderedMap.keys_delete] at hrest
          have hvalues : m.values.Perm (ps :: (m.delete s.id).values) :=
            (OrderedMap.perm_delete h.nodup hlookup).map Prod.snd
          rw [mergeStats_of_some hlookup, otherStats, if_pos hmem]
          have hstep : (ps :: ((mergeStats (m.delete s.id) stats).1 ++
              (mergeStats (m.delete s.id) stats).2.values)).Perm (ps :: ((m.delete s.id).values ++
                (otherStats (m.keys.filter (· ≠ s.id)) stats).map BuildScoreStat.disabled)) :=
            hrest.cons ps
          exact hstep.trans (hvalues.append_right _).symm
      | none =>
          have hmem : s.id ∉ m.keys := by
            rw [OrderedMap.mem_keys_iff, hlookup]
            exact Bool.false_ne_true
          rw [mergeStats_of_none hlookup, otherStats, if_neg hmem, List.map_cons]
          exact ((ih h).cons s.disabled).trans List.perm_middle.symm

theorem keyed_mergeStats (h : m.Keyed (·.id)) (stats : List BuildScoreStat) :
    (mergeStats m stats).2.Keyed (·.id) := by
  induction stats generalizing m with
  | nil => exact h
  | cons s stats ih =>
      cases hlookup : m.lookup s.id with
      | some ps =>
          rw [mergeStats_of_some hlookup]
          exact ih (h.delete s.id)
      | none =>
          rw [mergeStats_of_none hlookup]
          exact ih h

/-- Walking over what the stats have become makes the same of them. -/
theorem mergeStats_again (h : m.Keyed (·.id)) (stats tail : List BuildScoreStat) :
    mergeStats m ((mergeStats m stats).1 ++ tail) =
      ((mergeStats m stats).1 ++ (mergeStats (mergeStats m stats).2 tail).1,
        (mergeStats (mergeStats m stats).2 tail).2) := by
  induction stats generalizing m with
  | nil => rfl
  | cons s stats ih =>
      cases hlookup : m.lookup s.id with
      | some ps =>
          have hagain : m.lookup ps.id = some ps := by rw [h.eq_of_lookup hlookup, hlookup]
          rw [mergeStats_of_some hlookup, List.cons_append, mergeStats_of_some hagain,
            h.eq_of_lookup hlookup, ih (h.delete s.id)]
          rfl
      | none =>
          have hagain : m.lookup s.disabled.id = none := hlookup
          rw [mergeStats_of_none hlookup, List.cons_append, mergeStats_of_none hagain, ih h]
          rfl

/-- The stats of the map stay what they are, and use it up. -/
theorem mergeStats_values (h : m.Keyed (·.id)) : mergeStats m m.values = (m.values, []) := by
  induction m with
  | nil => rfl
  | cons p m ih =>
      obtain ⟨hp, hm⟩ := List.nodup_cons.mp h.nodup
      have hkey : p.1 = p.2.id := h.keyed p List.mem_cons_self
      have hlookup : List.lookup p.2.id (p :: m) = some p.2 := by
        rw [OrderedMap.lookup_cons_eq, if_pos hkey.symm]
      have hdelete : OrderedMap.delete (p :: m) p.2.id = m := by
        rw [← hkey]
        exact OrderedMap.delete_cons_self hp
      have hrest := ih ⟨hm, fun q hq => h.keyed q (List.mem_cons_of_mem p hq)⟩
      show mergeStats (p :: m) (p.2 :: OrderedMap.values m) = _
      rw [mergeStats_of_some hlookup, hdelete, hrest]
      rfl

end

/-! ### The result -/

section

variable {s : BuildScoreState} {preset : BuildScorePreset}

/-- With distinct ids the map has the stats as they are. -/
theorem presetById_eq (h : (preset.stats.map (·.id)).Nodup) :
    OrderedMap.setAll [] (OrderedMap.byKey (·.id) preset.stats) =
      OrderedMap.byKey (·.id) preset.stats := by
  apply OrderedMap.setAll_of_nodup
  rw [OrderedMap.keys_byKey]
  exact h

/-- **Applying a preset**: the stats are those of the preset and the others,
disabled. -/
theorem applyUserPreset_perm (h : (preset.stats.map (·.id)).Nodup) (s : BuildScoreState) :
    (applyUserPreset s preset).stats.Perm
      (preset.stats ++ (otherStats (preset.stats.map (·.id)) s.stats).map
        BuildScoreStat.disabled) := by
  have hperm := mergeStats_perm (OrderedMap.Keyed.byKey h) s.stats
  rw [OrderedMap.values_byKey, OrderedMap.keys_byKey] at hperm
  rw [applyUserPreset, presetById_eq h]
  exact hperm

/-- Applying a preset twice is applying it once. -/
theorem applyUserPreset_twice (h : (preset.stats.map (·.id)).Nodup) (s : BuildScoreState) :
    applyUserPreset (applyUserPreset s preset) preset = applyUserPreset s preset := by
  have hkeyed : (OrderedMap.byKey (·.id) preset.stats).Keyed (·.id) := .byKey h
  have hleft := keyed_mergeStats hkeyed s.stats
  rw [applyUserPreset, applyUserPreset, presetById_eq h]
  dsimp only
  rw [mergeStats_again hkeyed, mergeStats_values hleft]
  congr 1
  exact List.append_nil _

end

/-! ### The score without rounding -/

/-- Without rounding the score is the sum over the stats that are enabled. -/
theorem computeScore_exact (state : BuildScoreState) (which : WhichSet) :
    (computeScore state which : Exact) = ((state.stats.filter (·.enabled)).map fun s =>
      Arithmetic.ofNumber s.weight * statValue (state.values which) s.id).sum := by
  have hfold : ∀ (stats : List BuildScoreStat) (sum : Exact), stats.foldl (fun sum s =>
      if s.enabled then sum + Arithmetic.ofNumber s.weight * statValue (state.values which) s.id
      else sum) sum = sum + ((stats.filter (·.enabled)).map fun s =>
        Arithmetic.ofNumber s.weight * statValue (state.values which) s.id).sum := by
    intro stats
    induction stats with
    | nil => exact fun sum => (add_zero sum).symm
    | cons s stats ih =>
        intro sum
        rw [List.foldl_cons, ih]
        cases hs : s.enabled with
        | true => rw [if_pos rfl, List.filter_cons_of_pos hs, List.map_cons, List.sum_cons, add_assoc]
        | false =>
            rw [if_neg Bool.false_ne_true, List.filter_cons_of_neg (by rw [hs]; exact Bool.false_ne_true)]
  rw [computeScore, hfold]
  exact zero_add _

/-- The score depends on the stats that are enabled, and not on their order. -/
theorem computeScore_of_perm {s t : BuildScoreState} {which : WhichSet}
    (hvalues : t.values which = s.values which)
    (h : (t.stats.filter (·.enabled)).Perm (s.stats.filter (·.enabled))) :
    (computeScore t which : Exact) = computeScore s which := by
  rw [computeScore_exact, computeScore_exact, hvalues]
  exact (h.map _).sum_eq

theorem filter_enabled_disabled (stats : List BuildScoreStat) :
    (stats.map BuildScoreStat.disabled).filter (·.enabled) = [] := by
  apply List.filter_eq_nil_iff.mpr
  intro r hr
  obtain ⟨s, -, rfl⟩ := List.mem_map.mp hr
  exact Bool.false_ne_true

/-- The score after a preset has been applied is that of the preset's stats. -/
theorem computeScore_applyUserPreset {preset : BuildScorePreset}
    (h : (preset.stats.map (·.id)).Nodup) (s : BuildScoreState) (which : WhichSet) :
    (computeScore (applyUserPreset s preset) which : Exact) =
      computeScore { s with stats := preset.stats } which := by
  apply computeScore_of_perm
  · cases which <;> rfl
  · have hperm := (applyUserPreset_perm h s).filter (·.enabled)
    rw [List.filter_append, filter_enabled_disabled, List.append_nil] at hperm
    exact hperm

/-! ### Presets that have been stored -/

/-- The stats have been applied to a state: it scores as they do at its own
values, and it has them and its other stats, disabled. -/
structure PresetMerged (stats : List BuildScoreStat) (s t : BuildScoreState) : Prop where
  score : ∀ which, (computeScore t which : Exact) = computeScore { s with stats := stats } which
  setA : t.setA = s.setA
  setB : t.setB = s.setB
  updatedAt : t.updatedAt = s.updatedAt
  stats : t.stats.Perm (stats ++ (otherStats (stats.map (·.id)) s.stats).map
    BuildScoreStat.disabled)

/-- A stat that validation accepts has an id and a label. -/
theorem valid_of_accepted {s r : BuildScoreStat} (hfinite : s.weight.isFinite = true)
    (h : asBuildScoreStat s.toJs = some r) : s.Valid := by
  obtain ⟨id, hid, hrest⟩ := Option.bind_eq_some_iff.mp h
  obtain ⟨label, hlabel, -⟩ := Option.bind_eq_some_iff.mp hrest
  have hid' : nonEmpty (some s.id) = some id := hid
  have hlabel' : nonEmpty (some s.label) = some label := hlabel
  refine ⟨?_, ?_, hfinite⟩
  · intro hempty
    rw [hempty] at hid'
    cases hid'
  · intro hempty
    rw [hempty] at hlabel'
    cases hlabel'

/-- Stats with finite weights are accepted as they are, or not at all. -/
theorem eq_of_asBuildScoreStats {stats parsed : List BuildScoreStat}
    (hfinite : ∀ s ∈ stats, s.weight.isFinite = true)
    (h : asBuildScoreStats (some (.arr (stats.map BuildScoreStat.toJs))) = some parsed) :
    parsed = stats := by
  have hvalid : ∀ s ∈ stats, s.Valid := by
    have hall : (stats.map BuildScoreStat.toJs).mapM asBuildScoreStat = some parsed := h
    clear h
    induction stats generalizing parsed with
    | nil => exact fun s hs => absurd hs List.not_mem_nil
    | cons s stats ih =>
        rw [List.map_cons, List.mapM_cons] at hall
        obtain ⟨r, hr, hrest⟩ := Option.bind_eq_some_iff.mp hall
        obtain ⟨rest, hrest, -⟩ := Option.bind_eq_some_iff.mp hrest
        have hhead := valid_of_accepted (hfinite s List.mem_cons_self) hr
        have htail := ih (fun t ht => hfinite t (List.mem_cons_of_mem s ht)) hrest
        exact List.forall_mem_cons.mpr ⟨hhead, htail⟩
  rw [asBuildScoreStats_toJs hvalid] at h
  exact (Option.some.inj h).symm

/-- The preset that is created is read back with the stats of the build
score. -/
theorem createBuildScorePreset_read {input : PresetInput} {s₀ : BuildScoreState} {draw : Draw}
    {c d : Conn} {item : BuildScorePresetListItem}
    (hfinite : ∀ s ∈ s₀.stats, s.weight.isFinite = true)
    (h : createBuildScorePreset input s₀.toJs draw c = (.ok item, d)) :
    ∃ preset, getBuildScorePreset item.id d = (.ok (some preset), d) ∧ preset.stats = s₀.stats := by
  rw [createBuildScorePreset] at h
  obtain ⟨parsed, c₁, hparsed, h⟩ := bind_eq_ok h
  obtain ⟨name, c₂, hname, h⟩ := bind_eq_ok h
  rw [insertPreset] at h
  obtain ⟨u, c₃, hinsert, h⟩ := bind_eq_ok h
  cases h
  have hstats : parsed.stats = s₀.stats ∧ ∀ s ∈ parsed.stats, s.Valid := by
    cases hstate : asBuildScoreState s₀.toJs draw.now with
    | none =>
        rw [hstate] at hparsed
        cases hparsed
    | some p =>
        rw [hstate] at hparsed
        cases hparsed
        have hstats := stats_of_asBuildScoreState hstate
        exact ⟨eq_of_asBuildScoreStats hfinite hstats, valid_of_asBuildScoreStats hstats⟩
  let row : BuildScorePresetRow := ⟨draw.id, input.characterId, name,
    input.description.map Text.trim, statsJson parsed.stats, stamp draw.now, stamp draw.now⟩
  have hnew : ∀ r ∈ c₂.db .buildScorePreset, r.id ≠ draw.id := by
    intro r hr heq
    apply no_conflict_of_insert hinsert
    exact List.any_eq_true.mpr ⟨r, hr, conflicts_iff.mpr (.inl heq.symm)⟩
  obtain rfl := insert_abort_ok hinsert
  refine ⟨asBuildScorePreset (schema.read .buildScorePreset row), ?_, ?_⟩
  · let after : List (Row Table.buildScorePreset) := c₂.db .buildScorePreset ++ [row]
    have hset : (c₂.db.set .buildScorePreset after) .buildScorePreset = after :=
      Db.set_self c₂.db .buildScorePreset after
    have hfind : after.find? (fun r : BuildScorePresetRow => r.id == draw.id) = some row := by
      have hnone : (c₂.db .buildScorePreset).find? (fun r : BuildScorePresetRow => r.id == draw.id) =
          none := by
        apply List.find?_eq_none.mpr
        intro r hr heq
        exact hnew r hr (beq_iff_eq.mp heq)
      have hrow : [row].find? (fun r : BuildScorePresetRow => r.id == draw.id) = some row :=
        List.find?_cons_of_pos (beq_self_eq_true draw.id)
      show (c₂.db .buildScorePreset ++ [row]).find? _ = _
      rw [List.find?_append, hnone, hrow]
      rfl
    have hread : (schema.read .buildScorePreset row : BuildScorePresetRow).id ≠ "" := draw.cut_ne
    rw [getBuildScorePreset_eq]
    show (Except.ok (((((c₂.db.set .buildScorePreset after) .buildScorePreset).find?
      fun r : BuildScorePresetRow => r.id == draw.id).map (schema.read .buildScorePreset)).filter
        (fun r : BuildScorePresetRow => r.id ≠ "") |>.map asBuildScorePreset), _) = _
    rw [hset, hfind, Option.map_some, Option.filter_some_pos (by simpa using hread)]
    rfl
  · show (asBuildScoreStats (some (statsJson parsed.stats))).getD [] = s₀.stats
    rw [asBuildScoreStats_statsJson hstats.2]
    exact hstats.1

/-- **A saved preset keeps its score**: what has been created from a build score
is read back as a preset that gives every state the score of that build score
at the state's own values, and changes nothing but the stats. -/
theorem userPresetScore {input : PresetInput} {s₀ : BuildScoreState} {draw : Draw} {c d : Conn}
    {item : BuildScorePresetListItem} (hids : (s₀.stats.map (·.id)).Nodup)
    (hfinite : ∀ s ∈ s₀.stats, s.weight.isFinite = true)
    (h : createBuildScorePreset input s₀.toJs draw c = (.ok item, d)) :
    ∃ preset, getBuildScorePreset item.id d = (.ok (some preset), d) ∧
      ∀ s, PresetMerged s₀.stats s (applyUserPreset s preset) ∧
        applyUserPreset (applyUserPreset s preset) preset = applyUserPreset s preset := by
  obtain ⟨preset, hread, hstats⟩ := createBuildScorePreset_read hfinite h
  rw [← hstats] at hids
  refine ⟨preset, hread, fun s => ⟨⟨?_, rfl, rfl, rfl, ?_⟩, applyUserPreset_twice hids s⟩⟩
  · intro which
    rw [computeScore_applyUserPreset hids s which, hstats]
  · have hperm := applyUserPreset_perm hids s
    rw [hstats] at hperm
    exact hperm

/-- A build score of one stat. -/
def attackScore : BuildScoreState where
  updatedAt := stamp 1
  stats := [⟨"atk", "공격력", .flat, true, 2⟩]
  setA := ⟨"세팅 A", [("atk", 3)]⟩
  setB := ⟨"세팅 B", []⟩

theorem userPresetScore_attack :
    ∃ item d preset, createBuildScorePreset ⟨"c1", "PVE", none⟩ attackScore.toJs
        ⟨"p1", 2, by decide, by decide⟩
        withCharacter = (.ok item, d) ∧
      getBuildScorePreset item.id d = (.ok (some preset), d) ∧
      ∀ s, PresetMerged attackScore.stats s (applyUserPreset s preset) ∧
        applyUserPreset (applyUserPreset s preset) preset = applyUserPreset s preset := by
  have hfinite : ∀ s ∈ attackScore.stats, s.weight.isFinite = true := by
    intro s hs
    obtain rfl := List.mem_singleton.mp hs
    rfl
  have hids : (attackScore.stats.map (·.id)).Nodup := List.nodup_singleton "atk"
  have hcreate : createBuildScorePreset ⟨"c1", "PVE", none⟩ attackScore.toJs
      ⟨"p1", 2, by decide, by decide⟩ withCharacter =
      (.ok ⟨"p1", "PVE", none, 1, stamp 2, stamp 2⟩, _) := rfl
  obtain ⟨preset, hread, hmerged⟩ := userPresetScore hids hfinite hcreate
  exact ⟨_, _, preset, hcreate, hread, hmerged⟩

end Hub
