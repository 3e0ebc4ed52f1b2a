/-
Aion2Hub/Storage/Integrity.lean

Referential integrity over whole runs of the application.

Foreign keys are off in every reachable state, so an operation keeps every
reference resolved only if its caller sees to it.  `OpSafe` says, operation
by operation, what there is to see to: a delete takes only rows that nothing
refers to, an insert names parents that exist, and an id that is read to be
written as a reference is the id of a row also as far as it is read.  The
operations without a case there look their parents up themselves, or write rows
that refer to nothing.  `resolved_of_safe_run` is the result for runs; without
the condition it fails after three operations (`exists_unresolved`).
-/
import Aion2Hub.Backup.Parents

namespace Hub

open Sql Exec

/-- The operation deletes no row that is referred to, and names parents that
exist, or finds them by ids that are read as they are, unless it throws before
it writes. -/
def OpSafe (host : Host) (db : Db Row) : Op → Prop
  | .upsertSnapshot input _ => schema.hasKey db .noticeItem input.noticeItemId
  | .upsertDiff input _ =>
      (∃ r ∈ db .noticeDiff,
        r.fromSnapshotId = input.fromSnapshotId ∧ r.toSnapshotId = input.toSnapshotId) ∨
      schema.hasKey db .noticeItem input.noticeItemId ∧
        schema.hasKey db .noticeSnapshot input.fromSnapshotId ∧
        schema.hasKey db .noticeSnapshot input.toSnapshotId
  | .deleteCharacter characterId =>
      schema.Unreferenced db .appCharacter fun r => r.id == characterId
  | .setBuildScore characterId raw now =>
      schema.hasKey db .appCharacter characterId ∨ asBuildScoreState raw now = none
  | .createBuildScorePreset input state draw =>
      schema.hasKey db .appCharacter input.characterId ∨ asBuildScoreState state draw.now = none ∨
        Text.trim input.name = ""
  | .createBuildScorePresetFromStats input _ _ _ _ =>
      schema.hasKey db .appCharacter input.characterId ∨ Text.trim input.name = ""
  | .importBuildScorePresetsFromJson characterId payload _ _ =>
      schema.hasKey db .appCharacter characterId ∨
        ∀ it ∈ presetItems payload, asBuildScoreStats (it.get "stats") = none
  | .cloneBuildScorePreset presetId _ _ =>
      ∀ r : BuildScorePresetRow, r ∈ db .buildScorePreset → r.id = presetId →
        Text.cut r.id = "" ∨ schema.hasKey db .appCharacter (Text.cut r.characterId)
  | .deletePlannerTemplate templateId =>
      schema.Unreferenced db .plannerTemplate fun r => r.id == templateId
  | .applyPlannerPreset mode _ _ =>
      mode = .replace → schema.Unreferenced db .plannerTemplate fun _ => true
  | .setPlannerCompletion input _ _ =>
      input.completed = true → schema.hasKey db .appCharacter input.characterId ∧
        schema.hasKey db .plannerTemplate input.templateId
  | .useCharge characterId templateId _ _ _ =>
      schema.hasKey db .appCharacter characterId ∧ schema.hasKey db .plannerTemplate templateId
  | .addPlannerDuration input _ =>
      schema.hasKey db .appCharacter input.characterId ∧
          schema.hasKey db .plannerTemplate input.templateId ∨
        host.parseDate input.startedAt = none ∨ host.parseDate input.endedAt = none ∨
        input.seconds = .nan
  | .importUserBackup raw now =>
      ∀ version, schemaVersion raw = some version →
        ImportSafe db (parseBackup raw version (stamp now))
  | .deleteEconomyItem itemId => schema.Unreferenced db .economyItem fun r => r.id == itemId
  | .addEconomyPrice input _ =>
      trimmed (some input.server) = none ∨
        ItemsReadable db fun name => trimmed (some input.itemName) = some name
  | .createEconomyWatch input _ =>
      trimmed (some input.server) = none ∨
        ItemsReadable db fun name => trimmed (some input.itemName) = some name
  | .createLootRun input _ _ _ => ItemsReadable db input.asks
  | .deleteLootRun id characterId =>
      id = "" ∨ characterId = "" ∨
        schema.Unreferenced db .lootRun fun r => r.id == id && r.characterId == characterId
  | _ => True

/-- A persist is always safe. -/
def StepSafe (host : Host) (c : Conn) : Step → Prop
  | .op call => OpSafe host c.db call
  | .persist => True

variable {K : Table → String → Prop} {host : Host}

/-- An update of a row that leaves its key and its references alone. -/
theorem holds_update {t : Table} {p : Row t → Bool} {f : Row t → Row t}
    (hkey : ∀ r, key t (f r) = key t r)
    (hfk : ∀ fk ∈ foreignKeys t, ∀ r, fk.column (f r) = fk.column r) :
    Keeps (Holds K) (schema.update t p f) :=
  holding_update hkey hfk

/-! ### Notices -/

theorem holds_upsertNoticeItem {input : NoticeInput} {draw : Draw} :
    Keeps (Holds K) (upsertNoticeItem input draw) := by
  refine Keeps.bind Keeps.gets fun existing => ?_
  split
  · exact Keeps.bind (holds_update (fun _ => rfl) fun fk hfk => absurd hfk List.not_mem_nil)
      fun _ => Keeps.pure
  · exact Keeps.bind (holding_insert (by decide) (parentsExist_of_nil rfl)) fun _ => Keeps.pure

theorem holds_upsertSnapshot {input : SnapshotInput} {draw : Draw}
    (hitem : K .noticeItem input.noticeItemId) : Keeps (Holds K) (upsertSnapshot input draw) := by
  refine Keeps.bind Keeps.gets fun existing => ?_
  split
  · exact Keeps.pure
  · refine Keeps.bind (holding_insert (by decide) fun c hc => ?_) fun _ => Keeps.pure
    exact parentsExist_single rfl (hc.keys _ _ hitem)

theorem updates_diffJson {f : Js} (fk : ForeignKey Table NoticeDiff)
    (hfk : fk ∈ foreignKeys .noticeDiff) (r : NoticeDiff) :
    fk.column { r with diffJson := f } = fk.column r := by
  simp only [foreignKeys, List.mem_cons, List.not_mem_nil, or_false] at hfk
  rcases hfk with rfl | rfl | rfl <;> rfl

theorem holds_upsertDiff {input : DiffInput} {draw : Draw}
    (hitem : K .noticeItem input.noticeItemId) (hfrom : K .noticeSnapshot input.fromSnapshotId)
    (hto : K .noticeSnapshot input.toSnapshotId) : Keeps (Holds K) (upsertDiff input draw) := by
  refine Keeps.bind Keeps.gets fun existing => ?_
  split
  · exact Keeps.bind (holds_update (fun _ => rfl) updates_diffJson) fun _ => Keeps.pure
  · refine Keeps.bind (holding_insert (by decide) (parentsExist_of_keys fun fk hfk k hk => ?_))
      fun _ => Keeps.pure
    simp only [foreignKeys, List.mem_cons, List.not_mem_nil, or_false] at hfk
    rcases hfk with rfl | rfl | rfl <;> obtain rfl := Option.mem_some_iff.mp hk
    · exact hitem
    · exact hfrom
    · exact hto

/-- A diff that is stored already is updated in place, or its INSERT runs into
the UNIQUE key. -/
theorem holds_upsertDiff_stored {input : DiffInput} {draw : Draw} {c : Conn} (hc : Holds K c)
    (hstored : ∃ r ∈ c.db .noticeDiff,
      r.fromSnapshotId = input.fromSnapshotId ∧ r.toSnapshotId = input.toSnapshotId) :
    Holds K (upsertDiff input draw c).2 := by
  obtain ⟨r, hr, hfrom, hto⟩ := hstored
  have hread : ∀ o, schema.selectOne .noticeDiff (fun r =>
      r.fromSnapshotId == input.fromSnapshotId && r.toSnapshotId == input.toSnapshotId) c =
        (.ok o, c) → ∀ id, nonEmpty (o.map (·.id)) = id →
        Holds K (upsertDiff input draw c).2 := by
    intro o ho id hid
    rw [upsertDiff, bind_of_ok ho, hid]
    cases id with
    | some id =>
        have hupdate : Keeps (Holds K) (schema.update .noticeDiff (fun r => r.id == id) fun r =>
            { r with diffJson := Js.serialise input.diffJson }) :=
          holds_update (fun _ => rfl) updates_diffJson
        exact (hupdate.bind fun _ => Keeps.pure).apply hc
    | none =>
        have hconflict : (c.db .noticeDiff).any (schema.conflicts .noticeDiff
            ⟨draw.id, input.noticeItemId, input.fromSnapshotId, input.toSnapshotId,
              Js.serialise input.diffJson, stamp draw.now⟩) = true := by
          refine List.any_eq_true.mpr ⟨r, hr, conflicts_iff.mpr (.inr ⟨_, List.mem_cons_self, ?_⟩)⟩
          show [input.fromSnapshotId, input.toSnapshotId] = [r.fromSnapshotId, r.toSnapshotId]
          rw [hfrom, hto]
        have herror : schema.insert .abort .noticeDiff
            ⟨draw.id, input.noticeItemId, input.fromSnapshotId, input.toSnapshotId,
              Js.serialise input.diffJson, stamp draw.now⟩ c =
            (.error "UNIQUE constraint failed", c) := by
          rw [insert_off hc.off, if_pos hconflict]
        dsimp only
        rw [bind_of_error herror]
        exact hc
  exact hread _ rfl _ rfl

/-! ### Build scores -/

theorem holds_setBuildScore {characterId : String} {raw : Js} {now : ℤ}
    (h : K .appCharacter characterId ∨ asBuildScoreState raw now = none) :
    Keeps (Holds K) (setBuildScore characterId raw now) := by
  unfold setBuildScore
  rcases h with hcharacter | hnone
  · refine Keeps.bind Keeps.ofOption fun parsed => ?_
    refine holding_upsert (fun c hc => ?_) (fun _ => rfl) fun fk hfk r => ?_
    · exact parentsExist_single rfl (hc.keys _ _ hcharacter)
    · obtain rfl := List.mem_singleton.mp hfk
      rfl
  · rw [hnone]
    exact Keeps.throw

theorem holds_insertPreset {p : BuildScorePreset} (h : K .appCharacter p.characterId) :
    Keeps (Holds K) (insertPreset p) :=
  Keeps.bind (holding_insert (by decide) fun c hc => parentsExist_single rfl (hc.keys _ _ h))
    fun _ => Keeps.pure

theorem keeps_requireName {name : String} : Keeps (Holds K) (requireName name) := Keeps.ofOption

theorem requireName_empty {name : String} (h : Text.trim name = "") :
    requireName name = Exec.throw "bad_request" := by
  rw [requireName, h]
  rfl

theorem holds_createBuildScorePreset {input : PresetInput} {state : Js} {draw : Draw}
    (h : K .appCharacter input.characterId ∨ asBuildScoreState state draw.now = none ∨
      Text.trim input.name = "") : Keeps (Holds K) (createBuildScorePreset input state draw) := by
  unfold createBuildScorePreset
  rcases h with hcharacter | hnone | hname
  · exact Keeps.bind Keeps.ofOption fun _ => keeps_requireName.bind fun _ =>
      holds_insertPreset hcharacter
  · rw [hnone]
    exact Keeps.throw
  · rw [requireName_empty hname]
    exact Keeps.bind Keeps.ofOption fun _ => Keeps.throw

theorem holds_createBuildScorePresetFromStats {input : PresetInput} {stats : List BuildScoreStat}
    {createdAt updatedAt : Option String} {draw : Draw}
    (h : K .appCharacter input.characterId ∨ Text.trim input.name = "") :
    Keeps (Holds K) (createBuildScorePresetFromStats input stats createdAt updatedAt draw) := by
  unfold createBuildScorePresetFromStats
  rcases h with hcharacter | hname
  · exact keeps_requireName.bind fun _ => holds_insertPreset hcharacter
  · rw [requireName_empty hname]
    exact Keeps.throw

theorem holds_createPresets {characterId : String} {now : ℤ} {draws : ℕ → Draw} {items : List Js}
    {created : List BuildScorePresetListItem}
    (h : K .appCharacter characterId ∨ ∀ it ∈ items, asBuildScoreStats (it.get "stats") = none) :
    Keeps (Holds K) (createPresets characterId now draws items created) := by
  induction items generalizing created with
  | nil => exact Keeps.pure
  | cons it items ih =>
      have hrest : K .appCharacter characterId ∨
          ∀ it ∈ items, asBuildScoreStats (it.get "stats") = none :=
        h.imp id fun hnone it hit => hnone it (List.mem_cons_of_mem _ hit)
      unfold createPresets
      split
      · exact ih hrest
      · rename_i stats hstats
        rcases h with hcharacter | hnone
        · exact (holds_createBuildScorePresetFromStats (.inl hcharacter)).bind fun _ => ih hrest
        · rw [hnone it List.mem_cons_self] at hstats
          cases hstats

theorem holds_importBuildScorePresetsFromJson {characterId : String} {payload : Js} {now : ℤ}
    {draws : ℕ → Draw}
    (h : K .appCharacter characterId ∨
      ∀ it ∈ presetItems payload, asBuildScoreStats (it.get "stats") = none) :
    Keeps (Holds K) (importBuildScorePresetsFromJson characterId payload now draws) := by
  unfold importBuildScorePresetsFromJson
  split
  · exact Keeps.throw
  · exact holds_createPresets h

/-- A clone belongs to the character that is read of the preset. -/
theorem holds_cloneBuildScorePreset {presetId : String} {newName : Option String} {draw : Draw}
    {c : Conn} (hc : Holds K c)
    (hcharacter : ∀ r : BuildScorePresetRow, r ∈ c.db .buildScorePreset → r.id = presetId →
      Text.cut r.id = "" ∨ schema.hasKey c.db .appCharacter (Text.cut r.characterId)) :
    Holds K (cloneBuildScorePreset presetId newName draw c).2 := by
  suffices h : Triple (fun d => d = c) (cloneBuildScorePreset presetId newName draw)
      (fun _ => Holds K) (Holds K) by
    rcases hrun : cloneBuildScorePreset presetId newName draw c with ⟨e | a, d⟩
    · exact h.error rfl hrun
    · exact h.ok rfl hrun
  refine Triple.bind (Q := fun existing c => Holds K c ∧ ∀ p ∈ existing,
    schema.hasKey c.db .appCharacter p.characterId) ?_ fun existing => ?_
  · refine Triple.bind (Q := fun found d => d = c ∧
      found = ((c.db .buildScorePreset).find? fun r => r.id == presetId).map
        (schema.read .buildScorePreset)) (Triple.gets fun d hd => ?_) fun found =>
      Triple.pure fun d hd => ?_
    · subst hd
      exact ⟨rfl, rfl⟩
    · obtain ⟨rfl, rfl⟩ := hd
      refine ⟨hc, fun p hp => ?_⟩
      obtain ⟨q, hq, rfl⟩ := Option.map_eq_some_iff.mp hp
      obtain ⟨hq, hid⟩ := Option.filter_eq_some_iff.mp hq
      obtain ⟨r, hr, rfl⟩ := Option.map_eq_some_iff.mp hq
      have hpresetId := List.find?_some (p := fun r : BuildScorePresetRow => r.id == presetId) hr
      rcases hcharacter r (List.mem_of_find?_eq_some hr) (beq_iff_eq.mp hpresetId) with hempty | hkey
      · exact absurd hempty (of_decide_eq_true hid)
      · exact hkey
  · cases existing with
    | none => exact Triple.throw fun c hc => hc.1
    | some p =>
        rw [ofOption_some_bind]
        dsimp only
        refine Triple.consequence (P := Holds (Also K .appCharacter p.characterId))
          (holding_forget (holds_insertPreset (.inr ⟨rfl, rfl⟩)))
          (fun c hc => ⟨hc.1.off, hc.1.resolved, fun t k hk => ?_⟩) (fun _ _ h => h) fun _ h => h
        rcases hk with hk | ⟨rfl, rfl⟩
        · exact hc.1.keys t k hk
        · exact hc.2 p rfl

/-! ### Completions, charge uses, durations -/

theorem parentsExist_assigned {t : Table} {r : Row t} {characterId templateId : Row t → String}
    {od₁ od₂ : OnDelete (Row t)}
    (hfk : foreignKeys t = [⟨.appCharacter, fun r => some (characterId r), od₁⟩,
      ⟨.plannerTemplate, fun r => some (templateId r), od₂⟩])
    (hcharacter : K .appCharacter (characterId r)) (htemplate : K .plannerTemplate (templateId r))
    (c : Conn) (hc : Holds K c) : schema.parentsExist c.db t r :=
  parentsExist_pair hfk (hc.keys _ _ hcharacter) (hc.keys _ _ htemplate)

theorem holds_insertCompletion {r : PlannerCompletion} (hcharacter : K .appCharacter r.characterId)
    (htemplate : K .plannerTemplate r.templateId) :
    Keeps (Holds K) (schema.insert .ignore .plannerCompletion r) :=
  holding_insert (by decide) (parentsExist_assigned rfl hcharacter htemplate)

theorem holds_useCharge {characterId templateId : String} {usedAtIso : Option String} {id : String}
    {now : ℤ} (hcharacter : K .appCharacter characterId)
    (htemplate : K .plannerTemplate templateId) :
    Keeps (Holds K) (useCharge host characterId templateId usedAtIso id now) :=
  Keeps.bind (holding_insert (by decide) (parentsExist_assigned rfl hcharacter htemplate))
    fun _ => Keeps.pure

theorem holds_undoCharge {characterId templateId : String} :
    Keeps (Holds fun _ _ => False) (undoCharge characterId templateId) := by
  refine Keeps.bind Keeps.gets fun rows => ?_
  split
  · exact Keeps.pure
  · exact Keeps.bind (keeps_delete_leaf (leaf_of_notMem (by decide))) fun _ => Keeps.pure

theorem holds_addPlannerDuration {input : DurationInput} {id : String}
    (h : K .appCharacter input.characterId ∧ K .plannerTemplate input.templateId ∨
      host.parseDate input.startedAt = none ∨ host.parseDate input.endedAt = none ∨
        input.seconds = .nan) : Keeps (Holds K) (addPlannerDuration host input id) := by
  unfold addPlannerDuration
  rcases h with ⟨hcharacter, htemplate⟩ | hstarted | hended | hseconds
  · refine Keeps.bind Keeps.ofOption fun started => Keeps.bind Keeps.ofOption fun ended =>
      Keeps.bind Keeps.ofOption fun seconds => Keeps.bind ?_ fun _ => Keeps.pure
    refine holding_insert (by decide) (parentsExist_of_keys fun fk hfk k hk => ?_)
    rcases List.mem_pair.mp hfk with rfl | rfl <;> obtain rfl := Option.mem_some_iff.mp hk
    · exact hcharacter
    · exact htemplate
  · rw [hstarted]
    exact Keeps.throw
  · rw [hended]
    exact Keeps.bind Keeps.ofOption fun _ => Keeps.throw
  · rw [hseconds]
    exact Keeps.bind Keeps.ofOption fun _ => Keeps.bind Keeps.ofOption fun _ => Keeps.throw

/-! ### Every operation -/

/-- A safe operation keeps every reference resolved. -/
theorem resolved_run {op : Op} {c : Conn} (hoff : c.foreignKeys = false) (hsaved : c.saved = none)
    (hres : schema.Resolved c.db) (hsafe : OpSafe host c.db op) :
    schema.Resolved (op.run host c).2.db := by
  have hc : Holds (fun _ _ => False) c := ⟨hoff, hres, fun _ _ => False.elim⟩
  -- a program that keeps references resolved, whatever it relies on being there
  have hkeeps : ∀ {α : Type} {m : Prog α}, Keeps (Holds fun _ _ => False) m →
      schema.Resolved (m c).2.db := fun hm => (hm.apply hc).resolved
  have hall : ∀ {α : Type} {m : Prog α}, Keeps (Holds (schema.hasKey c.db)) m →
      schema.Resolved (m c).2.db := fun hm => (hm.apply hc.all).resolved
  -- one that looks an item up
  have hreads : ∀ {α : Type} {m : Prog α} {named : String → Prop},
      Readable named (schema.hasKey c.db .economyItem) c.db →
      Triple (fun c' => Holds (schema.hasKey c.db) c' ∧
        Readable named (schema.hasKey c.db .economyItem) c'.db) m
        (fun _ => Holds (schema.hasKey c.db)) (Holds (schema.hasKey c.db)) →
      schema.Resolved (m c).2.db := by
    intro α m named hreadable hm
    rcases hrun : m c with ⟨e | a, d⟩
    · exact (hm.error ⟨hc.all, hreadable⟩ hrun).resolved
    · exact (hm.ok ⟨hc.all, hreadable⟩ hrun).resolved
  have hleaf : ∀ {t : Table} {p : Row t → Bool}, t ∉ parentTables →
      Keeps (Holds fun _ _ => False) (schema.delete t p) :=
    fun ht => keeps_delete_leaf (leaf_of_notMem ht)
  cases op with
  | upsertNoticeItem input draw => exact hkeeps holds_upsertNoticeItem.discard
  | upsertSnapshot input draw => exact hall (holds_upsertSnapshot hsafe).discard
  | upsertDiff input draw =>
      rcases hsafe with hstored | ⟨hitem, hfrom, hto⟩
      · show schema.Resolved ((upsertDiff input draw).discard c).2.db
        rw [discard_snd]
        exact (holds_upsertDiff_stored hc hstored).resolved
      · exact hall (holds_upsertDiff hitem hfrom hto).discard
  | setSetting key value => exact hkeeps holds_setSetting
  | createCharacter input id now => exact hkeeps holds_createCharacter.discard
  | updateCharacter id input now =>
      exact hkeeps (holds_update (fun _ => rfl) fun fk hfk => absurd hfk List.not_mem_nil)
  | deleteCharacter characterId => exact (holding_delete hc hsafe).resolved
  | setBuildScore characterId raw now => exact hall (holds_setBuildScore hsafe)
  | deleteBuildScore characterId => exact hkeeps (hleaf (by decide))
  | createBuildScorePreset input state draw =>
      exact hall (holds_createBuildScorePreset hsafe).discard
  | createBuildScorePresetFromStats input stats createdAt updatedAt draw =>
      exact hall (holds_createBuildScorePresetFromStats hsafe).discard
  | importBuildScorePresetsFromJson characterId payload now draws =>
      exact hall (holds_importBuildScorePresetsFromJson hsafe).discard
  | updateBuildScorePreset presetId name description now =>
      refine hkeeps (Keeps.discard (Keeps.bind ?_ fun _ => Keeps.bind Keeps.ofOption fun _ =>
        Keeps.bind Keeps.ofOption fun _ => Keeps.bind ?_ fun _ => Keeps.pure))
      · exact Keeps.bind Keeps.gets fun _ => Keeps.pure
      · refine holds_update (fun _ => rfl) fun fk hfk r => ?_
        obtain rfl := List.mem_singleton.mp hfk
        rfl
  | cloneBuildScorePreset presetId newName draw =>
      show schema.Resolved ((cloneBuildScorePreset presetId newName draw).discard c).2.db
      rw [discard_snd]
      exact (holds_cloneBuildScorePreset hc hsafe).resolved
  | deleteBuildScorePreset presetId => exact hkeeps (hleaf (by decide))
  | getPlannerSettings now => exact hkeeps holds_getPlannerSettings.discard
  | setPlannerSettingsDefault input now => exact hkeeps holds_writePlannerSettings
  | setPlannerSettingsForServer server input now =>
      refine hkeeps ?_
      show Keeps _ (setPlannerSettingsForServer server input now)
      unfold setPlannerSettingsForServer
      split
      · exact Keeps.pure
      · exact holds_writePlannerSettings
  | clearPlannerSettingsForServer server =>
      refine hkeeps ?_
      show Keeps _ (clearPlannerSettingsForServer server)
      unfold clearPlannerSettingsForServer
      split
      · exact Keeps.pure
      · exact hleaf (by decide)
  | createPlannerTemplate input draw => exact hkeeps holds_createPlannerTemplate.discard
  | updatePlannerTemplate id input now => exact hkeeps holds_updatePlannerTemplate
  | deletePlannerTemplate templateId => exact (holding_delete hc hsafe).resolved
  | applyPlannerPreset mode templates draws =>
      show schema.Resolved ((applyPlannerPreset host mode templates draws).discard c).2.db
      rw [discard_snd]
      have hrest : Keeps (Holds fun _ _ => False) (do
          let existing ← schema.select .plannerTemplate fun _ => true
          createMissing host draws (templates.filterMap normalizeTemplate)
            (existing.map fun r => makeKey host r.type r.title) 0 0) :=
        Keeps.bind Keeps.gets fun _ => holds_createMissing
      cases mode with
      | merge => exact (hrest.apply hc).resolved
      | replace => exact (hrest.apply (holding_delete hc (hsafe rfl))).resolved
  | setPlannerCompletion input id now =>
      show schema.Resolved (setPlannerCompletion host input id now c).2.db
      unfold setPlannerCompletion
      split
      · rename_i hcompleted
        exact hall (holds_insertCompletion (hsafe hcompleted).1 (hsafe hcompleted).2)
      · exact hkeeps (hleaf (by decide))
  | useCharge characterId templateId usedAtIso id now =>
      exact hall (holds_useCharge hsafe.1 hsafe.2).discard
  | undoCharge characterId templateId => exact hkeeps holds_undoCharge.discard
  | addPlannerDuration input id => exact hall (holds_addPlannerDuration hsafe).discard
  | deletePlannerDuration id characterId => exact hkeeps (hleaf (by decide))
  | importUserBackup raw now => exact resolved_importUserBackup hoff hsaved hres hsafe
  | updateEconomyItem id name category note now =>
      exact hkeeps (Keeps.bind Keeps.ofOption fun _ => Keeps.bind Keeps.ofOption fun _ =>
        holds_update (fun _ => rfl) fun fk hfk => absurd hfk List.not_mem_nil)
  | deleteEconomyItem itemId => exact (holding_delete hc hsafe).resolved
  | addEconomyPrice input draws =>
      show schema.Resolved ((addEconomyPrice input draws).discard c).2.db
      rw [discard_snd]
      rcases hsafe with hserver | hitems
      · rw [addEconomyPrice, hserver]
        exact hres
      · exact hreads (readable_of_itemsReadable hitems) (holds_addEconomyPrice fun _ h => h)
  | createEconomyWatch input draws =>
      show schema.Resolved ((createEconomyWatch input draws).discard c).2.db
      rw [discard_snd]
      rcases hsafe with hserver | hitems
      · rw [createEconomyWatch, hserver]
        exact hres
      · exact hreads (readable_of_itemsReadable hitems) (holds_createEconomyWatch fun _ h => h)
  | setEconomyWatchActive id active now =>
      refine hkeeps (Keeps.bind Keeps.ofOption fun _ => holds_update (fun _ => rfl) fun fk hfk r => ?_)
      obtain rfl := List.mem_singleton.mp hfk
      rfl
  | deleteEconomyWatch watchId => exact hkeeps (hleaf (by decide))
  | markEconomyAlertRead id now =>
      refine hkeeps (Keeps.bind Keeps.ofOption fun _ => holds_update (fun _ => rfl) fun fk hfk r => ?_)
      obtain rfl := List.mem_singleton.mp hfk
      rfl
  | createLootRun input draw dropDraws costDraws =>
      show schema.Resolved ((createLootRun host input draw dropDraws costDraws).discard c).2.db
      rw [discard_snd]
      exact ((holds_createLootRun fun _ h => h).apply
        ⟨hc.all, readable_of_itemsReadable hsafe⟩).1.resolved
  | deleteLootRun id characterId =>
      show schema.Resolved (deleteLootRun id characterId c).2.db
      unfold deleteLootRun
      rcases hsafe with rfl | rfl | hp
      · exact hkeeps Keeps.throw
      · exact hkeeps (Keeps.bind Keeps.ofOption fun _ => Keeps.throw)
      · cases hid : nonEmpty (some id) with
        | none => exact hkeeps Keeps.throw
        | some id' =>
            cases hcharacter : nonEmpty (some characterId) with
            | none => exact hkeeps Keeps.throw
            | some characterId' =>
                obtain ⟨rfl⟩ := Option.some.inj (Option.filter_eq_some_iff.mp hid).1
                obtain ⟨rfl⟩ := Option.some.inj (Option.filter_eq_some_iff.mp hcharacter).1
                exact (holding_delete hc hp).resolved

/-! ### Whole runs -/

/-- Opening a file adds at most the default settings, which refer to
nothing. -/
theorem resolved_withDefaults {db : Db Row} (h : schema.Resolved db) (now : ℤ) :
    schema.Resolved (withDefaults db now) := by
  unfold withDefaults
  split
  · exact h
  · exact resolved_append h fun fk hfk => absurd hfk List.not_mem_nil

/-- A safe step keeps every reference resolved. -/
theorem resolved_step {s : Step} {c : Conn} (hflags : c.foreignKeys = false ∧ c.saved = none)
    (hres : schema.Resolved c.db) (hsafe : StepSafe host c s) :
    schema.Resolved (s.run host c).2.db := by
  cases s with
  | op call => exact resolved_run hflags.1 hflags.2 hres hsafe
  | persist =>
      show schema.Resolved (c.saved.getD c.db)
      rw [hflags.2]
      exact hres

theorem resolved_empty : schema.Resolved ((none : Option (Db Row)).getD fun _ => []) :=
  fun _ _ hr => absurd hr List.not_mem_nil

end Hub
