/-
Aion2Hub/Characters/Active.lean

The active character.

The pointer is a setting without a foreign key.  Five handlers write it:
`characters:create` and `characters:delete` keep it on a stored character,
`planner:getOverview` drops it when the character is gone,
`app:setActiveCharacterId` stores what it is given, and `backup:importJson`
stores the id of the file before it inserts the characters that it accepts.

The pointer is read back as a C string.  Main results: after an accepted import
it is real exactly when what is read of the file's id is one of its own
characters (`activeReal_import_iff`), and after a selection exactly when what is
read of the id is stored (`activeReal_select_iff`); in every run of the handlers
whose imports and selections are of that kind, it is real in every state
(`activeReal_of_serves`).
-/
import Aion2Hub.Planner.Toggle
import Aion2Hub.Storage.References
import Aion2Hub.Storage.Footprint

namespace Hub

open Sql Exec

/-! ### The pointer -/

/-- What `getActiveCharacterId` returns. -/
def activeCharacterId (db : Db Row) : Option String :=
  ((db .appSetting).find? fun r : AppSetting => r.key == "activeCharacterId").map fun r =>
    Text.cut r.value

theorem getActiveCharacterId_eq (c : Conn) :
    getActiveCharacterId c = (.ok (activeCharacterId c.db), c) := by
  show (Except.ok ((((c.db .appSetting).find? fun r : AppSetting =>
    r.key == "activeCharacterId").map (schema.read .appSetting)).map (·.value)), c) = _
  rw [Option.map_map]
  rfl

/-- The active character is null, or stored. -/
def ActiveReal (db : Db Row) : Prop :=
  ∀ id, activeCharacterId db = some id → schema.hasKey db .appCharacter id

/-- The table of the pointer and the table that it points into. -/
def pointerTables : List Table := [.appSetting, .appCharacter]

theorem closed_pointer : schema.Closed (· ∈ pointerTables) := by
  intro t ht fk hfk
  rcases List.mem_pair.mp ht with rfl | rfl <;> exact absurd hfk List.not_mem_nil

/-! ### Handlers -/

/-- `if (!db.getActiveCharacterId()) db.setActiveCharacterId(id)`. -/
def adoptCharacter (active : Option String) (id : String) : Prog Unit :=
  match nonEmpty active with
  | none => setActiveCharacterId (some id)
  | some _ => pure ()

/-- `characters:create`. -/
def charactersCreate (input : Option Js) (id : String) (now : ℤ) : Prog String := do
  let obj := Js.asRecord input
  let name ← Exec.ofOption "bad_request" (trimmed (text obj "name"))
  let server := (text obj "server").map Text.trim
  let klass := (text obj "class").map Text.trim
  let id ← createCharacter ⟨name, server, klass⟩ id now
  let active ← getActiveCharacterId
  adoptCharacter active id
  pure id

/-- `characters:update`. -/
def charactersUpdate (input : Option Js) (now : ℤ) : Prog Unit := do
  let obj := Js.asRecord input
  let id ← Exec.ofOption "bad_request" (nonEmpty (text obj "id"))
  let name ← Exec.ofOption "bad_request" (trimmed (text obj "name"))
  let server := (text obj "server").map Text.trim
  let klass := (text obj "class").map Text.trim
  updateCharacter id ⟨name, server, klass⟩ now

/-- `characters:delete`. -/
def charactersDelete (characterId : Option Js) : Prog Unit := do
  let characterId ← Exec.ofOption "bad_request" (nonEmpty (Js.asString characterId))
  let active ← getActiveCharacterId
  deleteCharacter characterId
  if active = some characterId then setActiveCharacterId none else pure ()

/-- `app:setActiveCharacterId`. -/
def appSetActiveCharacterId : Option Js → Prog Unit
  | some .null => setActiveCharacterId none
  | some (.str characterId) => setActiveCharacterId (some characterId)
  | _ => Exec.throw "bad_request"

/-- What `planner:getOverview` does when the overview throws. -/
def overviewFailed (e : String) : Prog (Option PlannerOverview) :=
  if e = "character_not_found" then do
    setActiveCharacterId none
    pure none
  else Exec.throw e

/-- `planner:getOverview`. -/
def plannerGetOverview (host : Host) (input : Option Js) (now : ℤ) :
    Prog (Option PlannerOverview) := do
  let obj := Js.asRecord input
  match nonEmpty (← resolveCharacterId obj) with
  | none => pure none
  | some characterId =>
      Exec.tryCatch (do
        let overview ← getPlannerOverview host characterId (text obj "nowIso") now
        pure (some overview)) overviewFailed

/-! ### Runs of the handlers -/

/-- The operation leaves the pointer and the characters alone. -/
def Op.Elsewhere : Op → Prop
  | .setSetting key _ => key ≠ "activeCharacterId"
  | op => ∀ t ∈ op.writes, t ∉ pointerTables

/-- The operations of the handlers above. -/
def Op.Handled : Op → Prop
  | .setSetting key _ => key = "activeCharacterId"
  | .createCharacter _ _ _ | .updateCharacter _ _ _ | .deleteCharacter _
  | .importUserBackup _ _ => True
  | _ => False

/-- Every operation has a handler above, or leaves the two tables alone. -/
theorem elsewhere_iff (op : Op) : op.Elsewhere ↔ ¬ op.Handled := by
  cases op <;> simp [Op.Elsewhere, Op.Handled, Op.writes, pointerTables, clearedTables]

/-- What happens between two awaits.  `other` is an operation of any other
handler, and `persist` what a handler awaits after its own. -/
inductive Request where
  | charactersCreate (input : Option Js) (draw : Draw)
  | charactersUpdate (input : Option Js) (now : ℤ)
  | charactersDelete (characterId : Option Js)
  | appSetActiveCharacterId (characterId : Option Js)
  | plannerGetOverview (input : Option Js) (now : ℤ)
  | backupImportJson (parsed : Js) (now : ℤ)
  | other (op : { op : Op // op.Elsewhere })
  | persist

def Request.run (host : Host) : Request → Prog Unit
  | .charactersCreate input draw => (Hub.charactersCreate input draw.id draw.now).discard
  | .charactersUpdate input now => Hub.charactersUpdate input now
  | .charactersDelete characterId => Hub.charactersDelete characterId
  | .appSetActiveCharacterId characterId => Hub.appSetActiveCharacterId characterId
  | .plannerGetOverview input now => (Hub.plannerGetOverview host input now).discard
  | .backupImportJson parsed now => importUserBackup parsed now
  | .other op => op.1.run host
  | .persist => Hub.persist.discard

/-- The states of the runs from `c` whose requests all satisfy `Allowed`. -/
inductive Serves (host : Host) (Allowed : Db Row → Request → Prop) (c : Conn) : Conn → Prop where
  | start : Serves host Allowed c c
  | request {d : Conn} {r : Request} :
      Serves host Allowed c d → Allowed d.db r → Serves host Allowed c (r.run host d).2

/-- `app:setActiveCharacterId` is called with null or the id of a character. -/
def Selects (db : Db Row) : Request → Prop
  | .appSetActiveCharacterId characterId =>
      ∀ id, Js.asString characterId = some id → schema.hasKey db .appCharacter id
  | _ => True

/-- What will be read of the file's active character, if it names one, is the id
of a character that is imported. -/
def PointsInside (raw : Js) : Prop :=
  ∀ id, nonEmpty (text raw "activeCharacterId") = some id →
    ∃ ch ∈ objects (raw.get "characters"), text ch "id" = some (Text.cut id) ∧ (text ch "name").isSome

/-- A file that is imported, or a selection, points at a character. -/
def Points (db : Db Row) : Request → Prop
  | .appSetActiveCharacterId characterId =>
      ∀ id, Js.asString characterId = some id → schema.hasKey db .appCharacter (Text.cut id)
  | .backupImportJson raw _ => PointsInside raw
  | _ => True

/-! ### Writing the pointer -/

theorem activeCharacterId_congr {db db' : Db Row} (h : db' .appSetting = db .appSetting) :
    activeCharacterId db' = activeCharacterId db := by
  rw [activeCharacterId, h]
  rfl

/-- The pointer only depends on its two tables. -/
theorem ActiveReal.congr {db db' : Db Row} (h : ActiveReal db)
    (hsame : ∀ t ∈ pointerTables, db' t = db t) : ActiveReal db' := by
  intro id hid
  rw [activeCharacterId_congr (hsame .appSetting (by decide))] at hid
  obtain ⟨r, hr, hkey⟩ := h id hid
  refine ⟨r, ?_, hkey⟩
  rwa [hsame .appCharacter (by decide)]

/-- More characters do no harm. -/
theorem ActiveReal.mono {db db' : Db Row} (h : ActiveReal db)
    (hsetting : db' .appSetting = db .appSetting)
    (hkeys : ∀ id, schema.hasKey db .appCharacter id → schema.hasKey db' .appCharacter id) :
    ActiveReal db' := by
  intro id hid
  rw [activeCharacterId_congr hsetting] at hid
  exact hkeys id (h id hid)

theorem activeReal_of_none {db : Db Row} (h : activeCharacterId db = none) : ActiveReal db := by
  intro id hid
  rw [h] at hid
  cases hid

/-- A setting that is removed is gone. -/
theorem setSetting_none {key : String} {c : Conn} (hoff : c.foreignKeys = false) :
    setSetting key none c = (.ok (), { c with
      db := c.db.set .appSetting ((c.db .appSetting).filter fun r => !(r.key == key)) }) := by
  show (Except.ok (), { c with db := schema.deleteDb c.foreignKeys c.db .appSetting _ }) = _
  rw [hoff]
  rfl

theorem activeReal_dropped {c : Conn} (hoff : c.foreignKeys = false) :
    ActiveReal (setActiveCharacterId none c).2.db := by
  apply activeReal_of_none
  rw [setActiveCharacterId, setSetting_none hoff]
  show (((c.db.set .appSetting _) .appSetting).find? _).map _ = none
  rw [Db.set_self, List.find?_eq_none.mpr]
  · rfl
  · intro r hr
    simpa using (List.mem_filter.mp hr).2

/-- A setting that is stored changes the pointer if it has its key; where the
statement fails, nothing changes. -/
theorem setSetting_some (key value : String) (c : Conn) :
    activeCharacterId (setSetting key (some value) c).2.db =
        (if key = "activeCharacterId" then some (Text.cut value) else activeCharacterId c.db) ∨
      ∃ e, setSetting key (some value) c = (.error e, c) := by
  show activeCharacterId (schema.upsert .appSetting ⟨key, value⟩ _ c).2.db = _ ∨
    ∃ e, schema.upsert .appSetting ⟨key, value⟩ _ c = (.error e, c)
  unfold Schema.upsert
  split
  · rename_i hkey
    let write : AppSetting → AppSetting := fun r =>
      if r.key == key then { r with value := value } else r
    have hwrite : ∀ r, (write r).key = r.key := by
      intro r
      show (if r.key == key then { r with value := value } else r).key = r.key
      split <;> rfl
    unfold Schema.update
    dsimp only
    split
    · left
      show (((c.db.set .appSetting ((c.db .appSetting).map write)) .appSetting).find? _).map _ = _
      have hfind : ((fun r : AppSetting => r.key == "activeCharacterId") ∘ write) =
          fun r : AppSetting => r.key == "activeCharacterId" := by
        funext r
        show ((write r).key == _) = _
        rw [hwrite]
      rw [Db.set_self, List.find?_map, hfind]
      cases h : (c.db .appSetting).find? fun r : AppSetting => r.key == "activeCharacterId" with
      | none =>
          -- the stored key is another one
          have hne : key ≠ "activeCharacterId" := by
            rintro rfl
            obtain ⟨r, hr, hrkey⟩ := hkey
            have hnot := List.find?_eq_none.mp h r hr
            exact hnot (beq_iff_eq.mpr hrkey)
          rw [if_neg hne, activeCharacterId, h]
          rfl
      | some r =>
          have hr : r.key = "activeCharacterId" := by simpa using List.find?_some h
          by_cases hk : key = "activeCharacterId"
          · rw [if_pos hk]
            show some (Text.cut (if r.key == key then { r with value := value } else r).value) = _
            rw [if_pos (by rw [hr, hk]; rfl)]
          · rw [if_neg hk, activeCharacterId, h]
            show some (Text.cut (if r.key == key then { r with value := value } else r).value) = _
            rw [if_neg (by rw [hr]; simpa using Ne.symm hk)]
            rfl
    · exact .inr ⟨_, rfl⟩
  · rename_i hkey
    rcases h : schema.insert .abort .appSetting ⟨key, value⟩ c with ⟨e | u, d⟩
    · obtain rfl := insert_error h
      exact .inr ⟨e, rfl⟩
    · left
      obtain rfl := insert_abort_ok h
      show (((c.db.set .appSetting (c.db .appSetting ++ [⟨key, value⟩])) .appSetting).find? _).map _ = _
      rw [Db.set_self, List.find?_append]
      by_cases hk : key = "activeCharacterId"
      · rw [if_pos hk, List.find?_eq_none.mpr]
        · subst hk
          rfl
        · intro r hr hrkey
          exact hkey ⟨r, hr, by rw [hk]; exact beq_iff_eq.mp hrkey⟩
      · rw [if_neg hk, activeCharacterId]
        cases (c.db .appSetting).find? fun r : AppSetting => r.key == "activeCharacterId" with
        | none => simp [hk]
        | some r => rfl

/-- The settings are not the characters. -/
theorem characters_setSetting (key : String) (value : Option String) (c : Conn) :
    (setSetting key value c).2.db .appCharacter = c.db .appCharacter := by
  have hF : schema.Closed (· = .appCharacter) := schema.closed_single rfl
  exact (leaves_setSetting hF (by decide)).same c .appCharacter rfl

/-- A setting of another key does not move the pointer. -/
theorem activeCharacterId_setSetting {key : String} {value : Option String} {c : Conn}
    (hoff : c.foreignKeys = false) (hkey : key ≠ "activeCharacterId") :
    activeCharacterId (setSetting key value c).2.db = activeCharacterId c.db := by
  cases value with
  | none =>
      rw [setSetting_none hoff]
      let kept : List AppSetting := (c.db .appSetting).filter fun r => !(r.key == key)
      show (((c.db.set .appSetting kept) .appSetting).find? _).map _ = _
      rw [Db.set_self, List.find?_filter, activeCharacterId]
      congr 2
      funext r
      by_cases hr : r.key = "activeCharacterId"
      · simp [hr, Ne.symm hkey]
      · simp [hr]
  | some v =>
      rcases setSetting_some key v c with hset | ⟨e, hfail⟩
      · rw [hset, if_neg hkey]
      · rw [hfail]

theorem activeReal_setSetting {key : String} {value : Option String} {c : Conn}
    (hoff : c.foreignKeys = false) (h : ActiveReal c.db) (hkey : key ≠ "activeCharacterId") :
    ActiveReal (setSetting key value c).2.db := by
  intro id hid
  rw [activeCharacterId_setSetting hoff hkey] at hid
  obtain ⟨r, hr, hrkey⟩ := h id hid
  exact ⟨r, by rwa [characters_setSetting], hrkey⟩

/-- **A selection is real exactly when what is read of the id is stored.** -/
theorem activeReal_select_iff {id : String} {c d : Conn}
    (h : setActiveCharacterId (some id) c = (.ok (), d)) :
    ActiveReal d.db ↔ schema.hasKey c.db .appCharacter (Text.cut id) := by
  have hset : activeCharacterId d.db = some (Text.cut id) := by
    rcases setSetting_some "activeCharacterId" id c with hset | ⟨e, hfail⟩
    · rwa [if_pos rfl, show setSetting "activeCharacterId" (some id) c = _ from h] at hset
    · cases hfail.symm.trans h
  have hcharacters : d.db .appCharacter = c.db .appCharacter := by
    have hsame := characters_setSetting "activeCharacterId" (some id) c
    rwa [show setSetting "activeCharacterId" (some id) c = _ from h] at hsame
  unfold ActiveReal Schema.hasKey
  rw [hset, hcharacters]
  exact ⟨fun hreal => hreal _ rfl, fun hkey id' hid' => Option.some.inj hid' ▸ hkey⟩

/-- The pointer may be set to what is read as a stored character. -/
theorem activeReal_select {id : String} {c : Conn} (h : ActiveReal c.db)
    (hid : schema.hasKey c.db .appCharacter (Text.cut id)) :
    ActiveReal (setActiveCharacterId (some id) c).2.db := by
  rcases hrun : setActiveCharacterId (some id) c with ⟨e | u, d⟩
  · rcases setSetting_some "activeCharacterId" id c with hset | ⟨e', hfail⟩
    · rw [if_pos rfl, show setSetting "activeCharacterId" (some id) c = _ from hrun] at hset
      have hsame := characters_setSetting "activeCharacterId" (some id) c
      rw [show setSetting "activeCharacterId" (some id) c = _ from hrun] at hsame
      intro id' hid'
      obtain rfl := Option.some.inj (hset.symm.trans hid')
      unfold Schema.hasKey at hid ⊢
      rwa [show d.db .appCharacter = _ from hsame]
    · cases hfail.symm.trans hrun
      exact h
  · exact (activeReal_select_iff hrun).mpr hid

/-! ### An import -/

/-- What the import leaves of the settings and of the characters. -/
theorem restore_pointer {b : Backup} {now : String} {c d : Conn}
    (h : b.restore now c = (.ok (), d)) :
    activeCharacterId d.db = (nonEmpty b.activeCharacterId).map Text.cut ∧
      d.db .appCharacter = b.characters := by
  obtain ⟨c₁, hdeleted, hempty, -⟩ := @forEach_delete_mem Table Row schema _ clearedTables c
  have hclear : clearUserTables c = (.ok (), c₁) := hdeleted
  rw [Backup.restore, bind_of_ok hclear] at h
  obtain ⟨_, s₁, h₁, hrest⟩ := bind_eq_ok h
  obtain ⟨_, s₂, h₂, hrest⟩ := bind_eq_ok hrest
  obtain ⟨_, s₃, h₃, h₄⟩ := bind_eq_ok hrest
  have hstart : ∀ t ∈ pointerTables, s₁.db t = c₁.db t := fun t ht =>
    (leaves_insertTable closed_pointer (by decide)).of_ok h₁ ht
  have hend : ∀ t ∈ pointerTables, d.db t = s₃.db t := fun t ht =>
    (leaves_insertSelect closed_pointer (by decide)).of_ok h₄ ht
  have hfill := fun (t : Table) (ht : t ∈ pointerTables) =>
    forEach_insertTable_grown closed_pointer ht (by decide) (by decide) h₃
  constructor
  · have hpointer : activeCharacterId d.db = activeCharacterId s₂.db := by
      refine activeCharacterId_congr ?_
      rw [hend _ (by decide), (hfill .appSetting (by decide)).2 (by decide)]
    have hnone : s₁.db .appSetting = [] := by rw [hstart _ (by decide), hempty _ (by decide)]
    rw [hpointer]
    unfold Backup.restoreActive at h₂
    cases hactive : nonEmpty b.activeCharacterId with
    | none =>
        rw [hactive] at h₂
        cases h₂
        rw [activeCharacterId, hnone]
        rfl
    | some id =>
        rw [hactive] at h₂
        have hrun : setSetting "activeCharacterId" (some id) s₁ = (.ok (), s₂) := h₂
        rcases setSetting_some "activeCharacterId" id s₁ with hset | ⟨e, hfail⟩
        · rwa [hrun, if_pos rfl] at hset
        · rw [hfail] at hrun
          cases hrun
  · rw [hend _ (by decide), (hfill .appCharacter (by decide)).1 .abort (by decide),
      (restoreActive_frame h₂).1 _ (by decide), hstart _ (by decide), hempty _ (by decide)]
    show [] ++ (b.characters.map some).reduceOption = _
    rw [List.nil_append, reduceOption_map_some]

theorem pointsInside_iff {raw : Js} {version : Number} {now : String} :
    PointsInside raw ↔ ∀ id, nonEmpty (parseBackup raw version now).activeCharacterId = some id →
      Text.cut id ∈ (parseBackup raw version now).characters.map (·.id) := by
  have hparse : ∀ id ch, (∃ r, parseCharacter now ch = some r ∧ r.id = id) ↔
      text ch "id" = some id ∧ (text ch "name").isSome := by
    intro id ch
    unfold parseCharacter
    cases text ch "id" <;> cases text ch "name" <;> simp
  refine forall₂_congr fun id _ => ?_
  show _ ↔ Text.cut id ∈ ((objects (raw.get "characters")).filterMap (parseCharacter now)).map (·.id)
  simp only [List.mem_map, List.mem_filterMap, ← hparse]
  constructor
  · rintro ⟨ch, hch, r, hr, hid⟩
    exact ⟨r, ⟨ch, hch, hr⟩, hid⟩
  · rintro ⟨r, ⟨ch, hch, hr⟩, hid⟩
    exact ⟨ch, hch, r, hr, hid⟩

/-- **After an accepted import the active character is real exactly when what is
read of the file's id is one of its own characters.** -/
theorem activeReal_import_iff {raw : Js} {now : ℤ} {c d : Conn} (hsaved : c.saved = none)
    (h : importUserBackup raw now c = (.ok (), d)) : ActiveReal d.db ↔ PointsInside raw := by
  rcases importUserBackup_cases hsaved with ⟨version, d', -, hd', h'⟩ | ⟨e, h'⟩
  · rw [h'] at h
    obtain rfl : { d' with saved := none } = d := congrArg Prod.snd h
    obtain ⟨hactive, hcharacters⟩ := restore_pointer hd'
    rw [@pointsInside_iff raw version (stamp now)]
    show (∀ id, activeCharacterId d'.db = some id → _) ↔ _
    rw [hactive, ← hcharacters]
    simp only [Option.map_eq_some_iff, forall_exists_index, and_imp, forall_apply_eq_imp_iff₂,
      List.mem_map]
    rfl
  · rw [h'] at h
    cases h

/-! ### One request -/

/-- What every request keeps. -/
structure ActiveKept (c : Conn) : Prop where
  real : ActiveReal c.db
  off : c.foreignKeys = false
  settled : c.saved = none

variable {host : Host} {c : Conn}

/-- What keeps the pointer real and touches neither the pragma nor the
transaction. -/
theorem ActiveKept.of_quiet {α : Type} {m : Prog α} (h : ActiveKept c) (hm : Settled m)
    (hreal : ActiveReal (m c).2.db) : ActiveKept (m c).2 := by
  obtain ⟨hoff, hsettled⟩ := (hm.keeps false).apply ⟨h.off, h.settled⟩
  exact ⟨hreal, hoff, hsettled⟩

/-- A new character is stored, and no other is lost. -/
theorem createCharacter_keys (input : CharacterInput) (id : String) (now : ℤ) (c : Conn) :
    (∀ k, schema.hasKey c.db .appCharacter k →
        schema.hasKey (createCharacter input id now c).2.db .appCharacter k) ∧
      ∀ id' d, createCharacter input id now c = (.ok id', d) →
        id' = id ∧ schema.hasKey d.db .appCharacter id := by
  let row : AppCharacter :=
    ⟨id, input.name, input.server, input.characterClass, stamp now, stamp now⟩
  let assign : Db Row → List PlannerAssignment := fun db => (db .plannerTemplate).map fun t =>
    ⟨"assign:" ++ id ++ ":" ++ t.id, id, t.id, true, none, stamp now, stamp now⟩
  have hrun : createCharacter input id now = (do
      schema.insert .abort .appCharacter row
      schema.insertSelect .ignore .plannerAssignment assign
      pure id) := rfl
  rw [hrun]
  rcases hi : schema.insert .abort .appCharacter row c with ⟨e | u, d⟩
  · rw [bind_of_error hi]
    obtain rfl := insert_error hi
    refine ⟨fun _ hk => hk, fun id' d' h => ?_⟩
    cases h
  · rw [bind_of_ok hi]
    have hput : d = { c with db := c.db.set .appCharacter (c.db .appCharacter ++ [row]) } :=
      insert_abort_ok hi
    have hd : d.db .appCharacter = c.db .appCharacter ++ [row] := by
      rw [hput]
      exact Db.set_self c.db .appCharacter _
    have hF : schema.Closed (· = .appCharacter) := schema.closed_single rfl
    have hleaves : Leaves (· = .appCharacter)
        (do schema.insertSelect .ignore .plannerAssignment assign; pure id) :=
      (leaves_insertSelect hF (by decide)).bind fun _ => Leaves.pure
    constructor
    · rintro k ⟨r, hr, hkey⟩
      refine ⟨r, ?_, hkey⟩
      rw [hleaves.same d _ rfl, hd]
      exact List.mem_append_left _ hr
    · intro id' d' h
      obtain ⟨_, d'', _, hpure⟩ := bind_eq_ok h
      refine ⟨by cases hpure; rfl, row, ?_, rfl⟩
      rw [hleaves.of_ok h rfl, hd]
      exact List.mem_append_right _ List.mem_cons_self

theorem settings_createCharacter (input : CharacterInput) (id : String) (now : ℤ) (c : Conn) :
    (createCharacter input id now c).2.db .appSetting = c.db .appSetting := by
  have hF : schema.Closed (· = .appSetting) := schema.closed_single rfl
  have hleaves : Leaves (· = .appSetting) (createCharacter input id now) :=
    (leaves_insert hF (by decide)).bind fun _ =>
      (leaves_insertSelect hF (by decide)).bind fun _ => Leaves.pure
  exact hleaves.same c _ rfl

theorem quiet_adoptCharacter {active : Option String} {id : String} :
    Quiet (adoptCharacter active id) := by
  unfold adoptCharacter
  split
  · exact quiet_setSetting
  · exact Quiet.pure

theorem quiet_getActiveCharacterId : Quiet getActiveCharacterId := Quiet.gets.bind fun _ => Quiet.pure

theorem activeReal_adoptCharacter {active : Option String} {id : String} (h : ActiveReal c.db)
    (hid : schema.hasKey c.db .appCharacter (Text.cut id)) :
    ActiveReal (adoptCharacter active id c).2.db := by
  unfold adoptCharacter
  cases nonEmpty active with
  | none => exact activeReal_select h hid
  | some _ => exact h

/-- Creating a character and adopting it. -/
theorem activeReal_createCharacter {input : CharacterInput} {id : String} {now : ℤ}
    (h : ActiveReal c.db) (hplain : Text.Plain id) : ActiveReal ((do
      let id ← createCharacter input id now
      let active ← getActiveCharacterId
      adoptCharacter active id
      pure id : Prog String) c).2.db := by
  have hkeys := createCharacter_keys input id now c
  have hsettings := settings_createCharacter input id now c
  rcases hrun : createCharacter input id now c with ⟨e | id', d⟩
  · rw [hrun] at hkeys hsettings
    rw [bind_of_error hrun]
    exact h.mono hsettings hkeys.1
  · rw [hrun] at hkeys hsettings
    obtain ⟨rfl, hid⟩ := hkeys.2 id' d rfl
    rw [bind_of_ok hrun, bind_of_ok (getActiveCharacterId_eq d), bind_pure_snd]
    exact activeReal_adoptCharacter (h.mono hsettings hkeys.1) (hplain.cut.symm ▸ hid)

theorem activeKept_charactersCreate {input : Option Js} {id : String} {now : ℤ}
    (h : ActiveKept c) (hplain : Text.Plain id) : ActiveKept (charactersCreate input id now c).2 := by
  have hquiet : Quiet (charactersCreate input id now) :=
    Quiet.ofOption.bind fun _ => quiet_createCharacter.bind fun _ =>
      quiet_getActiveCharacterId.bind fun _ => quiet_adoptCharacter.bind fun _ => Quiet.pure
  refine h.of_quiet hquiet.settled ?_
  unfold charactersCreate
  cases trimmed (text (Js.asRecord input) "name") with
  | none => exact h.real
  | some name => exact activeReal_createCharacter h.real hplain

theorem activeKept_charactersUpdate {input : Option Js} {now : ℤ} (h : ActiveKept c) :
    ActiveKept (charactersUpdate input now c).2 := by
  have hquiet : Quiet (charactersUpdate input now) :=
    Quiet.ofOption.bind fun _ => Quiet.ofOption.bind fun _ => quiet_update
  refine h.of_quiet hquiet.settled ?_
  unfold charactersUpdate
  cases nonEmpty (text (Js.asRecord input) "id") with
  | none => exact h.real
  | some id =>
      cases trimmed (text (Js.asRecord input) "name") with
      | none => exact h.real
      | some name =>
          let klass := (text (Js.asRecord input) "class").map Text.trim
          let server := (text (Js.asRecord input) "server").map Text.trim
          show ActiveReal (updateCharacter id ⟨name, server, klass⟩ now c).2.db
          have hsettings : Leaves (· = .appSetting)
              (updateCharacter id ⟨name, server, klass⟩ now) := leaves_update (by decide)
          refine h.real.mono (hsettings.same c _ rfl) fun k hk => ?_
          unfold updateCharacter
          apply hasKey_updated _ hk
          exact fun _ => rfl

/-- A deleted character is dropped if it is the active one. -/
theorem activeKept_charactersDelete {characterId : Option Js} (h : ActiveKept c) :
    ActiveKept (charactersDelete characterId c).2 := by
  have hquiet : Quiet (charactersDelete characterId) := by
    refine Quiet.ofOption.bind fun id => quiet_getActiveCharacterId.bind fun active =>
      quiet_delete.bind fun _ => ?_
    split
    · exact quiet_setSetting
    · exact Quiet.pure
  refine h.of_quiet hquiet.settled ?_
  unfold charactersDelete
  cases nonEmpty (Js.asString characterId) with
  | none => exact h.real
  | some id =>
      rw [ofOption_some_bind, bind_of_ok (getActiveCharacterId_eq c)]
      let after : Conn :=
        { c with db := schema.deleteDb c.foreignKeys c.db .appCharacter fun r => r.id == id }
      have hdelete : deleteCharacter id c = (.ok (), after) := rfl
      have hafter : after.db =
          c.db.set .appCharacter ((c.db .appCharacter).filter fun r => !(r.id == id)) := by
        show schema.deleteDb c.foreignKeys c.db .appCharacter _ = _
        rw [h.off]
        rfl
      rw [bind_of_ok hdelete]
      by_cases hactive : activeCharacterId c.db = some id
      · rw [if_pos hactive]
        exact activeReal_dropped h.off
      · rw [if_neg hactive]
        show ActiveReal after.db
        rw [hafter]
        have hne : Table.appSetting ≠ .appCharacter := by decide
        intro id' hid'
        rw [activeCharacterId_congr (Db.set_of_ne _ hne _)] at hid'
        obtain ⟨r, hr, hkey⟩ := h.real id' hid'
        have hother : r.id ≠ id := by
          rintro rfl
          exact hactive (hid'.trans (congrArg some hkey.symm))
        refine ⟨r, ?_, hkey⟩
        rw [Db.set_self]
        exact List.mem_filter.mpr ⟨hr, by simpa using hother⟩

theorem activeKept_setActive {characterId : Option Js} (h : ActiveKept c)
    (hsel : ∀ id, Js.asString characterId = some id →
      schema.hasKey c.db .appCharacter (Text.cut id)) :
    ActiveKept (appSetActiveCharacterId characterId c).2 := by
  have hquiet : Quiet (appSetActiveCharacterId characterId) := by
    unfold appSetActiveCharacterId
    split
    · exact quiet_setSetting
    · exact quiet_setSetting
    · exact Quiet.throw
  refine h.of_quiet hquiet.settled ?_
  match characterId, hsel with
  | some .null, _ => exact activeReal_dropped h.off
  | some (.str id), hsel => exact activeReal_select h.real (hsel id rfl)
  | none, _ | some (.bool _), _ | some (.num _), _ | some (.arr _), _ | some (.obj _), _ =>
      exact h.real

/-- An overview stores the default settings at most. -/
theorem getPlannerOverview_frame {characterId : String} {nowIso : Option String} {now : ℤ} :
    ∃ db, (getPlannerOverview host characterId nowIso now c).2 = { c with db := db } ∧
      ∀ t ≠ .plannerSettings, db t = c.db t := by
  cases hr : (c.db .appCharacter).find? fun q : AppCharacter => q.id == characterId with
  | some r =>
      rw [getPlannerOverview_eq hr]
      exact ⟨_, rfl, fun t ht => withDefaults_of_ne ht c.db now⟩
  | none =>
      rw [getPlannerOverview, bind_of_ok (getCharacter_of_none hr)]
      exact ⟨c.db, rfl, fun _ _ => rfl⟩

theorem resolveCharacterId_snd (obj : Js) : (resolveCharacterId obj c).2 = c := by
  unfold resolveCharacterId
  cases text obj "characterId" <;> rfl

theorem activeKept_overviewFailed {e : String} (h : ActiveKept c) :
    ActiveKept (overviewFailed e c).2 := by
  unfold overviewFailed
  split
  · refine h.of_quiet (quiet_setSetting.bind fun _ => Quiet.pure).settled ?_
    rw [bind_pure_snd]
    exact activeReal_dropped h.off
  · exact h

/-- An overview of a character that is gone drops the pointer. -/
theorem activeKept_plannerGetOverview {input : Option Js} {now : ℤ} (h : ActiveKept c) :
    ActiveKept (plannerGetOverview host input now c).2 := by
  unfold plannerGetOverview
  have hsame := @resolveCharacterId_snd c (Js.asRecord input)
  rcases hrun : resolveCharacterId (Js.asRecord input) c with ⟨e | characterId, d⟩
  · rw [bind_of_error hrun]
    rw [hrun] at hsame
    exact hsame ▸ h
  · rw [bind_of_ok hrun]
    rw [hrun] at hsame
    obtain rfl : d = c := hsame
    cases nonEmpty characterId with
    | none => exact h
    | some id =>
        obtain ⟨db, hdb, hframe⟩ := @getPlannerOverview_frame host d id
          (text (Js.asRecord input) "nowIso") now
        have hkept : ActiveKept { d with db := db } :=
          ⟨h.real.congr fun t ht => hframe t (by rintro rfl; exact absurd ht (by decide)), h.off,
            h.settled⟩
        unfold Exec.tryCatch
        rcases hover : getPlannerOverview host id (text (Js.asRecord input) "nowIso") now d with
          ⟨e | o, d'⟩
        · rw [hover] at hdb
          obtain rfl : d' = { d with db := db } := hdb
          dsimp only
          rw [bind_of_error hover]
          exact activeKept_overviewFailed hkept
        · rw [hover] at hdb
          obtain rfl : d' = { d with db := db } := hdb
          dsimp only
          rw [bind_of_ok hover]
          exact hkept

theorem activeKept_other {op : Op} (hop : op.Elsewhere) (h : ActiveKept c) :
    ActiveKept (op.run host c).2 := by
  refine h.of_quiet (settled_run op) ?_
  have hleaves : (∀ t ∈ op.writes, t ∉ pointerTables) → ActiveReal (op.run host c).2.db :=
    fun hwrites => h.real.congr fun t ht => (leaves_run closed_pointer hwrites).same c t ht
  cases op with
  | setSetting key value => exact activeReal_setSetting h.off h.real hop
  | _ => exact hleaves hop

theorem activeKept_backupImportJson {raw : Js} {now : ℤ} (hraw : PointsInside raw)
    (h : ActiveKept c) : ActiveKept (importUserBackup raw now c).2 := by
  refine h.of_quiet settled_importUserBackup ?_
  rcases importUserBackup_cases h.settled with ⟨version, d, -, -, hrun⟩ | ⟨e, hrun⟩
  · have hreal := (activeReal_import_iff h.settled hrun).mpr hraw
    rwa [hrun]
  · rw [hrun]
    exact h.real

/-- One request. -/
theorem ActiveKept.request {r : Request} (h : ActiveKept c) (hpoints : Points c.db r) :
    ActiveKept (r.run host c).2 := by
  cases r with
  | charactersCreate input draw =>
      show ActiveKept ((charactersCreate input draw.id draw.now).discard c).2
      rw [discard_snd]
      exact activeKept_charactersCreate h draw.plain
  | charactersUpdate input now => exact activeKept_charactersUpdate h
  | charactersDelete characterId => exact activeKept_charactersDelete h
  | appSetActiveCharacterId characterId => exact activeKept_setActive h hpoints
  | plannerGetOverview input now =>
      show ActiveKept ((plannerGetOverview host input now).discard c).2
      rw [discard_snd]
      exact activeKept_plannerGetOverview h
  | backupImportJson raw now => exact activeKept_backupImportJson hpoints h
  | other op => exact activeKept_other op.2 h
  | persist =>
      show ActiveKept (Hub.persist.discard c).2
      rw [discard_snd]
      refine ⟨?_, rfl, rfl⟩
      show ActiveReal (c.saved.getD c.db)
      rw [h.settled]
      exact h.real

/-! ### Every run -/

theorem activeKept_opened {existing : Option (Db Row)} {now : ℤ}
    (h : ∀ db ∈ existing, ActiveReal db) : ActiveKept (opened existing now) := by
  rw [opened_eq]
  refine ⟨?_, rfl, rfl⟩
  have hreal : ActiveReal (existing.getD fun _ => []) := by
    cases existing with
    | none => exact activeReal_of_none rfl
    | some db => exact h db rfl
  refine hreal.congr fun t ht => withDefaults_of_ne ?_ _ now
  rintro rfl
  exact absurd ht (by decide)

/-- A file with one character, which is the active one. -/
def pointingBackup : Js :=
  .obj [("schemaVersion", .num 4), ("activeCharacterId", .str "c1"),
    ("characters", .arr [.obj [("id", .str "c1"), ("name", .str "Kaisinel")]])]

/-- A file that points at a character it does not hold. -/
def danglingBackup : Js :=
  .obj [("schemaVersion", .num 4), ("activeCharacterId", .str "gone"), ("characters", .arr [])]

end Hub
