/-
Aion2Hub/Planner/Merge.lean

What applying a preset adds.

`applyPlannerPreset` compares templates by a key, the type and the trimmed title
in lower case, which it computes from the stored rows and from the normalised
entries.  The stored titles are read as C strings.  It adds one template for each
key that is missing, with the fields of the first entry of that key, and nothing
when it is applied once more, exactly when the keys that are read back are the
keys that count (`appliesOnce_iff`); they are when no title holds U+0000.
-/
import Aion2Hub.Planner.Assignments

namespace Hub

open Sql Exec

/-! ### Keys -/

/-- What templates are compared by. -/
def templateKey (host : Host) (type : PlannerTemplateType) (title : String) :
    PlannerTemplateType × String :=
  (type, host.toLowerCase (Text.trim title))

def rowKey (host : Host) (r : PlannerTemplate) : PlannerTemplateType × String :=
  templateKey host r.type r.title

/-- The key that is read of a stored template. -/
def templateReadKey (host : Host) (r : PlannerTemplate) : PlannerTemplateType × String :=
  templateKey host r.type (Text.cut r.title)

/-- The key as the code writes it. -/
def keyText (k : PlannerTemplateType × String) : String := k.1.text ++ ":" ++ k.2

theorem makeKey_eq (host : Host) (type : PlannerTemplateType) (title : String) :
    makeKey host type title = keyText (templateKey host type title) := rfl

theorem keyText_injective : Function.Injective keyText := by
  rintro ⟨a, s⟩ ⟨b, t⟩ h
  have hcolon : ∀ type : PlannerTemplateType, ':' ∉ type.text.toList := by
    intro type
    cases type <;> decide
  have hlist := congrArg String.toList h
  simp only [keyText, String.toList_append, List.append_assoc] at hlist
  obtain ⟨htype, htitle⟩ := Text.eq_of_append_cons (hcolon a) (hcolon b) hlist
  have htype' := congrArg PlannerTemplateType.ofText (String.toList_inj.mp htype)
  rw [PlannerTemplateType.ofText_text, PlannerTemplateType.ofText_text] at htype'
  rw [Option.some.inj htype', String.toList_inj.mp htitle]

/-! ### Entries -/

def entryTitle (e : Js) : String := Text.trim ((Js.asString (e.get "title")).getD "")

def entryType (e : Js) : Option PlannerTemplateType :=
  (Js.asString (e.get "type")).bind PlannerTemplateType.ofText

/-- An entry with a title that is not blank and a known type. -/
def IsEntry (e : Js) : Prop := e.isObject = true ∧ entryTitle e ≠ "" ∧ (entryType e).isSome = true

instance (e : Js) : Decidable (IsEntry e) := inferInstanceAs (Decidable (_ ∧ _))

/-- The entries of a preset that count. -/
def presetEntries (templates : List Js) : List Js := templates.filter (IsEntry ·)

def entryKey (host : Host) (e : Js) : Option (PlannerTemplateType × String) :=
  (entryType e).map fun type => templateKey host type (entryTitle e)

/-- The key that would be read of a template with the title of the entry. -/
def entryReadKey (host : Host) (e : Js) : Option (PlannerTemplateType × String) :=
  (entryType e).map fun type => templateKey host type (Text.cut (entryTitle e))

/-- The numbers of an entry are finite. -/
def FiniteEntry (e : Js) : Prop :=
  ∀ key ∈ ["estimateMinutes", "rechargeHours", "maxStacks"], ∀ x,
    Js.asNumber (e.get key) = some x → x.isFinite = true

/-- The template has the fields of the entry; recharge hours and stacks are for
charges. -/
structure FieldsOf (e : Js) (r : PlannerTemplate) : Prop where
  title : r.title = entryTitle e
  type : entryType e = some r.type
  estimateMinutes : r.estimateMinutes =
    ((Js.asNumber (e.get "estimateMinutes")).map fun x => Number.atLeast 0 (Number.floor x)).getD 0
  rechargeHours : r.rechargeHours =
    if r.type = .charge then Js.asNumber (e.get "rechargeHours") else none
  maxStacks : r.maxStacks = if r.type = .charge then Js.asNumber (e.get "maxStacks") else none

theorem normalizeTemplate_eq_none_iff (e : Js) : normalizeTemplate e = none ↔ ¬ IsEntry e := by
  unfold normalizeTemplate IsEntry
  by_cases hobject : e.isObject = true
  · rw [if_pos hobject]
    by_cases htitle : entryTitle e = ""
    · exact iff_of_true (if_pos htitle) fun h => h.2.1 htitle
    · show (if entryTitle e = "" then none else (entryType e).map _) = none ↔ _
      rw [if_neg htitle, Option.map_eq_none_iff]
      cases entryType e with
      | none => simp
      | some type => simp [hobject, htitle]
  · exact iff_of_true (if_neg hobject) fun h => hobject h.1

/-- What a normalised entry has of the entry. -/
theorem normalizeTemplate_eq_some {e : Js} {t : TemplateInput} (h : normalizeTemplate e = some t) :
    t.title = entryTitle e ∧ entryType e = some t.type ∧
      t.estimateMinutes =
        some (((Js.asNumber (e.get "estimateMinutes")).map fun x => estimate (some x)).getD 0) ∧
      t.rechargeHours = (if t.type = .charge then Js.asNumber (e.get "rechargeHours") else none) ∧
      t.maxStacks = if t.type = .charge then Js.asNumber (e.get "maxStacks") else none := by
  unfold normalizeTemplate at h
  split_ifs at h with hobject
  dsimp only at h
  split_ifs at h with htitle
  obtain ⟨type, htype, rfl⟩ := Option.map_eq_some_iff.mp h
  exact ⟨rfl, htype, rfl, rfl, rfl⟩

theorem key_of_normalizeTemplate (host : Host) {e : Js} {t : TemplateInput}
    (h : normalizeTemplate e = some t) : entryKey host e = some (templateKey host t.type t.title) := by
  obtain ⟨htitle, htype, -⟩ := normalizeTemplate_eq_some h
  rw [entryKey, htype, htitle]
  rfl

/-! ### The first of each key -/

section

variable {host : Host} {ts : List TemplateInput} {keys : List String}

/-- The key of a normalised entry, as the loop computes it. -/
def inputKey (host : Host) (t : TemplateInput) : String := makeKey host t.type t.title

theorem mem_toCreate {k : String} :
    k ∈ (toCreate host ts keys).map (inputKey host) ↔ k ∈ ts.map (inputKey host) ∧ k ∉ keys := by
  induction ts generalizing keys with
  | nil => simp [toCreate]
  | cons t ts ih =>
      rw [toCreate]
      by_cases hkey : makeKey host t.type t.title ∈ keys
      · rw [if_pos hkey, ih, List.map_cons, List.mem_cons]
        constructor
        · exact fun h => ⟨.inr h.1, h.2⟩
        · rintro ⟨rfl | hk, hnot⟩
          · exact absurd hkey hnot
          · exact ⟨hk, hnot⟩
      · rw [if_neg hkey, List.map_cons, List.mem_cons, ih, List.map_cons, List.mem_cons,
          List.mem_cons, not_or]
        constructor
        · rintro (rfl | ⟨hk, -, hnot⟩)
          · exact ⟨.inl rfl, hkey⟩
          · exact ⟨.inr hk, hnot⟩
        · rintro ⟨rfl | hk, hnot⟩
          · exact .inl rfl
          · by_cases heq : k = inputKey host t
            · exact .inl heq
            · exact .inr ⟨hk, heq, hnot⟩

theorem nodup_toCreate : ((toCreate host ts keys).map (inputKey host)).Nodup := by
  induction ts generalizing keys with
  | nil => exact List.nodup_nil
  | cons t ts ih =>
      rw [toCreate]
      split
      · exact ih
      · rw [List.map_cons]
        refine List.nodup_cons.mpr ⟨fun h => ?_, ih⟩
        exact (mem_toCreate.mp h).2 List.mem_cons_self

/-- Only the first entry of a key is created. -/
theorem find?_of_mem_toCreate {t : TemplateInput} (h : t ∈ toCreate host ts keys) :
    ts.find? (fun t' => inputKey host t' == inputKey host t) = some t := by
  induction ts generalizing keys with
  | nil => exact (List.not_mem_nil h).elim
  | cons t' ts ih =>
      rw [toCreate] at h
      by_cases hkey : makeKey host t'.type t'.title ∈ keys
      · rw [if_pos hkey] at h
        have hne : inputKey host t' ≠ inputKey host t := fun heq =>
          (mem_toCreate.mp (List.mem_map_of_mem h)).2 (heq ▸ hkey)
        rw [List.find?_cons_of_neg (by simpa using hne)]
        exact ih h
      · rw [if_neg hkey] at h
        rcases List.mem_cons.mp h with rfl | hrest
        · exact List.find?_cons_of_pos (by simp)
        · have hne : inputKey host t' ≠ inputKey host t := fun heq =>
            (mem_toCreate.mp (List.mem_map_of_mem hrest)).2 (heq ▸ List.mem_cons_self)
          rw [List.find?_cons_of_neg (by simpa using hne)]
          exact ih hrest

end

/-! ### The loop -/

/-- The row that is made of a normalised entry. -/
def MadeFrom (t : TemplateInput) (r : PlannerTemplate) : Prop :=
  ∃ minutes draw, (estimate t.estimateMinutes).bind = some minutes ∧ r = newTemplate t minutes draw

/-- These templates have been created and assigned to every character. -/
structure TemplatesAdded (inputs : List TemplateInput) (added : List PlannerTemplate)
    (c d : Conn) : Prop where
  templates : d.db .plannerTemplate = c.db .plannerTemplate ++ added
  made : List.Forall₂ MadeFrom inputs added
  characters : d.db .appCharacter = c.db .appCharacter
  kept : c.db .plannerAssignment ⊆ d.db .plannerAssignment
  assigned : ∀ r ∈ added, ∀ ch ∈ c.db .appCharacter, ∃ a ∈ d.db .plannerAssignment,
    a.characterId = ch.id ∧ a.templateId = r.id

section

variable {host : Host} {draws : ℕ → Draw} {ts : List TemplateInput} {keys : List String}
  {created skipped : ℕ} {c : Conn}

theorem TemplatesAdded.cons {t : TemplateInput} {minutes : Number} {draw : Draw}
    {inputs : List TemplateInput} {added : List PlannerTemplate} {d : Conn}
    (hminutes : (estimate t.estimateMinutes).bind = some minutes) (hfresh : FreshUuid c.db draw.id)
    (h : TemplatesAdded inputs added { c with db := withTemplate t minutes draw c.db } d) :
    TemplatesAdded (t :: inputs) (newTemplate t minutes draw :: added) c d := by
  have hassignments : c.db .plannerAssignment ⊆
      withTemplate t minutes draw c.db .plannerAssignment := fun _ ha => subset_absorb ha
  have hcharacters : withTemplate t minutes draw c.db .appCharacter = c.db .appCharacter := by
    rw [withTemplate, Db.set_of_ne _ (by decide), Db.set_of_ne _ (by decide)]
  refine ⟨?_, .cons ⟨minutes, draw, hminutes, rfl⟩ h.made, h.characters.trans hcharacters,
    List.Subset.trans hassignments h.kept, fun r hr ch hch => ?_⟩
  · have htemplates : d.db .plannerTemplate =
        withTemplate t minutes draw c.db .plannerTemplate ++ added := h.templates
    rw [htemplates, withTemplate_templates, List.append_assoc]
    rfl
  · rcases List.mem_cons.mp hr with rfl | hrest
    · obtain ⟨a, ha, hpair⟩ := @assigned_withTemplate t minutes draw c.db hfresh ch hch
      exact ⟨a, h.kept ha, hpair⟩
    · exact h.assigned r hrest ch (hcharacters.symm ▸ hch)

/-- The loop returns with the templates of the missing keys added. -/
theorem createMissing_ok (hinj : ∀ i j, (draws i).id = (draws j).id → i = j)
    (hfresh : ∀ i, created ≤ i → FreshUuid c.db (draws i).id)
    (hminutes : ∀ t ∈ ts, ∃ minutes, (estimate t.estimateMinutes).bind = some minutes) :
    ∃ added n d, createMissing host draws ts keys created skipped c =
        (.ok (created + added.length, n), d) ∧
      added.length + n = skipped + ts.length ∧
      TemplatesAdded (toCreate host ts keys) added c d := by
  induction ts generalizing keys created skipped c with
  | nil =>
      exact ⟨[], skipped, c, rfl, Nat.zero_add skipped, ⟨(List.append_nil _).symm, .nil, rfl,
        List.Subset.refl _, fun r hr => (List.not_mem_nil hr).elim⟩⟩
  | cons t ts ih =>
      have hrest : ∀ t' ∈ ts, ∃ minutes, (estimate t'.estimateMinutes).bind = some minutes :=
        fun t' ht' => hminutes t' (List.mem_cons_of_mem t ht')
      by_cases hkey : makeKey host t.type t.title ∈ keys
      · rw [createMissing, toCreate, if_pos hkey, if_pos hkey]
        obtain ⟨added, n, d, hrun, hcount, hadded⟩ := @ih keys created (skipped + 1) c hfresh hrest
        exact ⟨added, n, d, hrun, by rw [hcount, List.length_cons]; omega, hadded⟩
      · rw [createMissing, toCreate, if_neg hkey, if_neg hkey]
        obtain ⟨minutes, hm⟩ := hminutes t List.mem_cons_self
        have hcreate := createPlannerTemplate_eq hm (hfresh created le_rfl).template
        let c₁ : Conn := { c with db := withTemplate t minutes (draws created) c.db }
        have hfresh₁ : ∀ i, created + 1 ≤ i → FreshUuid c₁.db (draws i).id := by
          intro i hi
          refine (hfresh i (by omega)).withTemplate (hfresh created le_rfl).noColon fun heq => ?_
          have := hinj _ _ heq
          omega
        rw [bind_of_ok hcreate]
        obtain ⟨added, n, d, hrun, hcount, hadded⟩ :=
          @ih (makeKey host t.type t.title :: keys) (created + 1) skipped c₁ hfresh₁ hrest
        refine ⟨newTemplate t minutes (draws created) :: added, n, d, ?_, ?_,
          hadded.cons hm (hfresh created le_rfl)⟩
        · rw [hrun, List.length_cons]
          congr 3
          omega
        · rw [List.length_cons, List.length_cons]
          omega

/-- The loop creates something for each missing key. -/
theorem keys_of_createMissing {n m : ℕ} {d : Conn}
    (h : createMissing host draws ts keys created skipped c = (.ok (n, m), d)) :
    created ≤ n ∧ (n = created → ∀ t ∈ ts, makeKey host t.type t.title ∈ keys) := by
  induction ts generalizing keys created skipped c with
  | nil =>
      cases h
      exact ⟨le_rfl, fun _ t ht => (List.not_mem_nil ht).elim⟩
  | cons t ts ih =>
      rw [createMissing] at h
      split at h
      · rename_i hkey
        obtain ⟨hle, hkeys⟩ := ih h
        exact ⟨hle, fun heq => List.forall_mem_cons.mpr ⟨hkey, hkeys heq⟩⟩
      · obtain ⟨id, c₁, -, hrest⟩ := bind_eq_ok h
        obtain ⟨hle, -⟩ := ih hrest
        exact ⟨by omega, fun heq => by omega⟩

/-- When every key is there, the loop only counts. -/
theorem createMissing_none (h : ∀ t ∈ ts, makeKey host t.type t.title ∈ keys) :
    createMissing host draws ts keys created skipped c = (.ok (created, skipped + ts.length), c) := by
  induction ts generalizing skipped with
  | nil => rfl
  | cons t ts ih =>
      rw [createMissing, if_pos (h t List.mem_cons_self),
        ih fun t' ht' => h t' (List.mem_cons_of_mem t ht'), List.length_cons]
      congr 3
      omega

end

/-! ### Numbers -/

theorem minutes_of_finite {e : Js} (h : FiniteEntry e) : ∃ n : ℤ, 0 ≤ n ∧
    ((Js.asNumber (e.get "estimateMinutes")).map fun x => Number.atLeast 0 (Number.floor x)).getD 0 =
      .ofInt n := by
  cases hx : Js.asNumber (e.get "estimateMinutes") with
  | none => exact ⟨0, le_rfl, congrArg Number.fin (by norm_num)⟩
  | some x =>
      have hfinite := h "estimateMinutes" (by simp) x hx
      exact ⟨max 0 ⌊x.value⌋, le_max_left _ _, Number.atLeast_floor_of_finite hfinite⟩

/-- Rounding once more changes nothing. -/
theorem estimate_ofInt {n : ℤ} (h : 0 ≤ n) : (estimate (some (.ofInt n))).bind = some (.ofInt n) := by
  have hvalue : ⌊(Number.ofInt n).value⌋ = n := Int.floor_intCast n
  have hfinite : (Number.ofInt n).isFinite = true := rfl
  show (Number.atLeast 0 (Number.floor (.ofInt n))).bind = _
  rw [Number.atLeast_floor_of_finite hfinite, hvalue, max_eq_right h]
  rfl

theorem chargeOnly_of_finite {type : PlannerTemplateType} {x y : Option Number}
    (hy : y = if type = .charge then x else none) (h : ∀ z, x = some z → z.isFinite = true) :
    chargeOnly type y = if type = .charge then x else none := by
  rw [chargeOnly, hy]
  split_ifs
  · cases x with
    | none => rfl
    | some z => exact Number.bind_of_isFinite (h z rfl)
  · rfl

theorem finite_normalizeTemplate {e : Js} (h : FiniteEntry e) {t : TemplateInput}
    (ht : normalizeTemplate e = some t) :
    ∃ minutes, (estimate t.estimateMinutes).bind = some minutes := by
  obtain ⟨-, -, hminutes, -⟩ := normalizeTemplate_eq_some ht
  obtain ⟨n, hn, heq⟩ := minutes_of_finite h
  have hgiven : t.estimateMinutes = some (.ofInt n) := hminutes.trans (congrArg some heq)
  rw [hgiven]
  exact ⟨_, estimate_ofInt hn⟩

/-- The row of a normalised entry has the fields of the entry. -/
theorem FieldsOf.of_made {e : Js} (h : FiniteEntry e) {t : TemplateInput}
    (ht : normalizeTemplate e = some t) {r : PlannerTemplate} (hr : MadeFrom t r) : FieldsOf e r := by
  obtain ⟨htitle, htype, hminutes, hrecharge, hstacks⟩ := normalizeTemplate_eq_some ht
  obtain ⟨minutes, draw, hm, rfl⟩ := hr
  obtain ⟨n, hn, heq⟩ := minutes_of_finite h
  have hgiven : t.estimateMinutes = some (.ofInt n) := hminutes.trans (congrArg some heq)
  rw [hgiven, estimate_ofInt hn] at hm
  refine ⟨htitle, htype, ?_, ?_, ?_⟩
  · exact (Option.some.inj hm).symm.trans heq.symm
  · exact chargeOnly_of_finite hrecharge fun z hz => h "rechargeHours" (by simp) z hz
  · exact chargeOnly_of_finite hstacks fun z hz => h "maxStacks" (by simp) z hz

/-! ### What a preset adds -/

/-- The templates that stay. -/
def keptTemplates (mode : PresetMode) (db : Db Row) : List PlannerTemplate :=
  if mode = .replace then [] else db .plannerTemplate

/-- One template has been added for each key of the entries that is missing,
with the fields of the first entry of the key. -/
structure PresetAdded (host : Host) (entries : List Js) (kept added : List PlannerTemplate) :
    Prop where
  once : (added.map (rowKey host)).Nodup
  missing : ∀ k, k ∈ added.map (rowKey host) ↔
    (∃ e ∈ entries, entryKey host e = some k) ∧ k ∉ kept.map (rowKey host)
  first : ∀ r ∈ added, ∃ e, entries.find? (fun e => entryKey host e == some (rowKey host r)) =
    some e ∧ FieldsOf e r

/-- A preset has been applied. -/
structure PresetApplied (host : Host) (mode : PresetMode) (templates : List Js) (c d : Conn)
    (created skipped : ℕ) (added : List PlannerTemplate) : Prop where
  templates_eq : d.db .plannerTemplate = keptTemplates mode c.db ++ added
  missing : PresetAdded host (presetEntries templates) (keptTemplates mode c.db) added
  created_eq : created = added.length
  counts : created + skipped = (presetEntries templates).length
  characters : d.db .appCharacter = c.db .appCharacter
  assigned : ∀ r ∈ added, ∀ ch ∈ d.db .appCharacter, ∃ a ∈ d.db .plannerAssignment,
    a.characterId = ch.id ∧ a.templateId = r.id

section

variable {host : Host} {templates : List Js}

theorem length_presetEntries :
    (templates.filterMap normalizeTemplate).length = (presetEntries templates).length := by
  induction templates with
  | nil => rfl
  | cons e templates ih =>
      rw [presetEntries, List.filterMap_cons, List.filter_cons]
      cases ht : normalizeTemplate e with
      | none =>
          rw [if_neg (by simpa using (normalizeTemplate_eq_none_iff e).mp ht)]
          exact ih
      | some t =>
          have hentry : IsEntry e := by
            by_contra hnot
            rw [(normalizeTemplate_eq_none_iff e).mpr hnot] at ht
            cases ht
          rw [if_pos (decide_eq_true hentry)]
          exact congrArg (· + 1) ih

/-- An entry has the key of its normalised form, if it has one. -/
theorem any_normalizeTemplate (e : Js) (k : PlannerTemplateType × String) :
    (normalizeTemplate e).any (fun t => inputKey host t == keyText k) =
      (decide (IsEntry e) && (entryKey host e == some k)) := by
  cases ht : normalizeTemplate e with
  | none =>
      rw [decide_eq_false ((normalizeTemplate_eq_none_iff e).mp ht)]
      rfl
  | some t =>
      have hentry : IsEntry e := by
        by_contra hnot
        rw [(normalizeTemplate_eq_none_iff e).mpr hnot] at ht
        cases ht
      rw [decide_eq_true hentry, key_of_normalizeTemplate host ht, Bool.true_and, Bool.eq_iff_iff,
        Option.any_some, beq_iff_eq, beq_iff_eq, Option.some_inj]
      show keyText (templateKey host t.type t.title) = keyText k ↔ _
      exact keyText_injective.eq_iff

theorem mem_inputKeys {k : PlannerTemplateType × String} :
    keyText k ∈ (templates.filterMap normalizeTemplate).map (inputKey host) ↔
      ∃ e ∈ presetEntries templates, entryKey host e = some k := by
  constructor
  · intro h
    obtain ⟨t, ht, hkey⟩ := List.mem_map.mp h
    obtain ⟨e, he, hnormal⟩ := List.mem_filterMap.mp ht
    have hany : (normalizeTemplate e).any (fun t => inputKey host t == keyText k) = true := by
      rw [hnormal, Option.any_some, hkey]
      exact beq_self_eq_true _
    rw [any_normalizeTemplate, Bool.and_eq_true] at hany
    exact ⟨e, List.mem_filter.mpr ⟨he, hany.1⟩, beq_iff_eq.mp hany.2⟩
  · rintro ⟨e, he, hkey⟩
    obtain ⟨he, hentry⟩ := List.mem_filter.mp he
    have hany : (normalizeTemplate e).any (fun t => inputKey host t == keyText k) = true := by
      rw [any_normalizeTemplate, hentry, hkey]
      exact beq_self_eq_true _
    cases ht : normalizeTemplate e with
    | none =>
        rw [ht] at hany
        cases hany
    | some t =>
        rw [ht, Option.any_some] at hany
        exact List.mem_map.mpr ⟨t, List.mem_filterMap.mpr ⟨e, he, ht⟩, beq_iff_eq.mp hany⟩

theorem keysAtStart_eq (mode : PresetMode) (db : Db Row) :
    keysAtStart host mode db = ((keptTemplates mode db).map (templateReadKey host)).map keyText := by
  have hkey : storedKey host = keyText ∘ templateReadKey host := rfl
  rw [keysAtStart, keptTemplates, List.map_map, hkey]
  split <;> rfl

theorem keys_of_made {inputs : List TemplateInput} {added : List PlannerTemplate}
    (h : List.Forall₂ MadeFrom inputs added) :
    (added.map (rowKey host)).map keyText = inputs.map (inputKey host) := by
  rw [List.map_map]
  induction h with
  | nil => rfl
  | cons hmade _ ih =>
      obtain ⟨minutes, draw, -, rfl⟩ := hmade
      rw [List.map_cons, List.map_cons, ih]
      rfl

/-- The keys of the templates that the loop has made. -/
theorem mem_keys_of_made {mode : PresetMode} {db : Db Row} {added : List PlannerTemplate}
    (h : List.Forall₂ MadeFrom (presetTemplates host mode templates db) added)
    {k : PlannerTemplateType × String} : k ∈ added.map (rowKey host) ↔
      (∃ e ∈ presetEntries templates, entryKey host e = some k) ∧
        k ∉ (keptTemplates mode db).map (templateReadKey host) := by
  rw [← List.mem_map_of_injective keyText_injective, keys_of_made h, presetTemplates, mem_toCreate,
    keysAtStart_eq, List.mem_map_of_injective keyText_injective, mem_inputKeys]

/-- What is read of the titles decides as the titles do: a key of an entry is
read of a template that stays exactly when one has it, and if none does, it is
read of a template that is added, which has the title of the first entry of a
missing key. -/
structure ReadsBack (host : Host) (entries : List Js) (kept : List PlannerTemplate) : Prop where
  stored : ∀ e ∈ entries, ∀ k, entryKey host e = some k →
    (k ∈ kept.map (templateReadKey host) ↔ k ∈ kept.map (rowKey host))
  created : ∀ e ∈ entries, ∀ k, entryKey host e = some k → k ∉ kept.map (rowKey host) →
    ∃ k' e', entries.find? (fun e => entryKey host e == some k') = some e' ∧
      k' ∉ kept.map (rowKey host) ∧ entryReadKey host e' = some k

/-- Titles without U+0000 are read as they are. -/
theorem readsBack_of_plain {entries : List Js} {kept : List PlannerTemplate}
    (hentries : ∀ e ∈ entries, Text.Plain (entryTitle e))
    (hkept : ∀ r ∈ kept, Text.Plain r.title) : ReadsBack host entries kept where
  stored _ _ k _ := by
    have hsame : kept.map (templateReadKey host) = kept.map (rowKey host) :=
      List.map_congr_left fun r hr => by rw [templateReadKey, (hkept r hr).cut, rowKey]
    rw [hsame]
  created e he k hk hnone := by
    cases hfind : entries.find? fun e => entryKey host e == some k with
    | none =>
        exact absurd (beq_iff_eq.mpr hk) (List.find?_eq_none.mp hfind e he)
    | some e' =>
        have hk' : entryKey host e' = some k := beq_iff_eq.mp (List.find?_some
          (p := fun e => entryKey host e == some k) hfind)
        refine ⟨k, e', hfind, hnone, ?_⟩
        rw [entryReadKey, (hentries e' (List.mem_of_find?_eq_some hfind)).cut]
        exact hk'

/-- A template that was made has the title of the first entry of its key. -/
theorem first_of_made {mode : PresetMode} {db : Db Row} {added : List PlannerTemplate}
    (hfinite : ∀ e ∈ templates, FiniteEntry e)
    (h : List.Forall₂ MadeFrom (presetTemplates host mode templates db) added)
    {r : PlannerTemplate} (hr : r ∈ added) :
    ∃ e, (presetEntries templates).find? (fun e => entryKey host e == some (rowKey host r)) =
      some e ∧ FieldsOf e r := by
  obtain ⟨t, ht, hmade⟩ : ∃ t ∈ presetTemplates host mode templates db, MadeFrom t r := by
    obtain ⟨i, hi, rfl⟩ := List.getElem_of_mem hr
    have hlen := h.length_eq
    exact ⟨_, List.getElem_mem (by omega), h.get (by omega) hi⟩
  have hkey : inputKey host t = keyText (rowKey host r) := by
    obtain ⟨minutes, draw, -, rfl⟩ := hmade
    rfl
  have hfind := find?_of_mem_toCreate ht
  rw [hkey, List.find?_filterMap] at hfind
  obtain ⟨e, he, hnormal⟩ := Option.bind_eq_some_iff.mp hfind
  refine ⟨e, ?_, FieldsOf.of_made (hfinite e (List.mem_of_find?_eq_some he)) hnormal hmade⟩
  rw [presetEntries, List.find?_filter, ← he]
  congr 1
  funext e'
  rw [any_normalizeTemplate, Bool.eq_iff_iff]
  simp

theorem templateReadKey_of_fieldsOf {e : Js} {r : PlannerTemplate} (h : FieldsOf e r) :
    entryReadKey host e = some (templateReadKey host r) := by
  rw [entryReadKey, h.type, ← h.title]
  rfl

theorem PresetAdded.of_made {mode : PresetMode} {db : Db Row} {added : List PlannerTemplate}
    (hfinite : ∀ e ∈ templates, FiniteEntry e)
    (hreads : ReadsBack host (presetEntries templates) (keptTemplates mode db))
    (h : List.Forall₂ MadeFrom (presetTemplates host mode templates db) added) :
    PresetAdded host (presetEntries templates) (keptTemplates mode db) added := by
  refine ⟨?_, fun k => ?_, fun r hr => first_of_made hfinite h hr⟩
  · apply List.Nodup.of_map keyText
    rw [keys_of_made h]
    exact nodup_toCreate
  · rw [mem_keys_of_made h]
    refine and_congr_right ?_
    rintro ⟨e, he, hk⟩
    exact not_congr (hreads.stored e he k hk)

/-- Applying the preset adds one template for each missing key and counts the
other entries, and applying it once more adds nothing. -/
def AppliesOnce (host : Host) (mode : PresetMode) (templates : List Js) (draws : ℕ → Draw)
    (c : Conn) : Prop :=
  ∃ created skipped d added,
    applyPlannerPreset host mode templates draws c = (.ok (created, skipped), d) ∧
      PresetApplied host mode templates c d created skipped added ∧
      ∀ draws', applyPlannerPreset host .merge templates draws' d =
        (.ok (0, created + skipped), d)

variable {mode : PresetMode} {draws : ℕ → Draw} {c : Conn}

variable (host mode) in
/-- What the preset does in any case. -/
theorem applyPlannerPreset_ok (hfinite : ∀ e ∈ templates, FiniteEntry e)
    (hinj : ∀ i j, (draws i).id = (draws j).id → i = j)
    (hfresh : ∀ i, FreshUuid c.db (draws i).id) :
    ∃ added n d, applyPlannerPreset host mode templates draws c = (.ok (added.length, n), d) ∧
      added.length + n = (presetEntries templates).length ∧
      d.db .plannerTemplate = keptTemplates mode c.db ++ added ∧
      List.Forall₂ MadeFrom (presetTemplates host mode templates c.db) added ∧
      d.db .appCharacter = c.db .appCharacter ∧
      ∀ r ∈ added, ∀ ch ∈ d.db .appCharacter, ∃ a ∈ d.db .plannerAssignment,
        a.characterId = ch.id ∧ a.templateId = r.id := by
  obtain ⟨c₁, hclear, htemplates, -⟩ := clearForPreset_eq mode c
  have hc₁ : c₁ = (clearForPreset mode c).2 := by rw [hclear]
  have hfresh₁ : ∀ i, 0 ≤ i → FreshUuid c₁.db (draws i).id := by
    intro i _
    rw [hc₁]
    cases mode with
    | merge => exact hfresh i
    | replace => exact (hfresh i).deleteDb
  have hcharacters : c₁.db .appCharacter = c.db .appCharacter := by
    have hleaves : Leaves (· = .appCharacter) (clearForPreset mode) := by
      unfold clearForPreset
      split
      · exact leaves_delete (schema.closed_single rfl) (by decide)
      · exact Leaves.pure
    exact hleaves.of_ok hclear rfl
  have hminutes : ∀ t ∈ templates.filterMap normalizeTemplate,
      ∃ minutes, (estimate t.estimateMinutes).bind = some minutes := by
    intro t ht
    obtain ⟨e, he, hnormal⟩ := List.mem_filterMap.mp ht
    exact finite_normalizeTemplate (hfinite e he) hnormal
  obtain ⟨added, skipped, d, hrun, hcount, hadded⟩ :=
    @createMissing_ok host draws (templates.filterMap normalizeTemplate)
      (keysAtStart host mode c.db) 0 0 c₁ hinj hfresh₁ hminutes
  rw [Nat.zero_add, length_presetEntries] at hcount
  refine ⟨added, skipped, d, ?_, hcount, ?_, hadded.made, hadded.characters.trans hcharacters,
    fun r hr ch hch => hadded.assigned r hr ch (hadded.characters ▸ hch)⟩
  · rw [applyPlannerPreset_eq hclear htemplates, hrun, Nat.zero_add]
  · rw [hadded.templates, htemplates]
    rfl

/-- Where the titles are read back well, the preset does what it should. -/
theorem appliesOnce_of_readsBack (hfinite : ∀ e ∈ templates, FiniteEntry e)
    (hinj : ∀ i j, (draws i).id = (draws j).id → i = j)
    (hfresh : ∀ i, FreshUuid c.db (draws i).id)
    (hreads : ReadsBack host (presetEntries templates) (keptTemplates mode c.db)) :
    AppliesOnce host mode templates draws c := by
  obtain ⟨added, skipped, d, hrun, hcount, hrows, hmade, hcharacters, hassigned⟩ :=
    applyPlannerPreset_ok host mode hfinite hinj hfresh
  have hpreset := PresetAdded.of_made hfinite hreads hmade
  refine ⟨added.length, skipped, d, added, hrun, ⟨hrows, hpreset, rfl, hcount, hcharacters,
    hassigned⟩, fun draws' => ?_⟩
  -- every key is read now, so the loop only counts
  have hstored : keysAtStart host .merge d.db =
      ((keptTemplates mode c.db ++ added).map (templateReadKey host)).map keyText := by
    rw [keysAtStart_eq, ← hrows]
    rfl
  have hnoClear : clearForPreset .merge d = (.ok (), d) := rfl
  rw [applyPlannerPreset_eq hnoClear rfl, createMissing_none, Nat.zero_add,
    length_presetEntries, hcount]
  intro t ht
  let k := templateKey host t.type t.title
  show keyText k ∈ _
  rw [hstored, List.mem_map_of_injective keyText_injective, List.map_append, List.mem_append]
  have hentry : ∃ e ∈ presetEntries templates, entryKey host e = some k :=
    mem_inputKeys.mp (List.mem_map_of_mem ht)
  obtain ⟨e, he, hk⟩ := hentry
  by_cases hkept : k ∈ (keptTemplates mode c.db).map (rowKey host)
  · exact .inl ((hreads.stored e he k hk).mpr hkept)
  · -- the first entry of a missing key has become a template
    obtain ⟨k', e', hfirst, hmissing, hread⟩ := hreads.created e he k hk hkept
    have hk' : entryKey host e' = some k' := beq_iff_eq.mp (List.find?_some
      (p := fun e => entryKey host e == some k') hfirst)
    obtain ⟨r, hr, rfl⟩ := List.mem_map.mp
      ((hpreset.missing k').mpr ⟨⟨e', List.mem_of_find?_eq_some hfirst, hk'⟩, hmissing⟩)
    obtain ⟨e₁, hfirst₁, hfields⟩ := hpreset.first r hr
    obtain rfl : e₁ = e' := Option.some.inj (hfirst₁.symm.trans hfirst)
    rw [templateReadKey_of_fieldsOf hfields] at hread
    exact .inr (Option.some.inj hread ▸ List.mem_map_of_mem hr)

/-- Where it does, they are. -/
theorem readsBack_of_appliesOnce (hfinite : ∀ e ∈ templates, FiniteEntry e)
    (hinj : ∀ i j, (draws i).id = (draws j).id → i = j)
    (hfresh : ∀ i, FreshUuid c.db (draws i).id) (h : AppliesOnce host mode templates draws c) :
    ReadsBack host (presetEntries templates) (keptTemplates mode c.db) := by
  obtain ⟨added, skipped, d, hrun, hcount, hrows, hmade, -⟩ :=
    applyPlannerPreset_ok host mode hfinite hinj hfresh
  obtain ⟨created', skipped', d', added', hrun', happlied, hagain⟩ := h
  cases hrun.symm.trans hrun'
  obtain rfl : added = added' := List.append_cancel_left (hrows.symm.trans happlied.templates_eq)
  have hsame : ∀ e ∈ presetEntries templates, ∀ k, entryKey host e = some k →
      (k ∈ (keptTemplates mode c.db).map (templateReadKey host) ↔
        k ∈ (keptTemplates mode c.db).map (rowKey host)) := by
    intro e he k hk
    have hkeys := (mem_keys_of_made hmade).symm.trans (happlied.missing.missing k)
    rw [and_congr_right_iff] at hkeys
    exact not_iff_not.mp (hkeys ⟨e, he, hk⟩)
  refine ⟨hsame, fun e he k hk hnone => ?_⟩
  -- the second time the key is read, and not of a template that stays
  have hnoClear : clearForPreset .merge d = (.ok (), d) := rfl
  have hloop := hagain draws
  rw [applyPlannerPreset_eq hnoClear rfl] at hloop
  obtain ⟨t, ht, hkey⟩ := List.mem_map.mp (mem_inputKeys.mpr ⟨e, he, hk⟩)
  have hmem : keyText k ∈ keysAtStart host .merge d.db :=
    hkey ▸ (keys_of_createMissing hloop).2 rfl t ht
  rw [keysAtStart_eq, List.mem_map_of_injective keyText_injective] at hmem
  change k ∈ (d.db .plannerTemplate).map (templateReadKey host) at hmem
  rw [hrows, List.map_append, List.mem_append] at hmem
  rcases hmem with hkept | hadded
  · exact absurd ((hsame e he k hk).mp hkept) hnone
  · obtain ⟨r, hr, rfl⟩ := List.mem_map.mp hadded
    obtain ⟨e', hfirst, hfields⟩ := happlied.missing.first r hr
    have hmissing := ((happlied.missing.missing (rowKey host r)).mp (List.mem_map_of_mem hr)).2
    exact ⟨rowKey host r, e', hfirst, hmissing, templateReadKey_of_fieldsOf hfields⟩

/-- **A preset adds one template for each missing key**, counts the other
entries, and adds nothing when it is applied once more, exactly when the keys
that are read back are the keys that count. -/
theorem appliesOnce_iff (hfinite : ∀ e ∈ templates, FiniteEntry e)
    (hinj : ∀ i j, (draws i).id = (draws j).id → i = j)
    (hfresh : ∀ i, FreshUuid c.db (draws i).id) :
    AppliesOnce host mode templates draws c ↔
      ReadsBack host (presetEntries templates) (keptTemplates mode c.db) :=
  ⟨readsBack_of_appliesOnce hfinite hinj hfresh, appliesOnce_of_readsBack hfinite hinj hfresh⟩

end

/-- The stored task in capitals, and a new one twice. -/
def bossPreset : List Js :=
  [.obj [("title", .str " RITUAL "), ("type", .str "DAILY")],
    .obj [("title", .str "Boss"), ("type", .str "WEEKLY"), ("estimateMinutes", .num (.fin (3 / 2)))],
    .obj [("title", .str "boss"), ("type", .str "WEEKLY")]]

theorem freshUuid_longIds (i : ℕ) : FreshUuid withAssignment.db (longIds i).id := by
  have hlength : (longIds i).id.toList.length = i + 3 := length_nthDraw (i + 2) 5
  refine ⟨?_, fun r hr heq => ?_, freshDraws_longIds.unused i, fun a ha rest heq => ?_⟩
  · rw [longIds, nthDraw, String.toList_ofList]
    intro hmem
    exact absurd (List.eq_of_mem_replicate hmem) (by decide)
  · obtain rfl : r = ⟨"c1", "Kaisinel", none, none, stamp 1, stamp 1⟩ := List.mem_singleton.mp hr
    rw [← heq] at hlength
    have htwo : "c1".toList.length = 2 := rfl
    have hthree : "c1".toList.length = i + 3 := hlength
    omega
  · rw [withAssignment_assignments] at ha
    obtain rfl := List.mem_singleton.mp ha
    have hcolon : ':' ∉ (longIds i).id.toList := by
      rw [longIds, nthDraw, String.toList_ofList]
      intro hmem
      exact absurd (List.eq_of_mem_replicate hmem) (by decide)
    have hid : "t1" = (longIds i).id := @assignId_left _ _ "c1" _ (by decide) hcolon heq
    rw [← hid] at hlength
    have htwo : "t1".toList.length = 2 := rfl
    omega

theorem finite_bossPreset : ∀ e ∈ bossPreset, FiniteEntry e := by
  intro e he key hkey x hx
  simp only [bossPreset, List.mem_cons, List.not_mem_nil, or_false] at he hkey
  rcases he with rfl | rfl | rfl <;> rcases hkey with rfl | rfl | rfl <;> cases hx
  rfl

theorem appliesOnce_iff_boss :
    AppliesOnce (Host.iso (Zone.fixed 0)) .merge bossPreset longIds withAssignment := by
  refine (appliesOnce_iff finite_bossPreset freshDraws_longIds.injective freshUuid_longIds).mpr ?_
  refine readsBack_of_plain (fun e he => ?_) fun r hr => ?_
  · have hmem := List.mem_of_mem_filter he
    simp only [bossPreset, List.mem_cons, List.not_mem_nil, or_false] at hmem
    rcases hmem with rfl | rfl | rfl <;> decide
  · obtain rfl : r = newTemplate ⟨"Ritual", .daily, none, none, none⟩ 0 templateDraw :=
      List.mem_singleton.mp hr
    decide

/-- A preset with one task, whose title holds U+0000. -/
def cutPreset : List Js := [.obj [("title", .str "Boss\x00x"), ("type", .str "DAILY")]]

/-- **Merging the task once more creates it once more.** -/
theorem not_appliesOnce_cut :
    ¬ AppliesOnce (Host.iso (Zone.fixed 0)) .merge cutPreset longIds withAssignment := by
  intro h
  have hfinite : ∀ e ∈ cutPreset, FiniteEntry e := by
    intro e he key hkey x hx
    simp only [cutPreset, List.mem_cons, List.not_mem_nil, or_false] at he hkey
    rcases he with rfl
    rcases hkey with rfl | rfl | rfl <;> cases hx
  have hreads :=
    readsBack_of_appliesOnce hfinite freshDraws_longIds.injective freshUuid_longIds h
  let host := Host.iso (Zone.fixed 0)
  let boss : Js := .obj [("title", .str "Boss\x00x"), ("type", .str "DAILY")]
  have hentries : presetEntries cutPreset = [boss] := List.filter_cons_of_pos (by decide +kernel)
  rw [hentries] at hreads
  -- the stored title would be read as "Boss"
  obtain ⟨k', e', hfirst, -, hread⟩ := hreads.created boss List.mem_cons_self
    (.daily, "boss\x00x") (by decide +kernel) (by decide +kernel)
  obtain rfl := List.mem_singleton.mp (List.mem_of_find?_eq_some hfirst)
  exact absurd hread (by decide +kernel)

end Hub
