/-
Aion2Hub/Web/Characters.lean

The characters page of the web app and the selection of the planner's pages,
in any number of tabs.

All tabs share two items of `localStorage`.  A characters page renders `[]`,
loads the stored list, and writes whatever it renders back; so the first
render of every page empties the item, until the list it has loaded is
rendered.  A planner page loads the list once and selects a character of it.

Main results: in every run of any number of tabs the stored list is well
formed and each planner page has one of its own characters selected
(`sound_of_browsing`); with one characters page at a time that is rendered
before it is left, the stored list is what the accepted edits, in their order,
make of the list at the start (`follows_of_visits`).

The model is of a production build: the development server mounts every page
twice, and so runs its effects twice.
-/
import Aion2Hub.Storage.Economy

namespace Hub

open Sql

namespace Web

/-! ### The stored list -/

/-- `Character` and `HubCharacter`.  The server is whatever the item holds. -/
structure Character where
  id : String
  name : String
  server : Option Js

/-- What `getItem` answers: `none` is an absent item, `some none` a text that is
not JSON, and `some (some v)` the JSON text of `v`. -/
abbrev Item : Type := Option (Option Js)

def asCharacter (value : Js) : Option Character := do
  guard value.isObject
  let id ← Js.asString (value.get "id")
  let name ← Js.asString (value.get "name")
  pure ⟨id, name, value.get "server"⟩

/-- The characters an item holds. -/
def charactersIn : Item → List Character
  | some (some (.arr values)) => values.filterMap asCharacter
  | _ => []

/-- `loadCharacters` of the web app. -/
def loadCharacters (item : Item) : List Character := charactersIn item

/-- `loadHubCharacters` of the planner module. -/
def loadHubCharacters (item : Item) : List Character := charactersIn item

/-- A field that is `undefined` is not written. -/
def Character.toJs (c : Character) : Js :=
  .obj ([("id", .str c.id), ("name", .str c.name)] ++ (c.server.map fun s => ("server", s)).toList)

def saveCharacters (characters : List Character) : Item :=
  some (some (Js.serialise (.arr (characters.map Character.toJs))))

def loadSelectedCharacterId (raw : Option String) : Option String := nonEmpty raw

def saveSelectedCharacterId (characterId : Option String) : Option String := nonEmpty characterId

/-! ### Edits -/

structure Input where
  name : String
  server : Option String

/-- `addCharacter`, with the id that `crypto.randomUUID` draws. -/
def addCharacter (characters : List Character) (input : Input) (id : String) :
    Except String (List Character) :=
  let name := Text.trim input.name
  let server := trimmed input.server
  if name = "" then .error "Name is required"
  else if characters.any fun c => c.name = name then .error "Duplicate character name"
  else .ok (characters ++ [⟨id, name, server.map .str⟩])

def updateCharacter (characters : List Character) (id : String) (input : Input) :
    Except String (List Character) :=
  let name := Text.trim input.name
  let server := trimmed input.server
  if name = "" then .error "Name is required"
  else if characters.any fun c => c.id ≠ id && c.name = name then
    .error "Duplicate character name"
  else if characters.any fun c => c.id = id then
    .ok (characters.map fun c =>
      if c.id = id then { c with name, server := server.map .str } else c)
  else .error "Character not found"

def removeCharacter (characters : List Character) (id : String) :
    Except String (List Character) :=
  let next := characters.filter fun c => c.id ≠ id
  if next.length = characters.length then .error "Character not found" else .ok next

/-- What the forms and buttons of the page ask for. -/
inductive Edit where
  | add (input : Input) (id : String)
  | update (id : String) (input : Input)
  | remove (id : String)

def Edit.apply (characters : List Character) : Edit → Except String (List Character)
  | .add input id => addCharacter characters input id
  | .update id input => updateCharacter characters id input
  | .remove id => removeCharacter characters id

/-- The drawn id is one that the page does not show already. -/
def Edit.Drawn (characters : List Character) : Edit → Prop
  | .add _ id => id ≠ "" ∧ ∀ c ∈ characters, c.id ≠ id
  | _ => True

/-! ### Well formed lists -/

/-- The texts of a character are as the forms leave them. -/
structure Character.Tidy (c : Character) : Prop where
  id : c.id ≠ ""
  name : Trimmed c.name
  server : ∀ v, c.server = some v → ∃ s, v = .str s ∧ Trimmed s

/-- No two characters share an id or a name. -/
structure WellFormed (characters : List Character) : Prop where
  tidy : ∀ c ∈ characters, c.Tidy
  distinct : characters.Pairwise fun c d => c.id ≠ d.id ∧ c.name ≠ d.name

theorem wellFormed_nil : WellFormed [] where
  tidy := fun _ hc => absurd hc List.not_mem_nil
  distinct := List.Pairwise.nil

section

variable {characters next : List Character} {c : Character} {id : String} {input : Input}

theorem tidy_server {server : Option String} {v : Js}
    (h : (trimmed server).map Js.str = some v) : ∃ s, v = .str s ∧ Trimmed s := by
  obtain ⟨s, hs, rfl⟩ := Option.map_eq_some_iff.mp h
  exact ⟨s, rfl, trimmed_of_eq_some hs⟩

theorem WellFormed.add (h : WellFormed characters) (hid : id ≠ "")
    (hnew : ∀ c ∈ characters, c.id ≠ id) (ha : addCharacter characters input id = .ok next) :
    WellFormed next := by
  rw [addCharacter] at ha
  split at ha
  · cases ha
  · rename_i hname
    split at ha
    · cases ha
    · rename_i hduplicate
      obtain rfl := Except.ok.inj ha
      constructor
      · intro c hc
        rcases List.mem_append.mp hc with hold | hlast
        · exact h.tidy c hold
        · obtain rfl := List.mem_singleton.mp hlast
          exact ⟨hid, ⟨Text.trim_trim input.name, hname⟩, fun _ hv => tidy_server hv⟩
      · apply List.pairwise_append.mpr
        refine ⟨h.distinct, List.pairwise_singleton _ _, ?_⟩
        intro c hc d hd
        obtain rfl := List.mem_singleton.mp hd
        refine ⟨hnew c hc, fun heq => hduplicate ?_⟩
        exact List.any_eq_true.mpr ⟨c, hc, by simpa using heq⟩

theorem WellFormed.update (h : WellFormed characters)
    (hu : updateCharacter characters id input = .ok next) : WellFormed next := by
  rw [updateCharacter] at hu
  split at hu
  · cases hu
  · rename_i hname
    split at hu
    · cases hu
    · rename_i hduplicate
      split at hu
      · obtain rfl := Except.ok.inj hu
        -- another character keeps its name, which is not the new one
        have hother : ∀ c ∈ characters, c.id ≠ id → c.name ≠ Text.trim input.name := by
          intro c hc hne heq
          apply hduplicate
          exact List.any_eq_true.mpr ⟨c, hc, by simp [hne, heq]⟩
        constructor
        · intro c hc
          obtain ⟨d, hd, rfl⟩ := List.mem_map.mp hc
          split
          · exact ⟨(h.tidy d hd).id, ⟨Text.trim_trim input.name, hname⟩, fun _ hv => tidy_server hv⟩
          · exact h.tidy d hd
        · apply List.pairwise_map.mpr
          apply h.distinct.imp_of_mem
          intro c d hc hd hne
          by_cases hcid : c.id = id <;> by_cases hdid : d.id = id
          · exact absurd (hcid.trans hdid.symm) hne.1
          · rw [if_pos hcid, if_neg hdid]
            exact ⟨hne.1, (hother d hd hdid).symm⟩
          · rw [if_neg hcid, if_pos hdid]
            exact ⟨hne.1, hother c hc hcid⟩
          · rw [if_neg hcid, if_neg hdid]
            exact hne
      · cases hu

theorem WellFormed.remove (h : WellFormed characters)
    (hr : removeCharacter characters id = .ok next) : WellFormed next := by
  rw [removeCharacter] at hr
  split at hr
  · cases hr
  · obtain rfl := Except.ok.inj hr
    exact ⟨fun c hc => h.tidy c (List.mem_of_mem_filter hc), h.distinct.filter _⟩

/-- An accepted edit keeps the list well formed. -/
theorem WellFormed.edit {e : Edit} (h : WellFormed characters) (hd : e.Drawn characters)
    (he : e.apply characters = .ok next) : WellFormed next := by
  cases e with
  | add input id => exact h.add hd.1 hd.2 he
  | update id input => exact h.update he
  | remove id => exact h.remove he

/-! ### Reading back -/

theorem Character.Tidy.serialise (h : c.Tidy) : Js.serialise c.toJs = c.toJs := by
  obtain ⟨id, name, server⟩ := c
  cases server with
  | none => simp [Character.toJs]
  | some v =>
      obtain ⟨s, rfl, -⟩ := h.server v rfl
      simp [Character.toJs]

theorem asCharacter_toJs (c : Character) : asCharacter c.toJs = some c := by
  obtain ⟨id, name, server⟩ := c
  cases server <;> rfl

/-- What is saved is loaded again. -/
theorem charactersIn_saveCharacters (h : WellFormed characters) :
    charactersIn (saveCharacters characters) = characters := by
  have htexts : Js.serialiseList (characters.map Character.toJs) = characters.map Character.toJs :=
    Js.serialiseList_map fun c hc => (h.tidy c hc).serialise
  rw [saveCharacters, Js.serialise_arr, htexts]
  show (characters.map Character.toJs).filterMap asCharacter = characters
  rw [List.filterMap_map]
  have hread : asCharacter ∘ Character.toJs = some := by
    funext c
    exact asCharacter_toJs c
  rw [hread, List.filterMap_some]

end

/-! ### Tabs -/

/-- The items of `localStorage` that the tabs share. -/
structure LocalStorage where
  characters : Item
  selectedCharacterId : Option String

/-- A page in a tab.  A characters page has what it rendered last and what has
been set since, which waits for the next render; a planner page loads its
characters once, after the first render. -/
inductive Page where
  | characters (characters : List Character) (next : Option (List Character))
  | planner (characters : List Character) (selectedCharacterId : Option String) (mounted : Bool)

structure Browser where
  storage : LocalStorage
  tab : ℕ → Option Page

inductive Event where
  | openCharacters (k : ℕ)
  | render (k : ℕ)
  | edit (k : ℕ) (e : Edit)
  | openPlanner (k : ℕ)
  | mount (k : ℕ)
  | selectCharacter (k : ℕ) (id : String)
  | close (k : ℕ)

/-- The first effect of the planner's pages: the id that is selected now, and
the item that holds it. -/
def reselect (list : List Character) (selectedCharacterId raw : Option String) :
    Option String × Option String :=
  match list with
  | first :: _ =>
      if selectedCharacterId.any fun id => list.any fun c => c.id = id then
        (selectedCharacterId, raw)
      else (some first.id, saveSelectedCharacterId (some first.id))
  | [] =>
      if selectedCharacterId.isSome then (none, saveSelectedCharacterId none)
      else (selectedCharacterId, raw)

def Event.run (b : Browser) : Event → Browser
  | .openCharacters k =>
      -- both effects of the first render: load, then save what was rendered
      let initial := loadCharacters b.storage.characters
      { storage := { b.storage with characters := saveCharacters [] }
        tab := Function.update b.tab k (some (.characters [] (some initial))) }
  | .render k =>
      match b.tab k with
      | some (.characters _ (some next)) =>
          { storage := { b.storage with characters := saveCharacters next }
            tab := Function.update b.tab k (some (.characters next none)) }
      | _ => b
  | .edit k e =>
      match b.tab k with
      | some (.characters characters _) =>
          match e.apply characters with
          | .ok next =>
              { b with tab := Function.update b.tab k (some (.characters characters (some next))) }
          | .error _ => b
      | _ => b
  | .openPlanner k =>
      let selected := loadSelectedCharacterId b.storage.selectedCharacterId
      { b with tab := Function.update b.tab k (some (.planner [] selected false)) }
  | .mount k =>
      match b.tab k with
      | some (.planner _ selected false) =>
          let list := loadHubCharacters b.storage.characters
          let next := reselect list selected b.storage.selectedCharacterId
          { storage := { b.storage with selectedCharacterId := next.2 }
            tab := Function.update b.tab k (some (.planner list next.1 true)) }
      | _ => b
  | .selectCharacter k id =>
      match b.tab k with
      | some (.planner characters _ true) =>
          let raw := saveSelectedCharacterId (some id)
          { storage := { b.storage with selectedCharacterId := raw }
            tab := Function.update b.tab k (some (.planner characters (some id) true)) }
      | _ => b
  | .close k => { b with tab := Function.update b.tab k none }

/-- What a user can do: ids are drawn afresh, and the planner offers its own
characters. -/
def Event.Offered (b : Browser) : Event → Prop
  | .edit k e => ∀ characters next, b.tab k = some (.characters characters next) →
      e.Drawn characters
  | .selectCharacter k id => ∀ characters selected mounted,
      b.tab k = some (.planner characters selected mounted) → ∃ c ∈ characters, c.id = id
  | _ => True

/-- The runs from `b`: any number of tabs, in any order. -/
inductive Browsing (b : Browser) : Browser → Prop where
  | start : Browsing b b
  | event {d : Browser} {e : Event} : Browsing b d → e.Offered d → Browsing b (e.run d)

/-! ### Every run -/

/-- The selected id is one of the characters, if there are any. -/
def Selects (characters : List Character) (selectedCharacterId : Option String) : Prop :=
  characters = [] ∧ selectedCharacterId = none ∨ ∃ c ∈ characters, selectedCharacterId = some c.id

def Page.Sound : Page → Prop
  | .characters shown next => WellFormed shown ∧ ∀ cs, next = some cs → WellFormed cs
  | .planner shown selected mounted => WellFormed shown ∧ (mounted = true → Selects shown selected)

structure Browser.Sound (b : Browser) : Prop where
  stored : WellFormed (charactersIn b.storage.characters)
  pages : ∀ k p, b.tab k = some p → p.Sound

/-- The effect selects a character of the list. -/
theorem selects_reselect (list : List Character) (selected raw : Option String) :
    Selects list (reselect list selected raw).1 := by
  cases list with
  | nil =>
      left
      refine ⟨rfl, ?_⟩
      cases selected <;> rfl
  | cons first list =>
      right
      rw [reselect]
      split
      · rename_i hselected
        cases selected with
        | none => simp at hselected
        | some id =>
            obtain ⟨c, hc, hid⟩ := List.any_eq_true.mp hselected
            exact ⟨c, hc, congrArg some (of_decide_eq_true hid).symm⟩
      · exact ⟨first, List.mem_cons_self, rfl⟩

section

variable {b d : Browser} {e : Event}

/-- A tab gets another page; what is stored is well formed still. -/
theorem Browser.Sound.setTab (h : b.Sound) {storage : LocalStorage} {k : ℕ} {p : Option Page}
    (hstored : WellFormed (charactersIn storage.characters)) (hp : ∀ q, p = some q → q.Sound) :
    (Browser.mk storage (Function.update b.tab k p)).Sound := by
  refine ⟨hstored, ?_⟩
  intro j q hq
  by_cases hjk : j = k
  · subst hjk
    exact hp q (by simpa using hq)
  · apply h.pages j q
    simpa [Function.update_of_ne hjk] using hq

theorem Browser.Sound.event (h : b.Sound) (he : e.Offered b) : (e.run b).Sound := by
  cases e with
  | openCharacters k =>
      apply h.setTab
      · show WellFormed (charactersIn (saveCharacters []))
        -- the page starts with no characters, and its first effect writes that
        rw [charactersIn_saveCharacters wellFormed_nil]
        exact wellFormed_nil
      · intro q hq
        cases hq
        exact ⟨wellFormed_nil, fun cs hcs => Option.some.inj hcs ▸ h.stored⟩
  | render k =>
      rw [Event.run]
      split
      · rename_i characters next hpage
        have hnext : WellFormed next := (h.pages k _ hpage).2 next rfl
        apply h.setTab
        · show WellFormed (charactersIn (saveCharacters next))
          rw [charactersIn_saveCharacters hnext]
          exact hnext
        · intro q hq
          cases hq
          exact ⟨hnext, fun _ hcs => nomatch hcs⟩
      · exact h
  | edit k e =>
      rw [Event.run]
      split
      · rename_i characters next hpage
        split
        · rename_i result hresult
          -- an edit is made on the list that is shown, with an id that is not in it
          have hold : WellFormed characters := (h.pages k _ hpage).1
          have hnew : WellFormed result := hold.edit (he characters next hpage) hresult
          apply h.setTab h.stored
          intro q hq
          cases hq
          exact ⟨hold, fun cs hcs => Option.some.inj hcs ▸ hnew⟩
        · exact h
      · exact h
  | openPlanner k =>
      apply h.setTab h.stored
      intro q hq
      cases hq
      exact ⟨wellFormed_nil, fun hmounted => nomatch hmounted⟩
  | mount k =>
      rw [Event.run]
      split
      · apply h.setTab
        · exact h.stored
        · intro q hq
          cases hq
          exact ⟨h.stored, fun _ => selects_reselect _ _ _⟩
      · exact h
  | selectCharacter k id =>
      rw [Event.run]
      split
      · rename_i characters selected hpage
        apply h.setTab
        · exact h.stored
        · intro q hq
          cases hq
          -- only characters of the list are offered
          obtain ⟨c, hc, rfl⟩ := he characters selected true hpage
          exact ⟨(h.pages k _ hpage).1, fun _ => .inr ⟨c, hc, rfl⟩⟩
      · exact h
  | close k => exact h.setTab h.stored fun q hq => nomatch hq

theorem Browser.Sound.browsing (h : b.Sound) (hd : Browsing b d) : d.Sound := by
  induction hd with
  | start => exact h
  | event _ he ih => exact ih.event he

end

/-! ### One characters page at a time -/

/-- A refused edit changes nothing. -/
def Edit.outcome (characters : List Character) (e : Edit) : List Character :=
  match e.apply characters with
  | .ok next => next
  | .error _ => characters

/-- No characters page of the tab waits for a render. -/
def Browser.Settled (b : Browser) (k : ℕ) : Prop :=
  ∀ shown next, b.tab k = some (.characters shown next) → next = none

/-- No other characters page is open, and none is edited or left before it is
rendered. -/
def Event.Alone (b : Browser) : Event → Prop
  | .openCharacters k =>
      b.Settled k ∧ ∀ j shown next, b.tab j = some (.characters shown next) → j = k
  | .edit k _ | .openPlanner k | .close k => b.Settled k
  | _ => True

/-- The edit an event asks for, if its tab shows the characters. -/
def Event.edits (b : Browser) : Event → List Edit
  | .edit k e =>
      match b.tab k with
      | some (.characters _ _) => [e]
      | _ => []
  | _ => []

/-- The runs from `b` with one characters page at a time, and the edits asked
for in them. -/
inductive Visits (b : Browser) : List Edit → Browser → Prop where
  | start : Visits b [] b
  | event {edits : List Edit} {d : Browser} {e : Event} :
      Visits b edits d → e.Offered d → e.Alone d → Visits b (edits ++ e.edits d) (e.run d)

theorem Visits.browsing {b d : Browser} {edits : List Edit} (h : Visits b edits d) :
    Browsing b d := by
  induction h with
  | start => exact .start
  | event _ he _ ih => exact .event ih he

/-- The pages and the item agree with `book`.  While a page waits for a render
the item may be out of date. -/
structure Follows (book : List Character) (b : Browser) : Prop where
  one : ∀ j k shown next shown' next', b.tab j = some (.characters shown next) →
    b.tab k = some (.characters shown' next') → j = k
  shown : ∀ k cs, b.tab k = some (.characters cs none) → cs = book
  next : ∀ k shown cs, b.tab k = some (.characters shown (some cs)) → cs = book
  stored : (∀ k, b.Settled k) → charactersIn b.storage.characters = book

section

variable {b d : Browser} {e : Event} {book : List Character} {k : ℕ}

/-- A tab that has no characters page, or a rendered one, gets another page. -/
theorem Follows.setOther (h : Follows book b) (hk : b.Settled k) {storage : LocalStorage}
    (hstorage : storage.characters = b.storage.characters) {p : Option Page}
    (hp : ∀ shown next, p ≠ some (.characters shown next)) :
    Follows book (Browser.mk storage (Function.update b.tab k p)) := by
  -- the characters pages of the new browser are characters pages of the old one
  have hpage : ∀ {j shown next}, Function.update b.tab k p j = some (.characters shown next) →
      b.tab j = some (.characters shown next) := by
    intro j shown next hj
    by_cases hjk : j = k
    · subst hjk
      exact absurd (by simpa using hj) (hp shown next)
    · simpa [Function.update_of_ne hjk] using hj
  refine ⟨?_, ?_, ?_, ?_⟩
  · intro i j shown next shown' next' hi hj
    exact h.one i j shown next shown' next' (hpage hi) (hpage hj)
  · intro j cs hj
    exact h.shown j cs (hpage hj)
  · intro j shown cs hj
    exact h.next j shown cs (hpage hj)
  · intro hsettled
    show charactersIn storage.characters = book
    rw [hstorage]
    apply h.stored
    intro j
    by_cases hjk : j = k
    · exact hjk ▸ hk
    · intro shown next hj
      apply hsettled j shown next
      simpa [Function.update_of_ne hjk] using hj

/-- The one characters page renders or sets a list. -/
theorem follows_setPage (hother : ∀ j shown next, b.tab j = some (.characters shown next) → j = k)
    {storage : LocalStorage} {shown : List Character} {next : Option (List Character)}
    (hnext : next.getD shown = book)
    (hstored : next = none → charactersIn storage.characters = book) :
    Follows book (Browser.mk storage (Function.update b.tab k (some (.characters shown next)))) := by
  -- there is one characters page, and it shows this list
  have honly : ∀ {j cs n}, Function.update b.tab k (some (.characters shown next)) j =
      some (.characters cs n) → j = k ∧ cs = shown ∧ n = next := by
    intro j cs n hj
    by_cases hjk : j = k
    · subst hjk
      rw [Function.update_self] at hj
      cases hj
      exact ⟨rfl, rfl, rfl⟩
    · rw [Function.update_of_ne hjk] at hj
      exact absurd (hother j cs n hj) hjk
  refine ⟨?_, ?_, ?_, ?_⟩
  · intro i j cs n cs' n' hi hj
    exact (honly hi).1.trans (honly hj).1.symm
  · intro j cs hj
    obtain ⟨-, rfl, hn⟩ := honly hj
    rw [← hn] at hnext
    exact hnext
  · intro j cs cs' hj
    obtain ⟨-, -, hn⟩ := honly hj
    rw [← hn] at hnext
    exact hnext
  · intro hsettled
    exact hstored (hsettled k shown next (Function.update_self ..))

theorem Follows.event (h : Follows book b) (hs : b.Sound) (ha : e.Alone b) :
    Follows ((e.edits b).foldl Edit.outcome book) (e.run b) := by
  cases e with
  | openCharacters k =>
      obtain ⟨hk, hother⟩ := ha
      -- no other tab has a list that it has yet to write
      have hsettled : ∀ j, b.Settled j := by
        intro j shown next hj
        obtain rfl := hother j shown next hj
        exact hk shown next hj
      exact follows_setPage hother (h.stored hsettled) fun hnone => nomatch hnone
  | render k =>
      rw [Event.run]
      split
      · rename_i shown next hpage
        apply follows_setPage fun j shown' next' hj => h.one j k _ _ _ _ hj hpage
        · exact h.next k shown next hpage
        · intro _
          have hbook : next = book := h.next k shown next hpage
          show charactersIn (saveCharacters next) = book
          rw [charactersIn_saveCharacters ((hs.pages k _ hpage).2 next rfl), hbook]
      · exact h
  | edit k e =>
      rw [Event.run, Event.edits]
      split
      · rename_i shown next hpage
        -- the page has rendered, so what it shows is the book
        obtain rfl := ha shown next hpage
        obtain rfl := h.shown k shown hpage
        show Follows (e.outcome shown) _
        rw [Edit.outcome]
        split
        · apply follows_setPage fun j shown' next' hj => h.one j k _ _ _ _ hj hpage
          · rfl
          · exact fun hnone => nomatch hnone
        · exact h
      · exact h
  | openPlanner k => exact h.setOther ha rfl fun _ _ hp => nomatch hp
  | mount k =>
      rw [Event.run]
      split
      · rename_i characters selected hpage
        apply h.setOther
        · exact fun shown next hk => nomatch hpage.symm.trans hk
        · rfl
        · exact fun _ _ hp => nomatch hp
      · exact h
  | selectCharacter k id =>
      rw [Event.run]
      split
      · rename_i characters selected hpage
        apply h.setOther
        · exact fun shown next hk => nomatch hpage.symm.trans hk
        · rfl
        · exact fun _ _ hp => nomatch hp
      · exact h
  | close k => exact h.setOther ha rfl fun _ _ hp => nomatch hp

end

/-! ### From the start -/

section

variable {b d : Browser} {edits : List Edit}

theorem sound_of_closed (hclosed : ∀ k, b.tab k = none)
    (hstored : WellFormed (loadCharacters b.storage.characters)) : b.Sound := by
  refine ⟨hstored, fun k p hp => ?_⟩
  rw [hclosed k] at hp
  cases hp

theorem follows_of_closed (hclosed : ∀ k, b.tab k = none) :
    Follows (loadCharacters b.storage.characters) b := by
  have hnone : ∀ {k p}, b.tab k ≠ some p := by
    intro k p hk
    rw [hclosed k] at hk
    cases hk
  refine ⟨?_, ?_, ?_, fun _ => rfl⟩
  · intro j k shown next shown' next' hj
    exact absurd hj hnone
  · intro k cs hk
    exact absurd hk hnone
  · intro k shown cs hk
    exact absurd hk hnone

/-- In a run with one characters page at a time, the page and the item follow
the edits. -/
theorem Visits.follows (h : Visits b edits d) (hclosed : ∀ k, b.tab k = none)
    (hstored : WellFormed (loadCharacters b.storage.characters)) :
    Follows (edits.foldl Edit.outcome (loadCharacters b.storage.characters)) d := by
  induction h with
  | start => exact follows_of_closed hclosed
  | event hvisits _ ha ih =>
      rw [List.foldl_append]
      exact ih.event ((sound_of_closed hclosed hstored).browsing hvisits.browsing) ha

/-- However the tabs' loads, renders and edits interleave, the stored list is
well formed, every characters page shows a well formed one, and every planner
page that has loaded its characters has one of them selected. -/
theorem sound_of_browsing (hclosed : ∀ k, b.tab k = none)
    (hstored : WellFormed (loadCharacters b.storage.characters)) (h : Browsing b d) :
    WellFormed (loadCharacters d.storage.characters) ∧
      (∀ k shown next, d.tab k = some (.characters shown next) → WellFormed shown) ∧
      ∀ k shown selected, d.tab k = some (.planner shown selected true) →
        WellFormed shown ∧ Selects shown selected := by
  have hsound : d.Sound := (sound_of_closed hclosed hstored).browsing h
  refine ⟨hsound.stored, ?_, ?_⟩
  · intro k shown next hk
    exact (hsound.pages k _ hk).1
  · intro k shown selected hk
    exact ⟨(hsound.pages k _ hk).1, (hsound.pages k _ hk).2 rfl⟩

/-- Nothing is lost or invented while one characters page at a time is used:
what is stored, and shown, is what the accepted edits make of the list at the
start. -/
theorem follows_of_visits (hclosed : ∀ k, b.tab k = none)
    (hstored : WellFormed (loadCharacters b.storage.characters)) (h : Visits b edits d)
    (hsettled : ∀ k, d.Settled k) :
    loadCharacters d.storage.characters =
        edits.foldl Edit.outcome (loadCharacters b.storage.characters) ∧
      ∀ k shown next, d.tab k = some (.characters shown next) →
        shown = edits.foldl Edit.outcome (loadCharacters b.storage.characters) := by
  have hfollows := h.follows hclosed hstored
  refine ⟨hfollows.stored hsettled, ?_⟩
  intro k shown next hk
  obtain rfl := hsettled k shown next hk
  exact hfollows.shown k shown hk

end

/-! ### A first visit -/

/-- A browser that has never been to the app. -/
def newBrowser : Browser := ⟨⟨none, none⟩, fun _ => none⟩

/-- A character is added on a page, and the planner is opened in another tab. -/
def firstVisit : List Event :=
  [.openCharacters 0, .render 0, .edit 0 (.add ⟨" Kaisinel ", some ""⟩ "a"), .render 0,
    .openPlanner 1, .mount 1]

def afterEvents (b : Browser) (events : List Event) : Browser := events.foldl Event.run b

/-- A page that is left before it renders what it has loaded has emptied the
item. -/
example (b : Browser) :
    loadCharacters (afterEvents b [.openCharacters 0, .close 0]).storage.characters = [] := rfl

theorem visits_firstVisit : Visits newBrowser [.add ⟨" Kaisinel ", some ""⟩ "a"]
    (afterEvents newBrowser firstVisit) := by
  have hopen : Visits newBrowser [] (afterEvents newBrowser (firstVisit.take 1)) := by
    apply Visits.event (e := .openCharacters 0) .start trivial
    constructor
    · intro shown next h
      cases h
    · intro j shown next h
      cases h
  have hrender : Visits newBrowser [] (afterEvents newBrowser (firstVisit.take 2)) :=
    Visits.event (e := .render 0) hopen trivial trivial
  have hshown : (afterEvents newBrowser (firstVisit.take 2)).tab 0 =
      some (.characters [] none) := rfl
  have hedit : Visits newBrowser [.add ⟨" Kaisinel ", some ""⟩ "a"]
      (afterEvents newBrowser (firstVisit.take 3)) := by
    apply Visits.event (e := .edit 0 (.add ⟨" Kaisinel ", some ""⟩ "a")) hrender
    · intro shown next h
      cases hshown.symm.trans h
      exact ⟨by decide, fun _ hc => absurd hc List.not_mem_nil⟩
    · intro shown next h
      cases hshown.symm.trans h
      rfl
  have hplanner : (afterEvents newBrowser (firstVisit.take 4)).tab 1 = none := rfl
  have hsettled : (afterEvents newBrowser (firstVisit.take 4)).Settled 1 := by
    intro shown next h
    cases hplanner.symm.trans h
  have hadded : Visits newBrowser [.add ⟨" Kaisinel ", some ""⟩ "a"]
      (afterEvents newBrowser (firstVisit.take 4)) :=
    Visits.event (e := .render 0) hedit trivial trivial
  exact Visits.event (e := .mount 1)
    (Visits.event (e := .openPlanner 1) hadded trivial hsettled) trivial trivial

theorem wellFormed_newBrowser : WellFormed (loadCharacters newBrowser.storage.characters) :=
  wellFormed_nil

theorem sound_of_browsing_firstVisit :
    WellFormed (loadCharacters (afterEvents newBrowser firstVisit).storage.characters) ∧
      (∀ k shown next, (afterEvents newBrowser firstVisit).tab k =
        some (.characters shown next) → WellFormed shown) ∧
      ∀ k shown selected, (afterEvents newBrowser firstVisit).tab k =
        some (.planner shown selected true) → WellFormed shown ∧ Selects shown selected :=
  sound_of_browsing (fun _ => rfl) wellFormed_newBrowser visits_firstVisit.browsing

theorem settled_firstVisit (k : ℕ) : (afterEvents newBrowser firstVisit).Settled k := by
  intro shown next h
  match k with
  | 0 =>
      cases h
      rfl
  | 1 => cases h
  | _ + 2 => cases h

theorem follows_of_visits_firstVisit :
    loadCharacters (afterEvents newBrowser firstVisit).storage.characters =
      [⟨"a", "Kaisinel", none⟩] :=
  (follows_of_visits (fun _ => rfl) wellFormed_newBrowser visits_firstVisit
    settled_firstVisit).1.trans rfl

end Web

end Hub
