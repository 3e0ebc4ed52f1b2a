/-
Aion2Hub/Core/Resolve.lean

The pages and widgets of modules (packages/core/src/registry.ts and resolve.ts).

A module is found by its id, a page among the pages of its module, and the
promise of a page that has been asked for stays in a cache until its load
fails.  The cache has the key

    moduleId ++ ":" ++ pageId

so that two pages may have the same key, and it is not told when a module is
registered again.  `Inv` says in terms of the loads alone what is cached: the
loads that have not failed, each under its key.
-/
import Aion2Hub.Lib.OrderedMap

namespace Hub.Resolve

/-! ### Modules -/

/-- A page or a widget. -/
inductive Kind where
  | page
  | widget
  deriving DecidableEq

/-- `HubPage` and `HubWidget`: the id, and the load function. -/
structure HubItem (F : Type) where
  id : String
  load : F

structure HubModule (F : Type) where
  id : String
  pages : List (HubItem F)
  widgets : List (HubItem F)

def HubModule.items {F : Type} (module : HubModule F) : Kind → List (HubItem F)
  | .page => module.pages
  | .widget => module.widgets

/-! ### State -/

/-- A promise that is handed out. -/
inductive Promise (V E : Type) where
  | pending
  | resolved (v : V)
  | rejected (e : E)

/-- A call of a load function: for what it was made, what the function came to,
and what has become of the promise that is handed out for it.  The promise
follows the outcome in a later step, when its handlers run. -/
structure Load (F V E : Type) where
  kind : Kind
  moduleId : String
  itemId : String
  load : F
  outcome : Option (Except E V)
  promise : Promise V E

structure State (F V E : Type) where
  moduleById : OrderedMap String (HubModule F)
  pageLoadCache : OrderedMap String ℕ
  widgetLoadCache : OrderedMap String ℕ
  loads : List (Load F V E)

variable {F V E : Type}

def start : State F V E := ⟨[], [], [], []⟩

def State.cache (s : State F V E) : Kind → OrderedMap String ℕ
  | .page => s.pageLoadCache
  | .widget => s.widgetLoadCache

def State.setCache (s : State F V E) (cache : OrderedMap String ℕ) : Kind → State F V E
  | .page => { s with pageLoadCache := cache }
  | .widget => { s with widgetLoadCache := cache }

def State.addLoad (s : State F V E) (l : Load F V E) : State F V E :=
  { s with loads := s.loads ++ [l] }

def State.setLoad (s : State F V E) (i : ℕ) (l : Load F V E) : State F V E :=
  { s with loads := s.loads.set i l }

def registerModules (modules : List (HubModule F)) (s : State F V E) : State F V E :=
  { s with moduleById := modules.foldl (fun m module => m.set module.id module) s.moduleById }

def getModuleById (s : State F V E) (id : String) : Option (HubModule F) := s.moduleById.lookup id

def resolveModuleItem (kind : Kind) (s : State F V E) (moduleId itemId : String) :
    Option (HubModule F × HubItem F) :=
  (getModuleById s moduleId).bind fun module =>
    ((module.items kind).find? fun value => value.id = itemId).map fun item => (module, item)

def resolveModulePage : State F V E → String → String → Option (HubModule F × HubItem F) :=
  resolveModuleItem .page

def resolveModuleWidget : State F V E → String → String → Option (HubModule F × HubItem F) :=
  resolveModuleItem .widget

def key (moduleId itemId : String) : String := moduleId ++ ":" ++ itemId

/-- What a caller gets: the promise of a load, one that is rejected with
`not_found`, or an exception of the load function itself. -/
inductive Returned (E : Type) where
  | promise (load : ℕ)
  | notFound
  | thrown (e : E)

/-- `loadModulePage` and `loadModuleWidget`; `thrown` is what the load function
throws, if it is called and does not return a promise. -/
def loadModuleItem (kind : Kind) (moduleId itemId : String) (thrown : Option E) (s : State F V E) :
    State F V E × Returned E :=
  match resolveModuleItem kind s moduleId itemId with
  | none => (s, .notFound)
  | some (_, item) =>
      match (s.cache kind).lookup (key moduleId itemId) with
      | some cached => (s, .promise cached)
      | none =>
          match thrown with
          | some e =>
              (s.addLoad ⟨kind, moduleId, itemId, item.load, some (.error e), .rejected e⟩, .thrown e)
          | none =>
              let cache := (s.cache kind).set (key moduleId itemId) s.loads.length
              ((s.addLoad ⟨kind, moduleId, itemId, item.load, none, .pending⟩).setCache cache kind,
                .promise s.loads.length)

def loadModulePage : String → String → Option E → State F V E → State F V E × Returned E :=
  loadModuleItem .page

def loadModuleWidget : String → String → Option E → State F V E → State F V E × Returned E :=
  loadModuleItem .widget

/-- The handlers of a load that has an outcome: the value is passed on, an
error removes the cache entry first. -/
def react (i : ℕ) (s : State F V E) : State F V E :=
  match s.loads[i]? with
  | some ⟨kind, moduleId, itemId, load, some (.ok v), .pending⟩ =>
      s.setLoad i ⟨kind, moduleId, itemId, load, some (.ok v), .resolved v⟩
  | some ⟨kind, moduleId, itemId, load, some (.error e), .pending⟩ =>
      let cache := (s.cache kind).delete (key moduleId itemId)
      (s.setLoad i ⟨kind, moduleId, itemId, load, some (.error e), .rejected e⟩).setCache cache kind
  | _ => s

/-- The promise of a load function is settled, once. -/
def settle (i : ℕ) (outcome : Except E V) (s : State F V E) : State F V E :=
  match s.loads[i]? with
  | some ⟨kind, moduleId, itemId, load, none, promise⟩ =>
      s.setLoad i ⟨kind, moduleId, itemId, load, some outcome, promise⟩
  | _ => s

/-! ### Runs -/

inductive Action (F V E : Type) where
  | register (modules : List (HubModule F))
  | load (kind : Kind) (moduleId itemId : String) (thrown : Option E)
  | settle (i : ℕ) (outcome : Except E V)
  | react (i : ℕ)

def step (s : State F V E) : Action F V E → State F V E
  | .register modules => registerModules modules s
  | .load kind moduleId itemId thrown => (loadModuleItem kind moduleId itemId thrown s).1
  | .settle i outcome => settle i outcome s
  | .react i => react i s

def run (s : State F V E) (acts : List (Action F V E)) : State F V E := acts.foldl step s

/-! ### What is cached -/

def Load.key (l : Load F V E) : String := Resolve.key l.moduleId l.itemId

/-- The promise of the load is rejected, or the load function has thrown. -/
def Load.Failed (l : Load F V E) : Prop := ∃ e, l.promise = .rejected e

/-- A promise that is resolved has the value of the load function. -/
def Load.Settled (l : Load F V E) : Prop := ∀ v, l.promise = .resolved v → l.outcome = some (.ok v)

/-- The load was made for this page. -/
def Load.IsFor (l : Load F V E) (kind : Kind) (moduleId itemId : String) : Prop :=
  l.kind = kind ∧ l.moduleId = moduleId ∧ l.itemId = itemId

/-- The load has not failed, and has this key. -/
def State.Live (s : State F V E) (kind : Kind) (key : String) (i : ℕ) : Prop :=
  ∃ l, s.loads[i]? = some l ∧ l.kind = kind ∧ l.key = key ∧ ¬ l.Failed

/-- The loads that have not failed are cached, each under its key, and nothing
else is. -/
structure Inv (s : State F V E) : Prop where
  cached : ∀ kind key i, (s.cache kind).lookup key = some i ↔ s.Live kind key i
  settled : ∀ (i : ℕ) (l : Load F V E), s.loads[i]? = some l → l.Settled

@[simp] theorem loads_setCache (s : State F V E) (cache : OrderedMap String ℕ) (kind : Kind) :
    (s.setCache cache kind).loads = s.loads := by
  cases kind <;> rfl

theorem cache_setCache (s : State F V E) (cache : OrderedMap String ℕ) (kind kind' : Kind) :
    (s.setCache cache kind).cache kind' = if kind' = kind then cache else s.cache kind' := by
  cases kind <;> cases kind' <;> rfl

@[simp] theorem cache_addLoad (s : State F V E) (l : Load F V E) (kind : Kind) :
    (s.addLoad l).cache kind = s.cache kind := by
  cases kind <;> rfl

@[simp] theorem cache_setLoad (s : State F V E) (i : ℕ) (l : Load F V E) (kind : Kind) :
    (s.setLoad i l).cache kind = s.cache kind := by
  cases kind <;> rfl

theorem getElem?_addLoad (s : State F V E) (l : Load F V E) (j : ℕ) :
    (s.addLoad l).loads[j]? = if j = s.loads.length then some l else s.loads[j]? := by
  show (s.loads ++ [l])[j]? = _
  rw [List.getElem?_append]
  split
  · rw [if_neg (by omega)]
  · rw [List.getElem?_singleton]
    split
    · rw [if_pos (by omega)]
    · rw [if_neg (by omega), List.getElem?_eq_none (by omega)]

theorem getElem?_setLoad {s : State F V E} {i : ℕ} {l : Load F V E} (h : s.loads[i]? = some l)
    (l' : Load F V E) (j : ℕ) :
    (s.setLoad i l').loads[j]? = if j = i then some l' else s.loads[j]? := by
  obtain ⟨hi, -⟩ := List.getElem?_eq_some_iff.mp h
  show (s.loads.set i l')[j]? = _
  rw [List.getElem?_set]
  by_cases hj : j = i
  · rw [if_pos hj.symm, if_pos hi, if_pos hj]
  · rw [if_neg (Ne.symm hj), if_neg hj]

theorem live_addLoad (s : State F V E) (l : Load F V E) (kind : Kind) (key : String) (j : ℕ) :
    (s.addLoad l).Live kind key j ↔
      if j = s.loads.length then l.kind = kind ∧ l.key = key ∧ ¬ l.Failed
      else s.Live kind key j := by
  rw [State.Live, getElem?_addLoad]
  split
  · simp
  · rfl

theorem live_setLoad {s : State F V E} {i : ℕ} {l : Load F V E} (h : s.loads[i]? = some l)
    (l' : Load F V E) (kind : Kind) (key : String) (j : ℕ) :
    (s.setLoad i l').Live kind key j ↔
      if j = i then l'.kind = kind ∧ l'.key = key ∧ ¬ l'.Failed else s.Live kind key j := by
  rw [State.Live, getElem?_setLoad h]
  split
  · simp
  · rfl

theorem live_iff {s : State F V E} {i : ℕ} {l : Load F V E} (h : s.loads[i]? = some l)
    (kind : Kind) (key : String) :
    s.Live kind key i ↔ l.kind = kind ∧ l.key = key ∧ ¬ l.Failed := by
  rw [State.Live, h]
  simp

theorem not_live_length (s : State F V E) (kind : Kind) (key : String) :
    ¬ s.Live kind key s.loads.length := by
  rintro ⟨l, hl, -⟩
  rw [List.getElem?_eq_none (Nat.le_refl _)] at hl
  cases hl

/-- Both are the same call of a load function. -/
structure Load.Same (l l' : Load F V E) : Prop where
  kind : l'.kind = l.kind
  moduleId : l'.moduleId = l.moduleId
  itemId : l'.itemId = l.itemId
  load : l'.load = l.load

theorem Load.Same.key_eq {l l' : Load F V E} (h : l.Same l') : l'.key = l.key := by
  rw [Load.key, h.moduleId, h.itemId, Load.key]

/-- What a step does to the loads and the caches. -/
inductive Change (s : State F V E) : State F V E → Prop
  | none {s' : State F V E} : s'.loads = s.loads → (∀ kind, s'.cache kind = s.cache kind) →
      Change s s'
  | thrown {l : Load F V E} : l.Failed → Change s (s.addLoad l)
  | begun {l : Load F V E} : l.promise = .pending → (s.cache l.kind).lookup l.key = .none →
      Change s ((s.addLoad l).setCache ((s.cache l.kind).set l.key s.loads.length) l.kind)
  | moved {i : ℕ} {l l' : Load F V E} : s.loads[i]? = some l → l.Same l' →
      (l.Failed ↔ l'.Failed) → (l.Settled → l'.Settled) → Change s (s.setLoad i l')
  | failed {i : ℕ} {l l' : Load F V E} : s.loads[i]? = some l → l.Same l' → ¬ l.Failed →
      l'.Failed → Change s ((s.setLoad i l').setCache ((s.cache l.kind).delete l.key) l.kind)

theorem not_failed_pending {l : Load F V E} (h : l.promise = .pending) : ¬ l.Failed := by
  rintro ⟨e, he⟩
  rw [h] at he
  cases he

/-- What a call does: the promise of the cached load, or that of a new one. -/
inductive CallResult (kind : Kind) (moduleId itemId : String) (thrown : Option E)
    (s : State F V E) : State F V E × Returned E → Prop
  | notFound : resolveModuleItem kind s moduleId itemId = none →
      CallResult kind moduleId itemId thrown s (s, .notFound)
  | cached {module item i} : resolveModuleItem kind s moduleId itemId = some (module, item) →
      (s.cache kind).lookup (key moduleId itemId) = some i →
      CallResult kind moduleId itemId thrown s (s, .promise i)
  | thrown {module item e} : resolveModuleItem kind s moduleId itemId = some (module, item) →
      (s.cache kind).lookup (key moduleId itemId) = none → thrown = some e →
      CallResult kind moduleId itemId thrown s
        (s.addLoad ⟨kind, moduleId, itemId, item.load, some (.error e), .rejected e⟩, .thrown e)
  | begun {module item} : resolveModuleItem kind s moduleId itemId = some (module, item) →
      (s.cache kind).lookup (key moduleId itemId) = none → thrown = none →
      CallResult kind moduleId itemId thrown s
        ((s.addLoad ⟨kind, moduleId, itemId, item.load, none, .pending⟩).setCache
          ((s.cache kind).set (key moduleId itemId) s.loads.length) kind, .promise s.loads.length)

theorem callResult (kind : Kind) (moduleId itemId : String) (thrown : Option E) (s : State F V E) :
    CallResult kind moduleId itemId thrown s (loadModuleItem kind moduleId itemId thrown s) := by
  rw [loadModuleItem]
  split
  · rename_i hresolve
    exact .notFound hresolve
  · rename_i hresolve
    split
    · rename_i hcached
      exact .cached hresolve hcached
    · rename_i hcached
      split
      · exact .thrown hresolve hcached rfl
      · exact .begun hresolve hcached rfl

theorem change_step (s : State F V E) (a : Action F V E) : Change s (step s a) := by
  cases a with
  | register modules => exact .none rfl fun kind => by cases kind <;> rfl
  | load kind moduleId itemId thrown =>
      show Change s (loadModuleItem kind moduleId itemId thrown s).1
      have h := callResult kind moduleId itemId thrown s
      generalize loadModuleItem kind moduleId itemId thrown s = r at h ⊢
      cases h with
      | notFound _ => exact .none rfl fun _ => rfl
      | cached _ _ => exact .none rfl fun _ => rfl
      | thrown _ _ _ => exact .thrown ⟨_, rfl⟩
      | @begun module item _ hcached _ =>
          exact .begun (l := ⟨kind, moduleId, itemId, item.load, none, .pending⟩) rfl hcached
  | settle i outcome =>
      show Change s (settle i outcome s)
      rw [settle]
      split
      · rename_i promise h
        refine .moved h ⟨rfl, rfl, rfl, rfl⟩ Iff.rfl ?_
        intro hl v hv
        cases hl v hv
      · exact .none rfl fun _ => rfl
  | react i =>
      show Change s (react i s)
      rw [react]
      split
      · rename_i h
        refine .moved h ?_ ?_ ?_
        · exact ⟨rfl, rfl, rfl, rfl⟩
        · constructor
          · exact fun hf => absurd hf (not_failed_pending rfl)
          · rintro ⟨e, he⟩
            cases he
        · intro _ v hv
          cases hv
          rfl
      · rename_i h
        exact .failed h ⟨rfl, rfl, rfl, rfl⟩ (not_failed_pending rfl) ⟨_, rfl⟩
      · exact .none rfl fun _ => rfl

/-! ### Every run -/

theorem inv_change {s s' : State F V E} (h : Inv s) (hc : Change s s') : Inv s' := by
  cases hc with
  | none hloads hcache =>
      constructor
      · intro kind key i
        rw [hcache, h.cached, State.Live, State.Live, hloads]
      · intro i l hl
        exact h.settled i l (hloads ▸ hl)
  | @thrown l hfailed =>
      constructor
      · intro kind key i
        rw [cache_addLoad, h.cached, live_addLoad]
        split
        · rename_i hi
          subst hi
          exact iff_of_false (not_live_length s kind key) fun hl => hl.2.2 hfailed
        · rfl
      · intro i m hm
        rw [getElem?_addLoad] at hm
        split at hm
        · obtain rfl := Option.some.inj hm
          obtain ⟨e, he⟩ := hfailed
          intro v hv
          rw [he] at hv
          cases hv
        · exact h.settled i m hm
  | @begun l hpending hnone =>
      constructor
      · intro kind key i
        have hlive : (((s.addLoad l).setCache ((s.cache l.kind).set l.key s.loads.length)
            l.kind).Live kind key i) ↔ (s.addLoad l).Live kind key i := by
          rw [State.Live, State.Live, loads_setCache]
        rw [hlive, live_addLoad, cache_setCache, cache_addLoad]
        by_cases hkind : kind = l.kind
        · subst hkind
          rw [if_pos rfl, OrderedMap.lookup_set]
          by_cases hkey : key = l.key
          · subst hkey
            rw [if_pos rfl]
            split
            · rename_i hi
              exact iff_of_true (congrArg some hi.symm) ⟨rfl, rfl, not_failed_pending hpending⟩
            · rename_i hi
              -- no other load with this key is left
              rw [← h.cached, hnone]
              exact iff_of_false (fun heq => hi (Option.some.inj heq).symm) (by simp)
          · rw [if_neg hkey, h.cached]
            split
            · rename_i hi
              subst hi
              exact iff_of_false (not_live_length s _ _) fun hl => hkey hl.2.1.symm
            · rfl
        · rw [if_neg hkind, h.cached]
          split
          · rename_i hi
            subst hi
            exact iff_of_false (not_live_length s _ _) fun hl => hkind hl.1.symm
          · rfl
      · intro i m hm
        rw [loads_setCache, getElem?_addLoad] at hm
        split at hm
        · obtain rfl := Option.some.inj hm
          intro v hv
          rw [hpending] at hv
          cases hv
        · exact h.settled i m hm
  | @moved i l l' hl hsame hfailed hsettled =>
      constructor
      · intro kind key j
        rw [cache_setLoad, h.cached, live_setLoad hl]
        split
        · rename_i hj
          subst hj
          rw [live_iff hl, hsame.kind, hsame.key_eq, hfailed]
        · rfl
      · intro j m hm
        rw [getElem?_setLoad hl] at hm
        split at hm
        · obtain rfl := Option.some.inj hm
          exact hsettled (h.settled i l hl)
        · exact h.settled j m hm
  | @failed i l l' hl hsame hlive hfailed =>
      have hcached : (s.cache l.kind).lookup l.key = some i :=
        (h.cached _ _ _).mpr ((live_iff hl _ _).mpr ⟨rfl, rfl, hlive⟩)
      constructor
      · intro kind key j
        have hset : (((s.setLoad i l').setCache ((s.cache l.kind).delete l.key)
            l.kind).Live kind key j) ↔ (s.setLoad i l').Live kind key j := by
          rw [State.Live, State.Live, loads_setCache]
        rw [hset, live_setLoad hl, cache_setCache, cache_setLoad]
        by_cases hj : j = i
        · subst hj
          rw [if_pos rfl]
          apply iff_of_false _ fun hnot => hnot.2.2 hfailed
          split
          · rename_i hkind
            rw [OrderedMap.lookup_delete]
            split
            · exact fun heq => by cases heq
            · rename_i hkey
              intro heq
              obtain ⟨-, heq, -⟩ := (live_iff hl _ _).mp ((h.cached _ _ _).mp heq)
              exact hkey heq.symm
          · rename_i hkind
            intro heq
            obtain ⟨heq, -⟩ := (live_iff hl _ _).mp ((h.cached _ _ _).mp heq)
            exact hkind heq.symm
        · rw [if_neg hj]
          split
          · rename_i hkind
            subst hkind
            rw [OrderedMap.lookup_delete]
            split
            · rename_i hkey
              subst hkey
              -- the deleted entry was the one of the load that failed
              rw [← h.cached, hcached]
              exact iff_of_false (by simp) fun heq => hj (Option.some.inj heq).symm
            · exact h.cached _ _ _
          · exact h.cached _ _ _
      · intro j m hm
        rw [loads_setCache, getElem?_setLoad hl] at hm
        split at hm
        · obtain rfl := Option.some.inj hm
          obtain ⟨e, he⟩ := hfailed
          intro v hv
          rw [he] at hv
          cases hv
        · exact h.settled j m hm

theorem inv_start : Inv (start : State F V E) where
  cached := by
    intro kind key i
    constructor
    · intro h
      cases kind <;> cases h
    · rintro ⟨l, hl, -⟩
      cases hl
  settled := by
    intro i l hl
    cases hl

theorem inv_run {s : State F V E} (h : Inv s) (acts : List (Action F V E)) : Inv (run s acts) := by
  induction acts generalizing s with
  | nil => exact h
  | cons a acts ih => exact ih (inv_change h (change_step s a))

/-- Loads stay what they are, and only their outcome is added. -/
def Kept (s s' : State F V E) : Prop :=
  ∀ (i : ℕ) (l : Load F V E), s.loads[i]? = some l → ∃ l', s'.loads[i]? = some l' ∧ l.Same l'

theorem kept_change {s s' : State F V E} (hc : Change s s') : Kept s s' := by
  have hrefl : ∀ l : Load F V E, l.Same l := fun l => ⟨rfl, rfl, rfl, rfl⟩
  have hadd : ∀ l, Kept s (s.addLoad l) := by
    intro l i m hm
    obtain ⟨hi, -⟩ := List.getElem?_eq_some_iff.mp hm
    rw [getElem?_addLoad, if_neg (Nat.ne_of_lt hi)]
    exact ⟨m, hm, hrefl m⟩
  have hset : ∀ {i l l'}, s.loads[i]? = some l → l.Same l' → Kept s (s.setLoad i l') := by
    intro i l l' hl hsame j m hm
    rw [getElem?_setLoad hl]
    split
    · rename_i hj
      subst hj
      obtain rfl := Option.some.inj (hl.symm.trans hm)
      exact ⟨l', rfl, hsame⟩
    · exact ⟨m, hm, hrefl m⟩
  cases hc with
  | none hloads _ =>
      intro i l hl
      exact ⟨l, hloads ▸ hl, hrefl l⟩
  | thrown _ => exact hadd _
  | begun _ _ =>
      intro i l hl
      rw [loads_setCache]
      exact hadd _ i l hl
  | moved hl hsame _ _ => exact hset hl hsame
  | failed hl hsame _ _ =>
      intro i l hl'
      rw [loads_setCache]
      exact hset hl hsame i l hl'

theorem kept_run (s : State F V E) (acts : List (Action F V E)) : Kept s (run s acts) := by
  induction acts generalizing s with
  | nil => exact fun i l hl => ⟨l, hl, rfl, rfl, rfl, rfl⟩
  | cons a acts ih =>
      intro i l hl
      obtain ⟨m, hm, hsame⟩ := kept_change (change_step s a) i l hl
      obtain ⟨l', hl', hsame'⟩ := ih (step s a) i m hm
      refine ⟨l', hl', ?_, ?_, ?_, ?_⟩
      · exact hsame'.kind.trans hsame.kind
      · exact hsame'.moduleId.trans hsame.moduleId
      · exact hsame'.itemId.trans hsame.itemId
      · exact hsame'.load.trans hsame.load

/-! ### Every page is its own -/

/-- A call fits if what is loading or loaded under the key of the page was begun
for this page, by the load function that is registered for it now. -/
def Fits (s : State F V E) : Action F V E → Prop
  | .load kind moduleId itemId _ =>
      ∀ module item, resolveModuleItem kind s moduleId itemId = some (module, item) →
        ∀ l ∈ s.loads, l.kind = kind → l.key = key moduleId itemId → ¬ l.Failed →
          l.IsFor kind moduleId itemId ∧ l.load = item.load
  | _ => True

/-- All steps of a run fit. -/
def RunFits (s : State F V E) : List (Action F V E) → Prop
  | [] => True
  | a :: acts => Fits s a ∧ RunFits (step s a) acts

/-- What is expected of a call in the state `s`, when the run has come to `t`. -/
structure CallRight (kind : Kind) (moduleId itemId : String) (thrown : Option E)
    (s t : State F V E) : Prop where
  /-- A promise is resolved with a value of the page's own load function. -/
  own : ∀ i, (loadModuleItem kind moduleId itemId thrown s).2 = .promise i →
    ∃ module item l, resolveModuleItem kind s moduleId itemId = some (module, item) ∧
      t.loads[i]? = some l ∧
      ∀ v, l.promise = .resolved v → l.load = item.load ∧ l.outcome = some (.ok v)
  /-- While a load of the page goes on or has succeeded, there is no second one. -/
  once : (∃ l ∈ s.loads, l.IsFor kind moduleId itemId ∧ ¬ l.Failed) →
    (loadModuleItem kind moduleId itemId thrown s).1.loads = s.loads
  /-- After a failure the page is loaded again. -/
  retry : ∀ module item, resolveModuleItem kind s moduleId itemId = some (module, item) →
    (∃ l ∈ s.loads, l.IsFor kind moduleId itemId) →
    (∀ l ∈ s.loads, l.IsFor kind moduleId itemId → l.Failed) →
    ∃ l, (loadModuleItem kind moduleId itemId thrown s).1.loads = s.loads ++ [l] ∧
      l.IsFor kind moduleId itemId ∧ l.load = item.load ∧
      ((loadModuleItem kind moduleId itemId thrown s).2 = .promise s.loads.length ∨
        ∃ e, thrown = some e ∧ (loadModuleItem kind moduleId itemId thrown s).2 = .thrown e)

/-- All calls of a run are as expected. -/
def RunRight (acts : List (Action F V E)) : Prop :=
  ∀ before kind moduleId itemId thrown after,
    acts = before ++ .load kind moduleId itemId thrown :: after →
      CallRight kind moduleId itemId thrown (run start before) (run start acts)

theorem key_of_isFor {l : Load F V E} {kind : Kind} {moduleId itemId : String}
    (h : l.IsFor kind moduleId itemId) : l.key = key moduleId itemId := by
  obtain ⟨-, hmodule, hitem⟩ := h
  rw [Load.key, hmodule, hitem]

/-- What is cached has not failed. -/
theorem Inv.load_of_cached {s : State F V E} (h : Inv s) {kind : Kind} {moduleId itemId : String}
    {i : ℕ} (hi : (s.cache kind).lookup (key moduleId itemId) = some i) :
    ∃ l ∈ s.loads, s.loads[i]? = some l ∧ l.kind = kind ∧ l.key = key moduleId itemId ∧
      ¬ l.Failed := by
  obtain ⟨l, hl, hkind, hkey, hlive⟩ := (h.cached _ _ _).mp hi
  exact ⟨l, List.mem_of_getElem? hl, hl, hkind, hkey, hlive⟩

/-- On every run, a load that has not failed is the only one of its page. -/
theorem Inv.once {s : State F V E} (h : Inv s) {kind : Kind} {moduleId itemId : String}
    {l : Load F V E} (hl : l ∈ s.loads) (hfor : l.IsFor kind moduleId itemId) (hlive : ¬ l.Failed)
    (thrown : Option E) : (loadModuleItem kind moduleId itemId thrown s).1.loads = s.loads := by
  obtain ⟨i, hi⟩ := List.mem_iff_getElem?.mp hl
  have hcached : (s.cache kind).lookup (key moduleId itemId) = some i :=
    (h.cached _ _ _).mpr ⟨l, hi, hfor.1, key_of_isFor hfor, hlive⟩
  have hresult := callResult kind moduleId itemId thrown s
  generalize loadModuleItem kind moduleId itemId thrown s = r at hresult ⊢
  cases hresult with
  | notFound _ => rfl
  | cached _ _ => rfl
  | thrown _ hnone _ => cases hnone.symm.trans hcached
  | begun _ hnone _ => cases hnone.symm.trans hcached

/-- A call that fits is as expected, whatever comes after it. -/
theorem callRight_of_fits {s : State F V E} (h : Inv s) {kind : Kind} {moduleId itemId : String}
    {thrown : Option E} (hfits : Fits s (.load kind moduleId itemId thrown))
    (after : List (Action F V E)) :
    CallRight kind moduleId itemId thrown s
      (run s (.load kind moduleId itemId thrown :: after)) where
  own := by
    intro i hi
    have hresult := callResult kind moduleId itemId thrown s
    have hinv := inv_run h (.load kind moduleId itemId thrown :: after)
    have hkept := kept_run (loadModuleItem kind moduleId itemId thrown s).1 after
    have hrun : run s (.load kind moduleId itemId thrown :: after) =
        run (loadModuleItem kind moduleId itemId thrown s).1 after := rfl
    rw [hrun] at hinv ⊢
    generalize loadModuleItem kind moduleId itemId thrown s = r at hi hresult hinv hkept ⊢
    cases hresult with
    | notFound _ => cases hi
    | thrown _ _ _ => cases hi
    | @cached module item i hresolve hcached =>
        cases hi
        obtain ⟨l, hmem, hl, hkind, hkey, hlive⟩ := h.load_of_cached hcached
        obtain ⟨-, hload⟩ := hfits module item hresolve l hmem hkind hkey hlive
        obtain ⟨l', hl', hsame⟩ := hkept i l hl
        refine ⟨module, item, l', hresolve, hl', fun v hv => ⟨?_, hinv.settled i l' hl' v hv⟩⟩
        exact hsame.load.trans hload
    | @begun module item hresolve _ _ =>
        cases hi
        obtain ⟨l', hl', hsame⟩ := hkept s.loads.length
          ⟨kind, moduleId, itemId, item.load, none, .pending⟩
          (by rw [loads_setCache, getElem?_addLoad, if_pos rfl])
        exact ⟨module, item, l', hresolve, hl', fun v hv =>
          ⟨hsame.load, hinv.settled _ l' hl' v hv⟩⟩
  once := by
    rintro ⟨l, hl, hfor, hlive⟩
    exact h.once hl hfor hlive thrown
  retry := by
    intro module item hresolve _ hfailed
    have hnone : (s.cache kind).lookup (key moduleId itemId) = none := by
      by_contra hsome
      obtain ⟨i, hi⟩ := Option.ne_none_iff_exists'.mp hsome
      obtain ⟨l, hmem, -, hkind, hkey, hlive⟩ := h.load_of_cached hi
      exact hlive (hfailed l hmem (hfits module item hresolve l hmem hkind hkey hlive).1)
    have hresult := callResult kind moduleId itemId thrown s
    generalize loadModuleItem kind moduleId itemId thrown s = r at hresult ⊢
    cases hresult with
    | notFound h => cases h.symm.trans hresolve
    | cached _ h => cases h.symm.trans hnone
    | thrown h _ hthrown =>
        cases h.symm.trans hresolve
        exact ⟨_, rfl, ⟨rfl, rfl, rfl⟩, rfl, .inr ⟨_, hthrown, rfl⟩⟩
    | begun h _ _ =>
        cases h.symm.trans hresolve
        exact ⟨_, loads_setCache _ _ _, ⟨rfl, rfl, rfl⟩, rfl, .inl rfl⟩

theorem runFits_append {s : State F V E} {before after : List (Action F V E)}
    (h : RunFits s (before ++ after)) : RunFits (run s before) after := by
  induction before generalizing s with
  | nil => exact h
  | cons a before ih => exact ih h.2

/-- **In a run whose calls all fit, every page is its own**: what a promise is
resolved with comes from the page's load function, a load that goes on or has
succeeded is the only one, and after a failure there is a new one. -/
theorem runRight_of_runFits (acts : List (Action F V E)) (h : RunFits start acts) :
    RunRight acts := by
  rintro before kind moduleId itemId thrown after rfl
  have hfits := (runFits_append h).1
  have hinv : Inv (run (start : State F V E) before) := inv_run inv_start before
  have hrun : run start (before ++ .load kind moduleId itemId thrown :: after) =
      run (run (start : State F V E) before) (.load kind moduleId itemId thrown :: after) :=
    List.foldl_append
  rw [hrun]
  exact callRight_of_fits hinv hfits after

/-- A module with one page. -/
def onePage (moduleId pageId : String) (load : ℕ) : HubModule ℕ :=
  ⟨moduleId, [⟨pageId, load⟩], []⟩

/-- A page is asked for twice before it is loaded. -/
def asked : List (Action ℕ ℕ ℕ) :=
  [.register [onePage "planner" "today" 0], .load .page "planner" "today" none,
    .load .page "planner" "today" none, .settle 0 (.ok 10), .react 0]

theorem runRight_asked : RunRight asked := by
  apply runRight_of_runFits
  refine ⟨trivial, ?_, ?_, trivial, trivial, trivial⟩
  · intro module item _ l hl
    cases hl
  · intro module item hresolve l hl _ _ _
    obtain rfl : l = ⟨.page, "planner", "today", 0, none, .pending⟩ := List.mem_singleton.mp hl
    obtain ⟨-, rfl⟩ : onePage "planner" "today" 0 = module ∧ ⟨"today", 0⟩ = item :=
      Prod.mk.inj (Option.some.inj hresolve)
    exact ⟨⟨rfl, rfl, rfl⟩, rfl⟩

/-- Two pages with the same key. -/
def joined : List (Action ℕ ℕ ℕ) :=
  [.register [onePage "a" "b:c" 0, onePage "a:b" "c" 1], .load .page "a" "b:c" none,
    .settle 0 (.ok 10), .react 0, .load .page "a:b" "c" none]

/-- A module that is registered again after its page has been loaded. -/
def replaced : List (Action ℕ ℕ ℕ) :=
  [.register [onePage "a" "b" 0], .load .page "a" "b" none, .settle 0 (.ok 10), .react 0,
    .register [onePage "a" "b" 1], .load .page "a" "b" none]

/-- The other page's promise is returned, and the old page's. -/
theorem not_runRight_joined : ¬ RunRight joined ∧ ¬ RunRight replaced := by
  constructor
  · intro h
    have hcall := h (joined.take 4) .page "a:b" "c" none [] rfl
    obtain ⟨module, item, l, hresolve, hl, hvalue⟩ := hcall.own 0 rfl
    obtain rfl : ⟨.page, "a", "b:c", 0, some (.ok 10), .resolved 10⟩ = l := Option.some.inj hl
    obtain ⟨-, rfl⟩ : onePage "a:b" "c" 1 = module ∧ ⟨"c", 1⟩ = item :=
      Prod.mk.inj (Option.some.inj hresolve)
    exact absurd (hvalue 10 rfl).1 (by decide)
  · intro h
    have hcall := h (replaced.take 5) .page "a" "b" none [] rfl
    obtain ⟨module, item, l, hresolve, hl, hvalue⟩ := hcall.own 0 rfl
    obtain rfl : ⟨.page, "a", "b", 0, some (.ok 10), .resolved 10⟩ = l := Option.some.inj hl
    obtain ⟨-, rfl⟩ : onePage "a" "b" 1 = module ∧ ⟨"b", 1⟩ = item :=
      Prod.mk.inj (Option.some.inj hresolve)
    exact absurd (hvalue 10 rfl).1 (by decide)

end Hub.Resolve
