/-
Aion2Hub/Web/Charge.lean

The charges on the planner's page of the web app
(packages/modules/planner/pages/today.tsx).

A click on `Use` is checked against the stacks that the page counted when it
was loaded last, not against the uses that are stored.  A user who waits until
nothing is under way keeps to the limit all the same: what the page has counted
is at least what there is (`Counted`), since uses only run out as time goes on,
and every use is followed by a reload (`limit_of_run`).  The queries and the
replies are handled in their order, and none fails.
-/
import Aion2Hub.Planner.Charge

namespace Hub.Web

open Sql

/-! ### The page -/

structure ChargeUse where
  id : ℕ
  characterId : String
  templateId : String
  usedAt : ℤ

structure Template where
  id : String
  type : PlannerTemplateType
  enabled : Bool
  maxStacks : Option Number
  rechargeHours : Option Number

structure ChargeInfo where
  available : Number
  maxStacks : Number
  nextRechargeAt : Option Number

/-- The template has a row among the charges. -/
def Template.isCharge (t : Template) : Bool := t.type == .charge && t.enabled

def Template.stacks (t : Template) : Number := Number.atLeast 1 (t.maxStacks.getD 1)

def Template.rechargeMs (t : Template) : Number :=
  Number.mul (Number.mul (Number.mul (Number.atLeast 1 (t.rechargeHours.getD 24)) 60) 60) 1000

def Template.windowStart (t : Template) (now : ℤ) : Number := Number.sub (.ofInt now) t.rechargeMs

def usesOf (uses : List ChargeUse) (characterId templateId : String) : List ChargeUse :=
  uses.filter fun u => u.characterId == characterId && u.templateId == templateId

def Template.active (t : Template) (uses : List ChargeUse) (characterId : String) (now : ℤ) :
    List ChargeUse :=
  (usesOf uses characterId t.id).filter fun u => Number.le (t.windowStart now) (.ofInt u.usedAt)

/-- `Math.min` of some numbers. -/
def minOf : List Number → Option Number
  | [] => none
  | x :: xs => some (xs.foldl Number.atMost x)

def Template.chargeInfo (t : Template) (uses : List ChargeUse) (characterId : String) (now : ℤ) :
    ChargeInfo where
  available := availableStacks t.stacks (t.active uses characterId now).length
  maxStacks := t.stacks
  nextRechargeAt := minOf ((t.active uses characterId now).map fun u =>
    Number.add (.ofInt u.usedAt) t.rechargeMs)

structure ChargeUses where
  rows : List ChargeUse
  nextId : ℕ

/-- What the page asks of the database.  `write` stores a completion or a
duration, `status` reads them, and `chargeUses` reads the uses of all charges for
a window that ends at `now`. -/
inductive ChargeQuery where
  | add (characterId templateId : String) (usedAt : ℤ)
  | latest (characterId templateId : String)
  | delete (characterId : String) (id : ℕ)
  | write (characterId : String)
  | status (characterId : String)
  | chargeUses (characterId : String) (now : ℤ)

inductive ChargeReply where
  | written (characterId : String)
  | latest (characterId : String) (latest : Option ChargeUse)
  | status (characterId : String)
  | chargeUses (characterId : String) (now : ℤ) (uses : List ChargeUse)

/-- A query of the page that was open at the visit. -/
structure ChargeRequest where
  visit : ℕ
  query : ChargeQuery

structure ChargeAnswer where
  visit : ℕ
  reply : ChargeReply

/-- The queries wait in `requests`, and the replies in `answers`, oldest first. -/
structure Today where
  chargeUses : ChargeUses
  visit : ℕ
  selectedCharacterId : Option String
  chargeInfo : List (String × ChargeInfo)
  requests : List ChargeRequest
  answers : List ChargeAnswer

def Today.info (s : Today) (templateId : String) : Option ChargeInfo :=
  (s.chargeInfo.find? fun p => p.1 == templateId).map (·.2)

def Today.ask (s : Today) (visit : ℕ) (query : ChargeQuery) : Today :=
  { s with requests := s.requests ++ [⟨visit, query⟩] }

/-- `reloadStatus`, up to its first reads. -/
def Today.reload (s : Today) : Today :=
  match nonEmpty s.selectedCharacterId with
  | none => { s with chargeInfo := [] }
  | some characterId => s.ask s.visit (.status characterId)

def latestUse (uses : List ChargeUse) (characterId templateId : String) : Option ChargeUse :=
  (orderBy (desc (·.usedAt) anyOrder) (usesOf uses characterId templateId)).head?

/-- The database at a query. -/
def ChargeQuery.serve (uses : ChargeUses) : ChargeQuery → ChargeReply × ChargeUses
  | .add characterId templateId usedAt =>
      (.written characterId,
        ⟨uses.rows ++ [⟨uses.nextId, characterId, templateId, usedAt⟩], uses.nextId + 1⟩)
  | .latest characterId templateId =>
      (.latest characterId (latestUse uses.rows characterId templateId), uses)
  | .delete characterId id =>
      (.written characterId, { uses with rows := uses.rows.filter fun u => u.id ≠ id })
  | .write characterId => (.written characterId, uses)
  | .status characterId => (.status characterId, uses)
  | .chargeUses characterId now => (.chargeUses characterId now uses.rows, uses)

/-- The page at a reply: a write is followed by a reload, and the page of an
earlier visit goes on but shows nothing. -/
def Today.answer (templates : List Template) (now : ℤ) (s : Today) (a : ChargeAnswer) : Today :=
  match a.reply with
  | .written characterId => s.ask a.visit (.status characterId)
  | .latest _ none => s
  | .latest characterId (some latest) =>
      if latest.id = 0 then s else s.ask a.visit (.delete characterId latest.id)
  | .status characterId => s.ask a.visit (.chargeUses characterId now)
  | .chargeUses characterId start uses =>
      if a.visit = s.visit then
        { s with chargeInfo := (templates.filter (·.isCharge)).map fun t =>
            (t.id, t.chargeInfo uses characterId start) }
      else s

/-- `opened` is a visit of the page, once its templates are loaded; `write` is a
click that stores a completion or a duration, `reload` a reload for other
settings.  `served` is the database at the oldest query, and `answered` the page
at the oldest reply. -/
inductive ChargeEvent where
  | opened (selectedCharacterId : Option String)
  | selectCharacter (id : String)
  | useCharge (t : Template)
  | undoCharge (t : Template)
  | write
  | reload
  | served
  | answered

def ChargeEvent.run (templates : List Template) (now : ℤ) (s : Today) : ChargeEvent → Today
  | .opened selectedCharacterId =>
      Today.reload { s with visit := s.visit + 1, selectedCharacterId, chargeInfo := [] }
  | .selectCharacter id =>
      if s.selectedCharacterId = some id then s
      else Today.reload { s with selectedCharacterId := some id }
  | .useCharge t =>
      match nonEmpty s.selectedCharacterId with
      | none => s
      | some characterId =>
          match s.info t.id with
          | none => s
          | some info =>
              if Number.le info.available 0 then s else s.ask s.visit (.add characterId t.id now)
  | .undoCharge t =>
      match nonEmpty s.selectedCharacterId with
      | none => s
      | some characterId => s.ask s.visit (.latest characterId t.id)
  | .write =>
      match nonEmpty s.selectedCharacterId with
      | none => s
      | some characterId => s.ask s.visit (.write characterId)
  | .reload => s.reload
  | .served =>
      match s.requests with
      | [] => s
      | r :: requests =>
          let (reply, chargeUses) := r.query.serve s.chargeUses
          { s with chargeUses, requests, answers := s.answers ++ [⟨r.visit, reply⟩] }
  | .answered =>
      match s.answers with
      | [] => s
      | a :: answers => Today.answer templates now { s with answers } a

def Today.Idle (s : Today) : Prop := s.requests = [] ∧ s.answers = []

/-- The user waits for the database before using one of the charges, and before
leaving a character. -/
def ChargeEvent.Patient (templates : List Template) (s : Today) : ChargeEvent → Prop
  | .selectCharacter _ => s.Idle
  | .useCharge t => t ∈ templates ∧ t.isCharge = true ∧ s.Idle
  | _ => True

/-- The states up to the time `t`, with a clock that never goes back and a
database that answers every query. -/
inductive ChargeRun (templates : List Template) : ℤ → Today → Prop
  | start {t : ℤ} : 0 ≤ t → t ≤ Date.maxTime →
      ChargeRun templates t ⟨⟨[], 1⟩, 0, none, [], [], []⟩
  | event {t now : ℤ} {s : Today} {e : ChargeEvent} : ChargeRun templates t s → t ≤ now →
      now ≤ Date.maxTime → e.Patient templates s → ChargeRun templates now (e.run templates now s)

/-- The stacks are counted exactly, and the window is a whole number of
milliseconds. -/
structure Template.Exact (t : Template) : Prop where
  countable : Countable t.stacks
  whole : ∃ w : ℤ, 0 ≤ w ∧ w ≤ Date.maxTime ∧ t.rechargeMs = .ofInt w

section

variable {templates : List Template} {t : Template} {uses : List ChargeUse} {characterId : String}
variable {now now' : ℤ} {s : Today}

/-! ### The window -/

/-- A use that is active later is active now. -/
theorem isActive_of_later (h : t.Exact) (h₀ : 0 ≤ now) (hle : now ≤ now')
    (hmax : now' ≤ Date.maxTime) {a : ℤ}
    (ha : Number.le (t.windowStart now') (.ofInt a) = true) :
    Number.le (t.windowStart now) (.ofInt a) = true := by
  obtain ⟨w, hw₀, hw, hms⟩ := h.whole
  have hstart : ∀ n : ℤ, 0 ≤ n → n ≤ Date.maxTime → t.windowStart n = .ofInt (n - w) := by
    intro n hn hn'
    rw [Template.windowStart, hms]
    apply Number.sub_ofInt
    unfold Date.maxTime at hn' hw
    rw [abs_le]
    omega
  rw [hstart now' (h₀.trans hle) hmax, Number.ofInt, Number.ofInt, Number.le_fin_iff] at ha
  rw [hstart now h₀ (hle.trans hmax), Number.ofInt, Number.ofInt, Number.le_fin_iff]
  have hcast : ((now - w : ℤ) : ℚ) ≤ ((now' - w : ℤ) : ℚ) := by
    exact_mod_cast Int.sub_le_sub_right hle w
  exact hcast.trans ha

/-- Uses only run out. -/
theorem length_active_later (h : t.Exact) (h₀ : 0 ≤ now) (hle : now ≤ now')
    (hmax : now' ≤ Date.maxTime) :
    (t.active uses characterId now').length ≤ (t.active uses characterId now).length := by
  apply List.Sublist.length_le
  exact List.monotone_filter_right _ fun u hu => isActive_of_later h h₀ hle hmax hu

/-- The query is a use of this charge. -/
def ChargeQuery.adds (characterId templateId : String) : ChargeQuery → Bool
  | .add characterId' templateId' _ => characterId' == characterId && templateId' == templateId
  | _ => false

/-- A use counts at most once, and nothing else counts. -/
theorem length_active_serve (uses : ChargeUses) (q : ChargeQuery) :
    (t.active (q.serve uses).2.rows characterId now).length ≤
      (t.active uses.rows characterId now).length + if q.adds characterId t.id then 1 else 0 := by
  cases q with
  | add characterId' templateId usedAt =>
      show (t.active (uses.rows ++ [_]) characterId now).length ≤ _
      rw [Template.active, usesOf, List.filter_append, List.filter_append, List.length_append]
      apply Nat.add_le_add_left
      rw [List.filter_singleton, cond_eq_ite]
      show (List.filter _ (if (characterId' == characterId && templateId == t.id) = true then _
        else _)).length ≤ if (characterId' == characterId && templateId == t.id) = true then 1 else 0
      split
      · exact (List.filter_sublist).length_le
      · exact le_rfl
  | delete _ _ => exact ((List.filter_sublist.filter _).filter _).length_le
  | latest _ _ => exact le_rfl
  | write _ => exact le_rfl
  | status _ => exact le_rfl
  | chargeUses _ _ => exact le_rfl

/-! ### What is under way -/

/-- A query or a reply that is under way, and whether a reload comes of it
whatever is stored. -/
structure Flight where
  visit : ℕ
  characterId : String
  refreshes : Bool

def ChargeRequest.flight (r : ChargeRequest) : Flight :=
  match r.query with
  | .add characterId _ _ => ⟨r.visit, characterId, true⟩
  | .latest characterId _ => ⟨r.visit, characterId, false⟩
  | .delete characterId _ => ⟨r.visit, characterId, true⟩
  | .write characterId => ⟨r.visit, characterId, true⟩
  | .status characterId => ⟨r.visit, characterId, true⟩
  | .chargeUses characterId _ => ⟨r.visit, characterId, true⟩

def ChargeAnswer.flight (a : ChargeAnswer) : Flight :=
  match a.reply with
  | .written characterId => ⟨a.visit, characterId, true⟩
  | .latest characterId _ => ⟨a.visit, characterId, false⟩
  | .status characterId => ⟨a.visit, characterId, true⟩
  | .chargeUses characterId _ _ => ⟨a.visit, characterId, true⟩

def Today.flights (s : Today) : List Flight := s.requests.map (·.flight) ++ s.answers.map (·.flight)

theorem flight_serve (uses : ChargeUses) (r : ChargeRequest) :
    ChargeAnswer.flight ⟨r.visit, (r.query.serve uses).1⟩ = r.flight := by
  obtain ⟨visit, query⟩ := r
  cases query <;> rfl

theorem mem_flights_ask {visit : ℕ} {q : ChargeQuery} {f : Flight} :
    f ∈ (s.ask visit q).flights ↔ f ∈ s.flights ∨ f = ChargeRequest.flight ⟨visit, q⟩ := by
  simp only [Today.flights, Today.ask, List.map_append, List.map_cons, List.map_nil, List.mem_append,
    List.mem_singleton]
  tauto

theorem flights_of_idle (h : s.Idle) : s.flights = [] := by
  rw [Today.flights, h.1, h.2]
  rfl

/-! ### What the page has counted -/

/-- The uses that count, with those in flight. -/
def Today.spent (s : Today) (characterId : String) (t : Template) (now : ℤ) : ℕ :=
  (t.active s.chargeUses.rows characterId now).length +
    s.requests.countP (·.query.adds characterId t.id)

def Today.Limited (templates : List Template) (now : ℤ) (s : Today) : Prop :=
  ∀ characterId, ∀ t ∈ templates, t.isCharge = true → ∀ m, t.stacks = .fin m →
    (s.spent characterId t now : ℚ) < m + 1

/-- What is shown was counted from no fewer uses than count now. -/
def Today.Sound (templates : List Template) (now : ℤ) (s : Today) : Prop :=
  ∀ characterId, nonEmpty s.selectedCharacterId = some characterId → ∀ t ∈ templates,
    t.isCharge = true → ∀ info, s.info t.id = some info →
      ∃ d, s.spent characterId t now ≤ d ∧ info.available = availableStacks t.stacks d

/-- No reload is under way for the page that is open. -/
def Today.Quiet (s : Today) : Prop := ∀ f ∈ s.flights, f.visit = s.visit → f.refreshes = false

/-- What is under way: uses are sent when nothing else is, so the uses that were
read are still no fewer than those that count. -/
structure Orderly (templates : List Template) (now : ℤ) (s : Today) : Prop where
  own : ∀ f ∈ s.flights, f.visit ≤ s.visit ∧
    (f.visit = s.visit → nonEmpty s.selectedCharacterId = some f.characterId)
  adds : s.requests.Pairwise fun _ r => ∀ c id, r.query.adds c id = false
  times : ∀ r ∈ s.requests, ∀ c n, r.query = .chargeUses c n → 0 ≤ n ∧ n ≤ now
  counts : ∀ a ∈ s.answers, ∀ c n uses, a.reply = .chargeUses c n uses → ∀ t ∈ templates,
    t.isCharge = true → s.spent c t now ≤ (t.active uses c n).length
  limited : s.Limited templates now

/-- What holds in every state: with no reload to come, the page is sound. -/
structure Counted (templates : List Template) (now : ℤ) (s : Today) : Prop
    extends Orderly templates now s where
  sound : s.Quiet → s.Sound templates now

theorem Today.Limited.of_le {s' : Today} (h : s.Limited templates now)
    (hle : ∀ c, ∀ t ∈ templates, t.isCharge = true → s'.spent c t now' ≤ s.spent c t now) :
    s'.Limited templates now' := by
  intro c t ht hcharge m hm
  have hcast : (s'.spent c t now' : ℚ) ≤ s.spent c t now := by exact_mod_cast hle c t ht hcharge
  exact hcast.trans_lt (h c t ht hcharge m hm)

theorem Today.Sound.of_le {s' : Today} (h : s.Sound templates now)
    (hselected : s'.selectedCharacterId = s.selectedCharacterId)
    (hinfo : s'.chargeInfo = s.chargeInfo)
    (hle : ∀ c, ∀ t ∈ templates, t.isCharge = true → s'.spent c t now' ≤ s.spent c t now) :
    s'.Sound templates now' := by
  intro c hc t ht hcharge info hshown
  rw [hselected] at hc
  rw [Today.info, hinfo] at hshown
  obtain ⟨d, hd, havailable⟩ := h c hc t ht hcharge info hshown
  exact ⟨d, (hle c t ht hcharge).trans hd, havailable⟩

theorem sound_of_nothing (h : s.chargeInfo = []) : s.Sound templates now := by
  intro c _ t _ _ info hinfo
  rw [Today.info, h] at hinfo
  cases hinfo

theorem spent_later (hexact : t.Exact) (h₀ : 0 ≤ now) (hle : now ≤ now') (hmax : now' ≤ Date.maxTime) :
    s.spent characterId t now' ≤ s.spent characterId t now :=
  Nat.add_le_add_right (length_active_later hexact h₀ hle hmax) _

theorem spent_ask (visit : ℕ) (q : ChargeQuery) : (s.ask visit q).spent characterId t now =
    s.spent characterId t now + if q.adds characterId t.id then 1 else 0 := by
  rw [Today.spent, Today.spent, Today.ask, List.countP_append, List.countP_singleton, Nat.add_assoc]

theorem spent_ask_other {visit : ℕ} {q : ChargeQuery} (hq : ∀ c id, q.adds c id = false) :
    (s.ask visit q).spent characterId t now = s.spent characterId t now := by
  rw [spent_ask, hq, if_neg Bool.false_ne_true, Nat.add_zero]

theorem Counted.later (h : Counted templates now s)
    (hexact : ∀ t ∈ templates, t.isCharge = true → t.Exact) (h₀ : 0 ≤ now) (hle : now ≤ now')
    (hmax : now' ≤ Date.maxTime) : Counted templates now' s where
  own := h.own
  adds := h.adds
  times := fun r hr c n hq => ⟨(h.times r hr c n hq).1, (h.times r hr c n hq).2.trans hle⟩
  counts := fun a ha c n uses hreply t ht hcharge =>
    (spent_later (hexact t ht hcharge) h₀ hle hmax).trans (h.counts a ha c n uses hreply t ht hcharge)
  limited := h.limited.of_le fun _ t ht hcharge => spent_later (hexact t ht hcharge) h₀ hle hmax
  sound := fun hquiet => (h.sound hquiet).of_le rfl rfl fun _ t ht hcharge =>
    spent_later (hexact t ht hcharge) h₀ hle hmax

/-- A query that is no use. -/
theorem Orderly.ask (h : Orderly templates now s) {visit : ℕ} {q : ChargeQuery}
    (hq : ∀ c id, q.adds c id = false)
    (hown : visit ≤ s.visit ∧ (visit = s.visit →
      nonEmpty s.selectedCharacterId = some (ChargeRequest.flight ⟨visit, q⟩).characterId))
    (htime : ∀ c n, q = .chargeUses c n → 0 ≤ n ∧ n ≤ now) :
    Orderly templates now (s.ask visit q) where
  own := by
    intro f hf
    rcases mem_flights_ask.mp hf with hf | rfl
    · exact h.own f hf
    · have hvisit : (ChargeRequest.flight ⟨visit, q⟩).visit = visit := by cases q <;> rfl
      rw [hvisit]
      exact hown
  adds := by
    apply List.pairwise_append.mpr
    refine ⟨h.adds, List.pairwise_singleton _ _, fun _ _ r hr => ?_⟩
    obtain rfl := List.mem_singleton.mp hr
    exact hq
  times := by
    intro r hr
    rcases List.mem_append.mp hr with hr | hr
    · exact h.times r hr
    · obtain rfl := List.mem_singleton.mp hr
      exact htime
  counts := by
    intro a ha c n uses hreply t ht hcharge
    rw [spent_ask_other hq]
    exact h.counts a ha c n uses hreply t ht hcharge
  limited := h.limited.of_le fun _ _ _ _ => (spent_ask_other hq).le

theorem quiet_of_ask {visit : ℕ} {q : ChargeQuery} (h : (s.ask visit q).Quiet) : s.Quiet :=
  fun f hf => h f (mem_flights_ask.mpr (.inl hf))

/-- Nothing is said of the page while a reload is to come. -/
theorem not_quiet_ask {q : ChargeQuery}
    (hq : (ChargeRequest.flight ⟨s.visit, q⟩).refreshes = true) : ¬ (s.ask s.visit q).Quiet := by
  intro h
  have hvisit : (ChargeRequest.flight ⟨s.visit, q⟩).visit = s.visit := by cases q <;> rfl
  have hfalse := h _ (mem_flights_ask.mpr (.inr rfl)) hvisit
  rw [hq] at hfalse
  cases hfalse

/-- A query from which a reload comes, from the open page or another. -/
theorem Orderly.askRefresh (h : Orderly templates now s) {visit : ℕ} {q : ChargeQuery}
    (hq : ∀ c id, q.adds c id = false) (hrefreshes : (ChargeRequest.flight ⟨visit, q⟩).refreshes = true)
    (hown : visit ≤ s.visit ∧ (visit = s.visit →
      nonEmpty s.selectedCharacterId = some (ChargeRequest.flight ⟨visit, q⟩).characterId))
    (htime : ∀ c n, q = .chargeUses c n → 0 ≤ n ∧ n ≤ now)
    (hsound : visit ≠ s.visit → s.Quiet → s.Sound templates now) :
    Counted templates now (s.ask visit q) where
  toOrderly := h.ask hq hown htime
  sound := by
    intro hquiet
    by_cases hvisit : visit = s.visit
    · subst hvisit
      exact absurd hquiet (not_quiet_ask hrefreshes)
    · exact (hsound hvisit (quiet_of_ask hquiet)).of_le rfl rfl fun _ _ _ _ => (spent_ask_other hq).le

/-- The open page reloads. -/
theorem Orderly.reload (h : Orderly templates now s) : Counted templates now s.reload := by
  rw [Today.reload]
  split
  · exact ⟨⟨h.own, h.adds, h.times, h.counts, h.limited⟩, fun _ => sound_of_nothing rfl⟩
  · rename_i characterId hselected
    exact h.askRefresh (fun _ _ => rfl) rfl ⟨le_rfl, fun _ => hselected⟩ (fun _ _ hq => by cases hq)
      fun hvisit => absurd rfl hvisit

/-- Stacks are left only if fewer uses were counted than there are stacks. -/
theorem lt_of_available (h : t.Exact) {d : ℕ} {m : ℚ} (hm : t.stacks = .fin m)
    (hleft : ¬ Number.le (availableStacks t.stacks d) 0 = true) : (d : ℚ) < m := by
  rw [availableStacks_eq h.countable, hm] at hleft
  change ¬ Number.le (.fin (max 0 (m - d))) (.fin 0) = true at hleft
  rw [Number.le_fin_iff] at hleft
  by_contra hge
  exact hleft (max_le le_rfl (by linarith))

theorem info_reload (hids : (templates.map (·.id)).Nodup) (ht : t ∈ templates)
    (hcharge : t.isCharge = true) {f : Template → ChargeInfo} :
    (((templates.filter (·.isCharge)).map fun t => (t.id, f t)).find? fun p => p.1 == t.id).map
      (·.2) = some (f t) := by
  have hmem : t ∈ templates.filter (·.isCharge) := List.mem_filter.mpr ⟨ht, hcharge⟩
  rw [List.find?_map]
  cases hfind : (templates.filter (·.isCharge)).find?
      ((fun p : String × ChargeInfo => p.1 == t.id) ∘ fun t => (t.id, f t)) with
  | none => exact absurd (beq_self_eq_true t.id) (List.find?_eq_none.mp hfind t hmem)
  | some t' =>
      have hid := List.find?_some hfind
      have hmem' := (List.mem_filter.mp (List.mem_of_find?_eq_some hfind)).1
      obtain rfl : t' = t := List.inj_on_of_nodup_map hids hmem' ht (eq_of_beq hid)
      rfl

/-- A use is sent when nothing is under way. -/
theorem Counted.useCharge (h : Counted templates now s)
    (hexact : ∀ t ∈ templates, t.isCharge = true → t.Exact) (hids : (templates.map (·.id)).Nodup)
    (ht : t ∈ templates) (hcharge : t.isCharge = true) (hidle : s.Idle) :
    Counted templates now (ChargeEvent.run templates now s (.useCharge t)) := by
  rw [ChargeEvent.run]
  split
  · exact h
  · rename_i characterId hselected
    split
    · exact h
    · rename_i info hinfo
      split
      · exact h
      · rename_i hleft
        have hsound := h.sound (by
          rw [Today.Quiet, flights_of_idle hidle]
          exact fun _ hf => absurd hf List.not_mem_nil)
        obtain ⟨d, hd, havailable⟩ := hsound characterId hselected t ht hcharge info hinfo
        rw [havailable] at hleft
        refine ⟨⟨?_, ?_, ?_, ?_, ?_⟩, fun hquiet => absurd hquiet (not_quiet_ask rfl)⟩
        · intro f hf
          rcases mem_flights_ask.mp hf with hf | rfl
          · exact h.own f hf
          · exact ⟨le_rfl, fun _ => hselected⟩
        · show (s.requests ++ [_]).Pairwise _
          rw [hidle.1]
          exact List.pairwise_singleton _ _
        · intro r hr
          rcases List.mem_append.mp hr with hr | hr
          · exact h.times r hr
          · obtain rfl := List.mem_singleton.mp hr
            exact fun _ _ hq => by cases hq
        · intro a ha
          change a ∈ s.answers at ha
          rw [hidle.2] at ha
          cases ha
        · intro c t' ht' hcharge' m hm
          rw [spent_ask]
          split
          · -- the charge that is used: templates differ in their ids
            rename_i hadds
            obtain ⟨hc, hid⟩ := Bool.and_eq_true_iff.mp hadds
            obtain rfl : characterId = c := eq_of_beq hc
            obtain rfl : t = t' := List.inj_on_of_nodup_map hids ht ht' (eq_of_beq hid)
            have hlt := lt_of_available (hexact t ht hcharge) hm hleft
            have hcast : (s.spent characterId t now : ℚ) ≤ d := by exact_mod_cast hd
            push_cast
            linarith
          · exact h.limited c t' ht' hcharge' m hm

theorem serve_eq_chargeUses {q : ChargeQuery} {uses : ChargeUses} {n : ℤ} {rows : List ChargeUse}
    (h : (q.serve uses).1 = .chargeUses characterId n rows) :
    q = .chargeUses characterId n ∧ rows = uses.rows := by
  cases q <;> cases h
  exact ⟨rfl, rfl⟩

/-- The database handles the oldest query. -/
theorem Counted.served (h : Counted templates now s)
    (hexact : ∀ t ∈ templates, t.isCharge = true → t.Exact) (hmax : now ≤ Date.maxTime) :
    Counted templates now (ChargeEvent.run templates now s .served) := by
  rw [ChargeEvent.run]
  split
  · exact h
  · rename_i r requests hrequests
    obtain ⟨hadds, hrest⟩ := List.pairwise_cons.mp (hrequests ▸ h.adds)
    let s' : Today :=
      { s with
        chargeUses := (r.query.serve s.chargeUses).2
        requests
        answers := s.answers ++ [⟨r.visit, (r.query.serve s.chargeUses).1⟩] }
    show Counted templates now s'
    -- the reply takes the place of the query
    have hflights : ∀ f, f ∈ s'.flights ↔ f ∈ s.flights := by
      intro f
      have hflight := flight_serve s.chargeUses r
      simp only [Today.flights, s', hrequests, List.map_append, List.map_cons, List.map_nil,
        List.mem_append, List.mem_cons, List.not_mem_nil, hflight]
      tauto
    have hspent : ∀ c t, s'.spent c t now ≤ s.spent c t now := by
      intro c t
      have hserve : (t.active (r.query.serve s.chargeUses).2.rows c now).length ≤ _ :=
        length_active_serve s.chargeUses r.query
      rw [Today.spent, Today.spent, hrequests, List.countP_cons]
      show (t.active (r.query.serve s.chargeUses).2.rows c now).length + requests.countP _ ≤ _
      omega
    refine ⟨⟨?_, hrest, ?_, ?_, h.limited.of_le fun c t _ _ => hspent c t⟩, ?_⟩
    · exact fun f hf => h.own f ((hflights f).mp hf)
    · exact fun r hr => h.times r (hrequests ▸ List.mem_cons_of_mem _ hr)
    · intro a ha c n uses hreply t ht hcharge
      rcases List.mem_append.mp ha with ha | ha
      · exact (hspent c t).trans (h.counts a ha c n uses hreply t ht hcharge)
      · obtain rfl := List.mem_singleton.mp ha
        obtain ⟨hquery, rfl⟩ := serve_eq_chargeUses hreply
        -- no use is waiting behind a read
        have hnone : requests.countP (·.query.adds c t.id) = 0 :=
          List.countP_eq_zero.mpr fun r hr => by rw [hadds r hr]; exact Bool.false_ne_true
        have htime := h.times r (hrequests ▸ List.mem_cons_self) c n hquery
        show (t.active (r.query.serve s.chargeUses).2.rows c now).length +
          requests.countP (·.query.adds c t.id) ≤ _
        rw [hnone, hquery]
        exact length_active_later (hexact t ht hcharge) htime.1 htime.2 hmax
    · intro hquiet
      have hsound := h.sound fun f hf => hquiet f ((hflights f).mpr hf)
      exact hsound.of_le rfl rfl fun c t _ _ => hspent c t

/-- The page gets the oldest reply. -/
theorem Counted.answered (h : Counted templates now s) (hids : (templates.map (·.id)).Nodup)
    (h₀ : 0 ≤ now) : Counted templates now (ChargeEvent.run templates now s .answered) := by
  rw [ChargeEvent.run]
  split
  · exact h
  · rename_i a answers hanswers
    let s' : Today := { s with answers }
    show Counted templates now (Today.answer templates now s' a)
    have hflights : ∀ f, f ∈ s.flights ↔ f ∈ s'.flights ∨ f = a.flight := by
      intro f
      simp only [Today.flights, s', hanswers, List.map_cons, List.mem_append, List.mem_cons]
      tauto
    have horderly : Orderly templates now s' :=
      ⟨fun f hf => h.own f ((hflights f).mpr (.inl hf)), h.adds, h.times,
        fun a ha => h.counts a (hanswers ▸ List.mem_cons_of_mem _ ha), h.limited⟩
    have hown := h.own a.flight ((hflights _).mpr (.inr rfl))
    have hcounts := h.counts a (hanswers ▸ List.mem_cons_self)
    -- the page is as it was, unless a reload of its own was to come of the reply
    have hsound : (a.flight.visit = s.visit → a.flight.refreshes = false) → s'.Quiet →
        s'.Sound templates now := by
      intro hother hquiet
      have hold : s.Quiet := by
        intro f hf
        rcases (hflights f).mp hf with hf | rfl
        · exact hquiet f hf
        · exact hother
      exact (h.sound hold).of_le rfl rfl fun _ _ _ _ => le_rfl
    obtain ⟨visit, reply⟩ := a
    have hleft : visit ≠ s'.visit → s'.Quiet → s'.Sound templates now := by
      intro hvisit
      apply hsound
      intro heq
      exact absurd (by cases reply <;> exact heq) hvisit
    cases reply with
    | written characterId =>
        exact horderly.askRefresh (fun _ _ => rfl) rfl hown (fun _ _ hq => by cases hq) hleft
    | latest characterId latest =>
        cases latest with
        | none => exact ⟨horderly, hsound fun _ => rfl⟩
        | some latest =>
            rw [Today.answer]
            dsimp only
            split
            · exact ⟨horderly, hsound fun _ => rfl⟩
            · exact horderly.askRefresh (fun _ _ => rfl) rfl hown (fun _ _ hq => by cases hq) hleft
    | status characterId =>
        refine horderly.askRefresh (fun _ _ => rfl) rfl hown ?_ hleft
        intro c n hq
        cases hq
        exact ⟨h₀, le_rfl⟩
    | chargeUses characterId start uses =>
        rw [Today.answer]
        dsimp only
        split
        · rename_i hvisit
          refine ⟨⟨horderly.own, horderly.adds, horderly.times, horderly.counts, horderly.limited⟩, ?_⟩
          intro _ c hselected t ht hcharge info hinfo
          obtain rfl : characterId = c := Option.some.inj ((hown.2 hvisit).symm.trans hselected)
          have hshown := info_reload (f := fun t => t.chargeInfo uses characterId start) hids ht hcharge
          obtain rfl := Option.some.inj (hshown.symm.trans hinfo)
          exact ⟨_, hcounts characterId start uses rfl t ht hcharge, rfl⟩
        · rename_i hvisit
          exact ⟨horderly, hleft hvisit⟩

/-- **Every event keeps what the page has counted.** -/
theorem Counted.event (h : Counted templates now s)
    (hexact : ∀ t ∈ templates, t.isCharge = true → t.Exact) (hids : (templates.map (·.id)).Nodup)
    (h₀ : 0 ≤ now) (hmax : now ≤ Date.maxTime) {e : ChargeEvent} (hpatient : e.Patient templates s) :
    Counted templates now (e.run templates now s) := by
  cases e with
  | opened selectedCharacterId =>
      apply Orderly.reload
      refine ⟨fun f hf => ?_, h.adds, h.times, h.counts, h.limited⟩
      -- nothing under way is of the new visit
      have hvisit := (h.own f hf).1
      exact ⟨hvisit.trans (Nat.le_succ _), fun heq => absurd (heq ▸ hvisit) (Nat.not_succ_le_self _)⟩
  | selectCharacter id =>
      have hidle : s.Idle := hpatient
      rw [ChargeEvent.run]
      split
      · exact h
      · apply Orderly.reload
        refine ⟨fun f hf => ?_, h.adds, h.times, h.counts, h.limited⟩
        change f ∈ s.flights at hf
        rw [flights_of_idle hidle] at hf
        cases hf
  | useCharge t => exact h.useCharge hexact hids hpatient.1 hpatient.2.1 hpatient.2.2
  | undoCharge t =>
      rw [ChargeEvent.run]
      split
      · exact h
      · rename_i characterId hselected
        refine ⟨h.ask (fun _ _ => rfl) ⟨le_rfl, fun _ => hselected⟩ fun _ _ hq => (by cases hq), ?_⟩
        intro hquiet
        exact (h.sound (quiet_of_ask hquiet)).of_le rfl rfl fun _ _ _ _ =>
          (spent_ask_other fun _ _ => rfl).le
  | write =>
      rw [ChargeEvent.run]
      split
      · exact h
      · rename_i characterId hselected
        exact h.askRefresh (fun _ _ => rfl) rfl ⟨le_rfl, fun _ => hselected⟩ (fun _ _ hq => by cases hq)
          fun hvisit => absurd rfl hvisit
  | reload => exact h.toOrderly.reload
  | served => exact h.served hexact hmax
  | answered => exact h.answered hids h₀

/-! ### The limit -/

theorem counted_of_run (h : ChargeRun templates now s)
    (hexact : ∀ t ∈ templates, t.isCharge = true → t.Exact) (hids : (templates.map (·.id)).Nodup) :
    0 ≤ now ∧ Counted templates now s := by
  induction h with
  | start h₀ _ =>
      refine ⟨h₀, ⟨fun _ hf => absurd hf List.not_mem_nil, List.Pairwise.nil,
        fun _ hr => absurd hr List.not_mem_nil, fun _ ha => absurd ha List.not_mem_nil, ?_⟩,
        fun _ => sound_of_nothing rfl⟩
      intro c t ht hcharge m hm
      have hcount := (hexact t ht hcharge).countable
      rw [hm] at hcount
      have hone : (1 : ℚ) ≤ m := hcount.2.1
      show ((0 : ℕ) : ℚ) < m + 1
      push_cast
      linarith
  | event _ hle hmax hpatient ih =>
      obtain ⟨h₀, hcounted⟩ := ih
      have h₁ := h₀.trans hle
      exact ⟨h₁, (hcounted.later hexact h₀ hle hmax).event hexact hids h₁ hmax hpatient⟩

/-- **A patient user keeps to the limit**: at no time do more uses of a charge
count than it has stacks, rounded up, whatever is undone and reloaded meanwhile. -/
theorem limit_of_run (h : ChargeRun templates now s)
    (hexact : ∀ t ∈ templates, t.isCharge = true → t.Exact) (hids : (templates.map (·.id)).Nodup)
    (hle : now ≤ now') (hmax : now' ≤ Date.maxTime) (characterId : String) (ht : t ∈ templates)
    (hcharge : t.isCharge = true) {m : ℚ} (hm : t.stacks = .fin m) :
    ((t.active s.chargeUses.rows characterId now').length : ℚ) < m + 1 := by
  obtain ⟨h₀, hcounted⟩ := counted_of_run h hexact hids
  have hlimited := (hcounted.later hexact h₀ hle hmax).limited characterId t ht hcharge m hm
  have hcast : ((t.active s.chargeUses.rows characterId now').length : ℚ) ≤ s.spent characterId t now' := by
    exact_mod_cast Nat.le_add_right _ _
  exact hcast.trans_lt hlimited

end

/-! ### A charge that is used up -/

def dailyBoss : Template := ⟨"boss", .charge, true, some 1, some 24⟩

def afterCharges (events : List ChargeEvent) : Today :=
  events.foldl (fun s e => e.run [dailyBoss] 0 s) ⟨⟨[], 1⟩, 0, none, [], [], []⟩

/-- A query and its reply. -/
def handled : List ChargeEvent := [.served, .answered]

-- without patience a second click passes before the first use is counted
example : (dailyBoss.active (afterCharges (.opened (some "k") :: handled ++ handled ++
    [.useCharge dailyBoss, .useCharge dailyBoss, .served, .served])).chargeUses.rows "k" 0).length = 2 := by
  decide +kernel

-- two quick clicks on `Undo` find the same use
example : (afterCharges (.opened (some "k") :: handled ++ handled ++
    [.useCharge dailyBoss, .useCharge dailyBoss, .served, .served, .undoCharge dailyBoss,
      .undoCharge dailyBoss] ++ handled ++ handled ++ handled ++ handled ++ handled ++
    handled)).chargeUses.rows.length = 1 := by decide +kernel

theorem exact_dailyBoss : dailyBoss.Exact where
  countable := by
    have hstacks : dailyBoss.stacks = Number.ofInt 1 := by decide +kernel
    rw [hstacks]
    exact ⟨isDouble_intCast (by norm_num), by norm_num, by norm_num⟩
  whole := ⟨86400000, by decide, by decide, by decide +kernel⟩

theorem chargeRun_concat {events : List ChargeEvent} {e : ChargeEvent}
    (h : ChargeRun [dailyBoss] 0 (afterCharges events))
    (hpatient : e.Patient [dailyBoss] (afterCharges events)) :
    ChargeRun [dailyBoss] 0 (afterCharges (events ++ [e])) := by
  rw [afterCharges, List.foldl_append]
  exact h.event le_rfl (by decide) hpatient

theorem chargeRun_handled {events : List ChargeEvent}
    (h : ChargeRun [dailyBoss] 0 (afterCharges events)) :
    ChargeRun [dailyBoss] 0 (afterCharges (events ++ handled)) := by
  have hserved := chargeRun_concat (e := .served) h trivial
  have hanswered := chargeRun_concat (e := .answered) hserved trivial
  rw [List.append_assoc] at hanswered
  exact hanswered

/-- The page is left and opened again while the use is under way, and the second
click comes when it has been counted. -/
def usedUp : List ChargeEvent :=
  [.opened (some "k")] ++ handled ++ handled ++ [.useCharge dailyBoss] ++ [.opened (some "k")] ++
    handled ++ handled ++ handled ++ handled ++ handled ++ [.useCharge dailyBoss]

theorem chargeRun_usedUp : ChargeRun [dailyBoss] 0 (afterCharges usedUp) := by
  have hidle : ∀ {s : Today}, (s.requests.isEmpty && s.answers.isEmpty) = true → s.Idle := by
    intro s h
    obtain ⟨hrequests, hanswers⟩ := Bool.and_eq_true_iff.mp h
    exact ⟨List.isEmpty_iff.mp hrequests, List.isEmpty_iff.mp hanswers⟩
  have hstart : ChargeRun [dailyBoss] 0 (afterCharges []) := .start le_rfl (by decide)
  have hopened := chargeRun_concat (e := .opened (some "k")) hstart trivial
  have hloaded := chargeRun_handled (chargeRun_handled hopened)
  have hused := chargeRun_concat (e := .useCharge dailyBoss) hloaded
    ⟨List.mem_cons_self, by decide, hidle (by decide +kernel)⟩
  have hagain := chargeRun_concat (e := .opened (some "k")) hused trivial
  have hcounted := chargeRun_handled (chargeRun_handled (chargeRun_handled (chargeRun_handled
    (chargeRun_handled hagain))))
  exact chargeRun_concat (e := .useCharge dailyBoss) hcounted
    ⟨List.mem_cons_self, by decide, hidle (by decide +kernel)⟩

theorem limit_of_run_usedUp :
    ((dailyBoss.active (afterCharges usedUp).chargeUses.rows "k" 1000).length : ℚ) < 1 + 1 :=
  limit_of_run chargeRun_usedUp
    (fun t ht _ => List.mem_singleton.mp ht ▸ exact_dailyBoss) (List.nodup_singleton _)
    (by decide) (by decide) "k" List.mem_cons_self (by decide) (by decide +kernel)

end Hub.Web
