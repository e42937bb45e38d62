import EventMachines.Engine.Basic
import EventMachines.Machine.View

/-!
Machines that run side by side in a larger one. A part knows its own commands and events, decides
its own commands by its own state, and is led on by its own events only. The two halves of a
combined decider are parts of it.

* `foldlM_sides`, `foldlM_sides_from`: a fold over tagged items is two folds, each over its own
  items;
* `Decider.combine_replay`, `View.combine_newState`: so is the state of combined deciders and views;
* `Part.attempt_own`, `Part.attempt_foreign`: what a part decides in the larger decider is what it
  decides alone, and other commands decide nothing of its own;
* `Decider.leftHalf`, `Decider.rightHalf`: the two halves.
-/

namespace EventMachines

variable {C C' S S' E E' I I' R W T F : Type}

/-! ## Folds over tagged items -/

theorem pair_eq_ok {x : Checked S} {y : Checked S'} {t : S × S'} :
    (do return (← x, ← y)) = Except.ok t ↔ x = .ok t.1 ∧ y = .ok t.2 := by
  cases x with
  | error fault => simp [bind, Except.bind]
  | ok s =>
    cases y with
    | error fault => simp [bind, Except.bind]
    | ok s' => simp [bind, Except.bind, pure, Except.pure, Prod.ext_iff]

theorem foldlM_sides {f : S → E → Checked S} {f' : S' → E' → Checked S'}
    {step : S × S' → E ⊕ E' → Checked (S × S')}
    (hleft : ∀ s e, step s (.inl e) = do return (← f s.1 e, s.2))
    (hright : ∀ s e, step s (.inr e) = do return (s.1, ← f' s.2 e)) (s t : S × S')
    (items : List (E ⊕ E')) :
    items.foldlM step s = .ok t ↔
      (items.filterMap Sum.getLeft?).foldlM f s.1 = .ok t.1 ∧
      (items.filterMap Sum.getRight?).foldlM f' s.2 = .ok t.2 := by
  induction items generalizing s with
  | nil => simp [pure, Except.pure, Prod.ext_iff]
  | cons item items ih =>
    cases item with
    | inl e =>
      have hown : (Sum.inl e :: items).filterMap Sum.getLeft? =
          e :: items.filterMap Sum.getLeft? := rfl
      have hother : (Sum.inl e :: items).filterMap Sum.getRight? =
          items.filterMap Sum.getRight? := rfl
      rw [hown, hother, List.foldlM_cons, List.foldlM_cons, hleft]
      cases f s.1 e with
      | error fault => simp [bind, Except.bind]
      | ok next => exact ih (next, s.2)
    | inr e =>
      have hown : (Sum.inr e :: items).filterMap Sum.getRight? =
          e :: items.filterMap Sum.getRight? := rfl
      have hother : (Sum.inr e :: items).filterMap Sum.getLeft? =
          items.filterMap Sum.getLeft? := rfl
      rw [hown, hother, List.foldlM_cons, List.foldlM_cons, hright]
      cases f' s.2 e with
      | error fault => simp [bind, Except.bind]
      | ok next => exact ih (s.1, next)

/-- A fold over tagged items from two first states. -/
theorem foldlM_sides_from {f : S → E → Checked S} {f' : S' → E' → Checked S'}
    {step : S × S' → E ⊕ E' → Checked (S × S')}
    (hleft : ∀ s e, step s (.inl e) = do return (← f s.1 e, s.2))
    (hright : ∀ s e, step s (.inr e) = do return (s.1, ← f' s.2 e)) (first : Checked S)
    (first' : Checked S') (t : S × S') (items : List (E ⊕ E')) :
    (do items.foldlM step (← (do return (← first, ← first')))) = .ok t ↔
      (do (items.filterMap Sum.getLeft?).foldlM f (← first)) = .ok t.1 ∧
      (do (items.filterMap Sum.getRight?).foldlM f' (← first')) = .ok t.2 := by
  rw [Checked.bind_eq_ok, Checked.bind_eq_ok, Checked.bind_eq_ok]
  simp only [foldlM_sides hleft hright]
  constructor
  · rintro ⟨s, hs, hl, hr⟩
    obtain ⟨hfirst, hfirst'⟩ := pair_eq_ok.mp hs
    exact ⟨⟨s.1, hfirst, hl⟩, ⟨s.2, hfirst', hr⟩⟩
  · rintro ⟨⟨s, hs, hl⟩, ⟨s', hs', hr⟩⟩
    exact ⟨(s, s'), pair_eq_ok.mpr ⟨hs, hs'⟩, hl, hr⟩

theorem Decider.combine_evolveAll (left : Decider C S E R) (right : Decider C' S' E' R)
    (s t : S × S') (events : List (E ⊕ E')) :
    (left.combine right).evolveAll s events = .ok t ↔
      left.evolveAll s.1 (events.filterMap Sum.getLeft?) = .ok t.1 ∧
      right.evolveAll s.2 (events.filterMap Sum.getRight?) = .ok t.2 :=
  foldlM_sides (fun _ _ => rfl) (fun _ _ => rfl) s t events

/-- What a tagged history leads to. -/
theorem Decider.combine_replay (left : Decider C S E R) (right : Decider C' S' E' R) (t : S × S')
    (history : List (E ⊕ E')) :
    (left.combine right).replay history = .ok t ↔
      left.replay (history.filterMap Sum.getLeft?) = .ok t.1 ∧
      right.replay (history.filterMap Sum.getRight?) = .ok t.2 :=
  foldlM_sides_from (fun _ _ => rfl) (fun _ _ => rfl) left.initial right.initial t history

/-- What tagged events make of a stored state, or of the initial one. -/
theorem View.combine_newState (left : View S E) (right : View S' E') (stored : Option (S × S'))
    (t : S × S') (events : List (E ⊕ E')) :
    (left.combine right).newState stored events = .ok t ↔
      left.newState (stored.map Prod.fst) (events.filterMap Sum.getLeft?) = .ok t.1 ∧
      right.newState (stored.map Prod.snd) (events.filterMap Sum.getRight?) = .ok t.2 := by
  cases stored with
  | some s => exact foldlM_sides (fun _ _ => rfl) (fun _ _ => rfl) s t events
  | none =>
    exact foldlM_sides_from (fun _ _ => rfl) (fun _ _ => rfl) left.initial right.initial t events

/-! ## Parts -/

/-- The same failure for another input. -/
def Failure.mapInput (f : I → I') : Failure I R → Failure I' R
  | fetchFailed i error => fetchFailed (f i) error
  | rejected i reason => rejected (f i) reason
  | storeFailed i error => storeFailed (f i) error
  | terminal i => terminal (f i)
  | publishingFailed i cause => publishingFailed (i.map f) cause
  | depthExceeded i depth => depthExceeded (f i) depth

/-- How a decider runs inside a larger one. -/
structure Decider.Part (part : Decider C S E R) (whole : Decider W T F R) where
  command : C → W
  command? : W → Option C
  event : E → F
  event? : F → Option E
  state : T → S
  eq_command : ∀ {w c}, command? w = some c → w = command c
  event?_event : ∀ e, event? (event e) = some e
  decide : ∀ c t, whole.decide (command c) t = (·.map (·.map event)) <$> part.decide c (state t)
  isTerminal : ∀ c t, whole.isTerminal (command c) t = part.isTerminal c (state t)
  foreign : ∀ {w t events}, command? w = none → whole.decide w t = .ok (.ok events) →
    events.filterMap event? = []
  initial : ∀ {t}, whole.initial = .ok t → part.initial = .ok (state t)
  evolveAll : ∀ {t t' events}, whole.evolveAll t events = .ok t' →
    part.evolveAll (state t) (events.filterMap event?) = .ok (state t')

namespace Decider.Part

variable {part : Decider C S E R} {whole : Decider W T F R} (π : part.Part whole)

/-- What the part decided, as the larger decider tells it. -/
def told : Except (Failure C R) (List E) → Except (Failure W R) (List F)
  | .ok events => .ok (events.map π.event)
  | .error e => .error (e.mapInput π.command)

theorem filterMap_event (events : List E) : (events.map π.event).filterMap π.event? = events := by
  induction events with
  | nil => rfl
  | cons e events ih => rw [List.map_cons, List.filterMap_cons_some (π.event?_event e), ih]

theorem attempt_own (c : C) (t : T) :
    whole.attempt (π.command c) t = π.told <$> part.attempt c (π.state t) := by
  rw [Decider.attempt, Decider.attempt, π.isTerminal, π.decide]
  rcases part.isTerminal c (π.state t) with x | _ | _
  · rfl
  · rcases part.decide c (π.state t) with x | reason | events <;> rfl
  · rfl

theorem attempt_foreign {w : W} {t : T} {events : List F} (hw : π.command? w = none)
    (h : whole.attempt w t = .ok (.ok events)) : events.filterMap π.event? = [] :=
  π.foreign hw (Decider.attempt_eq_ok.mp h).2

/-- The part's own history leads to its own state. -/
theorem replay {history : List F} {t : T} (h : whole.replay history = .ok t) :
    part.replay (history.filterMap π.event?) = .ok (π.state t) := by
  obtain ⟨first, hfirst, hall⟩ := Checked.bind_eq_ok.mp h
  exact Checked.bind_eq_ok.mpr ⟨π.state first, π.initial hfirst, π.evolveAll hall⟩

end Decider.Part

/-! ## Halves -/

section

variable (d : Decider C S E R) (d' : Decider C' S' E' R)

theorem filterMap_getLeft?_inr (events : List E') :
    (events.map (Sum.inr : E' → E ⊕ E')).filterMap Sum.getLeft? = [] := by
  simp [List.filterMap_map]

theorem filterMap_getRight?_inl (events : List E) :
    (events.map (Sum.inl : E → E ⊕ E')).filterMap Sum.getRight? = [] := by
  simp [List.filterMap_map]

def Decider.leftHalf : d.Part (d.combine d') where
  command := .inl
  command? := Sum.getLeft?
  event := .inl
  event? := Sum.getLeft?
  state := Prod.fst
  eq_command := by
    rintro (c | c) _ ⟨⟩
    rfl
  event?_event _ := rfl
  decide _ _ := bind_pure_comp _ _
  isTerminal _ _ := rfl
  foreign := by
    rintro (c | c) t events hw h
    · cases hw
    · obtain ⟨decided, -, h⟩ := Checked.bind_eq_ok.mp h
      cases decided with
      | error reason => cases h
      | ok own =>
        obtain rfl := Except.ok.inj (Except.ok.inj h)
        exact filterMap_getLeft?_inr own
  initial h := (pair_eq_ok.mp h).1
  evolveAll h := ((d.combine_evolveAll d' _ _ _).mp h).1

def Decider.rightHalf : d'.Part (d.combine d') where
  command := .inr
  command? := Sum.getRight?
  event := .inr
  event? := Sum.getRight?
  state := Prod.snd
  eq_command := by
    rintro (c | c) _ ⟨⟩
    rfl
  event?_event _ := rfl
  decide _ _ := bind_pure_comp _ _
  isTerminal _ _ := rfl
  foreign := by
    rintro (c | c) t events hw h
    · obtain ⟨decided, -, h⟩ := Checked.bind_eq_ok.mp h
      cases decided with
      | error reason => cases h
      | ok own =>
        obtain rfl := Except.ok.inj (Except.ok.inj h)
        exact filterMap_getRight?_inl own
    · cases hw
  initial h := (pair_eq_ok.mp h).2
  evolveAll h := ((d.combine_evolveAll d' _ _ _).mp h).2

end

end EventMachines
