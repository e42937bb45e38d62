import EventMachines.Tagged
import EventMachines.Proofs.Machine.Relabelling

/-!
The algebra of combination. Putting machines side by side is associative once commands, events and
states are re-associated, and a machine beside the empty one is that machine, under its own half of
the names. For each kind of machine the functions are compared first; what holds of the runs follows
as it does for any relabelling.

* `Decider.combine_assoc`: three deciders, nested on either side;
* `Decider.combine_empty`, `Decider.empty_combine`: a decider beside the empty one;
* `View.combine_assoc`, `Saga.combine_assoc` and so on: the same for the other machines;
* `Saga.merge_assoc`, `Saga.merge_empty`, `Saga.empty_merge`: sagas over the same results;
* `combination_is_monoid`: all of it, run by run.
-/

namespace EventMachines

variable {C C₁ C₂ C₃ D S S₁ S₂ S₃ E E₁ E₂ E₃ F R A A₁ A₂ A₃ B : Type}

/-! ## Names -/

/-- The same three states, nested the other way. -/
def pairRight (s : (S₁ × S₂) × S₃) : S₁ × (S₂ × S₃) := (s.1.1, s.1.2, s.2)

def pairLeft (s : S₁ × (S₂ × S₃)) : (S₁ × S₂) × S₃ := ((s.1, s.2.1), s.2.2)

namespace Relabelling

def assocRight : Relabelling ((C₁ ⊕ C₂) ⊕ C₃) ((S₁ × S₂) × S₃) ((E₁ ⊕ E₂) ⊕ E₃)
    (C₁ ⊕ (C₂ ⊕ C₃)) (S₁ × (S₂ × S₃)) (E₁ ⊕ (E₂ ⊕ E₃)) :=
  ⟨Tagged.assocRight, pairRight, Tagged.assocRight⟩

def assocLeft : Relabelling (C₁ ⊕ (C₂ ⊕ C₃)) (S₁ × (S₂ × S₃)) (E₁ ⊕ (E₂ ⊕ E₃))
    ((C₁ ⊕ C₂) ⊕ C₃) ((S₁ × S₂) × S₃) ((E₁ ⊕ E₂) ⊕ E₃) :=
  ⟨Tagged.assocLeft, pairLeft, Tagged.assocLeft⟩

theorem assocRight_undone : (assocRight : Relabelling ((C₁ ⊕ C₂) ⊕ C₃) ((S₁ × S₂) × S₃)
    ((E₁ ⊕ E₂) ⊕ E₃) _ _ _).UndoneBy assocLeft :=
  ⟨Tagged.assocLeft_assocRight, fun _ => rfl, Tagged.assocLeft_assocRight⟩

theorem assocLeft_undone : (assocLeft : Relabelling (C₁ ⊕ (C₂ ⊕ C₃)) (S₁ × (S₂ × S₃))
    (E₁ ⊕ (E₂ ⊕ E₃)) _ _ _).UndoneBy assocRight :=
  ⟨Tagged.assocRight_assocLeft, fun _ => rfl, Tagged.assocRight_assocLeft⟩

/-- The names of the left half, beside a machine without a state. -/
def onLeft : Relabelling C S E (C ⊕ D) (S × Unit) (E ⊕ F) := ⟨.inl, (·, ()), .inl⟩

/-- The names of the right half, beside a machine without a state. -/
def onRight : Relabelling C S E (D ⊕ C) (Unit × S) (F ⊕ E) := ⟨.inr, ((), ·), .inr⟩

end Relabelling

theorem pair_assoc (a : Checked S₁) (b : Checked S₂) (c : Checked S₃) :
    (do return (← a, ← (do return (← b, ← c)))) =
      pairRight <$> (do return (← (do return (← a, ← b)), ← c)) := by
  rcases a with x | s₁
  · rfl
  rcases b with x | s₂
  · rfl
  rcases c with x | s₃ <;> rfl

/-! ## Views -/

namespace View

section

variable (x : View S₁ E₁) (y : View S₂ E₂) (z : View S₃ E₃)

theorem evolve_inl (s : S₁ × S₂) (e : E₁) :
    (x.combine y).evolve s (.inl e) = (·, s.2) <$> x.evolve s.1 e :=
  bind_pure_comp _ _

theorem evolve_inr (s : S₁ × S₂) (e : E₂) :
    (x.combine y).evolve s (.inr e) = (s.1, ·) <$> y.evolve s.2 e :=
  bind_pure_comp _ _

theorem combine_assoc :
    Relabelled pairRight Tagged.assocRight ((x.combine y).combine z)
      (x.combine (y.combine z)) where
  evolve s e := by
    rcases e with (e | e) | e
    · show (x.combine (y.combine z)).evolve _ (.inl e) = _
      rw [evolve_inl, evolve_inl, evolve_inl, Functor.map_map, Functor.map_map]
      rfl
    · show (x.combine (y.combine z)).evolve _ (.inr (.inl e)) = _
      rw [evolve_inr, evolve_inl, evolve_inl, evolve_inr, Functor.map_map, Functor.map_map,
        Functor.map_map]
      rfl
    · show (x.combine (y.combine z)).evolve _ (.inr (.inr e)) = _
      rw [evolve_inr, evolve_inr, evolve_inr, Functor.map_map, Functor.map_map]
      rfl
  initial := pair_assoc x.initial y.initial z.initial

end

theorem combine_empty (v : View S E) :
    Padded (·, ()) .inl Sum.getLeft? v (v.combine (empty : View Unit F)) where
  evolve s e := v.evolve_inl empty (s, ()) e
  initial := bind_pure_comp _ _
  eq_event := Sum.getLeft?_eq_some_iff.mp
  evolve_foreign := by
    rintro (e | e) t he
    · cases he
    · rfl

theorem empty_combine (v : View S E) :
    Padded ((), ·) .inr Sum.getRight? v ((empty : View Unit F).combine v) where
  evolve s e := (empty : View Unit F).evolve_inr v ((), s) e
  initial := by
    show (do return ((), ← v.initial)) = _
    exact bind_pure_comp _ _
  eq_event := Sum.getRight?_eq_some_iff.mp
  evolve_foreign := by
    rintro (e | e) t he
    · rfl
    · cases he

end View

/-! ## Deciders -/

namespace Decider

/-- A decider without its decisions. -/
def toView (d : Decider C S E R) : View S E := ⟨d.evolve, d.initial⟩

/-- What is decided, told twice over, is told at once. -/
theorem retold {f : E → E₁} {g : E₁ → E₂} (decided : Checked (Except R (List E))) :
    (·.map (·.map g)) <$> (·.map (·.map f)) <$> decided =
      (·.map (·.map (g ∘ f))) <$> decided := by
  rcases decided with x | reason | events
  · rfl
  · rfl
  · exact congrArg (Except.ok ∘ Except.ok) List.map_map

section

variable (x : Decider C₁ S₁ E₁ R) (y : Decider C₂ S₂ E₂ R) (z : Decider C₃ S₃ E₃ R)

theorem decide_inl (c : C₁) (s : S₁ × S₂) :
    (x.combine y).decide (.inl c) s = (·.map (·.map .inl)) <$> x.decide c s.1 :=
  bind_pure_comp _ _

theorem decide_inr (c : C₂) (s : S₁ × S₂) :
    (x.combine y).decide (.inr c) s = (·.map (·.map .inr)) <$> y.decide c s.2 :=
  bind_pure_comp _ _

theorem combine_assoc :
    Relabelled .assocRight ((x.combine y).combine z) (x.combine (y.combine z)) where
  decide c s := by
    rcases c with (c | c) | c
    · show (x.combine (y.combine z)).decide (.inl c) _ = _
      rw [decide_inl, decide_inl, decide_inl, retold, retold]
      rfl
    · show (x.combine (y.combine z)).decide (.inr (.inl c)) _ = _
      rw [decide_inr, decide_inl, decide_inl, decide_inr, retold, retold, retold]
      rfl
    · show (x.combine (y.combine z)).decide (.inr (.inr c)) _ = _
      rw [decide_inr, decide_inr, decide_inr, retold, retold]
      rfl
  isTerminal c s := by rcases c with (c | c) | c <;> rfl
  evolve := (View.combine_assoc x.toView y.toView z.toView).evolve
  initial := (View.combine_assoc x.toView y.toView z.toView).initial

end

theorem combine_empty (d : Decider C S E R) :
    Padded .onLeft Sum.getLeft? Sum.getLeft? d
      (d.combine (empty : Decider D Unit F R)) where
  decide c s := d.decide_inl empty c (s, ())
  isTerminal _ _ := rfl
  evolve := (d.toView.combine_empty (F := F)).evolve
  initial := (d.toView.combine_empty (F := F)).initial
  eq_command := Sum.getLeft?_eq_some_iff.mp
  eq_event := Sum.getLeft?_eq_some_iff.mp
  open_foreign := by
    rintro (c | c) t hw
    · cases hw
    · rfl
  decide_foreign := by
    rintro (c | c) t hw
    · cases hw
    · rfl
  evolve_foreign := (d.toView.combine_empty (F := F)).evolve_foreign

theorem empty_combine (d : Decider C S E R) :
    Padded .onRight Sum.getRight? Sum.getRight? d
      ((empty : Decider D Unit F R).combine d) where
  decide c s := (empty : Decider D Unit F R).decide_inr d c ((), s)
  isTerminal _ _ := rfl
  evolve := (d.toView.empty_combine (F := F)).evolve
  initial := (d.toView.empty_combine (F := F)).initial
  eq_command := Sum.getRight?_eq_some_iff.mp
  eq_event := Sum.getRight?_eq_some_iff.mp
  open_foreign := by
    rintro (c | c) t hw
    · rfl
    · cases hw
  decide_foreign := by
    rintro (c | c) t hw
    · rfl
    · cases hw
  evolve_foreign := (d.toView.empty_combine (F := F)).evolve_foreign

end Decider

/-! ## Sagas -/

namespace Saga

section

variable (x : Saga E₁ A₁) (y : Saga E₂ A₂) (z : Saga E₃ A₃)

theorem react_inl (e : E₁) : (x.combine y).react (.inl e) = (·.map .inl) <$> x.react e :=
  bind_pure_comp _ _

theorem react_inr (e : E₂) : (x.combine y).react (.inr e) = (·.map .inr) <$> y.react e :=
  bind_pure_comp _ _

theorem combine_assoc :
    Relabelled Tagged.assocRight Tagged.assocRight ((x.combine y).combine z)
      (x.combine (y.combine z)) := by
  rintro ((e | e) | e)
  · show (x.combine (y.combine z)).react (.inl e) = _
    rw [react_inl, react_inl, react_inl]
    simp only [Functor.map_map, List.map_map]
    rfl
  · show (x.combine (y.combine z)).react (.inr (.inl e)) = _
    rw [react_inr, react_inl, react_inl, react_inr]
    simp only [Functor.map_map, List.map_map]
    rfl
  · show (x.combine (y.combine z)).react (.inr (.inr e)) = _
    rw [react_inr, react_inr, react_inr]
    simp only [Functor.map_map, List.map_map]
    rfl

end

theorem combine_empty (g : Saga E A) :
    Padded .inl .inl Sum.getLeft? g (g.combine (empty : Saga F B)) where
  react := g.react_inl empty
  eq_result := Sum.getLeft?_eq_some_iff.mp
  react_foreign := by
    rintro (e | e) he
    · cases he
    · rfl

theorem empty_combine (g : Saga E A) :
    Padded .inr .inr Sum.getRight? g ((empty : Saga F B).combine g) where
  react := (empty : Saga F B).react_inr g
  eq_result := Sum.getRight?_eq_some_iff.mp
  react_foreign := by
    rintro (e | e) he
    · rfl
    · cases he

theorem merge_assoc (first second third : Saga E A) :
    (first.merge second).merge third = first.merge (second.merge third) := by
  refine congrArg Saga.mk (funext fun e => ?_)
  rcases hfirst : first.react e with x | one
  · simp [merge, hfirst, bind, Except.bind]
  rcases hsecond : second.react e with x | two
  · simp [merge, hfirst, hsecond, bind, Except.bind]
  rcases hthird : third.react e with x | three
  · simp [merge, hfirst, hsecond, hthird, bind, Except.bind, pure, Except.pure]
  · simp [merge, hfirst, hsecond, hthird, bind, Except.bind, pure, Except.pure]

theorem merge_empty (g : Saga E A) : g.merge empty = g := by
  refine congrArg Saga.mk (funext fun e => ?_)
  rcases hown : g.react e with x | actions
  · rfl
  · exact congrArg Except.ok (List.append_nil actions)

theorem empty_merge (g : Saga E A) : empty.merge g = g := by
  refine congrArg Saga.mk (funext fun e => ?_)
  rcases hown : g.react e with x | actions <;> rfl

end Saga

/-! ## Runs -/

namespace Decider

/-- The same machine under other names: function by function, from every state on and from the
initial one, over every list of commands and over every history. -/
structure SameRuns (ρ : Relabelling C S E C₁ S₁ E₁) (d : Decider C S E R)
    (d' : Decider C₁ S₁ E₁ R) : Prop where
  functions : Relabelled ρ d d'
  course : ∀ commands s, d'.course (commands.map ρ.command) (ρ.state s) =
    (·.map ρ.turn) <$> d.course commands s
  run : ∀ commands, d'.run (commands.map ρ.command) = (·.map ρ.turn) <$> d.run commands
  replay : ∀ history, d'.replay (history.map ρ.event) = ρ.state <$> d.replay history

/-- The same machine among commands and events that are not its own: its own turns are those of the
machine alone, the others decide nothing and leave the state as it is. -/
structure SameAmongOthers (ρ : Relabelling C S E C₁ S₁ E₁) (command? : C₁ → Option C)
    (event? : E₁ → Option E) (d : Decider C S E R) (d' : Decider C₁ S₁ E₁ R) : Prop
    extends SameRuns ρ d d' where
  padded : Padded ρ command? event? d d'
  turn_foreign : ∀ w t, command? w = none → d'.turn w t = .ok ⟨w, .ok [], t⟩
  own_course : ∀ commands s,
    (·.filter (Turn.isOwn command?)) <$> d'.course commands (ρ.state s) =
      (·.map ρ.turn) <$> d.course (commands.filterMap command?) s
  own_run : ∀ commands, (·.filter (Turn.isOwn command?)) <$> d'.run commands =
    (·.map ρ.turn) <$> d.run (commands.filterMap command?)
  own_history : ∀ history, d'.replay history = ρ.state <$> d.replay (history.filterMap event?)

theorem Relabelled.sameRuns {ρ : Relabelling C S E C₁ S₁ E₁} {d : Decider C S E R}
    {d' : Decider C₁ S₁ E₁ R} (h : Relabelled ρ d d') : SameRuns ρ d d' :=
  ⟨h, h.course, h.run, h.replay⟩

theorem Padded.sameAmongOthers {ρ : Relabelling C S E C₁ S₁ E₁} {command? : C₁ → Option C}
    {event? : E₁ → Option E} {d : Decider C S E R} {d' : Decider C₁ S₁ E₁ R}
    (h : Padded ρ command? event? d d') : SameAmongOthers ρ command? event? d d' :=
  ⟨h.toRelabelled.sameRuns, h, h.turn_foreign, h.course, h.run, h.replay⟩

/-- The laws of combination for deciders. -/
structure CombinesAsMonoid (x : Decider C₁ S₁ E₁ R) (y : Decider C₂ S₂ E₂ R)
    (z : Decider C₃ S₃ E₃ R) : Prop where
  right_undone : (Relabelling.assocRight : Relabelling ((C₁ ⊕ C₂) ⊕ C₃) ((S₁ × S₂) × S₃)
    ((E₁ ⊕ E₂) ⊕ E₃) _ _ _).UndoneBy .assocLeft
  left_undone : (Relabelling.assocLeft : Relabelling (C₁ ⊕ (C₂ ⊕ C₃)) (S₁ × (S₂ × S₃))
    (E₁ ⊕ (E₂ ⊕ E₃)) _ _ _).UndoneBy .assocRight
  right : SameRuns .assocRight ((x.combine y).combine z) (x.combine (y.combine z))
  left : SameRuns .assocLeft (x.combine (y.combine z)) ((x.combine y).combine z)
  right_unit : ∀ D F, SameAmongOthers .onLeft Sum.getLeft? Sum.getLeft? x
    (x.combine (empty : Decider D Unit F R))
  left_unit : ∀ D F, SameAmongOthers .onRight Sum.getRight? Sum.getRight? x
    ((empty : Decider D Unit F R).combine x)

end Decider

namespace View

/-- The same view of other states and events, whatever is stored. -/
structure SameStates (state : S → S₁) (event : E → E₁) (v : View S E) (v' : View S₁ E₁) :
    Prop where
  functions : Relabelled state event v v'
  newState : ∀ stored events, v'.newState (stored.map state) (events.map event) =
    state <$> v.newState stored events

/-- The same view among events that are not its own. -/
structure SameAmongOthers (state : S → S₁) (event : E → E₁) (event? : E₁ → Option E) (v : View S E)
    (v' : View S₁ E₁) : Prop extends SameStates state event v v' where
  padded : Padded state event event? v v'
  own_events : ∀ stored events, v'.newState (stored.map state) events =
    state <$> v.newState stored (events.filterMap event?)

theorem Relabelled.sameStates {state : S → S₁} {event : E → E₁} {v : View S E} {v' : View S₁ E₁}
    (h : Relabelled state event v v') : SameStates state event v v' :=
  ⟨h, h.newState⟩

theorem Padded.sameAmongOthers {state : S → S₁} {event : E → E₁} {event? : E₁ → Option E}
    {v : View S E} {v' : View S₁ E₁} (h : Padded state event event? v v') :
    SameAmongOthers state event event? v v' :=
  ⟨h.toRelabelled.sameStates, h, h.newState⟩

/-- The laws of combination for views. -/
structure CombinesAsMonoid (x : View S₁ E₁) (y : View S₂ E₂) (z : View S₃ E₃) : Prop where
  right : SameStates pairRight Tagged.assocRight ((x.combine y).combine z)
    (x.combine (y.combine z))
  left : SameStates pairLeft Tagged.assocLeft (x.combine (y.combine z)) ((x.combine y).combine z)
  right_unit : ∀ F, SameAmongOthers (·, ()) .inl Sum.getLeft? x (x.combine (empty : View Unit F))
  left_unit : ∀ F, SameAmongOthers ((), ·) .inr Sum.getRight? x
    ((empty : View Unit F).combine x)

end View

/-- The laws of combination for sagas. -/
structure Saga.CombinesAsMonoid (x : Saga E₁ A₁) (y : Saga E₂ A₂) (z : Saga E₃ A₃) : Prop where
  right : Relabelled Tagged.assocRight Tagged.assocRight ((x.combine y).combine z)
    (x.combine (y.combine z))
  left : Relabelled Tagged.assocLeft Tagged.assocLeft (x.combine (y.combine z))
    ((x.combine y).combine z)
  right_unit : ∀ F B, Padded .inl .inl Sum.getLeft? x (x.combine (empty : Saga F B))
  left_unit : ∀ F B, Padded .inr .inr Sum.getRight? x ((empty : Saga F B).combine x)

theorem Decider.combinesAsMonoid (x : Decider C₁ S₁ E₁ R) (y : Decider C₂ S₂ E₂ R)
    (z : Decider C₃ S₃ E₃ R) : x.CombinesAsMonoid y z where
  right_undone := Relabelling.assocRight_undone
  left_undone := Relabelling.assocLeft_undone
  right := (x.combine_assoc y z).sameRuns
  left := ((x.combine_assoc y z).symm Relabelling.assocRight_undone
    Relabelling.assocLeft_undone).sameRuns
  right_unit _ _ := x.combine_empty.sameAmongOthers
  left_unit _ _ := x.empty_combine.sameAmongOthers

theorem View.combinesAsMonoid (x : View S₁ E₁) (y : View S₂ E₂) (z : View S₃ E₃) :
    x.CombinesAsMonoid y z where
  right := (x.combine_assoc y z).sameStates
  left := ((x.combine_assoc y z).symm (fun _ => rfl) (fun _ => rfl)
    Tagged.assocRight_assocLeft).sameStates
  right_unit _ := x.combine_empty.sameAmongOthers
  left_unit _ := x.empty_combine.sameAmongOthers

theorem Saga.combinesAsMonoid (x : Saga E₁ A₁) (y : Saga E₂ A₂) (z : Saga E₃ A₃) :
    x.CombinesAsMonoid y z where
  right := x.combine_assoc y z
  left := (x.combine_assoc y z).symm Tagged.assocRight_assocLeft Tagged.assocLeft_assocRight
  right_unit _ _ := x.combine_empty
  left_unit _ _ := x.empty_combine

/-- **Combination is a monoid** up to re-association, for deciders, views and sagas; merging sagas
is one as it stands. -/
theorem combination_is_monoid (x : Decider C₁ S₁ E₁ R) (y : Decider C₂ S₂ E₂ R)
    (z : Decider C₃ S₃ E₃ R) (u : View S₁ E₁) (v : View S₂ E₂) (w : View S₃ E₃) (f : Saga E₁ A₁)
    (g : Saga E₂ A₂) (h : Saga E₃ A₃) (first second third : Saga E A) :
    x.CombinesAsMonoid y z ∧ u.CombinesAsMonoid v w ∧ f.CombinesAsMonoid g h ∧
    (first.merge second).merge third = first.merge (second.merge third) ∧
    first.merge .empty = first ∧ Saga.empty.merge first = first :=
  ⟨x.combinesAsMonoid y z, u.combinesAsMonoid v w, f.combinesAsMonoid g h,
    first.merge_assoc second third, first.merge_empty, first.empty_merge⟩

end EventMachines
