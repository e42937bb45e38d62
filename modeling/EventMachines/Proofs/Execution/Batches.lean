import EventMachines.Execution.Handle

/-!
Batches of items, handled one after the other. `Engine.Handles` says what came of each item, those
included that could not be read; `Engine.Serves` that all of them could, and `Engine.Completes` that
each was answered. The statements take such a batch apart at its first item, put it together at its
last, and cut it in two (`handleAll_append`).
-/

namespace EventMachines

variable {P : Exchange} {I R Item Answer ε α ω : Type}

/-- The end of a call as a result, or the fault that prevented one. -/
def Outcome.result : Outcome ε α → Checked (Except ε α)
  | done a => .ok (.ok a)
  | failed e => .ok (.error e)
  | broken x => .error x

theorem Outcome.result_eq_ok {o : Outcome ε α} {a : α} : o.result = .ok (.ok a) ↔ o = .done a := by
  cases o <;> simp [result]

/-- The batch goes on where the first part of it ended, unless that broke off. -/
def Batch.andThen (first : Batch P ε Answer ω) (next : ω → Option (Batch P ε Answer ω)) :
    Option (Batch P ε Answer ω) :=
  match first.results with
  | .error _ => some first
  | .ok results => (next first.world).map fun rest =>
    ⟨(results ++ ·) <$> rest.results, rest.world, first.transcript ++ rest.transcript⟩

/-- One more result in front, of an item in which all that happened. -/
def Batch.behind (x : Except ε Answer) (earlier : List (Happening P)) (rest : Batch P ε Answer ω) :
    Batch P ε Answer ω :=
  ⟨(x :: ·) <$> rest.results, rest.world, earlier ++ rest.transcript⟩

theorem Batch.behind_andThen (first : Batch P ε Answer ω) (x : Except ε Answer)
    (earlier : List (Happening P)) (next : ω → Option (Batch P ε Answer ω)) :
    (first.behind x earlier).andThen next = (first.andThen next).map (behind x earlier) := by
  rcases first with ⟨fault | results, w, hs⟩
  · rfl
  · show (next w).map _ = ((next w).map _).map _
    rw [Option.map_map]
    refine congrArg (Option.map · (next w)) (funext fun rest => ?_)
    rcases rest with ⟨fault | more, w', hs'⟩ <;>
      exact congrArg (Batch.mk _ w') (List.append_assoc earlier hs hs')

namespace Engine

/-- Handling the items in order, those included that could not be read, gives each of them its
result and leads from one world to the other. -/
def Handles (e : Engine P (Failure I R) Item Answer) (b : Backend P ω) (fuel : Nat)
    (items : List (Except String Item)) (w : ω) (results : List (Except (Failure I R) Answer))
    (w' : ω) : Prop :=
  ∃ batch, e.handleAll b fuel items w = some batch ∧ batch.results = .ok results ∧ batch.world = w'

/-- Handling the items in order gives each of them its result and leads from one world to the
other. -/
def Serves (e : Engine P (Failure I R) Item Answer) (b : Backend P ω) (fuel : Nat)
    (items : List Item) (w : ω) (results : List (Except (Failure I R) Answer)) (w' : ω) : Prop :=
  ∃ batch, e.handleAll b fuel (items.map .ok) w = some batch ∧ batch.results = .ok results ∧
    batch.world = w'

/-- Handling the items in order answers each of them and leads from one world to the other. -/
def Completes (e : Engine P (Failure I R) Item Answer) (b : Backend P ω) (fuel : Nat)
    (items : List Item) (w : ω) (answers : List Answer) (w' : ω) : Prop :=
  ∃ batch, e.handleAll b fuel (items.map .ok) w = some batch ∧
    batch.results = .ok (answers.map .ok) ∧ batch.world = w'

variable {e : Engine P (Failure I R) Item Answer} {b : Backend P ω} {fuel : Nat}

theorem handles_nil {w w' : ω} {results : List (Except (Failure I R) Answer)} :
    e.Handles b fuel [] w results w' ↔ results = [] ∧ w = w' := by
  constructor
  · rintro ⟨batch, hbatch, hresults, hworld⟩
    obtain rfl := Option.some.inj hbatch
    exact ⟨(Except.ok.inj hresults).symm, hworld⟩
  · rintro ⟨rfl, rfl⟩
    exact ⟨_, rfl, rfl, rfl⟩

theorem handles_unreadable {reason : String} {items : List (Except String Item)} {w w' : ω}
    {results : List (Except (Failure I R) Answer)} :
    e.Handles b fuel (.error reason :: items) w results w' ↔
      ∃ rest, e.Handles b fuel items w rest w' ∧
        results = .error (.publishingFailed none (.text reason)) :: rest := by
  constructor
  · rintro ⟨batch, hbatch, hresults, hworld⟩
    obtain ⟨others, hothers, hbatch⟩ := Option.bind_eq_some_iff.mp hbatch
    obtain rfl := Option.some.inj hbatch
    obtain ⟨rest, hrest, rfl⟩ := Checked.map_eq_ok.mp hresults
    exact ⟨rest, ⟨others, hothers, hrest, hworld⟩, rfl⟩
  · rintro ⟨rest, ⟨others, hothers, hrest, hworld⟩, rfl⟩
    exact ⟨_, Option.bind_eq_some_iff.mpr ⟨others, hothers, rfl⟩,
      Checked.map_eq_ok.mpr ⟨rest, hrest, rfl⟩, hworld⟩

/-- A result comes before those of the other items, and a fault ends the batch. -/
theorem handleAll_cons {item : Item} {w : ω} {r : Run P (Failure I R) Answer ω}
    (hr : e.handle b fuel item w = some r) (items : List (Except String Item)) :
    e.handleAll b fuel (.ok item :: items) w = match r.outcome.result with
      | .error fault => some ⟨.error fault, r.world, r.transcript⟩
      | .ok x => (e.handleAll b fuel items r.world).map fun batch =>
        ⟨(x :: ·) <$> batch.results, batch.world, r.transcript ++ batch.transcript⟩ := by
  rcases r with ⟨a | x | fault, w', transcript⟩ <;>
    simp only [handleAll, hr, bind, Option.bind_some, Outcome.result]
  · cases e.handleAll b fuel items w' <;> rfl
  · cases e.handleAll b fuel items w' <;> rfl
  · rfl

theorem handles_cons {item : Item} {items : List (Except String Item)} {w w' : ω}
    {results : List (Except (Failure I R) Answer)} :
    e.Handles b fuel (.ok item :: items) w results w' ↔
      ∃ r x rest, e.handle b fuel item w = some r ∧ r.outcome.result = .ok x ∧
        e.Handles b fuel items r.world rest w' ∧ results = x :: rest := by
  constructor
  · rintro ⟨batch, hbatch, hresults, hworld⟩
    obtain ⟨r, hr, -⟩ := Option.bind_eq_some_iff.mp hbatch
    rw [handleAll_cons hr] at hbatch
    rcases hx : r.outcome.result with fault | x <;> rw [hx] at hbatch
    · obtain rfl := Option.some.inj hbatch
      cases hresults
    · obtain ⟨others, hothers, rfl⟩ := Option.map_eq_some_iff.mp hbatch
      obtain ⟨rest, hrest, rfl⟩ := Checked.map_eq_ok.mp hresults
      exact ⟨r, x, rest, hr, hx, ⟨others, hothers, hrest, hworld⟩, rfl⟩
  · rintro ⟨r, x, rest, hr, hx, ⟨others, hothers, hresults, hworld⟩, rfl⟩
    refine ⟨⟨(x :: ·) <$> others.results, others.world, r.transcript ++ others.transcript⟩, ?_,
      Checked.map_eq_ok.mpr ⟨rest, hresults, rfl⟩, hworld⟩
    rw [handleAll_cons hr, hx, hothers]
    rfl

theorem Handles.length_eq {items : List (Except String Item)} {w w' : ω}
    {results : List (Except (Failure I R) Answer)} (h : e.Handles b fuel items w results w') :
    results.length = items.length := by
  induction items generalizing w results with
  | nil =>
    obtain ⟨rfl, -⟩ := handles_nil.mp h
    rfl
  | cons item items ih =>
    cases item with
    | error reason =>
      obtain ⟨rest, hrest, rfl⟩ := handles_unreadable.mp h
      exact congrArg (· + 1) (ih hrest)
    | ok item =>
      obtain ⟨r, x, rest, -, -, hrest, rfl⟩ := handles_cons.mp h
      exact congrArg (· + 1) (ih hrest)

/-- One more item in front, where it is known to which world it leads. -/
theorem handles_cons_of_world {item : Item} {items : List (Except String Item)} {w between w' : ω}
    {x : Except (Failure I R) Answer} {rest : List (Except (Failure I R) Answer)}
    (h : ∃ r, e.handle b fuel item w = some r ∧ r.outcome.result = .ok x ∧ r.world = between)
    (hrest : e.Handles b fuel items between rest w') :
    e.Handles b fuel (.ok item :: items) w (x :: rest) w' := by
  obtain ⟨r, hr, hx, rfl⟩ := h
  exact handles_cons.mpr ⟨r, x, rest, hr, hx, hrest, rfl⟩

/-- One more item in front, where it is known what comes of it. -/
theorem handles_cons_of_result {σ : Type} {item : Item} {items : List (Except String Item)}
    {w w' : ω} {results : List (Except (Failure I R) Answer)} {found : Checked σ}
    {result : σ → Checked (Except (Failure I R) Answer)} {next : Except (Failure I R) Answer → ω}
    (h : ∃ r, e.handle b fuel item w = some r ∧ r.outcome.result = (do result (← found)) ∧
      ∀ x, r.outcome.result = .ok x → r.world = next x) :
    e.Handles b fuel (.ok item :: items) w results w' ↔
      ∃ s x rest, found = .ok s ∧ result s = .ok x ∧ e.Handles b fuel items (next x) rest w' ∧
        results = x :: rest := by
  obtain ⟨r, hr, hresult, hworld⟩ := h
  rw [handles_cons]
  constructor
  · rintro ⟨r', x, rest, hr', hx, hrest, rfl⟩
    obtain rfl := Option.some.inj (hr.symm.trans hr')
    obtain ⟨s, hfound, hs⟩ := Checked.bind_eq_ok.mp (hresult.symm.trans hx)
    exact ⟨s, x, rest, hfound, hs, hworld x hx ▸ hrest, rfl⟩
  · rintro ⟨s, x, rest, hfound, hs, hrest, rfl⟩
    have hx := hresult.trans (Checked.bind_eq_ok.mpr ⟨s, hfound, hs⟩)
    exact ⟨r, x, rest, hr, hx, (hworld x hx).symm ▸ hrest, rfl⟩

/-- Where every item has a result in every world, every batch is handled. -/
theorem exists_handles
    (h : ∀ item w, ∃ r x, e.handle b fuel item w = some r ∧ r.outcome.result = .ok x)
    (items : List (Except String Item)) (w : ω) :
    ∃ results w', e.Handles b fuel items w results w' := by
  induction items generalizing w with
  | nil => exact ⟨[], w, handles_nil.mpr ⟨rfl, rfl⟩⟩
  | cons item items ih =>
    cases item with
    | error reason =>
      obtain ⟨rest, w', hrest⟩ := ih w
      exact ⟨_, w', handles_unreadable.mpr ⟨rest, hrest, rfl⟩⟩
    | ok item =>
      obtain ⟨r, x, hr, hx⟩ := h item w
      obtain ⟨rest, w', hrest⟩ := ih r.world
      exact ⟨x :: rest, w', handles_cons.mpr ⟨r, x, rest, hr, hx, hrest, rfl⟩⟩

/-! ### Batch after batch -/

theorem handleAll_unreadable (reason : String) (items : List (Except String Item)) (w : ω) :
    e.handleAll b fuel (.error reason :: items) w = (e.handleAll b fuel items w).map
      (.behind (.error (.publishingFailed none (.text reason)))
        [.noted (.inputUnreadable reason)]) := by
  rw [handleAll]
  cases e.handleAll b fuel items w <;> rfl

/-- **Batch after batch.** -/
theorem handleAll_append (e : Engine P (Failure I R) Item Answer) (b : Backend P ω) (fuel : Nat)
    (xs ys : List (Except String Item)) (w : ω) :
    e.handleAll b fuel (xs ++ ys) w =
      (e.handleAll b fuel xs w).bind fun first => first.andThen (e.handleAll b fuel ys) := by
  induction xs generalizing w with
  | nil =>
    show e.handleAll b fuel ys w = (e.handleAll b fuel ys w).map _
    rcases e.handleAll b fuel ys w with _ | ⟨results, w', hs⟩
    · rfl
    · cases results <;> rfl
  | cons item xs ih =>
    rw [List.cons_append]
    cases item with
    | error reason =>
      simp only [handleAll_unreadable, ih, Option.map_bind, Option.bind_map]
      exact congrArg _ (funext fun first => (first.behind_andThen _ _ _).symm)
    | ok item =>
      rcases hr : e.handle b fuel item w with _ | r
      · simp [handleAll, hr]
      · rw [handleAll_cons hr, handleAll_cons hr]
        rcases r.outcome.result with fault | x
        · rfl
        · simp only [ih, Option.map_bind, Option.bind_map]
          exact congrArg _ (funext fun first => (first.behind_andThen x r.transcript _).symm)

theorem handles_append {before after : List (Except String Item)} {w w' : ω}
    {results : List (Except (Failure I R) Answer)} :
    e.Handles b fuel (before ++ after) w results w' ↔
      ∃ first rest middle, e.Handles b fuel before w first middle ∧
        e.Handles b fuel after middle rest w' ∧ results = first ++ rest := by
  constructor
  · rintro ⟨batch, hbatch, hresults, hworld⟩
    rw [handleAll_append] at hbatch
    obtain ⟨⟨firstResults, middle, hs⟩, hfirst, hbatch⟩ := Option.bind_eq_some_iff.mp hbatch
    rcases firstResults with fault | first
    · obtain rfl := Option.some.inj hbatch
      cases hresults
    · obtain ⟨others, hothers, rfl⟩ := Option.map_eq_some_iff.mp hbatch
      obtain ⟨rest, hrest, rfl⟩ := Checked.map_eq_ok.mp hresults
      exact ⟨first, rest, middle, ⟨_, hfirst, rfl, rfl⟩, ⟨others, hothers, hrest, hworld⟩, rfl⟩
  · rintro ⟨first, rest, middle, ⟨⟨_, _, hs⟩, hfirst, rfl, rfl⟩, ⟨others, hothers, hrest, hworld⟩,
      rfl⟩
    refine ⟨⟨(first ++ ·) <$> others.results, others.world, hs ++ others.transcript⟩, ?_,
      Checked.map_eq_ok.mpr ⟨rest, hrest, rfl⟩, hworld⟩
    rw [handleAll_append, hfirst]
    show (e.handleAll b fuel after _).map _ = _
    rw [hothers]
    rfl

/-! ### Items that could be read -/

theorem serves_nil {w w' : ω} {results : List (Except (Failure I R) Answer)} :
    e.Serves b fuel [] w results w' ↔ results = [] ∧ w = w' :=
  handles_nil

theorem serves_cons {item : Item} {items : List Item} {w w' : ω}
    {results : List (Except (Failure I R) Answer)} :
    e.Serves b fuel (item :: items) w results w' ↔
      ∃ r x rest, e.handle b fuel item w = some r ∧ r.outcome.result = .ok x ∧
        e.Serves b fuel items r.world rest w' ∧ results = x :: rest :=
  handles_cons

theorem serves_append {before after : List Item} {w w' : ω}
    {results : List (Except (Failure I R) Answer)} :
    e.Serves b fuel (before ++ after) w results w' ↔
      ∃ first rest middle, e.Serves b fuel before w first middle ∧
        e.Serves b fuel after middle rest w' ∧ results = first ++ rest := by
  show e.Handles b fuel ((before ++ after).map .ok) w results w' ↔ _
  rw [List.map_append]
  exact handles_append

theorem completes_nil {w w' : ω} {answers : List Answer} :
    e.Completes b fuel [] w answers w' ↔ answers = [] ∧ w = w' := by
  show e.Serves b fuel [] w (answers.map .ok) w' ↔ _
  rw [serves_nil, List.map_eq_nil_iff]

theorem completes_cons {item : Item} {items : List Item} {w w' : ω} {answers : List Answer} :
    e.Completes b fuel (item :: items) w answers w' ↔
      ∃ r a rest, e.handle b fuel item w = some r ∧ r.outcome = .done a ∧
        e.Completes b fuel items r.world rest w' ∧ answers = a :: rest := by
  constructor
  · intro h
    obtain ⟨r, x, rest, hr, hx, hrest, hanswers⟩ := serves_cons.mp h
    obtain ⟨a, more, rfl, rfl, rfl⟩ := List.map_eq_cons_iff.mp hanswers
    exact ⟨r, a, more, hr, Outcome.result_eq_ok.mp hx, hrest, rfl⟩
  · rintro ⟨r, a, rest, hr, ha, hrest, rfl⟩
    exact serves_cons.mpr ⟨r, .ok a, _, hr, Outcome.result_eq_ok.mpr ha, hrest, rfl⟩

/-- One more item at the end of a batch. -/
theorem Completes.concat {items : List Item} {w w' : ω} {answers : List Answer}
    (h : e.Completes b fuel items w answers w') {item : Item} {r : Run P (Failure I R) Answer ω}
    {a : Answer} (hr : e.handle b fuel item w' = some r) (ha : r.outcome = .done a) :
    e.Completes b fuel (items ++ [item]) w (answers ++ [a]) r.world := by
  have hlast : e.Completes b fuel [item] w' [a] r.world :=
    completes_cons.mpr ⟨r, a, [], hr, ha, completes_nil.mpr ⟨rfl, rfl⟩, rfl⟩
  exact serves_append.mpr ⟨_, _, w', h, hlast, List.map_append⟩

end Engine

end EventMachines
