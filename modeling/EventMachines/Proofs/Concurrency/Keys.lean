import EventMachines.Proofs.Execution.Locality
import EventMachines.Proofs.Execution.Once
import EventMachines.Proofs.Execution.SoFar
import EventMachines.Proofs.Execution.Turns

/-!
Calls on different keys. Over a store by keys, calls that keep to a key each, and to different ones,
do not notice each other: at the same time or one after the other, in whatever order, each does what
it does alone.

* `heads_step`, `heads_elsewhere`: a task on its way to what its call comes to alone;
* `interleaved_apart`: calls at the same time;
* `inTurn_apart`: calls one after the other;
* `handles_swapped`: neighbours in a batch change places;
* `keys_are_independent`: so it is for the engines that do not orchestrate.
-/

namespace EventMachines

open Program hiding bind

variable {P : Exchange} {C S E F I R T K V ε Item Answer α ω : Type}

section

variable {b : Backend P ω} {content : ω → K → V} {source : P.Input → K}
  {target : P.Write → Option K} {key : K}

/-! ## Calls at the same time -/

/-- A run that has come to its end has done so with one more happening in front. -/
theorem Run.ended?_after {X : Type} (h : Happening P) (r : Run P ε (Progress X Answer) ω) :
    (r.after h).ended? = r.ended?.map (Run.after h) := by
  rcases r with ⟨(a | rest) | x | x, w, hs⟩ <;> rfl

theorem Run.Agrees.exists_ended {κ X : Type} {view : ω → κ} {r s : Run P ε (Progress X Answer) ω}
    (h : r.Agrees view s) {q : Run P ε Answer ω} (hq : r.ended? = some q) :
    ∃ q', s.ended? = some q' ∧ q.Agrees view q' := by
  obtain ⟨houtcome, htranscript, hworld⟩ := h
  rcases r with ⟨(a | rest) | x | x, w, hs⟩ <;> rcases s with ⟨o, v, hs'⟩ <;> cases houtcome <;>
    cases hq
  · exact ⟨_, rfl, rfl, htranscript, hworld⟩
  · exact ⟨_, rfl, rfl, htranscript, hworld⟩
  · exact ⟨_, rfl, rfl, htranscript, hworld⟩

/-- The task is on its way to what the call comes to alone: what is left of it keeps to the key, and
has the same outcome and the same under the key in the end. -/
def Task.Heads {e : Engine P ε Item Answer} (b : Backend P ω) (content : ω → K → V)
    (source : P.Input → K) (target : P.Write → Option K) (key : K) (alone : Run P ε Answer ω)
    (w : ω) : Task e → Prop
  | running rest => (∀ h ∈ (rest.run b w).transcript, h.Within source target key) ∧
    ∃ q, (rest.run b w).ended? = some q ∧ q.outcome = alone.outcome ∧
      content q.world key = content alone.world key
  | finished o => o = alone.outcome ∧ content w key = content alone.world key

variable {e : Engine P ε Item Answer} {alone : Run P ε Answer ω} {t : Task e} {w v : ω}

/-- What others do under their keys does not matter to it. -/
theorem heads_elsewhere (hb : b.Keyed content source target)
    (ht : t.Heads b content source target key alone w) (h : content w key = content v key) :
    t.Heads b content source target key alone v := by
  cases t with
  | finished o => exact ⟨ht.1, h.symm.trans ht.2⟩
  | running rest =>
    obtain ⟨hwithin, q, hq, houtcome, hworld⟩ := ht
    have hagrees := run_local hb rest hwithin h
    obtain ⟨q', hq', hsame⟩ := hagrees.exists_ended hq
    exact ⟨hagrees.transcript ▸ hwithin, q', hq', hsame.outcome.symm.trans houtcome,
      hsame.world.symm.trans hworld⟩

/-- Its own steps keep it on its way, and change nothing under other keys. -/
theorem heads_step (hb : b.Keyed content source target)
    (ht : t.Heads b content source target key alone w) :
    (t.step b w).2.1.Heads b content source target key alone (t.step b w).2.2 ∧
      ∀ other, key ≠ other → content (t.step b w).2.2 other = content w other := by
  rcases t with rest | o
  swap
  · exact ⟨ht, fun _ _ => rfl⟩
  obtain ⟨hwithin, q, hq, houtcome, hworld⟩ := ht
  cases rest with
  | halt o =>
    rcases o with (a | rest) | x | x
    · obtain rfl := Option.some.inj hq
      exact ⟨⟨houtcome, hworld⟩, fun _ _ => rfl⟩
    · cases hq
    · obtain rfl := Option.some.inj hq
      exact ⟨⟨houtcome, hworld⟩, fun _ _ => rfl⟩
    · obtain rfl := Option.some.inj hq
      exact ⟨⟨houtcome, hworld⟩, fun _ _ => rfl⟩
  | note n rest =>
    rw [run, Run.ended?_after] at hq
    obtain ⟨q', hq', rfl⟩ := Option.map_eq_some_iff.mp hq
    exact ⟨⟨(List.forall_mem_cons.mp hwithin).2, q', hq', houtcome, hworld⟩, fun _ _ => rfl⟩
  | fetch i rest =>
    have hsame := hb.unchanged i w
    rcases hf : b.fetch i w with ⟨x | r, w'⟩ <;> rw [hf] at hsame <;>
      simp only [run, hf, Task.step] at hwithin hq ⊢
    · obtain rfl := Option.some.inj hq
      exact ⟨⟨houtcome, hworld⟩, fun other _ => congrFun hsame other⟩
    · rw [Run.ended?_after] at hq
      obtain ⟨q', hq', rfl⟩ := Option.map_eq_some_iff.mp hq
      exact ⟨⟨(List.forall_mem_cons.mp hwithin).2, q', hq', houtcome, hworld⟩,
        fun other _ => congrFun hsame other⟩
  | write data rest =>
    have hsame := fun other => hb.elsewhere data w other
    rcases hd : b.write data w with ⟨x | r, w'⟩ <;> rw [hd] at hsame <;>
      simp only [run, hd, Task.step] at hwithin hq ⊢ <;>
      obtain ⟨hkey, hrest⟩ := List.forall_mem_cons.mp hwithin <;>
      have hother : ∀ other, key ≠ other → content w' other = content w other := fun other hne =>
        hsame other fun h => hne (Option.some.inj (hkey.symm.trans h))
    · obtain rfl := Option.some.inj hq
      exact ⟨⟨houtcome, hworld⟩, hother⟩
    · rw [Run.ended?_after] at hq
      obtain ⟨q', hq', rfl⟩ := Option.map_eq_some_iff.mp hq
      exact ⟨⟨hrest, q', hq', houtcome, hworld⟩, hother⟩
  | consult i rest =>
    rw [run, Run.ended?_after] at hq
    obtain ⟨q', hq', rfl⟩ := Option.map_eq_some_iff.mp hq
    exact ⟨⟨(List.forall_mem_cons.mp hwithin).2, q', hq', houtcome, hworld⟩, fun _ _ => rfl⟩

/-- The call comes to that alone, in a single round, and keeps to the key. -/
structure Engine.KeepsTo (e : Engine P ε Item Answer) (b : Backend P ω) (source : P.Input → K)
    (target : P.Write → Option K) (key : K) (item : Item) (w : ω) (alone : Run P ε Answer ω) :
    Prop where
  handled : e.handle b 0 item w = some alone
  within : ∀ h ∈ alone.transcript, h.Within source target key

theorem Engine.KeepsTo.heads {item : Item} (h : e.KeepsTo b source target key item w alone) :
    (Task.running (e.start item) : Task e).Heads b content source target key alone w := by
  have hended := h.handled
  rw [handle, goOn_eq_soFar, soFar_zero] at hended
  exact ⟨(Run.ended?_eq_some hended).2.1 ▸ h.within, alone, hended, rfl, rfl⟩

/-- It comes to the same from any world with the same under the key, and changes nothing under
others. -/
theorem Engine.KeepsTo.handle_local (hb : b.Keyed content source target) {item : Item}
    (hkeeps : e.KeepsTo b source target key item w alone) (h : content w key = content v key)
    (fuel : Nat) :
    ∃ r, e.handle b fuel item v = some r ∧ alone.Agrees (content · key) r ∧
      ∀ other, key ≠ other → content r.world other = content v other := by
  have hended := hkeeps.handled
  rw [handle, goOn_eq_soFar, soFar_zero] at hended
  have hwithin := (Run.ended?_eq_some hended).2.1 ▸ hkeeps.within
  have hagrees := run_local hb (e.start item) hwithin h
  obtain ⟨r, hr, hsame⟩ := hagrees.exists_ended hended
  refine ⟨r, ?_, hsame, fun other hother => ?_⟩
  · refine e.goOn_mono b (Nat.zero_le fuel) ?_
    rw [goOn_eq_soFar, soFar_zero]
    exact hr
  · rw [(Run.ended?_eq_some hr).1]
    exact run_elsewhere hb (e.start item) (hagrees.transcript ▸ hwithin) hother

/-- Under the key of each item is what its call leaves there alone, and under all other keys what
was there before. -/
structure Leaves (content : ω → K → V) (key : Item → K) (alone : Item → Run P ε Answer ω)
    (items : List Item) (before after : ω) : Prop where
  own : ∀ item ∈ items, content after (key item) = content (alone item).world (key item)
  others : ∀ k, (∀ item ∈ items, key item ≠ k) → content after k = content before k

section

variable {key : Item → K} {alone : Item → Run P ε Answer ω} {items order : List Item}

/-- That is all of the contents. -/
theorem Leaves.content_eq {after after' : ω} (h : Leaves content key alone items w after)
    (h' : Leaves content key alone items w after') : content after = content after' := by
  funext k
  by_cases hk : ∃ item ∈ items, key item = k
  · obtain ⟨item, hitem, rfl⟩ := hk
    rw [h.own item hitem, h'.own item hitem]
  · have hne : ∀ item ∈ items, key item ≠ k := fun item hitem hkey => hk ⟨item, hitem, hkey⟩
    rw [h.others k hne, h'.others k hne]

/-- The order of the items does not matter. -/
theorem Leaves.of_perm {after : ω} (h : Leaves content key alone order w after)
    (hperm : order.Perm items) : Leaves content key alone items w after :=
  ⟨fun item hitem => h.own item (hperm.mem_iff.mpr hitem),
    fun k hk => h.others k fun item hitem => hk item (hperm.mem_iff.mp hitem)⟩

/-- All tasks are on their way, and nothing has changed under the keys of none. -/
structure System.Apart (b : Backend P ω) (content : ω → K → V) (source : P.Input → K)
    (target : P.Write → Option K) (key : Item → K) (alone : Item → Run P ε Answer ω)
    (items : List Item) (before : ω) (s : System e ω) : Prop where
  heads : ∀ (i : Nat) t, s.tasks[i]? = some t → ∃ item, items[i]? = some item ∧
    t.Heads b content source target (key item) (alone item) s.world
  others : ∀ k, (∀ item ∈ items, key item ≠ k) → content s.world k = content before k

theorem System.start_apart
    (hkeeps : ∀ item ∈ items, e.KeepsTo b source target (key item) item w (alone item)) :
    (System.start e (items.map .ok) w).Apart b content source target key alone items w := by
  refine ⟨fun i t ht => ?_, fun _ _ => rfl⟩
  rw [System.start, List.map_map, List.getElem?_map] at ht
  obtain ⟨item, hitem, rfl⟩ := Option.map_eq_some_iff.mp ht
  exact ⟨item, hitem, (hkeeps item (List.mem_of_getElem? hitem)).heads⟩

theorem System.step_apart (hb : b.Keyed content source target) (hkeys : (items.map key).Nodup)
    {s : System e ω} (h : s.Apart b content source target key alone items w) (i : Nat) :
    (s.step b i).Apart b content source target key alone items w := by
  cases ht : s.tasks[i]? with
  | none => rwa [step_of_none ht]
  | some t =>
    obtain ⟨item, hitem, hheads⟩ := h.heads i t ht
    obtain ⟨hown, hothers⟩ := heads_step hb hheads
    obtain ⟨hlt, -⟩ := List.getElem?_eq_some_iff.mp ht
    rw [step_of_some ht]
    refine ⟨fun j t' hj => ?_, fun k hk => ?_⟩
    · by_cases hij : i = j
      · subst hij
        rw [List.getElem?_set_self hlt] at hj
        obtain rfl := Option.some.inj hj
        exact ⟨item, hitem, hown⟩
      · rw [List.getElem?_set_ne hij] at hj
        obtain ⟨other, hother, hheads'⟩ := h.heads j t' hj
        refine ⟨other, hother, heads_elsewhere hb hheads' (hothers _ fun hsame => hij ?_).symm⟩
        have hlt : i < (items.map key).length := by
          rw [List.length_map]
          exact (List.getElem?_eq_some_iff.mp hitem).1
        refine (List.getElem?_inj hlt hkeys).mp ?_
        rw [List.getElem?_map, List.getElem?_map, hitem, hother]
        exact congrArg some hsame
    · exact (hothers k (hk item (List.mem_of_getElem? hitem))).trans (h.others k hk)

/-- **At the same time.** Whatever the order of the steps, a call that has ended came to what it
comes to alone, and when all have, so has the store. -/
theorem interleaved_apart (hb : b.Keyed content source target) (hkeys : (items.map key).Nodup)
    (hkeeps : ∀ item ∈ items, e.KeepsTo b source target (key item) item w (alone item))
    (schedule : List Nat) :
    let s := (System.start e (items.map .ok) w).run b schedule
    (∀ (i : Nat) item o, items[i]? = some item → s.tasks[i]? = some (.finished o) →
      o = (alone item).outcome) ∧
    (s.isFinished → Leaves content key alone items w s.world) := by
  intro s
  have hapart : s.Apart b content source target key alone items w :=
    System.run_invariant (I := fun s => s.Apart b content source target key alone items w)
      (fun _ i h => System.step_apart hb hkeys h i) schedule (System.start_apart hkeeps)
  refine ⟨fun i item o hitem ho => ?_, fun hfinished => ⟨fun item hitem => ?_, hapart.others⟩⟩
  · obtain ⟨item', hitem', houtcome, -⟩ := hapart.heads i _ ho
    obtain rfl := Option.some.inj (hitem.symm.trans hitem')
    exact houtcome
  · obtain ⟨i, hitem⟩ := List.mem_iff_getElem?.mp hitem
    have hlt : i < s.tasks.length := by
      rw [System.tasks_length, List.length_map]
      exact (List.getElem?_eq_some_iff.mp hitem).1
    have ht := List.getElem?_eq_getElem hlt
    obtain ⟨item', hitem', hheads⟩ := hapart.heads i _ ht
    obtain rfl := Option.some.inj (hitem.symm.trans hitem')
    have hended := List.all_eq_true.mp hfinished _ (List.mem_of_getElem? ht)
    cases hof : s.tasks[i] with
    | running rest =>
      rw [hof] at hended
      cases hended
    | finished o =>
      rw [hof] at hheads
      exact hheads.2

/-- **One after the other.** So it is whatever the order of the calls. -/
theorem inTurn_apart (hb : b.Keyed content source target) (hkeys : (items.map key).Nodup)
    (hkeeps : ∀ item ∈ items, e.KeepsTo b source target (key item) item w (alone item))
    (fuel : Nat) (h : ∀ item ∈ items, content w (key item) = content v (key item)) :
    (e.inTurn b fuel items v).1.map (fun t => (t.item, t.run.outcome)) =
        items.map (fun item => (item, (alone item).outcome)) ∧
      Leaves content key alone items v (e.inTurn b fuel items v).2 := by
  induction items generalizing v with
  | nil => exact ⟨rfl, ⟨fun _ h => (List.not_mem_nil h).elim, fun _ _ => rfl⟩⟩
  | cons item rest ih =>
    obtain ⟨hitem, hrest⟩ := List.forall_mem_cons.mp hkeeps
    obtain ⟨hsame, hothers⟩ := List.forall_mem_cons.mp h
    obtain ⟨hnot, hkeys⟩ := List.nodup_cons.mp hkeys
    have hne : ∀ other ∈ rest, key item ≠ key other := fun other hother hkey =>
      hnot (List.mem_map.mpr ⟨other, hother, hkey.symm⟩)
    obtain ⟨r, hr, hagrees, helse⟩ := hitem.handle_local hb hsame fuel
    obtain ⟨hresults, ⟨hown, hrestOthers⟩⟩ := ih hkeys hrest fun other hother =>
      (hothers other hother).trans (helse _ (hne other hother)).symm
    rw [Engine.inTurn_of_some hr]
    refine ⟨?_, ⟨List.forall_mem_cons.mpr ⟨?_, hown⟩, fun k hk => ?_⟩⟩
    · rw [List.map_cons, List.map_cons, hresults, hagrees.outcome]
    · rw [hrestOthers _ fun other hother => (hne other hother).symm]
      exact hagrees.world.symm
    · obtain ⟨hkey, hk⟩ := List.forall_mem_cons.mp hk
      exact (hrestOthers k hk).trans (helse k hkey)

end

end

/-! ## Neighbours in a batch -/

section

variable {e : Engine P (Failure I R) Item Answer} {b : Backend P ω} {content : ω → K → V}
  {source : P.Input → K} {target : P.Write → Option K}

/-- Two calls within different keys, the other way round. -/
theorem handles_two_swapped (hb : b.Keyed content source target) {x y : Item} {key key' : K}
    (hne : key ≠ key') {w w' : ω} {alone alone' : Run P (Failure I R) Answer ω}
    (hx : e.KeepsTo b source target key x w alone) (hy : e.KeepsTo b source target key' y w alone')
    {fuel : Nat} {results : List (Except (Failure I R) Answer)}
    (h : e.Handles b fuel [.ok x, .ok y] w results w') :
    ∃ p q v, results = [p, q] ∧ e.Handles b fuel [.ok y, .ok x] w [q, p] v ∧
      content v = content w' := by
  obtain ⟨r, p, rest, hr, hp, hrest, rfl⟩ := Engine.handles_cons.mp h
  obtain ⟨s, q, last, hs, hq, hlast, rfl⟩ := Engine.handles_cons.mp hrest
  obtain ⟨rfl, rfl⟩ := Engine.handles_nil.mp hlast
  obtain ⟨r', hr', hrAgrees, hrElse⟩ := hx.handle_local hb rfl fuel
  obtain rfl := Option.some.inj (hr.symm.trans hr')
  obtain ⟨s', hs', hsAgrees, hsElse⟩ := hy.handle_local hb (hrElse key' hne).symm fuel
  obtain rfl := Option.some.inj (hs.symm.trans hs')
  -- the same two calls in the other order
  obtain ⟨s', hs', hsAgrees', hsElse'⟩ := hy.handle_local hb rfl fuel
  obtain ⟨r', hr', hrAgrees', hrElse'⟩ := hx.handle_local hb (hsElse' key hne.symm).symm fuel
  refine ⟨p, q, r'.world, rfl, ?_, funext fun k => ?_⟩
  · refine Engine.handles_cons.mpr ⟨s', q, [p], hs', ?_, ?_, rfl⟩
    · rw [← hsAgrees'.outcome, hsAgrees.outcome, hq]
    · refine Engine.handles_cons.mpr ⟨r', p, [], hr', ?_, Engine.handles_nil.mpr ⟨rfl, rfl⟩, rfl⟩
      rw [← hrAgrees'.outcome, hrAgrees.outcome, hp]
  · by_cases hkey : key = k
    · subst hkey
      exact hrAgrees'.world.symm.trans (hrAgrees.world.trans (hsElse key hne.symm).symm)
    · rw [hrElse' k hkey]
      by_cases hkey' : key' = k
      · subst hkey'
        exact hsAgrees'.world.symm.trans hsAgrees.world
      · rw [hsElse k hkey', hsElse' k hkey', hrElse k hkey]

/-- **Neighbours.** In a batch, two calls in a row that keep to different keys may change places:
their results do so too, and all else stays as it is. -/
theorem handles_swapped (hb : b.Keyed content source target) {x y : Item} {key key' : K}
    (hne : key ≠ key') {fuel : Nat} {xs ys : List (Except String Item)} {w w' : ω}
    (hx : ∀ first between, e.Handles b fuel xs w first between →
      ∃ alone, e.KeepsTo b source target key x between alone)
    (hy : ∀ first between, e.Handles b fuel xs w first between →
      ∃ alone, e.KeepsTo b source target key' y between alone)
    {results : List (Except (Failure I R) Answer)}
    (h : e.Handles b fuel (xs ++ .ok x :: .ok y :: ys) w results w') :
    ∃ first p q rest v, results = first ++ p :: q :: rest ∧ first.length = xs.length ∧
      e.Handles b fuel (xs ++ .ok y :: .ok x :: ys) w (first ++ q :: p :: rest) v ∧
      content v = content w' := by
  obtain ⟨first, others, between, hfirst, hothers, rfl⟩ := Engine.handles_append.mp h
  rw [show .ok x :: .ok y :: ys = [.ok x, .ok y] ++ ys from rfl] at hothers
  obtain ⟨both, rest, after, hboth, hrest, rfl⟩ := Engine.handles_append.mp hothers
  obtain ⟨alone, hx⟩ := hx first between hfirst
  obtain ⟨alone', hy⟩ := hy first between hfirst
  obtain ⟨p, q, after', rfl, hswapped, hcontent⟩ := handles_two_swapped hb hne hx hy hboth
  obtain ⟨v, hrest', hlast⟩ :=
    Engine.exists_handles_of_content hb.determined hrest hcontent.symm
  refine ⟨first, p, q, rest, v, rfl, hfirst.length_eq, ?_, hlast⟩
  exact Engine.handles_append.mpr ⟨first, _, between, hfirst,
    Engine.handles_append.mpr ⟨[q, p], rest, after', hswapped, hrest', rfl⟩, rfl⟩

end

/-! ## The engines -/

/-- In this world, what the call saves belongs under the key. -/
def Engine.SavesUnder (e : Engine P ε Item Answer) (b : Backend P ω) (fuel : Nat)
    (target : P.Write → Option K) (key : K) (item : Item) (w : ω) : Prop :=
  ∀ r, e.handle b fuel item w = some r → r.SavesUnder target key

namespace Engine

/-- An engine of one round comes to an end with every item, whatever the fuel. -/
theorem RunsOnce.exists_runs {e : Engine P ε Item P.Ack} {input : Item → P.Input}
    (he : e.RunsOnce input) (b : Backend P ω) (w : ω) :
    ∃ alone : Item → Run P ε P.Ack ω, ∀ fuel item, e.handle b fuel item w = some (alone item) := by
  obtain ⟨body, rfl, -⟩ := he
  exact ⟨fun item => (body item).run b w, fun fuel item => handle_ofProgram body b fuel item w⟩

/-- It keeps to the key of its input if it saves under that. -/
theorem RunsOnce.keepsTo {e : Engine P ε Item P.Ack} {input : Item → P.Input}
    (he : e.RunsOnce input) {b : Backend P ω} {source : P.Input → K} {target : P.Write → Option K}
    {item : Item} {w : ω} {fuel : Nat}
    (hsaves : e.SavesUnder b fuel target (source (input item)) item w)
    {alone : Run P ε P.Ack ω} (halone : e.handle b fuel item w = some alone) :
    e.KeepsTo b source target (source (input item)) item w alone := by
  obtain ⟨body, rfl, hbody⟩ := he
  obtain ⟨onFetch, onWrite, course, hcourse⟩ := hbody item
  rw [handle_ofProgram] at halone
  obtain rfl := Option.some.inj halone
  refine ⟨handle_ofProgram body b 0 item w, fun h hmem => ?_⟩
  by_cases hcall : h.isCall = true
  · rcases call_of_once (hcourse ▸ mem_unnoted hmem hcall) with
      ⟨reply, rfl⟩ | ⟨-, data, reply, -, rfl⟩
    · rfl
    · exact hsaves _ (handle_ofProgram body b fuel item w) data reply hmem
  · cases h with
    | noted n => trivial
    | _ => exact absurd rfl hcall

/-- What several calls come to, each as if it were alone. -/
structure EachAlone (e : Engine P ε Item Answer) (b : Backend P ω) (fuel : Nat)
    (content : ω → K → V) (key : Item → K) (items : List Item) (w : ω)
    (alone : Item → Run P ε Answer ω) : Prop where
  handled : ∀ item, e.handle b fuel item w = some (alone item)
  /-- At the same time, whatever the order of the steps. -/
  interleaved : ∀ schedule, let s := (System.start e (items.map .ok) w).run b schedule
    (∀ (i : Nat) item o, items[i]? = some item → s.tasks[i]? = some (.finished o) →
      o = (alone item).outcome) ∧
    (s.isFinished → Leaves content key alone items w s.world)
  /-- One after the other, whatever the order of the calls. -/
  inTurn : ∀ order, order.Perm items →
    (e.inTurn b fuel order w).1.map (fun t => (t.item, t.run.outcome)) =
      order.map (fun item => (item, (alone item).outcome)) ∧
    Leaves content key alone items w (e.inTurn b fuel order w).2
  same : ∀ schedule order, order.Perm items →
    let s := (System.start e (items.map .ok) w).run b schedule
    s.isFinished → content s.world = content (e.inTurn b fuel order w).2

/-- Over stores by keys, calls that save under the keys of their inputs do not notice each other as
long as these are different. -/
structure Independent (e : Engine P (Failure I R) Item Answer) (input : Item → P.Input) : Prop where
  eachAlone : ∀ {ω K V : Type} {b : Backend P ω} {content : ω → K → V} {source : P.Input → K}
    {target : P.Write → Option K}, b.Keyed content source target → ∀ {fuel items w},
    (items.map fun item => source (input item)).Nodup →
    (∀ item ∈ items, e.SavesUnder b fuel target (source (input item)) item w) →
    ∃ alone, e.EachAlone b fuel content (fun item => source (input item)) items w alone
  /-- Neighbours in a batch may change places. -/
  swapped : ∀ {ω K V : Type} {b : Backend P ω} {content : ω → K → V} {source : P.Input → K}
    {target : P.Write → Option K}, b.Keyed content source target → ∀ {fuel x y xs ys w results w'},
    source (input x) ≠ source (input y) →
    (∀ first between, e.Handles b fuel xs w first between →
      e.SavesUnder b fuel target (source (input x)) x between ∧
      e.SavesUnder b fuel target (source (input y)) y between) →
    e.Handles b fuel (xs ++ .ok x :: .ok y :: ys) w results w' →
    ∃ first p q rest v, results = first ++ p :: q :: rest ∧ first.length = xs.length ∧
      e.Handles b fuel (xs ++ .ok y :: .ok x :: ys) w (first ++ q :: p :: rest) v ∧
      content v = content w'

theorem RunsOnce.independent {e : Engine P (Failure I R) Item P.Ack} {input : Item → P.Input}
    (he : e.RunsOnce input) : e.Independent input where
  eachAlone := by
    intro ω K V b content source target hb fuel items w hkeys hsaves
    obtain ⟨alone, halone⟩ := he.exists_runs b w
    have hkeeps : ∀ item ∈ items, e.KeepsTo b source target (source (input item)) item w
        (alone item) := fun item hitem => he.keepsTo (hsaves item hitem) (halone fuel item)
    have hinterleaved := interleaved_apart hb hkeys hkeeps
    have hturns : ∀ order, order.Perm items →
        (e.inTurn b fuel order w).1.map (fun t => (t.item, t.run.outcome)) =
          order.map (fun item => (item, (alone item).outcome)) ∧
        Leaves content (fun item => source (input item)) alone items w
          (e.inTurn b fuel order w).2 := by
      intro order hperm
      obtain ⟨hresults, hleaves⟩ := inTurn_apart hb ((hperm.map _).nodup_iff.mpr hkeys)
        (fun item hitem => hkeeps item (hperm.mem_iff.mp hitem)) fuel fun _ _ => rfl
      exact ⟨hresults, hleaves.of_perm hperm⟩
    exact ⟨alone, halone fuel, hinterleaved, hturns, fun schedule order hperm hfinished =>
      ((hinterleaved schedule).2 hfinished).content_eq (hturns order hperm).2⟩
  swapped := by
    intro ω K V b content source target hb fuel x y xs ys w results w' hne hsaves
    have hkeeps : ∀ (item : Item) (between : ω),
        e.SavesUnder b fuel target (source (input item)) item between →
        ∃ alone, e.KeepsTo b source target (source (input item)) item between alone := by
      intro item between hsaves
      obtain ⟨alone, halone⟩ := he.exists_runs b between
      exact ⟨alone item, he.keepsTo hsaves (halone fuel item)⟩
    exact handles_swapped hb hne
      (fun first between h => hkeeps x between (hsaves first between h).1)
      fun first between h => hkeeps y between (hsaves first between h).2

end Engine

/-- **Different streams are independent.** -/
theorem keys_are_independent (d : Decider C S E R) (v : View T F) :
    (EventSourced.plain d).Independent id ∧
    (EventSourced.locking d).Independent id ∧
    (StateStored.plain d).Independent id ∧
    (StateStored.locking d).Independent id ∧
    (StateStored.deduplicating d).Independent Prod.fst ∧
    (Projection.plain v).Independent id ∧
    (Projection.locking v).Independent id ∧
    (Projection.deduplicating v).Independent Prod.fst :=
  ⟨(EventSourced.plain_runsOnce d).independent, (EventSourced.locking_runsOnce d).independent,
    (StateStored.plain_runsOnce d).independent, (StateStored.locking_runsOnce d).independent,
    (StateStored.deduplicating_runsOnce d).independent, (Projection.plain_runsOnce v).independent,
    (Projection.locking_runsOnce v).independent, (Projection.deduplicating_runsOnce v).independent⟩

/-- Over streams, a command saves under its key where what it decides belongs there. -/
theorem EventSourced.plain_savesUnder [DecidableEq K] {d : Decider C S E R}
    {layout : Layout K C E T}
    (hroutes : layout.Routes d) (b : Backend (Exchange.events C E) ω) (fuel : Nat) (c : C) (w : ω) :
    (plain d).SavesUnder b fuel (fun batch => batch.head?.map layout.ofEvent) (layout.ofInput c) c
      w := by
  intro r hr
  rw [plain, Engine.handle_ofProgram] at hr
  obtain rfl := Option.some.inj hr
  exact (execute_savesUnder hroutes b c w).of_writes rfl

/-- Bookings on three accounts, of which one is refused; and in a batch, two of them change
places. -/
theorem bookings_apart :
    let e := EventSourced.plain Account.decider
    let b := Store.events Account.layout .faithful
    let st : Store Nat Account.Entry Account.Entry Empty := .empty
    (∃ alone, e.EachAlone b 0 Store.under Prod.fst [(1, 5), (2, 7), (3, 2000)] st alone) ∧
    ∃ w v,
      e.Handles b 0 [.error "cut off", .ok (1, 5), .ok (2, 7), .ok (1, 1)] st
        [.error (.publishingFailed none (.text "cut off")), .ok [(1, 5)], .ok [(2, 7)],
          .ok [(1, 1)]] w ∧
      e.Handles b 0 [.error "cut off", .ok (2, 7), .ok (1, 5), .ok (1, 1)] st
        [.error (.publishingFailed none (.text "cut off")), .ok [(2, 7)], .ok [(1, 5)],
          .ok [(1, 1)]] v ∧
      v.under = w.under := by
  intro e b st
  have hkeyed : b.Keyed Store.under _ _ := Store.events_keyed (S := Account.Entry) (A := Empty)
    Account.layout .faithful
  have hsaves := EventSourced.plain_savesUnder (R := String) Account.routes b 0
  obtain ⟨hplain, -⟩ := keys_are_independent Account.decider Account.view
  refine ⟨hplain.eachAlone hkeyed (by decide) fun c _ => hsaves c st, ?_⟩
  let first := st.extend 1 [((1, 5), ⟨1⟩)]
  let second := first.extend 2 [((2, 7), ⟨1⟩)]
  let third := second.extend 1 [((1, 1), ⟨2⟩)]
  have hthird : e.Handles b 0 [.ok (1, 1)] second [.ok [(1, 1)]] third :=
    Engine.handles_cons_of_world ⟨_, rfl, rfl, rfl⟩ (Engine.handles_nil.mpr ⟨rfl, rfl⟩)
  have hsecond : e.Handles b 0 [.ok (2, 7), .ok (1, 1)] first [.ok [(2, 7)], .ok [(1, 1)]] third :=
    Engine.handles_cons_of_world ⟨_, rfl, rfl, rfl⟩ hthird
  have hall : e.Handles b 0 ([.error "cut off"] ++ .ok (1, 5) :: .ok (2, 7) :: [.ok (1, 1)]) st
      [.error (.publishingFailed none (.text "cut off")), .ok [(1, 5)], .ok [(2, 7)], .ok [(1, 1)]]
      third :=
    Engine.handles_unreadable.mpr
      ⟨_, Engine.handles_cons_of_world ⟨_, rfl, rfl, rfl⟩ hsecond, rfl⟩
  obtain ⟨first, p, q, rest, v, hresults, hlength, hswapped, hunder⟩ :=
    hplain.swapped hkeyed (by decide) (fun _ between _ => ⟨hsaves _ between, hsaves _ between⟩) hall
  obtain ⟨x, rfl⟩ := List.length_eq_one_iff.mp hlength
  cases hresults
  exact ⟨_, v, hall, hswapped, hunder⟩

end EventMachines
