import EventMachines.Proofs.Execution.Determinism
import EventMachines.Proofs.Store.Growth

/-!
Stores by keys. The reply to a call depends on what is held under its key, and a call changes
nothing under any other. So a program that keeps to a key depends on nothing else, and nothing else
on it.

* `Backend.Keyed`: such a store, and `Happening.Within`: what keeps to a key;
* `run_local`, `run_elsewhere`: a program that keeps to a key, from another world and for other
  keys;
* `Store.events_keyed` and the like: the store in memory is a store by keys.
-/

namespace EventMachines

open Program hiding bind

variable {P : Exchange} {C S E I A K V ε α ω : Type}

/-! ## Stores by keys -/

/-- What is held under a key says what a call for that key is answered and what is held there
afterwards. A fetch and a question change nothing, and a write nothing under other keys. -/
structure Backend.Keyed (b : Backend P ω) (content : ω → K → V) (source : P.Input → K)
    (target : P.Write → Option K) : Prop where
  fetched : ∀ i w v, content w (source i) = content v (source i) → (b.fetch i w).1 = (b.fetch i v).1
  unchanged : ∀ i w, content (b.fetch i w).2 = content w
  written : ∀ data w v, (∀ key, target data = some key → content w key = content v key) →
    (b.write data w).1 = (b.write data v).1 ∧ ∀ key, target data = some key →
      content (b.write data w).2 key = content (b.write data v).2 key
  elsewhere : ∀ data w key, target data ≠ some key → content (b.write data w).2 key = content w key
  consulted : ∀ i w v, content w (source i) = content v (source i) → b.consult i w = b.consult i v

/-- All under the keys is what the store depends on. -/
theorem Backend.Keyed.determined {b : Backend P ω} {content : ω → K → V} {source : P.Input → K}
    {target : P.Write → Option K} (hb : b.Keyed content source target) : b.Determined content where
  fetch i w v h := by
    refine ⟨hb.fetched i w v (congrFun h _), ?_⟩
    rw [hb.unchanged, hb.unchanged, h]
  write data w v h := by
    obtain ⟨hreply, hwritten⟩ := hb.written data w v fun key _ => congrFun h key
    refine ⟨hreply, funext fun key => ?_⟩
    by_cases hkey : target data = some key
    · exact hwritten key hkey
    · rw [hb.elsewhere data w key hkey, hb.elsewhere data v key hkey, h]
  consult i w v h := hb.consulted i w v (congrFun h _)

/-- The call, if it is one, is for that key. -/
def Happening.Within (source : P.Input → K) (target : P.Write → Option K) (key : K) :
    Happening P → Prop
  | noted _ => True
  | fetched i _ => source i = key
  | wrote data _ => target data = some key
  | consulted i _ => source i = key

section

variable {b : Backend P ω} {content : ω → K → V} {source : P.Input → K}
  {target : P.Write → Option K} {key : K}

/-! ## Programs -/

/-- A run that keeps to a key goes alike from all worlds with the same under that key. -/
theorem run_local (hb : b.Keyed content source target) (p : Program P ε α) {w v : ω}
    (hwithin : ∀ h ∈ (p.run b w).transcript, h.Within source target key)
    (h : content w key = content v key) :
    (p.run b w).Agrees (content · key) (p.run b v) := by
  induction p generalizing w v with
  | halt o => exact ⟨rfl, rfl, h⟩
  | note n rest ih => exact (ih (List.forall_mem_cons.mp hwithin).2 h).after _
  | fetch i rest ih =>
    have hkey : source i = key := by
      rcases hf : b.fetch i w with ⟨x | r, w'⟩ <;> simp only [run, hf] at hwithin <;>
        exact (List.forall_mem_cons.mp hwithin).1
    have hreply := hb.fetched i w v (hkey ▸ h)
    have hw := congrFun (hb.unchanged i w) key
    have hv := congrFun (hb.unchanged i v) key
    rcases hf : b.fetch i w with ⟨x | r, w'⟩ <;> rcases hg : b.fetch i v with ⟨y | r', v'⟩ <;>
      rw [hf, hg] at hreply <;> cases hreply <;> rw [hf] at hw <;> rw [hg] at hv <;>
      simp only [run, hf, hg] at hwithin ⊢
    · exact ⟨rfl, rfl, hw.trans (h.trans hv.symm)⟩
    · exact (ih r (List.forall_mem_cons.mp hwithin).2 (hw.trans (h.trans hv.symm))).after _
  | write data rest ih =>
    have hkey : target data = some key := by
      rcases hd : b.write data w with ⟨x | r, w'⟩ <;> simp only [run, hd] at hwithin <;>
        exact (List.forall_mem_cons.mp hwithin).1
    obtain ⟨hreply, hafter⟩ := hb.written data w v fun other hother => by
      obtain rfl := Option.some.inj (hkey.symm.trans hother)
      exact h
    have hafter := hafter key hkey
    rcases hd : b.write data w with ⟨x | r, w'⟩ <;> rcases hg : b.write data v with ⟨y | r', v'⟩ <;>
      rw [hd, hg] at hreply hafter <;> cases hreply <;> simp only [run, hd, hg] at hwithin ⊢
    · exact ⟨rfl, rfl, hafter⟩
    · exact (ih r (List.forall_mem_cons.mp hwithin).2 hafter).after _
  | consult i rest ih =>
    simp only [run] at hwithin ⊢
    obtain ⟨hkey, hrest⟩ := List.forall_mem_cons.mp hwithin
    rw [← hb.consulted i w v (hkey ▸ h)]
    exact (ih _ hrest h).after _

/-- It changes nothing under any other key. -/
theorem run_elsewhere (hb : b.Keyed content source target) (p : Program P ε α) {w : ω}
    (hwithin : ∀ h ∈ (p.run b w).transcript, h.Within source target key) {other : K}
    (hother : key ≠ other) : content (p.run b w).world other = content w other := by
  induction p generalizing w with
  | halt o => rfl
  | note n rest ih => exact ih (List.forall_mem_cons.mp hwithin).2
  | fetch i rest ih =>
    have hsame := congrFun (hb.unchanged i w) other
    rcases hf : b.fetch i w with ⟨x | r, w'⟩ <;> rw [hf] at hsame <;>
      simp only [run, hf] at hwithin ⊢
    · exact hsame
    · exact (ih r (List.forall_mem_cons.mp hwithin).2).trans hsame
  | write data rest ih =>
    have hsame := hb.elsewhere data w other
    rcases hd : b.write data w with ⟨x | r, w'⟩ <;> rw [hd] at hsame <;>
      simp only [run, hd] at hwithin ⊢ <;>
      obtain ⟨hkey, hrest⟩ := List.forall_mem_cons.mp hwithin <;>
      have hne : target data ≠ some other := fun h =>
        hother (Option.some.inj (hkey.symm.trans h))
    · exact hsame hne
    · exact (ih r hrest).trans (hsame hne)
  | consult i rest ih => exact ih _ (List.forall_mem_cons.mp hwithin).2

end

/-! ## The store in memory -/

namespace Store

variable [DecidableEq K]

/-- All that is held under a key. -/
def under (st : Store K E S A) (key : K) : List (E × Version) × Option (S × UInt64) :=
  (st.stream key, st.slot key)

/-- What a write comes to in two stores: the same reply, and the same change under its key, if
any. -/
inductive Alike {α : Type} (w v : Store K E S A) :
    Option K → Reply α × Store K E S A → Reply α × Store K E S A → Prop
  | same (key : Option K) (reply : Reply α) : Alike w v key (reply, w) (reply, v)
  | extended (key : K) (added : List (E × Version)) (reply : Reply α) :
    Alike w v (some key) (reply, w.extend key added) (reply, v.extend key added)
  | replaced (key : K) (s : S) (number : UInt64) (reply : Reply α) :
    Alike w v (some key) (reply, w.putSlot key s number) (reply, v.putSlot key s number)

section

variable {α : Type} {w v : Store K E S A} {target : Option K} {p q : Reply α × Store K E S A}

theorem Alike.written (h : Alike w v target p q)
    (hsame : ∀ key, target = some key → w.under key = v.under key) :
    p.1 = q.1 ∧ ∀ key, target = some key → p.2.under key = q.2.under key := by
  cases h with
  | same reply => exact ⟨rfl, hsame⟩
  | extended key added reply =>
    refine ⟨rfl, fun _ hkey => ?_⟩
    obtain rfl := Option.some.inj hkey
    obtain ⟨hstream, hslot⟩ := Prod.mk.inj (hsame key rfl)
    exact Prod.ext (by simp only [under, stream_extend_self, hstream]) hslot
  | replaced key s number reply =>
    refine ⟨rfl, fun _ hkey => ?_⟩
    obtain rfl := Option.some.inj hkey
    obtain ⟨hstream, -⟩ := Prod.mk.inj (hsame key rfl)
    exact Prod.ext hstream (by simp only [under, slot_putSlot_self])

theorem Alike.elsewhere (h : Alike w v target p q) {key : K} (hne : target ≠ some key) :
    p.2.under key = w.under key := by
  cases h with
  | same reply => rfl
  | extended other added reply =>
    exact Prod.ext (stream_extend_ne w (fun hkey => hne (congrArg some hkey)) added) rfl
  | replaced other s number reply =>
    exact Prod.ext rfl (slot_putSlot_ne w (fun hkey => hne (congrArg some hkey)) s number)

end

/-- A store that answers a fetch with what is under its key, and makes the same of a write wherever
the same is under the key of that. -/
theorem keyed_of_alike {b : Backend P (Store K E S A)} {source : P.Input → K}
    {target : P.Write → Option K}
    (hfetch : ∀ i w v, w.under (source i) = v.under (source i) → (b.fetch i w).1 = (b.fetch i v).1)
    (hunchanged : ∀ i w, (b.fetch i w).2 = w)
    (hwrite : ∀ data w v, (∀ key, target data = some key → w.under key = v.under key) →
      Alike w v (target data) (b.write data w) (b.write data v))
    (hconsult : ∀ i w, b.consult i w = none) : b.Keyed under source target where
  fetched := hfetch
  unchanged i w := congrArg under (hunchanged i w)
  written data w v h := (hwrite data w v h).written h
  elsewhere data w _ hne := (hwrite data w w fun _ _ => rfl).elsewhere hne
  consulted i w v _ := (hconsult i w).trans (hconsult i v).symm

theorem streamVersion_eq {w v : Store K E S A} {key : K} (h : w.under key = v.under key) :
    w.streamVersion key = v.streamVersion key :=
  congrArg (fun held => held.1.getLast?.map (·.2)) h

theorem slotNumber_eq {w v : Store K E S A} {key : K} (h : w.under key = v.under key) :
    w.slotNumber key = v.slotNumber key :=
  congrArg (fun held => held.2.map (·.2)) h

variable (layout : Layout K I E S) (intake : Intake E S A)

/-- A batch belongs under the key of its first event. -/
theorem events_keyed :
    (events layout intake).Keyed under layout.ofInput
      fun batch => batch.head?.map layout.ofEvent := by
  refine keyed_of_alike (fun i w v h => ?_) (fun _ _ => rfl) (fun batch w v h => ?_) fun _ _ => rfl
  · exact congrArg (fun held => Except.ok (Except.ok (held.1.map (·.1)))) h
  · cases batch with
    | nil => exact .same none _
    | cons e rest =>
      simp only [events, append, streamVersion_eq (h _ rfl)]
      cases intake.take (v.streamVersion (layout.ofEvent e)) (e :: rest) with
      | error x => exact .same _ _
      | ok added =>
        exact .extended (layout.ofEvent e) added (.ok (.ok (intake.echo.of (added.map (·.1)))))

theorem lockedEvents_keyed :
    (lockedEvents layout intake fun _ _ => none).Keyed under layout.ofInput
      fun data => data.1.head?.map layout.ofEvent := by
  refine keyed_of_alike (fun i w v h => ?_) (fun _ _ => rfl) ?_ fun _ _ => rfl
  · exact congrArg (fun held => Except.ok (Except.ok held.1)) h
  · rintro ⟨_ | ⟨e, rest⟩, expected⟩ w v h
    · exact .same none _
    · simp only [lockedEvents, append, streamVersion_eq (h _ rfl)]
      cases expected.check (v.streamVersion (layout.ofEvent e)) with
      | error error => exact .same _ _
      | ok =>
        cases intake.take (v.streamVersion (layout.ofEvent e)) (e :: rest) with
        | error x => exact .same _ _
        | ok added => exact .extended (layout.ofEvent e) added (.ok (.ok (intake.echo.of added)))

theorem states_keyed :
    (states layout intake).Keyed under layout.ofInput fun s => some (layout.ofState s) := by
  refine keyed_of_alike (fun i w v h => ?_) (fun _ _ => rfl) (fun s w v h => ?_) fun _ _ => rfl
  · exact congrArg (fun held => Except.ok (Except.ok (held.2.map (·.1)))) h
  · simp only [states, nextNumber, replace, slotNumber_eq (h _ rfl)]
    cases Version.after ((v.slotNumber (layout.ofState s)).map (⟨·⟩)) with
    | error x => exact .same _ _
    | ok version =>
      cases intake.onState s with
      | error x => exact .same _ _
      | ok stored => exact .replaced (layout.ofState s) stored version.number (.ok (.ok stored))

theorem lockedStates_keyed :
    (lockedStates layout intake fun _ _ => none).Keyed under layout.ofInput
      fun data => some (layout.ofState data.1) := by
  refine keyed_of_alike (fun i w v h => ?_) (fun _ _ => rfl) ?_ fun _ _ => rfl
  · have hslot : w.slot (layout.ofInput i) = v.slot (layout.ofInput i) := congrArg Prod.snd h
    simp only [lockedStates, hslot]
  · rintro ⟨s, expected⟩ w v h
    simp only [lockedStates, nextNumber, replace, slotNumber_eq (h _ rfl)]
    cases expected.check ((v.slotNumber (layout.ofState s)).map (⟨·⟩)) with
    | error error => exact .same _ _
    | ok =>
      cases Version.after ((v.slotNumber (layout.ofState s)).map (⟨·⟩)) with
      | error x => exact .same _ _
      | ok version =>
        cases intake.onState s with
        | error x => exact .same _ _
        | ok stored =>
          exact .replaced (layout.ofState s) stored version.number (.ok (.ok (stored, version)))

theorem numberedStates_keyed :
    (numberedStates layout intake).Keyed under layout.ofInput
      fun data => some (layout.ofState data.1) := by
  refine keyed_of_alike (fun i w v h => ?_) (fun _ _ => rfl) ?_ fun _ _ => rfl
  · have hslot : w.slot (layout.ofInput i) = v.slot (layout.ofInput i) := congrArg Prod.snd h
    simp only [numberedStates, hslot]
  · rintro ⟨s, sequence⟩ w v h
    simp only [numberedStates, replace, slotNumber_eq (h _ rfl)]
    rcases sequence.check ((v.slotNumber (layout.ofState s)).map (⟨·⟩)) with x | error | _
    · exact .same _ _
    · exact .same _ _
    · cases intake.onState s with
      | error x => exact .same _ _
      | ok stored =>
        exact .replaced (layout.ofState s) stored sequence.number (.ok (.ok (stored, sequence)))

end Store

end EventMachines
