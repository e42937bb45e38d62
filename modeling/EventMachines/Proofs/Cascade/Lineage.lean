import EventMachines.Proofs.Cascade.Search

/-!
Where the commands of a cascade come from. A work list does not look at its commands and outputs, so
each command may carry the chain of commands and outputs that it derives from, and each output the
chain of the command it was put out for; the rounds stay the same.

* `After`: the work lists that any number of rounds come to;
* `exists_traced`: the rounds of a work list are those of one whose commands carry their lineage;
* `descends_of_next`: what one round tells of a lineage;
* `TracedAfter.descends`: commands lie as deep as their lineage has hops, and behind every hop there
  is an output that was pushed and a reaction that was taken of it.
-/

namespace EventMachines

variable {C D O Q : Type}

namespace Cascade

/-! ## Rounds -/

/-- One round of the loop over a work list: the reactions that the search takes, and the command it
comes to with the outputs that are pushed. For a command that a limit refuses none are. -/
inductive Round (C O : Type) where
  | command (asked : List (O × List C)) (c : C) (depth : Nat) (outputs : List O)
  | finished (asked : List (O × List C))

namespace Round

def asked : Round C O → List (O × List C)
  | command asked _ _ _ => asked
  | finished asked => asked

def outputs : Round C O → List O
  | command _ _ _ outputs => outputs
  | finished _ => []

def rename (f : C → D) (g : O → Q) : Round C O → Round D Q
  | command asked c depth outputs =>
    command (asked.map (Prod.map g (List.map f))) (f c) depth (outputs.map g)
  | finished asked => finished (asked.map (Prod.map g (List.map f)))

end Round

/-- The work list after these rounds. Each of them has a reaction and outputs of its own; the list
between a search and the push is that of the round in which nothing is pushed. -/
inductive After (root : C) : List (Round C O) → Cascade C O → Prop
  | start : After root [] (start root)
  | command {rounds : List (Round C O)} {k rest : Cascade C O} {c : C} {depth derived : Nat}
      (before : After root rounds k) (reaction : O → Checked (List C))
      (next : k.next reaction = .ok (.command c depth derived rest)) (outputs : List O) :
      After root (rounds ++ [.command (k.asked reaction) c depth outputs])
        (rest.push outputs depth)
  | finished {rounds : List (Round C O)} {k : Cascade C O} {outputs : List O}
      (before : After root rounds k) (reaction : O → Checked (List C))
      (next : k.next reaction = .ok (.finished outputs)) :
      After root (rounds ++ [.finished (k.asked reaction)]) ⟨[], outputs.reverse⟩

end Cascade

/-! ## Lineages -/

/-- How a command has come about: it started the cascade, or an output that was put out for another
command caused it. -/
inductive Lineage (C O : Type) where
  | root (c : C)
  | caused (parent : Lineage C O) (o : O) (c : C)

namespace Lineage

def command : Lineage C O → C
  | root c => c
  | caused _ _ c => c

/-- The number of reactions between a command and the one that started the cascade. -/
def hops : Lineage C O → Nat
  | root _ => 0
  | caused parent _ _ => parent.hops + 1

end Lineage

namespace Cascade

/-- A work list whose commands carry their lineage, and whose outputs that of their command. -/
abbrev Traced (C O : Type) := Cascade (Lineage C O) (Lineage C O × O)

abbrev TracedRound (C O : Type) := Round (Lineage C O) (Lineage C O × O)

def Traced.untraced (k : Traced C O) : Cascade C O := k.rename Lineage.command Prod.snd

def TracedRound.untraced (r : TracedRound C O) : Round C O := r.rename Lineage.command Prod.snd

/-- The reaction to an output, where the commands it causes get their lineage from the output. -/
def traced (reaction : O → Checked (List C)) (o : Lineage C O × O) : Checked (List (Lineage C O)) :=
  List.map (.caused o.1 o.2) <$> reaction o.2

/-- The work list after these rounds, where lineages are carried along. -/
inductive TracedAfter (root : C) : List (TracedRound C O) → Traced C O → Prop
  | start : TracedAfter root [] (start (.root root))
  | command {rounds : List (TracedRound C O)} {k rest : Traced C O}
      {l : Lineage C O} {depth derived : Nat} (before : TracedAfter root rounds k)
      (reaction : O → Checked (List C))
      (next : k.next (traced reaction) = .ok (.command l depth derived rest)) (outputs : List O) :
      TracedAfter root
        (rounds ++ [.command (k.asked (traced reaction)) l depth (outputs.map fun o => (l, o))])
        (rest.push (outputs.map fun o => (l, o)) depth)
  | finished {rounds : List (TracedRound C O)} {k : Traced C O}
      {outputs : List (Lineage C O × O)} (before : TracedAfter root rounds k)
      (reaction : O → Checked (List C))
      (next : k.next (traced reaction) = .ok (.finished outputs)) :
      TracedAfter root (rounds ++ [.finished (k.asked (traced reaction))]) ⟨[], outputs.reverse⟩

theorem untraced_traced (reaction : O → Checked (List C)) (o : Lineage C O × O) :
    reaction o.2 = List.map Lineage.command <$> traced reaction o := by
  obtain ⟨l, o⟩ := o
  rw [traced]
  rcases reaction o with x | commands
  · rfl
  · have hsame : (commands.map (Lineage.caused l o)).map Lineage.command = commands := by
      rw [List.map_map]
      exact List.map_id commands
    exact (congrArg Except.ok hsame).symm

theorem untraced_outputs (l : Lineage C O) (outputs : List O) :
    (outputs.map fun o => (l, o)).map Prod.snd = outputs := by
  rw [List.map_map]
  exact List.map_id outputs

/-- A search that takes lineages along. -/
theorem exists_traced_next {reaction : O → Checked (List C)} {k : Traced C O} {next : Next C O}
    (h : k.untraced.next reaction = .ok next) :
    k.untraced.asked reaction =
        (k.asked (traced reaction)).map (Prod.map Prod.snd (List.map Lineage.command)) ∧
      ∃ next', k.next (traced reaction) = .ok next' ∧
        next'.rename Lineage.command Prod.snd = next := by
  have hrenamed := (next_renamed (untraced_traced reaction) k).symm.trans h
  obtain ⟨next', hnext', hsame⟩ := Checked.map_eq_ok.mp hrenamed
  exact ⟨asked_renamed (untraced_traced reaction) hnext', next', hnext', hsame⟩

/-- **Lineages are carried along.** Whatever rounds a work list is after, a work list whose commands
carry their lineage is after the same. -/
theorem exists_traced {root : C} {rounds : List (Round C O)} {k : Cascade C O}
    (h : After root rounds k) :
    ∃ rounds' k', TracedAfter root rounds' k' ∧ rounds'.map TracedRound.untraced = rounds ∧
      k'.untraced = k := by
  induction h with
  | start => exact ⟨[], _, .start, rfl, rfl⟩
  | @command _ _ _ _ depth _ _ reaction hnext outputs ih =>
    obtain ⟨rounds', k', hafter, rfl, rfl⟩ := ih
    obtain ⟨hasked, next', hnext', hsame⟩ := exists_traced_next hnext
    rcases next' with _ | ⟨l, _, _, rest⟩
    · cases hsame
    · cases hsame
      refine ⟨_, _, hafter.command reaction hnext' outputs, ?_, ?_⟩
      · rw [List.map_append, List.map_singleton, TracedRound.untraced, Round.rename,
          untraced_outputs, hasked]
      · have hpush := push_renamed Lineage.command Prod.snd rest (outputs.map fun o => (l, o)) depth
        rw [untraced_outputs] at hpush
        exact hpush.symm
  | finished _ reaction hnext ih =>
    obtain ⟨rounds', k', hafter, rfl, rfl⟩ := ih
    obtain ⟨hasked, next', hnext', hsame⟩ := exists_traced_next hnext
    rcases next' with outputs | _
    · cases hsame
      refine ⟨_, _, hafter.finished reaction hnext', ?_, ?_⟩
      · rw [List.map_append, List.map_singleton, TracedRound.untraced, Round.rename, hasked]
      · exact congrArg (Cascade.mk []) List.map_reverse
    · cases hsame

/-! ## Hops -/

/-- What the rounds tell of a lineage: it starts with the first command, and for every hop the
command was come to, as deep as there are hops to it, the output was among those pushed for it, and
the reaction taken of that output answered the next command. -/
inductive Derived (root : C) (rounds : List (TracedRound C O)) : Lineage C O → Prop
  | root : Derived root rounds (.root root)
  | caused {l : Lineage C O} {o : O} {c : C} {asked : List ((Lineage C O × O) × List (Lineage C O))}
      {outputs : List (Lineage C O × O)} {commands : List (Lineage C O)}
      (parent : Derived root rounds l) (ran : .command asked l l.hops outputs ∈ rounds)
      (pushed : (l, o) ∈ outputs) (taken : ((l, o), commands) ∈ rounds.flatMap Round.asked)
      (answered : .caused l o c ∈ commands) : Derived root rounds (.caused l o c)

section

variable {root : C} {rounds more : List (TracedRound C O)}

theorem Derived.mono (hsub : rounds ⊆ more) {l : Lineage C O} (h : Derived root rounds l) :
    Derived root more l := by
  induction h with
  | root => exact .root
  | caused _ ran pushed taken answered ih =>
    obtain ⟨r, hr, hasked⟩ := List.mem_flatMap.mp taken
    exact .caused ih (hsub ran) pushed (List.mem_flatMap.mpr ⟨r, hsub hr, hasked⟩) answered

/-- The commands in a frame, or those that its outputs were pushed for, are derived and have as many
hops as the frame is deep. -/
def Descends (root : C) (rounds : List (TracedRound C O)) :
    Frame (Lineage C O) (Lineage C O × O) → Prop
  | .commands waiting depth => ∀ l ∈ waiting, l.hops = depth ∧ Derived root rounds l
  | .outputs waiting depth => ∀ p ∈ waiting, p.1.hops = depth ∧ Derived root rounds p.1 ∧
    ∃ asked outputs, .command asked p.1 depth outputs ∈ rounds ∧ p ∈ outputs

theorem Descends.mono (hsub : rounds ⊆ more) {f : Frame (Lineage C O) (Lineage C O × O)}
    (h : Descends root rounds f) : Descends root more f := by
  cases f with
  | commands waiting depth =>
    intro l hl
    obtain ⟨hhops, hderived⟩ := h l hl
    exact ⟨hhops, hderived.mono hsub⟩
  | outputs waiting depth =>
    intro p hp
    obtain ⟨hhops, hderived, asked, outputs, hran, hpushed⟩ := h p hp
    exact ⟨hhops, hderived.mono hsub, asked, outputs, hsub hran, hpushed⟩

theorem exists_caused {reaction : O → Checked (List C)} {p : Lineage C O × O}
    {commands : List (Lineage C O)} (h : traced reaction p = .ok commands) :
    ∀ l ∈ commands, ∃ c, l = .caused p.1 p.2 c := by
  intro l hl
  obtain ⟨caused, -, rfl⟩ := Checked.map_eq_ok.mp h
  obtain ⟨c, -, rfl⟩ := List.mem_map.mp hl
  exact ⟨c, rfl⟩

/-- A command that a search comes to descends as those that waited do, once the rounds tell which
reactions the search took. -/
theorem descends_of_next {reaction : O → Checked (List C)} {k rest : Traced C O} {l : Lineage C O}
    {depth derived : Nat} (h : ∀ f ∈ k.stack, Descends root rounds f)
    (hnext : k.next (traced reaction) = .ok (.command l depth derived rest)) (hsub : rounds ⊆ more)
    (hasked : k.asked (traced reaction) ⊆ more.flatMap Round.asked) :
    (l.hops = depth ∧ Derived root more l) ∧ ∀ f ∈ rest.stack, Descends root more f := by
  have hsearches := searches_of_next hnext
  have htaken := hsearches.takenFrom
  obtain ⟨rest, now⟩ := rest
  cases htaken with
  | waited stood =>
    have hframe := (h _ (stood.subset List.mem_cons_self)).mono hsub
    refine ⟨hframe l List.mem_cons_self, List.forall_mem_cons.mpr ⟨?_, ?_⟩⟩
    · exact fun l' hl' => hframe l' (List.mem_cons_of_mem _ hl')
    · exact fun f hf => (h f (stood.subset (List.mem_cons_of_mem _ hf))).mono hsub
  | @caused p commands level earlier later before below stood last =>
    have hframe := (h _ (stood.subset List.mem_cons_self)).mono hsub
    have hmem : (p, l :: commands) ∈ k.asked (traced reaction) := by
      rw [last]
      exact List.mem_append_right _ (List.mem_singleton.mpr rfl)
    obtain ⟨hhops, hderived, asked, outputs, hran, hpushed⟩ :=
      hframe p (List.mem_append_right _ List.mem_cons_self)
    -- The output waited for a reaction, so its own command is derived already.
    have hcaused : ∀ l' ∈ l :: commands, l'.hops = level + 1 ∧ Derived root more l' := by
      intro l' hl'
      obtain ⟨c, rfl⟩ := exists_caused (hsearches.answers _ hmem) l' hl'
      refine ⟨congrArg (· + 1) hhops, ?_⟩
      rw [← hhops] at hran
      exact .caused hderived hran hpushed (hasked hmem) hl'
    refine ⟨hcaused l List.mem_cons_self, ?_⟩
    refine List.forall_mem_cons.mpr ⟨?_, List.forall_mem_cons.mpr ⟨?_, ?_⟩⟩
    · exact fun l' hl' => hcaused l' (List.mem_cons_of_mem _ hl')
    · exact fun p' hp' => hframe p' (List.mem_append_right _ (List.mem_cons_of_mem _ hp'))
    · exact fun f hf => (h f (stood.subset (List.mem_cons_of_mem _ hf))).mono hsub

/-- The round tells which reactions its search took. -/
theorem asked_subset (r : TracedRound C O) :
    r.asked ⊆ (rounds ++ [r]).flatMap Round.asked := by
  intro q hq
  exact List.mem_flatMap.mpr ⟨r, List.mem_append_right _ (List.mem_singleton.mpr rfl), hq⟩

theorem mem_push {k : Cascade C O} {outputs : List O} {depth : Nat} {frame : Frame C O}
    (h : frame ∈ (k.push outputs depth).stack) :
    frame = .outputs outputs depth ∨ frame ∈ k.stack := by
  cases outputs with
  | nil => exact .inr h
  | cons o outputs => exact List.mem_cons.mp h

/-- **As deep as there are hops.** -/
theorem TracedAfter.descends {k : Traced C O} (h : TracedAfter root rounds k) :
    (∀ f ∈ k.stack, Descends root rounds f) ∧
      ∀ asked l depth outputs, .command asked l depth outputs ∈ rounds →
        l.hops = depth ∧ Derived root rounds l := by
  induction h with
  | start =>
    constructor
    · refine List.forall_mem_singleton.mpr ?_
      exact List.forall_mem_singleton.mpr ⟨rfl, .root⟩
    · exact fun _ _ _ _ hmem => absurd hmem List.not_mem_nil
  | @command rounds k rest l depth derived _ reaction hnext outputs ih =>
    obtain ⟨hframes, hrounds⟩ := ih
    have hsub := List.subset_append_left rounds
      [.command (k.asked (traced reaction)) l depth (outputs.map fun o => (l, o))]
    obtain ⟨⟨hhops, hderived⟩, hrest⟩ := descends_of_next hframes hnext hsub
      (asked_subset (.command _ l depth (outputs.map fun o => (l, o))))
    constructor
    · intro f hf
      rcases mem_push hf with rfl | hf
      · intro p hp
        obtain ⟨o, -, rfl⟩ := List.mem_map.mp hp
        exact ⟨hhops, hderived, _, _, List.mem_append_right _ (List.mem_singleton.mpr rfl), hp⟩
      · exact hrest f hf
    · intro asked l' depth' outputs' hmem
      rcases List.mem_append.mp hmem with hmem | hmem
      · obtain ⟨hhops', hderived'⟩ := hrounds asked l' depth' outputs' hmem
        exact ⟨hhops', hderived'.mono hsub⟩
      · cases List.mem_singleton.mp hmem
        exact ⟨hhops, hderived⟩
  | @finished rounds k outputs _ reaction _ ih =>
    obtain ⟨-, hrounds⟩ := ih
    constructor
    · exact fun _ hf => absurd hf List.not_mem_nil
    · intro asked l depth outputs hmem
      rcases List.mem_append.mp hmem with hmem | hmem
      · obtain ⟨hhops, hderived⟩ := hrounds asked l depth outputs hmem
        exact ⟨hhops, hderived.mono (List.subset_append_left _ _)⟩
      · cases List.mem_singleton.mp hmem

end

end Cascade

end EventMachines
