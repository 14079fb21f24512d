import Mathlib.Data.List.Basic

namespace GothamRelay.Data

/-! Runs of a partial step function, each step of which meets a condition on
the state before it. -/

inductive Trace (step : σ → α → Option σ) (allowed : σ → α → Prop) :
    σ → List α → σ → Prop where
  | nil (state : σ) : Trace step allowed state [] state
  | snoc {start before after : σ} {actions : List α} {action : α}
      (earlier : Trace step allowed start actions before)
      (permitted : allowed before action)
      (stepped : step before action = some after) :
      Trace step allowed start (actions ++ [action]) after

namespace Trace

variable {step : σ → α → Option σ} {allowed : σ → α → Prop}

/-- What holds at the start and is kept by every permitted step holds in every
state reached. The invariant may mention the actions so far. -/
theorem invariant {start state : σ} {actions : List α}
    (trace : Trace step allowed start actions state)
    (holds : List α → σ → Prop) (initially : holds [] start)
    (kept : ∀ {done : List α} {before after : σ} {action : α},
      holds done before → allowed before action →
        step before action = some after → holds (done ++ [action]) after) :
    holds actions state := by
  induction trace with
  | nil => exact initially
  | snoc earlier permitted stepped ih => exact kept ih permitted stepped

/-- The run of a list of actions, if none of them is refused. -/
def exec (step : σ → α → Option σ) : σ → List α → Option σ
  | state, [] => some state
  | state, action :: actions =>
      match step state action with
      | none => none
      | some next => exec step next actions

/-- Every action of the list is permitted when it is its turn. -/
def Permitted (step : σ → α → Option σ) (allowed : σ → α → Prop) :
    σ → List α → Prop
  | _, [] => True
  | state, action :: actions =>
      allowed state action ∧
        match step state action with
        | none => True
        | some next => Permitted step allowed next actions

instance decidablePermitted
    [permits : ∀ state action, Decidable (allowed state action)] :
    ∀ (state : σ) (actions : List α),
      Decidable (Permitted step allowed state actions)
  | _, [] => isTrue trivial
  | state, action :: actions =>
      have : Decidable
          (match step state action with
            | none => True
            | some next => Permitted step allowed next actions) :=
        match step state action with
        | none => isTrue trivial
        | some next => decidablePermitted next actions
      inferInstanceAs (Decidable (allowed state action ∧ _))

theorem permitted_of_forall (always : ∀ state action, allowed state action)
    (start : σ) (actions : List α) :
    Permitted step allowed start actions := by
  induction actions generalizing start with
  | nil => trivial
  | cons action actions ih =>
      refine ⟨always start action, ?_⟩
      split
      · trivial
      · exact ih _

private theorem append_exec {start before state : σ} {done actions : List α}
    (earlier : Trace step allowed start done before)
    (permitted : Permitted step allowed before actions)
    (run : exec step before actions = some state) :
    Trace step allowed start (done ++ actions) state := by
  induction actions generalizing before done with
  | nil =>
      cases run
      rw [List.append_nil]
      exact earlier
  | cons action actions ih =>
      obtain ⟨allowed, later⟩ := permitted
      cases stepped : step before action with
      | none =>
          rw [exec, stepped] at run
          cases run
      | some next =>
          rw [exec, stepped] at run
          rw [stepped] at later
          rw [List.append_cons]
          exact ih (.snoc earlier allowed stepped) later run

theorem of_exec {start state : σ} {actions : List α}
    (permitted : Permitted step allowed start actions)
    (run : exec step start actions = some state) :
    Trace step allowed start actions state :=
  append_exec (.nil start) permitted run

theorem exec_getD {start : σ} {actions : List α}
    (possible : (exec step start actions).isSome) :
    exec step start actions = some ((exec step start actions).getD start) := by
  obtain ⟨state, reached⟩ := Option.isSome_iff_exists.mp possible
  rw [reached, Option.getD_some]

theorem of_permitted {start : σ} {actions : List α}
    (permitted : Permitted step allowed start actions)
    (possible : (exec step start actions).isSome) :
    Trace step allowed start actions
      ((exec step start actions).getD start) :=
  of_exec permitted (exec_getD possible)

theorem of_possible {start : σ} {actions : List α}
    (possible : (exec step start actions).isSome) :
    Trace step (fun _ _ => True) start actions
      ((exec step start actions).getD start) :=
  of_permitted (permitted_of_forall (fun _ _ => trivial) start actions)
    possible

/-- A view of the state is the same after every part of a run exactly when each
of its steps is one that keeps it. -/
theorem constant_iff_permitted (view : σ → β) {actions : List α}
    (keeps : ∀ state, ∀ action ∈ actions,
      allowed state action ↔
        ∀ after, step state action = some after → view after = view state)
    (start : σ) :
    (∀ done state, done <+: actions → exec step start done = some state →
        view state = view start) ↔
      Permitted step allowed start actions := by
  induction actions generalizing start with
  | nil =>
      refine ⟨fun _ => trivial, ?_⟩
      intro _ done state part run
      cases List.prefix_nil.mp part
      cases run
      rfl
  | cons action actions ih =>
      have first := keeps start action List.mem_cons_self
      have later := ih fun state action member =>
        keeps state action (List.mem_cons_of_mem _ member)
      constructor
      · intro constant
        have moves : ∀ after, step start action = some after →
            view after = view start := by
          intro after stepped
          apply constant [action] after
          · exact List.prefix_append [action] actions
          · rw [exec, stepped]
            rfl
        refine ⟨first.mpr moves, ?_⟩
        cases stepped : step start action with
        | none => trivial
        | some next =>
            apply (later next).mp
            intro done state part run
            rw [moves next stepped]
            apply constant (action :: done) state
            · exact List.prefix_cons_inj action |>.mpr part
            · rw [exec, stepped]
              exact run
      · rintro ⟨permitted, rest⟩ done state part run
        cases done with
        | nil =>
            cases run
            rfl
        | cons head done =>
            obtain ⟨rfl, shorter⟩ := List.cons_prefix_cons.mp part
            cases stepped : step start head with
            | none =>
                rw [exec, stepped] at run
                cases run
            | some next =>
                rw [exec, stepped] at run
                rw [stepped] at rest
                rw [(later next).mpr rest done state shorter run]
                exact first.mp permitted next stepped

end Trace

/-! Parties kept in a list, of which a step changes one. -/

theorem getElem?_set_cases {entries : List α} {index other : Nat}
    {entry value : α} (found : (entries.set index entry)[other]? = some value) :
    (other = index ∧ value = entry) ∨
      (other ≠ index ∧ entries[other]? = some value) := by
  by_cases same : index = other
  · subst other
    rw [List.getElem?_set_self'] at found
    cases old : entries[index]? with
    | none =>
        rw [old] at found
        cases found
    | some previous =>
        rw [old] at found
        cases found
        exact .inl ⟨rfl, rfl⟩
  · rw [List.getElem?_set_ne same] at found
    exact .inr ⟨fun eq => same eq.symm, found⟩

theorem getElem?_append_singleton_cases {entries : List α} {other : Nat}
    {entry value : α} (found : (entries ++ [entry])[other]? = some value) :
    value = entry ∨ entries[other]? = some value := by
  by_cases inside : other < entries.length
  · rw [List.getElem?_append_left inside] at found
    exact .inr found
  · rw [List.getElem?_append_right (Nat.not_lt.mp inside)] at found
    exact .inl (List.mem_singleton.mp (List.mem_of_getElem? found))

theorem map_set_of_eq {entries : List α} {index : Nat} {entry value : α}
    {view : α → β} (found : entries[index]? = some entry)
    (same : view value = view entry) :
    (entries.set index value).map view = entries.map view := by
  obtain ⟨inside, rfl⟩ := List.getElem?_eq_some_iff.mp found
  rw [List.map_set, same, ← List.map_set, List.set_getElem_self]

/-! Logs that a step adds one entry to. -/

theorem concat_split_cases {log earlier later : List α} {last entry : α}
    (split : log ++ [last] = earlier ++ entry :: later) :
    (log = earlier ∧ last = entry) ∨
      ∃ rest, log = earlier ++ entry :: rest := by
  rcases List.eq_nil_or_concat later with rfl | ⟨rest, final, rfl⟩
  · obtain ⟨same, new⟩ := List.append_inj' split rfl
    exact .inl ⟨same, List.singleton_inj.mp new⟩
  · rw [List.concat_eq_append, ← List.cons_append, ← List.append_assoc]
      at split
    exact .inr ⟨rest, (List.append_inj' split rfl).1⟩

end GothamRelay.Data
