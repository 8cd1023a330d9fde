/-
# Runs of labelled transition systems

A run is recorded by the steps it took, newest first, each together with the
state it was taken in. Keeping the source states is what lets one statement say
both that a property held all along and that every single step met a side
condition, so that the two can be compared.
-/

import Mathlib.Data.List.Basic

namespace Fastwire.Lib

universe u v

/-- A labelled transition system: where its runs start and which steps exist. -/
structure System (State : Type u) (Label : Type v) where
  init : State → Prop
  step : State → Label → State → Prop

namespace System

variable {State : Type u} {Label : Type v} (S : System State Label)

/-- `S.Run hist s` says that a run which took the steps `hist`, newest first,
is now in state `s`. -/
inductive Run : List (State × Label) → State → Prop
  | start {s : State} (starts : S.init s) : Run [] s
  | step {hist : List (State × Label)} {s t : State} {l : Label}
      (prior : Run hist s) (taken : S.step s l t) : Run ((s, l) :: hist) t

/-- Every step of the history was taken in a state where `guard` allows it. -/
def Guarded (guard : State → Label → Prop) (hist : List (State × Label)) : Prop :=
  ∀ taken ∈ hist, guard taken.1 taken.2

instance (guard : State → Label → Prop) [∀ s l, Decidable (guard s l)]
    (hist : List (State × Label)) : Decidable (Guarded guard hist) :=
  inferInstanceAs (Decidable (∀ taken ∈ hist, guard taken.1 taken.2))

/-- The property held in every state the run passed through, the current one
included. -/
def Always (P : State → Prop) (hist : List (State × Label)) (s : State) : Prop :=
  P s ∧ ∀ taken ∈ hist, P taken.1

instance (P : State → Prop) [DecidablePred P] (hist : List (State × Label)) (s : State) :
    Decidable (Always P hist s) :=
  inferInstanceAs (Decidable (P s ∧ ∀ taken ∈ hist, P taken.1))

@[simp]
theorem guarded_nil (guard : State → Label → Prop) : Guarded guard [] := by
  simp [Guarded]

@[simp]
theorem guarded_cons (guard : State → Label → Prop) (s : State) (l : Label)
    (hist : List (State × Label)) :
    Guarded guard ((s, l) :: hist) ↔ guard s l ∧ Guarded guard hist := by
  simp [Guarded]

theorem always_nil (P : State → Prop) (s : State) :
    Always P ([] : List (State × Label)) s ↔ P s := by
  simp [Always]

theorem always_cons (P : State → Prop) (s t : State) (l : Label)
    (hist : List (State × Label)) :
    Always P ((s, l) :: hist) t ↔ P t ∧ Always P hist s := by
  simp [Always]

variable {S}

/-- What every step allowed by the guard preserves holds at the end of every
guarded run. -/
theorem Run.guarded_invariant {guard : State → Label → Prop} {Inv : State → Prop}
    (hinit : ∀ s, S.init s → Inv s)
    (hstep : ∀ hist s l t, S.Run hist s → Inv s → guard s l → S.step s l t → Inv t)
    {hist : List (State × Label)} {s : State} (hrun : S.Run hist s)
    (hguard : Guarded guard hist) : Inv s := by
  induction hrun with
  | start starts => exact hinit _ starts
  | step prior taken ih =>
      rw [guarded_cons] at hguard
      exact hstep _ _ _ _ prior (ih hguard.2) hguard.1 taken

/-- The unguarded invariant rule. -/
theorem Run.invariant {Inv : State → Prop}
    (hinit : ∀ s, S.init s → Inv s)
    (hstep : ∀ s l t, Inv s → S.step s l t → Inv t)
    {hist : List (State × Label)} {s : State} (hrun : S.Run hist s) : Inv s := by
  induction hrun with
  | start starts => exact hinit _ starts
  | step prior taken ih => exact hstep _ _ _ ih taken

/-- If a step out of a good state leads to a good state exactly when the guard
allows it, then the property held all along exactly when all steps were
allowed. -/
theorem Run.always_iff_guarded {guard : State → Label → Prop} {P : State → Prop}
    (hinit : ∀ s, S.init s → P s)
    (hstep : ∀ hist s l t, S.Run hist s → P s → S.step s l t → (P t ↔ guard s l))
    {hist : List (State × Label)} {s : State} (hrun : S.Run hist s) :
    Always P hist s ↔ Guarded guard hist := by
  induction hrun with
  | start starts => simpa [always_nil] using hinit _ starts
  | @step hist s t l prior taken ih =>
      rw [always_cons, guarded_cons, ← ih]
      constructor
      · rintro ⟨hgood, hall⟩
        exact ⟨(hstep hist s l t prior hall.1 taken).mp hgood, hall⟩
      · rintro ⟨hallowed, hall⟩
        exact ⟨(hstep hist s l t prior hall.1 taken).mpr hallowed, hall⟩

/-! ## Systems that can be executed -/

/-- The labels of a list one after another, as long as every step is defined. -/
def exec (next : State → Label → Option State) (s : State) : List Label → Option State
  | [] => some s
  | l :: labels => (next s l).bind fun t => exec next t labels

theorem exec_append (next : State → Label → Option State) (s : State)
    (labels labels' : List Label) :
    exec next s (labels ++ labels') = (exec next s labels).bind fun t => exec next t labels' := by
  induction labels generalizing s with
  | nil => rfl
  | cons l labels ih =>
      simp only [List.cons_append, exec, ih, Option.bind_assoc]

/-- Executing labels whose steps exist and are allowed prolongs a guarded run. -/
theorem Run.exec_of_mem {next : State → Label → Option State} {guard : State → Label → Prop}
    {hist : List (State × Label)} {s t : State} (hrun : S.Run hist s)
    (hguarded : Guarded guard hist) {labels : List Label}
    (hnext : ∀ l ∈ labels, ∀ s t, next s l = some t → S.step s l t ∧ guard s l)
    (hexec : exec next s labels = some t) : ∃ hist', S.Run hist' t ∧ Guarded guard hist' := by
  induction labels generalizing hist s with
  | nil =>
      obtain rfl : s = t := by simpa [System.exec] using hexec
      exact ⟨hist, hrun, hguarded⟩
  | cons l labels ih =>
      simp only [System.exec, Option.bind_eq_some_iff] at hexec
      obtain ⟨mid, hstep, hrest⟩ := hexec
      rw [List.forall_mem_cons] at hnext
      obtain ⟨htaken, hallowed⟩ := hnext.1 s mid hstep
      refine ih (.step hrun htaken) ?_ hnext.2 hrest
      rw [guarded_cons]
      exact ⟨hallowed, hguarded⟩

/-- Executing labels that the guard always allows prolongs a guarded run. -/
theorem Run.exec_guarded {next : State → Label → Option State} {guard : State → Label → Prop}
    (hnext : ∀ s l t, next s l = some t → S.step s l t) {hist : List (State × Label)} {s t : State}
    (hrun : S.Run hist s) (hguarded : Guarded guard hist) {labels : List Label}
    (hallowed : ∀ l ∈ labels, ∀ s, guard s l) (hexec : exec next s labels = some t) :
    ∃ hist', S.Run hist' t ∧ Guarded guard hist' :=
  hrun.exec_of_mem hguarded (fun l hl s t h => ⟨hnext s l t h, hallowed l hl s⟩) hexec

/-- The same for a guard that the execution itself checks. -/
theorem Run.exec_checked {next : State → Label → Option State} {guard : State → Label → Prop}
    (hnext : ∀ s l t, next s l = some t → S.step s l t ∧ guard s l)
    {hist : List (State × Label)} {s t : State} (hrun : S.Run hist s)
    (hguarded : Guarded guard hist) {labels : List Label} (hexec : exec next s labels = some t) :
    ∃ hist', S.Run hist' t ∧ Guarded guard hist' :=
  hrun.exec_of_mem hguarded (fun l _ s t h => hnext s l t h) hexec

/-- Executing labels is a run. -/
theorem Run.exec {next : State → Label → Option State}
    (hnext : ∀ s l t, next s l = some t → S.step s l t) {hist : List (State × Label)} {s t : State}
    (hrun : S.Run hist s) {labels : List Label} (hexec : exec next s labels = some t) :
    ∃ hist', S.Run hist' t := by
  have hany : Guarded (fun _ _ => True) hist := fun _ _ => trivial
  obtain ⟨hist', hrun', -⟩ := hrun.exec_guarded hnext hany (fun _ _ _ => trivial) hexec
  exact ⟨hist', hrun'⟩

/-- The steps an execution takes, on top of earlier ones. -/
def history (next : State → Label → Option State) (s : State) (hist : List (State × Label)) :
    List Label → List (State × Label)
  | [] => hist
  | l :: labels =>
      match next s l with
      | none => hist
      | some t => history next t ((s, l) :: hist) labels

/-- Executing labels is a run with this history. -/
theorem Run.exec_history {next : State → Label → Option State}
    (hnext : ∀ s l t, next s l = some t → S.step s l t) {hist : List (State × Label)} {s t : State}
    (hrun : S.Run hist s) {labels : List Label} (hexec : System.exec next s labels = some t) :
    S.Run (history next s hist labels) t := by
  induction labels generalizing hist s with
  | nil =>
      obtain rfl : s = t := by simpa [System.exec] using hexec
      exact hrun
  | cons l labels ih =>
      simp only [System.exec, Option.bind_eq_some_iff] at hexec
      obtain ⟨mid, hstep, hrest⟩ := hexec
      rw [history, hstep]
      exact ih (.step hrun (hnext _ _ _ hstep)) hrest

/-- A run given by its labels, for a property of history and state that can be
evaluated. -/
theorem exists_history {next : State → Label → Option State}
    (hnext : ∀ s l t, next s l = some t → S.step s l t) {s : State} (hinit : S.init s)
    (labels : List Label) (P : List (State × Label) → State → Prop)
    [∀ hist t, Decidable (P hist t)]
    (h : (exec next s labels).any (fun t => P (history next s [] labels) t) = true) :
    ∃ hist t, S.Run hist t ∧ P hist t := by
  obtain ⟨t, hexec, hP⟩ := (Option.any_eq_true ..).mp h
  exact ⟨_, t, Run.exec_history hnext (.start hinit) hexec, of_decide_eq_true hP⟩

/-- A run given by its labels, for a property that can be evaluated. -/
theorem exists_run {next : State → Label → Option State}
    (hnext : ∀ s l t, next s l = some t → S.step s l t) {s : State} (hinit : S.init s)
    (labels : List Label) (P : State → Bool) (h : (exec next s labels).any P = true) :
    ∃ hist t, S.Run hist t ∧ P t = true := by
  obtain ⟨t, hexec, hP⟩ := (Option.any_eq_true ..).mp h
  obtain ⟨hist, hrun⟩ := Run.exec hnext (.start hinit) hexec
  exact ⟨hist, t, hrun, hP⟩

end System

end Fastwire.Lib
