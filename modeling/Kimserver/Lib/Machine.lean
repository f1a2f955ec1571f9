import Mathlib.Data.List.Infix
import Mathlib.Data.List.Induction

/-!
# Event-driven machines

A machine is a total step function from a state and an event to a state: what the
environment chooses (a reply, a count of bytes, an order of deliveries) is part of the
event, and an event that cannot happen in a state leaves the state unchanged. A run is the
list of its events, and the states it reaches are the states after its prefixes.

## Main definitions

* `Machine`, `Machine.run`: the step function and its iteration
* `Machine.Meets`: every step of a run satisfies a condition on the state before it and its
  event
* `Machine.count`: how many steps of a run satisfy a condition
* `Machine.Simulation`: a relation between two machines kept by every step

## Main results

* `Machine.run_invariant`, `Machine.Meets.invariant`: the rules of invariants, over all runs
  and over the runs whose steps meet a condition
* `Machine.Meets.iff_forall_prefix`, `Machine.Meets.congr`: when a condition on the steps is
  exact
* `Machine.Meets.simulates`, `Machine.Meets.iff_forall_agree`: a second machine that takes the
  same events, and when the two agree
* `Machine.Meets.count_add_le`: a measure that counted steps raise and the others keep
* `Machine.Simulation.run`: a simulation relates the states after related runs
-/

/-- A step function; `step s e` is the state after the event `e`. -/
structure Machine (S E : Type*) where
  step : S → E → S

namespace Machine

variable {S E S' E' : Type*} (M : Machine S E)

/-- The state after a list of events. -/
def run (s : S) (es : List E) : S := es.foldl M.step s

@[simp] theorem run_nil (s : S) : M.run s [] = s := rfl

@[simp] theorem run_cons (s : S) (e : E) (es : List E) :
    M.run s (e :: es) = M.run (M.step s e) es := rfl

theorem run_append (s : S) (es fs : List E) : M.run s (es ++ fs) = M.run (M.run s es) fs :=
  List.foldl_append ..

theorem run_snoc (s : S) (es : List E) (e : E) : M.run s (es ++ [e]) = M.step (M.run s es) e := by
  rw [run_append]; rfl

/-- What every step preserves, every run preserves. -/
theorem run_invariant {P : S → Prop} (hstep : ∀ s e, P s → P (M.step s e)) {s : S} (hs : P s)
    (es : List E) : P (M.run s es) := by
  induction es generalizing s with
  | nil => exact hs
  | cons e es ih => exact ih (hstep s e hs)

/-- Every step of the run from `s` satisfies `C` in the state before it. -/
def Meets (C : S → E → Prop) : S → List E → Prop
  | _, [] => True
  | s, e :: es => C s e ∧ Meets C (M.step s e) es

instance decidableMeets {C : S → E → Prop} [∀ s e, Decidable (C s e)] :
    ∀ s es, Decidable (M.Meets C s es)
  | _, [] => inferInstanceAs (Decidable True)
  | s, e :: es =>
    have : Decidable (M.Meets C (M.step s e) es) := decidableMeets _ _
    inferInstanceAs (Decidable (_ ∧ _))

variable {M}

theorem Meets.append {C : S → E → Prop} {s : S} {es fs : List E} :
    M.Meets C s (es ++ fs) ↔ M.Meets C s es ∧ M.Meets C (M.run s es) fs := by
  induction es generalizing s with
  | nil => simp [Meets]
  | cons e es ih => simp only [List.cons_append, Meets, ih, run_cons, and_assoc]

/-- A prefix of a run that meets a condition meets it. -/
theorem Meets.of_prefix {C : S → E → Prop} {s : S} {es fs : List E} (h : M.Meets C s fs)
    (hp : es <+: fs) : M.Meets C s es := by
  obtain ⟨gs, rfl⟩ := hp
  exact (Meets.append.mp h).1

theorem Meets.mono {C D : S → E → Prop} (hCD : ∀ s e, C s e → D s e) {s : S} {es : List E}
    (h : M.Meets C s es) : M.Meets D s es := by
  induction es generalizing s with
  | nil => trivial
  | cons e es ih => exact ⟨hCD _ _ h.1, ih h.2⟩

/-- **The invariant rule for conditioned runs**: what every step that meets `C` preserves
holds in every state of a run whose steps all meet `C`. -/
theorem Meets.invariant {C : S → E → Prop} {P : S → Prop}
    (hstep : ∀ s e, P s → C s e → P (M.step s e)) {s : S} (hs : P s) {es : List E}
    (h : M.Meets C s es) : P (M.run s es) := by
  induction es generalizing s with
  | nil => exact hs
  | cons e es ih => exact ih (hstep s e hs h.1) h.2

/-- The invariant rule, read in every state the run passes through. -/
theorem Meets.invariant_prefix {C : S → E → Prop} {P : S → Prop}
    (hstep : ∀ s e, P s → C s e → P (M.step s e)) {s : S} (hs : P s) {es fs : List E}
    (h : M.Meets C s fs) (hp : es <+: fs) : P (M.run s es) :=
  (h.of_prefix hp).invariant hstep hs

/-- **The exact condition of a property**: let a step by an event of `Q` from a state of `I`
end in a state with `P` exactly when it meets `C`, and in `I` if it does. The runs whose steps
all meet `C` are then the runs in which `P` holds in every state. -/
theorem Meets.iff_forall_prefix {C : S → E → Prop} {I P : S → Prop} {Q : E → Prop}
    (hIP : ∀ s, I s → P s) (hstep : ∀ s e, Q e → I s → C s e → I (M.step s e))
    (hexact : ∀ s e, Q e → I s → P (M.step s e) → C s e) {s : S} (hs : I s) {es : List E}
    (hes : ∀ e ∈ es, Q e) : M.Meets C s es ↔ ∀ fs, fs <+: es → P (M.run s fs) := by
  induction es generalizing s with
  | nil =>
    refine ⟨fun _ fs hp => ?_, fun _ => trivial⟩
    rw [List.prefix_nil.mp hp]
    exact hIP s hs
  | cons e es ih =>
    have hQ : Q e := hes e List.mem_cons_self
    constructor
    · rintro ⟨hC, hrest⟩ fs hp
      cases fs with
      | nil => exact hIP s hs
      | cons f fs =>
        obtain ⟨rfl, htail⟩ := List.cons_prefix_cons.mp hp
        have hstep := hstep s f hQ hs hC
        exact (ih hstep fun x hx => hes x (List.mem_cons_of_mem _ hx)).mp hrest fs htail
    · intro h
      have hC : C s e := hexact s e hQ hs (h [e] ((List.prefix_cons_inj e).mpr List.nil_prefix))
      refine ⟨hC, (ih (hstep s e hQ hs hC) fun x hx => hes x (List.mem_cons_of_mem _ hx)).mpr ?_⟩
      exact fun fs hp => h (e :: fs) ((List.prefix_cons_inj e).mpr hp)

/-- A condition on the steps of a run, read at each of its events. -/
theorem Meets.iff_forall_step {C : S → E → Prop} {s : S} {es : List E} :
    M.Meets C s es ↔ ∀ past e, past ++ [e] <+: es → C (M.run s past) e := by
  constructor
  · intro h past e hp
    exact (Meets.append.mp (h.of_prefix hp)).2.1
  · intro h
    induction es using List.reverseRecOn with
    | nil => trivial
    | append_singleton es e ih =>
      refine Meets.append.mpr ⟨ih fun past f hp => h past f (hp.trans (List.prefix_append _ _)), ?_⟩
      exact ⟨h es e (List.prefix_refl _), trivial⟩

/-- Two conditions that agree in the states of an invariant, which the steps that meet them
keep. -/
theorem Meets.congr {C D : S → E → Prop} {I : S → Prop} (hCD : ∀ s e, I s → (C s e ↔ D s e))
    (hstep : ∀ s e, I s → D s e → I (M.step s e)) {s : S} (hs : I s) (es : List E) :
    M.Meets C s es ↔ M.Meets D s es := by
  induction es generalizing s with
  | nil => exact Iff.rfl
  | cons e es ih =>
    constructor
    · rintro ⟨hC, hrest⟩
      have hD := (hCD s e hs).mp hC
      exact ⟨hD, (ih (hstep s e hs hD)).mp hrest⟩
    · rintro ⟨hD, hrest⟩
      exact ⟨(hCD s e hs).mpr hD, (ih (hstep s e hs hD)).mpr hrest⟩

/-- A second machine that takes the same events: what the steps that meet the condition keep
between the two states holds after every run of such steps. -/
theorem Meets.simulates {N : Machine S' E} {C : S → E → Prop} {R : S → S' → Prop}
    (hstep : ∀ s t e, R s t → C s e → R (M.step s e) (N.step t e)) {s : S} {t : S'} (h : R s t)
    {es : List E} (hmeets : M.Meets C s es) : R (M.run s es) (N.run t es) := by
  induction es generalizing s t with
  | nil => exact h
  | cons e es ih => exact ih (hstep s t e h hmeets.1) hmeets.2

/-- **The exact condition of a refinement**: let related states agree on an event exactly when it
meets `C`, and stay related if it does. The runs whose steps all meet `C` are then the runs in
which the two machines agree on every event. -/
theorem Meets.iff_forall_agree {N : Machine S' E} {C : S → E → Prop} {A : S → S' → E → Prop}
    {R : S → S' → Prop} (hexact : ∀ s t e, R s t → (C s e ↔ A s t e))
    (hstep : ∀ s t e, R s t → C s e → R (M.step s e) (N.step t e)) {s : S} {t : S'} (h : R s t)
    (es : List E) :
    M.Meets C s es ↔ ∀ past e, past ++ [e] <+: es → A (M.run s past) (N.run t past) e := by
  induction es generalizing s t with
  | nil => exact iff_of_true trivial fun past e hp => by simp at hp
  | cons f es ih =>
    constructor
    · rintro ⟨hC, hrest⟩ past e hp
      cases past with
      | nil =>
        obtain ⟨rfl, -⟩ := List.cons_prefix_cons.mp hp
        exact (hexact s t e h).mp hC
      | cons g past =>
        obtain ⟨rfl, htail⟩ := List.cons_prefix_cons.mp hp
        exact (ih (hstep s t g h hC)).mp hrest past e htail
    · intro hall
      have hC : C s f := (hexact s t f h).mpr (hall [] f (List.prefix_append [f] es))
      refine ⟨hC, (ih (hstep s t f h hC)).mpr fun past e hp => ?_⟩
      exact hall (f :: past) e ((List.prefix_cons_inj f).mpr hp)

variable (M) in
/-- How many steps of the run from `s` satisfy `C`. -/
def count (C : S → E → Bool) : S → List E → ℕ
  | _, [] => 0
  | s, e :: es => (C s e).toNat + count C (M.step s e) es

/-- **A measure bounds the counted steps**: let the steps that are counted raise it, to less than
a bound, and the others keep it, as long as `P` holds and the steps meet `D`. A run with counted
steps has raised the measure by their number, to less than the bound. -/
theorem Meets.count_add_le {C : S → E → Bool} {D : S → E → Prop} {P : S → Prop} {f : S → ℤ} {b : ℤ}
    (hcount : ∀ s e, P s → P (M.step s e) → D s e → C s e = true →
      f s < f (M.step s e) ∧ f (M.step s e) < b)
    (hother : ∀ s e, P s → P (M.step s e) → D s e → C s e = false → f (M.step s e) = f s)
    {s : S} {es : List E} (hP : ∀ past, past <+: es → P (M.run s past)) (hD : M.Meets D s es) :
    (M.count C s es = 0 ∧ f (M.run s es) = f s) ∨
      (f s + M.count C s es ≤ f (M.run s es) ∧ f (M.run s es) < b) := by
  induction es generalizing s with
  | nil => exact Or.inl ⟨rfl, rfl⟩
  | cons e es ih =>
    have hs : P s := hP [] List.nil_prefix
    have hstep : P (M.step s e) := hP [e] ((List.prefix_cons_inj e).mpr List.nil_prefix)
    have hrest := ih (s := M.step s e)
      (fun past hp => hP (e :: past) ((List.prefix_cons_inj e).mpr hp)) hD.2
    rw [count, run_cons]
    cases hC : C s e with
    | false =>
      have hkept := hother s e hs hstep hD.1 hC
      rw [hkept] at hrest
      rw [Bool.toNat_false, Nat.zero_add]
      exact hrest
    | true =>
      obtain ⟨hlt, hbound⟩ := hcount s e hs hstep hD.1 hC
      rw [Bool.toNat_true]
      rcases hrest with ⟨hzero, hsame⟩ | ⟨hle, hlast⟩
      · exact Or.inr ⟨by rw [hzero, hsame]; omega, by rw [hsame]; exact hbound⟩
      · exact Or.inr ⟨by omega, hlast⟩

/-- A relation between the states of two machines that every event of the first keeps, the
second answering with a list of events. -/
structure Simulation (M : Machine S E) (N : Machine S' E') (R : S → S' → Prop) where
  answer : S → E → List E'
  keeps : ∀ s t e, R s t → R (M.step s e) (N.run t (answer s e))

namespace Simulation

variable {N : Machine S' E'} {R : S → S' → Prop}

/-- The events with which the second machine answers a whole run. -/
def answers (sim : Simulation M N R) : S → List E → List E'
  | _, [] => []
  | s, e :: es => sim.answer s e ++ sim.answers (M.step s e) es

/-- Related states stay related along a run and its answer. -/
theorem run (sim : Simulation M N R) {s : S} {t : S'} (h : R s t) (es : List E) :
    R (M.run s es) (N.run t (sim.answers s es)) := by
  induction es generalizing s t with
  | nil => exact h
  | cons e es ih =>
    rw [answers, run_append]
    exact ih (sim.keeps s t e h)

end Simulation

end Machine
