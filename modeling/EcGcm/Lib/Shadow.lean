import EcGcm.Lib.Handler
import EcGcm.Lib.System

/-!
# Two runs side by side

That a part of a program does not depend on another part is a statement about two runs. Handlers
first: one of them *shadows* another along a relation on states when, from related states, it ends
in a related state and in the same way, with a related result if they return (`Shadows`). If the
first one ends its process, nothing is asked of the second. The rules follow the program, as those
of `wp` do.

Then runs. An observer *overlooks* some events if a state it sees stays the state it sees when such
an event is handled, and if it can follow all others (`System.Overlooks`). From a run the overlooked
events can then be taken away, and what is left is a run that ends in a state which looks the same
(`System.Overlooks.trace`).
-/

set_option autoImplicit false

namespace EcGcm

variable {σ τ α β γ δ : Type}

/-- The second outcome is like the first: what is returned is related by `V` and what is left by
`R`. -/
inductive Outcome.Shadows (R : σ → τ → Prop) (V : α → β → Prop) :
    Outcome σ α → Outcome τ β → Prop
  | ret {a : α} {b : β} {s : σ} {t : τ} (hV : V a b) (hR : R s t) :
    Shadows R V (.ret a s) (.ret b t)
  | halt (e : Halt) {s : σ} {t : τ} (hR : R s t) : Shadows R V (.halt e s) (.halt e t)
  | exit {s : σ} (o : Outcome τ β) : Shadows R V (.halt .exit s) o
  | undef {s : σ} (o : Outcome τ β) : Shadows R V (.halt .undef s) o

/-- Where the first process goes on, so does the second. -/
theorem Outcome.Shadows.resume {R : σ → τ → Prop} {V : α → β → Prop} {o : Outcome σ α}
    {o' : Outcome τ β} {s : σ} (h : Outcome.Shadows R V o o') (hs : o.resume = some s) :
    ∃ t, o'.resume = some t ∧ R s t := by
  cases h with
  | ret hV hR =>
    cases hs
    exact ⟨_, rfl, hR⟩
  | halt e hR =>
    cases e with
    | hang =>
      cases hs
      exact ⟨_, rfl, hR⟩
    | throw =>
      cases hs
      exact ⟨_, rfl, hR⟩
    | exit => cases hs
    | undef => cases hs
  | exit => cases hs
  | undef => cases hs

/-- More is known of the state that the first one leaves. -/
theorem Outcome.Shadows.and {R : σ → τ → Prop} {V : α → β → Prop} {I : σ → Prop}
    {o : Outcome σ α} {o' : Outcome τ β} (h : Outcome.Shadows R V o o') (hI : I o.state) :
    Outcome.Shadows (fun s t => I s ∧ R s t) V o o' := by
  cases h with
  | ret hV hR => exact .ret hV ⟨hI, hR⟩
  | halt e hR => exact .halt e ⟨hI, hR⟩
  | exit => exact .exit _
  | undef => exact .undef _

namespace Handler

/-- From states related by `R`, `y` comes to an outcome like that of `x`. -/
def Shadows (R : σ → τ → Prop) (V : α → β → Prop) (x : Handler σ α) (y : Handler τ β) : Prop :=
  ∀ s t, R s t → Outcome.Shadows R V (x.run s) (y.run t)

section Rules

variable {R : σ → τ → Prop} {U : γ → δ → Prop} {V : α → β → Prop}

theorem shadows_pure {a : α} {b : β} (h : V a b) :
    Shadows R V (pure a : Handler σ α) (pure b : Handler τ β) := fun _ _ hR => .ret h hR

theorem shadows_halt (e : Halt) :
    Shadows R V (halt e : Handler σ α) (halt e : Handler τ β) := fun _ _ hR => .halt e hR

/-- What is read are the related states themselves. -/
theorem shadows_get : Shadows R R (get : Handler σ σ) (get : Handler τ τ) :=
  fun _ _ hR => .ret hR hR

theorem shadows_modify {f : σ → σ} {g : τ → τ} (h : ∀ s t, R s t → R (f s) (g t)) :
    Shadows R Eq (modify f : Handler σ PUnit) (modify g : Handler τ PUnit) :=
  fun s t hR => .ret rfl (h s t hR)

/-- The sequence rule, where only these two states have been shown to lead to like outcomes. -/
theorem shadows_bind_at {x : Handler σ γ} {y : Handler τ δ} {f : γ → Handler σ α}
    {g : δ → Handler τ β} {s : σ} {t : τ} (hx : Outcome.Shadows R U (x.run s) (y.run t))
    (hf : ∀ c d, U c d → Shadows R V (f c) (g d)) :
    Outcome.Shadows R V ((x >>= f).run s) ((y >>= g).run t) := by
  rw [run_bind, run_bind]
  generalize x.run s = o at hx ⊢
  generalize y.run t = o' at hx ⊢
  cases hx with
  | ret hU hR => exact hf _ _ hU _ _ hR
  | halt e hR => exact .halt e hR
  | exit o => exact .exit _
  | undef o => exact .undef _

theorem shadows_bind {x : Handler σ γ} {y : Handler τ δ} {f : γ → Handler σ α}
    {g : δ → Handler τ β} (hx : Shadows R U x y)
    (hf : ∀ c d, U c d → Shadows R V (f c) (g d)) : Shadows R V (x >>= f) (y >>= g) :=
  fun s t hR => shadows_bind_at (hx s t hR) hf

theorem shadows_ite {c d : Prop} [Decidable c] [Decidable d] {x x' : Handler σ α}
    {y y' : Handler τ β} (hcd : c ↔ d) (hx : Shadows R V x y) (hx' : Shadows R V x' y') :
    Shadows R V (if c then x else x') (if d then y else y') := by
  by_cases hc : c
  · rw [if_pos hc, if_pos (hcd.mp hc)]
    exact hx
  · rw [if_neg hc, if_neg fun hd => hc (hcd.mpr hd)]
    exact hx'

/-- A thread that does not catch an exception ends its process on both sides. -/
theorem shadows_inThread {x : Handler σ α} {y : Handler τ β} (h : Shadows R V x y) :
    Shadows R V (inThread x) (inThread y) := by
  intro s t hR
  have ho := h s t hR
  rw [run_inThread, run_inThread]
  generalize x.run s = o at ho ⊢
  generalize y.run t = o' at ho ⊢
  cases ho with
  | ret hV hR' => exact .ret hV hR'
  | halt e hR' => exact .halt e.uncaught hR'
  | exit o => exact .exit _
  | undef o => exact .undef _

/-- A mutex that is taken on both sides or on neither. -/
theorem shadows_locked {x : Handler σ α} {y : Handler τ β} {taken : σ → Bool} {taken' : τ → Bool}
    {keep : σ → σ} {keep' : τ → τ} (h : Shadows R V x y)
    (htaken : ∀ s t, R s t → taken' t = taken s) (hkeep : ∀ s t, R s t → R (keep s) (keep' t)) :
    Shadows R V (locked taken keep x) (locked taken' keep' y) := by
  intro s t hR
  cases hs : taken s with
  | true =>
    rw [run_locked_of_taken hs, run_locked_of_taken ((htaken s t hR).trans hs)]
    exact .halt _ hR
  | false =>
    have ho := h s t hR
    rw [run_locked_of_free hs, run_locked_of_free ((htaken s t hR).trans hs)]
    generalize x.run s = o at ho ⊢
    generalize y.run t = o' at ho ⊢
    cases ho with
    | ret hV hR' => exact .ret hV hR'
    | halt e hR' => exact .halt e (hkeep _ _ hR')
    | exit o => exact .exit _
    | undef o => exact .undef _

/-- What a frame condition of the first handler keeps can be added to the relation. -/
theorem Shadows.and_of_keeps {x : Handler σ α} {y : Handler τ β} {I : σ → Prop}
    {Q : σ → σ → Prop} (h : Shadows R V x y) (hx : Keeps Q x) (hI : ∀ s s', Q s s' → I s → I s') :
    Shadows (fun s t => I s ∧ R s t) V x y :=
  fun s t hs => (h s t hs.2).and (hI s _ (hx s) hs.1)

end Rules

end Handler

/-! ## Runs -/

namespace System

variable {ε : Type} {S : System σ ε} {T : System τ ε} {s s' : σ} {t : τ} {es : List ε}

/-- A run, with its events. -/
inductive Trace (S : System σ ε) : List ε → σ → σ → Prop
  | nil {s : σ} : Trace S [] s s
  | cons {e : ε} {es : List ε} {s u s' : σ} (hen : S.enabled s e) (hnext : S.next e s = some u)
      (hrest : Trace S es u s') : Trace S (e :: es) s s'

theorem Trace.run (h : S.Trace es s s') : S.Run s s' := by
  induction h with
  | nil => exact .refl
  | cons hen hnext _ ih => exact .head ⟨_, hen, hnext⟩ ih

/-- Events may be excluded that do not occur. -/
theorem Trace.only {P : ε → Prop} (h : S.Trace es s s') (hP : ∀ e, e ∈ es → P e) :
    (S.only fun _ e => P e).Trace es s s' := by
  induction h with
  | nil => exact .nil
  | cons hen hnext _ ih =>
    exact .cons ⟨hen, hP _ List.mem_cons_self⟩ hnext
      (ih fun e he => hP e (List.mem_cons_of_mem _ he))

theorem trace_of_replay [∀ s e, Decidable (S.enabled s e)] (h : S.replay es s = some s') :
    S.Trace es s s' := by
  induction es generalizing s with
  | nil =>
    cases h
    exact .nil
  | cons e es ih =>
    unfold replay at h
    split at h
    · rename_i hen
      obtain ⟨u, hnext, hrest⟩ := Option.bind_eq_some_iff.mp h
      exact .cons hen hnext (ih hrest)
    · cases h

theorem exists_trace_of_replay [∀ s e, Decidable (S.enabled s e)] {p : σ → Bool}
    (h : (S.replay es s).any p = true) : ∃ s', S.Trace es s s' ∧ p s' = true := by
  obtain ⟨s', hs', hp⟩ := (Option.any_eq_true p (S.replay es s)).mp h
  exact ⟨s', trace_of_replay hs', hp⟩

instance [∀ s e, Decidable (S.enabled s e)] {ok : σ → Prop} [DecidablePred ok] (s : σ) (e : ε) :
    Decidable ((S.within ok).enabled s e) :=
  inferInstanceAs (Decidable (S.enabled s e ∧ ∀ s' ∈ S.next e s, ok s'))

/-- Along `R`, a state of `T` does not notice the `hidden` events of `S` and follows the others. -/
structure Overlooks (S : System σ ε) (T : System τ ε) (hidden : ε → Prop) (R : σ → τ → Prop) :
    Prop where
  unseen : ∀ {e s s' t}, R s t → hidden e → S.enabled s e → S.next e s = some s' → R s' t
  seen : ∀ {e s s' t}, R s t → ¬ hidden e → S.enabled s e → S.next e s = some s' →
    T.enabled t e ∧ ∃ t', T.next e t = some t' ∧ R s' t'

/-- **Hidden events can be taken out of a run.** -/
theorem Overlooks.trace {hidden : ε → Prop} [DecidablePred hidden] {R : σ → τ → Prop}
    (h : Overlooks S T hidden R) (hR : R s t) (hrun : S.Trace es s s') :
    ∃ t', T.Trace (es.filter fun e => ¬ hidden e) t t' ∧ R s' t' := by
  induction hrun generalizing t with
  | nil => exact ⟨t, .nil, hR⟩
  | @cons e es s u s' hen hnext _ ih =>
    by_cases he : hidden e
    · rw [List.filter_cons, if_neg (by simp [he])]
      exact ih (h.unseen hR he hen hnext)
    · obtain ⟨hen', t', hnext', hR'⟩ := h.seen hR he hen hnext
      obtain ⟨t'', hrun', hR''⟩ := ih hR'
      rw [List.filter_cons, if_pos (by simp [he])]
      exact ⟨t'', .cons hen' hnext' hrun', hR''⟩

end System

end EcGcm
