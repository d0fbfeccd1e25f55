import Mathlib.Order.Defs.Unbundled

/-!
# Computations that keep their state when they fail

Operations on tracers, on worlds and on instrumentations are of one form: they read and write a
state and may fail, and what they wrote before they failed stays written. `Yields` says that a
computation succeeds, and with which answer; `Leads` relates the states before and after it,
whatever its outcome.
-/

namespace CoercionTrace

abbrev Computation (σ ε α : Type) := ExceptT ε (StateM σ) α

variable {σ ε α β : Type}

theorem Computation.run_bind (x : Computation σ ε α) (f : α → Computation σ ε β) (s : σ) :
    (x >>= f).run s = match x.run s with
      | (.ok a, u) => (f a).run u
      | (.error e, u) => (.error e, u) := by
  change (match x.run s with
    | (r, u) => (match r with
      | .ok a => f a
      | .error e => pure (.error e) : StateM σ (Except ε β)) u) = _
  rcases x.run s with ⟨r | r, u⟩ <;> rfl

theorem ok_of_mapError {ε' : Type} {f : ε → ε'} {x : Except ε α} {a : α}
    (h : x.mapError f = .ok a) : x = .ok a := by
  cases x with
  | error => cases h
  | ok => exact congrArg _ (Except.ok.inj h)

theorem exists_ok_of_bind {x : Except ε α} {f : α → Except ε β} {b : β} (h : x >>= f = .ok b) :
    ∃ a, x = .ok a ∧ f a = .ok b := by
  cases x with
  | error e => cases h
  | ok a => exact ⟨a, rfl, h⟩

def Yields (x : Computation σ ε α) (s : σ) (a : α) (s' : σ) : Prop := x.run s = (.ok a, s')

namespace Yields

theorem pure_iff {a b : α} {s s' : σ} :
    Yields (pure a : Computation σ ε α) s b s' ↔ b = a ∧ s' = s := by
  change ((Except.ok a : Except ε α), s) = (.ok b, s') ↔ _
  simp only [Prod.mk.injEq, Except.ok.injEq, eq_comm]

theorem bind_iff {x : Computation σ ε α} {f : α → Computation σ ε β} {s s' : σ} {b : β} :
    Yields (x >>= f) s b s' ↔ ∃ a u, Yields x s a u ∧ Yields (f a) u b s' := by
  unfold Yields
  rw [Computation.run_bind]
  cases x.run s with
  | mk r u => cases r with
    | error e =>
      constructor
      · rintro ⟨⟩
      · rintro ⟨_, _, ⟨⟩, -⟩
    | ok a =>
      constructor
      · exact fun h => ⟨a, u, rfl, h⟩
      · rintro ⟨_, _, ⟨⟩, h⟩
        exact h

theorem get_bind_iff {f : σ → Computation σ ε β} {s s' : σ} {b : β} :
    Yields (get >>= f) s b s' ↔ Yields (f s) s b s' := Iff.rfl

theorem set_iff {s t s' : σ} {u : PUnit} :
    Yields (set t : Computation σ ε PUnit) s u s' ↔ s' = t := by
  change ((Except.ok ⟨⟩ : Except ε PUnit), t) = (.ok u, s') ↔ _
  simp only [Prod.mk.injEq, true_and, eq_comm]

theorem modify_iff {s s' : σ} {g : σ → σ} {u : PUnit} :
    Yields (modify g : Computation σ ε PUnit) s u s' ↔ s' = g s := by
  change ((Except.ok ⟨⟩ : Except ε PUnit), g s) = (.ok u, s') ↔ _
  simp only [Prod.mk.injEq, true_and, eq_comm]

theorem discard_iff {x : Computation σ ε α} {s s' : σ} {u : PUnit} :
    Yields (discard x) s u s' ↔ ∃ a, Yields x s a s' := by
  change (match x.run s with
    | (r, u) => (match r with
      | .ok _ => pure (.ok ⟨⟩)
      | .error e => pure (.error e) : StateM σ (Except ε PUnit)) u) = _ ↔ ∃ a, x.run s = _
  rcases x.run s with ⟨r | r, v⟩
  · constructor
    · rintro ⟨⟩
    · rintro ⟨_, ⟨⟩⟩
  · constructor
    · rintro ⟨⟩
      exact ⟨r, rfl⟩
    · rintro ⟨_, ⟨⟩⟩
      rfl

theorem not_throw {e : ε} {s s' : σ} {a : α} :
    ¬ Yields (throw e : Computation σ ε α) s a s' := by
  change ¬ ((Except.error e : Except ε α), s) = (.ok a, s')
  simp

theorem run {x : Computation σ ε α} {s s' : σ} {a : α} (h : Yields x s a s') :
    x.run s = (.ok a, s') := h

theorem unique {x : Computation σ ε α} {s s' s'' : σ} {a b : α} (h : Yields x s a s')
    (h' : Yields x s b s'') : b = a ∧ s'' = s' := by
  cases h.symm.trans h'
  exact ⟨rfl, rfl⟩

theorem of_toBool {x : Computation σ ε Unit} {s : σ} (h : (x.run s).1.toBool = true) :
    Yields x s () (x.run s).2 := by
  refine Prod.ext ?_ rfl
  cases hx : (x.run s).1 with
  | ok => rfl
  | error =>
    rw [hx] at h
    cases h

theorem of_toOption {x : Computation σ ε α} {s : σ} {a : α}
    (h : (x.run s).1.toOption = some a) : Yields x s a (x.run s).2 := by
  refine Prod.ext ?_ rfl
  cases hx : (x.run s).1 with
  | ok b =>
    rw [hx] at h
    rw [Option.some.inj h]
  | error =>
    rw [hx] at h
    cases h

end Yields

def Succeeds (x : Computation σ ε α) (s : σ) : Prop := ∃ a s', Yields x s a s'

namespace Succeeds

variable {s : σ}

theorem pure (a : α) : Succeeds (Pure.pure a : Computation σ ε α) s :=
  ⟨a, s, Yields.pure_iff.2 ⟨rfl, rfl⟩⟩

theorem set {t : σ} : Succeeds (MonadStateOf.set t : Computation σ ε PUnit) s :=
  ⟨⟨⟩, t, Yields.set_iff.2 rfl⟩

theorem modify {g : σ → σ} : Succeeds (modifyThe σ g : Computation σ ε PUnit) s :=
  ⟨⟨⟩, g s, Yields.modify_iff.2 rfl⟩

theorem get_bind {f : σ → Computation σ ε β} (h : Succeeds (f s) s) :
    Succeeds (MonadState.get >>= f) s := h

theorem bind {x : Computation σ ε α} {f : α → Computation σ ε β} (hx : Succeeds x s)
    (hf : ∀ a u, Yields x s a u → Succeeds (f a) u) : Succeeds (x >>= f) s := by
  obtain ⟨a, u, hu⟩ := hx
  obtain ⟨b, v, hv⟩ := hf a u hu
  exact ⟨b, v, Yields.bind_iff.2 ⟨a, u, hu, hv⟩⟩

end Succeeds

def Fails (x : Computation σ ε α) (s : σ) (e : ε) (s' : σ) : Prop := x.run s = (.error e, s')

namespace Fails

theorem bind_iff {x : Computation σ ε α} {f : α → Computation σ ε β} {s s' : σ} {e : ε} :
    Fails (x >>= f) s e s' ↔
      Fails x s e s' ∨ ∃ a u, Yields x s a u ∧ Fails (f a) u e s' := by
  unfold Fails Yields
  rw [Computation.run_bind]
  cases x.run s with
  | mk r u => cases r with
    | error e' =>
      constructor
      · rintro ⟨⟩
        exact .inl rfl
      · rintro (⟨⟨⟩⟩ | ⟨_, _, ⟨⟩, -⟩)
        rfl
    | ok a =>
      constructor
      · exact fun h => .inr ⟨a, u, rfl, h⟩
      · rintro (⟨⟨⟩⟩ | ⟨_, _, ⟨⟩, h⟩)
        exact h

theorem get_bind_iff {f : σ → Computation σ ε β} {s s' : σ} {e : ε} :
    Fails (get >>= f) s e s' ↔ Fails (f s) s e s' := Iff.rfl

theorem throw_iff {e e' : ε} {s s' : σ} :
    Fails (throw e : Computation σ ε α) s e' s' ↔ e' = e ∧ s' = s := by
  change ((Except.error e : Except ε α), s) = (.error e', s') ↔ _
  simp only [Prod.mk.injEq, Except.error.injEq, eq_comm]

theorem not_pure {a : α} {s s' : σ} {e : ε} :
    ¬ Fails (pure a : Computation σ ε α) s e s' := by
  change ¬ ((Except.ok a : Except ε α), s) = (.error e, s')
  simp

theorem bind_pure_iff {x : Computation σ ε α} {g : α → β} {s s' : σ} {e : ε} :
    Fails (x >>= fun a => pure (g a)) s e s' ↔ Fails x s e s' :=
  bind_iff.trans (or_iff_left fun ⟨_, _, _, h⟩ => not_pure h)

theorem discard_iff {x : Computation σ ε α} {s s' : σ} {e : ε} :
    Fails (discard x) s e s' ↔ Fails x s e s' := by
  change (match x.run s with
    | (r, u) => (match r with
      | .ok _ => pure (.ok ⟨⟩)
      | .error e => pure (.error e) : StateM σ (Except ε PUnit)) u) = _ ↔ x.run s = _
  rcases x.run s with ⟨r | r, v⟩
  · constructor
    · rintro ⟨⟩
      rfl
    · rintro ⟨⟩
      rfl
  · constructor <;> rintro ⟨⟩

theorem not_modify {g : σ → σ} {s s' : σ} {e : ε} :
    ¬ Fails (modify g : Computation σ ε PUnit) s e s' := by
  change ¬ ((Except.ok ⟨⟩ : Except ε PUnit), g s) = (.error e, s')
  simp

theorem not_set {t s s' : σ} {e : ε} : ¬ Fails (set t : Computation σ ε PUnit) s e s' := by
  change ¬ ((Except.ok ⟨⟩ : Except ε PUnit), t) = (.error e, s')
  simp

theorem unique {x : Computation σ ε α} {s s' s'' : σ} {e e' : ε} (h : Fails x s e s')
    (h' : Fails x s e' s'') : e' = e ∧ s'' = s' := by
  cases h.symm.trans h'
  exact ⟨rfl, rfl⟩

end Fails

theorem Yields.not_fails {x : Computation σ ε α} {s s' s'' : σ} {a : α} {e : ε}
    (h : Yields x s a s') : ¬ Fails x s e s'' := fun hf => by
  cases h.symm.trans hf

theorem Computation.yields_or_fails (x : Computation σ ε α) (s : σ) :
    (∃ a, Yields x s a (x.run s).2) ∨ ∃ e, Fails x s e (x.run s).2 := by
  unfold Yields Fails
  rcases x.run s with ⟨r | r, u⟩
  · exact .inr ⟨r, rfl⟩
  · exact .inl ⟨r, rfl⟩

theorem Fails.of_toOption {x : Computation σ ε α} {s : σ} (h : (x.run s).1.toOption = none) :
    ∃ e, Fails x s e (x.run s).2 := by
  refine (Computation.yields_or_fails x s).resolve_left ?_
  rintro ⟨a, hy⟩
  rw [hy.run] at h
  cases h

def Leads (R : σ → σ → Prop) (x : Computation σ ε α) (s : σ) : Prop := R s (x.run s).2

namespace Leads

variable {R : σ → σ → Prop} {s : σ}

theorem pure [Std.Refl R] (a : α) : Leads R (Pure.pure a : Computation σ ε α) s := refl_of R s

theorem throw [Std.Refl R] (e : ε) : Leads R (MonadExcept.throw e : Computation σ ε α) s :=
  refl_of R s

theorem set {t : σ} (h : R s t) : Leads R (MonadStateOf.set t : Computation σ ε PUnit) s := h

theorem modify {g : σ → σ} (h : R s (g s)) :
    Leads R (modifyThe σ g : Computation σ ε PUnit) s := h

theorem modifyGet {g : σ → α × σ} (h : R s (g s).2) :
    Leads R (MonadStateOf.modifyGet g : Computation σ ε α) s := h

theorem mono {R' : σ → σ → Prop} {x : Computation σ ε α} (h : Leads R x s)
    (hR : ∀ {a b}, R a b → R' a b) : Leads R' x s := hR h

theorem after {x : Computation σ ε α} {a : α} {s' : σ} (h : Leads R x s) (hy : Yields x s a s') :
    R s s' := by
  rwa [Leads, hy.run] at h

theorem get_bind {f : σ → Computation σ ε β} (h : Leads R (f s) s) :
    Leads R (MonadState.get >>= f) s := h

theorem bind [IsTrans σ R] {x : Computation σ ε α} {f : α → Computation σ ε β}
    (hx : Leads R x s) (hf : ∀ a u, Yields x s a u → Leads R (f a) u) :
    Leads R (x >>= f) s := by
  unfold Leads at *
  rw [Computation.run_bind]
  cases h : x.run s with
  | mk r u => cases r with
    | error e => rwa [h] at hx
    | ok a =>
      rw [h] at hx
      exact trans_of R hx (hf a u h)

end Leads

theorem ok_of_toBool {ε α : Type} {x : Except ε α} (d : α) (h : x.toBool = true) :
    x = .ok (x.toOption.getD d) := by
  cases x with
  | ok => rfl
  | error => cases h

end CoercionTrace
