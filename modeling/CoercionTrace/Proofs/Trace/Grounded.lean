import CoercionTrace.Proofs.Trace.Invariant

/-!
# Histories that end

An argument is kept by the caller, so a history fails where the frame in which the program began
refers to an argument. A program that names no argument as a source makes no such entry: then every
history ends, and no step fails but to leave the frame at the bottom (`record_runs`,
`pushFrame_runs`, `popFrame_runs`).
-/

namespace CoercionTrace

namespace CallStack

def Grounded (s : CallStack) : Prop :=
  ∀ slot item, s.bottom.entries.find? slot = some item →
    ∀ i, item.source ≠ .here (.argument i)

theorem bottom_of_below {s t : CallStack} (h : s.below = t.below) (hne : s.below ≠ []) :
    s.bottom = t.bottom := by
  have hlast := List.getLast?_eq_some_getLast hne
  rw [bottom, bottom, ← h, hlast, Option.getD_some, Option.getD_some]

theorem bottom_of_nil {s : CallStack} (h : s.below = []) : s.bottom = s.top := by
  simp [bottom, h]

theorem Grounded.without {s : CallStack} (h : s.Grounded) (slot : Slot) :
    (s.without slot).Grounded := by
  by_cases hb : s.below = []
  · intro k item hk
    rw [bottom_of_nil (s := s.without slot) hb] at hk
    apply h k item
    rw [bottom_of_nil hb]
    exact Table.find?_of_find?_erase hk
  · unfold Grounded
    rw [bottom_of_below (s := s.without slot) (t := s) rfl hb]
    exact h

theorem caller?_eq_none {s : CallStack} : s.caller? = none ↔ s.below = [] := by
  cases h : s.below <;> simp [caller?, h]

theorem bottom_of_owner {s t : CallStack} {slot : Slot} (h : s.owner slot = .ok t) :
    t.bottom = s.bottom := by
  cases slot with
  | argument i =>
    cases hc : s.caller? with
    | none => simp [owner, hc] at h
    | some caller =>
      simp only [owner, hc, Except.ok.injEq] at h
      rw [← h, Tracer.bottom_caller hc]
  | _ =>
    cases h
    rfl

theorem owner_error {s : CallStack} {slot : Slot} {e : TraceError} (h : s.owner slot = .error e) :
    s.below = [] ∧ ∃ i, slot = .argument i := by
  cases slot with
  | argument i =>
    refine ⟨caller?_eq_none.1 ?_, i, rfl⟩
    cases hc : s.caller? with
    | none => rfl
    | some caller => simp [owner, hc] at h
  | _ => simp [owner] at h

-- Only a source that is met in the bottom frame could fail, and that names no argument.
theorem chase_ends {s : CallStack} (h : s.Grounded) (slot : Slot) :
    ∃ history, s.chase slot = .ok history := by
  fun_induction chase s slot with
  | case1 => exact ⟨_, rfl⟩
  | case2 s slot item hf hv e ho =>
    obtain ⟨hb, i, hi⟩ := owner_error ho
    have hsource : item.source = .here (.argument i) := by
      simp only [TraceKey.isVolatile, TraceKey.isHere, Bool.and_eq_true, beq_iff_eq] at hv
      cases hs : item.source
      simp_all [TraceKey.here]
    have hbottom : s.bottom.entries.find? slot = some item := by
      rw [bottom_of_nil (s := s) hb]
      exact hf
    exact (h slot item hbottom i hsource).elim
  | case3 s slot item hf hv t ho e he ih =>
    obtain ⟨_, hok⟩ := ih (by
      unfold Grounded
      rw [bottom_of_owner ho]
      exact h.without slot)
    simp [he] at hok
  | case4 => exact ⟨_, rfl⟩
  | case5 => exact ⟨_, rfl⟩

theorem history_ends {s : CallStack} (h : s.Grounded) {slot : Slot}
    (hslot : s.below = [] → ∀ i, slot ≠ .argument i) : ∃ history, s.history slot = .ok history := by
  unfold history
  cases ho : s.owner slot with
  | error e =>
    obtain ⟨hb, i, hi⟩ := owner_error ho
    exact (hslot hb i hi).elim
  | ok t =>
    apply chase_ends
    unfold Grounded
    rw [bottom_of_owner ho]
    exact h

end CallStack

namespace Tracer

open CallStack

def running (t : Tracer) : List TraceId := t.stack.frames.map Frame.callId

def RunsAside {α : Type} (x : TraceM α) (t : Tracer) : Prop :=
  ∃ a g, Yields x t a { t with global := g }

theorem keep_runs {t : Tracer} {history : Except TraceError (List Hop × TraceKey)}
    (h : ∃ p, history = .ok p) : RunsAside (keep history) t := by
  obtain ⟨⟨hops, terminal⟩, rfl⟩ := h
  exact ⟨_, _, rfl⟩

theorem lasting_runs {t : Tracer} (h : t.stack.Grounded) {source : TraceKey}
    (hs : t.stack.below = [] → ∀ i, source ≠ .here (.argument i)) :
    RunsAside (lasting source) t := by
  unfold lasting
  split
  · next hv =>
    refine keep_runs (history_ends h fun hb i hi => hs hb i ?_)
    simp only [TraceKey.isVolatile, TraceKey.isHere, Bool.and_eq_true, beq_iff_eq] at hv
    cases hk : source
    simp_all [TraceKey.here]
  · exact ⟨source, t.global, rfl⟩

theorem grounded_onTop {t : Tracer} (h : t.stack.Grounded) {g : Frame → Frame}
    (hg : t.stack.below = [] → ∀ slot item, (g t.stack.top).entries.find? slot = some item →
      t.stack.top.entries.find? slot = some item ∨ ∀ i, item.source ≠ .here (.argument i)) :
    (t.onTop g).stack.Grounded := by
  by_cases hb : t.stack.below = []
  · intro slot item hi
    rw [bottom_of_nil (s := (t.onTop g).stack) hb] at hi
    rcases hg hb slot item hi with hi | hi
    · apply h slot item
      rw [bottom_of_nil hb]
      exact hi
    · exact hi
  · unfold Grounded
    rw [bottom_of_below (s := (t.onTop g).stack) (t := t.stack) rfl hb]
    exact h

theorem running_onTop (t : Tracer) {g : Frame → Frame}
    (hg : (g t.stack.top).callId = t.stack.top.callId) : (t.onTop g).running = t.running := by
  simp [running, onTop, frames, hg]

theorem running_clearPending (t : Tracer) : t.clearPending.running = t.running := running_onTop t rfl

theorem resolve_ne_argument {t : Tracer} (h : t.Invariant) {source : TraceKey}
    (hs : ∀ i, source ≠ .here (.argument i)) (i : Nat) : t.resolve source ≠ .here (.argument i) := by
  unfold resolve
  split
  · cases hr : t.stack.top.calleeReturn with
    | none => simp [TraceKey.untraced, TraceKey.here]
    | some item =>
      obtain ⟨c, hc, -⟩ := h.returns _ List.mem_cons_self item hr
      simp [hc, TraceKey.of, TraceKey.here]
  · exact hs i

theorem record_runs {t : Tracer} (h : t.Invariant) (hg : t.stack.Grounded) (target : TraceKey)
    (value : Value) {source : TraceKey} (hs : ∀ i, source ≠ .here (.argument i)) :
    ∃ t', Yields (record target value source) t () t' ∧ t'.stack.Grounded ∧
      t'.running = t.running := by
  have hsame : ∃ t', Yields (pure () : TraceM Unit) t () t' ∧ t'.stack.Grounded ∧
      t'.running = t.running := ⟨t, rfl, hg, rfl⟩
  unfold record
  split
  · split
    · have hr := resolve_ne_argument h hs
      split
      · refine ⟨_, rfl, grounded_onTop hg fun _ slot item hi => ?_, running_onTop t rfl⟩
        simp only [Table.find?_insert] at hi
        split at hi
        · cases hi
          exact .inr hr
        · exact .inl hi
      · obtain ⟨key, g, hkey⟩ := lasting_runs hg fun _ => hr
        refine ⟨{ t with global := g.insert target ⟨value, key⟩ }, ?_, hg, rfl⟩
        rw [Yields.get_bind_iff, Yields.bind_iff]
        exact ⟨key, _, hkey, rfl⟩
    · split
      · refine ⟨_, rfl, grounded_onTop hg fun _ slot item hi => .inl ?_, running_onTop t rfl⟩
        exact Table.find?_of_find?_erase hi
      · exact hsame
  · exact hsame

theorem pushFrame_runs {t : Tracer} (h : t.stack.Grounded) (parameters : List (Option String))
    (captured : List String) :
    ∃ t', Yields (pushFrame parameters captured) t t.nextId t' ∧ t'.stack.Grounded ∧
      t'.running = t.nextId :: t.running := by
  have hclear : t.clearPending.stack.Grounded := grounded_onTop h fun _ _ _ => .inl
  have hbegun : ∀ entries g, (t.begun entries g).stack.Grounded ∧
      (t.begun entries g).running = t.nextId :: t.running := by
    refine fun entries g => ⟨?_, congrArg (t.nextId :: ·) (running_clearPending t)⟩
    unfold Grounded begun
    rw [bottom_push]
    exact hclear
  rcases t.pushFrame_outcome parameters captured with
    ⟨-, hy⟩ | ⟨n, -, ⟨entries, g, -, hy⟩ | ⟨e, g, hstops, -⟩⟩
  · exact ⟨_, hy, hbegun _ _⟩
  · exact ⟨_, hy, hbegun _ _⟩
  · obtain ⟨before, _, _, _, _, -, -, -, -, -, hchase⟩ := hstops
    obtain ⟨_, hok⟩ := chase_ends hclear (.argument before.length)
    rw [hok] at hchase
    cases hchase

theorem popFrame_runs {t : Tracer} (h : t.stack.Grounded) {callId : TraceId} {rest : List TraceId}
    (hids : t.running = callId :: rest) (hne : rest ≠ []) :
    ∃ t', Yields popFrame t () t' ∧ t'.stack.Grounded ∧ t'.running = rest := by
  have hbelow : t.stack.below.map Frame.callId = rest := (List.cons.inj hids).2
  cases hc : t.stack.caller? with
  | none =>
    rw [caller?_eq_none.1 hc] at hbelow
    exact (hne hbelow.symm).elim
  | some caller =>
    have hframes : caller.frames.map Frame.callId = rest := by
      rw [← hbelow]
      exact congrArg (List.map Frame.callId) (congrArg CallStack.below (caller_eq hc)).symm
    have hcaller : caller.Grounded := by
      unfold Grounded
      rw [Tracer.bottom_caller hc]
      exact h
    unfold popFrame
    simp only [Yields.get_bind_iff, hc]
    cases hr : t.localItem? .result with
    | none =>
      exact ⟨_, rfl, grounded_onTop (t := { t with stack := caller }) hcaller fun _ _ _ => .inl,
        hframes⟩
    | some returned =>
      have hentered : t.stack.below ≠ [] := fun hb => by
        rw [caller?_eq_none.2 hb] at hc
        cases hc
      obtain ⟨key, g, hkey⟩ : RunsAside (lasting returned.source) t :=
        lasting_runs h fun hb => absurd hb hentered
      refine ⟨_, Yields.bind_iff.2 ⟨key, _, hkey, rfl⟩, ?_, hframes⟩
      apply grounded_onTop
      · exact hcaller
      · exact fun _ _ _ hi => .inl hi

theorem grounded_start : start.stack.Grounded := by
  intro slot item h
  simp [start, bottom] at h

end Tracer

end CoercionTrace
