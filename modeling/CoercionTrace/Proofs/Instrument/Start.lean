import CoercionTrace.Instrument.Pass
import CoercionTrace.Proofs.Instrument.Names
import CoercionTrace.Proofs.Scope.Resolution

/-!
# The state that a pass starts from

What holds before any node is replaced is kept by each enrolment of a scope (`start_induction`). Main
statements: trace variables belong to one function each (`start_traceVariables`), every instrumented
function whose variables nested functions read has one (`start_enrolled`), and no suppressed row
touches an instrumented function (`start_unsuppressed`).
-/

namespace CoercionTrace

open Instrumentation

structure TraceVariables (s : Instrumentation) : Prop where
  made : ∀ k v, s.traceVariable? k = some v → s.isInstrumented k = true ∧
    ∃ i < s.names.next, v = s.names.nameOf .traceId i
  distinct : ∀ k k' v, s.traceVariable? k = some v → s.traceVariable? k' = some v → k = k'

theorem TraceVariables.enroll {s : Instrumentation} (h : TraceVariables s) (id : ScopeId) :
    TraceVariables (s.enroll id) := by
  have hinstrumented : ∀ k, s.isInstrumented k = true → (s.instrumented ++ [id]).contains k = true := by
    intro k hk
    simp only [isInstrumented, List.contains_iff_mem] at hk ⊢
    exact List.mem_append_left _ hk
  unfold Instrumentation.enroll
  dsimp only
  split
  · exact h
  · split
    · -- a new variable has a number that no earlier one has
      have hold : ∀ i < s.names.next, s.names.nameOf .traceId s.names.next ≠ s.names.nameOf .traceId i :=
        fun i hi e => absurd (NameSupply.nameOf_injective e).2 (Nat.ne_of_gt hi)
      constructor
      · intro k v hv
        simp only [traceVariable?, Table.find?_insert] at hv
        split at hv
        · next e =>
          cases hv
          refine ⟨?_, s.names.next, Nat.lt_succ_self _, rfl⟩
          simp [isInstrumented, e]
        · obtain ⟨hk, i, hi, rfl⟩ := h.made k v hv
          exact ⟨hinstrumented k hk, i, Nat.lt_succ_of_lt hi, rfl⟩
      · intro k k' v hv hv'
        simp only [traceVariable?, Table.find?_insert] at hv hv'
        split at hv
        · next e =>
          cases hv
          split at hv'
          · next e' => exact e.symm.trans e'
          · obtain ⟨-, i, hi, hname⟩ := h.made k' _ hv'
            exact absurd hname (hold i hi)
        · split at hv'
          · cases hv'
            obtain ⟨-, i, hi, hname⟩ := h.made k _ hv
            exact absurd hname (hold i hi)
          · exact h.distinct k k' v hv hv'
    · exact ⟨fun k v hv => ⟨hinstrumented k (h.made k v hv).1, (h.made k v hv).2⟩, h.distinct⟩

theorem enroll_same (s : Instrumentation) (id : ScopeId) :
    (s.enroll id).tree = s.tree ∧ (s.enroll id).scopes = s.scopes ∧
      (s.enroll id).suppression = s.suppression ∧ (s.enroll id).temporaries = s.temporaries := by
  unfold Instrumentation.enroll
  dsimp only
  split
  · exact ⟨rfl, rfl, rfl, rfl⟩
  · split <;> exact ⟨rfl, rfl, rfl, rfl⟩

theorem instrumented_of_enroll {s : Instrumentation} {id k : ScopeId}
    (h : (s.enroll id).isInstrumented k = true) : s.isInstrumented k = true ∨
      k = id ∧ s.touchesSuppressed (s.scopes.scope id).node = false := by
  unfold Instrumentation.enroll at h
  dsimp only at h
  split at h
  · exact .inl h
  · next hnot =>
    have huntouched := (Bool.or_eq_false_iff.1 (Bool.eq_false_iff.2 hnot)).2
    have hk : s.isInstrumented k = true ∨ k = id := by
      split at h <;> simpa [isInstrumented] using h
    exact hk.imp_right fun e => ⟨e, huntouched⟩

theorem instrumented_enroll {s : Instrumentation} {k : ScopeId} (h : s.isInstrumented k = true)
    (id : ScopeId) : (s.enroll id).isInstrumented k = true := by
  have happend : (s.instrumented ++ [id]).contains k = true := by
    simp only [isInstrumented, List.contains_iff_mem] at h ⊢
    exact List.mem_append_left _ h
  unfold Instrumentation.enroll
  dsimp only
  split
  · exact h
  · split <;> exact happend

theorem Instrumentation.instrumented_enroll_self (s : Instrumentation) {id : ScopeId}
    (hkind : (s.scopes.scope id).kind = .function)
    (hrows : s.touchesSuppressed (s.scopes.scope id).node = false) :
    (s.enroll id).isInstrumented id = true := by
  have hself : (s.instrumented ++ [id]).contains id = true := by simp
  unfold Instrumentation.enroll
  dsimp only
  split
  · next h => simp [hkind, hrows] at h
  · split <;> exact hself

/-- Instrumented functions are plain, and those whose variables nested functions read keep their
calls. -/
structure Enrolled (s : Instrumentation) : Prop where
  plain : ∀ k, s.isInstrumented k = true → (s.scopes.scope k).kind = .function
  kept : ∀ k, s.isInstrumented k = true → s.scopes.hasClosedOver k = true →
    ∃ v, s.traceVariable? k = some v

theorem Enrolled.enroll {s : Instrumentation} (h : Enrolled s) (id : ScopeId) :
    Enrolled (s.enroll id) := by
  unfold Instrumentation.enroll
  dsimp only
  split
  · exact h
  · next hnot =>
    have hkind : (s.scopes.scope id).kind = .function := by
      simpa using (Bool.or_eq_false_iff.1 (Bool.eq_false_iff.2 hnot)).1
    have hnew : ∀ {k}, (s.instrumented ++ [id]).contains k = true → s.isInstrumented k = true ∨ k = id := by
      intro k hk
      simpa [isInstrumented] using hk
    split
    · refine ⟨fun k hk => ?_, fun k hk hclosed => ?_⟩
      · rcases hnew hk with hk | rfl
        · exact h.plain k hk
        · exact hkind
      · simp only [traceVariable?, Table.find?_insert]
        split
        · exact ⟨_, rfl⟩
        · next hne => exact h.kept k ((hnew hk).resolve_right (Ne.symm hne)) hclosed
    · next hopen =>
      refine ⟨fun k hk => ?_, fun k hk hclosed => ?_⟩
      · rcases hnew hk with hk | rfl
        · exact h.plain k hk
        · exact hkind
      · rcases hnew hk with hk | rfl
        · exact h.kept k hk hclosed
        · exact absurd hclosed hopen

def Keyed (s : Instrumentation) : Prop := ∀ id, ∃ origin, s.identifierOrigin id = .ok origin

theorem Enrolled.keyed {s : Instrumentation} (h : Enrolled s) : Keyed s := by
  intro id
  unfold identifierOrigin
  extract_lets name
  cases (s.scopes.resolution? id).getD .global with
  | global => exact ⟨_, rfl⟩
  | declared k declaredName here =>
    dsimp only
    split
    · exact ⟨_, rfl⟩
    · next hk =>
      split
      · exact ⟨_, rfl⟩
      · next hclosed =>
        obtain ⟨v, hv⟩ := h.kept k (by simpa using hk)
          (ScopeTable.hasClosedOver_of_isClosedOver (by simpa using hclosed))
        rw [hv]
        exact ⟨_, rfl⟩

section

variable (tree : SyntaxTree) (scopes : ScopeTable) (suppression : Suppression) (hook file : String)

theorem start_induction {Q : Instrumentation → Prop}
    (hQ : Q { tree, scopes, suppression, hook, file, names := .forProgram tree.source })
    (hstep : ∀ s id, Q s → Q (s.enroll id)) : Q (.start tree scopes suppression hook file) := by
  have key : ∀ (ids : List ScopeId) (s : Instrumentation), Q s → Q (ids.foldl enroll s) := by
    intro ids
    induction ids with
    | nil => exact fun _ h => h
    | cons id rest ih => exact fun s h => ih _ (hstep s id h)
  exact key _ _ hQ

theorem start_same :
    (start tree scopes suppression hook file).tree = tree ∧
      (start tree scopes suppression hook file).scopes = scopes ∧
      (start tree scopes suppression hook file).suppression = suppression ∧
      (start tree scopes suppression hook file).temporaries = .empty := by
  refine start_induction tree scopes suppression hook file
    (Q := fun s => s.tree = tree ∧ s.scopes = scopes ∧ s.suppression = suppression ∧
      s.temporaries = .empty) ⟨rfl, rfl, rfl, rfl⟩ ?_
  rintro s id ⟨htree, hscopes, hsuppression, htemporaries⟩
  obtain ⟨htree', hscopes', hsuppression', htemporaries'⟩ := enroll_same s id
  exact ⟨htree'.trans htree, hscopes'.trans hscopes, hsuppression'.trans hsuppression,
    htemporaries'.trans htemporaries⟩

theorem start_diagnostics : (start tree scopes suppression hook file).diagnostics = [] := by
  refine start_induction tree scopes suppression hook file (Q := fun s => s.diagnostics = []) rfl
    fun s id h => ?_
  unfold Instrumentation.enroll
  dsimp only
  split
  · exact h
  · split <;> exact h

def Unsuppressed (s : Instrumentation) : Prop :=
  ∀ k, s.isInstrumented k = true → s.touchesSuppressed (s.scopes.scope k).node = false

theorem start_unsuppressed : Unsuppressed (.start tree scopes suppression hook file) := by
  refine start_induction tree scopes suppression hook file (fun k hk => by cases hk) ?_
  intro s id h k hk
  obtain ⟨htree, hscopes, hsuppression, -⟩ := enroll_same s id
  rw [touchesSuppressed, htree, hscopes, hsuppression]
  rcases instrumented_of_enroll hk with hk | ⟨rfl, huntouched⟩
  · exact h k hk
  · exact huntouched

theorem start_traceVariables : TraceVariables (.start tree scopes suppression hook file) := by
  refine start_induction tree scopes suppression hook file ⟨fun k v hv => ?_, fun k k' v hv => ?_⟩
    fun s id h => h.enroll id
  · cases hv
  · cases hv

theorem start_enrolled : Enrolled (.start tree scopes suppression hook file) := by
  refine start_induction tree scopes suppression hook file ⟨fun k hk => ?_, fun k hk => ?_⟩
    fun s id h => h.enroll id
  · cases hk
  · cases hk

theorem isInstrumented_start {k : ScopeId} (hk : k < scopes.scopes.size) :
    (start tree scopes suppression hook file).isInstrumented k = true ↔
      (scopes.scope k).kind = .function ∧
        tree.touchesRows (scopes.scope k).node suppression.isSuppressed = false := by
  obtain ⟨htree, hscopes, hsuppression, -⟩ := start_same tree scopes suppression hook file
  constructor
  · intro h
    have hplain := (start_enrolled tree scopes suppression hook file).plain k h
    have hrows := start_unsuppressed tree scopes suppression hook file k h
    rw [touchesSuppressed, htree, hscopes, hsuppression] at hrows
    rw [hscopes] at hplain
    exact ⟨hplain, hrows⟩
  · rintro ⟨hkind, hrows⟩
    have key : ∀ (ids : List ScopeId) (s : Instrumentation), s.tree = tree → s.scopes = scopes →
        s.suppression = suppression → k ∈ ids ∨ s.isInstrumented k = true →
        (ids.foldl enroll s).isInstrumented k = true := by
      intro ids
      induction ids with
      | nil => exact fun s _ _ _ h => h.resolve_left List.not_mem_nil
      | cons id rest ih =>
        rintro s rfl rfl rfl h
        obtain ⟨htree, hscopes, hsuppression, -⟩ := enroll_same s id
        refine ih _ htree hscopes hsuppression ?_
        rcases h with h | h
        · refine (List.mem_cons.1 h).symm.imp_right fun e => ?_
          subst e
          exact s.instrumented_enroll_self hkind hrows
        · exact .inr (instrumented_enroll h id)
    exact key _ _ rfl rfl rfl (.inl (List.mem_range.2 hk))

end

end CoercionTrace
