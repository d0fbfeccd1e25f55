import CoercionTrace.Check.Kind
import CoercionTrace.Document.Writing

/-!
# Check configurations

The severities that settings give to checks. A check that they leave out has its default.
-/

namespace CoercionTrace

structure CheckConfig where
  override : CheckKind → Option Severity := fun _ => none

namespace CheckConfig

instance : Inhabited CheckConfig := ⟨{}⟩

instance : DecidableEq CheckConfig := fun a b =>
  if h : ∀ k ∈ CheckKind.all, a.override k = b.override k then
    isTrue (by
      cases a; cases b
      simp only [CheckConfig.mk.injEq]
      funext k
      exact h k (CheckKind.mem_all k))
  else isFalse (fun e => h (fun _ _ => e ▸ rfl))

def severity (c : CheckConfig) (k : CheckKind) : Severity :=
  (c.override k).getD k.defaultSeverity

def set (c : CheckConfig) (k : CheckKind) (s : Severity) : CheckConfig :=
  ⟨fun k' => if k' = k then some s else c.override k'⟩

def entries (c : CheckConfig) : List (CheckKind × Severity) :=
  CheckKind.all.filterMap fun k => (c.override k).map fun s => (k, s)

def document (c : CheckConfig) : Document :=
  .object (c.entries.map fun e => (some e.1.key, .string (some e.2.key)))

@[simp] theorem severity_set_self (c : CheckConfig) (k : CheckKind) (s : Severity) :
    (c.set k s).severity k = s := by simp [severity, set]

end CheckConfig

end CoercionTrace
