import CoercionTrace.Proofs.Instrument.Guarded
import CoercionTrace.Proofs.Monitor.Recording

/-!
# Members as places

A key without a scope is that of a slot of the running call, and a nullish base is no scope. Main
statement: a hook that is told of a member takes it for a slot of the running call exactly if the
member is the target of a plain assignment and its base, but not its property, is nullish
(`memberKey_isVolatile_iff`).
-/

namespace CoercionTrace

open Code

variable {σ : Type} {m : MonitorId} {w : World σ} {value : Value} {target source : RawKey}
  {s s' : Instrumentation} {id : NodeId} {r : Rule}

namespace World

theorem traceKey_of_isNullish (w : World σ) {key : RawKey} (h : key.scope.isNullish = true) :
    w.traceKey m key = (.here (localSlot w.heap key.slot), w) := by
  obtain ⟨scope, slot⟩ := key
  cases scope with
  | undefined | null => rfl
  | _ => cases h

theorem isTraced_localSlot (h : Heap) (v : Value) :
    (TraceKey.here (localSlot h v)).isTraced = !v.isNullish := by
  cases v with
  | undefined | null => rfl
  | number n =>
    rw [localSlot]
    split <;> rfl
  | text t =>
    rw [localSlot]
    split <;> rfl
  | _ => rfl

theorem isVolatile_traceKey (w : World σ) (key : RawKey) : (w.traceKey m key).1.isVolatile = true ↔
    key.scope.isNullish = true ∧ key.slot.isNullish = false := by
  by_cases hscope : key.scope.isNullish = true
  · rw [traceKey_of_isNullish w hscope, TraceKey.isVolatile, isTraced_localSlot]
    simp [TraceKey.isHere, TraceKey.here, hscope]
  · refine iff_of_false ?_ fun h => hscope h.1
    by_cases hobject : key.scope.isObject = true
    · simp [TraceKey.isVolatile, isHere_traceKey w hobject]
    · obtain ⟨scope, slot⟩ := key
      cases scope with
      | undefined | null => exact absurd rfl hscope
      | object => exact absurd rfl hobject
      | _ => exact Bool.false_ne_true

end World

structure HookCall.NamesMember (call : HookCall) (i : Nat) (base property : String) : Prop where
  position : i ∈ call.method.keys
  scope : call.arguments[i]? = some (Origin.member base property).scope
  slot : call.arguments[i + 1]? = some (Origin.member base property).slot

namespace Monitor

/-- Assigning to a member of a nullish value is assigning to the variable that is named like the
property. -/
theorem assign_of_isNullish (h : target.scope.isNullish = true) :
    (assign m value target source : HostM σ Value) = assign m value { slot := target.slot } source := by
  obtain ⟨scope, slot⟩ := target
  cases scope with
  | undefined | null => rfl
  | _ => cases h

theorem stack_assign (hm : m < w.monitors.size) (h : (w.traceKey m target).1.isVolatile = false) :
    (((assign m value target source).run w).2.monitor m).tracer.stack = (w.monitor m).tracer.stack := by
  have hkeyed : World.Identifies m w (w.keyed m target source).2 :=
    trans_of (World.Identifies m) (World.identifies_traceKey w target)
      (World.identifies_traceKey _ source)
  have hstack : ((w.keyed m target source).2.monitor m).tracer.stack = (w.monitor m).tracer.stack := by
    obtain ⟨n, -, htracer⟩ := hkeyed.tracer
    rw [htracer]
  have hhere : (w.traceKey m target).1.isTraced = true → (w.traceKey m target).1.isHere = true →
      False := by
    intro htraced hhere
    simp [TraceKey.isVolatile, htraced, hhere] at h
  generalize hw' : ((assign m value target source).run w).2 = w'
  have hassigns := assigns (m := m) w value target source
  rw [hw'] at hassigns
  cases hassigns with
  | ended => rfl
  | failed =>
    rw [World.tracer_onTracer (hkeyed.present hm), hstack]
  | recorded _ hrecorded =>
    rw [World.tracer_onTracer (hkeyed.present hm), ← hstack]
    cases hrecorded with
    | nothing => rfl
    | erased htraced hh => exact (hhere htraced hh).elim
    | here htraced hh => exact (hhere htraced hh).elim
    | outside => rfl

/-- A member that a hook is told of is taken for a slot of the running call exactly if it is the target
of a plain assignment, has a property, and its base is nullish. Recording a value there is recording it
in that slot; recording one at any other member leaves the slots of all calls alone. -/
theorem memberKey_isVolatile_iff {change : Change} (h : Yields (r.change? id) s (some change) s')
    {held : String → Value} {answers : List Value} {call : HookCall}
    (hcall : call ∈ hookCalls change.replacement.codes held answers) {i : Nat} {base property : String}
    (hi : call.NamesMember i base property) (w : World σ) :
    let key := keyArgument call.values i
    ((w.traceKey m key).1.isVolatile = true ↔
      r.LeavesOpen i ∧ key.scope.isNullish = true ∧ key.slot.isNullish = false) ∧
    ∀ (value : Value) (source : RawKey),
      (key.scope.isNullish = true → (assign m value key source : HostM σ Value) =
        assign m value { slot := key.slot } source) ∧
      ((w.traceKey m key).1.isVolatile = false → m < w.monitors.size →
        (((assign m value key source).run w).2.monitor m).tracer.stack =
          (w.monitor m).tracer.stack) := by
  intro key
  have hclear := clear_of_guarded (InstrumentM.change_guarded h) call hcall i hi.position base hi.scope
  refine ⟨?_, fun value source => ⟨assign_of_isNullish, fun hnot hm => stack_assign hm hnot⟩⟩
  rw [World.isVolatile_traceKey]
  constructor
  · rintro ⟨hscope, hslot⟩
    refine ⟨hclear.resolve_right fun hnot => ?_, hscope, hslot⟩
    exact Bool.false_ne_true (hnot.symm.trans hscope)
  · exact fun h => h.2

def memberAssignment : Instrumentation :=
  let tree : Concrete :=
    .named "program" 0 8 none [
      .named "expression_statement" 0 8 none [
        .named "assignment_expression" 0 7 none [
          .named "member_expression" 0 3 (some "left") [
            .named "identifier" 0 1 (some "object") [],
            .named "property_identifier" 2 3 (some "property") []],
          .mark "=" 4 5 none,
          .named "identifier" 6 7 (some "right") []]]]
  .start (.ofConcrete "b.x = y;".toList tree) {} {} "__rt" "t.js"

/-- The call of the hook in `$$t0 = b, $$t1 = "x", $$t0[$$t1] = __rt.assign(…)`, `b` being undefined. -/
def memberCall : HookCall where
  method := .assign
  arguments := [.identifier 6 "y", .variable .temporary "$$t0", .variable .temporary "$$t1", .name "__rt",
    .quoted "y", .quoted "t.js:1"]
  values := [.number .nan, .undefined, .text "x", .object 1, .text "y", .text "t.js:1"]

theorem memberKey_isVolatile_iff_undefinedBase : ∃ change s',
    Yields (Rule.assignment.change? 2) memberAssignment (some change) s' ∧
      memberCall ∈ hookCalls change.replacement.codes (fun _ => .undefined)
        [.undefined, .number .nan, .object 1] ∧
      memberCall.NamesMember 1 "$$t0" "$$t1" ∧
      (withObject.traceKey 0 (keyArgument memberCall.values 1)).1.isVolatile = true ∧
      (assign 0 (.number .nan) (keyArgument memberCall.values 1) {} : HostM Unit Value) =
        assign 0 (.number .nan) { slot := .text "x" } {} ∧
      (let w := ((assign 0 (.number .nan) (keyArgument memberCall.values 1) {}).run withObject).2
       (w.monitor 0).tracer.localItem? (.name "x") = some ⟨.number .nan, .untraced⟩) := by
  have hy : Yields (Rule.assignment.change? 2) memberAssignment
      (some ⟨2, .expression (.sequence [.store (.variable .temporary "$$t0") (.splice 4 "b"),
        .store (.variable .temporary "$$t1") (.quoted "x"),
        .store (.access 3 "$$t0" "$$t1") (.hook "__rt" .assign memberCall.arguments)])⟩)
      ((Rule.assignment.change? 2).run memberAssignment).2 := Prod.ext (by rfl) rfl
  have hcall : memberCall ∈ hookCalls [.sequence [.store (.variable .temporary "$$t0") (.splice 4 "b"),
        .store (.variable .temporary "$$t1") (.quoted "x"),
        .store (.access 3 "$$t0" "$$t1") (.hook "__rt" .assign memberCall.arguments)]]
      (fun _ => .undefined) [.undefined, .number .nan, .object 1] := List.mem_cons_self
  have hi : memberCall.NamesMember 1 "$$t0" "$$t1" := ⟨List.mem_cons_self, rfl, rfl⟩
  obtain ⟨hvolatile, hrecords⟩ := memberKey_isVolatile_iff (m := 0) hy hcall hi withObject
  exact ⟨_, _, hy, hcall, hi, hvolatile.2 ⟨⟨rfl, rfl⟩, rfl, rfl⟩,
    (hrecords (.number .nan) {}).1 rfl, by decide +kernel⟩

end Monitor

end CoercionTrace
