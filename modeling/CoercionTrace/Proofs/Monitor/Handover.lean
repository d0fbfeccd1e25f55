import CoercionTrace.Proofs.Monitor.Course
import CoercionTrace.Proofs.Trace.Listing

/-!
# What a call hands over

A call check leaves its caller with what the last call that ended right above it kept of its result,
which need not be a call of the function that was checked (`return_of_callCheck`). A call that is
entered from inside a native function takes over no arguments exactly if no announcement stood when
that function was called (`takes_nothing_iff`).
-/

namespace CoercionTrace

open Tracer World

namespace Monitor

variable {σ : Type} {m : MonitorId} {call : Call σ}

theorem yields_announced {f : Callable} {receiver answer : Value} {arguments : List Value}
    {w w' : World σ} (h : Yields (announced call m f receiver arguments) w answer w') :
    ∃ u, Yields (call f receiver arguments) (w.calling m f arguments) answer u ∧
      w' = u.onTracer m clearPending := by
  rw [Yields, run_announced, HostM.run_andFinally] at h
  obtain ⟨hanswer, rfl⟩ := Prod.mk.inj h
  exact ⟨_, Prod.ext hanswer rfl, rfl⟩

theorem yields_callCheck (hcall : CallLeads (GoesOn m) call) {callee receiver answer : Value}
    {arguments : List Value} {text location : String} {w w' : World σ}
    (h : Yields (callCheck call m callee receiver arguments text location) w answer w') :
    ∃ f before u, w.heap.callable? callee = some f ∧ Course m w before u ∧
      (oversupplied f arguments = false → before = [] ∧ u = w) ∧
      Yields (announced call m f receiver arguments) u answer w' := by
  replace h := Yields.get_bind_iff.1 (yields_of_live h)
  dsimp only at h
  split at h
  · obtain ⟨_, _, -, h⟩ := Yields.bind_iff.1 h
    exact (Yields.not_throw h).elim
  · next f hf =>
    refine ⟨f, ?_⟩
    split at h
    · next hreport =>
      obtain ⟨_, u, hu, h⟩ := Yields.bind_iff.1 h
      obtain ⟨before, hbefore⟩ := (report_leads admits_goesOn.handles hcall _ _ _ _ w).after hu
      simp only [Bool.and_eq_true] at hreport
      exact ⟨before, u, hf, hbefore, by simp [hreport.1], h⟩
    · exact ⟨[], w, hf, .refl, fun _ => ⟨rfl, rfl⟩, h⟩

end Monitor

/-- In every world that a program leads to: a call check that succeeds has called its function, and
if that left the calls which it entered, and no others, its caller is left with what the last of
these to end right above it kept of its result: no result exactly if that call kept none, or there
was no such call. A function that leaves what it enters is of this kind where its monitor is in
step. -/
theorem return_of_callCheck {σ : Type} (w : World σ) (r : RealmId) (checks : CheckConfig) {log : Log}
    {u : World σ} (h : Course (w.newMonitor r checks).1 (w.newMonitor r checks).2 log u)
    {call : Call σ} (hcall : Monitor.CallLeads (GoesOn (w.newMonitor r checks).1) call)
    {callee receiver answer : Value} {arguments : List Value} {text location : String} {u' : World σ}
    (hy : Yields (Monitor.callCheck call (w.newMonitor r checks).1 callee receiver arguments text
      location) u answer u') :
    let m := (w.newMonitor r checks).1
    ∃ f before x e, u.heap.callable? callee = some f ∧ Course m u before x ∧
      (Monitor.oversupplied f arguments = false → before = [] ∧ x = u) ∧
      Yields (call f receiver arguments) (x.calling m f arguments) answer e ∧
      u' = e.onTracer m clearPending ∧
      (∀ body, Course m (x.calling m f arguments) body e → body.rise = some 0 →
        u'.running m = x.running m ∧
        (u'.monitor m).tracer.stack.top.calleeReturn.map TraceItem.value = body.lastResult) ∧
      ∀ E, Balanced m E (call f receiver arguments) → x.Ready m →
        ∃ body, Course m (x.calling m f arguments) body e ∧ body.rise = some 0 := by
  intro m
  obtain ⟨f, before, x, hf, hbefore, hdirect, hannounced⟩ := Monitor.yields_callCheck hcall hy
  obtain ⟨e, hrun, rfl⟩ := Monitor.yields_announced hannounced
  refine ⟨f, before, x, e, hf, hbefore, hdirect, hrun, rfl, fun body hbody hrise => ?_,
    fun E hbalanced hx => ?_⟩
  case refine_2 =>
    have hready := (staysReady_calling x f arguments hx).1
    exact ((hbalanced.staysLevel _).after hrun hready).2
  have hcalling : Course m _ _ (x.calling m f arguments) := (h.trans hbefore).calling f arguments
  have hcalled := ((hcalling.trans hbody).called).fromStart w r checks
  constructor
  · have hpresent := ((h.trans hbefore).fromStart w r checks).1
    have hcourse := (hbody.tracer (hcalling.fromStart w r checks).1).2
    have hpresent' := ((hcalling.trans hbody).fromStart w r checks).1
    rw [World.running, tracer_onTracer hpresent', running_clearPending, hcourse.running_eq,
      Log.running_of_rise hrise, tracer_calling hpresent]
    exact (Tracer.Step.calling _).running_eq
  · rw [hcalled.2.agrees.result]
    exact Log.lastResult_append _ _ body 0 hrise

def callsBack : Call Unit := fun _ _ _ => do
  let _ ← Monitor.withFrame 0 [] [] fun _ =>
    Monitor.assign 0 (.number .nan) { slot := .text returnSlotName } {}
  return .number .zero

theorem balanced_callsBack (f : Callable) (receiver : Value) (arguments : List Value) :
    Balanced 0 (fun _ => False) (callsBack f receiver arguments) := by
  refine .bind (.withFrame _ _ fun _ => .assign _ _ ?_) fun _ => .own (fun w => ?_) fun w e he => ?_
  · simp [RawKey.IsArgument]
  · exact ⟨fun h => h, rfl, rfl⟩
  · cases he

theorem return_of_callsBack :
    ∃ u', Yields (Monitor.callCheck callsBack 0 (.object 1) .undefined [] "f" "f.js 1:1")
        World.watched (.number .zero) u' ∧
      (u'.monitor 0).tracer.stack.top.calleeReturn = some ⟨.number .nan, .of 3 .result⟩ ∧
      ∃ f e body, Yields (callsBack f .undefined []) (World.watched.calling 0 f []) (.number .zero) e ∧
        Course 0 (World.watched.calling 0 f []) body e ∧ body.rise = some 0 ∧
        u'.running 0 = [2] ∧ body.lastResult = some (.number .nan) := by
  have hy : Yields (Monitor.callCheck callsBack 0 (.object 1) .undefined [] "f" "f.js 1:1")
      World.watched (.number .zero) _ := .of_toOption (by decide +kernel)
  have hcall : Monitor.CallLeads (GoesOn 0) callsBack := fun f receiver arguments =>
    (balanced_callsBack f receiver arguments).goesOn
  obtain ⟨f, before, x, e, -, -, hdirect, hrun, -, hexact, hlog⟩ :=
    return_of_callCheck (.withFunction { behaviour := .routine 0 }) 0 {}
      (.refl : Course 0 World.watched [] World.watched) hcall hy
  obtain ⟨-, rfl⟩ := hdirect (by simp [Monitor.oversupplied])
  obtain ⟨body, hbody, hrise⟩ := hlog _ (balanced_callsBack f .undefined [])
    (World.ready_newMonitor (.withFunction { behaviour := .routine 0 }) 0 {})
  obtain ⟨hrunning, hresult⟩ := hexact body hbody hrise
  exact ⟨_, hy, by decide +kernel, f, e, body, hrun, hbody, hrise,
    hrunning.trans (by decide +kernel), hresult.symm.trans (by decide +kernel)⟩

namespace Tracer

variable {t : Tracer}

theorem bindParameters_unnamed (callId : TraceId) (arguments : Nat) (captured : List String)
    (parameters : List (Option String)) (entries : Table Slot TraceItem) (n : Nat) :
    ∀ i, bindParameters callId arguments captured i (List.replicate n none ++ parameters) entries =
      bindParameters callId arguments captured (i + n) parameters entries := by
  induction n with
  | zero => exact fun _ => rfl
  | succ n ih => exact fun i => (ih (i + 1)).trans (by rw [Nat.add_right_comm, Nat.add_assoc])

theorem pushFrame_omitted {n : Nat} (h : t.stack.top.pendingArguments = some n) (name : String) :
    ∃ t', Yields (pushFrame (List.replicate n none ++ [some name]) []) t t.nextId t' ∧
      t'.stack.top.entries.find? (.name name) = some ⟨.undefined, .untraced⟩ := by
  have hbind : ∀ u : Tracer, Yields
      (bindParameters t.nextId n [] 0 (List.replicate n none ++ [some name]) .empty) u
      (Table.insert .empty (.name name) ⟨.undefined, .untraced⟩) u := by
    intro u
    have hpassed : u.passed? n n = some ⟨.undefined, .untraced⟩ := if_pos (Nat.le_refl n)
    rw [bindParameters_unnamed, Nat.zero_add, bindParameters, Yields.get_bind_iff, hpassed]
    rfl
  refine ⟨t.begun (Table.insert .empty (.name name) ⟨.undefined, .untraced⟩) t.global, ?_,
    Table.find?_insert_self _ _ _⟩
  unfold pushFrame
  rw [Yields.get_bind_iff, h]
  exact Yields.bind_iff.2 ⟨_, _, rfl, Yields.bind_iff.2 ⟨_, _, hbind _, rfl⟩⟩

end Tracer

theorem World.tornDown_calling {σ : Type} (w : World σ) (m : MonitorId) (f : Callable)
    (arguments : List Value) :
    ((w.calling m f arguments).monitor m).tornDown = (w.monitor m).tornDown := by
  unfold calling
  split <;> simp only [tornDown_onTracer]

/-- In every world that a program leads to in which a native function is about to be called: no call
that is entered before it has called another function takes over anything, exactly if no announcement
stands. One stands from the call of a function that is not native until a call begins or ends, or
a function comes back. -/
theorem takes_nothing_iff {σ : Type} (w : World σ) (r : RealmId) (checks : CheckConfig) {log : Log}
    {u : World σ} (h : Course (w.newMonitor r checks).1 (w.newMonitor r checks).2 log u)
    (hlive : (u.monitor (w.newMonitor r checks).1).tornDown = false) {f : Callable}
    (hnative : f.isNative = true) (arguments : List Value) :
    let m := (w.newMonitor r checks).1
    (∀ body x, Course m (u.calling m f arguments) body x → (∀ n, .calling (some n) ∉ body) →
      ∀ parameters captured id y, Yields (Monitor.enterCall m parameters captured) x id y →
        (y.monitor m).tracer.stack.top.entries = .empty) ↔
      log.announced = none := by
  intro m
  have hcalling : Course m (w.newMonitor r checks).2 (.calling none :: log)
      (u.calling m f arguments) := by
    have hcalling := h.calling f arguments
    rwa [announcement, if_pos hnative] at hcalling
  constructor
  · intro hnothing
    obtain ⟨hpresent, hcourse⟩ := hcalling.fromStart w r checks
    cases hannounced : log.announced with
    | none => rfl
    | some n =>
      have hpending := hcourse.agrees.announced.trans hannounced
      have hlive' : ((u.calling m f arguments).monitor m).tornDown = false :=
        (tornDown_calling u m f arguments).trans hlive
      -- a function with one parameter more than were announced keeps something: that it was left out
      obtain ⟨t', hpush, hentry⟩ := pushFrame_omitted hpending "p"
      have henter : Yields (Monitor.enterCall m (List.replicate n none ++ [some "p"]) [])
          (u.calling m f arguments) _ _ :=
        Yields.bind_iff.2 ⟨(), _, Monitor.ensureLive_yields hlive', Monitor.traced_yields hpush⟩
      have hempty := hnothing [] _ .refl (by simp) _ _ _ _ henter
      rw [tracer_onTracer hpresent] at hempty
      simp [hempty] at hentry
  · intro hnone body x hbody hscript parameters captured id y hy
    have hx := (hcalling.trans hbody).fromStart w r checks
    obtain ⟨entries, g, hb, rfl, rfl⟩ := step_of_enterCall hy
    rw [tracer_onTracer hx.1]
    refine hb.unannounced ?_
    rw [hx.2.agrees.announced]
    exact Log.announced_append hnone hscript

/-- The program stores its argument and calls a function, which is not native and enters no call. -/
def World.handing : World Unit :=
  (watched.assigned [(.number .nan, { slot := .number .zero }, {})]).calling 0
    { arity := 1, source := some "a => f(a)", behaviour := .routine 0 } [.number .nan]

theorem takes_from_outside :
    let f : Callable := { behaviour := .routine 0 }
    ∃ log, Course 0 World.watched log World.handing ∧ log.announced = some 1 ∧
      (((Monitor.enterCall 0 [some "p"] []).run (World.handing.calling 0 f [])).2.monitor
        0).tracer.localItem? (.name "p") = some ⟨.number .nan, .here (.argument 0)⟩ ∧
      ¬ ∀ body x, Course 0 (World.handing.calling 0 f []) body x →
        (∀ n, .calling (some n) ∉ body) → ∀ parameters captured id y,
          Yields (Monitor.enterCall 0 parameters captured) x id y →
            (y.monitor 0).tracer.stack.top.entries = .empty := by
  intro f
  have hassign : Yields (Monitor.assign 0 (.number .nan) { slot := .number .zero } {})
      World.watched (.number .nan) _ := .of_toOption (by decide +kernel)
  have h : Course 0 World.watched _ World.handing := (Course.refl.assign hassign).calling _ _
  have hiff := takes_nothing_iff (.withFunction { behaviour := .routine 0 }) 0 {} h
    (by decide +kernel) (rfl : f.isNative = true) []
  exact ⟨_, h, rfl, by decide +kernel, fun hnothing => by cases hiff.1 hnothing⟩

end CoercionTrace
