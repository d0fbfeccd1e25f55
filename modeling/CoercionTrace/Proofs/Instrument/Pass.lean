import CoercionTrace.Proofs.Instrument.Current
import CoercionTrace.Proofs.Instrument.Progress
import CoercionTrace.Proofs.Scope.Analysis

/-!
# Passes

Main statements: whatever has been replaced when a pass has come some way was replaced by the rule
for it (`Passed.replaced`), and reads as if it were replaced last (`Passed.settled`). A pass keeps
this at each visit (`Passed.visit`), hence holds it when it is over (`pass_passed`).
-/

namespace CoercionTrace

open InstrumentM

variable {s₀ s s' : Instrumentation} {rules : List Rule} {done : List NodeId} {id d : NodeId}
  {rep : Replacement}

namespace Fixed

variable (h : Fixed s s')
include h

theorem touchesSuppressed : s'.touchesSuppressed = s.touchesSuppressed := by
  funext id
  simp only [Instrumentation.touchesSuppressed, h.shape.touchesRows, h.suppression]

theorem isInstrumented : s'.isInstrumented = s.isInstrumented := by
  funext k
  simp only [Instrumentation.isInstrumented, h.instrumented]

theorem traceVariable? : s'.traceVariable? = s.traceVariable? := by
  funext k
  simp only [Instrumentation.traceVariable?, h.traceVariables]

theorem host? : s'.host? = s.host? := by
  funext id
  simp only [Instrumentation.host?, ScopeTable.enclosing?, h.shape.ancestors, h.scopes]

theorem hookCall : s'.hookCall = s.hookCall := by
  funext method arguments
  simp only [Instrumentation.hookCall, h.hook]

theorem enterCall : s'.enterCall = s.enterCall := by
  have hnames : s'.tree.parameterNames = s.tree.parameterNames := by
    funext id
    simp only [SyntaxTree.parameterNames, h.shape.child?, h.shape.significantChildren, h.shape.kind,
      h.shape.rawSource]
  funext function scope
  unfold Instrumentation.enterCall
  rw [hnames, h.hookCall]

end Fixed

structure BodyOf (s : Instrumentation) (f : NodeId) (number : ScopeId) (body : NodeId) : Prop where
  kind : (s.tree.kind f).IsPlainFunction
  scope : s.scopes.scopeOf? f = some number
  function : (s.scopes.scope number).kind = .function
  child : s.tree.child? f "body" = some body

inductive Replacement.IsConstruct : Replacement → Prop
  | expression {code : Code} : IsConstruct (.expression code)
  | statement {leading : Bool} {own : String} {trailing : Bool} :
      IsConstruct (.statement leading own trailing)
  | returned {value : Code} : IsConstruct (.returned value)

theorem Rewrites.isConstruct {drawn : String → Prop} {r : Rule} (h : Rewrites s drawn id r rep) :
    rep.IsConstruct := by
  cases h with
  | terminator | unreturned => exact .statement
  | membership | binary | assignment | compound | declarator | call => exact .expression
  | returned => exact .returned

inductive ReplacedBy (s : Instrumentation) (done : List NodeId) (d : NodeId) : Replacement → Prop
  | construct {r : Rule} {rep : Replacement} : d ∈ done → r ≠ .body →
      r.handles (s.tree.kind d) = true → s.touchesSuppressed d = false → rep.IsConstruct →
      ReplacedBy s done d rep
  | framed {f : NodeId} {number : ScopeId} {directives rest : String} {temporaries : List String} :
      f ∈ done → BodyOf s f number d → s.isInstrumented number = true →
      ReplacedBy s done d (.framedBody directives
        { enter := s.enterCall f (s.scopes.scope number),
          traceVariable := s.traceVariable? number, temporaries } rest (s.hookCall .leaveCall []))
  | host {f : NodeId} {number : ScopeId} {directives rest : String} {temporaries : List String} :
      f ∈ done → BodyOf s f number d → s.isInstrumented number = false → temporaries ≠ [] →
      ReplacedBy s done d (.hostBody directives temporaries rest)

theorem ReplacedBy.mono {more : List NodeId} (h : ReplacedBy s done d rep) (hm : done ⊆ more) :
    ReplacedBy s more d rep := by
  cases h with
  | construct hd hr hh ht hc => exact .construct (hm hd) hr hh ht hc
  | framed hf hb hi => exact .framed (hm hf) hb hi
  | host hf hb hi ht => exact .host (hm hf) hb hi ht

theorem ReplacedBy.visited (h : ReplacedBy s done d rep) :
    ∃ f ∈ done, f = d ∨ ∃ number, BodyOf s f number d := by
  cases h with
  | construct hd => exact ⟨d, hd, .inl rfl⟩
  | framed hf hb => exact ⟨_, hf, .inr ⟨_, hb⟩⟩
  | host hf hb => exact ⟨_, hf, .inr ⟨_, hb⟩⟩

theorem ReplacedBy.own_visit (hw : s.tree.WellFormed) (h : ReplacedBy s done d rep)
    (hkind : s.tree.kind d ≠ .statementBlock) : d ∈ done ∧ s.touchesSuppressed d = false := by
  cases h with
  | construct hd _ _ hrows => exact ⟨hd, hrows⟩
  | framed _ hb => exact absurd (hw.block hb.kind hb.child) hkind
  | host _ hb => exact absurd (hw.block hb.kind hb.child) hkind

theorem ReplacedBy.isReplaceable (hw : s.tree.WellFormed) (h : ReplacedBy s done d rep) :
    (s.tree.kind d).IsReplaceable := by
  cases h with
  | construct _ hr hhandles => exact .inr ⟨_, hr, hhandles⟩
  | framed _ hb => exact .inl (hw.block hb.kind hb.child)
  | host _ hb => exact .inl (hw.block hb.kind hb.child)

structure Passed (s₀ : Instrumentation) (done : List NodeId) (s : Instrumentation) : Prop where
  visited : Visited s₀ s
  replaced : ∀ d rep, (s.tree.node d).replacement = some rep → ReplacedBy s₀ done d rep
  settled : s.tree.Settled

def Instrumentation.agenda (s : Instrumentation) : List NodeId :=
  s.tree.postOrder (isPassthrough s.tree s.scopes)

theorem BodyForm.current {number : ScopeId} {body : NodeId}
    (h : BodyForm s id number body (some ⟨body, rep⟩)) : rep.Current s.tree body := by
  cases h with
  | framed => exact ⟨rfl, rfl, spliced_enterCall s id _, rfl⟩
  | host => exact ⟨rfl, rfl⟩

namespace Passed

theorem bare_above (h : Passed s₀ done s) (hnot : ∀ f ∈ done, ¬ s₀.tree.Below f id)
    (hd : s.tree.Below d id) : (s.tree.node d).replacement = none := by
  have hbelow := h.visited.fixed.shape.symm.below hd
  refine Option.eq_none_iff_forall_ne_some.2 fun rep hrep => ?_
  obtain ⟨f, hf, rfl | ⟨number, hb⟩⟩ := (h.replaced d rep hrep).visited
  · exact hnot f hf hbelow
  · exact hnot f hf ((SyntaxTree.Below.of_mem (SyntaxTree.child?_mem hb.child)).trans hbelow)

theorem bare_of_kind (hw : s₀.tree.WellFormed) (h : Passed s₀ done s)
    (hkind : ¬ (s₀.tree.kind d).IsReplaceable) : (s.tree.node d).replacement = none :=
  Option.eq_none_iff_forall_ne_some.2 fun rep hrep =>
    hkind ((h.replaced d rep hrep).isReplaceable hw)

theorem same (h : Passed s₀ done s) (hv : Visited s₀ s') (ht : s'.tree = s.tree) :
    Passed s₀ (done ++ [id]) s' where
  visited := hv
  replaced d rep hrep := (h.replaced d rep (ht ▸ hrep)).mono (List.subset_append_left _ _)
  settled := ht ▸ h.settled

theorem replace (hw : s₀.tree.WellFormed) (hfresh : s₀.tree.IsFresh) (h : Passed s₀ done s)
    (hv : Visited s₀ s') {c : NodeId} (hc : c < s.tree.size) (hr : s.tree.Replaces c rep s'.tree)
    (hby : ReplacedBy s₀ (done ++ [id]) c rep) (hcurrent : rep.Current s.tree c)
    (hbelow : ∀ d ∈ rep.takenOver s.tree c, c < d ∧ s.tree.Below c d)
    (habove : ∀ d, s.tree.Below d c → (s.tree.node d).replacement = none) :
    Passed s₀ (done ++ [id]) s' where
  visited := hv
  replaced d rep' hrep' := by
    by_cases hd : d = c
    · subst hd
      rw [hr.at_ hc] at hrep'
      cases hrep'
      exact hby
    · rw [hr.elsewhere d hd] at hrep'
      exact (h.replaced d rep' hrep').mono (List.subset_append_left _ _)
  settled := hr.settled (h.visited.wellFormed hw) (h.visited.takesFromBelow hw hfresh) h.settled hc
    hcurrent hbelow habove

theorem start (hfresh : s₀.tree.IsFresh) : Passed s₀ [] s₀ where
  visited := .start
  replaced d _ hd := absurd hd (hfresh.not_replaced d)
  settled d _ hd := absurd hd (hfresh.not_replaced d)

theorem visit (hw : s₀.tree.WellFormed) (hfresh : s₀.tree.IsFresh) (h : Passed s₀ done s)
    (hnot : ∀ f ∈ done, ¬ s₀.tree.Below f id) (hv : Yields (visit rules id) s () s') :
    Passed s₀ (done ++ [id]) s' := by
  have hfixed := h.visited.fixed
  have hws := h.visited.wellFormed hw
  have hvisited := h.visited.visit hv
  have hself : id ∈ done ++ [id] := List.mem_append_right _ List.mem_cons_self
  cases visit_ok hv (hostsIn_true s id) with
  | idle _ hs => exact h.same hvisited (by rw [hs])
  | bare _ hb => exact h.same hvisited (by rw [hb.state])
  | @rewrite r rep u hr hhandles hsuppressed _ hform hreplaces _ =>
    have hid := lt_size_of_handles hhandles
    have hown := SyntaxTree.text_of_none hws hid hreplaces.before
    rw [hfixed.shape.kind] at hhandles
    rw [hfixed.touchesSuppressed] at hsuppressed
    exact h.replace hw hfresh hvisited hid hreplaces
      (.construct hself hr hhandles hsuppressed hform.isConstruct) (hform.current hown)
      (hform.below hws) fun d hd => h.bare_above hnot hd
  | @body number body rep u hhandles hb hreplaces _ =>
    -- the body lies below the visited node, whose ancestors are not visited yet
    have hmem := SyntaxTree.child?_mem hb.child
    have hof : BodyOf s₀ id number body := by
      obtain ⟨hscope, hkind, hchild, -, -⟩ := hb
      rw [hfixed.scopes] at hscope hkind
      rw [hfixed.shape.child?] at hchild
      rw [hfixed.shape.kind] at hhandles
      exact ⟨by simpa [Kind.IsPlainFunction, Rule.handles] using hhandles, hscope, hkind, hchild⟩
    refine h.replace hw hfresh hvisited (hws.child hmem).2.1 hreplaces ?_ hb.form.current
      (fun d hd => ?_) fun d hd => ?_
    · have hform := hb.form
      cases hform with
      | framed hinstrumented =>
        rw [hfixed.isInstrumented] at hinstrumented
        rw [hfixed.enterCall, hfixed.traceVariable?, hfixed.hookCall, hfixed.scopes]
        exact .framed hself hof hinstrumented
      | host hinstrumented hne =>
        rw [hfixed.isInstrumented] at hinstrumented
        exact .host hself hof hinstrumented hne
    · have hchild := hb.form.takenOver d hd
      exact ⟨(hws.child hchild).1, .of_mem hchild⟩
    · rcases hd.eq_or_mem with rfl | ⟨p, hp, hdp⟩
      · exact hreplaces.before
      · obtain rfl := hws.parent_unique hp hmem
        exact h.bare_above hnot hdp

end Passed

theorem visitAll_induction {Q : List NodeId → Instrumentation → Prop} {nodes : List NodeId}
    (hstart : Q [] s)
    (hstep : ∀ {done id rest u u'}, nodes = done ++ id :: rest → Q done u →
      Yields (visit rules id) u () u' → Q (done ++ [id]) u')
    (h : Yields (visitAll rules nodes) s () s') : Q nodes s' := by
  have key : ∀ {rest done : List NodeId} {u : Instrumentation}, nodes = done ++ rest → Q done u →
      Yields (visitAll rules rest) u () s' → Q nodes s' := by
    intro rest
    induction rest with
    | nil =>
      intro done u hnodes hQ h
      obtain ⟨-, rfl⟩ := Yields.pure_iff.1 h
      rw [hnodes, List.append_nil]
      exact hQ
    | cons id rest ih =>
      intro done u hnodes hQ h
      obtain ⟨_, v, hvisit, hrest⟩ := Yields.bind_iff.1 h
      exact ih (by rw [hnodes, List.append_cons]) (hstep hnodes hQ hvisit) hrest
  exact key rfl hstart h

theorem not_below_of_agenda (hw : s₀.tree.WellFormed) {rest : List NodeId}
    (h : s₀.agenda = done ++ id :: rest) : ∀ f ∈ done, ¬ s₀.tree.Below f id := by
  have hpairwise : s₀.agenda.Pairwise fun a b => ¬ s₀.tree.Below a b :=
    SyntaxTree.postOrder_pairwise hw.linked
  rw [h] at hpairwise
  exact fun f hf => (List.pairwise_append.1 hpairwise).2.2 f hf id List.mem_cons_self

theorem pass_passed (hw : s₀.tree.WellFormed) (hfresh : s₀.tree.IsFresh)
    (h : Yields (pass rules) s₀ () s) : Passed s₀ s₀.agenda s := by
  refine visitAll_induction (Q := Passed s₀) (.start hfresh) ?_ (Yields.get_bind_iff.1 h)
  exact fun hagenda hQ hv => hQ.visit hw hfresh (not_below_of_agenda hw hagenda) hv

end CoercionTrace
