import CoercionTrace.Proofs.Instrument.Finish
import CoercionTrace.Proofs.Instrument.Ledger
import CoercionTrace.Proofs.Instrument.Start

/-!
# Closed names

Main statement: in the output every generated variable is declared once, and around all its uses
(`pass_closes_names`).
-/

namespace CoercionTrace

open Instrumentation InstrumentM

inductive Owner (s₀ : Instrumentation) (d : NodeId) : Option ScopeId → Prop
  | program : d = SyntaxTree.root → Owner s₀ d none
  | function {f : NodeId} {k : ScopeId} : BodyOf s₀ f k d → Owner s₀ d (some k)

variable {s₀ s : Instrumentation} {drawn : List (Option ScopeId × String)} {t : SyntaxTree}
  {host host' : Option ScopeId} {d d' : NodeId} {linkage name : String} {done : List NodeId}
  {rep : Replacement}

theorem Owner.unique (hf : s₀.scopes.Fits s₀.tree) (h : Owner s₀ d host) (h' : Owner s₀ d' host) :
    d = d' := by
  cases h with
  | program e =>
    cases h' with
    | program e' => exact e.trans e'.symm
  | function hb =>
    cases h' with
    | function hb' =>
      obtain rfl := hf.scope_injective hb.scope hb'.scope
      exact Option.some.inj (hb.child.symm.trans hb'.child)

theorem Kept.drawn_nodup (h : Kept s₀ done drawn s) : (drawn.map Prod.snd).Nodup :=
  h.numbered ▸ s₀.names.temporaries_nodup _

theorem Kept.host_unique (h : Kept s₀ done drawn s) (hm : name ∈ drawnFor drawn host)
    (hm' : name ∈ drawnFor drawn host') : host = host' := by
  have hinjective := List.inj_on_of_nodup_map h.drawn_nodup (mem_drawnFor.1 hm) (mem_drawnFor.1 hm') rfl
  exact congrArg Prod.fst hinjective

theorem Kept.temporary (h : Kept s₀ done drawn s) (hm : name ∈ drawnFor drawn host) :
    ∃ i, name = s₀.names.nameOf .temporary i := by
  have hname : name ∈ drawn.map Prod.snd := List.mem_map_of_mem (mem_drawnFor.1 hm)
  rw [h.numbered] at hname
  obtain ⟨i, -, rfl⟩ := List.mem_map.1 hname
  exact ⟨i, rfl⟩

theorem not_temporary_of_traceVariable (hv : TraceVariables s₀) (h : Kept s₀ done drawn s)
    (hname : name ∈ (host.bind s₀.traceVariable?).toList) : name ∉ drawnFor drawn host' := by
  intro hm
  obtain ⟨i, rfl⟩ := h.temporary hm
  obtain ⟨k, -, hk⟩ := Option.bind_eq_some_iff.1 (Option.mem_toList.1 hname)
  obtain ⟨-, j, -, e⟩ := hv.made k _ hk
  cases (NameSupply.nameOf_injective e).1

theorem namesFor_nodup (hv : TraceVariables s₀) (h : Kept s₀ done drawn s) :
    (namesFor s₀ drawn host).Nodup := by
  refine List.nodup_append.2 ⟨?_, ?_, ?_⟩
  · cases host.bind s₀.traceVariable? <;> simp
  · exact h.drawn_nodup.sublist (List.filter_sublist.map _)
  · rintro name hname _ hm rfl
    exact not_temporary_of_traceVariable hv h hname hm

theorem namesFor_disjoint (hv : TraceVariables s₀) (h : Kept s₀ done drawn s)
    (hm : name ∈ namesFor s₀ drawn host) (hm' : name ∈ namesFor s₀ drawn host') : host = host' := by
  rcases List.mem_append.1 hm with hm | hm <;> rcases List.mem_append.1 hm' with hm' | hm'
  · obtain ⟨k, rfl, hk⟩ := Option.bind_eq_some_iff.1 (Option.mem_toList.1 hm)
    obtain ⟨k', rfl, hk'⟩ := Option.bind_eq_some_iff.1 (Option.mem_toList.1 hm')
    rw [hv.distinct k k' name hk hk']
  · exact absurd hm' (not_temporary_of_traceVariable hv h hm)
  · exact absurd hm (not_temporary_of_traceVariable hv h hm')
  · exact h.host_unique hm hm'

inductive InHeader (s₀ : Instrumentation) (use : NameUse) (value : Option Code) :
    List NodeId → Prop
  | program : use = .temporary → InHeader s₀ use value []
  | function {f : NodeId} {k : ScopeId} {body : NodeId} {outer : List NodeId} : BodyOf s₀ f k body →
      (use = .traceId → s₀.isInstrumented k = true ∧
        value = some (s₀.enterCall f (s₀.scopes.scope k))) →
      InHeader s₀ use value (body :: outer)

/-- Whatever a pass drew for a function is declared in the body of the function; what is left is for
the program to declare. -/
structure Consumed (s₀ s : Instrumentation) : Prop where
  none_left : ∀ k, s.pending (some k) = []
  declared : ∀ i, s₀.names.next ≤ i → i < s.names.next →
    s₀.names.nameOf .temporary i ∈ s.pending none ∨ ∃ f k body, BodyOf s₀ f k body ∧
      .declared .temporary (s₀.names.nameOf .temporary i) none ∈ s.tree.parts body

/-- Every generated variable that a tree uses is declared once, in a header around the use. -/
structure NamesClosed (s₀ : Instrumentation) (t : SyntaxTree) : Prop where
  text : printPlaced (t.walk [] SyntaxTree.root) = t.text SyntaxTree.root
  once : (namesOf ((t.walk [] SyntaxTree.root).map Placed.part)).Nodup
  declared : ∀ x ∈ t.walk [] SyntaxTree.root, ∀ use name, x.part = .used use name →
    ∃ y ∈ t.walk [] SyntaxTree.root, ∃ value, y.part = .declared use name value ∧
      y.bodies <:+ x.bodies ∧ InHeader s₀ use value y.bodies

theorem Finished.declares_pending (hw : s.tree.WellFormed) (h : Finished s linkage t)
    (hname : name ∈ s.pending none) :
    .declared .temporary name none ∈ t.parts SyntaxTree.root ∧ t.isBody SyntaxTree.root = false ∧
      ∀ rep, (t.node SyntaxTree.root).replacement = some rep → ¬ rep.IsConstruct := by
  cases h with
  | bare hempty =>
    rw [show s.pending none = [] from temporaries_of_parts hempty] at hname
    cases hname
  | headed _ hr =>
    have hnode := hr.at_ hw.root_lt
    have hmem : .declared .temporary name none ∈ uninitialised (s.pending none) :=
      List.mem_map_of_mem hname
    have hlist : declaration (uninitialised (s.pending none)) ∈
        (s.programHeader linkage).partLists := by
      have hne : (s.programHeader linkage).temporaries.isEmpty = false :=
        List.isEmpty_eq_false_iff.2 (List.ne_nil_of_mem hname)
      rw [ProgramHeader.partLists, hne]
      exact List.mem_append_right _ List.mem_cons_self
    refine ⟨?_, by simp [SyntaxTree.isBody, hnode], fun rep hrep hc => ?_⟩
    · simp [SyntaxTree.parts, hnode, Replacement.parts, mem_separate hlist (mem_declaration hmem)]
    · cases hnode.symm.trans hrep
      cases hc

theorem Finished.declares {f body : NodeId} {k : ScopeId} {temporaries : List String}
    (h : Finished s linkage t) (hd : Declares s₀ s.tree f k body temporaries) :
    Declares s₀ t f k body temporaries := by
  cases h with
  | bare => exact hd
  | headed _ hr => exact hd.replaces hr

theorem Declares.temporary {f body : NodeId} {k : ScopeId} {temporaries : List String}
    (h : Declares s₀ t f k body temporaries) (hname : name ∈ temporaries) :
    .declared .temporary name none ∈ t.parts body ∧ t.isBody body = true := by
  have hmem : .declared .temporary name none ∈ uninitialised temporaries :=
    List.mem_map_of_mem hname
  have hne : temporaries ≠ [] := List.ne_nil_of_mem hname
  cases hi : s₀.isInstrumented k with
  | true =>
    obtain ⟨directives, rest, hbody⟩ := h.framed hi
    have hheader : .declared .temporary name none ∈ FrameHeader.parts
        { enter := s₀.enterCall f (s₀.scopes.scope k), traceVariable := s₀.traceVariable? k,
          temporaries } := by
      unfold FrameHeader.parts
      cases s₀.traceVariable? k with
      | some v => exact List.mem_cons_of_mem _ (mem_declaration (List.mem_cons_of_mem _ hmem))
      | none =>
        simp only [List.isEmpty_iff, hne, if_false]
        exact List.mem_append_right _ (List.mem_cons_of_mem _ (mem_declaration hmem))
    exact ⟨by simp [SyntaxTree.parts, hbody, Replacement.parts, hheader],
      by simp [SyntaxTree.isBody, hbody]⟩
  | false =>
    obtain ⟨directives, rest, hbody⟩ := h.host hi hne
    exact ⟨by simp [SyntaxTree.parts, hbody, Replacement.parts, mem_declaration hmem],
      by simp [SyntaxTree.isBody, hbody]⟩

theorem Declares.traceId {f body : NodeId} {k : ScopeId} {temporaries : List String}
    (h : Declares s₀ t f k body temporaries) (hi : s₀.isInstrumented k = true)
    (hname : s₀.traceVariable? k = some name) :
    .declared .traceId name (some (s₀.enterCall f (s₀.scopes.scope k))) ∈ t.parts body ∧
      t.isBody body = true := by
  obtain ⟨directives, rest, hbody⟩ := h.framed hi
  have hheader : .declared .traceId name (some (s₀.enterCall f (s₀.scopes.scope k))) ∈
      FrameHeader.parts { enter := s₀.enterCall f (s₀.scopes.scope k),
                          traceVariable := s₀.traceVariable? k, temporaries } := by
    simp only [FrameHeader.parts, hname]
    exact List.mem_cons_of_mem _ (mem_declaration List.mem_cons_self)
  exact ⟨by simp [SyntaxTree.parts, hbody, Replacement.parts, hheader],
    by simp [SyntaxTree.isBody, hbody]⟩

section

variable (hw : s₀.tree.WellFormed) (hf : s₀.scopes.Fits s₀.tree) (hp : Passed s₀ s₀.agenda s)
  (hk : Kept s₀ s₀.agenda drawn s) (hv : TraceVariables s₀) (ht : Finished s linkage t)

include hk

theorem opened_none : s.pending none = drawnFor drawn none :=
  hk.opened none fun _ _ _ _ => by simp

theorem consumed : Consumed s₀ s where
  none_left k := by
    by_cases hclosed : ∃ f ∈ s₀.agenda, s₀.scopes.scopeOf? f = some k
    · obtain ⟨f, hfa, hfk⟩ := hclosed
      exact hk.closed f hfa k hfk
    · rw [hk.opened (some k)]
      · refine List.eq_nil_iff_forall_not_mem.2 fun name hname => hclosed ?_
        obtain ⟨f, hfa, body, hb⟩ := hk.hosts k name (mem_drawnFor.1 hname)
        exact ⟨f, hfa, hb.scope⟩
      · rintro f hfa k' hfk ⟨⟩
        exact hclosed ⟨f, hfa, hfk⟩
  declared i hle hlt := by
    rw [hk.names] at hlt
    have hname : s₀.names.nameOf .temporary i ∈ drawn.map Prod.snd := by
      rw [hk.numbered]
      exact List.mem_map_of_mem (List.mem_range'_1.2 ⟨hle, hlt⟩)
    obtain ⟨⟨host, name⟩, hm, rfl⟩ := List.mem_map.1 hname
    cases host with
    | none =>
      rw [opened_none hk]
      exact .inl (mem_drawnFor.2 hm)
    | some k =>
      obtain ⟨f, hfa, body, hb⟩ := hk.hosts k _ hm
      exact .inr ⟨f, k, body, hb, ((hk.body f hfa k body hb).temporary (mem_drawnFor.2 hm)).1⟩

include hw hp ht

theorem owner_of_names (d : NodeId) : namesOf (t.parts d) = [] ∨
    ∃ host, Owner s₀ d host ∧ (namesOf (t.parts d)).Sublist (namesFor s₀ drawn host) := by
  cases hr : (t.node d).replacement with
  | none =>
    rw [SyntaxTree.parts, hr]
    exact .inl (namesOf_spliceParts t _ _ _)
  | some rep =>
    rw [SyntaxTree.parts, hr]
    dsimp only
    rw [rep.namesOf_parts]
    rcases ht.replaced (hp.visited.wellFormed hw) hr with hs | ⟨hroot, before, gap, rest, rfl⟩
    · by_cases hc : rep.IsConstruct
      · cases hc <;> exact .inl rfl
      · obtain ⟨f, -, k, hb, hnames⟩ := hk.named d rep hs hc
        exact .inr ⟨some k, .function hb, hnames⟩
    · refine .inr ⟨none, .program hroot, ?_⟩
      change (s.pending none).Sublist _
      rw [opened_none hk]
      exact List.sublist_append_right _ _

include hv

theorem names_nodup (d : NodeId) : (namesOf (t.parts d)).Nodup := by
  rcases owner_of_names hw hp hk ht d with e | ⟨host, -, hsublist⟩
  · rw [e]
    exact List.nodup_nil
  · exact (namesFor_nodup hv hk).sublist hsublist

include hf

theorem names_disjoint (hne : d ≠ d') : (namesOf (t.parts d)).Disjoint (namesOf (t.parts d')) := by
  intro name hm hm'
  rcases owner_of_names hw hp hk ht d with e | ⟨host, howner, hsublist⟩
  · rw [e] at hm
    cases hm
  rcases owner_of_names hw hp hk ht d' with e | ⟨host', howner', hsublist'⟩
  · rw [e] at hm'
    cases hm'
  obtain rfl := namesFor_disjoint hv hk (hsublist.subset hm) (hsublist'.subset hm')
  exact hne (howner.unique hf howner')

omit hk hv hf in
theorem not_declared_of_passing {use : NameUse} {value : Option Code}
    (hkind : t.kind d ∈ SyntaxTree.passing) (hroot : d ≠ SyntaxTree.root) :
    .declared use name value ∉ t.parts d := by
  have hkind' : s₀.tree.kind d ∈ SyntaxTree.passing := by
    rwa [ht.shape.kind, hp.visited.fixed.shape.kind] at hkind
  have hbare : (t.node d).replacement = none := by
    rw [ht.elsewhere hroot]
    refine Option.eq_none_iff_forall_ne_some.2 fun rep hs => ?_
    have hblock : ∀ {f k}, ¬ BodyOf s₀ f k d := by
      intro f k hb
      rw [hw.block hb.kind hb.child] at hkind'
      revert hkind'
      decide
    cases hp.replaced d rep hs with
    | @construct r _ _ hr hhandles =>
      simp only [SyntaxTree.passing, List.mem_cons, List.not_mem_nil, or_false] at hkind'
      rcases hkind' with e | e | e | e <;> rw [e] at hhandles <;> cases r <;> cases hhandles
    | framed _ hb => exact hblock hb
    | host _ hb => exact hblock hb
  intro hm
  rw [SyntaxTree.parts, hbare] at hm
  exact all_ownParts (Q := fun p => ∀ use name value, p ≠ .declared use name value)
    (fun _ _ _ _ => by simp) (fun _ _ _ _ => by simp) _ hm _ _ _ rfl

omit hf hv in
theorem entitled_of_used {use : NameUse} (hu : .used use name ∈ t.parts d) :
    Entitled s₀ drawn d (.used use name) ∧ d ∈ s₀.agenda ∧
      (∃ r : Rule, r ≠ .body ∧ r.handles (s₀.tree.kind d) = true) ∧
      ∃ rep, (t.node d).replacement = some rep ∧ rep.IsConstruct := by
  have hbody : ∀ {rep : Replacement}, rep.CallsAll (fun p => ∀ use name, p ≠ .used use name) →
      .used use name ∉ rep.parts t d := by
    intro rep hrep hm
    exact all_body (fun _ _ _ => by simp) (fun _ _ _ => by simp) (fun _ _ _ _ _ => by simp) hrep
      _ hm _ _ rfl
  cases hr : (t.node d).replacement with
  | none =>
    rw [SyntaxTree.parts, hr] at hu
    exact absurd rfl (all_ownParts (Q := fun p => ∀ use name, p ≠ .used use name)
      (fun _ _ _ => by simp) (fun _ _ _ => by simp) _ hu use name)
  | some rep =>
    rw [SyntaxTree.parts, hr] at hu
    have hfixed := hp.visited.fixed
    rcases ht.replaced (hp.visited.wellFormed hw) hr with hs | ⟨-, before, gap, rest, rfl⟩
    · cases hp.replaced d rep hs with
      | construct hd hne hhandles _ hc =>
        exact ⟨hk.uses d rep hs hc t _ hu, hd, ⟨_, hne, hhandles⟩, rep, rfl, hc⟩
      | framed =>
        refine absurd hu (hbody ⟨?_, ?_⟩)
        · exact all_enterCall (Q := fun p => ∀ use name, p ≠ .used use name) (fun _ _ _ => by simp) _ _ _
        · exact Code.all_hook (Q := fun p => ∀ use name, p ≠ .used use name) (fun _ _ _ => by simp)
            (by simp)
      | host => exact absurd hu (hbody trivial)
    · exact absurd hu (hbody trivial)

theorem declared_of_used {e : NodeId} {use : NameUse} (he : t.Below SyntaxTree.root e)
    (hu : .used use name ∈ t.parts e) : ∃ b value, t.Below SyntaxTree.root b ∧ t.Below b e ∧ b ≠ e ∧
      .declared use name value ∈ t.parts b ∧
      ((b = SyntaxTree.root ∧ t.isBody b = false ∧ use = .temporary) ∨
        t.isBody b = true ∧ ∃ f k, BodyOf s₀ f k b ∧ (use = .traceId → s₀.isInstrumented k = true ∧
          value = some (s₀.enterCall f (s₀.scopes.scope k)))) := by
  obtain ⟨hentitled, hagenda, ⟨r, -, hhandles⟩, rep, hrep, hc⟩ := entitled_of_used hw hp hk ht hu
  have hshape := hp.visited.fixed.shape.trans ht.shape
  -- the function around a use has its body replaced, since the walk comes to the body later
  have haround : ∀ {f k}, f ∈ s₀.tree.ancestors e → s₀.scopes.scopeOf? f = some k →
      ∃ body, BodyOf s₀ f k body ∧ t.Below SyntaxTree.root body ∧ t.Below body e ∧ body ≠ e ∧
        Declares s₀ t f k body (drawnFor drawn (some k)) := by
    intro f k hfe hfk
    obtain ⟨body, hb, hbelow⟩ := body_of_agenda hw hf hagenda (not_leaf_of_handles hhandles) hfk hfe
    have hfa := agenda_of_below hw hagenda (SyntaxTree.below_of_mem_ancestors hw.linked hfe).1
    have hroot := ((SyntaxTree.mem_postOrder hw.linked).1 (agenda_of_below hw hagenda hbelow)).1
    refine ⟨body, hb, hshape.below hroot, hshape.below hbelow, ?_,
      ht.declares (hk.body f hfa k body hb)⟩
    rintro rfl
    rw [hw.block hb.kind hb.child] at hhandles
    cases r <;> cases hhandles
  cases hentitled with
  | temporary hname =>
    cases hhost : s₀.host? e with
    | none =>
      rw [hhost, ← opened_none hk] at hname
      obtain ⟨hmem, hbody, hroot⟩ := ht.declares_pending (hp.visited.wellFormed hw) hname
      refine ⟨SyntaxTree.root, none, .refl, he, ?_, hmem, .inl ⟨rfl, hbody, rfl⟩⟩
      rintro rfl
      exact hroot rep hrep hc
    | some k =>
      rw [hhost] at hname
      obtain ⟨f, hfe, hfk⟩ := ancestor_of_host hhost
      obtain ⟨body, hb, hroot, hbelow, hne, hdeclares⟩ := haround hfe hfk
      obtain ⟨hmem, hbody⟩ := hdeclares.temporary hname
      exact ⟨body, none, hroot, hbelow, hne, hmem, .inr ⟨hbody, f, k, hb, fun h => by cases h⟩⟩
  | @traceId f k _ hfe hfk hvk =>
    obtain ⟨body, hb, hroot, hbelow, hne, hdeclares⟩ := haround hfe hfk
    have hi := (hv.made k _ hvk).1
    obtain ⟨hmem, hbody⟩ := hdeclares.traceId hi hvk
    exact ⟨body, _, hroot, hbelow, hne, hmem, .inr ⟨hbody, f, k, hb, fun _ => ⟨hi, rfl⟩⟩⟩

theorem names_closed (hfresh : s₀.tree.IsFresh) : NamesClosed s₀ t := by
  have hws := hp.visited.wellFormed hw
  have hwt := ht.shape.wellFormed hws
  have hbelow := ht.takesFromBelow hws (hp.visited.takesFromBelow hw hfresh)
  have honce := ht.takesOnce hws (hp.visited.takesOnce hw hfresh)
  have hsettled := ht.settled hws (hp.visited.takesFromBelow hw hfresh) hp.settled
  refine ⟨SyntaxTree.print_walk hwt hbelow hsettled hwt.root_lt, ?_, fun x hx use name hused => ?_⟩
  · exact SyntaxTree.walk_nodup hwt hbelow hwt.root_lt (names_nodup hw hp hk hv ht)
      (names_disjoint hw hf hp hk hv ht) fun d _ => (honce d).separate
  · have hbetween : ∀ {id b c use name value}, c ∈ t.takenOver id → t.Below id b → t.Below b c →
        b ≠ id → b ≠ c → .declared use name value ∉ t.parts b := by
      intro id b c use name value hc hb hbc hid hne
      refine not_declared_of_passing hw hp ht (((honce id).path c hc).passing hwt hb hbc hid hne) ?_
      exact Nat.ne_of_gt (Nat.lt_of_le_of_lt (Nat.zero_le id) (hwt.lt_of_below hb (Ne.symm hid)))
    obtain ⟨e, he, hu, hencloses⟩ := SyntaxTree.walk_enclosed hwt hbelow hbetween hx hused
    obtain ⟨b, value, hroot, hbe, hne, hdeclared, hheader⟩ := declared_of_used hw hf hp hk hv ht he hu
    obtain ⟨y, hy, hpart, hsuffix, outer, houter, hnil⟩ := hencloses b value hroot hbe hne hdeclared
    refine ⟨y, hy, value, hpart, hsuffix, ?_⟩
    rcases hheader with ⟨hb, hbody, huse⟩ | ⟨hbody, f, k, hof, huse⟩
    · rw [SyntaxTree.within, hbody, hnil hb] at houter
      exact houter ▸ .program huse
    · rw [SyntaxTree.within, hbody] at houter
      exact houter ▸ .function hof huse

end

theorem pass_closes_names {tree : SyntaxTree} {scopes : ScopeTable} {suppression : Suppression}
    {hook file : String} (hw : tree.WellFormed) (hfresh : tree.IsFresh)
    (hscopes : ScopeTable.analyze tree = .ok scopes)
    (h : Yields (pass Rule.all) (.start tree scopes suppression hook file) () s) :
    Consumed (.start tree scopes suppression hook file) s ∧
      ∀ linkage s', Yields (finish linkage) s () s' →
        NamesClosed (.start tree scopes suppression hook file) s'.tree ∧
        ∀ name ∈ s.pending none, ∃ y ∈ s'.tree.walk [] SyntaxTree.root,
          y.part = .declared .temporary name none ∧ y.bodies = [] := by
  have hv := start_traceVariables tree scopes suppression hook file
  obtain ⟨htree, hscopes', -, htemporaries⟩ := start_same tree scopes suppression hook file
  generalize Instrumentation.start tree scopes suppression hook file = s₀ at *
  have hw : s₀.tree.WellFormed := htree ▸ hw
  have hfresh : s₀.tree.IsFresh := htree ▸ hfresh
  have hf : s₀.scopes.Fits s₀.tree := by
    rw [htree, hscopes']
    exact ScopeTable.analyze_fits hscopes
  have hempty : ∀ host, s₀.pending host = [] := by
    intro host
    rw [pending, htemporaries]
    rfl
  have hp := pass_passed hw hfresh h
  obtain ⟨drawn, hk⟩ := pass_kept hw hfresh hf hempty h
  refine ⟨consumed hk, fun linkage s' hfinish => ?_⟩
  have ht := (finish_ok hfinish).1
  refine ⟨names_closed hw hf hp hk hv ht hfresh, fun name hname => ?_⟩
  have hws := hp.visited.wellFormed hw
  obtain ⟨hmem, hbody, -⟩ := ht.declares_pending hws hname
  refine ⟨⟨[], .declared .temporary name none⟩, ?_, rfl, rfl⟩
  obtain ⟨depth, hdepth⟩ := Nat.exists_eq_succ_of_ne_zero
    (Nat.ne_zero_of_lt (ht.shape.wellFormed hws).root_lt)
  rw [SyntaxTree.walk, hdepth]
  refine SyntaxTree.mem_walkWithin_succ.2 (.inl ⟨hmem, rfl, ?_⟩)
  rw [SyntaxTree.within, hbody]
  rfl

def closedOver : SyntaxTree :=
  let product (start : Nat) (left right : String) : Concrete :=
    .named "binary_expression" start (start + 5) none [
      .named left start (start + 1) (some "left") [],
      .mark "*" (start + 2) (start + 3) (some "operator"),
      .named right (start + 4) (start + 5) (some "right") []]
  .ofConcrete
    "function f(p) \x7b return function () \x7b return p * 2; \x7d; \x7d\n3 * 2;".toList
    (.named "program" 0 62 none [
      .named "function_declaration" 0 55 none [
        .named "identifier" 9 10 (some "name") [],
        .named "formal_parameters" 10 13 (some "parameters") [.named "identifier" 11 12 none []],
        .named "statement_block" 14 55 (some "body") [
          .named "return_statement" 16 53 none [
            .named "function_expression" 23 52 none [
              .named "formal_parameters" 32 34 (some "parameters") [],
              .named "statement_block" 35 52 (some "body") [
                .named "return_statement" 37 50 none [product 44 "identifier" "number"]]]]]],
      .named "expression_statement" 56 62 none [product 56 "number" "number"]])

theorem pass_closes_names_closedOver :
    closedOver.WellFormed ∧ closedOver.IsFresh ∧ ∃ scopes s s',
      ScopeTable.analyze closedOver = .ok scopes ∧
      Yields (pass Rule.all) (.start closedOver scopes {} "__rt" "t.js") () s ∧
      Yields (finish "") s () s' ∧ Consumed (.start closedOver scopes {} "__rt" "t.js") s ∧
      NamesClosed (.start closedOver scopes {} "__rt" "t.js") s'.tree := by
  have hw : closedOver.WellFormed := by decide +kernel
  have hfresh : closedOver.IsFresh := SyntaxTree.isFresh_ofConcrete _ _
  let scopes := (ScopeTable.analyze closedOver).toOption.getD {}
  have hscopes : ScopeTable.analyze closedOver = .ok scopes := by
    have hok : (ScopeTable.analyze closedOver).toBool = true := by decide +kernel
    simp only [scopes]
    cases h : ScopeTable.analyze closedOver with
    | ok => rfl
    | error =>
      rw [h] at hok
      cases hok
  have hrun : Yields (do pass Rule.all; finish "") (.start closedOver scopes {} "__rt" "t.js") () _ :=
    .of_toBool (by decide +kernel)
  obtain ⟨_, s, hpass, hfinish⟩ := Yields.bind_iff.1 hrun
  obtain ⟨hconsumed, hclosed⟩ := pass_closes_names hw hfresh hscopes hpass
  exact ⟨hw, hfresh, scopes, s, _, hscopes, hpass, hfinish, hconsumed, (hclosed _ _ hfinish).1⟩

end CoercionTrace
