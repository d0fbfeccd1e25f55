import CoercionTrace.Proofs.Instrument.Passthrough

/-!
# Nodes that a pass comes to

Main statements: a pass comes to the nodes outside opaque regions and to no others
(`Started.mem_agenda_iff`), and it frames the body of a plain function there exactly if no suppressed
row touches the function (`Started.framed_iff`).
-/

namespace CoercionTrace

open Instrumentation InstrumentM

structure SyntaxTree.Reached (t : SyntaxTree) (d : NodeId) : Prop where
  below : t.Below SyntaxTree.root d
  clear : ∀ a, t.Below a d → t.isOpaque a = false

theorem SyntaxTree.reached_iff {t : SyntaxTree} {d : NodeId} (hw : t.WellFormed) :
    t.Reached d ↔ d ∈ t.postOrder t.isOpaque := by
  rw [SyntaxTree.mem_postOrder hw.linked]
  constructor
  · exact fun h => ⟨h.below, fun a _ ha => h.clear a ha⟩
  · rintro ⟨hroot, hclear⟩
    refine ⟨hroot, fun a ha => hclear a ?_ ha⟩
    rcases hw.below_or_below hroot ha with hbelow | hbelow
    · exact hbelow
    · obtain rfl : a = SyntaxTree.root := Nat.le_zero.1 (hw.le_of_below hbelow)
      exact .refl

structure Started (s₀ : Instrumentation) : Prop where
  wellFormed : s₀.tree.WellFormed
  fresh : s₀.tree.IsFresh
  fits : s₀.scopes.Fits s₀.tree
  opens : ∀ f, s₀.tree.Below SyntaxTree.root f → (s₀.tree.kind f).isFunctionLike = true →
    ∃ k, s₀.scopes.scopeOf? f = some k
  instrumented : ∀ k < s₀.scopes.scopes.size, s₀.isInstrumented k = true ↔
    (s₀.scopes.scope k).kind = .function ∧ s₀.touchesSuppressed (s₀.scopes.scope k).node = false
  idle : ∀ host, s₀.pending host = []
  silent : s₀.diagnostics = []

theorem started {tree : SyntaxTree} {scopes : ScopeTable} (hw : tree.WellFormed)
    (hfresh : tree.IsFresh) (hscopes : ScopeTable.analyze tree = .ok scopes)
    (suppression : Suppression) (hook file : String) :
    Started (.start tree scopes suppression hook file) := by
  have hinstrumented := fun k hk => isInstrumented_start tree scopes suppression hook file (k := k) hk
  have hsilent := start_diagnostics tree scopes suppression hook file
  obtain ⟨htree, hscopes', hsuppression, htemporaries⟩ :=
    start_same tree scopes suppression hook file
  generalize Instrumentation.start tree scopes suppression hook file = s₀ at *
  subst htree hscopes' hsuppression
  exact ⟨hw, hfresh, ScopeTable.analyze_fits hscopes,
    fun f hf hlike => ScopeTable.analyze_opens hw hscopes hf hlike, hinstrumented,
    fun host => by simp [Instrumentation.pending, htemporaries], hsilent⟩

def Framed (s₀ s : Instrumentation) (f : NodeId) (k : ScopeId) (body : NodeId) : Prop :=
  ∃ temporaries, (s.tree.node body).replacement = some (.framedBody (s.tree.bodyParts body).1
    { enter := s₀.enterCall f (s₀.scopes.scope k), traceVariable := s₀.traceVariable? k, temporaries }
    (s.tree.bodyParts body).2 (s₀.hookCall .leaveCall []))

namespace Started

variable {s₀ s : Instrumentation} {a d f body : NodeId} {k : ScopeId}
  (h : Started s₀)
include h

theorem isPassthrough_eq_isOpaque (ha : s₀.tree.Below SyntaxTree.root a) :
    isPassthrough s₀.tree s₀.scopes a = s₀.tree.isOpaque a := by
  cases hopaque : s₀.tree.isOpaque a with
  | true => exact isPassthrough_of_isOpaque h.fits hopaque
  | false =>
    unfold isPassthrough
    dsimp only
    split
    · next hkind => cases hk : s₀.tree.kind a <;> simp_all [SyntaxTree.isOpaque]
    · split
      · next hlike =>
        obtain ⟨k, hk⟩ := h.opens a ha hlike
        obtain ⟨-, -, -, hscope⟩ := h.fits.scope hk
        rw [hk]
        dsimp only
        rw [hscope, SyntaxTree.scopeKind]
        unfold SyntaxTree.isOpaque at hopaque
        cases hkind : s₀.tree.kind a <;> simp_all [Kind.isFunctionLike]
      · rfl

theorem mem_agenda_iff : d ∈ s₀.agenda ↔ s₀.tree.Reached d := by
  rw [SyntaxTree.reached_iff h.wellFormed, SyntaxTree.mem_postOrder h.wellFormed.linked,
    Instrumentation.agenda, SyntaxTree.mem_postOrder h.wellFormed.linked]
  refine and_congr_right fun _ => forall₃_congr fun a ha _ => ?_
  rw [h.isPassthrough_eq_isOpaque ha]

theorem bodyOf (hf : s₀.tree.Reached f) (hplain : (s₀.tree.kind f).IsPlainFunction)
    (hbody : s₀.tree.child? f "body" = some body) : ∃ k, BodyOf s₀ f k body := by
  have hlike : (s₀.tree.kind f).isFunctionLike = true := by
    rcases hplain with hk | hk <;> rw [hk] <;> rfl
  obtain ⟨k, hk⟩ := h.opens f hf.below hlike
  refine ⟨k, hplain, hk, ?_, hbody⟩
  refine (plain_of_clear h.fits hk ?_).2
  rw [h.isPassthrough_eq_isOpaque hf.below]
  exact hf.clear f .refl

theorem isInstrumented_iff (hb : BodyOf s₀ f k body) :
    s₀.isInstrumented k = true ↔ s₀.touchesSuppressed f = false := by
  obtain ⟨-, hlt, hnode, -⟩ := h.fits.scope hb.scope
  rw [h.instrumented k hlt, hnode]
  exact and_iff_right hb.function

theorem framed (hpass : Yields (pass Rule.all) s₀ () s) (hf : f ∈ s₀.agenda) (hb : BodyOf s₀ f k body)
    (hrows : s₀.touchesSuppressed f = false) : Framed s₀ s f k body := by
  obtain ⟨drawn, hkept⟩ := pass_kept h.wellFormed h.fresh h.fits h.idle hpass
  obtain ⟨directives, rest, hrep⟩ :=
    (hkept.body f hf k body hb).framed ((h.isInstrumented_iff hb).2 hrows)
  obtain ⟨hdirectives, hrest, -⟩ := (pass_passed h.wellFormed h.fresh hpass).settled body _ hrep
  exact ⟨drawnFor drawn (some k), by rw [hrep, hdirectives, hrest]⟩

theorem framed_iff (hpass : Yields (pass Rule.all) s₀ () s) (hf : f ∈ s₀.agenda)
    (hb : BodyOf s₀ f k body) :
    (∃ directives header rest leave, (s.tree.node body).replacement =
      some (.framedBody directives header rest leave)) ↔ s₀.touchesSuppressed f = false := by
  constructor
  · rintro ⟨directives, header, rest, leave, hrep⟩
    cases (pass_passed h.wellFormed h.fresh hpass).replaced body _ hrep with
    | construct _ _ _ _ hc => cases hc
    | @framed g k' _ _ temporaries _ hb' hi =>
      obtain rfl := h.wellFormed.parent_unique (SyntaxTree.child?_mem hb'.child)
        (SyntaxTree.child?_mem hb.child)
      exact (h.isInstrumented_iff hb').1 hi
  · intro hrows
    obtain ⟨temporaries, hrep⟩ := h.framed hpass hf hb hrows
    exact ⟨_, _, _, _, hrep⟩

end Started

end CoercionTrace
