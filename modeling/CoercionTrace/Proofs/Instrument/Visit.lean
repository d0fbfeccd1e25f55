import CoercionTrace.Proofs.Instrument.Declined
import CoercionTrace.Proofs.Syntax.Update

/-!
# What a visit does

A visit leaves everything alone but the diagnostics, or draws temporaries and replaces the node, or
takes over the temporaries of a function and replaces its body. Main statement: `visit_ok`.
-/

namespace CoercionTrace

open Instrumentation

inductive BodyForm (s : Instrumentation) (id : NodeId) (number : ScopeId) (body : NodeId) :
    Option Change → Prop
  | framed : s.isInstrumented number = true → BodyForm s id number body
      (some ⟨body, .framedBody (s.tree.bodyParts body).1
        { enter := s.enterCall id (s.scopes.scope number), traceVariable := s.traceVariable? number,
          temporaries := s.pending (some number) } (s.tree.bodyParts body).2
        (s.hookCall .leaveCall [])⟩)
  | host : s.isInstrumented number = false → s.pending (some number) ≠ [] →
      BodyForm s id number body (some ⟨body,
        .hostBody (s.tree.bodyParts body).1 (s.pending (some number)) (s.tree.bodyParts body).2⟩)
  | bare : s.isInstrumented number = false → s.pending (some number) = [] →
      BodyForm s id number body none

structure BodyChange (s : Instrumentation) (id : NodeId) (number : ScopeId) (body : NodeId)
    (result : Option Change) (s' : Instrumentation) : Prop where
  scope : s.scopes.scopeOf? id = some number
  kind : (s.scopes.scope number).kind = .function
  child : s.tree.child? id "body" = some body
  form : BodyForm s id number body result
  state : s' = { s with temporaries := s.temporaries.erase (some number) }
  cut : result ≠ none → isBoundary s.tree.source (s.tree.bodyStop body) = true

inductive VisitForm (P : Option ScopeId → Prop) (rules : List Rule) (s : Instrumentation)
    (id : NodeId) (s' : Instrumentation) : Prop
  | idle : (Rule.body ∈ rules → Rule.body.handles (s.tree.kind id) = true →
        ∃ number, s.scopes.scopeOf? id = some number ∧ (s.scopes.scope number).kind ≠ .function) →
      s' = { s with diagnostics := s'.diagnostics } → VisitForm P rules s id s'
  | rewrite {r : Rule} {rep : Replacement} {u : Instrumentation} : r ≠ .body →
      r.handles (s.tree.kind id) = true → s.touchesSuppressed id = false → Draws P s u →
      Rewrites s (Drawn P u) id r rep → s.tree.Replaces id rep s'.tree →
      s' = { u with tree := s'.tree } → VisitForm P rules s id s'
  | bare {number : ScopeId} {body : NodeId} : Rule.body.handles (s.tree.kind id) = true →
      BodyChange s id number body none s' → VisitForm P rules s id s'
  | body {number : ScopeId} {body : NodeId} {rep : Replacement} {u : Instrumentation} :
      Rule.body.handles (s.tree.kind id) = true →
      BodyChange s id number body (some ⟨body, rep⟩) u → s.tree.Replaces body rep s'.tree →
      s' = { u with tree := s'.tree } → VisitForm P rules s id s'

namespace InstrumentM

variable {P : Option ScopeId → Prop} {s s' : Instrumentation} {id : NodeId}

theorem takeTemporaries_iff {host : Option ScopeId} {names : List String} :
    Yields (takeTemporaries host) s names s' ↔
      names = s.pending host ∧ s' = { s with temporaries := s.temporaries.erase host } := by
  refine Yields.get_bind_iff.trans (Yields.bind_iff.trans ?_)
  simp only [Yields.set_iff, Yields.pure_iff]
  constructor
  · rintro ⟨_, _, rfl, h⟩
    exact h
  · exact fun h => ⟨⟨⟩, _, rfl, h⟩

theorem takeTemporaries_not_fails {host : Option ScopeId} {halt : Halt} :
    ¬ Fails (takeTemporaries host) s halt s' :=
  (takeTemporaries_iff.2 ⟨rfl, rfl⟩).not_fails

theorem cutBody_ok {body : NodeId} {parts : String × String} (h : Yields (cutBody body) s parts s') :
    isBoundary s.tree.source (s.tree.bodyStop body) = true ∧ parts = s.tree.bodyParts body ∧ s' = s := by
  replace h := Yields.get_bind_iff.1 h
  dsimp only at h
  split at h
  · next hcut =>
    obtain ⟨rfl, rfl⟩ := Yields.pure_iff.1 h
    exact ⟨hcut, rfl, rfl⟩
  · exact (Yields.not_throw h).elim

theorem bodyChange_ok {result : Option Change} (h : Yields (bodyChange id) s result s') :
    (∃ number, s.scopes.scopeOf? id = some number ∧
      (s.scopes.scope number).kind ≠ .function ∧ result = none ∧ s' = s) ∨
    ∃ number body, BodyChange s id number body result s' := by
  replace h := Yields.get_bind_iff.1 h
  dsimp only at h
  split at h
  · next number hnumber =>
    split at h
    · next hkind =>
      obtain ⟨rfl, rfl⟩ := Yields.pure_iff.1 h
      exact .inl ⟨number, hnumber, hkind, rfl, rfl⟩
    · next hkind =>
      split at h
      · next body hbody =>
        obtain ⟨temporaries, s₁, htake, h₁⟩ := Yields.bind_iff.1 h
        obtain ⟨rfl, rfl⟩ := takeTemporaries_iff.1 htake
        refine .inr ⟨number, body, ?_⟩
        split at h₁
        · next hinstrumented =>
          obtain ⟨parts, u, hparts, h₂⟩ := Yields.bind_iff.1 h₁
          obtain ⟨hcut, rfl, rfl⟩ := cutBody_ok hparts
          obtain ⟨rfl, rfl⟩ := Yields.pure_iff.1 h₂
          exact ⟨hnumber, Decidable.not_not.1 hkind, hbody, .framed hinstrumented, rfl, fun _ => hcut⟩
        · next hinstrumented =>
          have hbare := Bool.eq_false_iff.2 hinstrumented
          split at h₁
          · next hempty =>
            obtain ⟨rfl, rfl⟩ := Yields.pure_iff.1 h₁
            exact ⟨hnumber, Decidable.not_not.1 hkind, hbody,
              .bare hbare (List.isEmpty_iff.1 hempty), rfl, fun h => absurd rfl h⟩
          · next hempty =>
            obtain ⟨parts, u, hparts, h₂⟩ := Yields.bind_iff.1 h₁
            obtain ⟨hcut, rfl, rfl⟩ := cutBody_ok hparts
            obtain ⟨rfl, rfl⟩ := Yields.pure_iff.1 h₂
            exact ⟨hnumber, Decidable.not_not.1 hkind, hbody,
              .host hbare (fun e => hempty (List.isEmpty_iff.2 e)), rfl, fun _ => hcut⟩
      · exact (Yields.not_throw h).elim
  · exact (Yields.not_throw h).elim

theorem replace_ok {rep : Replacement} (h : Yields (replace id rep) s () s') :
    s.tree.Replaces id rep s'.tree ∧ s' = { s with tree := s'.tree } := by
  replace h := Yields.get_bind_iff.1 h
  split at h
  · next tree htree =>
    obtain rfl := Yields.set_iff.1 h
    exact ⟨SyntaxTree.replaces_of_update htree, rfl⟩
  · exact (Yields.not_throw h).elim

theorem apply_ok {r : Rule} {changed : Bool} (h : Yields (r.apply id) s changed s') :
    changed = false ∧ Yields (r.change? id) s none s' ∨
      changed = true ∧ ∃ change u, Yields (r.change? id) s (some change) u ∧
        u.tree.Replaces change.node change.replacement s'.tree ∧ s' = { u with tree := s'.tree } := by
  obtain ⟨found, u, hfound, h₁⟩ := Yields.bind_iff.1 h
  cases found with
  | none =>
    obtain ⟨rfl, rfl⟩ := Yields.pure_iff.1 h₁
    exact .inl ⟨rfl, hfound⟩
  | some change =>
    obtain ⟨_, v, hreplace, h₂⟩ := Yields.bind_iff.1 h₁
    obtain ⟨rfl, rfl⟩ := Yields.pure_iff.1 h₂
    exact .inr ⟨rfl, change, u, hfound, replace_ok hreplace⟩

theorem handles_unique {r r' : Rule} {kind : Kind} (h : r.handles kind = true)
    (h' : r'.handles kind = true) : r = r' := by
  have key : ∀ {r r' : Rule}, r' ≠ .terminator → r.handles kind = true →
      r'.handles kind = true → r = r' := by
    intro r r' hne h h'
    cases r' with
    | terminator => exact absurd rfl hne
    | body =>
      simp only [Rule.handles, Bool.or_eq_true, beq_iff_eq] at h'
      rcases h' with rfl | rfl <;> cases r <;> simp [Rule.handles, Kind.isTerminable] at h ⊢
    | binary | assignment | compound | declarator | returning | call =>
      obtain rfl := eq_of_beq h'
      cases r <;> simp [Rule.handles, Kind.isTerminable] at h ⊢
  by_cases hr : r' = .terminator
  · by_cases hr' : r = .terminator
    · exact hr'.trans hr.symm
    · exact (key hr' h' h).symm
  · exact key hr h h'

theorem find?_all {r : Rule} {kind : Kind} (h : r.handles kind = true) :
    Rule.all.find? (fun r => r.handles kind) = some r := by
  have hmem : r ∈ Rule.all := by cases r <;> decide
  cases hfound : Rule.all.find? fun r => r.handles kind with
  | none => exact absurd h (List.find?_eq_none.1 hfound r hmem)
  | some r' => rw [handles_unique h (by simpa using List.find?_some hfound)]

theorem visit_applies {r : Rule} (h : Yields (visit Rule.all id) s () s')
    (hr : r.handles (s.tree.kind id) = true)
    (hrows : r.appliesToSuppressed = true ∨ s.touchesSuppressed id = false) :
    ∃ changed, Yields (r.apply id) s changed s' := by
  replace h := Yields.get_bind_iff.1 h
  rw [find?_all hr] at h
  dsimp only at h
  rw [if_neg (by rcases hrows with e | e <;> simp [e])] at h
  exact Yields.discard_iff.1 h

theorem visit_ok {rules : List Rule} (h : Yields (visit rules id) s () s') (hP : HostsIn P s id) :
    VisitForm P rules s id s' := by
  replace h := Yields.get_bind_iff.1 h
  split at h
  · next hnone =>
    obtain ⟨-, rfl⟩ := Yields.pure_iff.1 h
    exact .idle (fun hm hb => absurd hb (List.find?_eq_none.1 hnone _ hm)) rfl
  · next r hr =>
    have hhandles : r.handles (s.tree.kind id) = true := by
      simpa using List.find?_some hr
    split at h
    · next hskip =>
      obtain ⟨-, rfl⟩ := Yields.pure_iff.1 h
      refine .idle (fun _ hb => ?_) rfl
      rw [handles_unique hhandles hb] at hskip
      simp [Rule.appliesToSuppressed] at hskip
    · next hskip =>
      obtain ⟨changed, happly⟩ := Yields.discard_iff.1 h
      -- the rule for bodies replaces the body, not the node; every other rule replaces the node
      by_cases hbody : r = .body
      · subst hbody
        rcases apply_ok happly with ⟨-, hchange⟩ | ⟨-, change, u, hchange, hreplaces, hstate⟩
        · rcases bodyChange_ok hchange with ⟨number, hn, hk, -, rfl⟩ | ⟨number, body, hb⟩
          · exact .idle (fun _ _ => ⟨number, hn, hk⟩) rfl
          · exact .bare hhandles hb
        · rcases bodyChange_ok hchange with ⟨_, _, _, hnone, _⟩ | ⟨number, body, hb⟩
          · cases hnone
          · obtain ⟨node, rep⟩ := change
            have hnode : node = body := by
              have hform := hb.form
              generalize hc : some (⟨node, rep⟩ : Change) = result at hform
              cases hform <;> cases hc <;> rfl
            subst hnode
            refine .body hhandles hb ?_ hstate
            rw [hb.state] at hreplaces
            exact hreplaces
      · have hsuppressed : s.touchesSuppressed id = false := by
          have happlies : r.appliesToSuppressed = false := by
            simpa [Rule.appliesToSuppressed] using hbody
          simpa [happlies] using hskip
        have hother : Rule.body.handles (s.tree.kind id) ≠ true :=
          fun hb => hbody (handles_unique hhandles hb)
        rcases apply_ok happly with ⟨-, hchange⟩ | ⟨-, change, u, hchange, hreplaces, hstate⟩
        · exact .idle (fun _ hb => absurd hb hother) (by rw [(change_none hbody hchange).2])
        · obtain ⟨hdraw, hnode, hform⟩ := change_ok hbody hchange hP
          rw [hnode, hdraw.tree] at hreplaces
          exact .rewrite hbody hhandles hsuppressed hdraw hform hreplaces hstate

end InstrumentM

end CoercionTrace
