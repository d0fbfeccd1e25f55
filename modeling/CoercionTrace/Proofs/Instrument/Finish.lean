import CoercionTrace.Instrument.Program
import CoercionTrace.Proofs.Instrument.Separate

/-!
# The head of a program

Main statement: declaring linkage and temporaries replaces the root by the program with a header, or
nothing if there is nothing to declare (`finish_ok`).
-/

namespace CoercionTrace

open Instrumentation InstrumentM

def Instrumentation.programHeader (s : Instrumentation) (linkage : String) : ProgramHeader :=
  let (cut, afterDirective) := s.tree.insertionPoint
  let before := s.tree.textBetween SyntaxTree.root (s.tree.node SyntaxTree.root).start cut
  { afterDirective, unterminated := !endsWithSemicolon before, linkage, temporaries := s.pending none }

inductive Finished (s : Instrumentation) (linkage : String) : SyntaxTree → Prop
  | bare : (s.programHeader linkage).parts = [] → Finished s linkage s.tree
  | headed {before rest : String} {gap : Bool} {t : SyntaxTree} :
      (Replacement.program before (s.programHeader linkage) gap rest).Current s.tree SyntaxTree.root →
      s.tree.Replaces SyntaxTree.root (.program before (s.programHeader linkage) gap rest) t →
      Finished s linkage t

variable {s₀ s s' : Instrumentation} {linkage : String} {t : SyntaxTree} {d : NodeId} {rep : Replacement}

theorem finish_ok (h : Yields (finish linkage) s () s') :
    Finished s linkage s'.tree ∧ s'.diagnostics = s.diagnostics := by
  replace h := Yields.get_bind_iff.1 h
  dsimp only at h
  obtain ⟨temporaries, u, htake, h₁⟩ := Yields.bind_iff.1 h
  obtain ⟨_, u', hset, h₂⟩ := Yields.bind_iff.1 (Yields.get_bind_iff.1 htake)
  obtain ⟨rfl, rfl⟩ := Yields.pure_iff.1 h₂
  obtain rfl := Yields.set_iff.1 hset
  split at h₁
  · next hempty =>
    obtain ⟨-, rfl⟩ := Yields.pure_iff.1 h₁
    exact ⟨.bare (List.isEmpty_iff.1 hempty), rfl⟩
  · obtain ⟨hreplaces, hs⟩ := replace_ok h₁
    exact ⟨.headed ⟨rfl, rfl⟩ hreplaces, by rw [hs]⟩

theorem temporaries_of_parts {header : ProgramHeader} (h : header.parts = []) :
    header.temporaries = [] := by
  unfold ProgramHeader.parts at h
  have hlast := (List.append_eq_nil_iff.1 h).2
  split at hlast
  · next hempty => exact List.isEmpty_iff.1 hempty
  · cases hlast

theorem Finished.replaced (hw : s.tree.WellFormed) (h : Finished s linkage t)
    (hd : (t.node d).replacement = some rep) : (s.tree.node d).replacement = some rep ∨
      d = SyntaxTree.root ∧ ∃ before gap rest,
        rep = .program before (s.programHeader linkage) gap rest := by
  cases h with
  | bare => exact .inl hd
  | @headed before rest gap _ _ hr =>
    by_cases hroot : d = SyntaxTree.root
    · subst hroot
      rw [hr.at_ hw.root_lt] at hd
      exact .inr ⟨rfl, before, gap, rest, (Option.some.inj hd).symm⟩
    · rw [hr.elsewhere d hroot] at hd
      exact .inl hd

namespace Finished

variable (h : Finished s linkage t)
include h

theorem shape : s.tree.SameShape t := by
  cases h with
  | bare => exact .refl _
  | headed _ hr => exact hr.shape

theorem elsewhere (hd : d ≠ SyntaxTree.root) : t.node d = s.tree.node d := by
  cases h with
  | bare => rfl
  | headed _ hr => exact hr.elsewhere d hd

theorem takesFromBelow (hw : s.tree.WellFormed) (ht : s.tree.TakesFromBelow) :
    t.TakesFromBelow := by
  cases h with
  | bare => exact ht
  | headed _ hr =>
    refine hr.takesFromBelow hw.root_lt ht fun d hd => ?_
    rw [Replacement.takenOver_program] at hd
    have hchild := SyntaxTree.mem_of_between hd
    exact ⟨(hw.child hchild).1, .of_mem hchild⟩

theorem takesOnce (hw : s.tree.WellFormed) (ht : s.tree.TakesOnce) : t.TakesOnce := by
  cases h with
  | bare => exact ht
  | headed _ hr =>
    refine hr.takesOnce hw.root_lt ht ?_
    rw [Replacement.takenOver_program]
    refine .of_children hw (SyntaxTree.childrenBetween_nodup hw) fun d hd => ?_
    exact SyntaxTree.mem_of_between hd

theorem settled (hw : s.tree.WellFormed) (ht : s.tree.TakesFromBelow) (hs : s.tree.Settled) :
    t.Settled := by
  cases h with
  | bare => exact hs
  | headed hcurrent hr =>
    refine hr.settled hw ht hs hw.root_lt hcurrent (fun d hd => ?_) fun d hd => ?_
    · rw [Replacement.takenOver_program] at hd
      have hchild := SyntaxTree.mem_of_between hd
      exact ⟨(hw.child hchild).1, .of_mem hchild⟩
    · obtain rfl : d = SyntaxTree.root := Nat.le_zero.1 (hw.le_of_below hd)
      exact hr.before

end Finished

end CoercionTrace
