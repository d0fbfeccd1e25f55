import CoercionTrace.Proofs.Trace.Listing

/-!
# Histories that stay as they are

Entries that are copied to the global table stand there under keys that name a slot of a call, not a
value that was once in it. So a later copy takes the place of an earlier one. Main statement: the
history of a key outside the running calls stays the same exactly as long as no key that it passes
gets another entry, and a record gives one only to its target and to the slots that it copies
(`lines_stable`).
-/

namespace CoercionTrace

open CallStack

namespace Tracer

def chainWithin (g : Table TraceKey TraceItem) : Nat → List TraceKey → TraceKey → List TraceKey
  | 0, _, _ => []
  | n + 1, met, key =>
    if key.isTraced = true ∧ key ∉ met then
      key ::
        match g.find? key with
        | none => []
        | some item => chainWithin g n (key :: met) item.source
    else []

/-- The keys that the history of a key looks up in the table: those of its entries, and the one where
nothing is recorded, if it ends there. -/
def chain (t : Tracer) (key : TraceKey) : List TraceKey := chainWithin t.global historyLimit [] key

def copies (t : Tracer) (target : TraceKey) (value : Value) (source : TraceKey) : List Hop :=
  if target.isTraced && !target.isHere && value.isSuspect then
    match t.behind (t.resolve source) with
    | .ok (hops, _) => hops
    | .error _ => []
  else []

theorem Recorded.find?_eq {t t' : Tracer} {target source : TraceKey} {value : Value}
    (h : Recorded t target value source t') {k : TraceKey} (hk : k ≠ target)
    (hcopies : k ∉ (t.copies target value source).map Hop.key) :
    t'.global.find? k = t.global.find? k := by
  cases h with
  | nothing => rfl
  | erased => rfl
  | here => rfl
  | @outside hops last htraced hhere hsuspect hbehind =>
    have hhops : t.copies target value source = hops := by
      simp [copies, htraced, hhere, hsuspect, hbehind]
    rw [hhops] at hcopies
    exact (Table.find?_insert_ne _ _ hk.symm).trans (find?_copyHops hcopies last t.global)

theorem Recorded.global_eq {t t' : Tracer} {target source : TraceKey} {value : Value}
    (h : Recorded t target value source t') (hhere : target.isHere = true) :
    t'.global = t.global := by
  cases h with
  | outside _ hout => simp [hhere] at hout
  | _ => rfl

-- Along the chain both tables are asked for the same keys as long as they gave the same answers.
theorem trailWithin_eq_iff {t t' : Tracer}
    (hsources : ∀ k item, t.global.find? k = some item → item.source.isVolatile = false) (n : Nat) :
    ∀ {key : TraceKey} {s s' : CallStack} {passed passed' : Bool} {met : List TraceKey},
      key.isVolatile = false →
      (t'.trailWithin n s' passed' (met.map (none, ·)) key =
          t.trailWithin n s passed (met.map (none, ·)) key ↔
        ∀ k ∈ chainWithin t.global n met key, t'.global.find? k = t.global.find? k) := by
  induction n with
  | zero => simp [trailWithin, chainWithin]
  | succ n ih =>
    intro key s s' passed passed' met hkey
    rw [trailWithin_global t n s passed _ hkey, trailWithin_global t' n s' passed' _ hkey,
      chainWithin]
    by_cases htraced : key.isTraced = true
    · have hseen : (none, key) ∈ met.map (Prod.mk (none : Option Nat)) ↔ key ∈ met := by simp
      by_cases hmet : key ∈ met
      · simp only [htraced, hseen, hmet, if_true, not_true, and_false, if_false]
        cases t.global.find? key <;> cases t'.global.find? key <;> simp
      · simp only [htraced, hseen, hmet, if_true, not_false_eq_true, and_self, if_false,
          List.forall_mem_cons]
        cases hfind : t.global.find? key with
        | none => cases t'.global.find? key <;> simp
        | some item =>
          have hrest := @ih item.source s s' true true (key :: met) (hsources key item hfind)
          cases hfind' : t'.global.find? key with
          | none => simp
          | some item' =>
            simp only [List.cons.injEq, Prod.mk.injEq, true_and, Option.some.injEq]
            constructor
            · rintro ⟨rfl, htail⟩
              exact ⟨rfl, hrest.1 htail⟩
            · rintro ⟨rfl, htail⟩
              exact ⟨rfl, hrest.2 htail⟩
    · simp [htraced]

theorem trail_eq_iff {t t' : Tracer}
    (hsources : ∀ k item, t.global.find? k = some item → item.source.isVolatile = false)
    {key : TraceKey} (hkey : key.isVolatile = false) :
    t'.trail key = t.trail key ↔ ∀ k ∈ t.chain key, t'.globalItem? k = t.globalItem? k :=
  @trailWithin_eq_iff t t' hsources historyLimit key t.stack t'.stack false false [] hkey

theorem lines_eq {t t' : Tracer} {key : TraceKey} (h : t'.trail key = t.trail key)
    (describe : Value → String) : t'.lines describe key = t.lines describe key := by
  rw [lines, lines, h]

end Tracer

open Tracer

/-- In every state that a program leads its monitor to, a record keeps the history of a key outside
the running calls if that history passes neither the target nor a slot whose copy is not what the
table had there. It keeps each of its entries exactly if no key that is looked up gets another one,
and other keys than these get none. A record at a place of the running call keeps every history. -/
theorem lines_stable {σ : Type} (w : World σ) (r : RealmId) (checks : CheckConfig) {w' : World σ}
    (h : Reaches (w.newMonitor r checks).1 (w.newMonitor r checks).2 w') {target source : TraceKey}
    {value : Value} {t' : Tracer}
    (hy : Yields (record target value source) (w'.monitor (w.newMonitor r checks).1).tracer () t')
    (id : TraceId) (slot : Slot) :
    let t := (w'.monitor (w.newMonitor r checks).1).tracer
    let key : TraceKey := .of id slot
    ((∀ k ∈ t.chain key, k ≠ target ∧ (k ∈ (t.copies target value source).map Hop.key →
        t'.globalItem? k = t.globalItem? k)) →
      ∀ describe, t'.lines describe key = t.lines describe key) ∧
    (target.isHere = true → ∀ describe, t'.lines describe key = t.lines describe key) ∧
    (t'.trail key = t.trail key ↔ ∀ k ∈ t.chain key, t'.globalItem? k = t.globalItem? k) ∧
    ∀ k, k ≠ target → k ∉ (t.copies target value source).map Hop.key →
      t'.globalItem? k = t.globalItem? k := by
  intro t key
  have hinvariant : t.Invariant := h.tracer_kept.1
  have hrecorded := recorded_of_yields hy
  have htrail : t'.trail key = t.trail key ↔
      ∀ k ∈ t.chain key, t'.globalItem? k = t.globalItem? k :=
    trail_eq_iff (fun k item hk => (hinvariant.global k item hk).2) rfl
  have hother : ∀ k, k ≠ target → k ∉ (t.copies target value source).map Hop.key →
      t'.globalItem? k = t.globalItem? k := fun k => hrecorded.find?_eq
  refine ⟨fun hchain => lines_eq (htrail.2 fun k hk => ?_), fun hhere => lines_eq (htrail.2 ?_),
    htrail, hother⟩
  · obtain ⟨htarget, hcopy⟩ := hchain k hk
    by_cases hk : k ∈ (t.copies target value source).map Hop.key
    · exact hcopy hk
    · exact hother k htarget hk
  · intro k _
    rw [globalItem?, globalItem?, hrecorded.global_eq hhere]

def World.passedOn : World Unit := watched.assigned
  [(.number .nan, { slot := .text "y" }, {}),
    (.number .nan, { slot := .text "x" }, { slot := .text "y" }),
    (.number .nan, { scope := .object 0, slot := .text "g" }, { slot := .text "x" })]

theorem lines_stable_aside :
    let t := (World.passedOn.monitor 0).tracer
    ∃ t', Yields (record (.of globalTraceId (.name "h")) .undefined (.here (.name "z"))) t () t' ∧
      t'.globalItem? (.of globalTraceId (.name "h")) =
        some ⟨.undefined, .of 2 (.name "z")⟩ ∧
      (t'.trail (.of globalTraceId (.name "g"))).map Prod.fst =
        [.of globalTraceId (.name "g"), .of 2 (.name "x"), .of 2 (.name "y")] ∧
      ∀ describe, t'.lines describe (.of globalTraceId (.name "g")) =
        t.lines describe (.of globalTraceId (.name "g")) := by
  intro t
  have hy : Yields (record (.of globalTraceId (.name "h")) .undefined (.here (.name "z"))) t () _ :=
    .of_toBool (by decide +kernel)
  have hlines := (lines_stable (.withFunction { behaviour := .routine 0 }) 0 {}
    (reaches_assigned _ _ (.refl World.watched)) hy globalTraceId (.name "g")).1
  exact ⟨_, hy, by decide +kernel, by decide +kernel, hlines (by decide +kernel)⟩

def World.reassigned : World Unit := passedOn.assigned
  [(.number .nan, { slot := .text "x" }, { scope := .object 0, slot := .text "g" })]

/-- When it goes to another global variable, the history of the first is cut off and led back to
itself. -/
theorem lines_rewritten :
    let t := (World.reassigned.monitor 0).tracer
    let g : TraceKey := .of globalTraceId (.name "g")
    let h : TraceKey := .of globalTraceId (.name "h")
    Reaches 0 World.watched World.reassigned ∧
      ∃ t', Yields (record h (.number .nan) (.here (.name "x"))) t () t' ∧ h ∉ t.chain g ∧
        t.lines (fun _ => "NaN") g = ["global 'g' = NaN <- #2.'x'", "#2.'x' = NaN <- #2.'y'",
          "#2.'y' = NaN <- literal"] ∧
        t'.lines (fun _ => "NaN") g = ["global 'g' = NaN <- #2.'x'",
          "#2.'x' = NaN <- global 'g'"] :=
  ⟨reaches_assigned _ _ (reaches_assigned _ _ (.refl World.watched)), _,
    .of_toBool (by decide +kernel), by decide +kernel, by decide +kernel, by decide +kernel⟩

end CoercionTrace
