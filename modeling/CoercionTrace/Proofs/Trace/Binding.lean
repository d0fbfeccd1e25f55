import Mathlib.Data.List.Induction
import CoercionTrace.Proofs.Computation
import CoercionTrace.Trace.Tracer

/-!
# Entering a call

A call that is entered takes its parameters from the left, each into an entry of its own and, where
nested functions read it, into the global table (`Tracer.Binds`). That ends well, or it stops at a
parameter for the table whose argument has no history (`Tracer.pushFrame_outcome`). What a name has
in the end is what was passed at the last of its positions where anything was
(`Tracer.Binds.find?_iff`).
-/

namespace CoercionTrace

namespace Tracer

variable {t : Tracer} {n i : Nat} {captured : List String} {name : String} {item : TraceItem}
  {parameters : List (Option String)} {entries : Table Slot TraceItem}
  {g g' : Table TraceKey TraceItem}

inductive Gives (t : Tracer) (arguments i : Nat) : TraceItem → Prop
  | omitted : arguments ≤ i → Gives t arguments i ⟨.undefined, .untraced⟩
  | suspect {item : TraceItem} : i < arguments → t.localItem? (.argument i) = some item →
      item.value.isSuspect = true → Gives t arguments i ⟨item.value, .here (.argument i)⟩

theorem passed?_eq_some_iff : t.passed? n i = some item ↔ t.Gives n i item := by
  unfold passed?
  split
  · next hle =>
    constructor
    · rintro ⟨⟩
      exact .omitted hle
    · rintro (_ | ⟨hlt, -, -⟩)
      · rfl
      · exact absurd hle (Nat.not_le_of_lt hlt)
  · next hle =>
    rw [Option.map_eq_some_iff]
    constructor
    · rintro ⟨kept, hkept, rfl⟩
      obtain ⟨hfind, hsuspect⟩ := Option.filter_eq_some_iff.1 hkept
      exact .suspect (Nat.lt_of_not_le hle) hfind hsuspect
    · rintro (hle' | ⟨-, hfind, hsuspect⟩)
      · exact absurd hle' hle
      · exact ⟨_, Option.filter_eq_some_iff.2 ⟨hfind, hsuspect⟩, rfl⟩

theorem passed?_eq_none_iff : t.passed? n i = none ↔ ∀ item, ¬ t.Gives n i item := by
  simp only [Option.eq_none_iff_forall_ne_some, ne_eq, passed?_eq_some_iff]

def taken (t : Tracer) (g : Table TraceKey TraceItem) : Tracer :=
  { t.clearPending with nextId := t.nextId + 1, global := g }

def begun (t : Tracer) (entries : Table Slot TraceItem) (g : Table TraceKey TraceItem) : Tracer :=
  { t.taken g with
    stack := { top := { callId := t.nextId, entries }, below := t.clearPending.stack.frames } }

inductive Publishes (t : Tracer) (name : String) (i : Nat) (item : TraceItem)
    (g : Table TraceKey TraceItem) : Table TraceKey TraceItem → Prop
  | omitted : item.source.isTraced = false →
      Publishes t name i item g (g.insert (.of t.nextId (.name name)) item)
  | passed {hops : List Hop} {last : TraceKey} : item.source.isTraced = true →
      t.clearPending.stack.chase (.argument i) = .ok (hops, last) →
      Publishes t name i item g ((copyHops hops last g).2.insert (.of t.nextId (.name name))
        ⟨item.value, (copyHops hops last g).1⟩)

theorem Publishes.yields (h : t.Publishes name i item g g') :
    Yields (publish t.nextId name i item) (t.taken g) () (t.taken g') := by
  unfold publish
  cases h with
  | omitted htraced =>
    rw [if_neg (by simp [htraced])]
    rfl
  | passed htraced hc =>
    rw [if_pos htraced, Yields.get_bind_iff, show (t.taken g).stack.chase (.argument i) = _ from hc]
    rfl

theorem publish_cases (t : Tracer) (name : String) (i : Nat) (item : TraceItem)
    (g : Table TraceKey TraceItem) :
    (∃ g', t.Publishes name i item g g') ∨
    ∃ e, item.source.isTraced = true ∧ t.clearPending.stack.chase (.argument i) = .error e ∧
      Fails (publish t.nextId name i item) (t.taken g) e (t.taken g) := by
  cases htraced : item.source.isTraced with
  | false => exact .inl ⟨_, .omitted htraced⟩
  | true =>
    cases hc : t.clearPending.stack.chase (.argument i) with
    | error e =>
      refine .inr ⟨e, rfl, rfl, ?_⟩
      unfold publish
      rw [if_pos htraced, Fails.get_bind_iff, Fails.bind_iff,
        show (t.taken g).stack.chase (.argument i) = .error e from hc]
      exact .inl (Fails.throw_iff.2 ⟨rfl, rfl⟩)
    | ok history => exact .inl ⟨_, .passed htraced hc⟩

inductive Binds (t : Tracer) (arguments : Nat) (captured : List String) :
    List (Option String) → Table Slot TraceItem → Table TraceKey TraceItem → Prop
  | nil : Binds t arguments captured [] .empty t.global
  | skipped {ps : List (Option String)} {entries : Table Slot TraceItem}
      {g : Table TraceKey TraceItem} {parameter : Option String} :
      Binds t arguments captured ps entries g →
      (parameter ≠ none → t.passed? arguments ps.length = none) →
      Binds t arguments captured (ps ++ [parameter]) entries g
  | kept {ps : List (Option String)} {entries : Table Slot TraceItem}
      {g : Table TraceKey TraceItem} {name : String} {item : TraceItem} :
      Binds t arguments captured ps entries g → t.passed? arguments ps.length = some item →
      name ∉ captured →
      Binds t arguments captured (ps ++ [some name]) (entries.insert (.name name) item) g
  | published {ps : List (Option String)} {entries : Table Slot TraceItem}
      {g g' : Table TraceKey TraceItem} {name : String} {item : TraceItem} :
      Binds t arguments captured ps entries g → t.passed? arguments ps.length = some item →
      name ∈ captured → Publishes t name ps.length item g g' →
      Binds t arguments captured (ps ++ [some name]) (entries.insert (.name name) item) g'

/-- Binding stops at a parameter for the table, for the history of its argument cannot be
followed. -/
def Stops (t : Tracer) (arguments : Nat) (captured : List String)
    (parameters : List (Option String)) (e : TraceError) (g : Table TraceKey TraceItem) : Prop :=
  ∃ before name after entries item, parameters = before ++ some name :: after ∧ name ∈ captured ∧
    t.Binds arguments captured before entries g ∧ t.passed? arguments before.length = some item ∧
    item.source.isTraced = true ∧ t.clearPending.stack.chase (.argument before.length) = .error e

theorem bindParameters_concat (callId : TraceId) (parameter : Option String) :
    ∀ (i : Nat) (entries : Table Slot TraceItem),
      bindParameters callId n captured i (parameters ++ [parameter]) entries =
        bindParameters callId n captured i parameters entries >>=
          bindParameters callId n captured (i + parameters.length) [parameter] := by
  induction parameters with
  | nil => exact fun i entries => rfl
  | cons p rest ih =>
    intro i entries
    rw [List.length_cons, Nat.add_comm rest.length, ← Nat.add_assoc]
    cases p with
    | none => exact ih (i + 1) entries
    | some name =>
      simp only [List.cons_append, bindParameters, ih, bind_assoc]
      refine bind_congr fun u => ?_
      split
      · rfl
      · split <;> simp only [bind_assoc]

theorem Binds.yields (h : t.Binds n captured parameters entries g) :
    Yields (bindParameters t.nextId n captured 0 parameters .empty) (t.taken t.global) entries
      (t.taken g) := by
  induction h with
  | nil => rfl
  | @skipped ps entries g parameter _ hskip ih =>
    rw [bindParameters_concat, Nat.zero_add]
    refine Yields.bind_iff.2 ⟨entries, _, ih, ?_⟩
    cases parameter with
    | none => rfl
    | some name =>
      rw [bindParameters, Yields.get_bind_iff,
        show (t.taken g).passed? n ps.length = none from hskip (by simp)]
      rfl
  | @kept ps entries g name item _ hitem hcaptured ih =>
    rw [bindParameters_concat, Nat.zero_add]
    refine Yields.bind_iff.2 ⟨entries, _, ih, ?_⟩
    rw [bindParameters, Yields.get_bind_iff,
      show (t.taken g).passed? n ps.length = some item from hitem]
    dsimp only
    rw [if_neg (mt List.contains_iff_mem.1 hcaptured)]
    rfl
  | @published ps entries g g' name item _ hitem hcaptured hpublishes ih =>
    rw [bindParameters_concat, Nat.zero_add]
    refine Yields.bind_iff.2 ⟨entries, _, ih, ?_⟩
    rw [bindParameters, Yields.get_bind_iff,
      show (t.taken g).passed? n ps.length = some item from hitem]
    dsimp only
    rw [if_pos (List.contains_iff_mem.2 hcaptured)]
    exact Yields.bind_iff.2 ⟨(), _, hpublishes.yields, rfl⟩

theorem Stops.append {e : TraceError} (h : t.Stops n captured parameters e g)
    (rest : List (Option String)) : t.Stops n captured (parameters ++ rest) e g := by
  obtain ⟨before, name, after, entries, item, rfl, hrest⟩ := h
  exact ⟨before, name, after ++ rest, entries, item, by simp, hrest⟩

theorem binds_or_stops (t : Tracer) (n : Nat) (captured : List String)
    (parameters : List (Option String)) :
    (∃ entries g, t.Binds n captured parameters entries g) ∨
    ∃ e g, t.Stops n captured parameters e g ∧
      Fails (bindParameters t.nextId n captured 0 parameters .empty) (t.taken t.global) e
        (t.taken g) := by
  induction parameters using List.reverseRecOn with
  | nil => exact .inl ⟨_, _, .nil⟩
  | append_singleton ps parameter ih =>
    rw [bindParameters_concat, Nat.zero_add]
    rcases ih with ⟨entries, g, h⟩ | ⟨e, g, hstops, hf⟩
    · cases parameter with
      | none => exact .inl ⟨entries, g, h.skipped fun hne => absurd rfl hne⟩
      | some name =>
        cases hitem : t.passed? n ps.length with
        | none => exact .inl ⟨entries, g, h.skipped fun _ => hitem⟩
        | some item =>
          by_cases hcaptured : name ∈ captured
          · rcases t.publish_cases name ps.length item g with
              ⟨g', hpublishes⟩ | ⟨e, htraced, hchase, hf⟩
            · exact .inl ⟨_, g', h.published hitem hcaptured hpublishes⟩
            · refine .inr ⟨e, g, ⟨ps, name, [], entries, item, rfl, hcaptured, h, hitem, htraced,
                hchase⟩, Fails.bind_iff.2 (.inr ⟨entries, _, h.yields, ?_⟩)⟩
              rw [bindParameters, Fails.get_bind_iff,
                show (t.taken g).passed? n ps.length = some item from hitem]
              dsimp only
              rw [if_pos (List.contains_iff_mem.2 hcaptured)]
              exact Fails.bind_iff.2 (.inl hf)
          · exact .inl ⟨_, g, h.kept hitem hcaptured⟩
    · exact .inr ⟨e, g, hstops.append _, Fails.bind_iff.2 (.inl hf)⟩

theorem Binds.yields_pushFrame (hpending : t.stack.top.pendingArguments = some n)
    (h : t.Binds n captured parameters entries g) :
    Yields (pushFrame parameters captured) t t.nextId (t.begun entries g) := by
  unfold pushFrame
  rw [Yields.get_bind_iff, hpending]
  exact Yields.bind_iff.2 ⟨_, _, rfl, Yields.bind_iff.2 ⟨entries, _, h.yields, rfl⟩⟩

theorem pushFrame_outcome (t : Tracer) (parameters : List (Option String)) (captured : List String) :
    (t.stack.top.pendingArguments = none ∧
      Yields (pushFrame parameters captured) t t.nextId (t.begun .empty t.global)) ∨
    ∃ n, t.stack.top.pendingArguments = some n ∧
      ((∃ entries g, t.Binds n captured parameters entries g ∧
        Yields (pushFrame parameters captured) t t.nextId (t.begun entries g)) ∨
      ∃ e g, t.Stops n captured parameters e g ∧
        Fails (pushFrame parameters captured) t e (t.taken g)) := by
  cases hpending : t.stack.top.pendingArguments with
  | none =>
    unfold pushFrame
    rw [Yields.get_bind_iff, hpending]
    exact .inl ⟨rfl, rfl⟩
  | some n =>
    refine .inr ⟨n, rfl, ?_⟩
    rcases t.binds_or_stops n captured parameters with ⟨entries, g, hbinds⟩ | ⟨e, g, hstops, hf⟩
    · exact .inl ⟨entries, g, hbinds, hbinds.yields_pushFrame hpending⟩
    · refine .inr ⟨e, g, hstops, ?_⟩
      unfold pushFrame
      rw [Fails.get_bind_iff, hpending]
      exact Fails.bind_iff.2 (.inr ⟨_, _, rfl, Fails.bind_iff.2 (.inl hf)⟩)

structure LastBinding (t : Tracer) (arguments : Nat) (parameters : List (Option String))
    (name : String) (i : Nat) (item : TraceItem) : Prop where
  position : parameters[i]? = some (some name)
  gives : t.Gives arguments i item
  last : ∀ j, i < j → parameters[j]? = some (some name) → ∀ item, ¬ t.Gives arguments j item

theorem lt_of_getElem? {p : Option String} (h : parameters[i]? = some p) : i < parameters.length :=
  (List.getElem?_eq_some_iff.1 h).1

theorem position_concat {p q : Option String} {j : Nat} :
    (parameters ++ [p])[j]? = some q ↔ parameters[j]? = some q ∨ j = parameters.length ∧ p = q := by
  rcases Nat.lt_trichotomy j parameters.length with hlt | rfl | hgt
  · simp [List.getElem?_append_left hlt, Nat.ne_of_lt hlt]
  · simp
  · have hend : (parameters ++ [p]).length ≤ j := by simpa using Nat.succ_le_of_lt hgt
    simp [List.getElem?_eq_none hend, Nat.ne_of_gt hgt, Nat.le_of_lt hgt]

theorem lastBinding_concat {parameter : Option String} :
    t.LastBinding n (parameters ++ [parameter]) name i item ↔
      (i = parameters.length ∧ parameter = some name ∧ t.Gives n i item) ∨
      (t.LastBinding n parameters name i item ∧
        (parameter = some name → ∀ item, ¬ t.Gives n parameters.length item)) := by
  constructor
  · rintro ⟨hposition, hgives, hlast⟩
    rcases position_concat.1 hposition with hposition | ⟨rfl, rfl⟩
    · refine .inr ⟨⟨hposition, hgives, fun j hij hj => ?_⟩, fun hp => ?_⟩
      · exact hlast j hij (position_concat.2 (.inl hj))
      · exact hlast _ (lt_of_getElem? hposition) (position_concat.2 (.inr ⟨rfl, hp⟩))
    · exact .inl ⟨rfl, rfl, hgives⟩
  · rintro (⟨rfl, rfl, hgives⟩ | ⟨⟨hposition, hgives, hlast⟩, hskip⟩)
    · refine ⟨position_concat.2 (.inr ⟨rfl, rfl⟩), hgives, fun j hij hj => ?_⟩
      have hlt := lt_of_getElem? hj
      rw [List.length_append, List.length_singleton] at hlt
      exact absurd hlt (Nat.not_lt_of_le hij)
    · refine ⟨position_concat.2 (.inl hposition), hgives, fun j hij hj => ?_⟩
      rcases position_concat.1 hj with hj | ⟨rfl, rfl⟩
      · exact hlast j hij hj
      · exact hskip rfl

theorem not_lastBinding_nil : ¬ t.LastBinding n [] name i item := fun h => by
  simpa using h.position

theorem Gives.unique {item' : TraceItem} (h : t.Gives n i item) (h' : t.Gives n i item') :
    item = item' := by
  rw [← passed?_eq_some_iff] at h h'
  exact Option.some.inj (h.symm.trans h')

theorem lastBinding_concat_of_gives {x : String} {passed : TraceItem}
    (hgives : t.Gives n parameters.length passed) :
    t.LastBinding n (parameters ++ [some x]) name i item ↔
      (x = name ∧ i = parameters.length ∧ passed = item) ∨
      (x ≠ name ∧ t.LastBinding n parameters name i item) := by
  rw [lastBinding_concat]
  constructor
  · rintro (⟨rfl, hx, hitem⟩ | ⟨hbinding, hskip⟩)
    · exact .inl ⟨Option.some.inj hx, rfl, hgives.unique hitem⟩
    · exact .inr ⟨fun hx => hskip (congrArg some hx) passed hgives, hbinding⟩
  · rintro (⟨rfl, rfl, rfl⟩ | ⟨hne, hbinding⟩)
    · exact .inl ⟨rfl, rfl, hgives⟩
    · exact .inr ⟨hbinding, fun hx => absurd (Option.some.inj hx) hne⟩

theorem find?_insert_iff {slot : Slot} {x : String} {passed : TraceItem}
    (hgives : t.Gives n parameters.length passed)
    (h : entries.find? slot = some item ↔
      ∃ name i, slot = .name name ∧ t.LastBinding n parameters name i item) :
    (entries.insert (.name x) passed).find? slot = some item ↔
      ∃ name i, slot = .name name ∧ t.LastBinding n (parameters ++ [some x]) name i item := by
  simp only [Table.find?_insert, lastBinding_concat_of_gives hgives]
  split
  · next hslot =>
    subst hslot
    simp
  · next hslot =>
    refine h.trans (exists_congr fun name => exists_congr fun i => and_congr_right ?_)
    rintro rfl
    have hne : x ≠ name := fun hx => hslot (congrArg Slot.name hx)
    simp [hne]

theorem Binds.find?_iff (h : t.Binds n captured parameters entries g) {slot : Slot} :
    entries.find? slot = some item ↔
      ∃ name i, slot = .name name ∧ t.LastBinding n parameters name i item := by
  induction h with
  | nil => simp [not_lastBinding_nil]
  | @skipped ps _ _ parameter _ hskip ih =>
    -- at a position without a name, or where nothing is passed, no name has its last one
    refine ih.trans (exists_congr fun name => exists_congr fun i => and_congr_right fun _ => ?_)
    rw [lastBinding_concat]
    have hnone : parameter = some name → ∀ item, ¬ t.Gives n ps.length item := fun hp =>
      passed?_eq_none_iff.1 (hskip (by simp [hp]))
    constructor
    · exact fun h => .inr ⟨h, hnone⟩
    · rintro (⟨rfl, hp, hgives⟩ | ⟨h, -⟩)
      · exact absurd hgives (hnone hp item)
      · exact h
  | kept _ hpassed _ ih => exact find?_insert_iff (passed?_eq_some_iff.1 hpassed) ih
  | published _ hpassed _ _ ih => exact find?_insert_iff (passed?_eq_some_iff.1 hpassed) ih

end Tracer

end CoercionTrace
