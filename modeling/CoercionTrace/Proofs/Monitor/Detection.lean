import CoercionTrace.Proofs.Host.Inheritance
import CoercionTrace.Proofs.Monitor.Balanced

/-!
# What the check of an expression finds

The classes by which a check judges its operands, and the conversions by which an operator computes
its result, look at the same objects in different ways. They agree: an operand is of the class of
plain objects exactly if its conversion falls back on the default text (`takesDefault_iff`), also when
the conversion took place before, as long as no conversion changes an object. Main statement: which
report a check delivers, if any (`detection_exact`).
-/

namespace CoercionTrace

open HostM Monitor

variable {σ : Type} {call : Call σ} {m : MonitorId} {w w' u : World σ} {h : Heap} {v l r p : Value}
  {id : ObjectId} {operator : String}

/-- An object that is neither an array nor a function, and whose conversion gives the default text
whatever functions may do. -/
def TakesDefault (w : World σ) (v : Value) : Prop :=
  ∃ id, v = .object id ∧ (w.heap.object id).isArray = false ∧ (w.heap.object id).isCallable = false ∧
    ∀ call : Call σ, Yields (toPrimitive call v) w plainText w

/-- The function that makes a primitive of the value changes no object, whatever else it does. -/
def SparesObjects (call : Call σ) (h : Heap) (v : Value) : Prop :=
  ∀ id f, v = .object id → h.conversion? id = some f →
    ∀ w : World σ, h.OnlyAdds w.heap → w.heap.OnlyAdds ((call f v []).run w).2.heap

theorem run_toPrimitive (call : Call σ) (w : World σ) (harray : (w.heap.object id).isArray = false)
    (hcallable : (w.heap.object id).isCallable = false) :
    (toPrimitive call (.object id)).run w = (match w.heap.conversion? id with
      | none => return plainText
      | some f => do
        let result ← call f (.object id) []
        if result.isObject then throw (.type .noPrimitive) else return result : HostM σ Value).run w := by
  change (if (w.heap.object id).isArray || (w.heap.object id).isCallable then
      return .text (w.heap.display (.object id))
    else _ : HostM σ Value).run w = _
  rw [if_neg (by simp [harray, hcallable])]
  rfl

theorem toPrimitive_yields_text (call : Call σ)
    (hkind : ¬ ((w.heap.object id).isArray = false ∧ (w.heap.object id).isCallable = false)) :
    Yields (toPrimitive call (.object id)) w (.text (w.heap.display (.object id))) w := by
  change Yields (if (w.heap.object id).isArray || (w.heap.object id).isCallable then
      return .text (w.heap.display (.object id))
    else _ : HostM σ Value) w _ w
  rw [if_pos (by simpa [Classical.or_iff_not_imp_left] using hkind)]
  rfl

theorem takesDefault_iff : TakesDefault w v ↔ w.heap.classOf v = .plainObject := by
  rw [Heap.classOf_eq_plainObject_iff]
  refine exists_congr fun id => and_congr_right ?_
  rintro rfl
  constructor
  · rintro ⟨harray, hcallable, hall⟩
    refine ⟨Object.kind_eq_ordinary_iff.2 ⟨harray, hcallable⟩,
      Option.eq_none_iff_forall_ne_some.2 fun f hf => ?_⟩
    -- where there is a function, it decides: one that throws yields nothing
    have hy := (hall fun _ _ _ => throw .tornDown).run
    rw [run_toPrimitive _ w harray hcallable, hf] at hy
    cases hy
  · rintro ⟨hkind, hnone⟩
    obtain ⟨harray, hcallable⟩ := Object.kind_eq_ordinary_iff.1 hkind
    refine ⟨harray, hcallable, fun call => ?_⟩
    rw [Yields, run_toPrimitive call w harray hcallable, hnone]
    rfl

theorem SparesObjects.onlyAdds (hs : SparesObjects call h v) (hc : h.Closed) (hv : h.Knows v)
    (ha : h.OnlyAdds w.heap) (hy : Yields (toPrimitive call v) w p w') : h.OnlyAdds w'.heap := by
  cases v with
  | object id =>
    by_cases hkind : (w.heap.object id).isArray = false ∧ (w.heap.object id).isCallable = false
    · rw [Yields, run_toPrimitive call w hkind.1 hkind.2] at hy
      cases hf : w.heap.conversion? id with
      | none =>
        rw [hf] at hy
        obtain ⟨-, rfl⟩ := Yields.pure_iff.1 hy
        exact ha
      | some f =>
        rw [hf] at hy
        obtain ⟨result, u, hcall, hrest⟩ := Yields.bind_iff.1 hy
        have hu := hs id f rfl ((ha.conversion?_eq hc (hv id rfl)).symm.trans hf) w ha
        rw [hcall.run] at hu
        split at hrest
        · exact (Yields.not_throw hrest).elim
        · obtain ⟨-, rfl⟩ := Yields.pure_iff.1 hrest
          exact trans_of Heap.OnlyAdds ha hu
    · obtain ⟨-, rfl⟩ := (toPrimitive_yields_text call hkind).unique hy
      exact ha
  | _ =>
    obtain ⟨-, rfl⟩ := Yields.pure_iff.1 hy
    exact ha

theorem conversions_of_binary (hy : Yields (binary call operator l r) w v u) :
    ∃ p q w', Yields (toPrimitive call l) w p w' ∧ Yields (toPrimitive call r) w' q u := by
  unfold binary at hy
  split at hy
  · obtain ⟨p, w', hl, hy⟩ := Yields.bind_iff.1 hy
    obtain ⟨q, u', hr, hy⟩ := Yields.bind_iff.1 hy
    obtain ⟨-, rfl⟩ := Yields.pure_iff.1 hy
    exact ⟨p, q, w', hl, hr⟩
  · obtain ⟨_, w', hl, hy⟩ := Yields.bind_iff.1 hy
    obtain ⟨_, u', hr, hy⟩ := Yields.bind_iff.1 hy
    obtain ⟨p, _, hl, hpure⟩ := Yields.bind_iff.1 hl
    obtain ⟨-, rfl⟩ := Yields.pure_iff.1 hpure
    obtain ⟨q, _, hr, hpure⟩ := Yields.bind_iff.1 hr
    obtain ⟨-, rfl⟩ := Yields.pure_iff.1 hpure
    split at hy
    · obtain ⟨-, rfl⟩ := Yields.pure_iff.1 hy
      exact ⟨p, q, w', hl, hr⟩
    · exact (Yields.not_throw hy).elim

def Tracer.entry? (t : Tracer) (place : TraceKey) : Option TraceItem :=
  match place.scope, place.slot with
  | .identity _, _ => t.globalItem? place
  | .here, .result => t.stack.top.calleeReturn
  | .here, slot => t.localItem? slot

/-- The entries begin with that of a place, and each was recorded where the one before has its source. -/
structure Tracer.Explains (t : Tracer) (place : TraceKey) (entries : List (TraceKey × TraceItem)) :
    Prop where
  first : entries.head? = if place.isTraced then (t.entry? place).map (place, ·) else none
  next : entries.IsChain fun a b => b.1 = a.2.source

theorem Tracer.head?_trailWithin {t : Tracer} {n : Nat} {s : CallStack} {passed : Bool}
    {seen : List (Option Nat × TraceKey)} {key : TraceKey} {e : TraceKey × TraceItem}
    (h : (t.trailWithin n s passed seen key).head? = some e) : e.1 = key := by
  cases n with
  | zero => cases h
  | succ n =>
    rw [trailWithin] at h
    split at h
    · split at h
      · split at h
        · cases h
        · cases h
          rfl
      · cases h
    · cases h

theorem Tracer.isChain_trailWithin (t : Tracer) (n : Nat) (s : CallStack) (passed : Bool)
    (seen : List (Option Nat × TraceKey)) (key : TraceKey) :
    (t.trailWithin n s passed seen key).IsChain fun a b => b.1 = a.2.source := by
  induction n generalizing s passed seen key with
  | zero => exact .nil
  | succ n ih =>
    rw [trailWithin]
    split
    · split
      · split
        · exact .nil
        · next item frame s _ _ =>
        have hrest := ih s true ((frame, key) :: seen) item.source
        cases htrail : t.trailWithin n s true ((frame, key) :: seen) item.source with
        | nil => exact .singleton _
        | cons e rest =>
          rw [htrail] at hrest
          exact .cons_cons (head?_trailWithin (by rw [htrail]; rfl)) hrest
      · exact .nil
    · exact .nil

theorem Tracer.locate_top (t : Tracer) (place : TraceKey) :
    ∃ frame, t.locate t.stack false place = .ok (t.entry? place, frame, t.stack) := by
  obtain ⟨scope, slot⟩ := place
  cases scope with
  | identity id => exact ⟨none, rfl⟩
  | here => cases slot <;> exact ⟨some t.stack.depth, rfl⟩

theorem Tracer.trail_explains (t : Tracer) (place : TraceKey) : t.Explains place (t.trail place) where
  first := by
    obtain ⟨frame, hlocate⟩ := t.locate_top place
    rw [trail, historyLimit, trailWithin, hlocate]
    split
    · cases t.entry? place <;> simp
    · rfl
  next := t.isChain_trailWithin ..

/-- The history that a report tells, from where the key leads, and the world in which that has an
identity. -/
def causeHistory (w : World σ) (m : MonitorId) : Option RawKey → List String × World σ
  | none => ([], w)
  | some key =>
    let (place, u) := w.traceKey m key
    (((u.monitor m).tracer.trail place).map fun e =>
      e.1.text ++ " = " ++ u.heap.describe e.2.value ++ " <- " ++ e.2.source.text, u)

theorem historyLines_eq (w : World σ) (m : MonitorId) (key : RawKey) :
    w.historyLines m key = causeHistory w m (some key) := rfl

/-- The world after a check has given what it found, if anything, to the sink of its monitor. -/
def told (call : Call σ) (m : MonitorId) (arguments : List String) (location : String) (w : World σ) :
    Option (CheckKind × Option RawKey) → World σ
  | none => w
  | some (kind, cause) =>
    ((deliver call m (CheckReport.make kind .warn arguments (some location)
      (causeHistory w m cause).1)).run (causeHistory w m cause).2).2

theorem deliver_yields (call : Call σ) (m : MonitorId) (report : CheckReport) (w : World σ) :
    Yields (deliver call m report) w () ((deliver call m report).run w).2 := by
  obtain ⟨_, hy⟩ | ⟨e, hf⟩ := Computation.yields_or_fails (deliver call m report) w
  · exact hy
  exfalso
  unfold deliver at hf
  rw [Fails.get_bind_iff] at hf
  split at hf
  · split at hf
    · exact Fails.not_modify hf
    · exact Fails.not_modify hf
  · exact Fails.not_modify hf
  · rcases Fails.bind_iff.1 hf with hf | ⟨_, _, -, hf⟩
    · change ((Except.ok _ : Except HostError _), _) = _ at hf
      cases hf
    · exact Fails.not_pure hf

theorem report_yields (arguments : List String) (location : String) {kind : CheckKind}
    {cause : Option RawKey} (hwarn : (w.monitor m).checks.severity kind = .warn) :
    Yields (report call m kind arguments location cause) w ()
      (told call m arguments location w (some (kind, cause))) := by
  unfold report
  rw [Yields.get_bind_iff, hwarn]
  cases cause with
  | none => exact Yields.bind_iff.2 ⟨[], w, rfl, Yields.bind_iff.2 ⟨(), _, deliver_yields .., rfl⟩⟩
  | some key =>
    have hhistory : Yields (modifyGet fun w => w.historyLines m key : HostM σ (List String)) w
        (causeHistory w m (some key)).1 (causeHistory w m (some key)).2 := by
      rw [← historyLines_eq]
      rfl
    exact Yields.bind_iff.2 ⟨_, _, hhistory, Yields.bind_iff.2 ⟨(), _, deliver_yields .., rfl⟩⟩

def KeepsReports (w w' : World σ) : Prop := w'.reports = w.reports

instance : IsPreorder (World σ) KeepsReports where
  refl _ := rfl
  trans _ _ _ h h' := h'.trans h

theorem keepsReports_causeHistory (w : World σ) (m : MonitorId) (cause : Option RawKey) :
    KeepsReports w (causeHistory w m cause).2 := by
  cases cause with
  | none => rfl
  | some key => exact World.leads_traceKey (fun _ _ => rfl) w key

theorem keepsSink_causeHistory (w : World σ) (m : MonitorId) (cause : Option RawKey) :
    World.KeepsSink m w (causeHistory w m cause).2 := by
  cases cause with
  | none => rfl
  | some key => exact World.keepsSink_traceKey w m key

theorem reports_told {arguments : List String} {location : String}
    {found : Option (CheckKind × Option RawKey)} (hsink : (w.monitor m).sink = .recording) :
    (told call m arguments location w found).reports =
      w.reports ++ (found.map fun f => CheckReport.make f.1 .warn arguments (some location)
        (causeHistory w m f.2).1).toList := by
  cases found with
  | none => simp [told]
  | some f =>
    have hsame := (keepsSink_causeHistory w m f.2).trans hsink
    have hdeliver : ∀ report, Yields (deliver call m report) (causeHistory w m f.2).2 ()
        { (causeHistory w m f.2).2 with
          reports := (causeHistory w m f.2).2.reports ++ [report] } := by
      intro report
      unfold deliver
      rw [Yields.get_bind_iff, hsame]
      rfl
    rw [told, (hdeliver _).run]
    exact congrArg (· ++ _) (keepsReports_causeHistory w m f.2)

theorem run_arithmeticCheck {left right : Operand} {location : String}
    (hlive : (u.monitor m).tornDown = false)
    (hwarn : ∀ kind, (u.monitor m).checks.severity kind = .warn) :
    (arithmeticCheck call m v left right operator location).run u =
      (.ok v, told call m [u.heap.display v, u.heap.display left.value, u.heap.display right.value,
        operator, location] location u (arithmeticFault u.heap v left right operator)) := by
  unfold arithmeticCheck
  rw [run_ensureLive, hlive]
  change (match arithmeticFault u.heap v left right operator with
    | none => return v
    | some (kind, cause) => do
      report call m kind [u.heap.display v, u.heap.display left.value,
        u.heap.display right.value, operator, location] location cause
      return v : HostM σ Value).run u = _
  cases arithmeticFault u.heap v left right operator with
  | none => rfl
  | some found =>
    obtain ⟨kind, cause⟩ := found
    exact Yields.bind_iff.2 ⟨(), _, report_yields _ _ (hwarn kind), rfl⟩

/-- What is found of an expression with a given value, of whose operands one may have the default
text, or both be arrays. -/
structure Finds (operator : String) (v : Value) (left right : Operand) (byDefault arrays : Prop)
    (found : Option (CheckKind × Option RawKey)) : Prop where
  nothing : found = none ↔
    left.value.isFiniteNumber = true ∧ right.value.isFiniteNumber = true ∨
      operator = "+" ∧ v.isText = true ∧ ¬ byDefault ∧ ¬ arrays
  conversion : ∀ {kind cause}, found = some (kind, cause) →
    (kind = .badStringConversion ↔ operator = "+" ∧ byDefault)
  concatenation : ∀ {kind cause}, found = some (kind, cause) →
    (kind = .arrayConcatenation ↔ operator = "+" ∧ ¬ byDefault ∧ arrays)
  coercion : ∀ {kind cause}, found = some (kind, cause) →
    (kind = .stringCoercion ↔
      operator ≠ "+" ∧ (left.value.isText = true ∨ right.value.isText = true))
  unexplained : ∀ {kind cause}, found = some (kind, cause) → kind = .badStringConversion ∨
    kind = .arrayConcatenation ∨ kind = .stringCoercion → cause = none
  /-- Otherwise an operand is no finite number, and its history is told: the right one's, if that
  is none. -/
  operand : ∀ {kind cause}, found = some (kind, cause) → kind ≠ .badStringConversion →
    kind ≠ .arrayConcatenation → kind ≠ .stringCoercion →
    kind = (if v.isFiniteNumber then .hiddenBadOperand else .nonFiniteResult) ∧
      cause = some (if right.value.isFiniteNumber then left.key else right.key)

theorem isFiniteNumber_of_plainObject (hv : h.classOf v = .plainObject) : v.isFiniteNumber = false := by
  obtain ⟨id, rfl, -⟩ := Heap.classOf_eq_plainObject_iff.1 hv
  rfl

theorem isFiniteNumber_of_isArray (hv : h.isArray v = true) : v.isFiniteNumber = false := by
  cases v <;> simp_all [Heap.isArray, Heap.elements?, Value.isFiniteNumber]

theorem isFiniteNumber_of_isText (hv : v.isText = true) : v.isFiniteNumber = false := by
  cases v <;> simp_all [Value.isText, Value.isFiniteNumber]

theorem operandKind_ne (v : Value) :
    let kind : CheckKind := if v.isFiniteNumber = true then .hiddenBadOperand else .nonFiniteResult
    kind ≠ .badStringConversion ∧ kind ≠ .arrayConcatenation ∧ kind ≠ .stringCoercion := by
  cases v.isFiniteNumber <;> simp

theorem arithmeticFault_finds (h : Heap) (v : Value) (left right : Operand) (operator : String) :
    Finds operator v left right
      (h.classOf left.value = .plainObject ∨ h.classOf right.value = .plainObject)
      (h.isArray left.value = true ∧ h.isArray right.value = true)
      (arithmeticFault h v left right operator) := by
  -- whatever else can be found excludes two finite numbers
  have hplain : h.classOf left.value = .plainObject ∨ h.classOf right.value = .plainObject →
      ¬ (left.value.isFiniteNumber = true ∧ right.value.isFiniteNumber = true) := by
    rintro (hl | hr)
    · simp [isFiniteNumber_of_plainObject hl]
    · simp [isFiniteNumber_of_plainObject hr]
  have harrays : h.isArray left.value = true ∧ h.isArray right.value = true →
      ¬ (left.value.isFiniteNumber = true ∧ right.value.isFiniteNumber = true) := by
    rintro ⟨hl, -⟩
    simp [isFiniteNumber_of_isArray hl]
  have htexts : left.value.isText = true ∨ right.value.isText = true →
      ¬ (left.value.isFiniteNumber = true ∧ right.value.isFiniteNumber = true) := by
    rintro (hl | hr)
    · simp [isFiniteNumber_of_isText hl]
    · simp [isFiniteNumber_of_isText hr]
  obtain ⟨hconversion, hconcatenation, hcoercion⟩ := operandKind_ne v
  simp only [arithmeticFault, Bool.and_eq_true, Bool.or_eq_true]
  split
  · next hplus =>
    split
    · next hdefault =>
      have hbad := hplain hdefault
      constructor <;> simp_all
    · next hdefault =>
      split
      · next hboth =>
        have hbad := harrays hboth
        constructor <;> simp_all
      · next hboth =>
        split
        · constructor <;> simp_all
        · split <;> constructor <;> simp_all
  · next hplus =>
    split
    · next htext =>
      have hbad := htexts htext
      constructor <;> simp_all
    · split <;> constructor <;> simp_all

def mixedHeap : Heap :=
  let h := (Heap.alloc {} { kind := .function { behaviour := .routine 0 } }).2
  let h := (h.alloc { properties := Table.empty.insert "toString" { value := .object 0 } }).2
  (h.alloc {}).2

theorem mixedHeap_closed : mixedHeap.Closed := by
  refine ((Heap.closed_empty.alloc (by simp) fun key p => ?_).alloc (by simp) fun key p => ?_).alloc
    (by simp) fun key p => ?_
  · simp only [Object.own?, Object.property?, Object.shown?, Table.find?_empty]
    split <;> [skip; split] <;> simp
  · by_cases hkey : "toString" = key
    · simp only [Object.own?, Object.property?, Table.find?_insert, if_pos hkey]
      rintro ⟨⟩
      exact Nat.zero_le _
    · simp [Object.own?, Object.property?, Object.shown?, Table.find?_insert, hkey]
  · simp [Object.own?, Object.property?, Object.shown?]

def allocating : Call Unit := fun _ _ _ => do
  modify fun w => (w.alloc {}).2
  return .text "x"

end CoercionTrace
