import CoercionTrace.Proofs.Monitor.Marks
import CoercionTrace.Proofs.Trace.Steps

/-!
# Marks and records

An assignment looks up both of its keys before the tracer decides whether there is anything to
record, and a key on an object marks that object. Main statement: an assignment that does not end at
once marks the objects of its keys that can be marked; if it stores an item, the item names them, and
if it stores none, nothing does (`assign_marks_iff`).
-/

namespace CoercionTrace

variable {σ : Type} {m : MonitorId}

namespace Object

variable {o : Object} {key : String}

theorem property?_define_of_configurable (p : Property)
    (h : (o.property? key).all Property.configurable = true) :
    (o.define key p).2.property? key = some p := by
  rw [define, if_pos h]
  exact Table.find?_insert_self _ _ _

theorem define_of_fixed (p : Property)
    (h : ¬ (o.property? key).all Property.configurable = true) : (o.define key p).2 = o := by
  rw [define, if_neg h]

end Object

namespace World

variable {w u u' : World σ} {id : ObjectId} {key : RawKey} {i : TraceId}

structure Markable (m : MonitorId) (w : World σ) (id : ObjectId) : Prop where
  present : id < w.heap.size
  notGlobal : id ≠ w.globalOf m
  notHook : (w.monitor m).handle ≠ some id
  unmarked : w.traceId? id = none
  configurable : (w.mark? id).all Property.configurable = true

structure SameSetting (m : MonitorId) (w w' : World σ) : Prop where
  size : w'.heap.size = w.heap.size
  global : w'.globalOf m = w.globalOf m
  handle : (w'.monitor m).handle = (w.monitor m).handle

instance : IsPreorder (World σ) (SameSetting m) where
  refl _ := ⟨rfl, rfl, rfl⟩
  trans _ _ _ h h' := ⟨h'.size.trans h.size, h'.global.trans h.global, h'.handle.trans h.handle⟩

theorem sameSetting_onTracer (w : World σ) (f : Tracer → Tracer) :
    SameSetting m w (w.onTracer m f) := by
  refine ⟨rfl, globalOf_onTracer w m f, ?_⟩
  rw [onTracer, monitor_onMonitor]
  split <;> rfl

theorem sameSetting_identify (w : World σ) (id : ObjectId) :
    SameSetting m w (w.identify m id).2 := by
  have hheap : SameSetting m w
      { w with heap := (w.heap.identify (w.globalOf m) (w.nextId m) id).2.2 } := by
    refine ⟨?_, rfl, rfl⟩
    rw [Heap.identify]
    split
    · rfl
    · split
      · rfl
      · exact Array.size_setIfInBounds
  exact trans_of (SameSetting m) hheap
    (sameSetting_onTracer _ fun t => { t with
      nextId := (w.heap.identify (w.globalOf m) (w.nextId m) id).2.1 })

theorem sameSetting_traceKey (w : World σ) (key : RawKey) :
    SameSetting m w (w.traceKey m key).2 :=
  leads_traceKey sameSetting_identify w key

theorem heap_identify_of_unmarked (hne : id ≠ w.globalOf m) (h : w.traceId? id = none) :
    w.heap.identify (w.globalOf m) (w.nextId m) id = (w.nextId m, w.nextId m + 1,
      w.heap.put id ((w.heap.object id).define traceIdProperty (traceMark (w.nextId m))).2) := by
  rw [Heap.identify, if_neg hne, show (w.heap.object id).traceId? = none from h]
  rfl

theorem mark?_identify_of_heap
    (h : (w.heap.identify (w.globalOf m) (w.nextId m) id).2.2 = w.heap) (id' : ObjectId) :
    (w.identify m id).2.mark? id' = w.mark? id' := by
  rw [identify_eq]
  dsimp only
  rw [h]
  rfl

theorem mark?_identify_of_ne {id' : ObjectId} (hne : id' ≠ id) :
    (w.identify m id).2.mark? id' = w.mark? id' := by
  by_cases hglobal : id = w.globalOf m
  · exact mark?_identify_of_heap (by rw [heap_identify_of_global hglobal]) id'
  cases htrace : w.traceId? id with
  | some i => exact mark?_identify_of_heap (by rw [heap_identify_of_marked hglobal htrace]) id'
  | none =>
    rw [identify_eq]
    dsimp only
    rw [heap_identify_of_unmarked hglobal htrace]
    exact congrArg (Object.property? · traceIdProperty) (Heap.object_put_ne _ _ (Ne.symm hne))

theorem identify_of_markable (h : Markable m w id) : (w.identify m id).1 = w.nextId m ∧
    (w.identify m id).2.mark? id = some (traceMark (w.nextId m)) := by
  rw [identify_eq]
  dsimp only
  rw [heap_identify_of_unmarked h.notGlobal h.unmarked]
  exact ⟨rfl, (congrArg (Object.property? · traceIdProperty) (Heap.object_put_self _ _ h.present)).trans
    (Object.property?_define_of_configurable _ h.configurable)⟩

theorem mark?_identify_of_not_markable (hhook : (w.monitor m).handle ≠ some id)
    (h : ¬ Markable m w id) : (w.identify m id).2.mark? id = w.mark? id := by
  by_cases hglobal : id = w.globalOf m
  · exact mark?_identify_of_heap (by rw [heap_identify_of_global hglobal]) id
  cases htrace : w.traceId? id with
  | some i => exact mark?_identify_of_heap (by rw [heap_identify_of_marked hglobal htrace]) id
  | none =>
    rcases Nat.lt_or_ge id w.heap.size with hid | hid
    · have hfixed : ¬ (w.mark? id).all Property.configurable = true := fun hopen =>
        h ⟨hid, hglobal, hhook, htrace, hopen⟩
      rw [identify_eq]
      dsimp only
      rw [heap_identify_of_unmarked hglobal htrace, Object.define_of_fixed _ hfixed]
      exact congrArg (Object.property? · traceIdProperty) (Heap.object_put_self _ _ hid)
    · exact mark?_identify_of_heap (heap_identify_of_dangling hid) id

theorem traceKey_marks (w : World σ) (key : RawKey) (id : ObjectId) :
    ((key.scope = .object id ∧ Markable m w id) ∧
      (w.traceKey m key).1.scope = .identity (w.nextId m) ∧
      (w.traceKey m key).2.mark? id = some (traceMark (w.nextId m))) ∨
    (¬ (key.scope = .object id ∧ Markable m w id) ∧
      (w.traceKey m key).2.mark? id = w.mark? id) := by
  obtain ⟨scope, slot⟩ := key
  cases scope with
  | object id' =>
    by_cases hhook : (w.monitor m).handle = some id'
    · refine .inr ⟨?_, by rw [traceKey_of_hook hhook]⟩
      rintro ⟨⟨⟩, h⟩
      exact h.notHook hhook
    · rw [traceKey_of_object hhook]
      by_cases hid : id = id'
      · subst hid
        by_cases h : Markable m w id
        · obtain ⟨htrace, hmark⟩ := identify_of_markable h
          exact .inl ⟨⟨rfl, h⟩, by rw [htrace]; rfl, hmark⟩
        · exact .inr ⟨fun h' => h h'.2, mark?_identify_of_not_markable hhook h⟩
      · refine .inr ⟨?_, mark?_identify_of_ne hid⟩
        rintro ⟨⟨⟩, -⟩
        exact hid rfl
  | _ => exact .inr ⟨fun h => (by cases h.1), rfl⟩

theorem traceId?_of_traceMark {id : ObjectId} (h : w.mark? id = some (traceMark i)) :
    w.traceId? id ≠ none := by
  unfold mark? at h
  unfold traceId? Object.traceId?
  rw [h]
  exact Option.some_ne_none _

theorem SameSetting.markable_iff (h : SameSetting m w u) (hmark : u.mark? id = w.mark? id) :
    Markable m u id ↔ Markable m w id := by
  have htrace := traceId?_of_mark? hmark
  constructor
  · rintro ⟨hid, hglobal, hhook, hnone, hopen⟩
    exact ⟨h.size ▸ hid, h.global ▸ hglobal, h.handle ▸ hhook, htrace ▸ hnone, hmark ▸ hopen⟩
  · rintro ⟨hid, hglobal, hhook, hnone, hopen⟩
    exact ⟨h.size.symm ▸ hid, h.global.symm ▸ hglobal, h.handle.symm ▸ hhook, htrace.symm ▸ hnone,
      hmark.symm ▸ hopen⟩

theorem nextId_le_traceKey (w : World σ) (key : RawKey) :
    w.nextId m ≤ (w.traceKey m key).2.nextId m := by
  obtain ⟨n, hn, htracer⟩ := (identifies_traceKey (m := m) w key).tracer
  rw [nextId, nextId, htracer]
  exact hn

/-- The world in which both keys of an assignment have been looked up, and the second of them. -/
def keyed (w : World σ) (m : MonitorId) (target source : RawKey) : TraceKey × World σ :=
  (w.traceKey m target).2.traceKey m source

theorem keyed_marks (w : World σ) (target source : RawKey) (id : ObjectId) :
    (((target.scope = .object id ∨ source.scope = .object id) ∧ Markable m w id) ∧
      ∃ i, w.nextId m ≤ i ∧ (w.keyed m target source).2.mark? id = some (traceMark i) ∧
        ((w.traceKey m target).1.scope = .identity i ∨
          (w.keyed m target source).1.scope = .identity i)) ∨
    (¬ ((target.scope = .object id ∨ source.scope = .object id) ∧ Markable m w id) ∧
      (w.keyed m target source).2.mark? id = w.mark? id) := by
  have hsecond := traceKey_marks (m := m) (w.traceKey m target).2 source id
  rcases traceKey_marks (m := m) w target id with ⟨⟨hscope, h⟩, hkey, hmark⟩ | ⟨hnot, hmark⟩
  · rcases hsecond with ⟨⟨-, h'⟩, -⟩ | ⟨-, hsame⟩
    · exact absurd h'.unmarked (traceId?_of_traceMark hmark)
    · exact .inl ⟨⟨.inl hscope, h⟩, _, Nat.le_refl _, hsame.trans hmark, .inl hkey⟩
  · have hmarkable := (sameSetting_traceKey (m := m) w target).markable_iff hmark
    rw [hmarkable] at hsecond
    rcases hsecond with ⟨⟨hscope, h⟩, hkey, hmark'⟩ | ⟨hnot', hsame⟩
    · exact .inl ⟨⟨.inr hscope, h⟩, _, nextId_le_traceKey w target, hmark', .inr hkey⟩
    · refine .inr ⟨?_, hsame.trans hmark⟩
      rintro ⟨hscope | hscope, h⟩
      · exact hnot ⟨hscope, h⟩
      · exact hnot' ⟨hscope, h⟩

end World

inductive Tracer.Stores (t : Tracer) (i : TraceId) : Prop
  | key {key : TraceKey} {item : TraceItem} : t.global.find? key = some item →
      key.scope = .identity i → Stores t i
  | source {key : TraceKey} {item : TraceItem} : t.global.find? key = some item →
      item.source.scope = .identity i → Stores t i
  | entry {f : Frame} {slot : Slot} {item : TraceItem} : f ∈ t.stack.frames →
      f.entries.find? slot = some item → item.source.scope = .identity i → Stores t i
  | result {f : Frame} {item : TraceItem} : f ∈ t.stack.frames → f.calleeReturn = some item →
      item.source.scope = .identity i → Stores t i

namespace Tracer

variable {t t' : Tracer} {i : TraceId} {target source : TraceKey} {value : Value}

theorem Stores.identified {n : TraceId} (h : { t with nextId := n }.Stores i) : t.Stores i := by
  cases h with
  | key hfind hscope => exact .key hfind hscope
  | source hfind hscope => exact .source hfind hscope
  | entry hf hfind hscope => exact .entry hf hfind hscope
  | result hf hreturn hscope => exact .result hf hreturn hscope

theorem Stores.of_eraseLocal {slot : Slot} (h : (t.eraseLocal slot).Stores i) : t.Stores i := by
  cases h with
  | key hfind hscope => exact .key hfind hscope
  | source hfind hscope => exact .source hfind hscope
  | entry hf hfind hscope =>
    rcases List.mem_cons.1 hf with rfl | hf
    · exact .entry List.mem_cons_self (Table.find?_of_find?_erase hfind) hscope
    · exact .entry (List.mem_cons_of_mem _ hf) hfind hscope
  | result hf hreturn hscope =>
    rcases List.mem_cons.1 hf with rfl | hf
    · exact .result List.mem_cons_self hreturn hscope
    · exact .result (List.mem_cons_of_mem _ hf) hreturn hscope

theorem resolve_of_scope (h : source.scope = .identity i) : t.resolve source = source := by
  have hne : source ≠ .here .result := by
    rintro rfl
    cases h
  rw [resolve, if_neg hne]

theorem behind_of_scope (h : source.scope = .identity i) : t.behind source = .ok ([], source) := by
  have hvolatile : source.isVolatile = false := by
    simp [TraceKey.isVolatile, TraceKey.isHere, h]
  rw [behind, hvolatile]
  rfl

theorem Recorded.stores (h : Recorded t target value source t') (htraced : target.isTraced = true)
    (hkept : value.isSuspect = true ∨ isArgument target = true)
    (hi : target.scope = .identity i ∨ source.scope = .identity i) : t'.Stores i := by
  have hkeeps : kept target value = some value := if_pos (by simpa using hkept)
  cases h with
  | nothing hnot =>
    obtain ⟨hhere, hclean⟩ := hnot htraced
    simp [isArgument_of_not_here hhere, hclean] at hkept
  | erased _ _ hnone => cases hnone.symm.trans hkeeps
  | here _ hhere _ =>
    have hsource : source.scope = .identity i := by
      refine hi.resolve_left fun htarget => ?_
      simp [TraceKey.isHere, htarget] at hhere
    refine .entry List.mem_cons_self (Table.find?_insert_self _ _ _) ?_
    rw [resolve_of_scope hsource]
    exact hsource
  | outside _ _ _ hbehind =>
    rcases hi with htarget | hsource
    · exact .key (Table.find?_insert_self _ _ _) htarget
    · rw [resolve_of_scope hsource, behind_of_scope hsource] at hbehind
      cases hbehind
      exact .source (Table.find?_insert_self _ _ _) hsource

theorem Recorded.stores_of_not (h : Recorded t target value source t')
    (hnot : ¬ (target.isTraced = true ∧ (value.isSuspect = true ∨ isArgument target = true)))
    (hi : t'.Stores i) : t.Stores i := by
  cases h with
  | nothing => exact hi
  | erased => exact hi.of_eraseLocal
  | here htraced _ hkept =>
    refine absurd ⟨htraced, ?_⟩ hnot
    by_contra hclean
    rw [kept, if_neg (by simpa using hclean)] at hkept
    cases hkept
  | outside htraced _ hsuspect _ => exact absurd ⟨htraced, .inl hsuspect⟩ hnot

end Tracer

namespace Monitor

variable {w w' : World σ} {value : Value} {target source : RawKey} {id : ObjectId} {i : TraceId}

structure Records (m : MonitorId) (w : World σ) (value : Value) (target source : RawKey) : Prop where
  succeeds : ∃ w', Yields (assign m value target source) w value w'
  traced : (w.traceKey m target).1.isTraced = true
  kept : value.isSuspect = true ∨ Tracer.isArgument (w.traceKey m target).1 = true

def LooksUp (m : MonitorId) (w : World σ) (value : Value) (target : RawKey) : Prop :=
  (w.monitor m).tornDown = false ∧ (target.scope.isObject = true → value.isSuspect = true)

inductive Assigns (m : MonitorId) (w : World σ) (value : Value) (target source : RawKey) :
    World σ → Prop
  | ended : ¬ LooksUp m w value target → Assigns m w value target source w
  | recorded {t' : Tracer} : LooksUp m w value target →
      Tracer.Recorded ((w.keyed m target source).2.monitor m).tracer (w.traceKey m target).1 value
        (w.keyed m target source).1 t' →
      (∃ w', Yields (assign m value target source) w value w') →
      Assigns m w value target source ((w.keyed m target source).2.onTracer m fun _ => t')
  | failed : LooksUp m w value target → (∀ w', ¬ Yields (assign m value target source) w value w') →
      Assigns m w value target source ((w.keyed m target source).2.onTracer m fun _ =>
        ((w.keyed m target source).2.monitor m).tracer)

theorem assigns (w : World σ) (value : Value) (target source : RawKey) :
    Assigns m w value target source ((assign m value target source).run w).2 := by
  cases hlive : (w.monitor m).tornDown with
  | true =>
    rw [assign, run_ensureLive, if_pos hlive]
    exact .ended fun h => by cases hlive.symm.trans h.1
  | false =>
    have hrun : (assign m value target source).run w =
        (if target.scope.isObject && !value.isSuspect then pure value
          else do
            let target ← modifyGet fun w => w.traceKey m target
            let source ← modifyGet fun w => w.traceKey m source
            traced m (Tracer.record target value source)
            return value : HostM σ Value).run w := by
      rw [assign, run_ensureLive, hlive]
      rfl
    split at hrun
    · next hskip =>
      rw [Bool.and_eq_true, Bool.not_eq_true'] at hskip
      rw [hrun]
      exact .ended fun h => by cases hskip.2.symm.trans (h.2 hskip.1)
    · next hskip =>
      have hgoes : LooksUp m w value target := ⟨hlive, by simpa using hskip⟩
      rcases Computation.yields_or_fails (Tracer.record (w.traceKey m target).1 value
        (w.keyed m target source).1) ((w.keyed m target source).2.monitor m).tracer with
        ⟨_, hrecord⟩ | ⟨e, hrecord⟩
      · have hy := hrun.trans (Yields.bind_iff.2 ⟨_, _, rfl, Yields.bind_iff.2 ⟨_, _, rfl,
          Yields.bind_iff.2 ⟨(), _, traced_yields hrecord, rfl⟩⟩⟩)
        rw [hy]
        exact .recorded hgoes (Tracer.recorded_of_yields hrecord) ⟨_, hy⟩
      · rw [Tracer.eq_of_record_fails hrecord] at hrecord
        have hf := hrun.trans (Fails.bind_iff.2 (.inr ⟨_, _, rfl, Fails.bind_iff.2 (.inr ⟨_, _, rfl,
          Fails.bind_iff.2 (.inl (traced_fails hrecord))⟩)⟩))
        rw [hf]
        exact .failed hgoes fun _ hy => hy.not_fails hf

/-- An assignment that does not end at once marks the objects of its keys that can be marked. If it
stores an item, the item names them; if it stores none, nothing is named that was not before. -/
theorem assign_marks_iff (hm : m < w.monitors.size) (value : Value) (target source : RawKey) :
    let w' := ((assign m value target source).run w).2
    (∀ id, w'.mark? id ≠ w.mark? id ↔ LooksUp m w value target ∧
      (target.scope = .object id ∨ source.scope = .object id) ∧ World.Markable m w id) ∧
    (∀ id, w'.mark? id ≠ w.mark? id → ∃ i, w.nextId m ≤ i ∧ w'.mark? id = some (traceMark i) ∧
      (Records m w value target source → (w'.monitor m).tracer.Stores i)) ∧
    (¬ Records m w value target source →
      ∀ i, (w'.monitor m).tracer.Stores i → (w.monitor m).tracer.Stores i) := by
  intro w'
  have hkeyed : World.Identifies m w (w.keyed m target source).2 :=
    trans_of (World.Identifies m) (World.identifies_traceKey w target)
      (World.identifies_traceKey _ source)
  obtain ⟨n, -, htracer⟩ := hkeyed.tracer
  have hstores : ∀ i, ((w.keyed m target source).2.monitor m).tracer.Stores i →
      (w.monitor m).tracer.Stores i := fun i hi => (htracer ▸ hi : Tracer.Stores _ i).identified
  have hmarks : ∀ id, (w.keyed m target source).2.mark? id ≠ w.mark? id ↔
      (target.scope = .object id ∨ source.scope = .object id) ∧ World.Markable m w id := by
    intro id
    rcases w.keyed_marks (m := m) target source id with ⟨h, i, -, hmark, -⟩ | ⟨hnot, hsame⟩
    · refine ⟨fun _ => h, fun _ hsame => ?_⟩
      exact World.traceId?_of_traceMark (hsame.symm.trans hmark) h.2.unmarked
    · exact ⟨fun hne => absurd hsame hne, fun h => absurd h hnot⟩
  -- marks come with looking the keys up, before the tracer is asked
  have hassigns : Assigns m w value target source w' := assigns w value target source
  clear_value w'
  cases hassigns with
  | ended hends =>
    exact ⟨fun id => ⟨fun hne => absurd rfl hne, fun h => absurd h.1 hends⟩,
      fun id hne => absurd rfl hne, fun _ _ hi => hi⟩
  | recorded hgoes hrecorded hy =>
    rw [World.tracer_onTracer (hkeyed.present hm)]
    refine ⟨fun id => (hmarks id).trans (and_iff_right hgoes).symm, fun id hne => ?_,
      fun hnot i hi => hstores i (hrecorded.stores_of_not (fun h => hnot ⟨hy, h.1, h.2⟩) hi)⟩
    rcases w.keyed_marks (m := m) target source id with ⟨-, i, hle, hmark, hscope⟩ | ⟨-, hsame⟩
    · exact ⟨i, hle, hmark, fun h => hrecorded.stores h.traced h.kept hscope⟩
    · exact absurd hsame hne
  | failed hgoes hnone =>
    rw [World.tracer_onTracer (hkeyed.present hm)]
    refine ⟨fun id => (hmarks id).trans (and_iff_right hgoes).symm, fun id hne => ?_,
      fun _ i hi => hstores i hi⟩
    rcases w.keyed_marks (m := m) target source id with ⟨-, i, hle, hmark, -⟩ | ⟨-, hsame⟩
    · refine ⟨i, hle, hmark, fun h => ?_⟩
      obtain ⟨_, hy⟩ := h.succeeds
      exact absurd hy (hnone _)
    · exact absurd hsame hne

def withObject : World Unit :=
  (({ heap := ⟨#[{}, {}]⟩, realms := #[{ global := 0 }], program := () } : World Unit).newMonitor
    0 {}).2

theorem assign_marks_iff_cleanRead : 0 < withObject.monitors.size ∧
    let w' := ((assign 0 (.number (Number.ofNat 3)) { slot := .text "x" }
      { scope := .object 1, slot := .text "p" }).run withObject).2
    w'.mark? 1 ≠ withObject.mark? 1 ∧ ∀ i, ¬ (w'.monitor 0).tracer.Stores i := by
  have hm : 0 < withObject.monitors.size := by decide
  obtain ⟨hmarks, -, hnothing⟩ := assign_marks_iff hm (.number (Number.ofNat 3)) { slot := .text "x" }
    { scope := .object 1, slot := .text "p" }
  refine ⟨hm, (hmarks 1).2 ⟨⟨by decide +kernel, by decide⟩, .inr rfl, ?_⟩, fun i hi => ?_⟩
  · exact ⟨by decide +kernel, by decide +kernel, by decide +kernel, by decide +kernel, by decide +kernel⟩
  · have hstart : (withObject.monitor 0).tracer = .start := by decide +kernel
    have hnot : ¬ Records 0 withObject (.number (Number.ofNat 3)) { slot := .text "x" }
        { scope := .object 1, slot := .text "p" } := fun h => absurd h.kept (by decide +kernel)
    have hbefore := hnothing hnot i hi
    rw [hstart] at hbefore
    rcases hbefore with hfind | hfind | ⟨hf, hfind, -⟩ | ⟨hf, hreturn, -⟩
    · cases hfind
    · cases hfind
    · rw [List.mem_singleton.1 hf] at hfind
      cases hfind
    · rw [List.mem_singleton.1 hf] at hreturn
      cases hreturn

end Monitor

end CoercionTrace
